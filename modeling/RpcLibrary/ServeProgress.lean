import RpcLibrary.ConnectionHandover

/-! When a serving server can stop: when its main thread leaves the loop, and that
it can be brought there from every state its threads can be in as long as none of
them is missing. -/

namespace RpcLibrary

open Runs

/-- The listener for the binder announces termination before it counts itself
out, and the main thread reads the counter after that. -/
structure Serve.Heard (s : Serve) : Prop where
  terminating : s.terminating = true ↔ s.listenToBinder = .countingOut ∨
    s.listenToBinder = .exiting ∨ s.listenToBinder = .exited
  reading : s.main = .readingTotal ∨ s.main.leftLoop = true → s.terminating = true

namespace Serve

theorem Heard.new : Serve.new.Heard where
  terminating := by simp [Serve.new]
  reading h := by rcases h with h | h <;> cases h

theorem Heard.step {s s' : Serve} {e : ServeEvent} (h : s.Heard) (hstarted : s.Started)
    (hs : StepCase s e s') : s'.Heard := by
  obtain ⟨ht, hr⟩ := h
  constructor
  · cases hs with
    | mainCreatesBinderListener hm =>
      rw [hstarted.binder (.inr hm)] at ht
      simpa using ht
    | binderHeardTerminate => simp
    | binderListenerCountsOut hb => simpa [hb, incThreads] using ht
    | binderListenerExits hb => simpa [hb] using ht
    | _ => exact ht
  · intro hreading
    cases hs with
    | mainCounts | mainCreatesBinderListener | mainLosesBinderListener | mainCreatesClientListener
    | mainLosesClientListener =>
      simp [MainPhase.leftLoop] at hreading
    | mainReadsTerminating =>
      by_cases hterminating : s.terminating = true
      · exact hterminating
      · simp [hterminating, MainPhase.leftLoop] at hreading
    | mainReadsTotal hm => exact hr (.inl hm)
    | mainCancels hm | mainJoins hm | mainSends hm => exact hr (.inr (by rw [hm]; rfl))
    | binderHeardTerminate => rfl
    | _ => exact hr hreading

/-- What holds in every state a server reaches. -/
structure Sound (s : Serve) : Prop where
  started : s.Started
  counted : s.Counted
  heard : s.Heard

theorem Sound.step {s s' : Serve} {e : ServeEvent} (h : s.Sound) (hs : StepCase s e s') :
    s'.Sound :=
  ⟨h.started.step hs, h.counted.step h.started hs, h.heard.step h.started hs⟩

end Serve

theorem ServeRun.sound {trace : List (ServeEvent × Option RawMessage)} {s : Serve}
    (hrun : ServeRun trace s) : s.Sound :=
  hrun.history (P := fun _ s => s.Sound) ⟨.new, rfl, .new⟩
    (fun _ _ _ _ _ _ h hs => h.step (Serve.step_cases hs))

def ServeEvent.failsToCreate : ServeEvent → Bool
  | mainCreatesBinderListener created => !created
  | mainCreatesClientListener created => !created
  | listenerCreates created => !created
  | _ => false

/-- While the main thread is in its loop or before it, no thread fails to be created. -/
def CreatesThreads (s : Serve) (e : ServeEvent) : Prop :=
  e.failsToCreate = true → s.main.leftLoop = true

instance (s : Serve) (e : ServeEvent) : Decidable (CreatesThreads s e) :=
  inferInstanceAs (Decidable (_ → _))

/-- No thread is missing that the main thread waits for. -/
structure Serve.Complete (s : Serve) : Prop where
  binder : s.listenToBinder = .notStarted → s.main = .counting ∨ s.main = .creatingBinderListener
  clients : s.listenToClients = .notStarted →
    s.main = .counting ∨ s.main = .creatingBinderListener ∨ s.main = .creatingClientListener
  lost : s.main.leftLoop = false → s.lost = 0

namespace Serve

theorem Complete.new : Serve.new.Complete := ⟨fun _ => .inl rfl, fun _ => .inl rfl, fun _ => rfl⟩

theorem Complete.step {s s' : Serve} {e : ServeEvent} (h : s.Complete)
    (hcreates : CreatesThreads s e) (hs : StepCase s e s') : s'.Complete := by
  obtain ⟨hb, hc, hl⟩ := h
  have hlate : e.failsToCreate = true → s.main.leftLoop ≠ false := fun hf => by simp [hcreates hf]
  refine ⟨fun hn => ?_, fun hn => ?_, fun hloop => ?_⟩
  · cases hs with
    | mainCounts => exact .inr rfl
    | mainLosesBinderListener hm | mainLosesClientListener hm =>
      exact absurd (by rw [hm]; rfl) (hlate rfl)
    | mainCreatesClientListener hm | mainReadsTerminating hm | mainReadsTotal hm | mainCancels hm
    | mainJoins hm | mainSends hm =>
      have hbefore := hb hn
      simp [hm] at hbefore
    | mainCreatesBinderListener | binderHeardTerminate | binderListenerCountsOut
    | binderListenerExits => cases hn
    | _ => exact hb hn
  · cases hs with
    | mainCounts => exact .inr (.inl rfl)
    | mainCreatesBinderListener => exact .inr (.inr rfl)
    | mainLosesBinderListener hm | mainLosesClientListener hm =>
      exact absurd (by rw [hm]; rfl) (hlate rfl)
    | mainReadsTerminating hm | mainReadsTotal hm | mainCancels hm | mainJoins hm | mainSends hm =>
      have hbefore := hc hn
      simp [hm] at hbefore
    | listenerSelects => split_ifs at hn
    | listenerPolls | listenerCreates | listenerLoses => exact absurd hn (next_ne_notStarted _)
    | mainCreatesClientListener | listenerAccepts | listenerCounts | listenerCancelled => cases hn
    | _ => exact hc hn
  · cases hs with
    | mainCounts hm | mainCreatesBinderListener hm | mainLosesBinderListener hm
    | mainCreatesClientListener hm | mainLosesClientListener hm | mainReadsTerminating hm
    | mainReadsTotal hm =>
      exact hl (by rw [hm]; rfl)
    | mainCancels | mainJoins | mainSends => cases hloop
    | listenerLoses => exact absurd hloop (hlate rfl)
    | _ => exact hl hloop

/-- A thread that is missing stays missing. -/
theorem Sound.complete_before {s s' : Serve} {e : ServeEvent} (h : s.Sound) (hs : StepCase s e s')
    (hcomplete : s'.Complete) : s.Complete ∧ CreatesThreads s e := by
  obtain ⟨hb, hc, hl⟩ := hcomplete
  refine ⟨⟨fun hn => ?_, fun hn => ?_, fun hloop => ?_⟩, fun hfails => ?_⟩
  · cases hs with
    | mainCounts hm => exact .inl hm
    | mainCreatesBinderListener hm | mainLosesBinderListener hm => exact .inr hm
    | mainCreatesClientListener | mainLosesClientListener | mainCancels | mainJoins | mainSends =>
      have hafter := hb hn
      simp at hafter
    | mainReadsTerminating | mainReadsTotal =>
      have hafter := hb hn
      split_ifs at hafter <;> simp at hafter
    | binderHeardTerminate hr | binderListenerCountsOut hr | binderListenerExits hr =>
      cases hn.symm.trans hr
    | _ => exact hb hn
  · cases hs with
    | mainCounts hm => exact .inl hm
    | mainCreatesBinderListener hm | mainLosesBinderListener hm => exact .inr (.inl hm)
    | mainCreatesClientListener hm | mainLosesClientListener hm => exact .inr (.inr hm)
    | mainCancels | mainJoins | mainSends =>
      have hafter := hc hn
      simp at hafter
    | mainReadsTerminating | mainReadsTotal =>
      have hafter := hc hn
      split_ifs at hafter <;> simp at hafter
    | listenerSelects hr | listenerAccepts hr | listenerPolls hr | listenerCounts hr
    | listenerCreates hr | listenerLoses hr =>
      cases hn.symm.trans hr
    | listenerCancelled hr =>
      rw [hn] at hr
      cases hr
    | _ => exact hc hn
  · cases hs with
    | mainCounts | mainCreatesBinderListener | mainLosesBinderListener | mainCreatesClientListener
    | mainLosesClientListener => exact hl rfl
    | mainReadsTerminating => exact hl (by split_ifs <;> rfl)
    | mainReadsTotal hm =>
      by_cases htotal : s.totalThreads > 1
      · exact hl (by rw [if_pos htotal]; rfl)
      · exact (h.counted.none_running hm (by omega)).2
    | mainCancels hm | mainJoins hm | mainSends hm =>
      rw [hm] at hloop
      cases hloop
    | listenerLoses => exact absurd (hl hloop) (Nat.succ_ne_zero _)
    | _ => exact hl hloop
  · cases hs with
    | mainLosesBinderListener hm =>
      have hafter := hb (h.started.binder (.inr hm))
      simp at hafter
    | mainLosesClientListener hm =>
      have hafter := hc (h.started.clients (.inr (.inr hm)))
      simp at hafter
    | listenerLoses =>
      by_contra hloop
      exact absurd (hl (Bool.not_eq_true _ ▸ hloop)) (Nat.succ_ne_zero _)
    | _ => cases hfails

/-- The main thread leaves its loop exactly when the listener for the binder has
counted itself out and no client thread runs, is about to be created or could not
be created. -/
theorem Sound.leaves_iff {s : Serve} (h : s.Sound) (hmain : s.main = .readingTotal) :
    s.totalThreads ≤ 1 ↔
      (s.listenToBinder = .exiting ∨ s.listenToBinder = .exited) ∧
        s.listenToClients.creates = false ∧ .running ∉ s.clients ∧ s.lost = 0 := by
  have hcounted := h.counted
  rw [Counted, hmain] at hcounted
  have hbinder : s.listenToBinder.counted = -1 ↔
      s.listenToBinder = .exiting ∨ s.listenToBinder = .exited := by
    cases s.listenToBinder <;> decide
  have hlistener : s.listenToClients.counted = 0 ↔ s.listenToClients.creates = false := by
    cases s.listenToClients <;> simp [ClientListenerPhase.counted, ClientListenerPhase.creates]
  have hlow := s.listenToBinder.neg_one_le_counted
  have hnonneg := s.listenToClients.counted_nonneg
  rw [← hbinder, ← hlistener, ← List.count_eq_zero]
  simp only [MainPhase.counted] at hcounted
  omega

theorem StepCase.leads {s s' : Serve} {e : ServeEvent} (h : StepCase s e s') :
    Leads Serve.step s s' := by
  obtain ⟨o, hrun⟩ := h.run
  exact ⟨_, hrun⟩

theorem Sound.of_leads {s s' : Serve} (hs : s.Sound) (h : Leads Serve.step s s') : s'.Sound :=
  h.invariant hs fun ha hstep => ha.step (step_cases hstep)

theorem leads_to_reading {s : Serve} (h : s.Complete) (hleft : s.main.leftLoop = false) :
    ∃ s', Leads Serve.step s s' ∧ s'.Complete ∧
      (s'.main = .readingTerminating ∨ s'.main = .cancelling) := by
  have hthird (s : Serve) (h : s.Complete) (hm : s.main = .creatingClientListener) :
      ∃ s', Leads Serve.step s s' ∧ s'.Complete ∧
        (s'.main = .readingTerminating ∨ s'.main = .cancelling) := by
    have hcreate := StepCase.mainCreatesClientListener hm
    exact ⟨_, hcreate.leads, h.step (fun hf => by cases hf) hcreate, .inl rfl⟩
  have hsecond (s : Serve) (h : s.Complete) (hm : s.main = .creatingBinderListener) :
      ∃ s', Leads Serve.step s s' ∧ s'.Complete ∧
        (s'.main = .readingTerminating ∨ s'.main = .cancelling) := by
    have hcreate := StepCase.mainCreatesBinderListener hm
    obtain ⟨s', hs', hrest⟩ := hthird _ (h.step (fun hf => by cases hf) hcreate) rfl
    exact ⟨s', hcreate.leads.trans hs', hrest⟩
  cases hm : s.main with
  | counting =>
    have hcount := StepCase.mainCounts hm
    obtain ⟨s', hs', hrest⟩ := hsecond _ (h.step (fun hf => by cases hf) hcount) rfl
    exact ⟨s', hcount.leads.trans hs', hrest⟩
  | creatingBinderListener => exact hsecond s h hm
  | creatingClientListener => exact hthird s h hm
  | readingTerminating => exact ⟨s, .refl _ s, h, .inl hm⟩
  | readingTotal =>
    have hread := StepCase.mainReadsTotal hm
    refine ⟨_, hread.leads, h.step (fun hf => by cases hf) hread, ?_⟩
    by_cases ht : s.totalThreads > 1
    · exact .inl (if_pos ht)
    · exact .inr (if_neg ht)
  | _ =>
    rw [hm] at hleft
    cases hleft

/-- The listener for clients comes through its round, whatever it is doing. -/
theorem leads_to_idle_listener {s : Serve} (h : s.listenToClients ≠ .notStarted) :
    ∃ s', Leads Serve.step s s' ∧ s.ListenerWent s' ∧ s'.listenToClients ≠ .notStarted ∧
      s'.listenToClients.creates = false := by
  by_cases hl : s.listenToClients = .exited
  · exact ⟨s, .refl _ s, .refl s, h, by rw [hl]; rfl⟩
  · obtain ⟨more, s', hrun, hcancellable, hwent⟩ := run_to_cancellable h hl
    refine ⟨s', ⟨more, hrun⟩, hwent, fun hnot => ?_,
      (ClientListenerPhase.cancellable_cases hcancellable).2⟩
    rw [hnot] at hcancellable
    cases hcancellable

/-- The listener for the binder hears of termination and counts itself out. -/
theorem leads_to_terminating {s : Serve} (h : s.listenToBinder ≠ .notStarted) :
    ∃ s', Leads Serve.step s s' ∧ s'.main = s.main ∧ s'.listenToClients = s.listenToClients ∧
      s'.lost = s.lost ∧ (s'.listenToBinder = .exiting ∨ s'.listenToBinder = .exited) := by
  have hcounts (s : Serve) (h : s.listenToBinder = .countingOut) :
      ∃ s', Leads Serve.step s s' ∧ s'.main = s.main ∧ s'.listenToClients = s.listenToClients ∧
        s'.lost = s.lost ∧ (s'.listenToBinder = .exiting ∨ s'.listenToBinder = .exited) :=
    ⟨_, (StepCase.binderListenerCountsOut h).leads, rfl, rfl, rfl, .inl rfl⟩
  cases hb : s.listenToBinder with
  | notStarted => exact absurd hb h
  | receiving =>
    obtain ⟨s', hs', hrest⟩ := hcounts { s with
      terminating := true, listenToBinder := .countingOut } rfl
    exact ⟨s', (StepCase.binderHeardTerminate hb).leads.trans hs', hrest⟩
  | countingOut => exact hcounts s hb
  | exiting => exact ⟨s, .refl _ s, rfl, rfl, rfl, .inl hb⟩
  | exited => exact ⟨s, .refl _ s, rfl, rfl, rfl, .inr hb⟩

/-- The client threads that run count themselves out one by one. -/
theorem leads_to_no_running (n : Nat) {s : Serve} (h : s.clients.count .running = n) :
    ∃ s', Leads Serve.step s s' ∧ s'.main = s.main ∧ s'.listenToBinder = s.listenToBinder ∧
      s'.listenToClients = s.listenToClients ∧ s'.lost = s.lost ∧ .running ∉ s'.clients := by
  induction n generalizing s with
  | zero => exact ⟨s, .refl _ s, rfl, rfl, rfl, rfl, List.count_eq_zero.mp h⟩
  | succ n ih =>
    have hmem : .running ∈ s.clients := List.count_pos_iff.mp (by omega)
    obtain ⟨i, hi⟩ := List.getElem?_of_mem hmem
    have hcount := count_running_set (c := .exiting) hi
    simp only [if_true, reduceCtorEq, if_false] at hcount
    obtain ⟨s', hs', hrest⟩ := ih (s := { s.incThreads (-1) with
      clients := s.clients.set i .exiting }) (by simp only; omega)
    exact ⟨s', (StepCase.threadCountsOut hi).leads.trans hs', hrest⟩

/-- A main thread that reads the counter, with every other thread counted out but
the listener, goes on to stop the listener. -/
theorem Sound.leads_to_cancelling {s : Serve} (h : s.Sound) (hmain : s.main = .readingTerminating)
    (hbinder : s.listenToBinder = .exiting ∨ s.listenToBinder = .exited)
    (hcreates : s.listenToClients.creates = false) (hrunning : .running ∉ s.clients)
    (hlost : s.lost = 0) :
    ∃ s', Leads Serve.step s s' ∧ s'.main = .cancelling ∧
      s'.listenToClients = s.listenToClients := by
  have hread := StepCase.mainReadsTerminating hmain
  have hterminating := h.heard.terminating.mpr (.inr hbinder)
  rw [if_pos hterminating] at hread
  have htotal := ((h.step hread).leaves_iff rfl).mpr ⟨hbinder, hcreates, hrunning, hlost⟩
  have hleave := StepCase.mainReadsTotal (s := { s with main := .readingTotal }) rfl
  rw [if_neg (Int.not_lt.mpr htotal)] at hleave
  exact ⟨_, hread.leads.trans hleave.leads, rfl, rfl⟩

theorem Sound.leads_to_leaving {s : Serve} (h : s.Sound) (hcomplete : s.Complete) :
    ∃ s', Leads Serve.step s s' ∧ s'.main.leftLoop = true ∧ s'.listenToClients ≠ .notStarted := by
  by_cases hleft : s.main.leftLoop = true
  · refine ⟨s, .refl _ s, hleft, fun hl => ?_⟩
    rcases hcomplete.clients hl with hm | hm | hm <;> rw [hm] at hleft <;> cases hleft
  obtain ⟨s₁, h₁, hc₁, hm₁⟩ := leads_to_reading hcomplete (Bool.eq_false_iff.mpr hleft)
  have hlistener : s₁.listenToClients ≠ .notStarted := fun hl => by
    have hearly := hc₁.clients hl
    rcases hm₁ with hm₁ | hm₁ <;> simp [hm₁] at hearly
  rcases hm₁ with hm₁ | hm₁
  · obtain ⟨s₂, h₂, hwent, hl₂, hc₂⟩ := leads_to_idle_listener hlistener
    have hbinder : s₂.listenToBinder ≠ .notStarted := fun hb => by
      have hearly := hc₁.binder (hwent.listenToBinder ▸ hb)
      simp [hm₁] at hearly
    have hlost₁ : s₁.lost = 0 := hc₁.lost (by rw [hm₁]; rfl)
    obtain ⟨s₃, h₃, hm₃, hl₃, hlost₃, hb₃⟩ := leads_to_terminating hbinder
    obtain ⟨s₄, h₄, hm₄, hb₄, hl₄, hlost₄, hr₄⟩ := leads_to_no_running _ (s := s₃) rfl
    have hlead := ((h₁.trans h₂).trans h₃).trans h₄
    obtain ⟨s₅, h₅, hm₅, hl₅⟩ := (h.of_leads hlead).leads_to_cancelling
      (hm₄.trans (hm₃.trans (hwent.main.trans hm₁))) (hb₄ ▸ hb₃) (by rw [hl₄, hl₃, hc₂]) hr₄
      (hlost₄.trans (hlost₃.trans (hwent.lost.trans hlost₁)))
    exact ⟨s₅, hlead.trans h₅, by rw [hm₅]; rfl, by rwa [hl₅, hl₄, hl₃]⟩
  · exact ⟨s₁, h₁, by rw [hm₁]; rfl, hlistener⟩

theorem Sound.leads_to_returned {s : Serve} (h : s.Sound) (hcomplete : s.Complete) :
    ∃ s', Leads Serve.step s s' ∧ s'.main = .returned := by
  have hsends (s : Serve) (h : s.main = .sending) :
      ∃ s', Leads Serve.step s s' ∧ s'.main = .returned := ⟨_, (StepCase.mainSends h).leads, rfl⟩
  obtain ⟨s₁, h₁, hleft, hlistener⟩ := h.leads_to_leaving hcomplete
  cases hm : s₁.main with
  | returned => exact ⟨s₁, h₁, hm⟩
  | sending =>
    obtain ⟨s₂, h₂, hm₂⟩ := hsends s₁ hm
    exact ⟨s₂, h₁.trans h₂, hm₂⟩
  | cancelling =>
    obtain ⟨more, s₂, hrun, hm₂, -⟩ :=
      run_to_sending_of_leftLoop (h.of_leads h₁).started hlistener (.inl hm)
    obtain ⟨s₃, h₃, hm₃⟩ := hsends s₂ hm₂
    exact ⟨s₃, (h₁.trans ⟨more, hrun⟩).trans h₃, hm₃⟩
  | joining =>
    obtain ⟨more, s₂, hrun, hm₂, -⟩ :=
      run_to_sending_of_leftLoop (h.of_leads h₁).started hlistener (.inr hm)
    obtain ⟨s₃, h₃, hm₃⟩ := hsends s₂ hm₂
    exact ⟨s₃, (h₁.trans ⟨more, hrun⟩).trans h₃, hm₃⟩
  | _ =>
    rw [hm] at hleft
    cases hleft

theorem Sound.complete_of_returned {s : Serve} (h : s.Sound) (hmain : s.main = .returned) :
    s.Complete := by
  have hleft : s.main.leftLoop = true := by rw [hmain]; rfl
  refine ⟨fun hb => ?_, fun hl => ?_, fun hloop => ?_⟩
  · have hheard := h.heard.terminating.mp (h.heard.reading (.inr hleft))
    simp [hb] at hheard
  · cases hl.symm.trans (h.started.joined (.inr hmain))
  · cases hleft.symm.trans hloop

end Serve

theorem ServeRun.complete_iff {trace : List (ServeEvent × Option RawMessage)} {s : Serve}
    (hrun : ServeRun trace s) : s.Complete ↔ EachStep Serve.step CreatesThreads .new trace := by
  refine Run.holds_iff_each hrun .new fun past a e o b hr hs => ?_
  have hcase := Serve.step_cases hs
  exact ⟨(ServeRun.sound hr).complete_before hcase, fun ⟨h, hcreates⟩ => h.step hcreates hcase⟩

/-- However the threads of a server have run, its main thread leaves the loop when
and only when nothing is counted any more but the listener for clients, and there
are further steps that bring it there and let it report and return when and only
when no thread could not be created before it left its loop. -/
theorem server_can_stop {trace : List (ServeEvent × Option RawMessage)} {s : Serve}
    (hrun : ServeRun trace s) :
    (s.main = .readingTotal → (s.totalThreads ≤ 1 ↔
      (s.listenToBinder = .exiting ∨ s.listenToBinder = .exited) ∧
        s.listenToClients.creates = false ∧ .running ∉ s.clients ∧ s.lost = 0)) ∧
    ((∃ more s', ServeRun (trace ++ more) s' ∧ s'.main = .returned) ↔
      EachStep Serve.step CreatesThreads .new trace) := by
  have h := hrun.sound
  refine ⟨h.leaves_iff, fun ⟨more, s', hrun', hmain⟩ => ?_, fun hcreates => ?_⟩
  · have hcomplete := (ServeRun.sound hrun').complete_of_returned hmain
    exact (hrun'.complete_iff.mp hcomplete).of_append
  · obtain ⟨s', ⟨more, hmore⟩, hm⟩ := h.leads_to_returned (hrun.complete_iff.mpr hcreates)
    exact ⟨more, s', hrun.append hmore, hm⟩

/-- A client is being served, and one waits for its thread. -/
def sampleBusyTrace : List (ServeEvent × Option RawMessage) :=
  [.mainCounts, .mainCreatesBinderListener true, .mainCreatesClientListener true,
    .listenerSelects true, .listenerAccepts true, .listenerPolls 1, .listenerCounts,
    .listenerCreates true, .listenerSelects true, .listenerAccepts true, .listenerPolls 1,
    .listenerCounts].map fun e => (e, none)

theorem server_can_stop_sample :
    ∃ more s', ServeRun (sampleBusyTrace ++ more) s' ∧ s'.main = .returned := by
  obtain ⟨s, hrun, -⟩ : ∃ s, ServeRun sampleBusyTrace s ∧ s.totalThreads = 4 :=
    Run.of_exec_map (f := Serve.totalThreads) (by decide)
  exact (server_can_stop hrun).2.mpr (.of_check (by decide))

end RpcLibrary
