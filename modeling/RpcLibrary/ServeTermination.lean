import RpcLibrary.ServeThreads
import RpcLibrary.Runs

/-! What the counter of running threads counts, and what a server has left running
when it reports that it terminates. -/

namespace RpcLibrary

open Runs

def MainPhase.counted : MainPhase → Int
  | counting => 0
  | _ => 2

def BinderListenerPhase.counted : BinderListenerPhase → Int
  | exiting => -1
  | exited => -1
  | _ => 0

def ClientListenerPhase.counted : ClientListenerPhase → Int
  | creating _ => 1
  | _ => 0

theorem ClientListenerPhase.counted_next (n : Nat) : (next n).counted = 0 := by cases n <;> rfl

theorem ClientListenerPhase.counted_of_cancellable {l : ClientListenerPhase}
    (h : l.cancellable = true) : l.counted = 0 := by
  cases l <;> first | rfl | cases h

/-- What the counter counts: the two listeners, less the one for the binder when
it is done, and the client threads that are about to be created, run or could not
be created. -/
def Serve.Counted (s : Serve) : Prop :=
  s.totalThreads = s.main.counted + s.listenToBinder.counted + s.listenToClients.counted +
    s.clients.count .running + s.lost

/-- The listeners start when the main thread creates them, it joins the one for
clients after the request to cancel it, and reports once that one has exited. -/
structure Serve.Started (s : Serve) : Prop where
  binder : s.main = .counting ∨ s.main = .creatingBinderListener → s.listenToBinder = .notStarted
  clients : s.main = .counting ∨ s.main = .creatingBinderListener ∨
    s.main = .creatingClientListener → s.listenToClients = .notStarted
  served : s.listenToClients = .notStarted → s.clients = []
  joining : s.main = .joining → s.cancelRequested = true ∧ s.listenToClients ≠ .notStarted
  joined : s.main = .sending ∨ s.main = .returned → s.listenToClients = .exited

namespace Serve

theorem next_ne_notStarted (n : Nat) : ClientListenerPhase.next n ≠ .notStarted := by
  cases n <;> exact fun h => by cases h

theorem Started.new : Serve.new.Started where
  binder _ := rfl
  clients _ := rfl
  served _ := rfl
  joining h := by cases h
  joined h := by rcases h with h | h <;> cases h

theorem Started.step {s s' : Serve} {e : ServeEvent} (h : s.Started) (hs : StepCase s e s') :
    s'.Started := by
  obtain ⟨hb, hc, hv, hj, hd⟩ := h
  cases hs <;> constructor <;>
    grind [incThreads, next_ne_notStarted, ClientListenerPhase.cancellable]

theorem count_running_set {clients : List ClientThreadPhase} {i : Nat} {a c : ClientThreadPhase}
    (h : clients[i]? = some a) :
    (clients.set i c).count .running + (if a = .running then 1 else 0) =
      clients.count .running + (if c = .running then 1 else 0) := by
  obtain ⟨hi, rfl⟩ := List.getElem?_eq_some_iff.mp h
  have hpos : clients[i] = .running → 1 ≤ clients.count .running := fun he =>
    List.count_pos_iff.mpr (he ▸ List.getElem_mem hi)
  rw [List.count_set hi]
  simp only [beq_iff_eq]
  split_ifs with ha <;> grind

theorem Counted.step {s s' : Serve} {e : ServeEvent} (h : s.Counted) (hstarted : s.Started)
    (hs : StepCase s e s') : s'.Counted := by
  unfold Counted at h ⊢
  cases hs with
  | mainCounts hm =>
    rw [hm] at h
    simp only [MainPhase.counted, incThreads] at h ⊢
    omega
  | mainCreatesBinderListener hm =>
    rw [hm, hstarted.binder (.inr hm)] at h
    exact h
  | mainCreatesClientListener hm =>
    rw [hm, hstarted.clients (.inr (.inr hm))] at h
    exact h
  | mainLosesBinderListener hm | mainLosesClientListener hm | mainCancels hm | mainJoins hm
  | mainSends hm =>
    rw [hm] at h
    exact h
  | mainReadsTerminating hm =>
    rw [hm] at h
    cases s.terminating <;> exact h
  | mainReadsTotal hm =>
    rw [hm] at h
    split_ifs <;> exact h
  | binderHeardTerminate hb | binderListenerExits hb =>
    rw [hb] at h
    exact h
  | binderHeardOther => exact h
  | binderListenerCountsOut hb =>
    rw [hb] at h
    simp only [BinderListenerPhase.counted, incThreads] at h ⊢
    omega
  | @listenerSelects ready hl =>
    rw [hl] at h
    cases ready <;> exact h
  | listenerAccepts hl =>
    rw [hl] at h
    exact h
  | listenerPolls hl _ =>
    rw [hl] at h
    rw [ClientListenerPhase.counted_next]
    exact h
  | listenerCounts hl =>
    rw [hl] at h
    simp only [ClientListenerPhase.counted, incThreads] at h ⊢
    omega
  | listenerCreates hl =>
    rw [hl] at h
    rw [ClientListenerPhase.counted_next, List.count_append, List.count_singleton_self]
    simp only [ClientListenerPhase.counted] at h ⊢
    omega
  | listenerLoses hl =>
    rw [hl] at h
    rw [ClientListenerPhase.counted_next]
    simp only [ClientListenerPhase.counted] at h ⊢
    omega
  | listenerCancelled hl _ =>
    rw [ClientListenerPhase.counted_of_cancellable hl] at h
    exact h
  | threadCountsOut ht =>
    have hcount := count_running_set (c := .exiting) ht
    simp only [incThreads, if_true, reduceCtorEq, if_false] at h hcount ⊢
    omega
  | threadExits ht =>
    have hcount := count_running_set (c := .exited) ht
    simp only [reduceCtorEq, if_false] at h hcount ⊢
    omega

end Serve

abbrev ServeRun (trace : List (ServeEvent × Option RawMessage)) (s : Serve) : Prop :=
  Run Serve.step .new trace s

theorem ServeRun.started {trace : List (ServeEvent × Option RawMessage)} {s : Serve}
    (hrun : ServeRun trace s) : s.Started :=
  hrun.history (P := fun _ s => s.Started) .new
    (fun _ _ _ _ _ _ h hs => h.step (Serve.step_cases hs))

theorem ServeRun.counted {trace : List (ServeEvent × Option RawMessage)} {s : Serve}
    (hrun : ServeRun trace s) : s.Counted :=
  hrun.history (P := fun _ s => s.Counted) rfl
    (fun _ _ _ _ _ hr h hs => h.step (ServeRun.started hr) (Serve.step_cases hs))

def MainPhase.leftLoop : MainPhase → Bool
  | cancelling => true
  | joining => true
  | sending => true
  | returned => true
  | _ => false

def NoLateThread (s : Serve) (e : ServeEvent) : Prop :=
  e = .listenerCreates true → s.main.leftLoop = false

def WaitsForExits (s : Serve) (e : ServeEvent) : Prop :=
  e = .mainReadsTotal → s.totalThreads ≤ 1 → .exiting ∉ s.clients

instance (s : Serve) (e : ServeEvent) : Decidable (NoLateThread s e) :=
  inferInstanceAs (Decidable (_ → _))

instance (s : Serve) (e : ServeEvent) : Decidable (WaitsForExits s e) :=
  inferInstanceAs (Decidable (_ → _ → _))

theorem BinderListenerPhase.neg_one_le_counted (b : BinderListenerPhase) : -1 ≤ b.counted := by
  cases b <;> decide

theorem ClientListenerPhase.counted_nonneg (l : ClientListenerPhase) : 0 ≤ l.counted := by
  cases l <;> simp [counted]

namespace Serve

def Idle (s : Serve) : Prop := s.main.leftLoop = true → .running ∉ s.clients

def AllExited (s : Serve) : Prop := s.main.leftLoop = true → ∀ c ∈ s.clients, c = .exited

theorem Counted.none_running {s : Serve} (h : s.Counted) (hm : s.main = .readingTotal)
    (ht : s.totalThreads ≤ 1) : .running ∉ s.clients ∧ s.lost = 0 := by
  have hb := s.listenToBinder.neg_one_le_counted
  have hl := s.listenToClients.counted_nonneg
  rw [Counted, hm] at h
  simp only [MainPhase.counted] at h
  exact ⟨List.count_eq_zero.mp (by omega), by omega⟩

theorem leftLoop_cases {s s' : Serve} {e : ServeEvent} (hs : StepCase s e s')
    (hleft : s'.main.leftLoop = true) :
    s.main.leftLoop = true ∨
      (e = .mainReadsTotal ∧ s.main = .readingTotal ∧ s.totalThreads ≤ 1 ∧
        s'.clients = s.clients ∧ s'.lost = s.lost) := by
  cases hs <;> grind [MainPhase.leftLoop, incThreads]

theorem mem_clients_cases {s s' : Serve} {e : ServeEvent} (hs : StepCase s e s')
    {c : ClientThreadPhase} (hc : c ∈ s'.clients) :
    c ∈ s.clients ∨ (e = .listenerCreates true ∧ c = .running) ∨
      (.running ∈ s.clients ∧ c = .exiting) ∨ (.exiting ∈ s.clients ∧ c = .exited) := by
  cases hs with
  | listenerCreates =>
    rcases List.mem_append.mp hc with hc | hc
    · exact .inl hc
    · exact .inr (.inl ⟨rfl, List.mem_singleton.mp hc⟩)
  | threadCountsOut ht =>
    rcases List.mem_or_eq_of_mem_set hc with hc | hc
    · exact .inl hc
    · exact .inr (.inr (.inl ⟨List.mem_of_getElem? ht, hc⟩))
  | threadExits ht =>
    rcases List.mem_or_eq_of_mem_set hc with hc | hc
    · exact .inl hc
    · exact .inr (.inr (.inr ⟨List.mem_of_getElem? ht, hc⟩))
  | _ => exact .inl hc

theorem Idle.step {s s' : Serve} {e : ServeEvent} (h : s.Idle) (hcounted : s.Counted)
    (hlate : NoLateThread s e) (hs : StepCase s e s') : s'.Idle := by
  intro hleft hc
  rcases leftLoop_cases hs hleft with hleft | ⟨-, hm, ht, hclients, -⟩
  · rcases mem_clients_cases hs hc with hc | ⟨rfl, -⟩ | ⟨-, he⟩ | ⟨-, he⟩
    · exact h hleft hc
    · exact absurd (hleft.symm.trans (hlate rfl)) Bool.noConfusion
    · cases he
    · cases he
  · rw [hclients] at hc
    exact (hcounted.none_running hm ht).1 hc

theorem AllExited.step {s s' : Serve} {e : ServeEvent} (h : s.AllExited) (hcounted : s.Counted)
    (hlate : NoLateThread s e) (hwaits : WaitsForExits s e) (hs : StepCase s e s') :
    s'.AllExited := by
  intro hleft c hc
  rcases leftLoop_cases hs hleft with hleft | ⟨rfl, hm, ht, hclients, -⟩
  · rcases mem_clients_cases hs hc with hc | ⟨rfl, -⟩ | ⟨hrunning, -⟩ | ⟨-, he⟩
    · exact h hleft c hc
    · exact absurd (hleft.symm.trans (hlate rfl)) Bool.noConfusion
    · cases h hleft _ hrunning
    · exact he
  · rw [hclients] at hc
    cases c with
    | running => exact absurd hc (hcounted.none_running hm ht).1
    | exiting => exact absurd hc (hwaits rfl ht)
    | exited => rfl

end Serve

/-- When the main thread reports termination, no client thread serves any more
provided none was created late, and all of them have exited provided the main
thread waited for that too. -/
theorem reports_when_idle {trace : List (ServeEvent × Option RawMessage)} {s : Serve}
    (hrun : ServeRun trace s) (hlate : EachStep Serve.step NoLateThread .new trace)
    (hsends : s.main = .sending) :
    .running ∉ s.clients ∧
      (EachStep Serve.step WaitsForExits .new trace → ∀ c ∈ s.clients, c = .exited) := by
  have hleft : s.main.leftLoop = true := by rw [hsends]; rfl
  constructor
  · refine hrun.history_of_each (P := fun _ s => s.Idle) hlate (fun h => by cases h) ?_ hleft
    intro past a e o b hr h hl hs
    exact h.step (ServeRun.counted hr) hl (Serve.step_cases hs)
  · intro hwaits
    refine hrun.history_of_each (P := fun past s => EachStep Serve.step WaitsForExits .new past →
      s.AllExited) hlate (fun _ h => by cases h) ?_ hwaits hleft
    intro past a e o b hr h hl hs hw
    exact (h hw.of_append).step (ServeRun.counted hr) hl (hw.last hr) (Serve.step_cases hs)

namespace Serve

theorem StepCase.run {s s' : Serve} {e : ServeEvent} (h : StepCase s e s') :
    ∃ o, Run Serve.step s [(e, o)] s' := by
  have hstep : ∃ o, s.step e = some (o, s') := by
    cases h <;> simp [Serve.step, *]
  obtain ⟨o, hs⟩ := hstep
  exact ⟨o, .single hs⟩

/-- Only the listener for clients has gone on, and created threads. -/
structure ListenerWent (s s' : Serve) : Prop where
  main : s'.main = s.main
  cancelRequested : s'.cancelRequested = s.cancelRequested
  listenToBinder : s'.listenToBinder = s.listenToBinder
  lost : s'.lost = s.lost
  clients : s.clients <+: s'.clients

theorem ListenerWent.refl (s : Serve) : s.ListenerWent s := ⟨rfl, rfl, rfl, rfl, List.prefix_rfl⟩

/-- The listener comes through the connections of a poll without any other
thread. -/
theorem run_round (left : Nat) {s : Serve} (h : s.listenToClients = .next left) :
    ∃ more s', Run Serve.step s more s' ∧ s'.listenToClients = .selecting ∧ s.ListenerWent s' := by
  induction left generalizing s with
  | zero => exact ⟨[], s, .nil s, h, .refl s⟩
  | succ left ih =>
    obtain ⟨o, hcount⟩ := (StepCase.listenerCounts h).run
    obtain ⟨o', hcreate⟩ := (StepCase.listenerCreates (s := { s.incThreads 1 with
      managed := s.managed - 1, listenToClients := .creating left }) rfl).run
    obtain ⟨more, s', hrun, hl, hwent⟩ := ih (s := { s.incThreads 1 with
      managed := s.managed - 1, clients := s.clients ++ [.running],
      listenToClients := .next left }) rfl
    exact ⟨_, s', (hcount.append hcreate).append hrun, hl, hwent.main, hwent.cancelRequested,
      hwent.listenToBinder, hwent.lost, (List.prefix_append ..).trans hwent.clients⟩

theorem run_to_cancellable {s : Serve} (h : s.listenToClients ≠ .notStarted)
    (h' : s.listenToClients ≠ .exited) :
    ∃ more s', Run Serve.step s more s' ∧ s'.listenToClients.cancellable = true ∧
      s.ListenerWent s' := by
  cases hl : s.listenToClients with
  | notStarted => exact absurd hl h
  | exited => exact absurd hl h'
  | selecting => exact ⟨[], s, .nil s, by rw [hl]; rfl, .refl s⟩
  | accepting => exact ⟨[], s, .nil s, by rw [hl]; rfl, .refl s⟩
  | polling => exact ⟨[], s, .nil s, by rw [hl]; rfl, .refl s⟩
  | counting left =>
    obtain ⟨more, s', hrun, hl', hwent⟩ := run_round (left + 1) hl
    exact ⟨more, s', hrun, by rw [hl']; rfl, hwent⟩
  | creating left =>
    obtain ⟨o, hcreate⟩ := (StepCase.listenerCreates hl).run
    obtain ⟨more, s', hrun, hl', hwent⟩ := run_round left (s := { s with
      clients := s.clients ++ [.running], listenToClients := .next left }) rfl
    exact ⟨_, s', hcreate.append hrun, by rw [hl']; rfl, hwent.main, hwent.cancelRequested,
      hwent.listenToBinder, hwent.lost, (List.prefix_append ..).trans hwent.clients⟩

theorem run_to_sending {s : Serve} (hstarted : s.listenToClients ≠ .notStarted)
    (hmain : s.main = .joining) (hcancel : s.cancelRequested = true) :
    ∃ more s', Run Serve.step s more s' ∧ s'.main = .sending ∧ s.clients <+: s'.clients := by
  by_cases hl : s.listenToClients = .exited
  · obtain ⟨o, hjoin⟩ := (StepCase.mainJoins hmain hl).run
    exact ⟨_, _, hjoin, rfl, List.prefix_rfl⟩
  · obtain ⟨more, s', hrun, hl', hwent⟩ := run_to_cancellable hstarted hl
    obtain ⟨o, hstop⟩ :=
      (StepCase.listenerCancelled hl' (hwent.cancelRequested.trans hcancel)).run
    obtain ⟨o', hjoin⟩ := (StepCase.mainJoins (s := { s' with listenToClients := .exited })
      (hwent.main.trans hmain) rfl).run
    exact ⟨_, _, (hrun.append hstop).append hjoin, rfl, hwent.clients⟩

/-- Once the main thread waits no longer, whatever the client threads do, it can
report before any of them takes another step. -/
theorem run_to_sending_of_leftLoop {s : Serve} (hstarted : s.Started)
    (hnot : s.listenToClients ≠ .notStarted)
    (hmain : s.main = .cancelling ∨ s.main = .joining) :
    ∃ more s', Run Serve.step s more s' ∧ s'.main = .sending ∧ s.clients <+: s'.clients := by
  rcases hmain with hm | hm
  · obtain ⟨o, hcancel⟩ := (StepCase.mainCancels hm hnot).run
    obtain ⟨more, s', hrun, hs', hpre⟩ := run_to_sending
      (s := { s with cancelRequested := true, main := .joining }) hnot rfl rfl
    exact ⟨_, s', hcancel.append hrun, hs', hpre⟩
  · exact run_to_sending hnot hm (hstarted.joining hm).1

end Serve

/-- The condition on late threads is exact: wherever a step breaks it, the run can
go on to a report while that thread is running. -/
theorem reports_while_serving_of_late {trace : List (ServeEvent × Option RawMessage)}
    {s s' : Serve} {e : ServeEvent} {o : Option RawMessage} (hrun : ServeRun trace s)
    (hs : s.step e = some (o, s')) (hlate : ¬ NoLateThread s e) :
    ∃ more s'', ServeRun (trace ++ (e, o) :: more) s'' ∧ s''.main = .sending ∧
      .running ∈ s''.clients := by
  obtain ⟨rfl, hleft⟩ := Classical.not_imp.mp hlate
  have hrun' : ServeRun (trace ++ [(.listenerCreates true, o)]) s' := hrun.append (.single hs)
  have hstarted := hrun.started
  cases Serve.step_cases hs with
  | @listenerCreates left hl =>
    have hmain : s.main = .cancelling ∨ s.main = .joining := by
      cases hm : s.main with
      | cancelling => exact .inl rfl
      | joining => exact .inr rfl
      | sending => cases hl.symm.trans (hstarted.joined (.inl hm))
      | returned => cases hl.symm.trans (hstarted.joined (.inr hm))
      | _ => exact absurd (by rw [hm]; rfl) hleft
    obtain ⟨more, s'', hrun'', hs'', hpre⟩ := Serve.run_to_sending_of_leftLoop
      (ServeRun.started hrun') (Serve.next_ne_notStarted left) hmain
    refine ⟨more, s'', ?_, hs'', hpre.subset (by simp)⟩
    rw [List.append_cons]
    exact hrun'.append hrun''

/-- And so is the condition on threads that have not exited. -/
theorem reports_before_exit {trace : List (ServeEvent × Option RawMessage)} {s s' : Serve}
    {e : ServeEvent} {o : Option RawMessage} (hrun : ServeRun trace s)
    (hs : s.step e = some (o, s')) (hwaits : ¬ WaitsForExits s e) :
    ∃ more s'', ServeRun (trace ++ (e, o) :: more) s'' ∧ s''.main = .sending ∧
      .exiting ∈ s''.clients := by
  obtain ⟨rfl, hnot⟩ := Classical.not_imp.mp hwaits
  obtain ⟨htotal, hexiting⟩ := Classical.not_imp.mp hnot
  rw [not_not] at hexiting
  have hrun' : ServeRun (trace ++ [(.mainReadsTotal, o)]) s' := hrun.append (.single hs)
  cases Serve.step_cases hs with
  | mainReadsTotal hm =>
    rw [if_neg (not_lt.mpr htotal)] at hrun'
    have hnot : s.listenToClients ≠ .notStarted := fun hl => by
      rw [hrun.started.served hl] at hexiting
      cases hexiting
    obtain ⟨more, s'', hrun'', hs'', hpre⟩ :=
      Serve.run_to_sending_of_leftLoop (ServeRun.started hrun') hnot (.inl rfl)
    refine ⟨more, s'', ?_, hs'', hpre.subset hexiting⟩
    rw [List.append_cons]
    exact hrun'.append hrun''

theorem reports_when_idle_sample :
    ∃ s, ServeRun [(.mainCounts, none), (.mainCreatesBinderListener true, none),
        (.mainCreatesClientListener true, none), (.listenerSelects true, none),
        (.listenerAccepts true, none), (.listenerPolls 1, none), (.listenerCounts, none),
        (.listenerCreates true, none), (.mainReadsTerminating, none), (.threadCountsOut 0, none),
        (.threadExits 0, none), (.binderHeard true, none), (.binderListenerCountsOut, none),
        (.mainReadsTerminating, none), (.mainReadsTotal, none), (.mainCancels, none),
        (.listenerCancelled, none), (.mainJoins, none)] s ∧
      s.clients.length = 1 ∧ .running ∉ s.clients ∧ ∀ c ∈ s.clients, c = .exited := by
  refine (Run.of_exec_map (f := fun s : Serve => (s.main, s.clients.length)) (a := (.sending, 1))
    (by decide)).imp fun s hs => ⟨hs.1, ?_⟩
  obtain ⟨hsends, hlength⟩ := Prod.mk.inj hs.2
  obtain ⟨hidle, hexited⟩ := reports_when_idle hs.1 (.of_check (by decide)) hsends
  exact ⟨hlength, hidle, hexited (.of_check (by decide))⟩

/-- A connection that the listener has polled but not counted when the main
thread reads the counter: its thread runs while termination is reported. -/
theorem reports_while_serving :
    ∃ s, ServeRun [(.mainCounts, none), (.mainCreatesBinderListener true, none),
        (.mainCreatesClientListener true, none), (.listenerSelects true, none),
        (.listenerAccepts true, none), (.listenerPolls 1, none), (.binderHeard true, none),
        (.binderListenerCountsOut, none), (.mainReadsTerminating, none), (.mainReadsTotal, none),
        (.listenerCounts, none), (.listenerCreates true, none), (.mainCancels, none),
        (.listenerCancelled, none), (.mainJoins, none),
        (.mainSends, some (StatusMessage.serialize (⟨0⟩ : TerminateSuccess)))] s ∧
      .running ∈ s.clients := by
  refine (Run.of_exec_map (f := Serve.clients) (a := [.running]) (by decide)).imp fun s hs =>
    ⟨hs.1, ?_⟩
  rw [hs.2]
  exact List.mem_cons_self

end RpcLibrary
