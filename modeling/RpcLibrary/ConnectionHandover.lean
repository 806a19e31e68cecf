import RpcLibrary.ServingProcess

/-! Every connection that a serving server accepts has one owner until it is
closed: the server, or the one thread it was handed to. -/

namespace RpcLibrary

open Runs

theorem reduceOption_set_none {threads : List (Option TcpSocket)} {i : Nat} {client : TcpSocket}
    (h : threads[i]? = some (some client)) :
    threads.reduceOption.Perm (client :: (threads.set i none).reduceOption) := by
  induction threads generalizing i with
  | nil => simp at h
  | cons thread threads ih =>
    cases i with
    | zero =>
      obtain rfl : thread = some client := by simpa using h
      simp [List.reduceOption_cons_of_some, List.reduceOption_cons_of_none]
    | succ i =>
      have hi := ih (i := i) (by simpa using h)
      cases thread with
      | none => simpa [List.reduceOption_cons_of_none] using hi
      | some other =>
        rw [List.set_cons_succ, List.reduceOption_cons_of_some, List.reduceOption_cons_of_some]
        exact (hi.cons other).trans (.swap client other _)

namespace ServingProcess

theorem unmanaged_creates (s : ServingProcess) (serve : Serve) :
    ({ s with serve, released := none, threads := s.threads ++ [s.released] } :
      ServingProcess).unmanaged.Perm s.unmanaged := by
  cases hr : s.released with
  | none => simp [unmanaged, held, hr, List.reduceOption_append, List.reduceOption_singleton]
  | some client =>
    refine List.Perm.append_right s.leaked ?_
    simp [held, hr, List.reduceOption_append, List.reduceOption_singleton]

theorem unmanaged_loses (s : ServingProcess) (serve : Serve) :
    ({ s with serve, released := none, leaked := s.leaked ++ s.released.toList } :
      ServingProcess).unmanaged.Perm s.unmanaged := by
  simp only [unmanaged, held, Option.toList_none, List.nil_append, List.append_assoc]
  rw [← List.append_assoc]
  exact List.perm_append_comm

theorem unmanaged_released {s : ServingProcess} {serve : Serve} {process : Process}
    {polled : List TcpSocket} {client : TcpSocket} (h : s.released = none) :
    ({ s with serve, process, polled, released := some client } : ServingProcess).unmanaged =
      client :: s.unmanaged := by
  simp [unmanaged, held, h]

theorem unmanaged_deletes {s : ServingProcess} {process : Process} {i : Nat} {client : TcpSocket}
    (h : s.threads[i]? = some (some client)) :
    s.unmanaged.Perm (client ::
      ({ s with process, threads := s.threads.set i none } : ServingProcess).unmanaged) := by
  have hthreads := (reduceOption_set_none h).append_left s.released.toList
  exact (hthreads.trans List.perm_middle).append_right s.leaked

theorem mem_unmanaged_of_thread {s : ServingProcess} {i : Nat} {client : TcpSocket}
    (h : s.threads[i]? = some (some client)) : client ∈ s.unmanaged :=
  List.mem_append_left _
    (List.mem_append_right _ (List.reduceOption_mem_iff.mpr (List.mem_of_getElem? h)))

theorem Custody.of_unmanaged_perm {s t : ServingProcess} (h : s.Custody)
    (hprocess : t.process = s.process) (hpolled : t.polled = s.polled)
    (hperm : t.unmanaged.Perm s.unmanaged) : t.Custody := by
  obtain ⟨kept, polled, nodup, foreign, distinct⟩ := h
  refine ⟨hprocess ▸ kept, ?_, hpolled ▸ nodup, fun client hc => ?_, ?_⟩
  · rw [hpolled, hprocess]
    exact polled
  · rw [hprocess]
    exact foreign client (hperm.mem_iff.mp hc)
  · exact (hperm.map _).nodup_iff.mpr distinct

theorem InStep.none_released {s : ServingProcess} {o : Option RawMessage} {serve : Serve}
    (h : s.InStep) (hs : s.serve.step .listenerCounts = some (o, serve)) : s.released = none := by
  cases Serve.step_cases hs with
  | listenerCounts hl =>
    have hr := h.released
    rw [hl] at hr
    exact Option.not_isSome_iff_eq_none.mp (Bool.eq_false_iff.mp hr)

theorem Custody.step {s t : ServingProcess} {output : ServingOutput} (h : s.Custody)
    (hin : s.InStep) (hs : StepCase s output t) : t.Custody := by
  cases hs with
  | proceeds => exact h.of_unmanaged_perm rfl rfl (.refl _)
  | selects => exact h.of_unmanaged_perm rfl rfl (.refl _)
  | acceptsNobody => exact h.of_unmanaged_perm rfl rfl (.refl _)
  | @accepts client o serve hfresh _ =>
    refine ⟨h.kept.accepted hfresh, fun client' hc => ?_, h.nodup, h.foreign, h.distinct⟩
    exact (Process.manages_accepted h.kept hfresh).mpr (.inl (h.polled client' hc))
  | @polls ready polled o serve hpoll _ =>
    obtain ⟨clients, hc, hnodup, hmem⟩ := h.kept.connectionsWithData ready
    obtain rfl := Except.ok.inj (hpoll.symm.trans hc)
    exact ⟨h.kept, fun client hm => ((hmem client).mp hm).2, hnodup, h.foreign, h.distinct⟩
  | @releases client polled o serve hpolled hcounts =>
    have hnone := hin.none_released hcounts
    have hm : s.process.server.Manages client := h.polled client (by simp [hpolled])
    have hnodup := h.nodup
    rw [hpolled, List.nodup_cons] at hnodup
    have hkept := h.kept.step (.releases hm)
    refine ⟨hkept, fun client' hc => ?_, hnodup.2, fun client' hc => ?_, ?_⟩
    · refine (Process.manages_forgotten h.kept.toBookkeeping hm).mpr ⟨h.polled client' ?_, ?_⟩
      · exact hpolled ▸ List.mem_cons_of_mem client hc
      · exact fun he => hnodup.1 (he ▸ hc)
    · rw [unmanaged_released hnone] at hc
      rcases List.mem_cons.mp hc with rfl | hc
      · exact Finset.mem_insert_self ..
      · exact Finset.mem_insert_of_mem (h.foreign client' hc)
    · rw [unmanaged_released hnone, List.map_cons, List.nodup_cons]
      refine ⟨fun hc => ?_, h.distinct⟩
      obtain ⟨client', hc, hfd⟩ := List.mem_map.mp hc
      have hmaster := (h.kept.mem_master_of_manages hm).1
      exact (h.kept.foreign _ (h.foreign client' hc)).2 (hfd ▸ hmaster)
  | creates => exact h.of_unmanaged_perm rfl rfl (unmanaged_creates s _)
  | loses => exact h.of_unmanaged_perm rfl rfl (unmanaged_loses s _)
  | @deletes i client ht =>
    have hperm := @unmanaged_deletes s { s.process.close client.fd with
      foreign := s.process.foreign.erase client.fd } i client ht
    have hfd := h.foreign client (mem_unmanaged_of_thread ht)
    have hdistinct := (hperm.map TcpSocket.fd).nodup_iff.mp h.distinct
    rw [List.map_cons, List.nodup_cons] at hdistinct
    refine ⟨h.kept.step (.closesElsewhere hfd), h.polled, h.nodup, fun client' hc => ?_,
      hdistinct.2⟩
    have hne : client'.fd ≠ client.fd := fun he =>
      hdistinct.1 (he ▸ List.mem_map_of_mem hc)
    exact Finset.mem_erase.mpr ⟨hne, h.foreign client' (hperm.mem_iff.mpr (.tail _ hc))⟩
  | countsOut => exact h.of_unmanaged_perm rfl rfl (.refl _)
  | opensElsewhere hfd =>
    refine ⟨h.kept.step (.opensElsewhere hfd), h.polled, h.nodup, fun client hc => ?_, h.distinct⟩
    exact Finset.mem_insert_of_mem (h.foreign client hc)
  | closesElsewhere hfd hheld =>
    refine ⟨h.kept.step (.closesElsewhere hfd), h.polled, h.nodup, fun client hc => ?_, h.distinct⟩
    exact Finset.mem_erase.mpr ⟨hheld client hc, h.foreign client hc⟩

theorem InStep.proceeds {s : ServingProcess} {serve : Serve} (h : s.InStep)
    (hstarted : serve.Started) (hmanaged : serve.managed = s.serve.managed)
    (hleft : serve.listenToClients.left = s.serve.listenToClients.left)
    (hcreates : serve.listenToClients.creates = s.serve.listenToClients.creates)
    (hlength : serve.clients.length = s.serve.clients.length) (hlost : serve.lost = s.serve.lost)
    (hserving : ∀ (i : Nat) client, s.threads[i]? = some (some client) →
      s.serve.clients[i]? = some .running → serve.clients[i]? = some .running) :
    ({ s with serve } : ServingProcess).InStep where
  started := hstarted
  managed := hmanaged.trans h.managed
  polled := h.polled.trans hleft.symm
  released := h.released.trans hcreates.symm
  threads := h.threads.trans hlength.symm
  leaked := h.leaked.trans hlost.symm
  serving i client ht := hserving i client ht (h.serving i client ht)

theorem InStep.step {s t : ServingProcess} {output : ServingOutput} (h : s.InStep)
    (hc : s.Custody) (hs : StepCase s output t) : t.InStep := by
  cases hs with
  | proceeds he hserve =>
    have hcase := Serve.step_cases hserve
    obtain ⟨hmanaged, hleft, hcreates, hlength, hlost, hrunning⟩ :=
      hcase.connections_kept h.started he
    exact h.proceeds (h.started.step hcase) hmanaged hleft hcreates hlength hlost
      fun i _ _ => hrunning i
  | @selects ready o serve hserve =>
    have hcase := Serve.step_cases hserve
    have hstarted := h.started.step hcase
    cases hcase with
    | listenerSelects hl =>
      apply h.proceeds hstarted rfl _ _ rfl rfl (fun _ _ _ hr => hr) <;> rw [hl] <;>
        cases ready <;> rfl
  | acceptsNobody hserve =>
    have hcase := Serve.step_cases hserve
    have hstarted := h.started.step hcase
    cases hcase with
    | listenerAccepts hl =>
      apply h.proceeds hstarted rfl _ _ rfl rfl (fun _ _ _ hr => hr) <;> rw [hl] <;> rfl
  | accepts hfresh hserve =>
    have hcase := Serve.step_cases hserve
    have hstarted := h.started.step hcase
    have hlength := (Process.clients_accepted hc.kept hfresh).length_eq
    cases hcase with
    | listenerAccepts hl =>
      refine ⟨hstarted, ?_, ?_, ?_, h.threads, h.leaked, h.serving⟩
      · exact (congrArg (· + 1) h.managed).trans hlength.symm
      · exact h.polled.trans (by rw [hl]; rfl)
      · exact h.released.trans (by rw [hl]; rfl)
  | polls hpoll hserve =>
    have hcase := Serve.step_cases hserve
    have hstarted := h.started.step hcase
    cases hcase with
    | listenerPolls hl hready =>
      refine ⟨hstarted, h.managed, ?_, ?_, h.threads, h.leaked, h.serving⟩
      · exact (ClientListenerPhase.left_next _).symm
      · exact (h.released.trans (by rw [hl]; rfl)).trans (ClientListenerPhase.creates_next _).symm
  | @releases client polled o serve hpolled hserve =>
    have hcase := Serve.step_cases hserve
    have hstarted := h.started.step hcase
    have hm : s.process.server.Manages client := hc.polled client (by simp [hpolled])
    have hlength := (Process.clients_forgotten hc.kept hm).length_eq
    cases hcase with
    | listenerCounts hl =>
      refine ⟨hstarted, ?_, ?_, rfl, h.threads, h.leaked, h.serving⟩
      · have hmanaged := h.managed
        simp only [List.length_cons] at hlength
        change s.serve.managed - 1 = (s.process.forgotten client).clients.length
        omega
      · have hleft := h.polled
        rw [hpolled, hl] at hleft
        exact Nat.succ.inj hleft
  | creates hserve =>
    have hcase := Serve.step_cases hserve
    have hstarted := h.started.step hcase
    cases hcase with
    | listenerCreates hl =>
      have hlength := h.threads
      refine ⟨hstarted, h.managed, ?_, ?_, ?_, h.leaked, fun i client ht => ?_⟩
      · exact (h.polled.trans (by rw [hl]; rfl)).trans (ClientListenerPhase.left_next _).symm
      · exact (ClientListenerPhase.creates_next _).symm
      · simp [hlength]
      · rcases Nat.lt_trichotomy i s.threads.length with hi | hi | hi
        · rw [List.getElem?_append_left hi] at ht
          rw [List.getElem?_append_left (hlength ▸ hi)]
          exact h.serving i client ht
        · subst hi
          simp [hlength]
        · rw [List.getElem?_eq_none (by simp; omega)] at ht
          cases ht
  | loses hserve =>
    have hcase := Serve.step_cases hserve
    have hstarted := h.started.step hcase
    cases hcase with
    | listenerLoses hl =>
      have hreleased := h.released
      rw [hl] at hreleased
      obtain ⟨client, hclient⟩ := Option.isSome_iff_exists.mp hreleased
      refine ⟨hstarted, h.managed, ?_, ?_, h.threads, ?_, h.serving⟩
      · exact (h.polled.trans (by rw [hl]; rfl)).trans (ClientListenerPhase.left_next _).symm
      · exact (ClientListenerPhase.creates_next _).symm
      · simp [hclient, h.leaked]
  | @deletes i client ht =>
    refine ⟨h.started, h.managed, h.polled, h.released, ?_, h.leaked, fun j client' hj => ?_⟩
    · exact (List.length_set ..).trans h.threads
    · by_cases hij : i = j
      · subst hij
        rw [List.getElem?_set_self (List.getElem?_eq_some_iff.mp ht).1] at hj
        cases hj
      · exact h.serving j client' (by rwa [List.getElem?_set_ne hij] at hj)
  | @countsOut i o serve ht hserve =>
    have hcase := Serve.step_cases hserve
    have hstarted := h.started.step hcase
    cases hcase with
    | threadCountsOut =>
      refine h.proceeds hstarted rfl rfl rfl (List.length_set ..) rfl fun j client hj hr => ?_
      have hij : i ≠ j := by
        rintro rfl
        cases ht.symm.trans hj
      rw [List.getElem?_set_ne hij, hr]
  | opensElsewhere =>
    exact ⟨h.started, h.managed, h.polled, h.released, h.threads, h.leaked, h.serving⟩
  | closesElsewhere =>
    exact ⟨h.started, h.managed, h.polled, h.released, h.threads, h.leaked, h.serving⟩

end ServingProcess

abbrev ServingRun (listener : Fd) (foreign : Finset Fd)
    (trace : List (ServingEvent × ServingOutput)) (s : ServingProcess) : Prop :=
  Run ServingProcess.step (.new listener foreign) trace s

theorem ServingRun.sound {trace : List (ServingEvent × ServingOutput)} {s : ServingProcess}
    {listener : Fd} {foreign : Finset Fd} (hrun : ServingRun listener foreign trace s) :
    s.Custody ∧ s.InStep := by
  refine hrun.history (P := fun _ s => s.Custody ∧ s.InStep) ⟨?_, ?_⟩ ?_
  · exact ⟨.new listener foreign, by simp [ServingProcess.new], .nil,
      by simp [ServingProcess.new, ServingProcess.unmanaged, ServingProcess.held], .nil⟩
  · exact ⟨.new, rfl, rfl, rfl, rfl, rfl, by simp [ServingProcess.new]⟩
  · rintro _ s e output t - ⟨hc, hin⟩ hs
    have hcase := hc.step_cases hs
    exact ⟨hc.step hin hcase, hin.step hc hcase⟩

namespace ServingProcess

/-- The connections of a process that are accepted and not deleted. -/
def connections (s : ServingProcess) : List TcpSocket := s.process.server.clients ++ s.unmanaged

theorem StepCase.conserves {s t : ServingProcess} {output : ServingOutput} (hc : s.Custody)
    (hin : s.InStep) (hs : StepCase s output t) :
    (s.connections ++ output.accepted).Perm (t.connections ++ output.deleted) := by
  cases hs with
  | accepts hfresh =>
    have hclients := (Process.clients_accepted hc.kept hfresh).symm
    rw [List.append_nil]
    exact (List.perm_append_singleton ..).trans (hclients.append_right s.unmanaged)
  | @releases client polled o serve hpolled hcounts =>
    have hm : s.process.server.Manages client := hc.polled client (by simp [hpolled])
    have hclients := Process.clients_forgotten hc.kept hm
    simp only [connections, List.append_nil, unmanaged_released (hin.none_released hcounts)]
    exact (hclients.append_right _).trans List.perm_middle.symm
  | creates =>
    simpa only [connections, List.append_nil] using (unmanaged_creates s _).symm.append_left _
  | loses =>
    simpa only [connections, List.append_nil] using (unmanaged_loses s _).symm.append_left _
  | @deletes i client ht =>
    have hheld := (@unmanaged_deletes s { s.process.close client.fd with
      foreign := s.process.foreign.erase client.fd } i client ht).append_left
        s.process.server.clients
    simp only [connections, List.append_nil]
    refine hheld.trans (List.perm_middle.trans ?_)
    exact (List.perm_append_singleton ..).symm
  | _ => exact .refl _

theorem StepCase.run_serve {s t : ServingProcess} {output : ServingOutput}
    (hs : StepCase s output t) : Run Serve.step s.serve output.threads t.serve := by
  cases hs with
  | deletes => exact .nil _
  | opensElsewhere => exact .nil _
  | closesElsewhere => exact .nil _
  | _ => exact .single ‹_›

theorem Custody.distinct_connections {s : ServingProcess} (h : s.Custody) :
    (s.connections.map TcpSocket.fd).Nodup := by
  have hclients (client : TcpSocket) (hc : client ∈ s.process.server.clients) :
      s.process.server.Manages client := by
    obtain ⟨e, he, rfl⟩ := List.mem_map.mp hc
    exact ⟨e, he, rfl⟩
  rw [connections, List.map_append, List.nodup_append]
  refine ⟨?_, h.distinct, fun fd hfd fd' hfd' he => ?_⟩
  · have hkeys : s.process.server.clients.map TcpSocket.fd =
        s.process.server.connections.elems.map Prod.fst := by
      rw [TcpServer.clients, List.map_map]
      exact List.map_congr_left h.kept.fd
    rw [hkeys]
    exact List.pairwise_map.mpr (s.process.server.connections.sorted.imp fun hlt => hlt.ne)
  · obtain ⟨client, hc, rfl⟩ := List.mem_map.mp hfd
    obtain ⟨client', hc', rfl⟩ := List.mem_map.mp hfd'
    have hmaster := (h.kept.mem_master_of_manages (hclients client hc)).1
    exact (h.kept.foreign _ (h.foreign client' hc')).2 (he ▸ hmaster)

theorem Custody.open_connections {s : ServingProcess} (h : s.Custody) {client : TcpSocket}
    (hc : client ∈ s.connections) : client.fd ∈ s.process.openFds := by
  rcases List.mem_append.mp hc with hc | hc
  · obtain ⟨e, he, rfl⟩ := List.mem_map.mp hc
    exact h.kept.opened _ (h.kept.mem_master_of_manages ⟨e, he, rfl⟩).1
  · exact (h.kept.foreign _ (h.foreign client hc)).1

/-- The listener never stops short: a poll finds each descriptor it asks for and
no more connections than there are, and there is one to release and to hand to a
thread whenever it comes to that. -/
theorem InStep.listener_proceeds {s : ServingProcess} (h : s.InStep) (hc : s.Custody) :
    (s.serve.listenToClients = .polling → ∀ ready, (s.step (.polls (some ready))).isSome = true) ∧
    (∀ left, s.serve.listenToClients = .counting left → (s.step .releases).isSome = true) ∧
    (∀ left, s.serve.listenToClients = .creating left →
      s.released.isSome = true ∧ ∀ created, (s.step (.creates created)).isSome = true) := by
  refine ⟨fun hl ready => ?_, fun left hl => ?_, fun left hl => ?_⟩
  · obtain ⟨clients, hclients, hnodup, hmem⟩ := hc.kept.connectionsWithData ready
    have hsub : clients ⊆ s.process.server.clients := by
      intro client hm
      obtain ⟨e, he, rfl⟩ := ((hmem client).mp hm).2
      exact List.mem_map_of_mem he
    have hle : clients.length ≤ s.serve.managed :=
      h.managed ▸ (hnodup.subperm hsub).length_le
    simp [ServingProcess.step, hclients, along, Serve.step, hl, hle]
  · have hpolled := h.polled
    rw [hl] at hpolled
    obtain ⟨client, polled, hp⟩ := List.exists_cons_of_length_eq_add_one hpolled
    simp [ServingProcess.step, hp, along, Serve.step, hl]
  · have hreleased := h.released
    rw [hl] at hreleased
    refine ⟨hreleased, fun created => ?_⟩
    cases created <;> simp [ServingProcess.step, along, Serve.step, hl]

end ServingProcess

theorem ServingRun.conserved {trace : List (ServingEvent × ServingOutput)} {s : ServingProcess}
    {listener : Fd} {foreign : Finset Fd} (hrun : ServingRun listener foreign trace s) :
    (trace.flatMap fun e => e.2.accepted).Perm
      (s.connections ++ trace.flatMap fun e => e.2.deleted) := by
  have hstep past a e output b (hr : ServingRun listener foreign past a)
      (hs : ServingProcess.step a e = some (output, b)) :
      (a.connections ++ output.accepted).Perm (b.connections ++ output.deleted) := by
    obtain ⟨hc, hin⟩ := ServingRun.sound hr
    exact (hc.step_cases hs).conserves hc hin
  exact Run.conserved hrun hstep

theorem ServingRun.serveRun {trace : List (ServingEvent × ServingOutput)} {s : ServingProcess}
    {listener : Fd} {foreign : Finset Fd} (hrun : ServingRun listener foreign trace s) :
    ServeRun (trace.flatMap fun e => e.2.threads) s.serve := by
  refine hrun.history
    (P := fun past s => ServeRun (past.flatMap fun e => e.2.threads) s.serve) (.nil _) ?_
  intro past a e output b hr h hs
  rw [List.flatMap_append, List.flatMap_singleton]
  exact h.append ((ServingRun.sound hr).1.step_cases hs).run_serve

theorem ServeRun.lost_eq {trace : List (ServeEvent × Option RawMessage)} {s : Serve}
    (hrun : ServeRun trace s) : s.lost = (trace.map Prod.fst).count (.listenerCreates false) := by
  refine hrun.history
    (P := fun past s => s.lost = (past.map Prod.fst).count (.listenerCreates false)) rfl ?_
  intro past a e o b _ h hs
  rw [List.map_append, List.count_append, ← h]
  cases Serve.step_cases hs <;> simp [Serve.incThreads]

/-- A descriptor comes back for a new connection while the thread that had the
old one is still to count itself out. -/
def sampleServingTrace : List (ServingEvent × ServingOutput) :=
  [(.proceeds .mainCounts, { threads := [(.mainCounts, none)] }),
    (.proceeds (.mainCreatesBinderListener true),
      { threads := [(.mainCreatesBinderListener true, none)] }),
    (.proceeds (.mainCreatesClientListener true),
      { threads := [(.mainCreatesClientListener true, none)] }),
    (.selects (some {3}), { threads := [(.listenerSelects true, none)] }),
    (.accepts (some (4, 100)),
      { threads := [(.listenerAccepts true, none)], accepted := [⟨100, 4⟩] }),
    (.polls (some {4}), { threads := [(.listenerPolls 1, none)] }),
    (.releases, { threads := [(.listenerCounts, none)] }),
    (.creates true, { threads := [(.listenerCreates true, none)] }),
    (.deletes 0, { deleted := [⟨100, 4⟩] }),
    (.selects (some {3}), { threads := [(.listenerSelects true, none)] }),
    (.accepts (some (4, 300)),
      { threads := [(.listenerAccepts true, none)], accepted := [⟨300, 4⟩] }),
    (.countsOut 0, { threads := [(.threadCountsOut 0, none)] })]

/-- In every run of a serving server, whatever its threads and the rest of the
process do in between, each accepted connection is in one place until it is
deleted once: with the server, on its way to a thread, with one thread, or lost,
which happens once for each client thread that cannot be created. The descriptors
of all of them are open and differ, so no thread uses or closes one of another. -/
theorem handed_over_once {trace : List (ServingEvent × ServingOutput)} {s : ServingProcess}
    {listener : Fd} {foreign : Finset Fd} (hrun : ServingRun listener foreign trace s) :
    (trace.flatMap fun e => e.2.accepted).Perm
      (s.process.server.clients ++ (s.held ++ s.leaked) ++ trace.flatMap fun e => e.2.deleted) ∧
    s.leaked.length = ((trace.flatMap fun e => e.2.threads).map Prod.fst).count
      (.listenerCreates false) ∧
    ((s.process.server.clients ++ (s.held ++ s.leaked)).map TcpSocket.fd).Nodup ∧
    (∀ client ∈ s.process.server.clients ++ (s.held ++ s.leaked),
      client.fd ∈ s.process.openFds) ∧
    (s.serve.listenToClients = .polling → ∀ ready, (s.step (.polls (some ready))).isSome = true) ∧
    (∀ left, s.serve.listenToClients = .counting left → (s.step .releases).isSome = true) ∧
    (∀ left, s.serve.listenToClients = .creating left →
      s.released.isSome = true ∧ ∀ created, (s.step (.creates created)).isSome = true) ∧
    ServeRun (trace.flatMap fun e => e.2.threads) s.serve := by
  obtain ⟨hc, hin⟩ := hrun.sound
  obtain ⟨hpolls, hreleases, hcreates⟩ := hin.listener_proceeds hc
  exact ⟨hrun.conserved, hin.leaked.trans hrun.serveRun.lost_eq, hc.distinct_connections,
    fun client hm => hc.open_connections hm, hpolls, hreleases, hcreates, hrun.serveRun⟩

/-- The second client's thread cannot be created. -/
def sampleLeakTrace : List (ServingEvent × ServingOutput) :=
  sampleServingTrace ++
    [(.polls (some {4}), { threads := [(.listenerPolls 1, none)] }),
      (.releases, { threads := [(.listenerCounts, none)] }),
      (.creates false, { threads := [(.listenerCreates false, none)] })]

theorem handed_over_once_sample :
    ∃ s, ServingRun 3 {0} sampleLeakTrace s ∧ s.leaked = [⟨300, 4⟩] ∧
      (sampleLeakTrace.flatMap fun e => e.2.accepted).Perm
        (s.process.server.clients ++ (s.held ++ s.leaked) ++
          sampleLeakTrace.flatMap fun e => e.2.deleted) := by
  obtain ⟨s, hrun, hleaked⟩ : ∃ s, ServingRun 3 {0} sampleLeakTrace s ∧ s.leaked = [⟨300, 4⟩] :=
    Run.of_exec_map (f := ServingProcess.leaked) (by decide)
  exact ⟨s, hrun, hleaked, (handed_over_once hrun).1⟩

theorem length_reduceOption_le {threads : List (Option TcpSocket)}
    {clients : List ClientThreadPhase} (h : ∀ (i : Nat) client, threads[i]? = some (some client) →
      clients[i]? = some .running) : threads.reduceOption.length ≤ clients.count .running := by
  induction threads generalizing clients with
  | nil => simp
  | cons thread threads ih =>
    cases clients with
    | nil =>
      have hnone (i : Nat) (client : TcpSocket) : (thread :: threads)[i]? ≠ some (some client) :=
        fun hi => by simpa using h i client hi
      have hempty : (thread :: threads).reduceOption = [] := by
        apply List.eq_nil_iff_forall_not_mem.mpr
        intro client hc
        obtain ⟨i, hi⟩ := List.getElem?_of_mem (List.reduceOption_mem_iff.mp hc)
        exact hnone i client hi
      simp [hempty]
    | cons phase clients =>
      have hrest := @ih clients fun i client hi => h (i + 1) client hi
      cases thread with
      | none =>
        rw [List.reduceOption_cons_of_none]
        exact hrest.trans (List.count_le_count_cons ..)
      | some client =>
        obtain rfl : phase = .running := by simpa using h 0 client rfl
        rw [List.reduceOption_cons_of_some, List.length_cons, List.count_cons_self]
        omega

/-- The counter of threads counts one at least for each connection that the server
has forgotten and nobody has deleted, besides the listener. -/
theorem ServingProcess.InStep.unmanaged_length_le {s : ServingProcess} (h : s.InStep)
    (hcounted : s.serve.Counted) (hmain : s.serve.main ≠ .counting) :
    (s.unmanaged.length : Int) + 1 ≤ s.serve.totalThreads := by
  have hthreads := length_reduceOption_le h.serving
  have hbinder := s.serve.listenToBinder.neg_one_le_counted
  have hstarted : s.serve.main.counted = 2 := by
    cases hm : s.serve.main <;> first | rfl | exact absurd hm hmain
  have hreleased : (s.released.toList.length : Int) = s.serve.listenToClients.counted := by
    have hr := h.released
    cases hl : s.serve.listenToClients <;> cases hs : s.released <;> rw [hl, hs] at hr <;>
      first | rfl | cases hr
  have hlength : s.unmanaged.length =
      s.released.toList.length + s.threads.reduceOption.length + s.serve.lost := by
    rw [unmanaged, held, List.length_append, List.length_append, h.leaked]
  rw [Serve.Counted, hstarted] at hcounted
  omega

/-- No attempt to create a client thread comes after the main thread's loop. -/
def NoLateCreate (s : Serve) (e : ServeEvent) : Prop :=
  ∀ created, e = .listenerCreates created → s.main.leftLoop = false

instance (s : Serve) (e : ServeEvent) : Decidable (NoLateCreate s e) :=
  inferInstanceAs (Decidable (∀ _, _ → _))

def Serve.NoneLost (s : Serve) : Prop := s.main.leftLoop = true → s.lost = 0

theorem Serve.NoneLost.step {s s' : Serve} {e : ServeEvent} (h : s.NoneLost)
    (hcounted : s.Counted) (hlate : NoLateCreate s e) (hs : StepCase s e s') : s'.NoneLost := by
  intro hleft
  rcases leftLoop_cases hs hleft with hbefore | ⟨-, hm, ht, -, hlost⟩
  · cases hs with
    | listenerLoses => exact absurd (hbefore.symm.trans (hlate false rfl)) Bool.noConfusion
    | _ => exact h hbefore
  · rw [hlost]
    exact (hcounted.none_running hm ht).2

/-- While a connection is with a thread, on its way to one or lost the main thread
sees a counter above one. So when it reports termination every connection handed
over has been deleted, provided no thread was to be created after it stopped waiting. -/
theorem deleted_before_report {trace : List (ServingEvent × ServingOutput)} {s : ServingProcess}
    {listener : Fd} {foreign : Finset Fd} (hrun : ServingRun listener foreign trace s) :
    (s.serve.main ≠ .counting →
      ((s.held ++ s.leaked).length : Int) + 1 ≤ s.serve.totalThreads) ∧
    (EachStep Serve.step NoLateCreate .new (trace.flatMap fun e => e.2.threads) →
      s.serve.main = .sending →
      (trace.flatMap fun e => e.2.accepted).Perm
        (s.process.server.clients ++ trace.flatMap fun e => e.2.deleted)) := by
  obtain ⟨-, hin⟩ := hrun.sound
  refine ⟨hin.unmanaged_length_le hrun.serveRun.counted, fun hlate hsends => ?_⟩
  obtain ⟨hidle, hlost⟩ : s.serve.Idle ∧ s.serve.NoneLost := by
    refine hrun.serveRun.history_of_each (P := fun _ s => s.Idle ∧ s.NoneLost) hlate
      ⟨fun h => (by cases h), fun h => (by cases h)⟩ ?_
    intro past a e o b hr ⟨hidle, hlost⟩ hl hs
    have hcase := Serve.step_cases hs
    exact ⟨hidle.step (ServeRun.counted hr) (hl true) hcase,
      hlost.step (ServeRun.counted hr) hl hcase⟩
  have hnone := hidle (by rw [hsends]; rfl)
  have hreleased : s.released = none := by
    have hr := hin.released
    rw [hin.started.joined (.inl hsends)] at hr
    exact Option.not_isSome_iff_eq_none.mp (Bool.eq_false_iff.mp hr)
  have hunmanaged : s.unmanaged = [] := by
    have hthreads := length_reduceOption_le hin.serving
    rw [List.count_eq_zero.mpr hnone, Nat.le_zero, List.length_eq_zero_iff] at hthreads
    have hleaked := hin.leaked.trans (hlost (by rw [hsends]; rfl))
    rw [ServingProcess.unmanaged, ServingProcess.held, hreleased, hthreads,
      List.length_eq_zero_iff.mp hleaked]
    rfl
  have hconserved := hrun.conserved
  rwa [ServingProcess.connections, hunmanaged, List.append_nil] at hconserved

def sampleReportTrace : List (ServingEvent × ServingOutput) :=
  sampleServingTrace ++
    ([.binderHeard true, .binderListenerCountsOut, .mainReadsTerminating, .mainReadsTotal,
      .mainCancels, .listenerCancelled, .mainJoins].map fun e =>
        (.proceeds e, { threads := [(e, none)] }))

theorem deleted_before_report_sample :
    ∃ s, ServingRun 3 {0} sampleReportTrace s ∧
      (sampleReportTrace.flatMap fun e => e.2.accepted).Perm
        (s.process.server.clients ++ sampleReportTrace.flatMap fun e => e.2.deleted) := by
  obtain ⟨s, hrun, hsends⟩ : ∃ s, ServingRun 3 {0} sampleReportTrace s ∧ s.serve.main = .sending :=
    Run.of_exec_map (f := fun s : ServingProcess => s.serve.main) (by decide)
  have hlate : EachStep Serve.step NoLateCreate .new
      (sampleReportTrace.flatMap fun e => e.2.threads) := .of_check (by decide)
  exact ⟨s, hrun, (deleted_before_report hrun).2 hlate hsends⟩

end RpcLibrary
