import RpcLibrary.TerminationInvariant

/-! Runs of the protocol: when what the binder hears from a server that it told to
terminate is the answer of that server. -/

namespace RpcLibrary

open Runs

abbrev ProtocolRun (programs : SocketPtr → Program)
    (trace : List (ProtocolEvent × Option RawMessage)) (net : Network) : Prop :=
  Run Network.step (Network.new programs) trace net

abbrev EachSettled (programs : SocketPtr → Program)
    (trace : List (ProtocolEvent × Option RawMessage)) : Prop :=
  EachStep Network.step SettledWhenTold (Network.new programs) trace

namespace ProtocolRun

variable {programs : SocketPtr → Program} {trace : List (ProtocolEvent × Option RawMessage)}
  {net : Network}

theorem sound (hrun : ProtocolRun programs trace net) (heach : EachSettled programs trace) :
    net.loop = .ended ∨ net.Sound programs := by
  refine hrun.history_of_each heach (P := fun _ net => net.loop = .ended ∨ net.Sound programs)
    (.inr (Network.Sound.new programs)) fun past a e o b _ ha hsettled hs => ?_
  rcases ha with ha | ha
  · cases Network.step_cases hs with
    | peer hs => exact .inl ha
    | _ hloop => cases ha.symm.trans hloop
  · exact ha.step hsettled (Network.step_cases hs)

theorem sound_of_loop (hrun : ProtocolRun programs trace net) (heach : EachSettled programs trace)
    (hloop : net.loop ≠ .ended) : net.Sound programs := (sound hrun heach).resolve_left hloop

theorem exists_current (hrun : ProtocolRun programs trace net) {client : SocketPtr}
    {exchanges : List TerminateExchange} (hloop : net.loop = .hearing client exchanges) :
    ∃ s, net.current? = some s := by
  revert hloop
  refine hrun.history (P := fun _ net => net.loop = .hearing client exchanges →
    ∃ s, net.current? = some s) LoopPhase.noConfusion fun past a i o b _ ih hab hloop => ?_
  rcases (Network.step_cases hab).of_hearing hloop with ⟨ha, hcur⟩ | hcur
  · rw [hcur]
    exact ih ha
  · exact hcur

/-- What is true of a peer only from one of its events on has that event behind it. -/
theorem happened {Q : PeerPhase → Bool → Prop} {e : PeerEvent}
    (hstart : ∀ program : Program, ¬ Q program.start.peer program.start.failed)
    (hstep : ∀ l l' e' o, Link.step l e' = some (o, l') → Q l'.peer l'.failed →
      Q l.peer l.failed ∨ e' = e)
    (hrun : ProtocolRun programs trace net) (s : SocketPtr)
    (hs : Q (net.links s).peer (net.links s).failed) : .peer s e ∈ trace.map Prod.fst := by
  revert hs
  refine hrun.history (P := fun past net => Q (net.links s).peer (net.links s).failed →
    .peer s e ∈ past.map Prod.fst) (fun h => absurd h (hstart _)) ?_
  intro past a i o b _ ih hab hb
  rw [List.map_append]
  rcases (Network.step_cases hab).peer_or_same s with ⟨e', rfl, hl⟩ | ⟨hp, hf⟩
  · rcases hstep _ _ _ _ hl hb with ha | rfl
    · exact List.mem_append_left _ (ih ha)
    · exact List.mem_append_right _ (List.mem_singleton.mpr rfl)
  · rw [hp, hf] at hb
    exact List.mem_append_left _ (ih hb)

theorem fails_of_failed (hrun : ProtocolRun programs trace net) {s : SocketPtr}
    (hs : (net.links s).failed = true) : .peer s .fails ∈ trace.map Prod.fst := by
  refine happened (Q := fun _ failed => failed = true) (fun program => ?_) ?_ hrun s hs
  · cases program <;> simp [Program.start]
  · exact fun l l' e o hl hf => .inr ((Link.step_cases hl).2.1 hf)

theorem finishes_of_ended (hrun : ProtocolRun programs trace net) {s : SocketPtr}
    (hs : (net.links s).peer = .ended) : .peer s .finishes ∈ trace.map Prod.fst := by
  refine happened (Q := fun peer _ => peer = .ended) (fun program => ?_) ?_ hrun s hs
  · cases program <;> simp [Program.start]
  · exact fun l l' e o hl hf => (Link.step_cases hl).2.2 hf

theorem heard (hrun : ProtocolRun programs trace net) (heach : EachSettled programs trace)
    {error : TcpError} {raw : RawMessage} {net' : Network}
    (hs : net.step (.binder (.hears error)) = some (some raw, net')) :
    ∃ s ∈ net.current?, raw = terminateAnswer ∧ .peer s .finishes ∈ trace.map Prod.fst := by
  cases Network.step_cases hs with
  | @hears client exchanges s _ _ _ hloop hcur hraw =>
    have hsound := sound_of_loop hrun heach (by rw [hloop]; simp)
    obtain ⟨hanswer, hended, -⟩ := (hsound.told hloop hcur).answer hraw
    have hcurrent : net.current? = some s := by
      rw [Network.current?, hloop]
      exact hcur
    exact ⟨s, hcurrent, hanswer, finishes_of_ended hrun hended⟩

theorem answer_comes (hrun : ProtocolRun programs trace net) (heach : EachSettled programs trace)
    {client : SocketPtr} {exchanges : List TerminateExchange}
    (hloop : net.loop = .hearing client exchanges) :
    ∃ s ∈ net.current?, (net.links s).failed = true ∨ ∃ events,
      Run Link.step (net.links s) events ⟨.ended, [terminateAnswer], [], false⟩ ∧
        .fails ∉ events.map Prod.fst := by
  have hsound := sound_of_loop hrun heach (by rw [hloop]; simp)
  obtain ⟨s, hs⟩ := exists_current hrun hloop
  refine ⟨s, hs, ?_⟩
  cases hf : (net.links s).failed with
  | true => exact .inl rfl
  | false =>
    rw [Network.current?, hloop] at hs
    exact .inr ((hsound.told hloop hs).answers hf)

theorem reported (hrun : ProtocolRun programs trace net) (heach : EachSettled programs trace)
    {response : RawMessage} {net' : Network}
    (hs : net.step (.binder .reports) = some (some response, net'))
    (hfails : ∀ s, .peer s .fails ∉ trace.map Prod.fst) :
    response.getMessageType = .terminateSuccess := by
  cases Network.step_cases hs with
  | @reports client exchanges _ hloop hlength hresponse =>
    have hsound := sound_of_loop hrun heach (by rw [hloop]; simp)
    have hstand (s : SocketPtr) : (net.links s).failed = false := by
      by_contra hf
      exact hfails s (fails_of_failed hrun (Bool.not_eq_false _ ▸ hf))
    exact hsound.response hloop hlength hresponse hstand

end ProtocolRun

/-- In every run in which servers are settled when they are told, what
`handleTerminate` hears from a server is its answer, every `REGISTER` that the
binder takes is replied to, the binder waits for nothing that cannot come, and it
reports success unless a connection failed. -/
theorem termination_answered {programs : SocketPtr → Program}
    {trace : List (ProtocolEvent × Option RawMessage)} {net : Network}
    (hrun : ProtocolRun programs trace net) (heach : EachSettled programs trace) :
    (∀ past error raw future a, trace = past ++ (.binder (.hears error), some raw) :: future →
      ProtocolRun programs past a →
      ∃ s ∈ a.current?, raw = terminateAnswer ∧ .peer s .finishes ∈ past.map Prod.fst) ∧
    (∀ past closed raw future a, trace = past ++ (.binder (.receives closed), some raw) :: future →
      ProtocolRun programs past a → raw.getMessageType = .register →
      ∃ s clients response b, a.loop = .serving (s :: clients) ∧
        a.step (.binder (.receives closed)) = some (some raw, b) ∧
        b.loop = .replying s response clients) ∧
    (∀ client exchanges, net.loop = .hearing client exchanges →
      ∃ s ∈ net.current?, (net.links s).failed = true ∨ ∃ events,
        Run Link.step (net.links s) events ⟨.ended, [terminateAnswer], [], false⟩ ∧
          .fails ∉ events.map Prod.fst) ∧
    ((∀ s, .peer s .fails ∉ trace.map Prod.fst) → ∀ response,
      (.binder .reports, some response) ∈ trace → response.getMessageType = .terminateSuccess) := by
  refine ⟨?_, ?_, fun client exchanges hloop => ProtocolRun.answer_comes hrun heach hloop,
    fun hfails response hmem => ?_⟩
  · rintro past error raw future a rfl hpast
    obtain ⟨b, hs, -⟩ := hrun.step_at hpast
    exact ProtocolRun.heard hpast heach.of_append hs
  · rintro past closed raw future a rfl hpast hraw
    obtain ⟨b, hs, -⟩ := hrun.step_at hpast
    obtain ⟨s, clients, response, hloop, hb⟩ := Network.register_replied hs hraw
    exact ⟨s, clients, response, b, hloop, hs, hb⟩
  · obtain ⟨past, future, rfl⟩ := List.append_of_mem hmem
    obtain ⟨a, hpast, -⟩ := hrun.split
    obtain ⟨b, hs, -⟩ := hrun.step_at hpast
    refine ProtocolRun.reported hpast heach.of_append hs fun s hs => hfails s ?_
    rw [List.map_append]
    exact List.mem_append_left _ hs

namespace Network

theorem run_of_link {net : Network} {s : SocketPtr} {l : Link}
    {events : List (PeerEvent × Option RawMessage)} (h : Run Link.step (net.links s) events l) :
    Run Network.step net (events.map fun e => (.peer s e.1, e.2)) (net.setLink s l) := by
  generalize hl : net.links s = l₀ at h
  induction h generalizing net with
  | nil =>
    rw [← hl, setLink_self]
    exact .nil net
  | @cons l₀ l₁ l₂ e o rest hs _ ih =>
    have hself : (net.setLink s l₁).links s = l₁ := Function.update_self ..
    have hstep : net.step (.peer s e) = some (o, net.setLink s l₁) := by
      rw [Network.step, hl, hs, Option.map_some]
    have hrest := ih hself
    rw [setLink, setLink, Function.update_idem] at hrest
    exact .cons hstep hrest

theorem exists_hears {net : Network} {client s : SocketPtr} {exchanges : List TerminateExchange}
    {raw : RawMessage} {rest : List RawMessage} (hloop : net.loop = .hearing client exchanges)
    (hcur : net.targets[exchanges.length]? = some s)
    (hs : (net.links s).toBinder = raw :: rest) (error : TcpError) :
    ∃ net', net.step (.binder (.hears error)) = some (some raw, net') := by
  simp only [Network.step, binderStep, hloop, hcur, Network.hear, Option.bind_eq_bind,
    Option.bind_some, hs]
  exact ⟨_, rfl⟩

end Network

def samplePlan (names : List Byte) : ServerPlan where
  address := sampleAddress 80
  calls := names.map fun name => ([name], .ofArray [])
  fits c hc := by
    obtain ⟨name, -, rfl⟩ := List.mem_map.mp hc
    exact (by decide : (19 : Nat) < 2 ^ 31)

def samplePrograms (names : List Byte) (s : SocketPtr) : Program :=
  if s = 1 then .server (samplePlan names) else .client

theorem termination_answered_sample :
    ∃ net, ProtocolRun (samplePrograms [102]) [(.peer 1 .registers, none),
        (.binder (.polls [1]), none),
        (.binder (.receives false), some (sampleRegister 102 80).serialize),
        (.binder (.replies none), none), (.peer 1 .hears, some (registered 0)),
        (.peer 1 .executes, none), (.peer 2 .terminates, none), (.binder (.polls [2]), none),
        (.binder (.receives false), some terminateRequest), (.binder (.tells none), none),
        (.peer 1 .hears, some terminateRequest), (.peer 1 .finishes, none),
        (.binder (.hears .recvError), some terminateAnswer),
        (.binder .reports, some terminateAnswer)] net ∧
      terminateAnswer.getMessageType = .terminateSuccess := by
  refine (Run.of_exec_map (f := Network.loop) (a := .ended) (by decide)).imp fun net hnet =>
    ⟨hnet.1, ?_⟩
  obtain ⟨-, -, -, hreport⟩ := termination_answered hnet.1 (.of_check (by decide))
  exact hreport (by simp) terminateAnswer (by simp)

/-- The server's second `REGISTER` comes where its answer should, and is lost. -/
theorem register_taken_for_answer :
    ∃ net, ProtocolRun (samplePrograms [102, 103]) [(.peer 1 .registers, none),
        (.binder (.polls [1]), none),
        (.binder (.receives false), some (sampleRegister 102 80).serialize),
        (.binder (.replies none), none), (.peer 1 .hears, some (registered 0)),
        (.peer 1 .registers, none), (.peer 2 .terminates, none), (.binder (.polls [2]), none),
        (.binder (.receives false), some terminateRequest), (.binder (.tells none), none),
        (.binder (.hears .recvError), some (sampleRegister 103 80).serialize),
        (.binder .reports, some (StatusMessage.serialize
          (⟨StatusCodes.unexpectedMessage.toInt⟩ : TerminateFailure)))] net ∧
      net.loop = .ended := Run.of_exec_map (by decide)

/-- The condition is exact: wherever a step breaks it, the run can go on, with no
connection failing, until a `REGISTER` is taken for the server's answer. -/
theorem crosses_of_unsettled {programs : SocketPtr → Program}
    {trace : List (ProtocolEvent × Option RawMessage)} {net net' : Network} {e : ProtocolEvent}
    {o : Option RawMessage} (hrun : ProtocolRun programs trace net)
    (heach : EachSettled programs trace) (hs : net.step e = some (o, net'))
    (hunsettled : ¬ SettledWhenTold net e) :
    ∃ more raw net'', ProtocolRun programs
        (trace ++ (e, o) :: (more ++ [(.binder (.hears .recvError), some raw)])) net'' ∧
      raw.getMessageType = .register ∧ ∀ s, .peer s .fails ∉ more.map Prod.fst := by
  obtain ⟨rfl, hnot⟩ := Classical.not_imp.mp hunsettled
  cases Network.step_cases hs with
  | @tells client exchanges s hloop hcur =>
    have hnet := ProtocolRun.sound_of_loop hrun heach (by rw [hloop]; simp)
    have hn : ¬ (net.links s).Settled := by
      intro h
      refine hnot fun t ht => ?_
      rw [Network.current?, hloop] at ht
      have hst : s = t := Option.some.inj (hcur.symm.trans ht)
      exact hst ▸ h
    obtain ⟨events, l, message, rest, hlink, hfails, hfirst⟩ :=
      (hnet.untold hloop hcur).crosses (hnet.registers_ne_nil (List.mem_of_getElem? hcur)) hn
    generalize hnet' : ({ net.setLink s
        { net.links s with toPeer := (net.links s).toPeer ++ [terminateRequest] } with
      loop := .hearing client exchanges } : Network) = net' at hs
    have hself : net'.links s =
        { net.links s with toPeer := (net.links s).toPeer ++ [terminateRequest] } := by
      rw [← hnet']
      exact Function.update_self ..
    have hloop' : (net'.setLink s l).loop = .hearing client exchanges := by
      rw [← hnet']
      rfl
    have hcur' : (net'.setLink s l).targets[exchanges.length]? = some s := by
      rw [← hnet']
      exact hcur
    rw [← hself] at hlink
    have hmore := Network.run_of_link hlink
    have hlast : ((net'.setLink s l).links s).toBinder = message.serialize :: rest := by
      rw [← hfirst]
      exact congrArg Link.toBinder (Function.update_self ..)
    obtain ⟨net'', hhears⟩ := Network.exists_hears hloop' hcur' hlast .recvError
    refine ⟨events.map fun e => (.peer s e.1, e.2), message.serialize, net'',
      hrun.append (.cons hs ?_), rfl, fun t ht => hfails ?_⟩
    · exact hmore.append (.single hhears)
    · simp only [List.map_map, List.mem_map, Function.comp_apply, ProtocolEvent.peer.injEq] at ht
      obtain ⟨e, he, -, hfail⟩ := ht
      exact List.mem_map.mpr ⟨e, he, hfail⟩

end RpcLibrary
