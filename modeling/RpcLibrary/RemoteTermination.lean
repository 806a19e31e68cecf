import RpcLibrary.LocalCall
import RpcLibrary.TerminationRuns

/-! What a client's `rpcTerminate` tells about the servers, whatever crosses on the
connections and whichever of them fail. -/

namespace RpcLibrary

open Runs

def rpcTerminate (binder : RawMessage → BinderExchange) : Option Word :=
  let message : Terminate := ⟨0⟩
  match binder message.serialize with
  | .missing => some StatusCodes.binderConnectionError.toInt
  | .failed => some StatusCodes.binderConnectionError.toInt
  | .answered response =>
    match response.getMessageType with
    | .terminateSuccess => some 0
    | .terminateFailure => do
      let failure ← (StatusMessage.deserialize response : Option TerminateFailure)
      some failure.status
    | _ => some StatusCodes.unexpectedMessage.toInt

/-- What `rpcTerminate` returns once the binder has answered. -/
def terminateStatus (exchanges : List TerminateExchange) : Word :=
  ((failures exchanges).getLast?.map fun failure => received failure.status).getD 0

theorem rpcTerminate_handled {db : BinderDatabase} {exchange : Nat → TerminateExchange}
    {response : RawMessage} (h : (db.handleTerminate exchange).2 = .ok response) :
    rpcTerminate (fun _ => .answered response) = some (terminateStatus
      ((List.range db.serverToTimestamp.elems.length).map exchange)) := by
  obtain ⟨error, hended, rfl⟩ := handleTerminate_ended h
  rw [hended.error, hended.exchanges, List.length_map, ← List.range_eq_range', terminateStatus]
  cases (failures _).getLast? <;> rfl

theorem Link.toBinder_step {l l' : Link} {e : PeerEvent} {o : Option RawMessage}
    (hs : l.step e = some (o, l')) : ∀ raw ∈ l'.toBinder,
      raw ∈ l.toBinder ∨ e = .finishes ∨ raw.getMessageType ≠ .terminateSuccess := by
  obtain ⟨-, hs⟩ := Option.ite_none_left_eq_some.mp hs
  have hsent {l : List RawMessage} {raw sent : RawMessage} (h : raw ∈ l ++ [sent])
      (htype : sent.getMessageType ≠ .terminateSuccess) :
      raw ∈ l ∨ e = .finishes ∨ raw.getMessageType ≠ .terminateSuccess := by
    rcases List.mem_append.mp h with h | h
    · exact .inl h
    · exact .inr (.inr (List.mem_singleton.mp h ▸ htype))
  intro raw hraw
  split at hs
  all_goals cases hs
  · exact hsent hraw (fun htype => by cases htype)
  · exact .inl hraw
  · exact .inl hraw
  · exact .inl hraw
  · exact .inr (.inl rfl)
  · exact hsent hraw (by decide)
  · exact .inl hraw
  · exact .inl hraw

namespace Network

theorem toBinder_of_update {net net' : Network} {s : SocketPtr} {l : Link}
    (hlinks : net'.links = Function.update net.links s l)
    (hl : ∀ raw ∈ l.toBinder, raw ∈ (net.links s).toBinder) (t : SocketPtr) :
    ∀ raw ∈ (net'.links t).toBinder, raw ∈ (net.links t).toBinder := by
  intro raw hraw
  rw [hlinks] at hraw
  by_cases hts : t = s
  · subst hts
    rw [Function.update_self] at hraw
    exact hl raw hraw
  · rwa [Function.update_of_ne hts] at hraw

/-- Only a server that finishes sends a success to the binder. -/
theorem ProtocolCase.toBinder {net net' : Network} {e : ProtocolEvent} {o : Option RawMessage}
    (hs : ProtocolCase net e o net') (t : SocketPtr) : ∀ raw ∈ (net'.links t).toBinder,
      raw ∈ (net.links t).toBinder ∨ e = .peer t .finishes ∨
        raw.getMessageType ≠ .terminateSuccess := by
  intro raw hraw
  cases hs with
  | @peer s e o l hs =>
    by_cases hts : t = s
    · subst hts
      have hl : raw ∈ l.toBinder := by simpa only [setLink, Function.update_self] using hraw
      rcases Link.toBinder_step hs raw hl with h | rfl | h
      · exact .inl h
      · exact .inr (.inl rfl)
      · exact .inr (.inr h)
    · exact .inl (by simpa only [setLink, Function.update_of_ne hts] using hraw)
  | @receives s clients closed raw' rest net'' hloop hfirst hs =>
    have hlinks := congrArg (Function.update · s { net.links s with toBinder := rest })
      (handle_cases hs).1
    refine .inl (toBinder_of_update hlinks (fun m hm => ?_) t raw hraw)
    rw [hfirst]
    exact List.mem_cons_of_mem _ hm
  | @hears client exchanges s error raw' rest hloop hcur hfirst =>
    refine .inl (toBinder_of_update rfl (fun m hm => ?_) t raw hraw)
    rw [hfirst]
    exact List.mem_cons_of_mem _ hm
  | replies =>
    refine .inl (toBinder_of_update rfl ?_ t raw hraw)
    exact fun _ hm => hm
  | tells =>
    refine .inl (toBinder_of_update rfl ?_ t raw hraw)
    exact fun _ hm => hm
  | reports =>
    refine .inl (toBinder_of_update rfl ?_ t raw hraw)
    exact fun _ hm => hm
  | _ => exact .inl hraw

end Network

/-- How an exchange with a server came about. -/
def Explained (past : List (ProtocolEvent × Option RawMessage)) (s : SocketPtr) :
    TerminateExchange → Prop
  | .received (.returned response) =>
    if (⟨response⟩ : RawMessage).getMessageType = .terminateSuccess then
      .peer s .finishes ∈ past.map Prod.fst
    else ∃ error, (.binder (.hears error), some ⟨response⟩) ∈ past
  | .sendFails _ => .peer s .fails ∈ past.map Prod.fst
  | .received (.threw _) => .peer s .fails ∈ past.map Prod.fst
  | .received _ => False

theorem Explained.mono {past : List (ProtocolEvent × Option RawMessage)} {s : SocketPtr}
    {exchange : TerminateExchange} (h : Explained past s exchange)
    (e : ProtocolEvent × Option RawMessage) : Explained (past ++ [e]) s exchange := by
  have hmem {event : ProtocolEvent} (h : event ∈ past.map Prod.fst) :
      event ∈ (past ++ [e]).map Prod.fst := by
    rw [List.map_append]
    exact List.mem_append_left _ h
  cases exchange with
  | sendFails => exact hmem h
  | received outcome =>
    cases outcome with
    | returned response =>
      simp only [Explained] at h ⊢
      split_ifs at h ⊢
      · exact hmem h
      · exact h.imp fun error herror => List.mem_append_left _ herror
    | threw => exact hmem h
    | badArrayLength => exact h
    | undefined => exact h
    | blocked => exact h

theorem Explained.halt {past : List (ProtocolEvent × Option RawMessage)} {s : SocketPtr}
    {exchange : TerminateExchange} (h : Explained past s exchange) : exchange.halt = none := by
  cases exchange with
  | sendFails => rfl
  | received outcome =>
    cases outcome with
    | returned => rfl
    | threw => rfl
    | badArrayLength => cases h
    | undefined => cases h
    | blocked => cases h

/-- A success on its way to the binder was sent by a server that had finished, and
the exchanges so far were with the first servers that the binder has stored. -/
structure Accounted (past : List (ProtocolEvent × Option RawMessage)) (net : Network) : Prop where
  sent : ∀ s, ∀ raw ∈ (net.links s).toBinder, raw.getMessageType = .terminateSuccess →
    .peer s .finishes ∈ past.map Prod.fst
  exchanges : ∀ (j : Nat) exchange, net.loop.exchanges[j]? = some exchange →
    ∃ s, net.targets[j]? = some s ∧ Explained past s exchange

theorem Accounted.new (programs : SocketPtr → Program) : Accounted [] (Network.new programs) where
  sent s raw hraw := by
    have hempty : (programs s).start.toBinder = [] := by
      cases programs s <;> rfl
    rw [Network.new, hempty] at hraw
    cases hraw
  exchanges j exchange h := by cases h

theorem Accounted.step {past : List (ProtocolEvent × Option RawMessage)} {net net' : Network}
    {e : ProtocolEvent} {o : Option RawMessage} (h : Accounted past net)
    (hfails : ∀ s, (net.links s).failed = true → .peer s .fails ∈ past.map Prod.fst)
    (hs : Network.ProtocolCase net e o net') : Accounted (past ++ [(e, o)]) net' := by
  constructor
  · intro s raw hraw htype
    rw [List.map_append]
    rcases hs.toBinder s raw hraw with hraw | rfl | hne
    · exact List.mem_append_left _ (h.sent s raw hraw htype)
    · exact List.mem_append_right _ (List.mem_singleton.mpr rfl)
    · exact absurd htype hne
  · intro j exchange hj
    have hkept {s : SocketPtr} (hs : net.targets[j]? = some s ∧ Explained past s exchange) :
        ∃ s, net.targets[j]? = some s ∧ Explained (past ++ [(e, o)]) s exchange :=
      ⟨s, hs.1, hs.2.mono (e, o)⟩
    have hconcat {exchanges : List TerminateExchange} {new : TerminateExchange} {s : SocketPtr}
        (hexchanges : net.loop.exchanges = exchanges)
        (hcur : net.targets[exchanges.length]? = some s)
        (hnew : Explained (past ++ [(e, o)]) s new)
        (hj : (exchanges ++ [new])[j]? = some exchange) :
        ∃ s, net.targets[j]? = some s ∧ Explained (past ++ [(e, o)]) s exchange := by
      rw [List.getElem?_append, List.getElem?_singleton] at hj
      split_ifs at hj with hlt hlast
      · obtain ⟨s, hs⟩ := h.exchanges j exchange (hexchanges ▸ hj)
        exact hkept hs
      · obtain rfl := Option.some.inj hj
        obtain rfl : j = exchanges.length := by omega
        exact ⟨s, hcur, hnew⟩
    cases hs with
    | peer =>
      obtain ⟨s, hs⟩ := h.exchanges j exchange hj
      exact hkept hs
    | @receives s clients closed raw rest net'' hloop hfirst hs =>
      rcases (Network.handle_cases hs).2 with ⟨response, hr⟩ | ⟨-, hr | hr⟩ <;>
        (simp only [Network.setLink, hr, LoopPhase.exchanges] at hj; cases hj)
    | tells hloop =>
      obtain ⟨s, hs⟩ := h.exchanges j exchange (by rw [hloop]; exact hj)
      exact hkept hs
    | @tellFails client exchanges s error hloop hcur hf =>
      have hfailed : Explained past s (.sendFails error) := hfails s hf
      exact hconcat (by rw [hloop]; rfl) hcur (hfailed.mono _) hj
    | @hears client exchanges s error raw rest hloop hcur hraw =>
      refine hconcat (by rw [hloop]; rfl) hcur ?_ hj
      simp only [Explained]
      split_ifs with htype
      · have hfinished := h.sent s raw (by rw [hraw]; exact List.mem_cons_self) htype
        rw [List.map_append]
        exact List.mem_append_left _ hfinished
      · exact ⟨error, List.mem_append_right _ (List.mem_singleton.mpr rfl)⟩
    | @hearFails client exchanges s error hloop hcur hempty hf =>
      have hfailed : Explained past s (.received (.threw error)) := hfails s hf
      exact hconcat (by rw [hloop]; rfl) hcur (hfailed.mono _) hj
    | _ => cases hj

theorem ProtocolRun.accounted {programs : SocketPtr → Program}
    {trace : List (ProtocolEvent × Option RawMessage)} {net : Network}
    (hrun : ProtocolRun programs trace net) : Accounted trace net := by
  refine hrun.history (P := Accounted) (.new programs) fun past a e o b hpast ha hs => ?_
  exact ha.step (fun s hf => ProtocolRun.fails_of_failed hpast hf) (Network.step_cases hs)

/-- No exchange of the protocol halts the binder, which reports once it has heard
from every server. -/
theorem ProtocolRun.exists_reports {programs : SocketPtr → Program}
    {trace : List (ProtocolEvent × Option RawMessage)} {net : Network} {client : SocketPtr}
    {exchanges : List TerminateExchange} (hrun : ProtocolRun programs trace net)
    (hloop : net.loop = .telling client exchanges)
    (hlength : exchanges.length = net.targets.length) :
    ∃ response net', net.step (.binder .reports) = some (some response, net') := by
  have hgoesOn : ∀ i < net.database.serverToTimestamp.elems.length,
      (exchanges.getD i (.received (.threw .recvError))).halt = none := by
    intro i hi
    have hlt : i < exchanges.length := by
      rwa [hlength, Network.targets, List.length_map]
    obtain ⟨s, -, he⟩ := (ProtocolRun.accounted hrun).exchanges i exchanges[i]
      (by rw [hloop]; exact List.getElem?_eq_getElem hlt)
    rw [List.getD_eq_getElem?_getD, List.getElem?_eq_getElem hlt]
    exact he.halt
  obtain ⟨response, hresponse⟩ := (handleTerminate_ok_iff _ _).mpr hgoesOn
  have hreport : net.response exchanges = .ok response := hresponse
  refine ⟨response, { net.setLink client { net.links client with
    toPeer := (net.links client).toPeer ++ [response] } with loop := .ended }, ?_⟩
  simp only [Network.step, Network.binderStep, hloop, if_pos hlength, Network.report, hreport]

theorem map_range_getD {α : Type*} (l : List α) (a : α) :
    ((List.range l.length).map fun i => l.getD i a) = l := by
  refine List.ext_getElem (by simp) fun i hi hi' => ?_
  simp [List.getD_eq_getElem?_getD, List.getElem?_eq_getElem hi']

/-- In whatever order the binder, the servers and their clients go on, and even
where a registration is taken for an answer: a client is told 0 only when every
server that the binder had stored has finished, and otherwise what went wrong. -/
theorem termination_reported {programs : SocketPtr → Program}
    {trace : List (ProtocolEvent × Option RawMessage)} {net net' : Network}
    {response : RawMessage} (hrun : ProtocolRun programs trace net)
    (hs : net.step (.binder .reports) = some (some response, net')) :
    ∃ status, rpcTerminate (fun _ => .answered response) = some status ∧
      ((status = 0 ∧ ∀ s ∈ net.targets, .peer s .finishes ∈ trace.map Prod.fst) ∨
        (status = received StatusCodes.serverConnectionError.toInt ∧
          ∃ s ∈ net.targets, .peer s .fails ∈ trace.map Prod.fst) ∨
        (status = received StatusCodes.unexpectedMessage.toInt ∧
          ∃ error raw, (.binder (.hears error), some raw) ∈ trace ∧
            raw.getMessageType ≠ .terminateSuccess)) := by
  have haccounted := ProtocolRun.accounted hrun
  cases Network.step_cases hs with
  | @reports client exchanges _ hloop hlength hresponse =>
    have hall : (List.range net.database.serverToTimestamp.elems.length).map
        (fun i => exchanges.getD i (.received (.threw .recvError))) = exchanges := by
      rw [← List.length_map (f := fun e => e.1.serverSocket)]
      exact hlength ▸ map_range_getD exchanges _
    refine ⟨terminateStatus exchanges, (rpcTerminate_handled hresponse).trans (by rw [hall]), ?_⟩
    have hexplained {j : Nat} {exchange : TerminateExchange} (hj : exchanges[j]? = some exchange) :
        ∃ s, net.targets[j]? = some s ∧ Explained trace s exchange :=
      haccounted.exchanges j exchange (by rw [hloop]; exact hj)
    cases hlast : (failures exchanges).getLast? with
    | none =>
      refine .inl ⟨by rw [terminateStatus, hlast]; rfl, fun s hs => ?_⟩
      obtain ⟨j, hj⟩ := List.getElem?_of_mem hs
      have hlt : j < exchanges.length := hlength ▸ (List.getElem?_eq_some_iff.mp hj).1
      obtain ⟨s', hs', he⟩ := hexplained (List.getElem?_eq_getElem hlt)
      obtain rfl := Option.some.inj (hs'.symm.trans hj)
      have hnone : (exchanges[j]).failure = none :=
        List.filterMap_eq_nil_iff.mp (List.getLast?_eq_none_iff.mp hlast) _ (List.getElem_mem hlt)
      obtain ⟨reply, hr, htype⟩ := (TerminateExchange.failure_eq_none_iff he.halt).mp hnone
      rw [hr, Explained, if_pos htype] at he
      exact he
    | some failure =>
      have hstatus : terminateStatus exchanges = received failure.status := by
        rw [terminateStatus, hlast]
        rfl
      rw [hstatus]
      obtain ⟨exchange, hmem, hfailure⟩ := List.mem_filterMap.mp (List.mem_of_getLast? hlast)
      obtain ⟨j, hj⟩ := List.getElem?_of_mem hmem
      obtain ⟨s, hs, he⟩ := hexplained hj
      cases exchange with
      | sendFails e =>
        obtain rfl := Option.some.inj hfailure
        exact .inr (.inl ⟨rfl, s, List.mem_of_getElem? hs, he⟩)
      | received outcome =>
        cases outcome with
        | threw e =>
          obtain rfl := Option.some.inj hfailure
          exact .inr (.inl ⟨rfl, s, List.mem_of_getElem? hs, he⟩)
        | returned reply =>
          rw [TerminateExchange.failure] at hfailure
          split_ifs at hfailure with htype
          obtain rfl := Option.some.inj hfailure
          rw [Explained, if_neg htype] at he
          obtain ⟨error, he⟩ := he
          exact .inr (.inr ⟨rfl, error, ⟨reply⟩, he, htype⟩)
        | badArrayLength => cases he
        | undefined => cases he
        | blocked => cases he

/-- The run of a server of one function, up to what the binder reports. -/
def sampleTermination : List (ProtocolEvent × Option RawMessage) :=
  [(.peer 1 .registers, none), (.binder (.polls [1]), none),
    (.binder (.receives false), some (sampleRegister 102 80).serialize),
    (.binder (.replies none), none), (.peer 1 .hears, some (registered 0)),
    (.peer 1 .executes, none), (.peer 2 .terminates, none), (.binder (.polls [2]), none),
    (.binder (.receives false), some terminateRequest), (.binder (.tells none), none),
    (.peer 1 .hears, some terminateRequest), (.peer 1 .finishes, none),
    (.binder (.hears .recvError), some terminateAnswer)]

theorem termination_reported_sample :
    ∃ net, ProtocolRun (samplePrograms [102]) sampleTermination net ∧ net.targets = [1] ∧
      ∀ s ∈ net.targets, .peer s .finishes ∈ sampleTermination.map Prod.fst := by
  obtain ⟨net', hwhole, -⟩ : ∃ net', ProtocolRun (samplePrograms [102])
      (sampleTermination ++ [(.binder .reports, some terminateAnswer)]) net' ∧
        net'.loop = .ended := Run.of_exec_map (by decide)
  obtain ⟨net, hrun, htargets⟩ : ∃ net, ProtocolRun (samplePrograms [102]) sampleTermination net ∧
      net.targets = [1] := Run.of_exec_map (by decide)
  obtain ⟨b, hs, -⟩ := hwhole.step_at hrun
  obtain ⟨status, hstatus, h⟩ := termination_reported hrun hs
  obtain rfl : 0 = status := Option.some.inj hstatus
  refine ⟨net, hrun, htargets, ?_⟩
  rcases h with ⟨-, h⟩ | ⟨hne, -⟩ | ⟨hne, -⟩
  · exact h
  · exact absurd hne (by decide)
  · exact absurd hne (by decide)

end RpcLibrary
