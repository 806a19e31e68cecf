import RpcLibrary.RegistrationHistory
import RpcLibrary.SocketOwnership
import RpcLibrary.TcpSocket

/-! Termination at the binder: one exchange with the socket of every key of the
timestamps, and an answer that reports the last failure. -/

namespace RpcLibrary

open Runs BinderDatabase

inductive TerminateExchange
  | sendFails (error : TcpError)
  | received (outcome : RecvOutcome)
deriving DecidableEq

/-- How a receive ends that neither returns a reply nor throws an `Error`. -/
inductive Halt
  | badArrayLength
  | undefined
  | blocked
deriving DecidableEq

namespace TerminateExchange

def halt : TerminateExchange → Option Halt
  | received .badArrayLength => some .badArrayLength
  | received .undefined => some .undefined
  | received .blocked => some .blocked
  | _ => none

def failure : TerminateExchange → Option TerminateFailure
  | sendFails _ => some ⟨StatusCodes.serverConnectionError.toInt⟩
  | received (.threw _) => some ⟨StatusCodes.serverConnectionError.toInt⟩
  | received (.returned response) =>
    if (⟨response⟩ : RawMessage).getMessageType ≠ .terminateSuccess then
      some ⟨StatusCodes.unexpectedMessage.toInt⟩
    else none
  -- a round that halts comes to no failure
  | received _ => none

end TerminateExchange

structure TerminateSent where
  serverSocket : SocketPtr
  message : RawMessage
  exchange : TerminateExchange
deriving DecidableEq

/-- The loop from its `i`-th round on, with the flag for an error and the last
error message. The exception of an array that cannot be allocated is no `Error`
and leaves it. -/
def terminateLoop (exchange : Nat → TerminateExchange) :
    Nat → Bool × RawMessage → List ServerData →
      List TerminateSent × Except Halt (Bool × RawMessage)
  | _, error, [] => ([], .ok error)
  | i, error, server :: servers =>
    let terminate : Terminate := ⟨0⟩
    let sent : TerminateSent := ⟨server.serverSocket, terminate.serialize, exchange i⟩
    match (exchange i).halt with
    | some halt => ([sent], .error halt)
    | none =>
      let error := match (exchange i).failure with
        | some failure => (true, failure.serialize)
        | none => error
      let rest := terminateLoop exchange (i + 1) error servers
      (sent :: rest.1, rest.2)

def BinderDatabase.handleTerminate (db : BinderDatabase) (exchange : Nat → TerminateExchange) :
    List TerminateSent × Except Halt RawMessage :=
  let r := terminateLoop exchange 0 (false, ⟨[]⟩) (db.serverToTimestamp.elems.map Prod.fst)
  (r.1, r.2.map fun error =>
    if error.1 then error.2 else StatusMessage.serialize (⟨0⟩ : TerminateSuccess))

theorem TerminateExchange.failure_eq_none_iff {exchange : TerminateExchange}
    (h : exchange.halt = none) : exchange.failure = none ↔
      ∃ response, exchange = .received (.returned response) ∧
        (⟨response⟩ : RawMessage).getMessageType = .terminateSuccess := by
  cases exchange with
  | sendFails => simp [failure]
  | received outcome =>
    cases outcome with
    | returned response => simp [failure]
    | threw => simp [failure]
    | badArrayLength => cases h
    | undefined => cases h
    | blocked => cases h

/-- A reply whose length arrives whole halts the loop unless the length is that of
an array and the rest of the reply arrives or never will. -/
theorem TerminateExchange.halt_recv {counts : Counts} (junk length : Word) (rest : Bytes)
    (ending : Ending) (hc : 4 ≤ counts.header) :
    (received (TcpSocket.recv counts junk ⟨intMemory length ++ rest, ending⟩).1).halt = none ↔
      0 ≤ length.toInt ∧ length.toInt < 2147483647 ∧
        (length.toInt ≤ rest.length ∨ ending ≠ .stillOpen) := by
  have hlt : length.toInt < 2 ^ 31 := BitVec.toInt_lt
  rw [TcpSocket.recv_of_length junk length rest ending hc]
  split_ifs with hu hb hall
  · refine iff_of_false (by simp [halt]) fun h => ?_
    omega
  · refine iff_of_false (by simp [halt]) fun h => ?_
    omega
  · exact iff_of_true rfl ⟨by omega, by omega, .inl (by omega)⟩
  · cases ending with
    | stillOpen =>
      refine iff_of_false (by simp [Ending.outcome, halt]) fun ⟨_, _, h⟩ => ?_
      rcases h with h | h
      · omega
      · exact h rfl
    | closed => exact iff_of_true rfl ⟨by omega, by omega, .inr (by simp)⟩
    | failed => exact iff_of_true rfl ⟨by omega, by omega, .inr (by simp)⟩

theorem terminateLoop_sockets_sublist (exchange : Nat → TerminateExchange)
    (servers : List ServerData) (i : Nat) (error : Bool × RawMessage) :
    List.Sublist ((terminateLoop exchange i error servers).1.map TerminateSent.serverSocket)
      (servers.map ServerData.serverSocket) := by
  induction servers generalizing i error with
  | nil => exact List.Sublist.refl _
  | cons server servers ih =>
    cases hh : (exchange i).halt with
    | some halt =>
      simp only [terminateLoop, hh, List.map_cons, List.map_nil]
      exact (List.nil_sublist _).cons_cons _
    | none =>
      simp only [terminateLoop, hh, List.map_cons]
      exact (ih _ _).cons_cons _

theorem terminateLoop_getElem? {exchange : Nat → TerminateExchange} {servers : List ServerData}
    {i j : Nat} {error : Bool × RawMessage} {sent : TerminateSent}
    (h : (terminateLoop exchange i error servers).1[j]? = some sent) :
    sent.message = StatusMessage.serialize (⟨0⟩ : Terminate) ∧
      sent.exchange = exchange (i + j) := by
  induction servers generalizing i j error with
  | nil => simp [terminateLoop] at h
  | cons server servers ih =>
    cases j with
    | zero =>
      cases hh : (exchange i).halt <;> simp only [terminateLoop, hh] at h <;>
        obtain rfl := Option.some.inj h <;> exact ⟨rfl, rfl⟩
    | succ j =>
      cases hh : (exchange i).halt with
      | some halt =>
        simp only [terminateLoop, hh] at h
        cases h
      | none =>
        simp only [terminateLoop, hh] at h
        obtain ⟨hm, he⟩ := ih h
        exact ⟨hm, he.trans (by rw [Nat.add_right_comm, Nat.add_assoc])⟩

def failures (exchanges : List TerminateExchange) : List TerminateFailure :=
  exchanges.filterMap TerminateExchange.failure

/-- A loop that no round halts has reached every server, and its error message is
that of the last exchange to go wrong. -/
structure LoopEnded (exchange : Nat → TerminateExchange) (i : Nat)
    (error error' : Bool × RawMessage) (servers : List ServerData) (sent : List TerminateSent) :
    Prop where
  sockets : sent.map TerminateSent.serverSocket = servers.map ServerData.serverSocket
  exchanges : sent.map TerminateSent.exchange = (List.range' i servers.length).map exchange
  goesOn : ∀ s ∈ sent, s.exchange.halt = none
  error : error' = ((failures (sent.map TerminateSent.exchange)).getLast?.map
    fun failure => (true, failure.serialize)).getD error

theorem terminateLoop_ended {exchange : Nat → TerminateExchange} {servers : List ServerData}
    {i : Nat} {error error' : Bool × RawMessage}
    (h : (terminateLoop exchange i error servers).2 = .ok error') :
    LoopEnded exchange i error error' servers (terminateLoop exchange i error servers).1 := by
  induction servers generalizing i error with
  | nil =>
    obtain rfl := Except.ok.inj h
    exact ⟨rfl, rfl, by simp [terminateLoop], rfl⟩
  | cons server servers ih =>
    cases hh : (exchange i).halt with
    | some halt =>
      simp only [terminateLoop, hh] at h
      cases h
    | none =>
      simp only [terminateLoop, hh] at h ⊢
      have hrest := ih h
      refine ⟨by rw [List.map_cons, List.map_cons, hrest.sockets], ?_,
        List.forall_mem_cons.mpr ⟨hh, hrest.goesOn⟩, hrest.error.trans ?_⟩
      · rw [List.map_cons, hrest.exchanges, List.length_cons, List.range'_succ, List.map_cons]
      · simp only [failures, List.map_cons, List.filterMap_cons]
        cases hf : (exchange i).failure with
        | none => rfl
        | some failure =>
          simp only [List.getLast?_cons]
          cases (List.filterMap _ _).getLast? <;> rfl

theorem terminateLoop_ok_iff (exchange : Nat → TerminateExchange) (servers : List ServerData)
    (i : Nat) (error : Bool × RawMessage) :
    (∃ error', (terminateLoop exchange i error servers).2 = .ok error') ↔
      ∀ j < servers.length, (exchange (i + j)).halt = none := by
  induction servers generalizing i error with
  | nil => simp [terminateLoop]
  | cons server servers ih =>
    rw [List.length_cons, Nat.forall_lt_succ_left, Nat.add_zero]
    cases hh : (exchange i).halt with
    | some halt => simp [terminateLoop, hh]
    | none =>
      simp only [terminateLoop, hh, ih, true_and]
      simp only [Nat.add_assoc, Nat.add_comm 1]

theorem handleTerminate_ok_iff (db : BinderDatabase) (exchange : Nat → TerminateExchange) :
    (∃ response, (db.handleTerminate exchange).2 = .ok response) ↔
      ∀ i < db.serverToTimestamp.elems.length, (exchange i).halt = none := by
  have hloop := terminateLoop_ok_iff exchange (db.serverToTimestamp.elems.map Prod.fst) 0
    (false, ⟨[]⟩)
  simp only [Nat.zero_add, List.length_map] at hloop
  rw [← hloop, handleTerminate]
  cases (terminateLoop exchange 0 _ _).2 <;> simp [Except.map]

theorem handleTerminate_ended {db : BinderDatabase} {exchange : Nat → TerminateExchange}
    {response : RawMessage} (h : (db.handleTerminate exchange).2 = .ok response) :
    ∃ error, LoopEnded exchange 0 (false, ⟨[]⟩) error (db.serverToTimestamp.elems.map Prod.fst)
        (db.handleTerminate exchange).1 ∧
      response = if error.1 then error.2 else StatusMessage.serialize (⟨0⟩ : TerminateSuccess) := by
  rw [handleTerminate] at h ⊢
  cases hloop : (terminateLoop exchange 0 (false, ⟨[]⟩)
      (db.serverToTimestamp.elems.map Prod.fst)).2 with
  | error halt =>
    rw [hloop] at h
    cases h
  | ok error =>
    rw [hloop] at h
    exact ⟨error, terminateLoop_ended hloop, (Except.ok.inj h).symm⟩

theorem handleTerminate_success_iff {db : BinderDatabase} {exchange : Nat → TerminateExchange}
    {response : RawMessage} (h : (db.handleTerminate exchange).2 = .ok response) :
    response.getMessageType = .terminateSuccess ↔
      ∀ sent ∈ (db.handleTerminate exchange).1, ∃ reply,
        sent.exchange = .received (.returned reply) ∧
        (⟨reply⟩ : RawMessage).getMessageType = .terminateSuccess := by
  obtain ⟨error, hended, rfl⟩ := handleTerminate_ended h
  have hsuccess (sent : TerminateSent) (hsent : sent ∈ (db.handleTerminate exchange).1) :=
    TerminateExchange.failure_eq_none_iff (hended.goesOn sent hsent)
  rw [hended.error]
  cases hlast : (failures ((db.handleTerminate exchange).1.map
      TerminateSent.exchange)).getLast? with
  | none =>
    have hnone := List.filterMap_eq_nil_iff.mp (List.getLast?_eq_none_iff.mp hlast)
    refine iff_of_true rfl fun sent hsent => (hsuccess sent hsent).mp ?_
    exact hnone _ (List.mem_map_of_mem hsent)
  | some failure =>
    obtain ⟨_, hmem, hf⟩ := List.mem_filterMap.mp (List.mem_of_getLast? hlast)
    obtain ⟨sent, hsent, rfl⟩ := List.mem_map.mp hmem
    have htype : failure.serialize.getMessageType = .terminateFailure := rfl
    refine iff_of_false (fun hsuccess => ?_) fun hall => ?_
    · cases htype.symm.trans hsuccess
    · cases hf.symm.trans ((hsuccess sent hsent).mpr (hall sent hsent))

/-- The timestamps know exactly the servers that are stored for some signature. -/
def Tracked (db : BinderDatabase) : Prop :=
  ∀ x, (∃ t, (x, t) ∈ db.serverToTimestamp) ↔ ∃ f, x ∈ db.servers f

theorem storedKey_of_agree {db : BinderDatabase} {x : ServerData}
    (hown : ∀ y, Holds db y → y.address = x.address → y = x) :
    db.serverToTimestamp.storedKey x = x := by
  cases hc : db.serverToTimestamp.contains x.address with
  | false => exact OrderedMap.storedKey_of_not_contains hc
  | true =>
    obtain ⟨⟨y, t⟩, hy, ha⟩ := OrderedSet.contains_iff.mp hc
    obtain rfl := hown y (.of_timestamp hy) ha
    exact OrderedMap.storedKey_of_mem hy rfl

theorem Tracked.new : Tracked BinderDatabase.new := by
  intro x
  constructor
  · rintro ⟨t, h⟩
    exact absurd h (OrderedSet.not_mem_empty _)
  · rintro ⟨f, h⟩
    exact absurd h (by simp)

theorem Tracked.restamped {db db' : BinderDatabase} {x : ServerData} {t : BitVec 32}
    (h : Tracked db) (hown : ∀ y, Holds db y → y.address = x.address → y = x)
    (hstamp : db'.serverToTimestamp = db.serverToTimestamp.assign x t)
    (hservers : ∀ y, (∃ f, y ∈ db'.servers f) ↔ (∃ f, y ∈ db.servers f) ∨ y = x) :
    Tracked db' := by
  intro y
  rw [hservers, ← h y, hstamp]
  simp only [OrderedMap.mem_assign, storedKey_of_agree hown, Prod.mk.injEq]
  constructor
  · rintro ⟨u, ⟨hy, -⟩ | ⟨rfl, -⟩⟩
    · exact .inl ⟨u, hy⟩
    · exact .inr rfl
  · rintro (⟨u, hy⟩ | rfl)
    · by_cases ha : y.address = x.address
      · exact ⟨t, .inr ⟨hown y (.of_timestamp hy) ha, rfl⟩⟩
      · exact ⟨u, .inl ⟨hy, ha⟩⟩
    · exact ⟨t, .inr ⟨rfl, rfl⟩⟩

theorem Tracked.step {db db' : BinderDatabase} {request : BinderRequest}
    {reply : Option RawMessage} (h : Tracked db) (hagree : SocketsAgree db)
    (hown : ∀ message s, request = .register message s → ∀ y, Holds db y →
      y.address = message.address → y = ⟨message.serverHostname, message.serverPort, s⟩)
    (hs : StepCase db request reply db') : Tracked db' := by
  cases hs with
  | known => exact h
  | @added message s f hf hc =>
    refine h.restamped (x := ⟨message.serverHostname, message.serverPort, s⟩)
      (hown message s rfl) rfl fun y => ?_
    simp only [mem_servers_added]
    constructor
    · rintro ⟨g, hy | ⟨rfl, -⟩⟩
      · exact .inl ⟨g, hy⟩
      · exact .inr rfl
    · rintro (⟨g, hy⟩ | rfl)
      · exact ⟨g, .inl hy⟩
      · exact ⟨f, .inr ⟨rfl, rfl, hc⟩⟩
  | notFound => exact fun x => (h x).trans (by simp only [servers_pruned])
  | @found message f p hf hp =>
    obtain ⟨hq, hc⟩ := pick_mem hp
    have hpicked : ∀ y, Holds db y → y.address = p.2.address → y = p.2 :=
      fun y hy ha => hagree y p.2 hy (.of_queue hq) ha
    refine h.restamped hpicked rfl fun y => ?_
    simp only [servers_touched]
    refine ⟨.inl, ?_⟩
    rintro (hy | rfl)
    · exact hy
    · obtain ⟨x, hx, hxa⟩ := OrderedSet.contains_iff.mp hc
      exact ⟨f, hpicked x (.of_servers hx) hxa ▸ hx⟩
  | @removed s =>
    intro x
    simp only [mem_servers_removeIfServer, exists_and_right, ← h x]
    rw [← exists_and_right]
    refine exists_congr fun t => ?_
    exact OrderedSet.mem_filter.trans (and_congr_right fun _ => decide_eq_true_iff)

theorem BinderRun.tracked {past : List BinderEvent} {db : BinderDatabase}
    (hrun : BinderRun past db) (hone : OneOwner (past.map Prod.fst)) : Tracked db := by
  revert hone
  refine hrun.history (P := fun past db => OneOwner (past.map Prod.fst) → Tracked db)
    (fun _ => .new) ?_
  intro past a request reply b hr ih hs hone
  rw [List.map_append] at hone
  refine (ih hone.of_append).step (BinderRun.socketsAgree hr hone.of_append) ?_ (step_cases hs)
  rintro message s rfl y hy hya
  exact BinderRun.holds_eq_registered hr hone hy hya

theorem BinderRun.ownCopy {trace : List BinderEvent} {db : BinderDatabase}
    (hrun : BinderRun trace db) (hone : OneOwner (trace.map Prod.fst)) :
    EachStep BinderDatabase.step OwnCopy BinderDatabase.new trace := by
  rintro past request reply future a rfl hr message s f x rfl - hx ha
  rw [List.map_append, List.map_cons, List.append_cons] at hone
  rw [BinderRun.holds_eq_registered hr hone.of_append (.of_servers hx) ha]

/-- The socket has a registration answered with status 0, and was not removed since. -/
def LiveRegistration (past : List BinderEvent) (s : SocketPtr) : Prop :=
  ∃ f a, Since (RegisteredNew f a s) (Removed s) past

def OneAddress (requests : List BinderRequest) : Prop :=
  ∀ s message message', .register message s ∈ requests → .register message' s ∈ requests →
    message.address = message'.address

theorem BinderRun.mem_terminated_iff {past : List BinderEvent} {db : BinderDatabase}
    (hrun : BinderRun past db) (hone : OneOwner (past.map Prod.fst)) {s : SocketPtr} :
    (∃ x t, (x, t) ∈ db.serverToTimestamp ∧ x.serverSocket = s) ↔ LiveRegistration past s := by
  constructor
  · rintro ⟨x, t, hx, rfl⟩
    obtain ⟨f, hf⟩ := (hrun.tracked hone x).mp ⟨t, hx⟩
    exact ⟨f, x.address, hrun.genuine f x hf⟩
  · rintro ⟨f, a, h⟩
    have hack : Since (Acknowledged f a s) (Removed s) past :=
      h.mono fun e ⟨message, he, hf, ha, hr⟩ => ⟨message, he, hf, ha, .inl hr⟩
    obtain ⟨x, hx, -, rfl⟩ := hrun.acknowledgedStored (hrun.ownCopy hone) f a s hack
    obtain ⟨t, ht⟩ := (hrun.tracked hone x).mpr ⟨f, hx⟩
    exact ⟨x, t, ht, rfl⟩

theorem BinderRun.terminated_nodup {past : List BinderEvent} {db : BinderDatabase}
    (hrun : BinderRun past db) (haddr : OneAddress (past.map Prod.fst)) :
    (db.serverToTimestamp.elems.map fun e => e.1.serverSocket).Nodup := by
  refine List.pairwise_map.mpr (db.serverToTimestamp.sorted.imp_of_mem ?_)
  intro e e' he he' hlt hs
  obtain ⟨⟨_, _⟩, hmem, message, rfl, ha⟩ := (hrun.claimed (.of_timestamp he)).exists_mem
  obtain ⟨⟨_, _⟩, hmem', message', rfl, ha'⟩ := (hrun.claimed (.of_timestamp he')).exists_mem
  rw [← hs] at hmem'
  have hregistered : message.address = message'.address :=
    haddr _ _ _ (List.mem_map_of_mem hmem) (List.mem_map_of_mem hmem')
  have haddress : e.1.address = e'.1.address := by rw [← ha, ← ha', hregistered]
  exact hlt.ne haddress

/-- Every socket with a live registration is sent one message to terminate and no
other socket is sent any, and the client is told of success exactly when each of
them replied with it. -/
structure ReachesRegistered (past : List BinderEvent) (db : BinderDatabase)
    (exchange : Nat → TerminateExchange) : Prop where
  nodup : ((db.handleTerminate exchange).1.map TerminateSent.serverSocket).Nodup
  sockets : ∀ s, s ∈ (db.handleTerminate exchange).1.map TerminateSent.serverSocket ↔
    LiveRegistration past s
  messages : ∀ (i : Nat) (sent : TerminateSent), (db.handleTerminate exchange).1[i]? = some sent →
    sent.message = StatusMessage.serialize (⟨0⟩ : Terminate) ∧ sent.exchange = exchange i
  answered : ∃ response, (db.handleTerminate exchange).2 = .ok response ∧
    (response.getMessageType = .terminateSuccess ↔
      ∀ sent ∈ (db.handleTerminate exchange).1, ∃ reply,
        sent.exchange = .received (.returned reply) ∧
        (⟨reply⟩ : RawMessage).getMessageType = .terminateSuccess)

/-- Whatever failures the exchanges with the servers come to and whatever the
replies are, all servers are reached unless an exchange halts the loop. -/
theorem terminate_reaches_registered {past : List BinderEvent} {db : BinderDatabase}
    (hrun : BinderRun past db) (hone : OneOwner (past.map Prod.fst))
    (haddr : OneAddress (past.map Prod.fst)) (exchange : Nat → TerminateExchange) :
    ReachesRegistered past db exchange ↔
      ∀ i < db.serverToTimestamp.elems.length, (exchange i).halt = none := by
  rw [← handleTerminate_ok_iff]
  refine ⟨fun h => h.answered.imp fun _ hr => hr.1, fun ⟨response, hresponse⟩ => ?_⟩
  obtain ⟨error, hended, -⟩ := handleTerminate_ended hresponse
  have hsockets : (db.handleTerminate exchange).1.map TerminateSent.serverSocket =
      db.serverToTimestamp.elems.map fun e => e.1.serverSocket := by
    rw [hended.sockets, List.map_map]
    rfl
  refine ⟨?_, fun s => ?_, fun i sent h => ?_,
    response, hresponse, handleTerminate_success_iff hresponse⟩
  · rw [hsockets]
    exact hrun.terminated_nodup haddr
  · rw [hsockets, ← hrun.mem_terminated_iff hone, List.mem_map, Prod.exists]
    rfl
  · obtain ⟨hm, he⟩ := terminateLoop_getElem? h
    exact ⟨hm, he.trans (by rw [Nat.zero_add])⟩

def sampleServersRun : List BinderEvent :=
  [(.register (sampleRegister 102 80) 1, some (registered 0)),
    (.register (sampleRegister 102 81) 2, some (registered 0))]

theorem sampleServersRun_oneOwner : OneOwner (sampleServersRun.map Prod.fst) :=
  .of_two_servers (by simp [sampleServersRun])

theorem sampleServersRun_oneAddress : OneAddress (sampleServersRun.map Prod.fst) := by
  intro s message message' hm hm'
  simp only [sampleServersRun, List.map_cons, List.map_nil, List.mem_cons,
    BinderRequest.register.injEq, List.not_mem_nil, or_false] at hm hm'
  rcases hm with ⟨rfl, rfl⟩ | ⟨rfl, rfl⟩ <;> rcases hm' with ⟨rfl, hs⟩ | ⟨rfl, hs⟩ <;>
    first | rfl | cases hs

theorem sampleServersRun_live : LiveRegistration sampleServersRun 2 :=
  ⟨sampleSignature 102, sampleAddress 81, [(.register (sampleRegister 102 80) 1,
    some (registered 0))], _, [], rfl, ⟨sampleRegister 102 81, rfl, by decide, rfl, rfl⟩, by simp⟩

/-- One server closes its connection, the other terminates. -/
def sampleExchange : Nat → TerminateExchange
  | 0 => .received (.threw .connectionClosed)
  | _ => .received (.returned [9, 0])

theorem terminate_reaches_registered_sample :
    ∃ db, BinderRun sampleServersRun db ∧ ReachesRegistered sampleServersRun db sampleExchange ∧
      (db.handleTerminate sampleExchange).1.map TerminateSent.serverSocket = [1, 2] ∧
      (db.handleTerminate sampleExchange).2.map RawMessage.getMessageType =
        .ok .terminateFailure := by
  obtain ⟨db, hrun, hdb⟩ : ∃ db, BinderRun sampleServersRun db ∧
      ((db.handleTerminate sampleExchange).1.map TerminateSent.serverSocket,
        (db.handleTerminate sampleExchange).2.map RawMessage.getMessageType) =
          ([1, 2], .ok .terminateFailure) :=
    Run.of_exec_map (f := fun db : BinderDatabase => ((db.handleTerminate sampleExchange).1.map
      TerminateSent.serverSocket, (db.handleTerminate sampleExchange).2.map
        RawMessage.getMessageType)) (by decide)
  refine ⟨db, hrun, ?_, Prod.mk.inj hdb⟩
  refine (terminate_reaches_registered hrun sampleServersRun_oneOwner
    sampleServersRun_oneAddress sampleExchange).mpr fun i _ => ?_
  cases i <;> rfl

/-- The reply of a server whose length is -2. -/
def badReply : TerminateExchange :=
  .received (TcpSocket.recv ⟨4, fun _ => 4⟩ 0 ⟨[0xFE, 0xFF, 0xFF, 0xFF], .stillOpen⟩).1

/-- The second server is not told, and nothing answers the client. -/
theorem bad_reply_ends_termination :
    ∃ db, BinderRun sampleServersRun db ∧ OneOwner (sampleServersRun.map Prod.fst) ∧
      OneAddress (sampleServersRun.map Prod.fst) ∧ LiveRegistration sampleServersRun 2 ∧
      (db.handleTerminate fun _ => badReply).1.map TerminateSent.serverSocket = [1] ∧
      (db.handleTerminate fun _ => badReply).2 = .error .badArrayLength ∧
      ¬ ReachesRegistered sampleServersRun db fun _ => badReply := by
  obtain ⟨db, hrun, hdb⟩ : ∃ db, BinderRun sampleServersRun db ∧
      ((db.handleTerminate fun _ => badReply).1.map TerminateSent.serverSocket,
        (db.handleTerminate fun _ => badReply).2) = ([1], .error .badArrayLength) :=
    Run.of_exec_map (f := fun db : BinderDatabase => ((db.handleTerminate fun _ => badReply).1.map
      TerminateSent.serverSocket, (db.handleTerminate fun _ => badReply).2)) (by decide)
  obtain ⟨hsockets, hanswer⟩ := Prod.mk.inj hdb
  refine ⟨db, hrun, sampleServersRun_oneOwner, sampleServersRun_oneAddress,
    sampleServersRun_live, hsockets, hanswer, fun h => ?_⟩
  obtain ⟨response, hresponse, -⟩ := h.answered
  cases hresponse.symm.trans hanswer

end RpcLibrary
