import RpcLibrary.HandleTerminate

/-! Requests that fail leave nothing to observe. A locate that finds no server
may drop the emptied entry of its signature, and no call can tell. -/

namespace RpcLibrary

open Runs BinderDatabase

/-- A call of the database, termination included. -/
inductive BinderCall
  | request (request : BinderRequest)
  | terminate (exchange : Nat → TerminateExchange)

inductive BinderAnswer
  | replied (reply : Option RawMessage)
  | terminated (sent : List TerminateSent) (response : Except Halt RawMessage)
deriving DecidableEq

namespace BinderDatabase

def call (db : BinderDatabase) : BinderCall → Option (BinderAnswer × BinderDatabase)
  | .request request => (db.step request).map fun r => (.replied r.1, r.2)
  | .terminate exchange =>
    let r := db.handleTerminate exchange
    some (.terminated r.1 r.2, db)

/-- The same up to signatures that no server is registered for. -/
structure Alike (db db' : BinderDatabase) : Prop where
  time : db.time = db'.time
  serverQueue : db.serverQueue = db'.serverQueue
  serverToTimestamp : db.serverToTimestamp = db'.serverToTimestamp
  servers : ∀ f, db.servers f = db'.servers f

theorem Alike.symm {db db' : BinderDatabase} (h : Alike db db') : Alike db' db :=
  ⟨h.time.symm, h.serverQueue.symm, h.serverToTimestamp.symm, fun f => (h.servers f).symm⟩

theorem Alike.refl (db : BinderDatabase) : Alike db db := ⟨rfl, rfl, rfl, fun _ => rfl⟩

theorem alike_pruned (db : BinderDatabase) (f : Signature) : Alike (db.pruned f) db :=
  ⟨rfl, rfl, rfl, db.servers_pruned f⟩

theorem Alike.pick {db db' : BinderDatabase} (h : Alike db db') (f : Signature) :
    db.pick f = db'.pick f := by
  simp only [BinderDatabase.pick, h.serverQueue, h.servers]

theorem Alike.pruned {db db' : BinderDatabase} (h : Alike db db') (f : Signature) :
    Alike (db.pruned f) (db'.pruned f) where
  time := h.time
  serverQueue := h.serverQueue
  serverToTimestamp := h.serverToTimestamp
  servers g := by rw [servers_pruned, servers_pruned, h.servers]

theorem Alike.added {db db' : BinderDatabase} (h : Alike db db') (f : Signature)
    (server : ServerData) : Alike (db.added f server) (db'.added f server) where
  time := congrArg (· + 1) h.time
  serverQueue := by simp only [BinderDatabase.added, h.serverToTimestamp, h.serverQueue, h.time]
  serverToTimestamp := by simp only [BinderDatabase.added, h.serverToTimestamp, h.time]
  servers g := by rw [servers_added, servers_added, h.servers, h.servers]

theorem Alike.touched {db db' : BinderDatabase} (h : Alike db db') (f : Signature)
    (p : BitVec 32 × ServerData) : Alike (db.touched f p) (db'.touched f p) where
  time := congrArg (· + 1) h.time
  serverQueue := by simp only [BinderDatabase.touched, h.serverQueue, h.time]
  serverToTimestamp := by simp only [BinderDatabase.touched, h.serverToTimestamp, h.time]
  servers g := by rw [servers_touched, servers_touched, h.servers]

theorem Alike.removeIfServer {db db' : BinderDatabase} (h : Alike db db') (s : SocketPtr) :
    Alike (db.removeIfServer s) (db'.removeIfServer s) where
  time := h.time
  serverQueue := by simp only [BinderDatabase.removeIfServer, h.serverQueue]
  serverToTimestamp := by simp only [BinderDatabase.removeIfServer, h.serverToTimestamp]
  servers g := by rw [servers_removeIfServer, servers_removeIfServer, h.servers]

theorem Alike.handleTerminate {db db' : BinderDatabase} (h : Alike db db')
    (exchange : Nat → TerminateExchange) :
    db.handleTerminate exchange = db'.handleTerminate exchange := by
  simp only [BinderDatabase.handleTerminate, h.serverToTimestamp]

theorem Alike.step {db db' after : BinderDatabase} {request : BinderRequest}
    {reply : Option RawMessage} (h : Alike db db') (hs : StepCase db request reply after) :
    ∃ after', StepCase db' request reply after' ∧ Alike after after' := by
  cases hs with
  | known hf hc => exact ⟨db', .known hf (h.servers _ ▸ hc), h⟩
  | added hf hc => exact ⟨_, .added hf (h.servers _ ▸ hc), h.added _ _⟩
  | notFound hf hp => exact ⟨_, .notFound hf (h.pick _ ▸ hp), h.pruned _⟩
  | found hf hp => exact ⟨_, .found hf (h.pick _ ▸ hp), h.touched _ _⟩
  | removed => exact ⟨_, .removed, h.removeIfServer _⟩

theorem alike_simulation : Simulation call Alike := by
  intro db db' after i answer h hs
  cases i with
  | request request =>
    obtain ⟨⟨reply, after⟩, hstep, he⟩ := Option.map_eq_some_iff.mp hs
    obtain ⟨rfl, rfl⟩ := Prod.mk.inj he
    obtain ⟨after', hcase, halike⟩ := h.step (step_cases hstep)
    exact ⟨after', by rw [call, hcase.step, Option.map_some], halike⟩
  | terminate exchange =>
    obtain ⟨rfl, rfl⟩ := Prod.mk.inj (Option.some.inj hs)
    exact ⟨db', by rw [call, h.handleTerminate], h⟩

theorem Alike.indistinguishable {db db' : BinderDatabase} (h : Alike db db') :
    Indistinguishable call db db' := alike_simulation.indistinguishable Alike.symm h

theorem alike_of_failure {db after : BinderDatabase} {request : BinderRequest}
    {reply : RawMessage} (hs : db.step request = some (some reply, after))
    (hfail : reply = registered 1 ∨ reply.getMessageType = .locateFailure) : Alike after db := by
  generalize hr : some reply = answer at hs
  cases step_cases hs with
  | known => exact .refl db
  | added =>
    obtain rfl := Option.some.inj hr
    rcases hfail with h | h <;> cases h
  | notFound => exact alike_pruned db _
  | found =>
    obtain rfl := Option.some.inj hr
    rcases hfail with h | h
    · cases congrArg RawMessage.getMessageType h
    · cases h
  | removed => cases hr

/-- After a locate answered with a failure, or a registration answered with the
warning, every sequence of calls gets the answers it would have got without it,
and sends the same terminations. -/
theorem failures_unobservable (db : BinderDatabase) :
    (∀ message reply after, db.handleLocate message = some (reply, after) →
      reply.getMessageType = .locateFailure → Indistinguishable call after db) ∧
    ∀ message socket after, db.handleRegister message socket = some (registered 1, after) →
      Indistinguishable call after db := by
  constructor
  · intro message reply after h hfail
    have hs : db.step (.locate message) = some (some reply, after) := by
      rw [BinderDatabase.step, h, Option.map_some]
    exact (alike_of_failure hs (.inr hfail)).indistinguishable
  · intro message socket after h
    have hs : db.step (.register message socket) = some (some (registered 1), after) := by
      rw [BinderDatabase.step, h, Option.map_some]
    exact (alike_of_failure hs (.inl rfl)).indistinguishable

/-- A locate that does change the state: it drops the entry of a removed server. -/
theorem failures_unobservable_sample :
    ∃ db after, BinderRun [(.register (sampleRegister 102 80) 1, some (registered 0)),
        (.remove 1, none)] db ∧
      db.handleLocate (sampleLocate 102) = some (notLocated, after) ∧
      (db.signatureToServers.elems.length, after.signatureToServers.elems.length) = (1, 0) ∧
      Indistinguishable call after db := by
  obtain ⟨db, hrun, hdb⟩ : ∃ db, BinderRun [(.register (sampleRegister 102 80) 1,
      some (registered 0)), (.remove 1, none)] db ∧
      (db.signatureToServers.elems.length, (db.handleLocate (sampleLocate 102)).map fun r =>
        (r.1, r.2.signatureToServers.elems.length)) = (1, some (notLocated, 0)) :=
    Run.of_exec_map (by decide)
  obtain ⟨hbefore, hlocate⟩ := Prod.mk.inj hdb
  obtain ⟨⟨reply, after⟩, hl, hafter⟩ := Option.map_eq_some_iff.mp hlocate
  obtain ⟨rfl, hcount⟩ := Prod.mk.inj hafter
  have hsame := (failures_unobservable db).1 _ _ _ hl rfl
  exact ⟨db, after, hrun, hl, by rw [hbefore, hcount], hsame⟩

end BinderDatabase

end RpcLibrary
