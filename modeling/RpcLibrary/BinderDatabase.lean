import RpcLibrary.ControlMessages
import RpcLibrary.OrderedMap

/-! The binder's database: a queue of servers ordered by their last activity,
the time of that activity for each server, and the servers of each signature. -/

namespace RpcLibrary

abbrev SocketPtr := Nat

structure ServerData where
  serverHostname : Bytes
  serverPort : Word
  serverSocket : SocketPtr
deriving DecidableEq

/-- What `operator<` compares: the socket is ignored. -/
def ServerData.address (server : ServerData) : Address :=
  ⟨server.serverHostname, server.serverPort⟩

def queueKey (p : BitVec 32 × ServerData) : Lex (Nat × Address) := toLex (p.1.toNat, p.2.address)

abbrev ServerQueue := OrderedSet (BitVec 32 × ServerData) queueKey

abbrev ServerToTimestamp := OrderedMap ServerData (BitVec 32) ServerData.address

abbrev ServerSet := OrderedSet ServerData ServerData.address

abbrev SignatureToServers := OrderedMap Signature ServerSet id

structure BinderDatabase where
  time : BitVec 32
  serverQueue : ServerQueue
  serverToTimestamp : ServerToTimestamp
  signatureToServers : SignatureToServers

namespace BinderDatabase

def new : BinderDatabase := ⟨1, ∅, ∅, ∅⟩

/-- `handleRegister` once the signature is computed. -/
def registerServer (db : BinderDatabase) (signature : Signature) (server : ServerData) :
    RawMessage × BinderDatabase :=
  let (servers, signatureToServers) := db.signatureToServers.getOrCreate signature ∅
  if servers.contains server.address then
    (StatusMessage.serialize (⟨1⟩ : RegisterSuccess), { db with signatureToServers })
  else
    let (timestamp, serverToTimestamp) := db.serverToTimestamp.getOrCreate server 0
    let serverQueue :=
      if timestamp > 0 then db.serverQueue.erase (queueKey (timestamp, server)) else db.serverQueue
    (StatusMessage.serialize (⟨0⟩ : RegisterSuccess),
      { time := db.time + 1
        serverQueue := serverQueue.insert (db.time, server)
        serverToTimestamp := serverToTimestamp.assign server db.time
        signatureToServers := signatureToServers.assign signature (servers.insert server) })

def handleRegister (db : BinderDatabase) (message : Register) (serverSocket : SocketPtr) :
    Option (RawMessage × BinderDatabase) :=
  (signatureOfArgTypes message.functionName message.argTypes).map fun signature =>
    db.registerServer signature ⟨message.serverHostname, message.serverPort, serverSocket⟩

def dropIfEmpty (signatureToServers : SignatureToServers) (signature : Signature) :
    SignatureToServers :=
  match signatureToServers.get? signature with
  | some servers =>
    if servers.isEmpty then signatureToServers.remove signature else signatureToServers
  | none => signatureToServers

def locateServer (db : BinderDatabase) (signature : Signature) : RawMessage × BinderDatabase :=
  let signatureToServers := dropIfEmpty db.signatureToServers signature
  match signatureToServers.get? signature with
  | none => (StatusMessage.serialize (⟨1⟩ : LocateFailure), { db with signatureToServers })
  | some servers =>
    match db.serverQueue.elems.find? (fun p => servers.contains p.2.address) with
    | none => (StatusMessage.serialize (⟨1⟩ : LocateFailure), { db with signatureToServers })
    | some p =>
      (LocateSuccess.serialize ⟨p.2.serverHostname, p.2.serverPort⟩,
        { time := db.time + 1
          serverQueue := (db.serverQueue.erase (queueKey p)).insert (db.time, p.2)
          serverToTimestamp := db.serverToTimestamp.assign p.2 db.time
          signatureToServers })

def handleLocate (db : BinderDatabase) (message : LocateRequest) :
    Option (RawMessage × BinderDatabase) :=
  (signatureOfArgTypes message.functionName message.argTypes).map db.locateServer

def removeIfServer (db : BinderDatabase) (socket : SocketPtr) : BinderDatabase :=
  { time := db.time
    serverQueue := db.serverQueue.filter (fun p => p.2.serverSocket ≠ socket)
    serverToTimestamp := db.serverToTimestamp.filter (fun e => e.1.serverSocket ≠ socket)
    signatureToServers := db.signatureToServers.mapValues
      (fun servers => servers.filter (fun server => server.serverSocket ≠ socket)) }

def servers (db : BinderDatabase) (signature : Signature) : ServerSet :=
  (db.signatureToServers.get? signature).getD ∅

/-- The queue element `handleLocate` picks. -/
def pick (db : BinderDatabase) (signature : Signature) : Option (BitVec 32 × ServerData) :=
  db.serverQueue.elems.find? (fun p => (db.servers signature).contains p.2.address)

def added (db : BinderDatabase) (signature : Signature) (server : ServerData) : BinderDatabase :=
  let timestamp := (db.serverToTimestamp.get? server).getD 0
  { time := db.time + 1
    serverQueue :=
      (if timestamp > 0 then db.serverQueue.erase (queueKey (timestamp, server))
        else db.serverQueue).insert (db.time, server)
    serverToTimestamp := db.serverToTimestamp.assign server db.time
    signatureToServers := db.signatureToServers.assign signature
      ((db.servers signature).insert server) }

def pruned (db : BinderDatabase) (signature : Signature) : BinderDatabase :=
  { db with signatureToServers := dropIfEmpty db.signatureToServers signature }

def touched (db : BinderDatabase) (signature : Signature) (p : BitVec 32 × ServerData) :
    BinderDatabase :=
  { time := db.time + 1
    serverQueue := (db.serverQueue.erase (queueKey p)).insert (db.time, p.2)
    serverToTimestamp := db.serverToTimestamp.assign p.2 db.time
    signatureToServers := dropIfEmpty db.signatureToServers signature }

theorem registerServer_of_known {db : BinderDatabase} {signature : Signature} {server : ServerData}
    (h : (db.servers signature).contains server.address = true) :
    db.registerServer signature server = (StatusMessage.serialize (⟨1⟩ : RegisterSuccess), db) := by
  cases hg : db.signatureToServers.get? signature with
  | none => simp [servers, hg, OrderedSet.contains] at h
  | some set =>
    simp only [servers, hg, Option.getD_some] at h
    simp only [registerServer, OrderedMap.getOrCreate_of_get? hg, h, if_true]

theorem registerServer_of_new {db : BinderDatabase} {signature : Signature} {server : ServerData}
    (h : (db.servers signature).contains server.address = false) :
    db.registerServer signature server =
      (StatusMessage.serialize (⟨0⟩ : RegisterSuccess), db.added signature server) := by
  simp only [servers] at h
  simp only [registerServer, OrderedMap.getOrCreate_fst, OrderedMap.getOrCreate_assign, h, added,
    servers, Bool.false_eq_true, if_false]

theorem get?_dropIfEmpty (m : SignatureToServers) (f g : Signature) :
    ((dropIfEmpty m f).get? g).getD ∅ = (m.get? g).getD ∅ := by
  cases hm : m.get? f with
  | none => simp only [dropIfEmpty, hm]
  | some set =>
    cases he : set.isEmpty with
    | false => simp only [dropIfEmpty, hm, he, Bool.false_eq_true, if_false]
    | true =>
      simp only [dropIfEmpty, hm, he, if_true, OrderedMap.get?_remove, id]
      split_ifs with h
      · subst h
        have hs : set = ∅ := OrderedSet.ext_mem fun x => by
          simp [OrderedSet.isEmpty_iff.mp he x]
        simp [hm, hs]
      · rfl

theorem pick_eq_none_of_servers_empty {db : BinderDatabase} {f : Signature}
    (h : db.servers f = ∅) : db.pick f = none := by
  simp [pick, h, OrderedSet.contains]

theorem locateServer_of_none {db : BinderDatabase} {f : Signature} (h : db.pick f = none) :
    db.locateServer f = (StatusMessage.serialize (⟨1⟩ : LocateFailure), db.pruned f) := by
  cases hg : (dropIfEmpty db.signatureToServers f).get? f with
  | none => simp only [locateServer, hg, pruned]
  | some set =>
    have hs : db.servers f = set := by rw [servers, ← get?_dropIfEmpty _ f, hg, Option.getD_some]
    rw [pick, hs] at h
    simp only [locateServer, hg, h, pruned]

theorem locateServer_of_some {db : BinderDatabase} {f : Signature} {p : BitVec 32 × ServerData}
    (h : db.pick f = some p) :
    db.locateServer f =
      (LocateSuccess.serialize ⟨p.2.serverHostname, p.2.serverPort⟩, db.touched f p) := by
  cases hg : (dropIfEmpty db.signatureToServers f).get? f with
  | none =>
    have hs : db.servers f = ∅ := by rw [servers, ← get?_dropIfEmpty _ f, hg, Option.getD_none]
    rw [pick_eq_none_of_servers_empty hs] at h
    cases h
  | some set =>
    have hs : db.servers f = set := by rw [servers, ← get?_dropIfEmpty _ f, hg, Option.getD_some]
    rw [pick, hs] at h
    simp only [locateServer, hg, h, touched]

theorem pick_mem {db : BinderDatabase} {f : Signature} {p : BitVec 32 × ServerData}
    (h : db.pick f = some p) :
    p ∈ db.serverQueue ∧ (db.servers f).contains p.2.address = true :=
  ⟨List.mem_of_find?_eq_some h, by simpa using List.find?_some h⟩

@[simp] theorem servers_new (f : Signature) : new.servers f = ∅ := rfl

@[simp] theorem servers_added (db : BinderDatabase) (f g : Signature) (server : ServerData) :
    (db.added f server).servers g =
      if g = f then (db.servers f).insert server else db.servers g := by
  simp only [servers, added, OrderedMap.get?_assign, id]
  split_ifs <;> rfl

@[simp] theorem servers_pruned (db : BinderDatabase) (f g : Signature) :
    (db.pruned f).servers g = db.servers g := get?_dropIfEmpty _ f g

@[simp] theorem servers_touched (db : BinderDatabase) (f g : Signature)
    (p : BitVec 32 × ServerData) : (db.touched f p).servers g = db.servers g :=
  get?_dropIfEmpty _ f g

@[simp] theorem servers_removeIfServer (db : BinderDatabase) (s : SocketPtr) (f : Signature) :
    (db.removeIfServer s).servers f =
      (db.servers f).filter (fun server => server.serverSocket ≠ s) := by
  simp only [servers, removeIfServer, OrderedMap.get?_mapValues]
  cases db.signatureToServers.get? f <;> rfl

theorem mem_servers_added {db : BinderDatabase} {f g : Signature} {server x : ServerData} :
    x ∈ (db.added f server).servers g ↔ x ∈ db.servers g ∨
      (x = server ∧ g = f ∧ (db.servers f).contains server.address = false) := by
  rw [servers_added]
  split_ifs with hg
  · subst hg
    simp only [OrderedSet.mem_insert, true_and]
  · simp only [hg, false_and, and_false, or_false]

theorem contains_servers_added {db : BinderDatabase} {f g : Signature} {server : ServerData}
    {a : Address} : ((db.added f server).servers g).contains a = true ↔
      (db.servers g).contains a = true ∨ (g = f ∧ server.address = a) := by
  rw [servers_added]
  split_ifs with hg
  · subst hg
    simp only [OrderedSet.contains_insert, true_and]
  · simp only [hg, false_and, or_false]

theorem mem_servers_removeIfServer {db : BinderDatabase} {s : SocketPtr} {f : Signature}
    {x : ServerData} :
    x ∈ (db.removeIfServer s).servers f ↔ x ∈ db.servers f ∧ x.serverSocket ≠ s := by
  rw [servers_removeIfServer, OrderedSet.mem_filter, decide_eq_true_iff]

end BinderDatabase

end RpcLibrary
