import RpcLibrary.BinderDatabase
import RpcLibrary.Runs

/-! Runs of the binder's database under any order of its three operations. -/

namespace RpcLibrary

open Runs

def Register.signature (message : Register) : Option Signature :=
  signatureOfArgTypes message.functionName message.argTypes

def Register.address (message : Register) : Address := ⟨message.serverHostname, message.serverPort⟩

def LocateRequest.signature (message : LocateRequest) : Option Signature :=
  signatureOfArgTypes message.functionName message.argTypes

abbrev registered (status : Word) : RawMessage :=
  StatusMessage.serialize (⟨status⟩ : RegisterSuccess)

abbrev located (a : Address) : RawMessage := LocateSuccess.serialize ⟨a.hostname, a.port⟩

abbrev notLocated : RawMessage := StatusMessage.serialize (⟨1⟩ : LocateFailure)

theorem located_injective : Function.Injective located := by
  rintro ⟨host, port⟩ ⟨host', port'⟩ h
  have he := LocateSuccess.serialize_injective h
  simp only [LocateSuccess.mk.injEq] at he
  rw [he.1, he.2]

theorem located_ne_notLocated (a : Address) : located a ≠ notLocated := by
  intro h
  have ht := congrArg RawMessage.getMessageType h
  cases ht

inductive BinderRequest
  | register (message : Register) (socket : SocketPtr)
  | locate (message : LocateRequest)
  | remove (socket : SocketPtr)
deriving DecidableEq

abbrev BinderEvent := BinderRequest × Option RawMessage

namespace BinderDatabase

def step (db : BinderDatabase) : BinderRequest → Option (Option RawMessage × BinderDatabase)
  | .register message socket => (db.handleRegister message socket).map fun r => (some r.1, r.2)
  | .locate message => (db.handleLocate message).map fun r => (some r.1, r.2)
  | .remove socket => some (none, db.removeIfServer socket)

inductive StepCase (db : BinderDatabase) : BinderRequest → Option RawMessage → BinderDatabase → Prop
  | known {message socket signature} (hf : message.signature = some signature)
      (hc : (db.servers signature).contains message.address = true) :
      StepCase db (.register message socket) (some (registered 1)) db
  | added {message socket signature} (hf : message.signature = some signature)
      (hc : (db.servers signature).contains message.address = false) :
      StepCase db (.register message socket) (some (registered 0))
        (db.added signature ⟨message.serverHostname, message.serverPort, socket⟩)
  | notFound {message signature} (hf : message.signature = some signature)
      (hp : db.pick signature = none) :
      StepCase db (.locate message) (some notLocated) (db.pruned signature)
  | found {message signature p} (hf : message.signature = some signature)
      (hp : db.pick signature = some p) :
      StepCase db (.locate message) (some (located p.2.address)) (db.touched signature p)
  | removed {socket} : StepCase db (.remove socket) none (db.removeIfServer socket)

theorem step_cases {db db' : BinderDatabase} {request : BinderRequest} {reply : Option RawMessage}
    (h : db.step request = some (reply, db')) : StepCase db request reply db' := by
  cases request with
  | register message socket =>
    cases hf : message.signature with
    | none =>
      rw [Register.signature] at hf
      simp [step, handleRegister, hf] at h
    | some signature =>
      have hs := hf
      rw [Register.signature] at hs
      cases hc : (db.servers signature).contains message.address with
      | true =>
        have hr : db.registerServer signature ⟨_, _, socket⟩ = _ := registerServer_of_known hc
        simp only [step, handleRegister, hs, Option.map_some, hr, Option.some.injEq,
          Prod.mk.injEq] at h
        obtain ⟨rfl, rfl⟩ := h
        exact .known hf hc
      | false =>
        have hr : db.registerServer signature ⟨_, _, socket⟩ = _ := registerServer_of_new hc
        simp only [step, handleRegister, hs, Option.map_some, hr, Option.some.injEq,
          Prod.mk.injEq] at h
        obtain ⟨rfl, rfl⟩ := h
        exact .added hf hc
  | locate message =>
    cases hf : message.signature with
    | none =>
      rw [LocateRequest.signature] at hf
      simp [step, handleLocate, hf] at h
    | some signature =>
      have hs := hf
      rw [LocateRequest.signature] at hs
      cases hp : db.pick signature with
      | none =>
        simp only [step, handleLocate, hs, Option.map_some, locateServer_of_none hp,
          Option.some.injEq, Prod.mk.injEq] at h
        obtain ⟨rfl, rfl⟩ := h
        exact .notFound hf hp
      | some p =>
        simp only [step, handleLocate, hs, Option.map_some, locateServer_of_some hp,
          Option.some.injEq, Prod.mk.injEq] at h
        obtain ⟨rfl, rfl⟩ := h
        exact .found hf hp
  | remove socket =>
    simp only [step, Option.some.injEq, Prod.mk.injEq] at h
    obtain ⟨rfl, rfl⟩ := h
    exact .removed

/-- Conversely, every case is a step: together with `step_cases` this says
exactly what a call does. -/
theorem StepCase.step {db db' : BinderDatabase} {request : BinderRequest}
    {reply : Option RawMessage} (h : StepCase db request reply db') :
    db.step request = some (reply, db') := by
  cases h with
  | @known message socket signature hf hc =>
    rw [Register.signature] at hf
    have hr : db.registerServer signature ⟨_, _, socket⟩ = _ := registerServer_of_known hc
    simp only [BinderDatabase.step, handleRegister, hf, Option.map_some, hr]
  | @added message socket signature hf hc =>
    rw [Register.signature] at hf
    have hr : db.registerServer signature ⟨_, _, socket⟩ = _ := registerServer_of_new hc
    simp only [BinderDatabase.step, handleRegister, hf, Option.map_some, hr]
  | notFound hf hp =>
    rw [LocateRequest.signature] at hf
    simp only [BinderDatabase.step, handleLocate, hf, Option.map_some, locateServer_of_none hp]
  | found hf hp =>
    rw [LocateRequest.signature] at hf
    simp only [BinderDatabase.step, handleLocate, hf, Option.map_some, locateServer_of_some hp]
    rfl
  | removed => rfl

end BinderDatabase

abbrev BinderRun (trace : List BinderEvent) (db : BinderDatabase) : Prop :=
  Run BinderDatabase.step BinderDatabase.new trace db

/-! Events of a run, by what they say about a signature, an address and a socket. -/

def Removed (s : SocketPtr) (e : BinderEvent) : Prop := e.1 = .remove s

/-- A registration from `s` with address `a`, whatever its answer. -/
def Claimed (a : Address) (s : SocketPtr) (e : BinderEvent) : Prop :=
  ∃ message, e.1 = .register message s ∧ message.address = a

/-- A registration answered with success, newly or with the warning. -/
def Acknowledged (f : Signature) (a : Address) (s : SocketPtr) (e : BinderEvent) : Prop :=
  ∃ message, e.1 = .register message s ∧ message.signature = some f ∧ message.address = a ∧
    (e.2 = some (registered 0) ∨ e.2 = some (registered 1))

def RegisteredNew (f : Signature) (a : Address) (s : SocketPtr) (e : BinderEvent) : Prop :=
  ∃ message, e.1 = .register message s ∧ message.signature = some f ∧ message.address = a ∧
    e.2 = some (registered 0)

/-- The events that advance the binder's clock: status-0 registrations and
successful locates. -/
def isTick (e : BinderEvent) : Bool :=
  match e with
  | (.register _ _, some reply) => reply = registered 0
  | (.locate _, some reply) => reply.getMessageType = .locateSuccess
  | _ => false

def ticks (trace : List BinderEvent) : Nat := trace.countP isTick

/-- An address is registered from one socket only until that socket has been removed. -/
def OneOwner (requests : List BinderRequest) : Prop :=
  ∀ before message s between message' s' after,
    requests = before ++ .register message s :: (between ++ .register message' s' :: after) →
    message.address = message'.address → s = s' ∨ .remove s ∈ between

/-! Small messages for statements about particular runs. -/

def sampleRegister (name : Byte) (port : Word) : Register := ⟨[104], port, [name], .ofArray []⟩

def sampleLocate (name : Byte) : LocateRequest := ⟨[name], .ofArray []⟩

def sampleSignature (name : Byte) : Signature := ⟨[name], []⟩

def sampleAddress (port : Word) : Address := ⟨[104], port⟩

end RpcLibrary
