import RpcLibrary.LocalCall
import RpcLibrary.ServerAgreement

/-! The library in use: one binder, server processes that start, register, serve
and die, and clients whose calls are located first and answered later. Any of them
may take the next step. -/

namespace RpcLibrary

open Runs BinderDatabase

/-- Where a server process stands between its library calls. -/
inductive HostPhase
  | ready
  /-- In `rpcRegister`, with the binder's response on its way. -/
  | awaiting (name : Bytes) (argTypes : ArgTypes) (f : Skeleton) (response : RawMessage)
  /-- In `rpcExecute`. -/
  | serving

structure Host where
  socket : SocketPtr
  phase : HostPhase

/-- The processes by their addresses, the connections of servers that the binder
has not found closed, and the calls that have an address but no answer yet. -/
structure Parties where
  hosts : Address → Option Host
  connections : List (SocketPtr × Address)
  clients : Nat → Option (Call × Address)

namespace Parties

def setHost (parties : Parties) (a : Address) (host : Option Host) : Parties :=
  { parties with hosts := Function.update parties.hosts a host }

def setClient (parties : Parties) (c : Nat) (call : Option (Call × Address)) : Parties :=
  { parties with clients := Function.update parties.clients c call }

def start (parties : Parties) (a : Address) (s : SocketPtr) : Parties :=
  { parties.setHost a (some ⟨s, .ready⟩) with connections := (s, a) :: parties.connections }

def disconnect (parties : Parties) (s : SocketPtr) : Parties :=
  { parties with connections := parties.connections.filter fun e => e.1 ≠ s }

/-- A process can take the address, and the connection it gets is not in use. -/
def Free (parties : Parties) (a : Address) (s : SocketPtr) : Prop :=
  (parties.hosts a).isNone = true ∧ s ∉ parties.connections.map Prod.fst

/-- No process is left at the other end of the connection. -/
def Closed (parties : Parties) (s : SocketPtr) : Prop :=
  ∀ e ∈ parties.connections, e.1 = s → (parties.hosts e.2).map Host.socket ≠ some s

instance (parties : Parties) (a : Address) (s : SocketPtr) : Decidable (parties.Free a s) :=
  inferInstanceAs (Decidable (_ ∧ _))

instance (parties : Parties) (s : SocketPtr) : Decidable (parties.Closed s) :=
  inferInstanceAs (Decidable (∀ e ∈ parties.connections, _ → _ ≠ _))

end Parties

/-- When the connection of a call breaks. -/
inductive Breakage
  /-- The server does not get the request, or not to the end of it. -/
  | unhandled
  /-- The server has handled the request, and the response is lost. -/
  | unheard

inductive DeploymentEvent
  | starts (a : Address) (s : SocketPtr)
  | registers (a : Address) (name : Bytes) (argTypes : ArgTypes) (f : Skeleton)
  | registered (a : Address)
  | executes (a : Address)
  | dies (a : Address)
  /-- The binder finds a connection closed. -/
  | removes (s : SocketPtr)
  /-- A client's call up to the address of a server. -/
  | locates (c : Nat) (call : Call)
  /-- The rest of it, over a connection that may break. -/
  | calls (c : Nat) (breakage : Option Breakage)

inductive DeploymentOutput
  | internal
  | returned (status : Word)
  | finished (outcome : CallOutcome)

abbrev DeploymentTrace := List (DeploymentEvent × DeploymentOutput)

structure Deployment where
  binder : BinderDatabase
  databases : Address → ServerDatabase
  parties : Parties

/-- The binder's main loop on a message of type `locateRequest`. -/
def BinderDatabase.receiveLocate (db : BinderDatabase) (raw : RawMessage) :
    Option (RawMessage × BinderDatabase) := do
  let message ← LocateRequest.deserialize raw
  db.handleLocate message

namespace Deployment

def new : Deployment := ⟨.new, fun _ => ∅, ⟨fun _ => none, [], fun _ => none⟩⟩

/-- What a call meets at an address. Before `rpcExecute` it waits there. -/
def exchange (sys : Deployment) (call : Call) (a : Address) (breakage : Option Breakage) :
    Option ServerExchange :=
  match sys.parties.hosts a, breakage with
  | none, _ => some .refused
  | some _, some .unhandled => some (.failed none)
  | some ⟨_, .serving⟩, some .unheard => do
    let request ← transmit call.message.serialize
    let outcome ← serveExecute request (sys.databases a)
    some (.failed outcome.executed)
  | some ⟨_, .serving⟩, none => some (.answered (sys.databases a))
  | some _, _ => none

def step (sys : Deployment) : DeploymentEvent → Option (DeploymentOutput × Deployment)
  | .starts a s =>
    if sys.parties.Free a s then
      some (.internal, { sys with
        databases := Function.update sys.databases a ∅
        parties := sys.parties.start a s })
    else none
  | .registers a name argTypes f =>
    match sys.parties.hosts a with
    | some ⟨s, .ready⟩ => do
      let request ← transmit (Register.serialize ⟨a.hostname, a.port, name, argTypes⟩)
      let (response, binder) ← sys.binder.receiveRegister request s
      let host : Host := ⟨s, .awaiting name argTypes f response⟩
      some (.internal, { sys with binder, parties := sys.parties.setHost a (some host) })
    | _ => none
  | .registered a =>
    match sys.parties.hosts a with
    | some ⟨s, .awaiting name argTypes f response⟩ => do
      let (status, database) ← rpcRegister (some a) (fun _ => .answered response) name
        argTypes.words f (sys.databases a)
      some (.returned status, { sys with
        databases := Function.update sys.databases a database
        parties := sys.parties.setHost a (some ⟨s, .ready⟩) })
    | _ => none
  | .executes a =>
    match sys.parties.hosts a with
    | some ⟨s, .ready⟩ =>
      some (.internal, { sys with parties := sys.parties.setHost a (some ⟨s, .serving⟩) })
    | _ => none
  | .dies a =>
    if (sys.parties.hosts a).isSome then
      some (.internal, { sys with parties := sys.parties.setHost a none })
    else none
  | .removes s =>
    if sys.parties.Closed s then
      some (.internal, { sys with
        binder := sys.binder.removeIfServer s
        parties := sys.parties.disconnect s })
    else none
  | .locates c call =>
    match sys.parties.clients c with
    | some _ => none
    | none => do
      let request ← transmit (LocateRequest.serialize ⟨call.name, call.argTypes⟩)
      let (response, binder) ← sys.binder.receiveLocate request
      let response ← transmit response
      match ← locateServerFor (fun _ => .answered response) call.name call.argTypes.words with
      | .error code =>
        some (.finished ⟨.failed code.toInt call.args, none⟩, { sys with binder })
      | .ok a =>
        some (.internal, { sys with binder, parties := sys.parties.setClient c (some (call, a)) })
  | .calls c breakage =>
    match sys.parties.clients c with
    | none => none
    | some (call, a) => do
      let exchange ← sys.exchange call a breakage
      let outcome ← callServer exchange call.name call.argTypes.words call.args
      some (.finished outcome, { sys with parties := sys.parties.setClient c none })

end Deployment

end RpcLibrary
