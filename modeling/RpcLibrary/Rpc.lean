import RpcLibrary.Libserver
import RpcLibrary.TcpSocket

/-! The client's and the server's library calls. Everything another party does
comes in as the outcome of an exchange with it. -/

namespace RpcLibrary

def isOutput (argType : Word) : Bool := isOnlyOutput argType || isInputOutput argType

/-- The `memcpy` calls of `copyOutputArgumentsBack`, as pairs of the index of
the argument written to and the bytes written, from argument `i` on. -/
def copiesFrom (i : Nat) : List Word → List Bytes → List (Nat × Bytes)
  | argType :: argTypes, src :: srcs =>
    if isOutput argType then
      (i, src.take (argBytes argType)) :: copiesFrom (i + 1) argTypes srcs
    else copiesFrom (i + 1) argTypes srcs
  | _, _ => []

def copyOutputArgumentsBack (result : Execute) : List (Nat × Bytes) :=
  copiesFrom 0 result.argTypes.words result.args

/-- A `memcpy` into one of the caller's blocks, which has to be long enough. -/
def writeBlock (args : List Bytes) (i : Nat) (bytes : Bytes) : Option (List Bytes) :=
  match args[i]? with
  | some dest =>
    if bytes.length ≤ dest.length then some (args.set i (bytes ++ dest.drop bytes.length)) else none
  | none => none

def writeBlocks (args : List Bytes) : List (Nat × Bytes) → Option (List Bytes)
  | [] => some args
  | (i, bytes) :: copies => do
    let args ← writeBlock args i bytes
    writeBlocks args copies

structure CallResult where
  status : Word
  copies : List (Nat × Bytes)
  args : List Bytes
deriving DecidableEq

def CallResult.failed (status : Word) (args : List Bytes) : CallResult := ⟨status, [], args⟩

def finishCall (response : RawMessage) (args : List Bytes) : Option CallResult :=
  match response.getMessageType with
  | .execute => do
    let executeResult ← Execute.deserialize response
    let args ← writeBlocks args (copyOutputArgumentsBack executeResult)
    some ⟨0, copyOutputArgumentsBack executeResult, args⟩
  | .executeFailure => do
    let failure ← (StatusMessage.deserialize response : Option ExecuteFailure)
    some (.failed failure.status args)
  | _ => some (.failed StatusCodes.unexpectedMessage.toInt args)

/-- A message too long for the array of `TcpSocket.recv` has no defined
transmission. -/
def transmit (raw : RawMessage) : Option RawMessage :=
  if raw.buffer.length < 2147483647 then some raw else none

theorem transmit_eq_some {raw sent : RawMessage} (h : transmit raw = some sent) :
    sent = raw ∧ raw.buffer.length < 2 ^ 31 := by
  rw [transmit] at h
  split_ifs at h with hlen
  exact ⟨(Option.some.inj h).symm, by omega⟩

inductive BinderExchange
  | missing
  /-- Sending or receiving throws. -/
  | failed
  | answered (response : RawMessage)

inductive ServerExchange
  | refused
  /-- Sending or receiving throws, by when the server may have run a skeleton. -/
  | failed (executed : Option SkeletonResult)
  | answered (database : ServerDatabase)
  /-- A response no server sends to an execute message. -/
  | other (response : RawMessage) (hexecute : response.getMessageType ≠ .execute)
      (hfailure : response.getMessageType ≠ .executeFailure)

/-- The first half of `rpcCall`: an address, or the status to return. -/
def locateServerFor (binder : RawMessage → BinderExchange) (name : Bytes) (argTypes : List Word) :
    Option (Except StatusCodes Address) :=
  let locate : LocateRequest := ⟨name, .ofArray argTypes⟩
  match binder locate.serialize with
  | .missing => some (.error .binderConnectionError)
  | .failed => some (.error .binderConnectionError)
  | .answered response =>
    match response.getMessageType with
    | .locateFailure => some (.error .locateFailure)
    | .locateSuccess => do
      let locateSuccess ← LocateSuccess.deserialize response
      some (.ok ⟨locateSuccess.serverHostname, locateSuccess.serverPort⟩)
    | _ => some (.error .unexpectedMessage)

/-- What the caller has of a call, and what a server ran for it. -/
structure CallOutcome where
  result : CallResult
  executed : Option SkeletonResult
deriving DecidableEq

def callServer (server : ServerExchange) (name : Bytes) (argTypes : List Word)
    (args : List Bytes) : Option CallOutcome :=
  match server with
  | .refused => some ⟨.failed StatusCodes.serverConnectionError.toInt args, none⟩
  | .failed executed => do
    let _ ← Execute.new name argTypes args
    some ⟨.failed StatusCodes.serverConnectionError.toInt args, executed⟩
  | .answered database => do
    let message ← Execute.new name argTypes args
    let request ← transmit message.serialize
    let outcome ← serveExecute request database
    let response ← transmit outcome.response
    let result ← finishCall response args
    some ⟨result, outcome.executed⟩
  | .other response _ _ => do
    let _ ← Execute.new name argTypes args
    let result ← finishCall response args
    some ⟨result, none⟩

def rpcCall (binder : RawMessage → BinderExchange) (servers : Address → ServerExchange)
    (name : Bytes) (argTypes : List Word) (args : List Bytes) : Option CallOutcome := do
  match ← locateServerFor binder name argTypes with
  | .error code => some ⟨.failed code.toInt args, none⟩
  | .ok address => callServer (servers address) name argTypes args

/-- The status `rpcRegister` returns and the server's database after it. -/
def rpcRegister (localServer : Option Address) (binder : RawMessage → BinderExchange)
    (name : Bytes) (argTypes : List Word) (f : Skeleton) (database : ServerDatabase) :
    Option (Word × ServerDatabase) :=
  match localServer with
  | none => some (StatusCodes.serverSocketCreationError.toInt, database)
  | some address =>
    let message : Register := ⟨address.hostname, address.port, name, .ofArray argTypes⟩
    match binder message.serialize with
    | .missing => some (StatusCodes.binderConnectionError.toInt, database)
    | .failed => some (StatusCodes.binderConnectionError.toInt, database)
    | .answered response =>
      match response.getMessageType with
      | .registerSuccess => do
        let signature ← signatureOfArgTypes name (.ofArray argTypes)
        some (0, database.assign signature f)
      | .registerFailure => do
        let message ← (StatusMessage.deserialize response : Option RegisterFailure)
        some (message.status, database)
      | _ => some (StatusCodes.unexpectedMessage.toInt, database)

end RpcLibrary
