import RpcLibrary.BinderLoop
import RpcLibrary.SignatureIdentity
import RpcLibrary.Tracing

/-! The handling of a registration and of a locate request once more, with a
record of what a malformed message can make it do wrong. -/

namespace RpcLibrary

open Tracing Traced

/-- What is only right in a well-formed message: a byte read by `decodeInteger`,
the start of a `substr`, a count of arguments that sizes an array, and a word
whose type and direction go into a signature. -/
inductive Access
  | byte (pos : Int)
  | substr (pos : Int)
  | arraySize (numArgs : Int)
  | argument (argType : Word)
deriving DecidableEq

def Access.Safe (buffer : Bytes) : Access → Prop
  | byte pos => 0 ≤ pos ∧ pos < buffer.length
  | substr pos => 0 ≤ pos ∧ pos ≤ buffer.length
  | arraySize numArgs => 0 ≤ numArgs
  | argument argType => WellFormedWord argType

namespace Observed

def readByte (buffer : Bytes) (pos : Int) : Traced Access Byte :=
  touch (.byte pos) (charAt buffer pos)

def decodeInteger (buffer : Bytes) (nextPos : Int) : Traced Access (Word × Int) := do
  let nextPos ← silent (addInt nextPos 4)
  let b0 ← readByte buffer (nextPos - 4)
  let b1 ← readByte buffer (nextPos - 3)
  let b2 ← readByte buffer (nextPos - 2)
  let b3 ← readByte buffer (nextPos - 1)
  pure (MAKE_BYTE b0 0 + MAKE_BYTE b1 1 + MAKE_BYTE b2 2 + MAKE_BYTE b3 3, nextPos)

def decodeString (buffer : Bytes) (nextPos : Int) : Traced Access (Bytes × Int) := do
  let (length, oldPos) ← decodeInteger buffer nextPos
  let nextPos ← silent (addInt oldPos length.toInt)
  let s ← touch (.substr oldPos) (substr buffer oldPos length.toInt)
  pure (s, nextPos)

def decodeWords (buffer : Bytes) : Nat → Int → Traced Access (List Word × Int)
  | 0, pos => pure ([], pos)
  | n + 1, pos => do
    let (argType, pos) ← decodeInteger buffer pos
    let (argTypes, pos) ← decodeWords buffer n pos
    pure (argType :: argTypes, pos)

def allocate (numArgs : Int) : Traced Access Unit :=
  touch (.arraySize numArgs) (if 0 ≤ numArgs ∧ numArgs + 1 ≤ 2147483647 then some () else none)

def decodeArgTypes (buffer : Bytes) (pos : Int) : Traced Access (List Word × Int) := do
  let (numArgs, pos) ← decodeInteger buffer pos
  allocate numArgs.toInt
  decodeWords buffer numArgs.toInt.toNat pos

def decodeRegister (buffer : Bytes) : Traced Access Register := do
  let (serverHostname, pos) ← decodeString buffer 1
  let (serverPort, pos) ← decodeInteger buffer pos
  let (functionName, pos) ← decodeString buffer pos
  let (argTypes, _) ← decodeArgTypes buffer pos
  pure ⟨serverHostname, serverPort, functionName, .ofArray argTypes⟩

def decodeLocateRequest (buffer : Bytes) : Traced Access LocateRequest := do
  let (functionName, pos) ← decodeString buffer 1
  let (argTypes, _) ← decodeArgTypes buffer pos
  pure ⟨functionName, .ofArray argTypes⟩

def argumentList : List Word → Traced Access (List Argument)
  | [] => pure []
  | argType :: argTypes => do
    let argument ← touch (.argument argType) (argumentOf argType)
    let arguments ← argumentList argTypes
    pure (argument :: arguments)

def signatureOfArgTypes (functionName : Bytes) (argTypes : ArgTypes) :
    Traced Access Signature := do
  let arguments ← argumentList argTypes.words
  pure ⟨functionName, arguments⟩

def handleRegister (db : BinderDatabase) (raw : RawMessage) (serverSocket : SocketPtr) :
    Traced Access (RawMessage × BinderDatabase) := do
  let message ← decodeRegister raw.getString
  let signature ← signatureOfArgTypes message.functionName message.argTypes
  pure (db.registerServer signature ⟨message.serverHostname, message.serverPort, serverSocket⟩)

def handleLocate (db : BinderDatabase) (raw : RawMessage) :
    Traced Access (RawMessage × BinderDatabase) := do
  let message ← decodeLocateRequest raw.getString
  let signature ← signatureOfArgTypes message.functionName message.argTypes
  pure (db.locateServer signature)

/-! The record apart, these are the functions they repeat. -/

theorem result_decodeInteger (buffer : Bytes) (pos : Int) :
    (decodeInteger buffer pos).result = RpcLibrary.decodeInteger buffer pos := by
  simp only [decodeInteger, readByte, result_bind, result_silent, result_touch, result_pure,
    RpcLibrary.decodeInteger, Option.bind_eq_bind]

end Observed

end RpcLibrary
