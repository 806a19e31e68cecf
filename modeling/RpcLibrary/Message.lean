import RpcLibrary.Arg

/-! Raw messages, their types and the status codes. -/

namespace RpcLibrary

/-- Negative numbers for errors, positive for warnings. -/
inductive StatusCodes
  | serverSocketCreationError
  | binderConnectionError
  | unexpectedMessage
  | serverConnectionError
  | locateFailure
deriving DecidableEq

def StatusCodes.toInt : StatusCodes → Word
  | serverSocketCreationError => -1001
  | binderConnectionError => -1002
  | unexpectedMessage => -1003
  | serverConnectionError => -1004
  | locateFailure => -1005

inductive MessageType
  | register
  | registerSuccess
  | registerFailure
  | locateRequest
  | locateSuccess
  | locateFailure
  /-- A successful execution is answered with the same message type. -/
  | execute
  | executeFailure
  | terminate
  | terminateSuccess
  | terminateFailure
  | unknown
  /-- A first byte that names no enumerator. -/
  | invalid (value : Byte)
deriving DecidableEq

def MessageType.toChar : MessageType → Byte
  | register => 0
  | registerSuccess => 1
  | registerFailure => 2
  | locateRequest => 3
  | locateSuccess => 4
  | locateFailure => 5
  | execute => 6
  | executeFailure => 7
  | terminate => 8
  | terminateSuccess => 9
  | terminateFailure => 10
  | unknown => 11
  | invalid value => value

def MessageType.ofChar (value : Byte) : MessageType :=
  match value.toNat with
  | 0 => register
  | 1 => registerSuccess
  | 2 => registerFailure
  | 3 => locateRequest
  | 4 => locateSuccess
  | 5 => locateFailure
  | 6 => execute
  | 7 => executeFailure
  | 8 => terminate
  | 9 => terminateSuccess
  | 10 => terminateFailure
  | 11 => unknown
  | _ => invalid value

def extractMessageType : Bytes → MessageType
  | [] => .unknown
  | c :: _ => .ofChar c

structure RawMessage where
  buffer : Bytes
deriving DecidableEq

def RawMessage.getMessageType (raw : RawMessage) : MessageType := extractMessageType raw.buffer

/-- Reading past the end of the buffer has no defined outcome. -/
def RawMessage.getByte (raw : RawMessage) (pos : Nat) : Option Byte := raw.buffer[pos]?

def RawMessage.getString (raw : RawMessage) : Bytes := raw.buffer

end RpcLibrary
