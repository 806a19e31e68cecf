import Mathlib.Algebra.Order.BigOperators.Group.List
import RpcLibrary.Libserver
import RpcLibrary.MalformedMessages

/-! The handling of an execute message once more, with a record of what it reads:
which messages a client thread of a server can handle. -/

namespace RpcLibrary

open Tracing Traced Cursor

/-- What is only right in a well-formed execute message: what the other requests
need as well, and a block of arguments to be copied out of it. -/
inductive ExecuteAccess
  | read (access : Access)
  | block (pos : Int) (nbytes : Nat)
deriving DecidableEq

def ExecuteAccess.Safe (buffer : Bytes) : ExecuteAccess → Prop
  | read access => access.Safe buffer
  | block pos nbytes => 0 ≤ pos ∧ pos + nbytes ≤ buffer.length

/-- The blocks that argument words announce, one after the other from `pos` on. -/
def blocksAt (buffer : Bytes) : List Word → Nat → List Bytes
  | [], _ => []
  | argType :: argTypes, pos =>
    (buffer.drop pos).take (argBytes argType) :: blocksAt buffer argTypes (pos + argBytes argType)

/-- The length of the name leads to the argument types, and the blocks of the
sizes that their words announce follow these inside the buffer. -/
def Execute.LaidOut (buffer : Bytes) : Prop :=
  let count := 5 + (wordAt buffer 1).toInt
  let numArgs := (wordAt buffer count).toInt
  5 ≤ buffer.length ∧ ArgTypesLaidOut buffer count ∧
    count + 4 + 4 * numArgs + ((wordsAt buffer numArgs.toNat (count + 4)).map argBytes).sum ≤
      buffer.length

namespace Observed

def decodeBlocks (buffer : Bytes) : List Word → Int → Traced ExecuteAccess (List Bytes × Int)
  | [], pos => pure ([], pos)
  | argType :: argTypes, pos => do
    let arg ← touch (.block pos (argBytes argType)) (copyFrom buffer pos (argBytes argType))
    let pos ← silent (addInt pos (argBytes argType))
    let (args, pos) ← decodeBlocks buffer argTypes pos
    pure (arg :: args, pos)

def decodeExecute (buffer : Bytes) : Traced ExecuteAccess Execute := do
  let (functionName, pos) ← (decodeString buffer 1).relabel .read
  let (argTypes, pos) ← (decodeArgTypes buffer pos).relabel .read
  let (args, _) ← decodeBlocks buffer argTypes pos
  silent (Execute.new functionName argTypes args)

def serveExecute (request : RawMessage) (database : ServerDatabase) :
    Traced ExecuteAccess ExecuteOutcome := do
  let message ← decodeExecute request.getString
  let signature ← (signatureOfArgTypes message.functionName message.argTypes).relabel .read
  match database.get? signature with
  | none => pure ⟨none, unexpectedMessage.serialize⟩
  | some f => silent ((f message.argTypes.words message.args).bind (respond message))

/-! The record apart, these are the functions they repeat. -/

variable {buffer : Bytes}

end Observed

theorem sized_blocksAt {buffer : Bytes} {words : List Word} {pos : Nat}
    (h : pos + (words.map argBytes).sum ≤ buffer.length) :
    Sized words (blocksAt buffer words pos) := by
  induction words generalizing pos with
  | nil => exact .nil
  | cons w words ih =>
    rw [List.map_cons, List.sum_cons] at h
    refine .cons ?_ (ih (by omega))
    rw [List.length_take, List.length_drop]
    omega

/-- No message holds the block that a zero among the words announces. -/
theorem nonzero_of_fits {words : List Word} {n : Nat} (h : (words.map argBytes).sum ≤ n)
    (hn : n < 2 ^ 31) : ∀ w ∈ words, w ≠ 0 := by
  rintro w hw rfl
  have hle : argBytes 0 ≤ (words.map argBytes).sum :=
    List.le_sum_of_mem (List.mem_map_of_mem hw)
  have hzero : argBytes 0 = 2 ^ 64 - 1 := by decide
  omega

namespace Observed

variable {buffer : Bytes}

end Observed

theorem Execute.laidOut_at {buffer rest : Bytes} {message : Execute}
    (h : At buffer 1 (encodeString message.functionName ++ (encodeArgTypes message.argTypes ++
      (message.args.flatten ++ rest))))
    (hlen : buffer.length < 2 ^ 31) (hwords : ∀ w ∈ message.argTypes.words, KnownWord w) :
    Execute.LaidOut buffer := by
  have hname := wordAt_encodeString h hlen
  have hargs := argTypesLaidOut_at h.advance hlen hwords
  have hcount := h.advance
  rw [encodeArgTypes, ArgTypes.numberOfArgs_words, List.append_assoc] at hcount
  have hend := h.length
  simp only [List.length_append, length_encodeString, length_encodeArgTypes] at hend
  have hnum := congrArg BitVec.toInt (wordAt_at hcount hlen)
  rw [toInt_ofNat (by omega)] at hnum
  have hall := wordsAt_at hcount.advance hlen
  have hpos : (5 : Int) + message.functionName.length =
      ((1 + (encodeString message.functionName).length : Nat) : Int) := by
    rw [length_encodeString]
    omega
  rw [Nat.cast_one] at hname
  simp only [Execute.LaidOut, hname, hpos, hnum, Int.toNat_natCast]
  rw [show ((1 + (encodeString message.functionName).length : Nat) : Int) + 4 =
    ((1 + (encodeString message.functionName).length + 4 : Nat) : Int) by omega]
  have hall' : wordsAt buffer message.argTypes.words.length
      ((1 + (encodeString message.functionName).length + 4 : Nat) : Int) =
        message.argTypes.words := hall
  refine ⟨by omega, hargs, ?_⟩
  rw [hall', ← message.sizes.length_flatten, length_encodeString]
  omega

/-- What the library itself serializes, with known words, is laid out as a server needs it. -/
theorem Execute.laidOut_serialize (message : Execute)
    (hlen : message.serialize.buffer.length < 2 ^ 31)
    (hwords : ∀ w ∈ message.argTypes.words, KnownWord w) :
    Execute.LaidOut message.serialize.buffer := by
  have h : At message.serialize.buffer 1 (encodeString message.functionName ++
      (encodeArgTypes message.argTypes ++ (message.args.flatten ++ []))) := by
    rw [List.append_nil]
    exact at_one _ _
  exact Execute.laidOut_at h hlen hwords

end RpcLibrary
