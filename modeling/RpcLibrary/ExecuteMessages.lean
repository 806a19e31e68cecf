import Mathlib.Data.List.Forall2
import RpcLibrary.ControlMessages

/-! Execute messages. They carry copies of all argument blocks, whose sizes are
never sent but computed again from the argument words wherever they are needed. -/

namespace RpcLibrary

open Cursor

abbrev ExecuteFailure := StatusMessage .executeFailure

def Sized (words : List Word) (args : List Bytes) : Prop :=
  List.Forall₂ (fun argType (arg : Bytes) => arg.length = argBytes argType) words args

theorem Sized.nil : Sized [] [] := List.Forall₂.nil

/-- A message used both to request an execution and to answer a successful one. -/
@[ext]
structure Execute where
  functionName : Bytes
  argTypes : ArgTypes
  args : List Bytes
  sizes : Sized argTypes.words args
deriving DecidableEq

/-- Copies each block at its declared size; a source block that is missing or
shorter is read outside its bounds. -/
def copyBlocks : (words : List Word) → List Bytes → Option { args // Sized words args }
  | [], _ => some ⟨[], Sized.nil⟩
  | _ :: _, [] => none
  | argType :: words, arg :: args =>
    if h : argBytes argType ≤ arg.length then
      (copyBlocks words args).map fun copies =>
        ⟨arg.take (argBytes argType) :: copies.1,
          .cons (by rw [List.length_take, Nat.min_eq_left h]) copies.2⟩
    else none

/-- The constructor, given arrays as it finds them in memory. -/
def Execute.new (functionName : Bytes) (argTypes : List Word) (argPtrs : List Bytes) :
    Option Execute :=
  (copyBlocks (ArgTypes.ofArray argTypes).words argPtrs).map fun args =>
    ⟨functionName, .ofArray argTypes, args.1, args.2⟩

def Execute.serialize (message : Execute) : RawMessage :=
  ⟨MessageType.execute.toChar :: (encodeString message.functionName ++
    (encodeArgTypes message.argTypes ++ message.args.flatten))⟩

/-- Bytes copied out of a string, whose terminating null character can be read too. -/
def copyFrom (buffer : Bytes) (pos : Int) (nbytes : Nat) : Option Bytes :=
  if 0 ≤ pos ∧ pos.toNat + nbytes ≤ buffer.length + 1 then
    some (((buffer ++ [0]).drop pos.toNat).take nbytes)
  else none

def decodeBlocks (buffer : Bytes) : List Word → Int → Option (List Bytes × Int)
  | [], pos => some ([], pos)
  | argType :: argTypes, pos => do
    let arg ← copyFrom buffer pos (argBytes argType)
    let pos ← addInt pos (argBytes argType)
    let (args, pos) ← decodeBlocks buffer argTypes pos
    some (arg :: args, pos)

def Execute.decode (buffer : Bytes) : Option (Execute × Int) := do
  let (functionName, pos) ← decodeString buffer 1
  let (argTypes, pos) ← decodeArgTypes buffer pos
  let (args, pos) ← decodeBlocks buffer argTypes pos
  let message ← Execute.new functionName argTypes args
  some (message, pos)

def Execute.deserialize (raw : RawMessage) : Option Execute :=
  (Execute.decode raw.getString).map Prod.fst

theorem Sized.length_flatten {words : List Word} {args : List Bytes} (h : Sized words args) :
    args.flatten.length = (words.map argBytes).sum := by
  induction h with
  | nil => rfl
  | cons harg _ ih =>
    rw [List.flatten_cons, List.length_append, List.map_cons, List.sum_cons, harg, ih]

theorem length_serialize_of_argTypes {message message' : Execute}
    (hname : message.functionName = message'.functionName)
    (htypes : message.argTypes = message'.argTypes) :
    message.serialize.buffer.length = message'.serialize.buffer.length := by
  simp only [Execute.serialize, List.length_cons, List.length_append, message.sizes.length_flatten,
    message'.sizes.length_flatten, hname, htypes]

theorem copyBlocks_of_sized {words : List Word} {args : List Bytes} (h : Sized words args) :
    copyBlocks words args = some ⟨args, h⟩ := by
  induction words generalizing args with
  | nil => cases h; rfl
  | cons argType words ih =>
    cases h with
    | @cons _ arg _ args hlen hrest =>
      rw [copyBlocks, dif_pos hlen.ge, ih hrest, Option.map_some]
      refine congrArg some (Subtype.ext ?_)
      change arg.take (argBytes argType) :: args = arg :: args
      rw [← hlen, List.take_length]

theorem Execute.new_of_sized {functionName : Bytes} {argTypes : ArgTypes} {args : List Bytes}
    (h : Sized argTypes.words args) :
    Execute.new functionName argTypes.words args = some ⟨functionName, argTypes, args, h⟩ := by
  have hs : Sized (ArgTypes.ofArray argTypes.words).words args := by
    rwa [ArgTypes.ofArray_words]
  rw [Execute.new, copyBlocks_of_sized hs, Option.map_some]
  exact congrArg some (Execute.ext rfl argTypes.ofArray_words rfl)

theorem Execute.new_eq (message : Execute) :
    Execute.new message.functionName message.argTypes.words message.args = some message :=
  Execute.new_of_sized message.sizes

theorem decodeBlocks_at {buffer rest : Bytes} {words : List Word} {args : List Bytes} {pos : Nat}
    (hs : Sized words args) (h : At buffer pos (args.flatten ++ rest))
    (hlen : buffer.length < 2 ^ 31) :
    decodeBlocks buffer words pos =
      some (args, ((pos + args.flatten.length : Nat) : Int)) := by
  induction hs generalizing pos with
  | nil => rfl
  | @cons argType arg words args hl hrest ih =>
    rw [List.flatten_cons, List.append_assoc] at h
    have hend := h.length
    simp only [List.length_append] at hend
    have hcopy : copyFrom buffer pos (argBytes argType) = some arg := by
      rw [copyFrom, if_pos (by omega), Int.toNat_natCast, (h.append [0]).drop, ← hl,
        List.append_assoc, List.take_left' rfl]
    have hadd : addInt pos (argBytes argType) = some ((pos + arg.length : Nat) : Int) := by
      rw [← hl]
      exact addInt_ofNat (by omega)
    refine (bind_of_eq hcopy).trans ((bind_of_eq hadd).trans ((bind_of_eq (ih h.advance)).trans ?_))
    simp only [List.flatten_cons, List.length_append, Nat.add_assoc]

theorem Execute.length_serialize (message : Execute) :
    message.serialize.buffer.length = 1 + (encodeString message.functionName).length +
      (encodeArgTypes message.argTypes).length + message.args.flatten.length := by
  simp only [Execute.serialize, List.length_cons, List.length_append]
  omega

theorem Execute.decode_at {buffer rest : Bytes} {message : Execute}
    (h : At buffer 1 (encodeString message.functionName ++ (encodeArgTypes message.argTypes ++
      (message.args.flatten ++ rest))))
    (hlen : buffer.length < 2 ^ 31) :
    Execute.decode buffer = some (message, (message.serialize.buffer.length : Int)) := by
  have h1 := decodeString_at h hlen
  have h2 := decodeArgTypes_at h.advance hlen
  have h3 := decodeBlocks_at message.sizes h.advance.advance hlen
  rw [← message.length_serialize] at h3
  simp only [Nat.cast_one] at h1
  exact (bind_of_eq h1).trans ((bind_of_eq h2).trans ((bind_of_eq h3).trans
    (bind_of_eq message.new_eq)))

theorem Execute.decode_serialize (message : Execute)
    (hlen : message.serialize.buffer.length < 2 ^ 31) :
    Execute.decode message.serialize.getString =
      some (message, (message.serialize.buffer.length : Int)) := by
  have h : At message.serialize.buffer 1 (encodeString message.functionName ++
      (encodeArgTypes message.argTypes ++ (message.args.flatten ++ []))) := by
    rw [List.append_nil]
    exact at_one _ _
  exact Execute.decode_at h hlen

theorem Execute.deserialize_serialize (message : Execute)
    (hlen : message.serialize.buffer.length < 2 ^ 31) :
    Execute.deserialize message.serialize = some message := by
  rw [Execute.deserialize, message.decode_serialize hlen, Option.map_some]

/-- What the constructor makes of a name, an array of argument words and blocks
of the declared sizes comes back from the wire with the same name, words and
blocks, and the decoder stops at the end of the buffer. -/
theorem execute_round_trip {name : Bytes} {argTypes : ArgTypes} {args : List Bytes}
    (hargs : Sized argTypes.words args)
    (hlen : (Execute.mk name argTypes args hargs).serialize.buffer.length < 2 ^ 31) :
    ∃ message decoded pos, Execute.new name argTypes.words args = some message ∧
      Execute.decode message.serialize.getString = some (decoded, pos) ∧
      Execute.deserialize message.serialize = some decoded ∧
      decoded.functionName = name ∧ decoded.argTypes = argTypes ∧ decoded.args = args ∧
      pos = message.serialize.buffer.length :=
  ⟨⟨name, argTypes, args, hargs⟩, ⟨name, argTypes, args, hargs⟩, _, Execute.new_of_sized hargs,
    Execute.decode_serialize _ hlen, Execute.deserialize_serialize _ hlen, rfl, rfl, rfl, rfl⟩

theorem execute_round_trip_sample :
    ∃ message decoded pos, Execute.new [102] (ArgTypes.ofArray [0x80010003]).words [[1, 2, 3]] =
        some message ∧ Execute.decode message.serialize.getString = some (decoded, pos) ∧
      Execute.deserialize message.serialize = some decoded ∧ decoded.functionName = [102] ∧
      decoded.argTypes = .ofArray [0x80010003] ∧ decoded.args = [[1, 2, 3]] ∧
      pos = message.serialize.buffer.length := by
  have hargs : Sized (ArgTypes.ofArray [0x80010003]).words [[1, 2, 3]] := .cons (by decide) .nil
  have hlen : (Execute.mk [102] (.ofArray [0x80010003]) [[1, 2, 3]]
      hargs).serialize.buffer.length < 2 ^ 31 := show 17 < 2 ^ 31 by decide
  exact execute_round_trip hargs hlen

end RpcLibrary
