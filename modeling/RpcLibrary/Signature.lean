import Mathlib.Data.List.Lex
import Mathlib.Data.Prod.Lex
import Mathlib.Order.Nat
import RpcLibrary.Arg

/-! The signature of a skeleton: its name and the ordered types of its
arguments, without the lengths of arrays. -/

namespace RpcLibrary

inductive ScalarOrArray
  | scalar
  | array
deriving DecidableEq

inductive InOutBoth
  | input
  | output
  | both
deriving DecidableEq

inductive DataType
  | char
  | short
  | int
  | long
  | double
  | float
deriving DecidableEq

structure Argument where
  dimension : ScalarOrArray
  direction : InOutBoth
  dataType : DataType
deriving DecidableEq

structure Signature where
  functionName : Bytes
  argumentList : List Argument

/-- The type an argument word assigns; an unknown code assigns none. -/
def dataTypeOf (argType : Word) : Option DataType :=
  if getArgType argType = ARG_CHAR then some .char
  else if getArgType argType = ARG_SHORT then some .short
  else if getArgType argType = ARG_INT then some .int
  else if getArgType argType = ARG_LONG then some .long
  else if getArgType argType = ARG_DOUBLE then some .double
  else if getArgType argType = ARG_FLOAT then some .float
  else none

/-- Done by hand to distinguish an array of size 1 from a scalar. -/
def dimensionOf (argType : Word) : ScalarOrArray :=
  if argType &&& ((1 <<< 16) - 1) = 0 then .scalar else .array

/-- The direction an argument word assigns; with neither bit set it assigns none. -/
def directionOf (argType : Word) : Option InOutBoth :=
  if isOnlyInput argType then some .input
  else if isOnlyOutput argType then some .output
  else if isInputOutput argType then some .both
  else none

/-- One round of the loop in `signatureOfArgTypes`. Reading a type or a
direction that was not assigned has no defined outcome. -/
def argumentOf (argType : Word) : Option Argument := do
  let dataType ← dataTypeOf argType
  let direction ← directionOf argType
  some ⟨dimensionOf argType, direction, dataType⟩

def signatureOfArgTypes (functionName : Bytes) (argTypes : ArgTypes) : Option Signature := do
  let argumentList ← argTypes.words.mapM argumentOf
  some ⟨functionName, argumentList⟩

/-- A word with a known type code and at least one direction bit. -/
def WellFormedWord (argType : Word) : Prop :=
  (dataTypeOf argType).isSome = true ∧ (directionOf argType).isSome = true

instance (argType : Word) : Decidable (WellFormedWord argType) :=
  inferInstanceAs (Decidable (_ ∧ _))

theorem argumentOf_isSome {argType : Word} :
    (argumentOf argType).isSome = true ↔ WellFormedWord argType := by
  simp only [argumentOf, WellFormedWord]
  cases dataTypeOf argType <;> cases directionOf argType <;> simp

theorem mapM_argumentOf_isSome_iff {words : List Word} :
    (words.mapM argumentOf).isSome = true ↔ ∀ w ∈ words, WellFormedWord w := by
  induction words with
  | nil => simp
  | cons w ws ih =>
    rw [List.forall_mem_cons, ← argumentOf_isSome, ← ih, List.mapM_cons]
    cases argumentOf w with
    | none => simp
    | some a => cases ws.mapM argumentOf <;> simp

theorem signatureOfArgTypes_isSome_iff {functionName : Bytes} {argTypes : ArgTypes} :
    (signatureOfArgTypes functionName argTypes).isSome = true ↔
      ∀ w ∈ argTypes.words, WellFormedWord w := by
  rw [← mapM_argumentOf_isSome_iff, signatureOfArgTypes]
  cases argTypes.words.mapM argumentOf <;> rfl

/-! The order of signatures as map keys: names first, then the argument lists,
each compared as the tuples of enumerators they are. -/

def ScalarOrArray.rank : ScalarOrArray → Nat
  | scalar => 0
  | array => 1

def InOutBoth.rank : InOutBoth → Nat
  | input => 0
  | output => 1
  | both => 2

def DataType.rank : DataType → Nat
  | char => 0
  | short => 1
  | int => 2
  | long => 3
  | double => 4
  | float => 5

def Argument.rank (a : Argument) : Lex (Nat × Lex (Nat × Nat)) :=
  toLex (a.dimension.rank, toLex (a.direction.rank, a.dataType.rank))

theorem Argument.rank_injective : Function.Injective Argument.rank := by
  rintro ⟨x, y, z⟩ ⟨x', y', z'⟩ h
  have h := Prod.mk.inj (congrArg ofLex h)
  have h' := Prod.mk.inj (congrArg ofLex h.2)
  have hx : x = x' := by cases x <;> cases x' <;> simp_all [ScalarOrArray.rank]
  have hy : y = y' := by cases y <;> cases y' <;> simp_all [InOutBoth.rank]
  have hz : z = z' := by cases z <;> cases z' <;> simp_all [DataType.rank]
  rw [hx, hy, hz]

def stringKey (s : Bytes) : List Nat := s.map BitVec.toNat

theorem stringKey_injective : Function.Injective stringKey :=
  List.map_injective_iff.mpr BitVec.toNat_injective

def Signature.key (s : Signature) : Lex (List Nat × List (Lex (Nat × Lex (Nat × Nat)))) :=
  toLex (stringKey s.functionName, s.argumentList.map Argument.rank)

theorem Signature.key_injective : Function.Injective Signature.key := by
  rintro ⟨name, args⟩ ⟨name', args'⟩ h
  obtain ⟨hn, ha⟩ := Prod.mk.inj (congrArg ofLex h)
  obtain rfl : name = name' := stringKey_injective hn
  obtain rfl : args = args' := List.map_injective_iff.mpr Argument.rank_injective ha
  rfl

instance : LinearOrder Signature := LinearOrder.lift' Signature.key Signature.key_injective

end RpcLibrary
