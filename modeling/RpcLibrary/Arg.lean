import Mathlib.Data.BitVec

/-! Argument words and zero-terminated argument arrays. A word holds the two
direction bits, a type byte and the array length of one argument. -/

namespace RpcLibrary

abbrev Byte := BitVec 8

abbrev Bytes := List Byte

/-- A 32-bit `int`. -/
abbrev Word := BitVec 32

def ARG_CHAR : Word := 1
def ARG_SHORT : Word := 2
def ARG_INT : Word := 3
def ARG_LONG : Word := 4
def ARG_DOUBLE : Word := 5
def ARG_FLOAT : Word := 6

def getArgType (argType : Word) : Word := argType.sshiftRight 16 &&& ((1 <<< 8) - 1)

/-- Length 0 signifies a scalar, so it is equivalent to 1. -/
def getArgLength (argType : Word) : Word :=
  let length := argType &&& ((1 <<< 16) - 1)
  if length = 0 then 1 else length

def getSizeOfArgType (type : Word) : Word :=
  if type = ARG_CHAR then 1
  else if type = ARG_SHORT then 2
  else if type = ARG_INT then 4
  else if type = ARG_LONG then 8
  else if type = ARG_DOUBLE then 8
  else if type = ARG_FLOAT then 4
  else -1

/-- The loop of `numberOfArgs`; the end of the list stands for the terminating zero. -/
def numberOfArgs : List Word → Nat
  | [] => 0
  | argType :: argTypes => if argType = 0 then 0 else numberOfArgs argTypes + 1

def isOnlyInput (argType : Word) : Bool := argType.sshiftRight 30 &&& 0x3 = 2

def isOnlyOutput (argType : Word) : Bool := argType.sshiftRight 30 &&& 0x3 = 1

def isInputOutput (argType : Word) : Bool := argType.sshiftRight 30 &&& 0x3 = 3

/-- The bytes of one argument, in the `size_t` arithmetic all six places that
need it share. An unknown type has size -1, so its argument has nearly `2^64`. -/
def argBytes (argType : Word) : Nat :=
  ((getSizeOfArgType (getArgType argType)).signExtend 64 *
    (getArgLength argType).signExtend 64).toNat

theorem numberOfArgs_of_nonzero {words : List Word} (h : ∀ w ∈ words, w ≠ 0) :
    numberOfArgs words = words.length := by
  induction words with
  | nil => rfl
  | cons w ws ih =>
    rw [numberOfArgs, if_neg (h w List.mem_cons_self),
      ih (fun v hv => h v (List.mem_cons_of_mem _ hv)), List.length_cons]

theorem nonzero_of_mem_take_numberOfArgs {words : List Word} :
    ∀ w ∈ words.take (numberOfArgs words), w ≠ 0 := by
  induction words with
  | nil => simp
  | cons v ws ih =>
    by_cases hv : v = 0
    · simp [numberOfArgs, hv]
    · intro w hw
      simp only [numberOfArgs, hv, if_false, List.take_succ_cons, List.mem_cons] at hw
      rcases hw with rfl | hw
      · exact hv
      · exact ih w hw

/-- A zero-terminated array, given by the words before the terminator. -/
structure ArgTypes where
  words : List Word
  nonzero : ∀ w ∈ words, w ≠ 0
deriving DecidableEq

def ArgTypes.ofArray (words : List Word) : ArgTypes :=
  ⟨words.take (numberOfArgs words), nonzero_of_mem_take_numberOfArgs⟩

@[simp] theorem ArgTypes.ofArray_words (argTypes : ArgTypes) :
    ArgTypes.ofArray argTypes.words = argTypes := by
  obtain ⟨words, h⟩ := argTypes
  simp [ArgTypes.ofArray, numberOfArgs_of_nonzero h]

@[simp] theorem ArgTypes.numberOfArgs_words (argTypes : ArgTypes) :
    numberOfArgs argTypes.words = argTypes.words.length :=
  numberOfArgs_of_nonzero argTypes.nonzero

end RpcLibrary
