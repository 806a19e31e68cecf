import Mathlib.Tactic.IntervalCases
import RpcLibrary.Cursor
import RpcLibrary.Message

/-! Integers, strings and status messages on the wire. A decoding step that
reads outside its buffer, overflows a position or throws has no outcome. -/

namespace RpcLibrary

open Cursor

def GET_BYTE (x : Word) (i : Nat) : Word := x.sshiftRight (i <<< 3) &&& 0xff

def MAKE_BYTE (x : Byte) (i : Nat) : Word := x.setWidth 32 <<< (i <<< 3)

def encodeInteger (x : Word) : Bytes :=
  [(GET_BYTE x 0).setWidth 8, (GET_BYTE x 1).setWidth 8,
    (GET_BYTE x 2).setWidth 8, (GET_BYTE x 3).setWidth 8]

/-- A character of a string; the position of the end reads as a null character. -/
def charAt (buffer : Bytes) (pos : Int) : Option Byte :=
  if 0 ≤ pos then (buffer ++ [0])[pos.toNat]? else none

/-- Addition of two `int` values, when it does not overflow. -/
def addInt (a b : Int) : Option Int :=
  if -2147483648 ≤ a + b ∧ a + b ≤ 2147483647 then some (a + b) else none

def decodeInteger (buffer : Bytes) (nextPos : Int) : Option (Word × Int) := do
  let nextPos ← addInt nextPos 4
  let b0 ← charAt buffer (nextPos - 4)
  let b1 ← charAt buffer (nextPos - 3)
  let b2 ← charAt buffer (nextPos - 2)
  let b3 ← charAt buffer (nextPos - 1)
  some (MAKE_BYTE b0 0 + MAKE_BYTE b1 1 + MAKE_BYTE b2 2 + MAKE_BYTE b3 3, nextPos)

/-- `substr` throws when it starts after the end, and a negative count, taken
as unsigned, reaches to the end. -/
def substr (buffer : Bytes) (pos count : Int) : Option Bytes :=
  if 0 ≤ pos ∧ pos ≤ buffer.length then
    some (if 0 ≤ count then (buffer.drop pos.toNat).take count.toNat else buffer.drop pos.toNat)
  else none

def decodeString (buffer : Bytes) (nextPos : Int) : Option (Bytes × Int) := do
  let (length, oldPos) ← decodeInteger buffer nextPos
  let nextPos ← addInt oldPos length.toInt
  let s ← substr buffer oldPos length.toInt
  some (s, nextPos)

def encodeString (s : Bytes) : Bytes := encodeInteger (BitVec.ofNat 32 s.length) ++ s

@[simp] theorem length_encodeInteger (x : Word) : (encodeInteger x).length = 4 := rfl

@[simp] theorem length_encodeString (s : Bytes) : (encodeString s).length = 4 + s.length := by
  simp [encodeString]

theorem toNat_setWidth_GET_BYTE (x : Word) {i : Nat} (hi : i < 4) :
    ((GET_BYTE x i).setWidth 8).toNat = x.toNat / 2 ^ (8 * i) % 2 ^ 8 := by
  have hb : (GET_BYTE x i).setWidth 8 = (x >>> (8 * i)).setWidth 8 := by
    ext j hj
    simp only [GET_BYTE, BitVec.getElem_setWidth, BitVec.getLsbD_and, BitVec.getLsbD_sshiftRight,
      BitVec.getLsbD_ushiftRight, Nat.shiftLeft_eq]
    have hbit : i * 2 ^ 3 + j < 32 := by omega
    have hmask : BitVec.getLsbD (0xff : Word) j = true := by interval_cases j <;> rfl
    rw [if_pos hbit, hmask, Nat.mul_comm]
    simp [show j < 32 by omega]
  rw [hb, BitVec.toNat_setWidth, BitVec.toNat_ushiftRight, Nat.shiftRight_eq_div_pow]

theorem toNat_MAKE_BYTE (b : Byte) {i : Nat} (hi : i < 4) :
    (MAKE_BYTE b i).toNat = b.toNat * 2 ^ (8 * i) := by
  have hb := b.isLt
  have hpow : 2 ^ (8 * i) ≤ 2 ^ (8 * 3) := Nat.pow_le_pow_right (by decide) (by omega)
  have hlt : b.toNat * 2 ^ (8 * i) < 2 ^ 32 :=
    calc b.toNat * 2 ^ (8 * i) < 2 ^ 8 * 2 ^ (8 * i) := by gcongr
      _ ≤ 2 ^ 8 * 2 ^ (8 * 3) := by gcongr
      _ = 2 ^ 32 := by decide
  have hshift : i <<< 3 = 8 * i := by rw [Nat.shiftLeft_eq, Nat.mul_comm]
  rw [MAKE_BYTE, BitVec.toNat_shiftLeft, BitVec.toNat_setWidth, hshift, Nat.shiftLeft_eq,
    Nat.mod_eq_of_lt (Nat.lt_trans hb (by decide)), Nat.mod_eq_of_lt hlt]

/-- The four bytes put together again are the integer, whatever its sign. -/
theorem make_get_bytes (x : Word) :
    MAKE_BYTE ((GET_BYTE x 0).setWidth 8) 0 + MAKE_BYTE ((GET_BYTE x 1).setWidth 8) 1 +
      MAKE_BYTE ((GET_BYTE x 2).setWidth 8) 2 + MAKE_BYTE ((GET_BYTE x 3).setWidth 8) 3 = x := by
  apply BitVec.eq_of_toNat_eq
  have hx : x.toNat < 2 ^ 32 := x.isLt
  rw [BitVec.toNat_add, BitVec.toNat_add, BitVec.toNat_add,
    toNat_MAKE_BYTE _ (by decide), toNat_MAKE_BYTE _ (by decide), toNat_MAKE_BYTE _ (by decide),
    toNat_MAKE_BYTE _ (by decide),
    toNat_setWidth_GET_BYTE x (by decide), toNat_setWidth_GET_BYTE x (by decide),
    toNat_setWidth_GET_BYTE x (by decide), toNat_setWidth_GET_BYTE x (by decide)]
  omega

theorem encodeInteger_injective : Function.Injective encodeInteger := by
  intro x y h
  obtain ⟨h0, h⟩ := List.cons.inj h
  obtain ⟨h1, h⟩ := List.cons.inj h
  obtain ⟨h2, h⟩ := List.cons.inj h
  have h3 := (List.cons.inj h).1
  rw [← make_get_bytes x, h0, h1, h2, h3, make_get_bytes]

theorem encodeString_injective : Function.Injective encodeString := by
  intro s t h
  exact (List.append_inj h (by simp only [length_encodeInteger])).2

theorem bind_of_eq {α β : Type*} {x : Option α} {a : α} {f : α → Option β} (h : x = some a) :
    x.bind f = f a := by rw [h, Option.bind_some]

theorem addInt_ofNat {a b : Nat} (h : a + b < 2 ^ 31) :
    addInt a b = some ((a + b : Nat) : Int) := by
  rw [addInt, if_pos (by omega)]
  simp

theorem charAt_at {buffer rest : Bytes} {pos : Nat} (h : At buffer pos rest) {i : Nat} {c : Byte}
    (hc : rest[i]? = some c) : charAt buffer ((pos + i : Nat) : Int) = some c := by
  have hi := (List.getElem?_eq_some_iff.mp hc).1
  rw [charAt, if_pos (by omega), Int.toNat_natCast, (h.append [0]).getElem?,
    List.getElem?_append_left hi, hc]

theorem decodeInteger_at {buffer rest : Bytes} {pos : Nat} {x : Word}
    (h : At buffer pos (encodeInteger x ++ rest)) (hlen : buffer.length < 2 ^ 31) :
    decodeInteger buffer pos = some (x, ((pos + 4 : Nat) : Int)) := by
  have hl := h.length
  simp only [List.length_append, length_encodeInteger] at hl
  have hadd : addInt pos 4 = some ((pos + 4 : Nat) : Int) :=
    addInt_ofNat (b := 4) (by omega)
  have h0 := charAt_at h (i := 0) (c := (GET_BYTE x 0).setWidth 8) rfl
  have h1 := charAt_at h (i := 1) (c := (GET_BYTE x 1).setWidth 8) rfl
  have h2 := charAt_at h (i := 2) (c := (GET_BYTE x 2).setWidth 8) rfl
  have h3 := charAt_at h (i := 3) (c := (GET_BYTE x 3).setWidth 8) rfl
  simp only [decodeInteger, hadd, Option.bind_eq_bind, Option.bind_some,
    show ((pos + 4 : Nat) : Int) - 4 = ((pos + 0 : Nat) : Int) by omega,
    show ((pos + 4 : Nat) : Int) - 3 = ((pos + 1 : Nat) : Int) by omega,
    show ((pos + 4 : Nat) : Int) - 2 = ((pos + 2 : Nat) : Int) by omega,
    show ((pos + 4 : Nat) : Int) - 1 = ((pos + 3 : Nat) : Int) by omega, h0, h1, h2, h3,
    make_get_bytes]

theorem toInt_ofNat {n : Nat} (h : n < 2 ^ 31) : (BitVec.ofNat 32 n).toInt = n := by
  rw [BitVec.toInt_ofNat', Int.bmod_eq_of_le_mul_two] <;> omega

theorem decodeString_at {buffer rest s : Bytes} {pos : Nat}
    (h : At buffer pos (encodeString s ++ rest)) (hlen : buffer.length < 2 ^ 31) :
    decodeString buffer pos = some (s, ((pos + (encodeString s).length : Nat) : Int)) := by
  have h' : At buffer pos (encodeInteger (BitVec.ofNat 32 s.length) ++ (s ++ rest)) := by
    simpa only [encodeString, List.append_assoc] using h
  have hs := h'.advance
  rw [length_encodeInteger] at hs
  have hl := hs.length
  simp only [List.length_append] at hl
  have hint : (BitVec.ofNat 32 s.length).toInt = s.length := toInt_ofNat (by omega)
  have hsub : substr buffer ((pos + 4 : Nat) : Int) s.length = some s := by
    rw [substr, if_pos (by omega), if_pos (by omega), Int.toNat_natCast, Int.toNat_natCast,
      hs.drop, List.take_left' rfl]
  have hadd : addInt ((pos + 4 : Nat) : Int) s.length = some ((pos + 4 + s.length : Nat) : Int) :=
    addInt_ofNat (by omega)
  simp only [decodeString, decodeInteger_at h' hlen, Option.bind_eq_bind, Option.bind_some, hint,
    hadd, hsub, length_encodeString, Nat.add_assoc]

/-- What `MAKE_STATUS_MESSAGE` makes: a message with a simple integer field,
0 or warnings if any. -/
structure StatusMessage (type : MessageType) where
  status : Word
deriving DecidableEq

def StatusMessage.serialize {type : MessageType} (message : StatusMessage type) : RawMessage :=
  ⟨[type.toChar, message.status.setWidth 8]⟩

def StatusMessage.deserialize {type : MessageType} (raw : RawMessage) :
    Option (StatusMessage type) := do
  let status ← raw.getByte 1
  some ⟨status.signExtend 32⟩

/-- Only the low byte of a status crosses the wire, and it comes back as a
signed character. -/
theorem StatusMessage.deserialize_serialize {type : MessageType} (message : StatusMessage type) :
    (StatusMessage.deserialize message.serialize : Option (StatusMessage type)) =
      some ⟨(message.status.setWidth 8).signExtend 32⟩ := rfl

theorem toInt_signExtend_setWidth (status : Word) :
    ((status.setWidth 8).signExtend 32).toInt = status.toInt.bmod 256 := by
  have hsigned : ((status.setWidth 8).signExtend 32).toInt = (status.setWidth 8).toInt :=
    BitVec.toInt_signExtend_of_le (by decide)
  have hbyte : (status.setWidth 8).toInt = (status.toNat : Int).bmod 256 :=
    BitVec.toInt_setWidth status
  have hword : status.toInt = (status.toNat : Int).bmod (2 ^ 32) :=
    BitVec.toInt_eq_toNat_bmod status
  rw [hsigned, hbyte, hword, Int.bmod_bmod_of_dvd (by decide)]

theorem signExtend_setWidth_eq_self {status : Word} :
    (status.setWidth 8).signExtend 32 = status ↔
      -128 ≤ status.toInt ∧ status.toInt ≤ 127 := by
  rw [← BitVec.toInt_inj, toInt_signExtend_setWidth]
  constructor
  · intro h
    have hlow : -(256 / 2 : Int) ≤ status.toInt.bmod 256 := Int.le_bmod (by decide)
    have hhigh : status.toInt.bmod 256 < (256 + 1) / 2 := Int.bmod_lt (by decide)
    omega
  · rintro ⟨hlow, hhigh⟩
    exact Int.bmod_eq_of_le (by omega) (by omega)

/-- None of the status codes is small enough for the byte it is sent in. -/
theorem StatusCodes.toInt_not_kept (code : StatusCodes) :
    (code.toInt.setWidth 8).signExtend 32 ≠ code.toInt := by
  intro h
  have hlow := (signExtend_setWidth_eq_self.mp h).1
  cases code <;> exact absurd hlow (by decide)

/-- A status comes back as it was sent when and only when it fits in a signed byte. -/
theorem status_survives_iff {type : MessageType} (message : StatusMessage type) :
    (StatusMessage.deserialize message.serialize : Option (StatusMessage type)) = some message ↔
      -128 ≤ message.status.toInt ∧ message.status.toInt ≤ 127 := by
  obtain ⟨status⟩ := message
  rw [StatusMessage.deserialize_serialize, Option.some.injEq, StatusMessage.mk.injEq]
  exact signExtend_setWidth_eq_self

/-- The code for an unexpected message comes back as a warning, and a skeleton's
256 as a success. -/
theorem status_narrowed :
    (StatusMessage.deserialize
        (⟨StatusCodes.unexpectedMessage.toInt⟩ : StatusMessage .executeFailure).serialize :
        Option (StatusMessage .executeFailure)) = some ⟨21⟩ ∧
      (StatusMessage.deserialize (⟨256⟩ : StatusMessage .executeFailure).serialize :
        Option (StatusMessage .executeFailure)) = some ⟨0⟩ ∧
      ¬ ∀ (type : MessageType) (message : StatusMessage type),
        (StatusMessage.deserialize message.serialize : Option (StatusMessage type)) =
          some message := by
  refine ⟨by decide, by decide, fun h => ?_⟩
  have hcode := h .executeFailure ⟨256⟩
  exact absurd hcode (by decide)

end RpcLibrary
