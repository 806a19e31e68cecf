import RpcLibrary.Framing
import RpcLibrary.ObservedHandling

/-! Which registrations and locate requests the binder can handle: those whose
lengths and counts stay inside the message and whose words have a type and a
direction. Nothing checks the others. -/

namespace RpcLibrary

open Tracing Traced Cursor

/-- The integer whose four bytes begin at `pos`. -/
def wordAt (buffer : Bytes) (pos : Int) : Word :=
  MAKE_BYTE (buffer.getD pos.toNat 0) 0 + MAKE_BYTE (buffer.getD (pos + 1).toNat 0) 1 +
    MAKE_BYTE (buffer.getD (pos + 2).toNat 0) 2 + MAKE_BYTE (buffer.getD (pos + 3).toNat 0) 3

def wordsAt (buffer : Bytes) : Nat → Int → List Word
  | 0, _ => []
  | n + 1, pos => wordAt buffer pos :: wordsAt buffer n (pos + 4)

/-- A count at `pos` and as many words after it, all inside the buffer, with a
type and a direction in every word before the first zero. -/
def ArgTypesLaidOut (buffer : Bytes) (pos : Int) : Prop :=
  let numArgs := (wordAt buffer pos).toInt
  0 ≤ pos ∧ pos + 4 ≤ buffer.length ∧ 0 ≤ numArgs ∧ pos + 4 + 4 * numArgs ≤ buffer.length ∧
    ∀ w ∈ (ArgTypes.ofArray (wordsAt buffer numArgs.toNat (pos + 4))).words, KnownWord w

/-- The length of the host name leads to a port and a length inside the buffer,
and that length to the argument types. -/
def Register.LaidOut (buffer : Bytes) : Prop :=
  let port := 5 + (wordAt buffer 1).toInt
  5 ≤ buffer.length ∧ 0 ≤ port ∧ port + 8 ≤ buffer.length ∧
    ArgTypesLaidOut buffer (port + 8 + (wordAt buffer (port + 4)).toInt)

/-- The length of the name leads to the argument types. -/
def LocateRequest.LaidOut (buffer : Bytes) : Prop :=
  5 ≤ buffer.length ∧ ArgTypesLaidOut buffer (5 + (wordAt buffer 1).toInt)

namespace Observed

variable {buffer : Bytes}

theorem charAt_of_inside {pos : Int} (h : 0 ≤ pos ∧ pos < buffer.length) :
    charAt buffer pos = some (buffer.getD pos.toNat 0) := by
  have hlt : pos.toNat < buffer.length := by omega
  rw [charAt, if_pos h.1, List.getElem?_append_left hlt, List.getD_eq_getElem?_getD,
    List.getElem?_eq_getElem hlt, Option.getD_some]

theorem wp_readByte {pos : Int} {Q : Byte → Prop} :
    WP (Access.Safe buffer) (readByte buffer pos) Q ↔
      (0 ≤ pos ∧ pos < buffer.length) ∧ Q (buffer.getD pos.toNat 0) := by
  refine wp_touch.trans (and_congr_right fun h => ?_)
  rw [charAt_of_inside h]
  constructor
  · rintro ⟨b, hb, hq⟩
    exact Option.some.inj hb ▸ hq
  · intro hq
    exact ⟨_, rfl, hq⟩

theorem wp_addInt {ε : Type} {P : ε → Prop} {a b : Int} {Q : Int → Prop} :
    WP P (silent (addInt a b)) Q ↔
      (-2147483648 ≤ a + b ∧ a + b ≤ 2147483647) ∧ Q (a + b) := by
  rw [wp_silent, addInt]
  split_ifs with h
  · constructor
    · rintro ⟨c, hc, hq⟩
      exact ⟨h, Option.some.inj hc ▸ hq⟩
    · rintro ⟨-, hq⟩
      exact ⟨_, rfl, hq⟩
  · constructor
    · rintro ⟨c, hc, -⟩
      cases hc
    · rintro ⟨hrange, -⟩
      exact absurd hrange h

theorem wp_decodeInteger (hlen : buffer.length < 2 ^ 31) {pos : Int} {Q : Word × Int → Prop} :
    WP (Access.Safe buffer) (decodeInteger buffer pos) Q ↔
      (0 ≤ pos ∧ pos + 4 ≤ buffer.length) ∧ Q (wordAt buffer pos, pos + 4) := by
  simp only [decodeInteger, wp_bind, wp_addInt, wp_readByte, wp_pure]
  rw [show pos + 4 - 4 = pos by omega, show pos + 4 - 3 = pos + 1 by omega,
    show pos + 4 - 2 = pos + 2 by omega, show pos + 4 - 1 = pos + 3 by omega]
  constructor
  · rintro ⟨-, h0, -, -, h3, hq⟩
    exact ⟨by omega, hq⟩
  · rintro ⟨h, hq⟩
    exact ⟨by omega, by omega, by omega, by omega, by omega, hq⟩

theorem wp_decodeString (hlen : buffer.length < 2 ^ 31) {pos : Int} {Q : Bytes × Int → Prop} :
    WP (Access.Safe buffer) (decodeString buffer pos) Q ↔
      (0 ≤ pos ∧ pos + 4 ≤ buffer.length) ∧
        pos + 4 + (wordAt buffer pos).toInt ≤ 2147483647 ∧
        Q ((substr buffer (pos + 4) (wordAt buffer pos).toInt).getD [],
          pos + 4 + (wordAt buffer pos).toInt) := by
  simp only [decodeString, wp_bind, wp_decodeInteger hlen, wp_addInt, wp_touch, wp_pure]
  refine and_congr_right fun h => ?_
  have hword := BitVec.le_toInt (wordAt buffer pos)
  have hstart : 0 ≤ pos + 4 ∧ pos + 4 ≤ buffer.length := by omega
  have hsubstr : ∀ n, substr buffer (pos + 4) n = some ((substr buffer (pos + 4) n).getD []) := by
    intro n
    rw [substr, if_pos hstart, Option.getD_some]
  constructor
  · rintro ⟨hrange, -, s, hs, hq⟩
    rw [hs]
    exact ⟨hrange.2, hq⟩
  · rintro ⟨hrange, hq⟩
    exact ⟨⟨by omega, hrange⟩, hstart, _, hsubstr _, hq⟩

theorem wp_decodeWords (hlen : buffer.length < 2 ^ 31) {n : Nat} {pos : Int}
    (hpos : 0 ≤ pos ∧ pos ≤ buffer.length) {Q : List Word × Int → Prop} :
    WP (Access.Safe buffer) (decodeWords buffer n pos) Q ↔
      pos + 4 * n ≤ buffer.length ∧ Q (wordsAt buffer n pos, pos + 4 * n) := by
  induction n generalizing pos Q with
  | zero =>
    rw [decodeWords, wp_pure, wordsAt]
    simp [hpos.2]
  | succ n ih =>
    simp only [decodeWords, wp_bind, wp_decodeInteger hlen]
    have hend : pos + 4 + 4 * (n : Int) = pos + 4 * ((n + 1 : Nat) : Int) := by omega
    constructor
    · rintro ⟨hfirst, hrest⟩
      rw [ih (by omega), wp_pure, hend] at hrest
      exact hrest
    · rintro ⟨hall, hq⟩
      refine ⟨by omega, ?_⟩
      rw [ih (by omega), wp_pure, hend]
      exact ⟨hall, hq⟩

theorem wp_allocate {numArgs : Int} {Q : Prop} :
    WP (Access.Safe buffer) (allocate numArgs) (fun _ => Q) ↔
      (0 ≤ numArgs ∧ numArgs + 1 ≤ 2147483647) ∧ Q := by
  rw [allocate, wp_touch]
  constructor
  · rintro ⟨-, u, hu, hq⟩
    split_ifs at hu with h
    exact ⟨h, hq⟩
  · rintro ⟨h, hq⟩
    exact ⟨h.1, (), if_pos h, hq⟩

theorem wp_decodeArgTypes (hlen : buffer.length < 2 ^ 31) {pos : Int}
    {Q : List Word × Int → Prop} :
    WP (Access.Safe buffer) (decodeArgTypes buffer pos) Q ↔
      (0 ≤ pos ∧ pos + 4 ≤ buffer.length) ∧ 0 ≤ (wordAt buffer pos).toInt ∧
        pos + 4 + 4 * (wordAt buffer pos).toInt ≤ buffer.length ∧
        Q (wordsAt buffer (wordAt buffer pos).toInt.toNat (pos + 4),
          pos + 4 + 4 * (wordAt buffer pos).toInt) := by
  simp only [decodeArgTypes, wp_bind, wp_decodeInteger hlen, wp_allocate]
  refine and_congr_right fun h => ?_
  generalize (wordAt buffer pos).toInt = numArgs
  rw [wp_decodeWords hlen (by omega)]
  constructor
  · rintro ⟨⟨hcount, -⟩, hend, hq⟩
    rw [Int.toNat_of_nonneg hcount] at hend hq
    exact ⟨hcount, hend, hq⟩
  · rintro ⟨hcount, hend, hq⟩
    rw [Int.toNat_of_nonneg hcount]
    exact ⟨⟨hcount, by omega⟩, hend, hq⟩

theorem wp_argumentList {words : List Word} :
    WP (Access.Safe buffer) (argumentList words) (fun _ => True) ↔
      ∀ w ∈ words, WellFormedWord w := by
  induction words with
  | nil =>
    rw [argumentList, wp_pure]
    simp
  | cons w words ih =>
    simp only [argumentList, wp_bind, wp_touch, wp_pure, List.forall_mem_cons, ih]
    refine and_congr_right fun hw => ?_
    obtain ⟨argument, ha⟩ := Option.isSome_iff_exists.mp (argumentOf_isSome.mpr hw)
    constructor
    · rintro ⟨-, -, h⟩
      exact h
    · intro h
      exact ⟨argument, ha, h⟩

theorem wp_argTypes (hlen : buffer.length < 2 ^ 31) {pos : Int} :
    WP (Access.Safe buffer) (decodeArgTypes buffer pos)
        (fun r => ∀ w ∈ (ArgTypes.ofArray r.1).words, WellFormedWord w) ↔
      ArgTypesLaidOut buffer pos := by
  rw [wp_decodeArgTypes hlen, and_assoc]
  simp only [wellFormedWord_iff]
  rfl

theorem wp_handleRegister {raw : RawMessage} (hlen : raw.buffer.length < 2 ^ 31)
    (db : BinderDatabase) (socket : SocketPtr) :
    WP (Access.Safe raw.buffer) (handleRegister db raw socket) (fun _ => True) ↔
      Register.LaidOut raw.buffer := by
  simp only [handleRegister, decodeRegister, signatureOfArgTypes, wp_bind, wp_pure,
    wp_argumentList, RawMessage.getString, wp_decodeString hlen, wp_decodeInteger hlen,
    wp_argTypes hlen, Register.LaidOut, show (1 : Int) + 4 = 5 from rfl]
  generalize 5 + (wordAt raw.buffer 1).toInt = port
  rw [show port + 4 + 4 = port + 8 by omega]
  generalize port + 8 + (wordAt raw.buffer (port + 4)).toInt = last
  constructor
  · rintro ⟨⟨-, hbegin⟩, -, ⟨hport, -⟩, ⟨-, hname⟩, -, hargs⟩
    exact ⟨by omega, hport, hname, hargs⟩
  · rintro ⟨hbegin, hport, hname, hargs⟩
    have hlast := hargs.2.1
    exact ⟨by omega, by omega, by omega, by omega, by omega, hargs⟩

theorem wp_handleLocate {raw : RawMessage} (hlen : raw.buffer.length < 2 ^ 31)
    (db : BinderDatabase) :
    WP (Access.Safe raw.buffer) (handleLocate db raw) (fun _ => True) ↔
      LocateRequest.LaidOut raw.buffer := by
  simp only [handleLocate, decodeLocateRequest, signatureOfArgTypes, wp_bind, wp_pure,
    wp_argumentList, RawMessage.getString, wp_decodeString hlen, wp_argTypes hlen,
    LocateRequest.LaidOut, show (1 : Int) + 4 = 5 from rfl]
  generalize 5 + (wordAt raw.buffer 1).toInt = last
  constructor
  · rintro ⟨⟨-, hbegin⟩, -, hargs⟩
    exact ⟨by omega, hargs⟩
  · rintro ⟨hbegin, hargs⟩
    have hlast := hargs.2.1
    exact ⟨by omega, by omega, hargs⟩

end Observed

theorem wordAt_at {buffer rest : Bytes} {pos : Nat} {x : Word}
    (h : At buffer pos (encodeInteger x ++ rest)) (hlen : buffer.length < 2 ^ 31) :
    wordAt buffer pos = x := by
  have hl := h.length
  rw [List.length_append, length_encodeInteger] at hl
  have hinside : (0 : Int) ≤ pos ∧ (pos : Int) + 4 ≤ buffer.length := by omega
  have hwp : WP (Access.Safe buffer) (Observed.decodeInteger buffer pos)
      (fun r => r.1 = wordAt buffer pos) := (Observed.wp_decodeInteger hlen).mpr ⟨hinside, rfl⟩
  obtain ⟨-, r, hr, hword⟩ := hwp
  rw [Observed.result_decodeInteger, decodeInteger_at h hlen] at hr
  rw [← hword, ← Option.some.inj hr]

theorem wordsAt_at {buffer rest : Bytes} {words : List Word} {pos : Nat}
    (h : At buffer pos (words.flatMap encodeInteger ++ rest)) (hlen : buffer.length < 2 ^ 31) :
    wordsAt buffer words.length pos = words := by
  induction words generalizing pos with
  | nil => rfl
  | cons w words ih =>
    rw [List.flatMap_cons, List.append_assoc] at h
    have hrest := ih h.advance
    rw [length_encodeInteger, Nat.cast_add] at hrest
    rw [List.length_cons, wordsAt, wordAt_at h hlen]
    exact congrArg _ hrest

theorem argTypesLaidOut_at {buffer rest : Bytes} {argTypes : ArgTypes} {pos : Nat}
    (h : At buffer pos (encodeArgTypes argTypes ++ rest)) (hlen : buffer.length < 2 ^ 31)
    (hwords : ∀ w ∈ argTypes.words, KnownWord w) : ArgTypesLaidOut buffer pos := by
  have hl := h.length
  rw [List.length_append, length_encodeArgTypes] at hl
  rw [encodeArgTypes, argTypes.numberOfArgs_words, List.append_assoc] at h
  have hcount : (wordAt buffer pos).toInt = argTypes.words.length := by
    rw [wordAt_at h hlen, toInt_ofNat (by omega)]
  have hall := wordsAt_at h.advance hlen
  rw [length_encodeInteger, Nat.cast_add] at hall
  refine ⟨by omega, by omega, by omega, by omega, ?_⟩
  rw [hcount, Int.toNat_natCast]
  intro w hw
  have hall' : wordsAt buffer argTypes.words.length (pos + 4) = argTypes.words := hall
  rw [hall', ArgTypes.ofArray_words] at hw
  exact hwords w hw

theorem wordAt_encodeString {buffer rest s : Bytes} {pos : Nat}
    (h : At buffer pos (encodeString s ++ rest)) (hlen : buffer.length < 2 ^ 31) :
    (wordAt buffer pos).toInt = s.length := by
  have hl := h.length
  rw [List.length_append, length_encodeString] at hl
  rw [encodeString, List.append_assoc] at h
  rw [wordAt_at h hlen, toInt_ofNat (by omega)]

theorem LocateRequest.laidOut_at {buffer rest : Bytes} {message : LocateRequest}
    (h : At buffer 1 (encodeString message.functionName ++
      (encodeArgTypes message.argTypes ++ rest)))
    (hlen : buffer.length < 2 ^ 31) (hwords : ∀ w ∈ message.argTypes.words, KnownWord w) :
    LocateRequest.LaidOut buffer := by
  have hl := h.length
  rw [List.length_append, length_encodeString] at hl
  have hname := wordAt_encodeString h hlen
  rw [Nat.cast_one] at hname
  have hargs := argTypesLaidOut_at h.advance hlen hwords
  rw [length_encodeString] at hargs
  refine ⟨by omega, ?_⟩
  rw [hname]
  convert hargs using 1
  omega

theorem Register.laidOut_at {buffer rest : Bytes} {message : Register}
    (h : At buffer 1 (encodeString message.serverHostname ++ (encodeInteger message.serverPort ++
      (encodeString message.functionName ++ (encodeArgTypes message.argTypes ++ rest)))))
    (hlen : buffer.length < 2 ^ 31) (hwords : ∀ w ∈ message.argTypes.words, KnownWord w) :
    Register.LaidOut buffer := by
  have hl := h.length
  simp only [List.length_append, length_encodeString, length_encodeInteger] at hl
  have hhost := wordAt_encodeString h hlen
  rw [Nat.cast_one] at hhost
  have hname := wordAt_encodeString h.advance.advance hlen
  have hargs := argTypesLaidOut_at h.advance.advance.advance hlen hwords
  rw [length_encodeString, length_encodeInteger] at hname hargs
  rw [length_encodeString] at hargs
  have hpos : (5 : Int) + message.serverHostname.length + 4 =
      ((1 + (4 + message.serverHostname.length) + 4 : Nat) : Int) := by omega
  simp only [Register.LaidOut, hhost]
  refine ⟨by omega, by omega, by omega, ?_⟩
  rw [hpos, hname]
  convert hargs using 1
  omega

/-- A request with known words is laid out as `deserialize` needs it. -/
theorem LocateRequest.laidOut_serialize (message : LocateRequest)
    (hlen : message.serialize.buffer.length < 2 ^ 31)
    (hwords : ∀ w ∈ message.argTypes.words, KnownWord w) :
    LocateRequest.LaidOut message.serialize.buffer := by
  have h : At message.serialize.buffer 1 (encodeString message.functionName ++
      (encodeArgTypes message.argTypes ++ [])) := by
    rw [List.append_nil]
    exact at_one _ _
  exact LocateRequest.laidOut_at h hlen hwords

theorem Register.laidOut_serialize (message : Register)
    (hlen : message.serialize.buffer.length < 2 ^ 31)
    (hwords : ∀ w ∈ message.argTypes.words, KnownWord w) :
    Register.LaidOut message.serialize.buffer := by
  have h : At message.serialize.buffer 1 (encodeString message.serverHostname ++
      (encodeInteger message.serverPort ++ (encodeString message.functionName ++
        (encodeArgTypes message.argTypes ++ [])))) := by
    rw [List.append_nil]
    exact at_one _ _
  exact Register.laidOut_at h hlen hwords

/-- What the library itself serializes, with known words, does the binder no harm. -/
theorem own_requests_safe (db : BinderDatabase) (socket : SocketPtr) :
    (∀ message : Register, message.serialize.buffer.length < 2 ^ 31 →
      (∀ w ∈ message.argTypes.words, KnownWord w) →
      WP (Access.Safe message.serialize.buffer)
        (Observed.handleRegister db message.serialize socket) fun _ => True) ∧
    ∀ message : LocateRequest, message.serialize.buffer.length < 2 ^ 31 →
      (∀ w ∈ message.argTypes.words, KnownWord w) →
      WP (Access.Safe message.serialize.buffer)
        (Observed.handleLocate db message.serialize) fun _ => True := by
  constructor
  · intro message hlen hwords
    exact (Observed.wp_handleRegister hlen db socket).mpr (message.laidOut_serialize hlen hwords)
  · intro message hlen hwords
    exact (Observed.wp_handleLocate hlen db).mpr (message.laidOut_serialize hlen hwords)

namespace Binder

end Binder

end RpcLibrary
