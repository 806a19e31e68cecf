import RpcLibrary.MalformedExecutes

/-! The requests that are handled without a wrong access: two loopholes of the
decoders apart, they are what the library itself serializes, with any bytes
behind it. -/

namespace RpcLibrary

open Tracing Traced Cursor

/-- No zero among the announced words cuts their array short. -/
def ArgTypesPlain (buffer : Bytes) (pos : Int) : Prop :=
  ∀ w ∈ wordsAt buffer (wordAt buffer pos).toInt.toNat (pos + 4), w ≠ 0

/-- A negative length is a step back for the position and no limit for `substr`.
A plain message has none. -/
def Register.Plain (buffer : Bytes) : Prop :=
  let port := 5 + (wordAt buffer 1).toInt
  0 ≤ (wordAt buffer 1).toInt ∧ 0 ≤ (wordAt buffer (port + 4)).toInt ∧
    ArgTypesPlain buffer (port + 8 + (wordAt buffer (port + 4)).toInt)

def LocateRequest.Plain (buffer : Bytes) : Prop :=
  0 ≤ (wordAt buffer 1).toInt ∧ ArgTypesPlain buffer (5 + (wordAt buffer 1).toInt)

/-- The block that a zero announces fits into no message. -/
def Execute.Plain (buffer : Bytes) : Prop := 0 ≤ (wordAt buffer 1).toInt

theorem MessageType.toChar_ofChar (c : Byte) : (MessageType.ofChar c).toChar = c := by
  unfold MessageType.ofChar
  split <;> first | rfl | exact BitVec.eq_of_toNat_eq (by rw [‹c.toNat = _›]; rfl)

theorem head_of_messageType {buffer : Bytes} {messageType : MessageType}
    (hknown : messageType ≠ .unknown) (h : extractMessageType buffer = messageType) :
    ∃ rest, buffer = messageType.toChar :: rest := by
  cases buffer with
  | nil => exact absurd h.symm hknown
  | cons c rest => exact ⟨rest, by rw [← h, extractMessageType, MessageType.toChar_ofChar]⟩

/-- Any four bytes are the bytes of the integer made from them. -/
theorem encodeInteger_make_bytes (b0 b1 b2 b3 : Byte) :
    encodeInteger (MAKE_BYTE b0 0 + MAKE_BYTE b1 1 + MAKE_BYTE b2 2 + MAKE_BYTE b3 3) =
      [b0, b1, b2, b3] := by
  have h0 := b0.isLt
  have h1 := b1.isLt
  have h2 := b2.isLt
  have h3 := b3.isLt
  have hsum : (MAKE_BYTE b0 0 + MAKE_BYTE b1 1 + MAKE_BYTE b2 2 + MAKE_BYTE b3 3).toNat =
      b0.toNat + b1.toNat * 2 ^ 8 + b2.toNat * 2 ^ 16 + b3.toNat * 2 ^ 24 := by
    rw [BitVec.toNat_add, BitVec.toNat_add, BitVec.toNat_add,
      toNat_MAKE_BYTE _ (by decide), toNat_MAKE_BYTE _ (by decide), toNat_MAKE_BYTE _ (by decide),
      toNat_MAKE_BYTE _ (by decide)]
    omega
  have hbyte (i : Nat) (hi : i < 4) (b : Byte)
      (h : (MAKE_BYTE b0 0 + MAKE_BYTE b1 1 + MAKE_BYTE b2 2 + MAKE_BYTE b3 3).toNat /
        2 ^ (8 * i) % 2 ^ 8 = b.toNat) :
      (GET_BYTE (MAKE_BYTE b0 0 + MAKE_BYTE b1 1 + MAKE_BYTE b2 2 + MAKE_BYTE b3 3) i).setWidth 8 =
        b := by
    apply BitVec.eq_of_toNat_eq
    rw [toNat_setWidth_GET_BYTE _ hi, h]
  rw [encodeInteger, hbyte 0 (by decide) b0 (by omega), hbyte 1 (by decide) b1 (by omega),
    hbyte 2 (by decide) b2 (by omega), hbyte 3 (by decide) b3 (by omega)]

theorem length_wordsAt (buffer : Bytes) (n : Nat) (pos : Int) :
    (wordsAt buffer n pos).length = n := by
  induction n generalizing pos with
  | zero => rfl
  | succ n ih => rw [wordsAt, List.length_cons, ih]

section Fields

variable {buffer rest : Bytes} {pos : Nat}

/-! What is read at a position, encoded again, is what stands there. -/

theorem integer_of_at (h : At buffer pos rest) (hfits : 4 ≤ rest.length) :
    ∃ rest', rest = encodeInteger (wordAt buffer pos) ++ rest' ∧ At buffer (pos + 4) rest' := by
  match rest, hfits with
  | b0 :: b1 :: b2 :: b3 :: rest', _ =>
    have hbyte (i : Nat) : buffer.getD (pos + i) 0 = (b0 :: b1 :: b2 :: b3 :: rest').getD i 0 := by
      rw [List.getD_eq_getElem?_getD, h.getElem?, ← List.getD_eq_getElem?_getD]
    have hword : wordAt buffer pos =
        MAKE_BYTE b0 0 + MAKE_BYTE b1 1 + MAKE_BYTE b2 2 + MAKE_BYTE b3 3 := by
      rw [wordAt, show (pos : Int).toNat = pos + 0 by omega,
        show ((pos : Int) + 1).toNat = pos + 1 by omega,
        show ((pos : Int) + 2).toNat = pos + 2 by omega,
        show ((pos : Int) + 3).toNat = pos + 3 by omega, hbyte, hbyte, hbyte, hbyte]
      rfl
    have hsplit : b0 :: b1 :: b2 :: b3 :: rest' = encodeInteger (wordAt buffer pos) ++ rest' := by
      rw [hword, encodeInteger_make_bytes]
      rfl
    exact ⟨rest', hsplit, (hsplit ▸ h).advance⟩

theorem string_of_at (h : At buffer pos rest) (hlen : buffer.length < 2 ^ 31)
    (hnonneg : 0 ≤ (wordAt buffer pos).toInt)
    (hfits : 4 + (wordAt buffer pos).toInt ≤ rest.length) :
    ∃ s rest', rest = encodeString s ++ rest' ∧ At buffer (pos + (4 + s.length)) rest' ∧
      (wordAt buffer pos).toInt = s.length := by
  have hl := h.length
  obtain ⟨rest', hrest, hnext⟩ := integer_of_at h (by omega)
  have hl' := hnext.length
  generalize wordAt buffer pos = w at *
  have htake : (rest'.take w.toInt.toNat).length = w.toInt.toNat := by
    rw [List.length_take]
    omega
  have hcount : BitVec.ofNat 32 w.toInt.toNat = w := by
    apply BitVec.eq_of_toInt_eq
    rw [toInt_ofNat (by omega)]
    omega
  have hsplit : rest = encodeString (rest'.take w.toInt.toNat) ++ rest'.drop w.toInt.toNat := by
    rw [encodeString, htake, hcount, List.append_assoc, List.take_append_drop, hrest]
  have hend := (hsplit ▸ h : At buffer pos (encodeString _ ++ _)).advance
  rw [length_encodeString] at hend
  exact ⟨_, _, hsplit, hend, by omega⟩

theorem words_of_at {n : Nat} (h : At buffer pos rest) (hfits : 4 * n ≤ rest.length) :
    ∃ rest', rest = (wordsAt buffer n pos).flatMap encodeInteger ++ rest' := by
  induction n generalizing pos rest with
  | zero => exact ⟨rest, rfl⟩
  | succ n ih =>
    obtain ⟨rest', rfl, hnext⟩ := integer_of_at h (by omega)
    rw [List.length_append, length_encodeInteger] at hfits
    obtain ⟨rest'', hrest⟩ := ih hnext (by omega)
    rw [Nat.cast_add, Nat.cast_ofNat] at hrest
    refine ⟨rest'', ?_⟩
    rw [wordsAt, List.flatMap_cons, List.append_assoc]
    exact congrArg _ hrest

theorem argTypes_of_at (h : At buffer pos rest) (hlen : buffer.length < 2 ^ 31)
    (hlaid : ArgTypesLaidOut buffer pos) (hplain : ArgTypesPlain buffer pos) :
    ∃ (argTypes : ArgTypes) (rest' : Bytes), rest = encodeArgTypes argTypes ++ rest' ∧
      At buffer (pos + (4 + 4 * argTypes.words.length)) rest' ∧
      wordsAt buffer (wordAt buffer pos).toInt.toNat (pos + 4) = argTypes.words ∧
      ∀ w ∈ argTypes.words, KnownWord w := by
  obtain ⟨-, hcount, hnonneg, hfits, hwords⟩ := hlaid
  rw [ArgTypesPlain] at hplain
  have hl := h.length
  obtain ⟨rest', hrest', hnext⟩ := integer_of_at h (by omega)
  have hl' := hnext.length
  generalize wordAt buffer pos = w at *
  obtain ⟨rest'', hrest⟩ := @words_of_at _ _ _ w.toInt.toNat hnext (by omega)
  rw [Nat.cast_add, Nat.cast_ofNat] at hrest
  obtain ⟨argTypes, hargs⟩ : ∃ argTypes : ArgTypes,
      wordsAt buffer w.toInt.toNat (pos + 4) = argTypes.words := ⟨⟨_, hplain⟩, rfl⟩
  have hlength : argTypes.words.length = w.toInt.toNat := by rw [← hargs, length_wordsAt]
  rw [hargs, ArgTypes.ofArray_words] at hwords
  have hnum : BitVec.ofNat 32 argTypes.words.length = w := by
    apply BitVec.eq_of_toInt_eq
    rw [hlength, toInt_ofNat (by omega)]
    omega
  have hsplit : rest = encodeArgTypes argTypes ++ rest'' := by
    rw [hargs] at hrest
    rw [encodeArgTypes, argTypes.numberOfArgs_words, hnum, List.append_assoc, ← hrest, hrest']
  have hend := (hsplit ▸ h : At buffer pos (encodeArgTypes _ ++ _)).advance
  rw [length_encodeArgTypes] at hend
  exact ⟨argTypes, rest'', hsplit, hend, hargs, hwords⟩

theorem blocks_of_at {words : List Word} (h : At buffer pos rest)
    (hfits : (words.map argBytes).sum ≤ rest.length) :
    ∃ rest', rest = (blocksAt buffer words pos).flatten ++ rest' := by
  induction words generalizing pos rest with
  | nil => exact ⟨rest, rfl⟩
  | cons w words ih =>
    rw [List.map_cons, List.sum_cons] at hfits
    have hsplit := List.take_append_drop (argBytes w) rest
    have htake : (rest.take (argBytes w)).length = argBytes w := by
      rw [List.length_take]
      omega
    have hnext := (hsplit.symm ▸ h : At buffer pos
      (rest.take (argBytes w) ++ rest.drop (argBytes w))).advance
    rw [htake] at hnext
    obtain ⟨rest', hrest⟩ := ih hnext (by rw [List.length_drop]; omega)
    refine ⟨rest', ?_⟩
    rw [blocksAt, List.flatten_cons, List.append_assoc, ← hrest, h.drop, hsplit]

theorem argTypesPlain_at {argTypes : ArgTypes}
    (h : At buffer pos (encodeArgTypes argTypes ++ rest)) (hlen : buffer.length < 2 ^ 31) :
    ArgTypesPlain buffer pos := by
  have hl := h.length
  rw [List.length_append, length_encodeArgTypes] at hl
  rw [encodeArgTypes, argTypes.numberOfArgs_words, List.append_assoc] at h
  have hwords := wordsAt_at h.advance hlen
  rw [length_encodeInteger, Nat.cast_add, Nat.cast_ofNat] at hwords
  rw [ArgTypesPlain, wordAt_at h hlen, toInt_ofNat (by omega), Int.toNat_natCast, hwords]
  exact argTypes.nonzero

end Fields

section Messages

variable {buffer : Bytes}

theorem Register.plain_at {rest : Bytes} {message : Register}
    (hat : At buffer 1 (encodeString message.serverHostname ++
      (encodeInteger message.serverPort ++ (encodeString message.functionName ++
        (encodeArgTypes message.argTypes ++ rest)))))
    (hlen : buffer.length < 2 ^ 31) : Register.Plain buffer := by
  have hhost := wordAt_encodeString hat hlen
  have hname := wordAt_encodeString hat.advance.advance hlen
  have hargs := argTypesPlain_at hat.advance.advance.advance hlen
  rw [Nat.cast_one] at hhost
  rw [length_encodeString, length_encodeInteger] at hname hargs
  rw [length_encodeString] at hargs
  have hpos : (5 : Int) + message.serverHostname.length + 4 =
      ((1 + (4 + message.serverHostname.length) + 4 : Nat) : Int) := by omega
  simp only [Register.Plain, hhost]
  rw [hpos, hname]
  refine ⟨by omega, by omega, ?_⟩
  convert hargs using 1
  omega

theorem LocateRequest.plain_at {rest : Bytes} {message : LocateRequest}
    (hat : At buffer 1 (encodeString message.functionName ++
      (encodeArgTypes message.argTypes ++ rest)))
    (hlen : buffer.length < 2 ^ 31) : LocateRequest.Plain buffer := by
  have hname := wordAt_encodeString hat hlen
  have hargs := argTypesPlain_at hat.advance hlen
  rw [Nat.cast_one] at hname
  rw [length_encodeString] at hargs
  rw [LocateRequest.Plain, hname]
  refine ⟨by omega, ?_⟩
  convert hargs using 1
  omega

theorem Execute.plain_at {rest : Bytes} {name : Bytes}
    (hat : At buffer 1 (encodeString name ++ rest)) (hlen : buffer.length < 2 ^ 31) :
    Execute.Plain buffer := by
  have hname := wordAt_encodeString hat hlen
  rw [Nat.cast_one] at hname
  rw [Execute.Plain, hname]
  omega

/-- All requests begin with a type and a string. -/
theorem string_of_messageType {messageType : MessageType} (hknown : messageType ≠ .unknown)
    (htype : extractMessageType buffer = messageType) (hlen : buffer.length < 2 ^ 31)
    (hnonneg : 0 ≤ (wordAt buffer 1).toInt)
    (hfits : 5 + (wordAt buffer 1).toInt ≤ buffer.length) :
    ∃ s rest, buffer = messageType.toChar :: (encodeString s ++ rest) ∧
      At buffer (1 + (4 + s.length)) rest ∧
      5 + (wordAt buffer 1).toInt = ((1 + (4 + s.length) : Nat) : Int) := by
  obtain ⟨fields, hfields⟩ := head_of_messageType hknown htype
  have hat : At buffer 1 fields := hfields ▸ at_one _ fields
  have hl := hat.length
  rw [← Nat.cast_one] at hnonneg hfits
  obtain ⟨s, rest, rfl, hnext, hlength⟩ := string_of_at hat hlen hnonneg (by omega)
  rw [Nat.cast_one] at hlength
  exact ⟨s, rest, hfields, hnext, by omega⟩

theorem LocateRequest.serialized_of_laidOut (htype : extractMessageType buffer = .locateRequest)
    (hlen : buffer.length < 2 ^ 31) (hlaid : LocateRequest.LaidOut buffer)
    (hplain : LocateRequest.Plain buffer) :
    ∃ message : LocateRequest, message.serialize.buffer <+: buffer ∧
      ∀ w ∈ message.argTypes.words, KnownWord w := by
  obtain ⟨-, hargs⟩ := hlaid
  obtain ⟨hname, hwords⟩ := hplain
  have hcount := hargs.2.1
  obtain ⟨name, rest, hbuffer, hnext, hpos⟩ :=
    string_of_messageType (by decide) htype hlen hname (by omega)
  rw [hpos] at hargs hwords
  obtain ⟨argTypes, rest', hrest, -, -, hknown⟩ := argTypes_of_at hnext hlen hargs hwords
  refine ⟨⟨name, argTypes⟩, ⟨rest', ?_⟩, hknown⟩
  rw [LocateRequest.serialize, List.cons_append, List.append_assoc, ← hrest, ← hbuffer]

theorem Register.serialized_of_laidOut (htype : extractMessageType buffer = .register)
    (hlen : buffer.length < 2 ^ 31) (hlaid : Register.LaidOut buffer)
    (hplain : Register.Plain buffer) :
    ∃ message : Register, message.serialize.buffer <+: buffer ∧
      ∀ w ∈ message.argTypes.words, KnownWord w := by
  obtain ⟨-, -, hport, hargs⟩ := hlaid
  obtain ⟨hhost, hname, hwords⟩ := hplain
  have hcount := hargs.2.1
  obtain ⟨host, rest, hbuffer, hnext, hpos⟩ :=
    string_of_messageType (by decide) htype hlen hhost (by omega)
  rw [hpos] at hname hargs hwords hcount
  have hl := hnext.length
  obtain ⟨rest', hrest, hnext'⟩ := integer_of_at hnext (by omega)
  have hl' := hnext'.length
  have hport' : ((1 + (4 + host.length) : Nat) : Int) + 4 =
      ((1 + (4 + host.length) + 4 : Nat) : Int) := by omega
  rw [hport'] at hname hargs hwords hcount
  obtain ⟨name, rest'', hrest', hnext'', hlength⟩ := string_of_at hnext' hlen hname (by omega)
  have hpos' : ((1 + (4 + host.length) : Nat) : Int) + 8 +
      (wordAt buffer ((1 + (4 + host.length) + 4 : Nat) : Int)).toInt =
        ((1 + (4 + host.length) + 4 + (4 + name.length) : Nat) : Int) := by omega
  rw [hpos'] at hargs hwords
  obtain ⟨argTypes, last, hrest'', -, -, hknown⟩ := argTypes_of_at hnext'' hlen hargs hwords
  refine ⟨⟨host, wordAt buffer ((1 + (4 + host.length) : Nat) : Int), name, argTypes⟩,
    ⟨last, ?_⟩, hknown⟩
  rw [Register.serialize, List.cons_append, List.append_assoc, List.append_assoc,
    List.append_assoc, ← hrest'', ← hrest', ← hrest, ← hbuffer]

theorem Execute.serialized_of_laidOut (htype : extractMessageType buffer = .execute)
    (hlen : buffer.length < 2 ^ 31) (hlaid : Execute.LaidOut buffer)
    (hplain : Execute.Plain buffer) :
    ∃ message : Execute, message.serialize.buffer <+: buffer ∧
      ∀ w ∈ message.argTypes.words, KnownWord w := by
  obtain ⟨-, hargs, hblocks⟩ := hlaid
  have hcount := hargs.2.1
  have hnum := hargs.2.2.1
  obtain ⟨name, rest, hbuffer, hnext, hpos⟩ :=
    string_of_messageType (by decide) htype hlen hplain (by omega)
  simp only [hpos] at hargs hblocks hnum
  have hwords : ArgTypesPlain buffer ((1 + (4 + name.length) : Nat) : Int) :=
    nonzero_of_fits (n := buffer.length) (by omega) hlen
  obtain ⟨argTypes, rest', hrest, hnext', hall, hknown⟩ := argTypes_of_at hnext hlen hargs hwords
  have hlength : (wordAt buffer ((1 + (4 + name.length) : Nat) : Int)).toInt =
      argTypes.words.length := by
    rw [← hall, length_wordsAt]
    omega
  rw [hall, hlength] at hblocks
  have hl := hnext'.length
  obtain ⟨last, hrest'⟩ := @blocks_of_at _ _ _ argTypes.words hnext' (by omega)
  have hsized := @sized_blocksAt buffer argTypes.words
    (1 + (4 + name.length) + (4 + 4 * argTypes.words.length)) (by omega)
  refine ⟨⟨name, argTypes, _, hsized⟩, ⟨last, ?_⟩, hknown⟩
  rw [Execute.serialize, List.cons_append, List.append_assoc, List.append_assoc, ← hrest',
    ← hrest, ← hbuffer]

/-- What makes the equivalence for each kind of request, whose fields `fields`
lists with the bytes behind them: that they are read back where they stand, and
that a buffer which is laid out and plain has such fields. -/
theorem serialized_iff_laidOut {μ : Type} {messageType : MessageType} {encode : μ → RawMessage}
    {argTypes : μ → ArgTypes} {plain laidOut : Prop} {decoded : Option μ}
    (fields : μ → Bytes → Bytes) (hofChar : MessageType.ofChar messageType.toChar = messageType)
    (hencode : ∀ message rest,
      (encode message).buffer ++ rest = messageType.toChar :: fields message rest)
    (hread : ∀ message rest, At buffer 1 (fields message rest) → plain ∧ decoded = some message)
    (hlaid : ∀ message rest, At buffer 1 (fields message rest) →
      (∀ w ∈ (argTypes message).words, KnownWord w) → laidOut)
    (hserialized : extractMessageType buffer = messageType → laidOut → plain →
      ∃ message, (encode message).buffer <+: buffer ∧ ∀ w ∈ (argTypes message).words, KnownWord w)
    (message : μ) :
    (encode message).buffer <+: buffer ∧ (∀ w ∈ (argTypes message).words, KnownWord w) ↔
      (extractMessageType buffer = messageType ∧ plain ∧ decoded = some message) ∧ laidOut := by
  have hstart {message : μ} (h : (encode message).buffer <+: buffer) :
      extractMessageType buffer = messageType ∧ ∃ rest, At buffer 1 (fields message rest) := by
    obtain ⟨rest, rfl⟩ := h
    rw [hencode]
    exact ⟨hofChar, rest, at_one _ _⟩
  constructor
  · rintro ⟨h, hknown⟩
    obtain ⟨htype, rest, hat⟩ := hstart h
    exact ⟨⟨htype, hread message rest hat⟩, hlaid message rest hat hknown⟩
  · rintro ⟨⟨htype, hplain, hdecoded⟩, hlaidOut⟩
    obtain ⟨message', h, hknown⟩ := hserialized htype hlaidOut hplain
    obtain ⟨-, rest, hat⟩ := hstart h
    obtain rfl := Option.some.inj ((hread message' rest hat).2.symm.trans hdecoded)
    exact ⟨h, hknown⟩

theorem Register.serialized_iff_laidOut {raw : RawMessage} (hlen : raw.buffer.length < 2 ^ 31) :
    ∀ message : Register,
      message.serialize.buffer <+: raw.buffer ∧ (∀ w ∈ message.argTypes.words, KnownWord w) ↔
        (raw.getMessageType = .register ∧ Register.Plain raw.buffer ∧
          Register.deserialize raw = some message) ∧ Register.LaidOut raw.buffer := by
  refine RpcLibrary.serialized_iff_laidOut (fun message rest =>
    encodeString message.serverHostname ++ (encodeInteger message.serverPort ++
      (encodeString message.functionName ++ (encodeArgTypes message.argTypes ++ rest))))
    rfl (fun message rest => by simp [Register.serialize])
    (fun message rest hat => ⟨Register.plain_at hat hlen, ?_⟩)
    (fun message rest hat hknown => Register.laidOut_at hat hlen hknown)
    fun htype hlaid hplain => Register.serialized_of_laidOut htype hlen hlaid hplain
  rw [Register.deserialize, RawMessage.getString, Register.decode_at hat hlen, Option.map_some]

theorem LocateRequest.serialized_iff_laidOut {raw : RawMessage}
    (hlen : raw.buffer.length < 2 ^ 31) : ∀ message : LocateRequest,
      message.serialize.buffer <+: raw.buffer ∧ (∀ w ∈ message.argTypes.words, KnownWord w) ↔
        (raw.getMessageType = .locateRequest ∧ LocateRequest.Plain raw.buffer ∧
          LocateRequest.deserialize raw = some message) ∧ LocateRequest.LaidOut raw.buffer := by
  refine RpcLibrary.serialized_iff_laidOut (fun message rest =>
    encodeString message.functionName ++ (encodeArgTypes message.argTypes ++ rest))
    rfl (fun message rest => by simp [LocateRequest.serialize])
    (fun message rest hat => ⟨LocateRequest.plain_at hat hlen, ?_⟩)
    (fun message rest hat hknown => LocateRequest.laidOut_at hat hlen hknown)
    fun htype hlaid hplain => LocateRequest.serialized_of_laidOut htype hlen hlaid hplain
  rw [LocateRequest.deserialize, RawMessage.getString, LocateRequest.decode_at hat hlen,
    Option.map_some]

theorem Execute.serialized_iff_laidOut {raw : RawMessage} (hlen : raw.buffer.length < 2 ^ 31) :
    ∀ message : Execute,
      message.serialize.buffer <+: raw.buffer ∧ (∀ w ∈ message.argTypes.words, KnownWord w) ↔
        (raw.getMessageType = .execute ∧ Execute.Plain raw.buffer ∧
          Execute.deserialize raw = some message) ∧ Execute.LaidOut raw.buffer := by
  refine RpcLibrary.serialized_iff_laidOut (fun message rest =>
    encodeString message.functionName ++ (encodeArgTypes message.argTypes ++
      (message.args.flatten ++ rest)))
    rfl (fun message rest => by simp [Execute.serialize])
    (fun message rest hat => ⟨Execute.plain_at hat hlen, ?_⟩)
    (fun message rest hat hknown => Execute.laidOut_at hat hlen hknown)
    fun htype hlaid hplain => Execute.serialized_of_laidOut htype hlen hlaid hplain
  rw [Execute.deserialize, RawMessage.getString, Execute.decode_at hat hlen, Option.map_some]

end Messages

end RpcLibrary
