import RpcLibrary.ProtocolMacros
import RpcLibrary.Signature

/-! The messages between the binder and its servers and clients. -/

namespace RpcLibrary

open Cursor

structure Address where
  hostname : Bytes
  port : Word

def Address.key (a : Address) : Lex (List Nat × Int) := toLex (stringKey a.hostname, a.port.toInt)

theorem Address.key_injective : Function.Injective Address.key := by
  rintro ⟨host, port⟩ ⟨host', port'⟩ h
  obtain ⟨hh, hp⟩ := Prod.mk.inj (congrArg ofLex h)
  obtain rfl : host = host' := stringKey_injective hh
  obtain rfl : port = port' := BitVec.toInt_inj.mp hp
  rfl

instance : LinearOrder Address := LinearOrder.lift' Address.key Address.key_injective

def encodeArgTypes (argTypes : ArgTypes) : Bytes :=
  encodeInteger (BitVec.ofNat 32 (numberOfArgs argTypes.words)) ++
    argTypes.words.flatMap encodeInteger

def decodeWords (buffer : Bytes) : Nat → Int → Option (List Word × Int)
  | 0, pos => some ([], pos)
  | n + 1, pos => do
    let (argType, pos) ← decodeInteger buffer pos
    let (argTypes, pos) ← decodeWords buffer n pos
    some (argType :: argTypes, pos)

/-- The decoders first allocate `numArgs + 1` words and store the terminator in
the last; a negative count leaves that without a defined outcome. -/
def decodeArgTypes (buffer : Bytes) (pos : Int) : Option (List Word × Int) := do
  let (numArgs, pos) ← decodeInteger buffer pos
  if 0 ≤ numArgs.toInt ∧ numArgs.toInt + 1 ≤ 2147483647 then
    decodeWords buffer numArgs.toInt.toNat pos
  else none

theorem length_flatMap_encodeInteger (words : List Word) :
    (words.flatMap encodeInteger).length = 4 * words.length := by
  induction words with
  | nil => rfl
  | cons w ws ih => simp only [List.flatMap_cons, List.length_append, length_encodeInteger, ih,
      List.length_cons]; omega

@[simp] theorem length_encodeArgTypes (argTypes : ArgTypes) :
    (encodeArgTypes argTypes).length = 4 + 4 * argTypes.words.length := by
  rw [encodeArgTypes, List.length_append, length_encodeInteger, length_flatMap_encodeInteger]

theorem decodeWords_at {buffer rest : Bytes} {words : List Word} {pos : Nat}
    (h : At buffer pos (words.flatMap encodeInteger ++ rest)) (hlen : buffer.length < 2 ^ 31) :
    decodeWords buffer words.length pos = some (words, ((pos + 4 * words.length : Nat) : Int)) := by
  induction words generalizing pos with
  | nil => rfl
  | cons w ws ih =>
    have h' : At buffer pos (encodeInteger w ++ (ws.flatMap encodeInteger ++ rest)) := by
      simpa only [List.flatMap_cons, List.append_assoc] using h
    have hrest := ih (h'.advance)
    rw [length_encodeInteger] at hrest
    simp only [List.length_cons, decodeWords, decodeInteger_at h' hlen, Option.bind_eq_bind,
      Option.bind_some, hrest]
    rw [show pos + 4 + 4 * ws.length = pos + 4 * (ws.length + 1) by omega]

theorem decodeArgTypes_at {buffer rest : Bytes} {argTypes : ArgTypes} {pos : Nat}
    (h : At buffer pos (encodeArgTypes argTypes ++ rest)) (hlen : buffer.length < 2 ^ 31) :
    decodeArgTypes buffer pos =
      some (argTypes.words, ((pos + (encodeArgTypes argTypes).length : Nat) : Int)) := by
  have hl := h.length
  simp only [List.length_append, length_encodeArgTypes] at hl
  rw [encodeArgTypes, argTypes.numberOfArgs_words, List.append_assoc] at h
  have hint : (BitVec.ofNat 32 argTypes.words.length).toInt = argTypes.words.length :=
    toInt_ofNat (by omega)
  have hwords := decodeWords_at h.advance hlen
  rw [length_encodeInteger] at hwords
  simp only [decodeArgTypes, decodeInteger_at h hlen, Option.bind_eq_bind, Option.bind_some, hint]
  rw [if_pos (by omega), Int.toNat_natCast, hwords, length_encodeArgTypes, Nat.add_assoc]

abbrev RegisterSuccess := StatusMessage .registerSuccess
abbrev RegisterFailure := StatusMessage .registerFailure
abbrev LocateFailure := StatusMessage .locateFailure
abbrev Terminate := StatusMessage .terminate
abbrev TerminateSuccess := StatusMessage .terminateSuccess
abbrev TerminateFailure := StatusMessage .terminateFailure

structure Register where
  serverHostname : Bytes
  serverPort : Word
  functionName : Bytes
  argTypes : ArgTypes
deriving DecidableEq

def Register.serialize (message : Register) : RawMessage :=
  ⟨MessageType.register.toChar :: (encodeString message.serverHostname ++
    (encodeInteger message.serverPort ++ (encodeString message.functionName ++
      encodeArgTypes message.argTypes)))⟩

def Register.decode (buffer : Bytes) : Option (Register × Int) := do
  let (serverHostname, pos) ← decodeString buffer 1
  let (serverPort, pos) ← decodeInteger buffer pos
  let (functionName, pos) ← decodeString buffer pos
  let (argTypes, pos) ← decodeArgTypes buffer pos
  some (⟨serverHostname, serverPort, functionName, .ofArray argTypes⟩, pos)

def Register.deserialize (raw : RawMessage) : Option Register :=
  (Register.decode raw.getString).map Prod.fst

structure LocateRequest where
  functionName : Bytes
  argTypes : ArgTypes
deriving DecidableEq

def LocateRequest.serialize (message : LocateRequest) : RawMessage :=
  ⟨MessageType.locateRequest.toChar :: (encodeString message.functionName ++
    encodeArgTypes message.argTypes)⟩

def LocateRequest.decode (buffer : Bytes) : Option (LocateRequest × Int) := do
  let (functionName, pos) ← decodeString buffer 1
  let (argTypes, pos) ← decodeArgTypes buffer pos
  some (⟨functionName, .ofArray argTypes⟩, pos)

def LocateRequest.deserialize (raw : RawMessage) : Option LocateRequest :=
  (LocateRequest.decode raw.getString).map Prod.fst

structure LocateSuccess where
  serverHostname : Bytes
  serverPort : Word
deriving DecidableEq

def LocateSuccess.serialize (message : LocateSuccess) : RawMessage :=
  ⟨MessageType.locateSuccess.toChar :: (encodeString message.serverHostname ++
    encodeInteger message.serverPort)⟩

def LocateSuccess.decode (buffer : Bytes) : Option (LocateSuccess × Int) := do
  let (serverHostname, pos) ← decodeString buffer 1
  let (serverPort, pos) ← decodeInteger buffer pos
  some (⟨serverHostname, serverPort⟩, pos)

def LocateSuccess.deserialize (raw : RawMessage) : Option LocateSuccess :=
  (LocateSuccess.decode raw.getString).map Prod.fst

theorem at_one (c : Byte) (fields : Bytes) : At (c :: fields) 1 fields := ⟨[c], rfl, rfl⟩

theorem Register.length_serialize (message : Register) :
    message.serialize.buffer.length = 1 + (encodeString message.serverHostname).length + 4 +
      (encodeString message.functionName).length + (encodeArgTypes message.argTypes).length := by
  simp only [Register.serialize, List.length_cons, List.length_append, length_encodeInteger]
  omega

theorem LocateRequest.length_serialize (message : LocateRequest) :
    message.serialize.buffer.length = 1 + (encodeString message.functionName).length +
      (encodeArgTypes message.argTypes).length := by
  simp only [LocateRequest.serialize, List.length_cons, List.length_append]
  omega

theorem Register.decode_at {buffer rest : Bytes} {message : Register}
    (h : At buffer 1 (encodeString message.serverHostname ++ (encodeInteger message.serverPort ++
      (encodeString message.functionName ++ (encodeArgTypes message.argTypes ++ rest)))))
    (hlen : buffer.length < 2 ^ 31) :
    Register.decode buffer = some (message, (message.serialize.buffer.length : Int)) := by
  have h1 := decodeString_at h hlen
  have h2 := decodeInteger_at h.advance hlen
  have h3 := decodeString_at h.advance.advance hlen
  have h4 := decodeArgTypes_at h.advance.advance.advance hlen
  rw [length_encodeInteger] at h3
  rw [length_encodeInteger, ← message.length_serialize] at h4
  simp only [Nat.cast_one] at h1
  exact (bind_of_eq h1).trans ((bind_of_eq h2).trans ((bind_of_eq h3).trans
    ((bind_of_eq h4).trans (by simp only [ArgTypes.ofArray_words]))))

theorem LocateRequest.decode_at {buffer rest : Bytes} {message : LocateRequest}
    (h : At buffer 1 (encodeString message.functionName ++
      (encodeArgTypes message.argTypes ++ rest)))
    (hlen : buffer.length < 2 ^ 31) :
    LocateRequest.decode buffer = some (message, (message.serialize.buffer.length : Int)) := by
  have h1 := decodeString_at h hlen
  have h2 := decodeArgTypes_at h.advance hlen
  rw [← message.length_serialize] at h2
  simp only [Nat.cast_one] at h1
  exact (bind_of_eq h1).trans ((bind_of_eq h2).trans (by simp only [ArgTypes.ofArray_words]))

theorem LocateSuccess.decode_at {buffer : Bytes} {message : LocateSuccess}
    (h : At buffer 1 (encodeString message.serverHostname ++
      (encodeInteger message.serverPort ++ [])))
    (hlen : buffer.length < 2 ^ 31) :
    LocateSuccess.decode buffer = some (message, (buffer.length : Int)) := by
  have h1 := decodeString_at h hlen
  have h2 := decodeInteger_at h.advance hlen
  have hend := h.advance.advance.finish
  rw [length_encodeInteger] at hend
  rw [hend] at h2
  simp only [Nat.cast_one] at h1
  exact (bind_of_eq h1).trans (bind_of_eq h2)

theorem Register.decode_serialize (message : Register)
    (hlen : message.serialize.buffer.length < 2 ^ 31) :
    Register.decode message.serialize.getString =
      some (message, (message.serialize.buffer.length : Int)) := by
  have h : At message.serialize.buffer 1 (encodeString message.serverHostname ++
      (encodeInteger message.serverPort ++ (encodeString message.functionName ++
        (encodeArgTypes message.argTypes ++ [])))) := by
    rw [List.append_nil]
    exact at_one _ _
  exact Register.decode_at h hlen

theorem Register.deserialize_serialize (message : Register)
    (hlen : message.serialize.buffer.length < 2 ^ 31) :
    Register.deserialize message.serialize = some message := by
  rw [Register.deserialize, message.decode_serialize hlen, Option.map_some]

theorem LocateRequest.decode_serialize (message : LocateRequest)
    (hlen : message.serialize.buffer.length < 2 ^ 31) :
    LocateRequest.decode message.serialize.getString =
      some (message, (message.serialize.buffer.length : Int)) := by
  have h : At message.serialize.buffer 1 (encodeString message.functionName ++
      (encodeArgTypes message.argTypes ++ [])) := by
    rw [List.append_nil]
    exact at_one _ _
  exact LocateRequest.decode_at h hlen

theorem LocateRequest.deserialize_serialize (message : LocateRequest)
    (hlen : message.serialize.buffer.length < 2 ^ 31) :
    LocateRequest.deserialize message.serialize = some message := by
  rw [LocateRequest.deserialize, message.decode_serialize hlen, Option.map_some]

theorem LocateSuccess.decode_serialize (message : LocateSuccess)
    (hlen : message.serialize.buffer.length < 2 ^ 31) :
    LocateSuccess.decode message.serialize.getString =
      some (message, (message.serialize.buffer.length : Int)) := by
  have h : At message.serialize.buffer 1 (encodeString message.serverHostname ++
      (encodeInteger message.serverPort ++ [])) := by
    rw [List.append_nil]
    exact at_one _ _
  exact LocateSuccess.decode_at h hlen

theorem LocateSuccess.deserialize_serialize (message : LocateSuccess)
    (hlen : message.serialize.buffer.length < 2 ^ 31) :
    LocateSuccess.deserialize message.serialize = some message := by
  rw [LocateSuccess.deserialize, message.decode_serialize hlen, Option.map_some]

/-- Each of the three comes back from the wire as it was sent, and its decoder
stops at the end of the buffer. -/
theorem control_messages_round_trip :
    (∀ message : Register, message.serialize.buffer.length < 2 ^ 31 →
      Register.deserialize message.serialize = some message ∧
        Register.decode message.serialize.getString =
          some (message, (message.serialize.buffer.length : Int))) ∧
    (∀ message : LocateRequest, message.serialize.buffer.length < 2 ^ 31 →
      LocateRequest.deserialize message.serialize = some message ∧
        LocateRequest.decode message.serialize.getString =
          some (message, (message.serialize.buffer.length : Int))) ∧
    ∀ message : LocateSuccess, message.serialize.buffer.length < 2 ^ 31 →
      LocateSuccess.deserialize message.serialize = some message ∧
        LocateSuccess.decode message.serialize.getString =
          some (message, (message.serialize.buffer.length : Int)) :=
  ⟨fun message hlen => ⟨message.deserialize_serialize hlen, message.decode_serialize hlen⟩,
    fun message hlen => ⟨message.deserialize_serialize hlen, message.decode_serialize hlen⟩,
    fun message hlen => ⟨message.deserialize_serialize hlen, message.decode_serialize hlen⟩⟩

theorem control_messages_round_trip_sample :
    Register.deserialize (Register.mk [104] (-1) [102] (.ofArray [5])).serialize =
        some ⟨[104], -1, [102], .ofArray [5]⟩ ∧
      LocateRequest.deserialize (LocateRequest.mk [102] (.ofArray [5])).serialize =
        some ⟨[102], .ofArray [5]⟩ ∧
      LocateSuccess.deserialize (LocateSuccess.mk [104] (-1)).serialize = some ⟨[104], -1⟩ := by
  obtain ⟨hregister, hrequest, hsuccess⟩ := control_messages_round_trip
  exact ⟨(hregister _ (by decide)).1, (hrequest _ (by decide)).1, (hsuccess _ (by decide)).1⟩

theorem LocateSuccess.serialize_injective : Function.Injective LocateSuccess.serialize := by
  rintro ⟨name, port⟩ ⟨name', port'⟩ h
  have hfields := (List.cons.inj (congrArg RawMessage.buffer h)).2
  have hlen := congrArg List.length hfields
  simp only [List.length_append, length_encodeString, length_encodeInteger] at hlen
  obtain ⟨hs, hp⟩ := List.append_inj hfields (by simp only [length_encodeString]; omega)
  obtain rfl := encodeString_injective hs
  obtain rfl := encodeInteger_injective hp
  rfl

end RpcLibrary
