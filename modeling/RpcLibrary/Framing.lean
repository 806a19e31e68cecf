import RpcLibrary.TcpSocket

/-! Sequences of messages over one connection. The payload loops of both ends
cope with calls that handle few bytes; the single calls for the length do not. -/

namespace RpcLibrary

def sendAll : List (SendCalls × Bytes) → Bytes × Except TcpError Unit
  | [] => ([], .ok ())
  | (calls, buffer) :: sends =>
    match TcpSocket.send calls buffer with
    | (wire, .error e) => (wire, .error e)
    | (wire, .ok ()) =>
      let rest := sendAll sends
      (wire ++ rest.1, rest.2)

def recvAll : List (Counts × Word) → Wire → List RecvOutcome
  | [], _ => []
  | (counts, junk) :: recvs, wire =>
    let r := TcpSocket.recv counts junk wire
    r.1 :: recvAll recvs r.2

def wireOf (sends : List (Counts × Bytes)) : Wire :=
  ⟨(sendAll (sends.map fun s => (.ofCounts s.1, s.2))).1, .stillOpen⟩

theorem wireOf_cons (counts : Counts) (buffer : Bytes) (sends : List (Counts × Bytes)) :
    (wireOf ((counts, buffer) :: sends)).bytes =
      (intMemory (BitVec.ofNat 32 buffer.length)).take (accepted counts.header 4) ++
        (buffer ++ (wireOf sends).bytes) := by
  simp only [wireOf, List.map_cons, sendAll, TcpSocket.send_ofCounts, List.append_assoc]

theorem TcpSocket.recv_of_header {counts : Counts} {n : Nat} (junk : Word) (rest : Bytes)
    (ending : Ending) (hc : 4 ≤ counts.header) (hn : n < 2 ^ 31 - 1) :
    TcpSocket.recv counts junk ⟨intMemory (BitVec.ofNat 32 n) ++ rest, ending⟩ =
      if n ≤ rest.length then (.returned (rest.take n), ⟨rest.drop n, ending⟩)
      else (ending.outcome, ⟨[], ending⟩) := by
  have hlength : (BitVec.ofNat 32 n).toInt = n := toInt_ofNat (by omega)
  rw [TcpSocket.recv_of_length junk _ rest ending hc, hlength, if_neg (by omega), if_neg (by omega),
    Int.toNat_natCast]

theorem TcpSocket.recv_whole {counts : Counts} {message : Bytes} (junk : Word) (rest : Bytes)
    (ending : Ending) (hc : 4 ≤ counts.header) (hm : message.length < 2 ^ 31 - 1) :
    TcpSocket.recv counts junk
        ⟨intMemory (BitVec.ofNat 32 message.length) ++ (message ++ rest), ending⟩ =
      (.returned message, ⟨rest, ending⟩) := by
  rw [TcpSocket.recv_of_header junk _ ending hc hm, if_pos (by simp), List.take_left' rfl,
    List.drop_left' rfl]

theorem make_byte_neg (b0 b1 b2 : Byte) :
    (MAKE_BYTE b0 0 + MAKE_BYTE b1 1 + MAKE_BYTE b2 2 + MAKE_BYTE 255 3).toInt < 0 := by
  have h0 := b0.isLt
  have h1 := b1.isLt
  have h2 := b2.isLt
  have h3 : (255 : Byte).toNat = 255 := rfl
  rw [BitVec.toInt_neg_iff, BitVec.toNat_add, BitVec.toNat_add, BitVec.toNat_add,
    toNat_MAKE_BYTE _ (by decide), toNat_MAKE_BYTE _ (by decide), toNat_MAKE_BYTE _ (by decide),
    toNat_MAKE_BYTE _ (by decide), h3]
  omega

theorem intOfMemory_neg {received : Bytes} (h : received.length < 4) :
    (intOfMemory (received ++ (intMemory (-1)).drop received.length)).toInt < 0 := by
  match received, h with
  | [], _ => decide
  | [b0], _ => exact make_byte_neg b0 255 255
  | [b0, b1], _ => exact make_byte_neg b0 b1 255
  | [b0, b1, b2], _ => exact make_byte_neg b0 b1 b2

theorem Ending.outcome_ne_returned (ending : Ending) (message : Bytes) :
    ending.outcome ≠ .returned message := by
  cases ending <;> simp [Ending.outcome]

/-- A message is returned only with the length announced, which is none of the
lengths the code cannot cope with. -/
theorem TcpSocket.announced_of_recv {counts : Counts} {junk : Word} {wire wire' : Wire}
    {message : Bytes} (h : TcpSocket.recv counts junk wire = (.returned message, wire')) :
    let received := wire.bytes.take (accepted counts.header 4)
    let announced := (intOfMemory (received ++ (intMemory junk).drop received.length)).toInt
    announced = message.length ∧ announced < 2147483647 ∧
      wire.bytes.length - accepted counts.header 4 = message.length + wire'.bytes.length := by
  obtain ⟨bytes, ending⟩ := wire
  cases bytes with
  | nil => exact absurd (Prod.mk.inj h).1 (ending.outcome_ne_returned message)
  | cons byte bytes =>
    simp only [TcpSocket.recv] at h ⊢
    generalize intOfMemory _ = word at h ⊢
    have hle : word.toInt < 2 ^ 31 := BitVec.toInt_lt
    generalize word.toInt = announced at h hle ⊢
    by_cases hu : announced = 2147483647 ∨ announced = -1
    · rw [if_pos hu] at h
      cases h
    by_cases hb : announced < -1
    · rw [if_neg hu, if_pos hb] at h
      cases h
    rw [if_neg hu, if_neg hb, recvPayload_eq _ _ _ _ _ (Nat.zero_le _)] at h
    split_ifs at h with hall
    · obtain ⟨hm, rfl⟩ := Prod.mk.inj h
      obtain rfl := RecvOutcome.returned.inj hm
      simp only [List.nil_append, List.length_nil, List.length_take, List.length_drop] at hall ⊢
      omega
    · exact absurd (Prod.mk.inj h).1 (ending.outcome_ne_returned message)

/-- Over a variable that held -1, only a length that arrived whole lets a
message be returned. -/
theorem TcpSocket.whole_of_recv {counts : Counts} {wire wire' : Wire} {message : Bytes}
    (h : TcpSocket.recv counts (-1) wire = (.returned message, wire')) :
    4 ≤ counts.header ∧ wire.bytes.length = 4 + message.length + wire'.bytes.length := by
  obtain ⟨hannounced, -, hlength⟩ := TcpSocket.announced_of_recv h
  have hreceived : 4 ≤ min (accepted counts.header 4) wire.bytes.length := by
    rw [← List.length_take]
    by_contra hlt
    have := intOfMemory_neg (Nat.lt_of_not_le hlt)
    omega
  obtain ⟨hcount, hbytes⟩ := Nat.le_min.mp hreceived
  have hheader : 4 ≤ counts.header := le_of_accepted (by decide) hcount
  rw [accepted_of_le (by decide) hheader] at hlength
  exact ⟨hheader, by omega⟩

def framedLength (messages : List Bytes) : Nat := (messages.map fun m => 4 + m.length).sum

theorem whole_of_recvAll {recvs : List Counts} {messages : List Bytes} {wire : Wire}
    (h : recvAll (recvs.map fun r => (r, -1)) wire = messages.map .returned) :
    (∀ r ∈ recvs, 4 ≤ r.header) ∧ framedLength messages ≤ wire.bytes.length := by
  induction recvs generalizing messages wire with
  | nil =>
    obtain rfl := List.map_eq_nil_iff.mp h.symm
    exact ⟨by simp, Nat.zero_le _⟩
  | cons r recvs ih =>
    cases hr : TcpSocket.recv r (-1) wire with
    | mk outcome wire' =>
      simp only [List.map_cons, recvAll, hr] at h
      obtain ⟨message, rest, rfl, hm, hrest⟩ := List.map_eq_cons_iff.mp h.symm
      obtain ⟨hheader, hlength⟩ := TcpSocket.whole_of_recv (hm ▸ hr)
      obtain ⟨hheaders, hlengths⟩ := ih hrest.symm
      refine ⟨List.forall_mem_cons.mpr ⟨hheader, hheaders⟩, ?_⟩
      simp only [framedLength, List.map_cons, List.sum_cons] at hlengths ⊢
      omega

theorem length_wireOf_cons (counts : Counts) (buffer : Bytes) (sends : List (Counts × Bytes)) :
    (wireOf ((counts, buffer) :: sends)).bytes.length =
      accepted counts.header 4 + buffer.length + (wireOf sends).bytes.length := by
  have hle : accepted counts.header 4 ≤ 4 := accepted_le (by decide)
  rw [wireOf_cons, List.length_append, List.length_append, List.length_take, length_intMemory,
    Nat.min_eq_left hle, Nat.add_assoc]

theorem length_wireOf_le (sends : List (Counts × Bytes)) :
    (wireOf sends).bytes.length ≤ framedLength (sends.map Prod.snd) := by
  induction sends with
  | nil => exact Nat.zero_le _
  | cons s sends ih =>
    have hle : accepted s.1.header 4 ≤ 4 := accepted_le (by decide)
    rw [length_wireOf_cons s.1 s.2 sends]
    simp only [framedLength, List.map_cons, List.sum_cons] at ih ⊢
    omega

theorem whole_of_wireOf {sends : List (Counts × Bytes)}
    (h : framedLength (sends.map Prod.snd) ≤ (wireOf sends).bytes.length) :
    ∀ s ∈ sends, 4 ≤ s.1.header := by
  induction sends with
  | nil => simp
  | cons s sends ih =>
    have hle : accepted s.1.header 4 ≤ 4 := accepted_le (by decide)
    have hrest := length_wireOf_le sends
    rw [length_wireOf_cons s.1 s.2 sends] at h
    simp only [framedLength, List.map_cons, List.sum_cons] at h hrest ih
    refine List.forall_mem_cons.mpr ⟨le_of_accepted (by decide) (by omega), ih (by omega)⟩

theorem wireOf_cons_whole {s : Counts × Bytes} (h : 4 ≤ s.1.header)
    (sends : List (Counts × Bytes)) :
    (wireOf (s :: sends)).bytes =
      intMemory (BitVec.ofNat 32 s.2.length) ++ (s.2 ++ (wireOf sends).bytes) := by
  have hcons := wireOf_cons s.1 s.2 sends
  rwa [accepted_of_le (by decide) h, List.take_of_length_le (length_intMemory _).le] at hcons

/-- Whole frames are read one by one, whatever comes after them. -/
theorem recvAll_append {sends : List (Counts × Bytes)} {calls : List (Counts × Word)}
    (hlen : calls.length = sends.length) (hshort : ∀ s ∈ sends, s.2.length < 2 ^ 31 - 1)
    (hs : ∀ s ∈ sends, 4 ≤ s.1.header) (hr : ∀ r ∈ calls, 4 ≤ r.1.header)
    (later : List (Counts × Word)) (rest : Bytes) (ending : Ending) :
    recvAll (calls ++ later) ⟨(wireOf sends).bytes ++ rest, ending⟩ =
      (sends.map fun s => .returned s.2) ++ recvAll later ⟨rest, ending⟩ := by
  induction sends generalizing calls with
  | nil =>
    obtain rfl := List.length_eq_zero_iff.mp hlen
    rfl
  | cons s sends ih =>
    cases calls with
    | nil => cases hlen
    | cons r calls =>
      obtain ⟨hs, hss⟩ := List.forall_mem_cons.mp hs
      obtain ⟨hr, hrs⟩ := List.forall_mem_cons.mp hr
      obtain ⟨hm, hms⟩ := List.forall_mem_cons.mp hshort
      have hrest := ih (Nat.succ.inj hlen) hms hss hrs
      rw [wireOf_cons_whole hs, List.append_assoc, List.append_assoc, List.cons_append, recvAll,
        TcpSocket.recv_whole r.2 _ _ hr hm, hrest]
      rfl

theorem recvAll_of_whole {sends : List (Counts × Bytes)} {calls : List (Counts × Word)}
    (hlen : calls.length = sends.length) (hshort : ∀ s ∈ sends, s.2.length < 2 ^ 31 - 1)
    (hs : ∀ s ∈ sends, 4 ≤ s.1.header) (hr : ∀ r ∈ calls, 4 ≤ r.1.header) :
    recvAll calls (wireOf sends) = sends.map fun s => .returned s.2 := by
  have h := recvAll_append hlen hshort hs hr [] [] .stillOpen
  rwa [List.append_nil, List.append_nil, recvAll, List.append_nil] at h

/-- The receiver gets exactly the messages sent, whatever its variable held,
when and only when no call for a length is cut. -/
theorem framing_survives_iff {sends : List (Counts × Bytes)} {recvs : List Counts}
    (hlen : recvs.length = sends.length) (hshort : ∀ s ∈ sends, s.2.length < 2 ^ 31 - 1) :
    (∀ calls, calls.map Prod.fst = recvs →
        recvAll calls (wireOf sends) = sends.map fun s => .returned s.2) ↔
      (∀ s ∈ sends, 4 ≤ s.1.header) ∧ ∀ r ∈ recvs, 4 ≤ r.header := by
  constructor
  · intro h
    have hcalls : (recvs.map fun r => (r, (-1 : Word))).map Prod.fst = recvs := by
      rw [List.map_map]
      exact List.map_id recvs
    have hminus := h _ hcalls
    rw [← Function.comp_def, ← List.map_map] at hminus
    obtain ⟨hr, hwire⟩ := whole_of_recvAll hminus
    exact ⟨whole_of_wireOf hwire, hr⟩
  · rintro ⟨hs, hr⟩ calls rfl
    rw [List.length_map] at hlen
    exact recvAll_of_whole hlen hshort hs fun r hin => hr r.1 (List.mem_map_of_mem hin)

def byteByByte (header : Nat) : Counts := ⟨header, fun _ => 1⟩

theorem framing_survives_sample :
    recvAll [(byteByByte 4, 0), (byteByByte 4, 1)]
        (wireOf [(byteByByte 4, [7, 8]), (byteByByte 4, [])]) =
      [.returned [7, 8], .returned []] := by
  have hframing := @framing_survives_iff [(byteByByte 4, [7, 8]), (byteByByte 4, [])]
    [byteByByte 4, byteByByte 4] rfl (by decide)
  exact hframing.mpr ⟨by decide, by decide⟩ _ rfl

/-- One call that gets a single byte of a length: its message is lost, and the
rest of the connection is read out of step. -/
theorem framing_broken_by_short_header :
    recvAll [(byteByByte 1, 0), (byteByByte 4, 0)]
        (wireOf [(byteByByte 4, [7]), (byteByByte 4, [8])]) = [.returned [0], .blocked] ∧
      recvAll [(byteByByte 1, 0), (byteByByte 4, 0)]
          (wireOf [(byteByByte 4, [7]), (byteByByte 4, [8])]) ≠
        [(byteByByte 4, [7]), (byteByByte 4, [8])].map fun s => .returned s.2 := by
  have hwire : wireOf [(byteByByte 4, [7]), (byteByByte 4, [8])] =
      ⟨[1, 0, 0, 0, 7, 1, 0, 0, 0, 8], .stillOpen⟩ :=
    congrArg (Wire.mk · .stillOpen)
      ((wireOf_cons ..).trans (congrArg _ (congrArg _ (wireOf_cons ..))))
  have hfirst : TcpSocket.recv (byteByByte 1) 0 ⟨[1, 0, 0, 0, 7, 1, 0, 0, 0, 8], .stillOpen⟩ =
      (.returned [0], ⟨[0, 0, 7, 1, 0, 0, 0, 8], .stillOpen⟩) :=
    recvPayload_eq (fun _ => 1) 1 0 [] ⟨[0, 0, 0, 7, 1, 0, 0, 0, 8], .stillOpen⟩ (Nat.zero_le _)
  have hsecond : TcpSocket.recv (byteByByte 4) 0 ⟨[0, 0, 7, 1, 0, 0, 0, 8], .stillOpen⟩ =
      (.blocked, ⟨[], .stillOpen⟩) :=
    recvPayload_eq (fun _ => 1) 0x01070000 0 [] ⟨[0, 0, 0, 8], .stillOpen⟩ (Nat.zero_le _)
  have houtcomes : recvAll [(byteByByte 1, 0), (byteByByte 4, 0)]
      (wireOf [(byteByByte 4, [7]), (byteByByte 4, [8])]) = [.returned [0], .blocked] := by
    rw [hwire, recvAll, hfirst, recvAll, hsecond, recvAll]
  exact ⟨houtcomes, by rw [houtcomes]; decide⟩

end RpcLibrary
