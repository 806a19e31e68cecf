import RpcLibrary.ProtocolMacros

/-! Messages over a TCP connection, each preceded by its length. The connection
is a stream of bytes in order, and every system call may handle fewer bytes than
it is given. -/

namespace RpcLibrary

inductive TcpError
  | connectionClosed
  | sendError
  | recvError
deriving DecidableEq

/-- The non-empty prefixes of `requested` bytes, one for each count. -/
def accepted (count requested : Nat) : Nat := max 1 (min count requested)

theorem accepted_pos (count requested : Nat) : 1 ≤ accepted count requested := Nat.le_max_left ..

theorem accepted_le {count requested : Nat} (h : 1 ≤ requested) :
    accepted count requested ≤ requested := Nat.max_le.mpr ⟨h, Nat.min_le_right ..⟩

theorem accepted_of_le {count requested : Nat} (h : 1 ≤ requested) (hc : requested ≤ count) :
    accepted count requested = requested := by
  rw [accepted, Nat.min_eq_right hc, Nat.max_eq_right h]

theorem le_of_accepted {count requested : Nat} (h : 2 ≤ requested)
    (hc : requested ≤ accepted count requested) : requested ≤ count := by
  rcases le_max_iff.mp hc with h1 | h1
  · omega
  · exact (Nat.le_min.mp h1).1

/-- An `int` as it lies in memory, which is also how `encodeInteger` writes it. -/
def intMemory (x : Word) : Bytes := encodeInteger x

def intOfMemory : Bytes → Word
  | [b0, b1, b2, b3] => MAKE_BYTE b0 0 + MAKE_BYTE b1 1 + MAKE_BYTE b2 2 + MAKE_BYTE b3 3
  | _ => 0

@[simp] theorem length_intMemory (x : Word) : (intMemory x).length = 4 := rfl

theorem intOfMemory_intMemory (x : Word) : intOfMemory (intMemory x) = x := make_get_bytes x

/-! The sending side. -/

/-- What a `::send` does: a number of bytes accepted, or `errno`. -/
inductive SendResult
  | sent (count : Nat)
  | brokenPipe
  | failed

structure SendCalls where
  header : SendResult
  payload : Nat → SendResult

def sysSend : SendResult → Nat → Except TcpError Nat
  | .sent count, requested => .ok (accepted count requested)
  | .brokenPipe, _ => .error .connectionClosed
  | .failed, _ => .error .sendError

theorem pos_of_sysSend {result : SendResult} {requested now : Nat}
    (h : sysSend result requested = .ok now) : 1 ≤ now := by
  cases result with
  | sent count =>
    obtain rfl := Except.ok.inj h
    exact accepted_pos count requested
  | brokenPipe => cases h
  | failed => cases h

/-- The loop over the payload, from its `i`-th call on: the bytes it puts on the
wire and how it ends. -/
def sendPayload (calls : Nat → SendResult) (i : Nat) (buffer : Bytes) (bytesSent : Nat) :
    Bytes × Except TcpError Unit :=
  if bytesSent < buffer.length then
    match _h : sysSend (calls i) (buffer.length - bytesSent) with
    | .error e => ([], .error e)
    | .ok nowSent =>
      let rest := sendPayload calls (i + 1) buffer (bytesSent + nowSent)
      ((buffer.drop bytesSent).take nowSent ++ rest.1, rest.2)
  else ([], .ok ())
termination_by buffer.length - bytesSent
decreasing_by
  have := pos_of_sysSend _h
  omega

def TcpSocket.send (calls : SendCalls) (buffer : Bytes) : Bytes × Except TcpError Unit :=
  match sysSend calls.header 4 with
  | .error e => ([], .error e)
  | .ok now =>
    let rest := sendPayload calls.payload 0 buffer 0
    ((intMemory (BitVec.ofNat 32 buffer.length)).take now ++ rest.1, rest.2)

/-- The counts of the calls made for one message, none of which fails. -/
structure Counts where
  header : Nat
  payload : Nat → Nat

def SendCalls.ofCounts (counts : Counts) : SendCalls :=
  ⟨.sent counts.header, fun i => .sent (counts.payload i)⟩

theorem sendPayload_ofCounts (counts : Nat → Nat) (i : Nat) (buffer : Bytes) (bytesSent : Nat) :
    sendPayload (fun i => .sent (counts i)) i buffer bytesSent =
      (buffer.drop bytesSent, .ok ()) := by
  fun_induction sendPayload (fun i => .sent (counts i)) i buffer bytesSent with
  | case1 i bytesSent hlt e he => cases he
  | case2 i bytesSent hlt nowSent hnow rest ih =>
    simp only [rest, ih]
    rw [← List.drop_drop, List.take_append_drop]
  | case3 i bytesSent hge => rw [List.drop_eq_nil_of_le (by omega)]

theorem TcpSocket.send_ofCounts (counts : Counts) (buffer : Bytes) :
    TcpSocket.send (.ofCounts counts) buffer =
      ((intMemory (BitVec.ofNat 32 buffer.length)).take (accepted counts.header 4) ++ buffer,
        .ok ()) := by
  simp only [TcpSocket.send, SendCalls.ofCounts, sysSend, sendPayload_ofCounts, List.drop_zero]

/-! The receiving side. -/

inductive Ending
  | stillOpen
  | closed
  | failed

structure Wire where
  bytes : Bytes
  ending : Ending

inductive RecvOutcome
  | returned (response : Bytes)
  | threw (e : TcpError)
  /-- The array for the response would have a negative length. -/
  | badArrayLength
  | undefined
  /-- No byte arrives and the connection stays open. -/
  | blocked
deriving DecidableEq

def Ending.outcome : Ending → RecvOutcome
  | stillOpen => .blocked
  | closed => .threw .connectionClosed
  | failed => .threw .recvError

def recvPayload (counts : Nat → Nat) (length : Nat) (i : Nat) (response : Bytes) (wire : Wire) :
    RecvOutcome × Wire :=
  if response.length < length then
    match wire.bytes with
    | [] => (wire.ending.outcome, wire)
    | byte :: bytes =>
      let nowReceived := accepted (counts i) (length - response.length)
      recvPayload counts length (i + 1) (response ++ (byte :: bytes).take nowReceived)
        { wire with bytes := (byte :: bytes).drop nowReceived }
  else (.returned response, wire)
termination_by length - response.length
decreasing_by
  have := accepted_pos (counts i) (length - response.length)
  simp only [List.length_append, List.length_take, List.length_cons]
  omega

/-- `TcpSocket::recv`. The variable for the length is not initialised: it holds
`junk` wherever the call leaves it alone. -/
def TcpSocket.recv (counts : Counts) (junk : Word) (wire : Wire) : RecvOutcome × Wire :=
  match wire.bytes with
  | [] => (wire.ending.outcome, wire)
  | byte :: bytes =>
    let ret := accepted counts.header 4
    let received := (byte :: bytes).take ret
    let rest := { wire with bytes := (byte :: bytes).drop ret }
    let length := (intOfMemory (received ++ (intMemory junk).drop received.length)).toInt
    if length = 2147483647 ∨ length = -1 then (.undefined, rest)
    else if length < -1 then (.badArrayLength, rest)
    else recvPayload counts.payload length.toNat 0 [] rest

theorem recvPayload_eq (counts : Nat → Nat) (length i : Nat) (response : Bytes) (wire : Wire)
    (h : response.length ≤ length) :
    recvPayload counts length i response wire =
      if length - response.length ≤ wire.bytes.length then
        (.returned (response ++ wire.bytes.take (length - response.length)),
          { wire with bytes := wire.bytes.drop (length - response.length) })
      else (wire.ending.outcome, { wire with bytes := [] }) := by
  fun_induction recvPayload counts length i response wire with
  | case1 i response wire hlt hw =>
    obtain ⟨bytes, ending⟩ := wire
    obtain rfl : bytes = [] := hw
    rw [if_neg (by simp only [List.length_nil]; omega)]
  | case2 i response wire hlt byte bytes hw nowReceived ih =>
    obtain ⟨_, ending⟩ := wire
    subst hw
    have hle : nowReceived ≤ length - response.length := accepted_le (by omega)
    have htake : ((byte :: bytes).take nowReceived).length =
        min nowReceived (bytes.length + 1) := by
      rw [List.length_take, List.length_cons]
    rw [ih (by rw [List.length_append, htake]; omega)]
    simp only [List.length_append, htake, List.length_drop, List.length_cons]
    by_cases hall : length - response.length ≤ bytes.length + 1
    · have hrest : length - (response.length + min nowReceived (bytes.length + 1)) =
          length - response.length - nowReceived := by omega
      have hsum : nowReceived + (length - response.length - nowReceived) =
          length - response.length := by omega
      rw [if_pos (by omega), if_pos hall, hrest, List.append_assoc, ← List.take_add,
        List.drop_drop, hsum]
    · rw [if_neg (by omega), if_neg hall]
  | case3 i response wire hge =>
    rw [if_pos (by omega), show length - response.length = 0 by omega, List.take_zero,
      List.append_nil, List.drop_zero]

/-- A length that arrives whole decides how the call goes on, whatever the variable held. -/
theorem TcpSocket.recv_of_length {counts : Counts} (junk length : Word) (rest : Bytes)
    (ending : Ending) (hc : 4 ≤ counts.header) :
    TcpSocket.recv counts junk ⟨intMemory length ++ rest, ending⟩ =
      if length.toInt = 2147483647 ∨ length.toInt = -1 then (.undefined, ⟨rest, ending⟩)
      else if length.toInt < -1 then (.badArrayLength, ⟨rest, ending⟩)
      else if length.toInt.toNat ≤ rest.length then
        (.returned (rest.take length.toInt.toNat), ⟨rest.drop length.toInt.toNat, ending⟩)
      else (ending.outcome, ⟨[], ending⟩) := by
  have hacc : accepted counts.header 4 = 4 := accepted_of_le (by decide) hc
  have hrecv : TcpSocket.recv counts junk ⟨intMemory length ++ rest, ending⟩ =
      if (intOfMemory (intMemory length)).toInt = 2147483647 ∨
          (intOfMemory (intMemory length)).toInt = -1 then (.undefined, ⟨rest, ending⟩)
      else if (intOfMemory (intMemory length)).toInt < -1 then
        (.badArrayLength, ⟨rest, ending⟩)
      else recvPayload counts.payload (intOfMemory (intMemory length)).toInt.toNat 0 []
        ⟨rest, ending⟩ := by
    simp only [TcpSocket.recv, intMemory, encodeInteger, List.cons_append, hacc, List.nil_append,
      List.take_succ_cons, List.take_zero, List.drop_succ_cons, List.drop_zero, List.length_cons,
      List.length_nil]
    rfl
  rw [hrecv, intOfMemory_intMemory, recvPayload_eq _ _ _ _ _ (Nat.zero_le _)]
  rfl

end RpcLibrary
