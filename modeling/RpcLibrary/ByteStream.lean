import RpcLibrary.Fifo
import RpcLibrary.Framing

/-! One direction of a connection, system call by system call: a sender and a
receiver whose calls of `send` and `recv` overlap in any way. As long as the calls
for the lengths are whole, the bytes between them are a queue of messages. -/

namespace RpcLibrary

open Runs

/-- Where a call of `TcpSocket.send` stands. -/
inductive SendPhase
  | idle
  | header (buffer : Bytes)
  | payload (buffer : Bytes) (bytesSent : Nat)
deriving DecidableEq

/-- Where a call of `TcpSocket.recv` stands. -/
inductive RecvPhase
  | header
  | payload (length : Nat) (response : Bytes)
deriving DecidableEq

structure ByteStream where
  sending : SendPhase
  wire : Bytes
  receiving : RecvPhase
deriving DecidableEq

inductive StreamEvent
  /-- `TcpSocket.send` is called. -/
  | calls (buffer : Bytes)
  /-- A `::send` of the call accepts so many bytes. -/
  | sends (count : Nat)
  /-- A `::recv` returns so many; `junk` is what the length held before. -/
  | receives (count : Nat) (junk : Word)
deriving DecidableEq

def SendPhase.next (buffer : Bytes) (bytesSent : Nat) : SendPhase :=
  if bytesSent < buffer.length then .payload buffer bytesSent else .idle

/-- A whole response is returned, and the next call waits for a length. -/
def RecvPhase.next (length : Nat) (response : Bytes) : Option Bytes × RecvPhase :=
  if response.length < length then (none, .payload length response) else (some response, .header)

namespace ByteStream

def new : ByteStream := ⟨.idle, [], .header⟩

def step (l : ByteStream) : StreamEvent → Option (Option Bytes × ByteStream)
  | .calls buffer =>
    match l.sending with
    | .idle => some (none, { l with sending := .header buffer })
    | _ => none
  | .sends count =>
    match l.sending with
    | .idle => none
    | .header buffer =>
      let now := accepted count 4
      some (none, { l with
        sending := .next buffer 0
        wire := l.wire ++ (intMemory (BitVec.ofNat 32 buffer.length)).take now })
    | .payload buffer bytesSent =>
      let now := accepted count (buffer.length - bytesSent)
      some (none, { l with
        sending := .next buffer (bytesSent + now)
        wire := l.wire ++ (buffer.drop bytesSent).take now })
  | .receives count junk =>
    if l.wire = [] then none
    else match l.receiving with
    | .header =>
      let ret := accepted count 4
      let received := l.wire.take ret
      let length := (intOfMemory (received ++ (intMemory junk).drop received.length)).toInt
      if length = 2147483647 ∨ length ≤ -1 then none
      else
        let (returned, receiving) := RecvPhase.next length.toNat []
        some (returned, { l with wire := l.wire.drop ret, receiving })
    | .payload length response =>
      let now := accepted count (length - response.length)
      let (returned, receiving) := RecvPhase.next length (response ++ l.wire.take now)
      some (returned, { l with wire := l.wire.drop now, receiving })

end ByteStream

def lengthOf (message : Bytes) : Bytes := intMemory (BitVec.ofNat 32 message.length)

@[simp] theorem length_lengthOf (message : Bytes) : (lengthOf message).length = 4 := rfl

/-- A message as it lies on the wire. -/
def frame (message : Bytes) : Bytes := lengthOf message ++ message

/-- The message being sent, and what is on the wire of it. -/
def SendPhase.current : SendPhase → List Bytes
  | idle => []
  | header buffer => [buffer]
  | payload buffer _ => [buffer]

def SendPhase.begun : SendPhase → Bytes
  | payload buffer bytesSent => lengthOf buffer ++ buffer.take bytesSent
  | _ => []

/-- What has been taken from the wire of the message being received. -/
def RecvPhase.taken : RecvPhase → Bytes
  | header => []
  | payload length response => intMemory (BitVec.ofNat 32 length) ++ response

def SendPhase.isHeader : SendPhase → Bool
  | header _ => true
  | _ => false

/-- The length of a message fits the code that receives it, and the calls for a
length are not cut short. -/
def ByteStream.Whole (l : ByteStream) : StreamEvent → Prop
  | .calls buffer => buffer.length < 2 ^ 31 - 1
  | .sends count => l.sending.isHeader = true → 4 ≤ count
  | .receives count _ => l.receiving = .header → 4 ≤ count

instance (l : ByteStream) : (e : StreamEvent) → Decidable (l.Whole e)
  | .calls buffer => inferInstanceAs (Decidable (buffer.length < _))
  | .sends count => inferInstanceAs (Decidable (l.sending.isHeader = true → 4 ≤ count))
  | .receives count _ => inferInstanceAs (Decidable (l.receiving = .header → 4 ≤ count))

/-- The bytes in flight are those of the messages in a queue, less what has been
taken of the first and what is to come of the last. -/
structure ByteStream.Carries (l : ByteStream) (queue : List Bytes) : Prop where
  short : ∀ message ∈ queue, message.length < 2 ^ 31 - 1
  framed : ∃ done, queue = done ++ l.sending.current ∧
    l.receiving.taken ++ l.wire = done.flatMap frame ++ l.sending.begun
  sent : ∀ buffer bytesSent, l.sending = .payload buffer bytesSent → bytesSent < buffer.length
  received : ∀ length response, l.receiving = .payload length response →
    response.length < length ∧ length < 2 ^ 31 - 1

def StreamEvent.called? : StreamEvent → Option Bytes
  | calls buffer => some buffer
  | _ => none

/-- The operations on the queue that an event and what it returns amount to. -/
def queueEvents (e : StreamEvent × Option Bytes) : List (Fifo.Request Bytes × Option Bytes) :=
  (e.1.called?.map fun buffer => (.put buffer, none)).toList ++
    (e.2.map fun message => (.get, some message)).toList

theorem given_queueEvents (trace : List (StreamEvent × Option Bytes)) :
    Fifo.given (trace.flatMap queueEvents) = trace.filterMap fun e => e.1.called? := by
  induction trace with
  | nil => rfl
  | cons e trace ih =>
    have he : Fifo.given (queueEvents e) = e.1.called?.toList := by
      obtain ⟨e, o⟩ := e
      cases e <;> cases o <;> rfl
    rw [List.flatMap_cons, Fifo.given, List.filterMap_append]
    refine (congrArg₂ (· ++ ·) he ih).trans ?_
    cases hcalled : e.1.called? <;> simp [hcalled]

theorem handed_queueEvents (trace : List (StreamEvent × Option Bytes)) :
    Fifo.handed (trace.flatMap queueEvents) = trace.filterMap Prod.snd := by
  induction trace with
  | nil => rfl
  | cons e trace ih =>
    have he : Fifo.handed (queueEvents e) = e.2.toList := by
      obtain ⟨e, o⟩ := e
      cases e <;> cases o <;> rfl
    rw [List.flatMap_cons, Fifo.handed, List.filterMap_append]
    refine (congrArg₂ (· ++ ·) he ih).trans ?_
    cases ho : e.2 <;> simp [ho]

theorem length_of_intMemory {n m : Nat} {a b : Bytes} (hn : n < 2 ^ 31) (hm : m < 2 ^ 31)
    (h : intMemory (BitVec.ofNat 32 n) ++ a = intMemory (BitVec.ofNat 32 m) ++ b) :
    n = m ∧ a = b := by
  obtain ⟨hword, hrest⟩ := List.append_inj h (by rw [length_intMemory, length_intMemory])
  have hnat := congrArg BitVec.toNat (encodeInteger_injective hword)
  rw [BitVec.toNat_ofNat, BitVec.toNat_ofNat, Nat.mod_eq_of_lt (by omega),
    Nat.mod_eq_of_lt (by omega)] at hnat
  exact ⟨hnat, hrest⟩

theorem SendPhase.begun_next {buffer : Bytes} {bytesSent : Nat} (h : bytesSent ≤ buffer.length) :
    ∃ more, [buffer] = more ++ (next buffer bytesSent).current ∧
      lengthOf buffer ++ buffer.take bytesSent =
        more.flatMap frame ++ (next buffer bytesSent).begun := by
  rw [next]
  split_ifs with hlt
  · exact ⟨[], rfl, rfl⟩
  · refine ⟨[buffer], rfl, ?_⟩
    rw [List.take_of_length_le (by omega)]
    simp [frame, begun]

theorem SendPhase.next_payload {buffer buffer' : Bytes} {n n' : Nat}
    (h : next buffer n = .payload buffer' n') : n' < buffer'.length := by
  rw [next] at h
  split_ifs at h with hlt
  obtain ⟨rfl, rfl⟩ := SendPhase.payload.inj h
  exact hlt

namespace ByteStream

theorem Carries.calls {l : ByteStream} {queue : List Bytes} {buffer : Bytes} (h : l.Carries queue)
    (hidle : l.sending = .idle) (hshort : buffer.length < 2 ^ 31 - 1) :
    ({ l with sending := .header buffer } : ByteStream).Carries (queue ++ [buffer]) := by
  obtain ⟨short, ⟨done, rfl, hframed⟩, -, received⟩ := h
  rw [hidle] at hframed
  refine ⟨?_, ⟨done, by simp [hidle, SendPhase.current], hframed⟩, fun _ _ h => (by cases h),
    received⟩
  exact List.forall_mem_append.mpr ⟨short, List.forall_mem_singleton.mpr hshort⟩

/-- What the sender puts on the wire is the next part of the message it sends. -/
theorem Carries.sends {l : ByteStream} {queue : List Bytes} {buffer bytes : Bytes} {n : Nat}
    (h : l.Carries queue) (hcurrent : l.sending.current = [buffer])
    (hbegun : l.sending.begun ++ bytes = lengthOf buffer ++ buffer.take n)
    (hn : n ≤ buffer.length) :
    ({ l with sending := .next buffer n, wire := l.wire ++ bytes } : ByteStream).Carries queue := by
  obtain ⟨short, ⟨done, hqueue, hframed⟩, -, received⟩ := h
  obtain ⟨more, hmore, hnext⟩ := SendPhase.begun_next hn
  refine ⟨short, ⟨done ++ more, ?_, ?_⟩, fun _ _ => SendPhase.next_payload, received⟩
  · rw [hqueue, hcurrent, hmore, List.append_assoc]
  · change l.receiving.taken ++ (l.wire ++ bytes) = _
    rw [← List.append_assoc, hframed, List.append_assoc, hbegun, hnext, List.flatMap_append,
      List.append_assoc]

/-- The wire of a receiver that waits for a length begins with the length of the
first message in the queue. -/
theorem Carries.first {l : ByteStream} {queue : List Bytes} (h : l.Carries queue)
    (hne : l.receiving.taken ++ l.wire ≠ []) :
    ∃ message rest tail, queue = message :: rest ∧
      l.receiving.taken ++ l.wire = lengthOf message ++ tail ∧
      ((∃ done, rest = done ++ l.sending.current ∧
          tail = message ++ (done.flatMap frame ++ l.sending.begun)) ∨
        tail.length < message.length) := by
  obtain ⟨-, ⟨done, rfl, hframed⟩, hsent, -⟩ := h
  rw [hframed] at hne ⊢
  cases done with
  | cons message done =>
    exact ⟨message, done ++ l.sending.current, _, rfl, by simp [frame], .inl ⟨done, rfl, rfl⟩⟩
  | nil =>
    cases hs : l.sending with
    | idle => simp [hs, SendPhase.begun] at hne
    | header buffer => simp [hs, SendPhase.begun] at hne
    | payload buffer bytesSent =>
      refine ⟨buffer, [], buffer.take bytesSent, rfl, rfl, .inr ?_⟩
      rw [List.length_take]
      exact lt_of_le_of_lt (Nat.min_le_left ..) (hsent buffer bytesSent hs)

/-- After a `::recv` that left `response` of a message of some length. -/
theorem Carries.receives {l : ByteStream} {queue : List Bytes} {message response wire : Bytes}
    {rest : List Bytes} {tail : Bytes} (h : l.Carries queue) (hqueue : queue = message :: rest)
    (hwire : l.receiving.taken ++ l.wire = lengthOf message ++ tail)
    (hrest : (∃ done, rest = done ++ l.sending.current ∧
        tail = message ++ (done.flatMap frame ++ l.sending.begun)) ∨
      tail.length < message.length)
    (htail : tail = response ++ wire) (hlength : response.length ≤ message.length) :
    ∃ queue', Run Fifo.step queue
        ((RecvPhase.next message.length response).1.map fun returned =>
          (.get, some returned)).toList queue' ∧
      ({ l with
        wire
        receiving := (RecvPhase.next message.length response).2 } : ByteStream).Carries queue' := by
  obtain ⟨short, ⟨done', hdone', hframed⟩, hsent, -⟩ := h
  have hmessage := short message (by simp [hqueue])
  rw [RecvPhase.next]
  split_ifs with hlt
  · refine ⟨queue, .nil queue, short, ⟨done', hdone', ?_⟩, hsent, ?_⟩
    · rw [← hframed, hwire, htail, ← List.append_assoc]
      rfl
    · rintro _ _ h
      obtain ⟨rfl, rfl⟩ := RecvPhase.payload.inj h
      exact ⟨hlt, hmessage⟩
  · rcases hrest with ⟨done, hdone, htail'⟩ | htail'
    · obtain ⟨rfl, rfl⟩ := List.append_inj (htail.symm.trans htail') (by omega)
      subst hqueue
      refine ⟨rest, .single rfl, ?_⟩
      refine ⟨fun m hm => short m (List.mem_cons_of_mem _ hm), ⟨done, hdone, rfl⟩, hsent, ?_⟩
      exact fun _ _ h => by cases h
    · rw [htail, List.length_append] at htail'
      omega

theorem step_length {l : ByteStream} {count : Nat} {junk : Word} {length : Int}
    (hreceiving : l.receiving = .header) (hne : l.wire ≠ [])
    (hlength : (intOfMemory (l.wire.take (accepted count 4) ++
      (intMemory junk).drop (l.wire.take (accepted count 4)).length)).toInt = length)
    (hfits : ¬ (length = 2147483647 ∨ length ≤ -1)) :
    l.step (.receives count junk) = some ((RecvPhase.next length.toNat []).1,
      { l with
        wire := l.wire.drop (accepted count 4)
        receiving := (RecvPhase.next length.toNat []).2 }) := by
  simp only [ByteStream.step, if_neg hne, hreceiving, hlength, if_neg hfits]

theorem step_header {l : ByteStream} {message tail : Bytes} {count : Nat} (junk : Word)
    (hreceiving : l.receiving = .header) (hwire : l.wire = lengthOf message ++ tail)
    (hcount : 4 ≤ count) (hshort : message.length < 2 ^ 31 - 1) :
    l.step (.receives count junk) = some ((RecvPhase.next message.length []).1,
      { l with wire := tail, receiving := (RecvPhase.next message.length []).2 }) := by
  have hne : l.wire ≠ [] := by
    rw [hwire]
    exact List.append_ne_nil_of_left_ne_nil (List.cons_ne_nil _ _) _
  have htake : l.wire.take (accepted count 4) = lengthOf message := by
    rw [accepted_of_le (by decide) hcount, hwire, List.take_left' (length_lengthOf message)]
  have hdrop : l.wire.drop (accepted count 4) = tail := by
    rw [accepted_of_le (by decide) hcount, hwire, List.drop_left' (length_lengthOf message)]
  have hlength : (intOfMemory (lengthOf message ++
      (intMemory junk).drop (lengthOf message).length)).toInt = message.length := by
    rw [length_lengthOf, List.drop_of_length_le (length_intMemory _).le, List.append_nil,
      lengthOf, intOfMemory_intMemory, toInt_ofNat (by omega)]
  rw [← htake] at hlength
  rw [step_length hreceiving hne hlength (by omega), hdrop, Int.toNat_natCast]

theorem step_payload {l : ByteStream} {length : Nat} {response : Bytes} (count : Nat) (junk : Word)
    (hreceiving : l.receiving = .payload length response) (hne : l.wire ≠ []) :
    let now := accepted count (length - response.length)
    l.step (.receives count junk) =
      some ((RecvPhase.next length (response ++ l.wire.take now)).1,
        { l with
          wire := l.wire.drop now
          receiving := (RecvPhase.next length (response ++ l.wire.take now)).2 }) := by
  simp only [ByteStream.step, if_neg hne, hreceiving]

theorem Carries.step {l l' : ByteStream} {queue : List Bytes} {e : StreamEvent} {o : Option Bytes}
    (h : l.Carries queue) (hwhole : l.Whole e) (hs : l.step e = some (o, l')) :
    ∃ queue', Run Fifo.step queue (queueEvents (e, o)) queue' ∧ l'.Carries queue' := by
  cases e with
  | calls buffer =>
    rw [ByteStream.step] at hs
    split at hs
    · obtain ⟨rfl, rfl⟩ := Prod.mk.inj (Option.some.inj hs)
      exact ⟨queue ++ [buffer], .single rfl, h.calls ‹_› hwhole⟩
    · cases hs
  | sends count =>
    rw [ByteStream.step] at hs
    split at hs
    · cases hs
    · rename_i buffer hsending
      obtain ⟨rfl, rfl⟩ := Prod.mk.inj (Option.some.inj hs)
      rw [accepted_of_le (by decide) (hwhole (by rw [hsending]; rfl)),
        List.take_of_length_le (length_intMemory _).le]
      refine ⟨queue, .nil queue, h.sends (by rw [hsending]; rfl) ?_ (Nat.zero_le _)⟩
      rw [hsending, List.take_zero, List.append_nil]
      rfl
    · rename_i buffer bytesSent hsending
      obtain ⟨rfl, rfl⟩ := Prod.mk.inj (Option.some.inj hs)
      have hlt := h.sent buffer bytesSent hsending
      have hle : accepted count (buffer.length - bytesSent) ≤ buffer.length - bytesSent :=
        accepted_le (by omega)
      refine ⟨queue, .nil queue, h.sends (by rw [hsending]; rfl) ?_ (by omega)⟩
      rw [hsending, List.take_add, ← List.append_assoc]
      rfl
  | receives count junk =>
    have hstep := hs
    rw [ByteStream.step] at hs
    split_ifs at hs with hwire
    have hne : l.receiving.taken ++ l.wire ≠ [] := by simp [hwire]
    obtain ⟨message, rest, tail, hqueue, hframed, hrest⟩ := h.first hne
    have hshort : message.length < 2 ^ 31 - 1 := h.short message (by simp [hqueue])
    cases hreceiving : l.receiving with
    | header =>
      have hheader : l.wire = lengthOf message ++ tail := by rwa [hreceiving] at hframed
      rw [step_header junk hreceiving hheader (hwhole hreceiving) hshort] at hstep
      obtain ⟨rfl, rfl⟩ := Prod.mk.inj (Option.some.inj hstep)
      exact h.receives hqueue hframed hrest rfl (Nat.zero_le _)
    | payload length response =>
      rw [step_payload count junk hreceiving hwire] at hstep
      obtain ⟨rfl, rfl⟩ := Prod.mk.inj (Option.some.inj hstep)
      obtain ⟨hlt, hlong⟩ := h.received length response hreceiving
      have hbytes : intMemory (BitVec.ofNat 32 length) ++ (response ++ l.wire) =
          intMemory (BitVec.ofNat 32 message.length) ++ tail := by
        rwa [hreceiving, RecvPhase.taken, List.append_assoc] at hframed
      obtain ⟨rfl, htail⟩ := length_of_intMemory (by omega) (by omega) hbytes
      have hle : accepted count (message.length - response.length) ≤
          message.length - response.length := accepted_le (by omega)
      refine h.receives hqueue hframed hrest ?_ ?_
      · rw [List.append_assoc, List.take_append_drop, htail]
      · rw [List.length_append, List.length_take]
        omega

theorem Carries.new : ByteStream.new.Carries [] where
  short := by simp
  framed := ⟨[], rfl, rfl⟩
  sent _ _ h := by cases h
  received _ _ h := by cases h

/-- While a message is in flight the sender or the receiver can go on. -/
theorem Carries.proceeds {l : ByteStream} {queue : List Bytes} (h : l.Carries queue)
    (hne : queue ≠ []) :
    ∃ e, e.called? = none ∧ l.Whole e ∧ (l.step e).isSome = true := by
  cases hs : l.sending with
  | header buffer => exact ⟨.sends 4, rfl, fun _ => le_rfl, by simp [ByteStream.step, hs]⟩
  | payload buffer bytesSent =>
    exact ⟨.sends 4, rfl, fun _ => le_rfl, by simp [ByteStream.step, hs]⟩
  | idle =>
    have hwire : l.wire ≠ [] := by
      intro hwire
      obtain ⟨short, ⟨done, rfl, hframed⟩, -, received⟩ := h
      simp only [hs, SendPhase.current, SendPhase.begun, hwire, List.append_nil] at hne hframed
      obtain ⟨message, done, rfl⟩ := List.exists_cons_of_ne_nil hne
      have hmessage := short message (by simp)
      rw [List.flatMap_cons, frame, List.append_assoc] at hframed
      cases hr : l.receiving with
      | header =>
        rw [hr] at hframed
        cases hframed
      | payload length response =>
        obtain ⟨hlt, hlong⟩ := received length response hr
        rw [hr] at hframed
        obtain ⟨rfl, rfl⟩ := length_of_intMemory (by omega) (by omega) hframed
        rw [List.length_append] at hlt
        omega
    refine ⟨.receives 4 0, rfl, fun _ => le_rfl, ?_⟩
    cases hr : l.receiving with
    | header =>
      obtain ⟨message, rest, tail, rfl, hframed, -⟩ := h.first (by simp [hwire])
      rw [hr] at hframed
      rw [step_header 0 hr hframed le_rfl (h.short message List.mem_cons_self)]
      rfl
    | payload length response =>
      rw [step_payload 4 0 hr hwire]
      rfl

/-- The system calls still to come for what was sent, at most. -/
def remaining (l : ByteStream) : Nat :=
  l.wire.length + 2 * match l.sending with
    | .idle => 0
    | .header buffer => 4 + buffer.length
    | .payload buffer bytesSent => buffer.length - bytesSent

theorem remaining_sends {l : ByteStream} {buffer bytes : Bytes} {n : Nat} :
    ({ l with sending := .next buffer n, wire := l.wire ++ bytes } : ByteStream).remaining =
      l.wire.length + bytes.length + 2 * (buffer.length - n) := by
  simp only [remaining, SendPhase.next, List.length_append]
  split_ifs
  · rfl
  · dsimp only
    omega

theorem Carries.remaining_lt {l l' : ByteStream} {queue : List Bytes} {e : StreamEvent}
    {o : Option Bytes} (h : l.Carries queue) (hwhole : l.Whole e) (he : e.called? = none)
    (hs : l.step e = some (o, l')) : l'.remaining < l.remaining := by
  cases e with
  | calls buffer => cases he
  | sends count =>
    rw [ByteStream.step] at hs
    split at hs
    · cases hs
    · rename_i buffer hsending
      obtain ⟨-, rfl⟩ := Prod.mk.inj (Option.some.inj hs)
      rw [remaining_sends, accepted_of_le (by decide) (hwhole (by rw [hsending]; rfl)),
        List.length_take, length_intMemory, remaining, hsending]
      dsimp only
      omega
    · rename_i buffer bytesSent hsending
      obtain ⟨-, rfl⟩ := Prod.mk.inj (Option.some.inj hs)
      have hlt := h.sent buffer bytesSent hsending
      have hpos := accepted_pos count (buffer.length - bytesSent)
      have hle : accepted count (buffer.length - bytesSent) ≤ buffer.length - bytesSent :=
        accepted_le (by omega)
      rw [remaining_sends, List.length_take, List.length_drop, remaining, hsending]
      dsimp only
      omega
  | receives count junk =>
    have hlower (n : Nat) (hn : 1 ≤ n) (hne : l.wire ≠ []) (receiving : RecvPhase) :
        ({ l with wire := l.wire.drop n, receiving } : ByteStream).remaining < l.remaining := by
      have hpos := List.length_pos_iff.mpr hne
      simp only [remaining, List.length_drop]
      omega
    rw [ByteStream.step] at hs
    split_ifs at hs with hwire
    split at hs
    · simp only at hs
      split_ifs at hs
      obtain ⟨-, rfl⟩ := Prod.mk.inj (Option.some.inj hs)
      exact hlower _ (accepted_pos _ _) hwire _
    · obtain ⟨-, rfl⟩ := Prod.mk.inj (Option.some.inj hs)
      exact hlower _ (accepted_pos _ _) hwire _

/-- The payload loop of `TcpSocket.send`, as calls of the stream. -/
theorem run_sendPayload (counts : Nat → Nat) (i : Nat) (buffer : Bytes) (bytesSent : Nat)
    (wire : Bytes) (receiving : RecvPhase) :
    ∃ trace, Run ByteStream.step ⟨.next buffer bytesSent, wire, receiving⟩ trace
        ⟨.idle, wire ++ (sendPayload (fun i => .sent (counts i)) i buffer bytesSent).1, receiving⟩ ∧
      trace.flatMap queueEvents = [] := by
  fun_induction sendPayload (fun i => .sent (counts i)) i buffer bytesSent generalizing wire with
  | case1 i bytesSent hlt e he => cases he
  | case2 i bytesSent hlt nowSent hnow rest ih =>
    obtain rfl := Except.ok.inj hnow
    obtain ⟨trace, hrun, hevents⟩ := ih (wire ++
      (buffer.drop bytesSent).take (accepted (counts i) (buffer.length - bytesSent)))
    rw [List.append_assoc] at hrun
    rw [SendPhase.next, if_pos hlt]
    exact ⟨(.sends (counts i), none) :: trace, .cons rfl hrun, hevents⟩
  | case3 i bytesSent hge =>
    rw [SendPhase.next, if_neg hge, List.append_nil]
    exact ⟨[], .nil _, rfl⟩

/-- A call of `TcpSocket.send` is a run of the stream. -/
theorem run_send (counts : Counts) {l : ByteStream} (buffer : Bytes) (hidle : l.sending = .idle) :
    ∃ trace, Run ByteStream.step l trace
        { l with wire := l.wire ++ (TcpSocket.send (.ofCounts counts) buffer).1 } ∧
      trace.flatMap queueEvents = [(.put buffer, none)] := by
  obtain ⟨sending, wire, receiving⟩ := l
  obtain rfl : sending = .idle := hidle
  obtain ⟨trace, hrun, hevents⟩ := run_sendPayload counts.payload 0 buffer 0
    (wire ++ (intMemory (BitVec.ofNat 32 buffer.length)).take (accepted counts.header 4)) receiving
  rw [List.append_assoc] at hrun
  refine ⟨(.calls buffer, none) :: (.sends counts.header, none) :: trace,
    .cons rfl (.cons rfl hrun), ?_⟩
  rw [List.flatMap_cons, List.flatMap_cons, hevents]
  rfl

theorem run_recvPayload {counts : Nat → Nat} {length i : Nat} {response message : Bytes}
    {wire wire' : Wire} (sending : SendPhase) (hlt : response.length < length)
    (h : recvPayload counts length i response wire = (.returned message, wire')) :
    ∃ trace, Run ByteStream.step ⟨sending, wire.bytes, .payload length response⟩ trace
        ⟨sending, wire'.bytes, .header⟩ ∧ trace.flatMap queueEvents = [(.get, some message)] := by
  fun_induction recvPayload counts length i response wire with
  | case1 i response wire hlt' hw =>
    exact absurd (Prod.mk.inj h).1 (wire.ending.outcome_ne_returned message)
  | case2 i response wire hlt' byte bytes hw nowReceived ih =>
    have hs := @step_payload ⟨sending, wire.bytes, .payload length response⟩ length response
      (counts i) 0 rfl (by rw [hw]; exact List.cons_ne_nil _ _)
    rw [hw] at hs ⊢
    dsimp only at hs
    by_cases hmore : (response ++ (byte :: bytes).take
        (accepted (counts i) (length - response.length))).length < length
    · obtain ⟨trace, hrun, hevents⟩ := ih hmore h
      simp only [RecvPhase.next, if_pos hmore] at hs
      exact ⟨_ :: trace, .cons hs hrun, hevents⟩
    · rw [recvPayload, if_neg hmore] at h
      obtain ⟨hm, rfl⟩ := Prod.mk.inj h
      obtain rfl := RecvOutcome.returned.inj hm
      simp only [RecvPhase.next, if_neg hmore] at hs
      exact ⟨_, .single hs, rfl⟩
  | case3 i response wire hge => exact absurd hlt hge

/-- A call of `TcpSocket.recv` that returns a message is a run of the stream. -/
theorem run_recv {counts : Counts} {junk : Word} {l : ByteStream} {message : Bytes} {wire' : Wire}
    (hheader : l.receiving = .header)
    (h : TcpSocket.recv counts junk ⟨l.wire, .stillOpen⟩ = (.returned message, wire')) :
    ∃ trace, Run ByteStream.step l trace { l with wire := wire'.bytes } ∧
      trace.flatMap queueEvents = [(.get, some message)] := by
  obtain ⟨sending, wire, receiving⟩ := l
  obtain rfl : receiving = .header := hheader
  cases wire with
  | nil => cases h
  | cons byte bytes =>
    have hstep {length : Int} := @step_length ⟨sending, byte :: bytes, .header⟩ counts.header junk
      length rfl (List.cons_ne_nil _ _)
    simp only [TcpSocket.recv] at h
    dsimp only at hstep
    generalize (intOfMemory _).toInt = length at h hstep
    by_cases hu : length = 2147483647 ∨ length = -1
    · rw [if_pos hu] at h
      cases h
    by_cases hb : length < -1
    · rw [if_neg hu, if_pos hb] at h
      cases h
    rw [if_neg hu, if_neg hb] at h
    have hs := hstep rfl (by omega)
    by_cases hmore : ([] : Bytes).length < length.toNat
    · obtain ⟨trace, hrun, hevents⟩ := run_recvPayload sending hmore h
      rw [RecvPhase.next, if_pos hmore] at hs
      exact ⟨_ :: trace, .cons hs hrun, hevents⟩
    · rw [recvPayload, if_neg hmore] at h
      obtain ⟨hm, rfl⟩ := Prod.mk.inj h
      obtain rfl := RecvOutcome.returned.inj hm
      rw [RecvPhase.next, if_neg hmore] at hs
      exact ⟨_, .single hs, rfl⟩

end ByteStream

/-- However the system calls of the two ends overlap, the connection is a queue of
messages: every message is delivered once, whole and in order. While one is in
flight some call can go on, and only so many calls can without a new message. -/
theorem stream_refines_queue {trace : List (StreamEvent × Option Bytes)} {l : ByteStream}
    (hrun : Run ByteStream.step .new trace l)
    (hwhole : EachStep ByteStream.step ByteStream.Whole .new trace) :
    ∃ queue, Run Fifo.step [] (trace.flatMap queueEvents) queue ∧
      (trace.filterMap fun e => e.1.called?) = trace.filterMap Prod.snd ++ queue ∧
      (queue ≠ [] → ∃ e, e.called? = none ∧ l.Whole e ∧ (l.step e).isSome = true) ∧
      ∀ more l', Run ByteStream.step l more l' →
        EachStep ByteStream.step (fun l e => l.Whole e ∧ e.called? = none) l more →
        more.length ≤ l.remaining := by
  obtain ⟨queue, hqueue, hcarries⟩ := hrun.refine hwhole (R := ByteStream.Carries) .new
    fun h hw hs => h.step hw hs
  have horder := Fifo.given_eq hqueue
  rw [List.nil_append, given_queueEvents, handed_queueEvents] at horder
  refine ⟨queue, hqueue, horder, hcarries.proceeds, fun more l' hmore heach => ?_⟩
  have hlower {a b : ByteStream} {e : StreamEvent} {o : Option Bytes}
      (h : ∃ queue, a.Carries queue) (hc : a.Whole e ∧ e.called? = none)
      (hs : a.step e = some (o, b)) : (∃ queue, b.Carries queue) ∧ b.remaining < a.remaining := by
    obtain ⟨_, h⟩ := h
    obtain ⟨queue', -, h'⟩ := h.step hc.1 hs
    exact ⟨⟨queue', h'⟩, h.remaining_lt hc.1 hc.2 hs⟩
  have hlength := hmore.length_le heach ⟨queue, hcarries⟩ hlower
  omega

/-- Two messages, one of them empty, with the second still in flight. -/
def sampleStream : List (StreamEvent × Option Bytes) :=
  [(.calls [7, 8], none), (.sends 4, none), (.sends 1, none), (.receives 9 5, none),
    (.receives 9 0, none), (.sends 9, none), (.calls [], none), (.receives 1 0, some [7, 8]),
    (.sends 4, none)]

theorem stream_refines_queue_sample :
    ∃ l, Run ByteStream.step .new sampleStream l ∧
      (∃ e, e.called? = none ∧ l.Whole e ∧ (l.step e).isSome = true) ∧
      Run Fifo.step ([] : List Bytes)
        [(.put [7, 8], none), (.put [], none), (.get, some [7, 8])] [[]] := by
  obtain ⟨l, hrun, -⟩ := @Run.of_exec_map _ _ _ ByteStream.step .new sampleStream _ id
    ⟨.idle, [0, 0, 0, 0], .header⟩ (by decide)
  obtain ⟨queue, hqueue, horder, hproceeds, -⟩ :=
    stream_refines_queue hrun (.of_check (by decide))
  obtain rfl : queue = [[]] := (List.cons.inj horder).2.symm
  exact ⟨l, hrun, hproceeds (by decide), hqueue⟩

end RpcLibrary
