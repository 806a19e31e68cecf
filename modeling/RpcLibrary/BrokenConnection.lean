import RpcLibrary.Framing

/-! A connection that breaks while messages arrive. Each end of the stream is
between two messages or inside the payload of one. -/

namespace RpcLibrary

theorem wireOf_append (sends later : List (Counts × Bytes)) :
    (wireOf (sends ++ later)).bytes = (wireOf sends).bytes ++ (wireOf later).bytes := by
  induction sends with
  | nil => rfl
  | cons s sends ih =>
    rw [List.cons_append, wireOf_cons s.1 s.2, wireOf_cons s.1 s.2, ih]
    simp only [List.append_assoc]

theorem length_wireOf_whole {sends : List (Counts × Bytes)} (h : ∀ s ∈ sends, 4 ≤ s.1.header) :
    (wireOf sends).bytes.length = framedLength (sends.map Prod.snd) := by
  induction sends with
  | nil => rfl
  | cons s sends ih =>
    obtain ⟨hs, hss⟩ := List.forall_mem_cons.mp h
    have hrest := ih hss
    have hheader : accepted s.1.header 4 = 4 := accepted_of_le (by decide) hs
    simp only [framedLength] at hrest
    rw [length_wireOf_cons s.1 s.2, hheader, hrest, framedLength, List.map_cons, List.map_cons,
      List.sum_cons]

/-- A point of the stream that is not inside a header, with the messages that
are complete before it. -/
inductive CutPoint (sends : List (Counts × Bytes)) : List (Counts × Bytes) → Nat → Prop
  | between {done rest} (h : sends = done ++ rest) :
      CutPoint sends done (framedLength (done.map Prod.snd))
  | inside {done s rest k} (h : sends = done ++ s :: rest) (hk : k < s.2.length) :
      CutPoint sends done (framedLength (done.map Prod.snd) + 4 + k)

theorem CutPoint.subset {sends done : List (Counts × Bytes)} {cut : Nat}
    (h : CutPoint sends done cut) : ∀ s ∈ done, s ∈ sends := by
  cases h with
  | between h => exact fun s hs => h ▸ List.mem_append_left _ hs
  | inside h => exact fun s hs => h ▸ List.mem_append_left _ hs

/-- What is left of the stream after the complete messages holds no message. -/
theorem CutPoint.recv_rest {sends done : List (Counts × Bytes)} {cut : Nat}
    (h : CutPoint sends done cut) (hshort : ∀ s ∈ sends, s.2.length < 2 ^ 31 - 1)
    (hs : ∀ s ∈ sends, 4 ≤ s.1.header) :
    ∃ rest, (wireOf sends).bytes.take cut = (wireOf done).bytes ++ rest ∧
      ∀ counts junk ending, 4 ≤ counts.header →
        (TcpSocket.recv counts junk ⟨rest, ending⟩).1 = ending.outcome := by
  have hdone := length_wireOf_whole fun s hin => hs s (h.subset s hin)
  cases h with
  | between h =>
    refine ⟨[], ?_, fun counts junk ending _ => rfl⟩
    rw [h, wireOf_append, ← hdone, List.take_left' rfl, List.append_nil]
  | @inside s rest k h hk =>
    have hin : s ∈ sends := by simp [h]
    refine ⟨intMemory (BitVec.ofNat 32 s.2.length) ++ s.2.take k, ?_, ?_⟩
    · rw [h, wireOf_append, wireOf_cons_whole (hs s hin), ← hdone, Nat.add_assoc,
        List.take_length_add_append, ← length_intMemory (BitVec.ofNat 32 s.2.length),
        List.take_length_add_append, List.take_append_of_le_length hk.le]
    · intro counts junk ending hc
      have hpart : ¬ s.2.length ≤ (s.2.take k).length := by
        rw [List.length_take]
        omega
      rw [TcpSocket.recv_of_header junk _ ending hc (hshort s hin), if_neg hpart]

theorem recvAll_cut {sends done : List (Counts × Bytes)} {cut : Nat}
    {calls : List (Counts × Word)} (hcut : CutPoint sends done cut)
    (hshort : ∀ s ∈ sends, s.2.length < 2 ^ 31 - 1) (hs : ∀ s ∈ sends, 4 ≤ s.1.header)
    (hr : ∀ r ∈ calls, 4 ≤ r.1.header) (hlen : calls.length = done.length + 1) (ending : Ending) :
    recvAll calls ⟨(wireOf sends).bytes.take cut, ending⟩ =
      (done.map fun s => .returned s.2) ++ [ending.outcome] := by
  obtain ⟨rest, hwire, hrest⟩ := hcut.recv_rest hshort hs
  rcases List.eq_nil_or_concat calls with rfl | ⟨calls, last, rfl⟩
  · cases hlen
  rw [List.concat_eq_append] at hr hlen ⊢
  rw [List.length_append, List.length_singleton] at hlen
  have hreads := recvAll_append (Nat.add_right_cancel hlen)
    (fun s hin => hshort s (hcut.subset s hin)) (fun s hin => hs s (hcut.subset s hin))
    (fun r hin => hr r (List.mem_append_left _ hin)) [last] rest ending
  have hlast := hrest last.1 last.2 ending (hr last (by simp))
  rw [hwire, hreads, recvAll, recvAll, hlast]

/-- The calls return the messages that are complete where the connection breaks,
and the next one throws what the break is. -/
theorem broken_connection {sends done : List (Counts × Bytes)} {cut : Nat}
    {calls : List (Counts × Word)} (hcut : CutPoint sends done cut)
    (hshort : ∀ s ∈ sends, s.2.length < 2 ^ 31 - 1) (hs : ∀ s ∈ sends, 4 ≤ s.1.header)
    (hr : ∀ r ∈ calls, 4 ≤ r.1.header) (hlen : calls.length = done.length + 1) :
    recvAll calls ⟨(wireOf sends).bytes.take cut, .closed⟩ =
        (done.map fun s => .returned s.2) ++ [.threw .connectionClosed] ∧
      recvAll calls ⟨(wireOf sends).bytes.take cut, .failed⟩ =
        (done.map fun s => .returned s.2) ++ [.threw .recvError] :=
  ⟨recvAll_cut hcut hshort hs hr hlen .closed, recvAll_cut hcut hshort hs hr hlen .failed⟩

theorem broken_connection_sample :
    recvAll [(byteByByte 4, 0), (byteByByte 4, 1)]
        ⟨(wireOf [(byteByByte 4, [7]), (byteByByte 4, [8, 9])]).bytes.take 10, .closed⟩ =
      [.returned [7], .threw .connectionClosed] := by
  have hcut : CutPoint [(byteByByte 4, [7]), (byteByByte 4, [8, 9])] [(byteByByte 4, [7])] 10 :=
    .inside (s := (byteByByte 4, [8, 9])) (k := 1) rfl (by decide)
  have hheaders : ∀ r ∈ [(byteByByte 4, (0 : Word)), (byteByByte 4, 1)], 4 ≤ r.1.header := by
    simp [byteByByte]
  exact (broken_connection hcut (by decide) (by decide) hheaders rfl).1

end RpcLibrary
