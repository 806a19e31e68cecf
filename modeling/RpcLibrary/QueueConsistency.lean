import RpcLibrary.SocketOwnership

/-! Agreement of the queue, the timestamps and the server sets. The timestamp 0
stands for a missing one, which a clock of 32 bits can reach again. -/

namespace RpcLibrary

open Runs BinderDatabase

def Offered (db : BinderDatabase) (a : Address) : Prop :=
  ∃ f, (db.servers f).contains a = true

def BinderDatabase.timestampOf (db : BinderDatabase) (a : Address) : Option (BitVec 32) :=
  (db.serverToTimestamp.find? a).map Prod.snd

structure Consistent (db : BinderDatabase) : Prop where
  queued : ∀ a, Offered db a →
    ∃ p ∈ db.serverQueue, p.2.address = a ∧ db.timestampOf a = some p.1
  unique : ∀ p ∈ db.serverQueue, ∀ q ∈ db.serverQueue, p.2.address = q.2.address → p = q
  queueOffered : ∀ p ∈ db.serverQueue, Offered db p.2.address
  stampOffered : ∀ e ∈ db.serverToTimestamp, Offered db e.1.address

theorem Consistent.new : Consistent BinderDatabase.new where
  queued a h := by
    obtain ⟨f, hf⟩ := h
    simp [OrderedSet.contains] at hf
  unique p hp := absurd hp (OrderedSet.not_mem_empty p)
  queueOffered p hp := absurd hp (OrderedSet.not_mem_empty p)
  stampOffered e he := absurd he (OrderedSet.not_mem_empty e)

theorem queueKey_inj {p q : BitVec 32 × ServerData} (h : queueKey p = queueKey q) :
    p.1 = q.1 ∧ p.2.address = q.2.address := by
  obtain ⟨ht, ha⟩ := Prod.mk.inj (congrArg ofLex h)
  exact ⟨BitVec.eq_of_toNat_eq ht, ha⟩

theorem offered_of_holds_servers {db : BinderDatabase} {f : Signature} {x : ServerData}
    (h : x ∈ db.servers f) : Offered db x.address := ⟨f, OrderedSet.contains_of_mem h⟩

theorem Offered.exists_mem {db : BinderDatabase} {a : Address} (h : Offered db a) :
    ∃ f, ∃ x ∈ db.servers f, x.address = a := by
  obtain ⟨f, hf⟩ := h
  exact ⟨f, OrderedSet.contains_iff.mp hf⟩

theorem timestampOf_eq_some_iff {db : BinderDatabase} {a : Address} {t : BitVec 32} :
    db.timestampOf a = some t ↔ ∃ x, (x, t) ∈ db.serverToTimestamp ∧ x.address = a := by
  simp only [timestampOf, Option.map_eq_some_iff, OrderedSet.find?_eq_some_iff, Prod.exists,
    exists_eq_right]

theorem Consistent.offered_of_timestamp {db : BinderDatabase} (h : Consistent db) {a : Address}
    {t : BitVec 32} (ht : db.timestampOf a = some t) : Offered db a := by
  obtain ⟨x, hx, rfl⟩ := timestampOf_eq_some_iff.mp ht
  exact h.stampOffered _ hx

/-- One address got a new time and nothing else changed. -/
structure Restamped (db db' : BinderDatabase) (x : ServerData) (t : BitVec 32) : Prop where
  queue : ∀ q, q ∈ db'.serverQueue ↔
    (q ∈ db.serverQueue ∧ q.2.address ≠ x.address) ∨ q = (t, x)
  stamp : db'.serverToTimestamp = db.serverToTimestamp.assign x t
  offered : ∀ a, Offered db' a ↔ Offered db a ∨ a = x.address

theorem Restamped.timestampOf {db db' : BinderDatabase} {x : ServerData} {t : BitVec 32}
    (h : Restamped db db' x t) (a : Address) :
    db'.timestampOf a = if a = x.address then some t else db.timestampOf a := by
  have hg : (db.serverToTimestamp.assign x t).get? ⟨a.hostname, a.port, 0⟩ = _ :=
    OrderedMap.get?_assign
  rw [← h.stamp] at hg
  exact hg

theorem Consistent.restamped {db db' : BinderDatabase} {x : ServerData} {t : BitVec 32}
    (h : Consistent db) (hr : Restamped db db' x t) : Consistent db' where
  queued a ha := by
    by_cases hax : a = x.address
    · exact ⟨(t, x), (hr.queue _).mpr (.inr rfl), hax.symm, by rw [hr.timestampOf, if_pos hax]⟩
    · obtain ⟨p, hp, rfl, ht⟩ := h.queued a (((hr.offered a).mp ha).resolve_right hax)
      exact ⟨p, (hr.queue p).mpr (.inl ⟨hp, hax⟩), rfl, by rw [hr.timestampOf, if_neg hax, ht]⟩
  unique p hp q hq hpq := by
    rcases (hr.queue p).mp hp with ⟨hp, hpx⟩ | rfl
    · rcases (hr.queue q).mp hq with ⟨hq, -⟩ | rfl
      · exact h.unique p hp q hq hpq
      · exact absurd hpq hpx
    · rcases (hr.queue q).mp hq with ⟨-, hqx⟩ | rfl
      · exact absurd hpq.symm hqx
      · rfl
  queueOffered p hp := by
    rcases (hr.queue p).mp hp with ⟨hp, -⟩ | rfl
    · exact (hr.offered _).mpr (.inl (h.queueOffered p hp))
    · exact (hr.offered _).mpr (.inr rfl)
  stampOffered e he := by
    rw [hr.offered]
    rw [hr.stamp] at he
    rcases OrderedMap.mem_assign.mp he with ⟨he, -⟩ | rfl
    · exact .inl (h.stampOffered e he)
    · exact .inr (OrderedMap.key_storedKey _ _)

theorem mem_insert_of_absent {queue : ServerQueue} {x : ServerData} {t : BitVec 32}
    (h : ∀ q ∈ queue, q.2.address ≠ x.address) (q : BitVec 32 × ServerData) :
    q ∈ queue.insert (t, x) ↔ q ∈ queue ∨ q = (t, x) := by
  have hc : queue.contains (queueKey (t, x)) = false :=
    OrderedSet.not_contains_iff.mpr fun q hq hk => h q hq (queueKey_inj hk).2
  rw [OrderedSet.mem_insert, hc]
  simp

theorem Consistent.mem_erase_queue {db : BinderDatabase} (h : Consistent db)
    {p : BitVec 32 × ServerData} (hp : p ∈ db.serverQueue) (q : BitVec 32 × ServerData) :
    q ∈ db.serverQueue.erase (queueKey p) ↔ q ∈ db.serverQueue ∧ q.2.address ≠ p.2.address := by
  rw [OrderedSet.mem_erase]
  refine and_congr_right fun hq => not_congr ⟨fun hk => (queueKey_inj hk).2, fun ha => ?_⟩
  rw [h.unique q hq p hp ha]

theorem Consistent.mem_restamp_queue {db : BinderDatabase} (h : Consistent db)
    {p : BitVec 32 × ServerData} (hp : p ∈ db.serverQueue) (t : BitVec 32)
    (q : BitVec 32 × ServerData) :
    q ∈ (db.serverQueue.erase (queueKey p)).insert (t, p.2) ↔
      (q ∈ db.serverQueue ∧ q.2.address ≠ p.2.address) ∨ q = (t, p.2) := by
  rw [mem_insert_of_absent fun q hq => ((h.mem_erase_queue hp q).mp hq).2, h.mem_erase_queue hp]

theorem Consistent.mem_reinsert_queue {db : BinderDatabase} (h : Consistent db)
    {p : BitVec 32 × ServerData} (hp : p ∈ db.serverQueue) (q : BitVec 32 × ServerData) :
    q ∈ db.serverQueue.insert p ↔
      (q ∈ db.serverQueue ∧ q.2.address ≠ p.2.address) ∨ q = p := by
  rw [OrderedSet.insert_of_contains (OrderedSet.contains_of_mem hp)]
  constructor
  · intro hq
    by_cases hqa : q.2.address = p.2.address
    · exact .inr (h.unique q hq p hp hqa)
    · exact .inl ⟨hq, hqa⟩
  · rintro (⟨hq, -⟩ | rfl)
    · exact hq
    · exact hp

theorem Consistent.absent_of_timestamp {db : BinderDatabase} (h : Consistent db) {a : Address}
    (ht : db.timestampOf a = none) : ∀ q ∈ db.serverQueue, q.2.address ≠ a := by
  rintro q hq rfl
  obtain ⟨p, -, -, hp⟩ := h.queued _ (h.queueOffered q hq)
  rw [ht] at hp
  cases hp

theorem Consistent.restamped_touched {db : BinderDatabase} (h : Consistent db) {f : Signature}
    {p : BitVec 32 × ServerData} (hp : db.pick f = some p) :
    Restamped db (db.touched f p) p.2 db.time where
  queue := h.mem_restamp_queue (pick_mem hp).1 db.time
  stamp := rfl
  offered a := by
    simp only [Offered, servers_touched]
    refine ⟨.inl, ?_⟩
    rintro (ha | rfl)
    · exact ha
    · exact ⟨f, (pick_mem hp).2⟩

theorem offered_added {db : BinderDatabase} {f : Signature} {x : ServerData} (a : Address) :
    Offered (db.added f x) a ↔ Offered db a ∨ a = x.address := by
  simp only [Offered, contains_servers_added]
  constructor
  · rintro ⟨g, hg | ⟨-, rfl⟩⟩
    · exact .inl ⟨g, hg⟩
    · exact .inr rfl
  · rintro (⟨g, hg⟩ | rfl)
    · exact ⟨g, .inl hg⟩
    · exact ⟨f, .inr ⟨rfl, rfl⟩⟩

/-- A registration does not take an address stamped 0 for a missing one, except
when the clock is at 0 itself and the stamp would not change. -/
def StampUsable (db : BinderDatabase) (request : BinderRequest) : Prop :=
  ∀ message s f, request = .register message s → message.signature = some f →
    (db.servers f).contains message.address = false →
    db.timestampOf message.address = some 0 → db.time = 0

theorem Consistent.restamped_added {db : BinderDatabase} (h : Consistent db) {f : Signature}
    {x : ServerData} (hown : ∀ y, Holds db y → y.address = x.address → y = x)
    (hstamp : db.timestampOf x.address = some 0 → db.time = 0) :
    Restamped db (db.added f x) x db.time where
  stamp := rfl
  offered := offered_added
  queue q := by
    have hget : db.serverToTimestamp.get? x = db.timestampOf x.address := rfl
    cases ht : db.timestampOf x.address with
    | none =>
      have habsent := h.absent_of_timestamp ht
      simp only [added, hget, ht, Option.getD_none, gt_iff_lt, BitVec.lt_irrefl, if_false]
      rw [mem_insert_of_absent habsent]
      exact or_congr_left ⟨fun hq => ⟨hq, habsent q hq⟩, And.left⟩
    | some t =>
      obtain ⟨⟨t', y⟩, hp, hya, hpt⟩ := h.queued _ (h.offered_of_timestamp ht)
      obtain rfl : t = t' := Option.some.inj (ht.symm.trans hpt)
      obtain rfl : y = x := hown y (.of_queue hp) hya
      by_cases hpos : t > 0
      · simp only [added, hget, ht, Option.getD_some, hpos, if_true]
        exact h.mem_restamp_queue hp db.time q
      · have ht0 : t = 0 := by
          have := BitVec.not_lt.mp hpos
          simpa using this
        subst ht0
        simp only [added, hget, ht, Option.getD_some, hpos, if_false, hstamp ht]
        exact h.mem_reinsert_queue hp q

theorem Consistent.removeIfServer {db : BinderDatabase} (h : Consistent db)
    (hagree : SocketsAgree db) (s : SocketPtr) : Consistent (db.removeIfServer s) := by
  have hoffered {f : Signature} {x y : ServerData} (hx : x ∈ db.servers f) (hy : Holds db y)
      (hxy : x.address = y.address) (hys : decide (y.serverSocket ≠ s) = true) :
      Offered (db.removeIfServer s) y.address := by
    obtain rfl := hagree x y (.of_servers hx) hy hxy
    exact ⟨f, OrderedSet.contains_of_mem
      (mem_servers_removeIfServer.mpr ⟨hx, of_decide_eq_true hys⟩)⟩
  constructor
  · intro a ha
    obtain ⟨f, x, hx, rfl⟩ := ha.exists_mem
    obtain ⟨hx, hxs⟩ := mem_servers_removeIfServer.mp hx
    obtain ⟨p, hp, hpa, ht⟩ := h.queued _ (offered_of_holds_servers hx)
    obtain ⟨y, hy, hya⟩ := timestampOf_eq_some_iff.mp ht
    have hpx : p.2 = x := hagree _ _ (.of_queue hp) (.of_servers hx) hpa
    have hyx : y = x := hagree _ _ (.of_timestamp hy) (.of_servers hx) hya
    refine ⟨p, OrderedSet.mem_filter.mpr ⟨hp, decide_eq_true (hpx ▸ hxs)⟩, hpa,
      timestampOf_eq_some_iff.mpr
        ⟨y, OrderedSet.mem_filter.mpr ⟨hy, decide_eq_true (hyx ▸ hxs)⟩, hya⟩⟩
  · intro p hp q hq
    exact h.unique p (OrderedSet.mem_filter.mp hp).1 q (OrderedSet.mem_filter.mp hq).1
  · intro p hp
    obtain ⟨hp, hps⟩ := OrderedSet.mem_filter.mp hp
    obtain ⟨f, x, hx, hxa⟩ := (h.queueOffered p hp).exists_mem
    exact hoffered hx (.of_queue hp) hxa hps
  · intro e he
    obtain ⟨he, hes⟩ := OrderedSet.mem_filter.mp he
    obtain ⟨f, x, hx, hxa⟩ := (h.stampOffered e he).exists_mem
    exact hoffered hx (.of_timestamp he) hxa hes

theorem Consistent.step {db db' : BinderDatabase} {request : BinderRequest}
    {reply : Option RawMessage} (h : Consistent db) (hagree : SocketsAgree db)
    (hown : ∀ message s, request = .register message s → ∀ y, Holds db y →
      y.address = message.address → y = ⟨message.serverHostname, message.serverPort, s⟩)
    (hstamp : StampUsable db request) (hs : StepCase db request reply db') : Consistent db' := by
  cases hs with
  | known => exact h
  | added hf hc =>
    exact h.restamped (h.restamped_added (hown _ _ rfl) (hstamp _ _ _ rfl hf hc))
  | notFound =>
    refine ⟨fun a ha => h.queued a ?_, h.unique, fun p hp => ?_, fun e he => ?_⟩
    · simpa only [Offered, servers_pruned] using ha
    · simpa only [Offered, servers_pruned] using h.queueOffered p hp
    · simpa only [Offered, servers_pruned] using h.stampOffered e he
  | found hf hp => exact h.restamped (h.restamped_touched hp)
  | removed => exact h.removeIfServer hagree _

theorem BinderRun.consistent {past : List BinderEvent} {db : BinderDatabase}
    (hrun : BinderRun past db) (hone : OneOwner (past.map Prod.fst))
    (heach : EachStep BinderDatabase.step StampUsable BinderDatabase.new past) :
    Consistent db := by
  revert hone
  refine hrun.history_of_each (P := fun past db => OneOwner (past.map Prod.fst) → Consistent db)
    heach (fun _ => .new) ?_
  intro past a request reply b hr ih hstamp hs hone
  rw [List.map_append] at hone
  refine (ih hone.of_append).step (BinderRun.socketsAgree hr hone.of_append) ?_ hstamp
    (step_cases hs)
  rintro message s rfl y hy hya
  exact BinderRun.holds_eq_registered hr hone hy hya

theorem not_consistent_added {db : BinderDatabase} {f : Signature} {x : ServerData}
    (h : Consistent db) (hstamp : db.timestampOf x.address = some 0) (htime : db.time ≠ 0) :
    ¬ Consistent (db.added f x) := by
  intro h'
  obtain ⟨p, hp, hpa, hpt⟩ := h.queued _ (h.offered_of_timestamp hstamp)
  have hp0 : p.1 = 0 := Option.some.inj (hpt.symm.trans hstamp)
  have hqueue : (db.added f x).serverQueue = db.serverQueue.insert (db.time, x) := by
    have hget : db.serverToTimestamp.get? x = some 0 := hstamp
    simp only [added, hget, Option.getD_some, gt_iff_lt, BitVec.lt_irrefl, if_false]
  have hmem : p ∈ (db.added f x).serverQueue := by
    rw [hqueue]
    exact OrderedSet.mem_insert.mpr (.inl hp)
  obtain ⟨q, hq, hqk⟩ := OrderedSet.contains_iff.mp
    (hqueue ▸ OrderedSet.contains_insert.mpr (.inr rfl) :
      (db.added f x).serverQueue.contains (queueKey (db.time, x)) = true)
  obtain ⟨hqt, hqa⟩ := queueKey_inj hqk
  have hpq : p = q := h'.unique p hmem q hq (hpa.trans hqa.symm)
  have hq0 : q.1 = 0 := hpq ▸ hp0
  exact htime (hqt.symm.trans hq0)

/-- Every state a run goes through is consistent. -/
def ConsistentThroughout (trace : List BinderEvent) : Prop :=
  ∀ past future state, trace = past ++ future → BinderRun past state → Consistent state

/-- Under the ownership discipline the structures are consistent throughout a
run exactly when no new registration meets its address stamped 0 by a clock that
has wrapped and moved on. -/
theorem consistent_throughout_iff {trace : List BinderEvent} {db : BinderDatabase}
    (hrun : BinderRun trace db) (hone : OneOwner (trace.map Prod.fst)) :
    ConsistentThroughout trace ↔
      EachStep BinderDatabase.step StampUsable BinderDatabase.new trace := by
  constructor
  · rintro h past request reply future a rfl hr message s f rfl hf hc hts
    by_contra htime
    obtain ⟨b, hs, -⟩ := hrun.step_at hr
    have hconsistent := h _ _ b (List.append_cons past _ future) (hr.append (.single hs))
    have hadded : a.step (.register message s) = _ := StepCase.step (.added hf hc)
    obtain ⟨-, rfl⟩ := Prod.mk.inj (Option.some.inj (hs.symm.trans hadded))
    exact not_consistent_added (x := ⟨message.serverHostname, message.serverPort, s⟩)
      (h past _ a rfl hr) hts htime hconsistent
  · rintro heach past future state rfl hr
    rw [List.map_append] at hone
    exact BinderRun.consistent hr hone.of_append heach.of_append

theorem consistent_throughout_sample :
    ConsistentThroughout [(.register (sampleRegister 102 80) 1, some (registered 0)),
      (.register (sampleRegister 103 80) 1, some (registered 0))] := by
  obtain ⟨db, hrun, -⟩ : ∃ db, BinderRun [(.register (sampleRegister 102 80) 1,
      some (registered 0)), (.register (sampleRegister 103 80) 1, some (registered 0))] db ∧
      db.time = 3 := Run.of_exec_map (by decide)
  refine (consistent_throughout_iff hrun (.of_fixed_owner (fun _ => 1) (by simp; grind))).mpr ?_
  refine .cons ?_ fun t ht => .cons ?_ fun u _ => .nil _ _ _
  · intro message s f _ _ _ hts
    cases hts
  · intro message s f hm _ _ hts
    obtain ⟨rfl, -⟩ := BinderRequest.register.inj hm
    have hstamp : (BinderDatabase.step .new (.register (sampleRegister 102 80) 1)).map
        (fun r => r.2.timestampOf (sampleAddress 80)) = some (some 1) := by decide
    rw [ht, Option.map_some, Option.some.injEq] at hstamp
    cases hstamp.symm.trans hts

def soloDatabase (t : BitVec 32) : BinderDatabase where
  time := t + 1
  serverQueue := (∅ : ServerQueue).insert (t, ⟨[104], 80, 1⟩)
  serverToTimestamp := OrderedMap.assign ∅ ⟨[104], 80, 1⟩ t
  signatureToServers := OrderedMap.assign ∅ (sampleSignature 102)
    ((∅ : ServerSet).insert ⟨[104], 80, 1⟩)

theorem soloDatabase_touched (t : BitVec 32) :
    (soloDatabase t).touched (sampleSignature 102) (t, ⟨[104], 80, 1⟩) = soloDatabase (t + 1) := by
  have hqueue : ((soloDatabase t).serverQueue.erase (queueKey (t, ⟨[104], 80, 1⟩))).insert
      (t + 1, ⟨[104], 80, 1⟩) = (soloDatabase (t + 1)).serverQueue := by
    have herase : (soloDatabase t).serverQueue.erase (queueKey (t, ⟨[104], 80, 1⟩)) = ∅ := by
      refine OrderedSet.ext_mem fun q => ?_
      simp only [soloDatabase, OrderedSet.mem_erase, OrderedSet.mem_insert,
        OrderedSet.not_mem_empty, false_or, iff_false]
      rintro ⟨⟨rfl, -⟩, hne⟩
      exact hne rfl
    rw [herase]
    rfl
  exact BinderDatabase.mk.injEq .. |>.mpr ⟨rfl, hqueue, rfl, rfl⟩

theorem soloDatabase_locate (t : BitVec 32) :
    (soloDatabase t).step (.locate (sampleLocate 102)) =
      some (some (located (sampleAddress 80)), soloDatabase (t + 1)) := by
  have hf : (sampleLocate 102).signature = some (sampleSignature 102) := by decide
  have hpick : (soloDatabase t).pick (sampleSignature 102) = some (t, ⟨[104], 80, 1⟩) := rfl
  rw [← soloDatabase_touched]
  exact (StepCase.found hf hpick).step

theorem soloDatabase_locates (n : Nat) (t : BitVec 32) :
    Run BinderDatabase.step (soloDatabase t)
      (List.replicate n (.locate (sampleLocate 102), some (located (sampleAddress 80))))
      (soloDatabase (t + BitVec.ofNat 32 n)) := by
  induction n generalizing t with
  | zero => simpa using Run.nil (soloDatabase t)
  | succ n ih =>
    have ht : t + 1 + BitVec.ofNat 32 n = t + BitVec.ofNat 32 (n + 1) := by
      rw [BitVec.add_assoc, BitVec.add_comm 1, BitVec.ofNat_add n 1]
      rfl
    rw [List.replicate_succ, ← ht]
    exact .cons (soloDatabase_locate t) (ih (t + 1))

/-- One server and one client suffice: after 2^32 - 1 locates the server is
stamped 0, and its next registration leaves it in the queue twice. -/
theorem queue_element_duplicated :
    ∃ db, BinderRun ((.register (sampleRegister 102 80) 1, some (registered 0)) ::
        (List.replicate (2 ^ 32 - 1)
            (.locate (sampleLocate 102), some (located (sampleAddress 80))) ++
          [(.register (sampleRegister 103 80) 1, some (registered 0))])) db ∧
      OneOwner (((.register (sampleRegister 102 80) 1, some (registered 0)) ::
        (List.replicate (2 ^ 32 - 1)
            (.locate (sampleLocate 102), some (located (sampleAddress 80))) ++
          [(.register (sampleRegister 103 80) 1, some (registered 0))])).map Prod.fst) ∧
      db.serverQueue.elems = [(0, ⟨[104], 80, 1⟩), (1, ⟨[104], 80, 1⟩)] ∧ ¬ Consistent db := by
  have hfirst : BinderDatabase.new.step (.register (sampleRegister 102 80) 1) =
      some (some (registered 0), soloDatabase 1) := rfl
  have hlocates := soloDatabase_locates (2 ^ 32 - 1) 1
  have hzero : 1 + BitVec.ofNat 32 (2 ^ 32 - 1) = 0 := by decide
  rw [hzero] at hlocates
  have hlast : (soloDatabase 0).step (.register (sampleRegister 103 80) 1) =
      some (some (registered 0), (soloDatabase 0).added (sampleSignature 103) ⟨[104], 80, 1⟩) := rfl
  have hqueue : ((soloDatabase 0).added (sampleSignature 103) ⟨[104], 80, 1⟩).serverQueue.elems =
      [(0, ⟨[104], 80, 1⟩), (1, ⟨[104], 80, 1⟩)] := rfl
  refine ⟨_, .cons hfirst (hlocates.append (.single hlast)), .of_fixed_owner (fun _ => 1) ?_,
    hqueue, fun h => ?_⟩
  · intro message s hmem
    simp only [List.map_cons, List.map_append, List.map_replicate, List.map_nil, List.mem_cons,
      List.mem_append, List.mem_replicate, BinderRequest.register.injEq] at hmem
    grind
  · have hp := h.unique (0, ⟨[104], 80, 1⟩) ?_ (1, ⟨[104], 80, 1⟩) ?_ rfl
    · cases hp
    · rw [OrderedSet.mem_def, hqueue]
      simp
    · rw [OrderedSet.mem_def, hqueue]
      simp

end RpcLibrary
