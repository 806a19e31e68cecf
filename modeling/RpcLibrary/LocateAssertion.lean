import RpcLibrary.BinderRefinement

/-! The assertion that `handleLocate` leaves out: whoever has servers in its set
is found one by the scan of the queue. -/

namespace RpcLibrary

open Runs BinderDatabase

def Queued (queue : ServerQueue) (a : Address) : Prop := ∃ p ∈ queue, p.2.address = a

theorem queued_insert (queue : ServerQueue) (t : BitVec 32) (x : ServerData) :
    Queued (queue.insert (t, x)) x.address := by
  obtain ⟨p, hp, hk⟩ := OrderedSet.contains_iff.mp
    (OrderedSet.contains_insert (s := queue) (x := (t, x)).mpr (.inr rfl))
  exact ⟨p, hp, (queueKey_inj hk).2⟩

theorem Queued.insert {queue : ServerQueue} {a : Address} (h : Queued queue a)
    (p : BitVec 32 × ServerData) : Queued (queue.insert p) a := by
  obtain ⟨q, hq, ha⟩ := h
  exact ⟨q, OrderedSet.mem_insert.mpr (.inl hq), ha⟩

theorem Queued.erase {queue : ServerQueue} {a : Address} (h : Queued queue a) {t : BitVec 32}
    {x : ServerData} (hne : a ≠ x.address) : Queued (queue.erase (queueKey (t, x))) a := by
  obtain ⟨q, hq, rfl⟩ := h
  exact ⟨q, OrderedSet.mem_erase.mpr ⟨hq, fun hk => hne (queueKey_inj hk).2⟩, rfl⟩

theorem Queued.added {db : BinderDatabase} {a : Address} (h : Queued db.serverQueue a)
    (f : Signature) (x : ServerData) : Queued (db.added f x).serverQueue a := by
  by_cases ha : a = x.address
  · exact ha ▸ queued_insert _ db.time x
  · refine Queued.insert ?_ _
    split_ifs
    · exact h.erase ha
    · exact h

theorem Queued.touched {db : BinderDatabase} {a : Address} (h : Queued db.serverQueue a)
    (f : Signature) (p : BitVec 32 × ServerData) : Queued (db.touched f p).serverQueue a := by
  by_cases ha : a = p.2.address
  · exact ha ▸ queued_insert _ db.time p.2
  · exact (h.erase ha).insert _

theorem exists_pick_iff {db : BinderDatabase} {f : Signature} :
    (∃ p, db.pick f = some p) ↔ ∃ x ∈ db.servers f, Queued db.serverQueue x.address := by
  constructor
  · rintro ⟨p, hp⟩
    obtain ⟨hq, hc⟩ := pick_mem hp
    obtain ⟨x, hx, hxa⟩ := OrderedSet.contains_iff.mp hc
    exact ⟨x, hx, p, hq, hxa.symm⟩
  · rintro ⟨x, hx, p, hp, ha⟩
    have hc : (db.servers f).contains p.2.address = true := ha ▸ OrderedSet.contains_of_mem hx
    exact Option.isSome_iff_exists.mp (List.find?_isSome.mpr ⟨p, hp, hc⟩)

def ScanFinds (db : BinderDatabase) : Prop :=
  ∀ f, (db.servers f).isEmpty = false → ∃ p, db.pick f = some p ∧
    ∀ message : LocateRequest, message.signature = some f →
      ∃ db', db.handleLocate message = some (located p.2.address, db')

theorem scanFinds_iff {db : BinderDatabase} :
    ScanFinds db ↔
      ∀ f, ∀ x ∈ db.servers f, ∃ y ∈ db.servers f, Queued db.serverQueue y.address := by
  constructor
  · intro h f x hx
    have hne : (db.servers f).isEmpty = false := by
      rw [← Bool.not_eq_true]
      exact fun he => OrderedSet.isEmpty_iff.mp he x hx
    obtain ⟨p, hp, -⟩ := h f hne
    exact exists_pick_iff.mp ⟨p, hp⟩
  · intro h f hne
    rw [← Bool.not_eq_true, OrderedSet.isEmpty_iff, not_forall] at hne
    obtain ⟨x, hx⟩ := hne
    obtain ⟨p, hp⟩ := exists_pick_iff.mpr (h f x (not_not.mp hx))
    refine ⟨p, hp, fun message hf => ⟨db.touched f p, ?_⟩⟩
    rw [LocateRequest.signature] at hf
    rw [handleLocate, hf, Option.map_some, locateServer_of_some hp]
    rfl

def AllQueued (db : BinderDatabase) : Prop :=
  ∀ f, ∀ x ∈ db.servers f, Queued db.serverQueue x.address

/-- The copies of an address agree on the socket, one of them is in a set, and
those in the sets are queued. -/
structure Settled (db : BinderDatabase) : Prop where
  agree : SocketsAgree db
  stored : ∀ x, Holds db x → ∃ f, x ∈ db.servers f
  queued : AllQueued db

theorem Settled.new : Settled BinderDatabase.new where
  agree x y hx := by rcases hx with ⟨f, hx⟩ | ⟨t, hx⟩ | ⟨t, hx⟩ <;> cases hx
  stored x hx := by rcases hx with ⟨f, hx⟩ | ⟨t, hx⟩ | ⟨t, hx⟩ <;> cases hx
  queued f x hx := by cases hx

theorem Settled.scanFinds {db : BinderDatabase} (h : Settled db) : ScanFinds db :=
  scanFinds_iff.mpr fun f x hx => ⟨x, hx, h.queued f x hx⟩

/-- A registration that stores its address for a function meets no copy of the
address under another socket in the set of any function. -/
def OneSocket (db : BinderDatabase) (request : BinderRequest) : Prop :=
  ∀ message s f, request = .register message s → message.signature = some f →
    (db.servers f).contains message.address = false →
    ∀ g, ∀ x ∈ db.servers g, x.address = message.address → x.serverSocket = s

theorem Settled.eq_registered {db : BinderDatabase} (h : Settled db) {message : Register}
    {s : SocketPtr} {f : Signature} (hone : OneSocket db (.register message s))
    (hf : message.signature = some f) (hc : (db.servers f).contains message.address = false)
    {y : ServerData} (hy : Holds db y) (ha : y.address = message.address) :
    y = ⟨message.serverHostname, message.serverPort, s⟩ := by
  obtain ⟨g, hg⟩ := h.stored y hy
  exact ServerData.eq_of_address ha (hone message s f rfl hf hc g y hg ha)

theorem Settled.added {db : BinderDatabase} (h : Settled db) {message : Register} {s : SocketPtr}
    {f : Signature} (hone : OneSocket db (.register message s)) (hf : message.signature = some f)
    (hc : (db.servers f).contains message.address = false) :
    Settled (db.added f ⟨message.serverHostname, message.serverPort, s⟩) := by
  have hcases {y : ServerData}
      (hy : Holds (db.added f ⟨message.serverHostname, message.serverPort, s⟩) y) :
      Holds db y ∨ y = ⟨message.serverHostname, message.serverPort, s⟩ := by
    rcases Holds.of_step (.added hf hc) hy with ⟨hy, -⟩ | ⟨message', hm, ha⟩
    · exact .inl hy
    · obtain ⟨rfl, hs⟩ := BinderRequest.register.inj hm
      exact .inr (ServerData.eq_of_address ha.symm hs.symm)
  refine ⟨fun x y hx hy ha => ?_, fun x hx => ?_, fun g x hx => ?_⟩
  · rcases hcases hx with hx | rfl
    · rcases hcases hy with hy | rfl
      · exact h.agree x y hx hy ha
      · exact h.eq_registered hone hf hc hx ha
    · rcases hcases hy with hy | rfl
      · exact (h.eq_registered hone hf hc hy ha.symm).symm
      · rfl
  · rcases hcases hx with hx | rfl
    · obtain ⟨g, hg⟩ := h.stored x hx
      exact ⟨g, mem_servers_added.mpr (.inl hg)⟩
    · exact ⟨f, mem_servers_added.mpr (.inr ⟨rfl, rfl, hc⟩)⟩
  · rcases mem_servers_added.mp hx with hx | ⟨rfl, rfl, -⟩
    · exact (h.queued g x hx).added _ _
    · exact queued_insert _ db.time _

/-- Only a registration can bring a second socket for an address. -/
theorem Settled.step {db db' : BinderDatabase} {request : BinderRequest}
    {reply : Option RawMessage} (h : Settled db) (hone : OneSocket db request)
    (hs : StepCase db request reply db') : Settled db' := by
  cases hs with
  | known => exact h
  | added hf hc => exact h.added hone hf hc
  | @notFound message f hf hp =>
    have hcases {y : ServerData} (hy : Holds (db.pruned f) y) : Holds db y := by
      rcases Holds.of_step (.notFound hf hp) hy with ⟨hy, -⟩ | ⟨_, hm, -⟩
      · exact hy
      · cases hm
    refine ⟨fun x y hx hy => h.agree x y (hcases hx) (hcases hy), fun x hx => ?_, fun g x hx => ?_⟩
    · simpa only [servers_pruned] using h.stored x (hcases hx)
    · rw [servers_pruned] at hx
      exact h.queued g x hx
  | @found message f p hf hp =>
    have hcases {y : ServerData} (hy : Holds (db.touched f p) y) : Holds db y := by
      rcases Holds.of_step (.found hf hp) hy with ⟨hy, -⟩ | ⟨_, hm, -⟩
      · exact hy
      · cases hm
    refine ⟨fun x y hx hy => h.agree x y (hcases hx) (hcases hy), fun x hx => ?_, fun g x hx => ?_⟩
    · simpa only [servers_touched] using h.stored x (hcases hx)
    · rw [servers_touched] at hx
      exact (h.queued g x hx).touched f p
  | @removed s =>
    have hcases {y : ServerData} (hy : Holds (db.removeIfServer s) y) :
        Holds db y ∧ y.serverSocket ≠ s := by
      rcases Holds.of_step .removed hy with ⟨hy, hne⟩ | ⟨_, hm, -⟩
      · exact ⟨hy, fun he => hne (he ▸ rfl)⟩
      · cases hm
    refine ⟨fun x y hx hy => h.agree x y (hcases hx).1 (hcases hy).1, fun x hx => ?_,
      fun g x hx => ?_⟩
    · obtain ⟨hx, hxs⟩ := hcases hx
      obtain ⟨g, hg⟩ := h.stored x hx
      exact ⟨g, mem_servers_removeIfServer.mpr ⟨hg, hxs⟩⟩
    · obtain ⟨hx, hxs⟩ := mem_servers_removeIfServer.mp hx
      obtain ⟨p, hp, ha⟩ := h.queued g x hx
      obtain rfl := h.agree _ _ (.of_queue hp) (.of_servers hx) ha
      exact ⟨p, OrderedSet.mem_filter.mpr ⟨hp, decide_eq_true hxs⟩, rfl⟩

theorem BinderRun.settled {past : List BinderEvent} {db : BinderDatabase}
    (hrun : BinderRun past db)
    (hone : EachStep BinderDatabase.step OneSocket BinderDatabase.new past) : Settled db :=
  hrun.history_of_each (P := fun _ db => Settled db) hone .new
    fun _ _ _ _ _ _ hp ho hs => hp.step ho (step_cases hs)

/-- The scan finds a server wherever there is one, throughout every run in which
no address comes to be stored under two sockets. -/
theorem scan_finds {trace : List BinderEvent}
    (hone : EachStep BinderDatabase.step OneSocket BinderDatabase.new trace) :
    Throughout BinderDatabase.step ScanFinds BinderDatabase.new trace := by
  rintro past future db rfl hrun
  exact (BinderRun.settled hrun hone.of_append).scanFinds

/-- Where every address has one owner, as `rpcRegister` has it, every step meets the condition. -/
theorem OneOwner.oneSocket {trace : List BinderEvent} (hone : OneOwner (trace.map Prod.fst)) :
    EachStep BinderDatabase.step OneSocket BinderDatabase.new trace := by
  rintro past request reply future db rfl hrun message s f rfl - - g x hx ha
  rw [List.map_append, List.map_cons, List.append_cons] at hone
  exact congrArg _ (BinderRun.holds_eq_registered hrun hone.of_append (.of_servers hx) ha)

/-- Two servers, each under its own address, and the first one leaves. -/
theorem scan_finds_sample :
    Throughout BinderDatabase.step ScanFinds BinderDatabase.new
      [(.register (sampleRegister 102 80) 1, some (registered 0)),
        (.register (sampleRegister 102 81) 2, some (registered 0)), (.remove 1, none)] := by
  exact scan_finds (OneOwner.oneSocket (.of_two_servers (by simp)))

/-- Two servers register one address for different functions, and the second one
leaves: the first one stays in the set of its function, but nobody finds it. -/
theorem scan_finds_nothing :
    ∃ db, BinderRun [(.register (sampleRegister 102 80) 1, some (registered 0)),
        (.register (sampleRegister 103 80) 2, some (registered 0)), (.remove 2, none)] db ∧
      (db.servers (sampleSignature 102)).isEmpty = false ∧
      (db.handleLocate (sampleLocate 102)).map Prod.fst = some notLocated ∧ ¬ ScanFinds db := by
  refine (Run.of_exec_map (f := fun db => ((db.servers (sampleSignature 102)).isEmpty,
    (db.handleLocate (sampleLocate 102)).map Prod.fst, (db.pick (sampleSignature 102)).isSome))
    (a := (false, some notLocated, false)) (by decide)).imp fun db hdb => ⟨hdb.1, ?_⟩
  obtain ⟨hempty, hrest⟩ := Prod.mk.inj hdb.2
  obtain ⟨hlocate, hpick⟩ := Prod.mk.inj hrest
  refine ⟨hempty, hlocate, fun hfinds => ?_⟩
  obtain ⟨p, hp, -⟩ := hfinds _ hempty
  rw [hp] at hpick
  cases hpick

theorem BinderRun.coupled_of_oneSocket {past : List BinderEvent} {db : BinderDatabase}
    (hrun : BinderRun past db)
    (hone : EachStep BinderDatabase.step OneSocket BinderDatabase.new past)
    (hticks : ticks past ≤ 2 ^ 32 - 1) : ∃ ref, Coupled (ticks past) db ref := by
  revert hticks
  refine (hrun.history_of_each (P := fun past db => Settled db ∧
    (ticks past ≤ 2 ^ 32 - 1 → ∃ ref, Coupled (ticks past) db ref)) hone
    ⟨.new, fun _ => ⟨_, .new⟩⟩ ?_).2
  rintro past a request reply b - ⟨hsettled, ih⟩ ho hs
  have hcase := step_cases hs
  refine ⟨hsettled.step ho hcase, fun hticks => ?_⟩
  rw [ticks_append_singleton] at hticks ⊢
  obtain ⟨ref, href⟩ := ih (by omega)
  have hstep (hown : ∀ message s, request = .register message s → ∀ y, Holds a y →
      y.address = message.address → y = ⟨message.serverHostname, message.serverPort, s⟩) :
      ∃ ref, Coupled (ticks past + tickCount (request, reply)) b ref := by
    obtain ⟨ref', -, href'⟩ := href.step hown hticks hcase
    exact ⟨ref', href'⟩
  cases hcase with
  | known => exact ⟨ref, href⟩
  | added hf hc =>
    refine hstep fun message s hm y hy ha => ?_
    obtain ⟨rfl, rfl⟩ := BinderRequest.register.inj hm
    exact hsettled.eq_registered ho hf hc hy ha
  | notFound => exact hstep fun _ _ hm => by cases hm
  | found => exact hstep fun _ _ hm => by cases hm
  | removed => exact hstep fun _ _ hm => by cases hm

/-- The queue element of an address passes to the socket that registers it. -/
theorem Coupled.queue_added {n : Nat} {db : BinderDatabase} {ref : Reference}
    (h : Coupled n db ref) {f : Signature} {x : ServerData} {q : BitVec 32 × ServerData}
    (hq : q ∈ (db.added f x).serverQueue) (ha : q.2.address = x.address) : q.2 = x := by
  have hget : db.serverToTimestamp.get? x = db.timestampOf x.address := rfl
  simp only [BinderDatabase.added, hget] at hq
  rcases OrderedSet.mem_insert.mp hq with hq | ⟨rfl, -⟩
  · exfalso
    cases ht : db.timestampOf x.address with
    | none =>
      simp only [ht, Option.getD_none, gt_iff_lt, BitVec.lt_irrefl, if_false] at hq
      exact h.consistent.absent_of_timestamp ht q hq ha
    | some t =>
      obtain ⟨p, hp, hpa, hpt⟩ := h.consistent.queued _ (h.consistent.offered_of_timestamp ht)
      obtain rfl : t = p.1 := Option.some.inj (ht.symm.trans hpt)
      have hpos : p.1 > 0 := (h.stamped p hp).1
      rw [ht, Option.getD_some, if_pos hpos] at hq
      obtain ⟨hq, hne⟩ := OrderedSet.mem_erase.mp hq
      obtain rfl := h.consistent.unique q hq p hp (ha.trans hpa.symm)
      exact hne (congrArg (fun a => toLex (q.1.toNat, a)) ha)
  · rfl

def removals (sockets : List SocketPtr) : List BinderEvent := sockets.map fun s => (.remove s, none)

theorem run_removals (db : BinderDatabase) (sockets : List SocketPtr) :
    ∃ db', Run BinderDatabase.step db (removals sockets) db' ∧
      (∀ f x, x ∈ db'.servers f ↔ x ∈ db.servers f ∧ x.serverSocket ∉ sockets) ∧
      ∀ p, p ∈ db'.serverQueue ↔ p ∈ db.serverQueue ∧ p.2.serverSocket ∉ sockets := by
  induction sockets generalizing db with
  | nil => exact ⟨db, .nil db, by simp, by simp⟩
  | cons s sockets ih =>
    obtain ⟨db', hrun, hservers, hqueue⟩ := ih (db.removeIfServer s)
    refine ⟨db', .cons StepCase.removed.step hrun, fun f x => ?_, fun p => ?_⟩
    · rw [hservers, mem_servers_removeIfServer, List.mem_cons, not_or, and_assoc]
    · have hfilter : p ∈ (db.removeIfServer s).serverQueue ↔
          p ∈ db.serverQueue ∧ p.2.serverSocket ≠ s := by
        rw [← decide_eq_true_iff (p := p.2.serverSocket ≠ s)]
        exact OrderedSet.mem_filter
      rw [hqueue, hfilter, List.mem_cons, not_or, and_assoc]

/-- The condition is exact: after a registration that breaks it, the removal of the
new socket and of the others in the set leaves the copy that the registration met in
its set, but no longer in the queue. Where its socket has no other address in the
set, the scan then finds nothing. -/
theorem scan_passes_over {past : List BinderEvent} {db : BinderDatabase} {request : BinderRequest}
    (hrun : BinderRun past db)
    (hone : EachStep BinderDatabase.step OneSocket BinderDatabase.new past)
    (hticks : ticks past ≤ 2 ^ 32 - 1) (hbreak : ¬ OneSocket db request) :
    ∃ g x sockets db', x ∈ db.servers g ∧ x.serverSocket ∉ sockets ∧
      BinderRun (past ++ (request, some (registered 0)) :: removals sockets) db' ∧
      x ∈ db'.servers g ∧ ¬ Queued db'.serverQueue x.address ∧
      ((∀ y ∈ db.servers g, y.serverSocket = x.serverSocket → y = x) → ¬ ScanFinds db') := by
  obtain ⟨ref, hcoupled⟩ := hrun.coupled_of_oneSocket hone hticks
  simp only [OneSocket, not_forall] at hbreak
  obtain ⟨message, s, f, rfl, hf, hc, g, x, hx, hxa, hne⟩ := hbreak
  let others := ((db.servers g).elems.map ServerData.serverSocket).filter (· ≠ x.serverSocket)
  obtain ⟨db', hremovals, hservers, hqueue⟩ :=
    run_removals (db.added f ⟨message.serverHostname, message.serverPort, s⟩) (s :: others)
  have hkept : x.serverSocket ∉ s :: others := by simp [others, hne]
  have hqueued : ¬ Queued db'.serverQueue x.address := by
    rintro ⟨p, hp, ha⟩
    obtain ⟨hp, hps⟩ := (hqueue p).mp hp
    rw [hcoupled.queue_added hp (ha.trans hxa)] at hps
    exact hps List.mem_cons_self
  have hstays : x ∈ db'.servers g := (hservers g x).mpr ⟨mem_servers_added.mpr (.inl hx), hkept⟩
  refine ⟨g, x, s :: others, db', hx, hkept,
    hrun.append (.cons (StepCase.added hf hc).step hremovals), hstays, hqueued, ?_⟩
  intro honly hfinds
  obtain ⟨y, hy, hyq⟩ := scanFinds_iff.mp hfinds g x hstays
  obtain ⟨hy, hys⟩ := (hservers g y).mp hy
  rw [List.mem_cons, not_or] at hys
  rcases mem_servers_added.mp hy with hy | ⟨rfl, -⟩
  · have hsocket : y.serverSocket = x.serverSocket := by
      by_contra hother
      exact hys.2 (List.mem_filter.mpr ⟨List.mem_map_of_mem hy, decide_eq_true hother⟩)
    exact hqueued (honly y hy hsocket ▸ hyq)
  · exact hys.1 rfl

end RpcLibrary
