import RpcLibrary.QueueConsistency
import RpcLibrary.ReferenceBinder

/-! The database refines the reference binder as long as its clock has not
wrapped: the order of the timestamps is then the order of activity. -/

namespace RpcLibrary

open Runs LeastRecent BinderDatabase

def queueAddresses (queue : ServerQueue) : List Address := queue.elems.map (fun p => p.2.address)

/-- The database after `n` ticks of its clock, beside the reference. -/
structure Coupled (n : Nat) (db : BinderDatabase) (ref : Reference) : Prop where
  consistent : Consistent db
  time : db.time = BitVec.ofNat 32 (n + 1)
  stamped : ∀ p ∈ db.serverQueue, 1 ≤ p.1.toNat ∧ p.1.toNat ≤ n
  order : queueAddresses db.serverQueue = ref.order
  registrations : ∀ f a, (f, a) ∈ ref.registrations ↔ (db.servers f).contains a = true
  owner : ∀ x, Holds db x → ref.owner x.address = some x.serverSocket

theorem Coupled.new : Coupled 0 BinderDatabase.new Reference.new where
  consistent := .new
  time := rfl
  stamped p hp := absurd hp (OrderedSet.not_mem_empty p)
  order := rfl
  registrations f a := by simp [Reference.new, OrderedSet.contains]
  owner x hx := by
    rcases hx with ⟨f, hx⟩ | ⟨t, hx⟩ | ⟨t, hx⟩ <;> cases hx

theorem Coupled.socketsAgree {n : Nat} {db : BinderDatabase} {ref : Reference}
    (h : Coupled n db ref) : SocketsAgree db := by
  intro x y hx hy ha
  have hs := (h.owner x hx).symm.trans (ha ▸ h.owner y hy)
  exact ServerData.eq_of_address ha (Option.some.inj hs)

theorem Restamped.queueAddresses {db db' : BinderDatabase} {x : ServerData} {t : BitVec 32}
    (h : Restamped db db' x t) (ht : ∀ p ∈ db.serverQueue, p.1.toNat < t.toNat) :
    queueAddresses db'.serverQueue = touch (queueAddresses db.serverQueue) x.address := by
  have hrest : ∀ q ∈ db.serverQueue.filter (fun p => p.2.address ≠ x.address),
      q ∈ db.serverQueue ∧ q.2.address ≠ x.address := by
    intro q hq
    simpa using OrderedSet.mem_filter.mp hq
  have hqueue : db'.serverQueue =
      (db.serverQueue.filter (fun p => p.2.address ≠ x.address)).insert (t, x) := by
    refine OrderedSet.ext_mem fun q => ?_
    rw [h.queue, mem_insert_of_absent fun q hq => (hrest q hq).2, OrderedSet.mem_filter]
    simp
  have hlt : ∀ q ∈ db.serverQueue.filter (fun p => p.2.address ≠ x.address),
      queueKey q < queueKey (t, x) :=
    fun q hq => Prod.Lex.toLex_lt_toLex.mpr (.inl (ht q (hrest q hq).1))
  rw [RpcLibrary.queueAddresses, hqueue, OrderedSet.elems_insert_of_lt hlt, List.map_append, touch,
    RpcLibrary.queueAddresses, List.filter_map]
  rfl

theorem Coupled.find?_order {n : Nat} {db : BinderDatabase} {ref : Reference}
    (h : Coupled n db ref) (f : Signature) :
    ref.order.find? (ref.offers f) = (db.pick f).map (fun p => p.2.address) := by
  have ho : ref.offers f = (db.servers f).contains := by
    funext a
    rw [Bool.eq_iff_iff, ← h.registrations f a, Reference.offers, decide_eq_true_iff]
  rw [← h.order, queueAddresses, List.find?_map, ho]
  rfl

theorem Coupled.restamped {n : Nat} {db db' : BinderDatabase} {ref ref' : Reference}
    {x : ServerData} (h : Coupled n db ref) (hn : n + 1 ≤ 2 ^ 32 - 1)
    (hr : Restamped db db' x db.time) (htime : db'.time = db.time + 1)
    (horder : ref'.order = touch ref.order x.address)
    (hregistrations : ∀ f a, (f, a) ∈ ref'.registrations ↔ (db'.servers f).contains a = true)
    (howner : ∀ y, Holds db' y → ref'.owner y.address = some y.serverSocket) :
    Coupled (n + 1) db' ref' := by
  have hnow : db.time.toNat = n + 1 := by
    rw [h.time, BitVec.toNat_ofNat, Nat.mod_eq_of_lt (by omega)]
  refine ⟨h.consistent.restamped hr, ?_, ?_, ?_, hregistrations, howner⟩
  · rw [htime, h.time, BitVec.ofNat_add (n + 1) 1]
    rfl
  · intro p hp
    rcases (hr.queue p).mp hp with ⟨hp, -⟩ | rfl
    · have := h.stamped p hp
      omega
    · simp only [hnow]
      omega
  · rw [horder, ← h.order]
    refine hr.queueAddresses fun p hp => ?_
    have := h.stamped p hp
    omega

theorem Coupled.stampUsable {n : Nat} {db : BinderDatabase} {ref : Reference}
    (h : Coupled n db ref) (request : BinderRequest) : StampUsable db request := by
  intro message s f _ _ _ ht
  obtain ⟨p, hp, -, hpt⟩ := h.consistent.queued _ (h.consistent.offered_of_timestamp ht)
  obtain ⟨hpos, -⟩ := h.stamped p hp
  rw [Option.some.inj (hpt.symm.trans ht)] at hpos
  cases hpos

theorem Coupled.added {n : Nat} {db : BinderDatabase} {ref : Reference} {message : Register}
    {s : SocketPtr} {f : Signature} (h : Coupled n db ref) (hn : n + 1 ≤ 2 ^ 32 - 1)
    (hown : ∀ y, Holds db y → y.address = message.address →
      y = ⟨message.serverHostname, message.serverPort, s⟩)
    (hf : message.signature = some f) (hc : (db.servers f).contains message.address = false) :
    Coupled (n + 1) (db.added f ⟨message.serverHostname, message.serverPort, s⟩)
      (ref.register f message.address s).2 := by
  have hstamp := h.stampUsable (.register message s) message s f rfl hf hc
  have hnew : (f, message.address) ∉ ref.registrations := by
    rw [h.registrations, hc]
    exact Bool.false_ne_true
  rw [Reference.register_of_new s hnew]
  refine h.restamped hn (h.consistent.restamped_added hown hstamp) rfl rfl ?_ ?_
  · intro g a
    rw [Finset.mem_insert, h.registrations, Prod.mk.injEq, contains_servers_added, or_comm,
      eq_comm (a := a)]
    rfl
  · intro y hy
    rcases Holds.of_step (StepCase.added hf hc) hy with ⟨hy, -⟩ | ⟨message', hm, ha⟩
    · by_cases ha : y.address = message.address
      · rw [ha, hown y hy ha]
        exact Function.update_self ..
      · exact (Function.update_of_ne ha _ _).trans (h.owner y hy)
    · obtain ⟨rfl, hs⟩ := BinderRequest.register.inj hm
      rw [← ha, ← hs]
      exact Function.update_self ..

theorem Coupled.found {n : Nat} {db : BinderDatabase} {ref : Reference} {message : LocateRequest}
    {f : Signature} {p : BitVec 32 × ServerData} (h : Coupled n db ref)
    (hf : message.signature = some f) (hp : db.pick f = some p) :
    ref.locate f = (.locateSuccess p.2.address, (ref.locate f).2) ∧
      (n + 1 ≤ 2 ^ 32 - 1 → Coupled (n + 1) (db.touched f p) (ref.locate f).2) := by
  have hfind := h.find?_order f
  rw [hp, Option.map_some] at hfind
  rw [Reference.locate_of_some hfind]
  refine ⟨rfl, fun hn => ?_⟩
  refine h.restamped hn (h.consistent.restamped_touched hp) rfl rfl ?_ ?_
  · intro g a
    rw [servers_touched]
    exact h.registrations g a
  · intro y hy
    rcases Holds.of_step (StepCase.found hf hp) hy with ⟨hy, -⟩ | ⟨_, hm, -⟩
    · exact h.owner y hy
    · cases hm

theorem Coupled.notFound {n : Nat} {db : BinderDatabase} {ref : Reference}
    {message : LocateRequest} {f : Signature} (h : Coupled n db ref)
    (hf : message.signature = some f) (hp : db.pick f = none) :
    ref.locate f = (.locateFailure, ref) ∧ Coupled n (db.pruned f) ref := by
  have hfind := h.find?_order f
  rw [hp, Option.map_none] at hfind
  refine ⟨Reference.locate_of_none hfind, ?_⟩
  have hconsistent := h.consistent.step h.socketsAgree (fun _ _ hm => by cases hm)
    (h.stampUsable (.locate message)) (.notFound hf hp)
  refine ⟨hconsistent, h.time, h.stamped, h.order, fun g a => ?_, fun y hy => ?_⟩
  · rw [servers_pruned]
    exact h.registrations g a
  · rcases Holds.of_step (StepCase.notFound hf hp) hy with ⟨hy, -⟩ | ⟨_, hm, -⟩
    · exact h.owner y hy
    · cases hm

theorem Coupled.removed {n : Nat} {db : BinderDatabase} {ref : Reference} (h : Coupled n db ref)
    (s : SocketPtr) : Coupled n (db.removeIfServer s) (ref.remove s) := by
  have howner {x : ServerData} (hx : Holds db x) :
      ref.owner x.address ≠ some s ↔ x.serverSocket ≠ s := by
    rw [h.owner x hx, ne_eq, Option.some.injEq]
  constructor
  · exact h.consistent.removeIfServer h.socketsAgree s
  · exact h.time
  · exact fun p hp => h.stamped p (OrderedSet.mem_filter.mp hp).1
  · change _ = ref.order.filter (fun a => ref.owner a ≠ some s)
    rw [← h.order, queueAddresses, queueAddresses, List.filter_map]
    refine congrArg _ (List.filter_congr fun p hp => ?_)
    exact decide_eq_decide.mpr (howner (.of_queue hp)).symm
  · intro f a
    rw [Reference.remove, Finset.mem_filter, h.registrations]
    constructor
    · rintro ⟨hc, ha⟩
      obtain ⟨x, hx, rfl⟩ := OrderedSet.contains_iff.mp hc
      exact OrderedSet.contains_of_mem
        (mem_servers_removeIfServer.mpr ⟨hx, (howner (.of_servers hx)).mp ha⟩)
    · intro hc
      obtain ⟨x, hx, rfl⟩ := OrderedSet.contains_iff.mp hc
      obtain ⟨hx, hxs⟩ := mem_servers_removeIfServer.mp hx
      exact ⟨OrderedSet.contains_of_mem hx, (howner (.of_servers hx)).mpr hxs⟩
  · intro x hx
    rcases Holds.of_step StepCase.removed hx with ⟨hx, hne⟩ | ⟨_, hm, -⟩
    · have hxs : x.serverSocket ≠ s := fun he => hne (he ▸ rfl)
      exact (if_neg ((howner hx).mpr hxs)).trans (h.owner x hx)
    · cases hm

def tickCount (e : BinderEvent) : Nat := if isTick e then 1 else 0

theorem ticks_append_singleton (trace : List BinderEvent) (e : BinderEvent) :
    ticks (trace ++ [e]) = ticks trace + tickCount e := by
  rw [ticks, List.countP_append, List.countP_singleton]
  rfl

/-- The answers agree whatever the clock shows; the states agree after the
call as long as it has not wrapped. -/
theorem Coupled.answers {n : Nat} {db db' : BinderDatabase} {ref : Reference}
    {request : BinderRequest} {reply : Option RawMessage} (h : Coupled n db ref)
    (hown : ∀ message s, request = .register message s → ∀ y, Holds db y →
      y.address = message.address → y = ⟨message.serverHostname, message.serverPort, s⟩)
    (hs : StepCase db request reply db') :
    ∃ ref', ref.step request = some (reply, ref') ∧
      (n + tickCount (request, reply) ≤ 2 ^ 32 - 1 →
        Coupled (n + tickCount (request, reply)) db' ref') := by
  cases hs with
  | @known message s f hf hc =>
    have hr := Reference.register_of_known s ((h.registrations f message.address).mpr hc)
    refine ⟨ref, ?_, fun _ => h⟩
    simp only [Reference.step, hf, Option.map_some, hr]
    rfl
  | @added message s f hf hc =>
    have hnew : (f, message.address) ∉ ref.registrations := by
      rw [h.registrations, hc]
      exact Bool.false_ne_true
    refine ⟨_, ?_, fun hn => h.added hn (hown message s rfl) hf hc⟩
    simp only [Reference.step, hf, Option.map_some, Reference.register_of_new s hnew]
    rfl
  | @notFound message f hf hp =>
    obtain ⟨hl, hcoupled⟩ := h.notFound hf hp
    refine ⟨ref, ?_, fun _ => hcoupled⟩
    simp only [Reference.step, hf, Option.map_some, hl]
    rfl
  | @found message f p hf hp =>
    obtain ⟨hl, hcoupled⟩ := h.found hf hp
    refine ⟨(ref.locate f).2, ?_, hcoupled⟩
    rw [Reference.step, hf, Option.map_some, hl]
    rfl
  | @removed s => exact ⟨ref.remove s, rfl, fun _ => h.removed s⟩

theorem Coupled.step {n : Nat} {db db' : BinderDatabase} {ref : Reference}
    {request : BinderRequest} {reply : Option RawMessage} (h : Coupled n db ref)
    (hown : ∀ message s, request = .register message s → ∀ y, Holds db y →
      y.address = message.address → y = ⟨message.serverHostname, message.serverPort, s⟩)
    (hn : n + tickCount (request, reply) ≤ 2 ^ 32 - 1) (hs : StepCase db request reply db') :
    ∃ ref', ref.step request = some (reply, ref') ∧
      Coupled (n + tickCount (request, reply)) db' ref' := by
  obtain ⟨ref', hr, hcoupled⟩ := h.answers hown hs
  exact ⟨ref', hr, hcoupled hn⟩

theorem BinderRun.coupled {trace : List BinderEvent} {db : BinderDatabase}
    (hrun : BinderRun trace db) (hone : OneOwner (trace.map Prod.fst))
    (hticks : ticks trace ≤ 2 ^ 32 - 1) :
    ∃ ref, Run Reference.step Reference.new trace ref ∧ Coupled (ticks trace) db ref := by
  revert hone hticks
  refine hrun.history (P := fun past db => OneOwner (past.map Prod.fst) →
    ticks past ≤ 2 ^ 32 - 1 → ∃ ref, Run Reference.step Reference.new past ref ∧
      Coupled (ticks past) db ref) (fun _ _ => ⟨_, .nil _, .new⟩) ?_
  intro past a request reply b hr ih hs hone hticks
  rw [ticks_append_singleton] at hticks ⊢
  rw [List.map_append] at hone
  obtain ⟨ref, href, hcoupled⟩ := ih hone.of_append (by omega)
  have hown : ∀ message s, request = .register message s → ∀ y, Holds a y →
      y.address = message.address → y = ⟨message.serverHostname, message.serverPort, s⟩ := by
    rintro message s rfl y hy hya
    exact BinderRun.holds_eq_registered hr hone hy hya
  obtain ⟨ref', hstep, hcoupled'⟩ := hcoupled.step hown hticks (step_cases hs)
  exact ⟨ref', href.append (.single hstep), hcoupled'⟩

/-- The binder answers every sequence of calls as the reference does, and the
two agree on the order of the servers and on who is registered for what. -/
theorem binder_refines_reference {trace : List BinderEvent} {db : BinderDatabase}
    (hrun : BinderRun trace db) (hone : OneOwner (trace.map Prod.fst))
    (hticks : ticks trace ≤ 2 ^ 32 - 1) :
    ∃ ref, Run Reference.step Reference.new trace ref ∧
      ref.order = queueAddresses db.serverQueue ∧
      ∀ f a, (f, a) ∈ ref.registrations ↔ (db.servers f).contains a = true := by
  obtain ⟨ref, href, hcoupled⟩ := BinderRun.coupled hrun hone hticks
  exact ⟨ref, href, hcoupled.order.symm, hcoupled.registrations⟩

theorem binder_refines_reference_sample :
    ∃ ref, Run Reference.step Reference.new
        [(.register (sampleRegister 102 80) 1, some (registered 0)),
          (.register (sampleRegister 102 81) 2, some (registered 0)),
          (.locate (sampleLocate 102), some (located (sampleAddress 80))),
          (.remove 2, none)] ref ∧ ref.order = [sampleAddress 80] := by
  obtain ⟨db, hrun, hq⟩ : ∃ db, BinderRun [(.register (sampleRegister 102 80) 1,
      some (registered 0)), (.register (sampleRegister 102 81) 2, some (registered 0)),
      (.locate (sampleLocate 102), some (located (sampleAddress 80))), (.remove 2, none)] db ∧
      queueAddresses db.serverQueue = [sampleAddress 80] := Run.of_exec_map (by decide)
  have hone : OneOwner [.register (sampleRegister 102 80) 1, .register (sampleRegister 102 81) 2,
      .locate (sampleLocate 102), .remove 2] := .of_two_servers (by simp)
  obtain ⟨ref, href, horder, -⟩ := binder_refines_reference hrun hone (by decide)
  exact ⟨ref, href, horder.trans hq⟩

end RpcLibrary
