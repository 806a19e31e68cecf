import RpcLibrary.BinderRefinement

/-! What a server that leaves takes with it. On the reference a run without one
server ends in the state that removing this server from the whole run leaves. -/

namespace RpcLibrary

open Runs LeastRecent BinderDatabase

attribute [ext] Reference

namespace Reference

structure Owned (ref : Reference) : Prop where
  owner : ∀ a, a ∈ ref.order ↔ ∃ s, ref.owner a = some s
  order : ∀ f a, (f, a) ∈ ref.registrations → a ∈ ref.order

theorem Owned.new : Owned Reference.new where
  owner a := by simp [Reference.new]
  order f a h := by simp [Reference.new] at h

theorem Owned.register {ref : Reference} (h : Owned ref) (f : Signature) (a : Address)
    (s : SocketPtr) : Owned (ref.register f a s).2 := by
  rw [Reference.register]
  split_ifs with hr
  · exact h
  constructor
  · intro b
    rw [mem_touch, h.owner b]
    by_cases hb : b = a
    · subst hb
      exact iff_of_true (.inr rfl) ⟨s, Function.update_self ..⟩
    · simp only [hb, or_false, Function.update_of_ne hb]
  · intro g b hb
    rw [mem_touch]
    rcases Finset.mem_insert.mp hb with he | hb
    · exact .inr (Prod.mk.inj he).2
    · exact .inl (h.order g b hb)

theorem Owned.locate {ref : Reference} (h : Owned ref) (f : Signature) :
    Owned (ref.locate f).2 := by
  rw [Reference.locate]
  cases hf : ref.order.find? (ref.offers f) with
  | none => exact h
  | some a =>
    have hmem : ∀ b, b ∈ touch ref.order a ↔ b ∈ ref.order := fun b =>
      mem_touch.trans (or_iff_left_of_imp fun hb => hb ▸ List.mem_of_find?_eq_some hf)
    exact ⟨fun b => (hmem b).trans (h.owner b), fun g b hb => (hmem b).mpr (h.order g b hb)⟩

theorem Owned.remove {ref : Reference} (h : Owned ref) (s : SocketPtr) :
    Owned (ref.remove s) := by
  constructor
  · intro a
    simp only [Reference.remove, List.mem_filter, h.owner a, decide_eq_true_eq]
    constructor
    · rintro ⟨⟨t, ht⟩, hs⟩
      exact ⟨t, by rw [if_neg hs, ht]⟩
    · rintro ⟨t, ht⟩
      split_ifs at ht with hs
      exact ⟨⟨t, ht⟩, hs⟩
  · intro f a ha
    obtain ⟨ha, hs⟩ := Finset.mem_filter.mp ha
    exact List.mem_filter.mpr ⟨h.order f a ha, decide_eq_true hs⟩

theorem Owned.step {ref ref' : Reference} {request : BinderRequest} {reply : Option RawMessage}
    (h : Owned ref) (hs : ref.step request = some (reply, ref')) : Owned ref' := by
  cases request with
  | register message s =>
    obtain ⟨f, -, hr⟩ := Option.map_eq_some_iff.mp hs
    obtain ⟨-, rfl⟩ := Prod.mk.inj hr
    exact h.register f message.address s
  | locate message =>
    obtain ⟨f, -, hr⟩ := Option.map_eq_some_iff.mp hs
    obtain ⟨-, rfl⟩ := Prod.mk.inj hr
    exact h.locate f
  | remove s =>
    obtain ⟨-, rfl⟩ := Prod.mk.inj (Option.some.inj hs)
    exact h.remove s

theorem remove_remove_self (ref : Reference) (s : SocketPtr) :
    (ref.remove s).remove s = ref.remove s := by
  have howner (a : Address) : (ref.remove s).owner a ≠ some s := by
    change (if ref.owner a = some s then none else ref.owner a) ≠ some s
    split_ifs with h
    · simp
    · exact h
  ext1
  · exact List.filter_eq_self.mpr fun a _ => decide_eq_true (howner a)
  · exact Finset.filter_true_of_mem fun r _ => howner r.2
  · funext a
    exact if_neg (howner a)

theorem remove_remove_comm (ref : Reference) (s t : SocketPtr) :
    (ref.remove s).remove t = (ref.remove t).remove s := by
  have hkept (a : Address) (s t : SocketPtr) :
      (ref.owner a ≠ some s ∧ (ref.remove s).owner a ≠ some t) ↔
        (ref.owner a ≠ some s ∧ ref.owner a ≠ some t) := by
    refine and_congr_right fun h => ?_
    change (if ref.owner a = some s then none else ref.owner a) ≠ some t ↔ _
    rw [if_neg h]
  have hswap (a : Address) : (ref.owner a ≠ some s ∧ (ref.remove s).owner a ≠ some t) ↔
      (ref.owner a ≠ some t ∧ (ref.remove t).owner a ≠ some s) :=
    (hkept a s t).trans (and_comm.trans (hkept a t s).symm)
  ext1
  · change (ref.order.filter _).filter _ = (ref.order.filter _).filter _
    rw [List.filter_filter, List.filter_filter]
    refine List.filter_congr fun a _ => ?_
    rw [← Bool.decide_and, ← Bool.decide_and]
    exact decide_eq_decide.mpr (and_comm.trans ((hswap a).trans and_comm))
  · change (ref.registrations.filter _).filter _ = (ref.registrations.filter _).filter _
    rw [Finset.filter_filter, Finset.filter_filter]
    exact Finset.filter_congr fun r _ => hswap r.2
  · funext a
    simp only [Reference.remove]
    split_ifs <;> simp_all

theorem remove_register_self {ref : Reference} {f : Signature} {a : Address} {s : SocketPtr}
    (h : Owned ref) (howner : ∀ t, ref.owner a = some t → t = s) :
    (ref.register f a s).2.remove s = ref.remove s := by
  by_cases hr : (f, a) ∈ ref.registrations
  · rw [register_of_known s hr]
  have hkept (b : Address) (hb : b ∈ ref.order) :
      Function.update ref.owner a (some s) b ≠ some s ↔ ref.owner b ≠ some s := by
    by_cases hba : b = a
    · subst hba
      obtain ⟨t, ht⟩ := (h.owner b).mp hb
      obtain rfl := howner t ht
      rw [Function.update_self, ht]
    · rw [Function.update_of_ne hba]
  rw [register_of_new s hr]
  ext1
  · change (touch ref.order a).filter _ = ref.order.filter _
    rw [filter_touch_of_neg (by simp)]
    exact List.filter_congr fun b hb => decide_eq_decide.mpr (hkept b hb)
  · change (insert (f, a) ref.registrations).filter _ = ref.registrations.filter _
    rw [Finset.filter_insert, if_neg (by simp)]
    exact Finset.filter_congr fun r hr => hkept r.2 (h.order r.1 r.2 hr)
  · funext b
    simp only [Reference.remove]
    by_cases hba : b = a
    · subst hba
      cases ho : ref.owner b with
      | none => simp
      | some t => simp [howner t ho]
    · rw [Function.update_of_ne hba]

theorem register_remove {ref : Reference} {f : Signature} {a : Address} {s t : SocketPtr}
    (hst : t ≠ s) (howner : ∀ u, ref.owner a = some u → u = t) :
    (ref.remove s).register f a t =
      ((ref.register f a t).1, (ref.register f a t).2.remove s) := by
  have ha : ref.owner a ≠ some s := fun ha => hst (howner s ha).symm
  have hmem : (f, a) ∈ (ref.remove s).registrations ↔ (f, a) ∈ ref.registrations :=
    Finset.mem_filter.trans (and_iff_left ha)
  have hkept (b : Address) :
      Function.update ref.owner a (some t) b ≠ some s ↔ ref.owner b ≠ some s := by
    by_cases hba : b = a
    · subst hba
      rw [Function.update_self]
      exact iff_of_true (fun he => hst (Option.some.inj he)) ha
    · rw [Function.update_of_ne hba]
  by_cases hr : (f, a) ∈ ref.registrations
  · rw [register_of_known t hr, register_of_known t (hmem.mpr hr)]
  rw [register_of_new t hr, register_of_new t (fun h => hr (hmem.mp h))]
  refine congrArg (Prod.mk _) ?_
  ext1
  · change touch (ref.order.filter _) a = (touch ref.order a).filter
      (fun b => Function.update ref.owner a (some t) b ≠ some s)
    have hfilter : ref.order.filter (fun b => ref.owner b ≠ some s) =
        ref.order.filter (fun b => Function.update ref.owner a (some t) b ≠ some s) :=
      List.filter_congr fun b _ => decide_eq_decide.mpr (hkept b).symm
    rw [hfilter, filter_touch_of_pos
      (p := fun b => decide (Function.update ref.owner a (some t) b ≠ some s))
      (decide_eq_true ((hkept a).mpr ha))]
  · change insert (f, a) (ref.registrations.filter _) = (insert (f, a) ref.registrations).filter _
    rw [Finset.filter_insert, if_pos ((hkept a).mpr ha)]
    exact congrArg _ (Finset.filter_congr fun r _ => (hkept r.2).symm)
  · funext b
    simp only [Reference.remove]
    by_cases hba : b = a
    · subst hba
      simp [hst]
    · rw [Function.update_of_ne hba, Function.update_of_ne hba]

theorem find?_remove (ref : Reference) (f : Signature) (s : SocketPtr) :
    (ref.remove s).order.find? ((ref.remove s).offers f) =
      ref.order.find? fun a => decide (ref.owner a ≠ some s) && ref.offers f a := by
  change (ref.order.filter _).find? _ = _
  rw [List.find?_filter]
  refine congrArg (ref.order.find? ·) (funext fun a => ?_)
  simp only [Reference.offers, Reference.remove, Finset.mem_filter]
  by_cases h : ref.owner a = some s <;> simp [h]

theorem locate_remove_of_none {ref : Reference} {f : Signature} (s : SocketPtr)
    (h : ref.order.find? (ref.offers f) = none) :
    (ref.remove s).locate f = (.locateFailure, ref.remove s) := by
  have hf : (ref.remove s).order.find? ((ref.remove s).offers f) = none := by
    rw [find?_remove, List.find?_eq_none]
    intro a ha
    simp [List.find?_eq_none.mp h a ha]
  exact locate_of_none hf

theorem locate_remove_of_some {ref : Reference} {f : Signature} {a : Address} {s : SocketPtr}
    (h : ref.order.find? (ref.offers f) = some a) (hs : ref.owner a ≠ some s) :
    (ref.remove s).locate f = (.locateSuccess a, (ref.locate f).2.remove s) := by
  have hf : (ref.remove s).order.find? ((ref.remove s).offers f) = some a := by
    obtain ⟨ha, before, after, horder, hbefore⟩ := List.find?_eq_some_iff_append.mp h
    rw [find?_remove, List.find?_eq_some_iff_append]
    refine ⟨by simp [hs, ha], before, after, horder, fun b hb => ?_⟩
    have hb' : ref.offers f b = false := by simpa using hbefore b hb
    simp [hb']
  rw [locate_of_some hf, locate_of_some h]
  refine congrArg (Prod.mk _) ?_
  ext1
  · exact (filter_touch_of_pos (p := fun b => decide (ref.owner b ≠ some s))
      (decide_eq_true hs) ref.order).symm
  · rfl
  · rfl

theorem remove_locate {ref : Reference} {f : Signature} {a : Address} {s : SocketPtr}
    (h : ref.order.find? (ref.offers f) = some a) (hs : ref.owner a = some s) :
    (ref.locate f).2.remove s = ref.remove s := by
  rw [locate_of_some h]
  ext1
  · exact filter_touch_of_neg (p := fun b => decide (ref.owner b ≠ some s))
      (decide_eq_false (not_not_intro hs)) ref.order
  · rfl
  · rfl

/-- A call that `s` makes, or that is answered with an address `s` owns. -/
def Touches (ref : Reference) (s : SocketPtr) (request : BinderRequest)
    (reply : Option RawMessage) : Prop :=
  (∃ message, request = .register message s) ∨ request = .remove s ∨
    ∃ message a, request = .locate message ∧ reply = some (located a) ∧ ref.owner a = some s

def OwnerRegisters (ref : Reference) (request : BinderRequest) : Prop :=
  ∀ message t u, request = .register message t → ref.owner message.address = some u → u = t

theorem located_of_step {ref ref' : Reference} {message : LocateRequest} {a : Address}
    (h : ref.step (.locate message) = some (some (located a), ref')) :
    ∃ f, message.signature = some f ∧ ref.order.find? (ref.offers f) = some a ∧
      ref' = (ref.locate f).2 := by
  obtain ⟨f, hf, hr⟩ := Option.map_eq_some_iff.mp h
  obtain ⟨hreply, rfl⟩ := Prod.mk.inj hr
  refine ⟨f, hf, ?_, rfl⟩
  cases hfind : ref.order.find? (ref.offers f) with
  | none =>
    rw [locate_of_none hfind] at hreply
    exact absurd (Option.some.inj hreply).symm (located_ne_notLocated a)
  | some b =>
    rw [locate_of_some hfind] at hreply
    exact congrArg some (located_injective (Option.some.inj hreply))

theorem remove_of_touches {ref ref' : Reference} {s : SocketPtr} {request : BinderRequest}
    {reply : Option RawMessage} (h : Owned ref) (hown : OwnerRegisters ref request)
    (hs : ref.step request = some (reply, ref')) (ht : ref.Touches s request reply) :
    ref'.remove s = ref.remove s := by
  rcases ht with ⟨message, rfl⟩ | rfl | ⟨message, a, rfl, rfl, ha⟩
  · obtain ⟨f, -, hr⟩ := Option.map_eq_some_iff.mp hs
    obtain ⟨-, rfl⟩ := Prod.mk.inj hr
    exact remove_register_self h (fun t => hown message s t rfl)
  · obtain ⟨-, rfl⟩ := Prod.mk.inj (Option.some.inj hs)
    exact ref.remove_remove_self s
  · obtain ⟨f, -, hfind, rfl⟩ := located_of_step hs
    exact remove_locate hfind ha

theorem step_remove_of_not_touches {ref ref' : Reference} {s : SocketPtr}
    {request : BinderRequest} {reply : Option RawMessage} (hown : OwnerRegisters ref request)
    (hs : ref.step request = some (reply, ref')) (ht : ¬ ref.Touches s request reply) :
    (ref.remove s).step request = some (reply, ref'.remove s) := by
  cases request with
  | register message t =>
    have hts : t ≠ s := fun he => ht (.inl ⟨message, by rw [he]⟩)
    obtain ⟨f, hf, hr⟩ := Option.map_eq_some_iff.mp hs
    obtain ⟨rfl, rfl⟩ := Prod.mk.inj hr
    have hreg := register_remove (f := f) hts (fun u => hown message t u rfl)
    simp only [Reference.step, hf, Option.map_some, hreg]
  | locate message =>
    obtain ⟨f, hf, hr⟩ := Option.map_eq_some_iff.mp hs
    obtain ⟨rfl, rfl⟩ := Prod.mk.inj hr
    simp only [Reference.step, hf, Option.map_some]
    cases hfind : ref.order.find? (ref.offers f) with
    | none => rw [locate_remove_of_none s hfind, locate_of_none hfind]
    | some a =>
      have hlocate : ref.locate f = (.locateSuccess a, (ref.locate f).2) := by
        rw [locate_of_some hfind]
      have hns : ref.owner a ≠ some s := fun he =>
        ht (.inr (.inr ⟨message, a, rfl, by rw [hlocate]; rfl, he⟩))
      rw [locate_remove_of_some hfind hns, hlocate]
  | remove t =>
    obtain ⟨rfl, rfl⟩ := Prod.mk.inj (Option.some.inj hs)
    exact congrArg (fun r => some (none, r)) (ref.remove_remove_comm s t)

end Reference

/-- An event of the run of `s`: a registration from it, its removal, or a locate
answered with an address that it has claimed and still owns. -/
def Concerns (s : SocketPtr) (past : List BinderEvent) (e : BinderEvent) : Prop :=
  (∃ message, e.1 = .register message s) ∨ Removed s e ∨
    ∃ message a, e.1 = .locate message ∧ e.2 = some (located a) ∧
      Since (Claimed a s) (Removed s) past

theorem Coupled.queued {n : Nat} {db : BinderDatabase} {ref : Reference} {a : Address}
    (h : Coupled n db ref) (ha : a ∈ ref.order) :
    ∃ p ∈ db.serverQueue, p.2.address = a ∧ ref.owner a = some p.2.serverSocket := by
  rw [← h.order] at ha
  obtain ⟨p, hp, rfl⟩ := List.mem_map.mp ha
  exact ⟨p, hp, rfl, h.owner p.2 (.of_queue hp)⟩

theorem Coupled.owner_iff_claimed {past : List BinderEvent} {n : Nat} {db : BinderDatabase}
    {ref : Reference} {a : Address} {s : SocketPtr} (h : Coupled n db ref)
    (hrun : BinderRun past db) (hone : OneOwner (past.map Prod.fst)) (ha : a ∈ ref.order) :
    ref.owner a = some s ↔ Since (Claimed a s) (Removed s) past := by
  obtain ⟨p, hp, rfl, howner⟩ := h.queued ha
  have hclaimed := hrun.claimed (.of_queue hp)
  rw [howner]
  constructor
  · rintro he
    obtain rfl := Option.some.inj he
    exact hclaimed
  · exact fun hs => congrArg some (hone.claimed_unique hclaimed hs)

theorem Coupled.touches_iff_concerns {past : List BinderEvent} {n : Nat} {db : BinderDatabase}
    {ref ref' : Reference} {request : BinderRequest} {reply : Option RawMessage} {s : SocketPtr}
    (h : Coupled n db ref) (hrun : BinderRun past db) (hone : OneOwner (past.map Prod.fst))
    (hs : ref.step request = some (reply, ref')) :
    ref.Touches s request reply ↔ Concerns s past (request, reply) := by
  refine or_congr_right (or_congr_right (exists_congr fun message => exists_congr fun a => ?_))
  refine and_congr_right fun hm => and_congr_right fun hl => ?_
  obtain rfl : request = _ := hm
  obtain rfl : reply = _ := hl
  obtain ⟨f, -, hfind, -⟩ := Reference.located_of_step hs
  exact h.owner_iff_claimed hrun hone (List.mem_of_find?_eq_some hfind)

theorem Coupled.ownerRegisters {past : List BinderEvent} {n : Nat} {db : BinderDatabase}
    {ref : Reference} {request : BinderRequest} (h : Coupled n db ref)
    (howned : ref.Owned) (hrun : BinderRun past db)
    (hone : OneOwner (past.map Prod.fst ++ [request])) : ref.OwnerRegisters request := by
  rintro message t u rfl hu
  obtain ⟨p, hp, hpa, howner⟩ := h.queued ((howned.owner _).mpr ⟨u, hu⟩)
  have he := BinderRun.holds_eq_registered hrun hone (.of_queue hp) hpa
  rw [hu, he] at howner
  exact Option.some.inj howner

theorem Reference.defined_of_step {ref ref' : Reference} {request : BinderRequest}
    {reply : Option RawMessage} (h : ref.step request = some (reply, ref')) (db : BinderDatabase) :
    ∃ o db', db.step request = some (o, db') := by
  cases request with
  | register message t =>
    obtain ⟨f, hf, -⟩ := Option.map_eq_some_iff.mp h
    rw [Register.signature] at hf
    exact ⟨_, _, by rw [BinderDatabase.step, handleRegister, hf]; rfl⟩
  | locate message =>
    obtain ⟨f, hf, -⟩ := Option.map_eq_some_iff.mp h
    rw [LocateRequest.signature] at hf
    exact ⟨_, _, by rw [BinderDatabase.step, handleLocate, hf]; rfl⟩
  | remove t => exact ⟨none, _, rfl⟩

/-- A database beside the reference without `s` answers a call that does not
concern `s` as the reference with `s` does. -/
theorem Coupled.step_without {n : Nat} {db : BinderDatabase} {ref ref' : Reference}
    {s : SocketPtr} {request : BinderRequest} {reply : Option RawMessage}
    (h : Coupled n db (ref.remove s)) (hown : ref.OwnerRegisters request)
    (hs : ref.step request = some (reply, ref')) (ht : ¬ ref.Touches s request reply)
    (hn : n + tickCount (request, reply) ≤ 2 ^ 32 - 1) :
    ∃ db', db.step request = some (reply, db') ∧
      Coupled (n + tickCount (request, reply)) db' (ref'.remove s) := by
  have hstep := Reference.step_remove_of_not_touches hown hs ht
  obtain ⟨o, db', hdb⟩ := Reference.defined_of_step hs db
  have hstored : ∀ message t, request = .register message t → ∀ y, Holds db y →
      y.address = message.address → y = ⟨message.serverHostname, message.serverPort, t⟩ := by
    intro message t hm y hy hya
    have ho : (if ref.owner y.address = some s then none else ref.owner y.address) =
        some y.serverSocket := h.owner y hy
    split_ifs at ho
    exact ServerData.eq_of_address hya (hown message t _ hm (hya ▸ ho))
  obtain ⟨ref'', href, hcoupled⟩ := h.answers hstored (step_cases hdb)
  obtain ⟨rfl, rfl⟩ := Prod.mk.inj (Option.some.inj (href.symm.trans hstep))
  exact ⟨db', hdb, hcoupled hn⟩

theorem ticks_le_of_without {D : List BinderEvent → BinderEvent → Prop}
    {past rest : List BinderEvent} (h : Without D past rest) : ticks rest ≤ ticks past :=
  h.sublist.countP_le

/-- Beside a run, the run without the events of `s`: it stays coupled with the
reference from which `s` has been removed. -/
theorem BinderRun.coupled_without {trace : List BinderEvent} {db : BinderDatabase}
    (hrun : BinderRun trace db) (hone : OneOwner (trace.map Prod.fst))
    (hticks : ticks trace ≤ 2 ^ 32 - 1) (s : SocketPtr) :
    ∃ ref, ref.Owned ∧ Coupled (ticks trace) db ref ∧
      ∀ rest, Without (Concerns s) trace rest →
        ∃ db', BinderRun rest db' ∧ Coupled (ticks rest) db' (ref.remove s) := by
  revert hone hticks
  refine hrun.history (P := fun past db => OneOwner (past.map Prod.fst) →
    ticks past ≤ 2 ^ 32 - 1 → ∃ ref, ref.Owned ∧ Coupled (ticks past) db ref ∧
      ∀ rest, Without (Concerns s) past rest →
        ∃ db', BinderRun rest db' ∧ Coupled (ticks rest) db' (ref.remove s)) ?_ ?_
  · intro _ _
    refine ⟨_, .new, .new, fun rest hrest => ?_⟩
    obtain rfl := List.sublist_nil.mp hrest.sublist
    exact ⟨_, .nil _, Coupled.new.removed s⟩
  · intro past a request reply b hr ih hs hone hticks
    rw [ticks_append_singleton] at hticks
    rw [List.map_append] at hone
    obtain ⟨ref, howned, hcoupled, hrest⟩ := ih hone.of_append (by omega)
    have hown := hcoupled.ownerRegisters howned hr hone
    have hstored : ∀ message t, request = .register message t → ∀ y, Holds a y →
        y.address = message.address → y = ⟨message.serverHostname, message.serverPort, t⟩ := by
      rintro message t rfl y hy hya
      exact BinderRun.holds_eq_registered hr hone hy hya
    obtain ⟨ref', hstep, hcoupled'⟩ := hcoupled.step hstored hticks (step_cases hs)
    have htouches := hcoupled.touches_iff_concerns hr hone.of_append hstep (s := s)
    refine ⟨ref', howned.step hstep, ticks_append_singleton past _ ▸ hcoupled', ?_⟩
    intro rest hwithout
    rcases without_append_singleton hwithout with ⟨hd, hw⟩ | ⟨hd, rest, rfl, hw⟩
    · rw [Reference.remove_of_touches howned hown hstep (htouches.mpr hd)]
      exact hrest rest hw
    · obtain ⟨db', hrun', hc⟩ := hrest rest hw
      have hle := (Nat.add_le_add_right (ticks_le_of_without hw) _).trans hticks
      obtain ⟨db'', hs', hc'⟩ := hc.step_without hown hstep (fun ht => hd (htouches.mp ht)) hle
      exact ⟨db'', hrun'.append (.single hs'), ticks_append_singleton rest _ ▸ hc'⟩

/-- A run keeps its answers when the events of one socket are left out of it:
with the same calls and any answers, the shortened run is this one. -/
theorem crashed_server_leaves_no_trace {trace rest : List BinderEvent} {db : BinderDatabase}
    {s : SocketPtr} (hrun : BinderRun trace db) (hone : OneOwner (trace.map Prod.fst))
    (hticks : ticks trace ≤ 2 ^ 32 - 1) (hrest : Without (Concerns s) trace rest) :
    ∃ db', BinderRun rest db' ∧ ∀ trace' db'', BinderRun trace' db'' →
      trace'.map Prod.fst = rest.map Prod.fst → trace' = rest := by
  obtain ⟨_, -, -, h⟩ := hrun.coupled_without hone hticks s
  obtain ⟨db', hrun', -⟩ := h rest hrest
  exact ⟨db', hrun', fun trace' db'' hr he => hr.trace_unique hrun' he⟩

theorem crashed_server_leaves_no_trace_sample :
    ∃ db', BinderRun [(.register (sampleRegister 102 81) 2, some (registered 0)),
        (.locate (sampleLocate 102), some (located (sampleAddress 81)))] db' ∧
      ∀ trace' db'', BinderRun trace' db'' →
        trace'.map Prod.fst = [.register (sampleRegister 102 81) 2, .locate (sampleLocate 102)] →
        trace' = [(.register (sampleRegister 102 81) 2, some (registered 0)),
          (.locate (sampleLocate 102), some (located (sampleAddress 81)))] := by
  obtain ⟨db, hrun, -⟩ : ∃ db, BinderRun [(.register (sampleRegister 102 80) 1,
      some (registered 0)), (.register (sampleRegister 102 81) 2, some (registered 0)),
      (.locate (sampleLocate 102), some (located (sampleAddress 80))),
      (.locate (sampleLocate 102), some (located (sampleAddress 81))), (.remove 1, none)] db ∧
      db.time = 5 := Run.of_exec_map (by decide)
  have hone : OneOwner [.register (sampleRegister 102 80) 1, .register (sampleRegister 102 81) 2,
      .locate (sampleLocate 102), .locate (sampleLocate 102), .remove 1] :=
    .of_two_servers (by simp)
  have hlocated : ¬ Concerns 1 [(.register (sampleRegister 102 80) 1, some (registered 0)),
      (.register (sampleRegister 102 81) 2, some (registered 0)),
      (.locate (sampleLocate 102), some (located (sampleAddress 80)))]
      (.locate (sampleLocate 102), some (located (sampleAddress 81))) := by
    rintro (⟨_, hm⟩ | hm | ⟨_, a, -, ha, hclaimed⟩)
    · cases hm
    · cases hm
    · obtain rfl : sampleAddress 81 = a := located_injective (Option.some.inj ha)
      obtain ⟨e, he, message, hm, hmessage⟩ := hclaimed.exists_mem
      simp only [List.mem_cons, List.not_mem_nil, or_false] at he
      rcases he with rfl | rfl | rfl <;> cases hm
      exact absurd hmessage (by decide)
  have hregister : ¬ Concerns 1 [(.register (sampleRegister 102 80) 1, some (registered 0))]
      (.register (sampleRegister 102 81) 2, some (registered 0)) := by
    simp [Concerns, Removed]
  refine crashed_server_leaves_no_trace (s := 1) hrun hone (by decide)
    (((((Without.nil.dropped ?_).kept hregister).dropped ?_).kept hlocated).dropped ?_)
  · exact .inl ⟨sampleRegister 102 80, rfl⟩
  · exact .inr (.inr ⟨sampleLocate 102, sampleAddress 80, rfl, rfl, [], _, _, rfl,
      ⟨sampleRegister 102 80, rfl, rfl⟩, by simp [Removed]⟩)
  · exact .inr (.inl rfl)

end RpcLibrary
