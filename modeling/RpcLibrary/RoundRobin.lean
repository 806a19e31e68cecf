import RpcLibrary.BinderRefinement

/-! Locates go around the servers of a function, and no server of a function
starves, whatever other functions are located in between. -/

namespace RpcLibrary

open Runs LeastRecent BinderDatabase

def BinderRequest.locates : BinderRequest → Option Signature
  | .locate message => message.signature
  | _ => none

def locateAnswer : Option Address → RawMessage
  | some a => located a
  | none => notLocated

theorem Coupled.serve_order {n : Nat} {db : BinderDatabase} {ref : Reference}
    (h : Coupled n db ref) (f : Signature) :
    serve ref.offers ref.order f =
      match db.pick f with
      | none => some (none, ref.order)
      | some p => some (some p.2.address, touch ref.order p.2.address) := by
  rw [serve, h.find?_order f]
  cases db.pick f <;> rfl

theorem Coupled.serves {n : Nat} {db db' : BinderDatabase} {ref : Reference}
    {more : List BinderEvent} (h : Coupled n db ref) (hmore : Run BinderDatabase.step db more db')
    (hlocates : ∀ e ∈ more, ∃ message, e.1 = .locate message)
    (hn : n + ticks more ≤ 2 ^ 32 - 1) :
    ∃ trace l, Run (serve ref.offers) ref.order trace l ∧
      more.map (fun e => (e.1.locates, e.2)) =
        trace.map (fun t => (some t.1, some (locateAnswer t.2))) := by
  induction hmore generalizing n ref with
  | nil => exact ⟨[], ref.order, .nil _, rfl⟩
  | @cons db db₁ _ request reply more hs _ ih =>
    obtain ⟨message, rfl⟩ := hlocates (request, reply) List.mem_cons_self
    have hrest := fun e he => hlocates e (List.mem_cons_of_mem _ he)
    have hcount : ticks ((.locate message, reply) :: more) =
        ticks more + tickCount (.locate message, reply) := List.countP_cons ..
    rw [hcount] at hn
    cases step_cases hs with
    | @notFound _ f hf hp =>
      obtain ⟨-, hcoupled⟩ := h.notFound hf hp
      obtain ⟨trace, l, hrun, hmap⟩ := ih hcoupled hrest (by omega)
      have hserve := h.serve_order f
      rw [hp] at hserve
      refine ⟨(f, none) :: trace, l, .cons hserve hrun, ?_⟩
      rw [List.map_cons, List.map_cons, hmap, BinderRequest.locates, hf]
      rfl
    | @found _ f p hf hp =>
      have htick : tickCount (.locate message, some (located p.2.address)) = 1 := rfl
      rw [htick] at hn
      obtain ⟨-, hcoupled⟩ := h.found hf hp
      obtain ⟨trace, l, hrun, hmap⟩ := ih (hcoupled (by omega)) hrest (by omega)
      have hfind := h.find?_order f
      have hserve := h.serve_order f
      rw [hp] at hfind hserve
      have hlocate : (ref.locate f).2.offers = ref.offers ∧
          (ref.locate f).2.order = touch ref.order p.2.address := by
        rw [Reference.locate_of_some hfind]
        exact ⟨rfl, rfl⟩
      rw [hlocate.1, hlocate.2] at hrun
      refine ⟨(f, some p.2.address) :: trace, l, .cons hserve hrun, ?_⟩
      rw [List.map_cons, List.map_cons, hmap, BinderRequest.locates, hf]
      rfl

theorem Coupled.mem_members {n : Nat} {db : BinderDatabase} {ref : Reference}
    (h : Coupled n db ref) {f : Signature} {a : Address} :
    a ∈ ref.order.filter (ref.offers f) ↔ (db.servers f).contains a = true := by
  rw [List.mem_filter, Reference.offers, decide_eq_true_iff, h.registrations]
  refine and_iff_right_of_imp fun hc => ?_
  obtain ⟨p, hp, rfl, -⟩ := h.consistent.queued a ⟨f, hc⟩
  rw [← h.order]
  exact List.mem_map_of_mem hp

theorem Coupled.length_members {n : Nat} {db : BinderDatabase} {ref : Reference}
    (h : Coupled n db ref) (f : Signature) :
    (ref.order.filter (ref.offers f)).length = (db.servers f).elems.length := by
  have hnodup : ((db.servers f).elems.map ServerData.address).Nodup :=
    List.pairwise_map.mpr ((db.servers f).sorted.imp ne_of_lt)
  have hperm : (ref.order.filter (ref.offers f)).Perm
      ((db.servers f).elems.map ServerData.address) := by
    refine (List.perm_ext_iff_of_nodup (ref.nodup.filter _) hnodup).mpr fun a => ?_
    rw [h.mem_members, OrderedSet.contains_iff, List.mem_map]
    rfl
  rw [hperm.length_eq, List.length_map]

theorem mod_ne_of_lt {i j k : Nat} (hij : i < j) (hjk : j < i + k) : i % k ≠ j % k := by
  intro h
  have hz := Nat.sub_mod_eq_zero_of_mod_eq h.symm
  rw [Nat.mod_eq_of_lt (by omega)] at hz
  omega

/-- As many locates of a function as it has servers reach each of them; locates
of this function alone go around its servers. -/
theorem round_robin_without_starvation {past more : List BinderEvent} {db db' : BinderDatabase}
    {f : Signature} {k : Nat} (hrun : BinderRun past db) (hone : OneOwner (past.map Prod.fst))
    (hmore : Run BinderDatabase.step db more db')
    (hlocates : ∀ e ∈ more, ∃ message, e.1 = .locate message)
    (hticks : ticks (past ++ more) ≤ 2 ^ 32 - 1) (hk : k = (db.servers f).elems.length)
    (hpos : 1 ≤ k) :
    (k ≤ more.countP (fun e => e.1.locates = some f) →
      ∀ x ∈ db.servers f, ∃ e ∈ more, e.2 = some (located x.address)) ∧
    ((∀ e ∈ more, e.1.locates = some f) →
      ∃ answer : Nat → Address,
        (∀ (i : Nat) (e : BinderEvent), more[i]? = some e → e.2 = some (located (answer i))) ∧
        (∀ i, (db.servers f).contains (answer i) = true) ∧
        (∀ i j, i < j → j < i + k → answer i ≠ answer j) ∧
        ∀ i, answer (i + k) = answer i) := by
  rw [ticks, List.countP_append] at hticks
  have hpast : ticks past ≤ 2 ^ 32 - 1 := Nat.le_trans (Nat.le_add_right ..) hticks
  obtain ⟨ref, -, hcoupled⟩ := BinderRun.coupled hrun hone hpast
  obtain ⟨trace, l, hserve, hmap⟩ := hcoupled.serves hmore hlocates hticks
  have hlength := hcoupled.length_members f
  rw [← hk] at hlength
  have hevent : ∀ t ∈ trace, ∃ e ∈ more,
      e.1.locates = some t.1 ∧ e.2 = some (locateAnswer t.2) := by
    intro t ht
    have hin := List.mem_map_of_mem (f := fun t => (some t.1, some (locateAnswer t.2))) ht
    rw [← hmap] at hin
    obtain ⟨e, he, hte⟩ := List.mem_map.mp hin
    exact ⟨e, he, congrArg Prod.fst hte, congrArg Prod.snd hte⟩
  constructor
  · intro hcount x hx
    have hcounts : more.countP (fun e => e.1.locates = some f) =
        trace.countP (fun t => t.1 = f) := by
      have hc := congrArg (List.countP (fun e => decide (e.1 = some f))) hmap
      simpa only [List.countP_map, Function.comp_def, Option.some.injEq] using hc
    have hmem := List.mem_filter.mp (hcoupled.mem_members.mpr (OrderedSet.contains_of_mem hx))
    obtain ⟨t, ht, hta⟩ := served_of_count hserve ref.nodup hmem.1 hmem.2
      (hlength.le.trans (hcounts ▸ hcount))
    obtain ⟨e, he, -, hanswer⟩ := hevent t ht
    refine ⟨e, he, hanswer.trans ?_⟩
    simp only [hta, locateAnswer]
  · intro hall
    have hsame : ∀ t ∈ trace, t.1 = f := by
      intro t ht
      obtain ⟨e, he, hlocate, -⟩ := hevent t ht
      exact Option.some.inj (hlocate.symm.trans (hall e he))
    have hrotation := served_rotation hserve ref.nodup hsame
    have hnodup := ref.nodup.filter (ref.offers f)
    obtain ⟨m, hm⟩ : ∃ m, m = ref.order.filter (ref.offers f) := ⟨_, rfl⟩
    rw [← hm] at hlength hrotation hnodup
    subst hlength
    refine ⟨fun i => m.get ⟨i % m.length, Nat.mod_lt i hpos⟩, ?_, ?_, ?_, ?_⟩
    · intro i e he
      have hi := congrArg (fun l => l[i]?) hmap
      simp only [List.getElem?_map, he, Option.map_some] at hi
      obtain ⟨t, ht, hte⟩ := Option.map_eq_some_iff.mp hi.symm
      have hr := hrotation i t ht
      rw [List.getElem?_eq_getElem (Nat.mod_lt i hpos)] at hr
      refine (congrArg Prod.snd hte).symm.trans ?_
      simp only [hr, locateAnswer, List.get_eq_getElem]
    · intro i
      exact hcoupled.mem_members.mp (hm ▸ List.get_mem m _)
    · intro i j hij hjk he
      exact mod_ne_of_lt hij hjk (hnodup.getElem_inj_iff.mp he)
    · intro i
      simp only [Nat.add_mod_right]

theorem round_robin_sample :
    ∃ db db', BinderRun [(.register (sampleRegister 102 80) 1, some (registered 0)),
        (.register (sampleRegister 102 81) 1, some (registered 0))] db ∧
      Run BinderDatabase.step db [(.locate (sampleLocate 102), some (located (sampleAddress 80))),
        (.locate (sampleLocate 102), some (located (sampleAddress 81)))] db' ∧
      ∀ x ∈ db.servers (sampleSignature 102),
        ∃ e ∈ [(BinderRequest.locate (sampleLocate 102), some (located (sampleAddress 80))),
          (.locate (sampleLocate 102), some (located (sampleAddress 81)))],
        e.2 = some (located x.address) := by
  obtain ⟨db, hrun, he⟩ : ∃ db, BinderRun [(.register (sampleRegister 102 80) 1,
      some (registered 0)), (.register (sampleRegister 102 81) 1, some (registered 0))] db ∧
      ((exec BinderDatabase.step db [.locate (sampleLocate 102),
          .locate (sampleLocate 102)]).map Prod.fst,
        (db.servers (sampleSignature 102)).elems.length) =
        (some [(.locate (sampleLocate 102), some (located (sampleAddress 80))),
          (.locate (sampleLocate 102), some (located (sampleAddress 81)))], 2) :=
    Run.of_exec_map (by decide)
  obtain ⟨he, hlength⟩ := Prod.mk.inj he
  obtain ⟨⟨_, db'⟩, hd, rfl⟩ := Option.map_eq_some_iff.mp he
  have hmore := Run.of_exec hd
  have hone : OneOwner [.register (sampleRegister 102 80) 1, .register (sampleRegister 102 81) 1] :=
    .of_fixed_owner (fun _ => 1) (by simp; grind)
  refine ⟨db, db', hrun, hmore, ?_⟩
  exact (round_robin_without_starvation hrun hone hmore (by simp) (by decide) hlength.symm
    (by decide)).1 (by decide)

end RpcLibrary
