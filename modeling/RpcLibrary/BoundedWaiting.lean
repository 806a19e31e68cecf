import RpcLibrary.CrashIsolation
import RpcLibrary.RoundRobin

/-! How often a server can be passed over while other servers come, register, are
located for other functions and leave. -/

namespace RpcLibrary

open Runs LeastRecent BinderDatabase

/-- The event makes the server at `a` the most recently active one. -/
def Activates (a : Address) (e : BinderEvent) : Prop :=
  e.2 = some (located a) ∨ ∃ message s, e.1 = .register message s ∧ message.address = a ∧
    e.2 = some (registered 0)

namespace Reference

/-- While `b` waits nobody gets ahead of it, and who is located for its function
was ahead of it and is so no more. -/
theorem ahead_step {ref ref' : Reference} {request : BinderRequest} {reply : Option RawMessage}
    {f : Signature} {b : Address} (howned : ref.Owned) (hs : ref.step request = some (reply, ref'))
    (hb : (f, b) ∈ ref.registrations) (hb' : (f, b) ∈ ref'.registrations)
    (hidle : ¬ Activates b (request, reply)) :
    List.Sublist (ahead ref'.order b) (ahead ref.order b) ∧
      (request.locates = some f →
        ∃ a ∈ ahead ref.order b, reply = some (located a) ∧ a ∉ ahead ref'.order b) := by
  have hmem : b ∈ ref.order := howned.order f b hb
  cases request with
  | register message s =>
    refine ⟨?_, fun h => by cases h⟩
    obtain ⟨g, -, hr⟩ := Option.map_eq_some_iff.mp hs
    obtain ⟨rfl, rfl⟩ := Prod.mk.inj hr
    by_cases hknown : (g, message.address) ∈ ref.registrations
    · rw [register_of_known s hknown]
    · rw [register_of_new s hknown] at hidle ⊢
      have hne : message.address ≠ b := fun he => hidle (.inr ⟨message, s, rfl, he, rfl⟩)
      rw [ahead_touch hne hmem]
      exact List.filter_sublist
  | locate message =>
    obtain ⟨g, hg, hr⟩ := Option.map_eq_some_iff.mp hs
    obtain ⟨rfl, rfl⟩ := Prod.mk.inj hr
    have hoffers : ref.offers f b = true := decide_eq_true hb
    cases hfind : ref.order.find? (ref.offers g) with
    | none =>
      rw [locate_of_none hfind]
      refine ⟨List.Sublist.refl _, fun hlocates => ?_⟩
      obtain rfl : g = f := Option.some.inj (hg.symm.trans hlocates)
      exact absurd hoffers (by simpa using List.find?_eq_none.mp hfind b hmem)
    | some a =>
      rw [locate_of_some hfind] at hidle ⊢
      have hne : a ≠ b := fun he => hidle (.inl (by rw [he]; rfl))
      have htouch := ahead_touch hne hmem
      refine ⟨htouch ▸ List.filter_sublist, fun hlocates => ?_⟩
      obtain rfl : g = f := Option.some.inj (hg.symm.trans hlocates)
      refine ⟨a, mem_ahead_of_find? hfind hmem hoffers hne, rfl, ?_⟩
      rw [htouch]
      simp
  | remove s =>
    refine ⟨?_, fun h => by cases h⟩
    obtain ⟨-, rfl⟩ := Prod.mk.inj (Option.some.inj hs)
    have howner : ref.owner b ≠ some s := (Finset.mem_filter.mp hb').2
    have hahead : ahead (ref.remove s).order b =
        (ahead ref.order b).filter (fun a => ref.owner a ≠ some s) :=
      ahead_filter (p := fun a => decide (ref.owner a ≠ some s)) (decide_eq_true howner) ref.order
    rw [hahead]
    exact List.filter_sublist

theorem overtaken {ref ref' : Reference} {more : List BinderEvent} {f : Signature} {b : Address}
    (hrun : Run Reference.step ref more ref') (howned : ref.Owned)
    (hwaits : Throughout Reference.step (fun r => (f, b) ∈ r.registrations) ref more)
    (hidle : ∀ e ∈ more, ¬ Activates b e) :
    ∃ answers : List Address,
      (more.filter fun e => e.1.locates = some f).map Prod.snd =
        answers.map (fun a => some (located a)) ∧
      answers.Nodup ∧ answers ⊆ ahead ref.order b := by
  induction hrun with
  | nil => exact ⟨[], rfl, .nil, List.nil_subset _⟩
  | @cons ref next _ request reply more hs _ ih =>
    obtain ⟨hfirst, hrest⟩ := List.forall_mem_cons.mp hidle
    have hnext := hwaits.rest hs
    obtain ⟨hsub, hlocated⟩ := ahead_step howned hs hwaits.first hnext.first hfirst
    obtain ⟨answers, hmap, hnodup, hahead⟩ := ih (howned.step hs) hnext hrest
    by_cases hf : request.locates = some f
    · obtain ⟨a, ha, rfl, hgone⟩ := hlocated hf
      refine ⟨a :: answers, ?_, List.nodup_cons.mpr ⟨fun h => hgone (hahead h), hnodup⟩, ?_⟩
      · rw [List.filter_cons_of_pos (by simpa using hf), List.map_cons, hmap, List.map_cons]
      · exact List.cons_subset.mpr ⟨ha, fun x hx => hsub.subset (hahead hx)⟩
    · refine ⟨answers, ?_, hnodup, fun x hx => hsub.subset (hahead hx)⟩
      rw [List.filter_cons_of_neg (by simpa using hf), hmap]

theorem run_owned {trace : List BinderEvent} {ref : Reference}
    (hrun : Run Reference.step .new trace ref) : ref.Owned :=
  hrun.history (P := fun _ ref => ref.Owned) .new fun _ _ _ _ _ _ h hs => h.step hs

end Reference

/-- As long as a server stays registered for a function and is not active itself,
locates of the function name servers that were ahead of it, each of them at most
once, whatever else happens in between. So it is passed over no more often than
there were servers ahead of it. -/
theorem bounded_waiting {past more : List BinderEvent} {db db' : BinderDatabase} {f : Signature}
    {b : Address} (hrun : BinderRun past db) (hmore : Run BinderDatabase.step db more db')
    (hone : OneOwner ((past ++ more).map Prod.fst)) (hticks : ticks (past ++ more) ≤ 2 ^ 32 - 1)
    (hwaits : Throughout BinderDatabase.step (fun db => (db.servers f).contains b = true) db more)
    (hidle : ∀ e ∈ more, ¬ Activates b e) :
    ∃ answers : List Address,
      (more.filter fun e => e.1.locates = some f).map Prod.snd =
        answers.map (fun a => some (located a)) ∧
      answers.Nodup ∧ answers ⊆ ahead (queueAddresses db.serverQueue) b ∧
      more.countP (fun e => e.1.locates = some f) ≤
        (ahead (queueAddresses db.serverQueue) b).length := by
  obtain ⟨ref', href, -⟩ := BinderRun.coupled (hrun.append hmore) hone hticks
  have hpast (before after : List BinderEvent) (he : more = before ++ after) :
      OneOwner ((past ++ before).map Prod.fst) ∧ ticks (past ++ before) ≤ 2 ^ 32 - 1 := by
    subst he
    rw [← List.append_assoc, List.map_append] at hone
    rw [← List.append_assoc, ticks, List.countP_append] at hticks
    exact ⟨hone.of_append, Nat.le_trans (Nat.le_add_right ..) hticks⟩
  obtain ⟨ref, href₀, href₁⟩ := href.split
  -- the reference goes through states with the same registrations
  have hagree (before after : List BinderEvent) (r : Reference) (he : more = before ++ after)
      (hr : Run Reference.step ref before r) : (f, b) ∈ r.registrations ∧
        ∃ mid, Run BinderDatabase.step db before mid ∧
          queueAddresses mid.serverQueue = r.order := by
    subst he
    obtain ⟨hone', hticks'⟩ := hpast before after rfl
    obtain ⟨mid, hmid, -⟩ := hmore.split
    obtain ⟨r', hr', hcoupled⟩ := BinderRun.coupled (hrun.append hmid) hone' hticks'
    obtain rfl := hr'.deterministic (href₀.append hr)
    have hcontains : (mid.servers f).contains b = true := hwaits before after mid rfl hmid
    exact ⟨(hcoupled.registrations f b).mpr hcontains, mid, hmid, hcoupled.order⟩
  obtain ⟨answers, hmap, hnodup, hahead⟩ := Reference.overtaken href₁ (Reference.run_owned href₀)
    (fun before after r he hr => (hagree before after r he hr).1) hidle
  obtain ⟨-, mid, hmid, horder⟩ := hagree [] more ref rfl (.nil ref)
  cases hmid
  rw [horder]
  refine ⟨answers, hmap, hnodup, hahead, ?_⟩
  have hlength := congrArg List.length hmap
  rw [List.length_map, List.length_map] at hlength
  rw [List.countP_eq_length_filter, hlength]
  exact (hnodup.subperm hahead).length_le

def sampleWaitingPast : List BinderEvent :=
  [(.register (sampleRegister 102 80) 1, some (registered 0)),
    (.register (sampleRegister 102 81) 2, some (registered 0))]

/-- The second server waits while the first is located. -/
def sampleWaiting : List BinderEvent :=
  [(.locate (sampleLocate 102), some (located (sampleAddress 80)))]

theorem bounded_waiting_sample :
    ∃ db db', BinderRun sampleWaitingPast db ∧
      Run BinderDatabase.step db sampleWaiting db' ∧
      ahead (queueAddresses db.serverQueue) (sampleAddress 81) = [sampleAddress 80] ∧
      sampleWaiting.countP (fun e => e.1.locates = some (sampleSignature 102)) ≤
        (ahead (queueAddresses db.serverQueue) (sampleAddress 81)).length := by
  obtain ⟨db, hrun, hdb⟩ : ∃ db, BinderRun sampleWaitingPast db ∧
      ((exec BinderDatabase.step db [.locate (sampleLocate 102)]).map Prod.fst,
        checkThroughout BinderDatabase.step
          (fun db => (db.servers (sampleSignature 102)).contains (sampleAddress 81)) db
          [.locate (sampleLocate 102)] &&
        decide (ahead (queueAddresses db.serverQueue) (sampleAddress 81) = [sampleAddress 80])) =
      (some sampleWaiting, true) :=
    Run.of_exec_map (by decide)
  obtain ⟨he, hcheck⟩ := Prod.mk.inj hdb
  obtain ⟨⟨_, db'⟩, hd, rfl⟩ := Option.map_eq_some_iff.mp he
  obtain ⟨hcheck, hahead⟩ := (Bool.and_eq_true _ _).mp hcheck
  have hone : OneOwner ((sampleWaitingPast ++ sampleWaiting).map Prod.fst) :=
    .of_two_servers (by simp [sampleWaitingPast, sampleWaiting])
  have hne : located (sampleAddress 80) ≠ located (sampleAddress 81) :=
    located_injective.ne (by decide)
  obtain ⟨answers, -, -, -, hcount⟩ := bounded_waiting (f := sampleSignature 102)
    (b := sampleAddress 81) hrun (Run.of_exec hd) hone (by decide)
    (.of_check (by simpa [sampleWaiting] using hcheck))
    (by simpa [sampleWaiting, Activates] using hne)
  exact ⟨db, db', hrun, Run.of_exec hd, of_decide_eq_true hahead, hcount⟩

end RpcLibrary
