import RpcLibrary.DeploymentRefinement

/-! From the address that the binder hands out to the skeleton that runs: what a
server has registered stays with it, whoever does what between the two halves of a
call. -/

namespace RpcLibrary

open Runs BinderDatabase

def RegisteredAt (a : Address) (f : Signature) (g : Skeleton)
    (e : DeploymentEvent × DeploymentOutput) : Prop :=
  ∃ name argTypes, e.1 = .registers a name argTypes g ∧ signatureOfArgTypes name argTypes = some f

/-- Another process, or the same one with another skeleton. -/
def Supersedes (a : Address) (f : Signature) (e : DeploymentEvent × DeploymentOutput) : Prop :=
  (∃ s, e.1 = .starts a s) ∨ ∃ g, RegisteredAt a f g e

theorem not_supersedes {a : Address} {f : Signature} {e : DeploymentEvent} {o : DeploymentOutput}
    (hstarts : ∀ s, e ≠ .starts a s)
    (hregisters : ∀ name argTypes g, e = .registers a name argTypes g →
      signatureOfArgTypes name argTypes ≠ some f) : ¬ Supersedes a f (e, o) := by
  rintro (⟨s, hs⟩ | ⟨g, name, argTypes, hr, hf⟩)
  · exact hstarts s hs
  · exact hregisters name argTypes g hr hf

namespace Deployment

/-- What the process at an address has for a signature, as soon as the binder
knows of it. -/
def offered (sys : Deployment) (a : Address) (f : Signature) : Option Skeleton :=
  match sys.parties.hosts a with
  | none => none
  | some ⟨_, .awaiting name argTypes g _⟩ =>
    if signatureOfArgTypes name argTypes = some f then some g else (sys.databases a).get? f
  | some _ => (sys.databases a).get? f

theorem offered_congr {sys sys' : Deployment} {a : Address}
    (hhost : sys'.parties.hosts a = sys.parties.hosts a)
    (hdatabase : sys'.databases a = sys.databases a) (f : Signature) :
    sys'.offered a f = sys.offered a f := by
  simp only [offered, hhost, hdatabase]

/-- A step changes what is offered at an address only where a process starts,
registers or dies there. -/
theorem StepCase.offered_cases {sys sys' : Deployment} {e : DeploymentEvent} {o : DeploymentOutput}
    (h : Sound sys) (hs : StepCase sys e o sys') (b : Address) (f : Signature) :
    (sys'.offered b f = sys.offered b f ∧ ¬ Supersedes b f (e, o) ∧
      ((sys'.parties.hosts b).isSome = true → (sys.parties.hosts b).isSome = true)) ∨
    (∃ g, sys'.offered b f = some g ∧ RegisteredAt b f g (e, o)) ∨
    (sys'.offered b f = none ∧ ((∃ s, e = .starts b s) ∨ sys'.parties.hosts b = none)) := by
  have hother {a : Address} {host : Option Host} {binder : BinderDatabase}
      {databases : Address → ServerDatabase} (hne : b ≠ a)
      (hdatabases : databases b = sys.databases b) :
      Deployment.offered ⟨binder, databases, sys.parties.setHost a host⟩ b f = sys.offered b f ∧
        (((sys.parties.setHost a host).hosts b).isSome = true →
          (sys.parties.hosts b).isSome = true) := by
    have hhost : (sys.parties.setHost a host).hosts b = sys.parties.hosts b :=
      Function.update_of_ne hne ..
    exact ⟨offered_congr hhost hdatabases f, fun hb => hhost ▸ hb⟩
  cases hs with
  | @starts a s hfree =>
    by_cases hba : b = a
    · subst hba
      refine .inr (.inr ⟨?_, .inl ⟨s, rfl⟩⟩)
      simp only [Deployment.offered, Parties.hosts_start, if_true, Function.update_self]
      rfl
    · have hhost : (sys.parties.start a s).hosts b = sys.parties.hosts b :=
        Function.update_of_ne hba ..
      refine .inl ⟨offered_congr hhost (Function.update_of_ne hba ..) f,
        not_supersedes (fun t ht => ?_) (fun _ _ _ hr => ?_), fun hb => hhost ▸ hb⟩
      · exact hba (DeploymentEvent.starts.inj ht).1.symm
      · cases hr
  | @registers a s name argTypes g response binder hhost hs =>
    by_cases hba : b = a
    · subst hba
      by_cases hf : signatureOfArgTypes name argTypes = some f
      · refine .inr (.inl ⟨g, ?_, name, argTypes, rfl, hf⟩)
        simp only [Deployment.offered, Parties.hosts_setHost, if_true, if_pos hf]
      · refine .inl ⟨?_, not_supersedes (fun t ht => ?_) (fun _ _ _ hr => ?_),
          fun _ => by rw [hhost]; rfl⟩
        · simp only [Deployment.offered, Parties.hosts_setHost, if_true, if_neg hf, hhost]
        · cases ht
        · obtain ⟨-, rfl, rfl, -⟩ := DeploymentEvent.registers.inj hr
          exact hf
    · obtain ⟨hsame, hlive⟩ := hother hba rfl
      refine .inl ⟨hsame, not_supersedes (fun t ht => ?_) (fun _ _ _ hr => ?_), hlive⟩
      · cases ht
      · exact absurd (DeploymentEvent.registers.inj hr).1.symm hba
  | @registered a s name argTypes g response status database hhost hr =>
    have hquiet : ¬ Supersedes b f (.registered a, .returned status) :=
      not_supersedes (fun _ h => by cases h) fun _ _ _ h => by cases h
    by_cases hba : b = a
    · subst hba
      obtain ⟨-, htype⟩ := h.awaited b s name argTypes g response hhost
      obtain ⟨signature, hsignature, -, rfl⟩ := registered_eq htype hr
      refine .inl ⟨?_, hquiet, fun _ => by rw [hhost]; rfl⟩
      simp only [Deployment.offered, Parties.hosts_setHost, if_true, hhost, Function.update_self,
        OrderedMap.get?_assign, hsignature, Option.some.injEq]
      exact if_congr eq_comm rfl rfl
    · obtain ⟨hsame, hlive⟩ := hother hba (Function.update_of_ne hba ..)
      exact .inl ⟨hsame, hquiet, hlive⟩
  | @executes a s hhost =>
    have hquiet : ¬ Supersedes b f (.executes a, .internal) :=
      not_supersedes (fun _ h => by cases h) fun _ _ _ h => by cases h
    by_cases hba : b = a
    · subst hba
      refine .inl ⟨?_, hquiet, fun _ => by rw [hhost]; rfl⟩
      simp only [Deployment.offered, Parties.hosts_setHost, if_true, hhost]
    · obtain ⟨hsame, hlive⟩ := hother hba rfl
      exact .inl ⟨hsame, hquiet, hlive⟩
  | @dies a hhost =>
    by_cases hba : b = a
    · subst hba
      refine .inr (.inr ⟨?_, .inr (Function.update_self ..)⟩)
      simp only [Deployment.offered, Parties.hosts_setHost, if_true]
    · obtain ⟨hsame, hlive⟩ := hother hba rfl
      exact .inl ⟨hsame, not_supersedes (fun _ h => by cases h) (fun _ _ _ h => by cases h), hlive⟩
  | removes | unlocated | located | calls =>
    exact .inl ⟨rfl, not_supersedes (fun _ h => by cases h) (fun _ _ _ h => by cases h), id⟩

/-- The binder sends clients to a process only for what it has, and it has what
was registered last. -/
structure Agreed (past : DeploymentTrace) (sys : Deployment) : Prop where
  offered : ∀ a f, (sys.parties.hosts a).isSome = true →
    (sys.binder.servers f).contains a = true → (sys.offered a f).isSome = true
  last : ∀ a f g, sys.offered a f = some g → Since (RegisteredAt a f g) (Supersedes a f) past

theorem Agreed.new : Agreed [] new where
  offered a f h := by cases h
  last a f g h := by cases h

/-- The binder's server sets grow by registrations only. -/
theorem StepCase.contains {sys sys' : Deployment} {e : DeploymentEvent} {o : DeploymentOutput}
    (hs : StepCase sys e o sys') {a : Address} {f : Signature}
    (h : (sys'.binder.servers f).contains a = true) :
    (sys.binder.servers f).contains a = true ∨ ∃ g, RegisteredAt a f g (e, o) := by
  cases hs with
  | @registers b s name argTypes g response binder hhost hs =>
    cases hs with
    | known => exact .inl h
    | @added _ _ f' hf hc =>
      rcases contains_servers_added.mp h with h | ⟨rfl, rfl⟩
      · exact .inl h
      · exact .inr ⟨g, name, argTypes, rfl, hf⟩
  | removes =>
    obtain ⟨x, hx, rfl⟩ := OrderedSet.contains_iff.mp h
    exact .inl (OrderedSet.contains_of_mem (mem_servers_removeIfServer.mp hx).1)
  | unlocated hclient hs =>
    cases hs with
    | notFound => exact .inl (by simpa only [servers_pruned] using h)
  | located hclient hs =>
    generalize some _ = reply at hs
    cases hs with
    | notFound => exact .inl (by simpa only [servers_pruned] using h)
    | found => exact .inl (by simpa only [servers_touched] using h)
  | _ => exact .inl h

theorem Sound.not_contains_of_fresh {sys : Deployment} {a : Address} {f : Signature}
    (h : Sound sys) (hfresh : a ∉ sys.parties.connections.map Prod.snd) :
    (sys.binder.servers f).contains a ≠ true := by
  intro hc
  obtain ⟨x, hx, rfl⟩ := OrderedSet.contains_iff.mp hc
  exact hfresh (List.mem_map_of_mem (h.held x (.of_servers hx)))

theorem Agreed.step {past : DeploymentTrace} {sys sys' : Deployment} {e : DeploymentEvent}
    {o : DeploymentOutput} (h : Agreed past sys) (hsound : Sound sys) (horderly : Orderly sys e)
    (hs : StepCase sys e o sys') : Agreed (past ++ [(e, o)]) sys' := by
  constructor
  · intro a f hlive hc
    rcases hs.offered_cases hsound a f with ⟨hsame, hquiet, hbefore⟩ | ⟨g, hg, -⟩ |
      ⟨-, ⟨s, rfl⟩ | hnone⟩
    · rcases hs.contains hc with hc | ⟨g, hg⟩
      · exact hsame ▸ h.offered a f (hbefore hlive) hc
      · exact absurd (.inr ⟨g, hg⟩) hquiet
    · rw [hg]
      rfl
    · cases hs with
      | starts => exact absurd hc (hsound.not_contains_of_fresh horderly.1.2)
    · rw [hnone] at hlive
      cases hlive
  · intro a f g hg
    rcases hs.offered_cases hsound a f with ⟨hsame, hquiet, -⟩ | ⟨g', hg', hr⟩ | ⟨hnone, -⟩
    · exact (h.last a f g (hsame ▸ hg)).keep hquiet
    · obtain rfl := Option.some.inj (hg'.symm.trans hg)
      exact .happened hr
    · rw [hnone] at hg
      cases hg

theorem StepCase.keeps_offered {sys sys' : Deployment} {e : DeploymentEvent} {o : DeploymentOutput}
    {a : Address} {f : Signature} (hsound : Sound sys) (hs : StepCase sys e o sys')
    (hsame : ∀ s, e ≠ .starts a s)
    (h : (sys.parties.hosts a).isSome = true → (sys.offered a f).isSome = true)
    (hlive : (sys'.parties.hosts a).isSome = true) : (sys'.offered a f).isSome = true := by
  rcases hs.offered_cases hsound a f with ⟨heq, -, hbefore⟩ | ⟨g, hg, -⟩ | ⟨-, ⟨s, rfl⟩ | hnone⟩
  · exact heq ▸ h (hbefore hlive)
  · rw [hg]
    rfl
  · exact absurd rfl (hsame s)
  · rw [hnone] at hlive
    cases hlive

theorem StepCase.keeps_pending {sys sys' : Deployment} {e : DeploymentEvent} {o : DeploymentOutput}
    {c : Nat} {pending : Call × Address} (hs : StepCase sys e o sys')
    (hcalls : ∀ breakage, e ≠ .calls c breakage) (h : sys.parties.clients c = some pending) :
    sys'.parties.clients c = some pending := by
  cases hs with
  | @located c' call a binder hclient hs =>
    have hne : c ≠ c' := by
      rintro rfl
      rw [h] at hclient
      cases hclient
    exact (Function.update_of_ne hne ..).trans h
  | @calls c' call a breakage exchange outcome hclient hexchange hcall =>
    have hne : c ≠ c' := by
      rintro rfl
      exact hcalls breakage rfl
    exact (Function.update_of_ne hne ..).trans h
  | _ => exact h

end Deployment

/-- Between the two halves of a call: the address, and what the process there has
for the call. -/
structure Deployment.Pending (c : Nat) (call : Call) (a : Address) (f : Signature)
    (sys : Deployment) : Prop where
  client : sys.parties.clients c = some (call, a)
  offered : (sys.parties.hosts a).isSome = true → (sys.offered a f).isSome = true

theorem Deployment.StepCase.pending {sys sys' : Deployment} {c : Nat} {call : Call} {a : Address}
    {o : DeploymentOutput} (hs : StepCase sys (.locates c call) o sys')
    (hoffered : ∀ f, (sys.parties.hosts a).isSome = true →
      (sys.binder.servers f).contains a = true → (sys.offered a f).isSome = true)
    (hclient : sys'.parties.clients c = some (call, a)) :
    ∃ f, call.signature = some f ∧ Pending c call a f sys' := by
  cases hs with
  | unlocated hnone hs =>
    rw [show sys.parties.clients c = some (call, a) from hclient] at hnone
    cases hnone
  | @located _ _ b binder hnone hs =>
    have hupdate : (sys.parties.setClient c (some (call, b))).clients c = some (call, b) :=
      Function.update_self ..
    obtain rfl := (Prod.mk.inj (Option.some.inj (hupdate.symm.trans hclient))).2
    generalize hreply : some (RpcLibrary.located b) = reply at hs
    cases hs with
    | notFound => exact absurd (Option.some.inj hreply) (located_ne_notLocated b)
    | @found _ f p hf hp =>
      obtain rfl := located_injective (Option.some.inj hreply)
      exact ⟨f, hf, hclient, fun hlive => hoffered f hlive (pick_mem hp).2⟩

theorem Deployment.Pending.step {sys sys' : Deployment} {c : Nat} {call : Call} {a : Address}
    {f : Signature} {e : DeploymentEvent} {o : DeploymentOutput} (h : Pending c call a f sys)
    (hsound : Sound sys) (hs : StepCase sys e o sys') (hcalls : ∀ breakage, e ≠ .calls c breakage)
    (hsame : ∀ s, e ≠ .starts a s) : Pending c call a f sys' :=
  ⟨hs.keeps_pending hcalls h.client, hs.keeps_offered hsound hsame h.offered⟩

end RpcLibrary
