import Mathlib.Logic.Function.Basic
import RpcLibrary.Runs

/-! Concurrent calls of one sequential object. The calls may overlap, and each of
them takes effect at one moment between its call and its return. -/

namespace Linearizability

open Runs

variable {σ κ ι ω : Type*}

/-- What can be seen from outside. A caller that joins gives up a call it has
pending, and one that leaves is found gone. -/
inductive Visible (κ ι ω : Type*)
  | calls (k : κ) (i : ι)
  | returns (k : κ) (o : ω)
  | joins (k : κ)
  | leaves (k : κ)

def Visible.caller : Visible κ ι ω → κ
  | calls k _ => k
  | returns k _ => k
  | joins k => k
  | leaves k => k

/-- A visible event, or a moment at which the object changes: for a call that is
pending, or where a caller leaves. -/
inductive Mark (κ ι ω : Type*)
  | visible (v : Visible κ ι ω)
  | commits (k : κ) (i : ι) (o : ω)
  | leaves (k : κ) (i : ι) (o : ω)

def Mark.visible? : Mark κ ι ω → Option (Visible κ ι ω)
  | visible v => some v
  | commits _ _ _ => none
  | leaves k _ _ => some (.leaves k)

def Mark.effect? : Mark κ ι ω → Option (ι × ω)
  | visible _ => none
  | commits _ i o => some (i, o)
  | leaves _ i o => some (i, o)

def visibles (marks : List (Mark κ ι ω)) : List (Visible κ ι ω) := marks.filterMap Mark.visible?

def effects (marks : List (Mark κ ι ω)) : List (ι × ω) := marks.filterMap Mark.effect?

@[simp] theorem effects_nil : effects ([] : List (Mark κ ι ω)) = [] := rfl

@[simp] theorem effects_visible (v : Visible κ ι ω) (marks : List (Mark κ ι ω)) :
    effects (.visible v :: marks) = effects marks := rfl

@[simp] theorem effects_commits (k : κ) (i : ι) (o : ω) (marks : List (Mark κ ι ω)) :
    effects (.commits k i o :: marks) = (i, o) :: effects marks := rfl

@[simp] theorem effects_leaves (k : κ) (i : ι) (o : ω) (marks : List (Mark κ ι ω)) :
    effects (.leaves k i o :: marks) = (i, o) :: effects marks := rfl

@[simp] theorem effects_append (a b : List (Mark κ ι ω)) :
    effects (a ++ b) = effects a ++ effects b := List.filterMap_append

/-- Where one caller stands: its call is pending, or has taken effect already. -/
inductive CallerPhase (ι ω : Type*)
  | idle
  | called (i : ι)
  | committed (o : ω)

variable [DecidableEq κ] {leave : κ → ι × ω}

/-- Every call takes effect once, after it was made and before it returns, and it
returns what its effect answered. Nothing else takes effect but what a caller that
leaves brings with it. -/
inductive Advance (leave : κ → ι × ω) (p : κ → CallerPhase ι ω) :
    Mark κ ι ω → (κ → CallerPhase ι ω) → Prop
  | calls {k : κ} {i : ι} (h : p k = .idle) :
      Advance leave p (.visible (.calls k i)) (Function.update p k (.called i))
  | commits {k : κ} {i : ι} {o : ω} (h : p k = .called i) :
      Advance leave p (.commits k i o) (Function.update p k (.committed o))
  | returns {k : κ} {o : ω} (h : p k = .committed o) :
      Advance leave p (.visible (.returns k o)) (Function.update p k .idle)
  | joins {k : κ} : Advance leave p (.visible (.joins k)) (Function.update p k .idle)
  | leaves {k : κ} {i : ι} {o : ω} (h : leave k = (i, o)) : Advance leave p (.leaves k i o) p

inductive Marked (leave : κ → ι × ω) :
    (κ → CallerPhase ι ω) → List (Mark κ ι ω) → (κ → CallerPhase ι ω) → Prop
  | nil (p : κ → CallerPhase ι ω) : Marked leave p [] p
  | cons {p q r : κ → CallerPhase ι ω} {m : Mark κ ι ω} {marks : List (Mark κ ι ω)} :
      Advance leave p m q → Marked leave q marks r → Marked leave p (m :: marks) r

theorem Marked.single {p q : κ → CallerPhase ι ω} {m : Mark κ ι ω} (h : Advance leave p m q) :
    Marked leave p [m] q := .cons h (.nil q)

theorem Marked.append {p q r : κ → CallerPhase ι ω} {a b : List (Mark κ ι ω)}
    (h : Marked leave p a q) (h' : Marked leave q b r) : Marked leave p (a ++ b) r := by
  induction h with
  | nil => exact h'
  | cons ha _ ih => exact .cons ha (ih h')

theorem Marked.split {p r : κ → CallerPhase ι ω} {a b : List (Mark κ ι ω)}
    (h : Marked leave p (a ++ b) r) : ∃ q, Marked leave p a q ∧ Marked leave q b r := by
  induction a generalizing p with
  | nil => exact ⟨p, .nil p, h⟩
  | cons m a ih =>
    cases h with
    | cons hm hr =>
      obtain ⟨q, ha, hb⟩ := ih hr
      exact ⟨q, .cons hm ha, hb⟩

/-- What the callers see can be explained by moments at which their calls took
effect, one after the other, on the object alone. -/
def Linearizable (leave : κ → ι × ω) (step : σ → ι → Option (ω × σ)) (s : σ)
    (history : List (Visible κ ι ω)) : Prop :=
  ∃ marks phases u, Marked leave (fun _ => .idle) marks phases ∧ visibles marks = history ∧
    Run step s (effects marks) u

theorem Advance.phase_of_ne {p q : κ → CallerPhase ι ω} {m : Mark κ ι ω} {k : κ}
    (h : Advance leave p m q) (hv : ∀ v, m = .visible v → v.caller ≠ k)
    (hc : ∀ i o, m ≠ .commits k i o) : q k = p k := by
  cases h with
  | calls => exact Function.update_of_ne (hv _ rfl).symm _ _
  | @commits k' i o =>
    by_cases hk : k = k'
    · subst hk
      exact absurd rfl (hc i o)
    · exact Function.update_of_ne hk _ _
  | returns => exact Function.update_of_ne (hv _ rfl).symm _ _
  | joins => exact Function.update_of_ne (hv _ rfl).symm _ _
  | leaves => rfl

theorem Marked.committed_stays {p q : κ → CallerPhase ι ω} {marks : List (Mark κ ι ω)} {k : κ}
    {o : ω} (h : Marked leave p marks q) (hp : p k = .committed o)
    (hv : ∀ v, .visible v ∈ marks → v.caller ≠ k) : q k = .committed o := by
  induction h with
  | nil => exact hp
  | @cons p q r m marks hm _ ih =>
    refine ih ?_ fun v hmem => hv v (List.mem_cons_of_mem _ hmem)
    rw [hm.phase_of_ne, hp]
    · rintro v rfl
      exact hv v List.mem_cons_self
    · rintro i' o' rfl
      cases hm with
      | commits h => cases hp.symm.trans h

theorem phase_before_update {p : κ → CallerPhase ι ω} {k k' : κ} {c d : CallerPhase ι ω}
    (hc : c ≠ d) (hk : Function.update p k' c k = d) : p k = d := by
  by_cases hkk : k = k'
  · subst hkk
    rw [Function.update_self] at hk
    exact absurd hk hc
  · rwa [Function.update_of_ne hkk] at hk

/-- Nothing takes effect that no caller asked for or left behind. -/
theorem Marked.asked {p q : κ → CallerPhase ι ω} {marks : List (Mark κ ι ω)} {i : ι} {o : ω}
    (h : Marked leave p marks q) (he : (i, o) ∈ effects marks) :
    (∃ k, p k = .called i) ∨ (∃ k, .calls k i ∈ visibles marks) ∨
      ∃ k, .leaves k ∈ visibles marks ∧ leave k = (i, o) := by
  induction h with
  | nil => cases he
  | @cons p q r m marks hm _ ih =>
    have hlater (he : (i, o) ∈ effects marks) (hq : ∀ k, q k = .called i → p k = .called i ∨
        .calls k i ∈ visibles (m :: marks)) : (∃ k, p k = .called i) ∨
          (∃ k, .calls k i ∈ visibles (m :: marks)) ∨
            ∃ k, .leaves k ∈ visibles (m :: marks) ∧ leave k = (i, o) := by
      have hmem {v : Visible κ ι ω} (hv : v ∈ visibles marks) : v ∈ visibles (m :: marks) :=
        (List.Sublist.filterMap _ (List.sublist_cons_self m marks)).subset hv
      rcases ih he with ⟨k, hk⟩ | ⟨k, hk⟩ | ⟨k, hk, hl⟩
      · exact (hq k hk).imp (fun h => ⟨k, h⟩) fun h => .inl ⟨k, h⟩
      · exact .inr (.inl ⟨k, hmem hk⟩)
      · exact .inr (.inr ⟨k, hmem hk, hl⟩)
    cases hm with
    | @calls k' i' hidle =>
      refine hlater he fun k hk => ?_
      by_cases hi : i' = i
      · subst hi
        by_cases hkk : k = k'
        · subst hkk
          exact .inr List.mem_cons_self
        · exact .inl (by rwa [Function.update_of_ne hkk] at hk)
      · exact .inl (phase_before_update (fun hc => hi (CallerPhase.called.inj hc)) hk)
    | @commits k' i' o' hcalled =>
      rcases List.mem_cons.mp he with he | he
      · obtain ⟨rfl, rfl⟩ := Prod.mk.inj he
        exact .inl ⟨k', hcalled⟩
      · exact hlater he fun k hk => .inl (phase_before_update (by simp) hk)
    | returns => exact hlater he fun k hk => .inl (phase_before_update (by simp) hk)
    | joins => exact hlater he fun k hk => .inl (phase_before_update (by simp) hk)
    | @leaves k' i' o' hl =>
      rcases List.mem_cons.mp he with he | he
      · obtain ⟨rfl, rfl⟩ := Prod.mk.inj he
        exact .inr (.inr ⟨k', List.mem_cons_self, hl⟩)
      · exact hlater he fun k hk => .inl hk

theorem Marked.answered {p q : κ → CallerPhase ι ω} {marks : List (Mark κ ι ω)} {k : κ} {o : ω}
    (h : Marked leave p marks q) (hr : .returns k o ∈ visibles marks) :
    p k = .committed o ∨ ∃ i, (i, o) ∈ effects marks := by
  induction h with
  | nil => cases hr
  | @cons p q r m marks hm _ ih =>
    cases hm with
    | calls =>
      have hr' := (List.mem_cons.mp hr).resolve_left (by simp)
      exact (ih hr').imp_left (phase_before_update (by simp))
    | @commits k' i' o' hcalled =>
      rcases ih hr with hq | ⟨i, hi⟩
      · by_cases ho : o' = o
        · subst ho
          exact .inr ⟨i', List.mem_cons_self⟩
        · exact .inl (phase_before_update (fun hc => ho (CallerPhase.committed.inj hc)) hq)
      · exact .inr ⟨i, List.mem_cons_of_mem _ hi⟩
    | @returns k' o' hcommitted =>
      rcases List.mem_cons.mp hr with he | hr'
      · obtain ⟨rfl, rfl⟩ := Visible.returns.inj he
        exact .inl hcommitted
      · exact (ih hr').imp_left (phase_before_update (by simp))
    | joins =>
      have hr' := (List.mem_cons.mp hr).resolve_left (by simp)
      exact (ih hr').imp_left (phase_before_update (by simp))
    | leaves =>
      have hr' := (List.mem_cons.mp hr).resolve_left (by simp)
      exact (ih hr').imp_right fun ⟨i, hi⟩ => ⟨i, List.mem_cons_of_mem _ hi⟩

/-- While a caller neither calls, nor returns, nor joins, its pending call takes
effect at most once. -/
theorem Marked.pending {p q : κ → CallerPhase ι ω} {marks : List (Mark κ ι ω)} {k : κ} {i : ι}
    (h : Marked leave p marks q) (hp : p k = .called i)
    (hv : ∀ v, .visible v ∈ marks → v.caller ≠ k) :
    q k = .called i ∨ ∃ o before after, q k = .committed o ∧
      marks = before ++ .commits k i o :: after := by
  induction h with
  | nil => exact .inl hp
  | @cons p q r m marks hm hrest ih =>
    have hrestv : ∀ v, .visible v ∈ marks → v.caller ≠ k :=
      fun v hmem => hv v (List.mem_cons_of_mem _ hmem)
    by_cases hc : ∃ i' o, m = .commits k i' o
    · obtain ⟨i', o, rfl⟩ := hc
      obtain ⟨hcalled, hq⟩ : p k = .called i' ∧ q k = .committed o := by
        cases hm with
        | commits h => exact ⟨h, Function.update_self ..⟩
      obtain rfl := CallerPhase.called.inj (hp.symm.trans hcalled)
      exact .inr ⟨o, [], marks, hrest.committed_stays hq hrestv, rfl⟩
    · have hq : q k = .called i := by
        rw [hm.phase_of_ne (fun v he => hv v (he ▸ List.mem_cons_self))
          fun i' o he => hc ⟨i', o, he⟩, hp]
      rcases ih hq hrestv with hr | ⟨o, before, after, hr, rfl⟩
      · exact .inl hr
      · exact .inr ⟨o, m :: before, after, hr, rfl⟩

/-- A call that returned took effect between its call and its return, with the
answer it returned. -/
theorem Marked.commit_between {p q : κ → CallerPhase ι ω} {a c d : List (Mark κ ι ω)} {k : κ}
    {i : ι} {o : ω}
    (h : Marked leave p (a ++ .visible (.calls k i) :: (c ++ .visible (.returns k o) :: d)) q)
    (hv : ∀ v, .visible v ∈ c → v.caller ≠ k) :
    ∃ before after, c = before ++ .commits k i o :: after := by
  obtain ⟨p₁, -, h⟩ := h.split
  cases h with
  | cons hcall h =>
    obtain ⟨p₂, hc, hd⟩ := h.split
    have hcalled : ∀ {q}, Advance leave p₁ (.visible (.calls k i)) q → q k = .called i := by
      rintro q ⟨⟩
      exact Function.update_self ..
    have hreturned : p₂ k = .committed o := by
      cases hd with
      | cons hr _ =>
        cases hr with
        | returns h => exact h
    rcases hc.pending (hcalled hcall) hv with h₂ | ⟨o', before, after, h₂, rfl⟩
    · cases hreturned.symm.trans h₂
    · obtain rfl := CallerPhase.committed.inj (hreturned.symm.trans h₂)
      exact ⟨before, after, rfl⟩

/-- Of two calls where one returned before the other was made, it also took
effect before it. -/
theorem Marked.real_time {p q : κ → CallerPhase ι ω} {a c b c' d : List (Mark κ ι ω)} {k k' : κ}
    {i i' : ι} {o o' : ω}
    (h : Marked leave p (a ++ .visible (.calls k i) :: (c ++ .visible (.returns k o) ::
      (b ++ .visible (.calls k' i') :: (c' ++ .visible (.returns k' o') :: d)))) q)
    (hv : ∀ v, .visible v ∈ c → v.caller ≠ k) (hv' : ∀ v, .visible v ∈ c' → v.caller ≠ k') :
    ∃ c₁ c₂ c₁' c₂', c = c₁ ++ .commits k i o :: c₂ ∧ c' = c₁' ++ .commits k' i' o' :: c₂' := by
  obtain ⟨c₁, c₂, hc⟩ := h.commit_between hv
  obtain ⟨p₁, -, h₁⟩ := h.split
  cases h₁ with
  | cons _ h₁ =>
    obtain ⟨p₂, -, h₂⟩ := h₁.split
    cases h₂ with
    | cons _ h₂ =>
      obtain ⟨c₁', c₂', hc'⟩ := h₂.commit_between hv'
      exact ⟨c₁, c₂, c₁', c₂', hc, hc'⟩

end Linearizability
