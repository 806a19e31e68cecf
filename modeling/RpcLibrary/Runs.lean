import Mathlib.Data.List.Basic
import Mathlib.Data.List.Induction

/-! Runs of a deterministic machine that answers one request after another.
A step that has no defined outcome ends no run. -/

namespace Runs

open scoped List

variable {σ τ ι ω : Type*}

/-- From a state the machine answers the requests of a trace, in order, with
the answers recorded beside them. -/
inductive Run (step : σ → ι → Option (ω × σ)) : σ → List (ι × ω) → σ → Prop
  | nil (s : σ) : Run step s [] s
  | cons {s t u : σ} {i : ι} {o : ω} {trace : List (ι × ω)} :
      step s i = some (o, t) → Run step t trace u → Run step s ((i, o) :: trace) u

def exec (step : σ → ι → Option (ω × σ)) (s : σ) : List ι → Option (List (ι × ω) × σ)
  | [] => some ([], s)
  | i :: is =>
    match step s i with
    | none => none
    | some (o, t) =>
      match exec step t is with
      | none => none
      | some (trace, u) => some ((i, o) :: trace, u)

theorem Run.of_exec {step : σ → ι → Option (ω × σ)} {s u : σ} {is : List ι}
    {trace : List (ι × ω)} (h : exec step s is = some (trace, u)) : Run step s trace u := by
  induction is generalizing s trace with
  | nil =>
    simp only [exec, Option.some.injEq, Prod.mk.injEq] at h
    obtain ⟨rfl, rfl⟩ := h
    exact .nil _
  | cons i is ih =>
    cases hs : step s i with
    | none => simp [exec, hs] at h
    | some r =>
      obtain ⟨o, t⟩ := r
      cases he : exec step t is with
      | none => simp [exec, hs, he] at h
      | some r =>
        obtain ⟨rest, v⟩ := r
        simp only [exec, hs, he, Option.some.injEq, Prod.mk.injEq] at h
        obtain ⟨rfl, rfl⟩ := h
        exact .cons hs (ih he)

theorem Run.of_exec_map {step : σ → ι → Option (ω × σ)} {s : σ} {trace : List (ι × ω)}
    {α : Type*} {f : σ → α} {a : α}
    (h : (exec step s (trace.map Prod.fst)).map (fun r => (r.1, f r.2)) = some (trace, a)) :
    ∃ u, Run step s trace u ∧ f u = a := by
  obtain ⟨r, hr, he⟩ := Option.map_eq_some_iff.mp h
  obtain ⟨rfl, rfl⟩ := Prod.mk.inj he
  exact ⟨r.2, .of_exec hr, rfl⟩

theorem Run.append {step : σ → ι → Option (ω × σ)} {s t u : σ} {a b : List (ι × ω)}
    (h : Run step s a t) (h' : Run step t b u) : Run step s (a ++ b) u := by
  induction h with
  | nil => exact h'
  | cons hs _ ih => exact .cons hs (ih h')

theorem Run.split {step : σ → ι → Option (ω × σ)} {s u : σ} {a b : List (ι × ω)}
    (h : Run step s (a ++ b) u) : ∃ t, Run step s a t ∧ Run step t b u := by
  induction a generalizing s with
  | nil => exact ⟨s, .nil s, h⟩
  | cons e a ih =>
    cases h with
    | cons hs hr =>
      obtain ⟨t, ha, hb⟩ := ih hr
      exact ⟨t, .cons hs ha, hb⟩

theorem Run.single {step : σ → ι → Option (ω × σ)} {s t : σ} {i : ι} {o : ω}
    (h : step s i = some (o, t)) : Run step s [(i, o)] t := .cons h (.nil t)

theorem Run.step_of_single {step : σ → ι → Option (ω × σ)} {s t : σ} {i : ι} {o : ω}
    (h : Run step s [(i, o)] t) : step s i = some (o, t) := by
  cases h with
  | cons hs hr =>
    cases hr
    exact hs

theorem Run.deterministic {step : σ → ι → Option (ω × σ)} {s t u : σ} {trace : List (ι × ω)}
    (h : Run step s trace t) (h' : Run step s trace u) : t = u := by
  induction h with
  | nil => cases h'; rfl
  | cons hs _ ih =>
    cases h' with
    | cons hs' hr' =>
      obtain ⟨-, rfl⟩ := Prod.mk.inj (Option.some.inj (hs.symm.trans hs'))
      exact ih hr'

theorem Run.step_at {step : σ → ι → Option (ω × σ)} {s a u : σ} {i : ι} {o : ω}
    {past future : List (ι × ω)} (h : Run step s (past ++ (i, o) :: future) u)
    (hp : Run step s past a) : ∃ b, step a i = some (o, b) ∧ Run step b future u := by
  obtain ⟨a', hp', hf⟩ := h.split
  obtain rfl := hp.deterministic hp'
  cases hf with
  | cons hs hr => exact ⟨_, hs, hr⟩

/-- The induction every result about whole runs uses: a fact about the history
so far and the state reached, true at the start and kept by each further step,
is true of every run. -/
theorem Run.history {step : σ → ι → Option (ω × σ)} {P : List (ι × ω) → σ → Prop} {s u : σ}
    {trace : List (ι × ω)} (hrun : Run step s trace u) (hinit : P [] s)
    (hstep : ∀ past a i o b, Run step s past a → P past a → step a i = some (o, b) →
      P (past ++ [(i, o)]) b) : P trace u := by
  induction trace using List.reverseRecOn generalizing u with
  | nil => cases hrun; exact hinit
  | append_singleton past e ih =>
    obtain ⟨t, hp, he⟩ := hrun.split
    exact hstep past t e.1 e.2 u hp (ih hp) he.step_of_single

/-- Some requests lead from one state to another. -/
def Leads (step : σ → ι → Option (ω × σ)) (s t : σ) : Prop := ∃ trace, Run step s trace t

theorem Leads.refl (step : σ → ι → Option (ω × σ)) (s : σ) : Leads step s s := ⟨[], .nil s⟩

theorem Leads.trans {step : σ → ι → Option (ω × σ)} {s t u : σ} (h : Leads step s t)
    (h' : Leads step t u) : Leads step s u := by
  obtain ⟨a, ha⟩ := h
  obtain ⟨b, hb⟩ := h'
  exact ⟨a ++ b, ha.append hb⟩

/-- An invariant of the steps goes along with whatever they lead to. -/
theorem Leads.invariant {step : σ → ι → Option (ω × σ)} {P : σ → Prop} {s t : σ}
    (h : Leads step s t) (hs : P s)
    (hstep : ∀ {a b : σ} {i : ι} {o : ω}, P a → step a i = some (o, b) → P b) : P t := by
  obtain ⟨trace, hrun⟩ := h
  exact hrun.history (P := fun _ a => P a) hs fun _ _ _ _ _ _ ha hab => hstep ha hab

/-- What each step conserves a run conserves: what is held at its start and comes
in on the way is what is held at its end and went out on the way. -/
theorem Run.conserved {α : Type*} {step : σ → ι → Option (ω × σ)} {holds : σ → List α}
    {comes goes : ω → List α} {s u : σ} {trace : List (ι × ω)} (hrun : Run step s trace u)
    (hstep : ∀ past a i o b, Run step s past a → step a i = some (o, b) →
      holds a ++ comes o ~ holds b ++ goes o) :
    (holds s ++ trace.flatMap fun e => comes e.2) ~ holds u ++ trace.flatMap fun e => goes e.2 := by
  refine hrun.history (P := fun past b => (holds s ++ past.flatMap fun e => comes e.2) ~
    holds b ++ past.flatMap fun e => goes e.2) (.refl _) ?_
  intro past a i o b hr ih hs
  have hlast := hstep past a i o b hr hs
  simp only [List.flatMap_append, List.flatMap_singleton]
  calc holds s ++ ((past.flatMap fun e => comes e.2) ++ comes o)
    _ = (holds s ++ past.flatMap fun e => comes e.2) ++ comes o := (List.append_assoc ..).symm
    _ ~ ((holds a ++ past.flatMap fun e => goes e.2) ++ comes o) := ih.append_right _
    _ ~ ((past.flatMap fun e => goes e.2) ++ (holds a ++ comes o)) := by
      rw [← List.append_assoc]
      exact List.perm_append_comm.append_right _
    _ ~ ((past.flatMap fun e => goes e.2) ++ (holds b ++ goes o)) := hlast.append_left _
    _ ~ (holds b ++ ((past.flatMap fun e => goes e.2) ++ goes o)) := by
      rw [← List.append_assoc, ← List.append_assoc]
      exact List.perm_append_comm.append_right _

/-- Every step of a trace starts in a state that meets a condition together
with its request. -/
def EachStep (step : σ → ι → Option (ω × σ)) (P : σ → ι → Prop) (s : σ)
    (trace : List (ι × ω)) : Prop :=
  ∀ past i o future a, trace = past ++ (i, o) :: future → Run step s past a → P a i

theorem EachStep.nil (step : σ → ι → Option (ω × σ)) (P : σ → ι → Prop) (s : σ) :
    EachStep step P s [] := by
  intro past i o future a h
  simp at h

theorem EachStep.cons {step : σ → ι → Option (ω × σ)} {P : σ → ι → Prop} {s : σ} {i : ι} {o : ω}
    {trace : List (ι × ω)} (h : P s i)
    (hrest : ∀ t, step s i = some (o, t) → EachStep step P t trace) :
    EachStep step P s ((i, o) :: trace) := by
  intro past j p future a he hr
  cases past with
  | nil =>
    obtain ⟨⟨rfl, -⟩, -⟩ := List.cons.inj he |>.imp_left Prod.mk.inj
    cases hr
    exact h
  | cons e past =>
    obtain ⟨rfl, rfl⟩ := List.cons.inj he
    cases hr with
    | cons hs hr => exact hrest _ hs past j p future a rfl hr

/-- The condition checked along the steps that some requests lead through. -/
def checkEach (step : σ → ι → Option (ω × σ)) (p : σ → ι → Bool) (s : σ) : List ι → Bool
  | [] => true
  | i :: is =>
    p s i && match step s i with
      | none => true
      | some (_, t) => checkEach step p t is

theorem EachStep.of_check {step : σ → ι → Option (ω × σ)} {P : σ → ι → Prop}
    [∀ s i, Decidable (P s i)] {s : σ} {trace : List (ι × ω)}
    (h : checkEach step (fun s i => decide (P s i)) s (trace.map Prod.fst) = true) :
    EachStep step P s trace := by
  induction trace generalizing s with
  | nil => exact .nil _ _ _
  | cons e trace ih =>
    simp only [List.map_cons, checkEach, Bool.and_eq_true, decide_eq_true_eq] at h
    obtain ⟨hp, hrest⟩ := h
    refine .cons hp fun t hs => ih ?_
    rw [hs] at hrest
    exact hrest

theorem EachStep.of_append {step : σ → ι → Option (ω × σ)} {P : σ → ι → Prop} {s : σ}
    {past future : List (ι × ω)} (h : EachStep step P s (past ++ future)) :
    EachStep step P s past := by
  intro before i o after a he hr
  exact h before i o (after ++ future) a (by simp [he]) hr

theorem EachStep.after {step : σ → ι → Option (ω × σ)} {P : σ → ι → Prop} {s a : σ}
    {past future : List (ι × ω)} (h : EachStep step P s (past ++ future))
    (hrun : Run step s past a) : EachStep step P a future := by
  rintro before i o after b rfl hr
  exact h (past ++ before) i o after b (List.append_assoc ..).symm (hrun.append hr)

theorem EachStep.last {step : σ → ι → Option (ω × σ)} {P : σ → ι → Prop} {s a : σ} {i : ι} {o : ω}
    {past : List (ι × ω)} (h : EachStep step P s (past ++ [(i, o)])) (hrun : Run step s past a) :
    P a i := h past i o [] a rfl hrun

theorem EachStep.concat_iff {step : σ → ι → Option (ω × σ)} {P : σ → ι → Prop} {s a : σ} {i : ι}
    {o : ω} {past : List (ι × ω)} (hrun : Run step s past a) :
    EachStep step P s (past ++ [(i, o)]) ↔ EachStep step P s past ∧ P a i := by
  refine ⟨fun h => ⟨h.of_append, h.last hrun⟩, fun ⟨hpast, hlast⟩ => ?_⟩
  intro before j p future b he hr
  induction future using List.reverseRecOn with
  | nil =>
    obtain ⟨rfl, hj⟩ := List.append_inj' he rfl
    obtain ⟨rfl, -⟩ := Prod.mk.inj (List.singleton_inj.mp hj)
    obtain rfl := hrun.deterministic hr
    exact hlast
  | append_singleton future e =>
    rw [← List.cons_append, ← List.append_assoc] at he
    exact hpast before j p future b (List.append_inj' he rfl).1 hr

/-- A property that a run keeps as long as its steps meet a condition, and that
nothing restores, tells whether they all did. -/
theorem Run.holds_iff_each {step : σ → ι → Option (ω × σ)} {P : σ → Prop} {C : σ → ι → Prop}
    {s u : σ} {trace : List (ι × ω)} (hrun : Run step s trace u) (hinit : P s)
    (hstep : ∀ past a i o b, Run step s past a → step a i = some (o, b) → (P b ↔ P a ∧ C a i)) :
    P u ↔ EachStep step C s trace := by
  refine hrun.history (P := fun past a => P a ↔ EachStep step C s past)
    (iff_of_true hinit (.nil _ _ _)) fun past a i o b hr ih hs => ?_
  rw [EachStep.concat_iff hr, hstep past a i o b hr hs, ih]

theorem Run.history_of_each {step : σ → ι → Option (ω × σ)} {C : σ → ι → Prop}
    {P : List (ι × ω) → σ → Prop} {s u : σ} {trace : List (ι × ω)} (hrun : Run step s trace u)
    (heach : EachStep step C s trace) (hinit : P [] s)
    (hstep : ∀ past a i o b, Run step s past a → P past a → C a i → step a i = some (o, b) →
      P (past ++ [(i, o)]) b) : P trace u := by
  refine hrun.history (P := fun past a => EachStep step C s past → P past a) (fun _ => hinit)
    (fun past a i o b hr hp hs he => ?_) heach
  exact hstep past a i o b hr (hp he.of_append) (he.last hr) hs

/-- A machine refines another where every step it takes under a condition is a
run of the other between related states: then its runs are runs of the other. -/
theorem Run.refine {κ χ : Type*} {step : σ → ι → Option (ω × σ)}
    {step' : τ → κ → Option (χ × τ)} {R : σ → τ → Prop} {C : σ → ι → Prop}
    {f : ι × ω → List (κ × χ)} {s u : σ} {t : τ} {trace : List (ι × ω)} (hrun : Run step s trace u)
    (heach : EachStep step C s trace) (h : R s t)
    (hstep : ∀ {a b i o c}, R a c → C a i → step a i = some (o, b) →
      ∃ d, Run step' c (f (i, o)) d ∧ R b d) :
    ∃ v, Run step' t (trace.flatMap f) v ∧ R u v := by
  refine hrun.history_of_each
    (P := fun past a => ∃ v, Run step' t (past.flatMap f) v ∧ R a v) heach ⟨t, .nil t, h⟩ ?_
  rintro past a i o b - ⟨c, hpast, hc⟩ hi hs
  obtain ⟨d, hd, hb⟩ := hstep hc hi hs
  rw [List.flatMap_append, List.flatMap_singleton]
  exact ⟨d, hpast.append hd, hb⟩

/-- Where every step keeps an invariant and lowers a measure, a run has no more
steps than the measure says. -/
theorem Run.length_le {step : σ → ι → Option (ω × σ)} {C : σ → ι → Prop} {P : σ → Prop}
    {measure : σ → Nat} {s u : σ} {trace : List (ι × ω)} (hrun : Run step s trace u)
    (heach : EachStep step C s trace) (hs : P s)
    (hstep : ∀ {a b i o}, P a → C a i → step a i = some (o, b) → P b ∧ measure b < measure a) :
    trace.length + measure u ≤ measure s := by
  refine (hrun.history_of_each
    (P := fun past a => P a ∧ past.length + measure a ≤ measure s) heach ⟨hs, by simp⟩ ?_).2
  rintro past a i o b - ⟨ha, hpast⟩ hi hab
  obtain ⟨hb, hlower⟩ := hstep ha hi hab
  refine ⟨hb, ?_⟩
  rw [List.length_append, List.length_singleton]
  omega

/-- A property holds in every state a run goes through. -/
def Throughout (step : σ → ι → Option (ω × σ)) (P : σ → Prop) (s : σ) (trace : List (ι × ω)) :
    Prop :=
  ∀ past future a, trace = past ++ future → Run step s past a → P a

theorem Throughout.first {step : σ → ι → Option (ω × σ)} {P : σ → Prop} {s : σ}
    {trace : List (ι × ω)} (h : Throughout step P s trace) : P s := h [] trace s rfl (.nil s)

theorem Throughout.rest {step : σ → ι → Option (ω × σ)} {P : σ → Prop} {s t : σ} {i : ι} {o : ω}
    {trace : List (ι × ω)} (h : Throughout step P s ((i, o) :: trace))
    (hs : step s i = some (o, t)) : Throughout step P t trace := by
  rintro past future a rfl hr
  exact h ((i, o) :: past) future a rfl (.cons hs hr)

def checkThroughout (step : σ → ι → Option (ω × σ)) (p : σ → Bool) (s : σ) : List ι → Bool
  | [] => p s
  | i :: is =>
    p s && match step s i with
      | none => true
      | some (_, t) => checkThroughout step p t is

theorem Throughout.of_check {step : σ → ι → Option (ω × σ)} {P : σ → Prop}
    [∀ s, Decidable (P s)] {s : σ} {trace : List (ι × ω)}
    (h : checkThroughout step (fun s => decide (P s)) s (trace.map Prod.fst) = true) :
    Throughout step P s trace := by
  rintro past future a rfl hr
  induction past generalizing s with
  | nil =>
    cases hr
    cases future with
    | nil => exact of_decide_eq_true h
    | cons e future =>
      simp only [List.nil_append, List.map_cons, checkThroughout, Bool.and_eq_true,
        decide_eq_true_eq] at h
      exact h.1
  | cons e past ih =>
    cases hr with
    | cons hs hr =>
      simp only [List.cons_append, List.map_cons, checkThroughout, Bool.and_eq_true, hs] at h
      exact ih h.2 hr

theorem Run.trace_unique {step : σ → ι → Option (ω × σ)} {s t u : σ} {a b : List (ι × ω)}
    (h : Run step s a t) (h' : Run step s b u) (he : a.map Prod.fst = b.map Prod.fst) : a = b := by
  induction h generalizing b with
  | nil => exact (List.map_eq_nil_iff.mp he.symm).symm
  | cons hs _ ih =>
    cases h' with
    | nil => cases he
    | cons hs' hr' =>
      obtain ⟨rfl, hrest⟩ := List.cons.inj he
      obtain ⟨rfl, rfl⟩ := Prod.mk.inj (Option.some.inj (hs.symm.trans hs'))
      rw [ih hr' hrest]

/-- Related states answer alike and stay related. -/
def Simulation (step : σ → ι → Option (ω × σ)) (R : σ → σ → Prop) : Prop :=
  ∀ {s t s' : σ} {i : ι} {o : ω}, R s t → step s i = some (o, s') →
    ∃ t', step t i = some (o, t') ∧ R s' t'

theorem Run.simulate {step : σ → ι → Option (ω × σ)} {R : σ → σ → Prop} {s t u : σ}
    {trace : List (ι × ω)} (hrun : Run step s trace u) (hsim : Simulation step R) (h : R s t) :
    ∃ v, Run step t trace v ∧ R u v := by
  induction hrun generalizing t with
  | nil => exact ⟨t, .nil t, h⟩
  | cons hs _ ih =>
    obtain ⟨t', ht, h'⟩ := hsim h hs
    obtain ⟨v, hrun', hv⟩ := ih h'
    exact ⟨v, .cons ht hrun', hv⟩

/-- Two states from which the same requests get the same answers. -/
def Indistinguishable (step : σ → ι → Option (ω × σ)) (s t : σ) : Prop :=
  ∀ trace, (∃ u, Run step s trace u) ↔ ∃ u, Run step t trace u

theorem Simulation.indistinguishable {step : σ → ι → Option (ω × σ)} {R : σ → σ → Prop}
    (hsim : Simulation step R) (hsymm : ∀ {s t}, R s t → R t s) {s t : σ} (h : R s t) :
    Indistinguishable step s t := by
  intro trace
  constructor
  · rintro ⟨u, hrun⟩
    obtain ⟨v, hrun', -⟩ := hrun.simulate hsim h
    exact ⟨v, hrun'⟩
  · rintro ⟨u, hrun⟩
    obtain ⟨v, hrun', -⟩ := hrun.simulate hsim (hsymm h)
    exact ⟨v, hrun'⟩

/-- Something matching `P` happened, and nothing matching `Q` since. -/
def Since {ε : Type*} (P Q : ε → Prop) (past : List ε) : Prop :=
  ∃ before e after, past = before ++ e :: after ∧ P e ∧ ∀ x ∈ after, ¬ Q x

theorem not_since_nil {ε : Type*} {P Q : ε → Prop} : ¬ Since P Q [] := by
  rintro ⟨before, e, after, h, -⟩
  simp at h

theorem since_append_singleton {ε : Type*} {P Q : ε → Prop} {past : List ε} {e : ε} :
    Since P Q (past ++ [e]) ↔ P e ∨ (Since P Q past ∧ ¬ Q e) := by
  constructor
  · rintro ⟨before, x, after, h, hx, hafter⟩
    rcases List.eq_nil_or_concat after with rfl | ⟨after, y, rfl⟩
    · obtain ⟨-, he⟩ := List.append_inj' h rfl
      exact .inl ((List.cons.inj he).1 ▸ hx)
    · rw [List.concat_eq_append, ← List.cons_append, ← List.append_assoc] at h
      obtain ⟨rfl, he⟩ := List.append_inj' h rfl
      obtain rfl := (List.cons.inj he).1
      exact .inr ⟨⟨before, x, after, rfl, hx, fun z hz => hafter z (by simp [hz])⟩,
        hafter e (by simp)⟩
  · rintro (he | ⟨⟨before, x, after, rfl, hx, hafter⟩, he⟩)
    · exact ⟨past, e, [], rfl, he, by simp⟩
    · refine ⟨before, x, after ++ [e], by simp, hx, fun z hz => ?_⟩
      rcases List.mem_append.mp hz with hz | hz
      · exact hafter z hz
      · exact List.mem_singleton.mp hz ▸ he

theorem Since.mono {ε : Type*} {P P' Q : ε → Prop} {past : List ε} (h : Since P Q past)
    (hp : ∀ e, P e → P' e) : Since P' Q past := by
  obtain ⟨before, e, after, he, hpe, ha⟩ := h
  exact ⟨before, e, after, he, hp e hpe, ha⟩

theorem Since.exists_mem {ε : Type*} {P Q : ε → Prop} {past : List ε} (h : Since P Q past) :
    ∃ e ∈ past, P e := by
  obtain ⟨before, e, after, rfl, he, -⟩ := h
  exact ⟨e, by simp, he⟩

theorem Since.happened {ε : Type*} {P Q : ε → Prop} {past : List ε} {e : ε} (h : P e) :
    Since P Q (past ++ [e]) := since_append_singleton.mpr (.inl h)

theorem Since.keep {ε : Type*} {P Q : ε → Prop} {past : List ε} {e : ε} (h : Since P Q past)
    (he : ¬ Q e) : Since P Q (past ++ [e]) := since_append_singleton.mpr (.inr ⟨h, he⟩)

/-- A trace without those of its events that meet a condition together with the
events before them. -/
inductive Without {ε : Type*} (D : List ε → ε → Prop) : List ε → List ε → Prop
  | nil : Without D [] []
  | dropped {past rest : List ε} {e : ε} :
      Without D past rest → D past e → Without D (past ++ [e]) rest
  | kept {past rest : List ε} {e : ε} :
      Without D past rest → ¬ D past e → Without D (past ++ [e]) (rest ++ [e])

theorem Without.sublist {ε : Type*} {D : List ε → ε → Prop} {past rest : List ε}
    (h : Without D past rest) : List.Sublist rest past := by
  induction h with
  | nil => exact .slnil
  | dropped _ _ ih => exact ih.trans (List.sublist_append_left _ _)
  | kept _ _ ih => exact ih.append_right _

theorem without_append_singleton {ε : Type*} {D : List ε → ε → Prop} {past rest : List ε} {e : ε}
    (h : Without D (past ++ [e]) rest) :
    (D past e ∧ Without D past rest) ∨
      (¬ D past e ∧ ∃ before, rest = before ++ [e] ∧ Without D past before) := by
  generalize hp : past ++ [e] = trace at h
  cases h with
  | nil => simp at hp
  | dropped h hd =>
    obtain ⟨rfl, he⟩ := List.append_inj' hp rfl
    obtain rfl := (List.cons.inj he).1
    exact .inl ⟨hd, h⟩
  | kept h hd =>
    obtain ⟨rfl, he⟩ := List.append_inj' hp rfl
    obtain rfl := (List.cons.inj he).1
    exact .inr ⟨hd, _, rfl, h⟩

end Runs
