import Mathlib.Data.List.Rotate
import RpcLibrary.Runs

/-! Serving from a list ordered from least to most recently active. A request
says which members may serve it, and the first of these is served and moved to
the end. -/

namespace LeastRecent

open Runs

variable {α ρ : Type*} [DecidableEq α]

def touch (l : List α) (a : α) : List α := l.filter (fun b => b ≠ a) ++ [a]

theorem mem_touch {l : List α} {a b : α} : b ∈ touch l a ↔ b ∈ l ∨ b = a := by
  simp only [touch, List.mem_append, List.mem_filter, decide_eq_true_eq, List.mem_singleton]
  by_cases h : b = a <;> simp [h]

theorem nodup_touch {l : List α} (h : l.Nodup) (a : α) : (touch l a).Nodup :=
  List.Nodup.append (h.filter _) (List.nodup_singleton a) (by simp)

theorem filter_touch_of_pos {p : α → Bool} {a : α} (h : p a = true) (l : List α) :
    (touch l a).filter p = touch (l.filter p) a := by
  simp [touch, List.filter_filter, h, Bool.and_comm]

theorem filter_touch_of_neg {p : α → Bool} {a : α} (h : p a = false) (l : List α) :
    (touch l a).filter p = l.filter p := by
  have hc : ∀ b ∈ l, (p b && decide (b ≠ a)) = p b := by
    intro b _
    by_cases hb : b = a
    · simp [hb, h]
    · simp [hb]
  rw [touch, List.filter_append, List.filter_filter, List.filter_congr hc]
  simp [h]

theorem touch_head {l : List α} {a : α} (h : (a :: l).Nodup) : touch (a :: l) a = l ++ [a] := by
  have ha : l.filter (fun b => b ≠ a) = l := List.filter_eq_self.mpr fun b hb =>
    decide_eq_true fun he => (List.nodup_cons.mp h).1 (he ▸ hb)
  rw [touch, List.filter_cons_of_neg (by simp), ha]

theorem idxOf_touch_le {l : List α} {a b : α} (ha : a ∈ l) (hab : a ≠ b) :
    (touch l b).idxOf a ≤ l.idxOf a := by
  have hmem : a ∈ l.filter (fun c => c ≠ b) := by simp [ha, hab]
  rw [touch, List.idxOf_append_of_mem hmem]
  induction l with
  | nil => simp at ha
  | cons c l ih =>
    by_cases hca : c = a
    · subst hca
      simp [hab]
    · have ha' : a ∈ l := (List.mem_cons.mp ha).resolve_left (Ne.symm hca)
      have hi := ih ha' (by simp [ha', hab])
      rw [List.idxOf_cons_ne _ hca]
      by_cases hcb : c = b
      · simpa [hcb] using Nat.le_succ_of_le hi
      · rw [List.filter_cons_of_pos (by simp [hcb]), List.idxOf_cons_ne _ hca]
        exact Nat.succ_le_succ hi

/-- One request. A request that nobody may serve leaves the order alone. -/
def serve (offers : ρ → α → Bool) (l : List α) (r : ρ) : Option (Option α × List α) :=
  match l.find? (offers r) with
  | none => some (none, l)
  | some a => some (some a, touch l a)

inductive Served (offers : ρ → α → Bool) (l : List α) (r : ρ) : Option α → List α → Prop
  | nobody (h : l.filter (offers r) = []) : Served offers l r none l
  | first {a m} (h : l.filter (offers r) = a :: m) : Served offers l r (some a) (touch l a)

theorem served_of_serve {offers : ρ → α → Bool} {l l' : List α} {r : ρ} {o : Option α}
    (h : serve offers l r = some (o, l')) : Served offers l r o l' := by
  have hhead := List.head?_filter (p := offers r) (l := l)
  cases hf : l.find? (offers r) with
  | none =>
    simp only [serve, hf, Option.some.injEq, Prod.mk.injEq] at h
    obtain ⟨rfl, rfl⟩ := h
    exact .nobody (List.head?_eq_none_iff.mp (hhead.trans hf))
  | some a =>
    simp only [serve, hf, Option.some.injEq, Prod.mk.injEq] at h
    obtain ⟨rfl, rfl⟩ := h
    obtain ⟨m, hm⟩ := List.head?_eq_some_iff.mp (hhead.trans hf)
    exact .first hm

theorem Served.nodup {offers : ρ → α → Bool} {l l' : List α} {r : ρ} {o : Option α}
    (h : Served offers l r o l') (hl : l.Nodup) : l'.Nodup := by
  cases h with
  | nobody => exact hl
  | first => exact nodup_touch hl _

theorem Served.mem {offers : ρ → α → Bool} {l l' : List α} {r : ρ} {o : Option α} {a : α}
    (h : Served offers l r o l') (ha : a ∈ l) : a ∈ l' := by
  cases h with
  | nobody => exact ha
  | first => exact mem_touch.mpr (.inl ha)

/-- A request another member serves brings `a` no further back among the
members that may serve `r`, and one step closer to the front if it is `r`. -/
theorem Served.idxOf_le {offers : ρ → α → Bool} {l l' : List α} {r s : ρ} {o : Option α} {a : α}
    [DecidableEq ρ] (h : Served offers l s o l') (hl : l.Nodup) (ha : a ∈ l)
    (hr : offers r a = true) (ho : o ≠ some a) :
    (l'.filter (offers r)).idxOf a + (if s = r then 1 else 0) ≤ (l.filter (offers r)).idxOf a := by
  have hmem : a ∈ l.filter (offers r) := List.mem_filter.mpr ⟨ha, hr⟩
  cases h with
  | nobody h =>
    have hsr : s ≠ r := by
      rintro rfl
      simp [h] at hmem
    simp [hsr]
  | @first b m h =>
    have hab : a ≠ b := fun he => ho (congrArg some he.symm)
    by_cases hsr : s = r
    · subst hsr
      have hb : offers s b = true := (List.mem_filter.mp (h ▸ List.mem_cons_self)).2
      have hnodup : (b :: m).Nodup := h ▸ hl.filter _
      rw [h, List.mem_cons] at hmem
      have ham : a ∈ m := hmem.resolve_left hab
      rw [filter_touch_of_pos hb, h, touch_head hnodup, List.idxOf_append_of_mem ham,
        List.idxOf_cons_ne _ hab.symm, if_pos rfl]
    · rw [if_neg hsr, Nat.add_zero]
      cases hb : offers r b with
      | true =>
        rw [filter_touch_of_pos hb]
        exact idxOf_touch_le hmem hab
      | false => rw [filter_touch_of_neg hb]

/-- Nobody starves: as many requests `r` as there are members that may serve
them reach each of these members, whatever else is asked for in between. -/
theorem served_of_count {offers : ρ → α → Bool} {l l' : List α} {trace : List (ρ × Option α)}
    {r : ρ} {a : α} [DecidableEq ρ] (hrun : Run (serve offers) l trace l') (hl : l.Nodup)
    (ha : a ∈ l) (hr : offers r a = true)
    (hcount : (l.filter (offers r)).length ≤ trace.countP (fun e => e.1 = r)) :
    ∃ e ∈ trace, e.2 = some a := by
  have hindex : (l.filter (offers r)).idxOf a < trace.countP (fun e => e.1 = r) :=
    Nat.lt_of_lt_of_le (List.idxOf_lt_length_of_mem (List.mem_filter.mpr ⟨ha, hr⟩)) hcount
  clear hcount
  induction hrun with
  | nil => simp at hindex
  | @cons l t u s o trace hs _ ih =>
    have hserved := served_of_serve hs
    by_cases ho : o = some a
    · exact ⟨(s, o), List.mem_cons_self, ho⟩
    · have hle := hserved.idxOf_le hl ha hr ho
      rw [List.countP_cons] at hindex
      obtain ⟨e, he, hea⟩ := ih (hserved.nodup hl) (hserved.mem ha) (by
        by_cases hsr : s = r
        · simp only [hsr, if_true, decide_true] at hle hindex
          omega
        · simp only [hsr, if_false, decide_false, Bool.false_eq_true] at hle hindex
          omega)
      exact ⟨e, List.mem_cons_of_mem _ he, hea⟩

theorem Served.rotate {offers : ρ → α → Bool} {l l' : List α} {r : ρ} {o : Option α}
    (h : Served offers l r o l') (hl : l.Nodup) :
    o = (l.filter (offers r))[0]? ∧ l'.filter (offers r) = (l.filter (offers r)).rotate 1 := by
  cases h with
  | nobody h => simp [h]
  | @first a m h =>
    have ha : offers r a = true := (List.mem_filter.mp (h ▸ List.mem_cons_self)).2
    have hnodup : (a :: m).Nodup := h ▸ hl.filter _
    rw [filter_touch_of_pos ha, h, touch_head hnodup]
    simp

theorem served_rotation {offers : ρ → α → Bool} {l l' : List α} {trace : List (ρ × Option α)}
    {r : ρ} (hrun : Run (serve offers) l trace l') (hl : l.Nodup) (hr : ∀ e ∈ trace, e.1 = r) :
    ∀ (i : Nat) (e : ρ × Option α), (trace)[i]? = some e →
      e.2 = (l.filter (offers r))[i % (l.filter (offers r)).length]? := by
  induction hrun with
  | nil => simp
  | @cons l t u s o trace hs _ ih =>
    obtain rfl : s = r := hr (s, o) List.mem_cons_self
    have hserved := served_of_serve hs
    obtain ⟨ho, ht⟩ := hserved.rotate hl
    intro i e he
    cases i with
    | zero =>
      obtain rfl : (s, o) = e := by simpa using he
      simpa using ho
    | succ i =>
      have hi := ih (hserved.nodup hl) (fun e he => hr e (List.mem_cons_of_mem _ he)) i e
        (by simpa using he)
      rw [ht, List.length_rotate] at hi
      generalize l.filter (offers s) = m at hi ⊢
      rcases Nat.eq_zero_or_pos m.length with hm | hm
      · rw [List.length_eq_zero_iff.mp hm] at hi ⊢
        simpa using hi
      · rw [hi, List.getElem?_rotate (Nat.mod_lt i hm), Nat.mod_add_mod]

/-- The members that are less recently active than `b`. -/
def ahead (l : List α) (b : α) : List α := l.takeWhile (fun a => a ≠ b)

theorem ahead_cons_of_ne {l : List α} {a b : α} (h : a ≠ b) :
    ahead (a :: l) b = a :: ahead l b := List.takeWhile_cons_of_pos (by simpa using h)

theorem ahead_cons_self (l : List α) (b : α) : ahead (b :: l) b = [] :=
  List.takeWhile_cons_of_neg (by simp)

theorem ahead_filter {p : α → Bool} {b : α} (hb : p b = true) (l : List α) :
    ahead (l.filter p) b = (ahead l b).filter p := by
  induction l with
  | nil => rfl
  | cons a l ih =>
    by_cases hab : a = b
    · subst hab
      rw [List.filter_cons_of_pos hb, ahead_cons_self, ahead_cons_self, List.filter_nil]
    · rw [ahead_cons_of_ne hab]
      by_cases ha : p a = true
      · rw [List.filter_cons_of_pos ha, List.filter_cons_of_pos ha, ahead_cons_of_ne hab, ih]
      · rw [List.filter_cons_of_neg ha, List.filter_cons_of_neg ha, ih]

theorem ahead_append_of_mem {l : List α} {b : α} (hb : b ∈ l) (m : List α) :
    ahead (l ++ m) b = ahead l b := by
  induction l with
  | nil => cases hb
  | cons a l ih =>
    rw [List.cons_append]
    by_cases hab : a = b
    · subst hab
      rw [ahead_cons_self, ahead_cons_self]
    · have hmem : b ∈ l := (List.mem_cons.mp hb).resolve_left (Ne.symm hab)
      rw [ahead_cons_of_ne hab, ahead_cons_of_ne hab, ih hmem]

/-- Activity of others brings nobody ahead of `b`, and takes away who was active. -/
theorem ahead_touch {l : List α} {a b : α} (hab : a ≠ b) (hb : b ∈ l) :
    ahead (touch l a) b = (ahead l b).filter (fun c => c ≠ a) := by
  have hkept : b ∈ l.filter (fun c => c ≠ a) := by simpa [hb] using hab.symm
  rw [touch, ahead_append_of_mem hkept]
  exact ahead_filter (by simpa using hab.symm) l

/-- Who is chosen although `b` could be chosen is ahead of `b`. -/
theorem mem_ahead_of_find? {p : α → Bool} {l : List α} {a b : α} (h : l.find? p = some a)
    (hb : b ∈ l) (hp : p b = true) (hab : a ≠ b) : a ∈ ahead l b := by
  induction l with
  | nil => cases hb
  | cons c l ih =>
    by_cases hc : p c = true
    · rw [List.find?_cons_of_pos hc] at h
      obtain rfl := Option.some.inj h
      rw [ahead_cons_of_ne hab]
      exact List.mem_cons_self
    · rw [List.find?_cons_of_neg hc] at h
      have hcb : c ≠ b := fun he => hc (he ▸ hp)
      have hmem : b ∈ l := (List.mem_cons.mp hb).resolve_left (Ne.symm hcb)
      rw [ahead_cons_of_ne hcb]
      exact List.mem_cons_of_mem c (ih h hmem)

end LeastRecent
