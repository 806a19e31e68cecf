import Mathlib.Data.List.Sort

/-! Ordered sets whose comparison looks only at a key of the element. Two
elements with one key are the same element for the set, whatever else they
hold, and the one inserted first stays. -/

structure OrderedSet (α : Type*) {κ : Type*} [LinearOrder κ] (key : α → κ) where
  elems : List α
  sorted : elems.Pairwise (fun x y => key x < key y)

namespace OrderedSet

variable {α κ : Type*} [LinearOrder κ] {key : α → κ}

instance : Membership α (OrderedSet α key) := ⟨fun s x => x ∈ s.elems⟩

theorem mem_def {s : OrderedSet α key} {x : α} : x ∈ s ↔ x ∈ s.elems := Iff.rfl

def empty : OrderedSet α key := ⟨[], .nil⟩

instance : EmptyCollection (OrderedSet α key) := ⟨empty⟩

@[simp] theorem elems_empty : (∅ : OrderedSet α key).elems = [] := rfl

@[simp] theorem not_mem_empty (x : α) : x ∉ (∅ : OrderedSet α key) := List.not_mem_nil

def isEmpty (s : OrderedSet α key) : Bool := s.elems.isEmpty

def contains (s : OrderedSet α key) (k : κ) : Bool := s.elems.any (fun x => key x = k)

def find? (s : OrderedSet α key) (k : κ) : Option α := s.elems.find? (fun x => key x = k)

def filter (p : α → Bool) (s : OrderedSet α key) : OrderedSet α key :=
  ⟨s.elems.filter p, s.sorted.filter p⟩

def erase (s : OrderedSet α key) (k : κ) : OrderedSet α key := s.filter (fun x => key x ≠ k)

/-- Insertion into a sorted list; a list that holds the key is left alone. -/
def insertElem (key : α → κ) (x : α) : List α → List α
  | [] => [x]
  | y :: ys =>
    if key x < key y then x :: y :: ys
    else if key y < key x then y :: insertElem key x ys
    else y :: ys

theorem mem_insertElem {x z : α} {l : List α} (h : z ∈ insertElem key x l) : z = x ∨ z ∈ l := by
  induction l with
  | nil => exact .inl (by simpa [insertElem] using h)
  | cons y ys ih =>
    simp only [insertElem] at h
    split_ifs at h with h1 h2
    · exact List.mem_cons.mp h
    · rcases List.mem_cons.mp h with rfl | h
      · exact .inr List.mem_cons_self
      · exact (ih h).imp_right (List.mem_cons_of_mem _)
    · exact .inr h

theorem insertElem_sorted (x : α) {l : List α} (h : l.Pairwise (fun x y => key x < key y)) :
    (insertElem key x l).Pairwise (fun x y => key x < key y) := by
  induction l with
  | nil => simp [insertElem]
  | cons y ys ih =>
    have hp := List.pairwise_cons.mp h
    simp only [insertElem]
    split_ifs with h1 h2
    · refine List.pairwise_cons.mpr ⟨fun z hz => ?_, h⟩
      rcases List.mem_cons.mp hz with rfl | hz
      · exact h1
      · exact h1.trans (hp.1 z hz)
    · refine List.pairwise_cons.mpr ⟨fun z hz => ?_, ih hp.2⟩
      rcases mem_insertElem hz with rfl | hz
      · exact h2
      · exact hp.1 z hz
    · exact h

def insert (s : OrderedSet α key) (x : α) : OrderedSet α key :=
  ⟨insertElem key x s.elems, insertElem_sorted x s.sorted⟩

theorem contains_iff {s : OrderedSet α key} {k : κ} : s.contains k = true ↔ ∃ x ∈ s, key x = k := by
  simp [contains, mem_def]

theorem not_contains_iff {s : OrderedSet α key} {k : κ} :
    s.contains k = false ↔ ∀ x ∈ s, key x ≠ k := by
  simp [contains, mem_def]

theorem contains_of_mem {s : OrderedSet α key} {x : α} (h : x ∈ s) : s.contains (key x) = true :=
  contains_iff.mpr ⟨x, h, rfl⟩

theorem isEmpty_iff {s : OrderedSet α key} : s.isEmpty = true ↔ ∀ x, x ∉ s := by
  simp [isEmpty, mem_def, List.eq_nil_iff_forall_not_mem]

theorem eq_of_key {s : OrderedSet α key} {x y : α} (hx : x ∈ s) (hy : y ∈ s) (h : key x = key y) :
    x = y := by
  have hp : s.elems.Pairwise (fun a b => key a = key b → a = b) :=
    s.sorted.imp fun hlt he => absurd he hlt.ne
  have hp' : s.elems.Pairwise (fun a b => key b = key a → b = a) :=
    s.sorted.imp fun hlt he => absurd he hlt.ne'
  exact hp.forall_of_forall_of_flip (fun _ _ _ => rfl) hp' hx hy h

theorem ext_mem {s t : OrderedSet α key} (h : ∀ x, x ∈ s ↔ x ∈ t) : s = t := by
  obtain ⟨l, hl⟩ := s
  obtain ⟨m, hm⟩ := t
  have : Std.Irrefl (fun x y : α => key x < key y) := ⟨fun x => lt_irrefl (key x)⟩
  have : Std.Asymm (fun x y : α => key x < key y) := ⟨fun _ _ h => not_lt_of_gt h⟩
  obtain rfl : l = m := hl.eq_of_mem_iff hm (fun {x} => h x)
  rfl

theorem find?_eq_some_iff {s : OrderedSet α key} {k : κ} {x : α} :
    s.find? k = some x ↔ x ∈ s ∧ key x = k := by
  constructor
  · intro h
    exact ⟨List.mem_of_find?_eq_some h, by simpa using List.find?_some h⟩
  · rintro ⟨hx, rfl⟩
    cases hf : s.find? (key x) with
    | none => simpa using List.find?_eq_none.mp hf x hx
    | some y =>
      have hy : y ∈ s := List.mem_of_find?_eq_some hf
      have hk : key y = key x := by simpa using List.find?_some hf
      rw [eq_of_key hy hx hk]

theorem find?_eq_none_iff {s : OrderedSet α key} {k : κ} :
    s.find? k = none ↔ s.contains k = false := by
  simp [find?, contains]

@[simp] theorem mem_filter {p : α → Bool} {s : OrderedSet α key} {x : α} :
    x ∈ s.filter p ↔ x ∈ s ∧ p x = true := by
  simp [filter, mem_def]

@[simp] theorem mem_erase {s : OrderedSet α key} {k : κ} {x : α} :
    x ∈ s.erase k ↔ x ∈ s ∧ key x ≠ k := by
  simp [erase]

@[simp] theorem not_contains_erase (s : OrderedSet α key) (k : κ) :
    (s.erase k).contains k = false :=
  not_contains_iff.mpr fun _ hx => (mem_erase.mp hx).2

theorem contains_erase {s : OrderedSet α key} {k k' : κ} :
    (s.erase k).contains k' = true ↔ s.contains k' = true ∧ k' ≠ k := by
  simp only [contains_iff, mem_erase]
  constructor
  · rintro ⟨x, ⟨hx, hne⟩, rfl⟩
    exact ⟨⟨x, hx, rfl⟩, hne⟩
  · rintro ⟨⟨x, hx, rfl⟩, hne⟩
    exact ⟨x, ⟨hx, hne⟩, rfl⟩

theorem insert_of_contains {s : OrderedSet α key} {x : α} (h : s.contains (key x) = true) :
    s.insert x = s := by
  obtain ⟨l, hl⟩ := s
  obtain ⟨z, hz, hzk⟩ := contains_iff.mp h
  have he : insertElem key x l = l := by
    clear h
    induction l with
    | nil => simp [mem_def] at hz
    | cons y ys ih =>
      have hp := List.pairwise_cons.mp hl
      simp only [mem_def, List.mem_cons] at hz
      rcases hz with rfl | hz
      · simp [insertElem, hzk]
      · have hlt : key y < key x := hzk ▸ hp.1 z hz
        simp [insertElem, hlt, hlt.not_gt, ih hp.2 hz]
  simp only [insert, he]

theorem mem_insertElem_self {x : α} {l : List α} (h : ∀ y ∈ l, key y ≠ key x) :
    x ∈ insertElem key x l := by
  induction l with
  | nil => simp [insertElem]
  | cons y ys ih =>
    simp only [insertElem]
    split_ifs with h1 h2
    · exact List.mem_cons_self
    · exact List.mem_cons_of_mem _ (ih (fun z hz => h z (List.mem_cons_of_mem _ hz)))
    · exact absurd (le_antisymm (not_lt.mp h1) (not_lt.mp h2)) (h y List.mem_cons_self)

theorem mem_insertElem_of_mem {x z : α} {l : List α} (h : z ∈ l) : z ∈ insertElem key x l := by
  induction l with
  | nil => simp at h
  | cons y ys ih =>
    simp only [insertElem]
    split_ifs with h1 h2
    · exact List.mem_cons_of_mem _ h
    · rcases List.mem_cons.mp h with rfl | h
      · exact List.mem_cons_self
      · exact List.mem_cons_of_mem _ (ih h)
    · exact h

theorem mem_insert {s : OrderedSet α key} {x z : α} :
    z ∈ s.insert x ↔ z ∈ s ∨ (z = x ∧ s.contains (key x) = false) := by
  cases hc : s.contains (key x) with
  | true => simp [insert_of_contains hc]
  | false =>
    constructor
    · intro h
      exact (mem_insertElem h).symm.imp_right (fun h => ⟨h, rfl⟩)
    · rintro (h | ⟨rfl, -⟩)
      · exact mem_insertElem_of_mem h
      · exact mem_insertElem_self (not_contains_iff.mp hc)

theorem contains_insert {s : OrderedSet α key} {x : α} {k : κ} :
    (s.insert x).contains k = true ↔ s.contains k = true ∨ key x = k := by
  constructor
  · intro h
    obtain ⟨z, hz, rfl⟩ := contains_iff.mp h
    rcases mem_insert.mp hz with hz | ⟨rfl, -⟩
    · exact .inl (contains_of_mem hz)
    · exact .inr rfl
  · rintro (h | rfl)
    · obtain ⟨z, hz, rfl⟩ := contains_iff.mp h
      exact contains_of_mem (mem_insert.mpr (.inl hz))
    · cases hc : s.contains (key x) with
      | true => rw [insert_of_contains hc, hc]
      | false => exact contains_of_mem (mem_insert.mpr (.inr ⟨rfl, hc⟩))

theorem elems_insert_of_lt {s : OrderedSet α key} {x : α} (h : ∀ y ∈ s, key y < key x) :
    (s.insert x).elems = s.elems ++ [x] := by
  obtain ⟨l, hl⟩ := s
  change insertElem key x l = l ++ [x]
  induction l with
  | nil => rfl
  | cons y ys ih =>
    have hy : key y < key x := h y List.mem_cons_self
    have hi := ih (List.pairwise_cons.mp hl).2 (fun z hz => h z (List.mem_cons_of_mem _ hz))
    simp [insertElem, hy, hy.not_gt, hi]

theorem insertElem_perm {x : α} {l : List α} (h : ∀ y ∈ l, key y ≠ key x) :
    (insertElem key x l).Perm (x :: l) := by
  induction l with
  | nil => exact .refl _
  | cons y ys ih =>
    simp only [insertElem]
    split_ifs with h1 h2
    · exact .refl _
    · have hi := ih fun z hz => h z (List.mem_cons_of_mem _ hz)
      exact (hi.cons y).trans (.swap x y ys)
    · exact absurd (le_antisymm (not_lt.mp h1) (not_lt.mp h2)) (h y List.mem_cons_self)

theorem insert_perm {s : OrderedSet α key} {x : α} (h : s.contains (key x) = false) :
    (s.insert x).elems.Perm (x :: s.elems) := insertElem_perm (not_contains_iff.mp h)

theorem perm_erase {s : OrderedSet α key} {x : α} (h : x ∈ s) :
    s.elems.Perm (x :: (s.erase (key x)).elems) := by
  have hnodup : s.elems.Nodup := s.sorted.imp fun hlt he => hlt.ne (congrArg key he)
  refine (List.perm_ext_iff_of_nodup hnodup ?_).mpr fun y => ?_
  · refine List.nodup_cons.mpr ⟨fun hm => (mem_erase.mp hm).2 rfl, hnodup.sublist ?_⟩
    exact List.filter_sublist
  · constructor
    · intro hy
      by_cases hk : key y = key x
      · exact List.mem_cons.mpr (.inl (eq_of_key hy h hk))
      · exact List.mem_cons_of_mem _ (mem_erase.mpr ⟨hy, hk⟩)
    · intro hy
      rcases List.mem_cons.mp hy with rfl | hy
      · exact h
      · exact (mem_erase.mp hy).1

end OrderedSet
