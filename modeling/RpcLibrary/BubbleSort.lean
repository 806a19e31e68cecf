import Mathlib.Data.List.Basic
import Mathlib.Order.Lattice

/-! Bubble sort by a key, largest first. A sweep goes through what is not sorted
from its back and carries the largest element to the front. -/

namespace BubbleSort

variable {α κ : Type*} [LinearOrder κ] (key : α → κ)

/-- The element carried so far, at the front of a list, meets the one before it. -/
def carry (x : α) : List α → List α
  | [] => [x]
  | y :: ys => if key x < key y then y :: x :: ys else x :: y :: ys

def sweep (l : List α) : List α := l.foldr (carry key) []

/-- So many sweeps, each over what the ones before it left. -/
def sweeps : Nat → List α → List α
  | 0, l => l
  | n + 1, l =>
    match sweep key l with
    | [] => []
    | x :: xs => x :: sweeps n xs

variable {key}

theorem carry_perm (x : α) (l : List α) : (carry key x l).Perm (x :: l) := by
  cases l with
  | nil => exact .refl _
  | cons y ys =>
    simp only [carry]
    split_ifs
    · exact .swap x y ys
    · exact .refl _

theorem foldr_carry_perm (l m : List α) : (l.foldr (carry key) m).Perm (l ++ m) := by
  induction l with
  | nil => exact .refl _
  | cons x l ih => exact (carry_perm x _).trans (ih.cons x)

theorem sweep_perm (l : List α) : (sweep key l).Perm l := by
  have hperm : (l.foldr (carry key) []).Perm (l ++ []) := foldr_carry_perm l []
  rwa [List.append_nil] at hperm

theorem length_sweep (l : List α) : (sweep key l).length = l.length := (sweep_perm l).length_eq

/-- What comes after the back of a list takes no part in a sweep over it. -/
theorem foldr_carry_append (l : List α) {m : List α} (hm : m ≠ []) (rest : List α) :
    l.foldr (carry key) (m ++ rest) = l.foldr (carry key) m ++ rest := by
  have hcarry (x : α) {m : List α} (hm : m ≠ []) :
      carry key x (m ++ rest) = carry key x m ++ rest := by
    cases m with
    | nil => exact absurd rfl hm
    | cons y ys =>
      simp only [List.cons_append, carry]
      split_ifs <;> rfl
  induction l with
  | nil => rfl
  | cons x l ih =>
    have hne : l.foldr (carry key) m ≠ [] := by
      intro h
      have hperm : (l.foldr (carry key) m).Perm (l ++ m) := foldr_carry_perm l m
      have hlength := hperm.length_eq
      rw [h, List.length_nil, List.length_append] at hlength
      exact hm (List.length_eq_zero_iff.mp (by omega))
    rw [List.foldr_cons, ih, hcarry x hne, List.foldr_cons]

/-- What a sweep carries to the front has the largest key. -/
theorem le_of_sweep {l xs : List α} {x : α} (h : sweep key l = x :: xs) :
    ∀ y ∈ l, key y ≤ key x := by
  induction l generalizing x xs with
  | nil => simp
  | cons y l ih =>
    have hsweep : carry key y (sweep key l) = x :: xs := h
    refine List.forall_mem_cons.mpr ?_
    cases hl : sweep key l with
    | nil =>
      rw [hl] at hsweep
      obtain ⟨rfl, -⟩ := List.cons.inj hsweep
      have hlength : (sweep key l).length = l.length := length_sweep l
      have hnil : l = [] := List.length_eq_zero_iff.mp (by rw [← hlength, hl]; rfl)
      exact ⟨le_rfl, by simp [hnil]⟩
    | cons z zs =>
      have hle := ih hl
      rw [hl, carry] at hsweep
      by_cases hlt : key y < key z
      · rw [if_pos hlt] at hsweep
        obtain ⟨rfl, -⟩ := List.cons.inj hsweep
        exact ⟨hlt.le, hle⟩
      · rw [if_neg hlt] at hsweep
        obtain ⟨rfl, -⟩ := List.cons.inj hsweep
        exact ⟨le_rfl, fun w hw => (hle w hw).trans (not_lt.mp hlt)⟩

theorem sweeps_perm (n : Nat) (l : List α) : (sweeps key n l).Perm l := by
  induction n generalizing l with
  | zero => exact .refl _
  | succ n ih =>
    have hperm : (sweep key l).Perm l := sweep_perm l
    rw [sweeps]
    cases hl : sweep key l with
    | nil =>
      rw [hl] at hperm
      exact hperm
    | cons x xs =>
      rw [hl] at hperm
      exact ((ih xs).cons x).trans hperm

/-- As many sweeps as there are elements leave them in order. -/
theorem sweeps_sorted {n : Nat} {l : List α} (h : l.length ≤ n) :
    (sweeps key n l).Pairwise fun x y => key y ≤ key x := by
  induction n generalizing l with
  | zero =>
    obtain rfl := List.length_eq_zero_iff.mp (Nat.le_zero.mp h)
    exact .nil
  | succ n ih =>
    have hperm : (sweep key l).Perm l := sweep_perm l
    rw [sweeps]
    cases hl : sweep key l with
    | nil => exact .nil
    | cons x xs =>
      rw [hl] at hperm
      have hlength := hperm.length_eq
      rw [List.length_cons] at hlength
      refine List.pairwise_cons.mpr ⟨fun y hy => ?_, ih (by omega)⟩
      have hmem : y ∈ xs := (sweeps_perm n xs).mem_iff.mp hy
      exact le_of_sweep hl y (hperm.mem_iff.mp (List.mem_cons_of_mem x hmem))

end BubbleSort
