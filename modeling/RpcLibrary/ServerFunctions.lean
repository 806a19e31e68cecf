import RpcLibrary.BubbleSort
import RpcLibrary.RemoteCall

/-! The sorting function of the example server and what a client gets when it
calls it. The array tells its own length, and elements change places through an
`int`. -/

namespace RpcLibrary

open BubbleSort

/-- A 64-bit `long`. -/
abbrev Long := BitVec 64

/-- A `long` as it comes back from an `int` it was kept in. -/
def throughInt (x : Long) : Long := (x.setWidth 32).signExtend 64

def exchange (a : List Long) (j : Nat) : Option (List Long) := do
  let x ← a[j]?
  let y ← a[j - 1]?
  some (if y.toInt < x.toInt then (a.set j y).set (j - 1) (throughInt x) else a)

/-- The inner loop of `f3`, from `j` down to the one after `i`. -/
def innerLoop (i : Nat) : Nat → List Long → Option (List Long)
  | 0, a => some a
  | j + 1, a =>
    if j + 1 > i then do
      let a ← exchange a (j + 1)
      innerLoop i j a
    else some a

/-- The outer loop of `f3`, with so many sweeps left. -/
def outerLoop (len : Nat) : Nat → List Long → Option (List Long)
  | 0, a => some a
  | left + 1, a => do
    let a ← innerLoop (len - (left + 1)) (len - 1) a
    outerLoop len left a

/-- The length an array gives in its first element, none where that is negative. -/
def lengthIn (a0 : Long) : Nat := (a0.setWidth 32).toInt.toNat

def f3 (a : List Long) : Option (List Long) := do
  let a0 ← a[0]?
  outerLoop (lengthIn a0) (lengthIn a0) a

def FitsInt (x : Long) : Prop := -2147483648 ≤ x.toInt ∧ x.toInt ≤ 2147483647

instance (x : Long) : Decidable (FitsInt x) := inferInstanceAs (Decidable (_ ∧ _))

theorem throughInt_of_fits {x : Long} (h : FitsInt x) : throughInt x = x := by
  apply BitVec.eq_of_toInt_eq
  rw [throughInt, BitVec.toInt_signExtend_of_le (by decide), BitVec.toInt_setWidth]
  obtain ⟨hlow, hhigh⟩ := h
  rw [BitVec.toInt_eq_toNat_bmod] at *
  simp only [Int.bmod_def] at *
  omega

theorem exchange_eq {done rest : List Long} {x y : Long} (hy : FitsInt y) :
    exchange (done ++ x :: y :: rest) (done.length + 1) =
      some (done ++ carry BitVec.toInt x (y :: rest)) := by
  have hnext : (done ++ x :: y :: rest)[done.length + 1]? = some y := by
    rw [List.getElem?_append_right (by omega), Nat.add_sub_cancel_left]
    rfl
  have hhere : (done ++ x :: y :: rest)[done.length]? = some x := by
    rw [List.getElem?_append_right (by omega), Nat.sub_self]
    rfl
  simp only [exchange, hnext, hhere, Nat.add_sub_cancel, Option.bind_eq_bind, Option.bind_some,
    carry, throughInt_of_fits hy]
  split_ifs with hlt
  · rw [List.set_append_right _ _ (by omega), Nat.add_sub_cancel_left,
      List.set_append_right _ _ (by omega), Nat.sub_self]
    rfl
  · rfl

theorem innerLoop_stops (i : Nat) (a : List Long) : innerLoop i i a = some a := by
  cases i with
  | zero => rfl
  | succ i => exact if_neg (Nat.lt_irrefl _)

theorem innerLoop_eq {done mid rest : List Long} {y : Long} (hy : FitsInt y)
    (hmid : ∀ x ∈ mid, FitsInt x) :
    innerLoop done.length (done.length + mid.length) (done ++ (mid ++ y :: rest)) =
      some (done ++ mid.foldr (carry BitVec.toInt) (y :: rest)) := by
  induction mid using List.reverseRecOn generalizing y rest with
  | nil => exact innerLoop_stops _ _
  | append_singleton mid x ih =>
    obtain ⟨hmid, hx⟩ := List.forall_mem_append.mp hmid
    have hx := hx x (List.mem_singleton_self x)
    have harray : done ++ (mid ++ [x] ++ y :: rest) = done ++ mid ++ x :: y :: rest := by simp
    have hexchange : exchange (done ++ mid ++ x :: y :: rest) ((done ++ mid).length + 1) =
        some (done ++ mid ++ carry BitVec.toInt x (y :: rest)) := exchange_eq hy
    have hcarried : ∃ z zs, carry BitVec.toInt x (y :: rest) = z :: zs ∧ FitsInt z := by
      simp only [carry]
      split_ifs
      · exact ⟨y, _, rfl, hy⟩
      · exact ⟨x, _, rfl, hx⟩
    obtain ⟨z, zs, hz, hfits⟩ := hcarried
    rw [List.length_append, hz] at hexchange
    rw [harray, List.length_append, List.length_singleton, ← Nat.add_assoc, innerLoop,
      if_pos (by omega), hexchange, Option.bind_eq_bind, Option.bind_some, List.append_assoc,
      ih hfits hmid, List.foldr_append, List.foldr_cons, List.foldr_nil, hz]

/-- The array is in order up to `done`, and the sweeps left sort `todo`. -/
theorem outerLoop_eq {done todo rest : List Long} {n : Nat} (hn : todo.length = n)
    (hfits : ∀ x ∈ todo, FitsInt x) :
    outerLoop (done.length + n) n (done ++ (todo ++ rest)) =
      some (done ++ (sweeps BitVec.toInt n todo ++ rest)) := by
  induction n generalizing done todo with
  | zero =>
    obtain rfl := List.length_eq_zero_iff.mp hn
    rfl
  | succ n ih =>
    have hperm : (sweep BitVec.toInt todo).Perm todo := sweep_perm todo
    rcases List.eq_nil_or_concat' todo with rfl | ⟨mid, y, rfl⟩
    · cases hn
    obtain ⟨hmid, hy⟩ := List.forall_mem_append.mp hfits
    rw [List.length_append, List.length_singleton] at hn
    have hinner := @innerLoop_eq done mid rest y (hy y (List.mem_singleton_self y)) hmid
    have hsweep : mid.foldr (carry BitVec.toInt) (y :: rest) =
        sweep BitVec.toInt (mid ++ [y]) ++ rest := by
      have happend : mid.foldr (carry BitVec.toInt) ([y] ++ rest) =
          mid.foldr (carry BitVec.toInt) [y] ++ rest :=
        foldr_carry_append mid (List.cons_ne_nil y []) rest
      rw [sweep, List.foldr_append, ← List.singleton_append, happend]
      rfl
    rw [sweeps, outerLoop]
    cases hr : sweep BitVec.toInt (mid ++ [y]) with
    | nil =>
      rw [hr] at hperm
      exact absurd hperm.length_eq (by simp)
    | cons x xs =>
      rw [hr] at hperm hsweep
      have hlength := hperm.length_eq
      rw [List.length_cons, List.length_append, List.length_singleton] at hlength
      have hrest := @ih (done ++ [x]) xs (by omega)
        fun z hz => hfits z (hperm.mem_iff.mp (List.mem_cons_of_mem x hz))
      rw [hsweep] at hinner
      rw [Nat.add_sub_cancel, show done.length + (n + 1) - 1 = done.length + mid.length by omega,
        List.append_assoc, List.singleton_append, hinner, Option.bind_eq_bind, Option.bind_some]
      rw [List.length_append, List.length_singleton, Nat.add_assoc, Nat.add_comm 1 n] at hrest
      simpa using hrest

/-- Where the elements to be sorted fit an `int`, `f3` is bubble sort on as many
of them as the first one says. -/
theorem f3_eq {a : List Long} {a0 : Long} (h : a[0]? = some a0) (hlen : lengthIn a0 ≤ a.length)
    (hfits : ∀ x ∈ a.take (lengthIn a0), FitsInt x) :
    f3 a = some (sweeps BitVec.toInt (lengthIn a0) (a.take (lengthIn a0)) ++
      a.drop (lengthIn a0)) := by
  have hloop := @outerLoop_eq [] (a.take (lengthIn a0)) (a.drop (lengthIn a0)) (lengthIn a0)
    (List.length_take_of_le hlen) hfits
  simp only [List.length_nil, Nat.zero_add, List.nil_append, List.take_append_drop] at hloop
  simp only [f3, h, Option.bind_eq_bind, Option.bind_some, hloop]

/-- Elements that do not fit an `int` are cut to one when they move. -/
example : f3 [3, 1, 4294967298] = some [3, 2, 1] := by decide

/-! The loops read outside the array exactly when it is shorter than it tells. -/

theorem exchange_cases (a : List Long) {j : Nat} (hj : 1 ≤ j) :
    (exchange a j).isSome = decide (j < a.length) ∧
      ∀ b, exchange a j = some b → b.length = a.length := by
  rcases Nat.lt_or_ge j a.length with hlt | hge
  · have hx := List.getElem?_eq_getElem hlt
    have hy := List.getElem?_eq_getElem (show j - 1 < a.length by omega)
    simp only [exchange, hx, hy, Option.bind_eq_bind, Option.bind_some, Option.isSome_some, hlt,
      decide_true, Option.some.injEq, true_and]
    rintro b rfl
    split_ifs <;> simp
  · simp [exchange, Nat.not_lt.mpr hge]

theorem innerLoop_cases {i j : Nat} {a : List Long} (h : i < j → j < a.length) :
    ∃ b, innerLoop i j a = some b ∧ b.length = a.length := by
  induction j generalizing a with
  | zero => exact ⟨a, rfl, rfl⟩
  | succ j ih =>
    rw [innerLoop]
    by_cases hij : j + 1 > i
    · obtain ⟨hsome, hlength⟩ := exchange_cases a (Nat.le_add_left 1 j)
      rw [decide_eq_true (h hij)] at hsome
      obtain ⟨b, hb⟩ := Option.isSome_iff_exists.mp hsome
      obtain ⟨c, hc, hc'⟩ := ih (a := b) fun _ => by
        have := h hij
        have := hlength b hb
        omega
      exact ⟨c, by rw [if_pos hij, hb, Option.bind_eq_bind, Option.bind_some, hc],
        hc'.trans (hlength b hb)⟩
    · exact ⟨a, if_neg hij, rfl⟩

theorem innerLoop_none {i j : Nat} {a : List Long} (h : i < j) (hj : a.length ≤ j) :
    innerLoop i j a = none := by
  cases j with
  | zero => omega
  | succ j =>
    have hnone : exchange a (j + 1) = none := by
      have hsome := (exchange_cases a (Nat.le_add_left 1 j)).1
      rw [decide_eq_false (Nat.not_lt.mpr hj)] at hsome
      exact Option.not_isSome_iff_eq_none.mp (Bool.eq_false_iff.mp hsome)
    rw [innerLoop, if_pos h, hnone]
    rfl

theorem outerLoop_isSome {len left : Nat} {a : List Long} (h : 1 < left → len ≤ a.length) :
    (outerLoop len left a).isSome = true := by
  induction left generalizing a with
  | zero => rfl
  | succ left ih =>
    obtain ⟨b, hb, hlength⟩ := innerLoop_cases (i := len - (left + 1)) (j := len - 1) (a := a)
      fun hlt => by
        have := h (by omega)
        omega
    rw [outerLoop, hb]
    exact ih fun hleft => hlength ▸ h (by omega)

theorem f3_isSome_iff (a : List Long) :
    (f3 a).isSome = true ↔ ∃ a0, a[0]? = some a0 ∧ lengthIn a0 ≤ a.length := by
  cases ha : a[0]? with
  | none => simp [f3, ha]
  | some a0 =>
    have hpos : 0 < a.length := (List.getElem?_eq_some_iff.mp ha).1
    simp only [f3, ha, Option.bind_eq_bind, Option.bind_some, Option.some.injEq, exists_eq_left']
    constructor
    · intro h
      by_contra hlt
      obtain ⟨left, hleft⟩ : ∃ left, lengthIn a0 = left + 1 := ⟨lengthIn a0 - 1, by omega⟩
      rw [hleft, outerLoop, innerLoop_none (by omega) (by omega)] at h
      cases h
    · exact fun hle => outerLoop_isSome fun _ => hle

end RpcLibrary
