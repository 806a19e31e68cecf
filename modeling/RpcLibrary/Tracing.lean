import Mathlib.Data.List.Basic

/-! Computations that may be undefined, with a record of what they touch on the
way, and the rules of their weakest preconditions. -/

namespace Tracing

universe u v

/-- What a computation touches, in order, up to its result or to where it becomes undefined. -/
structure Traced (ε : Type u) (α : Type v) where
  touched : List ε
  result : Option α

namespace Traced

variable {ε : Type u} {α β : Type v}

instance : Monad (Traced ε) where
  pure a := ⟨[], some a⟩
  bind x f :=
    match x.result with
    | none => ⟨x.touched, none⟩
    | some a => ⟨x.touched ++ (f a).touched, (f a).result⟩

def touch (e : ε) (result : Option α) : Traced ε α := ⟨[e], result⟩

def silent (result : Option α) : Traced ε α := ⟨[], result⟩

@[simp] theorem result_touch (e : ε) (r : Option α) : (touch e r).result = r := rfl

@[simp] theorem result_silent (r : Option α) : (silent r : Traced ε α).result = r := rfl

@[simp] theorem result_pure (a : α) : (pure a : Traced ε α).result = some a := rfl

theorem bind_of_result_none {x : Traced ε α} (f : α → Traced ε β) (h : x.result = none) :
    x >>= f = ⟨x.touched, none⟩ := by
  obtain ⟨touched, result⟩ := x
  obtain rfl : result = none := h
  rfl

theorem bind_of_result_some {x : Traced ε α} {a : α} (f : α → Traced ε β)
    (h : x.result = some a) : x >>= f = ⟨x.touched ++ (f a).touched, (f a).result⟩ := by
  obtain ⟨touched, result⟩ := x
  obtain rfl : result = some a := h
  rfl

/-- The record makes no difference to the result. -/
@[simp] theorem result_bind (x : Traced ε α) (f : α → Traced ε β) :
    (x >>= f).result = x.result.bind fun a => (f a).result := by
  cases h : x.result with
  | none => rw [bind_of_result_none f h, Option.bind_none]
  | some a => rw [bind_of_result_some f h, Option.bind_some]

/-- Everything touched meets `P`, and there is a result, which meets `Q`. -/
def WP (P : ε → Prop) (x : Traced ε α) (Q : α → Prop) : Prop :=
  (∀ e ∈ x.touched, P e) ∧ ∃ a, x.result = some a ∧ Q a

theorem wp_pure {P : ε → Prop} {Q : α → Prop} {a : α} : WP P (pure a) Q ↔ Q a := by
  constructor
  · rintro ⟨-, a', ha, hq⟩
    obtain rfl := Option.some.inj ha
    exact hq
  · exact fun hq => ⟨fun e he => absurd he List.not_mem_nil, a, rfl, hq⟩

theorem wp_touch {P : ε → Prop} {Q : α → Prop} {e : ε} {r : Option α} :
    WP P (touch e r) Q ↔ P e ∧ ∃ a, r = some a ∧ Q a :=
  and_congr_left' List.forall_mem_singleton

theorem wp_silent {P : ε → Prop} {Q : α → Prop} {r : Option α} :
    WP P (silent r) Q ↔ ∃ a, r = some a ∧ Q a :=
  and_iff_right fun _ he => absurd he List.not_mem_nil

theorem wp_bind {P : ε → Prop} {Q : β → Prop} {x : Traced ε α} {f : α → Traced ε β} :
    WP P (x >>= f) Q ↔ WP P x fun a => WP P (f a) Q := by
  cases h : x.result with
  | none =>
    rw [bind_of_result_none f h]
    constructor
    · rintro ⟨-, b, hb, -⟩
      cases hb
    · rintro ⟨-, a, ha, -⟩
      rw [h] at ha
      cases ha
  | some a =>
    rw [bind_of_result_some f h]
    constructor
    · rintro ⟨htouched, hresult⟩
      obtain ⟨hx, hf⟩ := List.forall_mem_append.mp htouched
      exact ⟨hx, a, h, hf, hresult⟩
    · rintro ⟨hx, a', ha, hf, hresult⟩
      obtain rfl := Option.some.inj (h.symm.trans ha)
      exact ⟨List.forall_mem_append.mpr ⟨hx, hf⟩, hresult⟩

/-- The same computation under another account of what it touches. -/
def relabel {ε' : Type u} (f : ε → ε') (x : Traced ε α) : Traced ε' α :=
  ⟨x.touched.map f, x.result⟩

end Traced

end Tracing
