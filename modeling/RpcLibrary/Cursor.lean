import Mathlib.Data.List.Basic

/-! Positions in a buffer that is read from front to back. -/

namespace Cursor

variable {α : Type*}

/-- At position `pos` of `buffer`, what remains to be read is `rest`. -/
def At (buffer : List α) (pos : Nat) (rest : List α) : Prop :=
  ∃ done, buffer = done ++ rest ∧ done.length = pos

theorem At.advance {buffer field rest : List α} {pos : Nat}
    (h : At buffer pos (field ++ rest)) : At buffer (pos + field.length) rest := by
  obtain ⟨done, rfl, rfl⟩ := h
  exact ⟨done ++ field, by simp, by simp⟩

theorem At.length {buffer rest : List α} {pos : Nat} (h : At buffer pos rest) :
    pos + rest.length = buffer.length := by
  obtain ⟨done, rfl, rfl⟩ := h
  simp

theorem At.finish {buffer : List α} {pos : Nat} (h : At buffer pos []) : pos = buffer.length :=
  h.length

theorem At.drop {buffer rest : List α} {pos : Nat} (h : At buffer pos rest) :
    buffer.drop pos = rest := by
  obtain ⟨done, rfl, rfl⟩ := h
  simp

theorem At.getElem? {buffer rest : List α} {pos : Nat} (h : At buffer pos rest) (i : Nat) :
    buffer[pos + i]? = rest[i]? := by
  obtain ⟨done, rfl, rfl⟩ := h
  rw [List.getElem?_append_right (by omega), Nat.add_sub_cancel_left]

theorem At.append {buffer rest : List α} {pos : Nat} (h : At buffer pos rest) (more : List α) :
    At (buffer ++ more) pos (rest ++ more) := by
  obtain ⟨done, rfl, rfl⟩ := h
  exact ⟨done, by simp, rfl⟩

end Cursor
