import Mathlib

/-!
# Lists that come in pieces

A reader that gets a list piece by piece keeps what it has of it, up to a bound or up to the first terminator.
-/

namespace Bulldog

variable {α : Type}

/-- A terminator that was read is the end. -/
theorem eq_nil_of_mem_terminator {x : α} {body front rest : List α} (hbody : x ∉ body) (hmem : x ∈ front)
    (h : front ++ rest = body ++ [x]) : rest = [] := by
  rcases List.eq_nil_or_concat rest with rfl | ⟨rest, y, rfl⟩
  · rfl
  · rw [List.concat_eq_append, ← List.append_assoc] at h
    have hinit := (List.append_inj' h rfl).1
    exact absurd (hinit ▸ List.mem_append_left _ hmem) hbody

/-- A bounded buffer takes of a piece what still fits. -/
theorem take_append_fits (max : ℕ) (data piece : List α) :
    (data ++ piece).take max = data.take max ++ piece.take (max - (data.take max).length) := by
  rw [List.take_append, List.length_take]
  rcases Nat.lt_or_ge data.length max with hlt | hge
  · rw [Nat.min_eq_right (Nat.le_of_lt hlt)]
  · rw [Nat.min_eq_left hge, Nat.sub_eq_zero_of_le hge, Nat.sub_self]

end Bulldog
