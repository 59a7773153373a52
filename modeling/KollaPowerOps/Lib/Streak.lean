import Mathlib.Data.List.Induction

/-!
# Lib.Streak

The length of the run of elements at the end of a list that all satisfy a predicate, as a counter
computes it: one more for an element that satisfies it, back to zero for one that does not.
-/

namespace KollaPowerOps
namespace Streak

variable {α : Type}

/-- The counter after one more element. -/
def next (p : α → Bool) (n : Nat) (x : α) : Nat := if p x then n + 1 else 0

/-- The counter after a list of elements. -/
def streak (p : α → Bool) (xs : List α) : Nat := xs.foldl (next p) 0

@[simp] theorem streak_nil (p : α → Bool) : streak p [] = 0 := rfl

@[simp] theorem streak_snoc (p : α → Bool) (xs : List α) (x : α) :
    streak p (xs ++ [x]) = next p (streak p xs) x := by
  simp [streak]

theorem streak_le_length (p : α → Bool) (xs : List α) : streak p xs ≤ xs.length := by
  induction xs using List.reverseRecOn with
  | nil => simp
  | append_singleton xs x ih =>
    rw [streak_snoc, next, List.length_append, List.length_singleton]
    split <;> omega

/-- The elements that the counter counts are the last ones, and they all satisfy `p`. -/
theorem streak_last (p : α → Bool) (xs : List α) :
    ∀ x ∈ xs.drop (xs.length - streak p xs), p x = true := by
  induction xs using List.reverseRecOn with
  | nil => simp
  | append_singleton xs x ih =>
    have hle := streak_le_length p xs
    rw [streak_snoc, next]
    split
    · rename_i hx
      intro y hy
      have hlen : (xs ++ [x]).length - (streak p xs + 1) = xs.length - streak p xs := by simp
      rw [hlen, List.drop_append_of_le_length (by omega)] at hy
      rcases List.mem_append.mp hy with hy | hy
      · exact ih y hy
      · rw [List.mem_singleton] at hy; rw [hy]; exact hx
    · intro y hy
      rw [Nat.sub_zero, List.drop_length] at hy
      cases hy

theorem last_of_le_streak {p : α → Bool} {xs : List α} {k : Nat} (h : k ≤ streak p xs) :
    k ≤ xs.length ∧ ∀ x ∈ xs.drop (xs.length - k), p x = true := by
  have hle := streak_le_length p xs
  refine ⟨by omega, fun x hx => streak_last p xs x ?_⟩
  have hsub : xs.length - k = xs.length - streak p xs + (streak p xs - k) := by omega
  rw [hsub, ← List.drop_drop] at hx
  exact List.mem_of_mem_drop hx

/-- The counter has reached `k` exactly if the last `k` elements satisfy `p`. -/
theorem le_streak_iff {p : α → Bool} {xs : List α} {k : Nat} :
    k ≤ streak p xs ↔ k ≤ xs.length ∧ ∀ x ∈ xs.drop (xs.length - k), p x = true := by
  refine ⟨last_of_le_streak, fun h => ?_⟩
  induction xs using List.reverseRecOn generalizing k with
  | nil => exact h.1
  | append_singleton xs x ih =>
    cases k with
    | zero => exact Nat.zero_le _
    | succ k =>
      obtain ⟨hk, hall⟩ := h
      rw [List.length_append, List.length_singleton] at hk hall
      have hsub : xs.length + 1 - (k + 1) = xs.length - k := by omega
      rw [hsub, List.drop_append_of_le_length (by omega), List.forall_mem_append] at hall
      have hx : p x = true := hall.2 x (List.mem_singleton.mpr rfl)
      have hle := ih ⟨by omega, hall.1⟩
      rw [streak_snoc, next, if_pos hx]
      omega

end Streak
end KollaPowerOps
