import Mathlib.Algebra.Order.Ring.Int
import Mathlib.Tactic.Ring

/-!
# Bounded search

A loop that tries one candidate after the other, a fixed step apart, and gives up after a number of
them: `search step p n x` is the first of `x`, `x + step`, … that satisfies `p`, if it is among the
first `n`.
-/

namespace Varco

/-- The first of the next `n` candidates from `x` on that satisfies `p`. -/
def search (step : ℤ) (p : ℤ → Bool) : ℕ → ℤ → Option ℤ
  | 0, _ => none
  | n + 1, x => if p x then some x else search step p n (x + step)

variable {step x y : ℤ} {p : ℤ → Bool} {n : ℕ}

/-- **What a search finds.** -/
theorem search_eq_some : search step p n x = some y ↔
    ∃ k < n, y = x + k * step ∧ p y = true ∧ ∀ j < k, p (x + j * step) = false := by
  induction n generalizing x with
  | zero => simp [search]
  | succ n ih =>
    unfold search
    by_cases hx : p x = true
    · rw [if_pos hx]
      constructor
      · rintro ⟨⟩
        exact ⟨0, Nat.succ_pos n, by simp, hx, fun j hj => absurd hj (Nat.not_lt_zero j)⟩
      · rintro ⟨k, -, rfl, -, hfirst⟩
        cases k with
        | zero => simp
        | succ k =>
          have h₀ := hfirst 0 (Nat.succ_pos k)
          simp [hx] at h₀
    · rw [if_neg hx, ih]
      have hshift : ∀ j : ℕ, x + step + j * step = x + (j + 1 : ℕ) * step := by
        intro j
        push_cast
        ring
      constructor
      · rintro ⟨k, hk, rfl, hp, hfirst⟩
        refine ⟨k + 1, Nat.succ_lt_succ hk, hshift k, hp, fun j hj => ?_⟩
        cases j with
        | zero => simpa using hx
        | succ j =>
          rw [← hshift]
          exact hfirst j (Nat.lt_of_succ_lt_succ hj)
      · rintro ⟨k, hk, rfl, hp, hfirst⟩
        cases k with
        | zero =>
          rw [Nat.cast_zero, zero_mul, add_zero] at hp
          exact absurd hp hx
        | succ k =>
          refine ⟨k, Nat.lt_of_succ_lt_succ hk, (hshift k).symm, hp, fun j hj => ?_⟩
          rw [hshift]
          exact hfirst (j + 1) (Nat.succ_lt_succ hj)

/-- **A search finds something** if there is something to be found within its bound. -/
theorem search_isSome {k : ℕ} (hk : k < n) (hp : p (x + k * step) = true) :
    ∃ y, search step p n x = some y := by
  induction n generalizing x k with
  | zero => exact absurd hk (Nat.not_lt_zero k)
  | succ n ih =>
    unfold search
    by_cases hx : p x = true
    · exact ⟨x, if_pos hx⟩
    · rw [if_neg hx]
      cases k with
      | zero => simp [hx] at hp
      | succ k =>
        refine ih (Nat.lt_of_succ_lt_succ hk) ?_
        have hshift : x + step + k * step = x + (k + 1 : ℕ) * step := by
          push_cast
          ring
        rwa [hshift]

end Varco
