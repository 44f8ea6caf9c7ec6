import Mathlib.Data.Nat.Basic
import Mathlib.Tactic.Common

/-!
# Custody

Serially numbered things, each in the keeping of one place at any time: `keeps p n` says that the
place `p` keeps the thing `n`, of the `made` things there are. Things move from place to place
(`Custody.move`) and new ones are made (`Custody.fresh`), so nothing is ever lost or kept twice.
-/

namespace Varco

/-- Each of the `made` things is kept by exactly one place. -/
structure Custody {P : Type} (keeps : P → ℕ → Prop) (made : ℕ) : Prop where
  known : ∀ p n, keeps p n → n < made
  unique : ∀ p q n, keeps p n → keeps q n → p = q
  total : ∀ n, n < made → ∃ p, keeps p n

namespace Custody

variable {P : Type} {keeps keeps' : P → ℕ → Prop} {made : ℕ}

/-- **Things move**: what `p` kept is at `moved p n`. -/
theorem move (h : Custody keeps made) (moved : P → ℕ → P)
    (hmove : ∀ q n, keeps' q n ↔ ∃ p, keeps p n ∧ moved p n = q) : Custody keeps' made := by
  constructor
  · intro q n hq
    obtain ⟨p, hp, -⟩ := (hmove q n).mp hq
    exact h.known p n hp
  · intro q q' n hq hq'
    obtain ⟨p, hp, rfl⟩ := (hmove q n).mp hq
    obtain ⟨p', hp', rfl⟩ := (hmove q' n).mp hq'
    rw [h.unique p p' n hp hp']
  · intro n hn
    obtain ⟨p, hp⟩ := h.total n hn
    exact ⟨moved p n, (hmove _ n).mpr ⟨p, hp, rfl⟩⟩

theorem same (h : Custody keeps made) (hsame : ∀ p n, keeps' p n ↔ keeps p n) :
    Custody keeps' made :=
  h.move (fun p _ => p) fun q n => by simp [hsame]

theorem fresh (h : Custody keeps made) (p : P)
    (hfresh : ∀ q n, keeps' q n ↔ keeps q n ∨ q = p ∧ n = made) : Custody keeps' (made + 1) := by
  constructor
  · intro q n hq
    rcases (hfresh q n).mp hq with hq | ⟨-, rfl⟩
    · exact Nat.lt_succ_of_lt (h.known q n hq)
    · exact Nat.lt_succ_self n
  · intro q q' n hq hq'
    rcases (hfresh q n).mp hq with hq | ⟨rfl, rfl⟩
    · rcases (hfresh q' n).mp hq' with hq' | ⟨-, rfl⟩
      · exact h.unique q q' n hq hq'
      · exact absurd (h.known q n hq) (lt_irrefl n)
    · rcases (hfresh q' n).mp hq' with hq' | ⟨rfl, -⟩
      · exact absurd (h.known q' n hq') (lt_irrefl n)
      · rfl
  · intro n hn
    rcases Nat.lt_succ_iff_lt_or_eq.mp hn with hn | rfl
    · obtain ⟨q, hq⟩ := h.total n hn
      exact ⟨q, (hfresh q n).mpr (.inl hq)⟩
    · exact ⟨p, (hfresh p n).mpr (.inr ⟨rfl, rfl⟩)⟩

end Custody

end Varco
