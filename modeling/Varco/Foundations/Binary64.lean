import Mathlib.Data.Int.Log
import Mathlib.Data.Rat.Floor
import Mathlib.Tactic.Positivity
import Varco.Foundations.Python

/-!
# Rounding to binary64

A `float` as the rational number it is, or as none. `nearest` rounds a rational number to the
nearest `float`, and to the even significand where two are equally near, as `float(text)` does with
the number that a text denotes. An integer is rounded to an integer (`nearest_int`), and to itself
below `2 ^ 53` (`nearest_of_natAbs_lt`).
-/

namespace Varco

/-- A value of type `float`; the two zeros are one. -/
inductive Binary64
  | finite (q : ℚ)
  | infinite (negative : Bool)
  | nan

namespace Binary64

/-- The exponent of the last place of the numbers of the size of `q`. -/
def place (q : ℚ) : ℤ := max (Int.log 2 |q| - 52) (-1074)

/-- How many units in the last place `q` is, rounded. -/
def significand (q : ℚ) : ℤ :=
  let units := q / (2 : ℚ) ^ place q
  roundHalfEven units.num units.den

/-- The nearest `float`. -/
def nearest (q : ℚ) : Binary64 :=
  let rounded := significand q * (2 : ℚ) ^ place q
  if |rounded| < 2 ^ 1024 then .finite rounded else .infinite (q < 0)

theorem roundHalfEven_one (n : ℤ) : roundHalfEven n 1 = n := by
  unfold roundHalfEven
  simp

/-- Where the last place is at least one, an integer is rounded to an integer; elsewhere it is kept.
-/
theorem rounded_int (n : ℤ) : ∃ m : ℤ, significand n * (2 : ℚ) ^ place n = m ∧
    (place n ≤ 0 → m = n) := by
  by_cases hplace : place (n : ℚ) ≤ 0
  · refine ⟨n, ?_, fun _ => rfl⟩
    obtain ⟨k, hk⟩ := Int.eq_ofNat_of_zero_le (neg_nonneg.mpr hplace)
    have hpow : (2 : ℚ) ^ place (n : ℚ) = ((2 ^ k : ℤ) : ℚ)⁻¹ := by
      rw [← neg_neg (place (n : ℚ)), hk, zpow_neg, zpow_natCast]
      push_cast
      rfl
    have hunits : (n : ℚ) / (2 : ℚ) ^ place (n : ℚ) = ((n * 2 ^ k : ℤ) : ℚ) := by
      rw [hpow, div_inv_eq_mul]
      push_cast
      rfl
    have hsignificand : significand (n : ℚ) = n * 2 ^ k := by
      unfold significand
      rw [hunits]
      exact roundHalfEven_one _
    rw [hsignificand, hpow]
    have hne : ((2 ^ k : ℤ) : ℚ) ≠ 0 := by positivity
    push_cast at hne ⊢
    exact mul_inv_cancel_right₀ hne _
  · obtain ⟨k, hk⟩ := Int.eq_ofNat_of_zero_le (le_of_not_ge hplace)
    refine ⟨significand n * 2 ^ k, ?_, fun h => absurd h hplace⟩
    rw [hk]
    push_cast
    rfl

/-- **The `float` nearest to an integer is an integer**, if it is finite. -/
theorem nearest_int {n : ℤ} {q : ℚ} (h : nearest n = .finite q) : ∃ m : ℤ, q = m := by
  obtain ⟨m, hm, -⟩ := rounded_int n
  unfold nearest at h
  dsimp only at h
  split_ifs at h
  injection h with h
  exact ⟨m, h.symm.trans hm⟩

/-- Integers below `2 ^ 53` are kept. -/
theorem nearest_of_natAbs_lt {n : ℤ} (h : n.natAbs < 2 ^ 53) : nearest n = .finite n := by
  have habs : |(n : ℚ)| = (n.natAbs : ℚ) := by
    rw [Nat.cast_natAbs, Int.cast_abs]
  have hlog : Int.log 2 |(n : ℚ)| ≤ 52 := by
    rw [habs, Int.log_natCast]
    have hnat : Nat.log 2 n.natAbs < 53 := Nat.log_lt_of_lt_pow' (by norm_num) h
    omega
  have hplace : place (n : ℚ) ≤ 0 := max_le (by linarith) (by norm_num)
  obtain ⟨m, hm, hmn⟩ := rounded_int n
  have hsmall : |(n : ℚ)| < 2 ^ 1024 := by
    rw [habs]
    calc (n.natAbs : ℚ) < 2 ^ 53 := by exact_mod_cast h
      _ ≤ 2 ^ 1024 := pow_le_pow_right₀ (by norm_num) (by norm_num)
  unfold nearest
  dsimp only
  rw [hm, hmn hplace, if_pos hsmall]

end Binary64

end Varco
