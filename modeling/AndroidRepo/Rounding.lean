import Mathlib.Algebra.Order.Round
import Mathlib.Data.Rat.Floor
import Mathlib.Tactic.FieldSimp
import Mathlib.Tactic.Linarith
import Mathlib.Tactic.Ring

/-! Rounding a rational towards zero, and when the result is a nearest integer. -/
namespace Rounding

variable {n a : ℤ} {b : ℕ} {x : ℚ}

def towardsZero (x : ℚ) : ℤ := if 0 ≤ x then ⌊x⌋ else ⌈x⌉

def IsNearest (n : ℤ) (x : ℚ) : Prop := ∀ m : ℤ, |(n : ℚ) - x| ≤ |(m : ℚ) - x|

theorem isNearest_iff : IsNearest n x ↔ |(n : ℚ) - x| ≤ 1 / 2 := by
  constructor
  · intro h
    have hround := abs_sub_round x
    rw [abs_sub_comm] at hround
    exact (h (round x)).trans hround
  · intro h m
    by_cases hm : m = n
    · rw [hm]
    · have hint : (1 : ℤ) ≤ |m - n| := Int.one_le_abs (sub_ne_zero.mpr hm)
      have hone : (1 : ℚ) ≤ |(m : ℚ) - n| := by exact_mod_cast hint
      have htri := abs_sub_le (m : ℚ) x n
      rw [abs_sub_comm x (n : ℚ)] at htri
      linarith

theorem towardsZero_div (a : ℤ) (b : ℕ) : towardsZero (a / b) = a.tdiv b := by
  rcases Int.le_total 0 a with ha | ha
  · have hx : (0 : ℚ) ≤ a / b := div_nonneg (by exact_mod_cast ha) (Nat.cast_nonneg b)
    rw [towardsZero, if_pos hx, Rat.floor_intCast_div_natCast, Int.tdiv_eq_ediv_of_nonneg ha]
  · have hceil : ⌈(a / b : ℚ)⌉ = a.tdiv b := by
      rw [Rat.ceil_intCast_div_natCast, ← Int.tdiv_eq_ediv_of_nonneg (by omega), Int.neg_tdiv,
        Int.neg_neg]
    rw [towardsZero]
    split
    · rename_i hx
      have hx' : (a / b : ℚ) ≤ 0 :=
        div_nonpos_of_nonpos_of_nonneg (by exact_mod_cast ha) (Nat.cast_nonneg b)
      rw [← hceil, le_antisymm hx' hx, Int.floor_zero, Int.ceil_zero]
    · exact hceil

theorem towardsZero_intDiv (a b : ℤ) : towardsZero (a / b) = a.tdiv b := by
  rcases Int.eq_nat_or_neg b with ⟨n, rfl | rfl⟩
  · rw [Int.cast_natCast, towardsZero_div]
  · have hneg : (a : ℚ) / ((-(n : ℤ) : ℤ) : ℚ) = ((-a : ℤ) : ℚ) / n := by
      push_cast
      rw [neg_div, div_neg]
    rw [hneg, towardsZero_div, Int.neg_tdiv, Int.tdiv_neg]

theorem abs_tdiv_sub (a : ℤ) (hb : 0 < b) :
    |((a.tdiv b : ℤ) : ℚ) - a / b| = ((a.natAbs % b : ℕ) : ℚ) / b := by
  have hb' : (0 : ℚ) < b := by exact_mod_cast hb
  have hdiv := Int.mul_tdiv_add_tmod a b
  have hmod : |a.tmod b| = ((a.natAbs % b : ℕ) : ℤ) := by
    rw [Int.abs_eq_natAbs, Int.natAbs_tmod, Int.natAbs_natCast]
  have hcast : (b : ℚ) * (a.tdiv b : ℤ) + (a.tmod b : ℤ) = a := by exact_mod_cast hdiv
  have hsub : ((a.tdiv b : ℤ) : ℚ) - a / b = -(a.tmod b : ℤ) / b := by
    field_simp
    linarith
  rw [hsub, abs_div, abs_neg, abs_of_pos hb', ← Int.cast_abs, hmod, Int.cast_natCast]

/-- The quotient rounded towards zero is a nearest integer when the remainder is at most half
the divisor. -/
theorem isNearest_tdiv_iff (a : ℤ) (hb : 0 < b) :
    IsNearest (a.tdiv b) (a / b) ↔ 2 * (a.natAbs % b) ≤ b := by
  have hb' : (0 : ℚ) < b := by exact_mod_cast hb
  rw [isNearest_iff, abs_tdiv_sub a hb, div_le_div_iff₀ hb' two_pos, one_mul, mul_comm]
  exact_mod_cast Iff.rfl

end Rounding
