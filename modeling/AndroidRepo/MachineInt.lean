import Mathlib.Algebra.Ring.Int.Defs
import Mathlib.Algebra.Ring.Nat

/-! The range of the 32-bit `int`. -/
namespace AndroidRepo

def intMin : Int := -2 ^ 31

def intMax : Int := 2 ^ 31 - 1

/-- The result of a signed operation, undefined outside of `int`. -/
def checked (n : Int) : Option Int := if intMin ≤ n ∧ n ≤ intMax then some n else none

theorem checked_of_range {n : Int} (hlo : intMin ≤ n) (hhi : n ≤ intMax) :
    checked n = some n := if_pos ⟨hlo, hhi⟩

theorem checked_cases (n : Int) : checked n = some n ∨ checked n = none := by
  by_cases hn : intMin ≤ n ∧ n ≤ intMax
  · exact Or.inl (if_pos hn)
  · exact Or.inr (if_neg hn)

theorem checked_of_gt {n : Int} (hn : intMax < n) : checked n = none := by
  apply if_neg
  omega

theorem checked_natCast {n : ℕ} (hn : n < 2 ^ 31) : checked n = some (n : Int) := by
  apply checked_of_range
  · simp only [intMin]
    omega
  · simp only [intMax]
    omega

/-- The `int` that Java's arithmetic has in place of an integer. -/
def wrap (n : Int) : Int := n.bmod (2 ^ 32)

theorem wrap_eq_self_iff {n : Int} : wrap n = n ↔ intMin ≤ n ∧ n ≤ intMax := by
  simp only [wrap, intMin, intMax, Int.bmod_def]
  split <;> omega

/-- The `%` of C++, undefined where the quotient is. -/
def rem (a b : Int) : Option Int :=
  if b = 0 then none else (checked (a.tdiv b)).map fun _ => a.tmod b

theorem rem_of_nonneg {a b : Int} (ha : 0 ≤ a) (hb : 0 < b) (hhi : a ≤ intMax) :
    rem a b = some (a % b) := by
  have hq : 0 ≤ a / b := Int.ediv_nonneg ha (Int.le_of_lt hb)
  have hle : a / b ≤ a := Int.ediv_le_self b ha
  have hmin : intMin ≤ 0 := by decide
  rw [rem, if_neg (Int.ne_of_gt hb), Int.tdiv_eq_ediv_of_nonneg ha, Int.tmod_eq_emod_of_nonneg ha,
    checked_of_range (Int.le_trans hmin hq) (Int.le_trans hle hhi), Option.map_some]

end AndroidRepo
