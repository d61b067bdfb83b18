import Mathlib.Data.Int.Notation
import Mathlib.Data.Nat.Notation

/-! The text of an integer in decimal: its digits, with a minus sign where it is negative. -/
namespace Decimal

variable {m n : ℕ} {i j : ℤ}

theorem toList_ofNat (n : ℕ) : (toString (Int.ofNat n)).toList = Nat.toDigits 10 n :=
  Nat.toList_repr

theorem toList_negSucc (n : ℕ) :
    (toString (Int.negSucc n)).toList = '-' :: Nat.toDigits 10 (n + 1) := by
  have hrepr : toString (Int.negSucc n) = "-" ++ Nat.repr (n + 1) := rfl
  rw [hrepr, String.toList_append, Nat.toList_repr]
  rfl

theorem toDigits_injective (h : Nat.toDigits 10 m = Nat.toDigits 10 n) : m = n := by
  rw [← Nat.ofDigitChars_ten_toDigits (n := m), h, Nat.ofDigitChars_ten_toDigits]

theorem minus_not_mem_toDigits (n : ℕ) : '-' ∉ Nat.toDigits 10 n := by
  intro hm
  have hdigit : '-'.isDigit = true := Nat.isDigit_of_mem_toDigits (by decide) (by decide) hm
  cases hdigit

/-- The text tells the number. -/
theorem toString_injective (h : toString i = toString j) : i = j := by
  have hlist := congrArg String.toList h
  cases i with
  | ofNat m =>
    cases j with
    | ofNat n =>
      rw [toList_ofNat, toList_ofNat] at hlist
      rw [toDigits_injective hlist]
    | negSucc n =>
      rw [toList_ofNat, toList_negSucc] at hlist
      exact absurd (hlist ▸ List.mem_cons_self) (minus_not_mem_toDigits m)
  | negSucc m =>
    cases j with
    | ofNat n =>
      rw [toList_ofNat, toList_negSucc] at hlist
      exact absurd (hlist ▸ List.mem_cons_self) (minus_not_mem_toDigits n)
    | negSucc n =>
      rw [toList_negSucc, toList_negSucc] at hlist
      rw [Nat.succ.inj (toDigits_injective (List.cons.inj hlist).2)]

end Decimal
