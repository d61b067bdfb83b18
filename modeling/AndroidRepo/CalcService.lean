import AndroidRepo.MachineInt
import AndroidRepo.Rounding

/-! CalcServiceApp: the object that `CalcService` hands to a client that binds to it, called as
`MainActivity` calls it, in the service's own process. -/
namespace AndroidRepo.CalcService

structure ArithmeticException where
  message : String
  deriving DecidableEq, Repr

/-- What comes back from a call. -/
abbrev Returned := Except ArithmeticException Int32

def add (a b : Int32) : Returned := pure (a + b)

def subtract (a b : Int32) : Returned := pure (a - b)

def multiply (a b : Int32) : Returned := pure (a * b)

def divide (a b : Int32) : Returned := do
  if b = 0 then throw ⟨"Divide by zero"⟩
  pure (a / b)

/-- The methods of the interface. -/
inductive ICalcService where
  | add
  | subtract
  | multiply
  | divide
  deriving DecidableEq, Repr

def mBinder : ICalcService → Int32 → Int32 → Returned
  | .add => add
  | .subtract => subtract
  | .multiply => multiply
  | .divide => divide

variable {m : ICalcService} {a b : Int32} {n : ℤ}

/-! What the methods are for -/

/-- The result over the integers, if there is one. -/
def exact : ICalcService → ℤ → ℤ → Option ℤ
  | .add, a, b => some (a + b)
  | .subtract, a, b => some (a - b)
  | .multiply, a, b => some (a * b)
  | .divide, a, b => if b = 0 then none else some (Rounding.towardsZero (a / b))

/-- The number that a call returns, if it returns. -/
def answer (m : ICalcService) (a b : Int32) : Option ℤ :=
  (mBinder m a b).toOption.map Int32.toInt

/-- What a client may hope for: the exact result where that is an `int`, and an exception where
it is not. -/
def Right (m : ICalcService) (a b : Int32) : Prop :=
  answer m a b = (exact m a.toInt b.toInt).bind checked

theorem toInt_eq_zero_iff : b.toInt = 0 ↔ b = 0 := Int32.toInt_inj (y := 0)

theorem exact_divide (a b : Int32) : exact .divide a.toInt b.toInt =
    if b = 0 then none else some (a.toInt.tdiv b.toInt) := by
  simp only [exact, toInt_eq_zero_iff, Rounding.towardsZero_intDiv]

theorem exact_none_iff : exact m a.toInt b.toInt = none ↔ m = .divide ∧ b = 0 := by
  cases m with
  | divide =>
    rw [exact_divide]
    split <;> simp_all
  | _ => simp [exact]

/-- A division by zero throws. -/
theorem mBinder_of_none (h : exact m a.toInt b.toInt = none) :
    mBinder m a b = .error ⟨"Divide by zero"⟩ := by
  obtain ⟨rfl, rfl⟩ := exact_none_iff.mp h
  rfl

/-- Every other call returns the exact result, wrapped. -/
theorem answer_of_some (h : exact m a.toInt b.toInt = some n) : answer m a b = some (wrap n) := by
  cases m with
  | add =>
    obtain rfl := Option.some.inj h
    exact congrArg some (Int32.toInt_add a b)
  | subtract =>
    obtain rfl := Option.some.inj h
    exact congrArg some (Int32.toInt_sub a b)
  | multiply =>
    obtain rfl := Option.some.inj h
    exact congrArg some (Int32.toInt_mul a b)
  | divide =>
    rw [exact_divide] at h
    split at h
    · cases h
    · rename_i hb
      obtain rfl := Option.some.inj h
      simp only [answer, mBinder, divide, if_neg hb]
      exact congrArg some (Int32.toInt_div a b)

/-- One quotient only is no `int`. -/
theorem divide_fits_iff (h : exact .divide a.toInt b.toInt = some n) :
    (intMin ≤ n ∧ n ≤ intMax) ↔ ¬ (a = Int32.minValue ∧ b = -1) := by
  rw [exact_divide] at h
  split at h
  · cases h
  · obtain rfl := Option.some.inj h
    constructor
    · rintro ⟨-, hhi⟩ ⟨rfl, rfl⟩
      exact absurd hhi (by decide)
    · intro hne
      have hdiv : (a / b).toInt = a.toInt.tdiv b.toInt := by
        by_cases ha : a = Int32.minValue
        · apply Int32.toInt_div_of_ne_right
          intro hb
          exact hne ⟨ha, hb⟩
        · exact Int32.toInt_div_of_ne_left a b ha
      have hlo := (a / b).le_toInt
      have hhi := (a / b).toInt_lt
      simp only [intMin, intMax]
      omega

theorem right_iff : Right m a b ↔
    ∀ n, exact m a.toInt b.toInt = some n → intMin ≤ n ∧ n ≤ intMax := by
  cases h : exact m a.toInt b.toInt with
  | none => simp [Right, answer, h, mBinder_of_none h, Except.toOption]
  | some n =>
    have hall : (∀ k, some n = some k → intMin ≤ k ∧ k ≤ intMax) ↔ intMin ≤ n ∧ n ≤ intMax := by
      simp
    rw [hall, Right, answer_of_some h, h, Option.bind_some, checked]
    split
    · rename_i hfit
      rw [wrap_eq_self_iff.mpr hfit]
      exact iff_of_true rfl hfit
    · rename_i hfit
      exact iff_of_false nofun hfit

/-- One more than the greatest `int` is the least. -/
theorem add_not_right : ¬ ∀ m a b, Right m a b := by
  intro h
  obtain ⟨-, hhi⟩ := right_iff.mp (h .add Int32.maxValue 1) (2 ^ 31) rfl
  exact absurd hhi (by decide)

/-- A call returns the exact result where that is an `int`. A division by zero has none, and
throws. A result outside of `int` comes back as another number; a quotient is one only once. -/
theorem calc_answers (m : ICalcService) (a b : Int32) :
    (∀ n, exact m a.toInt b.toInt = some n → intMin ≤ n ∧ n ≤ intMax → answer m a b = some n) ∧
    (exact m a.toInt b.toInt = none ↔ m = .divide ∧ b = 0) ∧
    (exact m a.toInt b.toInt = none → mBinder m a b = .error ⟨"Divide by zero"⟩) ∧
    ∀ n, exact m a.toInt b.toInt = some n → ¬ (intMin ≤ n ∧ n ≤ intMax) →
      answer m a b = some (wrap n) ∧ wrap n ≠ n ∧
        (m = .divide → a = Int32.minValue ∧ b = -1) := by
  refine ⟨?_, exact_none_iff, mBinder_of_none, ?_⟩
  · intro n h hfit
    rw [answer_of_some h, wrap_eq_self_iff.mpr hfit]
  · intro n h hfit
    refine ⟨answer_of_some h, fun he => hfit (wrap_eq_self_iff.mp he), ?_⟩
    rintro rfl
    by_contra hne
    exact hfit ((divide_fits_iff h).mpr hne)

/-- The one call that `MainActivity` makes. -/
example : answer .subtract 10 5 = some 5 := by decide

end AndroidRepo.CalcService
