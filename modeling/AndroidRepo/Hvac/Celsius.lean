import AndroidRepo.Hvac.Display
import AndroidRepo.MachineInt

/-! The Celsius text against the exact quotient. -/
namespace AndroidRepo.Hvac

open Rounding

variable {f : Int32}

/-- The temperature itself, in degrees Celsius. -/
def exactCelsius (f : Int32) : ℚ := ((f.toInt : ℚ) - 32) * 5 / 9

/-- `f - 32` wraps around for the 32 lowest temperatures. -/
theorem toInt_sub_thirtyTwo (f : Int32) :
    (f - 32).toInt = if intMin + 32 ≤ f.toInt then f.toInt - 32 else f.toInt - 32 + 2 ^ 32 := by
  have hlo := f.le_toInt
  have hhi := f.toInt_lt
  have h32 : (32 : Int32).toInt = 32 := rfl
  rw [Int32.toInt_sub, h32, Int.bmod_def, intMin]
  split <;> split <;> omega

theorem ninths (d : ℤ) : (d : ℚ) * 5 / 9 = ((5 * d : ℤ) : ℚ) / ((9 : ℕ) : ℚ) := by
  push_cast
  ring

theorem celsius_toInt (f : Int32) : (celsius f).toInt = (5 * (f - 32).toInt).tdiv 9 := by
  have hlo := (f - 32).le_toInt
  have hhi := (f - 32).toInt_lt
  have habs : ((5 * (f - 32).toInt).tdiv 9).natAbs = (5 * (f - 32).toInt).natAbs / 9 :=
    Int.natAbs_tdiv _ _
  rw [celsius, truncate, ninths, towardsZero_div, Nat.cast_ofNat]
  apply Int32.toInt_ofIntClamp
  · rw [Int32.toInt_minValue]
    omega
  · rw [Int32.toInt_maxValue]
    omega

theorem exactCelsius_eq (f : Int32) :
    exactCelsius f = ((5 * (f.toInt - 32) : ℤ) : ℚ) / ((9 : ℕ) : ℚ) := by
  rw [exactCelsius, ← ninths, Int.cast_sub, Int.cast_ofNat]

theorem celsius_nearest_of_le (hf : intMin + 32 ≤ f.toInt) :
    IsNearest (celsius f).toInt (exactCelsius f) ↔ (5 * (f.toInt - 32)).natAbs % 9 ≤ 4 := by
  have hc : (celsius f).toInt = (5 * (f.toInt - 32)).tdiv ((9 : ℕ) : ℤ) := by
    rw [celsius_toInt, toInt_sub_thirtyTwo, if_pos hf]
    rfl
  rw [hc, exactCelsius_eq, isNearest_tdiv_iff _ (by decide)]
  omega

/-- After the wrap-around a temperature far below zero is shown far above it. -/
theorem celsius_not_nearest_of_lt (hf : ¬ intMin + 32 ≤ f.toInt) :
    ¬ IsNearest (celsius f).toInt (exactCelsius f) := by
  have hlo := f.le_toInt
  have hpos : 1 ≤ (celsius f).toInt := by
    rw [celsius_toInt, toInt_sub_thirtyTwo, if_neg hf, Int.tdiv_eq_ediv_of_nonneg (by omega)]
    omega
  have hneg : exactCelsius f ≤ 0 := by
    have hint : f.toInt ≤ 0 := by
      simp only [intMin] at hf
      omega
    have hrat : (f.toInt : ℚ) ≤ 0 := by exact_mod_cast hint
    rw [exactCelsius]
    linarith
  intro hn
  have habs := le_of_abs_le (isNearest_iff.mp hn)
  have hone : (1 : ℚ) ≤ (celsius f).toInt := by exact_mod_cast hpos
  linarith

theorem celsius_nearest_iff (f : Int32) :
    IsNearest (celsius f).toInt (exactCelsius f) ↔
      intMin + 32 ≤ f.toInt ∧ (5 * (f.toInt - 32)).natAbs % 9 ≤ 4 := by
  by_cases hf : intMin + 32 ≤ f.toInt
  · rw [celsius_nearest_of_le hf, and_iff_right hf]
  · exact iff_of_false (celsius_not_nearest_of_lt hf) fun h => hf h.1

/-- How often an up button is pressed to come to a temperature. -/
def presses (f : Int32) : ℕ := ((f.toInt - 63) % 2 ^ 32).toNat

theorem ofInt_presses (f : Int32) : Int32.ofInt (63 + presses f) = f := by
  have hlo := f.le_toInt
  have hhi := f.toInt_lt
  have hn : (presses f : ℤ) = (f.toInt - 63) % 2 ^ 32 := Int.toNat_of_nonneg (by omega)
  rw [← Int32.toInt_inj, Int32.toInt_ofInt, Int.bmod_def, Int32.size, hn]
  split <;> omega

/-- Enough presses of the two up buttons lead to any temperatures, in either unit. -/
theorem reaches_every_state (f g : Int32) (isCelsius : Bool) :
    ∃ es s, run es = some s ∧ s.leftTemp = f ∧ s.rightTemp = g ∧ s.isCelsius = isCelsius ∧
      Shown s := by
  let es : List Event := List.replicate (presses f) .leftUp ++
    List.replicate (presses g) .rightUp ++ [.unitSelected (if isCelsius then 1 else 0)]
  have hleft : es.count .leftUp = presses f ∧ es.count .leftDown = 0 := by
    simp [es, List.count_replicate]
  have hright : es.count .rightUp = presses g ∧ es.count .rightDown = 0 := by
    simp [es, List.count_replicate]
  obtain ⟨s, hs, ht, hshown⟩ := run_shown es
  refine ⟨es, s, hs, ?_, ?_, ?_, hshown⟩
  · rw [ht.left, temp, hleft.1, hleft.2, Nat.cast_zero, Int.sub_zero, ofInt_presses]
  · rw [ht.right, temp, hright.1, hright.2, Nat.cast_zero, Int.sub_zero, ofInt_presses]
  · rw [ht.unit]
    cases isCelsius <;> simp [es, lastUnit, Event.position]

/-- Enough presses of one button lead to any temperature. -/
theorem reaches_every_temp (f : Int32) :
    ∃ es s, run es = some s ∧ s.leftTemp = f ∧
      s.views.leftTempDisplay.text = toString (celsius f).toInt ++ "°C" := by
  obtain ⟨es, s, hs, hleft, -, hunit, hshown⟩ := reaches_every_state f 63 true
  refine ⟨es, s, hs, hleft, ?_⟩
  rw [hshown.left, formatTemp, if_pos hunit, hleft]

/-- At 60 degrees Fahrenheit, 15.56 degrees Celsius, the screen shows 15. -/
theorem celsius_sixty_not_nearest :
    ¬ ∀ es s, run es = some s → IsNearest (celsius s.leftTemp).toInt (exactCelsius s.leftTemp) := by
  intro h
  obtain ⟨es, s, hs, hleft, -⟩ := reaches_every_temp 60
  have hn := (celsius_nearest_iff s.leftTemp).mp (h es s hs)
  rw [hleft] at hn
  exact absurd hn.2 (by decide)

/-- The screen can show every temperature, and shows its Celsius value rounded towards zero: a
nearest integer for five remainders of nine, while the difference does not wrap around. -/
theorem celsius_towards_zero (f : Int32) :
    (∃ es s, run es = some s ∧ s.leftTemp = f ∧
      s.views.leftTempDisplay.text = toString (celsius f).toInt ++ "°C") ∧
    (celsius f).toInt = towardsZero (((f - 32).toInt : ℚ) * 5 / 9) ∧
    (intMin + 32 ≤ f.toInt → (f - 32).toInt = f.toInt - 32) ∧
    (IsNearest (celsius f).toInt (exactCelsius f) ↔
      intMin + 32 ≤ f.toInt ∧ (5 * (f.toInt - 32)).natAbs % 9 ≤ 4) := by
  refine ⟨reaches_every_temp f, ?_, ?_, celsius_nearest_iff f⟩
  · rw [celsius_toInt, ninths, towardsZero_div]
    rfl
  · intro hf
    rw [toInt_sub_thirtyTwo, if_pos hf]

end AndroidRepo.Hvac
