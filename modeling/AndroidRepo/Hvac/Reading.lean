import AndroidRepo.Decimal
import AndroidRepo.Hvac.Celsius

/-! What the text of a temperature tells about its colour. -/
namespace AndroidRepo.Hvac

variable {f g m n : Int32}

/-- A Celsius text does not go down while the temperature goes up. -/
theorem celsius_mono (hf : intMin + 32 ≤ f.toInt) (hle : f.toInt ≤ g.toInt) :
    (celsius f).toInt ≤ (celsius g).toInt := by
  have hg : intMin + 32 ≤ g.toInt := Int.le_trans hf hle
  rw [celsius_toInt, celsius_toInt, toInt_sub_thirtyTwo, toInt_sub_thirtyTwo, if_pos hf, if_pos hg]
  apply Int.tdiv_le_tdiv
  · omega
  · omega

/-- The temperatures whose difference wraps around are shown above all the others. -/
theorem celsius_lt_of_wrapped (hf : ¬ intMin + 32 ≤ f.toInt) (hg : intMin + 32 ≤ g.toInt) :
    (celsius g).toInt < (celsius f).toInt := by
  have hlo := f.le_toInt
  have hhi := g.toInt_lt
  have hmin : intMin = -2 ^ 31 := rfl
  rw [celsius_toInt, celsius_toInt, toInt_sub_thirtyTwo, toInt_sub_thirtyTwo, if_neg hf, if_pos hg]
  have hlow : (5 * (g.toInt - 32)).tdiv 9 ≤ (5 * (2 ^ 31 - 33) : ℤ).tdiv 9 :=
    Int.tdiv_le_tdiv (by omega) (by omega)
  have hgap : (5 * (2 ^ 31 - 33) : ℤ).tdiv 9 < (5 * (2 ^ 31 - 32) : ℤ).tdiv 9 := by decide
  have hhigh : (5 * (2 ^ 31 - 32) : ℤ).tdiv 9 ≤ (5 * (f.toInt - 32 + 2 ^ 32)).tdiv 9 :=
    Int.tdiv_le_tdiv (by omega) (by omega)
  exact Int.lt_of_lt_of_le (Int.lt_of_le_of_lt hlow hgap) hhigh

/-- Temperatures on both sides of two others share a text only if those two share theirs. -/
theorem celsius_cut (hm : intMin + 32 ≤ m.toInt) (hmn : m.toInt ≤ n.toInt)
    (h : celsius f = celsius g) (hf : f.toInt ≤ m.toInt) (hg : n.toInt ≤ g.toInt) :
    celsius m = celsius n := by
  by_cases hfw : intMin + 32 ≤ f.toInt
  · have hbelow := celsius_mono hfw hf
    have hbetween := celsius_mono hm hmn
    have habove := celsius_mono (Int.le_trans hm hmn) hg
    rw [h] at hbelow
    apply Int32.toInt_inj.mp
    omega
  · have hlt := celsius_lt_of_wrapped hfw (Int.le_trans hm (Int.le_trans hmn hg))
    rw [h] at hlt
    omega

/-- The text stays the same from 74 to 75 degrees Fahrenheit, but not before and not after. -/
theorem celsius_around_cut : celsius 73 ≠ celsius 74 ∧ celsius 74 = celsius 75 ∧
    celsius 75 ≠ celsius 76 := by
  simp only [← Int32.toInt_inj, ne_eq, celsius_toInt]
  decide

theorem celsius_cold_cut : celsius 60 ≠ celsius 61 := by
  simp only [← Int32.toInt_inj, ne_eq, celsius_toInt]
  decide

/-- The two temperatures that share a Celsius text across the cut at 75. -/
def AcrossCut (f g : Int32) : Prop := f = 74 ∧ g = 75 ∨ f = 75 ∧ g = 74

theorem hot_cut (h : celsius f = celsius g) (hf : f.toInt ≤ 74) (hg : 75 ≤ g.toInt) :
    f = 74 ∧ g = 75 := by
  obtain ⟨hbefore, -, hafter⟩ := celsius_around_cut
  have hmin : intMin = -2 ^ 31 := rfl
  constructor
  · by_contra hne
    have hne' : f.toInt ≠ 74 := fun he => hne (Int32.toInt_inj.mp he)
    have hf' : f.toInt ≤ 73 := by omega
    have hg' : 74 ≤ g.toInt := by omega
    exact hbefore (celsius_cut (by decide) (by decide) h hf' hg')
  · by_contra hne
    have hne' : g.toInt ≠ 75 := fun he => hne (Int32.toInt_inj.mp he)
    have hf' : f.toInt ≤ 75 := by omega
    have hg' : 76 ≤ g.toInt := by omega
    exact hafter (celsius_cut (by decide) (by decide) h hf' hg')

theorem no_cold_cut (h : celsius f = celsius g) (hf : f.toInt ≤ 60) : g.toInt ≤ 60 := by
  by_contra hg
  have hg' : 61 ≤ g.toInt := by omega
  exact celsius_cold_cut (celsius_cut (by decide) (by decide) h hf hg')

/-- Colours agree when the temperatures are on the same side of both cuts. -/
theorem getColorByTemp_congr (hhot : 75 ≤ f.toInt ↔ 75 ≤ g.toInt)
    (hcold : f.toInt ≤ 60 ↔ g.toInt ≤ 60) : getColorByTemp f = getColorByTemp g := by
  have hhot' : (75 : Int32) ≤ f ↔ 75 ≤ g := by
    rw [Int32.le_iff_toInt_le, Int32.le_iff_toInt_le]
    exact hhot
  have hcold' : f ≤ 60 ↔ g ≤ 60 := by
    rw [Int32.le_iff_toInt_le, Int32.le_iff_toInt_le]
    exact hcold
  simp only [getColorByTemp, hhot', hcold']

theorem celsius_color_iff :
    (celsius f = celsius g ∧ getColorByTemp f ≠ getColorByTemp g) ↔ AcrossCut f g := by
  constructor
  · rintro ⟨h, hne⟩
    by_contra hno
    apply hne
    apply getColorByTemp_congr
    · constructor
      · intro hf
        by_contra hg
        obtain ⟨hg', hf'⟩ := hot_cut h.symm (by omega) hf
        exact hno (Or.inr ⟨hf', hg'⟩)
      · intro hg
        by_contra hf
        exact hno (Or.inl (hot_cut h (by omega) hg))
    · exact ⟨no_cold_cut h, no_cold_cut h.symm⟩
  · rintro (⟨rfl, rfl⟩ | ⟨rfl, rfl⟩)
    · exact ⟨celsius_around_cut.2.1, by decide⟩
    · exact ⟨celsius_around_cut.2.1.symm, by decide⟩

/-- A text tells the number that it is made of. -/
theorem text_inj {i j : ℤ} (unit : String) :
    toString i ++ unit = toString j ++ unit ↔ i = j := by
  rw [String.append_left_inj]
  exact ⟨Decimal.toString_injective, fun h => by rw [h]⟩

theorem formatTemp_fahrenheit : formatTemp false f = formatTemp false g ↔ f = g := by
  simp only [formatTemp, Bool.false_eq_true, if_false, text_inj, Int32.toInt_inj]

theorem formatTemp_celsius :
    formatTemp true f = formatTemp true g ↔ celsius f = celsius g := by
  simp only [formatTemp, if_true, text_inj, Int32.toInt_inj]

/-- Equal texts have different colours in Celsius only, and there for one pair only. -/
theorem formatTemp_color_iff (isCelsius : Bool) (f g : Int32) :
    (formatTemp isCelsius f = formatTemp isCelsius g ∧ getColorByTemp f ≠ getColorByTemp g) ↔
      isCelsius = true ∧ AcrossCut f g := by
  cases isCelsius with
  | false =>
    rw [formatTemp_fahrenheit]
    constructor
    · rintro ⟨rfl, hne⟩
      exact absurd rfl hne
    · rintro ⟨hno, -⟩
      cases hno
  | true => rw [formatTemp_celsius, celsius_color_iff, and_iff_right rfl]

/-- At 74 and 75 degrees Fahrenheit, in Celsius, the screen shows 23°C in white and in red. -/
theorem same_text_other_color :
    ¬ ∀ es s, run es = some s →
      s.views.leftTempDisplay.text = s.views.rightTempDisplay.text →
      s.views.leftTempDisplay.textColor = s.views.rightTempDisplay.textColor := by
  intro h
  obtain ⟨es, s, hs, hl, hr, hu, hshown⟩ := reaches_every_state 74 75 true
  have hsame := h es s hs
  simp only [hshown.left, hshown.right, hl, hr, hu] at hsame
  obtain ⟨htext, hne⟩ := (formatTemp_color_iff true 74 75).mpr ⟨rfl, Or.inl ⟨rfl, rfl⟩⟩
  exact hne (hsame htext)

/-- On every screen, and for any two temperatures: equal texts have equal colours, except in
Celsius at 74 and 75 degrees Fahrenheit, where they do not. -/
theorem text_color :
    (∀ es s, run es = some s →
      ((s.views.leftTempDisplay.text = s.views.rightTempDisplay.text ∧
          s.views.leftTempDisplay.textColor ≠ s.views.rightTempDisplay.textColor) ↔
        s.isCelsius = true ∧ AcrossCut s.leftTemp s.rightTemp)) ∧
    ∀ isCelsius f g,
      ((formatTemp isCelsius f = formatTemp isCelsius g ∧ getColorByTemp f ≠ getColorByTemp g) ↔
        isCelsius = true ∧ AcrossCut f g) := by
  refine ⟨?_, formatTemp_color_iff⟩
  intro es s hs
  obtain ⟨t, ht, -, hshown⟩ := run_shown es
  obtain rfl := Option.some.inj (hs.symm.trans ht)
  rw [hshown.left, hshown.right]
  exact formatTemp_color_iff s.isCelsius s.leftTemp s.rightTemp

end AndroidRepo.Hvac
