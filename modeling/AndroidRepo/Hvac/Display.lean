import AndroidRepo.Hvac.Model
import Mathlib.Data.List.Induction

/-! The screen after any sequence of events is the one that belongs to the counted presses. -/
namespace AndroidRepo.Hvac

variable {s t : MainActivity} {e : Event} {es : List Event} {up down : Event}

/-- What the fan does, behind the three encodings that the source has for it. -/
inductive FanMode where
  | off
  | low
  | medium
  | high
  deriving DecidableEq, Repr

namespace FanMode

def name : FanMode → String
  | off => "OFF"
  | low => "LOW"
  | medium => "MEDIUM"
  | high => "HIGH"

def icon : FanMode → Drawable
  | off => .fan_off
  | low => .fan_low
  | medium => .fan_medium
  | high => .fan_high

def animation : FanMode → Option Anim
  | off => none
  | low => some .rotate_fan_low
  | medium => some .rotate_fan_medium
  | high => some .rotate_fan_high

end FanMode

theorem fanModes_names : fanModes = [FanMode.off, .low, .medium, .high].map FanMode.name := rfl

theorem setFanIcon_name (m : FanMode) : setFanIcon m.name = (m.icon, m.animation) := by
  cases m <;> rfl

theorem fanMode_of_lt (h : s.fanModeIndex < fanModes.length) :
    ∃ m : FanMode, fanModes[s.fanModeIndex]? = some m.name := by
  simp only [fanModes_names, List.length_map] at h
  simp only [fanModes_names, List.getElem?_map, List.getElem?_eq_getElem h, Option.map_some]
  exact ⟨_, rfl⟩

/-- The views belong to the state. -/
structure Shown (s : MainActivity) : Prop where
  left : s.views.leftTempDisplay =
    ⟨formatTemp s.isCelsius s.leftTemp, getColorByTemp s.leftTemp⟩
  right : s.views.rightTempDisplay =
    ⟨formatTemp s.isCelsius s.rightTemp, getColorByTemp s.rightTemp⟩
  background : s.views.rootLayout = background s.leftTemp s.rightTemp
  fan : ∃ m : FanMode, fanModes[s.fanModeIndex]? = some m.name ∧
    s.views.fanDisplay = "FAN: " ++ m.name ∧ s.views.fanIcon = m.icon ∧
    s.views.animation = m.animation

/-- Two states that differ in their views at most. -/
def SameState (s t : MainActivity) : Prop :=
  t.leftTemp = s.leftTemp ∧ t.rightTemp = s.rightTemp ∧ t.isCelsius = s.isCelsius ∧
    t.fanModeIndex = s.fanModeIndex

theorem updateDisplays_spec (h : s.fanModeIndex < fanModes.length) :
    ∃ t, updateDisplays s = some t ∧ SameState s t ∧ Shown t := by
  obtain ⟨m, hm⟩ := fanMode_of_lt h
  simp only [updateDisplays, hm, Option.bind_eq_bind, Option.bind_some, setFanIcon_name]
  exact ⟨_, rfl, ⟨rfl, rfl, rfl, rfl⟩, rfl, rfl, rfl, m, hm, rfl, rfl, rfl⟩

/-- `updateDisplays` reads nothing from the views: what is shown is a function of the state. -/
theorem Shown.unique {u : MainActivity} (ht : Shown t) (hu : Shown u) (hs : SameState t u) :
    t = u := by
  obtain ⟨m, hm, hmd, hmi, hma⟩ := ht.fan
  obtain ⟨n, hn, hnd, hni, hna⟩ := hu.fan
  obtain ⟨hl, hr, hc, hf⟩ := hs
  have hmn : m = n := by
    rw [← hf, hn] at hm
    cases m <;> cases n <;> simp_all [FanMode.name]
  subst n
  have hleft := ht.left
  have hright := ht.right
  have hback := ht.background
  have hleft' := hu.left
  have hright' := hu.right
  have hback' := hu.background
  rcases t with ⟨tl, tr, tc, tf, ⟨tld, trd, tfd, tb, ti, ta⟩⟩
  rcases u with ⟨ul, ur, uc, uf, ⟨uld, urd, ufd, ub, ui, ua⟩⟩
  simp_all

theorem updateDisplays_of_shown (h : Shown s) : updateDisplays s = some s := by
  obtain ⟨m, hm, -⟩ := h.fan
  have hlt : s.fanModeIndex < fanModes.length := by
    by_contra hge
    rw [List.getElem?_eq_none (by omega)] at hm
    cases hm
  obtain ⟨t, ht, hst, hshown⟩ := updateDisplays_spec hlt
  rw [ht, h.unique hshown hst]

/-- What a handler does to the state, before it refreshes the views. -/
def Event.change (s : MainActivity) : Event → MainActivity
  | .leftUp => { s with leftTemp := s.leftTemp + 1 }
  | .leftDown => { s with leftTemp := s.leftTemp - 1 }
  | .rightUp => { s with rightTemp := s.rightTemp + 1 }
  | .rightDown => { s with rightTemp := s.rightTemp - 1 }
  | .fan => { s with fanModeIndex := (s.fanModeIndex + 1) % fanModes.length }
  | .unitSelected position => { s with isCelsius := position == 1 }
  | .nothingSelected => s

/-- Every handler refreshes the views, or has nothing to refresh. -/
theorem handle_eq (h : Shown s) (e : Event) : handle s e = updateDisplays (e.change s) := by
  cases e with
  | nothingSelected => exact (updateDisplays_of_shown h).symm
  | _ => rfl

/-- The temperature after these many presses of two buttons, as an `int`. -/
def temp (es : List Event) (up down : Event) : Int32 :=
  Int32.ofInt (63 + es.count up - es.count down)

theorem temp_up (hne : up ≠ down) : temp (es ++ [up]) up down = temp es up down + 1 := by
  have hint : (63 + ((es.count up + 1 : ℕ) : Int) - es.count down) =
      63 + es.count up - es.count down + 1 := by omega
  simp only [temp, List.count_append, List.count_singleton_self, List.count_singleton,
    beq_iff_eq, hne, if_false, Nat.add_zero]
  rw [hint, Int32.ofInt_add]
  rfl

theorem temp_down (hne : up ≠ down) : temp (es ++ [down]) up down = temp es up down - 1 := by
  have hint : (63 + (es.count up : Int) - ((es.count down + 1 : ℕ) : Int)) =
      63 + es.count up - es.count down - 1 := by omega
  simp only [temp, List.count_append, List.count_singleton_self, List.count_singleton,
    beq_iff_eq, hne.symm, if_false, Nat.add_zero]
  rw [hint, Int32.ofInt_sub]
  rfl

theorem temp_other (hup : e ≠ up) (hdown : e ≠ down) :
    temp (es ++ [e]) up down = temp es up down := by
  simp [temp, List.count_append, hup, hdown]

def buttons : List Event := [.leftUp, .leftDown, .rightUp, .rightDown, .fan]

def Event.position : Event → Option ℕ
  | .unitSelected position => some position
  | _ => none

/-- The position of the unit that was selected last. -/
def lastUnit (es : List Event) : Option ℕ := (es.filterMap Event.position).getLast?

/-- The state that the events lead to, without the views. -/
structure Tracks (es : List Event) (s : MainActivity) : Prop where
  left : s.leftTemp = temp es .leftUp .leftDown
  right : s.rightTemp = temp es .rightUp .rightDown
  fan : s.fanModeIndex = es.count .fan % fanModes.length
  unit : s.isCelsius = (lastUnit es == some 1)

theorem fan_lt (n : ℕ) : n % fanModes.length < fanModes.length := Nat.mod_lt _ (by decide)

theorem Tracks.same (h : Tracks es s) (hs : SameState s t) : Tracks es t := by
  obtain ⟨hl, hr, hc, hf⟩ := hs
  exact ⟨hl.trans h.left, hr.trans h.right, hf.trans h.fan, hc.trans h.unit⟩

theorem change_leftTemp (h : s.leftTemp = temp es .leftUp .leftDown) (e : Event) :
    (e.change s).leftTemp = temp (es ++ [e]) .leftUp .leftDown := by
  cases e with
  | leftUp => rw [temp_up (by decide), ← h, Event.change]
  | leftDown => rw [temp_down (by decide), ← h, Event.change]
  | _ => rw [temp_other (by simp) (by simp), ← h, Event.change]

theorem change_rightTemp (h : s.rightTemp = temp es .rightUp .rightDown) (e : Event) :
    (e.change s).rightTemp = temp (es ++ [e]) .rightUp .rightDown := by
  cases e with
  | rightUp => rw [temp_up (by decide), ← h, Event.change]
  | rightDown => rw [temp_down (by decide), ← h, Event.change]
  | _ => rw [temp_other (by simp) (by simp), ← h, Event.change]

theorem change_fanModeIndex (h : s.fanModeIndex = es.count .fan % fanModes.length) (e : Event) :
    (e.change s).fanModeIndex = (es ++ [e]).count .fan % fanModes.length := by
  cases e with
  | fan => simp [Event.change, h]
  | _ => simpa [Event.change] using h

theorem change_isCelsius (h : s.isCelsius = (lastUnit es == some 1)) (e : Event) :
    (e.change s).isCelsius = (lastUnit (es ++ [e]) == some 1) := by
  cases e with
  | unitSelected position => simp [Event.change, lastUnit, Event.position]
  | _ => simpa [Event.change, lastUnit, Event.position] using h

theorem Tracks.change (h : Tracks es s) (e : Event) : Tracks (es ++ [e]) (e.change s) where
  left := change_leftTemp h.left e
  right := change_rightTemp h.right e
  fan := change_fanModeIndex h.fan e
  unit := change_isCelsius h.unit e

theorem run_append (es : List Event) (e : Event) :
    run (es ++ [e]) = run es >>= fun s => handle s e := by
  cases h : onCreate <;> simp [run, h]

theorem refresh (h : Tracks es s) : ∃ t, updateDisplays s = some t ∧ Tracks es t ∧ Shown t := by
  have hlt : s.fanModeIndex < fanModes.length := by
    rw [h.fan]
    exact fan_lt _
  obtain ⟨t, ht, hst, hshown⟩ := updateDisplays_spec hlt
  exact ⟨t, ht, h.same hst, hshown⟩

/-- The screen never goes stale: each event refreshes all of it. -/
theorem run_shown (es : List Event) : ∃ s, run es = some s ∧ Tracks es s ∧ Shown s := by
  induction es using List.reverseRecOn with
  | nil =>
    have hinit : Tracks [] ⟨63, 63, false, 0, activity_main⟩ := ⟨rfl, rfl, rfl, rfl⟩
    obtain ⟨s, hs, ht, hshown⟩ := refresh hinit
    refine ⟨s, ?_, ht, hshown⟩
    simp [run, onCreate, hs]
  | append_singleton es e ih =>
    obtain ⟨s, hs, ht, hshown⟩ := ih
    obtain ⟨t, he, hte, hshown'⟩ := refresh (ht.change e)
    refine ⟨t, ?_, hte, hshown'⟩
    simp [run_append, hs, handle_eq hshown, he]

/-- A cascade of two tests tells which of three different values it has come to. -/
theorem cascade_iff {α : Type} {x y z : α} {p q : Prop} [Decidable p] [Decidable q]
    (hxy : x ≠ y) (hxz : x ≠ z) (hyz : y ≠ z) :
    ((if p then x else if q then y else z) = x ↔ p) ∧
    ((if p then x else if q then y else z) = y ↔ ¬ p ∧ q) ∧
    ((if p then x else if q then y else z) = z ↔ ¬ p ∧ ¬ q) := by
  by_cases hp : p <;> by_cases hq : q <;> simp_all [Ne.symm]

theorem getColorByTemp_iff (tempF : Int32) :
    (getColorByTemp tempF = Color.RED ↔ 75 ≤ tempF) ∧
    (getColorByTemp tempF = Color.BLUE ↔ ¬ 75 ≤ tempF ∧ tempF ≤ 60) ∧
    (getColorByTemp tempF = Color.WHITE ↔ ¬ 75 ≤ tempF ∧ ¬ tempF ≤ 60) :=
  cascade_iff (by decide) (by decide) (by decide)

theorem background_iff (l r : Int32) :
    (background l r = Color.parseColor 0xFF5722 ↔ 75 ≤ l ∨ 75 ≤ r) ∧
    (background l r = Color.parseColor 0x2196F3 ↔ ¬ (75 ≤ l ∨ 75 ≤ r) ∧ (l ≤ 60 ∨ r ≤ 60)) ∧
    (background l r = Color.parseColor 0x202124 ↔ ¬ (75 ≤ l ∨ 75 ≤ r) ∧ ¬ (l ≤ 60 ∨ r ≤ 60)) :=
  cascade_iff (by decide) (by decide) (by decide)

/-- The thresholds of the background, as the two text colours have them. -/
structure BackgroundMatches (s : MainActivity) : Prop where
  warm : s.views.rootLayout = Color.parseColor 0xFF5722 ↔
    s.views.leftTempDisplay.textColor = Color.RED ∨ s.views.rightTempDisplay.textColor = Color.RED
  cool : s.views.rootLayout = Color.parseColor 0x2196F3 ↔
    ¬ (s.views.leftTempDisplay.textColor = Color.RED ∨
      s.views.rightTempDisplay.textColor = Color.RED) ∧
    (s.views.leftTempDisplay.textColor = Color.BLUE ∨
      s.views.rightTempDisplay.textColor = Color.BLUE)
  dark : s.views.rootLayout = Color.parseColor 0x202124 ↔
    ¬ (s.views.leftTempDisplay.textColor = Color.RED ∨
      s.views.rightTempDisplay.textColor = Color.RED) ∧
    ¬ (s.views.leftTempDisplay.textColor = Color.BLUE ∨
      s.views.rightTempDisplay.textColor = Color.BLUE)

theorem Shown.backgroundMatches (h : Shown s) : BackgroundMatches s := by
  obtain ⟨hleft, hright, hback, -⟩ := h
  obtain ⟨hwarm, hcool, hdark⟩ := background_iff s.leftTemp s.rightTemp
  obtain ⟨hlred, hlblue, -⟩ := getColorByTemp_iff s.leftTemp
  obtain ⟨hrred, hrblue, -⟩ := getColorByTemp_iff s.rightTemp
  -- where nothing is red, the second test of the text colours is that of the background
  have hblue : ¬ (75 ≤ s.leftTemp ∨ 75 ≤ s.rightTemp) →
      ((s.leftTemp ≤ 60 ∨ s.rightTemp ≤ 60) ↔
        (¬ 75 ≤ s.leftTemp ∧ s.leftTemp ≤ 60) ∨ (¬ 75 ≤ s.rightTemp ∧ s.rightTemp ≤ 60)) := by
    intro hno
    obtain ⟨hl, hr⟩ := not_or.mp hno
    rw [and_iff_right hl, and_iff_right hr]
  constructor
  · simp only [hleft, hright, hback, hwarm, hlred, hrred]
  · simp only [hleft, hright, hback, hcool, hlred, hrred, hlblue, hrblue]
    apply and_congr_right
    exact hblue
  · simp only [hleft, hright, hback, hdark, hlred, hrred, hlblue, hrblue]
    apply and_congr_right
    intro hno
    exact not_congr (hblue hno)

/-- After every sequence of events the state is the one counted from the presses, the screen is
the one `updateDisplays` derives from it, and neither depends on the order of the events. -/
theorem screen_matches_state (es : List Event) :
    ∃ s, run es = some s ∧
      s.leftTemp = Int32.ofInt (63 + es.count .leftUp - es.count .leftDown) ∧
      s.rightTemp = Int32.ofInt (63 + es.count .rightUp - es.count .rightDown) ∧
      s.fanModeIndex = es.count .fan % fanModes.length ∧ s.fanModeIndex < fanModes.length ∧
      (s.isCelsius = true ↔ lastUnit es = some 1) ∧
      (∀ views, updateDisplays { s with views := views } = some s) ∧
      Shown s ∧ BackgroundMatches s ∧
      ∀ es' : List Event, (∀ e ∈ buttons, es'.count e = es.count e) →
        lastUnit es' = lastUnit es → run es' = some s := by
  obtain ⟨s, hs, ⟨hl, hr, hf, hu⟩, hshown⟩ := run_shown es
  have hlt : s.fanModeIndex < fanModes.length := by
    rw [hf]
    exact fan_lt _
  refine ⟨s, hs, hl, hr, hf, hlt, by simp [hu], ?_, hshown, hshown.backgroundMatches, ?_⟩
  · intro views
    obtain ⟨t, ht, hst, hshown'⟩ := updateDisplays_spec (s := { s with views := views }) hlt
    rw [ht, hshown.unique hshown' hst]
  · intro es' hcount hlast
    obtain ⟨t, ht, ⟨hl', hr', hf', hu'⟩, hshown'⟩ := run_shown es'
    simp only [buttons, List.forall_mem_cons] at hcount
    obtain ⟨hlu, hld, hru, hrd, hfan, -⟩ := hcount
    have hst : SameState s t := by
      refine ⟨?_, ?_, ?_, ?_⟩
      · rw [hl', hl, temp, temp, hlu, hld]
      · rw [hr', hr, temp, temp, hru, hrd]
      · rw [hu', hu, hlast]
      · rw [hf', hf, hfan]
    rw [ht, hshown.unique hshown' hst]

end AndroidRepo.Hvac
