import AndroidRepo.Rounding

/-! HvacSimulator: the handlers of `MainActivity` and the views that `updateDisplays` sets. -/
namespace AndroidRepo.Hvac

/-- The cast of a `double` to `int`: towards zero, and clamped. -/
def truncate (x : ℚ) : Int32 := Int32.ofIntClamp (Rounding.towardsZero x)

namespace Color

def RED : UInt32 := 0xFFFF0000

def BLUE : UInt32 := 0xFF0000FF

def WHITE : UInt32 := 0xFFFFFFFF

/-- `parseColor("#RRGGBB")` is opaque. -/
def parseColor (rgb : UInt32) : UInt32 := 0xFF000000 ||| rgb

end Color

inductive Drawable where
  | fan_off
  | fan_low
  | fan_medium
  | fan_high
  deriving DecidableEq, Repr

inductive Anim where
  | rotate_fan_low
  | rotate_fan_medium
  | rotate_fan_high
  deriving DecidableEq, Repr

structure TextView where
  text : String
  textColor : UInt32
  deriving DecidableEq, Repr

structure Views where
  leftTempDisplay : TextView
  rightTempDisplay : TextView
  fanDisplay : String
  /-- the background of `root_layout` -/
  rootLayout : UInt32
  fanIcon : Drawable
  /-- what `fanIcon` runs -/
  animation : Option Anim
  deriving DecidableEq, Repr

/-- The views as layout/activity_main.xml has them. -/
def activity_main : Views :=
  ⟨⟨"63°", Color.parseColor 0xFFFFFF⟩, ⟨"63°", Color.parseColor 0xFFFFFF⟩, "FAN: OFF",
    Color.parseColor 0x202124, .fan_off, none⟩

structure MainActivity where
  leftTemp : Int32
  rightTemp : Int32
  isCelsius : Bool
  fanModeIndex : ℕ
  views : Views
  deriving DecidableEq, Repr

def fanModes : List String := ["OFF", "LOW", "MEDIUM", "HIGH"]

def getColorByTemp (tempF : Int32) : UInt32 :=
  if 75 ≤ tempF then Color.RED
  else if tempF ≤ 60 then Color.BLUE
  else Color.WHITE

/-- The `int` of the Celsius text. The product is exact in `double`, and the quotient is a ninth
away from every integer it does not equal, so its rounding does not show in the cast. -/
def celsius (f : Int32) : Int32 := truncate (((f - 32).toInt : ℚ) * 5 / 9)

def formatTemp (isCelsius : Bool) (f : Int32) : String :=
  if isCelsius then toString (celsius f).toInt ++ "°C"
  else toString f.toInt ++ "°F"

def background (leftTemp rightTemp : Int32) : UInt32 :=
  if 75 ≤ leftTemp ∨ 75 ≤ rightTemp then Color.parseColor 0xFF5722
  else if leftTemp ≤ 60 ∨ rightTemp ≤ 60 then Color.parseColor 0x2196F3
  else Color.parseColor 0x202124

/-- The animation that runs afterwards. -/
def startFanAnimation (mode : String) : Option Anim :=
  match mode with
  | "LOW" => some .rotate_fan_low
  | "MEDIUM" => some .rotate_fan_medium
  | "HIGH" => some .rotate_fan_high
  | _ => none

/-- The second switch: an icon, and its animation. -/
def setFanIcon (mode : String) : Drawable × Option Anim :=
  match mode with
  | "LOW" => (.fan_low, startFanAnimation "LOW")
  | "MEDIUM" => (.fan_medium, startFanAnimation "MEDIUM")
  | "HIGH" => (.fan_high, startFanAnimation "HIGH")
  | _ => (.fan_off, none)

/-- `none` when `fanModes[fanModeIndex]` throws. -/
def updateDisplays (s : MainActivity) : Option MainActivity := do
  let mode ← fanModes[s.fanModeIndex]?
  let (icon, animation) := setFanIcon mode
  pure { s with views := {
    leftTempDisplay := ⟨formatTemp s.isCelsius s.leftTemp, getColorByTemp s.leftTemp⟩
    rightTempDisplay := ⟨formatTemp s.isCelsius s.rightTemp, getColorByTemp s.rightTemp⟩
    fanDisplay := "FAN: " ++ mode
    rootLayout := background s.leftTemp s.rightTemp
    fanIcon := icon
    animation := animation } }

inductive Event where
  | leftUp
  | leftDown
  | rightUp
  | rightDown
  | fan
  /-- `onItemSelected`: the units are Fahrenheit, at 0, and Celsius, at 1. -/
  | unitSelected (position : ℕ)
  | nothingSelected
  deriving DecidableEq, Repr

def handle (s : MainActivity) : Event → Option MainActivity
  | .leftUp => updateDisplays { s with leftTemp := s.leftTemp + 1 }
  | .leftDown => updateDisplays { s with leftTemp := s.leftTemp - 1 }
  | .rightUp => updateDisplays { s with rightTemp := s.rightTemp + 1 }
  | .rightDown => updateDisplays { s with rightTemp := s.rightTemp - 1 }
  | .fan => updateDisplays { s with fanModeIndex := (s.fanModeIndex + 1) % fanModes.length }
  | .unitSelected position => updateDisplays { s with isCelsius := position == 1 }
  | .nothingSelected => some s

def onCreate : Option MainActivity := updateDisplays ⟨63, 63, false, 0, activity_main⟩

def run (es : List Event) : Option MainActivity := do
  let s ← onCreate
  es.foldlM handle s

end AndroidRepo.Hvac
