import AndroidRepo.MachineInt
import AndroidRepo.Transition

/-! surface_test/vsync_anim/vsync_anim.cpp: `VSyncHandler` and the queue of display events that
the looper calls it for. Events arrive, and the surface loses its validity, at any time. -/
namespace AndroidRepo.Surface

/-- `DisplayEventReceiver::Event`, of which the handler reads `header.type`. -/
structure Event where
  type : UInt32
  deriving DecidableEq, Repr

/-- What the program asks of the display and of the surface. -/
inductive Call where
  | setVsyncRate (count : ℕ)
  | requestNextVsync
  /-- `mTx.setPosition(mSurface, x, y).apply(false)`, with `x` and `y` as the handler computes them:
  libgui converts these integers to the type of its own parameters. -/
  | setPosition (x y : Int)
  deriving DecidableEq, Repr

structure VSyncHandler where
  mScreenW : Int
  mX : Int
  deriving DecidableEq, Repr

/-- `isValid` tells that `mSurface` is not null and valid. No result is an undefined one. -/
def VSyncHandler.step (h : VSyncHandler) (isValid : Bool) : Option (VSyncHandler × List Call) :=
  if isValid then do
    let sum ← checked (h.mX + 4)
    let mX ← rem sum h.mScreenW
    pure ({ h with mX := mX }, [.setPosition mX 200])
  else
    pure (h, [])

/-- Where the thread of the looper is. -/
inductive PC where
  | polling
  /-- in the loop of `handleEvent`, before `getEvents` -/
  | getEvents
  | undefined
  deriving DecidableEq, Repr

structure State where
  pc : PC
  queue : List Event
  handler : VSyncHandler
  calls : List Call
  /-- The looper still watches the descriptor. -/
  registered : Bool
  deriving DecidableEq, Repr

/-- `main`, when the looper starts to poll. -/
def init (screenW : Int) : State :=
  ⟨.polling, [], ⟨screenW, 0⟩, [.setVsyncRate 1, .requestNextVsync], true⟩

inductive Action where
  | arrive (ev : Event)
  | handleEvent
  /-- `getEvents(&ev, 1)` returns 1, and the surface is in this condition afterwards. -/
  | read (ev : Event) (isValid : Bool)
  /-- `getEvents` returns 0, and `handleEvent` this value. -/
  | returned (result : Int)
  deriving DecidableEq, Repr

/-- `VSYNC` stands for `DisplayEventReceiver::DISPLAY_EVENT_VSYNC`. -/
inductive Step (VSYNC : UInt32) : State → Action → State → Prop where
  | arrive {s : State} {ev : Event} :
      Step VSYNC s (.arrive ev) { s with queue := s.queue ++ [ev] }
  | handleEvent {s : State} : s.pc = .polling → s.registered = true →
      Step VSYNC s .handleEvent { s with pc := .getEvents }
  | vsync {s : State} {ev : Event} {evs : List Event} {isValid : Bool} {h : VSyncHandler}
      {cs : List Call} : s.pc = .getEvents → s.queue = ev :: evs → ev.type = VSYNC →
      s.handler.step isValid = some (h, cs) → Step VSYNC s (.read ev isValid)
        { s with queue := evs, handler := h, calls := s.calls ++ cs ++ [.requestNextVsync] }
  | vsyncUndefined {s : State} {ev : Event} {evs : List Event} {isValid : Bool} :
      s.pc = .getEvents → s.queue = ev :: evs → ev.type = VSYNC →
      s.handler.step isValid = none → Step VSYNC s (.read ev isValid) { s with pc := .undefined }
  | other {s : State} {ev : Event} {evs : List Event} {isValid : Bool} :
      s.pc = .getEvents → s.queue = ev :: evs → ev.type ≠ VSYNC →
      Step VSYNC s (.read ev isValid) { s with queue := evs }
  /-- A result of 0 would take the descriptor off the looper. -/
  | returned {s : State} : s.pc = .getEvents → s.queue = [] →
      Step VSYNC s (.returned 1) { s with pc := .polling, registered := (1 : Int) != 0 }

end AndroidRepo.Surface
