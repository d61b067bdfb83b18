import AndroidRepo.Transition

/-! FloatingOverlayDemo: `MainActivity` checks the overlay permission and starts
`FloatingService`, whose `onCreate` adds the overlay window. Both run on the main thread, one
callback at a time; the user and the system may act between any two of its steps. -/
namespace AndroidRepo.Overlay

/-- The statement that the main thread has reached. -/
inductive MainThread where
  | idle
  /-- in `MainActivity.onCreate`, before its check -/
  | onCreate
  | onActivityResult (requestCode : ℕ)
  /-- in `showFloatingWindow` -/
  | startService
  /-- in `FloatingService.onCreate`, before `addView` -/
  | addView
  deriving DecidableEq, Repr

def REQUEST_OVERLAY_PERMISSION : ℕ := 1000

structure State where
  canDrawOverlays : Bool
  thread : MainThread
  /-- the request codes of the settings screens that have not returned yet -/
  settings : List ℕ
  toasts : List String
  /-- `startService` was called, and the service has not been stopped since. -/
  started : Bool
  /-- `FloatingService.onCreate` is due. -/
  pending : Bool
  /-- The service object exists. -/
  created : Bool
  windows : ℕ
  deriving DecidableEq, Repr

inductive Action where
  | launch
  /-- `Settings.canDrawOverlays(this)` is called, with this result. -/
  | check (granted : Bool)
  | result (requestCode : ℕ)
  /-- `onActivityResult` for another request -/
  | ignore
  | startService
  /-- The system delivers a start, or creates a killed service again. -/
  | create
  /-- `windowManager.addView(floatingView, params)` is called. -/
  | addView
  /-- The system stops the service, which calls `onDestroy`. -/
  | destroy
  | grant
  | revoke
  | kill
  deriving DecidableEq, Repr

def init (granted : Bool) : State := ⟨granted, .idle, [], [], false, false, false, 0⟩

/-- The process has ended. A started service is START_STICKY: the system will create it again. -/
def State.ended (s : State) : State :=
  { s with thread := .idle, pending := s.started, created := false, windows := 0 }

inductive Step : State → Action → State → Prop where
  | launch {s : State} : s.thread = .idle → Step s .launch { s with thread := .onCreate }
  | createDenied {s : State} : s.thread = .onCreate → s.canDrawOverlays = false →
      Step s (.check false)
        { s with thread := .idle, settings := s.settings ++ [REQUEST_OVERLAY_PERMISSION] }
  | createGranted {s : State} : s.thread = .onCreate → s.canDrawOverlays = true →
      Step s (.check true) { s with thread := .startService }
  | result {s : State} {requestCode : ℕ} : s.thread = .idle → requestCode ∈ s.settings →
      Step s (.result requestCode)
        { s with thread := .onActivityResult requestCode, settings := s.settings.erase requestCode }
  | resultIgnored {s : State} {requestCode : ℕ} : s.thread = .onActivityResult requestCode →
      requestCode ≠ REQUEST_OVERLAY_PERMISSION → Step s .ignore { s with thread := .idle }
  | resultGranted {s : State} : s.thread = .onActivityResult REQUEST_OVERLAY_PERMISSION →
      s.canDrawOverlays = true → Step s (.check true) { s with thread := .startService }
  | resultDenied {s : State} : s.thread = .onActivityResult REQUEST_OVERLAY_PERMISSION →
      s.canDrawOverlays = false → Step s (.check false)
        { s with thread := .idle, toasts := s.toasts ++ ["오버레이 권한이 필요합니다."] }
  /-- A service that exists already is not created a second time. -/
  | startService {s : State} : s.thread = .startService → Step s .startService
      { s with thread := .idle, started := true, pending := s.pending || !s.created }
  | create {s : State} : s.thread = .idle → s.pending = true →
      Step s .create { s with thread := .addView, pending := false, created := true }
  /-- `FloatingService.onCreate` does not ask for the permission. -/
  | addView {s : State} : s.thread = .addView → s.canDrawOverlays = true →
      Step s .addView { s with thread := .idle, windows := s.windows + 1 }
  /-- Without it `addView` throws, and nothing in `onCreate` catches the exception. -/
  | addViewThrows {s : State} : s.thread = .addView → s.canDrawOverlays = false →
      Step s .addView s.ended
  | destroy {s : State} : s.thread = .idle → s.created = true → Step s .destroy
      { s with started := false, created := false, windows := s.windows - 1 }
  | grant {s : State} : Step s .grant { s with canDrawOverlays := true }
  | revoke {s : State} : Step s .revoke { s with canDrawOverlays := false }
  | kill {s : State} : Step s .kill s.ended

/-- The permission was revoked, and not granted again, since it was last found granted. -/
def revoked (as : List Action) : Bool :=
  as.foldl (fun r a => match a with
    | .check true | .grant => false
    | .revoke => true
    | _ => r) false

end AndroidRepo.Overlay
