import AndroidRepo.Overlay.Model

/-! The window of `FloatingService`: there is at most one, however often the activity is launched.
A service that has been started gets it, unless the permission has been taken back meanwhile: then
each attempt to add the window ends the process, and the service is created again. -/
namespace AndroidRepo.Overlay

open Transition

variable {s t : State} {a : Action} {as bs : List Action} {granted : Bool}

/-- The service has its window once `onCreate` has returned, and only while it exists. -/
structure Windows (s : State) : Prop where
  pending : s.pending = true → s.created = false
  addView : s.thread = .addView → s.created = true
  windows : s.windows = if s.created = true ∧ s.thread ≠ .addView then 1 else 0
  started : s.started = true ↔ s.created = true ∨ s.pending = true

theorem windows_init : Windows (init granted) where
  pending h := by simp [init] at h
  addView h := by simp [init] at h
  windows := rfl
  started := by simp [init]

/-- The activity moves, and the service is left alone. -/
theorem Windows.of_service (h : Windows s) (hs : s.thread ≠ .addView) (ht : t.thread ≠ .addView)
    (hsame : t.pending = s.pending ∧ t.created = s.created ∧ t.windows = s.windows ∧
      t.started = s.started) : Windows t := by
  obtain ⟨hpending, hcreated, hwindows, hstarted⟩ := hsame
  refine ⟨?_, fun hadd => absurd hadd ht, ?_, ?_⟩
  · rw [hpending, hcreated]
    exact h.pending
  · rw [hwindows, hcreated, h.windows]
    simp [hs, ht]
  · rw [hstarted, hcreated, hpending]
    exact h.started

theorem windows_ended (s : State) : Windows s.ended where
  pending _ := rfl
  addView := nofun
  windows := rfl
  started := by simp [State.ended]

theorem windows_step (h : Windows s) (hs : Step s a t) : Windows t := by
  cases hs with
  | launch hthread | createDenied hthread _ | createGranted hthread _ | result hthread _
  | resultIgnored hthread _ | resultGranted hthread _ | resultDenied hthread _ =>
    exact h.of_service (by simp [hthread]) (by simp) ⟨rfl, rfl, rfl, rfl⟩
  | startService hthread =>
    refine ⟨?_, nofun, ?_, ?_⟩
    · intro hp
      rcases Bool.or_eq_true_iff.mp hp with hp | hp
      · exact h.pending hp
      · simpa using hp
    · rw [h.windows]
      simp [hthread]
    · cases s.created <;> simp
  | create hthread hp =>
    have hnone : s.windows = 0 := by simp [h.windows, h.pending hp]
    refine ⟨nofun, fun _ => rfl, by simp [hnone], ?_⟩
    simpa using h.started.mpr (Or.inr hp)
  | addView hthread _ =>
    have hc := h.addView hthread
    refine ⟨h.pending, nofun, ?_, h.started⟩
    simp [h.windows, hc, hthread]
  | destroy hthread hc =>
    have hp : s.pending = false := by
      cases hp : s.pending with
      | false => rfl
      | true =>
        rw [h.pending hp] at hc
        cases hc
    refine ⟨fun _ => rfl, ?_, ?_, by simp [hp]⟩
    · intro hadd
      simp [hthread] at hadd
    · simp [h.windows, hc, hthread]
  | grant | revoke => exact ⟨h.pending, h.addView, h.windows, h.started⟩
  | addViewThrows | kill => exact windows_ended s

theorem windows_run (hr : Run Step (init granted) as s) : Windows s :=
  hr.reachable.invariant windows_init fun _ _ _ _ hs h => windows_step h hs

/-! The steps of the app's own callbacks. -/

/-- Neither the user nor the system interferes; the system delivers starts, and creates the service
again after its process has ended. -/
def Action.own : Action → Bool
  | .check _ | .ignore | .startService | .create | .addView => true
  | _ => false

def OwnStep (s : State) (a : Action) (t : State) : Prop := Step s a t ∧ a.own = true

def MainThread.work : MainThread → ℕ
  | .idle => 0
  | .onCreate | .onActivityResult _ => 4
  | .startService => 3
  | .addView => 1

def State.work (s : State) : ℕ := s.thread.work + if s.pending then 2 else 0

/-- A callback of the activity is on its way to `startService`. -/
def WillStart (s : State) : Prop :=
  s.thread = .startService ∨ s.canDrawOverlays = true ∧
    (s.thread = .onCreate ∨ s.thread = .onActivityResult REQUEST_OVERLAY_PERMISSION)

/-- The service was started and not stopped since, or is going to be. -/
def Wanted (s : State) : Prop := s.started = true ∨ WillStart s

/-- A window that is wanted is there already, or can be added. -/
def CanShow (s : State) : Prop := s.canDrawOverlays = true ∨ (Wanted s → s.windows = 1)

theorem own_step_wanted (hs : OwnStep s a t) : Wanted t ↔ Wanted s := by
  obtain ⟨hs, hown⟩ := hs
  cases hs with
  | launch | result | destroy | grant | revoke | kill => cases hown
  | createDenied hthread hp | createGranted hthread hp | resultGranted hthread hp
  | resultDenied hthread hp => simp [Wanted, WillStart, hthread, hp]
  | resultIgnored hthread hne => simp [Wanted, WillStart, hthread, hne]
  | startService hthread | create hthread _ | addView hthread _ | addViewThrows hthread _ =>
    simp [Wanted, WillStart, hthread, State.ended]

theorem own_run_wanted (hr : Run OwnStep s bs t) : Wanted t ↔ Wanted s := by
  induction hr with
  | nil => exact Iff.rfl
  | cons hs _ ih => exact ih.trans (own_step_wanted hs)

/-- Without the permission no window is added. -/
theorem own_step_denied (hs : OwnStep s a t) (hp : s.canDrawOverlays = false) :
    t.canDrawOverlays = false ∧ (t.windows = s.windows ∨ s.thread = .addView ∧ t.windows = 0) := by
  obtain ⟨hs, hown⟩ := hs
  cases hs with
  | launch | result | destroy | grant | revoke | kill => cases hown
  | addView hthread hgranted =>
    rw [hp] at hgranted
    cases hgranted
  | addViewThrows hthread _ => exact ⟨hp, Or.inr ⟨hthread, rfl⟩⟩
  | _ => exact ⟨hp, Or.inl rfl⟩

theorem own_run_denied (hr : Run OwnStep s bs t) (hp : s.canDrawOverlays = false) :
    t.windows ≤ s.windows := by
  induction hr with
  | nil => exact Nat.le_refl _
  | cons hs _ ih =>
    obtain ⟨hp', hwindows⟩ := own_step_denied hs hp
    have hle := ih hp'
    omega

/-- A service that is about to add its window is wanted, and has none yet. -/
theorem not_canShow (h : Windows s) (hthread : s.thread = .addView)
    (hp : s.canDrawOverlays = false) : ¬ CanShow s := by
  have hwanted : Wanted s := Or.inl (h.started.mpr (Or.inl (h.addView hthread)))
  have hnone : s.windows = 0 := by simp [h.windows, hthread]
  rintro (hg | hg)
  · rw [hp] at hg
    cases hg
  · rw [hg hwanted] at hnone
    cases hnone

theorem canShow_step (h : Windows s) (hg : CanShow s) (hs : OwnStep s a t) : CanShow t := by
  cases hp : s.canDrawOverlays with
  | true =>
    left
    obtain ⟨hs, hown⟩ := hs
    cases hs with
    | launch | result | destroy | grant | revoke | kill => cases hown
    | _ => exact hp
  | false =>
    obtain ⟨-, hwindows⟩ := own_step_denied hs hp
    right
    intro hwanted
    rcases hwindows with hwindows | ⟨hthread, -⟩
    · rw [hwindows]
      rcases hg with hg | hg
      · rw [hp] at hg
        cases hg
      · exact hg ((own_step_wanted hs).mp hwanted)
    · exact absurd hg (not_canShow h hthread hp)

theorem work_step (h : Windows s) (hg : CanShow s) (hs : OwnStep s a t) : t.work < s.work := by
  obtain ⟨hs, hown⟩ := hs
  cases hs with
  | launch | result | destroy | grant | revoke | kill => cases hown
  | createDenied hthread _ | createGranted hthread _ | resultIgnored hthread _
  | resultGranted hthread _ | resultDenied hthread _ =>
    simp only [State.work, hthread, MainThread.work]
    omega
  | startService hthread =>
    simp only [State.work, hthread, MainThread.work]
    cases s.pending <;> cases s.created <;> simp
  | create hthread hp =>
    simp only [State.work, hthread, hp, MainThread.work]
    simp
  | addView hthread _ =>
    simp only [State.work, hthread, MainThread.work]
    omega
  | addViewThrows hthread hp => exact absurd hg (not_canShow h hthread hp)

/-- Every callback that is under way can go on. -/
theorem rest_idle (hrest : AtRest OwnStep s) : s.thread = .idle ∧ s.pending = false := by
  have hthread : s.thread = .idle := by
    cases hthread : s.thread with
    | idle => rfl
    | onCreate =>
      cases hp : s.canDrawOverlays with
      | false => exact absurd ⟨.createDenied hthread hp, rfl⟩ (hrest _ _)
      | true => exact absurd ⟨.createGranted hthread hp, rfl⟩ (hrest _ _)
    | onActivityResult requestCode =>
      by_cases hcode : requestCode = REQUEST_OVERLAY_PERMISSION
      · subst requestCode
        cases hp : s.canDrawOverlays with
        | false => exact absurd ⟨.resultDenied hthread hp, rfl⟩ (hrest _ _)
        | true => exact absurd ⟨.resultGranted hthread hp, rfl⟩ (hrest _ _)
      · exact absurd ⟨.resultIgnored hthread hcode, rfl⟩ (hrest _ _)
    | startService => exact absurd ⟨.startService hthread, rfl⟩ (hrest _ _)
    | addView =>
      cases hp : s.canDrawOverlays with
      | false => exact absurd ⟨.addViewThrows hthread hp, rfl⟩ (hrest _ _)
      | true => exact absurd ⟨.addView hthread hp, rfl⟩ (hrest _ _)
  refine ⟨hthread, ?_⟩
  cases hp : s.pending with
  | false => rfl
  | true => exact absurd ⟨.create hthread hp, rfl⟩ (hrest _ _)

/-- At rest the window is there exactly if it is wanted. -/
theorem rest_windows (h : Windows s) (hrest : AtRest OwnStep s) : s.windows = 1 ↔ Wanted s := by
  obtain ⟨hthread, hpending⟩ := rest_idle hrest
  rw [Wanted, h.windows, h.started]
  simp [WillStart, hthread, hpending]

theorem canShow_of_rest (h : Windows t) (hr : Run OwnStep s bs t) (hrest : AtRest OwnStep t)
    (hle : s.windows ≤ 1) : CanShow s := by
  cases hp : s.canDrawOverlays with
  | true => exact Or.inl hp
  | false =>
    right
    intro hwanted
    have hone := (rest_windows h hrest).mpr ((own_run_wanted hr).mpr hwanted)
    have hdenied := own_run_denied hr hp
    omega

/-- In every run there is at most one window, and it is there exactly while the service exists and
its `onCreate` has returned. Left alone, the callbacks come to rest exactly if a window that is
wanted is there already or can be added, and then after a bounded number of steps; otherwise the
service throws each time that the system creates it. At rest there is a window exactly when it is
wanted: the service was started and not stopped since, or a callback of the activity was about to
start it. -/
theorem one_window (hr : Run Step (init granted) as s) :
    s.windows ≤ 1 ∧ (s.windows = 1 ↔ s.created = true ∧ s.thread ≠ .addView) ∧
    (CanShow s → ∀ bs t, Run OwnStep s bs t → bs.length ≤ s.work) ∧
    ((∃ bs t, Run OwnStep s bs t ∧ AtRest OwnStep t) ↔ CanShow s) ∧
    ∀ bs t, Run OwnStep s bs t → AtRest OwnStep t → (t.windows = 1 ↔ Wanted s) := by
  have h := windows_run hr
  have hdec : ∀ (s : State) (a : Action) (t : State), Windows s ∧ CanShow s → OwnStep s a t →
      (Windows t ∧ CanShow t) ∧ t.work < s.work := fun _ _ _ h hs =>
    ⟨⟨windows_step h.1 hs.1, canShow_step h.1 h.2 hs⟩, work_step h.1 h.2 hs⟩
  have hle : s.windows ≤ 1 := by
    rw [h.windows]
    split <;> omega
  have hlater : ∀ {bs t}, Run OwnStep s bs t → Windows t := fun hrun =>
    windows_run (hr.append (hrun.imp fun _ _ _ hs => hs.1))
  refine ⟨hle, ?_, ?_, ⟨?_, fun hg => exists_rest hdec ⟨h, hg⟩⟩, ?_⟩
  · rw [h.windows]
    split <;> simp_all
  · intro hg bs t hrun
    have hlen := (hrun.length_le hdec ⟨h, hg⟩).2
    omega
  · rintro ⟨bs, t, hrun, hrest⟩
    exact canShow_of_rest (hlater hrun) hrun hrest hle
  · intro bs t hrun hrest
    exact (rest_windows (hlater hrun) hrest).trans (own_run_wanted hrun)

/-- The permission is revoked before the window is added, and granted again after the crash. -/
theorem one_window_granted_again : ∃ s t u : State,
    Run Step (init true) [.launch, .check true, .startService, .revoke, .create, .addView] s ∧
      (¬ ∃ bs v, Run OwnStep s bs v ∧ AtRest OwnStep v) ∧
      Step s .grant t ∧ Run OwnStep t [.create, .addView] u ∧ AtRest OwnStep u ∧
      u.windows = 1 := by
  have hrun : Run Step (init true) [.launch, .check true, .startService, .revoke, .create, .addView]
      ⟨false, .idle, [], [], true, true, false, 0⟩ :=
    .cons (.launch rfl) <| .cons (.createGranted rfl rfl) <| .cons (.startService rfl) <|
      .cons .revoke <| .cons (.create rfl rfl) <| .single (.addViewThrows rfl rfl)
  have hgrant : Step ⟨false, .idle, [], [], true, true, false, 0⟩ .grant
      ⟨true, .idle, [], [], true, true, false, 0⟩ := .grant
  have hown : Run OwnStep ⟨true, .idle, [], [], true, true, false, 0⟩ [.create, .addView]
      ⟨true, .idle, [], [], true, false, true, 1⟩ :=
    .cons ⟨.create rfl rfl, rfl⟩ <| .single ⟨.addView rfl rfl, rfl⟩
  have hstuck : AtRest OwnStep ⟨true, .idle, [], [], true, false, true, 1⟩ := by
    rintro a t ⟨hs, hown⟩
    cases hs <;> simp_all [Action.own]
  obtain ⟨-, -, -, hdenied, -⟩ := one_window hrun
  obtain ⟨-, -, -, -, hwindow⟩ := one_window (hrun.snoc hgrant)
  refine ⟨_, _, _, hrun, ?_, hgrant, hown, hstuck, (hwindow _ _ hown hstuck).mpr (Or.inl rfl)⟩
  rw [hdenied]
  rintro (hg | hg)
  · cases hg
  · cases hg (Or.inl rfl)

end AndroidRepo.Overlay
