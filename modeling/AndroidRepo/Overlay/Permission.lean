import AndroidRepo.Overlay.Model
import Mathlib.Data.List.Induction

/-! The permission between the check in `MainActivity` and the window of `FloatingService`. -/
namespace AndroidRepo.Overlay

open Transition

variable {s t : State} {a : Action} {as : List Action} {granted : Bool}

theorem revoked_append (as : List Action) (a : Action) :
    revoked (as ++ [a]) = match a with
      | .check true | .grant => false
      | .revoke => true
      | _ => revoked as :=
  List.foldl_append

theorem revoked_of_not_mem (h : .revoke ∉ as) : revoked as = false := by
  induction as using List.reverseRecOn with
  | nil => rfl
  | append_singleton as a ih =>
    rw [revoked_append]
    split
    · rfl
    · rfl
    · simp at h
    · apply ih
      intro hm
      exact h (List.mem_append_left _ hm)

/-- A start of the service is on its way, or will be repeated. -/
def Starting (s : State) : Prop :=
  s.thread = .startService ∨ s.thread = .addView ∨ s.pending = true ∨ s.started = true

/-- What the calls of a run tell about the permission, once it was found granted. -/
structure Inv (as : List Action) (s : State) : Prop where
  permission : .check true ∈ as → (s.canDrawOverlays = true ↔ revoked as = false)
  checked : Starting s → .check true ∈ as

theorem inv_init : Inv [] (init granted) where
  permission h := by simp at h
  checked h := by simp [Starting, init] at h

/-- Only a check that passes sets off a start. -/
theorem step_starting (hs : Step s a t) (ht : Starting t) : Starting s ∨ a = .check true := by
  cases hs <;> simp_all [Starting, State.ended]

theorem step_permission (hs : Step s a t) (ha : a ≠ .check true)
    (h : s.canDrawOverlays = true ↔ revoked as = false) :
    t.canDrawOverlays = true ↔ revoked (as ++ [a]) = false := by
  rw [revoked_append]
  cases hs <;> simp_all [State.ended]

/-- The activity starts the service only when it finds the permission granted. -/
theorem step_check (hs : Step s (.check true) t) : t.canDrawOverlays = true := by
  cases hs <;> assumption

theorem inv_step (h : Inv as s) (hs : Step s a t) : Inv (as ++ [a]) t where
  permission hm := by
    by_cases ha : a = .check true
    · subst a
      simp [step_check hs, revoked_append]
    · apply step_permission hs ha
      apply h.permission
      simpa [Ne.symm ha] using hm
  checked ht := by
    rcases step_starting hs ht with hst | rfl
    · exact List.mem_append_left _ (h.checked hst)
    · simp

theorem inv_run (hr : Run Step (init granted) as s) : Inv as s :=
  hr.snoc_induction inv_init fun _ _ _ _ _ hs ih => inv_step ih hs

/-- Each `addView` of the run is called with the permission. -/
def AddsPermitted (granted : Bool) (as : List Action) : Prop :=
  ∀ pre post s t, as = pre ++ .addView :: post → Run Step (init granted) pre s →
    Step s .addView t → s.canDrawOverlays = true

theorem addView_permitted_iff (hr : Run Step (init granted) as s) (hs : Step s .addView t) :
    s.canDrawOverlays = true ↔ revoked as = false := by
  have h := inv_run hr
  apply h.permission
  apply h.checked
  cases hs with
  | addView hthread _ | addViewThrows hthread _ => exact Or.inr (Or.inl hthread)

/-- The permission is revoked while the start of the service is on its way: `addView` is called
without it, and throws. -/
theorem overlay_after_revoke :
    ¬ ∀ granted as s, Run Step (init granted) as s → AddsPermitted granted as := by
  intro h
  have hrun : Run Step (init true) [.launch, .check true, .startService, .revoke, .create]
      ⟨false, .addView, [], [], true, false, true, 0⟩ :=
    .cons (.launch rfl) <| .cons (.createGranted rfl rfl) <| .cons (.startService rfl) <|
      .cons .revoke <| .single (.create rfl rfl)
  have hadd := Step.addViewThrows (s := ⟨false, .addView, [], [], true, false, true, 0⟩) rfl rfl
  have hp := h true _ _ (hrun.snoc hadd) _ [] _ _ rfl hrun hadd
  cases hp

/-- Over every run: `addView` is called with the permission only, exactly when none of its calls
comes after a revocation that follows the activity's last successful check. -/
theorem adds_permitted_iff (hr : Run Step (init granted) as s) :
    AddsPermitted granted as ↔
      ∀ pre post, as = pre ++ .addView :: post → revoked pre = false := by
  constructor
  · intro h pre post hsplit
    subst hsplit
    obtain ⟨t, hpre, hrest⟩ := hr.split
    cases hrest with
    | cons hs _ => exact (addView_permitted_iff hpre hs).mp (h _ _ _ _ rfl hpre hs)
  · intro h pre post t u hsplit hpre hs
    exact (addView_permitted_iff hpre hs).mpr (h pre post hsplit)

/-- A window that the system restores after a kill, with the permission in place. -/
theorem adds_permitted_iff_restart :
    let as : List Action := [.launch, .check true, .startService, .create, .addView, .kill,
      .create, .addView]
    (∃ s, Run Step (init true) as s ∧ s.windows = 1) ∧ AddsPermitted true as := by
  intro as
  have hrun : Run Step (init true) as ⟨true, .idle, [], [], true, false, true, 1⟩ :=
    .cons (.launch rfl) <| .cons (.createGranted rfl rfl) <| .cons (.startService rfl) <|
      .cons (.create rfl rfl) <| .cons (.addView rfl rfl) <| .cons .kill <|
      .cons (.create rfl rfl) <| .single (.addView rfl rfl)
  refine ⟨⟨_, hrun, rfl⟩, (adds_permitted_iff hrun).mpr ?_⟩
  intro pre post hsplit
  have hrevoke : .revoke ∉ pre := by
    intro hm
    have hm' := List.mem_append_left (.addView :: post) hm
    rw [← hsplit] at hm'
    simp [as] at hm'
  exact revoked_of_not_mem hrevoke

end AndroidRepo.Overlay
