import AndroidRepo.Surface.Animation

/-! The animation on a screen of any width: for which widths, and from which VSYNC event on, the
arithmetic of `step` is undefined. -/
namespace AndroidRepo.Surface

open Transition

variable {VSYNC : UInt32} {W : Int} {s t : State} {a : Action} {as : List Action} {k : ℕ}
  {vs : List Bool}

theorem rem_of_ne {a b : Int} (ha : 0 ≤ a) (hb : b ≠ 0) (hhi : a ≤ intMax) :
    rem a b = some (a % b) := by
  have hq := Int.natAbs_tdiv_le_natAbs a b
  have hdef : checked (a.tdiv b) = some (a.tdiv b) := by
    simp only [intMax] at hhi
    apply checked_of_range
    · simp only [intMin]
      omega
    · simp only [intMax]
      omega
  rw [rem, if_neg hb, hdef, Int.tmod_eq_emod_of_nonneg ha, Option.map_some]

theorem natCast_emod (n : ℕ) (W : Int) : (n : Int) % W = (n % W.natAbs : ℕ) := by
  rcases Int.natAbs_eq W with hW | hW
  · conv_lhs => rw [hW, ← Int.natCast_emod]
  · conv_lhs => rw [hW, Int.emod_neg, ← Int.natCast_emod]

/-- The first `n` moves of the surface are defined: a width that leaves no room for the addition
lets all but the last multiple of 4 pass. -/
def Drawable (W : Int) (n : ℕ) : Prop := n = 0 ∨ W ≠ 0 ∧ (W.natAbs ≤ 2 ^ 31 - 4 ∨ n < 2 ^ 29)

theorem Drawable.of_succ (h : Drawable W (k + 1)) : W ≠ 0 ∧ Drawable W k := by
  obtain h | ⟨hW, hk⟩ := h
  · omega
  · refine ⟨hW, Or.inr ⟨hW, ?_⟩⟩
    omega

theorem step_drawable (h : Drawable W (k + 1)) : VSyncHandler.step ⟨W, 4 * k % W⟩ true =
    some (⟨W, 4 * (k + 1) % W⟩, [.setPosition (4 * (k + 1) % W) 200]) := by
  have hW : W ≠ 0 := h.of_succ.1
  have hpos : 0 < W.natAbs := Int.natAbs_pos.mpr hW
  have hx : 4 * (k : Int) % W = (4 * k % W.natAbs : ℕ) := by
    rw [← natCast_emod]
    rfl
  have hlt := Nat.mod_lt (4 * k) hpos
  have hle := Nat.mod_le (4 * k) W.natAbs
  have hfit : 4 * k % W.natAbs + 4 < 2 ^ 31 := by
    obtain h | ⟨-, hsmall | hfew⟩ := h
    · omega
    · omega
    · omega
  have hmax : 4 * (k : Int) % W + 4 ≤ intMax := by
    rw [hx]
    simp only [intMax]
    omega
  have hmin : intMin ≤ 4 * (k : Int) % W + 4 := by
    rw [hx]
    simp only [intMin]
    omega
  have hsum : (4 * (k : Int) % W + 4) % W = 4 * (k + 1) % W := by
    rw [Int.emod_add_emod, Int.mul_add, Int.mul_one]
  have hnonneg : 0 ≤ 4 * (k : Int) % W + 4 := by omega
  simp [VSyncHandler.step, checked_of_range hmin hmax, rem_of_ne hnonneg hW hmax, hsum]

theorem step_undrawable (hk : Drawable W k) (h : ¬ Drawable W (k + 1)) :
    VSyncHandler.step ⟨W, 4 * k % W⟩ true = none := by
  by_cases hW : W = 0
  · subst W
    have hzero : k = 0 := by
      obtain hk | ⟨hW, -⟩ := hk
      · exact hk
      · exact absurd rfl hW
    subst k
    rfl
  · have hbig : ¬ W.natAbs ≤ 2 ^ 31 - 4 := fun hsmall => h (Or.inr ⟨hW, Or.inl hsmall⟩)
    have hlast : ¬ k + 1 < 2 ^ 29 := fun hfew => h (Or.inr ⟨hW, Or.inr hfew⟩)
    have hk' : k = 2 ^ 29 - 1 := by
      obtain hk | ⟨-, hsmall | hfew⟩ := hk
      · omega
      · exact absurd hsmall hbig
      · omega
    have hx : 4 * (k : Int) % W = (4 * k : ℕ) := by
      have hcast : 4 * (k : Int) = (4 * k : ℕ) := rfl
      rw [hcast, natCast_emod, Nat.mod_eq_of_lt (by omega)]
    have hsum : checked (4 * (k : Int) % W + 4) = none := by
      apply checked_of_gt
      rw [hx]
      simp only [intMax]
      omega
    simp [VSyncHandler.step, hsum]

/-- The VSYNC events `vs` have been handled. -/
structure Handled (W : Int) (vs : List Bool) (s : State) : Prop where
  drawable : Drawable W (vs.count true)
  handler : s.handler = ⟨W, 4 * (vs.count true : ℕ) % W⟩
  calls : s.calls = [.setVsyncRate 1, .requestNextVsync] ++ animation W 0 vs

/-- After the run `as`: the VSYNC events that have been read are handled, up to the one whose
arithmetic is undefined. -/
inductive Reached (VSYNC : UInt32) (W : Int) (as : List Action) (s : State) : Prop where
  | defined : s.pc ≠ .undefined → Handled W (vsyncs VSYNC as) s → Reached VSYNC W as s
  | undefined {vs : List Bool} : s.pc = .undefined → vsyncs VSYNC as = vs ++ [true] →
      Handled W vs s → ¬ Drawable W (vs.count true + 1) → Reached VSYNC W as s

theorem handled_init : Handled W [] (init W) where
  drawable := Or.inl rfl
  handler := by simp [init]
  calls := rfl

theorem Handled.of_eq (h : Handled W vs s) (hhandler : t.handler = s.handler)
    (hcalls : t.calls = s.calls) : Handled W vs t :=
  ⟨h.drawable, hhandler.trans h.handler, hcalls.trans h.calls⟩

theorem step_undefined (hs : Step VSYNC s a t) {isValid : Bool} (ha : a.vsync VSYNC = some isValid)
    (hstep : s.handler.step isValid = none) : t = { s with pc := .undefined } := by
  cases hs <;> simp_all [Action.vsync]

theorem step_of_undefined (hs : Step VSYNC s a t) (hpc : s.pc = .undefined) :
    a.vsync VSYNC = none ∧ t.pc = .undefined ∧ t.handler = s.handler ∧ t.calls = s.calls := by
  cases hs <;> simp_all [Action.vsync]

/-- One more VSYNC event, in a state that is still defined. -/
theorem reached_vsync {isValid : Bool} (h : Handled W (vsyncs VSYNC as) s)
    (hs : Step VSYNC s a t) (ha : a.vsync VSYNC = some isValid) :
    Reached VSYNC W (as ++ [a]) t := by
  have hvs : vsyncs VSYNC (as ++ [a]) = vsyncs VSYNC as ++ [isValid] := by
    rw [vsyncs_append, ha]
    rfl
  cases isValid with
  | false =>
    have hcount : (vsyncs VSYNC as ++ [false]).count true = (vsyncs VSYNC as).count true := by
      simp [List.count_append]
    have hstep : s.handler.step false = some (s.handler, []) := rfl
    obtain ⟨hdef, hhandler, hcalls⟩ := step_vsync hs ha hstep
    refine .defined hdef ⟨?_, ?_, ?_⟩
    · rw [hvs, hcount]
      exact h.drawable
    · rw [hvs, hcount, hhandler]
      exact h.handler
    · rw [hcalls, h.calls, hvs, animation_append, List.append_assoc]
      rfl
  | true =>
    have hcount : (vsyncs VSYNC as ++ [true]).count true = (vsyncs VSYNC as).count true + 1 := by
      simp [List.count_append]
    by_cases hdraw : Drawable W ((vsyncs VSYNC as).count true + 1)
    · have hstep := step_drawable hdraw
      rw [← h.handler] at hstep
      obtain ⟨hdef, hhandler, hcalls⟩ := step_vsync hs ha hstep
      refine .defined hdef ⟨?_, ?_, ?_⟩
      · rwa [hvs, hcount]
      · rw [hvs, hcount, hhandler]
        rfl
      · rw [hcalls, h.calls, hvs, animation_append, List.append_assoc, Nat.zero_add]
        rfl
    · have hstep := step_undrawable h.drawable hdraw
      rw [← h.handler] at hstep
      obtain rfl := step_undefined hs ha hstep
      exact .undefined rfl hvs (h.of_eq rfl rfl) hdraw

theorem reached_step (h : Reached VSYNC W as s) (hs : Step VSYNC s a t) :
    Reached VSYNC W (as ++ [a]) t := by
  have hidle : a.vsync VSYNC = none → vsyncs VSYNC (as ++ [a]) = vsyncs VSYNC as := by
    intro ha
    rw [vsyncs_append, ha, Option.toList_none, List.append_nil]
  cases h with
  | defined hpc h =>
    cases ha : a.vsync VSYNC with
    | some isValid => exact reached_vsync h hs ha
    | none =>
      obtain ⟨hhandler, hcalls, hdef⟩ := step_idle hs ha
      exact .defined (hdef hpc) (hidle ha ▸ h.of_eq hhandler hcalls)
  | undefined hpc hvs h hlast =>
    obtain ⟨ha, hpc', hhandler, hcalls⟩ := step_of_undefined hs hpc
    exact .undefined hpc' ((hidle ha).trans hvs) (h.of_eq hhandler hcalls) hlast

theorem reached_run (hr : Run (Step VSYNC) (init W) as s) : Reached VSYNC W as s :=
  hr.snoc_induction (.defined (by simp [init]) handled_init) fun _ _ _ _ _ hs ih =>
    reached_step ih hs

theorem arrive_vsync (hqueue : s.queue = []) :
    Step VSYNC s (.arrive ⟨VSYNC⟩) { s with queue := [⟨VSYNC⟩] } := by
  simpa [hqueue] using (Step.arrive : Step VSYNC s (.arrive ⟨VSYNC⟩) _)

/-- As many moves as are defined can be made. -/
theorem exists_moves (hk : Drawable W k) : ∃ as s, Run (Step VSYNC) (init W) as s ∧
    s.pc = .getEvents ∧ s.queue = [] ∧ Handled W (vsyncs VSYNC as) s ∧
    (vsyncs VSYNC as).count true = k := by
  induction k with
  | zero =>
    exact ⟨[.handleEvent], _, .single (.handleEvent rfl rfl), rfl, rfl, handled_init.of_eq rfl rfl,
      rfl⟩
  | succ k ih =>
    obtain ⟨as, s, hr, hpc, hqueue, h, hcount⟩ := ih hk.of_succ.2
    have hstep := step_drawable hk
    rw [← hcount, ← h.handler] at hstep
    have hr' := (hr.snoc (arrive_vsync hqueue)).snoc (.vsync hpc rfl rfl hstep)
    have hvs : vsyncs VSYNC (as ++ [.arrive ⟨VSYNC⟩] ++ [.read ⟨VSYNC⟩ true]) =
        vsyncs VSYNC as ++ [true] := by
      rw [vsyncs_append, vsyncs_append]
      simp [Action.vsync]
    refine ⟨_, _, hr', hpc, rfl, ?_, ?_⟩
    · cases reached_run hr' with
      | defined _ h => exact h
      | undefined hundef => cases hpc.symm.trans hundef
    · rw [hvs, List.count_append, hcount]
      rfl

theorem exists_undefined (hk : Drawable W k) (hlast : ¬ Drawable W (k + 1)) :
    ∃ as s, Run (Step VSYNC) (init W) as s ∧ s.pc = .undefined := by
  obtain ⟨as, s, hr, hpc, hqueue, h, hcount⟩ := @exists_moves VSYNC W k hk
  have hstep := step_undrawable hk hlast
  rw [← hcount, ← h.handler] at hstep
  exact ⟨_, _, (hr.snoc (arrive_vsync hqueue)).snoc (.vsyncUndefined hpc rfl rfl hstep), rfl⟩

/-- The widths on which every number of moves is defined. -/
theorem drawable_all : (∀ n, Drawable W n) ↔ W ≠ 0 ∧ W.natAbs ≤ 2 ^ 31 - 4 := by
  constructor
  · intro h
    obtain hzero | ⟨hW, hsmall | hfew⟩ := h (2 ^ 29)
    · omega
    · exact ⟨hW, hsmall⟩
    · omega
  · rintro ⟨hW, hsmall⟩ n
    exact Or.inr ⟨hW, Or.inl hsmall⟩

theorem Reached.undefined_iff (h : Reached VSYNC W as s) :
    s.pc = .undefined ↔ ¬ Drawable W ((vsyncs VSYNC as).count true) := by
  cases h with
  | defined hpc h => exact iff_of_false hpc (not_not_intro h.drawable)
  | @undefined vs hpc hvs _ hlast =>
    have hcount : (vs ++ [true]).count true = vs.count true + 1 := by simp [List.count_append]
    rw [hvs, hcount]
    exact iff_of_true hpc hlast

theorem Reached.handled (h : Reached VSYNC W as s) :
    ∃ vs, (vsyncs VSYNC as = vs ∨ s.pc = .undefined ∧ vsyncs VSYNC as = vs ++ [true]) ∧
      Handled W vs s := by
  cases h with
  | defined hpc h => exact ⟨_, Or.inl rfl, h⟩
  | undefined hpc hvs h _ => exact ⟨_, Or.inr ⟨hpc, hvs⟩, h⟩

theorem Handled.positions (h : Handled W vs s) {x y : Int}
    (hm : (x, y) ∈ s.calls.filterMap Call.position) : 0 ≤ x ∧ x < W.natAbs ∧ y = 200 := by
  rw [h.calls, List.filterMap_append, animation_positions] at hm
  rcases List.mem_append.mp hm with hm | hm
  · simp [List.filterMap_cons, Call.position] at hm
  · obtain ⟨k, hk, he⟩ := List.mem_map.mp hm
    obtain ⟨rfl, rfl⟩ := Prod.mk.inj he
    have hW : W ≠ 0 := by
      obtain hzero | ⟨hW, -⟩ := h.drawable
      · rw [hzero] at hk
        cases List.mem_range.mp hk
      · exact hW
    exact ⟨Int.emod_nonneg _ hW, Int.emod_lt _ hW, rfl⟩

/-- The animation on a screen of any width, in every run: its arithmetic becomes undefined with the
first VSYNC event that is not drawable, and with none before; all events up to there are drawn, at
their own positions; nothing is drawn afterwards. No run gets there exactly on the widths other
than 0 that leave room for the addition. -/
theorem animation_range (VSYNC : UInt32) (W : Int) :
    (∀ as s, Run (Step VSYNC) (init W) as s →
      (s.pc = .undefined ↔ ¬ Drawable W ((vsyncs VSYNC as).count true)) ∧
      (∃ vs, (vsyncs VSYNC as = vs ∨ s.pc = .undefined ∧ vsyncs VSYNC as = vs ++ [true]) ∧
        Handled W vs s) ∧
      ∀ x y, (x, y) ∈ s.calls.filterMap Call.position → 0 ≤ x ∧ x < W.natAbs ∧ y = 200) ∧
    ((∀ as s, Run (Step VSYNC) (init W) as s → s.pc ≠ .undefined) ↔
      W ≠ 0 ∧ W.natAbs ≤ 2 ^ 31 - 4) := by
  refine ⟨?_, ?_⟩
  · intro as s hr
    have h := reached_run hr
    obtain ⟨vs, hvs, hhandled⟩ := h.handled
    exact ⟨h.undefined_iff, ⟨vs, hvs, hhandled⟩, fun x y hm => hhandled.positions hm⟩
  · rw [← drawable_all]
    constructor
    · intro hdef n
      -- the first move that is not defined would make the next run undefined
      induction n with
      | zero => exact Or.inl rfl
      | succ k ih =>
        by_contra hlast
        obtain ⟨as, s, hr, hpc⟩ := @exists_undefined VSYNC W k ih hlast
        exact hdef as s hr hpc
    · intro hdraw as s hr hpc
      exact (reached_run hr).undefined_iff.mp hpc (hdraw _)

end AndroidRepo.Surface
