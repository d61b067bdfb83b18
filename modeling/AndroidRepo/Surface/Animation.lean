import AndroidRepo.Surface.VSync
import Mathlib.Data.List.Basic

/-! What the VSYNC events that have been read make of the surface, whatever the batches. -/
namespace AndroidRepo.Surface

open Transition

variable {VSYNC : UInt32} {W : Int} {s t : State} {a : Action} {as : List Action} {k : ℕ}
  {isValid : Bool}

def Action.arrived : Action → Option Event
  | .arrive ev => some ev
  | _ => none

def Action.read? : Action → Option Event
  | .read ev _ => some ev
  | _ => none

/-- The validity of the surface, when the action reads a VSYNC event. -/
def Action.vsync (VSYNC : UInt32) : Action → Option Bool
  | .read ev isValid => if ev.type = VSYNC then some isValid else none
  | _ => none

def vsyncs (VSYNC : UInt32) (as : List Action) : List Bool := as.filterMap (Action.vsync VSYNC)

/-- The calls that a VSYNC event is good for, after `k` moves of the surface. -/
def frame (W : Int) (k : ℕ) : Bool → List Call
  | true => [.setPosition (4 * (k + 1) % W) 200, .requestNextVsync]
  | false => [.requestNextVsync]

/-- The calls of a sequence of VSYNC events. -/
def animation (W : Int) (k : ℕ) : List Bool → List Call
  | [] => []
  | v :: vs => frame W k v ++ animation W (if v then k + 1 else k) vs

theorem animation_append (vs : List Bool) (v : Bool) :
    animation W k (vs ++ [v]) = animation W k vs ++ frame W (k + vs.count true) v := by
  induction vs generalizing k with
  | nil => simp [animation]
  | cons w vs ih =>
    cases w with
    | true =>
      have hk : k + 1 + vs.count true = k + (true :: vs).count true := by
        rw [List.count_cons_self]
        omega
      rw [List.cons_append, animation, animation, ih, if_pos rfl, hk, List.append_assoc]
    | false => simp [animation, ih]

/-- The surface is moved by 4, wrapping around at the width of the screen. -/
theorem step_valid (hW : 1 ≤ W) (hfit : W ≤ 2 ^ 31 - 4) (k : ℕ) :
    VSyncHandler.step ⟨W, 4 * k % W⟩ true =
      some (⟨W, 4 * (k + 1) % W⟩, [.setPosition (4 * (k + 1) % W) 200]) := by
  have hlo : 0 ≤ 4 * (k : Int) % W := Int.emod_nonneg _ (by omega)
  have hhi : 4 * (k : Int) % W < W := Int.emod_lt_of_pos _ (by omega)
  have hmax : 4 * (k : Int) % W + 4 ≤ intMax := by
    simp only [intMax]
    omega
  have hmin : intMin ≤ 4 * (k : Int) % W + 4 := by
    simp only [intMin]
    omega
  have hsum : (4 * (k : Int) % W + 4) % W = 4 * (k + 1) % W := by
    rw [Int.emod_add_emod, Int.mul_add, Int.mul_one]
  simp [VSyncHandler.step, checked_of_range hmin hmax,
    rem_of_nonneg (Int.add_nonneg hlo (by omega)) hW hmax, hsum]

/-- One VSYNC event, read while the surface is in this condition. -/
theorem step_frame (hW : 1 ≤ W) (hfit : W ≤ 2 ^ 31 - 4) (k : ℕ) (isValid : Bool) :
    ∃ cs, VSyncHandler.step ⟨W, 4 * k % W⟩ isValid =
        some (⟨W, 4 * (if isValid then k + 1 else k : ℕ) % W⟩, cs) ∧
      cs ++ [.requestNextVsync] = frame W k isValid := by
  cases isValid with
  | true => exact ⟨_, by simpa using step_valid hW hfit k, rfl⟩
  | false => exact ⟨[], rfl, rfl⟩

/-- After the run `as`: nothing is lost, and the calls are those of the VSYNC events read. -/
structure Inv (VSYNC : UInt32) (W : Int) (as : List Action) (s : State) : Prop where
  defined : s.pc ≠ .undefined
  registered : s.registered = true
  returned : ∀ r, .returned r ∈ as → r = 1
  events : as.filterMap Action.arrived = as.filterMap Action.read? ++ s.queue
  handler : s.handler = ⟨W, 4 * ((vsyncs VSYNC as).count true : ℕ) % W⟩
  calls : s.calls = [.setVsyncRate 1, .requestNextVsync] ++ animation W 0 (vsyncs VSYNC as)

theorem inv_init : Inv VSYNC W [] (init W) where
  defined := by simp [init]
  registered := rfl
  returned r h := by simp at h
  events := rfl
  handler := by simp [init, vsyncs]
  calls := rfl

theorem vsyncs_append (as : List Action) (a : Action) :
    vsyncs VSYNC (as ++ [a]) = vsyncs VSYNC as ++ (a.vsync VSYNC).toList := by
  cases h : a.vsync VSYNC <;> simp [vsyncs, List.filterMap_append, h]

/-- Steps that read no VSYNC event leave the handler and its calls alone. -/
theorem step_idle (hs : Step VSYNC s a t) (ha : a.vsync VSYNC = none) :
    t.handler = s.handler ∧ t.calls = s.calls ∧ (s.pc ≠ .undefined → t.pc ≠ .undefined) := by
  cases hs <;> simp_all [Action.vsync]

theorem step_events (hs : Step VSYNC s a t) (hdef : t.pc ≠ .undefined) :
    s.queue ++ [a].filterMap Action.arrived = [a].filterMap Action.read? ++ t.queue := by
  cases hs <;> simp_all [List.filterMap_cons, Action.arrived, Action.read?]

theorem step_registered (hs : Step VSYNC s a t) (h : s.registered = true) :
    t.registered = true ∧ ∀ r, a = .returned r → r = 1 := by
  cases hs <;> simp_all

theorem step_vsync (hs : Step VSYNC s a t) (ha : a.vsync VSYNC = some isValid) {h : VSyncHandler}
    {cs : List Call} (hstep : s.handler.step isValid = some (h, cs)) :
    t.pc ≠ .undefined ∧ t.handler = h ∧ t.calls = s.calls ++ (cs ++ [.requestNextVsync]) := by
  cases hs <;> simp_all [Action.vsync]

theorem inv_step (hW : 1 ≤ W) (hfit : W ≤ 2 ^ 31 - 4) (h : Inv VSYNC W as s)
    (hs : Step VSYNC s a t) : Inv VSYNC W (as ++ [a]) t := by
  obtain ⟨hreg, hone⟩ := step_registered hs h.registered
  have hreturned : ∀ r, .returned r ∈ as ++ [a] → r = 1 := by
    intro r hm
    rcases List.mem_append.mp hm with hm | hm
    · exact h.returned r hm
    · exact hone r (List.mem_singleton.mp hm).symm
  have hevents : t.pc ≠ .undefined → (as ++ [a]).filterMap Action.arrived =
      (as ++ [a]).filterMap Action.read? ++ t.queue := by
    intro hdef
    rw [List.filterMap_append, List.filterMap_append, h.events, List.append_assoc,
      step_events hs hdef, List.append_assoc]
  cases hv : a.vsync VSYNC with
  | none =>
    obtain ⟨hh, hc, hdef⟩ := step_idle hs hv
    refine ⟨hdef h.defined, hreg, hreturned, hevents (hdef h.defined), ?_, ?_⟩
    · simpa [vsyncs_append, hv, hh] using h.handler
    · simpa [vsyncs_append, hv, hc] using h.calls
  | some isValid =>
    obtain ⟨cs, hstep, hframe⟩ := step_frame hW hfit ((vsyncs VSYNC as).count true) isValid
    rw [← h.handler] at hstep
    obtain ⟨hdef, hh, hc⟩ := step_vsync hs hv hstep
    refine ⟨hdef, hreg, hreturned, hevents hdef, ?_, ?_⟩
    · cases isValid <;> simp [vsyncs_append, hv, hh, List.count_append]
    · rw [hc, h.calls, hframe, vsyncs_append, hv, Option.toList_some, animation_append,
        Nat.zero_add, List.append_assoc]

theorem inv_run (hW : 1 ≤ W) (hfit : W ≤ 2 ^ 31 - 4) (hr : Run (Step VSYNC) (init W) as s) :
    Inv VSYNC W as s :=
  hr.snoc_induction inv_init fun _ _ _ _ _ hs ih => inv_step hW hfit ih hs

/-- A call of `handleEvent` goes on to the next event, whatever its type and the surface, and
returns when there is none. -/
theorem Inv.progress (hW : 1 ≤ W) (hfit : W ≤ 2 ^ 31 - 4) (h : Inv VSYNC W as s)
    (hpc : s.pc = .getEvents) :
    (∀ ev evs isValid, s.queue = ev :: evs →
      ∃ t, Step VSYNC s (.read ev isValid) t ∧ t.pc = .getEvents ∧ t.queue = evs) ∧
    (s.queue = [] → ∃ t, Step VSYNC s (.returned 1) t ∧ t.pc = .polling ∧ t.registered = true) := by
  constructor
  · intro ev evs isValid hq
    by_cases hev : ev.type = VSYNC
    · obtain ⟨cs, hstep, -⟩ := step_frame hW hfit ((vsyncs VSYNC as).count true) isValid
      rw [← h.handler] at hstep
      exact ⟨_, .vsync hpc hq hev hstep, hpc, rfl⟩
    · exact ⟨_, .other hpc hq hev, hpc, rfl⟩
  · intro hq
    exact ⟨_, .returned hpc hq, rfl, rfl⟩

def Call.position : Call → Option (Int × Int)
  | .setPosition x y => some (x, y)
  | _ => none

theorem animation_positions (W : Int) (k : ℕ) (vs : List Bool) :
    (animation W k vs).filterMap Call.position =
      (List.range (vs.count true)).map fun i => (4 * ((k + i : ℕ) + 1) % W, 200) := by
  induction vs generalizing k with
  | nil => rfl
  | cons v vs ih =>
    rw [animation, List.filterMap_append, ih]
    cases v with
    | true =>
      rw [if_pos rfl, List.count_cons_self, List.range_succ_eq_map, List.map_cons, List.map_map]
      have hk : ∀ i, k + 1 + i = k + (i + 1) := fun i => by omega
      simp [frame, Call.position, hk, Function.comp_def]
    | false => simp [frame, Call.position]

theorem animation_requests (W : Int) (k : ℕ) (vs : List Bool) :
    (animation W k vs).count .requestNextVsync = vs.length := by
  induction vs generalizing k with
  | nil => rfl
  | cons v vs ih =>
    rw [animation, List.count_append, ih, List.length_cons]
    cases v <;> simp [frame] <;> omega

/-- Over every run: each event is read once and in its order; the calls are those of the VSYNC
events, with the validity of the surface at each, and of nothing else; no batching of the events
changes them; and the handler stays registered. -/
theorem vsync_animation (hW : 1 ≤ W) (hfit : W ≤ 2 ^ 31 - 4)
    (hr : Run (Step VSYNC) (init W) as s) :
    let n := (vsyncs VSYNC as).count true
    s.pc ≠ .undefined ∧
    as.filterMap Action.arrived = as.filterMap Action.read? ++ s.queue ∧
    s.calls = [.setVsyncRate 1, .requestNextVsync] ++ animation W 0 (vsyncs VSYNC as) ∧
    s.calls.filterMap Call.position =
      (List.range n).map (fun k : ℕ => (4 * ((k : Int) + 1) % W, 200)) ∧
    (∀ x y, (x, y) ∈ s.calls.filterMap Call.position → 0 ≤ x ∧ x < W) ∧
    s.calls.count .requestNextVsync = 1 + (vsyncs VSYNC as).length ∧
    s.handler.mX = 4 * n % W ∧ s.handler.mX + 4 ≤ intMax ∧
    (∀ bs t, Run (Step VSYNC) (init W) bs t → vsyncs VSYNC bs = vsyncs VSYNC as →
      t.calls = s.calls ∧ t.handler = s.handler) ∧
    s.registered = true ∧ (∀ r, .returned r ∈ as → r = 1) ∧
    (s.pc = .getEvents →
      (∀ ev evs isValid, s.queue = ev :: evs →
        ∃ t, Step VSYNC s (.read ev isValid) t ∧ t.pc = .getEvents ∧ t.queue = evs) ∧
      (s.queue = [] →
        ∃ t, Step VSYNC s (.returned 1) t ∧ t.pc = .polling ∧ t.registered = true)) := by
  intro n
  have h := inv_run hW hfit hr
  have hpos : s.calls.filterMap Call.position =
      (List.range n).map (fun k : ℕ => (4 * ((k : Int) + 1) % W, 200)) := by
    rw [h.calls, List.filterMap_append, animation_positions]
    simp [List.filterMap_cons, Call.position, n]
  have hreq : s.calls.count .requestNextVsync = 1 + (vsyncs VSYNC as).length := by
    rw [h.calls, List.count_append, animation_requests]
    rfl
  have hmX : s.handler.mX = 4 * n % W := congrArg VSyncHandler.mX h.handler
  have hmod : 4 * (n : Int) % W < W := Int.emod_lt_of_pos _ (by omega)
  refine ⟨h.defined, h.events, h.calls, hpos, ?_, hreq, hmX, ?_, ?_,
    h.registered, h.returned, h.progress hW hfit⟩
  · intro x y hm
    rw [hpos] at hm
    obtain ⟨k, -, hk⟩ := List.mem_map.mp hm
    obtain ⟨rfl, -⟩ := Prod.mk.inj hk
    exact ⟨Int.emod_nonneg _ (by omega), Int.emod_lt_of_pos _ (by omega)⟩
  · rw [hmX]
    simp only [intMax]
    omega
  · intro bs t hrt hv
    have ht := inv_run hW hfit hrt
    rw [ht.calls, ht.handler, h.calls, h.handler, hv]
    exact ⟨rfl, rfl⟩

/-- On a screen 10 pixels wide: two VSYNC events and another one in one batch, and a third VSYNC
event that finds the surface invalid, in a second one. -/
theorem vsync_animation_batches :
    let as : List Action := [.arrive ⟨7⟩, .arrive ⟨9⟩, .handleEvent, .read ⟨7⟩ true, .arrive ⟨7⟩,
      .read ⟨9⟩ true, .read ⟨7⟩ true, .returned 1, .arrive ⟨7⟩, .handleEvent, .read ⟨7⟩ false,
      .returned 1]
    ∃ s, Run (Step 7) (init 10) as s ∧
      s.calls.filterMap Call.position = [(4, 200), (8, 200)] ∧ s.handler.mX = 8 := by
  intro as
  have hrun : ∃ s, Run (Step 7) (init 10) as s :=
    ⟨_, .cons .arrive <| .cons .arrive <| .cons (.handleEvent rfl rfl) <|
      .cons (.vsync rfl rfl rfl rfl) <| .cons .arrive <| .cons (.other rfl rfl (by decide)) <|
      .cons (.vsync rfl rfl rfl rfl) <| .cons (.returned rfl rfl) <| .cons .arrive <|
      .cons (.handleEvent rfl rfl) <| .cons (.vsync rfl rfl rfl rfl) <|
      .single (.returned rfl rfl)⟩
  obtain ⟨s, hs⟩ := hrun
  obtain ⟨-, -, -, hpos, -, -, hmX, -⟩ := vsync_animation (by decide) (by decide) hs
  exact ⟨s, hs, hpos, hmX⟩

end AndroidRepo.Surface
