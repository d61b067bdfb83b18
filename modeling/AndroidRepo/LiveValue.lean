import AndroidRepo.Transition
import Mathlib.Algebra.GroupWithZero.Nat

/-! A value that is computed from a growing source and handed to an observer in stages. Each stage
keeps the newest result only, so that an observer may miss values, but never sees an old one after
a newer one, and has seen the source as it is once everything has come to rest. -/
namespace LiveValue

open Transition

variable {α : Type*}

structure Pipeline (α : Type*) where
  /-- The source has changed, and the pipeline has not been told yet. -/
  written : Bool
  /-- The value is to be computed again. -/
  invalid : Bool
  computed : Option α
  pending : Option α
  value : Option α
  /-- how often the value has been set -/
  version : ℕ
  deriving DecidableEq, Repr

structure Observer (α : Type*) where
  seen : Option α
  lastVersion : ℕ

structure State (α : Type*) where
  source : α
  pipeline : Pipeline α
  observer : Option (Observer α)

def Pipeline.new : Pipeline α := ⟨false, true, none, none, none, 0⟩

def init (source : α) : State α := ⟨source, .new, none⟩

inductive Event where
  | write
  | subscribe
  | unsubscribe
  | invalidate
  | compute
  | post
  | publish
  | observe
  deriving DecidableEq, Repr

/-- The source grows along `r`. -/
inductive Step (r : α → α → Prop) : State α → Event → State α → Prop where
  | write {s : State α} {x : α} : r s.source x →
      Step r s .write { s with source := x, pipeline := { s.pipeline with written := true } }
  | subscribe {s : State α} : Step r s .subscribe { s with observer := some ⟨none, 0⟩ }
  | unsubscribe {s : State α} : Step r s .unsubscribe { s with observer := none }
  | invalidate {s : State α} : s.pipeline.written = true →
      Step r s .invalidate
        { s with pipeline := { s.pipeline with written := false, invalid := true } }
  | compute {s : State α} : s.pipeline.invalid = true →
      Step r s .compute
        { s with pipeline := { s.pipeline with invalid := false, computed := some s.source } }
  | post {s : State α} {x : α} : s.pipeline.computed = some x →
      Step r s .post { s with pipeline := { s.pipeline with computed := none, pending := some x } }
  | publish {s : State α} {x : α} : s.pipeline.pending = some x →
      Step r s .publish { s with pipeline := { s.pipeline with
        pending := none, value := some x, version := s.pipeline.version + 1 } }
  | observe {s : State α} {o : Observer α} {x : α} :
      s.observer = some o → s.pipeline.value = some x → o.lastVersion < s.pipeline.version →
      Step r s .observe { s with observer := some ⟨some x, s.pipeline.version⟩ }

/-- Each stage is at most as new as the one before it. -/
structure Inv (r : α → α → Prop) (s : State α) : Prop where
  computed : r (s.pipeline.computed.getD s.source) s.source
  pending : r (s.pipeline.pending.getD (s.pipeline.computed.getD s.source))
    (s.pipeline.computed.getD s.source)
  value : ∀ x, s.pipeline.value = some x →
    r x (s.pipeline.pending.getD (s.pipeline.computed.getD s.source))
  fresh : s.pipeline.written = false → s.pipeline.invalid = false →
    s.pipeline.computed.or (s.pipeline.pending.or s.pipeline.value) = some s.source
  unset : s.pipeline.version = 0 → s.pipeline.value = none
  seen : ∀ o x, s.observer = some o → o.seen = some x → ∃ y, s.pipeline.value = some y ∧ r x y
  upToDate : ∀ o, s.observer = some o → o.lastVersion ≤ s.pipeline.version ∧
    (o.lastVersion = s.pipeline.version → o.seen = s.pipeline.value)

section Order

variable {r : α → α → Prop} (hrefl : ∀ x, r x x) (htrans : ∀ x y z, r x y → r y z → r x z)
  {s t : State α} {e : Event} {es : List Event}

include hrefl in
theorem getD_mono {o : Option α} {x y : α} (h : r x y) : r (o.getD x) (o.getD y) := by
  cases o with
  | none => exact h
  | some z => exact hrefl z

include hrefl in
theorem inv_init (x : α) : Inv r (init x) where
  computed := hrefl x
  pending := hrefl x
  value y h := by simp [init, Pipeline.new] at h
  fresh _ h := by simp [init, Pipeline.new] at h
  unset _ := rfl
  seen o y h := by simp [init] at h
  upToDate o h := by simp [init] at h

include hrefl htrans in
theorem inv_step (h : Inv r s) (hs : Step r s e t) : Inv r t := by
  cases hs with
  | @write x hx =>
    have hgrow := getD_mono hrefl (o := s.pipeline.computed) hx
    refine ⟨?_, ?_, ?_, nofun, h.unset, h.seen, h.upToDate⟩
    · cases hc : s.pipeline.computed with
      | none => exact hrefl x
      | some y =>
        have hy := h.computed
        rw [hc] at hy
        exact htrans _ _ _ hy hx
    · cases hp : s.pipeline.pending with
      | none => exact hrefl _
      | some y =>
        have hy := h.pending
        rw [hp] at hy
        exact htrans _ _ _ hy hgrow
    · intro y hy
      exact htrans _ _ _ (h.value y hy) (getD_mono hrefl hgrow)
  | subscribe =>
    refine ⟨h.computed, h.pending, h.value, h.fresh, h.unset, ?_, ?_⟩
    · intro o x ho hx
      obtain rfl := Option.some.inj ho
      cases hx
    · intro o ho
      obtain rfl := Option.some.inj ho
      exact ⟨Nat.zero_le _, fun hv => (h.unset hv.symm).symm⟩
  | unsubscribe => exact ⟨h.computed, h.pending, h.value, h.fresh, h.unset, nofun, nofun⟩
  | invalidate hw =>
    exact ⟨h.computed, h.pending, h.value, nofun, h.unset, h.seen, h.upToDate⟩
  | compute hi =>
    refine ⟨hrefl _, ?_, ?_, fun _ _ => rfl, h.unset, h.seen, h.upToDate⟩
    · cases hp : s.pipeline.pending with
      | none => exact hrefl _
      | some y =>
        have hy := h.pending
        rw [hp] at hy
        exact htrans _ _ _ hy h.computed
    · intro y hy
      exact htrans _ _ _ (h.value y hy) (getD_mono hrefl h.computed)
  | @post x hx =>
    have hcomputed := h.computed
    have hpending := h.pending
    rw [hx] at hcomputed hpending
    refine ⟨hrefl _, hcomputed, ?_, ?_, h.unset, h.seen, h.upToDate⟩
    · intro y hy
      have hvalue := h.value y hy
      rw [hx] at hvalue
      exact htrans _ _ _ hvalue hpending
    · intro hw hi
      have hfresh := h.fresh hw hi
      rw [hx] at hfresh
      exact hfresh
  | @publish x hx =>
    have hpending := h.pending
    rw [hx] at hpending
    refine ⟨h.computed, hrefl _, ?_, ?_, fun hv => absurd hv (Nat.succ_ne_zero _), ?_, ?_⟩
    · intro y hy
      obtain rfl := Option.some.inj hy
      exact hpending
    · intro hw hi
      have hfresh := h.fresh hw hi
      rw [hx] at hfresh
      exact hfresh
    · intro o y ho hy
      obtain ⟨z, hz, hyz⟩ := h.seen o y ho hy
      have hvalue := h.value z hz
      rw [hx] at hvalue
      exact ⟨x, rfl, htrans _ _ _ hyz hvalue⟩
    · intro o ho
      have hle := (h.upToDate o ho).1
      dsimp only
      exact ⟨by omega, fun hv => by omega⟩
  | @observe o x ho hx hlt =>
    refine ⟨h.computed, h.pending, h.value, h.fresh, h.unset, ?_, ?_⟩
    · intro o' y ho' hy
      obtain rfl := Option.some.inj ho'
      obtain rfl := Option.some.inj hy
      exact ⟨x, hx, hrefl x⟩
    · intro o' ho'
      obtain rfl := Option.some.inj ho'
      exact ⟨Nat.le_refl _, fun _ => hx.symm⟩

include hrefl htrans in
theorem inv_run {x : α} (hr : Run (Step r) (init x) es s) : Inv r s :=
  hr.reachable.invariant (inv_init hrefl x) fun _ _ _ _ hs h => inv_step hrefl htrans h hs

include htrans in
/-- What has been seen is a state of the source, no newer than it is now. -/
theorem Inv.seen_le (h : Inv r s) {o : Observer α} {x : α} (ho : s.observer = some o)
    (hx : o.seen = some x) : r x s.source := by
  obtain ⟨y, hy, hxy⟩ := h.seen o x ho hx
  exact htrans _ _ _ hxy (htrans _ _ _ (h.value y hy) (htrans _ _ _ h.pending h.computed))

include hrefl in
/-- An observer that stays sees newer and newer states. -/
theorem seen_step (h : Inv r s) (hs : Step r s e t) (he : e ≠ .subscribe ∧ e ≠ .unsubscribe)
    {o : Observer α} (ho : s.observer = some o) : ∃ o', t.observer = some o' ∧
      ∀ x, o.seen = some x → ∃ y, o'.seen = some y ∧ r x y := by
  cases hs with
  | subscribe => exact absurd rfl he.1
  | unsubscribe => exact absurd rfl he.2
  | @observe o' y ho' hy _ =>
    refine ⟨_, rfl, ?_⟩
    intro x hx
    obtain ⟨z, hz, hxz⟩ := h.seen o x ho hx
    obtain rfl := Option.some.inj (hy.symm.trans hz)
    exact ⟨y, rfl, hxz⟩
  | _ => exact ⟨o, ho, fun x hx => ⟨x, hx, hrefl x⟩⟩

include hrefl htrans in
theorem seen_run (h : Inv r s) (hr : Run (Step r) s es t)
    (hes : ∀ e ∈ es, e ≠ .subscribe ∧ e ≠ .unsubscribe) {o : Observer α}
    (ho : s.observer = some o) : ∃ o', t.observer = some o' ∧
      ∀ x, o.seen = some x → ∃ y, o'.seen = some y ∧ r x y := by
  induction hr generalizing o with
  | nil s => exact ⟨o, ho, fun x hx => ⟨x, hx, hrefl x⟩⟩
  | cons hs _ ih =>
    obtain ⟨he, hes⟩ := List.forall_mem_cons.mp hes
    obtain ⟨o₁, ho₁, hseen₁⟩ := seen_step hrefl h hs he ho
    obtain ⟨o₂, ho₂, hseen₂⟩ := ih (inv_step hrefl htrans h hs) hes ho₁
    refine ⟨o₂, ho₂, ?_⟩
    intro x hx
    obtain ⟨y, hy, hxy⟩ := hseen₁ x hx
    obtain ⟨z, hz, hyz⟩ := hseen₂ y hy
    exact ⟨z, hz, htrans _ _ _ hxy hyz⟩

/-- At the end of the pipeline, when nothing is left in it. -/
theorem Inv.seen_source (h : Inv r s) (hw : s.pipeline.written = false)
    (hi : s.pipeline.invalid = false) (hc : s.pipeline.computed = none)
    (hp : s.pipeline.pending = none) {o : Observer α} (ho : s.observer = some o)
    (hv : ¬ o.lastVersion < s.pipeline.version) : o.seen = some s.source := by
  have hfresh := h.fresh hw hi
  rw [hc, hp] at hfresh
  obtain ⟨hle, hsame⟩ := h.upToDate o ho
  exact (hsame (by omega)).trans hfresh

end Order

/-! The work that is left until the observer is up to date. -/

def Pipeline.work (p : Pipeline α) : ℕ :=
  (if p.written then 5 else 0) + (if p.invalid then 4 else 0) +
    (if p.computed.isSome then 3 else 0) + (if p.pending.isSome then 2 else 0)

def State.work (s : State α) : ℕ :=
  s.pipeline.work + match s.observer with
    | some o => if o.lastVersion < s.pipeline.version then 1 else 0
    | none => 0

/-- The work that an event from outside of the pipeline may add. -/
def Event.adds : Event → ℕ
  | .write => 6
  | .subscribe => 2
  | .unsubscribe => 1
  | _ => 0

theorem work_step {r : α → α → Prop} {s t : State α} {e : Event} (hs : Step r s e t) :
    t.work < s.work + e.adds := by
  cases hs with
  | write _ =>
    simp only [State.work, Pipeline.work, Event.adds, if_true]
    omega
  | subscribe =>
    simp only [State.work, Event.adds]
    split <;> omega
  | unsubscribe =>
    simp only [State.work, Event.adds]
    omega
  | invalidate hw =>
    simp only [State.work, Pipeline.work, Event.adds, hw, if_true, Bool.false_eq_true, if_false]
    split <;> omega
  | compute hi =>
    simp only [State.work, Pipeline.work, Event.adds, hi, if_true, Bool.false_eq_true, if_false,
      Option.isSome_some]
    split <;> omega
  | post hc =>
    simp only [State.work, Pipeline.work, Event.adds, hc, if_true, Bool.false_eq_true, if_false,
      Option.isSome_some, Option.isSome_none]
    split <;> omega
  | publish hp =>
    simp only [State.work, Pipeline.work, Event.adds, hp, if_true, Bool.false_eq_true, if_false,
      Option.isSome_some, Option.isSome_none]
    cases s.observer with
    | none => simp
    | some o =>
      have hle : (if o.lastVersion < s.pipeline.version + 1 then 1 else 0) ≤ 1 := by
        split <;> omega
      dsimp only
      omega
  | observe ho _ hlt =>
    simp only [State.work, Event.adds, ho, if_pos hlt, Nat.lt_irrefl, if_false]
    omega

theorem work_run {r : α → α → Prop} {s t : State α} {es : List Event} (hr : Run (Step r) s es t) :
    t.work + es.length ≤ s.work + (es.map Event.adds).sum := by
  induction hr with
  | nil s => simp
  | cons hs _ ih =>
    have hlt := work_step hs
    rw [List.length_cons, List.map_cons, List.sum_cons]
    omega

end LiveValue
