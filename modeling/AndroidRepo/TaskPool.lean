import AndroidRepo.Transition
import Mathlib.Algebra.BigOperators.Group.Finset.Basic
import Mathlib.Algebra.Order.Group.Multiset

/-! A pool of workers over one FIFO queue: no task is lost or duplicated, and the tasks finish
in the order of their submission whenever the workers take turns. -/
namespace TaskPool

open Transition

variable {ω α : Type*}

/-- The tasks that nobody has taken yet, and the one that each worker has in hand. -/
structure Pool (ω α : Type*) where
  queue : List α
  running : ω → Option α

inductive Event (ω α : Type*) where
  | submit (x : α)
  | take (w : ω)
  | finish (w : ω) (x : α)

def empty : Pool ω α := ⟨[], fun _ => none⟩

def Pool.Idle (p : Pool ω α) : Prop := p.queue = [] ∧ ∀ w, p.running w = none

def Pool.submit (p : Pool ω α) (x : α) : Pool ω α := { p with queue := p.queue ++ [x] }

inductive Step [DecidableEq ω] : Pool ω α → Event ω α → Pool ω α → Prop where
  | submit {p : Pool ω α} {x : α} : Step p (.submit x) (p.submit x)
  | take {p : Pool ω α} {w : ω} {x : α} {xs : List α} :
      p.running w = none → p.queue = x :: xs →
      Step p (.take w) ⟨xs, Function.update p.running w (some x)⟩
  | finish {p : Pool ω α} {w : ω} {x : α} :
      p.running w = some x →
      Step p (.finish w x) { p with running := Function.update p.running w none }

def submitted (es : List (Event ω α)) : List α :=
  es.filterMap fun
    | .submit x => some x
    | _ => none

def finished (es : List (Event ω α)) : List α :=
  es.filterMap fun
    | .finish _ x => some x
    | _ => none

variable {p q : Pool ω α} {e : Event ω α} {es : List (Event ω α)}

theorem submitted_append (es es' : List (Event ω α)) :
    submitted (es ++ es') = submitted es ++ submitted es' := List.filterMap_append

theorem finished_append (es es' : List (Event ω α)) :
    finished (es ++ es') = finished es ++ finished es' := List.filterMap_append

section Conservation

variable [Fintype ω]

/-- Everything that has been submitted and has not finished. -/
def Pool.pending (p : Pool ω α) : Multiset α := ↑p.queue + ∑ w, (↑(p.running w).toList : Multiset α)

theorem pending_empty : (empty : Pool ω α).pending = 0 := by
  simp [Pool.pending, empty]

theorem Pool.Idle.pending (h : p.Idle) : p.pending = 0 := by
  simp [Pool.pending, h.1, h.2]

variable [DecidableEq ω]

/-- What the workers have in hand, when one of them puts down or takes up a task. -/
theorem sum_running_update (running : ω → Option α) (w : ω) (x : Option α) :
    ∑ v, (↑(Function.update running w x v).toList : Multiset α) + ↑(running w).toList =
      ∑ v, (↑(running v).toList : Multiset α) + ↑x.toList := by
  rw [← Finset.add_sum_erase _ _ (Finset.mem_univ w),
    ← Finset.add_sum_erase _ (fun v => (↑(running v).toList : Multiset α)) (Finset.mem_univ w)]
  have hrest : ∑ v ∈ Finset.univ.erase w, (↑(Function.update running w x v).toList : Multiset α) =
      ∑ v ∈ Finset.univ.erase w, ↑(running v).toList :=
    Finset.sum_congr rfl fun v hv => by simp [Finset.ne_of_mem_erase hv]
  rw [hrest, Function.update_self]
  ac_rfl

theorem pending_step (hs : Step p e q) :
    (↑(submitted [e]) : Multiset α) + p.pending = ↑(finished [e]) + q.pending := by
  cases hs with
  | @submit x =>
    have happ : (↑(p.queue ++ [x]) : Multiset α) = ↑p.queue + ↑[x] := rfl
    simp only [submitted, finished, List.filterMap_cons, List.filterMap_nil, Pool.pending,
      Pool.submit, happ, Multiset.coe_nil, zero_add]
    ac_rfl
  | @take w x xs hw hq =>
    have hsum := sum_running_update p.running w (some x)
    rw [hw, Option.toList_none, Multiset.coe_nil, add_zero] at hsum
    have hcons : (↑(x :: xs) : Multiset α) = ↑[x] + ↑xs := rfl
    simp only [submitted, finished, List.filterMap_cons, List.filterMap_nil, Pool.pending,
      hsum, hq, hcons, Option.toList_some]
    ac_rfl
  | @finish w x hw =>
    have hsum := sum_running_update p.running w none
    rw [hw, Option.toList_none, Multiset.coe_nil, add_zero] at hsum
    simp only [submitted, finished, List.filterMap_cons, List.filterMap_nil, Pool.pending,
      ← hsum, Option.toList_some, Multiset.coe_nil, zero_add]
    ac_rfl

/-- Each task that was submitted has finished, or is pending, exactly once. -/
theorem conserved (hr : Run Step empty es p) :
    (↑(submitted es) : Multiset α) = ↑(finished es) + p.pending := by
  refine hr.snoc_induction (P := fun es p => (↑(submitted es) : Multiset α) =
    ↑(finished es) + p.pending) ?_ ?_
  · rw [pending_empty]
    rfl
  · intro es p e q _ hs ih
    rw [submitted_append, finished_append, ← Multiset.coe_add, ← Multiset.coe_add, ih, add_assoc,
      add_assoc, ← pending_step hs, add_comm p.pending]

/-! What is left to do. -/

theorem pending_take {w : ω} (hs : Step p (.take w) q) :
    q.pending.card = p.pending.card ∧ q.queue.length < p.queue.length := by
  have hpending := congrArg Multiset.card (pending_step hs)
  cases hs with
  | take hw hq =>
    refine ⟨?_, by simp [hq]⟩
    simpa [submitted, finished] using hpending.symm

theorem pending_finish {w : ω} {x : α} (hs : Step p (.finish w x) q) :
    p.pending.card = q.pending.card + 1 ∧ q.queue = p.queue := by
  have hpending := congrArg Multiset.card (pending_step hs)
  cases hs with
  | finish hw =>
    refine ⟨?_, rfl⟩
    simpa [submitted, finished] using hpending

end Conservation

/-- A pool in which no worker can take or finish a task. -/
theorem idle_of_stuck [DecidableEq ω] [Nonempty ω] (htake : ∀ w q, ¬ Step p (.take w) q)
    (hfinish : ∀ w x q, ¬ Step p (.finish w x) q) : p.Idle := by
  have hrunning : ∀ w, p.running w = none := by
    intro w
    cases hw : p.running w with
    | none => rfl
    | some x => exact absurd (.finish hw) (hfinish w x _)
  refine ⟨?_, hrunning⟩
  cases hq : p.queue with
  | nil => rfl
  | cons x xs =>
    obtain ⟨w⟩ := ‹Nonempty ω›
    exact absurd (.take (hrunning w) hq) (htake w _)

section Turns

variable [DecidableEq ω]

/-- A worker takes a task only when no worker has one in hand. -/
def TurnStep (p : Pool ω α) (e : Event ω α) (q : Pool ω α) : Prop :=
  Step p e q ∧ ∀ w, e = .take w → ∀ v, p.running v = none

/-- What the workers have in hand is this one task, or nothing. -/
def InHand (running : ω → Option α) (x : Option α) : Prop :=
  match x with
  | none => ∀ w, running w = none
  | some x => ∃ w, running = Function.update (fun _ => none) w (some x)

/-- Tasks that are taken in turns finish in the order in which they were submitted. -/
theorem in_order (hr : Run TurnStep empty es p) :
    ∃ x : Option α, InHand p.running x ∧ submitted es = finished es ++ (x.toList ++ p.queue) := by
  refine hr.snoc_induction (P := fun es p => ∃ x : Option α, InHand p.running x ∧
    submitted es = finished es ++ (x.toList ++ p.queue)) ⟨none, fun _ => rfl, rfl⟩ ?_
  rintro es p e q - ⟨hs, hturn⟩ ⟨x, hx, hes⟩
  rw [submitted_append, finished_append, hes]
  cases hs with
  | submit => exact ⟨x, hx, by simp [submitted, finished, Pool.submit]⟩
  | @take w y ys hw hq =>
    cases x with
    | some x =>
      obtain ⟨v, hv⟩ := hx
      have hbusy := hturn w rfl v
      simp [hv] at hbusy
    | none =>
      refine ⟨some y, ⟨w, ?_⟩, by simp [submitted, finished, hq]⟩
      rw [funext hx]
  | @finish w y hw =>
    cases x with
    | none => simp [hx w] at hw
    | some x =>
      obtain ⟨v, hv⟩ := hx
      rw [hv, Function.update_apply] at hw
      split at hw
      · next hwv =>
        obtain rfl := Option.some.inj hw
        refine ⟨none, ?_, by simp [submitted, finished]⟩
        intro u
        simp [hv, hwv]
      · cases hw

theorem in_order_idle (hr : Run TurnStep empty es p) (hp : p.Idle) :
    submitted es = finished es := by
  obtain ⟨x, hx, hes⟩ := in_order hr
  cases x with
  | none => simpa [hp.1] using hes
  | some x =>
    obtain ⟨w, hw⟩ := hx
    have hbusy := hp.2 w
    simp [hw] at hbusy

end Turns

end TaskPool
