import Mathlib.Algebra.BigOperators.Group.Finset.Basic
import Mathlib.Data.List.Basic
import Mathlib.Order.Defs.PartialOrder

/-! Finite runs of a labelled step relation, and the invariants that hold along them. -/
namespace Transition

variable {σ τ α β : Type*} {Step : σ → α → σ → Prop} {s t u : σ} {a : α} {as bs : List α}

/-- A finite run with its labels in the order in which the steps were taken. -/
inductive Run (Step : σ → α → σ → Prop) : σ → List α → σ → Prop where
  | nil (s : σ) : Run Step s [] s
  | cons {s t u : σ} {a : α} {as : List α} :
      Step s a t → Run Step t as u → Run Step s (a :: as) u

def Reachable (Step : σ → α → σ → Prop) (init s : σ) : Prop := ∃ as, Run Step init as s

theorem Run.single (h : Step s a t) : Run Step s [a] t := .cons h (.nil t)

theorem Run.step_of_single (h : Run Step s [a] t) : Step s a t := by
  cases h with
  | cons hs hrest =>
    cases hrest
    exact hs

theorem Run.eq_of_nil (h : Run Step s [] t) : s = t := by
  cases h
  rfl

theorem Run.append (h : Run Step s as t) (h' : Run Step t bs u) : Run Step s (as ++ bs) u := by
  induction h with
  | nil => exact h'
  | cons hs _ ih => exact .cons hs (ih h')

theorem Run.snoc (h : Run Step s as t) (hs : Step t a u) : Run Step s (as ++ [a]) u :=
  h.append (.single hs)

/-- A run can be cut wherever its labels can. -/
theorem Run.split (h : Run Step s (as ++ bs) u) : ∃ t, Run Step s as t ∧ Run Step t bs u := by
  induction as generalizing s with
  | nil => exact ⟨s, .nil s, h⟩
  | cons a as ih =>
    cases h with
    | cons hs hrest =>
      obtain ⟨t, hpre, hpost⟩ := ih hrest
      exact ⟨t, .cons hs hpre, hpost⟩

theorem Run.imp {Step' : σ → α → σ → Prop} (himp : ∀ s a t, Step s a t → Step' s a t)
    (h : Run Step s as t) : Run Step' s as t := by
  induction h with
  | nil s => exact .nil s
  | cons hs _ ih => exact .cons (himp _ _ _ hs) ih

/-- Runs grow at their end: the induction every invariant below uses. -/
theorem Run.snoc_induction {init : σ} {P : List α → σ → Prop} (nil : P [] init)
    (snoc : ∀ as s a t, Run Step init as s → Step s a t → P as s → P (as ++ [a]) t)
    (h : Run Step init as s) : P as s := by
  suffices ∀ bs cs t u, Run Step t cs u → Run Step init bs t → P bs t → P (bs ++ cs) u by
    simpa using this [] as init s h (.nil _) nil
  intro bs cs t u hc
  induction hc generalizing bs with
  | nil => intro _ hp; simpa using hp
  | @cons t v u a cs hs _ ih =>
    intro hb hp
    have hv := ih (bs ++ [a]) (hb.snoc hs) (snoc _ _ _ _ hb hs hp)
    simpa using hv

theorem Run.reachable {init : σ} (h : Run Step init as s) : Reachable Step init s := ⟨as, h⟩

/-- A predicate that holds at the start and survives each step of a reachable state. -/
theorem Reachable.invariant {init : σ} {P : σ → Prop} (h0 : P init)
    (hstep : ∀ s a t, Reachable Step init s → Step s a t → P s → P t)
    (h : Reachable Step init s) : P s := by
  obtain ⟨as, has⟩ := h
  exact has.snoc_induction (P := fun _ s => P s) h0
    (fun _ s a t hr hs hp => hstep s a t hr.reachable hs hp)

/-- A predicate of one step, closed under composition, relates the ends of every run. -/
theorem Run.relates {R : σ → σ → Prop} (hrefl : ∀ s, R s s)
    (htrans : ∀ s t u, R s t → R t u → R s u) (hstep : ∀ s a t, Step s a t → R s t)
    (h : Run Step s as t) : R s t := by
  induction h with
  | nil s => exact hrefl s
  | cons hs _ ih => exact htrans _ _ _ (hstep _ _ _ hs) ih

/-- Refinement: each step of one system is a run of another, seen through `f`. -/
theorem Run.refines {Step' : τ → β → τ → Prop} {f : σ → τ} {events : α → List β}
    (hstep : ∀ s a t, Step s a t → Run Step' (f s) (events a) (f t)) (h : Run Step s as t) :
    Run Step' (f s) (as.flatMap events) (f t) := by
  induction h with
  | nil s => exact .nil _
  | cons hs _ ih =>
    rw [List.flatMap_cons]
    exact (hstep _ _ _ hs).append ih

/-- Simulation: what one system does, another can follow step by step. -/
theorem Run.simulates {Step' : τ → α → τ → Prop} {R : σ → τ → Prop} {x : τ}
    (hstep : ∀ s a t x, R s x → Step s a t → ∃ y, Step' x a y ∧ R t y) (h : Run Step s as t)
    (hR : R s x) : ∃ y, Run Step' x as y ∧ R t y := by
  induction h generalizing x with
  | nil s => exact ⟨x, .nil x, hR⟩
  | cons hs _ ih =>
    obtain ⟨y, hy, hRy⟩ := hstep _ _ _ _ hR hs
    obtain ⟨z, hz, hRz⟩ := ih hRy
    exact ⟨z, .cons hy hz, hRz⟩

/-- No step is possible. -/
def AtRest (Step : σ → α → σ → Prop) (s : σ) : Prop := ∀ a t, ¬ Step s a t

/-- Runs of bounded length lead to rest. -/
theorem exists_rest_of_length_le {n : ℕ} (h : ∀ as t, Run Step s as t → as.length ≤ n) :
    ∃ as t, Run Step s as t ∧ AtRest Step t := by
  induction n generalizing s with
  | zero =>
    refine ⟨[], s, .nil s, ?_⟩
    intro a t hs
    cases h [a] t (.single hs)
  | succ n ih =>
    by_cases hrest : AtRest Step s
    · exact ⟨[], s, .nil s, hrest⟩
    · simp only [AtRest, not_forall, not_not] at hrest
      obtain ⟨a, t, hs⟩ := hrest
      have hshort : ∀ bs u, Run Step t bs u → bs.length ≤ n := by
        intro bs u hbs
        exact Nat.le_of_succ_le_succ (h (a :: bs) u (.cons hs hbs))
      obtain ⟨bs, u, hrun, hu⟩ := ih hshort
      exact ⟨a :: bs, u, .cons hs hrun, hu⟩

section Measure

variable {P : σ → Prop} {μ : σ → ℕ}

/-- Steps that decrease a measure, and keep what makes them do so, are at most that many. -/
theorem Run.length_le (hdec : ∀ s a t, P s → Step s a t → P t ∧ μ t < μ s) (hs : P s)
    (h : Run Step s as t) : P t ∧ as.length + μ t ≤ μ s := by
  induction h with
  | nil s => exact ⟨hs, by simp⟩
  | cons hstep _ ih =>
    obtain ⟨ht, hlt⟩ := hdec _ _ _ hs hstep
    obtain ⟨hu, hle⟩ := ih ht
    refine ⟨hu, ?_⟩
    rw [List.length_cons]
    omega

/-- They lead to rest. -/
theorem exists_rest (hdec : ∀ s a t, P s → Step s a t → P t ∧ μ t < μ s) (hs : P s) :
    ∃ as t, Run Step s as t ∧ AtRest Step t := by
  apply exists_rest_of_length_le (n := μ s)
  intro as t hrun
  have hle := (hrun.length_le hdec hs).2
  omega

/-- A measure that is a sum over parties, when one of them moves. -/
theorem sum_of_ne_of_mem {κ : Type*} [DecidableEq κ] {S : Finset κ} {f g : κ → ℕ} {c : κ}
    (hc : c ∈ S) (h : ∀ d, d ≠ c → f d = g d) : ∑ d ∈ S, f d + g c = ∑ d ∈ S, g d + f c := by
  have hrest : ∑ d ∈ S.erase c, f d = ∑ d ∈ S.erase c, g d :=
    Finset.sum_congr rfl fun d hd => h d (Finset.ne_of_mem_erase hd)
  rw [← Finset.add_sum_erase _ _ hc, ← Finset.add_sum_erase _ g hc, hrest]
  omega

theorem sum_of_ne {κ : Type*} [Fintype κ] [DecidableEq κ] {f g : κ → ℕ} {c : κ}
    (h : ∀ d, d ≠ c → f d = g d) : ∑ d, f d + g c = ∑ d, g d + f c :=
  sum_of_ne_of_mem (Finset.mem_univ c) h

end Measure

end Transition
