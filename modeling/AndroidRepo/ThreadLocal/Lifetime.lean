import AndroidRepo.ThreadLocal.Counting

/-! From `new int` to `threadDestructor`: who owns a counter, and until when, whatever it counts. -/
namespace AndroidRepo.ThreadLocal

open Transition

variable {τ : Type} {s t : State τ} {a : Action τ} {as : List (Action τ)} {i j : τ}
  {heap : ℕ → Option Int} {made gone : List ℕ} {c p : ℕ} {pc : PC} {slot : Option ℕ}

/-- A thread that has made the counters `made` and deleted `gone` in `c` calls. -/
def Owns (heap : ℕ → Option Int) (made gone : List ℕ) (c : ℕ) : PC → Option ℕ → Prop
  | .outside, none => made = [] ∧ gone = [] ∧ c = 0
  | .getspecific _, none | .new _, none => made = [] ∧ gone = [] ∧ c = 1
  | .outside, some p | .getspecific _, some p | .undefined, some p =>
    made = [p] ∧ gone = [] ∧ heap p ≠ none ∧ 0 < c
  | .new _, some _ | .undefined, none => False
  | .setspecific _ p, slot | .destructor p, slot =>
    slot = none ∧ made = [p] ∧ gone = [] ∧ heap p ≠ none ∧ 0 < c
  | .increment _ p, slot | .print _ p, slot =>
    slot = some p ∧ made = [p] ∧ gone = [] ∧ heap p ≠ none ∧ 0 < c
  | .exited, _ => gone = made ∧ made.length = if c = 0 then 0 else 1

/-- Until it is deleted, a counter is allocated. -/
theorem Owns.allocated (h : Owns heap made gone c pc slot) (hp : p ∈ made) (hg : gone = []) :
    heap p ≠ none := by
  cases pc <;> cases slot <;> simp_all [Owns]

theorem Owns.frame {heap' : ℕ → Option Int} (h : Owns heap made gone c pc slot)
    (hheap : gone = [] → ∀ p ∈ made, heap' p ≠ none) : Owns heap' made gone c pc slot := by
  cases pc <;> cases slot <;> simp_all [Owns]

section Steps

variable [DecidableEq τ] {main : τ}

/-- Only an overflow leaves a thread without a defined step. -/
theorem step_undefined (hs : Step main s a t)
    (h : Owns s.heap made gone c (s.pc a.thread) (s.gTLS a.thread))
    (hpc : t.pc a.thread = .undefined) :
    ∃ func p n, s.pc a.thread = .increment func p ∧ s.heap p = some n ∧ intMax ≤ n := by
  cases hs with
  | @incrementUndefined i func p hpc' hmax =>
    simp only [Action.thread, hpc', Owns] at h
    obtain ⟨n, hn⟩ := Option.ne_none_iff_exists'.mp h.2.2.2.1
    exact ⟨func, p, n, hpc', hn, hmax n hn⟩
  | _ => simp_all [Owns, Action.thread]

end Steps

end AndroidRepo.ThreadLocal
