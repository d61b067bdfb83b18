import AndroidRepo.ThreadLocal.Model

/-! What the counters count. A counter is reachable for one thread only, and stays one behind
the calls of that thread while a call is on its way, provided that it started at zero. -/
namespace AndroidRepo.ThreadLocal

open Transition

variable {τ : Type} {s t : State τ} {a : Action τ} {as : List (Action τ)} {i j : τ}
  {heap heap' : ℕ → Option Int} {n c p : ℕ} {pc : PC} {slot : Option ℕ}

/-- The thread that acts. -/
def Action.thread : Action τ → τ
  | .call i _ | .getspecific i | .new i _ _ | .setspecific i | .increment i | .print i | .exit i
  | .delete i _ => i

/-- The counter that a thread can reach, through a local variable or through its slot. -/
def held : PC → Option ℕ → Option ℕ
  | .setspecific _ p, _ | .increment _ p, _ | .print _ p, _ | .destructor p, _ => some p
  | .outside, slot | .getspecific _, slot | .new _, slot => slot
  | .exited, _ | .undefined, _ => none

/-- A null slot stands for a counter at zero. -/
def Counts (heap : ℕ → Option Int) (n : ℕ) : Option ℕ → Prop
  | none => n = 0
  | some p => heap p = some (n : Int)

/-- Memory agrees with a thread that has printed `n` lines in `c` calls. -/
def Tallies (heap : ℕ → Option Int) (n c : ℕ) : PC → Option ℕ → Prop
  | .outside, slot => n = c ∧ Counts heap n slot
  | .getspecific _, slot => n + 1 = c ∧ Counts heap n slot
  | .new _, slot => n + 1 = c ∧ n = 0 ∧ slot = none
  | .setspecific _ p, slot => n + 1 = c ∧ heap p = some (n : Int) ∧ slot = none
  | .increment _ p, slot => n + 1 = c ∧ heap p = some (n : Int) ∧ slot = some p
  | .print _ p, slot => n + 1 = c ∧ heap p = some (n + 1 : Int) ∧ slot = some p
  | .destructor p, slot => (∃ v, heap p = some v) ∧ slot = none
  | .exited, _ => True
  | .undefined, _ => False

theorem Tallies.frame (h : Tallies heap n c pc slot)
    (hp : ∀ p, held pc slot = some p → heap' p = heap p) : Tallies heap' n c pc slot := by
  cases pc <;> cases slot <;> simp_all [Tallies, Counts, held] <;> omega

theorem Tallies.allocated (h : Tallies heap n c pc slot) (hp : held pc slot = some p) :
    heap p ≠ none := by
  intro hnone
  cases pc <;> cases slot <;> simp_all [Tallies, Counts, held]

/-- The lines of a thread that counts right. -/
def tally (n : ℕ) : List Int := (List.range n).map fun k => (k : Int) + 1

theorem tally_succ (n : ℕ) : tally (n + 1) = tally n ++ [(n : Int) + 1] := by
  simp [tally, List.range_succ]

section Steps

variable [DecidableEq τ] {main : τ}

theorem calls_append (as : List (Action τ)) (a : Action τ) (i : τ) :
    calls (as ++ [a]) i = calls as i + calls [a] i := by
  simp [calls, List.countP_append]

theorem step_others (hs : Step main s a t) (hj : j ≠ a.thread) :
    t.pc j = s.pc j ∧ t.gTLS j = s.gTLS j ∧ t.counts j = s.counts j ∧ calls [a] j = 0 := by
  have hj' := hj.symm
  cases hs <;> simp_all [Action.thread, State.counts, calls]

/-- A thread writes only to the counter it holds, and to memory that nobody holds. -/
theorem step_heap (hs : Step main s a t) (hp : s.heap p ≠ none)
    (hheld : held (s.pc a.thread) (s.gTLS a.thread) ≠ some p) : t.heap p = s.heap p := by
  cases hs with
  | @new i func q v hpc hfree _ _ =>
    have hne : p ≠ q := by
      rintro rfl
      exact hp hfree
    simp [hne]
  | @increment i func q n hpc _ _ =>
    have hne : p ≠ q := by
      rintro rfl
      simp [Action.thread, hpc, held] at hheld
    simp [hne]
  | @delete i q n hpc _ =>
    have hne : p ≠ q := by
      rintro rfl
      simp [Action.thread, hpc, held] at hheld
    simp [hne]
  | _ => rfl

/-- What the acting thread holds afterwards it held before, or nobody did. -/
theorem step_held (hs : Step main s a t)
    (hn : Tallies s.heap n c (s.pc a.thread) (s.gTLS a.thread))
    (hp : held (t.pc a.thread) (t.gTLS a.thread) = some p) :
    held (s.pc a.thread) (s.gTLS a.thread) = some p ∨ s.heap p = none := by
  cases hs <;> simp_all [Action.thread, held, Tallies]

/-- The acting thread keeps its count, if fresh memory is zero and the count fits into `int`. -/
theorem step_tally (hs : Step main s a t)
    (hn : Tallies s.heap n c (s.pc a.thread) (s.gTLS a.thread))
    (hcounts : s.counts a.thread = tally n)
    (hzero : ∀ i p v, a = .new i p v → v = 0) (hcalls : c < 2 ^ 31) :
    ∃ n', t.counts a.thread = tally n' ∧
      Tallies t.heap n' (c + calls [a] a.thread) (t.pc a.thread) (t.gTLS a.thread) := by
  cases hs with
  | call hpc =>
    simp only [Action.thread, hpc, Tallies] at hn
    exact ⟨n, hcounts, by simpa [Action.thread, Tallies, calls] using hn⟩
  | getNull hpc hslot =>
    simp only [Action.thread, hpc, hslot, Tallies, Counts] at hn
    exact ⟨n, hcounts, by simpa [Action.thread, Tallies, calls, hslot] using hn⟩
  | getCount hpc hslot =>
    simp only [Action.thread, hpc, hslot, Tallies, Counts] at hn
    exact ⟨n, hcounts, by simpa [Action.thread, Tallies, calls, hslot] using hn⟩
  | new hpc hfree _ _ =>
    simp only [Action.thread, hpc, Tallies] at hn
    obtain ⟨hc, rfl, hslot⟩ := hn
    obtain rfl := hzero _ _ _ rfl
    exact ⟨0, hcounts, by simp [Action.thread, Tallies, calls, hc, hslot]⟩
  | setspecific hpc =>
    simp only [Action.thread, hpc, Tallies] at hn
    exact ⟨n, hcounts, by simp [Action.thread, Tallies, calls, hn]⟩
  | increment hpc hv hlt =>
    simp only [Action.thread, hpc, Tallies] at hn
    exact ⟨n, hcounts, by simp_all [Action.thread, Tallies, calls]⟩
  | incrementUndefined hpc hmax =>
    simp only [Action.thread, hpc, Tallies] at hn
    have hle := hmax _ hn.2.1
    simp only [intMax] at hle
    omega
  | print hpc hv =>
    simp only [Action.thread, hpc, Tallies] at hn
    obtain ⟨rfl, hn, hslot⟩ := hn
    obtain rfl := Option.some.inj (hv.symm.trans hn)
    refine ⟨n + 1, ?_, by simp [Action.thread, Tallies, Counts, calls, hslot, hn]⟩
    rw [tally_succ, ← hcounts]
    simp [Action.thread, State.counts]
  | printUndefined hpc hnone =>
    simp [Action.thread, hpc, Tallies, hnone] at hn
  | exitNull hpc _ hslot =>
    exact ⟨n, hcounts, by simp [Action.thread, Tallies]⟩
  | exitCount hpc _ hslot =>
    simp only [Action.thread, hpc, hslot, Tallies, Counts] at hn
    exact ⟨n, hcounts, by simp [Action.thread, Tallies, hn]⟩
  | delete hpc hv =>
    exact ⟨n, hcounts, by simp [Action.thread, Tallies]⟩
  | deleteUndefined hpc hnone =>
    simp [Action.thread, hpc, Tallies, hnone] at hn

/-- After the run `as`: every thread counts right, and no two threads share a counter. -/
structure Inv (as : List (Action τ)) (s : State τ) : Prop where
  tallies : ∀ i, ∃ n, s.counts i = tally n ∧
    Tallies s.heap n (calls as i) (s.pc i) (s.gTLS i)
  separate : ∀ i j p, held (s.pc i) (s.gTLS i) = some p → held (s.pc j) (s.gTLS j) = some p → i = j

theorem inv_init : Inv [] (init : State τ) where
  tallies _ := ⟨0, rfl, rfl, rfl⟩
  separate i j p hi := by simp [init, held] at hi

theorem Inv.allocated (h : Inv as s) (hp : held (s.pc i) (s.gTLS i) = some p) :
    s.heap p ≠ none := by
  obtain ⟨n, -, hn⟩ := h.tallies i
  exact hn.allocated hp

/-- What the acting thread ends up with, no other thread holds. -/
theorem Inv.step_separate (h : Inv as s) (hs : Step main s a t) (hj : j ≠ a.thread)
    (hp : held (t.pc a.thread) (t.gTLS a.thread) = some p) :
    held (s.pc j) (s.gTLS j) ≠ some p := by
  intro hjp
  obtain ⟨n, -, hn⟩ := h.tallies a.thread
  rcases step_held hs hn hp with hold | hfree
  · exact hj (h.separate j a.thread p hjp hold)
  · exact h.allocated hjp hfree

theorem inv_step (h : Inv as s) (hs : Step main s a t)
    (hzero : ∀ i p v, a = .new i p v → v = 0) (hcalls : calls as a.thread < 2 ^ 31) :
    Inv (as ++ [a]) t where
  tallies i := by
    obtain ⟨n, hcounts, hn⟩ := h.tallies i
    rw [calls_append]
    by_cases hi : i = a.thread
    · subst i
      exact step_tally hs hn hcounts hzero hcalls
    · obtain ⟨hpc, hslot, hprinted, hcall⟩ := step_others hs hi
      rw [hpc, hslot, hprinted, hcall]
      refine ⟨n, hcounts, hn.frame ?_⟩
      intro p hp
      apply step_heap hs (hn.allocated hp)
      intro ha
      exact hi (h.separate i a.thread p hp ha)
  separate i j p hp hq := by
    by_cases hi : i = a.thread <;> by_cases hj : j = a.thread
    · rw [hi, hj]
    · obtain ⟨hpc, hslot, -, -⟩ := step_others hs hj
      rw [hpc, hslot] at hq
      subst i
      exact absurd hq (h.step_separate hs hj hp)
    · obtain ⟨hpc, hslot, -, -⟩ := step_others hs hi
      rw [hpc, hslot] at hp
      subst j
      exact absurd hp (h.step_separate hs hi hq)
    · obtain ⟨hpc, hslot, -, -⟩ := step_others hs hi
      obtain ⟨hpc', hslot', -, -⟩ := step_others hs hj
      rw [hpc, hslot] at hp
      rw [hpc', hslot'] at hq
      exact h.separate i j p hp hq

theorem inv_run (hr : Run (Step main) init as s)
    (hzero : ∀ i p v, Action.new i p v ∈ as → v = 0) (hcalls : ∀ i, calls as i < 2 ^ 31) :
    Inv as s := by
  refine hr.snoc_induction (P := fun as s => (∀ i p v, Action.new i p v ∈ as → v = 0) →
    (∀ i, calls as i < 2 ^ 31) → Inv as s) (fun _ _ => inv_init) ?_ hzero hcalls
  intro as s a t _ hs ih hzero hcalls
  have hlt : ∀ i, calls as i < 2 ^ 31 := fun i =>
    Nat.lt_of_le_of_lt (by rw [calls_append]; omega) (hcalls i)
  refine inv_step (ih (fun i p v hm => hzero i p v (by simp [hm])) hlt) hs ?_ (hlt _)
  rintro i p v rfl
  exact hzero i p v (by simp)

/-- The `k`-th call of `foo` on each thread prints `k`, and each call that returns prints. -/
def CountsCalls (as : List (Action τ)) (s : State τ) : Prop :=
  ∀ i, s.pc i ≠ .undefined ∧
    ∃ n, s.counts i = tally n ∧ (s.pc i = .outside → n = calls as i)

/-- The first call of a thread prints one more than what `new int` found in memory. -/
theorem first_call_run (hpc : s.pc i = .outside) (hslot : s.gTLS i = none)
    (hfree : s.heap p = none) {v : Int} (hmin : intMin ≤ v) (hmax : v < intMax) (func : String) :
    ∃ t, Run (Step main) s [.call i func, .getspecific i, .new i p v, .setspecific i,
        .increment i, .print i] t ∧ t.counts i = s.counts i ++ [v + 1] :=
  ⟨_, .cons (.call hpc) <| .cons (.getNull (Function.update_self ..) hslot) <|
    .cons (.new (Function.update_self ..) hfree hmin (Int.le_of_lt hmax)) <|
    .cons (.setspecific (Function.update_self ..)) <|
    .cons (.increment (Function.update_self ..) (Function.update_self ..) hmax) <|
    .single (.print (Function.update_self ..) (Function.update_self ..)), by simp [State.counts]⟩

/-- Memory that is not zero by chance makes the first call print something else than one. -/
theorem count_starts_anywhere :
    ¬ ∀ (as : List (Action Bool)) (s : State Bool), Run (Step true) init as s →
      (∀ i, calls as i < 2 ^ 31) → CountsCalls as s := by
  intro h
  obtain ⟨s, hrun, hcounts⟩ : ∃ s, Run (Step true) (init : State Bool) [.call false "handler()",
      .getspecific false, .new false 8 41, .setspecific false, .increment false, .print false] s ∧
      s.counts false = [42] :=
    first_call_run rfl rfl rfl (by decide) (by decide) "handler()"
  obtain ⟨-, n, hn, -⟩ := h _ s hrun (by decide) false
  have hhead := congrArg List.head? (hcounts.symm.trans hn)
  cases n <;> simp [tally, List.range_succ_eq_map] at hhead

/-- As long as `new int` returns zeroed memory, every thread counts its own calls. -/
theorem counts_calls_of_zeroed (hr : Run (Step main) init as s)
    (hzero : ∀ i p v, Action.new i p v ∈ as → v = 0) (hcalls : ∀ i, calls as i < 2 ^ 31) :
    CountsCalls as s := by
  intro i
  obtain ⟨n, hcounts, hn⟩ := (inv_run hr hzero hcalls).tallies i
  refine ⟨?_, n, hcounts, ?_⟩
  · intro hpc
    rw [hpc] at hn
    exact hn
  · intro hpc
    rw [hpc] at hn
    exact hn.1

/-- Two threads in zeroed memory, each in its first call before the other has printed; then one of
them calls again. -/
theorem counts_calls_of_zeroed_two :
    let as : List (Action Bool) := [.call false "handler()", .call true "main()",
      .getspecific true, .getspecific false, .new false 8 0, .new true 16 0, .setspecific true,
      .setspecific false, .increment false, .increment true, .print true, .print false,
      .call false "handler()", .getspecific false, .increment false, .print false]
    ∃ s, Run (Step true) init as s ∧ s.counts false = [1, 2] ∧ s.counts true = [1] ∧
      CountsCalls as s := by
  intro as
  have hrun : ∃ s, Run (Step true) (init : State Bool) as s ∧ s.counts false = [1, 2] ∧
      s.counts true = [1] :=
    ⟨_, .cons (.call rfl) <| .cons (.call rfl) <| .cons (.getNull rfl rfl) <|
      .cons (.getNull rfl rfl) <| .cons (.new rfl rfl (by decide) (by decide)) <|
      .cons (.new rfl rfl (by decide) (by decide)) <| .cons (.setspecific rfl) <|
      .cons (.setspecific rfl) <| .cons (.increment rfl rfl (by decide)) <|
      .cons (.increment rfl rfl (by decide)) <| .cons (.print rfl rfl) <|
      .cons (.print rfl rfl) <| .cons (.call rfl) <| .cons (.getCount rfl rfl) <|
      .cons (.increment rfl rfl (by decide)) <| .single (.print rfl rfl), rfl, rfl⟩
  obtain ⟨s, hrun, hfalse, htrue⟩ := hrun
  exact ⟨s, hrun, hfalse, htrue, counts_calls_of_zeroed hrun (by simp [as]) (by decide)⟩

end Steps

end AndroidRepo.ThreadLocal
