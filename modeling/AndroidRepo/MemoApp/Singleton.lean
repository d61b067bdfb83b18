import AndroidRepo.MemoApp.Database

/-! One instance for the whole process: the monitor orders the builds, and the second read
sees what the last owner of the monitor has written. -/
namespace AndroidRepo.MemoApp.Database

open Transition

variable {τ : Type} {s t : State τ} {a : Action τ} {i j : τ}

def Action.thread : Action τ → τ
  | .call i | .move i | .throws i => i

def PC.Inside : PC → Prop
  | .secondRead | .build | .write _ | .monitorExit | .unwind => True
  | .outside | .firstRead | .monitorEnter | .finalRead => False

/-- What a thread may rely on about `INSTANCE`. -/
def PC.Relies (INSTANCE : Option ℕ) (builds : ℕ) : PC → Prop
  | .build | .unwind => INSTANCE = none ∧ builds = 0
  | .write db => INSTANCE = none ∧ builds = 1 ∧ db = 0
  | .monitorExit | .finalRead => INSTANCE ≠ none
  | .outside | .firstRead | .monitorEnter | .secondRead => True

structure Inv (s : State τ) : Prop where
  owner : ∀ i, (s.pc i).Inside ↔ s.monitor = some i
  relies : ∀ i, (s.pc i).Relies s.INSTANCE s.builds
  null : s.INSTANCE = none → s.builds = 0 ∨ ∃ i db, s.pc i = .write db
  built : ∀ db, s.INSTANCE = some db → db = 0 ∧ s.builds = 1
  returned : ∀ r ∈ s.returned, r.2 = s.INSTANCE ∧ s.INSTANCE ≠ none

theorem inv_init : Inv (init : State τ) where
  owner i := by simp [init, PC.Inside]
  relies i := by simp [init, PC.Relies]
  null _ := Or.inl rfl
  built db hdb := by simp [init] at hdb
  returned r hr := by simp [init] at hr

/-- At most one thread is between the entry to the monitor and the exit. -/
theorem Inv.exclusive (h : Inv s) (hi : (s.pc i).Inside) (hj : (s.pc j).Inside) : i = j :=
  Option.some.inj (((h.owner i).mp hi).symm.trans ((h.owner j).mp hj))

theorem Inv.builds_le (h : Inv s) : s.builds ≤ 1 := by
  cases hinst : s.INSTANCE with
  | some db => exact Nat.le_of_eq (h.built db hinst).2
  | none =>
    rcases h.null hinst with h0 | ⟨i, db, hi⟩
    · omega
    · have hr := h.relies i
      rw [hi] at hr
      exact Nat.le_of_eq hr.2.1

section Steps

variable [DecidableEq τ]

/-- Outside the monitor a thread relies on nothing that a build or a write could undo. -/
theorem PC.Relies.mono {pc : PC} {o o' : Option ℕ} {n n' : ℕ} (h : pc.Relies o n)
    (hout : ¬ pc.Inside) (ho : o ≠ none → o' ≠ none) : pc.Relies o' n' := by
  cases pc <;> simp_all [PC.Relies, PC.Inside]

theorem step_pc (hs : Step s a t) (hj : j ≠ a.thread) : t.pc j = s.pc j := by
  cases hs <;> simp_all [Action.thread]

theorem owner_step (h : Inv s) (hs : Step s a t) (j : τ) :
    (t.pc j).Inside ↔ t.monitor = some j := by
  have hi := h.owner a.thread
  by_cases hj : j = a.thread
  · subst j
    cases hs <;> simp_all [Action.thread, PC.Inside]
  · have hj' := Ne.symm hj
    rw [step_pc hs hj, h.owner j]
    cases hs <;> simp_all [Action.thread, PC.Inside]

theorem relies_step (h : Inv s) (hs : Step s a t) (j : τ) :
    (t.pc j).Relies t.INSTANCE t.builds := by
  have hi := h.relies a.thread
  by_cases hj : j = a.thread
  · subst j
    cases hs with
    | @secondReadNull i hpc hn =>
      have hb : s.builds = 0 := by
        rcases h.null hn with hb | ⟨k, db, hk⟩
        · exact hb
        · have he : k = i := h.exclusive (by rw [hk]; trivial) (by rw [hpc]; trivial)
          rw [he, hpc] at hk
          cases hk
      simp [Action.thread, PC.Relies, hn, hb]
    | _ => simp_all [Action.thread, PC.Relies]
  · rw [step_pc hs hj]
    have hout : ∀ i, (s.pc i).Inside → i = a.thread → ¬ (s.pc j).Inside := by
      rintro i hi rfl hin
      exact hj (h.exclusive hin hi)
    cases hs with
    | @build i hpc | @write i db hpc =>
      exact (h.relies j).mono (hout i (by rw [hpc]; trivial) rfl) (by simp)
    | _ => exact h.relies j

theorem null_step (h : Inv s) (hs : Step s a t) (hn : t.INSTANCE = none) :
    t.builds = 0 ∨ ∃ i db, t.pc i = .write db := by
  cases hs with
  | @build i hpc => exact Or.inr ⟨i, s.builds, by simp⟩
  | write hpc => cases hn
  | _ =>
    refine (h.null hn).imp_right ?_
    rintro ⟨k, db, hk⟩
    refine ⟨k, db, ?_⟩
    rw [State.setPC_pc, Function.update_of_ne _ _ _, hk]
    rintro rfl
    simp_all

theorem returned_step (h : Inv s) (hs : Step s a t) :
    ∀ r ∈ t.returned, r.2 = t.INSTANCE ∧ t.INSTANCE ≠ none := by
  have hi := h.relies a.thread
  intro r hr
  cases hs with
  | @write i db hpc =>
    -- Nothing has been returned before the one write.
    have hnull := h.returned r hr
    simp_all [Action.thread, PC.Relies]
  | @finalRead i hpc =>
    rcases List.mem_append.mp hr with hr | hr
    · exact h.returned r hr
    · rw [List.mem_singleton.mp hr]
      simpa [Action.thread, hpc, PC.Relies] using hi
  | _ => exact h.returned r hr

theorem inv_step (h : Inv s) (hs : Step s a t) : Inv t where
  owner := owner_step h hs
  relies := relies_step h hs
  null := null_step h hs
  built db hdb := by
    have hi := h.relies a.thread
    cases hs with
    | write hpc | build hpc => simp_all [Action.thread, PC.Relies]
    | _ => exact h.built db hdb
  returned := returned_step h hs

theorem inv_reachable (hr : Reachable Step init s) : Inv s :=
  hr.invariant inv_init fun _ _ _ _ hs h => inv_step h hs

end Steps

end AndroidRepo.MemoApp.Database
