import AndroidRepo.MemoApp.Singleton

/-! A call of `getDatabase` always comes to its end: the owner of the monitor is never blocked,
and once it has left, nobody else is in the way. -/
namespace AndroidRepo.MemoApp.Database

open Transition

variable {τ : Type} [DecidableEq τ] {s t : State τ} {a : Action τ} {i j : τ}

/-- The number of steps that a call has before it, at most. -/
def PC.distance : PC → ℕ
  | .outside => 0
  | .finalRead | .unwind => 1
  | .monitorExit => 2
  | .write _ => 3
  | .build => 4
  | .secondRead => 5
  | .monitorEnter => 6
  | .firstRead => 7

theorem can_move (hpc : s.pc i ≠ .outside) (hm : s.pc i = .monitorEnter → s.monitor = none) :
    ∃ t, Step s (.move i) t := by
  cases hi : s.pc i with
  | outside => exact absurd hi hpc
  | firstRead =>
    cases hn : s.INSTANCE with
    | none => exact ⟨_, .firstReadNull hi hn⟩
    | some db => exact ⟨_, .firstRead hi hn⟩
  | monitorEnter => exact ⟨_, .monitorEnter hi (hm hi)⟩
  | secondRead =>
    cases hn : s.INSTANCE with
    | none => exact ⟨_, .secondReadNull hi hn⟩
    | some db => exact ⟨_, .secondRead hi hn⟩
  | build => exact ⟨_, .build hi⟩
  | write db => exact ⟨_, .write hi⟩
  | monitorExit => exact ⟨_, .monitorExit hi⟩
  | unwind => exact ⟨_, .unwind hi⟩
  | finalRead => exact ⟨_, .finalRead hi⟩

theorem move_distance (hs : Step s (.move i) t) : (t.pc i).distance < (s.pc i).distance := by
  cases hs <;> simp_all [PC.distance]

theorem move_monitor (hs : Step s (.move i) t) (hm : s.monitor = none ∨ s.monitor = some i) :
    t.monitor = none ∨ t.monitor = some i := by
  cases hs <;> simp_all

/-- A move that neither returns nor ends an unwinding goes on with the call. -/
theorem move_continues (hs : Step s (.move i) t) (hret : s.pc i ≠ .finalRead)
    (hunwind : s.pc i ≠ .unwind) :
    t.pc i ≠ .outside ∧ t.pc i ≠ .unwind ∧ t.returned = s.returned := by
  cases hs <;> simp_all

omit [DecidableEq τ] in
theorem Inv.monitor_free (h : Inv s) (hm : s.monitor = none ∨ s.monitor = some i)
    (hpc : ¬ (s.pc i).Inside) : s.monitor = none :=
  hm.resolve_right fun hown => hpc ((h.owner i).mpr hown)

/-- A thread that the monitor does not keep out ends its call alone. -/
theorem Inv.finish (h : Inv s) (hm : s.monitor = none ∨ s.monitor = some i) :
    ∃ as t, Run Step s as t ∧ (∀ a ∈ as, a = .move i) ∧ t.monitor = none ∧
      (∀ j, j ≠ i → t.pc j = s.pc j) ∧ (s.pc i ≠ .outside → s.pc i ≠ .unwind →
        t.pc i = .outside ∧
        ∃ db, t.INSTANCE = some db ∧ t.returned = s.returned ++ [(i, some db)]) := by
  induction hd : (s.pc i).distance using Nat.strongRecOn generalizing s with
  | ind d ih =>
    by_cases hout : s.pc i = .outside
    · exact ⟨[], s, .nil s, by simp, h.monitor_free hm (by simp [hout, PC.Inside]),
        fun _ _ => rfl, fun hne => absurd hout hne⟩
    by_cases hlast : s.pc i = .finalRead
    · have hr := h.relies i
      rw [hlast] at hr
      obtain ⟨db, hdb⟩ := Option.ne_none_iff_exists'.mp hr
      have hs := Step.finalRead hlast
      exact ⟨_, _, .single hs, by simp, h.monitor_free hm (by simp [hlast, PC.Inside]),
        fun j hj => step_pc hs hj, fun _ _ => ⟨by simp, db, hdb, by simp [hdb]⟩⟩
    obtain ⟨t, hs⟩ := can_move hout fun hpc => h.monitor_free hm (by simp [hpc, PC.Inside])
    obtain ⟨as, u, hrun, hmoves, hmu, hothers, hret⟩ :=
      ih _ (hd ▸ move_distance hs) (inv_step h hs) (move_monitor hs hm) rfl
    refine ⟨.move i :: as, u, .cons hs hrun, by simpa using hmoves, hmu, ?_, ?_⟩
    · intro j hj
      rw [hothers j hj, step_pc hs hj]
    · intro _ hunwind
      obtain ⟨htpc, htunwind, hsame⟩ := move_continues hs hlast hunwind
      rw [← hsame]
      exact hret htpc htunwind

/-- The monitor can always be freed, at no cost to the threads outside it. -/
theorem Inv.release (h : Inv s) (i : τ) :
    ∃ as t, Run Step s as t ∧ (∀ a ∈ as, ∃ j, a = .move j) ∧
      (t.monitor = none ∨ t.monitor = some i) ∧ t.pc i = s.pc i := by
  by_cases hm : s.monitor = none ∨ s.monitor = some i
  · exact ⟨[], s, .nil s, by simp, hm, rfl⟩
  · obtain ⟨hnone, hne⟩ := not_or.mp hm
    obtain ⟨j, hj⟩ := Option.ne_none_iff_exists'.mp hnone
    have hij : i ≠ j := by
      rintro rfl
      exact hne hj
    obtain ⟨as, t, hrun, hmoves, hmt, hothers, -⟩ := h.finish (Or.inr hj)
    exact ⟨as, t, hrun, fun a ha => ⟨j, hmoves a ha⟩, Or.inl hmt, hothers i hij⟩

theorem inv_run {as : List (Action τ)} (hr : Run Step s as t) (h : Inv s) : Inv t :=
  hr.relates (R := fun s t => Inv s → Inv t) (fun _ h => h)
    (fun _ _ _ hst htu h => htu (hst h)) (fun _ _ _ hs h => inv_step h hs) h

/-- A call that has not met an exception can still return, without a further call. -/
theorem Inv.returns (h : Inv s) (hpc : s.pc i ≠ .outside) (hunwind : s.pc i ≠ .unwind) :
    ∃ as t db, Run Step s as t ∧ (∀ a ∈ as, ∃ j, a = .move j) ∧ t.INSTANCE = some db ∧
      t.returned.getLast? = some (i, some db) := by
  obtain ⟨as, t, hrun, hmoves, hm, hti⟩ := h.release i
  obtain ⟨bs, u, hrun', hmoves', -, -, hret⟩ := (inv_run hrun h).finish hm
  obtain ⟨-, db, hdb, hlist⟩ := hret (hti ▸ hpc) (hti ▸ hunwind)
  refine ⟨as ++ bs, u, db, hrun.append hrun', ?_, hdb, by simp [hlist]⟩
  intro a ha
  rcases List.mem_append.mp ha with ha | ha
  · exact hmoves a ha
  · exact ⟨i, hmoves' a ha⟩

/-- A thread in a call that is not unwinding, or one that starts a call, gets the instance. -/
theorem Inv.obtains (h : Inv s) (hunwind : s.pc i ≠ .unwind) :
    ∃ as t db, Run Step s as t ∧ (∀ a ∈ as, a = .call i ∨ ∃ j, a = .move j) ∧
      t.INSTANCE = some db ∧ t.returned.getLast? = some (i, some db) := by
  by_cases hpc : s.pc i = .outside
  · have hs := Step.call hpc
    obtain ⟨as, t, db, hrun, hmoves, hlast⟩ :=
      (inv_step h hs).returns (i := i) (by simp) (by simp)
    refine ⟨.call i :: as, t, db, .cons hs hrun, ?_, hlast⟩
    intro a ha
    rcases List.mem_cons.mp ha with rfl | ha
    · exact Or.inl rfl
    · exact Or.inr (hmoves a ha)
  · obtain ⟨as, t, db, hrun, hmoves, hlast⟩ := h.returns hpc hunwind
    exact ⟨as, t, db, hrun, fun a ha => Or.inr (hmoves a ha), hlast⟩

/-- The builder completes at most once, every call returns the one instance, and a builder that
throws leaves everything as it was: the monitor is freed, and later calls get an instance. -/
theorem one_instance (hr : Reachable Step init s) :
    s.builds ≤ 1 ∧ (∀ r ∈ s.returned, r.2 = s.INSTANCE ∧ s.INSTANCE ≠ none) ∧
    (∀ i, s.pc i = .unwind → s.INSTANCE = none ∧
      ∃ t, Step s (.move i) t ∧ t.INSTANCE = none ∧ t.monitor = none) ∧
    ∀ i, s.pc i ≠ .unwind → ∃ as t db, Run Step s as t ∧
      (∀ a ∈ as, a = .call i ∨ ∃ j, a = .move j) ∧ t.INSTANCE = some db ∧
      t.returned.getLast? = some (i, some db) := by
  have h := inv_reachable hr
  refine ⟨h.builds_le, h.returned, ?_, fun i hi => h.obtains hi⟩
  intro i hi
  have hnull := h.relies i
  rw [hi] at hnull
  exact ⟨hnull.1, _, .unwind hi, hnull.1, rfl⟩

/-- The builder has thrown in one of two threads. -/
theorem one_instance_after_throw :
    ∃ s : State Bool,
      Run Step init [.call false, .move false, .move false, .move false, .throws false] s ∧
      s.pc false = .unwind ∧ s.INSTANCE = none ∧
      ∃ as t db, Run Step s as t ∧ (∀ a ∈ as, a = .call true ∨ ∃ j, a = .move j) ∧
        t.INSTANCE = some db ∧ t.returned.getLast? = some (true, some db) := by
  have hrun : ∃ s : State Bool, Run Step init [.call false, .move false, .move false, .move false,
      .throws false] s ∧ s.pc false = .unwind ∧ s.pc true = .outside :=
    ⟨_, .cons (.call rfl) <| .cons (.firstReadNull rfl rfl) <| .cons (.monitorEnter rfl rfl) <|
      .cons (.secondReadNull rfl rfl) <| .single (.buildThrows rfl), rfl, rfl⟩
  obtain ⟨s, hrun, hunwind, hout⟩ := hrun
  obtain ⟨-, -, hthrown, hlater⟩ := one_instance hrun.reachable
  exact ⟨s, hrun, hunwind, (hthrown false hunwind).1, hlater true (by rw [hout]; decide)⟩

end AndroidRepo.MemoApp.Database
