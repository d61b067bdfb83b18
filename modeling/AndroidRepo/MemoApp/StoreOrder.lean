import AndroidRepo.MemoApp.StoreSafety

/-! The order in which the memo list is shown: the order in which inserts reach the database,
and not the order of the clicks. -/
namespace AndroidRepo.MemoApp.Store

open Transition TaskPool

variable {s t : State} {a : Action} {as : List Action}

/-- Rows that stand in the order of their ids are listed from the last to the first. -/
theorem Table.Ordered.getAllMemos {t : Table} (h : t.Ordered) :
    MemoDao.getAllMemos t = t.rows.reverse := by
  have hsorted : (MemoDao.getAllMemos t).Pairwise fun m m' => decide (m'.id ≤ m.id) :=
    List.pairwise_mergeSort (by simp only [decide_eq_true_eq]; intros; omega)
      (by simp only [Bool.or_eq_true, decide_eq_true_eq]; intros; omega) _
  have hreverse : t.rows.reverse.Pairwise fun m m' => decide (m'.id ≤ m.id) :=
    List.pairwise_reverse.mpr (h.pairwise.imp fun hlt => by simpa using Int.le_of_lt hlt)
  refine List.Perm.eq_of_pairwise ?_ hsorted hreverse
    ((List.mergeSort_perm _ _).trans (List.reverse_perm _).symm)
  intro m m' hm hm' hle hge
  simp only [decide_eq_true_eq] at hle hge
  exact List.inj_on_of_nodup_map h.nodup (List.mem_mergeSort.mp hm) (List.mem_reverse.mp hm')
    (Int.le_antisymm hge hle)

/-- A thread picks up an insert only when no thread holds one. -/
def TurnStep (s : State) (a : Action) (t : State) : Prop :=
  Step s a t ∧ ∀ w, a = .take w → ∀ v, s.databaseWriteExecutor.running v = none

theorem pool_turn (hs : TurnStep s a t) :
    Run TaskPool.TurnStep s.databaseWriteExecutor a.events t.databaseWriteExecutor := by
  obtain ⟨hs, hturn⟩ := hs
  cases hs with
  | save => exact pool_submits _ s
  | @take w p hp =>
    refine .single ⟨hp, fun v hv => hturn v ?_⟩
    cases hv
    rfl
  | insert hp _ => exact .single ⟨hp, nofun⟩

theorem pool_turns (hr : Run TurnStep s as t) :
    Run TaskPool.TurnStep s.databaseWriteExecutor (as.flatMap Action.events)
      t.databaseWriteExecutor :=
  hr.refines (f := State.databaseWriteExecutor) fun _ _ _ => pool_turn

/-- Inserts that are picked up in turns run in the order of the clicks. -/
theorem ran_eq_saved (hr : Run TurnStep init as s) (hidle : s.databaseWriteExecutor.Idle) :
    ran as = saved as := by
  rw [← submitted_events, ← finished_events]
  exact (in_order_idle (pool_turns hr) hidle).symm

theorem getAllMemos_typed (hr : Run Step init as s) :
    (MemoDao.getAllMemos s.table).map Memo.typed = ((ran as).map Memo.typed).reverse := by
  have h := records_run hr
  rw [h.ordered.getAllMemos, List.map_reverse, h.typed]

/-- Two clicks whose inserts are in the hands of two threads may be listed in click order. -/
theorem click_order_lost :
    ¬ ∀ (as : List Action) (s : State), Run Step init as s →
      (∀ title content, .save title content ∈ as → title ≠ "") →
      s.databaseWriteExecutor.Idle →
      (MemoDao.getAllMemos s.table).map Memo.typed = (saveClicks as).reverse := by
  intro h
  obtain ⟨s, hrun, hidle, -⟩ := overtaking_run
  have htitles : ∀ title content, Action.save title content ∈ [.save "first" "",
      .save "second" "", .take 0, .take 1, .insert 1 (Memo.new "second" "") 1,
      .insert 0 (Memo.new "first" "") 2] → title ≠ "" := by
    rintro title content hm rfl
    simp at hm
  have hclicks := h _ s hrun htitles hidle
  rw [getAllMemos_typed hrun] at hclicks
  revert hclicks
  decide

/-- The list shows each Save click once, the last insert to reach the database first; it is the
reverse of the click order when the threads pick up inserts in turns. -/
theorem newest_insert_first (hr : Run Step init as s) (hidle : s.databaseWriteExecutor.Idle) :
    (MemoDao.getAllMemos s.table).map Memo.typed = ((ran as).map Memo.typed).reverse ∧
    ((ran as).map Memo.typed).Perm (saveClicks as) ∧
    (Run TurnStep init as s →
      (MemoDao.getAllMemos s.table).map Memo.typed = (saveClicks as).reverse) := by
  refine ⟨getAllMemos_typed hr, ?_, ?_⟩
  · rw [← typed_saved]
    exact (ran_perm hr hidle).map _
  · intro hturns
    rw [getAllMemos_typed hr, ran_eq_saved hturns hidle, typed_saved]

/-- Two clicks whose inserts are picked up in turns. -/
theorem newest_insert_first_turns :
    ∃ s, Run TurnStep init [.save "first" "", .save "second" "", .take 0,
        .insert 0 (Memo.new "first" "") 1, .take 1, .insert 1 (Memo.new "second" "") 2] s ∧
      (MemoDao.getAllMemos s.table).map Memo.typed = [("second", ""), ("first", "")] := by
  have hrun : ∃ s, Run TurnStep init [.save "first" "", .save "second" "", .take 0,
      .insert 0 (Memo.new "first" "") 1, .take 1, .insert 1 (Memo.new "second" "") 2] s ∧
      s.databaseWriteExecutor.Idle :=
    ⟨_, .cons ⟨.save, nofun⟩ <| .cons ⟨.save, nofun⟩ <| .cons ⟨.take (.take rfl rfl), by decide⟩ <|
      .cons ⟨.insert (.finish rfl) (by decide), nofun⟩ <|
      .cons ⟨.take (.take rfl rfl), by decide⟩ <|
      .single ⟨.insert (.finish rfl) (by decide), nofun⟩, rfl, by decide⟩
  obtain ⟨s, hrun, hidle⟩ := hrun
  exact ⟨s, hrun, (newest_insert_first (hrun.imp fun _ _ _ h => h.1) hidle).2.2 hrun⟩

end AndroidRepo.MemoApp.Store
