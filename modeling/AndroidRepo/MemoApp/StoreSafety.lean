import AndroidRepo.MemoApp.Store

/-! The executor as a task pool, and what its inserts make of the table: rows are only ever
added, in the order in which the inserts run. -/
namespace AndroidRepo.MemoApp.Store

open Transition TaskPool

variable {s t : State} {a : Action} {as : List Action} {memo : Memo} {generated : Int}

/-- What an action is to the executor. -/
def Action.events : Action → List (Event (Fin NUMBER_OF_THREADS) Memo)
  | .save title content => (inserts (AddFragment.onClick title content)).map .submit
  | .take w => [.take w]
  | .insert w memo _ => [.finish w memo]

theorem pool_submits (memos : List Memo) (s : State) :
    Run TaskPool.TurnStep s.databaseWriteExecutor (memos.map .submit)
      (memos.foldl State.insert s).databaseWriteExecutor := by
  induction memos generalizing s with
  | nil => exact .nil _
  | cons memo memos ih => exact .cons ⟨.submit, nofun⟩ (ih (s.insert memo))

theorem table_submits (memos : List Memo) (s : State) :
    (memos.foldl State.insert s).table = s.table := by
  induction memos generalizing s with
  | nil => rfl
  | cons memo memos ih => exact ih (s.insert memo)

theorem pool_step (hs : Step s a t) :
    Run TaskPool.Step s.databaseWriteExecutor a.events t.databaseWriteExecutor := by
  cases hs with
  | save => exact (pool_submits _ s).imp fun _ _ _ h => h.1
  | take hp => exact .single hp
  | insert hp _ => exact .single hp

/-- Every run of the app is a run of its executor. -/
theorem pool_run (hr : Run Step s as t) :
    Run TaskPool.Step s.databaseWriteExecutor (as.flatMap Action.events)
      t.databaseWriteExecutor :=
  hr.refines (f := State.databaseWriteExecutor) fun _ _ _ => pool_step

theorem submitted_events (as : List Action) : submitted (as.flatMap Action.events) = saved as := by
  induction as with
  | nil => rfl
  | cons a as ih =>
    rw [List.flatMap_cons, submitted_append, ih, saved, saved, List.flatMap_cons]
    congr 1
    cases a <;> simp [Action.events, submitted, List.filterMap_map]

theorem finished_events (as : List Action) : finished (as.flatMap Action.events) = ran as := by
  induction as with
  | nil => rfl
  | cons a as ih =>
    rw [List.flatMap_cons, finished_append, ih]
    cases a <;> simp [Action.events, finished, ran, List.filterMap_map]

/-- No insert is lost or run twice. -/
theorem saved_eq (hr : Run Step init as s) :
    (↑(saved as) : Multiset Memo) = ↑(ran as) + s.databaseWriteExecutor.pending := by
  rw [← submitted_events, ← finished_events]
  exact conserved (pool_run hr)

/-- An idle executor has run them all. -/
theorem ran_perm (hr : Run Step init as s) (hidle : s.databaseWriteExecutor.Idle) :
    (ran as).Perm (saved as) := by
  have hsaved := saved_eq hr
  rw [hidle.pending, add_zero] at hsaved
  exact (Multiset.coe_eq_coe.mp hsaved).symm

theorem mem_saved (hm : memo ∈ saved as) : memo.id = 0 ∧ memo.title ≠ "" := by
  obtain ⟨a, -, hm⟩ := List.mem_flatMap.mp hm
  cases a with
  | save title content =>
    obtain ⟨rfl, hne⟩ := mem_inserts_onClick hm
    exact ⟨rfl, hne⟩
  | take w | insert w memo generated => simp at hm

theorem mem_ran (hr : Run Step init as s) (hm : memo ∈ ran as) : memo ∈ saved as := by
  rw [← Multiset.mem_coe, saved_eq hr]
  exact Multiset.mem_add.mpr (Or.inl (Multiset.mem_coe.mpr hm))

/-- What the user has typed at each Save click with a title, in click order. -/
def saveClicks (as : List Action) : List (String × String) :=
  as.filterMap fun
    | .save title content => if title = "" then none else some (title, content)
    | _ => none

theorem typed_saved (as : List Action) : (saved as).map Memo.typed = saveClicks as := by
  induction as with
  | nil => rfl
  | cons a as ih =>
    rw [saved, List.flatMap_cons, List.map_append, ← saved, ih]
    cases a with
    | save title content =>
      by_cases ht : title = ""
      · simp [saveClicks, AddFragment.onClick, inserts, ht]
      · simp [saveClicks, AddFragment.onClick, inserts, ht, Memo.new, Memo.typed]
    | take w | insert w memo generated => rfl

/-! The table. -/

/-- Rows stand in the order of their ids, and no id is beyond the last one used. -/
structure Table.Ordered (t : Table) : Prop where
  pairwise : t.rows.Pairwise fun m m' => m.id < m'.id
  le_lastId : ∀ m ∈ t.rows, m.id ≤ t.lastId

theorem Table.Ordered.nodup {t : Table} (h : t.Ordered) : (t.rows.map Memo.id).Nodup :=
  (List.pairwise_map.mpr h.pairwise).imp Int.ne_of_lt

/-- A memo with an unset id becomes a new last row: there is nothing to replace. -/
theorem Table.Ordered.insert {t : Table} (h : t.Ordered) (hid : memo.id = 0)
    (hgen : t.lastId < generated) :
    MemoDao.insert t memo generated =
      ⟨t.rows ++ [{ memo with id := generated }], generated⟩ := by
  have hkeep : t.rows.filter (·.id ≠ generated) = t.rows := by
    rw [List.filter_eq_self]
    intro m hm
    have hle := h.le_lastId m hm
    simp only [ne_eq, decide_not, Bool.not_eq_true', decide_eq_false_iff_not]
    omega
  simp only [MemoDao.insert, hid, if_true, hkeep, Table.mk.injEq, true_and]
  omega

theorem Table.Ordered.append {t : Table} (h : t.Ordered) (hgen : t.lastId < generated) :
    Table.Ordered ⟨t.rows ++ [{ memo with id := generated }], generated⟩ where
  pairwise := by
    refine List.pairwise_append.mpr ⟨h.pairwise, by simp, ?_⟩
    intro m hm m' hm'
    rw [List.mem_singleton.mp hm']
    exact Int.lt_of_le_of_lt (h.le_lastId m hm) hgen
  le_lastId m hm := by
    rcases List.mem_append.mp hm with hm | hm
    · exact Int.le_of_lt (Int.lt_of_le_of_lt (h.le_lastId m hm) hgen)
    · rw [List.mem_singleton.mp hm]

/-- What a run has made of the table. -/
structure Records (as : List Action) (t : Table) : Prop where
  ordered : t.Ordered
  typed : t.rows.map Memo.typed = (ran as).map Memo.typed
  titled : ∀ m ∈ t.rows, m.title ≠ ""

theorem ran_append (as bs : List Action) : ran (as ++ bs) = ran as ++ ran bs :=
  List.filterMap_append

/-- A step leaves the table alone, or runs one insert, which adds one row. -/
theorem table_step (hr : Run Step init as s) (hs : Step s a t) (h : s.table.Ordered) :
    (ran [a] = [] ∧ t.table = s.table) ∨
    ∃ memo generated, ran [a] = [memo] ∧ memo.title ≠ "" ∧ s.table.lastId < generated ∧
      t.table = ⟨s.table.rows ++ [{ memo with id := generated }], generated⟩ := by
  have hr' := hr.snoc hs
  cases hs with
  | save => exact Or.inl ⟨rfl, table_submits _ s⟩
  | take hp => exact Or.inl ⟨rfl, rfl⟩
  | @insert w memo generated p hp hgen =>
    have hm : memo ∈ ran (as ++ [.insert w memo generated]) := by simp [ran]
    obtain ⟨hid, htitle⟩ := mem_saved (mem_ran hr' hm)
    exact Or.inr ⟨memo, generated, rfl, htitle, hgen, h.insert hid hgen⟩

theorem records_init : Records [] init.table where
  ordered := ⟨.nil, by simp [init]⟩
  typed := rfl
  titled := by simp [init]

theorem records_run (hr : Run Step init as s) : Records as s.table := by
  refine hr.snoc_induction (P := fun as s => Records as s.table) records_init ?_
  intro as s a t hr hs h
  rcases table_step hr hs h.ordered with ⟨hran, ht⟩ | ⟨memo, generated, hran, htitle, hgen, ht⟩
  · refine ht ▸ ⟨h.ordered, ?_, h.titled⟩
    rw [ran_append, hran, List.append_nil, h.typed]
  · refine ht ▸ ⟨h.ordered.append hgen, ?_, ?_⟩
    · rw [ran_append, hran, List.map_append, List.map_append, h.typed]
      rfl
    · intro m hm
      rcases List.mem_append.mp hm with hm | hm
      · exact h.titled m hm
      · rw [List.mem_singleton.mp hm]
        exact htitle

/-- Rows that have been written stay as they are. -/
theorem rows_prefix {bs : List Action} (hr : Run Step init as s) (hrun : Run Step s bs t) :
    s.table.rows <+: t.table.rows := by
  refine hrun.snoc_induction (P := fun _ t => s.table.rows <+: t.table.rows) List.prefix_rfl ?_
  intro bs t a u hrun hs h
  have hr' := hr.append hrun
  rcases table_step hr' hs (records_run hr').ordered with ⟨-, hu⟩ | ⟨memo, generated, -, -, -, hu⟩
  · rwa [hu]
  · rw [hu]
    exact h.trans (List.prefix_append _ _)

/-- The table holds one row for each insert that has run, as it was typed, with distinct ids,
never replaced and never without a title; together with the inserts that are still pending these
are the Save clicks, and when the executor is idle they are the Save clicks. -/
theorem no_memo_lost (hr : Run Step init as s) :
    s.table.rows.map Memo.typed = (ran as).map Memo.typed ∧
    (s.table.rows.map Memo.id).Nodup ∧
    (∀ bs t, Run Step s bs t → s.table.rows <+: t.table.rows) ∧
    (∀ memo ∈ s.table.rows, memo.title ≠ "") ∧
    (↑(saveClicks as) : Multiset (String × String)) =
      ↑(s.table.rows.map Memo.typed) + s.databaseWriteExecutor.pending.map Memo.typed ∧
    (s.databaseWriteExecutor.Idle → (s.table.rows.map Memo.typed).Perm (saveClicks as)) := by
  have h := records_run hr
  have hcount : (↑(saveClicks as) : Multiset (String × String)) =
      ↑(s.table.rows.map Memo.typed) + s.databaseWriteExecutor.pending.map Memo.typed := by
    rw [← typed_saved, h.typed, ← Multiset.map_coe, ← Multiset.map_coe, saved_eq hr,
      Multiset.map_add]
  refine ⟨h.typed, h.ordered.nodup, fun bs t => rows_prefix hr, h.titled, hcount, ?_⟩
  intro hidle
  rw [h.typed, ← typed_saved]
  exact (ran_perm hr hidle).map _

/-- Two inserts in the hands of two threads, and the later one is the first to run. -/
theorem overtaking_run : ∃ s, Run Step init [.save "first" "", .save "second" "", .take 0, .take 1,
      .insert 1 (Memo.new "second" "") 1, .insert 0 (Memo.new "first" "") 2] s ∧
      s.databaseWriteExecutor.Idle ∧ s.table.rows = [⟨1, "second", ""⟩, ⟨2, "first", ""⟩] :=
  ⟨_, .cons .save <| .cons .save <| .cons (.take (.take rfl rfl)) <|
    .cons (.take (.take rfl rfl)) <| .cons (.insert (.finish rfl) (by decide)) <|
    .single (.insert (.finish rfl) (by decide)), ⟨rfl, by decide⟩, by decide⟩

theorem no_memo_lost_overtaking :
    ∃ s, Run Step init [.save "first" "", .save "second" "", .take 0, .take 1,
        .insert 1 (Memo.new "second" "") 1, .insert 0 (Memo.new "first" "") 2] s ∧
      s.table.rows = [⟨1, "second", ""⟩, ⟨2, "first", ""⟩] ∧
      (s.table.rows.map Memo.id).Nodup ∧
      (s.table.rows.map Memo.typed).Perm [("first", ""), ("second", "")] := by
  obtain ⟨s, hrun, hidle, hrows⟩ := overtaking_run
  obtain ⟨-, hnodup, -, -, -, hall⟩ := no_memo_lost hrun
  exact ⟨s, hrun, hrows, hnodup, hall hidle⟩

end AndroidRepo.MemoApp.Store
