import AndroidRepo.MemoApp.StoreOrder
import AndroidRepo.TaskOrder

/-! Which orders of the memos the list can show: the threads of the executor let an insert overtake
those that were clicked shortly before it, and no others. -/
namespace AndroidRepo.MemoApp.Store

open Transition TaskPool

variable {s t : State} {as : List Action} {clicks : List (String × String)}

/-- A run of the executor, without new inserts, is one of the store. -/
theorem store_of_pool {p q : Pool (Fin NUMBER_OF_THREADS) Memo}
    {es : List (Event (Fin NUMBER_OF_THREADS) Memo)} (hr : Run TaskPool.Step p es q)
    (hsub : submitted es = []) (hp : s.databaseWriteExecutor = p) :
    ∃ as t, Run Step s as t ∧ t.databaseWriteExecutor = q ∧ saveClicks as = [] ∧
      ran as = finished es := by
  induction hr generalizing s with
  | nil p => exact ⟨[], s, .nil s, hp, rfl, rfl⟩
  | @cons p p' q e es hs _ ih =>
    subst p
    cases hs with
    | submit => simp [submitted] at hsub
    | @take w x xs hw hq =>
      obtain ⟨as, t, hrun, ht, hclicks, hran⟩ := ih hsub
        (s := { s with databaseWriteExecutor := _ }) rfl
      exact ⟨.take w :: as, t, .cons (.take (.take hw hq)) hrun, ht, hclicks, hran⟩
    | @finish w x hw =>
      have hgen : s.table.lastId < s.table.lastId + 1 := Int.lt_succ _
      obtain ⟨as, t, hrun, ht, hclicks, hran⟩ := ih hsub
        (s := ⟨_, MemoDao.insert s.table x (s.table.lastId + 1)⟩) rfl
      refine ⟨.insert w x (s.table.lastId + 1) :: as, t, .cons (.insert (.finish hw) hgen) hrun, ht,
        hclicks, ?_⟩
      simpa [ran, finished] using hran

/-- The clicks alone. -/
def clicking (clicks : List (String × String)) : List Action :=
  clicks.map fun click => .save click.1 click.2

theorem clicking_run (clicks : List (String × String)) (s : State) :
    ∃ t, Run Step s (clicking clicks) t := by
  induction clicks generalizing s with
  | nil => exact ⟨s, .nil s⟩
  | cons click clicks ih =>
    obtain ⟨t, ht⟩ := ih ((inserts (AddFragment.onClick click.1 click.2)).foldl State.insert s)
    exact ⟨t, .cons .save ht⟩

theorem ran_clicking (clicks : List (String × String)) : ran (clicking clicks) = [] := by
  simp [ran, clicking, List.filterMap_map]

theorem saveClicks_clicking (htitles : ∀ click ∈ clicks, click.1 ≠ "") :
    saveClicks (clicking clicks) = clicks := by
  induction clicks with
  | nil => rfl
  | cons click clicks ih =>
    obtain ⟨hclick, hclicks⟩ := List.forall_mem_cons.mp htitles
    have hrest := ih hclicks
    simp_all [saveClicks, clicking]

/-- The texts of tasks with these numbers. -/
theorem typed_order {memos memos' : List Memo} {order : List ℕ}
    (h : memos.map some = order.map fun i => memos'[i]?) :
    (memos.map Memo.typed).map some = order.map fun i => (memos'.map Memo.typed)[i]? := by
  have htyped := congrArg (List.map (Option.map Memo.typed)) h
  simpa [List.map_map, Function.comp_def] using htyped

/-- The rows of a run, by the numbers of their clicks. -/
theorem exists_order (hr : Run Step init as s) : ∃ order : List ℕ,
    Overtaking NUMBER_OF_THREADS order ∧ (∀ i ∈ order, i < (saveClicks as).length) ∧
    ((ran as).map Memo.typed).map some = order.map (fun i => (saveClicks as)[i]?) ∧
    (s.databaseWriteExecutor.Idle ↔ order.length = (saveClicks as).length) := by
  obtain ⟨order, number, taken, h⟩ := numbered_run (pool_run hr)
  rw [submitted_events, finished_events] at h
  have hlen : (saveClicks as).length = (saved as).length := by rw [← typed_saved, List.length_map]
  have hover := h.overtaking
  rw [Fintype.card_fin] at hover
  refine ⟨order, hover, ?_, ?_, ?_⟩
  · intro i hi
    rw [hlen]
    exact h.lt_length hi
  · rw [← typed_saved]
    exact typed_order h.done
  · rw [hlen]
    exact h.idle_iff

/-- The threads can bring any such order about once all clicks have been made. -/
theorem exists_run {order : List ℕ} (htitles : ∀ click ∈ clicks, click.1 ≠ "")
    (hover : Overtaking NUMBER_OF_THREADS order) (hlt : ∀ i ∈ order, i < clicks.length) :
    ∃ as s, Run Step init as s ∧ saveClicks as = clicks ∧
      ((ran as).map Memo.typed).map some = order.map (fun i => clicks[i]?) ∧
      (s.databaseWriteExecutor.Idle ↔ order.length = clicks.length) := by
  obtain ⟨s, hclicking⟩ := clicking_run clicks init
  have hclicks := saveClicks_clicking htitles
  obtain ⟨start, number, taken, h⟩ := numbered_run (pool_run hclicking)
  rw [submitted_events, finished_events, ran_clicking] at h
  obtain rfl : start = [] := List.map_eq_nil_iff.mp h.done.symm
  have htyped : (saved (clicking clicks)).map Memo.typed = clicks := by rw [typed_saved, hclicks]
  have hlen : (saved (clicking clicks)).length = clicks.length := by
    rw [← List.length_map (f := Memo.typed), htyped]
  obtain ⟨es, q, number', taken', hrun, hsub, hnum⟩ := h.exists_order
    (by rwa [Fintype.card_fin]) (by rwa [hlen])
  obtain ⟨as, t, hstore, ht, hnone, hran⟩ := store_of_pool hrun hsub rfl
  refine ⟨clicking clicks ++ as, t, hclicking.append hstore, ?_, ?_, ?_⟩
  · rw [saveClicks, List.filterMap_append, ← saveClicks, ← saveClicks, hclicks, hnone,
      List.append_nil]
  · have horder := typed_order hnum.done
    rwa [htyped, List.nil_append, ← hran, ← List.nil_append (ran as), ← ran_clicking clicks,
      ← ran_append] at horder
  · rw [ht, hnum.idle_iff, hlen, List.nil_append]

theorem perm_range {order : List ℕ} {n : ℕ} (hnodup : order.Nodup) (hlt : ∀ i ∈ order, i < n)
    (hlen : order.length = n) : order.Perm (List.range n) := by
  have hsub : order.Subperm (List.range n) :=
    List.subperm_of_subset hnodup fun i hi => List.mem_range.mpr (hlt i hi)
  exact hsub.perm_of_length_le (by rw [List.length_range, hlen])

/-- The lists that can be shown after these clicks, the oldest row last: a memo stands less than
`NUMBER_OF_THREADS` places below the one that its click would give it, and as far above as it may
be. Once the executor is idle no click is missing. -/
theorem listing_orders (htitles : ∀ click ∈ clicks, click.1 ≠ "")
    (shown : List (String × String)) :
    ((∃ as s, Run Step init as s ∧ saveClicks as = clicks ∧
        (MemoDao.getAllMemos s.table).map Memo.typed = shown) ↔
      ∃ order, Overtaking NUMBER_OF_THREADS order ∧ (∀ i ∈ order, i < clicks.length) ∧
        shown.reverse.map some = order.map fun i => clicks[i]?) ∧
    ((∃ as s, Run Step init as s ∧ saveClicks as = clicks ∧ s.databaseWriteExecutor.Idle ∧
        (MemoDao.getAllMemos s.table).map Memo.typed = shown) ↔
      ∃ order, Overtaking NUMBER_OF_THREADS order ∧ order.Perm (List.range clicks.length) ∧
        shown.reverse.map some = order.map fun i => clicks[i]?) := by
  refine ⟨⟨?_, ?_⟩, ⟨?_, ?_⟩⟩
  · rintro ⟨as, s, hr, rfl, rfl⟩
    obtain ⟨order, hover, hlt, horder, -⟩ := exists_order hr
    rw [getAllMemos_typed hr, List.reverse_reverse]
    exact ⟨order, hover, hlt, horder⟩
  · rintro ⟨order, hover, hlt, horder⟩
    obtain ⟨as, s, hr, hclicks, hran, -⟩ := exists_run htitles hover hlt
    refine ⟨as, s, hr, hclicks, ?_⟩
    rw [getAllMemos_typed hr, List.reverse_eq_iff]
    exact List.map_injective_iff.mpr (Option.some_injective _) (hran.trans horder.symm)
  · rintro ⟨as, s, hr, rfl, hidle, rfl⟩
    obtain ⟨order, hover, hlt, horder, hall⟩ := exists_order hr
    rw [getAllMemos_typed hr, List.reverse_reverse]
    exact ⟨order, hover, perm_range hover.nodup hlt (hall.mp hidle), horder⟩
  · rintro ⟨order, hover, hperm, horder⟩
    have hlt : ∀ i ∈ order, i < clicks.length := fun i hi =>
      List.mem_range.mp (hperm.mem_iff.mp hi)
    obtain ⟨as, s, hr, hclicks, hran, hall⟩ := exists_run htitles hover hlt
    refine ⟨as, s, hr, hclicks, hall.mpr ?_, ?_⟩
    · rw [hperm.length_eq, List.length_range]
    · rw [getAllMemos_typed hr, List.reverse_eq_iff]
      exact List.map_injective_iff.mpr (Option.some_injective _) (hran.trans horder.symm)

/-- Of five memos the fourth can reach the table first, and the fifth cannot. -/
theorem listing_orders_five :
    let clicks := [("a", ""), ("b", ""), ("c", ""), ("d", ""), ("e", "")]
    (∃ as s, Run Step init as s ∧ saveClicks as = clicks ∧
      (MemoDao.getAllMemos s.table).map Memo.typed = [("d", "")]) ∧
    ¬ ∃ as s, Run Step init as s ∧ saveClicks as = clicks ∧
      (MemoDao.getAllMemos s.table).map Memo.typed = [("e", "")] := by
  intro clicks
  have htitles : ∀ click ∈ clicks, click.1 ≠ "" := by decide
  constructor
  · apply (listing_orders htitles _).1.mpr
    refine ⟨[3], ⟨by decide, ?_⟩, by decide, rfl⟩
    intro j i h
    cases j with
    | zero =>
      obtain rfl : 3 = i := by simpa using h
      decide
    | succ j => simp at h
  · intro h
    obtain ⟨order, hover, hlt, horder⟩ := (listing_orders htitles _).1.mp h
    cases order with
    | nil => simp at horder
    | cons i order =>
      have hi : i < 0 + 4 := hover.ahead 0 i rfl
      have hclick : some ("e", "") = clicks[i]? := (List.cons.inj horder).1
      obtain rfl | rfl | rfl | rfl : i = 0 ∨ i = 1 ∨ i = 2 ∨ i = 3 := by omega
      all_goals simp [clicks] at hclick

end AndroidRepo.MemoApp.Store
