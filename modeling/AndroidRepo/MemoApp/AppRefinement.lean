import AndroidRepo.MemoApp.App
import AndroidRepo.MemoApp.NavigationSafety
import AndroidRepo.MemoApp.StoreOrder

/-! A run of the app is a run of its navigation and a run of its store, with the same clicks. -/
namespace AndroidRepo.MemoApp.App

open Transition
open Navigation (Entry)

variable {s t : State} {a : Action} {as : List Action} {visit : ℕ} {title content : String}

/-! What the handlers do. -/

theorem perform_navigation (visit : ℕ) (s : State) (effect : Effect) :
    (perform visit s effect).navigation = Navigation.perform visit s.navigation effect := by
  unfold perform
  split
  · rename_i hc
    simp [Navigation.perform, hc]
  · rfl

theorem perform_frame (visit : ℕ) (s : State) (effect : Effect) :
    (perform visit s effect).mAllMemos = s.mAllMemos ∧ (perform visit s effect).list = s.list ∧
      (perform visit s effect).thrown = s.thrown := by
  unfold perform
  split <;> exact ⟨rfl, rfl, rfl⟩

theorem handler_navigation (visit : ℕ) (effects : List Effect) (s : State) :
    (effects.foldl (perform visit) s).navigation =
      effects.foldl (Navigation.perform visit) s.navigation := by
  induction effects generalizing s with
  | nil => rfl
  | cons effect effects ih =>
    rw [List.foldl_cons, List.foldl_cons, ih, perform_navigation]

theorem handler_frame (visit : ℕ) (effects : List Effect) (s : State) :
    (effects.foldl (perform visit) s).mAllMemos = s.mAllMemos ∧
      (effects.foldl (perform visit) s).list = s.list ∧
      (effects.foldl (perform visit) s).thrown = s.thrown := by
  induction effects generalizing s with
  | nil => exact ⟨rfl, rfl, rfl⟩
  | cons effect effects ih =>
    obtain ⟨hmemos, hlist, hthrown⟩ := perform_frame visit s effect
    obtain ⟨hmemos', hlist', hthrown'⟩ := ih (perform visit s effect)
    exact ⟨hmemos'.trans hmemos, hlist'.trans hlist, hthrown'.trans hthrown⟩

theorem add_store (visit : ℕ) (s : State) :
    (ListFragment.onClick.foldl (perform visit) s).store = s.store := by
  simp only [ListFragment.onClick, List.foldl_cons, List.foldl_nil, perform]
  split <;> rfl

theorem save_store (hc : s.navigation.crashed = false) :
    ((AddFragment.onClick title content).foldl (perform visit) s).store =
      (inserts (AddFragment.onClick title content)).foldl Store.State.insert s.store := by
  by_cases ht : title = ""
  · rw [ht]
    rfl
  · simp [AddFragment.onClick, ht, perform, Navigation.perform, hc, inserts]

/-! The two projections. -/

/-- What an action is to the navigation. -/
def Action.navigation : Action → List Navigation.Action
  | .add visit => [.add visit]
  | .save visit title content => [.save visit title content]
  | .createView => [.createView]
  | .tearDown e => [.tearDown e]
  | _ => []

/-- What an action is to the store. -/
def Action.store : Action → List Store.Action
  | .save _ title content => [.save title content]
  | .take w => [.take w]
  | .insert w memo generated => [.insert w memo generated]
  | _ => []

theorem navigation_step (hs : Step s a t) :
    Run Navigation.Step s.navigation a.navigation t.navigation := by
  obtain ⟨⟨hc, -⟩, hm⟩ := hs
  cases hm with
  | add hview =>
    rw [handler_navigation]
    exact .single (.add hc hview)
  | save hview =>
    rw [handler_navigation]
    exact .single (.save hc hview)
  | createView hcurrent hview => exact .single (.createView hc hcurrent hview)
  | tearDown hview hcurrent => exact .single (.tearDown hc hview hcurrent)
  | _ => exact .nil _

theorem store_step (hs : Step s a t) : Run Store.Step s.store a.store t.store := by
  obtain ⟨⟨hc, -⟩, hm⟩ := hs
  cases hm with
  | add =>
    rw [add_store]
    exact .nil _
  | save =>
    rw [save_store hc]
    exact .single .save
  | take hstore | insert hstore => exact .single hstore
  | _ => exact .nil _

theorem navigation_run (hr : Run Step s as t) :
    Run Navigation.Step s.navigation (as.flatMap Action.navigation) t.navigation :=
  hr.refines (f := State.navigation) fun _ _ _ => navigation_step

theorem store_run (hr : Run Step s as t) :
    Run Store.Step s.store (as.flatMap Action.store) t.store :=
  hr.refines (f := State.store) fun _ _ _ => store_step

/-- The memos that the navigation has seen go out are those that the executor is handed. -/
theorem inserted_step (hs : Step s a t) :
    t.navigation.inserted.map Prod.snd =
      s.navigation.inserted.map Prod.snd ++ Store.saved a.store := by
  obtain ⟨⟨hc, -⟩, hm⟩ := hs
  cases hm with
  | add =>
    rw [handler_navigation]
    simp only [ListFragment.onClick, List.foldl_cons, List.foldl_nil, Navigation.perform, hc,
      Bool.false_eq_true, if_false]
    split <;> simp [Action.store, Store.saved]
  | @save visit title content =>
    rw [handler_navigation]
    by_cases ht : title = ""
    · simp [ht, Action.store, Store.saved, AddFragment.onClick, inserts]
    · rw [Navigation.save_eq hc ht]
      simp [ht, Action.store, Store.saved, AddFragment.onClick, inserts]
  | _ => simp [Action.store, Store.saved]

theorem inserted_run (hr : Run Step init as s) :
    s.navigation.inserted.map Prod.snd = Store.saved (as.flatMap Action.store) := by
  refine hr.snoc_induction (P := fun as s => s.navigation.inserted.map Prod.snd =
    Store.saved (as.flatMap Action.store)) rfl ?_
  intro as s a t _ hs ih
  rw [inserted_step hs, ih, List.flatMap_append, List.flatMap_singleton, Store.saved, Store.saved,
    Store.saved, List.flatMap_append]

/-! The rows on the screen. -/

theorem mapM_getElem {α β : Type*} {f : α → β} {xs : List α} {first count : ℕ}
    (h : first + count ≤ xs.length) :
    (List.range' first count).mapM (fun i => xs[i]?.map f) =
      some (((xs.drop first).take count).map f) := by
  induction count generalizing first with
  | zero => simp
  | succ count ih =>
    have hlt : first < xs.length := by omega
    have hrest : first + 1 + count ≤ xs.length := by omega
    rw [List.range'_succ, List.mapM_cons, ih hrest, List.getElem?_eq_getElem hlt,
      List.drop_eq_getElem_cons hlt]
    rfl

/-- The rows of positions below `getItemCount()` can be bound. -/
theorem layout_eq {v : ListView} {first count : ℕ}
    (h : first + count ≤ v.adapter.getItemCount) :
    v.layout first count = some { v with
      rows := ((v.adapter.memoList.drop first).take count).map Memo.typed
      dataSetChanged := false } := by
  have hrows : (List.range' first count).mapM v.adapter.onBindViewHolder =
      some (((v.adapter.memoList.drop first).take count).map Memo.typed) := mapM_getElem h
  rw [ListView.layout, hrows]
  rfl

theorem thrown_step (hs : Step s a t) : t.thrown = false := by
  obtain ⟨⟨-, ht⟩, hm⟩ := hs
  cases hm with
  | add | save => exact (handler_frame _ _ s).2.2.trans ht
  | layoutThrows _ _ hle hnone | scrollThrows _ _ hle hnone =>
    rw [layout_eq hle] at hnone
    cases hnone
  | _ => exact ht

/-! Clicks that come in time. -/

def TimelyStep (s : State) (a : Action) (t : State) : Prop :=
  Step s a t ∧ ∀ b ∈ a.navigation, Navigation.Timely s.navigation b

theorem timely_navigation_step (hs : TimelyStep s a t) :
    Run Navigation.TimelyStep s.navigation a.navigation t.navigation := by
  obtain ⟨hs, htimely⟩ := hs
  have hrun := navigation_step hs
  cases a with
  | add visit => exact .single ⟨hrun.step_of_single, htimely _ (List.mem_singleton_self _)⟩
  | save visit title content =>
    exact .single ⟨hrun.step_of_single, htimely _ (List.mem_singleton_self _)⟩
  | createView => exact .single ⟨hrun.step_of_single, trivial⟩
  | tearDown e => exact .single ⟨hrun.step_of_single, trivial⟩
  | _ =>
    rw [hrun.eq_of_nil]
    exact .nil _

theorem timely_navigation (hr : Run TimelyStep init as s) :
    Run Navigation.TimelyStep Navigation.init (as.flatMap Action.navigation) s.navigation :=
  hr.refines (f := State.navigation) fun _ _ _ hs => timely_navigation_step hs

/-- A timely click finds the destination that it navigates from. -/
theorem timely_alive {n m : Navigation.State} {b : Navigation.Action}
    (hs : Navigation.TimelyStep n b m) : m.crashed = false := by
  obtain ⟨hs, htimely⟩ := hs
  cases hs with
  | add hc _ =>
    have hd : n.destination = some .listFragment := by
      rw [Navigation.State.destination, htimely]
      rfl
    rw [Navigation.add_eq hc hd]
    exact hc
  | @save visit title content hc _ =>
    by_cases ht : title = ""
    · rwa [ht, Navigation.save_empty]
    · rw [Navigation.save_eq hc ht]
      exact hc
  | createView hc _ _ | tearDown hc _ _ => exact hc

theorem alive_of_timely (hr : Run TimelyStep init as s) : s.Alive := by
  constructor
  · exact (timely_navigation hr).reachable.invariant (P := fun n => n.crashed = false) rfl
      fun _ _ _ _ hs _ => timely_alive hs
  · refine hr.reachable.invariant (P := fun s => s.thrown = false) rfl ?_
    intro _ _ _ _ hs _
    exact thrown_step hs.1

/-- From the clicks to the table: the texts that have been saved are those of the rows, and of the
inserts that the executor has still to run. Clicks that come in time never end the process, and
save at most one memo for each visit to the add screen; and no row is ever bound out of range. -/
theorem saved_end_to_end (hr : Run Step init as s) :
    (↑(s.navigation.inserted.map fun i => i.2.typed) : Multiset (String × String)) =
      ↑(s.store.table.rows.map Memo.typed) +
        s.store.databaseWriteExecutor.pending.map Memo.typed ∧
    s.thrown = false ∧
    (Run TimelyStep init as s →
      s.Alive ∧ (s.navigation.inserted.map Prod.fst).Nodup ∧
      s.store.table.rows.length + s.store.databaseWriteExecutor.pending.card =
        s.navigation.inserted.length) := by
  have hstore := store_run hr
  have hsaved : (↑(s.navigation.inserted.map fun i => i.2.typed) : Multiset (String × String)) =
      ↑(s.store.table.rows.map Memo.typed) +
        s.store.databaseWriteExecutor.pending.map Memo.typed := by
    have htyped : s.navigation.inserted.map (fun i => i.2.typed) =
        (Store.saved (as.flatMap Action.store)).map Memo.typed := by
      rw [← inserted_run hr, List.map_map]
      rfl
    rw [htyped, (Store.records_run hstore).typed, ← Multiset.map_coe, ← Multiset.map_coe,
      Store.saved_eq hstore, Multiset.map_add]
  have hthrown : s.thrown = false :=
    hr.reachable.invariant (P := fun s => s.thrown = false) rfl fun _ _ _ _ hs _ => thrown_step hs
  refine ⟨hsaved, hthrown, ?_⟩
  intro htimely
  refine ⟨alive_of_timely htimely, (Navigation.inv_run (timely_navigation htimely)).safe.once, ?_⟩
  have hcard := congrArg Multiset.card hsaved
  simpa using hcard.symm

/-- One memo, whose insert has not been taken up. -/
theorem saved_end_to_end_visit : ∃ s : State,
    Run TimelyStep init [.createView, .add 0, .createView, .save 1 "title" "text"] s ∧
      s.navigation.inserted = [(1, Memo.new "title" "text")] ∧ s.store.table.rows = [] ∧ s.Alive ∧
      s.store.databaseWriteExecutor.pending.card = 1 := by
  have hrun : ∃ s, Run TimelyStep init
      [.createView, .add 0, .createView, .save 1 "title" "text"] s ∧
      s.navigation.inserted = [(1, Memo.new "title" "text")] ∧ s.store.table.rows = [] :=
    ⟨_, .cons ⟨⟨⟨rfl, rfl⟩, .createView rfl (by decide)⟩, List.forall_mem_singleton.mpr trivial⟩ <|
      .cons ⟨⟨⟨rfl, rfl⟩, .add (by decide)⟩, List.forall_mem_singleton.mpr rfl⟩ <|
      .cons ⟨⟨⟨rfl, rfl⟩, .createView rfl (by decide)⟩, List.forall_mem_singleton.mpr trivial⟩ <|
      .single ⟨⟨⟨rfl, rfl⟩, .save (by decide)⟩, List.forall_mem_singleton.mpr (Or.inr rfl)⟩,
      rfl, rfl⟩
  obtain ⟨s, hrun, hinserted, hrows⟩ := hrun
  obtain ⟨-, -, htimely⟩ := saved_end_to_end (hrun.imp fun _ _ _ h => h.1)
  obtain ⟨ha, -, hcard⟩ := htimely hrun
  refine ⟨s, hrun, hinserted, hrows, ha, ?_⟩
  simpa [hrows, hinserted] using hcard

end AndroidRepo.MemoApp.App
