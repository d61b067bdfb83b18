import AndroidRepo.MemoApp.AppRefinement

/-! What the list shows: the memos of the table at an earlier moment, and never an older moment
after a newer one. -/
namespace AndroidRepo.MemoApp.App

open Transition
open Navigation (Entry)

variable {s t : State} {a : Action} {as bs : List Action} {v : ListView}

/-- What the query would bring now. -/
def State.getAllMemos (s : State) : List Memo := Store.MemoDao.getAllMemos s.store.table

theorem getAllMemos_eq (hr : Run Step init as s) :
    s.getAllMemos = s.store.table.rows.reverse :=
  (Store.records_run (store_run hr)).ordered.getAllMemos

/-- Newer rows are listed before the older ones. -/
theorem getAllMemos_suffix (hr : Run Step init as s) (hrun : Run Step s bs t) :
    s.getAllMemos <:+ t.getAllMemos := by
  rw [getAllMemos_eq hr, getAllMemos_eq (hr.append hrun)]
  exact List.reverse_suffix.mpr (Store.rows_prefix (store_run hr) (store_run hrun))

/-! The views. -/

/-- The list has one entry, and its view is the one that is kept. -/
structure Views (s : State) : Prop where
  lists : ∀ e, e ∈ s.navigation.backStack ∨ e ∈ s.navigation.views →
    e.destination = .listFragment → e = ⟨0, .listFragment⟩
  nodup : s.navigation.views.Nodup
  list : s.list.isSome ↔ ⟨0, .listFragment⟩ ∈ s.navigation.views

theorem views_init : Views init where
  lists e he hd := by
    simp only [init, Navigation.init, List.mem_singleton, List.not_mem_nil, or_false] at he
    exact he
  nodup := List.nodup_nil
  list := by simp [init, Navigation.init]

theorem perform_entries (visit : ℕ) (n : Navigation.State) (effect : Effect) :
    (Navigation.perform visit n effect).views = n.views ∧
      ∀ e ∈ (Navigation.perform visit n effect).backStack,
        e ∈ n.backStack ∨ e.destination = .addFragment := by
  unfold Navigation.perform
  split
  · exact ⟨rfl, fun e he => Or.inl he⟩
  · cases effect with
    | insert memo => exact ⟨rfl, fun e he => Or.inl he⟩
    | popBackStack => exact ⟨rfl, fun e he => Or.inl (List.dropLast_subset _ he)⟩
    | navigate action =>
      dsimp only
      split
      · rename_i destination hd
        refine ⟨rfl, ?_⟩
        intro e he
        rcases List.mem_append.mp he with he | he
        · exact Or.inl he
        · obtain ⟨d, -, haction⟩ := Option.bind_eq_some_iff.mp hd
          rw [List.mem_singleton.mp he]
          cases d <;> simp_all [Destination.action]
      · exact ⟨rfl, fun e he => Or.inl he⟩

theorem handler_entries (visit : ℕ) (effects : List Effect) (n : Navigation.State) :
    (effects.foldl (Navigation.perform visit) n).views = n.views ∧
      ∀ e ∈ (effects.foldl (Navigation.perform visit) n).backStack,
        e ∈ n.backStack ∨ e.destination = .addFragment := by
  induction effects generalizing n with
  | nil => exact ⟨rfl, fun e he => Or.inl he⟩
  | cons effect effects ih =>
    obtain ⟨hviews, hstack⟩ := perform_entries visit n effect
    obtain ⟨hviews', hstack'⟩ := ih (Navigation.perform visit n effect)
    refine ⟨hviews'.trans hviews, ?_⟩
    intro e he
    rcases hstack' e he with he | he
    · exact hstack e he
    · exact Or.inr he

theorem views_handler (h : Views s) (visit : ℕ) (effects : List Effect) :
    Views (effects.foldl (perform visit) s) := by
  obtain ⟨hviews, hstack⟩ := handler_entries visit effects s.navigation
  obtain ⟨-, hlist, -⟩ := handler_frame visit effects s
  rw [← handler_navigation] at hviews hstack
  refine ⟨?_, hviews ▸ h.nodup, by rw [hlist, hviews]; exact h.list⟩
  intro e he hd
  rw [hviews] at he
  rcases he with he | he
  · rcases hstack e he with he | he
    · exact h.lists e (Or.inl he) hd
    · rw [hd] at he
      cases he
  · exact h.lists e (Or.inr he) hd

theorem views_step (h : Views s) (hs : Step s a t) : Views t := by
  obtain ⟨-, hm⟩ := hs
  cases hm with
  | add | save => exact views_handler h _ _
  | @createView e hcurrent hview =>
    have hstack : e ∈ s.navigation.backStack := List.mem_of_getLast? hcurrent
    refine ⟨?_, List.nodup_append.mpr ⟨h.nodup, by simp, ?_⟩, ?_⟩
    · intro e' he' hd
      rcases he' with he' | he'
      · exact h.lists e' (Or.inl he') hd
      · rcases List.mem_append.mp he' with he' | he'
        · exact h.lists e' (Or.inr he') hd
        · exact h.lists e' (Or.inl (List.mem_singleton.mp he' ▸ hstack)) hd
    · rintro e' he' e'' he'' rfl
      exact hview (List.mem_singleton.mp he'' ▸ he')
    · by_cases hd : e.destination = .listFragment
      · simp [h.lists e (Or.inl hstack) hd]
      · have hne : (⟨0, .listFragment⟩ : Entry) ≠ e := by
          rintro rfl
          exact hd rfl
        simp [hd, h.list, hne]
  | @tearDown e hview hcurrent =>
    refine ⟨?_, h.nodup.erase e, ?_⟩
    · intro e' he' hd
      rcases he' with he' | he'
      · exact h.lists e' (Or.inl he') hd
      · exact h.lists e' (Or.inr (List.mem_of_mem_erase he')) hd
    · by_cases hd : e.destination = .listFragment
      · simp [h.lists e (Or.inr hview) hd, h.nodup.mem_erase_iff]
      · have hne : (⟨0, .listFragment⟩ : Entry) ≠ e := by
          rintro rfl
          exact hd rfl
        simp [hd, h.list, h.nodup.mem_erase_iff, hne]
  | onChanged hlist _ _ | layout hlist _ _ _ | scroll hlist _ _ _ =>
    refine ⟨h.lists, h.nodup, ?_⟩
    rw [← h.list, hlist]
    simp
  | _ => exact ⟨h.lists, h.nodup, h.list⟩

theorem views_run (hr : Run Step init as s) : Views s :=
  hr.reachable.invariant views_init fun _ _ _ _ hs h => views_step h hs

/-! The list as the observer of a live value. -/

def ListView.observer (v : ListView) : LiveValue.Observer (List Memo) :=
  ⟨if v.lastVersion = 0 then none else some v.adapter.memoList, v.lastVersion⟩

def State.live (s : State) : LiveValue.State (List Memo) :=
  ⟨s.getAllMemos, s.mAllMemos, s.list.map ListView.observer⟩

/-- What an action is to the live value. -/
def Action.live (s : State) : Action → List LiveValue.Event
  | .createView => if s.navigation.destination = some .listFragment then [.subscribe] else []
  | .tearDown e => if e.destination = .listFragment then [.unsubscribe] else []
  | .insert _ _ _ => [.write]
  | .invalidate => [.invalidate]
  | .query => [.compute]
  | .post => [.post]
  | .setValue => [.publish]
  | .onChanged => [.observe]
  | _ => []

abbrev Older (memos memos' : List Memo) : Prop := memos <:+ memos'

theorem older_trans (memos memos' memos'' : List Memo) (h : Older memos memos')
    (h' : Older memos' memos'') : Older memos memos'' := h.trans h'

theorem live_eq (htable : t.store.table = s.store.table) (hmemos : t.mAllMemos = s.mAllMemos)
    (hlist : t.list = s.list) : t.live = s.live := by
  rw [State.live, State.live, State.getAllMemos, State.getAllMemos, htable, hmemos, hlist]

theorem live_init : init.live = LiveValue.init [] := by
  have hempty : init.getAllMemos = [] := getAllMemos_eq (.nil init)
  rw [State.live, hempty]
  rfl

theorem live_step (hr : Run Step init as s) (hs : Step s a t) :
    Run (LiveValue.Step Older) s.live (a.live s) t.live := by
  have hgrow := getAllMemos_suffix hr (.single hs)
  obtain ⟨⟨hc, -⟩, hm⟩ := hs
  cases hm with
  | @add visit _ =>
    obtain ⟨hmemos, hlist, -⟩ := handler_frame visit ListFragment.onClick s
    rw [live_eq (by rw [add_store]) hmemos hlist]
    exact .nil _
  | @save visit title content _ =>
    obtain ⟨hmemos, hlist, -⟩ := handler_frame visit (AddFragment.onClick title content) s
    rw [live_eq (by rw [save_store hc, Store.table_submits]) hmemos hlist]
    exact .nil _
  | @createView e hcurrent _ =>
    have hd : s.navigation.destination = some e.destination := by
      rw [Navigation.State.destination, hcurrent]
      rfl
    by_cases he : e.destination = .listFragment
    · simp only [Action.live, hd, he, if_true]
      exact .single .subscribe
    · simp only [Action.live, hd, he, Option.some.injEq, if_false]
      exact .nil _
  | @tearDown e _ _ =>
    by_cases he : e.destination = .listFragment
    · simp only [Action.live, he, if_true]
      exact .single .unsubscribe
    · simp only [Action.live, he, if_false]
      exact .nil _
  | take hstore =>
    cases hstore
    exact .nil _
  | insert _ => exact .single (.write hgrow)
  | invalidate hw => exact .single (.invalidate hw)
  | query hi => exact .single (.compute hi)
  | post hx => exact .single (.post hx)
  | setValue hx => exact .single (.publish hx)
  | @onChanged v memos hlist hx hlt =>
    have hobserver : ({ v.setMemos memos with lastVersion := s.mAllMemos.version } :
        ListView).observer = ⟨some memos, s.mAllMemos.version⟩ := by
      simp [ListView.observer, ListView.setMemos, Nat.ne_of_gt (Nat.zero_lt_of_lt hlt)]
    have hs : LiveValue.Step Older s.live .observe
        { s.live with observer := some ⟨some memos, s.mAllMemos.version⟩ } :=
      .observe (o := v.observer) (by simp [State.live, hlist]) hx hlt
    rw [← hobserver] at hs
    exact .single hs
  | layout hlist _ hle hv | scroll hlist _ hle hv =>
    rw [layout_eq hle] at hv
    obtain rfl := Option.some.inj hv
    simp only [State.live, hlist, Action.live]
    exact .nil _
  | layoutThrows | scrollThrows => exact .nil _

theorem live_run (hr : Run Step init as s) :
    ∃ es, Run (LiveValue.Step Older) (LiveValue.init []) es s.live := by
  refine hr.snoc_induction (P := fun _ s =>
    ∃ es, Run (LiveValue.Step Older) (LiveValue.init []) es s.live)
    ⟨[], live_init ▸ .nil _⟩ ?_
  rintro as s a t hr hs ⟨es, hes⟩
  exact ⟨_, hes.append (live_step hr hs)⟩

theorem live_inv (hr : Run Step init as s) : LiveValue.Inv Older s.live := by
  obtain ⟨es, hes⟩ := live_run hr
  exact LiveValue.inv_run List.suffix_refl older_trans hes

/-! The rows. -/

/-- Before the observer is called there are no memos; the rows on the screen are those of some
positions, in the list as it is or, until it is laid out again, as it was. -/
structure Screen (v : ListView) : Prop where
  empty : v.lastVersion = 0 → v.adapter.memoList = []
  rows : ∃ memos first count, memos <:+ v.adapter.memoList ∧
    (v.dataSetChanged = false → memos = v.adapter.memoList) ∧
    v.rows = ((memos.drop first).take count).map Memo.typed

theorem screen_new : Screen .onViewCreated :=
  ⟨fun _ => rfl, [], 0, 0, List.suffix_rfl, fun _ => rfl, rfl⟩

theorem Screen.layout {v' : ListView} {first count : ℕ} (h : Screen v)
    (hle : first + count ≤ v.adapter.getItemCount) (hv : v.layout first count = some v') :
    Screen v' := by
  rw [layout_eq hle] at hv
  obtain rfl := Option.some.inj hv
  exact ⟨h.empty, v.adapter.memoList, first, count, List.suffix_rfl, fun _ => rfl, rfl⟩

/-- The value that the observer is called with contains what it was called with before. -/
theorem Screen.memoList_suffix {memos : List Memo} (h : Screen v) (hr : Run Step init as s)
    (hv : s.list = some v) (hx : s.mAllMemos.value = some memos) :
    v.adapter.memoList <:+ memos := by
  by_cases hzero : v.lastVersion = 0
  · rw [h.empty hzero]
    exact List.nil_suffix
  · obtain ⟨y, hy, hle⟩ := (live_inv hr).seen v.observer v.adapter.memoList
      (by simp [State.live, hv]) (by simp [ListView.observer, hzero])
    obtain rfl := Option.some.inj (hx.symm.trans hy)
    exact hle

theorem screen_step (hr : Run Step init as s) (hs : Step s a t)
    (h : ∀ v, s.list = some v → Screen v) : ∀ v, t.list = some v → Screen v := by
  obtain ⟨-, hm⟩ := hs
  intro v hv
  cases hm with
  | add | save =>
    rw [(handler_frame _ _ s).2.1] at hv
    exact h v hv
  | createView =>
    dsimp only at hv
    split at hv
    · obtain rfl := Option.some.inj hv
      exact screen_new
    · exact h v hv
  | tearDown =>
    dsimp only at hv
    split at hv
    · cases hv
    · exact h v hv
  | @onChanged v' memos hlist hx hlt =>
    obtain rfl := Option.some.inj hv
    have hold := h v' hlist
    obtain ⟨memos', first, count, hle, -, hrows⟩ := hold.rows
    refine ⟨?_, memos', first, count, hle.trans (hold.memoList_suffix hr hlist hx), nofun, hrows⟩
    intro hzero
    exact absurd hzero (Nat.ne_of_gt (Nat.zero_lt_of_lt hlt))
  | layout hlist _ hle hv' | scroll hlist _ hle hv' =>
    obtain rfl := Option.some.inj hv
    exact (h _ hlist).layout hle hv'
  | _ => exact h v hv

theorem screen_run (hr : Run Step init as s) : ∀ v, s.list = some v → Screen v := by
  refine hr.snoc_induction (P := fun _ s => ∀ v, s.list = some v → Screen v) ?_ ?_
  · intro v hv
    cases hv
  · intro as s a t hr hs h
    exact screen_step hr hs h

theorem memoList_current (hr : Run Step init as s) (hv : s.list = some v) :
    v.adapter.memoList <:+ s.getAllMemos := by
  by_cases hzero : v.lastVersion = 0
  · rw [(screen_run hr v hv).empty hzero]
    exact List.nil_suffix
  · exact (live_inv hr).seen_le older_trans (o := v.observer) (by simp [State.live, hv])
      (by simp [ListView.observer, hzero])

/-- While the view of the list stays, no other view of a list is created. -/
theorem live_stays (hr : Run Step init as s) (hs : Step s a t) (hv : s.list = some v)
    (ha : ∀ e : Entry, e.destination = .listFragment → a ≠ .tearDown e) :
    ∀ e ∈ a.live s, e ≠ .subscribe ∧ e ≠ .unsubscribe := by
  intro e he
  obtain ⟨-, hm⟩ := hs
  cases hm with
  | @createView e' hcurrent hview =>
    have hd : s.navigation.destination = some e'.destination := by
      rw [Navigation.State.destination, hcurrent]
      rfl
    by_cases he' : e'.destination = .listFragment
    · have hviews := views_run hr
      have hentry := hviews.lists e' (Or.inl (List.mem_of_getLast? hcurrent)) he'
      have hlist := hviews.list.mp (by rw [hv]; rfl)
      exact absurd (hentry ▸ hlist) hview
    · simp [Action.live, hd, he'] at he
  | @tearDown e' _ _ =>
    have he' : e'.destination ≠ .listFragment := fun hd => ha e' hd rfl
    simp [Action.live, he'] at he
  | _ => simp_all [Action.live]

/-- A list view that is not torn down stays, and its list only grows. -/
theorem memoList_step (hr : Run Step init as s) (hs : Step s a t) (hv : s.list = some v)
    (ha : ∀ e : Entry, e.destination = .listFragment → a ≠ .tearDown e) :
    ∃ v', t.list = some v' ∧ v.adapter.memoList <:+ v'.adapter.memoList := by
  obtain ⟨o, ho, hseen⟩ := LiveValue.seen_run List.suffix_refl older_trans (live_inv hr)
    (live_step hr hs) (live_stays hr hs hv ha) (o := v.observer) (by simp [State.live, hv])
  obtain ⟨v', hv', rfl⟩ := Option.map_eq_some_iff.mp ho
  refine ⟨v', hv', ?_⟩
  by_cases hzero : v.lastVersion = 0
  · rw [(screen_run hr v hv).empty hzero]
    exact List.nil_suffix
  · obtain ⟨memos, hmemos, hle⟩ := hseen v.adapter.memoList (by simp [ListView.observer, hzero])
    unfold ListView.observer at hmemos
    split at hmemos
    · cases hmemos
    · rwa [Option.some.inj hmemos]

theorem memoList_run (hr : Run Step init as s) (hrun : Run Step s bs t) (hv : s.list = some v)
    (hbs : ∀ e : Entry, e.destination = .listFragment → .tearDown e ∉ bs) :
    ∃ v', t.list = some v' ∧ v.adapter.memoList <:+ v'.adapter.memoList := by
  induction hrun generalizing as v with
  | nil s => exact ⟨v, hv, List.suffix_rfl⟩
  | @cons s t u a bs hs _ ih =>
    have ha : ∀ e : Entry, e.destination = .listFragment → a ≠ .tearDown e := by
      rintro e he rfl
      exact hbs e he List.mem_cons_self
    obtain ⟨v₁, hv₁, hle₁⟩ := memoList_step hr hs hv ha
    obtain ⟨v₂, hv₂, hle₂⟩ := ih (hr.snoc hs) hv₁
      fun e he hmem => hbs e he (List.mem_cons_of_mem _ hmem)
    exact ⟨v₂, hv₂, hle₁.trans hle₂⟩

/-- In every run, the list holds what the query would have brought at an earlier moment, newest id
first and every memo with a title; while its view stays, each list contains the ones before it as
its older part; and the rows on the screen are those of consecutive positions. -/
theorem list_is_snapshot (hr : Run Step init as s) (hv : s.list = some v) :
    v.adapter.memoList <:+ Store.MemoDao.getAllMemos s.store.table ∧
    (v.adapter.memoList.Pairwise fun m m' => m'.id < m.id) ∧
    (∀ m ∈ v.adapter.memoList, m.title ≠ "") ∧
    (∀ bs t, Run Step s bs t → (∀ e : Entry, e.destination = .listFragment → .tearDown e ∉ bs) →
      ∃ v', t.list = some v' ∧ v.adapter.memoList <:+ v'.adapter.memoList) ∧
    ∃ memos first count, memos <:+ v.adapter.memoList ∧
      (v.dataSetChanged = false → memos = v.adapter.memoList) ∧
      v.rows = ((memos.drop first).take count).map Memo.typed := by
  have hle := memoList_current hr hv
  have hrecords := Store.records_run (store_run hr)
  have hall : s.getAllMemos.Pairwise fun m m' => m'.id < m.id := by
    rw [getAllMemos_eq hr]
    exact List.pairwise_reverse.mpr hrecords.ordered.pairwise
  refine ⟨hle, hall.sublist hle.sublist, ?_, fun bs t hrun => memoList_run hr hrun hv,
    (screen_run hr v hv).rows⟩
  intro m hm
  have hmem : m ∈ s.getAllMemos := hle.subset hm
  rw [getAllMemos_eq hr] at hmem
  exact hrecords.titled m (List.mem_reverse.mp hmem)

/-- A list that has been brought before the memo was inserted, with the query due again. -/
theorem list_is_snapshot_before_insert : ∃ (s : State) (v : ListView),
    Run Step init [.createView, .query, .post, .setValue, .onChanged, .add 0, .createView,
      .save 1 "title" "text", .take 0, .insert 0 (Memo.new "title" "text") 1] s ∧
    s.list = some v ∧ v.adapter.memoList = [] ∧ s.store.table.rows = [⟨1, "title", "text"⟩] ∧
    v.adapter.memoList <:+ Store.MemoDao.getAllMemos s.store.table := by
  have hrun : ∃ (s : State) (v : ListView), Run Step init [.createView, .query, .post, .setValue,
      .onChanged, .add 0, .createView, .save 1 "title" "text", .take 0,
      .insert 0 (Memo.new "title" "text") 1] s ∧ s.list = some v ∧ v.adapter.memoList = [] ∧
      s.store.table.rows = [⟨1, "title", "text"⟩] :=
    ⟨_, _, .cons ⟨⟨rfl, rfl⟩, .createView rfl (by decide)⟩ <| .cons ⟨⟨rfl, rfl⟩, .query rfl⟩ <|
      .cons ⟨⟨rfl, rfl⟩, .post rfl⟩ <| .cons ⟨⟨rfl, rfl⟩, .setValue rfl⟩ <|
      .cons ⟨⟨rfl, rfl⟩, .onChanged rfl rfl (by decide)⟩ <|
      .cons ⟨⟨rfl, rfl⟩, .add (by decide)⟩ <|
      .cons ⟨⟨rfl, rfl⟩, .createView rfl (by decide)⟩ <|
      .cons ⟨⟨rfl, rfl⟩, .save (by decide)⟩ <|
      .cons ⟨⟨rfl, rfl⟩, .take (.take (.take rfl rfl))⟩ <|
      .single ⟨⟨rfl, rfl⟩, .insert (.insert (.finish rfl) (by decide))⟩, rfl,
      by simp [ListView.setMemos, Store.MemoDao.getAllMemos, init, Store.init], by decide⟩
  obtain ⟨s, v, hrun, hv, hmemos, hrows⟩ := hrun
  exact ⟨s, v, hrun, hv, hmemos, hrows, (list_is_snapshot hrun hv).1⟩

end AndroidRepo.MemoApp.App
