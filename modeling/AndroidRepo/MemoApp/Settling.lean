import AndroidRepo.MemoApp.Listing
import Mathlib.Data.List.Count

/-! When the user stops, the app comes to rest, and the list shows every memo that was saved. -/
namespace AndroidRepo.MemoApp.App

open Transition
open Navigation (Entry)

variable {s t : State} {a : Action} {as bs : List Action}

/-! A measure of what the system has still to do. -/

/-- Views to be torn down, and the one to be created. -/
def viewWork (n : Navigation.State) : ℕ :=
  n.views.countP (fun e => n.current ≠ some e) +
    match n.current with
    | some e => if e ∈ n.views then 0 else 3
    | none => 0

/-- A list to be laid out. -/
def layoutWork : Option ListView → ℕ
  | some v => if v.dataSetChanged then 1 else 0
  | none => 0

def State.work (s : State) : ℕ :=
  12 * s.store.databaseWriteExecutor.pending.card + s.store.databaseWriteExecutor.queue.length +
    2 * s.live.work + layoutWork s.list + viewWork s.navigation

theorem layoutWork_le (list : Option ListView) : layoutWork list ≤ 1 := by
  unfold layoutWork
  split
  · split <;> omega
  · omega

theorem viewWork_createView {n : Navigation.State} {e : Entry} (hcurrent : n.current = some e)
    (hview : e ∉ n.views) : viewWork { n with views := n.views ++ [e] } + 3 = viewWork n := by
  have hcurrent' : ({ n with views := n.views ++ [e] } : Navigation.State).current = some e :=
    hcurrent
  simp [viewWork, hcurrent, hcurrent', hview, List.countP_append]

theorem viewWork_tearDown {n : Navigation.State} {e : Entry} (hview : e ∈ n.views)
    (hcurrent : n.current ≠ some e) :
    viewWork { n with views := n.views.erase e } + 1 = viewWork n := by
  have hsame : ({ n with views := n.views.erase e } : Navigation.State).current = n.current := rfl
  have hpos : 0 < n.views.countP fun e => n.current ≠ some e :=
    List.countP_pos_iff.mpr ⟨e, hview, by simpa using hcurrent⟩
  have hcount : (n.views.erase e).countP (fun e => n.current ≠ some e) + 1 =
      n.views.countP fun e => n.current ≠ some e := by
    rw [List.countP_erase, if_pos ⟨hview, by simpa using hcurrent⟩]
    omega
  cases hn : n.current with
  | none =>
    simp only [viewWork, hsame, hn] at hcount ⊢
    omega
  | some d =>
    have hde : d ≠ e := by
      rintro rfl
      exact hcurrent hn
    simp only [viewWork, hsame, hn, List.mem_erase_of_ne hde] at hcount ⊢
    omega

theorem createView_adds (s : State) :
    ((Action.createView.live s).map LiveValue.Event.adds).sum ≤
      (Action.createView.live s).length + 1 := by
  unfold Action.live
  dsimp only
  split <;> simp [LiveValue.Event.adds]

theorem tearDown_adds (s : State) (e : Entry) :
    (((Action.tearDown e).live s).map LiveValue.Event.adds).sum ≤
      ((Action.tearDown e).live s).length := by
  unfold Action.live
  dsimp only
  split <;> simp [LiveValue.Event.adds]

/-- Every step that the system takes on its own leaves less to do. -/
theorem work_step (hr : Run Step init as s) (hs : SystemStep s a t) : t.work < s.work := by
  obtain ⟨hs, huser⟩ := hs
  have hlive := LiveValue.work_run (live_step hr hs)
  obtain ⟨-, hm⟩ := hs
  cases hm with
  | add | save | scroll | scrollThrows => cases huser
  | @createView e hcurrent hview =>
    have hviews := viewWork_createView hcurrent hview
    have hadds := createView_adds s
    have hlayout : layoutWork (if e.destination = .listFragment then some .onViewCreated
        else s.list) ≤ layoutWork s.list := by
      split
      · exact Nat.zero_le _
      · exact Nat.le_refl _
    simp only [State.work] at hlive ⊢
    omega
  | @tearDown e hview hcurrent =>
    have hviews := viewWork_tearDown hview hcurrent
    have hadds := tearDown_adds s e
    have hlayout : layoutWork (if e.destination = .listFragment then none else s.list) ≤
        layoutWork s.list := by
      split
      · exact Nat.zero_le _
      · exact Nat.le_refl _
    simp only [State.work] at hlive ⊢
    omega
  | take hstore =>
    cases hstore with
    | take hp =>
      obtain ⟨hcard, hqueue⟩ := TaskPool.pending_take hp
      simp only [Action.live, List.length_nil, List.map_nil, List.sum_nil] at hlive
      simp only [State.work]
      omega
  | insert hstore =>
    cases hstore with
    | insert hp _ =>
      obtain ⟨hcard, hqueue⟩ := TaskPool.pending_finish hp
      simp [Action.live, LiveValue.Event.adds] at hlive
      simp only [State.work, hqueue]
      omega
  | invalidate | query | post | setValue =>
    simp [Action.live, LiveValue.Event.adds] at hlive
    simp only [State.work]
    omega
  | @onChanged v memos _ _ _ =>
    have hlayout := layoutWork_le
      (some { v.setMemos memos with lastVersion := s.mAllMemos.version })
    simp [Action.live, LiveValue.Event.adds] at hlive
    simp only [State.work] at hlayout ⊢
    omega
  | layout hlist hchanged hle hv' =>
    rw [layout_eq hle] at hv'
    obtain rfl := Option.some.inj hv'
    simp only [Action.live, List.length_nil, List.map_nil, List.sum_nil] at hlive
    simp only [State.work, layoutWork, hlist, hchanged, if_true, Bool.false_eq_true, if_false]
    omega
  | layoutThrows _ _ hle hnone =>
    rw [layout_eq hle] at hnone
    cases hnone

theorem reachable_work (hr : Reachable Step init s) (hs : SystemStep s a t) :
    Reachable Step init t ∧ t.work < s.work := by
  obtain ⟨as, has⟩ := hr
  exact ⟨(has.snoc hs.1).reachable, work_step has hs⟩

theorem system_run (hr : Run SystemStep s bs t) : Run Step s bs t := hr.imp fun _ _ _ h => h.1

/-- What the user has done stays as it is. -/
theorem system_frame (hs : SystemStep s a t) : t.Alive ∧
    t.navigation.backStack = s.navigation.backStack ∧
    t.navigation.inserted = s.navigation.inserted := by
  obtain ⟨hs, huser⟩ := hs
  have hthrown := thrown_step hs
  obtain ⟨⟨hc, -⟩, hm⟩ := hs
  cases hm with
  | add | save => cases huser
  | _ => exact ⟨⟨hc, hthrown⟩, rfl, rfl⟩

theorem system_run_frame (hr : Run SystemStep s bs t) (ha : s.Alive) : t.Alive ∧
    t.navigation.backStack = s.navigation.backStack ∧
    t.navigation.inserted = s.navigation.inserted := by
  induction hr with
  | nil s => exact ⟨ha, rfl, rfl⟩
  | cons hs _ ih =>
    obtain ⟨ha, hstack, hinserted⟩ := system_frame hs
    obtain ⟨ha', hstack', hinserted'⟩ := ih ha
    exact ⟨ha', hstack'.trans hstack, hinserted'.trans hinserted⟩

/-! The app at rest. -/

section Rest

variable (hrest : AtRest SystemStep s) (ha : s.Alive)
include hrest ha

theorem rest_idle : s.store.databaseWriteExecutor.Idle := by
  apply TaskPool.idle_of_stuck
  · intro w q hs
    exact hrest _ _ ⟨⟨ha, .take (.take hs)⟩, rfl⟩
  · intro w memo q hs
    have hlt : s.store.table.lastId < s.store.table.lastId + 1 := by omega
    exact hrest _ _ ⟨⟨ha, .insert (.insert hs hlt)⟩, rfl⟩

theorem rest_pipeline : s.mAllMemos.written = false ∧ s.mAllMemos.invalid = false ∧
    s.mAllMemos.computed = none ∧ s.mAllMemos.pending = none := by
  refine ⟨?_, ?_, ?_, ?_⟩
  · by_contra hw
    exact hrest _ _ ⟨⟨ha, .invalidate (by simpa using hw)⟩, rfl⟩
  · by_contra hi
    exact hrest _ _ ⟨⟨ha, .query (by simpa using hi)⟩, rfl⟩
  · by_contra hc
    obtain ⟨memos, hmemos⟩ := Option.ne_none_iff_exists'.mp hc
    exact hrest _ _ ⟨⟨ha, .post hmemos⟩, rfl⟩
  · by_contra hp
    obtain ⟨memos, hmemos⟩ := Option.ne_none_iff_exists'.mp hp
    exact hrest _ _ ⟨⟨ha, .setValue hmemos⟩, rfl⟩

/-- The screen that is current has its view. -/
theorem rest_view {e : Entry} (hcurrent : s.navigation.current = some e) :
    e ∈ s.navigation.views := by
  by_contra hview
  exact hrest _ _ ⟨⟨ha, .createView hcurrent hview⟩, rfl⟩

theorem rest_laidOut {v : ListView} (hv : s.list = some v) : v.dataSetChanged = false := by
  by_contra hchanged
  have hle : 0 + 0 ≤ v.adapter.getItemCount := Nat.zero_le _
  have hlayout := layout_eq hle
  exact hrest _ _ ⟨⟨ha, .layout hv (by simpa using hchanged) (Nat.zero_le _) hlayout⟩, rfl⟩

theorem rest_memoList (hr : Run Step init as s) {v : ListView} (hv : s.list = some v) :
    v.adapter.memoList = s.getAllMemos := by
  obtain ⟨hw, hi, hc, hp⟩ := rest_pipeline hrest ha
  have hinv := live_inv hr
  have hfresh : s.mAllMemos.value = some s.getAllMemos := by
    have h := hinv.fresh hw hi
    simpa [State.live, hc, hp] using h
  have hversion : ¬ v.lastVersion < s.mAllMemos.version := by
    intro hlt
    exact hrest _ _ ⟨⟨ha, .onChanged hv hfresh hlt⟩, rfl⟩
  have hseen := hinv.seen_source hw hi hc hp (o := v.observer) (by simp [State.live, hv]) hversion
  unfold ListView.observer at hseen
  split at hseen
  · cases hseen
  · exact Option.some.inj hseen

end Rest

theorem inserted_typed (hr : Run Step init as s)
    (hidle : s.store.databaseWriteExecutor.Idle) :
    (s.getAllMemos.map Memo.typed).Perm (s.navigation.inserted.map fun i => i.2.typed) := by
  have hstore := store_run hr
  have hinserted : s.navigation.inserted.map (fun i => i.2.typed) =
      (Store.saved (as.flatMap Action.store)).map Memo.typed := by
    rw [← inserted_run hr, List.map_map]
    rfl
  rw [hinserted, State.getAllMemos, Store.getAllMemos_typed hstore]
  exact (List.reverse_perm _).trans ((Store.ran_perm hstore hidle).map _)

/-- Once the user stops, the app comes to rest after a bounded number of its own steps, in
whichever order they are taken; and when it is at rest on the list screen, the list holds each
memo that was saved exactly once, newest id first, and the rows on the screen are rows of it. -/
theorem settles (hr : Run Step init as s) (ha : s.Alive) :
    (∀ bs t, Run SystemStep s bs t → bs.length ≤ s.work) ∧
    (∃ bs t, Run SystemStep s bs t ∧ AtRest SystemStep t) ∧
    ∀ bs t, Run SystemStep s bs t → AtRest SystemStep t →
      s.navigation.destination = some .listFragment →
      ∃ v first count, t.list = some v ∧
        v.adapter.memoList = Store.MemoDao.getAllMemos t.store.table ∧
        (v.adapter.memoList.map Memo.typed).Perm
          (s.navigation.inserted.map fun i => i.2.typed) ∧
        v.rows = ((v.adapter.memoList.drop first).take count).map Memo.typed := by
  have hdec := fun s a t (hr : Reachable Step init s) (hs : SystemStep s a t) =>
    reachable_work hr hs
  refine ⟨?_, exists_rest hdec hr.reachable, ?_⟩
  · intro bs t hrun
    have hle := (hrun.length_le hdec hr.reachable).2
    omega
  · intro bs t hrun hrest hd
    obtain ⟨hta, hstack, hinserted⟩ := system_run_frame hrun ha
    have hrt := hr.append (system_run hrun)
    obtain ⟨e, he, hlist⟩ := Option.map_eq_some_iff.mp hd
    have hcurrent : t.navigation.current = some e := by
      rw [Navigation.State.current, hstack]
      exact he
    have hviews := views_run hrt
    have hview := rest_view hrest hta hcurrent
    have hentry := hviews.lists e (Or.inr hview) hlist
    obtain ⟨v, hv⟩ := Option.isSome_iff_exists.mp (hviews.list.mpr (hentry ▸ hview))
    have hmemos := rest_memoList hrest hta hrt hv
    obtain ⟨memos, first, count, -, hsame, hrows⟩ := (screen_run hrt v hv).rows
    refine ⟨v, first, count, hv, hmemos, ?_, ?_⟩
    · rw [hmemos, ← hinserted]
      exact inserted_typed hrt (rest_idle hrest hta)
    · rw [hrows, hsame (rest_laidOut hrest hta hv)]

/-- One memo, typed in a visit to the add screen. -/
theorem settles_one_memo : ∃ s bs t v,
    Run Step init [.createView, .add 0, .createView, .save 1 "title" "text"] s ∧
      Run SystemStep s bs t ∧ AtRest SystemStep t ∧ t.list = some v ∧
      v.adapter.memoList.map Memo.typed = [("title", "text")] := by
  have hrun : ∃ s, Run Step init [.createView, .add 0, .createView, .save 1 "title" "text"] s ∧
      s.Alive ∧ s.navigation.destination = some .listFragment ∧
      s.navigation.inserted = [(1, Memo.new "title" "text")] :=
    ⟨_, .cons ⟨⟨rfl, rfl⟩, .createView rfl (by decide)⟩ <| .cons ⟨⟨rfl, rfl⟩, .add (by decide)⟩ <|
      .cons ⟨⟨rfl, rfl⟩, .createView rfl (by decide)⟩ <|
      .single ⟨⟨rfl, rfl⟩, .save (by decide)⟩, ⟨rfl, rfl⟩, rfl, rfl⟩
  obtain ⟨s, hrun, ha, hd, hinserted⟩ := hrun
  obtain ⟨-, ⟨bs, t, hbs, hrest⟩, hlist⟩ := settles hrun ha
  obtain ⟨v, -, -, hv, -, hperm, -⟩ := hlist bs t hbs hrest hd
  rw [hinserted] at hperm
  exact ⟨s, bs, t, v, hrun, hbs, hrest, hv, List.perm_singleton.mp hperm⟩

end AndroidRepo.MemoApp.App
