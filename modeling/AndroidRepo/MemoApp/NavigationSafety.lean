import AndroidRepo.MemoApp.Navigation

/-! Neither handler has a guard of its own, so the navigation is sound as long as no click comes
late, and from the first late click on it is not. -/
namespace AndroidRepo.MemoApp.Navigation

open Transition

variable {s t : State} {a : Action} {as : List Action} {visit : ℕ} {title content : String}

/-- A click that calls the `NavController` finds its own fragment on top of the back stack. -/
def Timely (s : State) : Action → Prop
  | .add visit => s.current = some ⟨visit, .listFragment⟩
  | .save visit title _ => title = "" ∨ s.current = some ⟨visit, .addFragment⟩
  | .createView | .tearDown _ => True

def TimelyStep (s : State) (a : Action) (t : State) : Prop := Step s a t ∧ Timely s a

/-- No later step can undo this. -/
def Broken (s : State) : Prop :=
  (∃ action d, (.navigate action, d) ∈ s.navCalls ∧ d ≠ some .listFragment) ∨
    ¬ (s.inserted.map Prod.fst).Nodup

theorem Broken.not_safe (h : Broken s) : ¬ Safe s := by
  intro hsafe
  rcases h with ⟨action, d, hm, hd⟩ | hdup
  · exact hd (hsafe.navigate action d hm)
  · exact hdup hsafe.once

theorem perform_grows (visit : ℕ) (s : State) (effect : Effect) :
    s.navCalls <+: (perform visit s effect).navCalls ∧
      s.inserted <+: (perform visit s effect).inserted := by
  unfold perform
  split
  · exact ⟨List.prefix_rfl, List.prefix_rfl⟩
  · cases effect with
    | insert memo => exact ⟨List.prefix_rfl, List.prefix_append _ _⟩
    | popBackStack => exact ⟨List.prefix_append _ _, List.prefix_rfl⟩
    | navigate action =>
      dsimp only
      split <;> exact ⟨List.prefix_append _ _, List.prefix_rfl⟩

theorem handler_grows (visit : ℕ) (effects : List Effect) (s : State) :
    s.navCalls <+: (effects.foldl (perform visit) s).navCalls ∧
      s.inserted <+: (effects.foldl (perform visit) s).inserted := by
  induction effects generalizing s with
  | nil => exact ⟨List.prefix_rfl, List.prefix_rfl⟩
  | cons effect effects ih =>
    obtain ⟨hcalls, hinserted⟩ := perform_grows visit s effect
    obtain ⟨hcalls', hinserted'⟩ := ih (perform visit s effect)
    exact ⟨hcalls.trans hcalls', hinserted.trans hinserted'⟩

theorem step_grows (hs : Step s a t) : s.navCalls <+: t.navCalls ∧ s.inserted <+: t.inserted := by
  cases hs with
  | add | save => exact handler_grows _ _ s
  | createView | tearDown => exact ⟨List.prefix_rfl, List.prefix_rfl⟩

theorem broken_step (hs : Step s a t) (h : Broken s) : Broken t := by
  obtain ⟨hcalls, hinserted⟩ := step_grows hs
  rcases h with ⟨action, d, hm, hd⟩ | hdup
  · exact Or.inl ⟨action, d, hcalls.subset hm, hd⟩
  · exact Or.inr fun hnodup => hdup (((hinserted.map _).sublist).nodup hnodup)

/-! What the two handlers do. -/

theorem add_eq (hc : s.crashed = false) (hd : s.destination = some .listFragment) :
    ListFragment.onClick.foldl (perform visit) s = { s with
      navCalls := s.navCalls ++ [(.navigate .action_listFragment_to_addFragment,
        some .listFragment)]
      backStack := s.backStack ++ [⟨s.visits, .addFragment⟩]
      visits := s.visits + 1 } := by
  simp [ListFragment.onClick, perform, hc, hd, Destination.action]

theorem save_empty : (AddFragment.onClick "" content).foldl (perform visit) s = s := rfl

theorem save_eq (hc : s.crashed = false) (ht : title ≠ "") :
    (AddFragment.onClick title content).foldl (perform visit) s = { s with
      inserted := s.inserted ++ [(visit, Memo.new title content)]
      navCalls := s.navCalls ++ [(.popBackStack, s.destination)]
      backStack := s.backStack.dropLast } := by
  simp [AddFragment.onClick, perform, hc, ht, State.destination, State.current]

theorem mem_navCalls_add (hc : s.crashed = false) :
    (.navigate .action_listFragment_to_addFragment, s.destination) ∈
      (ListFragment.onClick.foldl (perform visit) s).navCalls := by
  simp only [ListFragment.onClick, List.foldl_cons, List.foldl_nil, perform, hc,
    Bool.false_eq_true, if_false]
  split <;> exact List.mem_append_right _ (List.mem_singleton_self _)

/-- The state while no click has come late. -/
structure Inv (s : State) : Prop where
  safe : Safe s
  backStack : s.backStack = [⟨0, .listFragment⟩] ∨
    ∃ visit, s.backStack = [⟨0, .listFragment⟩, ⟨visit, .addFragment⟩] ∧
      visit ∉ s.inserted.map Prod.fst ∧ visit < s.visits
  views : ∀ e ∈ s.views, e = ⟨0, .listFragment⟩ ∨
    e.destination = .addFragment ∧ (e ∈ s.backStack ∨ e.visit ∈ s.inserted.map Prod.fst)
  fresh : ∀ visit ∈ s.inserted.map Prod.fst, visit < s.visits

theorem inv_init : Inv init where
  safe := ⟨by simp [init], by simp [init], Or.inl rfl, by simp [init]⟩
  backStack := Or.inl rfl
  views e he := by simp [init] at he
  fresh visit hv := by simp [init] at hv

theorem Inv.current_list (h : Inv s) (hc : s.current = some ⟨visit, .listFragment⟩) :
    s.backStack = [⟨0, .listFragment⟩] := by
  rcases h.backStack with hb | ⟨v, hb, -⟩
  · exact hb
  · simp [State.current, hb] at hc

theorem Inv.current_add (h : Inv s) (hc : s.current = some ⟨visit, .addFragment⟩) :
    s.backStack = [⟨0, .listFragment⟩, ⟨visit, .addFragment⟩] ∧
      visit ∉ s.inserted.map Prod.fst ∧ visit < s.visits := by
  rcases h.backStack with hb | ⟨v, hb, hv, hlt⟩
  · simp [State.current, hb] at hc
  · obtain rfl : v = visit := by simpa [State.current, hb] using hc
    exact ⟨hb, hv, hlt⟩

theorem inv_add (h : Inv s) (hcrashed : s.crashed = false)
    (hc : s.current = some ⟨visit, .listFragment⟩) :
    Inv (ListFragment.onClick.foldl (perform visit) s) := by
  have hb := h.current_list hc
  rw [add_eq hcrashed (by simp [State.destination, hc])]
  refine { safe := ⟨?_, ?_, Or.inr (by simp [hb]), h.safe.once⟩, backStack := ?_, views := ?_,
           fresh := ?_ }
  · intro action d hm
    rcases List.mem_append.mp hm with hm | hm
    · exact h.safe.navigate action d hm
    · simp_all
  · intro d hm
    rcases List.mem_append.mp hm with hm | hm
    · exact h.safe.popBackStack d hm
    · simp at hm
  · -- The new visit has a number that no memo was typed under.
    have hnew : s.visits ∉ s.inserted.map Prod.fst := fun hv => Nat.lt_irrefl _ (h.fresh _ hv)
    exact Or.inr ⟨s.visits, by simp [hb], hnew, Nat.lt_succ_self _⟩
  · intro e he
    refine (h.views e he).imp_right fun ⟨hadd, hin⟩ => ⟨hadd, hin.imp_left ?_⟩
    exact fun hin => List.mem_append_left _ hin
  · intro v hv
    exact Nat.lt_succ_of_lt (h.fresh v hv)

theorem inv_save (h : Inv s) (hcrashed : s.crashed = false) (ht : title ≠ "")
    (hc : s.current = some ⟨visit, .addFragment⟩) :
    Inv ((AddFragment.onClick title content).foldl (perform visit) s) := by
  obtain ⟨hb, hnew, hlt⟩ := h.current_add hc
  rw [save_eq hcrashed ht]
  have hvisits : (s.inserted ++ [(visit, Memo.new title content)]).map Prod.fst =
      s.inserted.map Prod.fst ++ [visit] := by simp
  refine { safe := ⟨?_, ?_, Or.inl (by simp [hb]), ?_⟩, backStack := Or.inl (by simp [hb]),
           views := ?_, fresh := ?_ }
  · intro action d hm
    rcases List.mem_append.mp hm with hm | hm
    · exact h.safe.navigate action d hm
    · simp at hm
  · intro d hm
    rcases List.mem_append.mp hm with hm | hm
    · exact h.safe.popBackStack d hm
    · simpa [State.destination, hc] using hm
  · rw [hvisits]
    refine List.nodup_append.mpr ⟨h.safe.once, by simp, ?_⟩
    rintro v hv w hw rfl
    exact hnew (List.mem_singleton.mp hw ▸ hv)
  · intro e he
    refine (h.views e he).imp_right fun ⟨hadd, hin⟩ => ⟨hadd, Or.inr ?_⟩
    rw [hvisits]
    rcases hin with hin | hin
    · rw [hb] at hin
      simp only [List.mem_cons, List.not_mem_nil, or_false] at hin
      rcases hin with rfl | rfl
      · cases hadd
      · simp
    · exact List.mem_append_left _ hin
  · intro v hv
    rw [hvisits] at hv
    rcases List.mem_append.mp hv with hv | hv
    · exact h.fresh v hv
    · rw [List.mem_singleton.mp hv]
      exact hlt

theorem Inv.with_views (h : Inv s) {views : List Entry}
    (hviews : ∀ e ∈ views, e = ⟨0, .listFragment⟩ ∨
      e.destination = .addFragment ∧ (e ∈ s.backStack ∨ e.visit ∈ s.inserted.map Prod.fst)) :
    Inv { s with views := views } :=
  ⟨⟨h.safe.navigate, h.safe.popBackStack, h.safe.backStack, h.safe.once⟩, h.backStack, hviews,
    h.fresh⟩

theorem inv_step (h : Inv s) (hs : TimelyStep s a t) : Inv t := by
  obtain ⟨hs, htimely⟩ := hs
  cases hs with
  | add hc _ => exact inv_add h hc htimely
  | @save visit title content hc _ =>
    by_cases ht : title = ""
    · rwa [ht, save_empty]
    · exact inv_save h hc ht (htimely.resolve_left ht)
  | @createView e _ hcurrent _ =>
    apply h.with_views
    intro e' he'
    rcases List.mem_append.mp he' with he' | he'
    · exact h.views e' he'
    · rw [List.mem_singleton.mp he']
      rcases h.backStack with hb | ⟨v, hb, -⟩
      · exact Or.inl (by simpa [State.current, hb, eq_comm] using hcurrent)
      · obtain rfl : ⟨v, .addFragment⟩ = e := by simpa [State.current, hb] using hcurrent
        exact Or.inr ⟨rfl, Or.inl (by simp [hb])⟩
  | tearDown _ _ _ =>
    exact h.with_views fun e he => h.views e (List.mem_of_mem_erase he)

/-- The first late click breaks what the app relies on. -/
theorem late_step (h : Inv s) (hs : Step s a t) (hlate : ¬ Timely s a) : Broken t := by
  cases hs with
  | @add visit hc hview =>
    -- The list has been left, so the add screen is current.
    refine Or.inl ⟨_, s.destination, mem_navCalls_add hc, fun hd => hlate ?_⟩
    rcases h.views _ hview with he | ⟨hadd, -⟩
    · rcases h.backStack with hb | ⟨v, hb, -⟩
      · simp [Timely, State.current, hb, he]
      · simp [State.destination, State.current, hb] at hd
    · cases hadd
  | @save visit title content hc hview =>
    -- The add screen has been left by its own Save button: this is the second memo.
    obtain ⟨ht, hcurrent⟩ := not_or.mp hlate
    rw [save_eq hc ht]
    right
    intro hnodup
    rcases h.views _ hview with he | ⟨-, hin | hin⟩
    · cases he
    · rcases h.backStack with hb | ⟨v, hb, -⟩
      · simp [hb] at hin
      · simp_all [State.current]
    · rw [List.map_append] at hnodup
      exact (List.nodup_append.mp hnodup).2.2 _ hin _ (by simp) rfl
  | createView => exact absurd trivial hlate
  | tearDown => exact absurd trivial hlate

theorem inv_run (hr : Run TimelyStep init as s) : Inv s :=
  hr.reachable.invariant inv_init fun _ _ _ _ hs h => inv_step h hs

theorem timely_or_broken (hr : Run Step init as s) : Run TimelyStep init as s ∨ Broken s := by
  refine hr.snoc_induction (P := fun as s => Run TimelyStep init as s ∨ Broken s)
    (Or.inl (.nil _)) ?_
  rintro as s a t - hs (hr | hb)
  · by_cases ha : Timely s a
    · exact Or.inl (hr.snoc ⟨hs, ha⟩)
    · exact Or.inr (late_step (inv_run hr) hs ha)
  · exact Or.inr (broken_step hs hb)

/-- A second tap on the add button, while the list is still on the screen. -/
theorem double_tap_unsafe : ¬ ∀ (as : List Action) (s : State), Run Step init as s → Safe s := by
  intro h
  have hrun : ∃ s, Run Step init [.createView, .add 0, .add 0] s ∧ s.crashed = true ∧
      (.navigate .action_listFragment_to_addFragment, some .addFragment) ∈ s.navCalls :=
    ⟨_, .cons (.createView rfl rfl (by decide)) <| .cons (.add rfl (by decide)) <|
      .single (.add rfl (by decide)), by decide, by decide⟩
  obtain ⟨s, hrun, -, hm⟩ := hrun
  cases (h _ s hrun).navigate _ _ hm

/-- A run is sound exactly when every click that calls the `NavController` comes while its
fragment is on top of the back stack. -/
theorem safe_iff_timely (hr : Run Step init as s) : Safe s ↔ Run TimelyStep init as s := by
  constructor
  · intro hsafe
    exact (timely_or_broken hr).resolve_right fun hb => hb.not_safe hsafe
  · intro htimely
    exact (inv_run htimely).safe

/-- One visit to the add screen, in time. -/
theorem safe_iff_timely_visit :
    ∃ s, Run Step init [.createView, .add 0, .createView, .save 1 "title" "text"] s ∧
      s.inserted = [(1, Memo.new "title" "text")] ∧
      (Safe s ↔
        Run TimelyStep init [.createView, .add 0, .createView, .save 1 "title" "text"] s) := by
  have hrun : ∃ s, Run Step init [.createView, .add 0, .createView, .save 1 "title" "text"] s ∧
      s.inserted = [(1, Memo.new "title" "text")] :=
    ⟨_, .cons (.createView rfl rfl (by decide)) <| .cons (.add rfl (by decide)) <|
      .cons (.createView rfl rfl (by decide)) <| .single (.save rfl (by decide)), by decide⟩
  obtain ⟨s, hrun, hm⟩ := hrun
  exact ⟨s, hrun, hm, safe_iff_timely hrun⟩

end AndroidRepo.MemoApp.Navigation
