import AndroidRepo.StrongPointer.Ownership

/-! Which objects go with a handle, and in which order: those that no other handle leads to, each
of them before the objects that its members point to. -/
namespace AndroidRepo.StrongPointer

open Transition

variable {s t : State} {h h' : Heap} {op : Op} {ops : List Op} {a b i p : ℕ} {R : Multiset ℕ}
  {ms : List ℕ} {fuel : ℕ}

/-- A handle leads to the object, or to one whose members lead to it. -/
def Held (handles : List (Option ℕ)) (h : Heap) (a : ℕ) : Prop :=
  ∃ p b : ℕ, handles[p]? = some (some b) ∧
    Relation.ReflTransGen (fun i k => k ∈ h.members i) b a

theorem Good.live_iff_held (hg : Good s) : s.heap.Live a ↔ Held s.handles s.heap a := by
  constructor
  · intro ha
    obtain ⟨p, b, hp, hpath⟩ := hg.live_iff_reachable.mp ha
    refine ⟨p, b, hp, hpath.lift id ?_⟩
    intro i k hk
    exact Multiset.mem_coe.mp hk.2
  · rintro ⟨p, b, hp, hpath⟩
    -- Members of a live object are live, from the handle on.
    induction hpath with
    | refl => exact hg.live_of_handle hp
    | tail _ hk ih =>
      apply Heap.mem_graph_live.mp
      exact (hg.tight _).mpr
        (RefGraph.inrefs_pos_of_edge (Heap.mem_graph_live.mpr ih) (Multiset.mem_coe.mpr hk))

/-! The order of the destructors. -/

/-- The owners of a destroyed object have been destroyed before it. -/
def Heap.OwnersFirst (h : Heap) : Prop :=
  ∀ (ds : List ℕ) (a i : ℕ), ds ++ [a] <+: h.deleted → a ∈ h.members i → i ∈ ds

theorem members_lt (ha : a ∈ h.members i) : i < h.objects.length := by
  by_contra hi
  have hnone : h.shape[i]? = none := List.getElem?_eq_none (by rw [Heap.length_shape]; omega)
  simp [Heap.members, hnone] at ha

theorem Heap.OwnersFirst.store (ho : h.OwnersFirst) (a : ℕ) (n : Int) :
    (h.store a n).OwnersFirst := by
  intro ds b i hds hb
  rw [Heap.members_store] at hb
  exact ho ds b i hds hb

/-- The last reference to an object has gone: no owner of it is left. -/
theorem Balanced.ownersFirst_delete (hb : Balanced h (a ::ₘ R) 0) (hz : h.mRefs a - 1 = 0)
    (ho : h.OwnersFirst) : ((h.store a 0).delete a).OwnersFirst := by
  have ha := hb.live_of_root (Multiset.mem_cons_self a R)
  have hc := hb.counted a ha
  simp only [inrefs_cons, Multiset.count_zero, if_true] at hc
  intro ds b i hds hbi
  have hmembers : b ∈ h.members i := by simpa [Heap.members] using hbi
  rcases List.prefix_concat_iff.mp hds with hlast | hold
  · obtain ⟨rfl, hba⟩ := List.append_inj' hlast rfl
    obtain rfl := List.singleton_inj.mp hba
    by_contra hi
    have hlive : h.Live i := ⟨members_lt hmembers, hi⟩
    have hpos := RefGraph.inrefs_pos_of_edge (G := h.graph R) (Heap.mem_graph_live.mpr hlive)
      (Multiset.mem_coe.mpr hmembers)
    omega
  · exact ho ds b i hold hmembers

theorem Balanced.ownersFirst_decStrongs
    (hdec : ∀ h R a h', Balanced h (a ::ₘ R) 0 → a < fuel → h.OwnersFirst →
      h.decStrong fuel a = .ok h' → h'.OwnersFirst)
    (hb : Balanced h (ms + R) 0) (hlt : ∀ a ∈ ms, a < fuel) (ho : h.OwnersFirst)
    (he : ms.foldlM (Heap.decStrong fuel) h = .ok h') : h'.OwnersFirst := by
  induction ms generalizing h with
  | nil =>
    obtain rfl := Except.ok.inj he
    exact ho
  | cons a ms ih =>
    rw [← Multiset.cons_coe, Multiset.cons_add] at hb
    obtain ⟨ha, hms⟩ := List.forall_mem_cons.mp hlt
    obtain ⟨h₁, he₁, hb₁, -⟩ := hb.decStrong ha
    rw [List.foldlM_cons, he₁, Fallible.ok_bind] at he
    exact ih hb₁ hms (hdec h _ a h₁ hb ha ho he₁) he

theorem Balanced.ownersFirst_decStrong (hb : Balanced h (a ::ₘ R) 0) (hlt : a < fuel)
    (ho : h.OwnersFirst) (he : h.decStrong fuel a = .ok h') : h'.OwnersFirst := by
  induction fuel generalizing h R a h' with
  | zero => omega
  | succ fuel ih =>
    have ha := hb.live_of_root (Multiset.mem_cons_self a R)
    have hset := hb.setRefs_pred
    rw [Heap.decStrong, Heap.access_of_live ha, Fallible.ok_bind, hset, Fallible.ok_bind] at he
    by_cases hz : h.mRefs a - 1 = 0
    · rw [if_pos hz, hz] at he
      have hd := hb.delete hz
      rw [← Multiset.coe_reverse] at hd
      refine Balanced.ownersFirst_decStrongs (fun h R a h' => ih) hd ?_
        (hb.ownersFirst_delete hz ho) he
      intro m hm
      have hmem := hb.older a m ha (List.mem_reverse.mp hm)
      omega
    · rw [if_neg hz] at he
      obtain rfl := Except.ok.inj he
      exact ho.store a _

/-- A new object has members that are live, so that it owns none of the destroyed ones. -/
theorem Outcome.ownersFirst (ho : Outcome s t op) (hg : Good s) (hne : ∀ p, op ≠ .destroy p)
    (hs : s.heap.OwnersFirst) : t.heap.OwnersFirst := by
  intro ds a i hds ha
  have hdeleted := ho.kept hne
  rw [hdeleted] at hds
  by_cases hi : i < s.heap.shape.length
  · apply hs ds a i hds
    have hsame : t.heap.shape[i]? = s.heap.shape[i]? := by
      rw [ho.shape, List.getElem?_append_left hi]
    rwa [Heap.members, hsame] at ha
  · exfalso
    have hmem : a ∈ s.heap.deleted := hds.subset (by simp)
    cases op with
    | create ps =>
      have hnew : a ∈ (ps.map fun p => s.handles[p]?.join).reduceOption := by
        rw [Heap.members, ho.shape, List.getElem?_append_right (by omega)] at ha
        generalize i - s.heap.shape.length = j at ha
        cases j with
        | zero => simpa [Op.built] using ha
        | succ j => simp [Op.built] at ha
      obtain ⟨p, -, hp⟩ := List.mem_map.mp (List.reduceOption_mem_iff.mp hnew)
      exact (hg.live_of_handle (Option.join_eq_some_iff.mp hp)).2 hmem
    | destroy p => exact hne p rfl
    | wrap | copy | deref =>
      rw [Heap.members, ho.shape, List.getElem?_append_right (by omega)] at ha
      simp [Op.built] at ha

theorem ownersFirst_step (hg : Good s) (hs : Step s op t) (ho : s.heap.OwnersFirst) :
    t.heap.OwnersFirst := by
  have hout := hg.step hs
  cases op with
  | destroy p =>
    obtain ⟨-, -, fuel, he⟩ := hs
    simp only [exec, Fallible.bind_eq_ok] at he
    obtain ⟨a, hptr, h', hdec, ht⟩ := he
    obtain rfl := Except.ok.inj ht
    obtain ⟨b, hp⟩ : s.LiveHandle p := by
      unfold State.mPtr at hptr
      split at hptr
      · exact ⟨_, ‹_›⟩
      · cases hptr
    obtain rfl : b = a := Except.ok.inj ((mPtr_of_handle hp).symm.trans hptr)
    have hb : Balanced s.heap (b ::ₘ ((s.handles.set p none).reduceOption : Multiset ℕ)) 0 := by
      rw [← reduceOption_drop hp]
      exact hg
    have hlt := (hg.live_of_handle hp).1
    exact hb.ownersFirst_decStrong (Nat.lt_of_lt_of_le hlt (Nat.le_max_right fuel _)) ho
      (decStrong_mono (Nat.le_max_left fuel _) hdec)
  | _ => exact hout.ownersFirst hg (by simp) ho

theorem ownersFirst_run (hr : Run Step init ops s) : s.heap.OwnersFirst := by
  refine hr.reachable.invariant (P := fun s => s.heap.OwnersFirst) ?_
    fun _ _ _ hr hs ho => ownersFirst_step (good_reachable hr) hs ho
  intro ds a i hds _
  simp [init] at hds

/-- What a run has left alive is what a handle leads to. Destroying a handle destroys exactly what
only this handle led to, nothing else destroys an object, and no object is destroyed before the
last of its owners. -/
theorem releases_unheld (hr : Run Step init ops s) :
    (∀ a, s.heap.Live a ↔ Held s.handles s.heap a) ∧
    (∀ p t, Step s (.destroy p) t → ∀ a, (a ∈ t.heap.deleted ∧ a ∉ s.heap.deleted) ↔
      Held s.handles s.heap a ∧ ¬ Held (s.handles.set p none) s.heap a) ∧
    (∀ op t, (∀ p, op ≠ .destroy p) → Step s op t → t.heap.deleted = s.heap.deleted) ∧
    ∀ ds a i, ds ++ [a] <+: s.heap.deleted → a ∈ s.heap.members i → i ∈ ds := by
  have hg := good_reachable hr.reachable
  refine ⟨fun a => hg.live_iff_held, ?_, fun op t hne hs => (hg.step hs).kept hne,
    ownersFirst_run hr⟩
  intro p t hs a
  have ho := hg.step hs
  have hshape : t.heap.shape = s.heap.shape := by simpa [Op.built] using ho.shape
  have hlen := congrArg List.length hshape
  rw [Heap.length_shape, Heap.length_shape] at hlen
  have hheld : Held t.handles t.heap a ↔ Held (s.handles.set p none) s.heap a := by
    simp only [Held, Heap.members, hshape, ho.handles, Op.handles]
  rw [← hheld, ← ho.good.live_iff_held, ← hg.live_iff_held, Heap.Live, Heap.Live, hlen]
  constructor
  · rintro ⟨hd, hnd⟩
    have hlt := hlen ▸ ho.good.built a hd
    exact ⟨⟨hlt, hnd⟩, fun hl => hl.2 hd⟩
  · rintro ⟨⟨hlt, hnd⟩, hdead⟩
    exact ⟨not_not.mp fun hd => hdead ⟨hlt, hd⟩, hnd⟩

/-- A looper with a handle of its own, and a `MyThread` that holds it. -/
theorem releases_unheld_looper :
    let s : State := ⟨⟨[⟨1, []⟩, ⟨1, [0]⟩], []⟩, [none, some 1]⟩
    Run Step init [.create [], .create [0], .destroy 0] s ∧
    Held s.handles s.heap 0 ∧ ¬ Held (s.handles.set 1 none) s.heap 0 := by
  intro s
  have hrun : Run Step init [.create [], .create [0], .destroy 0] s := by
    refine .cons (t := ⟨⟨[⟨1, []⟩], []⟩, [some 0]⟩) ⟨?_, ?_, 1, rfl⟩ <|
      .cons (t := ⟨⟨[⟨2, []⟩, ⟨1, [0]⟩], []⟩, [some 0, some 1]⟩) ⟨?_, ?_, 1, rfl⟩ <|
      .cons ⟨?_, ?_, 1, rfl⟩ (.nil _)
    · simp [Issuable]
    · exact fits_of_few (made_le _ _) (by decide)
    · simp [Issuable, State.LiveHandle]
    · exact fits_of_few (made_le _ _) (by decide)
    · exact ⟨0, rfl⟩
    · exact fits_of_few (made_le _ _) (by decide)
  have hlast : Step s (.destroy 1) ⟨⟨[⟨0, []⟩, ⟨0, [0]⟩], [1, 0]⟩, [none, none]⟩ :=
    ⟨⟨1, rfl⟩, fits_of_few (made_le _ _) (by decide), 2, rfl⟩
  obtain ⟨-, hdestroyed, -⟩ := releases_unheld hrun
  exact ⟨hrun, (hdestroyed 1 _ hlast 0).mp ⟨by decide, by decide⟩⟩

end AndroidRepo.StrongPointer
