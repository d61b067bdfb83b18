import AndroidRepo.StrongPointer.Safety

/-! What `sp` guarantees over whole runs, without and with `sp` members. -/
namespace AndroidRepo.StrongPointer

open Transition

variable {s t : State} {op : Op} {ops : List Op} {a b p : ℕ} {fuel : ℕ}

/-- Operations on objects without `sp` members, as `AAA` of sp_test/sp.cpp. -/
def Op.Plain : Op → Prop
  | .create ps => ps = []
  | _ => True

theorem memberless_run (hr : Run Step init ops s) (hp : ∀ op ∈ ops, op.Plain) :
    ∀ ms ∈ s.heap.shape, ms = [] := by
  refine hr.snoc_induction
    (P := fun ops s => (∀ op ∈ ops, op.Plain) → ∀ ms ∈ s.heap.shape, ms = []) ?_ ?_ hp
  · intro _ ms hm
    simp [Heap.shape, init] at hm
  · intro ops s op t hr hs ih hp ms hm
    rw [((good_reachable hr.reachable).step hs).shape, List.mem_append] at hm
    rcases hm with hm | hm
    · exact ih (fun o ho => hp o (by simp [ho])) ms hm
    · have hpo := hp op (by simp)
      cases op with
      | create ps =>
        obtain rfl : ps = [] := hpo
        simpa [Op.built] using hm
      | _ => simp [Op.built] at hm

theorem count_reduceOption (l : List (Option ℕ)) (a : ℕ) :
    l.reduceOption.count a = l.count (some a) := by
  induction l with
  | nil => rfl
  | cons x l ih =>
    cases x with
    | none => simpa [List.reduceOption_cons_of_none] using ih
    | some b => simp [List.reduceOption_cons_of_some, List.count_cons, ih]

theorem members_of_memberless (hm : ∀ ms ∈ s.heap.shape, ms = []) (i : ℕ) :
    s.heap.members i = [] := by
  unfold Heap.members
  cases hi : s.heap.shape[i]? with
  | none => rfl
  | some ms => exact hm ms (List.mem_of_getElem? hi)

theorem handleCount_of_memberless (hm : ∀ ms ∈ s.heap.shape, ms = []) (a : ℕ) :
    s.handleCount a = s.handles.count (some a) := by
  have hk : ∀ i, (s.graph.kids i).count a = 0 := by
    intro i
    simp [State.graph, Heap.graph, members_of_memberless hm i]
  have hr : s.graph.roots.count a = s.handles.count (some a) := by
    simp [State.graph, State.roots, count_reduceOption]
  simp [State.handleCount, RefGraph.inrefs, hk, hr]

/-- The same, as the counters' invariant has it. -/
theorem inrefs_of_memberless (hm : ∀ ms ∈ s.heap.shape, ms = []) (a : ℕ) :
    (s.heap.graph s.roots).inrefs a = s.handles.count (some a) := handleCount_of_memberless hm a

theorem count_set_none {l : List (Option ℕ)} (hp : l[p]? = some (some b)) (a : ℕ) :
    l.count (some a) = (l.set p none).count (some a) + if a = b then 1 else 0 := by
  have hr := congrArg (Multiset.count a) (reduceOption_drop hp)
  simpa only [Multiset.coe_count, Multiset.count_cons, count_reduceOption] using hr

/-- The object that a plain operation destroys is the one that loses its last handle. -/
theorem Outcome.destroyed_plain (hg : Good s) (ho : Outcome s t op)
    (hms : ∀ ms ∈ s.heap.shape, ms = []) (hmt : ∀ ms ∈ t.heap.shape, ms = []) (a : ℕ) :
    (a ∈ t.heap.deleted ∧ a ∉ s.heap.deleted) ↔
      ∃ p, op = .destroy p ∧ s.handles[p]? = some (some a) ∧ s.handles.count (some a) = 1 := by
  constructor
  · rintro ⟨hd, hnd⟩
    cases op with
    | destroy p =>
      have hshape : t.heap.shape = s.heap.shape := by simpa [Op.built] using ho.shape
      have hlt : a < s.heap.objects.length := by
        have hl := congrArg List.length hshape
        simp only [Heap.length_shape] at hl
        exact hl ▸ ho.good.built a hd
      have hz := (ho.destroyed_iff hlt).mp hd
      have hpos : 0 < s.handleCount a :=
        (hg.tight a).mp (Heap.mem_graph_live.mpr ⟨hlt, hnd⟩)
      rw [handleCount_of_memberless hmt, ho.handles, Op.handles] at hz
      rw [handleCount_of_memberless hms] at hpos
      cases hp : s.handles[p]? with
      | none => simp [List.set_eq_of_length_le (List.getElem?_eq_none_iff.mp hp)] at hz; omega
      | some x =>
        cases x with
        | none =>
          have hsame : s.handles.set p none = s.handles := by
            obtain ⟨hlt, hx⟩ := List.getElem?_eq_some_iff.mp hp
            rw [← hx, List.set_getElem_self]
          rw [hsame] at hz
          omega
        | some b =>
          have hc := count_set_none hp a
          by_cases hab : a = b
          · subst b
            exact ⟨p, rfl, hp, by simp_all⟩
          · rw [if_neg hab] at hc
            omega
    | _ => exact absurd (ho.kept (by simp) ▸ hd) hnd
  · rintro ⟨p, rfl, hp, hone⟩
    have hl := hg.live_of_handle hp
    refine ⟨(ho.destroyed_iff hl.1).mpr ?_, hl.2⟩
    have hc := count_set_none hp a
    rw [if_pos rfl, hone] at hc
    rw [handleCount_of_memberless hmt, ho.handles, Op.handles]
    omega

/-- Over every run on objects without members: `mRefs` is the number of live handles, an
object is destroyed in the step that destroys its last handle and only then, and no operation
on live handles touches a destroyed object. -/
theorem sp_counts_handles (hr : Run Step init ops s) (hp : ∀ op ∈ ops, op.Plain) :
    (∀ a, s.heap.Live a → s.heap.mRefs a = s.handles.count (some a)) ∧
    s.heap.deleted.Nodup ∧
    ∀ op, op.Plain → Issuable s op → Fits s op →
      ∃ t, (∀ fuel, s.heap.objects.length ≤ fuel → exec fuel s op = .ok t) ∧
        ∀ a, (a ∈ t.heap.deleted ∧ a ∉ s.heap.deleted) ↔
          ∃ p, op = .destroy p ∧ s.handles[p]? = some (some a) ∧
            s.handles.count (some a) = 1 := by
  have hg := good_reachable hr.reachable
  have hm := memberless_run hr hp
  refine ⟨?_, hg.once, ?_⟩
  · intro a hl
    have hc := hg.counted a hl
    rw [inrefs_of_memberless hm] at hc
    simpa using hc
  · intro op hop hi hf
    obtain ⟨t, he, ho⟩ := hg.exec hi hf
    have hmt := memberless_run (hr.snoc ⟨hi, hf, _, he _ le_rfl⟩)
      (by simpa [or_imp, forall_and] using ⟨hp, hop⟩)
    exact ⟨t, he, ho.destroyed_plain hg hm hmt⟩

/-- `main` of sp_test/sp.cpp up to the destruction of `q`. -/
def mainRun : List Op := [.create [], .copy 0, .destroy 1]

theorem sp_counts_handles_main :
    let s : State := ⟨⟨[⟨1, []⟩], []⟩, [some 0, none]⟩
    Run Step init mainRun s ∧ s.heap.mRefs 0 = s.handles.count (some 0) ∧
    ∃ t, (∀ fuel, 1 ≤ fuel → exec fuel s (.destroy 0) = .ok t) ∧
      (0 ∈ t.heap.deleted ∧ 0 ∉ s.heap.deleted) := by
  intro s
  have hrun : Run Step init mainRun s := by
    refine .cons (t := ⟨⟨[⟨1, []⟩], []⟩, [some 0]⟩) ⟨?_, ?_, 1, rfl⟩ <|
      .cons (t := ⟨⟨[⟨2, []⟩], []⟩, [some 0, some 0]⟩) ⟨?_, ?_, 1, rfl⟩ <|
      .cons ⟨?_, ?_, 1, rfl⟩ (.nil _)
    · simp [Issuable]
    · exact fits_of_few (made_le _ _) (by decide)
    · exact ⟨0, rfl⟩
    · exact fits_of_few (made_le _ _) (by decide)
    · exact ⟨0, rfl⟩
    · exact fits_of_few (made_le _ _) (by decide)
  have hplain : ∀ op ∈ mainRun, op.Plain := by simp [mainRun, Op.Plain]
  obtain ⟨hcount, -, hop⟩ := sp_counts_handles hrun hplain
  obtain ⟨t, he, hd⟩ := hop (.destroy 0) trivial ⟨0, rfl⟩ (fits_of_few (made_le _ _) (by decide))
  exact ⟨hrun, hcount 0 ⟨by decide, by decide⟩, t, he, (hd 0).mpr ⟨0, rfl, rfl, by decide⟩⟩

/-- What a destroyed handle leaves behind: nothing that is still referenced is destroyed. -/
def Spared (s t : State) : Prop :=
  ∀ b, s.heap.Live b →
    ((∃ q : ℕ, t.handles[q]? = some (some b)) ∨ ∃ i, t.heap.Live i ∧ b ∈ t.heap.members i) →
    t.heap.Live b

theorem Good.spared (hg : Good t) (s : State) : Spared s t := by
  rintro b - href
  apply Heap.mem_graph_live.mp
  rw [hg.tight b]
  rcases href with hq | ⟨i, hi, hb⟩
  · exact RefGraph.inrefs_pos_of_root (mem_roots.mpr hq)
  · exact RefGraph.inrefs_pos_of_edge (Heap.mem_graph_live.mpr hi) (Multiset.mem_coe.mpr hb)

theorem Good.live_iff_reachable (hg : Good s) :
    s.heap.Live a ↔ ∃ p b : ℕ, s.handles[p]? = some (some b) ∧
      Relation.ReflTransGen s.graph.Edge b a := by
  rw [← Heap.mem_graph_live (R := s.roots), hg.tight.mem_live_iff hg.descending]
  constructor
  · rintro ⟨r, hr, hp⟩
    obtain ⟨p, hpr⟩ := mem_roots.mp hr
    exact ⟨p, r, hpr, hp⟩
  · rintro ⟨p, b, hb, hp⟩
    exact ⟨b, mem_roots.mpr ⟨p, hb⟩, hp⟩

theorem Good.deleted_once (hg : Good s) (hno : ∀ p, ¬ s.LiveHandle p)
    (ha : a < s.heap.objects.length) : s.heap.deleted.count a = 1 := by
  rw [List.count_eq_one_of_mem hg.once]
  by_contra hnd
  obtain ⟨p, b, hp, -⟩ := hg.live_iff_reachable.mp ⟨ha, hnd⟩
  exact hno p ⟨b, hp⟩

theorem fits_destroy (hg : Good s) (p : ℕ) : Fits s (.destroy p) := fun a => hg.fits a

/-- Over every run with fewer than 2^31 handles to one object at a time: each operation comes
to an end, however deep the cascade it starts; it spares what is still referenced; and once
the last handle of the program is gone every object has been destroyed exactly once. -/
theorem cascade_releases (hr : Run Step init ops s) :
    (∀ p, s.LiveHandle p → ∃ t, (∀ fuel, s.heap.objects.length ≤ fuel →
      exec fuel s (.destroy p) = .ok t) ∧ Spared s t) ∧
    (∀ op, Issuable s op → Fits s op → ∃ t, (∀ fuel, s.heap.objects.length ≤ fuel →
      exec fuel s op = .ok t) ∧ Spared s t) ∧
    ((∀ p, ¬ s.LiveHandle p) →
      ∀ a < s.heap.objects.length, s.heap.deleted.count a = 1) := by
  have hg := good_reachable hr.reachable
  have hop : ∀ op, Issuable s op → Fits s op → ∃ t, (∀ fuel, s.heap.objects.length ≤ fuel →
      exec fuel s op = .ok t) ∧ Spared s t := by
    intro op hi hf
    obtain ⟨t, he, ho⟩ := hg.exec hi hf
    exact ⟨t, he, ho.good.spared s⟩
  exact ⟨fun p hp => hop _ hp (fits_destroy hg p), hop, fun hno a => hg.deleted_once hno⟩

/-- A looper, a handler and the `MyThread` that holds both; the two handles to them go first. -/
def looperRun : List Op := [.create [], .create [], .create [0, 1], .destroy 0, .destroy 1]

theorem cascade_releases_looper :
    let s : State := ⟨⟨[⟨1, []⟩, ⟨1, []⟩, ⟨1, [0, 1]⟩], []⟩, [none, none, some 2]⟩
    let t : State := ⟨⟨[⟨0, []⟩, ⟨0, []⟩, ⟨0, [0, 1]⟩], [2, 1, 0]⟩, [none, none, none]⟩
    Run Step init looperRun s ∧ Step s (.destroy 2) t ∧
    (∃ u, (∀ fuel, 3 ≤ fuel → exec fuel s (.destroy 2) = .ok u) ∧ Spared s u) ∧
    ∀ a < 3, t.heap.deleted.count a = 1 := by
  intro s t
  have hrun : Run Step init looperRun s := by
    refine .cons (t := ⟨⟨[⟨1, []⟩], []⟩, [some 0]⟩) ⟨?_, ?_, 1, rfl⟩ <|
      .cons (t := ⟨⟨[⟨1, []⟩, ⟨1, []⟩], []⟩, [some 0, some 1]⟩) ⟨?_, ?_, 1, rfl⟩ <|
      .cons (t := ⟨⟨[⟨2, []⟩, ⟨2, []⟩, ⟨1, [0, 1]⟩], []⟩, [some 0, some 1, some 2]⟩)
        ⟨?_, ?_, 1, rfl⟩ <|
      .cons (t := ⟨⟨[⟨1, []⟩, ⟨2, []⟩, ⟨1, [0, 1]⟩], []⟩, [none, some 1, some 2]⟩)
        ⟨?_, ?_, 1, rfl⟩ <|
      .cons ⟨?_, ?_, 1, rfl⟩ (.nil _)
    · simp [Issuable]
    · exact fits_of_few (made_le _ _) (by decide)
    · simp [Issuable]
    · exact fits_of_few (made_le _ _) (by decide)
    · simp [Issuable, State.LiveHandle]
    · exact fits_of_few (made_le _ _) (by decide)
    · exact ⟨0, rfl⟩
    · exact fits_of_few (made_le _ _) (by decide)
    · exact ⟨1, rfl⟩
    · exact fits_of_few (made_le _ _) (by decide)
  have hlast : Step s (.destroy 2) t := ⟨⟨2, rfl⟩, fits_of_few (made_le _ _) (by decide), 3, rfl⟩
  have hnone : ∀ p, ¬ t.LiveHandle p := by
    rintro p ⟨a, hp⟩
    have hm : some a ∈ t.handles := List.mem_of_getElem? hp
    simp [t] at hm
  exact ⟨hrun, hlast, (cascade_releases hrun).1 2 ⟨2, rfl⟩,
    (cascade_releases (hrun.snoc hlast)).2.2 hnone⟩

/-- Each operation may be issued when the ones before it have come through. -/
inductive Issued : State → List Op → Prop where
  | nil (s : State) : Issued s []
  | cons {s : State} {op : Op} {ops : List Op} : Issuable s op →
      (∀ fuel t, exec fuel s op = .ok t → Issued t ops) → Issued s (op :: ops)

/-- One object and `n + 1` handles to it. -/
def shared (n : ℕ) : State := ⟨⟨[⟨n + 1, []⟩], []⟩, List.replicate (n + 1) (some 0)⟩

theorem shared_handle (n : ℕ) : (shared n).handles[0]? = some (some 0) := by
  simp [shared]

theorem mRefs_shared (n : ℕ) : (shared n).heap.mRefs 0 = n + 1 := rfl

theorem store_shared (n : ℕ) :
    (shared n).heap.store 0 (n + 1 + 1) = (shared (n + 1)).heap := by
  simp [shared, Heap.store]

theorem incStrong_shared (n : ℕ) :
    (shared n).heap.incStrong 0 = (shared n).heap.setRefs 0 (n + 1 + 1) := by
  rw [Heap.incStrong_of_live (by simp [shared, Heap.Live]), mRefs_shared]

theorem exec_copy_shared {n : ℕ} (hn : n + 2 < 2 ^ 31) (fuel : ℕ) :
    exec fuel (shared n) (.copy 0) = .ok (shared (n + 1)) := by
  have hinc : (shared n).heap.incStrong 0 = .ok (shared (n + 1)).heap := by
    rw [incStrong_shared, Heap.setRefs_of_range (by simp [intMin]; omega) (by simp [intMax]; omega),
      store_shared]
  have hpush : (shared n).handles ++ [some 0] = (shared (n + 1)).handles := by
    simp [shared, List.replicate_succ' (n := n + 1)]
  rw [exec_copy (shared_handle n), sp_of_incStrong hinc, hpush]

theorem exec_copy_overflow {n : ℕ} (hn : n + 2 = 2 ^ 31) (fuel : ℕ) :
    exec fuel (shared n) (.copy 0) = .error (.overflow 0) := by
  have hhi : ¬ (n : Int) + 1 + 1 ≤ intMax := by simp [intMax]; omega
  have hinc : (shared n).heap.incStrong 0 = .error (.overflow 0) := by
    rw [incStrong_shared, Heap.setRefs, if_neg fun h => hhi h.2]
  rw [exec_copy (shared_handle n), State.sp, hinc]
  rfl

theorem run_copies (fuel n : ℕ) (hn : n + 1 < 2 ^ 31) :
    run fuel init (.create [] :: List.replicate n (.copy 0)) = .ok (shared n) := by
  induction n with
  | zero => rfl
  | succ n ih =>
    have hrun := ih (by omega)
    rw [run] at hrun
    rw [run, List.replicate_succ', ← List.cons_append, List.foldlM_append, hrun,
      Fallible.ok_bind, List.foldlM_cons, exec_copy_shared hn, Fallible.ok_bind]
    rfl

/-- One handle is copied `k` times, and destroyed afterwards. -/
def copying (k : ℕ) : List Op := .create [] :: (List.replicate k (.copy 0) ++ [.destroy 0])

theorem issued_copies (k n : ℕ) (hn : n + k + 1 ≤ 2 ^ 31) :
    Issued (shared n) (List.replicate k (.copy 0) ++ [.destroy 0]) := by
  induction k generalizing n with
  | zero => exact .cons ⟨0, shared_handle n⟩ fun _ t _ => .nil t
  | succ k ih =>
    refine .cons ⟨0, shared_handle n⟩ fun fuel t he => ?_
    by_cases hlt : n + 2 < 2 ^ 31
    · rw [exec_copy_shared hlt] at he
      exact Except.ok.inj he ▸ ih (n + 1) (by omega)
    · rw [exec_copy_overflow (by omega)] at he
      cases he

theorem issued_copying {k : ℕ} (hk : k + 1 ≤ 2 ^ 31) : Issued init (copying k) := by
  refine .cons (by simp [Issuable]) fun fuel t he => ?_
  obtain rfl : shared 0 = t := Except.ok.inj he
  exact issued_copies k 0 (by omega)

theorem copying_overflows {k : ℕ} (hk : k + 2 = 2 ^ 31) (fuel : ℕ) :
    run fuel init (copying (k + 1)) = .error (.overflow 0) := by
  have hsplit : copying (k + 1) =
      (.create [] :: List.replicate k (.copy 0)) ++ [.copy 0, .destroy 0] := by
    simp [copying, List.replicate_succ']
  have hrun := run_copies fuel k (by omega)
  rw [run] at hrun
  rw [hsplit, run, List.foldlM_append, hrun, Fallible.ok_bind, List.foldlM_cons,
    exec_copy_overflow hk]
  rfl

/-- Without a bound on the handles, `mRefs++` overflows before the destruction is reached. -/
theorem cascade_overflows :
    Issued init (copying (2 ^ 31 - 1)) ∧
      ¬ ∃ fuel s, run fuel init (copying (2 ^ 31 - 1)) = .ok s := by
  obtain ⟨k, hk, hk'⟩ : ∃ k, 2 ^ 31 - 1 = k + 1 ∧ k + 2 = 2 ^ 31 := ⟨2 ^ 31 - 2, by omega, by omega⟩
  rw [hk]
  refine ⟨issued_copying (by omega), ?_⟩
  rintro ⟨fuel, s, he⟩
  rw [copying_overflows hk'] at he
  cases he

end AndroidRepo.StrongPointer
