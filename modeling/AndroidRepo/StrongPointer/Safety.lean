import AndroidRepo.StrongPointer.Cascade
import Mathlib.Data.List.ReduceOption

/-! Runs of `sp` operations: counters, destruction and faults in every reachable state. -/
namespace AndroidRepo.StrongPointer

variable {s t : State} {h h' : Heap} {op : Op} {ops : List Op} {a b p : ℕ} {ms ps : List ℕ}
  {R D : Multiset ℕ} {fuel fuel' : ℕ}

/-- Every counter holds the number of handles, and nothing without a handle is alive. -/
def Good (s : State) : Prop := Balanced s.heap s.roots 0

theorem good_init : Good init where
  counted a hl := by simp [Heap.Live, init] at hl
  nonneg a hl := by simp [Heap.Live, init] at hl
  tight a := by simp [Heap.graph, init, State.roots, RefGraph.inrefs]
  older a b hl := by simp [Heap.Live, init] at hl
  fits a := by simp [Heap.graph, init, State.roots, RefGraph.inrefs]
  once := List.nodup_nil
  built a hd := by simp [init] at hd

theorem mPtr_of_handle (hp : s.handles[p]? = some (some a)) : s.mPtr p = .ok a := by
  simp [State.mPtr, hp]

theorem mapM_mPtr (hl : ∀ p ∈ ps, s.LiveHandle p) :
    ∃ ms, ps.mapM s.mPtr = .ok ms ∧ (ps.map fun p => s.handles[p]?.join) = ms.map some := by
  apply Fallible.mapM_eq_ok
  intro p hp
  obtain ⟨a, ha⟩ := hl p hp
  exact ⟨a, mPtr_of_handle ha, by simp [ha]⟩

theorem reduceOption_push (l : List (Option ℕ)) (a : ℕ) :
    ((l ++ [some a]).reduceOption : Multiset ℕ) = a ::ₘ (l.reduceOption : Multiset ℕ) := by
  rw [List.reduceOption_append, List.reduceOption_singleton, ← Multiset.coe_add,
    Option.toList_some, Multiset.coe_singleton, Multiset.add_comm, Multiset.singleton_add]

theorem reduceOption_drop {l : List (Option ℕ)} (hp : l[p]? = some (some a)) :
    (l.reduceOption : Multiset ℕ) = a ::ₘ ((l.set p none).reduceOption : Multiset ℕ) := by
  induction l generalizing p with
  | nil => simp at hp
  | cons x l ih =>
    cases p with
    | zero =>
      obtain rfl : x = some a := by simpa using hp
      simp [List.reduceOption_cons_of_some, List.reduceOption_cons_of_none]
    | succ p =>
      have hr := ih (by simpa using hp)
      cases x with
      | none => simpa [List.reduceOption_cons_of_none] using hr
      | some y =>
        simp only [List.set_cons_succ, List.reduceOption_cons_of_some, ← Multiset.cons_coe, hr]
        exact Multiset.cons_swap _ _ _

theorem mem_roots : a ∈ s.roots ↔ ∃ p : ℕ, s.handles[p]? = some (some a) := by
  simp only [State.roots, Multiset.mem_coe, List.reduceOption_mem_iff]
  exact List.mem_iff_getElem?

theorem Good.live_of_handle (hg : Good s) (hp : s.handles[p]? = some (some a)) : s.heap.Live a :=
  hg.live_of_root (mem_roots.mpr ⟨p, hp⟩)

theorem sp_of_incStrong (hi : s.heap.incStrong a = .ok h) :
    s.sp s.heap a = .ok ⟨h, s.handles ++ [some a]⟩ := by
  rw [State.sp, hi]
  rfl

theorem exec_copy (hp : s.handles[p]? = some (some a)) (fuel : ℕ) :
    exec fuel s (.copy p) = s.sp s.heap a := by
  rw [exec, mPtr_of_handle hp, Fallible.ok_bind]

theorem exec_mono (hle : fuel ≤ fuel') (he : exec fuel s op = .ok t) : exec fuel' s op = .ok t := by
  cases op with
  | destroy p =>
    simp only [exec, Fallible.bind_eq_ok] at he ⊢
    obtain ⟨a, ha, h, hd, ht⟩ := he
    exact ⟨a, ha, h, decStrong_mono hle hd, ht⟩
  | _ => exact he

theorem exec_unique {t' : State} (he : exec fuel s op = .ok t) (he' : exec fuel' s op = .ok t') :
    t = t' := by
  have h₁ := exec_mono (Nat.le_max_left fuel fuel') he
  have h₂ := exec_mono (Nat.le_max_right fuel fuel') he'
  rw [h₁] at h₂
  exact Except.ok.inj h₂

/-- What an operation adds to the objects: the pointees of each new object's members. -/
def Op.built (s : State) : Op → List (List ℕ)
  | .create ps => [(ps.map fun p => s.handles[p]?.join).reduceOption]
  | _ => []

/-- What an operation does to the handles. -/
def Op.handles (s : State) : Op → List (Option ℕ)
  | .create _ => s.handles ++ [some s.heap.objects.length]
  | .wrap a => s.handles ++ [some a]
  | .copy p => s.handles ++ [s.handles[p]?.join]
  | .destroy p => s.handles.set p none
  | .deref _ => s.handles

/-- How a state can change in one operation. -/
structure Outcome (s t : State) (op : Op) : Prop where
  good : Good t
  shape : t.heap.shape = s.heap.shape ++ op.built s
  handles : t.handles = op.handles s
  deleted : s.heap.deleted <+: t.heap.deleted
  kept : (∀ p, op ≠ .destroy p) → t.heap.deleted = s.heap.deleted

/-- `sp( T *ptr )` on an object that is live. -/
theorem Good.sp (hg : Good s) (ha : s.heap.Live a)
    (hf : ∀ b, s.handleCount b + (if b = a then 1 else 0) < 2 ^ 31) :
    ∃ t, s.sp s.heap a = .ok t ∧ Good t ∧ t.heap.shape = s.heap.shape ∧
      t.heap.deleted = s.heap.deleted ∧ t.handles = s.handles ++ [some a] := by
  obtain ⟨h', he, hb, hs, hd⟩ := (Balanced.owe hg ha hf).incStrong ha
  refine ⟨⟨h', s.handles ++ [some a]⟩, sp_of_incStrong he, ?_, hs, hd, rfl⟩
  · rw [Good, State.roots, reduceOption_push]
    exact hb

theorem Good.create (hg : Good s) (hi : Issuable s (.create ps)) (hf : Fits s (.create ps)) :
    ∃ t, (∀ fuel, exec fuel s (.create ps) = .ok t) ∧ Outcome s t (.create ps) := by
  obtain ⟨ms, hms, hmap⟩ := mapM_mPtr hi
  have hl : ∀ m ∈ ms, s.heap.Live m := by
    intro m hm
    have hsome : some m ∈ ps.map fun p => s.handles[p]?.join := by
      rw [hmap]
      exact List.mem_map_of_mem hm
    obtain ⟨p, -, hp⟩ := List.mem_map.mp hsome
    exact hg.live_of_handle (Option.join_eq_some_iff.mp hp)
  have hbound : ∀ b, (s.heap.graph s.roots).inrefs b +
      (ms.count b + if b = s.heap.objects.length then 1 else 0) < 2 ^ 31 := by
    intro b
    have hfb := hf b
    simp only [State.made, hmap,
      List.count_map_of_injective _ some (Option.some_injective ℕ)] at hfb
    exact hfb
  have hb := Balanced.alloc hg hl hbound
  have hl' : ∀ m ∈ ms, (s.heap.alloc ms).Live m := by
    intro m hm
    have hlen := (hl m hm).1
    exact ⟨by simp [Heap.alloc]; omega, (hl m hm).2⟩
  obtain ⟨h₁, he₁, hb₁, hs₁, hd₁⟩ := hb.incStrongs hl'
  have hln : h₁.Live s.heap.objects.length :=
    hb₁.live_of_root (Multiset.mem_cons_self _ _)
  obtain ⟨h₂, he₂, hb₂, hs₂, hd₂⟩ := Balanced.incStrong (D := 0) hb₁ hln
  refine ⟨⟨h₂, s.handles ++ [some s.heap.objects.length]⟩, ?_, ?_, ?_, rfl, ?_, fun _ => ?_⟩
  · intro fuel
    simp only [exec, hms, he₁, State.sp, he₂, Fallible.ok_bind]
    rfl
  · rw [Good, State.roots, reduceOption_push]
    exact hb₂
  · have hro : (ms.map some).reduceOption = ms := by simp [List.reduceOption]
    simp only [hs₂, hs₁, Heap.shape_alloc, Op.built, hmap, hro]
  · simp [hd₂, hd₁, Heap.alloc]
  · simp [hd₂, hd₁, Heap.alloc]

theorem Good.destroy (hg : Good s) (hp : s.handles[p]? = some (some a))
    (hfuel : s.heap.objects.length ≤ fuel) :
    ∃ t, exec fuel s (.destroy p) = .ok t ∧ Outcome s t (.destroy p) := by
  have ha := hg.live_of_handle hp
  rw [Good, State.roots, reduceOption_drop hp] at hg
  obtain ⟨h', he, hb, hs, hd⟩ := hg.decStrong (lt_of_lt_of_le ha.1 hfuel)
  refine ⟨⟨h', s.handles.set p none⟩, ?_, hb, by simpa [Op.built] using hs, rfl, hd,
    fun hne => (hne p rfl).elim⟩
  simp only [exec, mPtr_of_handle hp, he, Fallible.ok_bind]
  rfl

/-- Every operation the program may issue comes through, and keeps the counters right. -/
theorem Good.exec (hg : Good s) (hi : Issuable s op) (hf : Fits s op) :
    ∃ t, (∀ fuel, s.heap.objects.length ≤ fuel → exec fuel s op = .ok t) ∧ Outcome s t op := by
  cases op with
  | create ps =>
    obtain ⟨t, he, ho⟩ := hg.create hi hf
    exact ⟨t, fun fuel _ => he fuel, ho⟩
  | wrap a =>
    obtain ⟨t, he, hgt, hs, hd, hh⟩ := hg.sp hi hf
    exact ⟨t, fun _ _ => he, hgt, by simp [hs, Op.built], hh, hd ▸ List.prefix_refl _, fun _ => hd⟩
  | copy p =>
    obtain ⟨a, hp⟩ := hi
    have hfa : ∀ b, s.handleCount b + (if b = a then 1 else 0) < 2 ^ 31 := by
      intro b
      have hfb := hf b
      simpa [State.made, hp, eq_comm] using hfb
    obtain ⟨t, he, hgt, hs, hd, hh⟩ := hg.sp (hg.live_of_handle hp) hfa
    refine ⟨t, fun _ _ => ?_, hgt, by simp [hs, Op.built], by simp [hh, Op.handles, hp],
      hd ▸ List.prefix_refl _, fun _ => hd⟩
    rw [exec_copy hp, he]
  | destroy p =>
    obtain ⟨a, hp⟩ := hi
    obtain ⟨t, he, ho⟩ := hg.destroy hp le_rfl
    exact ⟨t, fun fuel hfuel => exec_mono hfuel he, ho⟩
  | deref p =>
    obtain ⟨a, hp⟩ := hi
    refine ⟨s, fun _ _ => ?_, hg, by simp [Op.built], rfl, List.prefix_refl _, fun _ => rfl⟩
    simp only [AndroidRepo.StrongPointer.exec, mPtr_of_handle hp, Fallible.ok_bind,
      Heap.access_of_live (hg.live_of_handle hp)]
    rfl

theorem Good.step (hg : Good s) (hs : Step s op t) : Outcome s t op := by
  obtain ⟨hi, hf, fuel, he⟩ := hs
  obtain ⟨t', he', ho⟩ := hg.exec hi hf
  rwa [exec_unique he (he' _ le_rfl)]

theorem good_reachable (hr : Transition.Reachable Step init s) : Good s :=
  hr.invariant good_init fun _ _ _ _ hs hg => (hg.step hs).good

/-- An object is destroyed as long as it has no handle. -/
theorem Good.destroyed_iff (hg : Good s) (ha : a < s.heap.objects.length) :
    a ∈ s.heap.deleted ↔ s.handleCount a = 0 := by
  have ht := hg.tight a
  rw [Heap.mem_graph_live, Heap.Live] at ht
  change _ ↔ 0 < s.handleCount a at ht
  constructor
  · intro hd
    by_contra hne
    exact (ht.mpr (Nat.pos_of_ne_zero hne)).2 hd
  · intro hz
    by_contra hd
    have := ht.mp ⟨ha, hd⟩
    omega

theorem Outcome.destroyed_iff (ho : Outcome s t op) (ha : a < s.heap.objects.length) :
    a ∈ t.heap.deleted ↔ t.handleCount a = 0 := by
  apply ho.good.destroyed_iff
  have hl := congrArg List.length ho.shape
  simp only [Heap.length_shape, List.length_append] at hl
  omega

theorem sum_members_le (h : Heap) (a : ℕ) (L : Finset ℕ)
    (hL : L ⊆ Finset.range h.shape.length) :
    ∑ i ∈ L, (h.members i).count a ≤ h.shape.flatten.length := by
  have hrange : ∀ l : List (List ℕ),
      ∑ i ∈ Finset.range l.length, ((l[i]?).getD []).count a ≤ l.flatten.length := by
    intro l
    induction l with
    | nil => simp
    | cons ms l ih =>
      rw [List.length_cons, Finset.sum_range_succ', List.flatten_cons, List.length_append]
      have hc := List.count_le_length (a := a) (l := ms)
      simp only [List.getElem?_cons_succ, List.getElem?_cons_zero, Option.getD_some]
      omega
  exact (Finset.sum_le_sum_of_subset hL).trans (hrange h.shape)

theorem handleCount_le (s : State) (a : ℕ) :
    s.handleCount a ≤ s.handles.length + s.heap.shape.flatten.length := by
  have hr : s.graph.roots.count a ≤ s.handles.length := by
    refine (Multiset.count_le_card a _).trans ?_
    simpa [State.graph, State.roots] using List.reduceOption_length_le s.handles
  have hsub : s.graph.live ⊆ Finset.range s.heap.shape.length := by
    rw [Heap.length_shape]
    exact Finset.filter_subset _ _
  have hs : ∑ i ∈ s.graph.live, (s.graph.kids i).count a ≤ s.heap.shape.flatten.length :=
    (Finset.sum_congr rfl fun i _ => Multiset.coe_count a (s.heap.members i)).trans_le
      (sum_members_le s.heap a s.graph.live hsub)
  exact Nat.add_le_add hr hs

/-- The bound on handles is met as long as the program has few of them altogether. -/
theorem fits_of_few {size : ℕ} (hm : ∀ a, s.made a op ≤ size)
    (hf : s.handles.length + s.heap.shape.flatten.length + size < 2 ^ 31) : Fits s op := by
  intro a
  have h₁ := handleCount_le s a
  have h₂ := hm a
  omega

/-- A program that may issue an operation makes at most one handle, and one for each member. -/
theorem made_le (s : State) (op : Op) (a : ℕ) :
    s.made a op ≤ 1 + match op with
      | .create ps => ps.length
      | _ => 0 := by
  cases op with
  | create ps =>
    have hc := List.count_le_length (a := some a) (l := ps.map fun p => s.handles[p]?.join)
    rw [List.length_map] at hc
    simp only [State.made]
    split <;> omega
  | wrap b => simp only [State.made]; split <;> omega
  | copy p => simp only [State.made]; split <;> omega
  | _ => simp [State.made]

end AndroidRepo.StrongPointer
