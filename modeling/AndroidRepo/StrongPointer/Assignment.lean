import AndroidRepo.StrongPointer.Copying

/-! What the generated copy operations do to the counters, and to the handles' destruction. -/
namespace AndroidRepo.StrongPointer

open Transition

variable {s t u : State} {a b c p q : ℕ} {ps : List ℕ} {fuel : ℕ}

/-- Any of the live handles can be destroyed, in any order. -/
theorem Good.run_destroys (hg : Good t) (hfuel : t.heap.objects.length ≤ fuel) (hnd : ps.Nodup)
    (hl : ∀ p ∈ ps, t.LiveHandle p) :
    ∃ u, run fuel t (ps.map .destroy) = .ok u ∧ Good u ∧ u.heap.shape = t.heap.shape ∧
      ∀ r, u.LiveHandle r → t.LiveHandle r ∧ r ∉ ps := by
  induction ps generalizing t with
  | nil => exact ⟨t, rfl, hg, rfl, fun r hr => ⟨hr, by simp⟩⟩
  | cons p ps ih =>
    obtain ⟨hp, hnd⟩ := List.nodup_cons.mp hnd
    obtain ⟨a, ha⟩ := hl p (by simp)
    obtain ⟨t', he, ho⟩ := hg.destroy ha hfuel
    have hshape : t'.heap.shape = t.heap.shape := by simpa [Op.built] using ho.shape
    have hlen : t'.heap.objects.length ≤ fuel := by
      have hlen' := congrArg List.length hshape
      simp only [Heap.length_shape] at hlen'
      omega
    have hlive : ∀ r, t'.LiveHandle r ↔ t.LiveHandle r ∧ r ≠ p := by
      intro r
      by_cases hr : p = r
      · simp [State.LiveHandle, ho.handles, Op.handles, hr, List.getElem?_set]
      · simp [State.LiveHandle, ho.handles, Op.handles, List.getElem?_set_ne hr, Ne.symm hr]
    obtain ⟨u, hu, hgu, hsu, hlu⟩ := ih ho.good hlen hnd fun r hr =>
      (hlive r).mpr ⟨hl r (by simp [hr]), fun he => hp (he ▸ hr)⟩
    refine ⟨u, ?_, hgu, hsu.trans hshape, ?_⟩
    · rw [run, List.map_cons, List.foldlM_cons, he, Fallible.ok_bind]
      exact hu
    · intro r hr
      obtain ⟨hrt, hrp⟩ := hlu r hr
      obtain ⟨hlr, hne⟩ := (hlive r).mp hrt
      exact ⟨hlr, by simp [hne, hrp]⟩

/-- Destroying all handles, in any order, destroys each object exactly once. -/
def DestroysEach (t : State) : Prop :=
  ∀ ps : List ℕ, ps.Nodup → (∀ p, p ∈ ps ↔ t.LiveHandle p) →
    ∃ fuel u, run fuel t (ps.map .destroy) = .ok u ∧
      ∀ a < t.heap.objects.length, u.heap.deleted.count a = 1

/-- Destroying handles, in any order, destroys an object with its last handle and not before. -/
def DestroysLast (t : State) : Prop :=
  ∀ ps : List ℕ, ps.Nodup → (∀ p ∈ ps, t.LiveHandle p) →
    ∃ fuel u, run fuel t (ps.map .destroy) = .ok u ∧ u.heap.deleted.Nodup ∧
      ∀ a, 0 < t.handles.count (some a) →
        (a ∈ u.heap.deleted ↔ u.handles.count (some a) = 0)

theorem Good.destroysEach (hg : Good t) : DestroysEach t := by
  intro ps hnd hps
  obtain ⟨u, hu, hgu, hsu, hlu⟩ := hg.run_destroys le_rfl hnd fun p hp => (hps p).mp hp
  refine ⟨_, u, hu, ?_⟩
  intro a ha
  apply hgu.deleted_once
  · intro r hr
    obtain ⟨hrt, hrp⟩ := hlu r hr
    exact hrp ((hps r).mpr hrt)
  · have hlen := congrArg List.length hsu
    simp only [Heap.length_shape] at hlen
    omega

theorem Good.destroysLast (hg : Good t) (hm : ∀ ms ∈ t.heap.shape, ms = []) : DestroysLast t := by
  intro ps hnd hps
  obtain ⟨u, hu, hgu, hsu, -⟩ := hg.run_destroys le_rfl hnd hps
  refine ⟨_, u, hu, hgu.once, ?_⟩
  intro a ha
  obtain ⟨p, hp⟩ := List.mem_iff_getElem?.mp (List.count_pos_iff.mp ha)
  have hlt := (hg.live_of_handle hp).1
  have hlen := congrArg List.length hsu
  simp only [Heap.length_shape] at hlen
  rw [← handleCount_of_memberless (hsu ▸ hm)]
  exact hgu.destroyed_iff (by omega)

theorem live_of_destroy {ops : List Op} (hp : s.handles[p]? = some (some a))
    (hm : ∀ ms ∈ s.heap.shape, ms = []) (he : run fuel s (.destroy p :: ops) = .ok t) :
    s.heap.Live a := by
  obtain ⟨u, hu, -⟩ := Fallible.bind_eq_ok.mp he
  obtain ⟨a', ha', hrest⟩ := Fallible.bind_eq_ok.mp hu
  obtain ⟨h', hdec, -⟩ := Fallible.bind_eq_ok.mp hrest
  obtain rfl : a = a' := by simpa [hp] using mPtr_ok ha'
  have hobj : ∀ o ∈ s.heap.objects, o.members = [] :=
    fun o ho => hm o.members (List.mem_map_of_mem ho)
  exact (decStrong_ok hobj hdec).1

/-- The handles that are live, each once. -/
def State.liveHandles (t : State) : List ℕ :=
  (List.range t.handles.length).filter fun p => (t.handles[p]?.join).isSome

theorem mem_liveHandles : p ∈ t.liveHandles ↔ t.LiveHandle p := by
  simp only [State.liveHandles, State.LiveHandle, List.mem_filter, List.mem_range,
    Option.isSome_iff_exists, Option.join_eq_some_iff]
  constructor
  · exact fun h => h.2
  · rintro ⟨a, ha⟩
    exact ⟨(List.getElem?_eq_some_iff.mp ha).1, a, ha⟩

theorem DestroysEach.noDangling (h : DestroysEach t) (hm : ∀ ms ∈ t.heap.shape, ms = []) :
    NoDangling t := by
  intro p a hp
  have hnd : t.liveHandles.Nodup := List.nodup_range.filter _
  have hfirst : ∀ r, r ∈ p :: t.liveHandles.erase p ↔ t.LiveHandle r := by
    intro r
    have hlive : t.LiveHandle p := ⟨a, hp⟩
    by_cases hr : r = p
    · simp [hr, hlive]
    · simp [hr, List.mem_erase_of_ne, mem_liveHandles]
  -- `p` may be the first handle to be destroyed
  obtain ⟨fuel, u, hu, -⟩ :=
    h (p :: t.liveHandles.erase p) (List.nodup_cons.mpr ⟨hnd.not_mem_erase, hnd.erase p⟩) hfirst
  exact live_of_destroy hp hm hu

theorem DestroysLast.noDangling (h : DestroysLast t) (hm : ∀ ms ∈ t.heap.shape, ms = []) :
    NoDangling t := by
  intro p a hp
  obtain ⟨fuel, u, hu, -⟩ := h [p] (by simp) (by simpa using ⟨a, hp⟩)
  exact live_of_destroy hp hm hu

theorem count_set_some {l : List (Option ℕ)} (hp : l[p]? = some (some a)) (b c : ℕ) :
    (l.set p (some b)).count (some c) + (if c = a then 1 else 0) =
      l.count (some c) + if c = b then 1 else 0 := by
  obtain ⟨hlt, -⟩ := List.getElem?_eq_some_iff.mp hp
  have hold := count_set_none hp c
  have hget : (l.set p (some b))[p]? = some (some b) := by simp [hlt]
  have hnew := count_set_none hget c
  rw [List.set_set] at hnew
  omega

/-- What an assignment `p = q` owes, where `p` pointed to `a` and `q` to `b`. -/
structure AssignKeeps (s : State) (p q a b : ℕ) (t : State) : Prop where
  target : t.handles[p]? = some (some b) ∧ t.handles[q]? = some (some b)
  matched : Matched t
  destroyed : ∀ c, (c ∈ t.heap.deleted ∧ c ∉ s.heap.deleted) ↔
    c = a ∧ a ≠ b ∧ s.handles.count (some a) = 1
  others : ∀ c, c ≠ a → c ≠ b → t.heap.objects[c]? = s.heap.objects[c]?
  afterwards : DestroysEach t

theorem assign_eq (hp : s.handles[p]? = some (some a)) (hq : s.handles[q]? = some (some b)) :
    s.assign p q = .ok ⟨s.heap, s.handles.set p (some b)⟩ := by
  rw [State.assign, mPtr_of_handle hp, mPtr_of_handle hq]
  rfl

/-- Between two objects the counters stay behind the handles. -/
theorem AssignKeeps.same (hs : s.heap.Sound) (hm : Matched s)
    (hp : s.handles[p]? = some (some a))
    (h : AssignKeeps s p q a b ⟨s.heap, s.handles.set p (some b)⟩) : a = b ∧ NoDangling s := by
  have hd := h.afterwards.noDangling hs.memberless
  have hlive : s.heap.Live b := hd p b h.target.1
  have hcount : s.heap.mRefs b = (s.handles.set p (some b)).count (some b) := h.matched b hlive
  have hold : s.heap.mRefs b = s.handles.count (some b) := hm b hlive
  have hset := count_set_some hp b b
  have hab : a = b := by
    by_contra hne
    rw [if_neg (Ne.symm hne), if_pos rfl] at hset
    omega
  subst b
  obtain ⟨hlt, hget⟩ := List.getElem?_eq_some_iff.mp hp
  have hself : s.handles.set p (some a) = s.handles := by rw [← hget, List.set_getElem_self]
  rw [hself] at hd
  exact ⟨rfl, hd⟩

theorem assignKeeps_self (hg : Good s) (hm : Matched s) (hp : s.handles[p]? = some (some a))
    (hq : s.handles[q]? = some (some a)) :
    AssignKeeps s p q a a ⟨s.heap, s.handles.set p (some a)⟩ := by
  obtain ⟨hlt, hget⟩ := List.getElem?_eq_some_iff.mp hp
  have hself : s.handles.set p (some a) = s.handles := by rw [← hget, List.set_getElem_self]
  rw [hself]
  exact ⟨⟨hp, hq⟩, hm, fun c => by simp, fun c _ _ => rfl, hg.destroysEach⟩

/-- `sp<AAA> p = new AAA(), q = new AAA();` -/
def twoObjects : State := ⟨⟨[⟨1, []⟩, ⟨1, []⟩], []⟩, [some 0, some 1]⟩

theorem reachable_twoObjects : Reachable CopyStep init twoObjects :=
  ⟨[.sp (.create []), .sp (.create [])],
    .cons (@CopyStep.sp _ _ _ 0 rfl (by simp [Issuable]) rfl) <|
    .single (@CopyStep.sp _ _ _ 0 rfl (by simp [Issuable]) rfl)⟩

theorem live_twoObjects : twoObjects.heap.Live a ↔ a = 0 ∨ a = 1 := by
  simp only [twoObjects, Heap.Live, List.length_cons, List.length_nil, List.not_mem_nil,
    not_false_eq_true, and_true]
  omega

theorem matched_twoObjects : Matched twoObjects := by
  intro a ha
  obtain rfl | rfl := live_twoObjects.mp ha <;> rfl

/-- `p = q` between the only handles of two objects: one is lost, the other destroyed too early. -/
theorem assign_between_objects :
    ¬ ∀ s, Reachable CopyStep init s → Matched s → ∀ p q a b : ℕ,
      s.handles[p]? = some (some a) → s.handles[q]? = some (some b) →
      ∃ t, s.assign p q = .ok t ∧ AssignKeeps s p q a b t := by
  intro h
  obtain ⟨t, ht, hkeeps⟩ := h twoObjects reachable_twoObjects matched_twoObjects 0 1 0 1 rfl rfl
  rw [assign_eq (a := 0) (b := 1) rfl rfl] at ht
  obtain rfl := Except.ok.inj ht
  have hsame := hkeeps.same (sound_reachable reachable_twoObjects) matched_twoObjects rfl
  exact absurd hsame.1 (by decide)

/-- An assignment does what it owes exactly when both handles point to the same object already,
and no handle of the state dangles. -/
theorem assign_keeps_iff (hr : Reachable CopyStep init s) (hm : Matched s)
    (hp : s.handles[p]? = some (some a)) (hq : s.handles[q]? = some (some b)) :
    (∃ t, s.assign p q = .ok t ∧ AssignKeeps s p q a b t) ↔ a = b ∧ NoDangling s := by
  have hs := sound_reachable hr
  rw [assign_eq hp hq]
  constructor
  · rintro ⟨t, ht, hkeeps⟩
    obtain rfl := Except.ok.inj ht
    exact hkeeps.same hs hm hp
  · rintro ⟨rfl, hd⟩
    exact ⟨_, rfl, assignKeeps_self (good_of_matched hs hm hd) hm hp hq⟩

/-- Two handles to one object, as `main` of sp_test/sp.cpp has them. -/
def sharedObject : State := ⟨⟨[⟨2, []⟩], []⟩, [some 0, some 0]⟩

theorem reachable_sharedObject : Reachable CopyStep init sharedObject :=
  ⟨[.sp (.create []), .sp (.copy 0)],
    .cons (@CopyStep.sp _ _ _ 0 rfl (by simp [Issuable]) rfl) <|
    .single (@CopyStep.sp _ _ _ 0 trivial ⟨0, rfl⟩ rfl)⟩

theorem live_sharedObject : sharedObject.heap.Live a ↔ a = 0 := by
  simp [sharedObject, Heap.Live]

theorem matched_sharedObject : Matched sharedObject := by
  intro a ha
  obtain rfl := live_sharedObject.mp ha
  rfl

theorem noDangling_sharedObject : NoDangling sharedObject := by
  intro p a hp
  have hm := List.mem_of_getElem? hp
  exact live_sharedObject.mpr (by simpa [sharedObject] using hm)

theorem assign_keeps_shared :
    ∃ t, sharedObject.assign 0 1 = .ok t ∧ AssignKeeps sharedObject 0 1 0 0 t :=
  (assign_keeps_iff reachable_sharedObject matched_sharedObject rfl rfl).mpr
    ⟨rfl, noDangling_sharedObject⟩

end AndroidRepo.StrongPointer
