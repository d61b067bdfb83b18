import AndroidRepo.StrongPointer.Ownership

/-! The copy operations that neither `sp` nor `RefBase` of sp_test/sp.cpp declares, and that the
compiler generates: they copy `mPtr` and `mRefs` like any other member. -/
namespace AndroidRepo.StrongPointer

open Fallible Transition

variable {s t : State} {h h' : Heap} {a b c p q : ℕ} {n : Int} {fuel : ℕ}

namespace State

/-- `p = q`: nothing is counted. -/
def assign (s : State) (p q : ℕ) : Except Fault State := do
  let _ ← s.mPtr p
  let b ← s.mPtr q
  pure { s with handles := s.handles.set p (some b) }

/-- `new T(*p)`, for a class without `sp` members such as `AAA` -/
def newCopy (s : State) (p : ℕ) : Except Fault State := do
  let a ← s.mPtr p
  let o ← s.heap.access a
  pure { s with heap := { s.heap with objects := s.heap.objects ++ [o] } }

/-- `*p = *q` -/
def assignValue (s : State) (p q : ℕ) : Except Fault State := do
  let a ← s.mPtr p
  let b ← s.mPtr q
  let _ ← s.heap.access a
  let o ← s.heap.access b
  pure { s with heap := s.heap.store a o.mRefs }

end State

inductive CopyOp where
  | sp (op : Op)
  | assign (p q : ℕ)
  | newCopy (p : ℕ)
  | assignValue (p q : ℕ)
  deriving DecidableEq, Repr

/-- One operation of a program on objects without members. It has a defined behaviour, and uses
raw pointers of live objects only. -/
inductive CopyStep : State → CopyOp → State → Prop where
  | sp {s t : State} {op : Op} {fuel : ℕ} : op.Plain → Issuable s op → exec fuel s op = .ok t →
      CopyStep s (.sp op) t
  | assign {s t : State} {p q : ℕ} : s.assign p q = .ok t → CopyStep s (.assign p q) t
  | newCopy {s t : State} {p : ℕ} : s.newCopy p = .ok t → CopyStep s (.newCopy p) t
  | assignValue {s t : State} {p q : ℕ} : s.assignValue p q = .ok t →
      CopyStep s (.assignValue p q) t

/-- Each live object's counter is the number of its handles. -/
def Matched (s : State) : Prop := ∀ a, s.heap.Live a → s.heap.mRefs a = s.handles.count (some a)

/-- No handle points to a destroyed object. -/
def NoDangling (s : State) : Prop :=
  ∀ p a : ℕ, s.handles[p]? = some (some a) → s.heap.Live a

/-! What the operations do when they come through, in any state -/

theorem mPtr_ok (he : s.mPtr p = .ok a) : s.handles[p]? = some (some a) := by
  unfold State.mPtr at he
  split at he
  · rename_i hp
    rw [hp, Except.ok.inj he]
  · cases he

theorem access_ok {o : Object} (he : h.access a = .ok o) :
    h.Live a ∧ h.objects[a]? = some o ∧ o.mRefs = h.mRefs a := by
  unfold Heap.access at he
  split at he
  · rename_i o' ho
    split at he
    · cases he
    · rename_i hd
      obtain rfl := Except.ok.inj he
      obtain ⟨hlt, -⟩ := List.getElem?_eq_some_iff.mp ho
      exact ⟨⟨hlt, hd⟩, ho, by simp [Heap.mRefs, ho]⟩
  · cases he

theorem setRefs_ok (he : h.setRefs a n = .ok h') : h' = h.store a n ∧ n ≤ intMax := by
  unfold Heap.setRefs at he
  split at he
  · rename_i hn
    exact ⟨(Except.ok.inj he).symm, hn.2⟩
  · cases he

theorem incStrong_ok (he : h.incStrong a = .ok h') :
    h.Live a ∧ h' = h.store a (h.mRefs a + 1) ∧ h.mRefs a + 1 ≤ intMax := by
  obtain ⟨o, ho, hset⟩ := bind_eq_ok.mp he
  obtain ⟨hl, -, hrefs⟩ := access_ok ho
  rw [hrefs] at hset
  exact ⟨hl, setRefs_ok hset⟩

theorem decStrong_ok (hm : ∀ o ∈ h.objects, o.members = []) (he : h.decStrong fuel a = .ok h') :
    h.Live a ∧ (h.mRefs a = 1 ∧ h' = (h.store a 0).delete a ∨
      h.mRefs a ≠ 1 ∧ h' = h.store a (h.mRefs a - 1) ∧ h.mRefs a - 1 ≤ intMax) := by
  cases fuel with
  | zero => cases he
  | succ fuel =>
    obtain ⟨o, ho, hrest⟩ := bind_eq_ok.mp he
    obtain ⟨h₁, hset, hdel⟩ := bind_eq_ok.mp hrest
    obtain ⟨hl, hget, hrefs⟩ := access_ok ho
    rw [hrefs] at hset hdel
    obtain ⟨rfl, hmax⟩ := setRefs_ok hset
    refine ⟨hl, ?_⟩
    by_cases hz : h.mRefs a - 1 = 0
    · left
      rw [if_pos hz, hm o (List.mem_of_getElem? hget), hz] at hdel
      exact ⟨by omega, (Except.ok.inj hdel).symm⟩
    · right
      rw [if_neg hz] at hdel
      exact ⟨by omega, (Except.ok.inj hdel).symm, hmax⟩

/-- What holds of the heap whatever the counters say: a live object has a positive counter, and
no object is destroyed twice. -/
structure Heap.Sound (h : Heap) : Prop where
  memberless : ∀ ms ∈ h.shape, ms = []
  counter : ∀ a, h.Live a → 1 ≤ h.mRefs a ∧ h.mRefs a ≤ intMax
  once : h.deleted.Nodup
  built : ∀ a ∈ h.deleted, a < h.objects.length

namespace Heap.Sound

theorem init : StrongPointer.init.heap.Sound where
  memberless ms hm := by simp [Heap.shape, StrongPointer.init] at hm
  counter a hl := by simp [Heap.Live, StrongPointer.init] at hl
  once := List.nodup_nil
  built a hd := by simp [StrongPointer.init] at hd

theorem store (hs : h.Sound) (ha : h.Live a) (hlo : 1 ≤ n) (hhi : n ≤ intMax) :
    (h.store a n).Sound where
  memberless := by simpa using hs.memberless
  counter b hb := by
    rw [Heap.mRefs_store ha.1]
    split
    · exact ⟨hlo, hhi⟩
    · exact hs.counter b (by simpa using hb)
  once := hs.once
  built b hb := by simpa using hs.built b hb

theorem delete (hs : h.Sound) (ha : h.Live a) : ((h.store a 0).delete a).Sound where
  memberless := by simpa using hs.memberless
  counter b hb := by
    obtain ⟨hl, hne⟩ := Heap.live_delete.mp hb
    rw [Heap.mRefs_delete, Heap.mRefs_store ha.1, if_neg hne]
    exact hs.counter b (by simpa using hl)
  once := by
    have hd := ha.2
    simpa [Heap.delete, Heap.store, List.nodup_append] using
      ⟨hs.once, fun b hb he => hd (he ▸ hb)⟩
  built b hb := by
    rcases List.mem_append.mp hb with hb | hb
    · simpa [Heap.delete] using hs.built b hb
    · rw [List.mem_singleton.mp hb]
      simpa [Heap.delete] using ha.1

theorem push (hs : h.Sound) {o : Object} (hm : o.members = []) (hlo : 1 ≤ o.mRefs)
    (hhi : o.mRefs ≤ intMax) : Heap.Sound { h with objects := h.objects ++ [o] } where
  memberless ms hms := by
    simp only [Heap.shape, List.map_append, List.mem_append, List.map_singleton,
      List.mem_singleton] at hms
    rcases hms with hms | rfl
    · exact hs.memberless ms hms
    · exact hm
  counter b hb := by
    obtain ⟨hlt, hd⟩ := hb
    simp only [List.length_append, List.length_singleton] at hlt
    by_cases he : b = h.objects.length
    · subst b
      simpa [Heap.mRefs] using ⟨hlo, hhi⟩
    · have hlt' : b < h.objects.length := by omega
      simpa [Heap.mRefs, List.getElem?_append_left hlt'] using hs.counter b ⟨hlt', hd⟩
  once := hs.once
  built b hb := by
    have := hs.built b hb
    simp only [List.length_append, List.length_singleton]
    omega

end Heap.Sound

theorem alloc_store (h : Heap) : (h.alloc []).store h.objects.length 1 =
    { h with objects := h.objects ++ [⟨1, []⟩] } := by
  have hlast : ∀ l : List Object, List.modify (l ++ [⟨0, []⟩]) l.length
      (fun o => { o with mRefs := 1 }) = l ++ [⟨1, []⟩] := by
    intro l
    induction l with
    | nil => rfl
    | cons o l ih => simpa using ih
  simp only [Heap.alloc, Heap.store, hlast]

/-- `sp( T *ptr )` on an object whose counter can be incremented -/
theorem sound_incStrong (hs : h.Sound) (he : h.incStrong a = .ok h') : h'.Sound := by
  obtain ⟨hl, rfl, hmax⟩ := incStrong_ok he
  have hc := hs.counter a hl
  exact hs.store hl (by omega) hmax

theorem sp_ok (he : s.sp h a = .ok t) :
    ∃ h', h.incStrong a = .ok h' ∧ t = ⟨h', s.handles ++ [some a]⟩ := by
  obtain ⟨h', hinc, ht⟩ := bind_eq_ok.mp he
  exact ⟨h', hinc, (Except.ok.inj ht).symm⟩

theorem sound_exec {op : Op} (hs : s.heap.Sound) (hop : op.Plain) (he : exec fuel s op = .ok t) :
    t.heap.Sound := by
  cases op with
  | create ps =>
    obtain rfl : ps = [] := hop
    obtain ⟨h', hinc, rfl⟩ := sp_ok (h := s.heap.alloc []) he
    obtain ⟨-, rfl, -⟩ := incStrong_ok hinc
    have hzero : (s.heap.alloc []).mRefs s.heap.objects.length = 0 := by
      simp [Heap.mRefs, Heap.alloc]
    simp only [hzero, Int.zero_add, alloc_store]
    exact hs.push rfl (by decide) (by decide)
  | wrap a =>
    obtain ⟨h', hinc, rfl⟩ := sp_ok he
    exact sound_incStrong hs hinc
  | copy p =>
    obtain ⟨a, -, hsp⟩ := bind_eq_ok.mp he
    obtain ⟨h', hinc, rfl⟩ := sp_ok hsp
    exact sound_incStrong hs hinc
  | destroy p =>
    obtain ⟨a, -, hrest⟩ := bind_eq_ok.mp he
    obtain ⟨h', hdec, ht⟩ := bind_eq_ok.mp hrest
    obtain rfl := Except.ok.inj ht
    have hm : ∀ o ∈ s.heap.objects, o.members = [] :=
      fun o ho => hs.memberless o.members (List.mem_map_of_mem ho)
    obtain ⟨hl, ⟨-, rfl⟩ | ⟨hne, rfl, hmax⟩⟩ := decStrong_ok hm hdec
    · exact hs.delete hl
    · have hc := hs.counter a hl
      exact hs.store hl (by omega) hmax
  | deref p =>
    obtain ⟨a, -, hrest⟩ := bind_eq_ok.mp he
    obtain ⟨o, -, ht⟩ := bind_eq_ok.mp hrest
    obtain rfl := Except.ok.inj ht
    exact hs

theorem assign_ok (he : s.assign p q = .ok t) : ∃ a b, s.handles[p]? = some (some a) ∧
    s.handles[q]? = some (some b) ∧ t = ⟨s.heap, s.handles.set p (some b)⟩ := by
  obtain ⟨a, ha, hrest⟩ := bind_eq_ok.mp he
  obtain ⟨b, hb, ht⟩ := bind_eq_ok.mp hrest
  exact ⟨a, b, mPtr_ok ha, mPtr_ok hb, (Except.ok.inj ht).symm⟩

theorem newCopy_ok (he : s.newCopy p = .ok t) : ∃ a o, s.handles[p]? = some (some a) ∧
    s.heap.Live a ∧ s.heap.objects[a]? = some o ∧ o.mRefs = s.heap.mRefs a ∧
    t = ⟨{ s.heap with objects := s.heap.objects ++ [o] }, s.handles⟩ := by
  obtain ⟨a, ha, hrest⟩ := bind_eq_ok.mp he
  obtain ⟨o, ho, ht⟩ := bind_eq_ok.mp hrest
  obtain ⟨hl, hget, hrefs⟩ := access_ok ho
  exact ⟨a, o, mPtr_ok ha, hl, hget, hrefs, (Except.ok.inj ht).symm⟩

theorem assignValue_ok (he : s.assignValue p q = .ok t) : ∃ a b,
    s.handles[p]? = some (some a) ∧ s.handles[q]? = some (some b) ∧ s.heap.Live a ∧
    s.heap.Live b ∧ t = ⟨s.heap.store a (s.heap.mRefs b), s.handles⟩ := by
  obtain ⟨a, ha, hrest⟩ := bind_eq_ok.mp he
  obtain ⟨b, hb, hrest⟩ := bind_eq_ok.mp hrest
  obtain ⟨o, ho, hrest⟩ := bind_eq_ok.mp hrest
  obtain ⟨o', ho', ht⟩ := bind_eq_ok.mp hrest
  obtain ⟨hla, -, -⟩ := access_ok ho
  obtain ⟨hlb, -, hrefs⟩ := access_ok ho'
  rw [hrefs] at ht
  exact ⟨a, b, mPtr_ok ha, mPtr_ok hb, hla, hlb, (Except.ok.inj ht).symm⟩

theorem sound_step {op : CopyOp} (hs : s.heap.Sound) (hstep : CopyStep s op t) :
    t.heap.Sound := by
  cases hstep with
  | sp hop _ he => exact sound_exec hs hop he
  | assign he =>
    obtain ⟨a, b, -, -, rfl⟩ := assign_ok he
    exact hs
  | newCopy he =>
    obtain ⟨a, o, -, hl, hget, hrefs, rfl⟩ := newCopy_ok he
    obtain ⟨hlo, hhi⟩ := hs.counter a hl
    have hm := hs.memberless o.members (List.mem_map_of_mem (List.mem_of_getElem? hget))
    exact hs.push hm (by omega) (by omega)
  | assignValue he =>
    obtain ⟨a, b, -, -, hla, hlb, rfl⟩ := assignValue_ok he
    obtain ⟨hlo, hhi⟩ := hs.counter b hlb
    exact hs.store hla hlo hhi

theorem sound_reachable (hr : Reachable CopyStep init s) : s.heap.Sound :=
  hr.invariant (P := fun s => s.heap.Sound) Heap.Sound.init
    fun _ _ _ _ hstep hs => sound_step hs hstep

theorem count_live_zero (hd : NoDangling s) (ha : ¬ s.heap.Live a) :
    s.handles.count (some a) = 0 := by
  rw [List.count_eq_zero]
  intro hm
  obtain ⟨p, hp⟩ := List.mem_iff_getElem?.mp hm
  exact ha (hd p a hp)

/-- Where the counters match and nothing dangles, `sp` is back in order. -/
theorem good_of_matched (hs : s.heap.Sound) (hm : Matched s) (hd : NoDangling s) : Good s where
  counted a hl := by
    rw [hm a hl, inrefs_of_memberless hs.memberless, Multiset.count_zero]
    simp
  nonneg a hl := by
    have := (hs.counter a hl).1
    omega
  tight a := by
    rw [Heap.mem_graph_live, inrefs_of_memberless hs.memberless]
    constructor
    · intro hl
      have hone := (hs.counter a hl).1
      have hcount := hm a hl
      omega
    · intro hpos
      by_contra hl
      have := count_live_zero hd hl
      omega
  older a b _ hb := by
    rw [members_of_memberless hs.memberless] at hb
    cases hb
  fits a := by
    rw [inrefs_of_memberless hs.memberless]
    by_cases hl : s.heap.Live a
    · have hmax := (hs.counter a hl).2
      have hcount := hm a hl
      simp only [intMax] at hmax
      omega
    · have := count_live_zero hd hl
      omega
  once := hs.once
  built := hs.built

end AndroidRepo.StrongPointer
