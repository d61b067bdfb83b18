import AndroidRepo.StrongPointer.Assignment

/-! `new T(*p)` and `*p = *q`: the counter is part of the value that is copied. -/
namespace AndroidRepo.StrongPointer

open Transition

variable {s t : State} {h : Heap} {a b p q : ℕ}

/-- What `new T(*p)` owes: the new object starts with a count of its own. -/
def NewCopyKeeps (s : State) (p : ℕ) : Prop :=
  ∃ t, s.newCopy p = .ok t ∧ t.heap.mRefs s.heap.objects.length = 0 ∧ Matched t ∧ DestroysLast t

/-- What `*p = *q` owes, where `p` points to `a`: `a` keeps its count. -/
def AssignValueKeeps (s : State) (p q a : ℕ) : Prop :=
  ∃ t, s.assignValue p q = .ok t ∧ t.heap.mRefs a = s.heap.mRefs a ∧ Matched t ∧ DestroysLast t

theorem not_newCopyKeeps (hs : s.heap.Sound) : ¬ NewCopyKeeps s p := by
  rintro ⟨t, ht, hzero, -⟩
  obtain ⟨a, o, -, hl, -, hrefs, rfl⟩ := newCopy_ok ht
  have hnew : Heap.mRefs { s.heap with objects := s.heap.objects ++ [o] }
      s.heap.objects.length = o.mRefs := by
    simp [Heap.mRefs]
  have hpos := (hs.counter a hl).1
  rw [hnew] at hzero
  omega

theorem store_self (ha : a < h.objects.length) : h.store a (h.mRefs a) = h := by
  have hobj : h.objects.modify a (fun o => { o with mRefs := h.mRefs a }) = h.objects := by
    apply List.ext_getElem?
    intro i
    by_cases hi : a = i
    · subst i
      simp [Heap.mRefs, ha]
    · simp [hi]
  rw [Heap.store, hobj]

theorem assignValue_eq (hp : s.handles[p]? = some (some a)) (hq : s.handles[q]? = some (some b))
    (ha : s.heap.Live a) (hb : s.heap.Live b) :
    s.assignValue p q = .ok ⟨s.heap.store a (s.heap.mRefs b), s.handles⟩ := by
  rw [State.assignValue, mPtr_of_handle hp, mPtr_of_handle hq, Fallible.ok_bind, Fallible.ok_bind,
    Heap.access_of_live ha, Heap.access_of_live hb]
  rfl

theorem AssignValueKeeps.counts (hs : s.heap.Sound) (hm : Matched s)
    (hp : s.handles[p]? = some (some a)) (hq : s.handles[q]? = some (some b))
    (h : AssignValueKeeps s p q a) :
    s.handles.count (some a) = s.handles.count (some b) ∧ NoDangling s := by
  obtain ⟨t, ht, hkept, -, hlast⟩ := h
  obtain ⟨a', b', hp', hq', hla, hlb, rfl⟩ := assignValue_ok ht
  obtain rfl : a = a' := by simpa [hp] using hp'
  obtain rfl : b = b' := by simpa [hq] using hq'
  have hsound := hs.store hla (hs.counter b hlb).1 (hs.counter b hlb).2
  have hd := hlast.noDangling hsound.memberless
  simp only [Heap.mRefs_store hla.1, if_true] at hkept
  rw [hm a hla, hm b hlb] at hkept
  exact ⟨by omega, fun r c hr => Heap.live_store.mp (hd r c hr)⟩

theorem assignValueKeeps_of_counts (hs : s.heap.Sound) (hm : Matched s) (hd : NoDangling s)
    (hp : s.handles[p]? = some (some a)) (hq : s.handles[q]? = some (some b))
    (hc : s.handles.count (some a) = s.handles.count (some b)) : AssignValueKeeps s p q a := by
  have ha := hd p a hp
  have hb := hd q b hq
  have hrefs : s.heap.mRefs b = s.heap.mRefs a := by rw [hm a ha, hm b hb, hc]
  refine ⟨s, ?_, rfl, hm, (good_of_matched hs hm hd).destroysLast hs.memberless⟩
  rw [assignValue_eq hp hq ha hb, hrefs, store_self ha.1]

/-- A copy of an object with two handles starts with a count of two and no handle. -/
theorem newCopy_shared :
    ¬ ∀ s, Reachable CopyStep init s → Matched s → ∀ p q a b : ℕ,
      s.handles[p]? = some (some a) → s.handles[q]? = some (some b) →
      NewCopyKeeps s p ∧ AssignValueKeeps s p q a := by
  intro h
  obtain ⟨hnew, -⟩ := h sharedObject reachable_sharedObject matched_sharedObject 0 1 0 0 rfl rfl
  exact not_newCopyKeeps (sound_reachable reachable_sharedObject) hnew

/-- `new T(*p)` never does what it owes; `*p = *q` does exactly when both objects have equally
many handles, and no handle of the state dangles. -/
theorem copy_keeps_iff (hr : Reachable CopyStep init s) (hm : Matched s)
    (hp : s.handles[p]? = some (some a)) (hq : s.handles[q]? = some (some b)) :
    ¬ NewCopyKeeps s p ∧
    (AssignValueKeeps s p q a ↔
      s.handles.count (some a) = s.handles.count (some b) ∧ NoDangling s) := by
  have hs := sound_reachable hr
  refine ⟨not_newCopyKeeps hs, fun h => h.counts hs hm hp hq, ?_⟩
  rintro ⟨hc, hd⟩
  exact assignValueKeeps_of_counts hs hm hd hp hq hc

theorem noDangling_twoObjects : NoDangling twoObjects := by
  intro p a hp
  have hm := List.mem_of_getElem? hp
  exact live_twoObjects.mpr (by simpa [twoObjects] using hm)

theorem copy_keeps_twoObjects : AssignValueKeeps twoObjects 0 1 0 :=
  (copy_keeps_iff (b := 1) reachable_twoObjects matched_twoObjects rfl rfl).2.mpr
    ⟨by decide, noDangling_twoObjects⟩

end AndroidRepo.StrongPointer
