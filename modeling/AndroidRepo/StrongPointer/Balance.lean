import AndroidRepo.StrongPointer.Model

/-! Counters and references: the invariant of a heap, and the operations that add to it. -/
namespace AndroidRepo.StrongPointer

variable {h h' : Heap} {a b : ℕ} {n : Int} {R D : Multiset ℕ} {ms : List ℕ} {fuel : ℕ}

namespace Heap

@[simp] theorem mem_graph_live : b ∈ (h.graph R).live ↔ h.Live b := by simp [graph, Live]

@[simp] theorem graph_roots : (h.graph R).roots = R := rfl

@[simp] theorem shape_store : (h.store a n).shape = h.shape := by
  apply List.ext_getElem?
  intro i
  by_cases hi : a = i
  · subst i
    cases ho : h.objects[a]? <;> simp [shape, store, ho]
  · simp [shape, store, hi]

@[simp] theorem shape_delete : (h.delete a).shape = h.shape := rfl

@[simp] theorem shape_alloc : (h.alloc ms).shape = h.shape ++ [ms] := by simp [shape, alloc]

@[simp] theorem length_shape : h.shape.length = h.objects.length := by simp [shape]

@[simp] theorem length_store : (h.store a n).objects.length = h.objects.length := by simp [store]

@[simp] theorem live_store : (h.store a n).Live b ↔ h.Live b := by simp [Live, store]

@[simp] theorem live_delete : (h.delete a).Live b ↔ h.Live b ∧ b ≠ a := by
  simp [Live, delete, and_assoc]

theorem mRefs_store (ha : a < h.objects.length) :
    (h.store a n).mRefs b = if b = a then n else h.mRefs b := by
  by_cases hb : b = a
  · subst b
    simp [mRefs, store, ha]
  · simp [mRefs, store, hb, Ne.symm hb]

@[simp] theorem mRefs_delete : (h.delete a).mRefs b = h.mRefs b := rfl

theorem access_of_live (hl : h.Live a) : h.access a = .ok ⟨h.mRefs a, h.members a⟩ := by
  obtain ⟨hlt, hnd⟩ := hl
  simp [access, mRefs, members, shape, hlt, hnd]

theorem incStrong_of_live (hl : h.Live a) : h.incStrong a = h.setRefs a (h.mRefs a + 1) := by
  rw [incStrong, access_of_live hl, Fallible.ok_bind]

theorem setRefs_of_range (hlo : intMin ≤ n) (hhi : n ≤ intMax) :
    h.setRefs a n = .ok (h.store a n) := by
  simp [setRefs, hlo, hhi]

@[simp] theorem members_store : (h.store a n).members = h.members := by
  funext i
  simp [members]

@[simp] theorem graph_store : (h.store a n).graph R = h.graph R := by
  simp only [graph, members_store, length_store]
  rfl

theorem graph_delete (a : ℕ) :
    (h.delete a).graph (h.members a + R) = (h.graph R).collapse a := by
  simp only [graph, RefGraph.collapse, RefGraph.mk.injEq]
  refine ⟨?_, rfl, trivial⟩
  ext i
  simp only [delete, Finset.mem_filter, Finset.mem_erase, List.mem_append, List.mem_singleton]
  tauto

theorem members_alloc :
    (h.alloc ms).members = Function.update h.members h.objects.length ms := by
  funext i
  rcases lt_trichotomy i h.objects.length with hi | rfl | hi
  · simp [members, shape, alloc, hi.ne, List.getElem?_append_left, hi]
  · simp [members, shape, alloc]
  · have hold : h.shape[i]? = none := List.getElem?_eq_none (by rw [length_shape]; omega)
    have hnew : (h.shape ++ [ms])[i]? = none :=
      List.getElem?_eq_none (by rw [List.length_append, length_shape]; exact hi)
    rw [Function.update_of_ne hi.ne', members, members, shape_alloc, hold, hnew]

theorem graph_alloc (hn : h.objects.length ∉ h.deleted) :
    (h.alloc ms).graph R = (h.graph R).grow h.objects.length ms := by
  simp only [graph, RefGraph.grow, RefGraph.mk.injEq]
  refine ⟨?_, ?_, trivial⟩
  · ext i
    simp only [alloc, Finset.mem_filter, Finset.mem_range, List.length_append,
      List.length_singleton, Finset.mem_insert]
    constructor
    · rintro ⟨hi, hd⟩
      by_cases he : i = h.objects.length
      · exact Or.inl he
      · exact Or.inr ⟨lt_of_le_of_ne (Nat.lt_succ_iff.mp hi) he, hd⟩
    · rintro (rfl | ⟨hi, hd⟩)
      · exact ⟨Nat.lt_succ_self _, hn⟩
      · exact ⟨Nat.lt_succ_of_lt hi, hd⟩
  · funext i
    rw [members_alloc]
    by_cases hi : i = h.objects.length <;> simp [hi]

end Heap

/-- Counters and references agree. `R` are the references from outside the heap, among them
those whose `decStrong` is still to come; `D` are those whose `incStrong` is still owed. -/
structure Balanced (h : Heap) (R D : Multiset ℕ) : Prop where
  counted : ∀ a, h.Live a → h.mRefs a + D.count a = (h.graph R).inrefs a
  nonneg : ∀ a, h.Live a → 0 ≤ h.mRefs a
  tight : (h.graph R).Tight
  older : ∀ a b, h.Live a → b ∈ h.members a → b < a
  fits : ∀ a, (h.graph R).inrefs a < 2 ^ 31
  once : h.deleted.Nodup
  built : ∀ a ∈ h.deleted, a < h.objects.length

theorem Balanced.descending (hb : Balanced h R D) : (h.graph R).Descending :=
  fun i hi k hk => hb.older i k (Heap.mem_graph_live.mp hi) (Multiset.mem_coe.mp hk)

theorem Balanced.live_of_root (hb : Balanced h R D) (ha : a ∈ R) : h.Live a :=
  Heap.mem_graph_live.mp ((hb.tight a).mpr (RefGraph.inrefs_pos_of_root ha))

/-- An operation only adds to the deleted objects and leaves the members alone. -/
def Frame (h h' : Heap) : Prop := h'.shape = h.shape ∧ h.deleted <+: h'.deleted

theorem Frame.refl (h : Heap) : Frame h h := ⟨rfl, List.prefix_refl _⟩

theorem Frame.trans {h'' : Heap} (h₁ : Frame h h') (h₂ : Frame h' h'') : Frame h h'' :=
  ⟨h₂.1.trans h₁.1, h₁.2.trans h₂.2⟩

theorem balanced_store (hb : Balanced h R D) (ha : h.Live a) (hn : 0 ≤ n) {R' D' : Multiset ℕ}
    (hR : ∀ b, (h.graph R').inrefs b < 2 ^ 31)
    (ht : (h.graph R').Tight)
    (hs : ∀ b, h.Live b → (if b = a then n else h.mRefs b) + D'.count b = (h.graph R').inrefs b) :
    Balanced (h.store a n) R' D' where
  counted b hl := by
    rw [Heap.graph_store, Heap.mRefs_store ha.1]
    exact hs b (by simpa using hl)
  nonneg b hl := by
    rw [Heap.mRefs_store ha.1]
    split
    · exact hn
    · exact hb.nonneg b (by simpa using hl)
  tight := by simpa only [Heap.graph_store] using ht
  older b c hl hc := hb.older b c (by simpa using hl) (by simpa using hc)
  fits := by simpa only [Heap.graph_store] using hR
  once := hb.once
  built b hd := by simpa using hb.built b hd

/-- Paying an owed increment. -/
theorem Balanced.incStrong (hb : Balanced h R (a ::ₘ D)) (ha : h.Live a) :
    ∃ h', h.incStrong a = .ok h' ∧ Balanced h' R D ∧ h'.shape = h.shape ∧
      h'.deleted = h.deleted := by
  have hc := hb.counted a ha
  have hn := hb.nonneg a ha
  have hf := hb.fits a
  rw [Multiset.count_cons_self] at hc
  have hset : h.setRefs a (h.mRefs a + 1) = .ok (h.store a (h.mRefs a + 1)) :=
    Heap.setRefs_of_range (by simp [intMin]; omega) (by simp [intMax]; omega)
  refine ⟨h.store a (h.mRefs a + 1), ?_, ?_, by simp, rfl⟩
  · rw [Heap.incStrong_of_live ha, hset]
  · apply balanced_store hb ha (by omega) hb.fits hb.tight
    intro b hl
    have hcb := hb.counted b hl
    rw [Multiset.count_cons] at hcb
    split at hcb <;> simp_all
    omega

theorem Balanced.incStrongs (hb : Balanced h R (ms + D)) (hl : ∀ a ∈ ms, h.Live a) :
    ∃ h', ms.foldlM Heap.incStrong h = .ok h' ∧ Balanced h' R D ∧ h'.shape = h.shape ∧
      h'.deleted = h.deleted := by
  induction ms generalizing h with
  | nil => exact ⟨h, rfl, by simpa using hb, rfl, rfl⟩
  | cons a ms ih =>
    have hb' : Balanced h R (a ::ₘ (ms + D)) := by
      rwa [← Multiset.cons_coe, Multiset.cons_add] at hb
    obtain ⟨h₁, h₁e, hb₁, hs₁, hd₁⟩ := hb'.incStrong (hl a (by simp))
    have hl₁ : ∀ b ∈ ms, h₁.Live b := by
      intro b hm
      have hlen := congrArg List.length hs₁
      simp only [Heap.length_shape] at hlen
      simpa [Heap.Live, hlen, hd₁] using hl b (by simp [hm])
    obtain ⟨h₂, h₂e, hb₂, hs₂, hd₂⟩ := ih hb₁ hl₁
    refine ⟨h₂, ?_, hb₂, hs₂.trans hs₁, hd₂.trans hd₁⟩
    simpa [List.foldlM_cons, h₁e, bind, Except.bind] using h₂e

theorem inrefs_cons (h : Heap) (R : Multiset ℕ) (a b : ℕ) :
    (h.graph (a ::ₘ R)).inrefs b = (h.graph R).inrefs b + if b = a then 1 else 0 :=
  RefGraph.inrefs_hold (h.graph R) a b

/-- A new reference to a live object, whose increment is still owed. -/
theorem Balanced.owe (hb : Balanced h R D) (ha : h.Live a)
    (hf : ∀ b, (h.graph R).inrefs b + (if b = a then 1 else 0) < 2 ^ 31) :
    Balanced h (a ::ₘ R) (a ::ₘ D) where
  counted b hl := by
    have hc := hb.counted b hl
    rw [inrefs_cons, Multiset.count_cons]
    by_cases hba : b = a
    · subst b
      simp only [if_true]
      omega
    · simpa [hba] using hc
  nonneg := hb.nonneg
  tight b := by
    have ht := hb.tight b
    rw [Heap.mem_graph_live] at ht
    rw [inrefs_cons, Heap.mem_graph_live]
    by_cases hba : b = a
    · subst b
      exact iff_of_true ha (by simp)
    · simpa [hba] using ht
  older := hb.older
  fits b := by
    rw [inrefs_cons]
    exact hf b
  once := hb.once
  built := hb.built

/-- A new object and its members, before any of the constructors' increments. -/
theorem Balanced.alloc (hb : Balanced h R 0) (hl : ∀ m ∈ ms, h.Live m)
    (hf : ∀ b,
      (h.graph R).inrefs b + (ms.count b + if b = h.objects.length then 1 else 0) < 2 ^ 31) :
    Balanced (h.alloc ms) (h.objects.length ::ₘ R) (ms + {h.objects.length}) := by
  have hnd : h.objects.length ∉ h.deleted := fun hd => lt_irrefl _ (hb.built _ hd)
  have hnl : ¬ h.Live h.objects.length := fun hl => lt_irrefl _ hl.1
  have hin : ∀ b, ((h.alloc ms).graph (h.objects.length ::ₘ R)).inrefs b =
      (h.graph R).inrefs b + ms.count b + if b = h.objects.length then 1 else 0 := by
    intro b
    rw [inrefs_cons, Heap.graph_alloc hnd,
      RefGraph.inrefs_grow (fun hm => hnl (Heap.mem_graph_live.mp hm)), Multiset.coe_count]
  have hlive : ∀ b, (h.alloc ms).Live b ↔ h.Live b ∨ b = h.objects.length := by
    intro b
    simp only [Heap.Live, Heap.alloc, List.length_append, List.length_singleton]
    constructor
    · rintro ⟨hlt, hd⟩
      by_cases he : b = h.objects.length
      · exact Or.inr he
      · exact Or.inl ⟨by omega, hd⟩
    · rintro (⟨hlt, hd⟩ | rfl)
      · exact ⟨by omega, hd⟩
      · exact ⟨by omega, hnd⟩
  have hz : (h.graph R).inrefs h.objects.length = 0 := by
    have ht := hb.tight h.objects.length
    rw [Heap.mem_graph_live] at ht
    have := mt ht.mpr hnl
    omega
  have hcz : ms.count h.objects.length = 0 := by
    rw [List.count_eq_zero]
    exact fun hm => hnl (hl _ hm)
  have hold : ∀ b, b < h.objects.length → (h.alloc ms).mRefs b = h.mRefs b := by
    intro b hlt
    simp [Heap.mRefs, Heap.alloc, List.getElem?_append_left hlt]
  have hnew : (h.alloc ms).mRefs h.objects.length = 0 := by simp [Heap.mRefs, Heap.alloc]
  constructor
  · intro b hb'
    rw [hin, Multiset.count_add, Multiset.coe_count, Multiset.count_singleton]
    rcases (hlive b).mp hb' with hlb | rfl
    · have hc := hb.counted b hlb
      have hne : b ≠ h.objects.length := hlb.1.ne
      simp only [Multiset.count_zero] at hc
      rw [hold b hlb.1, if_neg hne]
      push_cast
      omega
    · rw [hnew, hz, hcz]
      simp
  · intro b hb'
    rcases (hlive b).mp hb' with hlb | rfl
    · exact (hold b hlb.1).symm ▸ hb.nonneg b hlb
    · exact hnew.ge
  · intro b
    have ht := hb.tight b
    rw [Heap.mem_graph_live] at ht
    rw [Heap.mem_graph_live, hlive, hin]
    constructor
    · rintro (hlb | rfl)
      · have := ht.mp hlb
        omega
      · simp
    · intro hpos
      by_cases he : b = h.objects.length
      · exact Or.inr he
      · rw [if_neg he] at hpos
        by_cases hm : b ∈ ms
        · exact Or.inl (hl b hm)
        · rw [List.count_eq_zero.mpr hm] at hpos
          exact Or.inl (ht.mpr (by omega))
  · intro b c hb' hc
    rw [Heap.members_alloc] at hc
    rcases (hlive b).mp hb' with hlb | rfl
    · rw [Function.update_of_ne hlb.1.ne] at hc
      exact hb.older b c hlb hc
    · rw [Function.update_self] at hc
      exact (hl c hc).1
  · intro b
    have := hf b
    rw [hin]
    omega
  · exact hb.once
  · intro b hd
    have := hb.built b hd
    simp only [Heap.alloc, List.length_append, List.length_singleton]
    omega

end AndroidRepo.StrongPointer
