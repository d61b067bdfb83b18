import AndroidRepo.StrongPointer.Balance

/-! The recursive `decStrong`: it ends, and it releases exactly what nothing refers to. -/
namespace AndroidRepo.StrongPointer

variable {h h' : Heap} {a b : ℕ} {n : Int} {R : Multiset ℕ} {ms : List ℕ} {fuel fuel' : ℕ}

theorem Balanced.setRefs_pred (hb : Balanced h (a ::ₘ R) 0) :
    h.setRefs a (h.mRefs a - 1) = .ok (h.store a (h.mRefs a - 1)) := by
  have ha := hb.live_of_root (Multiset.mem_cons_self a R)
  have hc := hb.counted a ha
  have hn := hb.nonneg a ha
  have hf := hb.fits a
  simp only [Multiset.count_zero] at hc
  exact Heap.setRefs_of_range (by simp [intMin]; omega) (by simp [intMax]; omega)

/-- The branch of `decStrong` that leaves the object alive. -/
theorem Balanced.release (hb : Balanced h (a ::ₘ R) 0) (hne : h.mRefs a - 1 ≠ 0) :
    Balanced (h.store a (h.mRefs a - 1)) R 0 := by
  have ha := hb.live_of_root (Multiset.mem_cons_self a R)
  have hc := hb.counted a ha
  have hn := hb.nonneg a ha
  simp only [inrefs_cons, Multiset.count_zero, if_true] at hc
  refine balanced_store hb ha (by omega) ?_ ?_ ?_
  · intro b
    have hf := hb.fits b
    rw [inrefs_cons] at hf
    omega
  · intro b
    have ht := hb.tight b
    rw [inrefs_cons] at ht
    simp only [Heap.mem_graph_live] at ht ⊢
    by_cases hba : b = a
    · subst b
      exact iff_of_true ha (by omega)
    · simpa [hba] using ht
  · intro b hl
    have hcb := hb.counted b hl
    rw [inrefs_cons] at hcb
    split <;> simp_all

/-- The branch of `decStrong` that starts the destructor: the members' references now wait
for their own `decStrong`. -/
theorem Balanced.delete (hb : Balanced h (a ::ₘ R) 0) (hz : h.mRefs a - 1 = 0) :
    Balanced ((h.store a 0).delete a) (h.members a + R) 0 := by
  have ha := hb.live_of_root (Multiset.mem_cons_self a R)
  have hc := hb.counted a ha
  simp only [inrefs_cons, Multiset.count_zero, if_true] at hc
  have hg : ((h.store a 0).delete a).graph (h.members a + R) = (h.graph R).collapse a := by
    have hd := Heap.graph_delete (h := h.store a 0) (R := R) a
    rwa [Heap.members_store, Heap.graph_store] at hd
  have hin : ∀ b, ((h.graph R).collapse a).inrefs b = (h.graph R).inrefs b :=
    RefGraph.inrefs_collapse (Heap.mem_graph_live.mpr ha)
  have hza : (h.graph R).inrefs a = 0 := by omega
  constructor
  · intro b hl
    obtain ⟨hlb, hba⟩ := Heap.live_delete.mp hl
    have hcb := hb.counted b (Heap.live_store.mp hlb)
    rw [hg, hin, Heap.mRefs_delete, Heap.mRefs_store ha.1, if_neg hba, hcb, inrefs_cons, if_neg hba,
      Nat.add_zero]
  · intro b hl
    obtain ⟨hlb, hba⟩ := Heap.live_delete.mp hl
    rw [Heap.mRefs_delete, Heap.mRefs_store ha.1, if_neg hba]
    exact hb.nonneg b (Heap.live_store.mp hlb)
  · intro b
    have ht := hb.tight b
    rw [inrefs_cons] at ht
    rw [Heap.mem_graph_live, Heap.live_delete, Heap.live_store, hg, hin]
    rw [Heap.mem_graph_live] at ht
    by_cases hba : b = a
    · subst b
      simp [hza]
    · simpa [hba] using ht
  · intro b c hl hc'
    exact hb.older b c (Heap.live_store.mp (Heap.live_delete.mp hl).1)
      (by simpa [Heap.members] using hc')
  · intro b
    have hf := hb.fits b
    rw [inrefs_cons] at hf
    rw [hg, hin]
    omega
  · have hd : a ∉ h.deleted := ha.2
    simpa [Heap.delete, Heap.store, List.nodup_append] using
      ⟨hb.once, fun b hbd he => hd (he ▸ hbd)⟩
  · intro b hd
    rcases List.mem_append.mp hd with hd | hd
    · simpa [Heap.delete] using hb.built b hd
    · obtain rfl := List.mem_singleton.mp hd
      simpa [Heap.delete] using ha.1

theorem frame_store : Frame h (h.store a n) := ⟨Heap.shape_store, List.prefix_refl _⟩

theorem frame_delete : Frame h (h.delete a) := ⟨Heap.shape_delete, List.prefix_append _ _⟩

/-- A list of pending releases, when each of them is known to come through. -/
theorem Balanced.decStrongs
    (hdec : ∀ h R a, Balanced h (a ::ₘ R) 0 → a < fuel →
      ∃ h', h.decStrong fuel a = .ok h' ∧ Balanced h' R 0 ∧ Frame h h')
    (hb : Balanced h (ms + R) 0) (hlt : ∀ a ∈ ms, a < fuel) :
    ∃ h', ms.foldlM (Heap.decStrong fuel) h = .ok h' ∧ Balanced h' R 0 ∧ Frame h h' := by
  induction ms generalizing h with
  | nil => exact ⟨h, rfl, by simpa using hb, .refl h⟩
  | cons a ms ih =>
    rw [← Multiset.cons_coe, Multiset.cons_add] at hb
    obtain ⟨h₁, he₁, hb₁, hf₁⟩ := hdec h _ a hb (hlt a (by simp))
    obtain ⟨h₂, he₂, hb₂, hf₂⟩ := ih hb₁ (fun b hm => hlt b (by simp [hm]))
    refine ⟨h₂, ?_, hb₂, hf₁.trans hf₂⟩
    simpa [List.foldlM_cons, he₁, bind, Except.bind] using he₂

/-- `decStrong` terminates on every object: members are older than their owner, so the
recursion is no deeper than the object's number. -/
theorem Balanced.decStrong (hb : Balanced h (a ::ₘ R) 0) (hlt : a < fuel) :
    ∃ h', h.decStrong fuel a = .ok h' ∧ Balanced h' R 0 ∧ Frame h h' := by
  induction fuel generalizing h R a with
  | zero => omega
  | succ fuel ih =>
    have ha := hb.live_of_root (Multiset.mem_cons_self a R)
    by_cases hz : h.mRefs a - 1 = 0
    · have hd := hb.delete hz
      rw [← Multiset.coe_reverse] at hd
      obtain ⟨h', he, hb', hf⟩ := Balanced.decStrongs (fun h R a => ih) hd
        (fun m hm => by
          have := hb.older a m ha (List.mem_reverse.mp hm)
          omega)
      refine ⟨h', ?_, hb', frame_store.trans (frame_delete.trans hf)⟩
      have hset := hb.setRefs_pred
      rw [hz] at hset
      simp [Heap.decStrong, Heap.access_of_live ha, bind, Except.bind, hz, hset, he]
    · refine ⟨h.store a (h.mRefs a - 1), ?_, hb.release hz, frame_store⟩
      simp [Heap.decStrong, Heap.access_of_live ha, bind, Except.bind, hz, hb.setRefs_pred]
      rfl

/-- More fuel never changes an outcome: the cut-off is not part of the program. -/
theorem decStrong_mono (hle : fuel ≤ fuel') (he : h.decStrong fuel a = .ok h') :
    h.decStrong fuel' a = .ok h' := by
  induction fuel generalizing fuel' h h' a with
  | zero => simp [Heap.decStrong] at he
  | succ fuel ih =>
    obtain ⟨k, rfl⟩ : ∃ k, fuel' = k + 1 := ⟨fuel' - 1, by omega⟩
    simp only [Heap.decStrong, Fallible.bind_eq_ok] at he ⊢
    obtain ⟨o, ho, h₁, hs, hr⟩ := he
    refine ⟨o, ho, h₁, hs, ?_⟩
    by_cases hz : o.mRefs - 1 = 0
    · rw [if_pos hz] at hr ⊢
      exact Fallible.foldlM_mono (fun _ _ _ hd => ih (Nat.le_of_succ_le_succ hle) hd) hr
    · rwa [if_neg hz] at hr ⊢

end AndroidRepo.StrongPointer
