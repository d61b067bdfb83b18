import Mathlib.Algebra.BigOperators.Group.Finset.Basic
import Mathlib.Algebra.Order.BigOperators.Group.Finset
import Mathlib.Data.Finset.Max
import Mathlib.Data.Multiset.Count
import Mathlib.Logic.Relation

/-! Reference counting on a directed graph, for nodes of any type. A node is referenced by
the roots, which lie outside the graph, and by the out-edges of the live nodes. -/

structure RefGraph (ι : Type*) where
  live : Finset ι
  kids : ι → Multiset ι
  roots : Multiset ι

namespace RefGraph

variable {ι : Type*} [DecidableEq ι] {G : RefGraph ι} {a b : ι} {ks : Multiset ι}

/-- The number of references to a node: what its counter has to hold. -/
def inrefs (G : RefGraph ι) (a : ι) : ℕ :=
  G.roots.count a + ∑ i ∈ G.live, (G.kids i).count a

/-- The live nodes are exactly those that something refers to. -/
def Tight (G : RefGraph ι) : Prop := ∀ a, a ∈ G.live ↔ 0 < G.inrefs a

def hold (G : RefGraph ι) (a : ι) : RefGraph ι := { G with roots := a ::ₘ G.roots }

/-- A node dies: its out-edges outlive it for a moment, as roots that wait for their release. -/
def collapse (G : RefGraph ι) (a : ι) : RefGraph ι :=
  { G with live := G.live.erase a, roots := G.kids a + G.roots }

/-- A node is born, holding its out-edges. -/
def grow (G : RefGraph ι) (a : ι) (ks : Multiset ι) : RefGraph ι :=
  { G with live := insert a G.live, kids := Function.update G.kids a ks }

theorem inrefs_hold (G : RefGraph ι) (a b : ι) :
    (G.hold a).inrefs b = G.inrefs b + if b = a then 1 else 0 := by
  simp only [inrefs, hold, Multiset.count_cons]
  omega

/-- The death of a node moves its references and loses none. -/
theorem inrefs_collapse (h : a ∈ G.live) (b : ι) : (G.collapse a).inrefs b = G.inrefs b := by
  have hs := Finset.add_sum_erase G.live (fun i => (G.kids i).count b) h
  simp only [inrefs, collapse, Multiset.count_add]
  omega

theorem inrefs_grow (h : a ∉ G.live) (b : ι) :
    (G.grow a ks).inrefs b = G.inrefs b + ks.count b := by
  have hs : ∑ i ∈ G.live, (Function.update G.kids a ks i).count b =
      ∑ i ∈ G.live, (G.kids i).count b := by
    apply Finset.sum_congr rfl
    intro i hi
    have hne : i ≠ a := fun he => h (he ▸ hi)
    simp [hne]
  simp only [inrefs, grow, Finset.sum_insert h, Function.update_self, hs]
  omega

theorem inrefs_pos_of_root (h : a ∈ G.roots) : 0 < G.inrefs a :=
  Nat.add_pos_left (Multiset.count_pos.mpr h) _

theorem inrefs_pos_of_edge (hi : b ∈ G.live) (hk : a ∈ G.kids b) : 0 < G.inrefs a := by
  have hle := Finset.single_le_sum (f := fun i => (G.kids i).count a)
    (fun _ _ => Nat.zero_le _) hi
  have hpos : 0 < (G.kids b).count a := Multiset.count_pos.mpr hk
  simp only [inrefs]
  omega

theorem inrefs_pos_iff :
    0 < G.inrefs a ↔ a ∈ G.roots ∨ ∃ i ∈ G.live, a ∈ G.kids i := by
  constructor
  · intro h
    by_cases hr : a ∈ G.roots
    · exact Or.inl hr
    · have hc : G.roots.count a = 0 := Multiset.count_eq_zero.mpr hr
      have hs : ∑ i ∈ G.live, (G.kids i).count a ≠ 0 := by
        simp only [inrefs] at h
        omega
      obtain ⟨i, hi, hne⟩ := Finset.exists_ne_zero_of_sum_ne_zero hs
      exact Or.inr ⟨i, hi, Multiset.count_ne_zero.mp hne⟩
  · rintro (h | ⟨i, hi, hk⟩)
    · exact inrefs_pos_of_root h
    · exact inrefs_pos_of_edge hi hk

/-- One reference followed from a live node. -/
def Edge (G : RefGraph ι) (i k : ι) : Prop := i ∈ G.live ∧ k ∈ G.kids i

/-- Edges lead to smaller nodes, as they do when a node may only refer to older ones. -/
def Descending [LT ι] (G : RefGraph ι) : Prop := ∀ i ∈ G.live, ∀ k ∈ G.kids i, k < i

theorem Tight.live_of_path (h : G.Tight) {r : ι} (hr : r ∈ G.roots)
    (hp : Relation.ReflTransGen G.Edge r a) : a ∈ G.live := by
  induction hp with
  | refl => exact (h r).mpr (inrefs_pos_of_root hr)
  | tail _ he _ => exact (h _).mpr (inrefs_pos_of_edge he.1 he.2)

/-- Without cycles a tight count collects everything the roots cannot reach. -/
theorem Tight.mem_live_iff [LinearOrder ι] (h : G.Tight) (hd : G.Descending) :
    a ∈ G.live ↔ ∃ r ∈ G.roots, Relation.ReflTransGen G.Edge r a := by
  classical
  refine ⟨?_, fun ⟨r, hr, hp⟩ => h.live_of_path hr hp⟩
  intro ha
  let lost := {i ∈ G.live | ¬ ∃ r ∈ G.roots, Relation.ReflTransGen G.Edge r i}
  by_contra hno
  -- the largest lost node can only be referenced by a larger one, which is not lost
  obtain ⟨m, hm, hmax⟩ := Finset.exists_max_image lost id
    ⟨a, Finset.mem_filter.mpr ⟨ha, hno⟩⟩
  obtain ⟨hml, hmno⟩ := Finset.mem_filter.mp hm
  rcases inrefs_pos_iff.mp ((h m).mp hml) with hr | ⟨i, hi, hk⟩
  · exact hmno ⟨m, hr, .refl⟩
  · have hlt := hd i hi m hk
    by_cases hri : ∃ r ∈ G.roots, Relation.ReflTransGen G.Edge r i
    · obtain ⟨r, hr, hp⟩ := hri
      exact hmno ⟨r, hr, hp.tail ⟨hi, hk⟩⟩
    · exact absurd (hmax i (Finset.mem_filter.mpr ⟨hi, hri⟩)) (not_le.mpr hlt)

end RefGraph
