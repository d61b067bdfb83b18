import Mathlib.Data.List.Nodup

/-! Stores into a buffer of cells that keeps a log of the cells written. A store outside of the
buffer has no result. -/
namespace StoreLog

variable {α : Type*} {ι : Type*}

structure Buffer (α : Type*) where
  cells : List α
  written : List ℕ
  deriving DecidableEq, Repr

def Buffer.store (b : Buffer α) (i : Int) (v : α) : Option (Buffer α) :=
  if 0 ≤ i ∧ i < b.cells.length then some ⟨b.cells.set i.toNat v, b.written ++ [i.toNat]⟩ else none

def Buffer.storeAll (b : Buffer α) (ws : List (ℕ × α)) : Option (Buffer α) :=
  ws.foldlM (fun b w => b.store w.1 w.2) b

variable {b t : Buffer α} {ws vs : List (ℕ × α)} {i : ℕ} {v : α}

theorem store_of_lt (h : i < b.cells.length) :
    b.store i v = some ⟨b.cells.set i v, b.written ++ [i]⟩ := by
  rw [Buffer.store, if_pos ⟨by omega, by omega⟩, Int.toNat_natCast]

theorem storeAll_append : b.storeAll (ws ++ vs) = b.storeAll ws >>= fun t => t.storeAll vs :=
  List.foldlM_append

/-- A loop whose body is a sequence of stores is one sequence of stores. -/
theorem foldlM_storeAll {xs : List ι} {body : Buffer α → ι → Option (Buffer α)}
    {stores : ι → List (ℕ × α)} (hbody : ∀ x ∈ xs, ∀ b, body b x = b.storeAll (stores x)) :
    xs.foldlM body b = b.storeAll (xs.flatMap stores) := by
  induction xs generalizing b with
  | nil => rfl
  | cons x xs ih =>
    rw [List.foldlM_cons, List.flatMap_cons, storeAll_append, hbody x (by simp)]
    cases b.storeAll (stores x) with
    | none => rfl
    | some t => exact ih fun y hy => hbody y (by simp [hy])

/-- Stores into different cells of the buffer: each of them is there at the end, and the other
cells are what they were. -/
theorem storeAll_spec (hlt : ∀ w ∈ ws, w.1 < b.cells.length) (hnd : (ws.map Prod.fst).Nodup) :
    ∃ t, b.storeAll ws = some t ∧ t.written = b.written ++ ws.map Prod.fst ∧
      t.cells.length = b.cells.length ∧ (∀ w ∈ ws, t.cells[w.1]? = some w.2) ∧
      ∀ i, i ∉ ws.map Prod.fst → t.cells[i]? = b.cells[i]? := by
  induction ws generalizing b with
  | nil => exact ⟨b, rfl, by simp, rfl, by simp, fun _ _ => rfl⟩
  | cons w ws ih =>
    obtain ⟨hw, hws⟩ := List.forall_mem_cons.mp hlt
    obtain ⟨hnotin, hnd⟩ := List.nodup_cons.mp hnd
    obtain ⟨t, ht, hlog, hlen, hthere, hother⟩ :=
      ih (b := ⟨b.cells.set w.1 w.2, b.written ++ [w.1]⟩) (by simpa using hws) hnd
    refine ⟨t, ?_, by simp [hlog], by simpa using hlen, ?_, ?_⟩
    · rw [Buffer.storeAll, List.foldlM_cons, store_of_lt hw]
      exact ht
    · intro u hu
      rcases List.mem_cons.mp hu with rfl | hu
      · rw [hother _ hnotin]
        simp [hw]
      · exact hthere u hu
    · intro i hi
      simp only [List.map_cons, List.mem_cons, not_or] at hi
      rw [hother i hi.2]
      simp [Ne.symm hi.1]

end StoreLog
