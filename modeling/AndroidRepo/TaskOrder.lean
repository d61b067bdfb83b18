import AndroidRepo.TaskPool
import Mathlib.Algebra.Order.BigOperators.Group.Finset
import Mathlib.Data.Multiset.Range

/-! The orders in which the workers of a pool can finish the tasks of its queue: exactly those in
which no task is further ahead of its turn than there are other workers. -/
namespace TaskPool

open Transition

variable {ω α : Type*} {n : ℕ} {order : List ℕ}

/-- The tasks are numbered as they are submitted. What finishes as the `j`-th is less than `n`
places ahead of its turn. -/
structure Overtaking (n : ℕ) (order : List ℕ) : Prop where
  nodup : order.Nodup
  ahead : ∀ j i, order[j]? = some i → i < j + n

section Order

variable [Fintype ω] {p q : Pool ω α} {e : Event ω α} {es : List (Event ω α)}
  {tasks done : List α} {number : ω → Option ℕ} {taken i : ℕ} {w : ω} {x : α}

/-- The tasks that have been taken are the first ones: they have finished, in this order, or a
worker has them in hand. -/
structure Numbered (tasks done : List α) (p : Pool ω α) (order : List ℕ) (number : ω → Option ℕ)
    (taken : ℕ) : Prop where
  taken_le : taken ≤ tasks.length
  queue : p.queue = tasks.drop taken
  running : ∀ w, p.running w = (number w).bind fun i => tasks[i]?
  conserved : (↑order : Multiset ℕ) + ∑ w, (↑(number w).toList : Multiset ℕ) =
    Multiset.range taken
  done : done.map some = order.map fun i => tasks[i]?
  ahead : ∀ j i, order[j]? = some i → i < j + Fintype.card ω

theorem numbered_empty : Numbered [] [] (empty : Pool ω α) [] (fun _ => none) 0 where
  taken_le := Nat.le_refl _
  queue := rfl
  running _ := rfl
  conserved := by simp
  done := rfl
  ahead j i h := by simp at h

namespace Numbered

variable (h : Numbered tasks done p order number taken)

include h

theorem mem_taken : i < taken ↔ i ∈ order ∨ ∃ w, number w = some i := by
  rw [← Multiset.mem_range, ← h.conserved, Multiset.mem_add, Multiset.mem_coe, Multiset.mem_sum]
  simp

theorem overtaking : Overtaking (Fintype.card ω) order where
  nodup := by
    have hnodup := Multiset.nodup_range taken
    rw [← h.conserved] at hnodup
    exact Multiset.coe_nodup.mp (Multiset.nodup_of_le (Multiset.le_add_right _ _) hnodup)
  ahead := h.ahead

theorem lt_length (hi : i ∈ order) : i < tasks.length :=
  Nat.lt_of_lt_of_le (h.mem_taken.mpr (Or.inl hi)) h.taken_le

theorem taken_eq : taken = order.length + ∑ w, (number w).toList.length := by
  have hcard := congrArg Multiset.card h.conserved
  rw [Multiset.card_add, Multiset.coe_card, Multiset.card_sum, Multiset.card_range] at hcard
  exact hcard.symm

/-- No more tasks are in hand than there are workers. -/
theorem taken_le_card : taken ≤ order.length + Fintype.card ω := by
  have hle : ∑ w, (number w).toList.length ≤ Fintype.card ω * 1 :=
    Finset.sum_le_card_nsmul Finset.univ _ 1 fun w _ => by cases number w <;> simp
  have heq := h.taken_eq
  omega

/-- As long as fewer are in hand, one of the workers has none. -/
theorem exists_free (hlt : taken < order.length + Fintype.card ω) : ∃ w, number w = none := by
  by_contra hbusy
  have hone : ∀ w ∈ Finset.univ, (number w).toList.length = 1 := by
    intro w _
    cases hw : number w with
    | none => exact absurd ⟨w, hw⟩ hbusy
    | some i => rfl
  have heq := h.taken_eq
  rw [Finset.sum_const_nat hone, Finset.card_univ] at heq
  omega

theorem idle_iff : p.Idle ↔ order.length = tasks.length := by
  have hle := h.taken_le
  have heq := h.taken_eq
  have hqueue : p.queue = [] ↔ tasks.length ≤ taken := by
    rw [h.queue, List.drop_eq_nil_iff]
  constructor
  · rintro ⟨hq, hw⟩
    have hnone : ∀ w ∈ Finset.univ, (number w).toList.length = 0 := by
      intro w _
      cases hn : number w with
      | none => rfl
      | some i =>
        have hlt := Nat.lt_of_lt_of_le (h.mem_taken.mpr (Or.inr ⟨w, hn⟩)) hle
        have hbusy := h.running w
        rw [hw w, hn, Option.bind_some, List.getElem?_eq_getElem hlt] at hbusy
        cases hbusy
    rw [Finset.sum_eq_zero hnone] at heq
    have hall := hqueue.mp hq
    omega
  · intro hlen
    have hnone : ∑ w, (number w).toList.length = 0 := by omega
    refine ⟨hqueue.mpr (by omega), ?_⟩
    intro w
    have hw := Finset.sum_eq_zero_iff.mp hnone w (Finset.mem_univ w)
    rw [h.running w, Option.toList_eq_nil_iff.mp (List.eq_nil_of_length_eq_zero hw),
      Option.bind_none]

theorem submit (x : α) : Numbered (tasks ++ [x]) done (p.submit x) order number taken where
  taken_le := by
    have hle := h.taken_le
    rw [List.length_append]
    omega
  queue := by rw [Pool.submit, h.queue, List.drop_append_of_le_length h.taken_le]
  running w := by
    rw [Pool.submit, h.running w]
    cases hw : number w with
    | none => rfl
    | some i =>
      have hlt := Nat.lt_of_lt_of_le (h.mem_taken.mpr (Or.inr ⟨w, hw⟩)) h.taken_le
      exact (List.getElem?_append_left hlt).symm
  conserved := h.conserved
  done := by
    rw [h.done]
    exact List.map_congr_left fun i hi => (List.getElem?_append_left (h.lt_length hi)).symm
  ahead := h.ahead

variable [DecidableEq ω]

theorem take {xs : List α} (hw : number w = none) (hq : p.queue = x :: xs) :
    Numbered tasks done ⟨xs, Function.update p.running w (some x)⟩ order
      (Function.update number w (some taken)) (taken + 1) where
  taken_le := by
    have hlen := congrArg List.length (hq.symm.trans h.queue)
    rw [List.length_drop, List.length_cons] at hlen
    omega
  queue := by
    have htail := congrArg List.tail (hq.symm.trans h.queue)
    rwa [List.tail_drop] at htail
  running v := by
    by_cases hv : v = w
    · subst v
      have hhead := congrArg List.head? (hq.symm.trans h.queue)
      rw [List.head?_drop] at hhead
      simpa using hhead
    · simp [Function.update_of_ne hv, h.running v]
  conserved := by
    have hsum := sum_running_update number w (some taken)
    rw [hw, Option.toList_none, Multiset.coe_nil, add_zero] at hsum
    rw [hsum, ← add_assoc, h.conserved, Multiset.range_succ, Option.toList_some,
      Multiset.coe_singleton, Multiset.add_comm, Multiset.singleton_add]
  done := h.done
  ahead := h.ahead

theorem finish (hw : number w = some i) (hx : tasks[i]? = some x) :
    Numbered tasks (done ++ [x]) { p with running := Function.update p.running w none }
      (order ++ [i]) (Function.update number w none) taken where
  taken_le := h.taken_le
  queue := h.queue
  running v := by
    by_cases hv : v = w
    · subst v
      simp
    · simp [Function.update_of_ne hv, h.running v]
  conserved := by
    have hsum := sum_running_update number w none
    rw [hw, Option.toList_none, Multiset.coe_nil, add_zero] at hsum
    rw [← h.conserved, ← hsum, ← Multiset.coe_add, Option.toList_some]
    ac_rfl
  done := by rw [List.map_append, List.map_append, h.done, List.map_singleton,
    List.map_singleton, hx]
  ahead j k hk := by
    have htaken := h.mem_taken.mpr (Or.inr ⟨w, hw⟩)
    have hle := h.taken_le_card
    rcases Nat.lt_trichotomy j order.length with hj | rfl | hj
    · rw [List.getElem?_append_left hj] at hk
      exact h.ahead j k hk
    · rw [List.getElem?_concat_length] at hk
      obtain rfl := Option.some.inj hk
      omega
    · rw [List.getElem?_eq_none (by simp; omega)] at hk
      cases hk

theorem step (hs : Step p e q) : ∃ order' number' taken',
    Numbered (tasks ++ submitted [e]) (done ++ finished [e]) q order' number' taken' := by
  cases hs with
  | @submit x => exact ⟨order, number, taken, by simpa [submitted, finished] using h.submit x⟩
  | @take w x xs hw hq =>
    have hfree : number w = none := by
      cases hn : number w with
      | none => rfl
      | some i =>
        have hlt := Nat.lt_of_lt_of_le (h.mem_taken.mpr (Or.inr ⟨w, hn⟩)) h.taken_le
        rw [h.running w, hn, Option.bind_some, List.getElem?_eq_getElem hlt] at hw
        cases hw
    exact ⟨order, _, taken + 1, by simpa [submitted, finished] using h.take hfree hq⟩
  | @finish w x hw =>
    rw [h.running w] at hw
    obtain ⟨i, hi, hx⟩ := Option.bind_eq_some_iff.mp hw
    exact ⟨order ++ [i], _, taken, by simpa [submitted, finished] using h.finish hi hx⟩

end Numbered

variable [DecidableEq ω]

namespace Numbered

/-- The workers can take the next tasks up to one that is not too far ahead. -/
theorem exists_take (h : Numbered tasks done p order number taken) (hi : i < tasks.length)
    (hahead : i < order.length + Fintype.card ω) : ∃ es q number' taken', Run Step p es q ∧
      submitted es = [] ∧ finished es = [] ∧ Numbered tasks done q order number' taken' ∧
      i < taken' := by
  induction hn : i + 1 - taken generalizing p number taken with
  | zero => exact ⟨[], p, number, taken, .nil p, rfl, rfl, h, by omega⟩
  | succ n ih =>
    obtain ⟨w, hw⟩ := h.exists_free (by omega)
    have hq := h.queue
    rw [List.drop_eq_getElem_cons (by omega : taken < tasks.length)] at hq
    have hrunning := h.running w
    rw [hw, Option.bind_none] at hrunning
    obtain ⟨es, q, number', taken', hrun, hsub, hfin, hnum, hlt⟩ := ih (h.take hw hq) (by omega)
    exact ⟨.take w :: es, q, number', taken', .cons (.take hrunning hq) hrun, hsub, hfin, hnum, hlt⟩

/-- One more task can finish, if it is not too far ahead. -/
theorem exists_finish (h : Numbered tasks done p order number taken) (hi : i < tasks.length)
    (hahead : i < order.length + Fintype.card ω) (hnew : i ∉ order) :
    ∃ es q number' taken', Run Step p es q ∧ submitted es = [] ∧
      Numbered tasks (done ++ finished es) q (order ++ [i]) number' taken' := by
  obtain ⟨es, q, number', taken', hrun, hsub, hfin, hnum, hlt⟩ := h.exists_take hi hahead
  rcases hnum.mem_taken.mp hlt with hmem | ⟨w, hw⟩
  · exact absurd hmem hnew
  · have hx := List.getElem?_eq_getElem hi
    have hrunning := hnum.running w
    rw [hw, Option.bind_some, hx] at hrunning
    refine ⟨es ++ [.finish w tasks[i]], _, Function.update number' w none, taken',
      hrun.snoc (.finish hrunning), ?_, ?_⟩
    · rw [submitted_append, hsub]
      rfl
    · rw [finished_append, hfin]
      exact hnum.finish hw hx

/-- Every such order is that of a run. -/
theorem exists_order {rest : List ℕ} (h : Numbered tasks done p order number taken)
    (hover : Overtaking (Fintype.card ω) (order ++ rest)) (hlt : ∀ i ∈ rest, i < tasks.length) :
    ∃ es q number' taken', Run Step p es q ∧ submitted es = [] ∧
      Numbered tasks (done ++ finished es) q (order ++ rest) number' taken' := by
  induction rest generalizing p done order number taken with
  | nil => exact ⟨[], p, number, taken, .nil p, rfl, by simpa [finished] using h⟩
  | cons i rest ih =>
    obtain ⟨hi, hlt⟩ := List.forall_mem_cons.mp hlt
    have hahead : i < order.length + Fintype.card ω := hover.ahead order.length i (by simp)
    have hnew : i ∉ order := by
      intro hmem
      exact (List.nodup_append.mp hover.nodup).2.2 i hmem i List.mem_cons_self rfl
    rw [List.append_cons] at hover ⊢
    obtain ⟨es, q, _, _, hrun, hsub, hnum⟩ := h.exists_finish hi hahead hnew
    obtain ⟨es', q', number', taken', hrun', hsub', hnum'⟩ := ih hnum hover hlt
    refine ⟨es ++ es', q', number', taken', hrun.append hrun', ?_, ?_⟩
    · rw [submitted_append, hsub, hsub']
      rfl
    · rwa [finished_append, ← List.append_assoc]

end Numbered

theorem numbered_run (hr : Run Step empty es p) :
    ∃ order number taken, Numbered (submitted es) (finished es) p order number taken := by
  refine hr.snoc_induction (P := fun es p =>
    ∃ order number taken, Numbered (submitted es) (finished es) p order number taken)
    ⟨[], _, 0, numbered_empty⟩ ?_
  rintro es p e q - hs ⟨order, number, taken, h⟩
  rw [submitted_append, finished_append]
  exact h.step hs

end Order

end TaskPool
