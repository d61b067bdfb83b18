import Mathlib.Data.List.Basic

/-! Folds and maps that may fail, in the `Except` monad. -/
namespace Fallible

universe u v

variable {α β : Type u} {ε : Type v} {f g : β → α → Except ε β} {xs : List α} {b c : β}

theorem bind_eq_ok {x : Except ε α} {k : α → Except ε β} :
    x >>= k = .ok b ↔ ∃ a, x = .ok a ∧ k a = .ok b := by
  cases x <;> simp [bind, Except.bind]

theorem ok_bind (a : α) (k : α → Except ε β) : (Except.ok a >>= k) = k a := rfl

/-- A fold that succeeds succeeds alike with any body that extends its own. -/
theorem foldlM_mono (hfg : ∀ b a c, f b a = .ok c → g b a = .ok c)
    (h : xs.foldlM f b = .ok c) : xs.foldlM g b = .ok c := by
  induction xs generalizing b with
  | nil => exact h
  | cons a xs ih =>
    rw [List.foldlM_cons, bind_eq_ok] at h
    obtain ⟨d, hd, hc⟩ := h
    rw [List.foldlM_cons, hfg b a d hd, ok_bind]
    exact ih hc

/-- A map succeeds when it does on every element, and then with these results. -/
theorem mapM_eq_ok {k : α → Except ε β} {r : α → Option β}
    (hk : ∀ a ∈ xs, ∃ b, k a = .ok b ∧ r a = some b) :
    ∃ bs, xs.mapM k = .ok bs ∧ xs.map r = bs.map some := by
  induction xs with
  | nil => exact ⟨[], rfl, rfl⟩
  | cons a xs ih =>
    obtain ⟨b, hb, hr⟩ := hk a (by simp)
    obtain ⟨bs, hbs, hrs⟩ := ih fun x hx => hk x (by simp [hx])
    refine ⟨b :: bs, ?_, by simp [hr, hrs]⟩
    rw [List.mapM_cons, hb, ok_bind, hbs, ok_bind]
    rfl

end Fallible
