import AndroidRepo.StrongPointer.Assignment

/-! What assignments between handles make of whole runs: each one leaves the counter of the object
that it points away from one too high, and that of the object that it points to one too low. -/
namespace AndroidRepo.StrongPointer

open Fallible Transition

variable {s t : State} {h h' : Heap} {a b p q : ℕ} {fuel : ℕ}

/-- An operation of a program on objects without members; an assignment `p = q` with the objects
that `p` and `q` point to before it. -/
inductive AssignEvent where
  | sp (op : Op)
  | assign (p q a b : ℕ)
  deriving DecidableEq, Repr

variable {e : AssignEvent} {es : List AssignEvent}

inductive AssignStep : State → AssignEvent → State → Prop where
  | sp {s t : State} {op : Op} {fuel : ℕ} : op.Plain → Issuable s op → exec fuel s op = .ok t →
      AssignStep s (.sp op) t
  | assign {s t : State} {p q a b : ℕ} : s.handles[p]? = some (some a) →
      s.handles[q]? = some (some b) → s.assign p q = .ok t → AssignStep s (.assign p q a b) t

/-- How often a handle has been assigned away from the object. -/
def away (es : List AssignEvent) (a : ℕ) : ℕ :=
  es.countP fun
    | .assign _ _ b _ => b = a
    | _ => false

/-- How often a handle has been assigned to the object. -/
def onto (es : List AssignEvent) (a : ℕ) : ℕ :=
  es.countP fun
    | .assign _ _ _ b => b = a
    | _ => false

/-- These runs are among those with the generated copy operations. -/
theorem copyStep (hs : AssignStep s e t) : ∃ op, CopyStep s op t := by
  cases hs with
  | sp hop hi he => exact ⟨_, .sp hop hi he⟩
  | assign _ _ he => exact ⟨_, .assign he⟩

theorem sound_run (hr : Run AssignStep init es s) : s.heap.Sound := by
  refine hr.reachable.invariant (P := fun s => s.heap.Sound) Heap.Sound.init ?_
  intro s e t _ hs hsound
  obtain ⟨op, hop⟩ := copyStep hs
  exact sound_step hsound hop

/-! The counters. -/

theorem incStrong_counts (he : h.incStrong a = .ok h') (b : ℕ) :
    h'.mRefs b = h.mRefs b + (if b = a then 1 else 0) ∧ (h'.Live b ↔ h.Live b) := by
  obtain ⟨hl, rfl, -⟩ := incStrong_ok he
  rw [Heap.mRefs_store hl.1, Heap.live_store]
  by_cases hba : b = a <;> simp [hba]

theorem decStrong_counts (hm : ∀ o ∈ h.objects, o.members = []) (he : h.decStrong fuel a = .ok h')
    (b : ℕ) : h'.mRefs b = h.mRefs b - (if b = a then 1 else 0) ∧
      (h'.Live b ↔ h.Live b ∧ (b = a → h.mRefs a ≠ 1)) := by
  obtain ⟨hl, ⟨hone, rfl⟩ | ⟨hne, rfl, -⟩⟩ := decStrong_ok hm he
  · rw [Heap.mRefs_delete, Heap.mRefs_store hl.1, Heap.live_delete, Heap.live_store]
    by_cases hba : b = a <;> simp [hba, hone]
  · rw [Heap.mRefs_store hl.1, Heap.live_store]
    by_cases hba : b = a <;> simp [hba, hne]

/-- The books: the counters hold what the constructors and destructors of the handles have made of
them, and a counter is zero as soon as its object is gone. -/
structure Accounts (es : List AssignEvent) (s : State) : Prop where
  counted : ∀ a, s.heap.mRefs a + onto es a = s.handles.count (some a) + away es a
  gone : ∀ a, ¬ s.heap.Live a → s.heap.mRefs a = 0

theorem accounts_init : Accounts [] init where
  counted a := by simp [Heap.mRefs, init, onto, away]
  gone a _ := by simp [Heap.mRefs, init]

theorem away_append (es es' : List AssignEvent) (a : ℕ) :
    away (es ++ es') a = away es a + away es' a := List.countP_append

theorem onto_append (es es' : List AssignEvent) (a : ℕ) :
    onto (es ++ es') a = onto es a + onto es' a := List.countP_append

/-- The constructors of `sp`. -/
theorem Accounts.sp (h : Accounts es s) {heap : Heap}
    (hrefs : ∀ b, heap.mRefs b = s.heap.mRefs b + if b = a then 1 else 0)
    (hgone : ∀ b, ¬ heap.Live b → s.heap.mRefs b = 0 ∧ b ≠ a) :
    Accounts es ⟨heap, s.handles ++ [some a]⟩ where
  counted b := by
    have hc := h.counted b
    rw [hrefs b, List.count_append, List.count_singleton]
    by_cases hba : b = a
    · subst b
      simp only [if_true, beq_self_eq_true]
      omega
    · have hab : ¬ (some a == some b) = true := by simpa using Ne.symm hba
      rw [if_neg hba, if_neg hab]
      omega
  gone b hb := by
    obtain ⟨hzero, hne⟩ := hgone b hb
    rw [hrefs b, hzero, if_neg hne]
    rfl

theorem Accounts.incStrong (h : Accounts es s) (he : s.heap.incStrong a = .ok h') :
    Accounts es ⟨h', s.handles ++ [some a]⟩ := by
  apply h.sp fun b => (incStrong_counts he b).1
  intro b hb
  rw [(incStrong_counts he b).2] at hb
  refine ⟨h.gone b hb, ?_⟩
  rintro rfl
  exact hb (incStrong_ok he).1

theorem accounts_exec {op : Op} (h : Accounts es s) (hs : s.heap.Sound) (hop : op.Plain)
    (he : exec fuel s op = .ok t) : Accounts es t := by
  cases op with
  | create ps =>
    obtain rfl : ps = [] := hop
    obtain ⟨h', hinc, rfl⟩ := sp_ok (h := s.heap.alloc []) he
    have hrefs : ∀ b, (s.heap.alloc []).mRefs b = s.heap.mRefs b := by
      intro b
      by_cases hb : b < s.heap.objects.length
      · simp [Heap.mRefs, Heap.alloc, List.getElem?_append_left hb]
      · rcases Nat.lt_or_eq_of_le (Nat.le_of_not_lt hb) with hlt | rfl
        · have hnone : (s.heap.objects ++ [(⟨0, []⟩ : Object)])[b]? = none :=
            List.getElem?_eq_none (by simp; omega)
          simp [Heap.mRefs, Heap.alloc, hnone, List.getElem?_eq_none (Nat.le_of_lt hlt)]
        · simp [Heap.mRefs, Heap.alloc]
    apply h.sp
    · intro b
      rw [(incStrong_counts hinc b).1, hrefs b]
    · intro b hb
      rw [(incStrong_counts hinc b).2] at hb
      refine ⟨h.gone b ?_, ?_⟩
      · intro hl
        have hlt : b < (s.heap.alloc []).objects.length := by
          rw [Heap.alloc, List.length_append]
          exact Nat.lt_add_right _ hl.1
        exact hb ⟨hlt, hl.2⟩
      · rintro rfl
        exact hb (incStrong_ok hinc).1
  | wrap a =>
    obtain ⟨h', hinc, rfl⟩ := sp_ok he
    exact h.incStrong hinc
  | copy p =>
    obtain ⟨a, -, hsp⟩ := bind_eq_ok.mp he
    obtain ⟨h', hinc, rfl⟩ := sp_ok hsp
    exact h.incStrong hinc
  | destroy p =>
    obtain ⟨a, hp, hrest⟩ := bind_eq_ok.mp he
    obtain ⟨h', hdec, ht⟩ := bind_eq_ok.mp hrest
    obtain rfl := Except.ok.inj ht
    have hm : ∀ o ∈ s.heap.objects, o.members = [] :=
      fun o ho => hs.memberless o.members (List.mem_map_of_mem ho)
    have hcounts := decStrong_counts hm hdec
    constructor
    · intro b
      have hc := h.counted b
      have hset := count_set_none (mPtr_ok hp) b
      rw [(hcounts b).1]
      by_cases hba : b = a
      · rw [if_pos hba] at hset ⊢
        dsimp only
        omega
      · rw [if_neg hba] at hset ⊢
        dsimp only
        omega
    · intro b hb
      rw [(hcounts b).2] at hb
      by_cases hl : s.heap.Live b
      · obtain ⟨rfl, hone⟩ : b = a ∧ s.heap.mRefs a = 1 := by simpa [hl] using hb
        simp [(hcounts b).1, hone]
      · have hba : b ≠ a := by
          rintro rfl
          exact hl (decStrong_ok hm hdec).1
        rw [(hcounts b).1, h.gone b hl, if_neg hba]
        rfl
  | deref p =>
    obtain ⟨a, -, hrest⟩ := bind_eq_ok.mp he
    obtain ⟨o, -, ht⟩ := bind_eq_ok.mp hrest
    obtain rfl := Except.ok.inj ht
    exact h

theorem accounts_step (h : Accounts es s) (hs : s.heap.Sound) (hstep : AssignStep s e t) :
    Accounts (es ++ [e]) t := by
  cases hstep with
  | sp hop _ he =>
    obtain ⟨hcounted, hgone⟩ := accounts_exec h hs hop he
    refine ⟨?_, hgone⟩
    intro a
    simpa [onto_append, away_append, onto, away] using hcounted a
  | @assign _ p q a b hp hq he =>
    rw [assign_eq hp hq] at he
    obtain rfl := Except.ok.inj he
    refine ⟨?_, h.gone⟩
    intro c
    have hc := h.counted c
    have hset := count_set_some hp b c
    have haway : away [.assign p q a b] c = if c = a then 1 else 0 := by
      simp [away, eq_comm]
    have honto : onto [.assign p q a b] c = if c = b then 1 else 0 := by
      simp [onto, eq_comm]
    rw [onto_append, away_append, haway, honto]
    dsimp only
    omega

theorem accounts_run (hr : Run AssignStep init es s) : Accounts es s :=
  hr.snoc_induction (P := Accounts) accounts_init fun _ _ _ _ hr hs h =>
    accounts_step h (sound_run hr) hs

theorem Accounts.live_iff (h : Accounts es s) (hs : s.heap.Sound) :
    s.heap.Live a ↔ onto es a < s.handles.count (some a) + away es a := by
  have hc := h.counted a
  constructor
  · intro hl
    have hpos := (hs.counter a hl).1
    omega
  · intro hlt
    by_contra hl
    have hzero := h.gone a hl
    omega

/-- A handle can be destroyed as long as its object is there. -/
theorem destroy_iff (hs : s.heap.Sound) (hp : s.handles[p]? = some (some a)) :
    (∃ fuel t, exec fuel s (.destroy p) = .ok t) ↔ s.heap.Live a := by
  constructor
  · rintro ⟨fuel, t, he⟩
    obtain ⟨b, hptr, hrest⟩ := bind_eq_ok.mp he
    obtain ⟨h', hdec, -⟩ := bind_eq_ok.mp hrest
    obtain rfl : a = b := Except.ok.inj ((mPtr_of_handle hp).symm.trans hptr)
    exact (decStrong_ok (fun o ho => hs.memberless o.members (List.mem_map_of_mem ho)) hdec).1
  · intro hl
    obtain ⟨hlo, hhi⟩ := hs.counter a hl
    have hmembers : s.heap.members a = [] := members_of_memberless hs.memberless a
    have hset : s.heap.setRefs a (s.heap.mRefs a - 1) =
        .ok (s.heap.store a (s.heap.mRefs a - 1)) :=
      Heap.setRefs_of_range (by simp only [intMin]; omega) (by omega)
    have hdec : ∃ h', s.heap.decStrong 1 a = .ok h' := by
      rw [Heap.decStrong, Heap.access_of_live hl, ok_bind, hset, ok_bind, hmembers]
      split
      · exact ⟨_, rfl⟩
      · exact ⟨_, rfl⟩
    obtain ⟨h', hdec⟩ := hdec
    refine ⟨1, ⟨h', s.handles.set p none⟩, ?_⟩
    rw [exec, mPtr_of_handle hp, ok_bind, hdec, ok_bind]
    rfl

theorem deref_iff (hp : s.handles[p]? = some (some a)) :
    (∃ fuel t, exec fuel s (.deref p) = .ok t) ↔ s.heap.Live a := by
  constructor
  · rintro ⟨fuel, t, he⟩
    obtain ⟨b, hptr, hrest⟩ := bind_eq_ok.mp he
    obtain ⟨o, ho, -⟩ := bind_eq_ok.mp hrest
    obtain rfl : a = b := Except.ok.inj ((mPtr_of_handle hp).symm.trans hptr)
    exact (access_ok ho).1
  · intro hl
    refine ⟨0, s, ?_⟩
    rw [exec, mPtr_of_handle hp, ok_bind, Heap.access_of_live hl]
    rfl

/-- Over every run with assignments between handles: the counter of an object is off by the
assignments to it and away from it, and these alone decide its fate. It is destroyed as soon as
those to it make up for its handles and those away from it; a handle that is left then can no
longer be used or destroyed. It outlives its last handle exactly when more assignments led away
from it than to it. -/
theorem assignments_decide (hr : Run AssignStep init es s) (a : ℕ) :
    s.heap.mRefs a + onto es a = s.handles.count (some a) + away es a ∧
    (s.heap.Live a ↔ onto es a < s.handles.count (some a) + away es a) ∧
    (∀ p : ℕ, s.handles[p]? = some (some a) →
      ((∃ fuel t, exec fuel s (.destroy p) = .ok t) ↔
        onto es a < s.handles.count (some a) + away es a) ∧
      ((∃ fuel t, exec fuel s (.deref p) = .ok t) ↔
        onto es a < s.handles.count (some a) + away es a)) ∧
    ((∀ p : ℕ, s.handles[p]? ≠ some (some a)) → (s.heap.Live a ↔ onto es a < away es a)) := by
  have hs := sound_run hr
  have h := accounts_run hr
  have hlive := h.live_iff hs (a := a)
  refine ⟨h.counted a, hlive, ?_, ?_⟩
  · intro p hp
    exact ⟨(destroy_iff hs hp).trans hlive, (deref_iff hp).trans hlive⟩
  · intro hnone
    have hzero : s.handles.count (some a) = 0 := by
      rw [List.count_eq_zero]
      intro hm
      obtain ⟨p, hp⟩ := List.mem_iff_getElem?.mp hm
      exact hnone p hp
    rw [hlive, hzero, Nat.zero_add]

/-- `p = q` for the only handles of two objects, and the destruction of `q`: the object of `p` is
left without a handle, and that of `q` destroyed under the handle `p`. -/
theorem assignments_decide_two :
    let s : State := ⟨⟨[⟨1, []⟩, ⟨0, []⟩], [1]⟩, [some 1, none]⟩
    Run AssignStep init
      [.sp (.create []), .sp (.create []), .assign 0 1 0 1, .sp (.destroy 1)] s ∧
    s.heap.Live 0 ∧ ¬ ∃ fuel t, exec fuel s (.deref 0) = .ok t := by
  intro s
  have hrun : Run AssignStep init
      [.sp (.create []), .sp (.create []), .assign 0 1 0 1, .sp (.destroy 1)] s :=
    .cons (@AssignStep.sp _ _ _ 0 rfl (by simp [Issuable]) rfl) <|
      .cons (@AssignStep.sp _ _ _ 0 rfl (by simp [Issuable]) rfl) <|
      .cons (.assign rfl rfl rfl) <|
      .single (@AssignStep.sp _ _ _ 1 trivial ⟨1, rfl⟩ rfl)
  obtain ⟨-, -, -, hleft⟩ := assignments_decide hrun 0
  obtain ⟨-, -, huse, -⟩ := assignments_decide hrun 1
  refine ⟨hrun, (hleft ?_).mpr (by decide), fun hd => absurd ((huse 0 rfl).2.mp hd) (by decide)⟩
  intro p hp
  have hm : some 0 ∈ s.handles := List.mem_of_getElem? hp
  simp [s] at hm

end AndroidRepo.StrongPointer
