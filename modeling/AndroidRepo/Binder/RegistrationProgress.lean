import AndroidRepo.Binder.RegistrationSafety

/-! Registrations never get stuck: the nested call into a client that waits for its reply is
taken up there, and a request that finds every thread busy waits for threads that can move. Each
of them is over after eight steps. -/
namespace AndroidRepo.Binder.Registration

open Transition

variable {L : Libbinder} {ι ω : Type} {owner : L.IBinder → ι} {s t : State L ι ω}
  {g : ι → Stage L ω} {c : ι} {w : ω} {a : Action ι ω}
  {as bs : List (Action ι ω)}

/-- Some call has not returned yet. -/
def Outstanding (s : State L ι ω) : Prop :=
  (∃ c, s.client c ≠ .idle) ∨ (∃ w, s.server w ≠ .free) ∨ s.inFlight ≠ []

theorem Tracks.exists_active (h : Tracks owner s g) (ho : Outstanding s) : ∃ c, g c ≠ .idle := by
  rcases ho with ⟨c, hc⟩ | ⟨w, hw⟩ | hm
  · refine ⟨c, ?_⟩
    intro hg
    apply hc
    rw [h.client c, hg]
    rfl
  · obtain ⟨c, hc, -⟩ := h.server.busy hw
    refine ⟨c, ?_⟩
    intro hg
    rw [hg] at hc
    cases hc
  · obtain ⟨m, hm⟩ := List.exists_mem_of_ne_nil _ hm
    obtain ⟨c, hc⟩ := (h.inFlight.2 m).mp hm
    refine ⟨c, ?_⟩
    intro hg
    rw [hg] at hc
    cases hc

/-- The history of a client that is not in a call, or of one that is: its callback has been
called at most once in this call, and exactly once in each call that has returned. -/
def Exchanged (owner : L.IBinder → ι) (c : ι) (client : Client L ω) (log : List (Event L)) : Prop :=
  ∃ past : List (IMyDataCallback L), (∀ cb ∈ past, owner cb.asBinder = c) ∧
    ((client = .idle ∧ log = past.flatMap block) ∨
      client ≠ .idle ∧ ∃ cb : IMyDataCallback L, owner cb.asBinder = c ∧
        (log = past.flatMap block ++ [.began cb.asBinder] ∨
          log = past.flatMap block ++
            [.began cb.asBinder, .received cb.asBinder MyDataService.greeting]))

theorem Tracks.exchanged (h : Tracks owner s g) (c : ι) :
    Exchanged owner c (s.client c) (s.log c) := by
  obtain ⟨past, hown, hlog⟩ := h.log c
  refine ⟨past, hown, ?_⟩
  rw [h.client c, hlog]
  cases hg : g c with
  | idle => exact Or.inl ⟨rfl, List.append_nil _⟩
  | requested cb | accepted w cb | called w cb | serving w cb =>
    exact Or.inr ⟨nofun, cb, h.own c cb (by rw [hg]; rfl), Or.inl rfl⟩
  | answered w cb | returning w cb | replied cb =>
    exact Or.inr ⟨nofun, cb, h.own c cb (by rw [hg]; rfl), Or.inr rfl⟩

theorem Tracks.inTransit (h : Tracks owner s g) {m : Message L ι ω}
    (hm : (g c).message c = some m) : ∃ l₁ l₂, s.inFlight = l₁ ++ m :: l₂ :=
  List.append_of_mem ((h.inFlight.2 m).mpr ⟨c, hm⟩)

section Steps

variable [DecidableEq ι] [DecidableEq ω]

/-- A thread that works for a client, or that client, can move. -/
theorem Tracks.served_moves (h : Tracks owner s g) (hc : (g c).thread = some w) :
    ∃ a t, (∀ d, a ≠ .start d) ∧ Step owner s a t := by
  have hserver := h.server_eq hc
  have hclient := h.client c
  cases hg : g c with
  | idle | requested _ | replied _ => rw [hg] at hc; cases hc
  | accepted v cb =>
    rw [hg] at hserver hc
    exact ⟨_, _, by simp, .dispatch hserver⟩
  | called v cb =>
    rw [hg] at hserver hclient hc
    cases hc
    obtain ⟨l₁, l₂, hm⟩ := h.inTransit (by rw [hg]; rfl)
    obtain rfl := h.own c cb (by rw [hg]; rfl)
    exact ⟨_, _, by simp, .deliver hm hserver hclient⟩
  | serving v cb =>
    rw [hg] at hclient
    exact ⟨_, _, by simp, .handle hclient⟩
  | answered v cb =>
    rw [hg] at hserver hc
    cases hc
    obtain ⟨l₁, l₂, hm⟩ := h.inTransit (by rw [hg]; rfl)
    exact ⟨_, _, by simp, .resume hserver hm⟩
  | returning v cb =>
    rw [hg] at hserver
    exact ⟨_, _, by simp, .respond hserver⟩

/-- A request waits for a free thread, or for one that is busy and can itself move. -/
theorem Tracks.moves [Nonempty ω] (h : Tracks owner s g) (hc : g c ≠ .idle) :
    ∃ a t, (∀ d, a ≠ .start d) ∧ Step owner s a t := by
  cases hthread : (g c).thread with
  | some w => exact h.served_moves hthread
  | none =>
    cases hg : g c with
    | idle => exact absurd hg hc
    | accepted _ _ | called _ _ | serving _ _ | answered _ _ | returning _ _ =>
      rw [hg] at hthread
      cases hthread
    | requested cb =>
      obtain ⟨l₁, l₂, hm⟩ := h.inTransit (by rw [hg]; rfl)
      obtain ⟨w⟩ := ‹Nonempty ω›
      by_cases hfree : s.server w = .free
      · exact ⟨_, _, by simp, .accept hfree hm⟩
      · obtain ⟨d, hd, -⟩ := h.server.busy hfree
        exact h.served_moves hd
    | replied cb =>
      obtain ⟨l₁, l₂, hm⟩ := h.inTransit (by rw [hg]; rfl)
      have hclient := h.client c
      rw [hg] at hclient
      exact ⟨_, _, by simp, .finish hclient hm⟩

/-! How many steps the calls take. -/

def Action.isStart : Action ι ω → Bool
  | .start _ => true
  | _ => false

/-- How often a client has called `registerCallback` in a run. -/
def calls (as : List (Action ι ω)) (c : ι) : ℕ :=
  as.countP fun
    | .start d => d = c
    | _ => false

omit [DecidableEq ω] in
theorem calls_le (as : List (Action ι ω)) (c : ι) : calls as c ≤ as.countP Action.isStart := by
  apply List.countP_mono_left
  intro a _ ha
  cases a with
  | start d => rfl
  | client d | server w => cases ha

/-- No other call is begun. -/
def AnswerStep (owner : L.IBinder → ι) (s : State L ι ω) (a : Action ι ω) (t : State L ι ω) :
    Prop := Step owner s a t ∧ ∀ c, a ≠ .start c

omit [DecidableEq ω] in
/-- A client that moves pays one step, and eight are added to the account when it calls. -/
theorem account_step {S : Finset ι} {st : Stage L ω} {a : Action ι ω} (hS : ∀ d ∉ S, g d = .idle)
    (ha : (g c).Advances a c st) :
    ∃ S' : Finset ι, (∀ d ∉ S', Function.update g c st d = .idle) ∧
      ∑ d ∈ S', (Function.update g c st d).left + 1 =
        ∑ d ∈ S, (g d).left + if a.isStart then 8 else 0 := by
  refine ⟨insert c S, ?_, ?_⟩
  · intro d hd
    rw [Finset.mem_insert, not_or] at hd
    rw [Function.update_of_ne hd.1]
    exact hS d hd.2
  · have hsame : ∑ d ∈ insert c S, (g d).left = ∑ d ∈ S, (g d).left :=
      Finset.sum_insert_of_eq_zero_if_notMem fun hc => by rw [hS c hc]; rfl
    have hsum := sum_of_ne_of_mem (f := fun d => (Function.update g c st d).left)
      (g := fun d => (g d).left) (Finset.mem_insert_self c S)
      fun d hd => by rw [Function.update_of_ne hd]
    simp only [Function.update_self] at hsum
    cases a with
    | start d =>
      obtain ⟨-, hidle, hleft⟩ := ha
      have hzero : (g c).left = 0 := by rw [hidle]; rfl
      simp only [Action.isStart, if_true]
      omega
    | client d | server w =>
      have hleft : st.left + 1 = (g c).left := ha
      simp only [Action.isStart, Bool.false_eq_true, if_false]
      omega

/-- The steps of the run `as`, and those that the clients have still to take, are the eight of each
call. -/
def Accounted (owner : L.IBinder → ι) (as : List (Action ι ω)) (s : State L ι ω) : Prop :=
  ∃ (g : ι → Stage L ω) (S : Finset ι), Tracks owner s g ∧ (∀ d ∉ S, g d = .idle) ∧
    as.length + ∑ d ∈ S, (g d).left = 8 * as.countP Action.isStart

theorem accounted_run (hL : L.Lawful) (hr : Run (Step owner) (init L ι ω) as s) :
    Accounted owner as s := by
  refine hr.snoc_induction ⟨_, ∅, tracks_init, by simp, by simp⟩ ?_
  rintro as s a t - hs ⟨g, S, hg, hS, hcount⟩
  obtain ⟨c, st, ha, ht⟩ := tracks_step hL hg hs
  obtain ⟨S', hS', hsum⟩ := account_step hS ha
  refine ⟨_, S', ht, hS', ?_⟩
  rw [List.length_append, List.length_singleton, List.countP_append, List.countP_singleton,
    Nat.mul_add, ← hcount]
  split at hsum
  · rename_i hstart
    rw [if_pos hstart]
    omega
  · rename_i hstart
    rw [if_neg hstart]
    omega

/-- No call takes more than its eight steps. -/
theorem length_le (hL : L.Lawful) (hr : Run (Step owner) (init L ι ω) as s) :
    as.length ≤ 8 * as.countP Action.isStart := by
  obtain ⟨g, S, -, -, hcount⟩ := accounted_run hL hr
  omega

theorem answer_run (hr : Run (AnswerStep owner) s bs t) :
    Run (Step owner) s bs t ∧ bs.countP Action.isStart = 0 := by
  refine ⟨hr.imp fun _ _ _ hs => hs.1, ?_⟩
  induction hr with
  | nil => rfl
  | @cons s t u a as hs _ ih =>
    cases a with
    | start c => exact absurd rfl (hs.2 c)
    | client c | server w => exact ih

/-! What a history says about the calls of its client. -/

def Event.isBegan : Event L → Bool
  | .began _ => true
  | _ => false

theorem step_log (hs : Step owner s a t) (c : ι) :
    ∃ new, t.log c = s.log c ++ new ∧ new.countP Event.isBegan = calls [a] c := by
  cases hs with
  | @start d cb _ _ =>
    by_cases hd : d = c
    · exact ⟨[.began cb.asBinder], by simp [hd], by simp [calls, hd, Event.isBegan]⟩
    · exact ⟨[], by simp [Ne.symm hd], by simp [calls, hd]⟩
  | @handle d w target tx _ =>
    by_cases hd : d = c
    · subst d
      refine ⟨_, Function.update_self .., ?_⟩
      rw [List.countP_map]
      exact List.countP_eq_zero.mpr fun call _ => by cases call; simp [receivedBy, Event.isBegan]
    · exact ⟨[], by simp [Ne.symm hd], rfl⟩
  | @finish d status l₁ l₂ _ _ =>
    by_cases hd : d = c
    · subst d
      exact ⟨_, Function.update_self .., rfl⟩
    · exact ⟨[], by simp [Ne.symm hd], rfl⟩
  | _ => exact ⟨[], (List.append_nil _).symm, rfl⟩

theorem run_log (hr : Run (Step owner) s as t) (c : ι) :
    ∃ new, t.log c = s.log c ++ new ∧ new.countP Event.isBegan = calls as c := by
  induction hr with
  | nil => exact ⟨[], (List.append_nil _).symm, rfl⟩
  | @cons s t u a as hs _ ih =>
    obtain ⟨new, hnew, hcount⟩ := step_log hs c
    obtain ⟨more, hmore, hcounts⟩ := ih
    refine ⟨new ++ more, by rw [hmore, hnew, List.append_assoc], ?_⟩
    rw [List.countP_append, hcount, hcounts]
    exact List.countP_append.symm

theorem began_blocks (past : List (IMyDataCallback L)) :
    (past.flatMap block).countP Event.isBegan = past.length := by
  induction past with
  | nil => rfl
  | cons cb past ih =>
    rw [List.flatMap_cons, List.countP_append, ih, List.length_cons, Nat.add_comm]
    rfl

/-- One client alone: its call reaches the server, comes back nested, and returns. -/
theorem exchange_run (hL : L.Lawful) (w : ω) (cb : IMyDataCallback L)
    (hc : owner cb.asBinder = c) (hidle : s.client c = .idle) (hfree : s.server w = .free)
    (hnone : s.inFlight = []) :
    ∃ t, Run (Step owner) s [.start c, .server w, .server w, .client c, .client c, .server w,
        .server w, .client c] t ∧ t.client c = .idle ∧ t.log c = s.log c ++ block cb := by
  obtain ⟨s₁, h₁, hc₁, hw₁, hm₁, hl₁⟩ : ∃ t, Step owner s (.start c) t ∧ t.client c = .waiting ∧
      t.server w = .free ∧
      t.inFlight = [.request c (BpMyDataService.registerCallback L (some cb))] ∧
      t.log c = s.log c ++ [.began cb.asBinder] :=
    ⟨_, .start hidle hc, by simp, hfree, by simp [hnone], by simp⟩
  obtain ⟨s₂, h₂, hc₂, hw₂, hm₂, hl₂⟩ : ∃ t, Step owner s₁ (.server w) t ∧ t.client c = .waiting ∧
      t.server w = .received c (BpMyDataService.registerCallback L (some cb)) ∧
      t.inFlight = [] ∧ t.log c = s₁.log c :=
    ⟨_, .accept hw₁ (hm₁.trans (List.nil_append _).symm), hc₁, by simp, rfl, rfl⟩
  obtain ⟨s₃, h₃, hc₃, hw₃, hm₃, hl₃⟩ : ∃ t, Step owner s₂ (.server w) t ∧ t.client c = .waiting ∧
      t.server w = .calling c NO_ERROR ∧
      t.inFlight =
        [.call w cb.asBinder (BpMyDataCallback.onDataReceived L MyDataService.greeting)] ∧
      t.log c = s₂.log c := by
    refine ⟨_, .dispatch hw₂, hc₂, ?_, ?_, rfl⟩ <;> simp [dispatch_registered hL, hm₂]
  obtain ⟨s₄, h₄, hc₄, hw₄, hm₄, hl₄⟩ : ∃ t, Step owner s₃ (.client c) t ∧
      t.client c =
        .serving w cb.asBinder (BpMyDataCallback.onDataReceived L MyDataService.greeting) ∧
      t.server w = .calling c NO_ERROR ∧ t.inFlight = [] ∧ t.log c = s₃.log c := by
    subst hc
    exact ⟨_, .deliver (hm₃.trans (List.nil_append _).symm) hw₃ hc₃, by simp, hw₃, rfl, rfl⟩
  obtain ⟨s₅, h₅, hc₅, hw₅, hm₅, hl₅⟩ : ∃ t, Step owner s₄ (.client c) t ∧ t.client c = .waiting ∧
      t.server w = .calling c NO_ERROR ∧ t.inFlight = [.callReply w NO_ERROR] ∧
      t.log c = s₄.log c ++ [.received cb.asBinder MyDataService.greeting] := by
    refine ⟨_, .handle hc₄, by simp, hw₄, ?_, ?_⟩ <;>
      simp [onDataReceived_roundTrip hL, accepted, receivedBy, hm₄]
  obtain ⟨s₆, h₆, hc₆, hw₆, hm₆, hl₆⟩ : ∃ t, Step owner s₅ (.server w) t ∧ t.client c = .waiting ∧
      t.server w = .returning c NO_ERROR ∧ t.inFlight = [] ∧ t.log c = s₅.log c :=
    ⟨_, .resume hw₅ (hm₅.trans (List.nil_append _).symm), hc₅, by simp, rfl, rfl⟩
  obtain ⟨s₇, h₇, hc₇, hm₇, hl₇⟩ : ∃ t, Step owner s₆ (.server w) t ∧ t.client c = .waiting ∧
      t.inFlight = [.reply c NO_ERROR] ∧ t.log c = s₆.log c :=
    ⟨_, .respond hw₆, hc₆, by simp [hm₆], rfl⟩
  refine ⟨_, .cons h₁ <| .cons h₂ <| .cons h₃ <| .cons h₄ <| .cons h₅ <| .cons h₆ <| .cons h₇ <|
    .single <| .finish hc₇ (hm₇.trans (List.nil_append _).symm), by simp, ?_⟩
  simp [hl₇, hl₆, hl₅, hl₄, hl₃, hl₂, hl₁, block]

theorem outstanding_moves [Nonempty ω] (hL : L.Lawful)
    (hr : Reachable (Step owner) (init L ι ω) s) (ho : Outstanding s) :
    ∃ a t, (∀ c, a ≠ .start c) ∧ Step owner s a t := by
  obtain ⟨g, h⟩ := tracks_reachable hL hr
  obtain ⟨c, hc⟩ := h.exists_active ho
  exact h.moves hc

/-- At rest every call has returned. -/
theorem rest_answered [Nonempty ω] (hL : L.Lawful) (hr : Reachable (Step owner) (init L ι ω) s)
    (hrest : AtRest (AnswerStep owner) s) : ¬ Outstanding s := by
  intro ho
  obtain ⟨a, t, ha, hs⟩ := outstanding_moves hL hr ho
  exact hrest a t ⟨hs, ha⟩

/-- Where no call is under way, the history of a client consists of whole exchanges, one for each
of its calls. -/
theorem answered_history (hL : L.Lawful) (hr : Run (Step owner) (init L ι ω) as s)
    (hdone : ¬ Outstanding s) (c : ι) :
    s.client c = .idle ∧ ∃ past : List (IMyDataCallback L), past.length = calls as c ∧
      (∀ cb ∈ past, owner cb.asBinder = c) ∧ s.log c = past.flatMap block := by
  obtain ⟨g, h⟩ := tracks_reachable hL hr.reachable
  have hidle : s.client c = .idle := by
    by_contra hc
    exact hdone (Or.inl ⟨c, hc⟩)
  obtain ⟨past, hown, ⟨-, hlog⟩ | ⟨hc, -⟩⟩ := h.exchanged c
  · obtain ⟨new, hnew, hcount⟩ := run_log hr c
    have hall : s.log c = new := hnew
    refine ⟨hidle, past, ?_, hown, hlog⟩
    rw [← began_blocks past, ← hlog, hall, hcount]
  · exact absurd hidle hc

/-- Each callback is called exactly once per registration, with the server's string, on the
client's own object and before the registration returns; and no reachable state is stuck. If no
other call is begun, every run comes to an end, within eight steps for each call since the start,
and then every call of every client has returned after its one exchange. -/
theorem callback_exactly_once [Nonempty ω] (hL : L.Lawful)
    (hr : Run (Step owner) (init L ι ω) as s) :
    (∀ c, Exchanged owner c (s.client c) (s.log c)) ∧
    (Outstanding s → ∃ a t, (∀ c, a ≠ .start c) ∧ Step owner s a t) ∧
    (∀ bs t, Run (AnswerStep owner) s bs t →
      as.length + bs.length ≤ 8 * as.countP Action.isStart) ∧
    (∃ bs t, Run (AnswerStep owner) s bs t ∧ AtRest (AnswerStep owner) t) ∧
    ∀ bs t, Run (AnswerStep owner) s bs t → AtRest (AnswerStep owner) t → ∀ c,
      t.client c = .idle ∧ s.log c <+: t.log c ∧
      ∃ past : List (IMyDataCallback L), past.length = calls as c ∧
        (∀ cb ∈ past, owner cb.asBinder = c) ∧ t.log c = past.flatMap block := by
  have hbound : ∀ bs t, Run (AnswerStep owner) s bs t →
      as.length + bs.length ≤ 8 * as.countP Action.isStart := by
    intro bs t hbs
    obtain ⟨hrun, hnone⟩ := answer_run hbs
    have hle := length_le hL (hr.append hrun)
    rw [List.length_append, List.countP_append, hnone] at hle
    exact hle
  refine ⟨?_, outstanding_moves hL hr.reachable, hbound, ?_, ?_⟩
  · obtain ⟨g, h⟩ := tracks_reachable hL hr.reachable
    exact h.exchanged
  · apply exists_rest_of_length_le (n := 8 * as.countP Action.isStart)
    intro bs t hbs
    have hle := hbound bs t hbs
    omega
  · intro bs t hbs hrest c
    obtain ⟨hrun, hnone⟩ := answer_run hbs
    have hall := hr.append hrun
    obtain ⟨hidle, past, hlen, hown, hlog⟩ :=
      answered_history hL hall (rest_answered hL hall.reachable hrest) c
    obtain ⟨new, hnew, -⟩ := run_log hrun c
    have hsame : calls (as ++ bs) c = calls as c := by
      have hle := calls_le bs c
      rw [calls, List.countP_append, ← calls, ← calls]
      omega
    exact ⟨hidle, ⟨new, hnew.symm⟩, past, hlen.trans hsame, hown, hlog⟩

/-- A client with the callback object 7, on one thread of the server: its call is answered. -/
theorem callback_exactly_once_wire :
    ∃ s : State (Wire.libbinder ℕ) ℕ Unit,
      Run (Step fun b : ℕ => b % 2) (init (Wire.libbinder ℕ) ℕ Unit)
        [.start 1, .server (), .server (), .client 1, .client 1, .server (), .server (),
          .client 1] s ∧
      s.log 1 = block ⟨(7 : ℕ)⟩ ∧
      (∀ c, Exchanged (fun b : ℕ => b % 2) c (s.client c) (s.log c)) ∧
      ∀ bs t, Run (AnswerStep fun b : ℕ => b % 2) s bs t → bs = [] := by
  obtain ⟨s, hrun, -, hlog⟩ :
      ∃ t, Run (Step (L := Wire.libbinder ℕ) (ι := ℕ) fun b : ℕ => b % 2)
        (init (Wire.libbinder ℕ) ℕ Unit) _ t ∧
        t.client 1 = .idle ∧ t.log 1 = [] ++ block ⟨(7 : ℕ)⟩ :=
    exchange_run (Wire.lawful ℕ) () ⟨(7 : ℕ)⟩ rfl rfl rfl rfl
  obtain ⟨hexchanged, -, hbound, -⟩ := callback_exactly_once (Wire.lawful ℕ) hrun
  refine ⟨s, hrun, hlog, hexchanged, ?_⟩
  intro bs t hbs
  have hle : 8 + bs.length ≤ 8 := hbound bs t hbs
  exact List.eq_nil_of_length_eq_zero (by omega)

end Steps

end AndroidRepo.Binder.Registration
