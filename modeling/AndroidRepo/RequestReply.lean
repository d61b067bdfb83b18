import AndroidRepo.TaskPool

/-! Clients that call a service and wait, each for its own answer, while a pool of workers serves
the calls. The answer to a call depends on the caller and on the request only, so that each client
gets what it would get if it were alone. -/
namespace RequestReply

open Transition TaskPool

variable {κ ω γ ρ α ε : Type*}

structure Protocol (κ γ ρ α ε : Type*) where
  /-- the client's next call: its state while it waits, and the request -/
  call : κ → γ → Option (γ × ρ)
  /-- the answer, and what the service does -/
  handle : κ → ρ → α × List ε
  resume : κ → γ → α → γ

inductive Phase (ρ α : Type*) where
  | running
  | waiting (r : ρ)
  | answered (a : α)

structure State (κ ω γ ρ α ε : Type*) where
  client : κ → γ
  phase : κ → Phase ρ α
  pool : Pool ω (κ × ρ)
  /-- what the service has done, and for whom -/
  log : List (κ × ε)

def init (client : κ → γ) : State κ ω γ ρ α ε := ⟨client, fun _ => .running, empty, []⟩

/-- What the service has done for one client. -/
def ofClient [DecidableEq κ] (c : κ) (log : List (κ × ε)) : List ε :=
  (log.filter fun e => e.1 = c).map Prod.snd

inductive Event (κ ω : Type*) where
  | call (c : κ)
  | take (w : ω)
  | serve (w : ω) (c : κ)
  | resume (c : κ)

inductive Step [DecidableEq κ] [DecidableEq ω] (P : Protocol κ γ ρ α ε) :
    State κ ω γ ρ α ε → Event κ ω → State κ ω γ ρ α ε → Prop where
  | call {s : State κ ω γ ρ α ε} {c : κ} {g : γ} {r : ρ} :
      s.phase c = .running → P.call c (s.client c) = some (g, r) →
      Step P s (.call c) { s with
        client := Function.update s.client c g
        phase := Function.update s.phase c (.waiting r)
        pool := s.pool.submit (c, r) }
  | take {s : State κ ω γ ρ α ε} {w : ω} {p : Pool ω (κ × ρ)} :
      TaskPool.Step s.pool (.take w) p → Step P s (.take w) { s with pool := p }
  | serve {s : State κ ω γ ρ α ε} {w : ω} {c : κ} {r : ρ} {p : Pool ω (κ × ρ)} :
      TaskPool.Step s.pool (.finish w (c, r)) p →
      Step P s (.serve w c) { s with
        phase := Function.update s.phase c (.answered (P.handle c r).1)
        pool := p
        log := s.log ++ (P.handle c r).2.map (Prod.mk c) }
  | resume {s : State κ ω γ ρ α ε} {c : κ} {a : α} : s.phase c = .answered a →
      Step P s (.resume c) { s with
        client := Function.update s.client c (P.resume c (s.client c) a)
        phase := Function.update s.phase c .running }

/-- One call of a client that is alone with the service. -/
def Protocol.round (P : Protocol κ γ ρ α ε) (c : κ) (x : γ × List ε) : γ × List ε :=
  match P.call c x.1 with
  | some (g, r) => (P.resume c g (P.handle c r).1, x.2 ++ (P.handle c r).2)
  | none => x

/-- The first `n` calls of a client that is alone with the service. -/
def Protocol.alone (P : Protocol κ γ ρ α ε) (c : κ) (g : γ) (n : ℕ) : γ × List ε :=
  (P.round c)^[n] (g, [])

theorem Protocol.alone_succ (P : Protocol κ γ ρ α ε) (c : κ) (g : γ) (n : ℕ) :
    P.alone c g (n + 1) = P.round c (P.alone c g n) := Function.iterate_succ_apply' _ _ _

/-- A client after the calls that led to `x`, and possibly in one more. -/
def Matches (P : Protocol κ γ ρ α ε) (c : κ) (x : γ × List ε) (g : γ) (log : List ε) :
    Phase ρ α → Prop
  | .running => g = x.1 ∧ log = x.2
  | .waiting r => P.call c x.1 = some (g, r) ∧ log = x.2
  | .answered a => ∃ r, P.call c x.1 = some (g, r) ∧ a = (P.handle c r).1 ∧
      log = x.2 ++ (P.handle c r).2

/-- The task that a client waits for. -/
def Phase.task (c : κ) : Phase ρ α → Multiset (κ × ρ)
  | .waiting r => {(c, r)}
  | _ => 0

section Log

variable [DecidableEq κ]

theorem ofClient_append (c : κ) (log log' : List (κ × ε)) :
    ofClient c (log ++ log') = ofClient c log ++ ofClient c log' := by
  rw [ofClient, List.filter_append, List.map_append]
  rfl

@[simp] theorem ofClient_self (c : κ) (es : List ε) : ofClient c (es.map (Prod.mk c)) = es := by
  induction es with
  | nil => rfl
  | cons e es ih => simpa [ofClient] using ih

theorem ofClient_other {c d : κ} (hcd : c ≠ d) (es : List ε) :
    ofClient d (es.map (Prod.mk c)) = [] := by
  induction es with
  | nil => rfl
  | cons e es ih => simp [ofClient, hcd]

end Log

section Isolation

variable [DecidableEq κ] [Fintype ω] {P : Protocol κ γ ρ α ε} {client : κ → γ}
  {s t : State κ ω γ ρ α ε} {e : Event κ ω} {es : List (Event κ ω)}

/-- Each client has made some calls, and has a task with the service exactly while it waits. -/
structure Inv (P : Protocol κ γ ρ α ε) (client : κ → γ) (s : State κ ω γ ρ α ε) : Prop where
  alone : ∀ c, ∃ n,
    Matches P c (P.alone c (client c) n) (s.client c) (ofClient c s.log) (s.phase c)
  pending : ∀ c, s.pool.pending.filter (fun x => x.1 = c) = (s.phase c).task c

theorem inv_init : Inv P client (init client : State κ ω γ ρ α ε) where
  alone c := ⟨0, rfl, rfl⟩
  pending c := by
    rw [init, pending_empty]
    rfl

variable [DecidableEq ω]

theorem inv_call {c : κ} {g : γ} {r : ρ} (h : Inv P client s) (hphase : s.phase c = .running)
    (hcall : P.call c (s.client c) = some (g, r)) :
    Inv P client { s with
      client := Function.update s.client c g
      phase := Function.update s.phase c (.waiting r)
      pool := s.pool.submit (c, r) } := by
  have hpending := pending_step (.submit : TaskPool.Step s.pool _ (s.pool.submit (c, r)))
  simp only [submitted, finished, List.filterMap_cons, List.filterMap_nil, Multiset.coe_nil,
    zero_add] at hpending
  refine ⟨?_, ?_⟩
  · intro d
    obtain ⟨n, hn⟩ := h.alone d
    refine ⟨n, ?_⟩
    by_cases hd : d = c
    · subst d
      rw [hphase] at hn
      obtain ⟨hg, hlog⟩ := hn
      simp only [Function.update_self]
      exact ⟨hg ▸ hcall, hlog⟩
    · simpa [hd] using hn
  · intro d
    dsimp only
    rw [← hpending, Multiset.filter_add, h.pending d]
    by_cases hd : d = c
    · subst d
      simp [hphase, Phase.task]
    · simp [hd, Ne.symm hd]

theorem inv_serve {w : ω} {c : κ} {r : ρ} {p : Pool ω (κ × ρ)} (h : Inv P client s)
    (hp : TaskPool.Step s.pool (.finish w (c, r)) p) :
    Inv P client { s with
      phase := Function.update s.phase c (.answered (P.handle c r).1)
      pool := p
      log := s.log ++ (P.handle c r).2.map (Prod.mk c) } := by
  have hpending := pending_step hp
  simp only [submitted, finished, List.filterMap_cons, List.filterMap_nil, Multiset.coe_nil,
    zero_add] at hpending
  have hphase : s.phase c = .waiting r ∧ p.pending.filter (fun x => x.1 = c) = 0 := by
    have hc := h.pending c
    rw [hpending, Multiset.filter_add] at hc
    have hmem : (c, r) ∈ (s.phase c).task c := by
      rw [← hc]
      simp
    cases hph : s.phase c with
    | waiting r' =>
      obtain rfl : r = r' := by simpa [hph, Phase.task] using hmem
      have hone : Multiset.filter (fun x => x.1 = c) (↑[(c, r)] : Multiset (κ × ρ)) = {(c, r)} := by
        simp
      rw [hone, hph] at hc
      exact ⟨rfl, add_eq_left.mp hc⟩
    | running | answered _ => simp [hph, Phase.task] at hmem
  refine ⟨?_, ?_⟩
  · intro d
    obtain ⟨n, hn⟩ := h.alone d
    refine ⟨n, ?_⟩
    dsimp only
    rw [ofClient_append]
    by_cases hd : d = c
    · subst d
      rw [hphase.1] at hn
      obtain ⟨hcall, hlog⟩ := hn
      rw [Function.update_self, ofClient_self, hlog]
      exact ⟨r, hcall, rfl, rfl⟩
    · rw [Function.update_of_ne hd, ofClient_other (Ne.symm hd), List.append_nil]
      exact hn
  · intro d
    dsimp only
    by_cases hd : d = c
    · subst d
      rw [Function.update_self, hphase.2]
      rfl
    · have hd' := h.pending d
      rw [hpending, Multiset.filter_add] at hd'
      rw [Function.update_of_ne hd, ← hd']
      simp [Ne.symm hd]

theorem inv_step (h : Inv P client s) (hs : Step P s e t) : Inv P client t := by
  cases hs with
  | call hphase hcall => exact inv_call h hphase hcall
  | take hp =>
    have hpending := pending_step hp
    simp only [submitted, finished, List.filterMap_cons, List.filterMap_nil, Multiset.coe_nil,
      zero_add] at hpending
    exact ⟨h.alone, fun c => hpending ▸ h.pending c⟩
  | serve hp => exact inv_serve h hp
  | @resume c a hphase =>
    refine ⟨?_, ?_⟩
    · intro d
      obtain ⟨n, hn⟩ := h.alone d
      by_cases hd : d = c
      · subst d
        rw [hphase] at hn
        obtain ⟨r, hcall, rfl, hlog⟩ := hn
        refine ⟨n + 1, ?_⟩
        simp only [Function.update_self, P.alone_succ, Protocol.round, hcall]
        exact ⟨rfl, hlog⟩
      · exact ⟨n, by simpa [hd] using hn⟩
    · intro d
      have hd' := h.pending d
      by_cases hd : d = c
      · subst d
        rw [hphase] at hd'
        simpa [Phase.task] using hd'
      · simpa [hd] using hd'

/-- Whatever the other clients and the workers do, a client and what is done for it are as if it
were alone. -/
theorem isolated (hr : Run (Step P) (init client) es s) : Inv P client s :=
  hr.reachable.invariant inv_init fun _ _ _ _ hs h => inv_step h hs

end Isolation

section Progress

variable [DecidableEq κ] [Fintype κ] [DecidableEq ω] [Fintype ω] {P : Protocol κ γ ρ α ε}
  {client : κ → γ} {s t : State κ ω γ ρ α ε} {e : Event κ ω} {es : List (Event κ ω)}

/-- A step that is not a new call. -/
def ServiceStep (P : Protocol κ γ ρ α ε) (s : State κ ω γ ρ α ε) (e : Event κ ω)
    (t : State κ ω γ ρ α ε) : Prop := Step P s e t ∧ ∀ c, e ≠ .call c

def Phase.work : Phase ρ α → ℕ
  | .answered _ => 1
  | _ => 0

def State.work (s : State κ ω γ ρ α ε) : ℕ :=
  3 * s.pool.pending.card + s.pool.queue.length + ∑ c, (s.phase c).work

omit [Fintype ω] [DecidableEq ω] in
theorem sum_work_update (phase : κ → Phase ρ α) (c : κ) (ph : Phase ρ α) :
    ∑ d, (Function.update phase c ph d).work + (phase c).work =
      ∑ d, (phase d).work + ph.work := by
  have hsum := sum_of_ne (f := fun d => (Function.update phase c ph d).work)
    (g := fun d => (phase d).work) (c := c) fun d hd => by rw [Function.update_of_ne hd]
  rwa [Function.update_self] at hsum

omit [DecidableEq κ] [DecidableEq ω] in
theorem work_init (client : κ → γ) : (init client : State κ ω γ ρ α ε).work = 0 := by
  have hpending : (init client : State κ ω γ ρ α ε).pool.pending = 0 := pending_empty
  rw [State.work, hpending]
  simp [init, empty, Phase.work]

theorem work_call {c : κ} (hs : Step P s (.call c) t) : t.work = s.work + 4 := by
  cases hs with
  | @call _ g r hphase _ =>
    have hpending := congrArg Multiset.card
      (pending_step (.submit : TaskPool.Step s.pool _ (s.pool.submit (c, r))))
    have hqueue : (s.pool.submit (c, r)).queue.length = s.pool.queue.length + 1 := by
      simp [Pool.submit]
    have hsum := sum_work_update s.phase c (.waiting r)
    have hrunning : (Phase.running : Phase ρ α).work = 0 := rfl
    have hwaiting : (Phase.waiting r : Phase ρ α).work = 0 := rfl
    simp only [submitted, finished, List.filterMap_cons, List.filterMap_nil, Multiset.card_add,
      Multiset.coe_card, List.length_singleton, List.length_nil] at hpending
    rw [hphase] at hsum
    simp only [State.work]
    omega

theorem work_step (hs : ServiceStep P s e t) : t.work < s.work := by
  obtain ⟨hs, hcall⟩ := hs
  cases hs with
  | call => exact absurd rfl (hcall _)
  | take hp =>
    obtain ⟨hcard, hqueue⟩ := pending_take hp
    simp only [State.work]
    omega
  | @serve w c r p hp =>
    obtain ⟨hcard, hqueue⟩ := pending_finish hp
    have hsum := sum_work_update s.phase c (.answered (P.handle c r).1)
    simp only [State.work, hqueue, Phase.work] at hsum ⊢
    omega
  | @resume c a hphase =>
    have hsum := sum_work_update s.phase c .running
    rw [hphase] at hsum
    simp only [State.work, Phase.work] at hsum ⊢
    omega

omit [Fintype κ] in
/-- When the service has nothing left to do, no client waits. -/
theorem rest_running [Nonempty ω] (h : Inv P client s) (hrest : AtRest (ServiceStep P) s) (c : κ) :
    s.phase c = .running := by
  have hidle : s.pool.Idle := by
    apply idle_of_stuck
    · intro w p hp
      exact hrest _ _ ⟨.take hp, nofun⟩
    · rintro w ⟨d, r⟩ p hp
      exact hrest _ _ ⟨.serve hp, nofun⟩
  have hc := h.pending c
  rw [hidle.pending] at hc
  cases hphase : s.phase c with
  | running => rfl
  | waiting r => simp [hphase, Phase.task] at hc
  | answered a => exact absurd ⟨.resume hphase, nofun⟩ (hrest _ _)

/-- The calls that have been made are answered after a bounded number of steps of the service, and
each client has then come back from its calls. -/
theorem all_answered [Nonempty ω] (hr : Run (Step P) (init client) es s) :
    (∀ es' t, Run (ServiceStep P) s es' t → es'.length ≤ s.work) ∧
    (∃ es' t, Run (ServiceStep P) s es' t ∧ AtRest (ServiceStep P) t) ∧
    ∀ es' t, Run (ServiceStep P) s es' t → AtRest (ServiceStep P) t → ∀ c,
      t.phase c = .running := by
  have hdec : ∀ (s : State κ ω γ ρ α ε) (e : Event κ ω) (t : State κ ω γ ρ α ε), True →
      ServiceStep P s e t → True ∧ t.work < s.work := fun _ _ _ _ hs => ⟨trivial, work_step hs⟩
  refine ⟨?_, exists_rest hdec trivial, ?_⟩
  · intro es' t hrun
    have hle := (hrun.length_le hdec trivial).2
    omega
  · intro es' t hrun hrest c
    exact rest_running (isolated (hr.append (hrun.imp fun _ _ _ hs => hs.1))) hrest c

end Progress

section Simulation

variable {δ η : Type*} [DecidableEq κ] {P : Protocol κ γ ρ α ε} {Q : Protocol κ γ ρ α δ}
  {f : ε → η} {g : δ → η} {s s' : State κ ω γ ρ α ε} {t : State κ ω γ ρ α δ}
  {e : Event κ ω} {es : List (Event κ ω)}

/-- Two services for the same clients: every request has the same answer from both, and what they
do for it corresponds. -/
structure AnswersAlike (P : Protocol κ γ ρ α ε) (Q : Protocol κ γ ρ α δ) (f : ε → η)
    (g : δ → η) : Prop where
  call : P.call = Q.call
  resume : P.resume = Q.resume
  answer : ∀ c r, (P.handle c r).1 = (Q.handle c r).1
  effects : ∀ c r, (P.handle c r).2.map f = (Q.handle c r).2.map g

omit [DecidableEq κ] in
theorem AnswersAlike.symm (h : AnswersAlike P Q f g) : AnswersAlike Q P g f where
  call := h.call.symm
  resume := h.resume.symm
  answer c r := (h.answer c r).symm
  effects c r := (h.effects c r).symm

/-- Two states that differ in what the service has done, and in that only as the services do. -/
structure Alike (f : ε → η) (g : δ → η) (s : State κ ω γ ρ α ε) (t : State κ ω γ ρ α δ) :
    Prop where
  client : s.client = t.client
  phase : s.phase = t.phase
  pool : s.pool = t.pool
  log : s.log.map (Prod.map id f) = t.log.map (Prod.map id g)

omit [DecidableEq κ] in
theorem alike_init (client : κ → γ) :
    Alike f g (init client : State κ ω γ ρ α ε) (init client : State κ ω γ ρ α δ) :=
  ⟨rfl, rfl, rfl, rfl⟩

theorem ofClient_map (c : κ) (log : List (κ × ε)) :
    ofClient c (log.map (Prod.map id f)) = (ofClient c log).map f := by
  induction log with
  | nil => rfl
  | cons e log ih =>
    by_cases he : e.1 = c <;> simpa [ofClient, he] using ih

/-- For each client, the services have done corresponding things. -/
theorem Alike.ofClient (h : Alike f g s t) (c : κ) :
    (ofClient c s.log).map f = (RequestReply.ofClient c t.log).map g := by
  rw [← ofClient_map, h.log, ofClient_map]

variable [DecidableEq ω]

theorem alike_step (hPQ : AnswersAlike P Q f g) (h : Alike f g s t) (hs : Step P s e s') :
    ∃ t', Step Q t e t' ∧ Alike f g s' t' := by
  cases hs with
  | call hphase hcall =>
    rw [h.phase] at hphase
    rw [hPQ.call, h.client] at hcall
    refine ⟨_, .call hphase hcall, ?_⟩
    constructor <;> simp [h.client, h.phase, h.pool, h.log]
  | take hp =>
    rw [h.pool] at hp
    exact ⟨_, .take hp, h.client, h.phase, rfl, h.log⟩
  | @serve w c r p hp =>
    rw [h.pool] at hp
    refine ⟨_, .serve hp, h.client, ?_, rfl, ?_⟩
    · simp [h.phase, hPQ.answer]
    · have heffects := congrArg (List.map (Prod.mk c)) (hPQ.effects c r)
      simpa [h.log, List.map_map, Function.comp_def] using heffects
  | resume hphase =>
    rw [h.phase] at hphase
    refine ⟨_, .resume hphase, ?_⟩
    constructor <;> simp [h.client, h.phase, h.pool, h.log, hPQ.resume]

/-- Whatever the clients see of one service, they can see of the other. -/
theorem alike_run (hPQ : AnswersAlike P Q f g) {client : κ → γ}
    (hr : Run (Step P) (init client) es s) :
    ∃ t, Run (Step Q) (init client) es t ∧ Alike f g s t :=
  hr.simulates (fun _ _ _ _ h hs => alike_step hPQ h hs) (alike_init client)

end Simulation

end RequestReply
