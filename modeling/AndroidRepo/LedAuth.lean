import AndroidRepo.RequestReply
import Mathlib.Algebra.Order.BigOperators.Group.Finset

/-! auth: `LedAuthService` switches the LED on for callers with the uid of the system only. Each
client is a process that runs LedAuthClient.cpp, and calls once. -/
namespace AndroidRepo.LedAuth

open Transition RequestReply

variable {κ ω : Type}

/-- The part of libbinder's `android::binder::Status` that the service and the client use. libbinder
is not in the repository: it is a parameter, and `Lawful` lists what its documentation promises. -/
structure BinderStatus where
  Status : Type
  ok : Status
  fromExceptionCode : Int32 → String → Status
  isOk : Status → Bool
  toString8 : Status → String

namespace BinderStatus

def EX_NONE : Int32 := 0

def EX_SECURITY : Int32 := -1

structure Lawful (B : BinderStatus) : Prop where
  ok : B.isOk B.ok = true
  fromExceptionCode : ∀ exceptionCode message, exceptionCode ≠ EX_NONE →
    B.isOk (B.fromExceptionCode exceptionCode message) = false

/-- A status that is its exception code and its message. -/
def pair : BinderStatus where
  Status := Int32 × String
  ok := (EX_NONE, "")
  fromExceptionCode exceptionCode message := (exceptionCode, message)
  isOk st := st.1 = EX_NONE
  toString8 st :=
    if st.1 = EX_NONE then "No error" else
      let name := if st.1 = EX_SECURITY then "EX_SECURITY" else toString st.1
      "Status(" ++ toString st.1 ++ ", " ++ name ++ "): '" ++ st.2 ++ "'"

theorem pair_lawful : pair.Lawful where
  ok := rfl
  fromExceptionCode _ _ h := decide_eq_false h

end BinderStatus

def AID_SYSTEM : UInt32 := 1000

/-- The calling process, as the binder driver names it. -/
structure Caller where
  pid : Int32
  uid : UInt32
  deriving DecidableEq, Repr

/-- What the service prints. -/
inductive Line where
  /-- `"LEDON denied (uid=%d pid=%d)\n"` -/
  | denied (caller : Caller)
  /-- `"LED turned ON by uid=%d pid=%d\n"` -/
  | turnedOn (caller : Caller)
  deriving DecidableEq, Repr

def LedAuthService.LEDON (B : BinderStatus) (caller : Caller) : B.Status × Line :=
  if caller.uid ≠ AID_SYSTEM then
    (B.fromExceptionCode BinderStatus.EX_SECURITY "Only system UID may toggle LED",
      .denied caller)
  else
    (B.ok, .turnedOn caller)

structure LedAuthClient where
  output : List String
  exit : Option Int
  deriving DecidableEq, Repr

/-- `main`, up to the call; `svc` tells that `checkService` has found the service. -/
def LedAuthClient.main (svc : Bool) : LedAuthClient :=
  if svc then ⟨[], none⟩ else ⟨["Service not found\n"], some 1⟩

/-- `main`, behind the call -/
def LedAuthClient.returned (B : BinderStatus) (client : LedAuthClient) (st : B.Status) :
    LedAuthClient :=
  if !B.isOk st then
    ⟨client.output ++ ["LEDON() failed: " ++ B.toString8 st ++ "\n"], some 1⟩
  else
    ⟨client.output ++ ["LEDON() succeeded\n"], some 0⟩

/-- The generated proxy and stub hand the status back as it was sent. -/
def protocol (B : BinderStatus) (caller : κ → Caller) :
    Protocol κ LedAuthClient Unit B.Status Line where
  call _ client := if client.exit = none then some (client, ()) else none
  handle c _ := ((LedAuthService.LEDON B (caller c)).1, [(LedAuthService.LEDON B (caller c)).2])
  resume _ client st := client.returned B st

variable {B : BinderStatus} {caller : κ → Caller} {svc : κ → Bool}

theorem isOk_LEDON (hB : B.Lawful) (c : Caller) :
    B.isOk (LedAuthService.LEDON B c).1 = true ↔ c.uid = AID_SYSTEM := by
  by_cases h : c.uid = AID_SYSTEM
  · simp [LedAuthService.LEDON, h, hB.ok]
  · have hdenied := hB.fromExceptionCode BinderStatus.EX_SECURITY
      "Only system UID may toggle LED" (by decide)
    simp [LedAuthService.LEDON, h, hdenied]

theorem turnedOn_LEDON {c c' : Caller} (h : .turnedOn c' = (LedAuthService.LEDON B c).2) :
    c' = c ∧ c.uid = AID_SYSTEM := by
  unfold LedAuthService.LEDON at h
  split at h
  · cases h
  · rename_i huid
    exact ⟨Line.turnedOn.inj h, not_not.mp huid⟩

/-- What comes of a client that is alone with the service. -/
def outcome (B : BinderStatus) (caller : Caller) (svc : Bool) : LedAuthClient × List Line :=
  if svc then
    ((LedAuthClient.main true).returned B (LedAuthService.LEDON B caller).1,
      [(LedAuthService.LEDON B caller).2])
  else
    (LedAuthClient.main false, [])

theorem exit_returned (client : LedAuthClient) (st : B.Status) :
    (client.returned B st).exit = some (if B.isOk st then 0 else 1) := by
  unfold LedAuthClient.returned
  cases B.isOk st <;> rfl

theorem exit_outcome (hB : B.Lawful) (c : Caller) (b : Bool) : (outcome B c b).1.exit =
    some (if b = true ∧ c.uid = AID_SYSTEM then 0 else 1) := by
  cases b with
  | false => rfl
  | true =>
    rw [outcome, if_pos rfl, exit_returned]
    simp [isOk_LEDON hB]

/-- It calls once, if it finds the service, and then no more. -/
theorem alone_eq (c : κ) (n : ℕ) :
    (protocol B caller).alone c (.main (svc c)) n =
      if n = 0 then (.main (svc c), []) else outcome B (caller c) (svc c) := by
  induction n with
  | zero => rfl
  | succ n ih =>
    rw [Protocol.alone_succ, ih, if_neg (Nat.succ_ne_zero n)]
    cases hsvc : svc c with
    | false => split <;> simp [Protocol.round, protocol, LedAuthClient.main, outcome]
    | true =>
      split
      · simp [Protocol.round, protocol, LedAuthClient.main, outcome]
      · simp [Protocol.round, protocol, outcome, exit_returned]

section Run

variable [DecidableEq κ] [DecidableEq ω] [Fintype ω] {es : List (Event κ ω)} {e : Event κ ω}
  {s t : State κ ω LedAuthClient Unit B.Status Line} {c : κ}

/-- Where a client is in its one call. -/
theorem client_cases
    (hr : Run (Step (protocol B caller)) (init fun c => .main (svc c)) es s) (c : κ) :
    match s.phase c with
    | .running => (s.client c, ofClient c s.log) = (.main (svc c), []) ∨
        (s.client c, ofClient c s.log) = outcome B (caller c) (svc c)
    | .waiting _ => svc c = true ∧ (s.client c, ofClient c s.log) = (.main true, [])
    | .answered _ => svc c = true ∧
        (s.client c, ofClient c s.log) = (.main true, [(LedAuthService.LEDON B (caller c)).2]) := by
  obtain ⟨n, hn⟩ := (isolated hr).alone c
  rw [alone_eq] at hn
  -- Only the first call of a client that has found the service is made.
  have hfirst : ∀ g r, (protocol B caller).call c (if n = 0 then (.main (svc c), []) else
      outcome B (caller c) (svc c)).1 = some (g, r) →
      n = 0 ∧ svc c = true ∧ g = .main true := by
    intro g r hcall
    cases hsvc : svc c <;> split at hcall <;>
      simp_all [protocol, LedAuthClient.main, outcome, exit_returned]
  cases hphase : s.phase c with
  | running =>
    rw [hphase] at hn
    obtain ⟨hg, hlog⟩ := hn
    dsimp only
    rw [hg, hlog]
    split
    · exact Or.inl rfl
    · exact Or.inr rfl
  | waiting r =>
    rw [hphase] at hn
    obtain ⟨hcall, hlog⟩ := hn
    obtain ⟨hzero, hsvc, hg⟩ := hfirst _ _ hcall
    refine ⟨hsvc, ?_⟩
    rw [hg, hlog, if_pos hzero]
  | answered st =>
    rw [hphase] at hn
    obtain ⟨r, hcall, -, hlog⟩ := hn
    obtain ⟨hzero, hsvc, hg⟩ := hfirst _ _ hcall
    refine ⟨hsvc, ?_⟩
    rw [hg, hlog, if_pos hzero]
    rfl

/-- At any moment the service has done nothing for a client, or has answered its call. -/
theorem log_cases (hr : Run (Step (protocol B caller)) (init fun c => .main (svc c)) es s)
    (c : κ) : ofClient c s.log = [] ∨
      svc c = true ∧ ofClient c s.log = [(LedAuthService.LEDON B (caller c)).2] := by
  have hc := client_cases hr c
  cases hphase : s.phase c with
  | running =>
    rw [hphase] at hc
    rcases hc with hc | hc
    · exact Or.inl (congrArg Prod.snd hc)
    · cases hsvc : svc c with
      | false =>
        left
        simpa [outcome, hsvc] using congrArg Prod.snd hc
      | true =>
        right
        exact ⟨rfl, by simpa [outcome, hsvc] using congrArg Prod.snd hc⟩
  | waiting r =>
    rw [hphase] at hc
    exact Or.inl (congrArg Prod.snd hc.2)
  | answered st =>
    rw [hphase] at hc
    exact Or.inr ⟨hc.1, congrArg Prod.snd hc.2⟩

theorem exit_zero (hB : B.Lawful)
    (hr : Run (Step (protocol B caller)) (init fun c => .main (svc c)) es s)
    (hexit : (s.client c).exit = some 0) : .turnedOn (caller c) ∈ ofClient c s.log := by
  have hc := client_cases hr c
  have hmain : ∀ b, (LedAuthClient.main b).exit ≠ some 0 := by decide
  cases hphase : s.phase c with
  | running =>
    rw [hphase] at hc
    rcases hc with hc | hc
    · rw [(Prod.mk.inj hc).1] at hexit
      exact absurd hexit (hmain _)
    · cases hsvc : svc c with
      | false =>
        rw [hsvc] at hc
        rw [(Prod.mk.inj hc).1] at hexit
        exact absurd hexit (hmain _)
      | true =>
        rw [hsvc] at hc
        obtain ⟨hclient, hlog⟩ := Prod.mk.inj hc
        rw [hclient, exit_returned] at hexit
        have huid : (caller c).uid = AID_SYSTEM := by
          apply (isOk_LEDON hB (caller c)).mp
          by_contra hok
          simp [hok] at hexit
        rw [hlog, LedAuthService.LEDON, if_neg (not_not.mpr huid)]
        exact List.mem_singleton_self _
  | waiting r =>
    rw [hphase] at hc
    rw [(Prod.mk.inj hc.2).1] at hexit
    exact absurd hexit (hmain _)
  | answered st =>
    rw [hphase] at hc
    rw [(Prod.mk.inj hc.2).1] at hexit
    exact absurd hexit (hmain _)

/-! Every client calls at most once, so that everything comes to rest. -/

/-- What the call that a client has still to make will take. -/
def due (s : State κ ω LedAuthClient Unit B.Status Line) (c : κ) : ℕ :=
  match s.phase c with
  | .running => if (s.client c).exit = none then 5 else 0
  | _ => 0

omit [Fintype ω] in
theorem due_call (hs : Step (protocol B caller) s (.call c) t) :
    due s c = 5 ∧ due t c = 0 ∧ ∀ d, d ≠ c → due t d = due s d := by
  cases hs with
  | call hphase hg =>
    have hexit : (s.client c).exit = none := by
      by_contra hne
      simp [protocol, hne] at hg
    refine ⟨by simp [due, hphase, hexit], by simp [due], ?_⟩
    intro d hd
    simp [due, Function.update_of_ne hd]

omit [Fintype ω] in
theorem due_le (hs : Step (protocol B caller) s e t) (d : κ) : due t d ≤ due s d := by
  cases hs with
  | take => exact Nat.le_refl _
  | @call c | @serve _ c | @resume c =>
    by_cases hd : d = c
    · subst d
      simp [due, protocol, exit_returned]
    · simp [due, Function.update_of_ne hd]

variable [Fintype κ]

theorem work_step (hs : Step (protocol B caller) s e t) :
    t.work + ∑ c, due t c < s.work + ∑ c, due s c := by
  by_cases hcall : ∃ c, e = .call c
  · obtain ⟨c, rfl⟩ := hcall
    obtain ⟨hs5, ht0, hother⟩ := due_call hs
    have hsum := sum_of_ne hother
    have hwork := work_call hs
    omega
  · have hlt := RequestReply.work_step ⟨hs, fun c he => hcall ⟨c, he⟩⟩
    have hle : ∑ c, due t c ≤ ∑ c, due s c := Finset.sum_le_sum fun d _ => due_le hs d
    omega

omit [DecidableEq κ] [DecidableEq ω] [Fintype ω] in
/-- At the start each client has at most its one call to make. -/
theorem due_init (B : BinderStatus) (svc : κ → Bool) :
    ∑ c, due (B := B) (init (ω := ω) fun c => LedAuthClient.main (svc c)) c ≤
      5 * Fintype.card κ := by
  have hdue : ∀ c ∈ Finset.univ,
      due (B := B) (init (ω := ω) fun c => LedAuthClient.main (svc c)) c ≤ 5 := by
    intro c _
    unfold due
    split
    · split <;> omega
    · omega
  have hsum := Finset.sum_le_sum hdue
  rw [Finset.sum_const_nat fun _ _ => rfl, Finset.card_univ] at hsum
  omega

omit [Fintype κ] in
theorem rest_outcome [Nonempty ω]
    (hr : Run (Step (protocol B caller)) (init fun c => .main (svc c)) es s)
    (hrest : AtRest (Step (protocol B caller)) s) (c : κ) :
    (s.client c, ofClient c s.log) = outcome B (caller c) (svc c) := by
  have hrunning := rest_running (isolated hr) (fun e t hs => hrest e t hs.1) c
  have hc := client_cases hr c
  rw [hrunning] at hc
  rcases hc with hc | hc
  · cases hsvc : svc c with
    | false =>
      rw [hsvc] at hc
      exact hc
    | true =>
      have hcall : (protocol B caller).call c (s.client c) =
          some (s.client c, ()) := by
        rw [(Prod.mk.inj hc).1, hsvc]
        rfl
      exact absurd (.call hrunning hcall) (hrest _ _)
  · exact hc

/-- In every run, with any number of clients and of threads: the LED is turned on for a client at
most once, and only if its uid is the system's; a client that reports success has had it turned
on. Each run is finite, and at its end every client has exited: with 0 if it found the service and
has the uid of the system, and with 1 otherwise. -/
theorem only_system_turns_on [Nonempty ω] (hB : B.Lawful)
    (hr : Run (Step (protocol B caller)) (init fun c => .main (svc c)) es s) :
    (∀ c c', .turnedOn c' ∈ ofClient c s.log → c' = caller c ∧ (caller c).uid = AID_SYSTEM) ∧
    (∀ c, (ofClient c s.log).length ≤ 1) ∧
    (∀ c, (s.client c).exit = some 0 → .turnedOn (caller c) ∈ ofClient c s.log) ∧
    es.length ≤ 5 * Fintype.card κ ∧
    (∃ es' t, Run (Step (protocol B caller)) s es' t ∧
      AtRest (Step (protocol B caller)) t) ∧
    (AtRest (Step (protocol B caller)) s → ∀ c, (s.client c).exit =
      some (if svc c = true ∧ (caller c).uid = AID_SYSTEM then 0 else 1)) := by
  have hdec : ∀ (s : State κ ω LedAuthClient Unit B.Status Line) (e : Event κ ω)
      (t : State κ ω LedAuthClient Unit B.Status Line), True →
      Step (protocol B caller) s e t →
      True ∧ t.work + ∑ c, due t c < s.work + ∑ c, due s c :=
    fun _ _ _ _ hs => ⟨trivial, work_step hs⟩
  refine ⟨?_, ?_, fun c => exit_zero hB hr, ?_, exists_rest hdec trivial, ?_⟩
  · intro c c' hmem
    rcases log_cases hr c with hlog | ⟨-, hlog⟩
    · rw [hlog] at hmem
      cases hmem
    · rw [hlog] at hmem
      exact turnedOn_LEDON (List.mem_singleton.mp hmem)
  · intro c
    rcases log_cases hr c with hlog | ⟨-, hlog⟩ <;> simp [hlog]
  · have hle := (hr.length_le hdec trivial).2
    have hinit := due_init (ω := ω) B svc
    have hwork := work_init (ω := ω) (ρ := Unit) (α := B.Status) (ε := Line)
      fun c => LedAuthClient.main (svc c)
    omega
  · intro hrest c
    have hclient : s.client c = _ := congrArg Prod.fst (rest_outcome hr hrest c)
    rw [hclient]
    exact exit_outcome hB _ _

/-- A client of the system, and another one, on one thread. -/
theorem only_system_turns_on_two :
    let caller : Bool → Caller := fun c => if c then ⟨20, 2000⟩ else ⟨10, AID_SYSTEM⟩
    ∃ (es : List (Event Bool Unit)) (t : State Bool Unit LedAuthClient Unit _ Line),
      Run (Step (protocol .pair caller)) (init fun _ => .main true) es t ∧
      AtRest (Step (protocol .pair caller)) t ∧
      (t.client false).exit = some 0 ∧ (t.client true).exit = some 1 := by
  intro caller
  have hstart : Run (Step (protocol .pair caller))
      (init (ω := Unit) fun _ => LedAuthClient.main true) [] _ := .nil _
  obtain ⟨-, -, -, -, ⟨es, t, hrun, hrest⟩, -⟩ :=
    only_system_turns_on BinderStatus.pair_lawful hstart
  obtain ⟨-, -, -, -, -, hexit⟩ := only_system_turns_on BinderStatus.pair_lawful hrun
  exact ⟨es, t, hrun, hrest, hexit hrest false, hexit hrest true⟩

end Run

end AndroidRepo.LedAuth
