import AndroidRepo.Binder.LedClient
import AndroidRepo.RequestReply

/-! binder4: one `LedService`, any number of processes that run my_client.cpp against it, and the
threads of the server that serve their transactions. -/
namespace AndroidRepo.Binder.LedTraffic

open Transition RequestReply

variable {κ ω : Type}

/-- An iteration of the client's loop calls `ledOn` and waits for the reply; a thread of the
server hands the transaction to the stub, and the service prints its ratio. -/
def protocol (L : Libbinder) (κ : Type) :
    Protocol κ LedClient (Transaction L.Cell) (Answer L.Cell) ILedService.Call where
  call _ g := some (g.scanf.ledOn, BpLedService.ledOn L g.scanf.ratio)
  handle _ tx := ((BnLedService.onTransact L tx).toAnswer, (BnLedService.onTransact L tx).calls)
  resume _ g _ := g

/-- Clients that have found the service, each with its own input. -/
def start (text : κ → List Char) (garbage : κ → Int32) (c : κ) : LedClient :=
  ⟨text c, garbage c, []⟩

variable {L : Libbinder} {text : κ → List Char} {garbage : κ → Int32}

theorem loop_succ (n : ℕ) (g : LedClient) :
    LedClient.loop (n + 1) g = (LedClient.loop n g).scanf.ledOn := by
  induction n generalizing g with
  | zero => rfl
  | succ n ih => rw [LedClient.loop, ih, LedClient.loop]

theorem scanf_calls (g : LedClient) : g.scanf.calls = g.calls := by
  unfold LedClient.scanf
  split <;> rfl

/-- What the stub does with the transaction of an iteration. -/
theorem handle_ledOn (hL : L.Lawful) (c : κ) (ratio : Int32) :
    ((protocol L κ).handle c (BpLedService.ledOn L ratio)).2 = [.ledOn ratio] := by
  simp [protocol, ledOn_roundTrip hL, accepted]

/-- A client that is alone with the service: every argument of `ledOn` is printed. -/
theorem alone_eq (hL : L.Lawful) (c : κ) (n : ℕ) :
    (protocol L κ).alone c (start text garbage c) n =
      (LedClient.loop n (start text garbage c), (sent (text c) (garbage c) n).map .ledOn) := by
  induction n with
  | zero => rfl
  | succ n ih =>
    have hcall : (protocol L κ).call c (LedClient.loop n (start text garbage c)) =
        some ((LedClient.loop n (start text garbage c)).scanf.ledOn,
          BpLedService.ledOn L (LedClient.loop n (start text garbage c)).scanf.ratio) := rfl
    have hsent : sent (text c) (garbage c) (n + 1) = sent (text c) (garbage c) n ++
        [(LedClient.loop n (start text garbage c)).scanf.ratio] := by
      rw [sent, sent, loop_succ, LedClient.ledOn, scanf_calls]
      rfl
    rw [Protocol.alone_succ, ih, Protocol.round]
    simp only [hcall, handle_ledOn hL]
    rw [hsent, List.map_append, loop_succ]
    rfl

section Run

variable [DecidableEq κ] [DecidableEq ω] [Fintype ω] {es : List (Event κ ω)}
  {s t : State κ ω LedClient (Transaction L.Cell) (Answer L.Cell) ILedService.Call}

/-- Where a client is in its own calls, whatever the others do. -/
theorem client_alone (hL : L.Lawful)
    (hr : Run (Step (protocol L κ)) (init (start text garbage)) es s) (c : κ) :
    ∃ n, ofClient c s.log = (sent (text c) (garbage c) n).map .ledOn ∧
      match s.phase c with
      | .waiting _ => (s.client c).calls = sent (text c) (garbage c) (n + 1)
      | _ => (s.client c).calls = sent (text c) (garbage c) n := by
  obtain ⟨n, hn⟩ := (isolated hr).alone c
  cases hphase : s.phase c with
  | running =>
    rw [hphase, alone_eq hL] at hn
    obtain ⟨hg, hlog⟩ := hn
    exact ⟨n, hlog, congrArg LedClient.calls hg⟩
  | waiting tx =>
    rw [hphase, alone_eq hL] at hn
    obtain ⟨hcall, hlog⟩ := hn
    obtain ⟨hg, -⟩ := Prod.mk.inj (Option.some.inj hcall)
    refine ⟨n, hlog, ?_⟩
    dsimp only
    rw [← hg, ← loop_succ]
    rfl
  | answered answer =>
    rw [hphase] at hn
    obtain ⟨tx, hcall, -, hlog⟩ := hn
    have hnext : ofClient c s.log =
        ((protocol L κ).alone c (start text garbage c) (n + 1)).2 := by
      rw [Protocol.alone_succ, Protocol.round, hcall]
      exact hlog
    rw [alone_eq hL] at hcall hnext
    obtain ⟨hg, -⟩ := Prod.mk.inj (Option.some.inj hcall)
    refine ⟨n + 1, hnext, ?_⟩
    dsimp only
    rw [← hg, ← loop_succ]
    rfl

omit [Fintype ω] in
/-- The server does not touch what the clients have sent. -/
theorem service_run_client {es' : List (Event κ ω)}
    (hr : Run (ServiceStep (protocol L κ)) s es' t) : t.client = s.client := by
  induction hr with
  | nil => rfl
  | cons hs _ ih =>
    rw [ih]
    obtain ⟨hs, hcall⟩ := hs
    cases hs with
    | call => exact absurd rfl (hcall _)
    | take | serve => rfl
    | resume => exact Function.update_eq_self _ _

/-- With any number of clients and of threads, in every order of their steps: the service prints,
for each client, the ratios that this client would have sent if it were alone, in order and once
each, all but the one that is under way; and when the server comes to rest, as it does after a
bounded number of steps, every ratio that was sent has been printed. -/
theorem led_clients_isolated [Fintype κ] [Nonempty ω] (hL : L.Lawful)
    (hr : Run (Step (protocol L κ)) (init (start text garbage)) es s) :
    (∀ c, ∃ n, ofClient c s.log = (sent (text c) (garbage c) n).map .ledOn ∧
      match s.phase c with
      | .waiting _ => (s.client c).calls = sent (text c) (garbage c) (n + 1)
      | _ => (s.client c).calls = sent (text c) (garbage c) n) ∧
    (∀ es' t, Run (ServiceStep (protocol L κ)) s es' t → es'.length ≤ s.work) ∧
    (∃ es' t, Run (ServiceStep (protocol L κ)) s es' t ∧
      AtRest (ServiceStep (protocol L κ)) t) ∧
    ∀ es' t, Run (ServiceStep (protocol L κ)) s es' t → AtRest (ServiceStep (protocol L κ)) t →
      ∀ c, ofClient c t.log = (s.client c).calls.map .ledOn := by
  obtain ⟨hbound, hrests, hrunning⟩ := all_answered hr
  refine ⟨client_alone hL hr, hbound, hrests, ?_⟩
  intro es' t hrun hrest c
  obtain ⟨n, hlog, hcalls⟩ :=
    client_alone hL (hr.append (hrun.imp fun _ _ _ hs => hs.1)) c
  rw [hrunning es' t hrun hrest c] at hcalls
  rw [hlog, ← hcalls, service_run_client hrun]

/-- Two clients on two threads; the transaction of the second one is served first. -/
theorem led_clients_isolated_overtaking :
    ∃ s : State Bool Bool LedClient (Transaction (Wire ℕ)) (Answer (Wire ℕ)) ILedService.Call,
      Run (Step (protocol (Wire.libbinder ℕ) Bool))
        (init (start (fun c => if c then ['5'] else ['7']) fun _ => 0))
        [.call false, .call true, .take false, .take true, .serve true true,
          .serve false false] s ∧
      s.log.map Prod.fst = [true, false] ∧
      ∃ n, ofClient false s.log = (sent ['7'] 0 n).map .ledOn := by
  have hrun : ∃ s, Run (Step (protocol (Wire.libbinder ℕ) Bool))
      (init (ω := Bool) (start (fun c => if c then ['5'] else ['7']) fun _ => 0))
      [.call false, .call true, .take false, .take true, .serve true true, .serve false false] s ∧
      s.log.map Prod.fst = [true, false] :=
    ⟨_, .cons (.call rfl rfl) <| .cons (.call rfl rfl) <| .cons (.take (.take rfl rfl)) <|
      .cons (.take (.take rfl rfl)) <| .cons (.serve (.finish rfl)) <|
      .single (.serve (.finish rfl)), rfl⟩
  obtain ⟨s, hrun, hlog⟩ := hrun
  obtain ⟨halone, -⟩ := led_clients_isolated (Wire.lawful ℕ) hrun
  obtain ⟨n, hn, -⟩ := halone false
  exact ⟨s, hrun, hlog, n, hn⟩

end Run

end AndroidRepo.Binder.LedTraffic
