import AndroidRepo.Binder.Acceptance
import AndroidRepo.Binder.LedTraffic

/-! binder3 and binder4 register their LED services under one name, with one descriptor and one
code. A client of either finds whichever server has been started. -/
namespace AndroidRepo.Binder.Generations

open Transition RequestReply LedTraffic

variable {κ ω μ : Type} {L : Libbinder} {c : κ} {g g' : Client} {p : Program} {n : ℕ}

/-- A process of my_client.cpp that has found a service. -/
inductive Client where
  /-- binder3: one call, and `main` returns -/
  | once (called : Bool)
  | loop (s : LedClient)

/-- The next call of `ledOn`, through the proxy of the client's own generation. -/
def Client.ledOn (L : Libbinder) : Client → Option (Client × Transaction L.Cell)
  | .once false => some (.once true, Binder3.BpLedService.ledOn L)
  | .once true => none
  | .loop s => some (.loop s.scanf.ledOn, BpLedService.ledOn L s.scanf.ratio)

/-- A server whose stub is `onTransact`. What goes back to the client is the status and the
reply. -/
def protocol (onTransact : Transaction L.Cell → Served L.Cell μ) (κ : Type) :
    Protocol κ Client (Transaction L.Cell) (Int32 × List L.Cell) μ where
  call _ g := g.ledOn L
  handle _ tx := (((onTransact tx).status, (onTransact tx).reply), (onTransact tx).calls)
  resume _ g _ := g

/-- What is run as my_client.cpp: the generation, and for binder4 its input and what is on its
stack. -/
inductive Program where
  | binder3
  | binder4 (text : List Char) (garbage : Int32)

/-- The client after its first `n` calls, or all of them. -/
def Program.after : Program → ℕ → Client
  | .binder3, n => .once (0 < n)
  | .binder4 text garbage, n => .loop (LedClient.loop n ⟨text, garbage, []⟩)

/-- The ratios that binder4's service gets out of these calls: a parcel without one reads as 0. -/
def Program.ratios : Program → ℕ → List Int32
  | .binder3, n => List.replicate (min n 1) 0
  | .binder4 text garbage, n => sent text garbage n

/-- No client can tell the two servers apart. -/
theorem stubs_alike : AnswersAlike (protocol (BnLedService.onTransact L) κ)
    (protocol (Binder3.BnLedService.onTransact L) κ) (fun _ => .ledOn) id := by
  refine ⟨rfl, rfl, ?_, ?_⟩
  · intro c tx
    obtain ⟨hstatus, hreply, -⟩ := generations_answer_alike tx
    exact Prod.ext hstatus.symm hreply.symm
  · intro c tx
    simp only [protocol, BnLedService.onTransact, Binder3.BnLedService.onTransact]
    split <;> rfl

/-- A call of either generation, on binder4's server. -/
theorem handle_ledOn (hL : L.Lawful) (hF : L.Forgiving) (p : Program) (n : ℕ) :
    (p.after n).ledOn L = none ∧ p.after (n + 1) = p.after n ∧ p.ratios (n + 1) = p.ratios n ∨
    ∃ tx ratio, (p.after n).ledOn L = some (p.after (n + 1), tx) ∧
      p.ratios (n + 1) = p.ratios n ++ [ratio] ∧
      (protocol (BnLedService.onTransact L) κ).handle c tx = ((NO_ERROR, []), [.ledOn ratio]) := by
  cases p with
  | binder3 =>
    cases n with
    | zero =>
      right
      refine ⟨_, 0, rfl, rfl, ?_⟩
      have hzero := hF.int32 [] 0 (Nat.le_refl 0)
      simp [protocol, BnLedService.onTransact, Binder3.BpLedService.ledOn, hzero]
    | succ n =>
      left
      refine ⟨?_, ?_, ?_⟩ <;> simp [Program.after, Program.ratios, Client.ledOn]
  | binder4 text garbage =>
    right
    let ratio := (LedClient.loop n ⟨text, garbage, []⟩).scanf.ratio
    refine ⟨BpLedService.ledOn L ratio, ratio, ?_, ?_, ?_⟩
    · rw [Program.after, Program.after, loop_succ]
      rfl
    · rw [Program.ratios, Program.ratios, sent, sent, loop_succ, LedClient.ledOn, scanf_calls]
    · simp [protocol, ledOn_roundTrip hL, accepted]

theorem alone_eq (hL : L.Lawful) (hF : L.Forgiving) (c : κ) (p : Program) (n : ℕ) :
    (protocol (BnLedService.onTransact L) κ).alone c (p.after 0) n =
      (p.after n, (p.ratios n).map .ledOn) := by
  induction n with
  | zero =>
    have hnil : p.ratios 0 = [] := by cases p <;> rfl
    rw [hnil]
    rfl
  | succ n ih =>
    rw [Protocol.alone_succ, ih, Protocol.round]
    rcases handle_ledOn hL hF (c := c) p n with ⟨hcall, hafter, hratios⟩ | ⟨tx, r, hcall, hr, hh⟩
    · replace hcall : (protocol (BnLedService.onTransact L) κ).call c (p.after n) = none := hcall
      simp only [hcall]
      rw [hafter, hratios]
    · replace hcall : (protocol (BnLedService.onTransact L) κ).call c (p.after n) =
          some (p.after (n + 1), tx) := hcall
      simp only [hcall, hh]
      rw [hr, List.map_append]
      rfl

/-- A client that has come back from `n` calls, and may be in one more. -/
def Made (L : Libbinder) (p : Program) (n : ℕ) (g : Client) :
    Phase (Transaction L.Cell) (Int32 × List L.Cell) → Prop
  | .running => g = p.after n
  | .waiting tx => (p.after n).ledOn L = some (g, tx)
  | .answered a => a = (NO_ERROR, []) ∧ g = p.after n

/-- The clients of `who`, all of them before their first call. -/
def begin (who : κ → Program) :
    State κ ω Client (Transaction L.Cell) (Int32 × List L.Cell) μ := init fun c => (who c).after 0

/-- The clients, the answers they have got, and whose calls have been served, in order. -/
def seen (s : State κ ω Client (Transaction L.Cell) (Int32 × List L.Cell) μ) :
    (κ → Client) × (κ → Phase (Transaction L.Cell) (Int32 × List L.Cell)) × List κ :=
  (s.client, s.phase, s.log.map Prod.fst)

section Run

variable [DecidableEq κ] [DecidableEq ω] [Fintype ω] {who : κ → Program} {es : List (Event κ ω)}

omit [DecidableEq κ] [DecidableEq ω] [Fintype ω] in
theorem seen_of_alike {ν ξ : Type} {f : μ → ξ} {g : ν → ξ}
    {s : State κ ω Client (Transaction L.Cell) (Int32 × List L.Cell) μ}
    {t : State κ ω Client (Transaction L.Cell) (Int32 × List L.Cell) ν} (h : Alike f g s t) :
    seen s = seen t := by
  have hfst := congrArg (List.map Prod.fst) h.log
  simp only [List.map_map] at hfst
  rw [seen, seen, h.client, h.phase]
  exact congrArg _ (congrArg _ hfst)

/-- On binder4's server. -/
theorem client_made (hL : L.Lawful) (hF : L.Forgiving)
    {s : State κ ω Client (Transaction L.Cell) (Int32 × List L.Cell) ILedService.Call}
    (hr : Run (Step (protocol (BnLedService.onTransact L) κ)) (begin who) es s) (c : κ) :
    ∃ n, ofClient c s.log = ((who c).ratios n).map .ledOn ∧
      Made L (who c) n (s.client c) (s.phase c) := by
  obtain ⟨n, hn⟩ := (isolated hr).alone c
  rw [alone_eq hL hF] at hn
  cases hphase : s.phase c with
  | running =>
    rw [hphase] at hn
    obtain ⟨hg, hlog⟩ := hn
    exact ⟨n, hlog, hg⟩
  | waiting tx =>
    rw [hphase] at hn
    obtain ⟨hcall, hlog⟩ := hn
    exact ⟨n, hlog, hcall⟩
  | answered a =>
    rw [hphase] at hn
    obtain ⟨tx, hcall, ha, hlog⟩ := hn
    rcases handle_ledOn hL hF (c := c) (who c) n with ⟨hnone, -⟩ | ⟨tx', r, hsome, hratios, hh⟩
    · cases hnone.symm.trans hcall
    · obtain ⟨hg, rfl⟩ := Prod.mk.inj (Option.some.inj (hsome.symm.trans hcall))
      rw [hh] at ha hlog
      refine ⟨n + 1, ?_, ha, hg.symm⟩
      rw [hlog, hratios, List.map_append]
      rfl

/-- With clients of both generations, any number of threads, and any order of steps: all that the
clients see happens with the one server as it does with the other. Every call is served once,
without an error, and in order for each client. binder4's server gets the ratios of binder4's
clients, and 0 from each of binder3's; binder3's server is called the same number of times. -/
theorem generations_interchangeable (hL : L.Lawful) (hF : L.Forgiving) (who : κ → Program) :
    (∀ (es : List (Event κ ω)) x,
      (∃ s, Run (Step (protocol (BnLedService.onTransact L) κ)) (begin who) es s ∧ seen s = x) ↔
      ∃ t, Run (Step (protocol (Binder3.BnLedService.onTransact L) κ)) (begin who) es t ∧
        seen t = x) ∧
    (∀ (es : List (Event κ ω)) s,
      Run (Step (protocol (BnLedService.onTransact L) κ)) (begin who) es s →
      ∀ c, ∃ n, ofClient c s.log = ((who c).ratios n).map .ledOn ∧
        Made L (who c) n (s.client c) (s.phase c)) ∧
    ∀ (es : List (Event κ ω)) t,
      Run (Step (protocol (Binder3.BnLedService.onTransact L) κ)) (begin who) es t →
      ∀ c, ∃ n, ofClient c t.log = ((who c).ratios n).map (fun _ => .ledOn) ∧
        Made L (who c) n (t.client c) (t.phase c) := by
  refine ⟨?_, fun _ _ hr => client_made hL hF hr, ?_⟩
  · intro es x
    constructor
    · rintro ⟨s, hr, rfl⟩
      obtain ⟨t, ht, hst⟩ := alike_run stubs_alike hr
      exact ⟨t, ht, (seen_of_alike hst).symm⟩
    · rintro ⟨t, hr, rfl⟩
      obtain ⟨s, hs, hts⟩ := alike_run stubs_alike.symm hr
      exact ⟨s, hs, (seen_of_alike hts).symm⟩
  · intro es t hr c
    obtain ⟨s, hs, hts⟩ := alike_run stubs_alike.symm hr
    obtain ⟨n, hlog, hmade⟩ := client_made hL hF hs c
    have hcalls := hts.ofClient c
    rw [hlog, List.map_map, List.map_id] at hcalls
    refine ⟨n, hcalls, ?_⟩
    rw [hts.client, hts.phase]
    exact hmade

/-- A client of binder3 and one of binder4 with a 5 in its input, whose call overtakes. -/
theorem generations_interchangeable_two :
    ∃ (es : List (Event Bool Bool))
      (s : State Bool Bool Client (Transaction (Wire ℕ)) (Int32 × List (Wire ℕ)) ILedService.Call)
      (t : State Bool Bool Client (Transaction (Wire ℕ)) (Int32 × List (Wire ℕ)) Binder3.Call),
      Run (Step (protocol (BnLedService.onTransact (Wire.libbinder ℕ)) Bool))
        (begin fun c => if c then .binder4 ['5'] 0 else .binder3) es s ∧
      s.log = [(true, .ledOn 5), (false, .ledOn 0)] ∧
      Run (Step (protocol (Binder3.BnLedService.onTransact (Wire.libbinder ℕ)) Bool))
        (begin fun c => if c then .binder4 ['5'] 0 else .binder3) es t ∧
      t.log.map Prod.fst = [true, false] := by
  have hrun : ∃ s, Run (Step (protocol (BnLedService.onTransact (Wire.libbinder ℕ)) Bool))
      (begin (ω := Bool) fun c => if c then .binder4 ['5'] 0 else .binder3)
      [.call false, .call true, .take false, .take true, .serve true true, .serve false false] s ∧
      s.log = [(true, .ledOn 5), (false, .ledOn 0)] :=
    ⟨_, .cons (.call rfl rfl) <| .cons (.call rfl rfl) <| .cons (.take (.take rfl rfl)) <|
      .cons (.take (.take rfl rfl)) <| .cons (.serve (.finish rfl)) <|
      .single (.serve (.finish rfl)), by decide⟩
  obtain ⟨s, hrun, hlog⟩ := hrun
  obtain ⟨hsame, -⟩ := generations_interchangeable (ω := Bool) (Wire.lawful ℕ)
    (Wire.forgiving ℕ) fun c : Bool => if c then .binder4 ['5'] 0 else .binder3
  obtain ⟨t, ht, hseen⟩ := (hsame _ _).mp ⟨s, hrun, rfl⟩
  obtain ⟨-, -, hfst⟩ : _ ∧ _ ∧ t.log.map Prod.fst = s.log.map Prod.fst := by
    simpa [seen] using hseen
  exact ⟨_, s, t, hrun, hlog, ht, by rw [hfst, hlog]; rfl⟩

end Run

end AndroidRepo.Binder.Generations
