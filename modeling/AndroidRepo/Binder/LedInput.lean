import AndroidRepo.Binder.LedTraffic
import AndroidRepo.Decimal
import Mathlib.Data.List.TakeWhile

/-! Numbers that are typed at the clients of binder4: `scanf` reads back what has been written in
decimal, so that the service prints the numbers themselves. -/
namespace AndroidRepo.Binder

variable {text rest space : List Char} {c : Char} {v : Int} {n : ℕ}

/-- A number in decimal, with a minus sign where it is negative. -/
def written (v : Int) : List Char := (toString v).toList

theorem decimal_eq (digits : List Char) : decimal digits = (Nat.ofDigitChars 10 digits 0 : ℕ) := by
  have hfold : ∀ (n : ℕ) (digits : List Char), digits.foldl
      (fun (n : Int) c => 10 * n + (c.toNat - '0'.toNat : ℕ)) n =
        (Nat.ofDigitChars 10 digits n : ℕ) := by
    intro n digits
    induction digits generalizing n with
    | nil => rfl
    | cons c digits ih => rw [List.foldl_cons, Nat.ofDigitChars_cons, ← ih]; rfl
  exact hfold 0 digits

theorem isSpace_of_isDigit (h : c.isDigit = true) : isSpace c = false := by
  by_contra hspace
  simp only [isSpace, Bool.or_eq_true, decide_eq_true_eq, Bool.not_eq_false] at hspace
  rcases hspace with ((((rfl | rfl) | rfl) | rfl) | rfl) | rfl <;> cases h

theorem scanSign_of_isDigit (h : c.isDigit = true) : scanSign (c :: text) = (false, c :: text) := by
  unfold scanSign
  split
  · rename_i hc
    obtain rfl := (List.cons.inj hc).1
    cases h
  · rename_i hc
    obtain rfl := (List.cons.inj hc).1
    cases h
  · rfl

/-- What follows a number does not go on with a digit. -/
def Separate (rest : List Char) : Prop := ∀ c, rest.head? = some c → c.isDigit = false

theorem takeWhile_digits (n : ℕ) (h : Separate rest) :
    (Nat.toDigits 10 n ++ rest).takeWhile Char.isDigit = Nat.toDigits 10 n ∧
    (Nat.toDigits 10 n ++ rest).dropWhile Char.isDigit = rest := by
  have hdigits : ∀ c ∈ Nat.toDigits 10 n, c.isDigit = true := fun c hc =>
    Nat.isDigit_of_mem_toDigits (by decide) (by decide) hc
  rw [List.takeWhile_append_of_pos hdigits, List.dropWhile_append_of_pos hdigits]
  cases rest with
  | nil => simp
  | cons c rest =>
    have hc := h c rfl
    simp [hc]

theorem scanInt_written (v : Int) (hspace : ∀ c ∈ space, isSpace c = true) (h : Separate rest) :
    scanInt (space ++ (written v ++ rest)) = some (v, rest) := by
  have hne : ∀ n, Nat.toDigits 10 n ≠ [] := fun n => Nat.toDigits_ne_nil
  rw [scanInt, List.dropWhile_append_of_pos hspace]
  cases v with
  | ofNat n =>
    obtain ⟨htake, hdrop⟩ := takeWhile_digits n h
    have hsign : scanSign ((Nat.toDigits 10 n ++ rest).dropWhile isSpace) =
        (false, Nat.toDigits 10 n ++ rest) := by
      obtain ⟨c, cs, hcs⟩ := List.exists_cons_of_ne_nil (hne n)
      have hc : c.isDigit = true :=
        Nat.isDigit_of_mem_toDigits (b := 10) (n := n) (by decide) (by decide) (by simp [hcs])
      rw [hcs, List.cons_append, List.dropWhile_cons, isSpace_of_isDigit hc]
      exact scanSign_of_isDigit hc
    rw [written, Decimal.toList_ofNat, hsign]
    simp [htake, hdrop, hne n, decimal_eq]
  | negSucc n =>
    obtain ⟨htake, hdrop⟩ := takeWhile_digits (n + 1) h
    rw [written, Decimal.toList_negSucc]
    have hminus : ('-' :: Nat.toDigits 10 (n + 1) ++ rest).dropWhile isSpace =
        '-' :: (Nat.toDigits 10 (n + 1) ++ rest) := rfl
    rw [hminus, scanSign]
    simp [htake, hdrop, hne (n + 1), decimal_eq, Int.negSucc_eq]

/-- Numbers, each of them with what is typed behind it. -/
def typed (vs : List (Int32 × List Char)) : List Char :=
  vs.flatMap fun (v, space) => written v.toInt ++ space

/-- The numbers are separated by white space. Behind the last one there may be some, too. -/
def Spaced : List (Int32 × List Char) → Prop
  | [] => True
  | e :: vs => (∀ c ∈ e.2, isSpace c = true) ∧ (vs ≠ [] → e.2 ≠ []) ∧ Spaced vs

theorem scanInt_space (hspace : ∀ c ∈ space, isSpace c = true) : scanInt space = none := by
  have hdrop : space.dropWhile isSpace = [] := List.dropWhile_eq_nil_iff.mpr hspace
  rw [scanInt, hdrop]
  rfl

theorem separate_typed {vs : List (Int32 × List Char)} (hspace : ∀ c ∈ space, isSpace c = true)
    (hne : vs ≠ [] → space ≠ []) : Separate (space ++ typed vs) := by
  intro c hc
  cases space with
  | nil =>
    obtain rfl : vs = [] := by
      by_contra hvs
      exact hne hvs rfl
    cases hc
  | cons d space =>
    obtain rfl : d = c := Option.some.inj hc
    by_contra hdigit
    have hfalse := isSpace_of_isDigit (Bool.eq_true_of_not_eq_false hdigit)
    rw [hspace d List.mem_cons_self] at hfalse
    cases hfalse

theorem numbers_typed {vs : List (Int32 × List Char)} (h : Spaced vs)
    (hspace : ∀ c ∈ space, isSpace c = true) :
    numbers (space ++ typed vs) = vs.map fun e => e.1.toInt := by
  induction vs generalizing space with
  | nil =>
    rw [typed, List.flatMap_nil, List.append_nil]
    exact numbers_none (scanInt_space hspace)
  | cons e vs ih =>
    obtain ⟨he, hne, hvs⟩ := h
    have hscan := scanInt_written e.1.toInt hspace (separate_typed he hne)
    rw [typed, List.flatMap_cons, ← typed, List.append_assoc, numbers_some hscan, ih hvs he]
    rfl

/-- The numbers, and the last of them again and again. -/
def repeated (vs : List Int32) (garbage : Int32) (n : ℕ) : List Int32 :=
  vs.take n ++ List.replicate (n - vs.length) (vs.getLast?.getD garbage)

theorem length_repeated (vs : List Int32) (garbage : Int32) (n : ℕ) :
    (repeated vs garbage n).length = n := by
  rw [repeated, List.length_append, List.length_take, List.length_replicate]
  omega

theorem sent_typed {vs : List (Int32 × List Char)} (h : Spaced vs) (garbage : Int32) (n : ℕ) :
    sent (typed vs) garbage n = repeated (vs.map Prod.fst) garbage n := by
  have hnospace : ∀ c ∈ ([] : List Char), isSpace c = true := by simp
  have hnumbers := numbers_typed h hnospace
  rw [List.nil_append] at hnumbers
  have hback : (numbers (typed vs)).map Int32.ofInt = vs.map Prod.fst := by
    rw [hnumbers, List.map_map]
    exact List.map_congr_left fun e _ => Int32.ofInt_toInt e.1
  have hlen : (numbers (typed vs)).length = (vs.map Prod.fst).length := by
    rw [hnumbers, List.length_map, List.length_map]
  rw [sent, loop_calls, hback, hlen]
  rfl

namespace LedTraffic

open Transition RequestReply

variable {κ ω : Type} [DecidableEq κ] [DecidableEq ω] [Fintype κ] [Fintype ω] [Nonempty ω]
  {L : Libbinder} {text : κ → List Char} {garbage : κ → Int32} {es : List (Event κ ω)}
  {s : State κ ω LedClient (Transaction L.Cell) (Answer L.Cell) ILedService.Call}

/-- The service can answer all calls. -/
theorem exists_answered (hr : Run (Step (protocol L κ)) (init (start text garbage)) es s) :
    ∃ es' t, Run (Step (protocol L κ)) s es' t ∧ t.client = s.client ∧
      ∀ c, t.phase c = .running := by
  obtain ⟨-, ⟨es', t, hrun, hrest⟩, hrunning⟩ := all_answered hr
  exact ⟨es', t, hrun.imp fun _ _ _ hs => hs.1, service_run_client hrun, hrunning es' t hrun hrest⟩

/-- A client can go on with its loop, whatever the others have done. -/
theorem exists_calls (hr : Run (Step (protocol L κ)) (init (start text garbage)) es s) (c : κ)
    (m : ℕ) : ∃ es' t, Run (Step (protocol L κ)) s es' t ∧ t.phase c = .running ∧
      m ≤ (t.client c).calls.length := by
  induction m with
  | zero =>
    obtain ⟨es', t, hrun, -, hrunning⟩ := exists_answered hr
    exact ⟨es', t, hrun, hrunning c, Nat.zero_le _⟩
  | succ m ih =>
    obtain ⟨es₁, t₁, hrun₁, hphase, hle⟩ := ih
    have hcall := hrun₁.snoc (.call (P := protocol L κ) hphase rfl)
    obtain ⟨es₂, t₂, hrun₂, hclient, hrunning⟩ := exists_answered (hr.append hcall)
    refine ⟨_, t₂, hcall.append hrun₂, hrunning c, ?_⟩
    rw [hclient]
    simpa [LedClient.ledOn, scanf_calls] using hle

/-- Whatever numbers are typed at the clients, in whatever order these and the server take their
steps: the service prints for each client the numbers typed there, in order, and then the last of
them again and again; and no client can be kept from having all of its numbers printed. -/
theorem typed_numbers_printed (hL : L.Lawful) {vs : κ → List (Int32 × List Char)}
    (hvs : ∀ c, Spaced (vs c))
    (hr : Run (Step (protocol L κ)) (init (start (fun c => typed (vs c)) garbage)) es s) :
    (∀ c, ∃ n, ofClient c s.log =
      (repeated ((vs c).map Prod.fst) (garbage c) n).map .ledOn) ∧
    ∀ c m, ∃ es' t n, Run (Step (protocol L κ)) s es' t ∧ m ≤ n ∧
      ofClient c t.log = (repeated ((vs c).map Prod.fst) (garbage c) n).map .ledOn := by
  constructor
  · intro c
    obtain ⟨n, hlog, -⟩ := client_alone hL hr c
    exact ⟨n, by rw [hlog, sent_typed (hvs c)]⟩
  · intro c m
    obtain ⟨es', t, hrun, hphase, hle⟩ := exists_calls hr c m
    obtain ⟨n, hlog, hcalls⟩ := client_alone hL (hr.append hrun) c
    rw [hphase] at hcalls
    rw [hcalls, sent_typed (hvs c), length_repeated] at hle
    exact ⟨es', t, n, hrun, hle, by rw [hlog, sent_typed (hvs c)]⟩

/-- Two clients, with `-7` and `12 5\n` as their input. -/
theorem typed_numbers_printed_two :
    let vs : Bool → List (Int32 × List Char) := fun c =>
      if c then [(-7, [])] else [(12, [' ']), (5, ['\n'])]
    typed (vs true) = "-7".toList ∧ typed (vs false) = "12 5\n".toList ∧
    ∃ (es : List (Event Bool Bool)) (t : State Bool Bool LedClient (Transaction (Wire ℕ))
        (Answer (Wire ℕ)) ILedService.Call) (n : ℕ),
      Run (Step (protocol (Wire.libbinder ℕ) Bool))
        (init (start (fun c => typed (vs c)) fun _ => 0)) es t ∧
      3 ≤ n ∧ ofClient false t.log = (repeated [12, 5] 0 n).map .ledOn := by
  intro vs
  have hvs : ∀ c, Spaced (vs c) := by
    intro c
    cases c <;> simp [vs, Spaced, isSpace]
  have hstart : Run (Step (protocol (Wire.libbinder ℕ) Bool))
      (init (ω := Bool) (start (fun c => typed (vs c)) fun _ => 0)) [] _ := .nil _
  obtain ⟨-, hprints⟩ := typed_numbers_printed (Wire.lawful ℕ) hvs hstart
  obtain ⟨es, t, n, hrun, hle, hlog⟩ := hprints false 3
  exact ⟨by decide, by decide, es, t, n, hrun, hle, hlog⟩

end LedTraffic

end AndroidRepo.Binder
