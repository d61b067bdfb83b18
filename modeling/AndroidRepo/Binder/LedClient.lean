import AndroidRepo.Binder.RoundTrip
import AndroidRepo.MachineInt

/-! binder4/my_client.cpp: the numbers of the standard input, sent to the service one by one. -/
namespace AndroidRepo.Binder

variable {text rest : List Char} {v : Int} {r : Int32} {cs : List Int32} {n : ℕ}

/-! `scanf("%d", …)` -/

def isSpace (c : Char) : Bool :=
  c = ' ' || c = '\t' || c = '\n' || c = '\x0b' || c = '\x0c' || c = '\r'

def decimal (digits : List Char) : Int :=
  digits.foldl (fun n c => 10 * n + (c.toNat - '0'.toNat : ℕ)) 0

/-- An optional sign. -/
def scanSign : List Char → Bool × List Char
  | '-' :: cs => (true, cs)
  | '+' :: cs => (false, cs)
  | cs => (false, cs)

/-- One conversion: the number, and the rest of the input. A conversion that fails is assumed to
consume nothing; that C would consume a sign without a digit behind it is left out. -/
def scanInt (text : List Char) : Option (Int × List Char) :=
  let (negative, number) := scanSign (text.dropWhile isSpace)
  let digits := number.takeWhile Char.isDigit
  if digits = [] then none
  else some (if negative then -decimal digits else decimal digits, number.dropWhile Char.isDigit)

theorem length_scanSign (cs : List Char) : (scanSign cs).2.length ≤ cs.length := by
  unfold scanSign
  split <;> simp

theorem scanInt_length (h : scanInt text = some (v, rest)) : rest.length < text.length := by
  simp only [scanInt] at h
  split at h
  · cases h
  · rename_i hdigits
    obtain ⟨-, rfl⟩ := Prod.mk.inj (Option.some.inj h)
    have hsign := length_scanSign (text.dropWhile isSpace)
    have hspace := (List.dropWhile_suffix isSpace (l := text)).length_le
    have hsplit := congrArg List.length
      (List.takeWhile_append_dropWhile (p := Char.isDigit)
        (l := (scanSign (text.dropWhile isSpace)).2))
    have hpos := List.length_pos_iff.mpr hdigits
    rw [List.length_append] at hsplit
    omega

/-- The numbers that successive conversions read, up to the first that fails. -/
def numbers (text : List Char) : List Int :=
  match _h : scanInt text with
  | some (v, rest) => v :: numbers rest
  | none => []
termination_by text.length
decreasing_by exact scanInt_length _h

theorem numbers_some (h : scanInt text = some (v, rest)) : numbers text = v :: numbers rest := by
  rw [numbers]
  split <;> simp_all

theorem numbers_none (h : scanInt text = none) : numbers text = [] := by
  rw [numbers]
  split <;> simp_all

/-! The loop of `main` -/

structure LedClient where
  input : List Char
  ratio : Int32
  /-- the arguments of `ledOn`, in order -/
  calls : List Int32
  deriving DecidableEq, Repr

namespace LedClient

/-- `scanf("%d", &ratio)`, whose result is not looked at -/
def scanf (s : LedClient) : LedClient :=
  match scanInt s.input with
  | some (v, rest) => { s with input := rest, ratio := Int32.ofInt v }
  | none => s

/-- `pLed->ledOn(ratio)` -/
def ledOn (s : LedClient) : LedClient := { s with calls := s.calls ++ [s.ratio] }

/-- `while(1)`, up to its `n`-th iteration -/
def loop : ℕ → LedClient → LedClient
  | 0, s => s
  | n + 1, s => loop n s.scanf.ledOn

end LedClient

/-- The calls of the first `n` iterations. `ratio` starts with whatever is on the stack. -/
def sent (text : List Char) (garbage : Int32) (n : ℕ) : List Int32 :=
  (LedClient.loop n ⟨text, garbage, []⟩).calls

/-- The arguments that `LedService::ledOn` is called with. -/
def received (L : Libbinder) (calls : List Int32) : List Int32 :=
  calls.flatMap fun ratio => (BnLedService.onTransact L (BpLedService.ledOn L ratio)).calls.map
    fun | .ledOn ratio => ratio

/-- A ratio that no conversion has replaced since is sent again. -/
theorem loop_calls (n : ℕ) (text : List Char) (r : Int32) (cs : List Int32) :
    (LedClient.loop n ⟨text, r, cs⟩).calls =
      cs ++ ((numbers text).map Int32.ofInt).take n ++
        List.replicate (n - (numbers text).length)
          (((numbers text).map Int32.ofInt).getLast?.getD r) := by
  induction n generalizing text r cs with
  | zero => simp [LedClient.loop]
  | succ n ih =>
    rw [LedClient.loop, LedClient.scanf]
    cases h : scanInt text with
    | none => simp [LedClient.ledOn, ih, numbers_none h, List.replicate_succ]
    | some p =>
      obtain ⟨v, rest⟩ := p
      simp [LedClient.ledOn, ih, numbers_some h, List.getLast?_cons]

/-- Every number of the text is an `int`. -/
def NumbersFit (text : List Char) : Prop := ∀ v ∈ numbers text, intMin ≤ v ∧ v ≤ intMax

theorem NumbersFit.toInt_ofInt (hfit : NumbersFit text) (hv : v ∈ numbers text) :
    (Int32.ofInt v).toInt = v := by
  obtain ⟨hlo, hhi⟩ := hfit v hv
  simp only [intMin, intMax] at hlo hhi
  exact Int32.toInt_ofInt_of_le hlo (by omega)

theorem sent_eq (hfit : NumbersFit text) (garbage : Int32) (n : ℕ) :
    (sent text garbage n).map Int32.toInt = (numbers text).take n ++
      List.replicate (n - (numbers text).length)
        ((numbers text).getLast?.getD garbage.toInt) := by
  have hmap : ((numbers text).map Int32.ofInt).map Int32.toInt = numbers text := by
    conv_rhs => rw [← List.map_id (numbers text)]
    rw [List.map_map]
    exact List.map_congr_left fun v hv => hfit.toInt_ofInt hv
  have hlast : (((numbers text).map Int32.ofInt).getLast?.getD garbage).toInt =
      (numbers text).getLast?.getD garbage.toInt := by
    rw [List.getLast?_map]
    cases hl : (numbers text).getLast? with
    | none => rfl
    | some v => exact hfit.toInt_ofInt (List.mem_of_getLast? hl)
  rw [sent, loop_calls, List.nil_append, List.map_append, List.map_take, hmap, List.map_replicate,
    hlast]

theorem received_eq {L : Libbinder} (hL : L.Lawful) (calls : List Int32) :
    received L calls = calls := by
  induction calls with
  | nil => rfl
  | cons ratio calls ih =>
    rw [received, List.flatMap_cons, ledOn_roundTrip hL, accepted]
    exact congrArg (ratio :: ·) ih

/-- The client sends the numbers of the text, in order, and nothing after the last of them. -/
def SendsNumbers (L : Libbinder) (text : List Char) (garbage : Int32) : Prop :=
  (∀ n, (sent text garbage n).map Int32.toInt <+: numbers text) ∧
  (∃ n, (sent text garbage n).map Int32.toInt = numbers text) ∧
  ∀ n, received L (sent text garbage n) = sent text garbage n

theorem not_sendsNumbers {L : Libbinder} (hfit : NumbersFit text) (garbage : Int32) :
    ¬ SendsNumbers L text garbage := by
  rintro ⟨hpre, -⟩
  have hle := (hpre ((numbers text).length + 1)).length_le
  simp only [sent_eq hfit, List.length_append, List.length_take, List.length_replicate] at hle
  omega

/-- After a 7 and the end of the input, the client sends 7 once more. -/
theorem led_client_repeats :
    ¬ ∀ text garbage, NumbersFit text → SendsNumbers (Wire.libbinder ℕ) text garbage := by
  intro h
  have hscan : scanInt ['7'] = some (7, []) := rfl
  have hend : scanInt [] = none := rfl
  have hnumbers : numbers ['7'] = [7] := by rw [numbers_some hscan, numbers_none hend]
  have hfit : NumbersFit ['7'] := by
    intro v hv
    rw [hnumbers, List.mem_singleton] at hv
    subst v
    decide
  exact not_sendsNumbers hfit 0 (h ['7'] 0 hfit)

/-- For every text: the client sends its numbers, and then the last of them, or what was on the
stack, in every further iteration. The service receives all of it. -/
theorem led_client_never_stops {L : Libbinder} (hL : L.Lawful) (hfit : NumbersFit text)
    (garbage : Int32) :
    (∀ n, (sent text garbage n).map Int32.toInt = (numbers text).take n ++
      List.replicate (n - (numbers text).length)
        ((numbers text).getLast?.getD garbage.toInt)) ∧
    (∀ n, received L (sent text garbage n) = sent text garbage n) ∧
    ¬ SendsNumbers L text garbage :=
  ⟨sent_eq hfit garbage, fun _ => received_eq hL _, not_sendsNumbers hfit garbage⟩

/-- A text without a number: the client starts to send what was on the stack. -/
theorem led_client_never_stops_garbage :
    received (Wire.libbinder ℕ) (sent ['x'] 41 2) = [41, 41] ∧
      ¬ SendsNumbers (Wire.libbinder ℕ) ['x'] 41 := by
  have hnumbers : numbers ['x'] = [] := numbers_none rfl
  have hfit : NumbersFit ['x'] := by
    intro v hv
    simp [hnumbers] at hv
  obtain ⟨-, hreceived, hnot⟩ := led_client_never_stops (Wire.lawful ℕ) hfit 41
  exact ⟨hreceived 2, hnot⟩

end AndroidRepo.Binder
