import AndroidRepo.MachineInt
import AndroidRepo.Transition
import Mathlib.Logic.Function.Basic

/-! thread_test/tls.cpp: a counter for each thread behind the key `gTLS`. Each action is one of
the calls or accesses of `foo`, so other threads may run between any two of them. -/
namespace AndroidRepo.ThreadLocal

/-- Where a thread is. Counters are named by their addresses. -/
inductive PC where
  | outside
  | getspecific (func : String)
  | new (func : String)
  | setspecific (func : String) (count : ℕ)
  | increment (func : String) (count : ℕ)
  | print (func : String) (count : ℕ)
  /-- in `threadDestructor(st)` -/
  | destructor (st : ℕ)
  | exited
  /-- behind an access to memory that is not allocated, or an overflow -/
  | undefined
  deriving DecidableEq, Repr

/-- The arguments of one `printf("foo() : %s => count=%d\n", func, *count)`. -/
structure Line (τ : Type) where
  thread : τ
  func : String
  count : Int
  deriving DecidableEq, Repr

structure State (τ : Type) where
  pc : τ → PC
  /-- each thread's value of the key -/
  gTLS : τ → Option ℕ
  heap : ℕ → Option Int
  printed : List (Line τ)

inductive Action (τ : Type) where
  | call (i : τ) (func : String)
  | getspecific (i : τ)
  /-- `new int` returns this address, and the memory there has this content. -/
  | new (i : τ) (count : ℕ) (content : Int)
  | setspecific (i : τ)
  | increment (i : τ)
  | print (i : τ)
  | exit (i : τ)
  | delete (i : τ) (st : ℕ)
  deriving DecidableEq, Repr

variable {τ : Type}

/-- After `pthread_key_create`: every slot is null. -/
def init : State τ := ⟨fun _ => .outside, fun _ => none, fun _ => none, []⟩

variable [DecidableEq τ]

def State.setPC (s : State τ) (i : τ) (pc : PC) : State τ :=
  { s with pc := Function.update s.pc i pc }

@[simp] theorem State.setPC_pc (s : State τ) (i : τ) (pc : PC) :
    (s.setPC i pc).pc = Function.update s.pc i pc := rfl

@[simp] theorem State.setPC_gTLS (s : State τ) (i : τ) (pc : PC) :
    (s.setPC i pc).gTLS = s.gTLS := rfl

@[simp] theorem State.setPC_heap (s : State τ) (i : τ) (pc : PC) :
    (s.setPC i pc).heap = s.heap := rfl

@[simp] theorem State.setPC_printed (s : State τ) (i : τ) (pc : PC) :
    (s.setPC i pc).printed = s.printed := rfl

/-- The thread `main` never exits: when it returns, the process ends. -/
inductive Step (main : τ) : State τ → Action τ → State τ → Prop where
  | call {s : State τ} {i : τ} {func : String} :
      s.pc i = .outside → Step main s (.call i func) (s.setPC i (.getspecific func))
  | getNull {s : State τ} {i : τ} {func : String} :
      s.pc i = .getspecific func → s.gTLS i = none →
      Step main s (.getspecific i) (s.setPC i (.new func))
  | getCount {s : State τ} {i : τ} {func : String} {count : ℕ} :
      s.pc i = .getspecific func → s.gTLS i = some count →
      Step main s (.getspecific i) (s.setPC i (.increment func count))
  /-- `new int` has no initializer. -/
  | new {s : State τ} {i : τ} {func : String} {count : ℕ} {content : Int} :
      s.pc i = .new func → s.heap count = none → intMin ≤ content → content ≤ intMax →
      Step main s (.new i count content) { s.setPC i (.setspecific func count) with
        heap := Function.update s.heap count (some content) }
  | setspecific {s : State τ} {i : τ} {func : String} {count : ℕ} :
      s.pc i = .setspecific func count →
      Step main s (.setspecific i) { s.setPC i (.increment func count) with
        gTLS := Function.update s.gTLS i (some count) }
  | increment {s : State τ} {i : τ} {func : String} {count : ℕ} {n : Int} :
      s.pc i = .increment func count → s.heap count = some n → n < intMax →
      Step main s (.increment i) { s.setPC i (.print func count) with
        heap := Function.update s.heap count (some (n + 1)) }
  | incrementUndefined {s : State τ} {i : τ} {func : String} {count : ℕ} :
      s.pc i = .increment func count → (∀ n, s.heap count = some n → intMax ≤ n) →
      Step main s (.increment i) (s.setPC i .undefined)
  /-- The counter is read again for the output. -/
  | print {s : State τ} {i : τ} {func : String} {count : ℕ} {n : Int} :
      s.pc i = .print func count → s.heap count = some n →
      Step main s (.print i) { s.setPC i .outside with
        printed := s.printed ++ [⟨i, func, n⟩] }
  | printUndefined {s : State τ} {i : τ} {func : String} {count : ℕ} :
      s.pc i = .print func count → s.heap count = none →
      Step main s (.print i) (s.setPC i .undefined)
  | exitNull {s : State τ} {i : τ} :
      s.pc i = .outside → i ≠ main → s.gTLS i = none →
      Step main s (.exit i) (s.setPC i .exited)
  /-- The slot is reset, and the destructor of the key gets its value. -/
  | exitCount {s : State τ} {i : τ} {st : ℕ} :
      s.pc i = .outside → i ≠ main → s.gTLS i = some st →
      Step main s (.exit i) { s.setPC i (.destructor st) with
        gTLS := Function.update s.gTLS i none }
  | delete {s : State τ} {i : τ} {st : ℕ} {n : Int} :
      s.pc i = .destructor st → s.heap st = some n →
      Step main s (.delete i st) { s.setPC i .exited with
        heap := Function.update s.heap st none }
  | deleteUndefined {s : State τ} {i : τ} {st : ℕ} :
      s.pc i = .destructor st → s.heap st = none →
      Step main s (.delete i st) (s.setPC i .undefined)

/-- What a thread has printed, in order. -/
def State.counts (s : State τ) (i : τ) : List Int :=
  (s.printed.filter (·.thread = i)).map Line.count

/-- How often a thread has called `foo` in a run. -/
def calls (as : List (Action τ)) (i : τ) : ℕ :=
  as.countP fun
    | .call j _ => j = i
    | _ => false

end AndroidRepo.ThreadLocal
