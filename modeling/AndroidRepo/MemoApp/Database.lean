import AndroidRepo.Transition
import Mathlib.Logic.Function.Basic

/-! `MemoDatabase.getDatabase` under any number of threads. Each access to the volatile
`INSTANCE`, and each entry to or exit from the monitor of the class, is one step. -/
namespace AndroidRepo.MemoApp.Database

/-- The next step of a thread in `getDatabase`; the built objects are numbered. -/
inductive PC where
  | outside
  | firstRead
  | monitorEnter
  | secondRead
  | build
  | write (db : ℕ)
  | monitorExit
  /-- leaving the monitor with an exception of the builder -/
  | unwind
  | finalRead
  deriving DecidableEq, Repr

structure State (τ : Type) where
  pc : τ → PC
  INSTANCE : Option ℕ
  /-- the owner of the monitor of `MemoDatabase.class` -/
  monitor : Option τ
  /-- how often `build()` has returned -/
  builds : ℕ
  returned : List (τ × Option ℕ)

inductive Action (τ : Type) where
  | call (i : τ)
  | move (i : τ)
  | throws (i : τ)
  deriving DecidableEq, Repr

variable {τ : Type}

def init : State τ := ⟨fun _ => .outside, none, none, 0, []⟩

variable [DecidableEq τ]

def State.setPC (s : State τ) (i : τ) (pc : PC) : State τ :=
  { s with pc := Function.update s.pc i pc }

@[simp] theorem State.setPC_pc (s : State τ) (i : τ) (pc : PC) :
    (s.setPC i pc).pc = Function.update s.pc i pc := rfl

@[simp] theorem State.setPC_INSTANCE (s : State τ) (i : τ) (pc : PC) :
    (s.setPC i pc).INSTANCE = s.INSTANCE := rfl

@[simp] theorem State.setPC_monitor (s : State τ) (i : τ) (pc : PC) :
    (s.setPC i pc).monitor = s.monitor := rfl

@[simp] theorem State.setPC_builds (s : State τ) (i : τ) (pc : PC) :
    (s.setPC i pc).builds = s.builds := rfl

@[simp] theorem State.setPC_returned (s : State τ) (i : τ) (pc : PC) :
    (s.setPC i pc).returned = s.returned := rfl

inductive Step : State τ → Action τ → State τ → Prop where
  | call {s : State τ} {i : τ} :
      s.pc i = .outside → Step s (.call i) (s.setPC i .firstRead)
  | firstReadNull {s : State τ} {i : τ} :
      s.pc i = .firstRead → s.INSTANCE = none → Step s (.move i) (s.setPC i .monitorEnter)
  | firstRead {s : State τ} {i : τ} {db : ℕ} :
      s.pc i = .firstRead → s.INSTANCE = some db → Step s (.move i) (s.setPC i .finalRead)
  | monitorEnter {s : State τ} {i : τ} :
      s.pc i = .monitorEnter → s.monitor = none →
      Step s (.move i) { s.setPC i .secondRead with monitor := some i }
  | secondReadNull {s : State τ} {i : τ} :
      s.pc i = .secondRead → s.INSTANCE = none → Step s (.move i) (s.setPC i .build)
  | secondRead {s : State τ} {i : τ} {db : ℕ} :
      s.pc i = .secondRead → s.INSTANCE = some db → Step s (.move i) (s.setPC i .monitorExit)
  | build {s : State τ} {i : τ} :
      s.pc i = .build →
      Step s (.move i) { s.setPC i (.write s.builds) with builds := s.builds + 1 }
  | buildThrows {s : State τ} {i : τ} :
      s.pc i = .build → Step s (.throws i) (s.setPC i .unwind)
  | write {s : State τ} {i : τ} {db : ℕ} :
      s.pc i = .write db →
      Step s (.move i) { s.setPC i .monitorExit with INSTANCE := some db }
  | monitorExit {s : State τ} {i : τ} :
      s.pc i = .monitorExit → Step s (.move i) { s.setPC i .finalRead with monitor := none }
  /-- The monitor is released, and the call returns nothing. -/
  | unwind {s : State τ} {i : τ} :
      s.pc i = .unwind → Step s (.move i) { s.setPC i .outside with monitor := none }
  | finalRead {s : State τ} {i : τ} :
      s.pc i = .finalRead →
      Step s (.move i) { s.setPC i .outside with returned := s.returned ++ [(i, s.INSTANCE)] }

end AndroidRepo.MemoApp.Database
