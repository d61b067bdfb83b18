import AndroidRepo.StoreLog
import AndroidRepo.Transition
import Mathlib.Logic.Function.Basic

/-! ashmem_test: a server that registers a shared heap and writes a text into it, and any number
of clients that map the heap and print the text. The server registers before it writes; its
threads serve transactions after it has written. Each byte is written, and read, by itself. -/
namespace AndroidRepo.Ashmem

open StoreLog

/-- What tells ashmem1 from ashmem2. -/
structure Program where
  /-- `MemoryHeapBase(heapSize)` -/
  heapSize : ℕ
  /-- `MemoryBase(heap, offset, size)`, if that is what is registered -/
  base : Option (ℕ × ℕ)
  /-- the format of `sprintf`, which has no conversions -/
  format : List UInt8
  deriving DecidableEq, Repr

/-- `"Hello Client !!\n"` -/
def hello : List UInt8 := "Hello Client !!\n".toList.map fun c => c.toNat.toUInt8

def ashmem1 : Program := ⟨4096, none, hello⟩

def ashmem2 : Program := ⟨4096, some (2048, 1024), hello⟩

namespace Program

/-- Where the server writes to, and a client reads from. -/
def offset (P : Program) : ℕ := (P.base.map Prod.fst).getD 0

def size (P : Program) : ℕ := (P.base.map Prod.snd).getD P.heapSize

/-- `sprintf` ends the text with a zero. -/
def bytes (P : Program) : List UInt8 := P.format ++ [0]

/-- The text ends at its zero, and fits into the memory that is handed out. -/
def Fits (P : Program) : Prop :=
  0 ∉ P.format ∧ P.bytes.length ≤ P.size ∧ P.offset + P.size ≤ P.heapSize

instance (P : Program) : Decidable P.Fits := inferInstanceAs (Decidable (_ ∧ _ ∧ _))

theorem ashmem1_fits : ashmem1.Fits := by decide

theorem ashmem2_fits : ashmem2.Fits := by decide

end Program

inductive ServerPC where
  | addService
  /-- in `sprintf`, behind this many bytes -/
  | sprintf (written : ℕ)
  | startThreadPool
  /-- in `joinThreadPool` -/
  | serving
  deriving DecidableEq, Repr

inductive ClientPC where
  | checkService
  /-- in `base->getMemory(&offset, &size)` -/
  | getMemory
  /-- in `heap->getBase()`, with this offset -/
  | getBase (offset : ℕ)
  /-- in `printf("%s\n", p + offset)`, behind the bytes `out` -/
  | printf (offset : ℕ) (out : List UInt8)
  | done (out : List UInt8)
  /-- a call through a null pointer -/
  | crashed
  deriving DecidableEq, Repr

structure State (κ : Type) where
  server : ServerPC
  /-- `"ashmem.service"` is known to the service manager. -/
  registered : Bool
  heap : Buffer UInt8
  client : κ → ClientPC
  /-- an access outside of the heap -/
  fault : Bool

variable {κ : Type}

def init (P : Program) : State κ :=
  ⟨.addService, false, ⟨List.replicate P.heapSize 0, []⟩, fun _ => .checkService, false⟩

inductive Action (κ : Type) where
  | server
  | client (c : κ)
  deriving DecidableEq, Repr

variable [DecidableEq κ]

def State.setClient (s : State κ) (c : κ) (pc : ClientPC) : State κ :=
  { s with client := Function.update s.client c pc }

@[simp] theorem State.setClient_server (s : State κ) (c : κ) (pc : ClientPC) :
    (s.setClient c pc).server = s.server := rfl

@[simp] theorem State.setClient_registered (s : State κ) (c : κ) (pc : ClientPC) :
    (s.setClient c pc).registered = s.registered := rfl

@[simp] theorem State.setClient_heap (s : State κ) (c : κ) (pc : ClientPC) :
    (s.setClient c pc).heap = s.heap := rfl

@[simp] theorem State.setClient_client (s : State κ) (c : κ) (pc : ClientPC) :
    (s.setClient c pc).client = Function.update s.client c pc := rfl

@[simp] theorem State.setClient_fault (s : State κ) (c : κ) (pc : ClientPC) :
    (s.setClient c pc).fault = s.fault := rfl

/-- What a client asks for once it has found the service. -/
def Program.found (P : Program) : ClientPC :=
  match P.base with
  | some _ => .getMemory
  | none => .getBase 0

inductive Step (P : Program) : State κ → Action κ → State κ → Prop where
  | addService {s : State κ} : s.server = .addService →
      Step P s .server { s with server := .sprintf 0, registered := true }
  | store {s : State κ} {i : ℕ} {b : UInt8} {heap : Buffer UInt8} :
      s.server = .sprintf i → P.bytes[i]? = some b →
      s.heap.store (P.offset + i : ℕ) b = some heap →
      Step P s .server { s with server := .sprintf (i + 1), heap := heap }
  | storeFault {s : State κ} {i : ℕ} {b : UInt8} :
      s.server = .sprintf i → P.bytes[i]? = some b →
      s.heap.store (P.offset + i : ℕ) b = none → Step P s .server { s with fault := true }
  | stored {s : State κ} {i : ℕ} : s.server = .sprintf i → P.bytes[i]? = none →
      Step P s .server { s with server := .startThreadPool }
  | startThreadPool {s : State κ} : s.server = .startThreadPool →
      Step P s .server { s with server := .serving }
  | checkService {s : State κ} {c : κ} : s.client c = .checkService → s.registered = true →
      Step P s (.client c) (s.setClient c P.found)
  /-- `interface_cast` of null is null, and the next statement calls through it. -/
  | checkServiceNull {s : State κ} {c : κ} : s.client c = .checkService → s.registered = false →
      Step P s (.client c) (s.setClient c .crashed)
  /-- The transaction is served by a thread of the server's pool. -/
  | getMemory {s : State κ} {c : κ} {offset size : ℕ} :
      s.client c = .getMemory → s.server = .serving → P.base = some (offset, size) →
      Step P s (.client c) (s.setClient c (.getBase offset))
  | getBase {s : State κ} {c : κ} {offset : ℕ} :
      s.client c = .getBase offset → s.server = .serving →
      Step P s (.client c) (s.setClient c (.printf offset []))
  | read {s : State κ} {c : κ} {offset : ℕ} {out : List UInt8} {b : UInt8} :
      s.client c = .printf offset out → s.heap.cells[offset + out.length]? = some b → b ≠ 0 →
      Step P s (.client c) (s.setClient c (.printf offset (out ++ [b])))
  /-- The `'\n'` of the format follows the text. -/
  | readEnd {s : State κ} {c : κ} {offset : ℕ} {out : List UInt8} :
      s.client c = .printf offset out → s.heap.cells[offset + out.length]? = some 0 →
      Step P s (.client c) (s.setClient c (.done (out ++ [10])))
  | readFault {s : State κ} {c : κ} {offset : ℕ} {out : List UInt8} :
      s.client c = .printf offset out → s.heap.cells[offset + out.length]? = none →
      Step P s (.client c) { s with fault := true }

end AndroidRepo.Ashmem
