import AndroidRepo.Fallible
import AndroidRepo.MachineInt
import AndroidRepo.RefGraph
import AndroidRepo.Transition

/-! `RefBase` and `sp<T>` of sp_test/sp.cpp, with the `sp` members of Looper_test/Looper.cpp.
Objects and handles are named by the order of their construction, which no address reuse can
confuse. -/
namespace AndroidRepo.StrongPointer

/-- Why an operation has no defined behaviour; `fuel` is the model's own cut-off. -/
inductive Fault where
  | destroyed (a : ℕ)
  | overflow (a : ℕ)
  | deadHandle (p : ℕ)
  | fuel
  deriving DecidableEq, Repr

/-- A managed object: the counter of `RefBase` and the pointees of its `sp` members. -/
structure Object where
  mRefs : Int
  members : List ℕ
  deriving DecidableEq, Repr

/-- All objects ever constructed, and those whose `delete this` has run, oldest first. -/
structure Heap where
  objects : List Object
  deleted : List ℕ
  deriving DecidableEq, Repr

namespace Heap

/-- An object's lifetime ends when its destructor starts; any access after that is a fault. -/
def access (h : Heap) (a : ℕ) : Except Fault Object :=
  match h.objects[a]? with
  | some o => if a ∈ h.deleted then .error (.destroyed a) else .ok o
  | none => .error (.destroyed a)

def store (h : Heap) (a : ℕ) (n : Int) : Heap :=
  { h with objects := h.objects.modify a fun o => { o with mRefs := n } }

/-- The result of `++` or `--` on `mRefs`. Signed arithmetic that leaves `int` is undefined. -/
def setRefs (h : Heap) (a : ℕ) (n : Int) : Except Fault Heap :=
  if intMin ≤ n ∧ n ≤ intMax then .ok (h.store a n) else .error (.overflow a)

/-- `RefBase():mRefs(0)`, for an object whose `sp` members point to `ms`. -/
def alloc (h : Heap) (ms : List ℕ) : Heap := { h with objects := h.objects ++ [⟨0, ms⟩] }

def delete (h : Heap) (a : ℕ) : Heap := { h with deleted := h.deleted ++ [a] }

/-- `mRefs++` -/
def incStrong (h : Heap) (a : ℕ) : Except Fault Heap := do
  let o ← h.access a
  h.setRefs a (o.mRefs + 1)

/-- `if(--mRefs == 0 ) delete this`. The destructor of the derived class ends with those of
its `sp` members, the last declared first, and each of them calls `decStrong` again. -/
def decStrong : ℕ → Heap → ℕ → Except Fault Heap
  | 0, _, _ => .error .fuel
  | fuel + 1, h, a => do
    let o ← h.access a
    let h ← h.setRefs a (o.mRefs - 1)
    if o.mRefs - 1 = 0 then
      o.members.reverse.foldlM (decStrong fuel) (h.delete a)
    else
      pure h

end Heap

/-- The heap and, for each handle, its `mPtr` until `~sp()` has run. -/
structure State where
  heap : Heap
  handles : List (Option ℕ)
  deriving DecidableEq, Repr

def init : State := ⟨⟨[], []⟩, []⟩

inductive Op where
  /-- `sp<T> p = new T(ps…)`: each `sp` member of the new object is copied from a handle. -/
  | create (ps : List ℕ)
  /-- `sp<T> p(ptr)` for the raw pointer of an object that exists already -/
  | wrap (a : ℕ)
  /-- `sp<T> q = p` -/
  | copy (p : ℕ)
  /-- `~sp()` -/
  | destroy (p : ℕ)
  /-- `p->` or `*p`, followed by a use of the object -/
  | deref (p : ℕ)
  deriving DecidableEq, Repr

namespace State

/-- `mPtr` of a handle -/
def mPtr (s : State) (p : ℕ) : Except Fault ℕ :=
  match s.handles[p]? with
  | some (some a) => .ok a
  | _ => .error (.deadHandle p)

/-- `sp( T *ptr )`: the pointer is stored and its object counted. -/
def sp (s : State) (h : Heap) (a : ℕ) : Except Fault State := do
  let h ← h.incStrong a
  pure ⟨h, s.handles ++ [some a]⟩

end State

def exec (fuel : ℕ) (s : State) : Op → Except Fault State
  | .create ps => do
    let ms ← ps.mapM s.mPtr
    let h ← ms.foldlM Heap.incStrong (s.heap.alloc ms)
    s.sp h s.heap.objects.length
  | .wrap a => s.sp s.heap a
  | .copy p => do
    let a ← s.mPtr p
    s.sp s.heap a
  | .destroy p => do
    let a ← s.mPtr p
    let h ← s.heap.decStrong fuel a
    pure ⟨h, s.handles.set p none⟩
  | .deref p => do
    let a ← s.mPtr p
    let _ ← s.heap.access a
    pure s

def run (fuel : ℕ) (s : State) (ops : List Op) : Except Fault State := ops.foldlM (exec fuel) s

/-- An object that has been constructed and whose destructor has not started. -/
def Heap.Live (h : Heap) (a : ℕ) : Prop := a < h.objects.length ∧ a ∉ h.deleted

def State.LiveHandle (s : State) (p : ℕ) : Prop := ∃ a, s.handles[p]? = some (some a)

/-- What the program must see to before an operation: it names live handles, and raw
pointers of live objects. -/
def Issuable (s : State) : Op → Prop
  | .create ps => ∀ p ∈ ps, s.LiveHandle p
  | .wrap a => s.heap.Live a
  | .copy p | .destroy p | .deref p => s.LiveHandle p

/-- Counter of an object and pointees of its members; only used for objects that exist. -/
def Heap.mRefs (h : Heap) (a : ℕ) : Int := (h.objects[a]?.map Object.mRefs).getD 0

def Heap.shape (h : Heap) : List (List ℕ) := h.objects.map Object.members

def Heap.members (h : Heap) (a : ℕ) : List ℕ := (h.shape[a]?).getD []

/-- The abstract reference graph of a heap; the roots are the references from outside. -/
def Heap.graph (h : Heap) (roots : Multiset ℕ) : RefGraph ℕ where
  live := (Finset.range h.objects.length).filter fun a => a ∉ h.deleted
  kids a := h.members a
  roots := roots

def State.roots (s : State) : Multiset ℕ := s.handles.reduceOption

def State.graph (s : State) : RefGraph ℕ := s.heap.graph s.roots

/-- The handles to an object: the program's own, and the members of live objects. -/
def State.handleCount (s : State) (a : ℕ) : ℕ := s.graph.inrefs a

/-- The handles an operation makes to an object. -/
def State.made (s : State) (a : ℕ) : Op → ℕ
  | .create ps => (ps.map fun p => s.handles[p]?.join).count (some a) +
      if a = s.heap.objects.length then 1 else 0
  | .wrap b => if a = b then 1 else 0
  | .copy p => if s.handles[p]? = some (some a) then 1 else 0
  | .destroy _ | .deref _ => 0

/-- Fewer than 2^31 handles to one object at a time. -/
def Fits (s : State) (op : Op) : Prop := ∀ a, s.handleCount a + s.made a op < 2 ^ 31

def Step (s : State) (op : Op) (t : State) : Prop :=
  Issuable s op ∧ Fits s op ∧ ∃ fuel, exec fuel s op = .ok t

end AndroidRepo.StrongPointer
