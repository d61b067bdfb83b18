import Mathlib.Data.List.Basic

/-! The part of libbinder that the hand-written proxies and stubs rely on. libbinder is not in
the repository: it is a parameter, and `Lawful` lists what its documentation promises. -/
namespace AndroidRepo.Binder

/-- UTF-16 text, zero units included. -/
abbrev String16 := List UInt16

/-- `String16("…")` for the repository's own literals, which are all ASCII. -/
def String16.ofString (s : String) : String16 := s.toList.map fun c => c.toNat.toUInt16

def NO_ERROR : Int32 := 0

def PERMISSION_DENIED : Int32 := -1

/-- `IBinder::FIRST_CALL_TRANSACTION` -/
def FIRST_CALL_TRANSACTION : UInt32 := 1

/-- What `transact` hands to the other side: the code, the contents of `data` and the flags. -/
structure Transaction (Cell : Type) where
  code : UInt32
  data : List Cell
  flags : UInt32

/-- What `onTransact` leaves: its status, the contents of `reply`, the read position in `data`. -/
structure Answer (Cell : Type) where
  status : Int32
  reply : List Cell
  position : ℕ

/-- An answer, and the handlers that were called on the way, in order. -/
structure Served (Cell κ : Type) extends Answer Cell where
  calls : List κ

/-- Each `write` is the list of cells it appends to a parcel. A `read` at a position yields a
value and the position behind it. -/
structure Libbinder where
  Cell : Type
  IBinder : Type
  writeInt32 : Int32 → List Cell
  writeString16 : String16 → List Cell
  writeStrongBinder : Option IBinder → List Cell
  writeInterfaceToken : String16 → List Cell
  readInt32 : List Cell → ℕ → Int32 × ℕ
  readString16 : List Cell → ℕ → String16 × ℕ
  readStrongBinder : List Cell → ℕ → Option IBinder × ℕ
  /-- `data.checkInterface(this)`, for a class with this descriptor -/
  checkInterface : String16 → List Cell → ℕ → Bool × ℕ
  /-- `BBinder::onTransact`, for a class with this descriptor; it knows no handler of the class -/
  bBinderOnTransact : String16 → Transaction Cell → Answer Cell

/-- A read undoes the write of the same type at the same position, whatever surrounds it. -/
def Undoes {Cell α : Type} (write : α → List Cell) (read : List Cell → ℕ → α × ℕ) : Prop :=
  ∀ pre x post, read (pre ++ write x ++ post) pre.length = (x, (pre ++ write x).length)

namespace Libbinder

structure Lawful (L : Libbinder) : Prop where
  int32 : Undoes L.writeInt32 L.readInt32
  string16 : Undoes L.writeString16 L.readString16
  strongBinder : Undoes L.writeStrongBinder L.readStrongBinder
  token : ∀ pre d post, L.checkInterface d (pre ++ L.writeInterfaceToken d ++ post) pre.length =
    (true, (pre ++ L.writeInterfaceToken d).length)

/-- The value-returning reads have no error path. -/
structure Forgiving (L : Libbinder) : Prop where
  int32 : ∀ data pos, data.length ≤ pos → (L.readInt32 data pos).1 = 0
  string16 : ∀ data pos, (∀ s post, data.drop pos ≠ L.writeString16 s ++ post) →
    (L.readString16 data pos).1 = []

variable {L : Libbinder}

/-- A read at the start of a parcel. -/
theorem Lawful.readInt32_start (hL : L.Lawful) (r : Int32) (post : List L.Cell) :
    L.readInt32 (L.writeInt32 r ++ post) 0 = (r, (L.writeInt32 r).length) := by
  simpa using hL.int32 [] r post

theorem Lawful.checkInterface_start (hL : L.Lawful) (d : String16) (post : List L.Cell) :
    L.checkInterface d (L.writeInterfaceToken d ++ post) 0 =
      (true, (L.writeInterfaceToken d).length) := by
  simpa using hL.token [] d post

theorem Lawful.readString16_after (hL : L.Lawful) (pre : List L.Cell) (s : String16) :
    L.readString16 (pre ++ L.writeString16 s) pre.length =
      (s, (pre ++ L.writeString16 s).length) := by
  simpa using hL.string16 pre s []

theorem Lawful.readStrongBinder_after (hL : L.Lawful) (pre : List L.Cell) (b : Option L.IBinder) :
    L.readStrongBinder (pre ++ L.writeStrongBinder b) pre.length =
      (b, (pre ++ L.writeStrongBinder b).length) := by
  simpa using hL.strongBinder pre b []

end Libbinder

/-! A libbinder to run the stubs on: each write is one typed cell. It behaves as the real one
on parcels whose reads and writes agree in type, and on parcels that end too early. -/

inductive Wire (ι : Type) where
  | int32 (r : Int32)
  | string16 (s : String16)
  | strongBinder (b : Option ι)
  | token (d : String16)
  deriving DecidableEq

namespace Wire

variable {ι : Type}

def readInt32 (data : List (Wire ι)) (pos : ℕ) : Int32 × ℕ :=
  match data[pos]? with
  | some (.int32 r) => (r, pos + 1)
  | _ => (0, pos)

def readString16 (data : List (Wire ι)) (pos : ℕ) : String16 × ℕ :=
  match data[pos]? with
  | some (.string16 s) => (s, pos + 1)
  | _ => ([], pos)

def readStrongBinder (data : List (Wire ι)) (pos : ℕ) : Option ι × ℕ :=
  match data[pos]? with
  | some (.strongBinder b) => (b, pos + 1)
  | _ => (none, pos)

def checkInterface (d : String16) (data : List (Wire ι)) (pos : ℕ) : Bool × ℕ :=
  match data[pos]? with
  | some (.token d') => (d' == d, pos + 1)
  | _ => (false, pos)

/-- The status of a code that no class in the chain knows: `-EBADMSG` -/
def UNKNOWN_TRANSACTION : Int32 := -74

def libbinder (ι : Type) : Libbinder where
  Cell := Wire ι
  IBinder := ι
  writeInt32 r := [.int32 r]
  writeString16 s := [.string16 s]
  writeStrongBinder b := [.strongBinder b]
  writeInterfaceToken d := [.token d]
  readInt32 := readInt32
  readString16 := readString16
  readStrongBinder := readStrongBinder
  checkInterface := checkInterface
  bBinderOnTransact _ _ := ⟨UNKNOWN_TRANSACTION, [], 0⟩

theorem readInt32_write : Undoes (fun r => [Wire.int32 r]) (@readInt32 ι) := by
  intro pre r post
  simp [readInt32]

theorem readString16_write : Undoes (fun s => [Wire.string16 s]) (@readString16 ι) := by
  intro pre s post
  simp [readString16]

theorem readStrongBinder_write : Undoes (fun b => [Wire.strongBinder b]) (@readStrongBinder ι) := by
  intro pre b post
  simp [readStrongBinder]

theorem checkInterface_write (pre post : List (Wire ι)) (d : String16) :
    checkInterface d (pre ++ [.token d] ++ post) pre.length =
      (true, (pre ++ [Wire.token d]).length) := by
  simp [checkInterface]

theorem lawful (ι : Type) : (libbinder ι).Lawful where
  int32 := readInt32_write
  string16 := readString16_write
  strongBinder := readStrongBinder_write
  token pre d post := checkInterface_write pre post d

theorem readInt32_end {data : List (Wire ι)} {pos : ℕ} (hle : data.length ≤ pos) :
    (readInt32 data pos).1 = 0 := by
  simp [readInt32, List.getElem?_eq_none hle]

theorem readString16_malformed {data : List (Wire ι)} {pos : ℕ}
    (hno : ∀ s post, data.drop pos ≠ [.string16 s] ++ post) : (readString16 data pos).1 = [] := by
  unfold readString16
  split
  · rename_i s hs
    obtain ⟨hlt, he⟩ := List.getElem?_eq_some_iff.mp hs
    refine absurd ?_ (hno s (data.drop (pos + 1)))
    rw [List.drop_eq_getElem_cons hlt, he]
    rfl
  · rfl

theorem forgiving (ι : Type) : (libbinder ι).Forgiving where
  int32 _ _ := readInt32_end
  string16 _ _ := readString16_malformed

end Wire

end AndroidRepo.Binder
