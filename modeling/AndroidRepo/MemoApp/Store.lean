import AndroidRepo.MemoApp.Fragments
import AndroidRepo.TaskPool
import Mathlib.Data.Fintype.Basic

/-! `memo_table` behind `databaseWriteExecutor`: Save clicks hand over inserts, and the threads
of the executor run them. -/
namespace AndroidRepo.MemoApp.Store

open Transition TaskPool

abbrev NUMBER_OF_THREADS : ℕ := 4

/-- `memo_table`; `lastId` is the largest id ever used. -/
structure Table where
  rows : List Memo
  lastId : Int
  deriving DecidableEq, Repr

/-- `@Insert(onConflict = OnConflictStrategy.REPLACE)`: a row with the same id is replaced. An
unset id becomes the generated one. -/
def MemoDao.insert (t : Table) (memo : Memo) (generated : Int) : Table :=
  let id := if memo.id = 0 then generated else memo.id
  { rows := t.rows.filter (·.id ≠ id) ++ [{ memo with id := id }], lastId := max t.lastId id }

/-- `SELECT * FROM memo_table ORDER BY id DESC` -/
def MemoDao.getAllMemos (t : Table) : List Memo := t.rows.mergeSort fun m m' => m'.id ≤ m.id

structure State where
  databaseWriteExecutor : Pool (Fin NUMBER_OF_THREADS) Memo
  table : Table

def init : State := ⟨empty, ⟨[], 0⟩⟩

/-- `MemoRepository.insert` -/
def State.insert (s : State) (memo : Memo) : State :=
  { s with databaseWriteExecutor := s.databaseWriteExecutor.submit memo }

inductive Action where
  /-- `onClick` of the Save button runs, with these texts in the two fields. -/
  | save (title content : String)
  /-- A thread of the executor takes the oldest insert. -/
  | take (w : Fin NUMBER_OF_THREADS)
  /-- A thread runs `mMemoDao.insert(memo)`. -/
  | insert (w : Fin NUMBER_OF_THREADS) (memo : Memo) (generated : Int)
  deriving DecidableEq, Repr

/-- Room generates an id larger than every id used before. -/
inductive Step : State → Action → State → Prop where
  | save {s : State} {title content : String} :
      Step s (.save title content)
        ((inserts (AddFragment.onClick title content)).foldl State.insert s)
  | take {s : State} {w : Fin NUMBER_OF_THREADS} {p : Pool (Fin NUMBER_OF_THREADS) Memo} :
      TaskPool.Step s.databaseWriteExecutor (.take w) p →
      Step s (.take w) { s with databaseWriteExecutor := p }
  | insert {s : State} {w : Fin NUMBER_OF_THREADS} {memo : Memo} {generated : Int}
      {p : Pool (Fin NUMBER_OF_THREADS) Memo} :
      TaskPool.Step s.databaseWriteExecutor (.finish w memo) p → s.table.lastId < generated →
      Step s (.insert w memo generated)
        ⟨p, MemoDao.insert s.table memo generated⟩

/-- The inserts that the Save clicks of a run have asked for, in click order. -/
def saved (as : List Action) : List Memo :=
  as.flatMap fun
    | .save title content => inserts (AddFragment.onClick title content)
    | _ => []

/-- The inserts that have run, in the order in which they reached the database. -/
def ran (as : List Action) : List Memo :=
  as.filterMap fun
    | .insert _ memo _ => some memo
    | _ => none

end AndroidRepo.MemoApp.Store
