import AndroidRepo.LiveValue
import AndroidRepo.MemoApp.Navigation
import AndroidRepo.MemoApp.Store

/-! The memo app as a whole: clicks reach the navigation and the executor, Room keeps the
`LiveData` of `getAllMemos` up with the table, and `ListFragment` shows what it observes.

Room, lifecycle and RecyclerView are not in the repository. It is assumed of them that the table
is observed and queried again after a write, that the result is posted and set in stages each of
which keeps the newest value only, that an observer is called once for a version while its view
exists, and that rows are bound within `getItemCount()`. -/
namespace AndroidRepo.MemoApp.App

open Navigation (Entry)
open Store (NUMBER_OF_THREADS)

structure MemoListAdapter where
  memoList : List Memo
  deriving DecidableEq, Repr

namespace MemoListAdapter

/-- `new MemoListAdapter()` -/
def new : MemoListAdapter := ⟨[]⟩

def getItemCount (adapter : MemoListAdapter) : ℕ := adapter.memoList.length

/-- The texts that the row is given. `memoList.get` throws outside of the list. -/
def onBindViewHolder (adapter : MemoListAdapter) (position : ℕ) : Option (String × String) :=
  adapter.memoList[position]?.map Memo.typed

end MemoListAdapter

/-- The view of `ListFragment`, with its `RecyclerView` and its observer. -/
structure ListView where
  adapter : MemoListAdapter
  /-- `notifyDataSetChanged` was called, and the rows have not been laid out since. -/
  dataSetChanged : Bool
  /-- the texts of the rows on the screen -/
  rows : List (String × String)
  /-- the version of the value that the observer has seen last -/
  lastVersion : ℕ
  deriving DecidableEq, Repr

/-- `ListFragment.onViewCreated` -/
def ListView.onViewCreated : ListView := ⟨.new, false, [], 0⟩

/-- `MemoListAdapter.setMemos` -/
def ListView.setMemos (v : ListView) (memos : List Memo) : ListView :=
  { v with adapter := ⟨memos⟩, dataSetChanged := true }

/-- The `RecyclerView` binds the rows of `count` positions. -/
def ListView.layout (v : ListView) (first count : ℕ) : Option ListView := do
  let rows ← (List.range' first count).mapM v.adapter.onBindViewHolder
  pure { v with rows := rows, dataSetChanged := false }

structure State where
  navigation : Navigation.State
  store : Store.State
  /-- Room's `LiveData<List<Memo>>` of the query `getAllMemos` -/
  mAllMemos : LiveValue.Pipeline (List Memo)
  /-- the view of the list, while there is one -/
  list : Option ListView
  /-- `onBindViewHolder` has thrown on the main thread. -/
  thrown : Bool

def init : State := ⟨Navigation.init, Store.init, .new, none, false⟩

/-- An exception on the main thread ends the process. -/
def State.Alive (s : State) : Prop := s.navigation.crashed = false ∧ s.thrown = false

/-- One statement of a click handler: `memoViewModel.insert` goes on to `MemoRepository`. -/
def perform (visit : ℕ) (s : State) (effect : Effect) : State :=
  if s.navigation.crashed then s else
    { s with
      navigation := Navigation.perform visit s.navigation effect
      store := match effect with
        | .insert memo => s.store.insert memo
        | _ => s.store }

inductive Action where
  /-- a click in the view of this visit -/
  | add (visit : ℕ)
  | save (visit : ℕ) (title content : String)
  /-- The rows of other positions come to the screen. -/
  | scroll (first count : ℕ)
  | createView
  | tearDown (e : Entry)
  | take (w : Fin NUMBER_OF_THREADS)
  | insert (w : Fin NUMBER_OF_THREADS) (memo : Memo) (generated : Int)
  | invalidate
  | query
  | post
  | setValue
  | onChanged
  | layout (first count : ℕ)
  deriving DecidableEq, Repr

/-- What the process can do next, while it lives. -/
inductive Move : State → Action → State → Prop where
  | add {s : State} {visit : ℕ} : ⟨visit, .listFragment⟩ ∈ s.navigation.views →
      Move s (.add visit) (ListFragment.onClick.foldl (perform visit) s)
  | save {s : State} {visit : ℕ} {title content : String} :
      ⟨visit, .addFragment⟩ ∈ s.navigation.views →
      Move s (.save visit title content)
        ((AddFragment.onClick title content).foldl (perform visit) s)
  | createView {s : State} {e : Entry} :
      s.navigation.current = some e → e ∉ s.navigation.views →
      Move s .createView
        { s with
          navigation := { s.navigation with views := s.navigation.views ++ [e] }
          list := if e.destination = .listFragment then some .onViewCreated else s.list }
  | tearDown {s : State} {e : Entry} :
      e ∈ s.navigation.views → s.navigation.current ≠ some e →
      Move s (.tearDown e)
        { s with
          navigation := { s.navigation with views := s.navigation.views.erase e }
          list := if e.destination = .listFragment then none else s.list }
  | take {s : State} {w : Fin NUMBER_OF_THREADS} {store : Store.State} :
      Store.Step s.store (.take w) store → Move s (.take w) { s with store := store }
  | insert {s : State} {w : Fin NUMBER_OF_THREADS} {memo : Memo} {generated : Int}
      {store : Store.State} : Store.Step s.store (.insert w memo generated) store →
      Move s (.insert w memo generated)
        { s with store := store, mAllMemos := { s.mAllMemos with written := true } }
  /-- Room tells the `LiveData` that the table was written. -/
  | invalidate {s : State} : s.mAllMemos.written = true →
      Move s .invalidate
        { s with mAllMemos := { s.mAllMemos with written := false, invalid := true } }
  /-- A thread of Room runs the query. -/
  | query {s : State} : s.mAllMemos.invalid = true →
      Move s .query { s with mAllMemos := { s.mAllMemos with
        invalid := false, computed := some (Store.MemoDao.getAllMemos s.store.table) } }
  /-- A value that has not been set yet is replaced. -/
  | post {s : State} {memos : List Memo} : s.mAllMemos.computed = some memos →
      Move s .post { s with mAllMemos := { s.mAllMemos with
        computed := none, pending := some memos } }
  | setValue {s : State} {memos : List Memo} : s.mAllMemos.pending = some memos →
      Move s .setValue { s with mAllMemos := { s.mAllMemos with
        pending := none, value := some memos, version := s.mAllMemos.version + 1 } }
  /-- An observer whose view is started is called once for a version. -/
  | onChanged {s : State} {v : ListView} {memos : List Memo} :
      s.list = some v → s.mAllMemos.value = some memos → v.lastVersion < s.mAllMemos.version →
      Move s .onChanged { s with
        list := some { v.setMemos memos with lastVersion := s.mAllMemos.version } }
  /-- The `RecyclerView` asks for positions below `getItemCount()`. -/
  | layout {s : State} {v v' : ListView} {first count : ℕ} :
      s.list = some v → v.dataSetChanged = true → first + count ≤ v.adapter.getItemCount →
      v.layout first count = some v' → Move s (.layout first count) { s with list := some v' }
  | layoutThrows {s : State} {v : ListView} {first count : ℕ} :
      s.list = some v → v.dataSetChanged = true → first + count ≤ v.adapter.getItemCount →
      v.layout first count = none → Move s (.layout first count) { s with thrown := true }
  | scroll {s : State} {v v' : ListView} {first count : ℕ} :
      s.list = some v → v.dataSetChanged = false → first + count ≤ v.adapter.getItemCount →
      v.layout first count = some v' → Move s (.scroll first count) { s with list := some v' }
  | scrollThrows {s : State} {v : ListView} {first count : ℕ} :
      s.list = some v → v.dataSetChanged = false → first + count ≤ v.adapter.getItemCount →
      v.layout first count = none → Move s (.scroll first count) { s with thrown := true }

def Step (s : State) (a : Action) (t : State) : Prop := s.Alive ∧ Move s a t

/-- What the user does. -/
def Action.byUser : Action → Bool
  | .add _ | .save _ _ _ | .scroll _ _ => true
  | _ => false

/-- The steps that the app and the system take on their own. -/
def SystemStep (s : State) (a : Action) (t : State) : Prop := Step s a t ∧ a.byUser = false

end AndroidRepo.MemoApp.App
