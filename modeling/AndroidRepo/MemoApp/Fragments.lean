import Mathlib.Data.List.Basic

/-! The entity and the two click handlers of the memo app, and its navigation graph. -/
namespace AndroidRepo.MemoApp

/-- An id of 0 is unset. -/
structure Memo where
  id : Int
  title : String
  content : String
  deriving DecidableEq, Repr

namespace Memo

/-- `new Memo(title, content)` leaves the id at its default. -/
def new (title content : String) : Memo := ⟨0, title, content⟩

/-- What the user has typed. -/
def typed (m : Memo) : String × String := (m.title, m.content)

end Memo

/-! res/navigation/nav_graph.xml -/

inductive Destination where
  | listFragment
  | addFragment
  deriving DecidableEq, Repr

def startDestination : Destination := .listFragment

inductive NavAction where
  | action_listFragment_to_addFragment
  deriving DecidableEq, Repr

/-- `app:destination` of an action, at a destination that has it. -/
def Destination.action : Destination → NavAction → Option Destination
  | .listFragment, .action_listFragment_to_addFragment => some .addFragment
  | .addFragment, _ => none

/-- What a click handler does to the world outside its fragment. -/
inductive Effect where
  /-- `memoViewModel.insert(memo)` -/
  | insert (memo : Memo)
  /-- `navController.popBackStack()` -/
  | popBackStack
  /-- `navController.navigate(R.id.…)` -/
  | navigate (action : NavAction)
  deriving DecidableEq, Repr

def ListFragment.onClick : List Effect := [.navigate .action_listFragment_to_addFragment]

def AddFragment.onClick (title content : String) : List Effect :=
  if !title.isEmpty then [.insert (Memo.new title content), .popBackStack] else []

/-- The memos that a handler inserts. -/
def inserts (effects : List Effect) : List Memo :=
  effects.filterMap fun
    | .insert memo => some memo
    | _ => none

theorem mem_inserts_onClick {title content : String} {memo : Memo}
    (hm : memo ∈ inserts (AddFragment.onClick title content)) :
    memo = Memo.new title content ∧ title ≠ "" := by
  unfold AddFragment.onClick at hm
  split at hm
  · rename_i hne
    refine ⟨by simpa [inserts] using hm, ?_⟩
    rintro rfl
    simp at hne
  · simp [inserts] at hm

end AndroidRepo.MemoApp
