import AndroidRepo.MemoApp.Fragments
import AndroidRepo.Transition

/-! Clicks and the navigation back stack. Clicks run on the main thread, one after another, but
the view of a fragment that has been left takes clicks until it is torn down. -/
namespace AndroidRepo.MemoApp.Navigation

/-- An entry of the back stack; `visit` tells entries of one destination apart. -/
structure Entry where
  visit : ℕ
  destination : Destination
  deriving DecidableEq, Repr

inductive NavCall where
  | navigate (action : NavAction)
  | popBackStack
  deriving DecidableEq, Repr

structure State where
  /-- the current entry is the last -/
  backStack : List Entry
  /-- the fragments whose views have been created and not torn down -/
  views : List Entry
  /-- how many entries have been pushed so far -/
  visits : ℕ
  /-- each call of the `NavController`, with the destination that was current then -/
  navCalls : List (NavCall × Option Destination)
  /-- each memo handed to `memoViewModel.insert`, with the visit it was typed in -/
  inserted : List (ℕ × Memo)
  /-- `navigate` has thrown on the main thread -/
  crashed : Bool
  deriving DecidableEq, Repr

def init : State := ⟨[⟨0, startDestination⟩], [], 1, [], [], false⟩

def State.current (s : State) : Option Entry := s.backStack.getLast?

def State.destination (s : State) : Option Destination := s.current.map Entry.destination

/-- One statement of a click handler; behind an exception none is reached. -/
def perform (visit : ℕ) (s : State) (effect : Effect) : State :=
  if s.crashed then s else
    match effect with
    | .insert memo => { s with inserted := s.inserted ++ [(visit, memo)] }
    | .popBackStack =>
      { s with
        navCalls := s.navCalls ++ [(.popBackStack, s.destination)]
        backStack := s.backStack.dropLast }
    | .navigate action =>
      let called := { s with navCalls := s.navCalls ++ [(NavCall.navigate action, s.destination)] }
      match s.destination.bind (·.action action) with
      | some destination =>
        { called with
          backStack := s.backStack ++ [Entry.mk s.visits destination]
          visits := s.visits + 1 }
      | none => { called with crashed := true }

inductive Action where
  /-- the add button of `ListFragment` -/
  | add (visit : ℕ)
  /-- the Save button of `AddFragment`, with these texts in the two fields -/
  | save (visit : ℕ) (title content : String)
  | createView
  | tearDown (e : Entry)
  deriving DecidableEq, Repr

inductive Step : State → Action → State → Prop where
  | add {s : State} {visit : ℕ} :
      s.crashed = false → ⟨visit, .listFragment⟩ ∈ s.views →
      Step s (.add visit) (ListFragment.onClick.foldl (perform visit) s)
  | save {s : State} {visit : ℕ} {title content : String} :
      s.crashed = false → ⟨visit, .addFragment⟩ ∈ s.views →
      Step s (.save visit title content)
        ((AddFragment.onClick title content).foldl (perform visit) s)
  | createView {s : State} {e : Entry} :
      s.crashed = false → s.current = some e → e ∉ s.views →
      Step s .createView { s with views := s.views ++ [e] }
  | tearDown {s : State} {e : Entry} :
      s.crashed = false → e ∈ s.views → s.current ≠ some e →
      Step s (.tearDown e) { s with views := s.views.erase e }

/-- The app navigates from the list only and pops the add screen only, so that the back stack
never takes another form; and a visit to the add screen inserts at most one memo. -/
structure Safe (s : State) : Prop where
  navigate : ∀ action d, (.navigate action, d) ∈ s.navCalls → d = some .listFragment
  popBackStack : ∀ d, (.popBackStack, d) ∈ s.navCalls → d = some .addFragment
  backStack : s.backStack.map Entry.destination = [.listFragment] ∨
    s.backStack.map Entry.destination = [.listFragment, .addFragment]
  once : (s.inserted.map Prod.fst).Nodup

end AndroidRepo.MemoApp.Navigation
