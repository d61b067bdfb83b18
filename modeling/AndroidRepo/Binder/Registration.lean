import AndroidRepo.Binder.Interfaces
import AndroidRepo.Transition
import Mathlib.Logic.Function.Basic

/-! The registration protocol of binder5: clients `ι` and the pool threads `ω` of one server.
Calls are synchronous. A call back into a client is taken up by the thread of that client that
waits in the same call chain, which is its main thread. -/
namespace AndroidRepo.Binder.Registration

variable (L : Libbinder) (ι ω : Type)

/-- What is under way between the processes. -/
inductive Message where
  /-- `transact(REGISTER_CALLBACK)` of a client, not yet picked up by the server -/
  | request (c : ι) (tx : Transaction L.Cell)
  /-- `transact(ON_DATA_RECEIVED)` on a callback object, by a server thread -/
  | call (w : ω) (target : L.IBinder) (tx : Transaction L.Cell)
  | callReply (w : ω) (status : Int32)
  | reply (c : ι) (status : Int32)

/-- The main thread of a client. -/
inductive Client where
  | idle
  /-- blocked in `transact`, on the way to `registerCallback` and back -/
  | waiting
  /-- still blocked there, and running `onTransact` of its callback object meanwhile -/
  | serving (w : ω) (target : L.IBinder) (tx : Transaction L.Cell)

/-- A pool thread of the server; `status` is what its `onTransact` is going to return. -/
inductive Server where
  | free
  | received (c : ι) (tx : Transaction L.Cell)
  /-- blocked in `callback->onDataReceived` -/
  | calling (c : ι) (status : Int32)
  | returning (c : ι) (status : Int32)
  /-- killed by a call through a null pointer -/
  | dead

/-- The history of a client: its own calls, and the calls on callback objects it has run. -/
inductive Event where
  | began (callback : L.IBinder)
  | received (target : L.IBinder) (data : String16)
  | returned (status : Int32)

structure State where
  client : ι → Client L ω
  server : ω → Server L ι
  inFlight : List (Message L ι ω)
  log : ι → List (Event L)

def init : State L ι ω := ⟨fun _ => .idle, fun _ => .free, [], fun _ => []⟩

/-- Whose thread moves. -/
inductive Action where
  | start (c : ι)
  | client (c : ι)
  | server (w : ω)

variable {L ι ω} [DecidableEq ι] [DecidableEq ω]

/-- A server thread runs `BnMyDataService::onTransact` up to the call of its handler's argument. -/
def dispatch (w : ω) (c : ι) (tx : Transaction L.Cell) : Server L ι × List (Message L ι ω) :=
  let served := BnMyDataService.onTransact L tx
  match served.calls with
  | [] => (.returning c served.status, [])
  | .registerCallback callback :: _ =>
    match MyDataService.registerCallback L callback with
    | some (target, tx) => (.calling c served.status, [.call w target tx])
    | none => (.dead, [])

/-- What `MyCallback` records of the handler calls of its stub. -/
def receivedBy (target : L.IBinder) : IMyDataCallback.Call → Event L
  | .onDataReceived data => .received target data

/-- `owner` tells which client a callback object lives in. Any message under way may be the
next to arrive. -/
inductive Step (owner : L.IBinder → ι) : State L ι ω → Action ι ω → State L ι ω → Prop where
  /-- `service->registerCallback(callback)` -/
  | start {s : State L ι ω} {c : ι} {callback : IMyDataCallback L} :
      s.client c = .idle → owner callback.asBinder = c →
      Step owner s (.start c) { s with
        client := Function.update s.client c .waiting
        inFlight := s.inFlight ++
          [.request c (BpMyDataService.registerCallback L (some callback))]
        log := Function.update s.log c (s.log c ++ [.began callback.asBinder]) }
  | accept {s : State L ι ω} {w : ω} {c : ι} {tx : Transaction L.Cell}
      {l₁ l₂ : List (Message L ι ω)} :
      s.server w = .free → s.inFlight = l₁ ++ .request c tx :: l₂ →
      Step owner s (.server w) { s with
        server := Function.update s.server w (.received c tx)
        inFlight := l₁ ++ l₂ }
  | dispatch {s : State L ι ω} {w : ω} {c : ι} {tx : Transaction L.Cell} :
      s.server w = .received c tx →
      Step owner s (.server w) { s with
        server := Function.update s.server w (dispatch w c tx).1
        inFlight := s.inFlight ++ (dispatch w c tx).2 }
  /-- the nested call reaches the thread that waits in its call chain -/
  | deliver {s : State L ι ω} {w : ω} {target : L.IBinder} {tx : Transaction L.Cell}
      {status : Int32} {l₁ l₂ : List (Message L ι ω)} :
      s.inFlight = l₁ ++ .call w target tx :: l₂ →
      s.server w = .calling (owner target) status → s.client (owner target) = .waiting →
      Step owner s (.client (owner target)) { s with
        client := Function.update s.client (owner target) (.serving w target tx)
        inFlight := l₁ ++ l₂ }
  | handle {s : State L ι ω} {c : ι} {w : ω} {target : L.IBinder} {tx : Transaction L.Cell} :
      s.client c = .serving w target tx →
      Step owner s (.client c) { s with
        client := Function.update s.client c .waiting
        inFlight := s.inFlight ++ [.callReply w (BnMyDataCallback.onTransact L tx).status]
        log := Function.update s.log c
          (s.log c ++ (BnMyDataCallback.onTransact L tx).calls.map (receivedBy target)) }
  | resume {s : State L ι ω} {w : ω} {c : ι} {status status' : Int32}
      {l₁ l₂ : List (Message L ι ω)} :
      s.server w = .calling c status → s.inFlight = l₁ ++ .callReply w status' :: l₂ →
      Step owner s (.server w) { s with
        server := Function.update s.server w (.returning c status)
        inFlight := l₁ ++ l₂ }
  | respond {s : State L ι ω} {w : ω} {c : ι} {status : Int32} :
      s.server w = .returning c status →
      Step owner s (.server w) { s with
        server := Function.update s.server w .free
        inFlight := s.inFlight ++ [.reply c status] }
  | finish {s : State L ι ω} {c : ι} {status : Int32} {l₁ l₂ : List (Message L ι ω)} :
      s.client c = .waiting → s.inFlight = l₁ ++ .reply c status :: l₂ →
      Step owner s (.client c) { s with
        client := Function.update s.client c .idle
        inFlight := l₁ ++ l₂
        log := Function.update s.log c (s.log c ++ [.returned status]) }

end AndroidRepo.Binder.Registration
