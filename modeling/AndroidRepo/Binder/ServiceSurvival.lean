import AndroidRepo.Binder.RoundTrip

/-! Which requests the process of binder5/server.cpp lives through. -/
namespace AndroidRepo.Binder

variable {L : Libbinder} {tx : Transaction L.Cell} {usable : L.IBinder → Prop}

namespace MyDataService

/-- One request: the answer and the calls that the handler makes, or none of them when the
process dies in a call through a null pointer. -/
def serve (L : Libbinder) (tx : Transaction L.Cell) :
    Option (Answer L.Cell × List (L.IBinder × Transaction L.Cell)) := do
  let served := BnMyDataService.onTransact L tx
  let sent ← served.calls.mapM fun
    | .registerCallback callback => registerCallback L callback
  pure (served.toAnswer, sent)

/-- A sequence of requests. The dead answer no more. -/
def serveAll (L : Libbinder) : List (Transaction L.Cell) →
    List (Option (Answer L.Cell × List (L.IBinder × Transaction L.Cell)))
  | [] => []
  | tx :: txs =>
    match serve L tx with
    | some answer => some answer :: serveAll L txs
    | none => List.replicate (txs.length + 1) none

end MyDataService

open MyDataService

/-- The binder behind a request's interface token, if the token is the right one. -/
def registered (L : Libbinder) (tx : Transaction L.Cell) : Option (Option L.IBinder) :=
  match L.checkInterface IMyDataService.descriptor tx.data 0 with
  | (true, pos) => some (L.readStrongBinder tx.data pos).1
  | (false, _) => none

/-- A request to register that carries no callback one can use. -/
def WithoutCallback (usable : L.IBinder → Prop) (tx : Transaction L.Cell) : Prop :=
  tx.code = IMyDataService.REGISTER_CALLBACK ∧ ¬ ∃ b, registered L tx = some (some b) ∧ usable b

/-- A request is answered, with an error if it carries no usable callback, and leaves the service
to the next ones as it found it. -/
structure Survives (usable : L.IBinder → Prop) (tx : Transaction L.Cell) : Prop where
  answered : ∃ answer, serve L tx = some answer
  refused : ∀ answer, serve L tx = some answer → WithoutCallback usable tx →
    answer.1.status ≠ NO_ERROR
  next : ∀ txs, serveAll L (tx :: txs) = serve L tx :: serveAll L txs

theorem serve_other (hc : tx.code ≠ IMyDataService.REGISTER_CALLBACK) :
    serve L tx = some (L.bBinderOnTransact IMyDataService.descriptor tx, []) := by
  rw [serve, BnMyDataService.onTransact, if_neg hc]
  rfl

/-- The interface check fails, or leaves the position of the binder. -/
theorem registered_cases (tx : Transaction L.Cell) :
    ∃ pos, (L.checkInterface IMyDataService.descriptor tx.data 0 = (false, pos) ∧
        registered L tx = none) ∨
      (L.checkInterface IMyDataService.descriptor tx.data 0 = (true, pos) ∧
        registered L tx = some (L.readStrongBinder tx.data pos).1) := by
  rcases hcheck : L.checkInterface IMyDataService.descriptor tx.data 0 with ⟨ok, pos⟩
  refine ⟨pos, ?_⟩
  cases ok with
  | false => exact Or.inl ⟨rfl, by rw [registered, hcheck]⟩
  | true => exact Or.inr ⟨rfl, by rw [registered, hcheck]⟩

theorem serve_denied (hc : tx.code = IMyDataService.REGISTER_CALLBACK)
    (hr : registered L tx = none) :
    ∃ pos, serve L tx = some (⟨PERMISSION_DENIED, [], pos⟩, []) := by
  obtain ⟨pos, ⟨hcheck, -⟩ | ⟨-, hsome⟩⟩ := registered_cases tx
  · refine ⟨pos, ?_⟩
    rw [serve, BnMyDataService.onTransact, if_pos hc, checkInterface, hcheck]
    rfl
  · rw [hsome] at hr
    cases hr

/-- Behind the right token, the handler runs on whatever binder there is. -/
theorem serve_registered {binder : Option L.IBinder}
    (hc : tx.code = IMyDataService.REGISTER_CALLBACK) (hr : registered L tx = some binder) :
    (serve L tx = none ∧ binder = none) ∨
      ∃ b pos, binder = some b ∧ serve L tx = some (⟨NO_ERROR, [], pos⟩,
        [(b, BpMyDataCallback.onDataReceived L greeting)]) := by
  obtain ⟨pos, ⟨-, hnone⟩ | ⟨hcheck, hsome⟩⟩ := registered_cases tx
  · rw [hnone] at hr
    cases hr
  · obtain rfl := Option.some.inj (hsome.symm.trans hr)
    rw [serve, BnMyDataService.onTransact, if_pos hc, checkInterface, hcheck]
    cases hb : (L.readStrongBinder tx.data pos).1 with
    | none => exact Or.inl ⟨by simp [hb, interfaceCast, registerCallback], rfl⟩
    | some b =>
      right
      refine ⟨b, (L.readStrongBinder tx.data pos).2, rfl, ?_⟩
      simp [hb, interfaceCast, registerCallback]

theorem survives_of_some {answer : Answer L.Cell × List (L.IBinder × Transaction L.Cell)}
    (hs : serve L tx = some answer)
    (hr : WithoutCallback usable tx → answer.1.status ≠ NO_ERROR) : Survives usable tx where
  answered := ⟨answer, hs⟩
  refused answer' hs' := by
    obtain rfl := Option.some.inj (hs.symm.trans hs')
    exact hr
  next txs := by rw [serveAll, hs]

/-- A service that survives each of its requests answers them all, each on its own. -/
theorem serveAll_of_survives {txs : List (Transaction L.Cell)}
    (h : ∀ tx ∈ txs, Survives usable tx) :
    serveAll L txs = txs.map (serve L) ∧ none ∉ serveAll L txs := by
  induction txs with
  | nil => exact ⟨rfl, List.not_mem_nil⟩
  | cons tx txs ih =>
    have hsurv : Survives usable tx := h tx List.mem_cons_self
    obtain ⟨hmap, hnone⟩ := ih fun tx' hmem => h tx' (List.mem_cons_of_mem tx hmem)
    obtain ⟨answer, hs⟩ := hsurv.answered
    rw [hsurv.next txs]
    refine ⟨by rw [hmap, List.map_cons], ?_⟩
    intro hmem
    rcases List.mem_cons.mp hmem with hdead | hmem
    · rw [hs] at hdead
      cases hdead
    · exact hnone hmem

theorem permissionDenied_ne : PERMISSION_DENIED ≠ NO_ERROR := by decide

/-- A registration under the right token whose binder is null. -/
def nullRequest : Transaction (Wire.libbinder ℕ).Cell :=
  ⟨IMyDataService.REGISTER_CALLBACK,
    [Wire.token IMyDataService.descriptor, Wire.strongBinder none], 0⟩

theorem registered_nullRequest : registered (Wire.libbinder ℕ) nullRequest = some none := by
  simp [registered, nullRequest, Wire.libbinder, Wire.checkInterface, Wire.readStrongBinder]

/-- One request with a null binder takes the service down. -/
theorem null_callback_kills :
    ¬ ∀ tx : Transaction (Wire.libbinder ℕ).Cell, Survives (fun _ => True) tx := by
  intro h
  obtain ⟨answer, hs⟩ := (h nullRequest).answered
  obtain ⟨hdead, -⟩ | ⟨b, pos, hb, -⟩ := serve_registered rfl registered_nullRequest
  · rw [hdead] at hs
    cases hs
  · cases hb

/-- The service survives a request exactly when it is no registration, fails the interface check,
or carries a callback that is not null and can be used, whichever binders those are. -/
theorem survives_iff (usable : L.IBinder → Prop) (tx : Transaction L.Cell) :
    Survives usable tx ↔
      (tx.code = IMyDataService.REGISTER_CALLBACK → ∀ binder, registered L tx = some binder →
        ∃ b, binder = some b ∧ usable b) := by
  constructor
  · intro h hc binder hr
    obtain ⟨hdead, -⟩ | ⟨b, pos, rfl, hs⟩ := serve_registered hc hr
    · obtain ⟨answer, hs⟩ := h.answered
      rw [hdead] at hs
      cases hs
    · refine ⟨b, rfl, ?_⟩
      by_contra hb
      apply h.refused _ hs ⟨hc, ?_⟩ rfl
      rintro ⟨b', hr', hb'⟩
      rw [hr] at hr'
      obtain rfl := Option.some.inj (Option.some.inj hr')
      exact hb hb'
  · intro h
    by_cases hc : tx.code = IMyDataService.REGISTER_CALLBACK
    · cases hr : registered L tx with
      | none =>
        obtain ⟨pos, hs⟩ := serve_denied hc hr
        exact survives_of_some hs fun _ => permissionDenied_ne
      | some binder =>
        obtain ⟨b, rfl, hb⟩ := h hc binder hr
        obtain ⟨-, hnone⟩ | ⟨b', pos, -, hs⟩ := serve_registered hc hr
        · cases hnone
        · exact survives_of_some hs fun hno => absurd ⟨b, hr, hb⟩ hno.2
    · exact survives_of_some (serve_other hc) fun hno => absurd hno.1 hc

end AndroidRepo.Binder
