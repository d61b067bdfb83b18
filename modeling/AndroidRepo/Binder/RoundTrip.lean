import AndroidRepo.Binder.Interfaces

/-! What a stub makes of the parcels of its own proxy, and of all other parcels. -/
namespace AndroidRepo.Binder

variable {L : Libbinder} {tx : Transaction L.Cell} {κ : Type} {d : String16}

@[simp] theorem interfaceCast_asBinder (cb : Option (IMyDataCallback L)) :
    interfaceCast L (asBinder L cb) = cb := by
  cases cb <;> rfl

theorem checkInterface_of_token {body : ℕ → Served L.Cell κ} {post : List L.Cell}
    (hL : L.Lawful) (hd : tx.data = L.writeInterfaceToken d ++ post) :
    checkInterface L d tx body = body (L.writeInterfaceToken d).length := by
  rw [checkInterface, hd, hL.checkInterface_start d post]

/-- The answer of a stub to a call of its own proxy. -/
def accepted (tx : Transaction L.Cell) (call : κ) : Served L.Cell κ :=
  { status := NO_ERROR, reply := [], position := tx.data.length, calls := [call] }

theorem ledOn_roundTrip (hL : L.Lawful) (ratio : Int32) :
    BnLedService.onTransact L (BpLedService.ledOn L ratio) =
      accepted (BpLedService.ledOn L ratio) (.ledOn ratio) := by
  have hr := hL.readInt32_start ratio []
  rw [List.append_nil] at hr
  simp [BnLedService.onTransact, BpLedService.ledOn, accepted, hr]

theorem onDataReceived_roundTrip (hL : L.Lawful) (data : String16) :
    BnMyDataCallback.onTransact L (BpMyDataCallback.onDataReceived L data) =
      accepted (BpMyDataCallback.onDataReceived L data) (.onDataReceived data) := by
  have hr := hL.readString16_after (L.writeInterfaceToken IMyDataCallback.descriptor) data
  have hcode : (BpMyDataCallback.onDataReceived L data).code =
      IMyDataCallback.ON_DATA_RECEIVED := rfl
  rw [BnMyDataCallback.onTransact, if_pos hcode, checkInterface_of_token hL rfl]
  simp [BpMyDataCallback.onDataReceived, accepted, hr]

theorem registerCallback_roundTrip (hL : L.Lawful) (callback : Option (IMyDataCallback L)) :
    BnMyDataService.onTransact L (BpMyDataService.registerCallback L callback) =
      accepted (BpMyDataService.registerCallback L callback) (.registerCallback callback) := by
  have hr := hL.readStrongBinder_after (L.writeInterfaceToken IMyDataService.descriptor)
    (asBinder L callback)
  have hcode : (BpMyDataService.registerCallback L callback).code =
      IMyDataService.REGISTER_CALLBACK := rfl
  rw [BnMyDataService.onTransact, if_pos hcode, checkInterface_of_token hL rfl]
  simp [BpMyDataService.registerCallback, accepted, hr]

/-- A call of one of the three proxies, and the handler call of the stub on the other side. -/
inductive Request (L : Libbinder) where
  | led (call : ILedService.Call)
  | dataCallback (call : IMyDataCallback.Call)
  | dataService (call : IMyDataService.Call L)

namespace Request

/-- The parcel that the proxy method builds. -/
def send : Request L → Transaction L.Cell
  | .led (.ledOn ratio) => BpLedService.ledOn L ratio
  | .dataCallback (.onDataReceived data) => BpMyDataCallback.onDataReceived L data
  | .dataService (.registerCallback callback) => BpMyDataService.registerCallback L callback

/-- The handler calls of the stub that the proxy is connected to, synchronously. -/
def handled (r : Request L) : List (Request L) :=
  match r with
  | .led _ => (BnLedService.onTransact L r.send).calls.map .led
  | .dataCallback _ => (BnMyDataCallback.onTransact L r.send).calls.map .dataCallback
  | .dataService _ => (BnMyDataService.onTransact L r.send).calls.map .dataService

theorem handled_eq (hL : L.Lawful) (r : Request L) : r.handled = [r] := by
  rcases r with ⟨⟨ratio⟩⟩ | ⟨⟨data⟩⟩ | ⟨⟨callback⟩⟩
  · simp [handled, send, ledOn_roundTrip hL, accepted]
  · simp [handled, send, onDataReceived_roundTrip hL, accepted]
  · simp [handled, send, registerCallback_roundTrip hL, accepted]

end Request

/-- Every call of a proxy passes the stub's interface check, reaches its handler once with an
equal argument, consumes the parcel and returns `NO_ERROR`; calls arrive in the order sent. -/
theorem proxy_stub_inverse (hL : L.Lawful) :
    (∀ ratio, BnLedService.onTransact L (BpLedService.ledOn L ratio) =
      accepted (BpLedService.ledOn L ratio) (.ledOn ratio)) ∧
    (∀ data, BnMyDataCallback.onTransact L (BpMyDataCallback.onDataReceived L data) =
      accepted (BpMyDataCallback.onDataReceived L data) (.onDataReceived data)) ∧
    (∀ callback, BnMyDataService.onTransact L (BpMyDataService.registerCallback L (some callback)) =
      accepted (BpMyDataService.registerCallback L (some callback))
        (.registerCallback (some callback))) ∧
    ∀ rs : List (Request L), rs.flatMap Request.handled = rs := by
  refine ⟨ledOn_roundTrip hL, onDataReceived_roundTrip hL,
    fun callback => registerCallback_roundTrip hL (some callback), ?_⟩
  intro rs
  induction rs with
  | nil => rfl
  | cons r rs ih => rw [List.flatMap_cons, Request.handled_eq hL, ih, List.singleton_append]

/-- A ratio of all ones, a text with a zero unit, and a binder, on typed cells. -/
theorem proxy_stub_inverse_wire :
    BnLedService.onTransact (Wire.libbinder ℕ) (BpLedService.ledOn _ (-1)) =
      accepted (BpLedService.ledOn _ (-1)) (.ledOn (-1)) ∧
    BnMyDataCallback.onTransact (Wire.libbinder ℕ) (BpMyDataCallback.onDataReceived _ [72, 0]) =
      accepted (BpMyDataCallback.onDataReceived _ [72, 0]) (.onDataReceived [72, 0]) ∧
    BnMyDataService.onTransact (Wire.libbinder ℕ)
        (BpMyDataService.registerCallback _ (some ⟨(7 : ℕ)⟩)) =
      accepted (BpMyDataService.registerCallback _ (some ⟨(7 : ℕ)⟩))
        (.registerCallback (some ⟨(7 : ℕ)⟩)) := by
  obtain ⟨hled, hcallback, hservice, -⟩ := proxy_stub_inverse (Wire.lawful ℕ)
  exact ⟨hled (-1), hcallback [72, 0], hservice ⟨(7 : ℕ)⟩⟩

end AndroidRepo.Binder
