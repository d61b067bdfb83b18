import AndroidRepo.Binder.RoundTrip

/-! What the stubs do with parcels that no proxy of theirs has written. -/
namespace AndroidRepo.Binder

variable {L : Libbinder} {tx : Transaction L.Cell}

/-- The ratio that `ledOn` is called with: the one the parcel starts with, or 0. -/
def LedRatio (data : List L.Cell) (ratio : Int32) : Prop :=
  (data = [] → ratio = 0) ∧ ∀ r post, data = L.writeInt32 r ++ post → ratio = r

/-- The text that `onDataReceived` is called with: the one that follows the token, or none. -/
def CallbackText (data : List L.Cell) (pos : ℕ) (text : String16) : Prop :=
  (∀ pre s post, data = pre ++ L.writeString16 s ++ post → pre.length = pos → text = s) ∧
  ((∀ s post, data.drop pos ≠ L.writeString16 s ++ post) → text = [])

theorem ledRatio_readInt32 (hL : L.Lawful) (hF : L.Forgiving) (data : List L.Cell) :
    LedRatio data (L.readInt32 data 0).1 := by
  constructor
  · rintro rfl
    exact hF.int32 [] 0 (Nat.le_refl 0)
  · rintro r post rfl
    rw [hL.readInt32_start r post]

theorem callbackText_readString16 (hL : L.Lawful) (hF : L.Forgiving) (data : List L.Cell)
    (pos : ℕ) : CallbackText data pos (L.readString16 data pos).1 := by
  constructor
  · rintro pre s post rfl rfl
    rw [hL.string16 pre s post]
  · exact hF.string16 data pos

theorem ledOn_accepts (hL : L.Lawful) (hF : L.Forgiving) (hc : tx.code = ILedService.LED_ON) :
    ∃ ratio, (BnLedService.onTransact L tx).calls = [.ledOn ratio] ∧ LedRatio tx.data ratio :=
  ⟨_, by rw [BnLedService.onTransact, if_pos hc], ledRatio_readInt32 hL hF tx.data⟩

theorem ledOn_other (hc : tx.code ≠ ILedService.LED_ON) :
    BnLedService.onTransact L tx =
      { L.bBinderOnTransact ILedService.descriptor tx with calls := [] } := by
  rw [BnLedService.onTransact, if_neg hc]

theorem onDataReceived_accepts (hL : L.Lawful) (hF : L.Forgiving)
    (hc : tx.code = IMyDataCallback.ON_DATA_RECEIVED)
    (ht : (L.checkInterface IMyDataCallback.descriptor tx.data 0).1 = true) :
    ∃ text, (BnMyDataCallback.onTransact L tx).calls = [.onDataReceived text] ∧
      CallbackText tx.data (L.checkInterface IMyDataCallback.descriptor tx.data 0).2 text := by
  refine ⟨_, ?_, callbackText_readString16 hL hF tx.data _⟩
  rw [BnMyDataCallback.onTransact, if_pos hc, checkInterface]
  split <;> simp_all

theorem onDataReceived_denies (hc : tx.code = IMyDataCallback.ON_DATA_RECEIVED)
    (ht : (L.checkInterface IMyDataCallback.descriptor tx.data 0).1 = false) :
    (BnMyDataCallback.onTransact L tx).status = PERMISSION_DENIED ∧
      (BnMyDataCallback.onTransact L tx).calls = [] := by
  rw [BnMyDataCallback.onTransact, if_pos hc, checkInterface]
  split <;> simp_all

theorem onDataReceived_other (hc : tx.code ≠ IMyDataCallback.ON_DATA_RECEIVED) :
    BnMyDataCallback.onTransact L tx =
      { L.bBinderOnTransact IMyDataCallback.descriptor tx with calls := [] } := by
  rw [BnMyDataCallback.onTransact, if_neg hc]

/-- No answer tells a client which of the two generations serves it. -/
theorem generations_answer_alike (tx : Transaction L.Cell) :
    (Binder3.BnLedService.onTransact L tx).status = (BnLedService.onTransact L tx).status ∧
    (Binder3.BnLedService.onTransact L tx).reply = (BnLedService.onTransact L tx).reply ∧
    ((Binder3.BnLedService.onTransact L tx).calls = [] ↔
      (BnLedService.onTransact L tx).calls = []) := by
  unfold Binder3.BnLedService.onTransact BnLedService.onTransact
  split <;> exact ⟨rfl, rfl, by simp⟩

/-- For every code and every parcel: which handler runs, on what value, and which transactions
are left to `BBinder::onTransact` or denied. -/
theorem stubs_accept (hL : L.Lawful) (hF : L.Forgiving) (tx : Transaction L.Cell) :
    ((tx.code = ILedService.LED_ON ∧
        ∃ ratio, (BnLedService.onTransact L tx).calls = [.ledOn ratio] ∧ LedRatio tx.data ratio) ∨
      (tx.code ≠ ILedService.LED_ON ∧ BnLedService.onTransact L tx =
        { L.bBinderOnTransact ILedService.descriptor tx with calls := [] })) ∧
    ((tx.code = IMyDataCallback.ON_DATA_RECEIVED ∧
        (L.checkInterface IMyDataCallback.descriptor tx.data 0).1 = true ∧
        ∃ text, (BnMyDataCallback.onTransact L tx).calls = [.onDataReceived text] ∧
          CallbackText tx.data (L.checkInterface IMyDataCallback.descriptor tx.data 0).2 text) ∨
      (tx.code = IMyDataCallback.ON_DATA_RECEIVED ∧
        (L.checkInterface IMyDataCallback.descriptor tx.data 0).1 = false ∧
        (BnMyDataCallback.onTransact L tx).status = PERMISSION_DENIED ∧
        (BnMyDataCallback.onTransact L tx).calls = []) ∨
      (tx.code ≠ IMyDataCallback.ON_DATA_RECEIVED ∧ BnMyDataCallback.onTransact L tx =
        { L.bBinderOnTransact IMyDataCallback.descriptor tx with calls := [] })) := by
  constructor
  · by_cases hc : tx.code = ILedService.LED_ON
    · exact Or.inl ⟨hc, ledOn_accepts hL hF hc⟩
    · exact Or.inr ⟨hc, ledOn_other hc⟩
  · by_cases hc : tx.code = IMyDataCallback.ON_DATA_RECEIVED
    · cases ht : (L.checkInterface IMyDataCallback.descriptor tx.data 0).1 with
      | true => exact Or.inl ⟨hc, rfl, onDataReceived_accepts hL hF hc ht⟩
      | false => exact Or.inr (Or.inl ⟨hc, rfl, onDataReceived_denies hc ht⟩)
    · exact Or.inr (Or.inr ⟨hc, onDataReceived_other hc⟩)

/-- The call of binder3's client, which writes no ratio, on the stub of binder4. -/
theorem stubs_accept_binder3 :
    ∃ ratio, (BnLedService.onTransact (Wire.libbinder ℕ) (Binder3.BpLedService.ledOn _)).calls =
      [.ledOn ratio] ∧ LedRatio (L := Wire.libbinder ℕ) [] ratio := by
  obtain ⟨-, h⟩ | ⟨hne, -⟩ := (stubs_accept (Wire.lawful ℕ) (Wire.forgiving ℕ)
    (Binder3.BpLedService.ledOn _)).1
  · exact h
  · exact absurd rfl hne

/-- Two parcels that no proxy writes and that reach a handler: binder3's call on binder4's
stub, and a callback parcel that ends behind its token. -/
theorem foreign_parcels_accepted :
    (BnLedService.onTransact (Wire.libbinder ℕ) (Binder3.BpLedService.ledOn _)).calls =
        [.ledOn 0] ∧
    (∀ ratio, (Binder3.BpLedService.ledOn (Wire.libbinder ℕ)).data ≠
      (BpLedService.ledOn (Wire.libbinder ℕ) ratio).data) ∧
    (BnMyDataCallback.onTransact (Wire.libbinder ℕ)
        ⟨IMyDataCallback.ON_DATA_RECEIVED, [.token IMyDataCallback.descriptor], 0⟩).calls =
      [.onDataReceived []] ∧
    ∀ data, [Wire.token IMyDataCallback.descriptor] ≠
      (BpMyDataCallback.onDataReceived (Wire.libbinder ℕ) data).data := by
  refine ⟨rfl,
    fun ratio => by simp [Binder3.BpLedService.ledOn, BpLedService.ledOn, Wire.libbinder], ?_,
    fun data he => by injection he with _ he; cases he⟩
  simp [BnMyDataCallback.onTransact, checkInterface, Wire.libbinder, Wire.checkInterface,
    Wire.readString16]

end AndroidRepo.Binder
