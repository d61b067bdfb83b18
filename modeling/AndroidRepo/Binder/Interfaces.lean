import AndroidRepo.Binder.Parcel

/-! The hand-written proxies (`Bp…`) and stubs (`Bn…`) of binder3, binder4 and binder5. -/
namespace AndroidRepo.Binder

variable (L : Libbinder)

/-! binder4/ILedService.cpp -/

namespace ILedService

def descriptor : String16 := String16.ofString "android.my.ILedService"

def LED_ON : UInt32 := FIRST_CALL_TRANSACTION

inductive Call where
  | ledOn (ratio : Int32)
  deriving DecidableEq

end ILedService

def BpLedService.ledOn (ratio : Int32) : Transaction L.Cell :=
  ⟨ILedService.LED_ON, L.writeInt32 ratio, 0⟩

def BnLedService.onTransact (tx : Transaction L.Cell) : Served L.Cell ILedService.Call :=
  if tx.code = ILedService.LED_ON then
    let (ratio, pos) := L.readInt32 tx.data 0
    { status := NO_ERROR, reply := [], position := pos, calls := [.ledOn ratio] }
  else
    { L.bBinderOnTransact ILedService.descriptor tx with calls := [] }

/-! binder3/ILedService.cpp: the same service name, descriptor and code, but no ratio. -/

namespace Binder3

inductive Call where
  | ledOn
  deriving DecidableEq

def BpLedService.ledOn : Transaction L.Cell := ⟨ILedService.LED_ON, [], 0⟩

def BnLedService.onTransact (tx : Transaction L.Cell) : Served L.Cell Call :=
  if tx.code = ILedService.LED_ON then
    { status := NO_ERROR, reply := [], position := 0, calls := [.ledOn] }
  else
    { L.bBinderOnTransact ILedService.descriptor tx with calls := [] }

end Binder3

/-- `CHECK_INTERFACE`, then the rest of the case with the position behind the token. -/
def checkInterface {κ : Type} (descriptor : String16) (tx : Transaction L.Cell)
    (body : ℕ → Served L.Cell κ) : Served L.Cell κ :=
  match L.checkInterface descriptor tx.data 0 with
  | (true, pos) => body pos
  | (false, pos) => { status := PERMISSION_DENIED, reply := [], position := pos, calls := [] }

/-! binder5/IMyDataCallback.cpp -/

/-- A non-null `sp<IMyDataCallback>`: the local object or a proxy, known by its binder. -/
structure IMyDataCallback where
  asBinder : L.IBinder

namespace IMyDataCallback

def descriptor : String16 := String16.ofString "com.example.IMyDataCallback"

def ON_DATA_RECEIVED : UInt32 := FIRST_CALL_TRANSACTION

inductive Call where
  | onDataReceived (data : String16)
  deriving DecidableEq

end IMyDataCallback

def BpMyDataCallback.onDataReceived (data : String16) : Transaction L.Cell :=
  ⟨IMyDataCallback.ON_DATA_RECEIVED,
    L.writeInterfaceToken IMyDataCallback.descriptor ++ L.writeString16 data, 0⟩

def BnMyDataCallback.onTransact (tx : Transaction L.Cell) : Served L.Cell IMyDataCallback.Call :=
  if tx.code = IMyDataCallback.ON_DATA_RECEIVED then
    checkInterface L IMyDataCallback.descriptor tx fun pos =>
      let (msg, pos) := L.readString16 tx.data pos
      { status := NO_ERROR, reply := [], position := pos, calls := [.onDataReceived msg] }
  else
    { L.bBinderOnTransact IMyDataCallback.descriptor tx with calls := [] }

/-! binder5/IMyDataService.cpp -/

namespace IMyDataService

def descriptor : String16 := String16.ofString "android.my.IMyDataService"

def REGISTER_CALLBACK : UInt32 := FIRST_CALL_TRANSACTION

inductive Call where
  | registerCallback (callback : Option (IMyDataCallback L))

end IMyDataService

/-- `interface_cast<IMyDataCallback>`: null stays null. -/
def interfaceCast (binder : Option L.IBinder) : Option (IMyDataCallback L) :=
  binder.map IMyDataCallback.mk

/-- `IInterface::asBinder` -/
def asBinder (callback : Option (IMyDataCallback L)) : Option L.IBinder :=
  callback.map IMyDataCallback.asBinder

def BpMyDataService.registerCallback (callback : Option (IMyDataCallback L)) :
    Transaction L.Cell :=
  ⟨IMyDataService.REGISTER_CALLBACK,
    L.writeInterfaceToken IMyDataService.descriptor ++ L.writeStrongBinder (asBinder L callback), 0⟩

def BnMyDataService.onTransact (tx : Transaction L.Cell) :
    Served L.Cell (IMyDataService.Call L) :=
  if tx.code = IMyDataService.REGISTER_CALLBACK then
    checkInterface L IMyDataService.descriptor tx fun pos =>
      let (binder, pos) := L.readStrongBinder tx.data pos
      { status := NO_ERROR, reply := [], position := pos,
        calls := [.registerCallback (interfaceCast L binder)] }
  else
    { L.bBinderOnTransact IMyDataService.descriptor tx with calls := [] }

/-! binder5/server.cpp -/

namespace MyDataService

def greeting : String16 := String16.ofString "Hello from C++ Binder Server"

/-- The call that `registerCallback` makes through its argument; on a null pointer there is
none, and the process dies. -/
def registerCallback (callback : Option (IMyDataCallback L)) :
    Option (L.IBinder × Transaction L.Cell) :=
  callback.map fun cb => (cb.asBinder, BpMyDataCallback.onDataReceived L greeting)

end MyDataService

end AndroidRepo.Binder
