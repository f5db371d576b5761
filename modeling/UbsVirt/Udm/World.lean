import UbsVirt.Udm.Tasks

/-!
# What the chains call

The device engine knows which bus instance each device is bound to. It binds all devices of an
allocation or none, and the inventory it reports is the state at that moment. The locks are those
of the event loop. Everything else that a call returns, and whether it raises an exception, is
open: it is given by the surroundings, anew for every call.
-/

namespace UbsVirt.Udm

open Await Interleaving

/-- A bus instance; the engine has no name for none. -/
abbrev BusGuid := { guid : String // guid ≠ "" }

/-- A document that `validate_input_xml` has parsed; an empty text is none. -/
abbrev XmlText := { xml : String // xml ≠ "" }

/-- The allocations and releases that have been carried out: who passed which devices to
`alloc_devices`, with what success, and which devices were freed. -/
inductive Event (ι : Type) where
  | alloc (chain : ι) (devices : List DeviceKey) (ok : Bool)
  | free (devices : List DeviceKey)
  deriving DecidableEq, Repr

/-- A device of the host, but for what it is bound to. -/
structure DeviceDesc where
  deviceType : String
  deviceId : String
  guid : String
  affinityDevs : List AffinityDeviceInfo
  deriving DecidableEq, Repr

/-- The devices and what they are bound to, the locks of the process, and what has happened. -/
structure World (ι : Type) where
  devices : List DeviceDesc
  binding : DeviceKey → Option BusGuid
  locks : String → AsyncLock ι
  log : List (Event ι)

/-- What the surroundings make of a call. The inventory query and the release of devices succeed
or not; a lock that is waited for with a timeout may expire. -/
structure Env where
  loadAndValidateXml : Except Exn XmlText
  parseMemoryAffinity : Except Exn (List Int)
  getType131 : Except Exn (Option SmbiosType131)
  getHostUbDevices : Except Exn Unit
  getTopology : Except Exn HostTopology
  allocDevices : Except Exn BusGuid
  queryUbaTidSize : Except Exn (PyValue × PyValue × PyValue)
  freeDevices : Except Exn Unit
  build : Except Exn String
  libvirtOpen : Except Exn Unit
  defineXml : Except Exn Bool
  domainName : Except Exn String
  domainCreate : Except Exn Unit
  domainUndefine : Except Exn Unit
  connClose : Except Exn Unit
  expired : Bool

namespace World

variable {ι : Type}

def hostDevices (w : World ι) : List HostDevice :=
  w.devices.map fun device => ⟨device.deviceType, device.deviceId, device.guid,
    (w.binding (device.deviceType, device.deviceId)).map Subtype.val, device.affinityDevs⟩

/-- A device that is reported without a bus instance is free. -/
theorem binding_of_reported {w : World ι} {device : HostDevice} (hdevice : device ∈ w.hostDevices)
    (hfree : truthy device.busInstance = false) :
    w.binding (device.deviceType, device.deviceId) = none := by
  obtain ⟨desc, -, rfl⟩ := List.mem_map.mp hdevice
  dsimp only at hfree ⊢
  cases hbinding : w.binding (desc.deviceType, desc.deviceId) with
  | none => rfl
  | some busGuid =>
    rw [hbinding] at hfree
    exact absurd (of_decide_eq_false hfree) (not_not.mpr busGuid.property)

def keysOf (deviceList : List DeviceRef) : List DeviceKey := deviceList.map (·.key)

def allocate (w : World ι) (chain : ι) (busGuid : BusGuid) (deviceList : List DeviceRef) :
    World ι where
  devices := w.devices
  binding := fun key => if key ∈ keysOf deviceList then some busGuid else w.binding key
  locks := w.locks
  log := w.log ++ [.alloc chain (keysOf deviceList) true]

def refuse (w : World ι) (chain : ι) (deviceList : List DeviceRef) : World ι :=
  { w with log := w.log ++ [.alloc chain (keysOf deviceList) false] }

def release (w : World ι) (deviceList : List DeviceRef) : World ι where
  devices := w.devices
  binding := fun key => if key ∈ keysOf deviceList then none else w.binding key
  locks := w.locks
  log := w.log ++ [.free (keysOf deviceList)]

def setLock (w : World ι) (lockName : String) (lock : AsyncLock ι) : World ι :=
  { w with locks := Function.update w.locks lockName lock }

/-- Allocation is all or nothing. -/
def answerAlloc (w : World ι) (chain : ι) (env : Env) (deviceList : List DeviceRef) :
    World ι × Option (Except Exn String) :=
  match env.allocDevices with
  | .ok busGuid => (w.allocate chain busGuid deviceList, some (.ok busGuid.val))
  | .error e => (w.refuse chain deviceList, some (.error e))

def answerFree (w : World ι) (env : Env) (deviceList : List DeviceRef) :
    World ι × Option (Except Exn Unit) :=
  match env.freeDevices with
  | .ok _ => (w.release deviceList, some (.ok ()))
  | .error e => (w, some (.error e))

variable [DecidableEq ι]

def answerAcquire (w : World ι) (chain : ι) (env : Env) (lockName : String)
    (timeout : Option Nat) : World ι × Option (Except Exn Bool) :=
  if timeout.isSome ∧ env.expired then
    (w.setLock lockName ((w.locks lockName).giveUp chain), some (.ok false))
  else
    match (w.locks lockName).acquire chain with
    | (lock, true) => (w.setLock lockName lock, some (.ok true))
    | (lock, false) => (w.setLock lockName lock, none)

/-- How a call of a chain is answered; there is no answer yet if the chain has to wait for a
lock. -/
def answer (w : World ι) (chain : ι) (env : Env) :
    (call : Call) → World ι × Option (Except Exn call.Result)
  | .loadAndValidateXml _ => (w, some (env.loadAndValidateXml.map Subtype.val))
  | .parseMemoryAffinity _ => (w, some env.parseMemoryAffinity)
  | .getType131 => (w, some env.getType131)
  | .getHostUbDevices => (w, some (env.getHostUbDevices.map fun _ => w.hostDevices))
  | .getTopology _ => (w, some env.getTopology)
  | .allocDevices _ _ deviceList => w.answerAlloc chain env deviceList
  | .queryUbaTidSize _ => (w, some env.queryUbaTidSize)
  | .freeDevices _ deviceList => w.answerFree env deviceList
  | .build .. => (w, some env.build)
  | .libvirtOpen => (w, some env.libvirtOpen)
  | .defineXml _ => (w, some env.defineXml)
  | .domainName => (w, some env.domainName)
  | .domainCreate => (w, some env.domainCreate)
  | .domainUndefine => (w, some env.domainUndefine)
  | .connClose => (w, some env.connClose)
  | .lockAcquire lockName timeout => w.answerAcquire chain env lockName timeout
  | .lockRelease lockName =>
    (w.setLock lockName (w.locks lockName).release, some (.ok ()))

def start (devices : List DeviceDesc) (binding : DeviceKey → Option BusGuid) : World ι where
  devices := devices
  binding := binding
  locks := fun _ => .free
  log := []

end World

/-- The program of a request to create a VM. `vm_app.py:40-57`. -/
def createVm (request : CreateVmRequest) :
    Prog Call (fun call => Except Exn call.Result) (Except Exn Unit × Context) :=
  runChain createVmChain (.ofRequest request)

/-! ### A small case -/

def oneNpuRequest : CreateVmRequest where
  affinityPolicy := none
  xmlText := some "<domain/>"
  xmlPath := none
  upi := "0x000f"
  needNic := some false
  npuIds := none
  npuCount := some 1

def oneNpuHost : List DeviceDesc := [⟨"NPU", "0-1", "guid-0-1", []⟩]

/-- Surroundings in which nothing fails. -/
def calmEnv : Env where
  loadAndValidateXml := .ok ⟨"<domain/>", by decide⟩
  parseMemoryAffinity := .ok []
  getType131 := .ok (some ⟨0, 0, 0, 0, 0, 0, "UB INFO"⟩)
  getHostUbDevices := .ok ()
  getTopology := .ok ⟨fun _ => none, fun _ => none⟩
  allocDevices := .ok ⟨"bus-0", by decide⟩
  queryUbaTidSize := .ok (.int 0, .int 0, .int 0)
  freeDevices := .ok ()
  build := .ok "<domain/>"
  libvirtOpen := .ok ()
  defineXml := .ok true
  domainName := .ok "vm"
  domainCreate := .ok ()
  domainUndefine := .ok ()
  connClose := .ok ()
  expired := false

end UbsVirt.Udm
