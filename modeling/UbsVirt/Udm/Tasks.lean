import UbsVirt.Lib.AsyncLock
import UbsVirt.Lib.Await
import UbsVirt.Lib.PyText
import UbsVirt.Udm.Selector

/-!
# The tasks that create a VM

A request is handled by a chain of tasks that share a context
(`ub_device_manager/common/async_task_framework.py`). To create a VM
(`app/vm_app.py:39-57`) the chain loads the domain XML, reads the SMBIOS data of the host, takes
the bind lock, selects and allocates the devices, releases the lock, and builds and starts the
domain. Whatever the chain leaves to others is a call: the device engine, libvirt, the host's
files, and the locks of the process. A call that does not wait is a step of its own like one that
does, which only adds interleavings.
-/

namespace UbsVirt.Udm

open Await
open Routine (get modify raise when ofExcept tryExcept Keeps)

/-! ### Requests and results -/

/-- `app/models.py:33-72`. -/
structure CreateVmRequest where
  affinityPolicy : Option NpuAffinityPolicy
  xmlText : Option String
  xmlPath : Option String
  upi : String
  needNic : Option Bool
  npuIds : Option (List String)
  npuCount : Option Nat
  deriving DecidableEq, Repr

/-- `vm_smbios.py:51-59`. -/
structure SmbiosType131 where
  flag : Nat
  podId : Nat
  slotId : Nat
  meshType : Nat
  superPodId : Nat
  servedIndex : Nat
  typeName : String := "UB INFO"
  deriving DecidableEq, Repr

/-- `npu_client.py:55-61`. -/
structure DeviceRef where
  deviceId : String
  deviceType : String
  deriving DecidableEq, Repr

def DeviceRef.key (device : DeviceRef) : DeviceKey := (device.deviceType, device.deviceId)

/-- `npu_client.py:64-70`. -/
structure AllocDevicesParams where
  upi : String
  busGuid : String
  deviceList : List DeviceRef
  deriving DecidableEq, Repr

/-- `app/models.py:266-277`. -/
structure BoundUbDevice where
  id : String
  guid : String
  type : String
  deriving DecidableEq, Repr

/-- `app/models.py:297-306`. -/
structure BindNpuDeviceResult where
  tid : Int
  uba : Int
  size : Int
  busGuid : String
  devices : List BoundUbDevice
  deriving DecidableEq, Repr

/-- A value the engine returns, as a field of type `int` takes it, or does not. -/
inductive PyValue where
  | int (n : Int)
  | notInt
  deriving DecidableEq, Repr

/-- A device as the engine describes it. -/
structure HostDevice where
  deviceType : String
  deviceId : String
  guid : String
  busInstance : Option String
  affinityDevs : List AffinityDeviceInfo
  deriving DecidableEq, Repr

/-! ### Calls -/

/-- What a chain calls. Of the domain that `defineXML` returns it is only of interest here
whether there is one. -/
inductive Call where
  | loadAndValidateXml (request : CreateVmRequest)
  | parseMemoryAffinity (xml : String)
  | getType131
  | getHostUbDevices
  | getTopology (inventory : List UbDeviceInfo)
  | allocDevices (upi busGuid : String) (deviceList : List DeviceRef)
  | queryUbaTidSize (busInstanceGuid : String)
  | freeDevices (busInstanceGuid : String) (deviceList : List DeviceRef)
  | build (xml : String) (bindResult : BindNpuDeviceResult) (smbiosType131 : SmbiosType131)
  | libvirtOpen
  | defineXml (xml : String)
  | domainName
  | domainCreate
  | domainUndefine
  | connClose
  | lockAcquire (lockName : String) (timeout : Option Nat)
  | lockRelease (lockName : String)

abbrev Call.Result : Call → Type
  | .loadAndValidateXml _ => String
  | .parseMemoryAffinity _ => List Int
  | .getType131 => Option SmbiosType131
  | .getHostUbDevices => List HostDevice
  | .getTopology _ => HostTopology
  | .allocDevices .. => String
  | .queryUbaTidSize _ => PyValue × PyValue × PyValue
  | .build .. => String
  | .defineXml _ => Bool
  | .domainName => String
  | .lockAcquire .. => Bool
  | _ => Unit

/-! ### The context of a chain -/

/-- The values the tasks leave for each other, and the names of the locks the chain has
(`async_task_framework.py:8-9,50-80`, `constants.py:14-23`). A key that is not set is false in a
condition. -/
structure Context where
  createVmRequest : Option CreateVmRequest
  vmXml : Option String
  vmMemoryAffinity : Option (List Int)
  vmSmbios : Option SmbiosType131
  bindRequest : Option BindNpuDeviceRequest
  boundDevices : Option (List UbDevice)
  bindResult : Option BindNpuDeviceResult
  acquiredLockNames : List String

/-- `async_task_framework.py:137-140`, `vm_app.py:48`. -/
def Context.ofRequest (request : CreateVmRequest) : Context :=
  ⟨some request, none, none, none, none, none, none, []⟩

abbrev AsyncIo (α : Type) := Routine Call Call.Result Exn Context α

abbrev ask (call : Call) : AsyncIo call.Result := Routine.call call

/-- `async_task_framework.py:111-125`. No task has a handler of its own. -/
structure AsyncTask where
  shouldRun : AsyncIo Bool := pure true
  execute : AsyncIo Unit

/-! ### Locks -/

/-- `async_task_framework.py:50-80`. -/
def acquireLock (lockName : String) (timeout : Option Nat) : AsyncIo Bool := do
  let context ← get
  if lockName ∈ context.acquiredLockNames then
    return true
  else
    let acquired ← ask (.lockAcquire lockName timeout)
    if acquired then
      modify fun context =>
        { context with acquiredLockNames := lockName :: context.acquiredLockNames }
      return true
    else
      return false

/-- `async_task_framework.py:83-97`. -/
def releaseLock (lockName : String) : AsyncIo Unit := do
  let context ← get
  if lockName ∈ context.acquiredLockNames then
    ask (.lockRelease lockName)
    modify fun context =>
      { context with acquiredLockNames := context.acquiredLockNames.erase lockName }
  else
    return ()

def releaseAll : List String → AsyncIo Unit
  | [] => pure ()
  | lockName :: rest => do
    ask (.lockRelease lockName)
    releaseAll rest

/-- `async_task_framework.py:100-108`. -/
def releaseChainLocks : AsyncIo Unit := do
  let context ← get
  releaseAll context.acquiredLockNames
  modify fun context => { context with acquiredLockNames := [] }

/-- `async_task_framework.py:128-136`. -/
def acquireLockTask (lockName : String) (timeout : Option Nat) : AsyncTask where
  execute := do
    let acquired ← acquireLock lockName timeout
    if acquired then
      return ()
    else
      raise (.runtimeError ("Acquire lock '" ++ lockName ++ "' timeout!"))

/-- `async_task_framework.py:139-145`. -/
def releaseLockTask (lockName : String) : AsyncTask where
  execute := releaseLock lockName

/-! ### Chains -/

/-- `async_task_framework.py:192-197`. -/
def runSingleTask (task : AsyncTask) : AsyncIo Unit := do
  let run ← task.shouldRun
  when run task.execute

def runTasks : List AsyncTask → AsyncIo Unit
  | [] => pure ()
  | task :: rest => do
    runSingleTask task
    runTasks rest

/-- `async_task_framework.py:199-215`. -/
def runChain (taskSteps : List AsyncTask) : AsyncIo Unit :=
  if taskSteps = [] then
    raise (.valueError "Task chain cannot be empty, please apply at least one task!")
  else
    (runTasks taskSteps).tryFinally releaseChainLocks

/-! ### Preparing the domain -/

/-- `str.strip` leaves nothing of the text. -/
def isBlank (text : String) : Bool := text.toList.all PyText.isSpace

/-- `vm_tasks.py:84-99`. -/
def validateCreateRequest (request : CreateVmRequest) : Except Exn Unit :=
  let invalid (msg : String) : Except Exn Unit := throw (.http .invalidCreateVmRequest msg)
  if request.affinityPolicy.isSome ∧ request.npuIds.isSome then
    invalid "affinity_policy cannot be used with npu_ids"
  else if request.affinityPolicy.isSome ∧ request.npuCount.isNone then
    invalid "affinity_policy requires npu_count"
  else if request.npuIds.getD [] ≠ [] ∧ 0 < request.npuCount.getD 0 then
    invalid "npu_ids and npu_count are mutually exclusive"
  else if ¬ (request.npuIds.getD []).Nodup then
    invalid "npu_ids contains duplicated id"
  else if truthy request.xmlText = truthy request.xmlPath then
    invalid "xml_text and xml_path must provide exactly one"
  else if request.xmlText.any isBlank then
    invalid "xml_text is empty"
  else if request.xmlPath.any isBlank then
    invalid "xml_path is empty"
  else return ()

/-- The request for the bind task, if NPUs are asked for. `vm_tasks.py:75-81`. -/
def bindRequestOf (request : CreateVmRequest) : Option BindNpuDeviceRequest :=
  if request.npuIds.getD [] ≠ [] ∨ 0 < request.npuCount.getD 0 then
    some ⟨request.upi, request.npuIds, request.npuCount, request.needNic⟩
  else none

/-- `vm_tasks.py:65-74`. -/
def loadMemoryAffinity (xml : String) : AsyncIo Unit := do
  let hostNodes ← (ask (.parseMemoryAffinity xml)).tryExcept fun exc =>
    match exc with
    | .valueError msg => raise (.http .invalidCreateVmRequest msg)
    | _ => raise exc
  modify fun context => { context with vmMemoryAffinity := some hostNodes }

/-- `vm_tasks.py:49-81`. -/
def prepareVmXmlTask : AsyncTask where
  shouldRun := do
    let context ← get
    match context.createVmRequest with
    | none => raise (.http .invalidCreateVmRequest "create vm request not found in task context")
    | some request =>
      ofExcept (validateCreateRequest request)
      return true
  execute := do
    let context ← get
    match context.createVmRequest with
    | none => raise (.other "create vm request not found")
    | some request =>
      let xml ← ask (.loadAndValidateXml request)
      when request.affinityPolicy.isSome (loadMemoryAffinity xml)
      modify fun context => { context with vmXml := some xml }
      modify fun context => { context with bindRequest := bindRequestOf request }

/-- `vm_tasks.py:151-165`. -/
def prepareVmSmbiosTask : AsyncTask where
  shouldRun := do
    let context ← get
    return context.bindRequest.isSome
  execute := do
    let smbiosType131 ← ask .getType131
    match smbiosType131 with
    | none => raise (.http .vmXmlBuildFailed "Host SMBIOS Type 131 is missing or invalid")
    | some info => modify fun context => { context with vmSmbios := some info }

/-! ### Binding the devices -/

/-- `npu_client.py:74`. -/
def ubsePassthroughDeviceTypes : List String := ["NPU", "NIC_PFE", "NIC_VFE"]

/-- The fields of an entry of the inventory have a length each. `npu_client.py:30-52`. -/
def ubDeviceInfo (device : HostDevice) : Except Exn UbDeviceInfo :=
  if device.deviceId.length ≤ 64 ∧ device.deviceType.length ≤ 32 ∧ device.guid.length ≤ 128 ∧
      (device.busInstance.all (·.length ≤ 128)) then
    return ⟨device.deviceId, device.deviceType, device.guid, device.busInstance,
      device.affinityDevs⟩
  else throw (.valueError "validation error for UbDeviceInfo")

theorem ubDeviceInfo_ok {device : HostDevice} {info : UbDeviceInfo}
    (h : ubDeviceInfo device = .ok info) :
    info = ⟨device.deviceId, device.deviceType, device.guid, device.busInstance,
      device.affinityDevs⟩ ∧ info.id.length ≤ 64 ∧ info.type.length ≤ 32 ∧ info.guid.length ≤ 128 := by
  unfold ubDeviceInfo at h
  split at h
  · next hlength =>
    cases h
    exact ⟨rfl, hlength.1, hlength.2.1, hlength.2.2.1⟩
  · cases h

/-- The allowed devices. `npu_client.py:100-107`. -/
def ubDeviceInfos (hostDevices : List HostDevice) : Except Exn (List UbDeviceInfo) :=
  (hostDevices.filter (·.deviceType ∈ ubsePassthroughDeviceTypes)).mapM ubDeviceInfo

/-- An entry of the inventory is a device that was reported. -/
theorem ubDeviceInfos_reported {hostDevices : List HostDevice} {inventory : List UbDeviceInfo}
    (h : ubDeviceInfos hostDevices = .ok inventory) {info : UbDeviceInfo} (hinfo : info ∈ inventory) :
    ∃ device ∈ hostDevices, ubDeviceInfo device = .ok info := by
  obtain ⟨device, hdevice, hok⟩ := exists_of_mapM_ok h hinfo
  exact ⟨device, List.mem_of_mem_filter hdevice, hok⟩

/-- `npu_client.py:94-107`. -/
def getHostUbDevices : AsyncIo (List UbDeviceInfo) := do
  let hostDevices ← ask .getHostUbDevices
  ofExcept (ubDeviceInfos hostDevices)

/-- The device list and the UPI of an allocation are checked before the call.
`npu_client.py:55-70`. -/
def allocDevicesParams (upi : String) (deviceList : List DeviceRef) :
    Except Exn AllocDevicesParams :=
  if 1 ≤ upi.length ∧ upi.length ≤ 64 ∧ deviceList ≠ [] ∧ ∀ device ∈ deviceList,
      1 ≤ device.deviceId.length ∧ device.deviceId.length ≤ 64 ∧
      1 ≤ device.deviceType.length ∧ device.deviceType.length ≤ 64 then
    return ⟨upi, "", deviceList⟩
  else throw (.valueError "validation error for AllocDevicesParams")

theorem allocDevicesParams_ok {upi : String} {deviceList : List DeviceRef}
    {params : AllocDevicesParams} (h : allocDevicesParams upi deviceList = .ok params) :
    params.deviceList = deviceList ∧ params.deviceList ≠ [] := by
  unfold allocDevicesParams at h
  split at h
  · next hvalid =>
    cases h
    exact ⟨rfl, hvalid.2.2.1⟩
  · cases h

/-- The UPI without its prefix. `npu_client.py:114-115`. -/
def ubseUpi (upi : String) : String :=
  match upi.toList with
  | '0' :: x :: rest => if x = 'x' ∨ x = 'X' then String.ofList rest else upi
  | _ => upi

/-- `npu_client.py:109-135`. -/
def bindDevices (params : AllocDevicesParams) : AsyncIo (String × PyValue × PyValue × PyValue) := do
  let busGuid ← ask (.allocDevices (ubseUpi params.upi) params.busGuid params.deviceList)
  tryExcept (do
      let mapping ← ask (.queryUbaTidSize busGuid)
      return (busGuid, mapping))
    fun exc => do
      ask (.freeDevices busGuid params.deviceList)
      raise exc

/-- `npu_client.py:137-146`. -/
def freeDevices (busInstanceGuid : String) (deviceList : List DeviceRef) : AsyncIo Unit :=
  ask (.freeDevices busInstanceGuid deviceList)

/-- `app/models.py:266-277`. -/
def boundUbDevice (device : UbDevice) : Except Exn BoundUbDevice :=
  match device.guid with
  | some guid =>
    if device.id.length ≤ 64 ∧ guid.length ≤ 128 ∧ device.type.length ≤ 64 then
      return ⟨device.id, guid, device.type⟩
    else throw (.valueError "validation error for BoundUbDevice")
  | none => throw (.valueError "validation error for BoundUbDevice")

/-- The result of a binding. `npu_tasks.py:137-142`, `app/models.py:297-306`. -/
def bindNpuDeviceResult (busGuid : String) (tid uba size : PyValue) (devices : List UbDevice) :
    Except Exn BindNpuDeviceResult := do
  let bound ← devices.mapM boundUbDevice
  match tid, uba, size with
  | .int tid, .int uba, .int size =>
    if busGuid.length ≤ 128 then return ⟨tid, uba, size, busGuid, bound⟩
    else throw (.valueError "validation error for BindNpuDeviceResult")
  | _, _, _ => throw (.valueError "validation error for BindNpuDeviceResult")

/-- What the affinity policy of the request goes by. `npu_tasks.py:105-113`. -/
def affinityArgs (policy : Option NpuAffinityPolicy) (inventory : List UbDeviceInfo) :
    AsyncIo AffinityArgs := do
  match policy with
  | none => return .none
  | some policy =>
    let context ← get
    match context.vmMemoryAffinity with
    | none => raise (.runtimeError
        "VM memory affinity is missing; PrepareVmXmlTask must run first")
    | some hostNodes =>
      let topology ← ask (.getTopology inventory)
      return ⟨some policy, some hostNodes, some topology⟩

/-- `npu_tasks.py:104-126`. -/
def resolveDevices (request : BindNpuDeviceRequest) (inventory : List UbDeviceInfo) :
    AsyncIo (List UbDevice) :=
  tryExcept (do
      let context ← get
      let affinity ← affinityArgs (context.createVmRequest.bind (·.affinityPolicy)) inventory
      ofExcept (resolveRequest inventory request affinity))
    fun exc =>
      match exc with
      | .valueError msg => raise (.http .resolveNpuDevicesFailed msg)
      | _ => raise exc

def deviceRefs (devices : List UbDevice) : List DeviceRef :=
  devices.map fun device => ⟨device.id, device.type⟩

/-- `npu_tasks.py:66-143`. -/
def bindNpuDeviceTask : AsyncTask where
  shouldRun := do
    let context ← get
    return context.bindRequest.isSome
  execute := do
    let context ← get
    match context.bindRequest with
    | none => raise (.other "bind request not found")
    | some request =>
      ofExcept (validateRequest request)
      let inventory ← getHostUbDevices
      let devices ← resolveDevices request inventory
      let params ← ofExcept (allocDevicesParams request.upi (deviceRefs devices))
      let (busGuid, tid, uba, size) ← bindDevices params
      modify fun context => { context with boundDevices := some devices }
      let result ← ofExcept (bindNpuDeviceResult busGuid tid uba size devices)
      modify fun context => { context with bindResult := some result }

/-! ### Starting the domain -/

/-- `vm_client.py:51-57`. -/
def connect : AsyncIo Unit :=
  (ask .libvirtOpen).tryExcept fun _ =>
    raise (.http .libvirtConnectionFailed "libvirt connection failed")

/-- `vm_client.py:177-189`. -/
def disconnect : AsyncIo Unit :=
  (ask .connClose).tryExcept fun _ => pure ()

/-- Defining or starting has failed: a domain that has been defined is undefined.
`vm_client.py:206-216`. -/
def defineStartFailed {α : Type} (defined : Bool) (exc : Exn) : AsyncIo α := do
  when defined (ask .domainUndefine)
  match exc with
  | .http .vmDefineStartFailed _ => raise exc
  | _ => raise (.http .vmDefineStartFailed "Failed to define/start VM domain")

/-- The body of the `try` is cut where `domain` is set, which the handler asks for.
`vm_client.py:191-218`. -/
def defineAndStart (xml : String) : AsyncIo Unit := do
  connect
  Routine.tryFinally
    (do
      let domain ← (ask (.defineXml xml)).tryExcept (defineStartFailed false)
      if domain then
        tryExcept (do
            let _ ← ask .domainName
            ask .domainCreate)
          (defineStartFailed true)
      else defineStartFailed false (.http .vmDefineStartFailed "Failed to define VM domain"))
    disconnect

def Call.isLibvirt : Call → Bool
  | .libvirtOpen | .defineXml _ | .domainName | .domainCreate | .domainUndefine | .connClose => true
  | _ => false

section

variable {Γ ω α : Type} {P : Protocol Call (fun call => Except Exn call.Result) Γ}
  {obs : Γ → Context → ω} (hlibvirt : ∀ call : Call, call.isLibvirt → (ask call).Keeps P obs)
include hlibvirt

theorem defineStartFailed_keeps (defined : Bool) (exc : Exn) :
    (defineStartFailed defined exc : AsyncIo α).Keeps P obs := by
  unfold defineStartFailed
  refine ((hlibvirt .domainUndefine rfl).when _).bind fun _ => ?_
  split <;> exact Keeps.raise _

/-- Whatever libvirt does not change, defining and starting a domain does not. -/
theorem defineAndStart_keeps (xml : String) : (defineAndStart xml).Keeps P obs := by
  have hfailed := fun defined exc => defineStartFailed_keeps (α := Unit) hlibvirt defined exc
  unfold defineAndStart connect disconnect
  refine ((hlibvirt .libvirtOpen rfl).tryExcept fun _ => Keeps.raise _).bind fun _ => ?_
  refine Keeps.tryFinally ?_
    ((hlibvirt .connClose rfl).tryExcept fun _ => Keeps.pure ())
  refine ((hlibvirt (.defineXml xml) rfl).tryExcept
    (defineStartFailed_keeps hlibvirt false)).bind fun domain => ?_
  refine Keeps.ite (Keeps.tryExcept ?_ (hfailed true)) (hfailed false _)
  exact (hlibvirt .domainName rfl).bind fun _ => hlibvirt .domainCreate rfl

end

/-- The devices of a binding, as they were allocated. `vm_tasks.py:186-189`. -/
def boundDeviceRefs (bindResult : BindNpuDeviceResult) : List DeviceRef :=
  bindResult.devices.map fun device => ⟨device.id, device.type⟩

/-- `vm_tasks.py:168-215`. -/
def buildAndStartVmTask : AsyncTask where
  execute := do
    let context ← get
    if truthy context.vmXml then
      let xml := context.vmXml.getD ""
      match context.bindResult with
      | none => defineAndStart xml
      | some bindResult =>
        tryExcept (do
            match context.vmSmbios with
            | none => raise (.http .vmXmlBuildFailed
                "prepared host SMBIOS Type 131 not found in task context")
            | some smbiosType131 =>
              let finalXml ← ask (.build xml bindResult smbiosType131)
              defineAndStart finalXml)
          fun exc => do
            -- a failed rollback is logged, the first failure stays
            (freeDevices bindResult.busGuid (boundDeviceRefs bindResult)).tryExcept fun _ => pure ()
            raise exc
    else
      raise (.http .vmXmlBuildFailed "loaded VM XML not found in task context")

/-- `vm_app.py:36`. -/
def vmBindLockName : String := "vm_bind_npu_device"

/-- The chain of a request. `vm_app.py:46-56`. -/
def createVmChain : List AsyncTask :=
  [prepareVmXmlTask, prepareVmSmbiosTask, acquireLockTask vmBindLockName none, bindNpuDeviceTask,
    releaseLockTask vmBindLockName, buildAndStartVmTask]

theorem runChain_createVmChain :
    runChain createVmChain = (runTasks createVmChain).tryFinally releaseChainLocks :=
  if_neg (List.cons_ne_nil _ _)

end UbsVirt.Udm
