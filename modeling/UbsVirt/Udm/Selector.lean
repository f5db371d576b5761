import UbsVirt.Lib.Dict

/-!
# Choosing the devices of a bind request

A bind request names NPUs, or asks for a number of free ones, and may ask for one network device
per NPU. `UbDeviceSelector` (`ub_device_manager/domain/npu/device_selector.py`) chooses them from
the inventory of the host, with `NpuAffinitySelector` (`affinity_policy.py`) where the VM's memory
decides. The NPUs are taken from a list, each at most once. The network device of an NPU is the
first free one in its affinity list, whatever the other NPUs of the request have been given.
-/

namespace UbsVirt.Udm

open List

/-- The exceptions of `ub_device_manager/exceptions.py` that creating a VM may raise. -/
inductive HttpError where
  | invalidCreateVmRequest
  | affinityTopologyUnavailable
  | vmXmlTooLarge
  | vmXmlBuildFailed
  | vmDefineStartFailed
  | libvirtConnectionFailed
  | invalidBindDeviceRequest
  | resolveNpuDevicesFailed
  deriving DecidableEq, Repr

/-- An exception with its text. `ValidationError`, which a model raises for a value it does not
admit, is a `ValueError`. -/
inductive Exn where
  | valueError (msg : String)
  | typeError (msg : String)
  | keyError (msg : String)
  | runtimeError (msg : String)
  | http (error : HttpError) (detail : String)
  | other (msg : String)
  deriving DecidableEq, Repr

/-- Whether an optional text is true in a condition. -/
def truthy : Option String → Bool
  | none => false
  | some text => text ≠ ""

/-! ### Devices -/

/-- `device_selector.py:30-33`. -/
inductive UbDeviceType where
  | npu
  | nicPfe
  | nicVfe
  deriving DecidableEq, Repr

open UbDeviceType (nicVfe)

def UbDeviceType.value : UbDeviceType → String
  | .npu => "NPU"
  | .nicPfe => "NIC_PFE"
  | .nicVfe => "NIC_VFE"

/-- `device_selector.py:36`. -/
def defaultNicType : UbDeviceType := .nicVfe

/-- `npu_client.py:21-27`. -/
structure AffinityDeviceInfo where
  deviceId : String
  deviceType : String
  deriving DecidableEq, Repr

/-- An entry of the inventory. `npu_client.py:30-52`. -/
structure UbDeviceInfo where
  id : String
  type : String
  guid : String
  busGuid : Option String
  affinityDevs : List AffinityDeviceInfo
  deriving DecidableEq, Repr

/-- A chosen device. `device_selector.py:24-27`. -/
structure UbDevice where
  type : String
  id : String
  guid : Option String
  deriving DecidableEq, Repr

abbrev DeviceKey := String × String

def UbDeviceInfo.key (device : UbDeviceInfo) : DeviceKey := (device.type, device.id)

def UbDevice.key (device : UbDevice) : DeviceKey := (device.type, device.id)

def UbDeviceInfo.isBound (device : UbDeviceInfo) : Bool := truthy device.busGuid

def UbDeviceInfo.toUbDevice (device : UbDeviceInfo) : UbDevice :=
  ⟨device.type, device.id, some device.guid⟩

abbrev InventoryIndex := Dict DeviceKey UbDeviceInfo

/-- `device_selector.py:54`. -/
def inventoryIndex (inventory : List UbDeviceInfo) : InventoryIndex :=
  .ofList (inventory.map fun device => (device.key, device))

/-! ### The affinity policy -/

/-- `affinity_policy.py:18-21`. -/
inductive NpuAffinityPolicy where
  | required
  | socket
  | preferred
  deriving DecidableEq, Repr

def NpuAffinityPolicy.value : NpuAffinityPolicy → String
  | .required => "required"
  | .socket => "socket"
  | .preferred => "preferred"

/-- The NUMA node of each NPU, and the socket of each node, where it is known.
`host_topology.py:23-26`. -/
structure HostTopology where
  npuToNuma : String → Option Int
  numaToSocket : Int → Option (Option Int)

/-- What the affinity policy goes by: `affinity_policy`, `memory_nodes` and `topology` of
`resolve_npu_devices`. -/
structure AffinityArgs where
  affinityPolicy : Option NpuAffinityPolicy
  memoryNodes : Option (List Int)
  topology : Option HostTopology

def AffinityArgs.none : AffinityArgs := ⟨Option.none, Option.none, Option.none⟩

section

variable {δ : Type*} (idOf : δ → String)

/-- How near an NPU is to the memory. `affinity_policy.py:42-50`. -/
def tier (policy : NpuAffinityPolicy) (memoryNodes : List Int) (sockets : List Int)
    (topology : HostTopology) (device : δ) : Nat :=
  let node := topology.npuToNuma (idOf device)
  if policy = .required then
    if ∃ n ∈ node, n ∈ memoryNodes then 0 else 1
  else if ∃ n ∈ node, ∃ known ∈ topology.numaToSocket n, ∃ socket ∈ known, socket ∈ sockets then 0
  else 1

/-- The order of the candidates: by tier, then by id. `affinity_policy.py:58`. -/
def rankLe (a b : Nat × δ) : Bool :=
  a.1 < b.1 ∨ (a.1 = b.1 ∧ idOf a.2 ≤ idOf b.2)

/-- The candidates within the limit of the policy, in order. `affinity_policy.py:39-40,51-59`. -/
def ranked (candidates : List δ) (policy : NpuAffinityPolicy) (memoryNodes : List Int)
    (topology : HostTopology) : List δ :=
  let sockets := (memoryNodes.filterMap topology.numaToSocket).filterMap id
  let limit := if policy = .preferred then 1 else 0
  let tiers := candidates.map fun device =>
    (tier idOf policy memoryNodes sockets topology device, device)
  ((tiers.filter (·.1 ≤ limit)).mergeSort (rankLe idOf)).map Prod.snd

/-- `affinity_policy.py:32-59`. -/
def filterAndRank (candidates : List δ) (policy : NpuAffinityPolicy) (memoryNodes : List Int)
    (topology : HostTopology) : Except Exn (List δ) :=
  if memoryNodes = [] ∨ ∃ node ∈ memoryNodes, topology.numaToSocket node = none then
    throw (.valueError "memory binding references an unknown host NUMA node")
  else if policy = .socket ∧ none ∈ memoryNodes.filterMap topology.numaToSocket then
    throw (.valueError "socket topology is unknown for a memory NUMA node")
  else return ranked idOf candidates policy memoryNodes topology

/-- `affinity_policy.py:61-67`. Without a number the comparison fails. -/
def select (candidates : List δ) (count : Option Nat) (policy : NpuAffinityPolicy)
    (memoryNodes : List Int) (topology : HostTopology) : Except Exn (List δ) := do
  let ranked ← filterAndRank idOf candidates policy memoryNodes topology
  match count with
  | none => throw (.typeError "'<' not supported between instances of 'int' and 'NoneType'")
  | some n =>
    if ranked.length < n then
      throw (.valueError ("not enough free NPU devices for affinity_policy=" ++ policy.value ++
        ": requested=" ++ toString n ++ ", eligible=" ++ toString ranked.length))
    else return ranked.take n

end

/-! ### The selector -/

/-- The first free device of a type in an affinity list. `device_selector.py:122-134`. -/
def findAffinityDevice (device : UbDeviceInfo) (index : InventoryIndex) (nicType : UbDeviceType) :
    Option UbDeviceInfo :=
  device.affinityDevs.findSome? fun affinityDev =>
    if affinityDev.deviceType ≠ nicType.value then none
    else (index.get? (affinityDev.deviceType, affinityDev.deviceId)).filter (!·.isBound)

/-- `device_selector.py:97-106`. -/
def getFreeNpuCandidates (index : InventoryIndex) (needNic : Bool) : List UbDeviceInfo :=
  index.values.filter fun device =>
    device.type = UbDeviceType.npu.value ∧ ¬ device.isBound ∧
      (needNic → (findAffinityDevice device index defaultNicType).isSome)

/-- The device for an id that a request names. `device_selector.py:76-81`. -/
def resolveExplicitNpu (index : InventoryIndex) (deviceId : String) : Except Exn UbDevice :=
  match index.get? (UbDeviceType.npu.value, deviceId) with
  | none => throw (.valueError ("UB device not found, type: " ++ UbDeviceType.npu.value ++
      ", id: " ++ deviceId))
  | some device =>
    if device.isBound then
      throw (.valueError ("UB device is already bound, type: " ++ device.type ++ ", id: " ++
        device.id))
    else return device.toUbDevice

/-- `device_selector.py:72-82`. -/
def resolveExplicitNpus (ids : List String) (index : InventoryIndex) :
    Except Exn (List UbDevice) :=
  ids.mapM (resolveExplicitNpu index)

/-- `device_selector.py:84-95`. -/
def selectFreeNpus (count : Option Nat) (index : InventoryIndex) (needNic : Bool) :
    Except Exn (List UbDevice) :=
  let candidates := getFreeNpuCandidates index needNic
  match count with
  | none => throw (.typeError "'<' not supported between instances of 'int' and 'NoneType'")
  | some n =>
    if candidates.length < n then
      if needNic then
        throw (.valueError ("not enough free " ++ UbDeviceType.npu.value ++
          " devices with available affinity " ++ defaultNicType.value))
      else throw (.valueError ("not enough free " ++ UbDeviceType.npu.value ++ " devices"))
    else return (candidates.take n).map (·.toUbDevice)

/-- The network device for a chosen NPU. `device_selector.py:111-116`. -/
def affinityNic (index : InventoryIndex) (device : UbDevice) : Except Exn UbDevice :=
  match index.get? device.key with
  | none => throw (.keyError device.id)
  | some npu =>
    match findAffinityDevice npu index defaultNicType with
    | none => throw (.valueError ("NPU " ++ device.id ++ " has no available affinity " ++
        defaultNicType.value))
    | some nic => return nic.toUbDevice

/-- `device_selector.py:108-118`. -/
def appendAffinityNics (devices : List UbDevice) (index : InventoryIndex) :
    Except Exn (List UbDevice) := do
  let nics ← devices.mapM (affinityNic index)
  return devices ++ nics

/-- The NPUs of a request: those named, or else a number of free ones.
`device_selector.py:57-69`. -/
def selectNpus (index : InventoryIndex) (ids : Option (List String)) (count : Option Nat)
    (needNic : Bool) (affinity : AffinityArgs) : Except Exn (List UbDevice) :=
  match ids.getD [] with
  | _ :: _ => resolveExplicitNpus (ids.getD []) index
  | [] =>
    match affinity.affinityPolicy, affinity.memoryNodes, affinity.topology with
    | some policy, some memoryNodes, some topology => do
      let selected ← select (·.id) (getFreeNpuCandidates index needNic) count policy memoryNodes
        topology
      return selected.map (·.toUbDevice)
    | _, _, _ => selectFreeNpus count index needNic

/-- `device_selector.py:41-71`. -/
def resolveNpuDevices (inventory : List UbDeviceInfo) (ids : Option (List String))
    (count : Option Nat) (needNic : Bool) (affinity : AffinityArgs) :
    Except Exn (List UbDevice) := do
  let index := inventoryIndex inventory
  if affinity.affinityPolicy ≠ none ∧ (affinity.memoryNodes = none ∨ affinity.topology.isNone) then
    throw (.valueError "memory affinity and host topology are required")
  let selected ← selectNpus index ids count needNic affinity
  if needNic then appendAffinityNics selected index else return selected

/-! ### Requests -/

/-- `app/models.py:80-104`. -/
structure BindNpuDeviceRequest where
  upi : String
  ids : Option (List String)
  count : Option Nat
  needNic : Option Bool
  deriving DecidableEq, Repr

def hexDigit (c : Char) : Option Nat :=
  if '0' ≤ c ∧ c ≤ '9' then some (c.toNat - '0'.toNat)
  else if 'a' ≤ c ∧ c ≤ 'f' then some (c.toNat - 'a'.toNat + 10)
  else if 'A' ≤ c ∧ c ≤ 'F' then some (c.toNat - 'A'.toNat + 10)
  else none

/-- The number a text that matches `UPI_PATTERN` stands for. `npu_tasks.py:47`. -/
def upiValue (upi : String) : Option Nat :=
  match upi.toList with
  | '0' :: x :: digits =>
    if (x = 'x' ∨ x = 'X') ∧ 1 ≤ digits.length ∧ digits.length ≤ 4 then
      (digits.mapM hexDigit).map (·.foldl (fun value digit => 16 * value + digit) 0)
    else none
  | _ => none

/-- `npu_tasks.py:48-51`. -/
def upiMax : Nat := 0x0FFF

def upiMin : Nat := 0x0001

def allowedDeviceCounts : List Nat := [1, 2, 4, 8]

/-- The number of NPUs a request asks for. `npu_tasks.py:91`. -/
def BindNpuDeviceRequest.requestedCount (request : BindNpuDeviceRequest) : Nat :=
  match request.ids.getD [] with
  | [] => request.count.getD 0
  | ids => ids.length

/-- `npu_tasks.py:79-96`. -/
def validateRequest (request : BindNpuDeviceRequest) : Except Exn Unit :=
  match upiValue request.upi with
  | none => throw (.http .invalidBindDeviceRequest
      "upi must be a hexadecimal string with 1~4 digits, for example 0x000f or 0x0f")
  | some value =>
    if ¬ (upiMin ≤ value ∧ value ≤ upiMax) then
      throw (.http .invalidBindDeviceRequest "upi must be in range 0x0001~0x0fff")
    else if request.ids.getD [] ≠ [] ↔ request.count.getD 0 ≠ 0 then
      throw (.http .invalidBindDeviceRequest "exactly one of ids and count is required")
    else if ¬ (request.ids.getD []).Nodup then
      throw (.http .invalidBindDeviceRequest "repetitive device ids are not allowed")
    else if request.requestedCount ∉ allowedDeviceCounts then
      throw (.http .invalidBindDeviceRequest
        ("requested device count must be one of 1/2/4/8, got " ++ toString request.requestedCount))
    else return ()

/-- The call of the selector for a request. `npu_tasks.py:114-117`. -/
def resolveRequest (inventory : List UbDeviceInfo) (request : BindNpuDeviceRequest)
    (affinity : AffinityArgs) : Except Exn (List UbDevice) :=
  resolveNpuDevices inventory request.ids request.count (request.needNic.getD false) affinity

/-! ### What is chosen -/

/-- The entry of the inventory for a device; of several the index keeps the last one. -/
def entryOf (inventory : List UbDeviceInfo) (key : DeviceKey) : Option UbDeviceInfo :=
  inventory.reverse.find? (·.key = key)

/-- The NPUs of a request, in the order in which they are chosen: the entries of those named, or
the first ones of the free NPUs in the order of the index or of the policy. -/
def chosenNpus (inventory : List UbDeviceInfo) (request : BindNpuDeviceRequest)
    (affinity : AffinityArgs) : List UbDeviceInfo :=
  let candidates := getFreeNpuCandidates (inventoryIndex inventory) (request.needNic.getD false)
  match request.ids.getD [] with
  | [] =>
    match affinity.affinityPolicy, affinity.memoryNodes, affinity.topology with
    | some policy, some memoryNodes, some topology =>
      (ranked (·.id) candidates policy memoryNodes topology).take (request.count.getD 0)
    | _, _, _ => candidates.take (request.count.getD 0)
  | ids => ids.filterMap fun id => entryOf inventory (UbDeviceType.npu.value, id)

def firstFreeNic (inventory : List UbDeviceInfo) (npu : UbDeviceInfo) : Option UbDeviceInfo :=
  findAffinityDevice npu (inventoryIndex inventory) defaultNicType

def npusOf (devices : List UbDevice) : List UbDevice :=
  devices.filter (·.type = UbDeviceType.npu.value)

def nicsOf (devices : List UbDevice) : List UbDevice :=
  devices.filter (·.type = nicVfe.value)

/-- Different free devices, as many NPUs as the request asks for and, if it asks for them, as
many network devices, each in the affinity list of its NPU. -/
structure Resolved (inventory : List UbDeviceInfo) (request : BindNpuDeviceRequest)
    (devices : List UbDevice) : Prop where
  distinct : (devices.map (·.key)).Nodup
  unbound : ∀ device ∈ devices, ∃ info, entryOf inventory device.key = some info ∧
    info.isBound = false
  npus : (npusOf devices).length = request.requestedCount
  nics : request.needNic.getD false = true →
    (nicsOf devices).length = request.requestedCount ∧
      ∀ (i : Nat) npu nic, (npusOf devices)[i]? = some npu → (nicsOf devices)[i]? = some nic →
        ∃ info, entryOf inventory npu.key = some info ∧ ⟨nic.id, nic.type⟩ ∈ info.affinityDevs

section

variable {inventory : List UbDeviceInfo} {request : BindNpuDeviceRequest}
  {affinity : AffinityArgs} {key : DeviceKey} {info npu nic : UbDeviceInfo}
  {infos candidates : List UbDeviceInfo} {devices : List UbDevice}

theorem inventoryIndex_get? : (inventoryIndex inventory).get? key = entryOf inventory key := by
  unfold inventoryIndex entryOf
  rw [Dict.get?_ofList, ← map_reverse, find?_map, Option.map_map]
  exact Option.map_id_apply

theorem entryOf_key (h : entryOf inventory key = some info) : info.key = key := by
  unfold entryOf at h
  have hfound := find?_some h
  exact of_decide_eq_true hfound

/-- Free NPUs, each once. -/
structure FreeNpus (inventory infos : List UbDeviceInfo) : Prop where
  entry : ∀ info ∈ infos, entryOf inventory info.key = some info
  type : ∀ info ∈ infos, info.type = UbDeviceType.npu.value
  free : ∀ info ∈ infos, info.isBound = false
  distinct : (infos.map (·.key)).Nodup

theorem FreeNpus.sublist (h : FreeNpus inventory candidates) (hsub : infos.Sublist candidates) :
    FreeNpus inventory infos where
  entry info hinfo := h.entry info (hsub.subset hinfo)
  type info hinfo := h.type info (hsub.subset hinfo)
  free info hinfo := h.free info (hsub.subset hinfo)
  distinct := h.distinct.sublist (hsub.map _)

theorem FreeNpus.perm (h : FreeNpus inventory candidates) (hperm : infos.Perm candidates) :
    FreeNpus inventory infos where
  entry info hinfo := h.entry info (hperm.subset hinfo)
  type info hinfo := h.type info (hperm.subset hinfo)
  free info hinfo := h.free info (hperm.subset hinfo)
  distinct := (hperm.map _).nodup_iff.mpr h.distinct

theorem inventoryIndex_key {key : DeviceKey} {info : UbDeviceInfo}
    (h : (inventoryIndex inventory).get? key = some info) : info.key = key := by
  rw [inventoryIndex_get?] at h
  exact entryOf_key h

theorem map_key_index :
    (inventoryIndex inventory).values.map (·.key) = (inventoryIndex inventory).keys :=
  Dict.map_values _ fun _ _ => inventoryIndex_key

theorem freeNpus_candidates (inventory : List UbDeviceInfo) (needNic : Bool) :
    FreeNpus inventory (getFreeNpuCandidates (inventoryIndex inventory) needNic) := by
  constructor
  · intro info hinfo
    obtain ⟨key, hget⟩ := Dict.mem_values.mp (mem_filter.mp hinfo).1
    rwa [inventoryIndex_key hget, ← inventoryIndex_get?]
  · intro info hinfo
    exact (of_decide_eq_true (mem_filter.mp hinfo).2).1
  · intro info hinfo
    have hfree := (of_decide_eq_true (mem_filter.mp hinfo).2).2.1
    rwa [Bool.not_eq_true] at hfree
  · have hkeys : ((inventoryIndex inventory).values.map (·.key)).Nodup :=
      map_key_index ▸ (inventoryIndex inventory).nodup
    exact hkeys.sublist (filter_sublist.map _)

theorem sublist_of_tiers (tiers : UbDeviceInfo → Nat) (keep : Nat × UbDeviceInfo → Bool) :
    (((candidates.map fun device => (tiers device, device)).filter keep).map Prod.snd).Sublist
      candidates := by
  have hmap : (candidates.map fun device => (tiers device, device)).map Prod.snd = candidates := by
    rw [map_map]
    exact map_id'' (fun _ => rfl) _
  conv_rhs => rw [← hmap]
  exact filter_sublist.map _

/-- The policy takes some of the candidates and orders them. -/
theorem FreeNpus.ranked (h : FreeNpus inventory candidates) (policy : NpuAffinityPolicy)
    (memoryNodes : List Int) (topology : HostTopology) :
    FreeNpus inventory (ranked (·.id) candidates policy memoryNodes topology) :=
  (h.sublist (sublist_of_tiers _ _)).perm ((mergeSort_perm _ _).map _)

theorem FreeNpus.nil : FreeNpus inventory [] := by
  constructor
  · exact fun _ h => absurd h not_mem_nil
  · exact fun _ h => absurd h not_mem_nil
  · exact fun _ h => absurd h not_mem_nil
  · exact nodup_nil

theorem FreeNpus.cons (h : FreeNpus inventory infos) (hentry : entryOf inventory info.key = some info)
    (htype : info.type = UbDeviceType.npu.value) (hfree : info.isBound = false)
    (hnew : info.key ∉ infos.map (·.key)) : FreeNpus inventory (info :: infos) := by
  constructor
  · exact forall_mem_cons.mpr ⟨hentry, h.entry⟩
  · exact forall_mem_cons.mpr ⟨htype, h.type⟩
  · exact forall_mem_cons.mpr ⟨hfree, h.free⟩
  · exact nodup_cons.mpr ⟨hnew, h.distinct⟩

variable {device : UbDevice}

theorem resolveExplicitNpu_ok {id : String}
    (h : resolveExplicitNpu (inventoryIndex inventory) id = .ok device) :
    ∃ info, entryOf inventory (UbDeviceType.npu.value, id) = some info ∧ info.isBound = false ∧
      device = info.toUbDevice := by
  unfold resolveExplicitNpu at h
  rw [inventoryIndex_get?] at h
  split at h
  · cases h
  · next info hentry =>
    split at h
    · cases h
    · next hfree =>
      cases h
      exact ⟨info, hentry, by rwa [Bool.not_eq_true] at hfree, rfl⟩

/-- The NPUs named by a request have each been found and are free. -/
theorem freeNpus_of_explicit {ids : List String} (hids : ids.Nodup)
    (h : resolveExplicitNpus ids (inventoryIndex inventory) = .ok devices) :
    ∃ infos, infos = (ids.filterMap fun id => entryOf inventory (UbDeviceType.npu.value, id)) ∧
      FreeNpus inventory infos ∧ infos.length = ids.length ∧
      devices = infos.map (·.toUbDevice) := by
  have hrounds := forall₂_of_mapM_ok h
  clear h
  induction hrounds with
  | nil => exact ⟨[], rfl, .nil, rfl, rfl⟩
  | @cons id device ids devices hround _ ih =>
    obtain ⟨hnot, hrest⟩ := nodup_cons.mp hids
    obtain ⟨infos, hinfos, hfree, hlen, hdevices⟩ := ih hrest
    obtain ⟨info, hentry, hunbound, rfl⟩ := resolveExplicitNpu_ok hround
    have hkey := entryOf_key hentry
    have hnew : info.key ∉ infos.map (·.key) := by
      intro hmem
      obtain ⟨other, hother, heq⟩ := mem_map.mp hmem
      rw [hinfos] at hother
      obtain ⟨id', hid', hentry'⟩ := mem_filterMap.mp hother
      rw [hkey, entryOf_key hentry'] at heq
      exact hnot ((Prod.mk.inj heq).2 ▸ hid')
    refine ⟨info :: infos, ?_, ?_, ?_, ?_⟩
    · rw [filterMap_cons, hentry, hinfos]
    · exact hfree.cons (hkey ▸ hentry) (congrArg Prod.fst hkey) hunbound hnew
    · rw [length_cons, length_cons, hlen]
    · rw [map_cons, hdevices]

theorem select_ok {count : Option Nat} {policy : NpuAffinityPolicy} {memoryNodes : List Int}
    {topology : HostTopology}
    (h : select (·.id) candidates count policy memoryNodes topology = .ok infos) :
    ∃ n, count = some n ∧ n ≤ (ranked (·.id) candidates policy memoryNodes topology).length ∧
      infos = (ranked (·.id) candidates policy memoryNodes topology).take n := by
  unfold select filterAndRank at h
  split at h
  · cases h
  split at h
  · cases h
  cases count with
  | none => cases h
  | some n =>
    change (if (ranked (·.id) candidates policy memoryNodes topology).length < n then _ else _) = _
      at h
    split at h
    · cases h
    · next hlen =>
      cases h
      exact ⟨n, rfl, Nat.not_lt.mp hlen, rfl⟩

theorem selectFreeNpus_ok {index : InventoryIndex} {count : Option Nat} {needNic : Bool}
    (h : selectFreeNpus count index needNic = .ok devices) :
    ∃ n, count = some n ∧ n ≤ (getFreeNpuCandidates index needNic).length ∧
      devices = ((getFreeNpuCandidates index needNic).take n).map (·.toUbDevice) := by
  unfold selectFreeNpus at h
  cases count with
  | none => cases h
  | some n =>
    dsimp only at h
    split at h
    · split at h <;> cases h
    · next hlen =>
      cases h
      exact ⟨n, rfl, Nat.not_lt.mp hlen, rfl⟩

/-- The NPUs are chosen as described, as many as the request asks for. -/
theorem selectNpus_ok (hids : (request.ids.getD []).Nodup)
    (h : selectNpus (inventoryIndex inventory) request.ids request.count
      (request.needNic.getD false) affinity = .ok devices) :
    FreeNpus inventory (chosenNpus inventory request affinity) ∧
      (chosenNpus inventory request affinity).length = request.requestedCount ∧
      devices = (chosenNpus inventory request affinity).map (·.toUbDevice) := by
  have hcandidates := freeNpus_candidates inventory (request.needNic.getD false)
  unfold selectNpus at h
  unfold chosenNpus BindNpuDeviceRequest.requestedCount
  split at h
  · next id ids heq =>
    rw [heq] at h hids
    rw [heq]
    obtain ⟨infos, rfl, hfree, hlen, hdevices⟩ := freeNpus_of_explicit hids h
    exact ⟨hfree, hlen, hdevices⟩
  · next heq =>
    rw [heq]
    dsimp only
    split at h
    · next policy memoryNodes topology _ _ _ =>
      cases hselect : select (·.id) (getFreeNpuCandidates (inventoryIndex inventory)
          (request.needNic.getD false)) request.count policy memoryNodes topology with
      | error e =>
        rw [hselect] at h
        cases h
      | ok selected =>
        rw [hselect] at h
        cases h
        obtain ⟨n, hcount, hlen, rfl⟩ := select_ok hselect
        rw [hcount]
        exact ⟨(hcandidates.ranked policy memoryNodes topology).sublist (take_sublist ..),
          length_take_of_le hlen, rfl⟩
    · obtain ⟨n, hcount, hlen, rfl⟩ := selectFreeNpus_ok h
      rw [hcount]
      exact ⟨hcandidates.sublist (take_sublist ..), length_take_of_le hlen, rfl⟩

/-! ### The network devices -/

theorem firstFreeNic_spec (h : firstFreeNic inventory npu = some nic) :
    entryOf inventory nic.key = some nic ∧ nic.isBound = false ∧
      nic.type = nicVfe.value ∧ ⟨nic.id, nic.type⟩ ∈ npu.affinityDevs := by
  unfold firstFreeNic findAffinityDevice at h
  obtain ⟨affinityDev, hmem, hfound⟩ := exists_of_findSome?_eq_some h
  split at hfound
  · cases hfound
  · next htype =>
    rw [Option.filter_eq_some_iff, inventoryIndex_get?] at hfound
    obtain ⟨hentry, hfree⟩ := hfound
    obtain ⟨htype', hid⟩ := Prod.mk.inj (entryOf_key hentry)
    refine ⟨?_, ?_, ?_, ?_⟩
    · rwa [entryOf_key hentry]
    · simpa using hfree
    · rw [htype']
      exact not_not.mp htype
    · rwa [htype', hid]

/-- One network device per NPU: the first free one of its affinity list. -/
theorem mapM_affinityNic_ok (hentry : ∀ npu ∈ infos, entryOf inventory npu.key = some npu)
    (h : (infos.map (·.toUbDevice)).mapM (affinityNic (inventoryIndex inventory)) = .ok devices) :
    ∃ nics : List UbDeviceInfo, infos.map (firstFreeNic inventory) = nics.map some ∧
      devices = nics.map (·.toUbDevice) := by
  have hrounds := forall₂_map_left_iff.mp (forall₂_of_mapM_ok h)
  clear h
  induction hrounds with
  | nil => exact ⟨[], rfl, rfl⟩
  | @cons npu device infos devices hround _ ih =>
    obtain ⟨hhead, htail⟩ := forall_mem_cons.mp hentry
    obtain ⟨nics, hnics, hdevices⟩ := ih htail
    unfold affinityNic at hround
    rw [show npu.toUbDevice.key = npu.key from rfl, inventoryIndex_get?, hhead] at hround
    dsimp only at hround
    split at hround
    · cases hround
    · next nic hnic =>
      cases hround
      refine ⟨nic :: nics, ?_, ?_⟩
      · rw [map_cons, map_cons, hnics]
        exact congrArg (· :: nics.map some) hnic
      · rw [map_cons, hdevices]

/-- A list of devices made of free NPUs, followed by the network devices of the NPUs if the
request asks for them. -/
structure Choice (inventory : List UbDeviceInfo) (request : BindNpuDeviceRequest)
    (npus nics : List UbDeviceInfo) (devices : List UbDevice) : Prop where
  free : FreeNpus inventory npus
  length : npus.length = request.requestedCount
  devices_eq : devices = (npus ++ nics).map (·.toUbDevice)
  nics_eq : request.needNic.getD false = true → npus.map (firstFreeNic inventory) = nics.map some
  noNics : request.needNic.getD false = false → nics = []

/-- A resolved request is a choice from the inventory. -/
theorem resolveRequest_ok (hids : (request.ids.getD []).Nodup)
    (h : resolveRequest inventory request affinity = .ok devices) :
    ∃ nics, Choice inventory request (chosenNpus inventory request affinity) nics devices := by
  unfold resolveRequest resolveNpuDevices at h
  dsimp only at h
  split at h
  · cases h
  cases hselect : selectNpus (inventoryIndex inventory) request.ids request.count
      (request.needNic.getD false) affinity with
  | error e =>
    rw [hselect] at h
    cases h
  | ok npus =>
    rw [hselect] at h
    obtain ⟨hfree, hlen, rfl⟩ := selectNpus_ok hids hselect
    change (if request.needNic.getD false = true then _ else _) = _ at h
    split at h
    · next hneed =>
      unfold appendAffinityNics at h
      cases hnics : ((chosenNpus inventory request affinity).map (·.toUbDevice)).mapM
          (affinityNic (inventoryIndex inventory)) with
      | error e =>
        rw [hnics] at h
        cases h
      | ok nicDevices =>
        rw [hnics] at h
        cases h
        obtain ⟨nics, hmap, rfl⟩ := mapM_affinityNic_ok hfree.entry hnics
        refine ⟨nics, hfree, hlen, (map_append ..).symm, fun _ => hmap, ?_⟩
        intro hnot
        rw [hneed] at hnot
        cases hnot
    · next hnot =>
      cases h
      exact ⟨[], hfree, hlen, by rw [append_nil], fun hneed => absurd hneed hnot, fun _ => rfl⟩

theorem validateRequest_ok (h : validateRequest request = .ok ()) :
    (request.ids.getD []).Nodup := by
  unfold validateRequest at h
  split at h
  · cases h
  split at h
  · cases h
  split at h
  · cases h
  split at h
  · cases h
  · next hids => exact not_not.mp hids

/-- A list of NPUs and network devices falls apart into the two. -/
theorem filter_type_append {npus nics : List UbDeviceInfo}
    (hnpus : ∀ npu ∈ npus, npu.type = UbDeviceType.npu.value)
    (hnics : ∀ nic ∈ nics, nic.type = nicVfe.value) :
    npusOf ((npus ++ nics).map (·.toUbDevice)) = npus.map (·.toUbDevice) ∧
      nicsOf ((npus ++ nics).map (·.toUbDevice)) = nics.map (·.toUbDevice) := by
  have hall : ∀ {infos : List UbDeviceInfo} {type other : UbDeviceType},
      (∀ info ∈ infos, info.type = type.value) →
      (infos.map (·.toUbDevice)).filter (·.type = other.value) =
        if type.value = other.value then infos.map (·.toUbDevice) else [] := by
    intro infos type other htype
    split
    · next heq =>
      rw [filter_eq_self]
      intro device hdevice
      obtain ⟨info, hinfo, rfl⟩ := mem_map.mp hdevice
      exact decide_eq_true ((htype info hinfo).trans heq)
    · next hne =>
      rw [filter_eq_nil_iff]
      intro device hdevice hother
      obtain ⟨info, hinfo, rfl⟩ := mem_map.mp hdevice
      exact hne ((htype info hinfo).symm.trans (of_decide_eq_true hother))
  unfold npusOf nicsOf
  rw [map_append, filter_append, filter_append, hall hnpus, hall hnics, hall hnpus, hall hnics]
  exact ⟨append_nil _, rfl⟩

namespace Choice

variable {npus nics : List UbDeviceInfo}

section

variable (h : Choice inventory request npus nics devices)
include h

theorem nic_spec (hnic : nic ∈ nics) : ∃ npu, firstFreeNic inventory npu = some nic := by
  cases hneed : request.needNic.getD false with
  | false =>
    rw [h.noNics hneed] at hnic
    cases hnic
  | true =>
    have hmem : some nic ∈ npus.map (firstFreeNic inventory) := by
      rw [h.nics_eq hneed]
      exact mem_map_of_mem hnic
    obtain ⟨npu, -, hnpu⟩ := mem_map.mp hmem
    exact ⟨npu, hnpu⟩

theorem nic_entry (hnic : nic ∈ nics) : entryOf inventory nic.key = some nic := by
  obtain ⟨npu, hnpu⟩ := h.nic_spec hnic
  exact (firstFreeNic_spec hnpu).1

theorem nic_type (hnic : nic ∈ nics) : nic.type = nicVfe.value := by
  obtain ⟨npu, hnpu⟩ := h.nic_spec hnic
  exact (firstFreeNic_spec hnpu).2.2.1

theorem filter_type :
    npusOf devices = npus.map (·.toUbDevice) ∧ nicsOf devices = nics.map (·.toUbDevice) := by
  rw [h.devices_eq]
  exact filter_type_append h.free.type fun _ => h.nic_type

/-- Every device is a free entry of the inventory, which its key leads to. -/
theorem entry (hdevice : device ∈ devices) :
    ∃ info : UbDeviceInfo, info.toUbDevice = device ∧ entryOf inventory info.key = some info ∧
      info.isBound = false := by
  rw [h.devices_eq] at hdevice
  obtain ⟨info, hinfo, hdevice⟩ := mem_map.mp hdevice
  refine ⟨info, hdevice, ?_⟩
  rcases mem_append.mp hinfo with hnpu | hnic
  · exact ⟨h.free.entry info hnpu, h.free.free info hnpu⟩
  · obtain ⟨npu, hnpu⟩ := h.nic_spec hnic
    exact ⟨h.nic_entry hnic, (firstFreeNic_spec hnpu).2.1⟩

theorem unbound : ∀ device ∈ devices, ∃ info, entryOf inventory device.key = some info ∧
      info.isBound = false := by
  intro device hdevice
  obtain ⟨info, rfl, hentry, hfree⟩ := h.entry hdevice
  exact ⟨info, hentry, hfree⟩

/-- Entries of the inventory with one key are one entry, so different network devices have
different keys. -/
theorem nodup_nics : (nics.map (·.key)).Nodup ↔
      (request.needNic.getD false = true → (npus.map (firstFreeNic inventory)).Nodup) := by
  constructor
  · intro hkeys hneed
    rw [h.nics_eq hneed]
    exact (List.Nodup.of_map _ hkeys).map fun _ _ => Option.some.inj
  · intro happart
    cases hneed : request.needNic.getD false with
    | false =>
      rw [h.noNics hneed]
      exact nodup_nil
    | true =>
      have hnodup := happart hneed
      rw [h.nics_eq hneed] at hnodup
      apply (List.Nodup.of_map _ hnodup).map_on
      intro nic hnic nic' hnic' heq
      have hentry := h.nic_entry hnic
      rw [heq, h.nic_entry hnic'] at hentry
      exact (Option.some.inj hentry).symm

theorem distinct_iff : (devices.map (·.key)).Nodup ↔
      (request.needNic.getD false = true → (npus.map (firstFreeNic inventory)).Nodup) := by
  have hkeys : devices.map (·.key) = npus.map (·.key) ++ nics.map (·.key) := by
    rw [h.devices_eq, map_map, map_append]
    rfl
  rw [hkeys, nodup_append, ← h.nodup_nics]
  constructor
  · exact fun hdistinct => hdistinct.2.1
  · intro hnics
    refine ⟨h.free.distinct, hnics, ?_⟩
    -- an NPU is no network device
    intro key hkey key' hkey' heq
    obtain ⟨npu, hnpu, rfl⟩ := mem_map.mp hkey
    obtain ⟨nic, hnic, rfl⟩ := mem_map.mp hkey'
    have hsame : npu.type = nic.type := congrArg Prod.fst heq
    rw [h.free.type npu hnpu, h.nic_type hnic] at hsame
    exact absurd hsame (by decide)

theorem paired (hneed : request.needNic.getD false = true) :
    (nicsOf devices).length = request.requestedCount ∧
      ∀ (i : Nat) npu nic, (npusOf devices)[i]? = some npu → (nicsOf devices)[i]? = some nic →
        ∃ info, entryOf inventory npu.key = some info ∧ ⟨nic.id, nic.type⟩ ∈ info.affinityDevs := by
  have hmap := h.nics_eq hneed
  rw [h.filter_type.1, h.filter_type.2]
  constructor
  · have hlen := congrArg List.length hmap
    rw [length_map, length_map] at hlen
    rw [length_map, ← hlen, h.length]
  · intro i npu nic hnpu hnic
    rw [getElem?_map, Option.map_eq_some_iff] at hnpu hnic
    obtain ⟨npuInfo, hnpuInfo, rfl⟩ := hnpu
    obtain ⟨nicInfo, hnicInfo, rfl⟩ := hnic
    have hi : (npus.map (firstFreeNic inventory))[i]? = (nics.map some)[i]? := by rw [hmap]
    rw [getElem?_map, getElem?_map, hnpuInfo, hnicInfo] at hi
    exact ⟨npuInfo, h.free.entry npuInfo (mem_of_getElem? hnpuInfo),
      (firstFreeNic_spec (Option.some.inj hi)).2.2.2⟩

end

end Choice

/-- The devices chosen are free entries of the inventory. -/
theorem resolveRequest_unbound (hvalid : validateRequest request = .ok ())
    (h : resolveRequest inventory request affinity = .ok devices) (hdevice : device ∈ devices) :
    ∃ info ∈ inventory, info.toUbDevice = device ∧ info.isBound = false := by
  obtain ⟨nics, hchoice⟩ := resolveRequest_ok (validateRequest_ok hvalid) h
  obtain ⟨info, hinfo, hentry, hfree⟩ := hchoice.entry hdevice
  refine ⟨info, ?_, hinfo, hfree⟩
  exact mem_reverse.mp (mem_of_find?_eq_some hentry)

end

end UbsVirt.Udm
