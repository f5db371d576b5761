import UbsVirt.Vas.Topology
import UbsVirt.Lib.Run

/-!
# The cluster scheduler

The state of `ClusterSched` and what each of its functions does to it. A VM on a NUMA node is
a domain; the CPUs it holds in one layer of one cluster are a group; a vCPU thread bound to a
CPU of a group is an entity. A layer lets the CPUs of a cluster be handed out once more.
Source: `virt-awaresched/src/vasd/cluster_sched/cluster_sched.cpp`, `util/cluster_vm.h`.

The steps of `SchedStep` are the pieces of the scheduler's operations between which nothing
else can happen but a write to a cgroup file; the operations are put together from them in
`UbsVirt.Vas.Operations`. Whether a write succeeds is part of the step.
-/

namespace UbsVirt.Vas

open Areas Function

/-- `maxOverProvision`, `cluster_sched.cpp:32`. -/
def maxOverProvision : Nat := 6

/-- `a -= b` and `a += b` on a `uint16_t`. -/
def subU16 (a b : Nat) : Nat := (a + 65536 - b % 65536) % 65536

@[inherit_doc subU16]
def addU16 (a b : Nat) : Nat := (a + b) % 65536

/-! ### Ordered sets -/

section

variable {α : Type*} [DecidableEq α] (r : α → α → Prop) [DecidableRel r]

/-- `std::set::emplace` on the elements in order. -/
def setInsert (a : α) (l : List α) : List α :=
  if a ∈ l then l else l.orderedInsert r a

variable {r}

@[simp]
theorem mem_setInsert {a b : α} {l : List α} : b ∈ setInsert r a l ↔ b = a ∨ b ∈ l := by
  unfold setInsert
  split
  · next h =>
    constructor
    · exact .inr
    · rintro (rfl | hb)
      · exact h
      · exact hb
  · exact List.mem_orderedInsert r

theorem nodup_setInsert {a : α} {l : List α} (h : l.Nodup) : (setInsert r a l).Nodup := by
  unfold setInsert
  split
  · exact h
  · next hmem =>
    rw [(List.perm_orderedInsert r a l).nodup_iff, List.nodup_cons]
    exact ⟨hmem, h⟩

end

/-! ### The data -/

/-- The string `uuid_numaId`. The number after the last `_` and the uuid before it can be
read back, so the parts stand for the string. -/
structure DomainKey where
  uuid : String
  numaId : Nat
  deriving DecidableEq

/-- The string `uuid_numaId_clusterId_layerId`. -/
structure GroupId where
  domainKey : DomainKey
  clusterId : Nat
  layerId : Nat
  deriving DecidableEq

/-- The string of a group id, by which `std::set<std::string>` orders. -/
def GroupId.str (g : GroupId) : String :=
  g.domainKey.uuid ++ "_" ++ toString g.domainKey.numaId ++ "_" ++ toString g.clusterId ++ "_" ++
    toString g.layerId

def GroupId.Le (a b : GroupId) : Prop := ¬ b.str < a.str

instance : DecidableRel GroupId.Le := fun a b => inferInstanceAs (Decidable (¬ b.str < a.str))

/-- `cluster_vm.h:29-45`. -/
structure ClusterLayer where
  idle : Nat
  total : Nat
  usedBitmap : List Bool
  groups : List GroupId

/-- `cluster_vm.h:121-150`; the domain key, cluster and layer are parts of the id. -/
structure VmGroup where
  id : GroupId
  start : Nat
  nrCpus : Nat
  usedBitmap : List Bool
  entityPids : List Nat

/-- `cluster_vm.h:83-118`, without the process id and the vCPU numbers, which only name the
cgroup files. `pids` are the keys of `pidVcpuMap`. -/
structure VmDomain where
  uuid : String
  name : String
  numaId : Nat
  pids : List Nat
  commonCpuMap : List Bool
  groups : List GroupId
  isReScheded : Bool

def VmDomain.key (d : VmDomain) : DomainKey := ⟨d.uuid, d.numaId⟩

/-- `cluster_vm.h:239-243`. -/
structure VcpuInfo where
  vcpu : Nat
  pid : Nat
  numaSet : List Nat
  cpuMaps : List Bool

/-- What libvirt reports of a VM; the vCPUs in the order the hash map lists them.
`cluster_vm.h:254-263`. -/
structure VmInfo where
  uuid : String
  name : String
  vcpuMap : List VcpuInfo

/-- The maps of `ClusterSched`; the clusters themselves do not change. `entityMap` gives the
`cpuIdx` of a thread. -/
structure Sched where
  layers : Nat → List ClusterLayer
  groupMap : GroupId → Option VmGroup
  domainMap : DomainKey → Option VmDomain
  entityMap : Nat → Option Int
  overProvision : Nat → Nat
  /-- The policy is `dynamicAffinity`. -/
  dynamicAffinity : Bool

/-! ### Layers -/

/-- A layer nobody has CPUs in. `cluster_sched.cpp:127-132`. -/
def freshLayer (c : ClusterInfo) : ClusterLayer where
  idle := c.bitMap.count false
  total := c.total
  usedBitmap := c.bitMap
  groups := []

namespace ClusterLayer

/-- `cluster_sched.cpp:943-948`. -/
def addGroup (l : ClusterLayer) (g : VmGroup) : ClusterLayer :=
  { l with
    idle := subU16 l.idle g.nrCpus
    groups := setInsert GroupId.Le g.id l.groups
    usedBitmap := dynamicBitsetSet l.usedBitmap g.start g.nrCpus }

/-- `cluster_sched.cpp:955-960`. -/
def delGroup (l : ClusterLayer) (g : VmGroup) : ClusterLayer :=
  { l with
    usedBitmap := dynamicBitsetClear l.usedBitmap g.start g.nrCpus
    idle := addU16 l.idle g.nrCpus
    groups := l.groups.erase g.id }

end ClusterLayer

/-- The CPUs of a cluster a domain may not take: those outside its affinity and those in use
in the layer. `cluster_sched.cpp:840-842,908`. -/
def availableCpuMap (d : VmDomain) (c : ClusterInfo) (l : ClusterLayer) : List Bool :=
  dynamicBitsetOr (dynamicBitsetNot (dynamicBitsetCut d.commonCpuMap c.startCpu c.cpuSet.length))
    l.usedBitmap

/-- The CPUs a request of `nr` takes from a layer: the whole cluster, or as many as asked
for. `cluster_sched.cpp:905-915`. -/
def allocNum (l : ClusterLayer) (nr : Nat) : Option Nat :=
  if l.total ≤ nr ∧ l.total = l.idle then some l.total
  else if nr ≤ l.idle then some nr
  else none

/-- Where they are taken, and how many. `cluster_sched.cpp:905-919`. -/
def allocArea (d : VmDomain) (c : ClusterInfo) (l : ClusterLayer) (nr : Nat) :
    Option (Nat × Nat) :=
  (allocNum l nr).bind fun n =>
    (findFirstIdlePos (availableCpuMap d c l) 0 n).map fun start => (start, n)

namespace Sched

variable (m : Machine) (s : Sched)

/-- `InitClusterInfo`, `cluster_sched.cpp:117-147`. -/
def init (dynamicAffinity : Bool) : Sched where
  layers id := (m.topology.filter (·.id = id)).map freshLayer
  groupMap _ := none
  domainMap _ := none
  entityMap _ := none
  overProvision n := if n ∈ m.numas then 1 else 0
  dynamicAffinity := dynamicAffinity

def layer (clusterId layerId : Nat) : Option ClusterLayer :=
  (s.layers clusterId)[layerId]?

def setLayer (clusterId layerId : Nat) (l : ClusterLayer) : Sched :=
  { s with layers := update s.layers clusterId ((s.layers clusterId).set layerId l) }

def setGroup (id : GroupId) (g : Option VmGroup) : Sched :=
  { s with groupMap := update s.groupMap id g }

def setDomain (key : DomainKey) (d : Option VmDomain) : Sched :=
  { s with domainMap := update s.domainMap key d }

/-- `DelGroupFromClusterLayer` on the layer of the group, when there is one. -/
def delGroupFromClusterLayer (g : VmGroup) : Sched :=
  match s.layer g.id.clusterId g.id.layerId with
  | some l => s.setLayer g.id.clusterId g.id.layerId (l.delGroup g)
  | none => s

/-- `AddGroupToClusterLayer` on the layer of the group, when there is one. -/
def addGroupToClusterLayer (g : VmGroup) : Sched :=
  match s.layer g.id.clusterId g.id.layerId with
  | some l => s.setLayer g.id.clusterId g.id.layerId (l.addGroup g)
  | none => s

/-- Binds a group to its layer and to its domain. `cluster_sched.cpp:930-934,1352-1357`. -/
def bindGroup (d : VmDomain) (g : VmGroup) : Sched :=
  ((s.setGroup g.id (some g)).addGroupToClusterLayer g).setDomain g.id.domainKey
    (some { d with groups := setInsert GroupId.Le g.id d.groups })

/-! ### Allocation -/

/-- A group without threads. `cluster_sched.cpp:920-929`. -/
def newGroup (id : GroupId) (start nrCpus : Nat) : VmGroup where
  id := id
  start := start
  nrCpus := nrCpus
  usedBitmap := List.replicate m.clusterCpuNum false
  entityPids := []

/-- One cluster and layer of the search of `AllocClusterGroupToDomain` for a domain.
`cluster_sched.cpp:835-849,902-936`. -/
def allocGroupFromCluster (key : DomainKey) (clusterId layerId nr : Nat) : Sched :=
  match s.domainMap key, m.cluster key.numaId clusterId, s.layer clusterId layerId with
  | some d, some c, some l =>
    if layerId < s.overProvision key.numaId then
      match allocArea d c l nr with
      | some (start, nrCpus) => s.bindGroup d (newGroup m ⟨key, clusterId, layerId⟩ start nrCpus)
      | none => s
    else s
  | _, _, _ => s

/-- One group of `Free`. `cluster_sched.cpp:588-600`. -/
def freeGroup (numaId : Nat) (groupId : GroupId) : Sched :=
  match s.groupMap groupId with
  | none => s
  | some g =>
    match m.cluster numaId g.id.clusterId with
    | none => s.setGroup groupId none
    | some _ => (s.delGroupFromClusterLayer g).setGroup groupId none

/-- `Free`, `cluster_sched.cpp:585-603`. When an allocation fails for the copy of a domain
that `ReSched` works on, the domain in the map goes on listing the groups it had before
(`keep`). -/
def free (key : DomainKey) (keep : List GroupId) : Sched :=
  match s.domainMap key with
  | none => s
  | some d =>
    (d.groups.foldl (fun s groupId => s.freeGroup m key.numaId groupId) s).setDomain key
      (some { d with groups := d.groups.filter (· ∈ keep) })

/-- The layers are raised on all NUMA nodes, the level of one. `cluster_sched.cpp:1252-1275`,
called under the conditions of `:835,853-856`. -/
def overProvisionUp (numaId : Nat) : Sched :=
  if 0 < s.overProvision numaId ∧ s.overProvision numaId < maxOverProvision ∧
      s.dynamicAffinity = true ∧ m.topology.all (fun c => !(s.layers c.id).isEmpty) then
    { s with
      layers := fun id => s.layers id ++ (m.topology.filter (·.id = id)).map freshLayer
      overProvision := update s.overProvision numaId (s.overProvision numaId + 1) }
  else s

/-- Every cluster of the node has an unused layer at its level.
`cluster_sched.cpp:1387-1390,1430-1434`. -/
def lastLayerEmpty (numaId : Nat) : Bool :=
  (m.clustersOf numaId).all fun c =>
    match s.layer c.id (s.overProvision numaId - 1) with
    | some l => l.total = l.idle
    | none => false

/-- Called for a layer below the last one of the node, when the last one is unused. The last
layer of all NUMA nodes is dropped. `cluster_sched.cpp:1277-1297,1434-1436`. -/
def overProvisionDown (numaId layerId : Nat) : Sched :=
  if layerId + 1 < s.overProvision numaId ∧ s.lastLayerEmpty m numaId ∧
      m.topology.all (fun c => !(s.layers c.id).isEmpty) then
    { s with
      layers := fun id => (s.layers id).dropLast
      overProvision := update s.overProvision numaId (s.overProvision numaId - 1) }
  else s

/-! ### Binding vCPU threads -/

/-- The first group of the domain with a free CPU, that CPU's position and its cluster. A
group missing from the map is created empty by the code, and passed over.
`cluster_sched.cpp:732-742`. -/
def findPin (d : VmDomain) : List GroupId → Option (VmGroup × ClusterInfo × Nat)
  | [] => none
  | groupId :: rest =>
    match s.groupMap groupId with
    | none => findPin d rest
    | some g =>
      match findFirstIdlePos g.usedBitmap g.start m.granularity,
          m.cluster d.numaId g.id.clusterId with
      | some index, some c =>
        if index < g.start + g.nrCpus then some (g, c, index) else findPin d rest
      | _, _ => findPin d rest

/-- One thread of a domain in `Assign`. `ok`: the affinity could be written.
`cluster_sched.cpp:613-618,730-752,871-891`. -/
def assignPidCpu (key : DomainKey) (pid : Nat) (ok : Bool) : Sched :=
  match s.domainMap key with
  | none => s
  | some d =>
    if pid ∉ d.pids ∨ (s.entityMap pid).isSome then s
    else
      match s.findPin m d d.groups with
      | some (g, _, index) =>
        if ok then
          { s.setGroup g.id (some { g with
              usedBitmap := dynamicBitsetSet g.usedBitmap index m.granularity
              entityPids := setInsert (· ≤ ·) pid g.entityPids }) with
            entityMap := update s.entityMap pid (some (index : Int)) }
        else s
      | none => s

/-- Takes threads of a group off their CPUs: only the first CPU of a thread is cleared.
`cluster_sched.cpp:765-773,1140-1160`. -/
def unbind (g : VmGroup) (pids : List Nat) : Sched :=
  { s.setGroup g.id (some { g with
      usedBitmap := pids.foldl (fun bitmap pid => (s.entityMap pid).elim bitmap fun cpuIdx =>
        -- a negative index is one past every bitmap, as a `uint16_t`
        if cpuIdx < 0 then bitmap else dynamicBitsetClear bitmap cpuIdx.toNat 1) g.usedBitmap
      entityPids := g.entityPids.filter (· ∉ pids) }) with
    entityMap := fun pid => if pid ∈ pids then none else s.entityMap pid }

/-- One group of `UnAssignPidCpu`; all its threads leave the group.
`cluster_sched.cpp:761-773`. -/
def unassignGroup (groupId : GroupId) : Sched :=
  match s.groupMap groupId with
  | none => s
  | some g => s.unbind g g.entityPids

/-- `UnAssignPidCpu`, `cluster_sched.cpp:758-775`. -/
def unassign (key : DomainKey) : Sched :=
  match s.domainMap key with
  | none => s
  | some d => d.groups.foldl unassignGroup s

/-- `DeReSched` of one domain, `cluster_sched.cpp:701-710`. -/
def deReSched (key : DomainKey) : Sched :=
  ((s.unassign key).free m key []).setDomain key none

/-! ### Compaction -/

/-- One group of `CleanDyingPidByGroup`. `cluster_sched.cpp:1122-1169`. -/
def cleanGroup (key : DomainKey) (groupId : GroupId) : Sched :=
  match s.domainMap key, s.groupMap groupId with
  | some d, some g =>
    match m.cluster key.numaId g.id.clusterId with
    | none => s
    | some _ =>
      let dying := g.entityPids.filter fun pid => pid ∉ d.pids ∧ (s.entityMap pid).isSome
      let s' := s.unbind g dying
      if (g.entityPids.filter (· ∉ dying)).isEmpty then
        (s'.delGroupFromClusterLayer g).setDomain key
          (some { d with groups := d.groups.erase groupId })
      else s'
  | _, _ => s

/-- One domain of `CleanDyingPid`. `gone`: no process has the uuid any more.
`cluster_sched.cpp:1101-1116`. -/
def cleanDyingPid (key : DomainKey) (gone : Bool) : Sched :=
  match s.domainMap key with
  | none => s
  | some d =>
    let s' := d.groups.foldl (fun s groupId => s.cleanGroup m key groupId) s
    match s'.domainMap key with
    | some d' => if gone ∧ d'.groups.isEmpty then s'.setDomain key none else s'
    | none => s'

/-- The loop of `GroupEntityMigrate` over the threads of a group, with the indices to
restore. `ok`: the affinity of the thread could be written. `cluster_sched.cpp:1225-1243`. -/
def migrateEntities (start newStart : Nat) (ok : Nat → Bool) :
    List Nat → (cpuIdxBackup : List (Nat × Int)) → (entityMap : Nat → Option Int) →
    (Nat → Option Int) × Bool
  | [], _, entityMap => (entityMap, true)
  | pid :: pids, backup, entityMap =>
    match entityMap pid with
    | none => (entityMap, false)
    | some old =>
      if ok pid then
        migrateEntities start newStart ok pids (backup ++ [(pid, old)])
          (update entityMap pid (some (newStart + (old - start))))
      else
        (backup.foldl (fun entityMap b => update entityMap b.1 (some b.2)) entityMap, false)

/-- A group, the layer of a cluster it is taken from and the one it is to go to. `fromLast`:
it comes from the last layer, and must not move up inside its cluster. -/
structure Migration where
  numaId : Nat
  clusterId : Nat
  layerId : Nat
  fromCluster : Nat
  fromLayer : Nat
  groupId : GroupId
  fromLast : Bool

/-- The group as it is after it has moved. `cluster_sched.cpp:1244-1248`. -/
def movedGroup (g : VmGroup) (clusterId layerId newStart : Nat) : VmGroup :=
  { g with
    id := ⟨g.id.domainKey, clusterId, layerId⟩
    start := newStart
    usedBitmap := genDynamicBitSetByArea m.clusterCpuNum newStart g.nrCpus }

/-- What a migration is about to do: the domain, the group, the cluster it goes to, its layer
and the position there. `cluster_sched.cpp:1321-1341,1392-1412`. -/
def migrationTarget (mig : Migration) :
    Option (VmDomain × VmGroup × ClusterInfo × ClusterLayer × Nat) :=
  match m.cluster mig.numaId mig.clusterId, s.layer mig.clusterId mig.layerId,
      m.cluster mig.numaId mig.fromCluster, s.layer mig.fromCluster mig.fromLayer with
  | some c, some l, some _, some src =>
    if mig.groupId ∈ src.groups ∧ mig.layerId < s.overProvision mig.numaId ∧
        (mig.clusterId, mig.layerId) ≠ (mig.fromCluster, mig.fromLayer) then
      match s.groupMap mig.groupId with
      | none => none
      | some g =>
        match s.domainMap g.id.domainKey with
        | none => none
        | some d =>
          match findFirstIdlePos (availableCpuMap d c l) 0 g.nrCpus with
          | none => none
          | some start => if mig.fromLast ∧ g.start < start then none else some (d, g, c, l, start)
    else none
  | _, _, _, _ => none

def leaveLayer (mig : Migration) (g : VmGroup) : Sched :=
  match s.layer mig.fromCluster mig.fromLayer with
  | some src => s.setLayer mig.fromCluster mig.fromLayer (src.delGroup g)
  | none => s

def returnToLayer (mig : Migration) (g : VmGroup) : Sched :=
  match s.layer mig.fromCluster mig.fromLayer with
  | some src => s.setLayer mig.fromCluster mig.fromLayer (src.addGroup g)
  | none => s

/-- One group of `CompactionGroupWithinCluster` or `CompactionGroupFromLastLayer`.
`cluster_sched.cpp:1320-1360,1391-1429`. -/
def migrate (mig : Migration) (ok : Nat → Bool) : Sched :=
  match s.migrationTarget m mig with
  | none => s
  | some (d, g, _, _, newStart) =>
    let left := s.leaveLayer mig g
    let moved := migrateEntities g.start newStart ok g.entityPids [] s.entityMap
    if moved.2 then
      ({ left.setGroup mig.groupId none with entityMap := moved.1 }).bindGroup
        { d with groups := d.groups.erase mig.groupId }
        (movedGroup m g mig.clusterId mig.layerId newStart)
    else { left.returnToLayer mig g with entityMap := moved.1 }

/-! ### Choosing a NUMA node -/

abbrev NumaUsedCpuMap := Nat → Nat → Nat

/-- `GetNumaUsedCpuMap`, `cluster_sched.cpp:361-387`. -/
def getNumaUsedCpuMap : NumaUsedCpuMap := fun layerId numaId =>
  if layerId < s.overProvision numaId then
    ((m.clustersOf numaId).map fun c =>
      match s.layer c.id layerId with
      | some l => subU16 l.total l.idle
      | none => 0).sum % 65536
  else 0

/-- `GetNumaCpuCount`, `cluster_sched.cpp:343-359`. -/
def getNumaCpuCount (numaId : Nat) : Nat :=
  ((m.clustersOf numaId).map fun c => ((s.layer c.id 0).elim 0 (·.total))).sum % 65536

/-- `GetNumaTotalCpus`, `cluster_sched.cpp:802-815`. -/
def getNumaTotalCpus (numaId : Nat) : Nat :=
  ((m.clustersOf numaId).map fun c =>
    (s.layer c.id 0).elim 0 (·.total) * (s.layers c.id).length).sum % 65536

/-- The nodes all vCPUs of a VM may run on; when the sets run out, the next one counts
alone. `cluster_sched.cpp:406-420`. -/
def availableNumas (vm : VmInfo) : List Nat :=
  vm.vcpuMap.foldl
    (fun available vcpu =>
      if available.isEmpty then vcpu.numaSet else available.filter (· ∈ vcpu.numaSet))
    m.numas

/-- The node and layer selected so far, with the CPUs in use there. `cluster_sched.cpp:435-440`. -/
def selectLayer (vm : VmInfo) (used : NumaUsedCpuMap) (selected : Option (Nat × Nat × Nat))
    (candidate : Nat × Nat) : Option (Nat × Nat × Nat) :=
  let (numaId, layerId) := candidate
  let fuller : Bool := match selected with
    | none => layerId ≤ maxOverProvision
    | some (_, selectLayerId, selectUsed) =>
      selectUsed < used layerId numaId ∧ layerId ≤ selectLayerId
  if fuller ∧ used layerId numaId + vm.vcpuMap.length ≤ s.getNumaCpuCount m numaId then
    some (numaId, layerId, used layerId numaId)
  else selected

/-- `SelectMinLayer`, `cluster_sched.cpp:389-402`. -/
def selectMinLayer (numas : List Nat) : Option Nat :=
  (numas.foldl
    (fun (best : Option Nat × Nat) numaId =>
      if s.overProvision numaId < best.2 then (some numaId, s.overProvision numaId) else best)
    (none, maxOverProvision)).1

/-- `SelectVmNuma`: the node for a VM, and the usage with the VM added to it when there is
room. The usage is compared as a 16-bit integer with a sign, which makes no difference while a
node has fewer than 32768 CPUs. `cluster_sched.cpp:404-452`. -/
def selectVmNuma (used : NumaUsedCpuMap) (vm : VmInfo) : Option (Nat × NumaUsedCpuMap) :=
  let available := availableNumas m vm
  if available.isEmpty then none
  else
    let candidates := available.flatMap fun numaId =>
      (List.range (s.overProvision numaId)).map fun layerId => (numaId, layerId)
    match candidates.foldl (s.selectLayer m vm used) none with
    | some (numaId, layerId, _) =>
      some (numaId, fun l n => if l = layerId ∧ n = numaId then
        addU16 (used l n) vm.vcpuMap.length else used l n)
    | none => (s.selectMinLayer available).map fun numaId => (numaId, used)

/-- `GetCommonCpuMap`, `cluster_vm.h:107-115`. -/
def getCommonCpuMap (vcpus : List VcpuInfo) : List Bool :=
  let sorted := vcpus.insertionSort (fun a b => a.vcpu ≤ b.vcpu)
  sorted.foldl (fun common v => dynamicBitsetAnd common v.cpuMaps)
    (genDynamicBitSetByArea (sorted.headD ⟨0, 0, [], []⟩).cpuMaps.length 0
      (sorted.headD ⟨0, 0, [], []⟩).cpuMaps.length)

/-- The domain of a VM on a node. `cluster_sched.cpp:320-337`. -/
def newDomain (vm : VmInfo) (numaId : Nat) : VmDomain where
  uuid := vm.uuid
  name := vm.name
  numaId := numaId
  pids := vm.vcpuMap.foldl (fun pids v => setInsert (· ≤ ·) v.pid pids) []
  commonCpuMap := getCommonCpuMap vm.vcpuMap
  groups := []
  isReScheded := false

/-- `UpdateDomainInfoWithoutLock`, `cluster_sched.cpp:309-341`. -/
def updateDomainInfo (used : NumaUsedCpuMap) (vm : VmInfo) : Sched :=
  match s.selectVmNuma m used vm with
  | none => s
  | some (numaId, _) =>
    if (s.domainMap ⟨vm.uuid, numaId⟩).isSome then s
    else s.setDomain ⟨vm.uuid, numaId⟩ (some (newDomain vm numaId))

def setReScheded (key : DomainKey) (isReScheded : Bool) : Sched :=
  match s.domainMap key with
  | none => s
  | some d => s.setDomain key (some { d with isReScheded := isReScheded })

/-- `RestoreVmInfoWithoutLock` after a change of policy, `cluster_sched.cpp:494-518`. -/
def restoreVmInfo (dynamicAffinity : Bool) : Sched where
  layers id := (m.topology.filter (·.id = id)).map freshLayer
  groupMap _ := none
  domainMap key := (s.domainMap key).map fun d => { d with groups := [], isReScheded := false }
  entityMap _ := none
  overProvision n := if n ∈ m.numas then 1 else s.overProvision n
  dynamicAffinity := dynamicAffinity

end Sched

/-! ### Steps -/

/-- How `SetVcpuAffinity` ends. It looks for the cgroup of the VM in the file system, which
throws when a directory cannot be read. `cluster_sched.cpp:648-675,1028-1042`. -/
inductive Write where
  | ok
  | fails
  | throws
  deriving DecidableEq

/-- What the operations of the scheduler are made of. `copied`: `Assign` works on a copy of the
domain, and the domain in the map has these groups. -/
inductive SchedStep where
  | allocGroup (key : DomainKey) (clusterId layerId nr : Nat)
  | free (key : DomainKey) (keep : List GroupId)
  | layerUp (numaId : Nat)
  | layerDown (numaId layerId : Nat)
  | assign (key : DomainKey) (pid : Nat) (write : Write) (copied : Option (List GroupId))
  | unassign (key : DomainKey)
  | deReSched (key : DomainKey)
  | clean (key : DomainKey) (gone : Bool)
  | migrate (mig : Sched.Migration) (write : Nat → Write)
  | update (used : Sched.NumaUsedCpuMap) (vm : VmInfo)
  | setReScheded (key : DomainKey) (isReScheded : Bool)
  | restore (dynamicAffinity : Bool)

namespace Sched

variable (m : Machine) (s : Sched)

/-- `Assign` comes to write the affinity of the thread. `cluster_sched.cpp:613-618,732-744`. -/
def writesAffinity (key : DomainKey) (pid : Nat) : Bool :=
  match s.domainMap key with
  | none => false
  | some d => pid ∈ d.pids ∧ (s.entityMap pid).isNone ∧ (s.findPin m d d.groups).isSome

/-- The indices that `GroupEntityMigrate` leaves when a write throws: those of the threads up to
this one are set, and none is restored. `cluster_sched.cpp:1226-1234`. -/
def thrownEntities (start newStart : Nat) (write : Nat → Write) :
    List Nat → (entityMap : Nat → Option Int) → Option (Nat → Option Int)
  | [], _ => none
  | pid :: pids, entityMap =>
    match entityMap pid with
    | none => none
    | some old =>
      let moved := update entityMap pid (some (newStart + (old - start)))
      match write pid with
      | .ok => thrownEntities start newStart write pids moved
      | .fails => none
      | .throws => some moved

/-- The state in which a step ends by an exception, if it does. A copy of the domain is lost with
the groups it has been given, and a group that was to move has left its layer. -/
def thrown : SchedStep → Option Sched
  | .assign key pid .throws copied =>
    if s.writesAffinity m key pid then
      some (s.setDomain key ((s.domainMap key).map fun d =>
        { d with groups := copied.getD d.groups }))
    else none
  | .migrate mig write =>
    (s.migrationTarget m mig).bind fun (_, g, _, _, newStart) =>
      (thrownEntities g.start newStart write g.entityPids s.entityMap).map fun entityMap =>
        { s.leaveLayer mig g with entityMap := entityMap }
  | _ => none

def Completes (i : SchedStep) : Prop := s.thrown m i = none

instance (i : SchedStep) : Decidable (s.Completes m i) :=
  inferInstanceAs (Decidable (s.thrown m i = none))

def complete : SchedStep → Sched
  | .allocGroup key clusterId layerId nr => s.allocGroupFromCluster m key clusterId layerId nr
  | .free key keep => s.free m key keep
  | .layerUp numaId => s.overProvisionUp m numaId
  | .layerDown numaId layerId => s.overProvisionDown m numaId layerId
  | .assign key pid write _ => s.assignPidCpu m key pid (write = .ok)
  | .unassign key => s.unassign key
  | .deReSched key => s.deReSched m key
  | .clean key gone => s.cleanDyingPid m key gone
  | .migrate mig write => s.migrate m mig fun pid => write pid = .ok
  | .update used vm => s.updateDomainInfo m used vm
  | .setReScheded key isReScheded => s.setReScheded key isReScheded
  | .restore dynamicAffinity => s.restoreVmInfo m dynamicAffinity

def step (i : SchedStep) : Sched := (s.thrown m i).getD (s.complete m i)

end Sched

end UbsVirt.Vas
