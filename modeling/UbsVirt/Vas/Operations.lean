import UbsVirt.Vas.ClusterSched

/-!
# The operations of the scheduler

The public operations of `ClusterSched` as programs over its steps: VM start and stop events,
the periodic round, rescheduling on request, compaction and a change of policy. Each holds
the data lock while it runs. Hash maps are walked in an order that is part of the operation,
and so is the outcome of every write to a cgroup file. Source:
`virt-awaresched/src/vasd/cluster_sched/cluster_sched.cpp`.
-/

namespace UbsVirt.Vas

open Run Sched Trace

/-- How the affinity writes end: by the number of steps the operation has taken and the
thread. -/
abbrev Writes := Nat → Nat → Write

namespace Sched

variable {m : Machine} {s₀ : Sched}

abbrev Steps (m : Machine) (s₀ : Sched) := Trace (step m) s₀

/-! ### Allocation -/

/-- The first cluster that has room in a layer, and the CPUs taken there.
`cluster_sched.cpp:836-849`. -/
def findCluster (s : Sched) (d : VmDomain) (layerId nr : Nat) : List ClusterInfo → Option (Nat × Nat)
  | [] => none
  | c :: rest =>
    match (s.layer c.id layerId).bind fun l => allocArea d c l nr with
    | some (_, nrCpus) => some (c.id, nrCpus)
    | none => findCluster s d layerId nr rest

/-- The layers of `AllocClusterGroupToDomain` from `layerId` on, and the CPUs allocated. The
level never passes `maxOverProvision`, so that many layers are all. `cluster_sched.cpp:826-862`. -/
def allocClusterGroupToDomain (m : Machine) (key : DomainKey) (nr : Nat) :
    (layersLeft : Nat) → (layerId : Nat) → Steps m s₀ → Steps m s₀ × Nat
  | 0, _, t => (t, 0)
  | layersLeft + 1, layerId, t =>
    match t.state.domainMap key with
    | none => (t, 0)
    | some d =>
      if layerId < t.state.overProvision key.numaId then
        match findCluster t.state d layerId nr (m.clustersOf key.numaId) with
        | some (clusterId, nrCpus) => (t.emit (.allocGroup key clusterId layerId nr), nrCpus)
        | none =>
          let t' := if layerId + 1 = t.state.overProvision key.numaId then
            t.emit (.layerUp key.numaId) else t
          allocClusterGroupToDomain m key nr layersLeft (layerId + 1) t'
      else (t, 0)

/-- The loop of `Alloc` while CPUs are missing; every round takes at least one.
`cluster_sched.cpp:564-574`. -/
def allocLoop (m : Machine) (key : DomainKey) (keep : List GroupId) :
    (rounds : Nat) → (nr : Nat) → Steps m s₀ → Steps m s₀ × Bool
  | 0, nr, t => (t, nr = 0)
  | rounds + 1, nr, t =>
    if nr = 0 then (t, true)
    else
      let (t', nrCpus) := allocClusterGroupToDomain m key nr (maxOverProvision + 1) 0 t
      if nrCpus = 0 then (t'.emit (.free key keep), false)
      else allocLoop m key keep rounds (nr - nrCpus) t'

/-- `Alloc`, `cluster_sched.cpp:541-578`. -/
def alloc (m : Machine) (key : DomainKey) (keep : List GroupId) (t : Steps m s₀) :
    Steps m s₀ × Bool :=
  match t.state.domainMap key with
  | none => (t, false)
  | some d =>
    let nr := d.pids.length * m.granularity
    if m.granularity = 0 then (t, false)
    else if d.isReScheded then (t, true)
    else if 65535 < nr then (t, false)
    else if t.state.getNumaTotalCpus m key.numaId < nr then (t, false)
    else allocLoop m key keep nr nr t

/-- `Assign`, `cluster_sched.cpp:610-629`. -/
def assign (m : Machine) (key : DomainKey) (copied : Option (List GroupId)) (write : Writes)
    (t : Steps m s₀) : Steps m s₀ × Bool :=
  match t.state.domainMap key with
  | none => (t, false)
  | some d =>
    d.pids.foldl
      (fun (r : Steps m s₀ × Bool) pid =>
        if (r.1.state.entityMap pid).isSome then r
        else
          let t' := r.1.emit (.assign key pid (write r.1.steps.length pid) copied)
          (t', r.2 && (t'.state.entityMap pid).isSome))
      (t, true)

/-- `Alloc` and then `Assign`, recording whether both succeeded. `copied`: this is done on a copy
of a domain that has these groups.
`cluster_sched.cpp:51-63,248-257,523-532,684-692`. -/
def schedule (m : Machine) (key : DomainKey) (copied : Option (List GroupId)) (write : Writes)
    (t : Steps m s₀) : Steps m s₀ :=
  let (t', allocated) := alloc m key (copied.getD []) t
  if allocated then
    let (t'', assigned) := assign m key copied write t'
    t''.emit (.setReScheded key assigned)
  else t'

/-! ### Compaction -/

/-- `CompactionGroupWithinCluster`, `cluster_sched.cpp:1311-1361`. The set of groups is walked
as it is at the start: a group that moves leaves it, one that fails to move returns to its
place. -/
def compactionGroupWithinCluster (m : Machine) (write : Writes) (numaId layerId : Nat)
    (cluster nextCluster : ClusterInfo) (t : Steps m s₀) : Steps m s₀ :=
  match t.state.layer cluster.id layerId, t.state.layer nextCluster.id layerId with
  | some _, some next =>
    next.groups.foldl
      (fun t groupId => t.emit (.migrate
        { numaId, clusterId := cluster.id, layerId, fromCluster := nextCluster.id
          fromLayer := layerId, groupId, fromLast := false } (write t.steps.length)))
      t
  | _, _ => t

/-- `CompactionGroupFromLastLayer`, `cluster_sched.cpp:1368-1437`. -/
def compactionGroupFromLastLayer (m : Machine) (write : Writes) (numaId layerId : Nat)
    (cluster : ClusterInfo) (t : Steps m s₀) : Steps m s₀ :=
  let lastLayerId := t.state.overProvision numaId - 1
  let t' := (m.clustersOf numaId).foldl
    (fun t lastCluster =>
      match t.state.layer lastCluster.id lastLayerId with
      | some last =>
        if last.total = last.idle then t
        else last.groups.foldl
          (fun t groupId => t.emit (.migrate
            { numaId, clusterId := cluster.id, layerId, fromCluster := lastCluster.id
              fromLayer := lastLayerId, groupId, fromLast := true } (write t.steps.length)))
          t
      | none => t)
    t
  t'.emit (.layerDown numaId layerId)

/-- `CompactionClusterOneLayer`, `cluster_sched.cpp:1183-1211`. -/
def compactionClusterOneLayer (m : Machine) (write : Writes) (numaId layerId : Nat) :
    List ClusterInfo → Steps m s₀ → Steps m s₀
  | [], t => t
  | cluster :: rest, t =>
    let t' :=
      match t.state.layer cluster.id layerId with
      | none => t
      | some l =>
        if l.idle = 0 then t
        else
          let t₁ := match rest with
            | nextCluster :: _ =>
              if l.idle ≠ l.total then
                compactionGroupWithinCluster m write numaId layerId cluster nextCluster t
              else t
            | [] => t
          let op := t₁.state.overProvision numaId
          if op ≠ 0 ∧ layerId + 1 ≠ op then
            compactionGroupFromLastLayer m write numaId layerId cluster t₁
          else t₁
    compactionClusterOneLayer m write numaId layerId rest t'

/-- `CompactionCluster`, `cluster_sched.cpp:1176-1181`. -/
def compactionCluster (m : Machine) (write : Writes) (numaId : Nat) :
    (layersLeft : Nat) → (layerId : Nat) → Steps m s₀ → Steps m s₀
  | 0, _, t => t
  | layersLeft + 1, layerId, t =>
    if layerId < t.state.overProvision numaId then
      compactionCluster m write numaId layersLeft (layerId + 1)
        (compactionClusterOneLayer m write numaId layerId (m.clustersOf numaId) t)
    else t

/-- `ClusterCompactionWithoutLock`, `cluster_sched.cpp:270-285`. `gone`: no process has the
uuid any more. -/
def clusterCompaction (m : Machine) (order : List DomainKey) (gone : String → Bool) (write : Writes)
    (t : Steps m s₀) : Steps m s₀ :=
  let t' := order.foldl (fun t key => t.emit (.clean key (gone key.uuid))) t
  m.numas.foldl (fun t numaId => compactionCluster m write numaId (maxOverProvision + 1) 0 t) t'

/-! ### Operations -/

/-- `UpdateDomainInfosWithoutLock`, `cluster_sched.cpp:291-300`. -/
def updateDomainInfos (m : Machine) (vms : List VmInfo) (t : Steps m s₀) : Steps m s₀ :=
  (vms.foldl
    (fun (r : Steps m s₀ × NumaUsedCpuMap) vm =>
      (r.1.emit (.update r.2 vm), ((r.1.state.selectVmNuma m r.2 vm).map (·.2)).getD r.2))
    (t, t.state.getNumaUsedCpuMap m)).1

/-- The domains in `order` that still have to be scheduled.
`cluster_sched.cpp:47-63`. -/
def schedulePending (m : Machine) (order : List DomainKey) (write : Writes) (t : Steps m s₀) :
    Steps m s₀ :=
  order.foldl
    (fun t key =>
      match t.state.domainMap key with
      | some d => if d.isReScheded then t else schedule m key none write (t.emit (.free key []))
      | none => t)
    t

/-- `ReSchedStartedVmsWithoutLock`, `cluster_sched.cpp:520-534`. -/
def reSchedStarted (m : Machine) (order : List DomainKey) (write : Writes) (t : Steps m s₀) :
    Steps m s₀ :=
  order.foldl (fun t key => schedule m key none write t) t

/-- A request to reschedule names the domain. `cluster_sched.cpp:240`. -/
def named (value : String) (d : VmDomain) : Bool :=
  value = "all" ∨ value = d.name ∨ value = d.uuid

/-- The domains a request to reschedule names. `cluster_sched.cpp:239-259`. -/
def reSchedNamed (m : Machine) (value : String) (order : List DomainKey) (write : Writes)
    (t : Steps m s₀) : Steps m s₀ :=
  order.foldl
    (fun t key =>
      match t.state.domainMap key with
      | some d =>
        if named value d then
          schedule m key none write
            (((t.emit (.unassign key)).emit (.setReScheded key false)).emit (.free key []))
        else t
      | none => t)
    t

end Sched

/-- The operations of the scheduler. -/
inductive SchedOp where
  | updateDomainInfosAndSched (vms : List VmInfo) (order : List DomainKey) (write : Writes)
  | addDomainInfo (vm : VmInfo) (write : Writes)
  | delDomainInfo (uuid : String) (order : List DomainKey) (gone : String → Bool) (write : Writes)
  | reSchedVm (value : String) (order : List DomainKey) (gone : String → Bool) (write : Writes)
  | clusterCompaction (order : List DomainKey) (gone : String → Bool) (write : Writes)
  | reSchedStartedVms (vms : List VmInfo) (order : List DomainKey) (write : Writes)
  | reSetSchedPolicy (dynamicAffinity : Bool) (order : List DomainKey) (write : Writes)

/-- The steps of an operation in which no exception is thrown. `cluster_sched.cpp:38-111,168-173,230-268,457-480`. -/
def Sched.operation (m : Machine) (s : Sched) : SchedOp → Steps m s
  | .updateDomainInfosAndSched vms order write =>
    schedulePending m order write (updateDomainInfos m vms (start _ s))
  | .addDomainInfo vm write =>
    let used := s.getNumaUsedCpuMap m
    let t := (start (step m) s).emit (.update used vm)
    match s.selectVmNuma m used vm with
    | none => t
    | some (numaId, _) =>
      let key : DomainKey := ⟨vm.uuid, numaId⟩
      schedule m key ((t.state.domainMap key).map (·.groups)) write t
  | .delDomainInfo uuid order gone write =>
    let t := (order.filter (·.uuid = uuid)).foldl
      (fun t key => t.emit (.deReSched key)) (start (step m) s)
    clusterCompaction m order gone write t
  | .reSchedVm value order gone write =>
    -- a name that no domain has is refused
    if order.any fun key => ((s.domainMap key).map (named value)).getD false then
      clusterCompaction m order gone write
        (reSchedNamed m value order write (start _ s))
    else start _ s
  | .clusterCompaction order gone write =>
    clusterCompaction m order gone write (start _ s)
  | .reSchedStartedVms vms order write =>
    reSchedStarted m order write (updateDomainInfos m vms (start _ s))
  | .reSetSchedPolicy dynamicAffinity order write =>
    reSchedStarted m order write ((start _ s).emit (.restore dynamicAffinity))

/-- The steps of an operation: an exception ends it, and is caught by the caller.
`vasd_looper.cpp:77-79,99-101`. -/
def Sched.program (m : Machine) (s : Sched) (op : SchedOp) : Steps m s :=
  (operation m s op).cut (Completes m)

def Sched.steps (m : Machine) (s : Sched) (ops : List SchedOp) : List SchedStep :=
  unroll (program m) s ops

end UbsVirt.Vas
