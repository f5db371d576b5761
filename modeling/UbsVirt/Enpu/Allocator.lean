import UbsVirt.Enpu.Evaluator
import UbsVirt.Enpu.Registry
import UbsVirt.Enpu.ShmState
import UbsVirt.Lib.Maps

/-!
# The vNPU allocator

Allocation is a transaction over four stores: the leaf of the tree, the shared state of
the die, the configuration file and the registry. Every completed step is written to a
rollback log, and a later failure undoes the logged steps in reverse order. Source:
`enpu-manager/core/src/npu_allocator.c`, `rollback_log.c`.

What a call does not decide by itself (whether memory, shared memory, files and the
checkpoint are available) is given to it as a record of choices.
-/

namespace UbsVirt.Enpu

open Function

/-- What is fixed while the manager runs: the dies `npu_tree_init` found, which have
distinct device numbers, and the configuration. `fileOf` is the file a path names. -/
structure NodeConfig (F : Type) where
  leaves : List DieMeta
  distinct : (leaves.map (·.phyId)).Nodup
  ratio : Int → OversubRatio
  strategy : ShareStrategy
  evaluatorName : String
  basePath : String
  fileOf : String → F

/-- `npu_allocator_t` with everything its calls change. -/
structure Allocator (F : Type) where
  leaf : Int → LeafState
  registry : Registry
  shm : Int → Option ShmState
  pool : Tlsf.Pool
  files : F → Option String

/-- Outcomes of the library calls an allocation makes, in the order of the calls. -/
structure AllocChoices where
  nodesCalloc : Bool
  policyCalloc : Bool
  shmCreate : Bool
  configWrite : WriteOutcome
  registryMalloc : Bool
  save : Status
  unlink : Bool
  time : Nat
  deriving DecidableEq, Repr

/-- `alloc_response_t`; `grant` holds the fields copied from an allocation. -/
structure AllocResponse where
  result : Status
  errorMsg : String
  grant : Option Allocation
  deriving DecidableEq, Repr

def AllocResponse.error (result : Status) (errorMsg : String) : AllocResponse :=
  { result := result, errorMsg := errorMsg, grant := none }

variable {F : Type} [DecidableEq F]

/-- `npu_tree_get_leaf`, `npu_tree.c:485-507`. -/
def NodeConfig.getLeaf (cfg : NodeConfig F) (phyId : Int) : Option DieMeta :=
  if phyId < 0 then none else cfg.leaves.find? (·.phyId == phyId)

def NodeConfig.configFile (cfg : NodeConfig F) (pod container : String) : F :=
  cfg.fileOf (configPath cfg.basePath pod container)

/-- `pick_evaluator`, `npu_allocator.c:409-424`: only the share evaluator is registered. -/
def NodeConfig.pickEvaluator (cfg : NodeConfig F) : Bool :=
  (if cfg.evaluatorName ≠ "" then cfg.evaluatorName else "share") == "share"

namespace Allocator

def setLeaf (s : Allocator F) (phyId : Int) (l : LeafState) : Allocator F :=
  { s with leaf := update s.leaf phyId l }

/-! ### Shared memory -/

/-- `shm_manager_get_or_create_shm`, `shm_manager.c:244-306`: the state of the die. -/
def getOrCreateShm (s : Allocator F) (phyId : Int) (dieId : String) (create : Bool) :
    Except Status (ShmState × Allocator F) :=
  if phyId < 0 ∨ (maxNpuPerNode : Int) ≤ phyId then .error .invalidParam
  else match s.shm phyId with
    | some st => .ok (st, s)
    | none =>
      if create then
        let st := ShmState.create dieId
        .ok (st, { s with shm := update s.shm phyId (some st) })
      else .error .fail

/-- `build_shm_entry`, `npu_allocator.c:426-439`. -/
def buildShmEntry (a : Allocation) (swapEnabled : Bool) : VnpuShmEntry :=
  { VnpuShmEntry.zero with
    vnpuId := a.vnpuId
    hbmRequest := a.hbmQuota
    hbmLimit := a.hbmLimit
    schedPolicy := a.schedPolicy.code
    swapPriority := a.swapPriority.code
    swapEnabled := swapEnabled }

/-- `shm_apply_vnpu_locked`, `npu_allocator.c:454-501`: the status and the shm id written
for the caller. The scheduler struct, which it also stamps, is not modelled here. -/
def shmApplyVnpu (s : Allocator F) (phyId : Int) (dieId : String) (hbmTotal : UInt64) (v : Nat)
    (e : VnpuShmEntry) (create : Bool) : Status × String × Allocator F :=
  match s.getOrCreateShm phyId dieId create with
  | .error status => (status, "", s)
  | .ok (st, s₁) =>
    let st₁ := st.initState hbmTotal
    let (pool, st₂) :=
      if st₁.bitmapTest v then
        let (pool, st') := shmFree (s₁.pool, st₁) v
        (pool, (st'.removeEntry v).2)
      else (s₁.pool, st₁)
    let (status, st₃) := st₂.addEntry v e
    (status, st.shmId, { s₁ with shm := update s₁.shm phyId (some st₃), pool := pool })

/-- `shm_release_vnpu_locked`, `npu_allocator.c:513-557`. -/
def shmReleaseVnpu (s : Allocator F) (phyId : Int) (v : Nat) : Status × Allocator F :=
  if phyId < 0 ∨ (maxNpuPerNode : Int) ≤ phyId then (.invalidParam, s)
  else if maxVnpuPerDie ≤ v then (.invalidParam, s)
  else match s.shm phyId with
    | none => (.success, s)
    | some st =>
      if !st.bitmapTest v then (.success, s)
      else
        let (pool, st₁) := shmFree (s.pool, st) v
        let (status, st₂) := st₁.removeEntry v
        (status, { s with shm := update s.shm phyId (some st₂), pool := pool })

/-- `shm_manager_remove_entry` on the state of a die. -/
def shmRemoveEntry (s : Allocator F) (phyId : Int) (v : Nat) : Status × Allocator F :=
  if phyId < 0 then (.invalidParam, s)
  else if maxVnpuPerDie ≤ v then (.invalidParam, s)
  else match s.shm phyId with
    | none => (.notFound, s)
    | some st =>
      let (status, st₁) := st.removeEntry v
      (status, { s with shm := update s.shm phyId (some st₁) })

end Allocator

/-! ### The rollback log -/

/-- `rollback_step_t`: one undoable step with the data its undo needs. -/
inductive RollbackStep where
  | markOccupied (phyId : Int) (v : Nat)
  | updateQuota (phyId : Int) (v : Nat) (aicoreDelta : Int32) (hbmDelta : Int64)
  | attachPolicy (phyId : Int) (v : Nat)
  | createShm (phyId : Int) (v : Nat) (shmId : String)
  | writeConfig (phyId : Int) (v : Nat) (pod container : String)
  | saveCheckpoint (phyId : Int) (v : Nat) (pod container : String)
  deriving DecidableEq, Repr

/-- `rollback_log_append`, `rollback_log.c:44-91`: a full log drops the step. -/
def rollbackLogAppend (log : List RollbackStep) (step : RollbackStep) : List RollbackStep :=
  if 16 ≤ log.length then log else log ++ [step]

/-- The six undo functions, `rollback_log.c:93-196`: whether the undo reports success, and
the state it leaves. Deleting a configuration file never reports success, since the call
returns a length. -/
def undoStep (cfg : NodeConfig F) (s : Allocator F) (unlink : Bool) (save : Status) :
    RollbackStep → Bool × Allocator F
  | .markOccupied phyId v =>
    match cfg.getLeaf phyId with
    | none => (false, s)
    | some d =>
      let (status, l) := (s.leaf d.phyId).markFree v
      (status == .success, s.setLeaf d.phyId l)
  | .updateQuota phyId _ aicoreDelta hbmDelta =>
    match cfg.getLeaf phyId with
    | none => (false, s)
    | some d => (true, s.setLeaf d.phyId ((s.leaf d.phyId).updateQuota (-aicoreDelta) (-hbmDelta)))
  | .attachPolicy phyId v =>
    match cfg.getLeaf phyId with
    | none => (false, s)
    | some d =>
      let (status, l) := (s.leaf d.phyId).detachPolicy v
      (status == .success, s.setLeaf d.phyId l)
  | .createShm phyId v shmId =>
    if shmId = "" then (false, s)
    else
      let (status, s') := s.shmRemoveEntry phyId v
      (status == .success, s')
  | .writeConfig _ _ pod container =>
    if pod = "" ∨ container = "" then (false, s)
    else
      let (ret, files) := deleteConfig cfg.basePath pod s.files (cfg.configFile pod container) unlink
      (ret == 0, { s with files := files })
  | .saveCheckpoint _ _ pod container =>
    if pod = "" ∨ container = "" then (false, s)
    else
      let (status, r) := s.registry.release pod container save
      (status == .success, { s with registry := r })

/-- `rollback_log_rollback`, `rollback_log.c:198-258`: undo the steps from the last to the
first; one failure makes the result `ENPU_FAIL`, the later undo steps still run. -/
def rollbackLogRollback (cfg : NodeConfig F) (s : Allocator F) (log : List RollbackStep)
    (unlink : Bool) (save : Status) : Status × Allocator F :=
  let (ok, s') := log.reverse.foldl
    (fun acc step =>
      let (ok, s') := undoStep cfg acc.2 unlink save step
      (acc.1 && ok, s')) (true, s)
  (if ok then .success else .fail, s')

/-! ### Checking a request -/

/-- A request after the checks at the head of `npu_allocator_allocate`. -/
structure CheckedRequest where
  aicoreQuota : Int32
  hbmRequest : UInt64
  hbmLimit : UInt64
  schedPolicy : SchedPolicy
  vnpuPriority : VnpuPriority
  deriving DecidableEq, Repr

/-- `parse_hbm_request_limit`, `npu_allocator.c:85-141`. -/
def parseHbmRequestLimit (schedPolicy : Int) (request limit : UInt64) :
    Except (Status × String) SchedPolicy :=
  if schedPolicy = 1 then
    if request = 0 then
      .error (.invalidParam, "policy=fixed-share requires hbm_request>0 (got req=" ++
        toString request.toNat ++ ")")
    else if request ≠ limit then
      .error (.invalidParam, "policy=fixed-share does not support memory oversubscription: " ++
        "requires hbm_request=hbm_limit (got req=" ++ toString request.toNat ++ ", lim=" ++
        toString limit.toNat ++ ")")
    else .ok .fixedShare
  else if schedPolicy = 2 ∨ schedPolicy = 3 then
    if limit < request then
      .error (.invalidParam, "hbm_request must be <= hbm_limit (got req=" ++
        toString request.toNat ++ ", lim=" ++ toString limit.toNat ++ ", policy=" ++
        toString schedPolicy ++ ")")
    else .ok (if schedPolicy = 2 then .elastic else .bestEffort)
  else
    .error (.invalidParam, "invalid sched_policy=" ++ toString schedPolicy ++
      " (must be 1=fixed-share, 2=elastic, 3=best-effort)")

/-- The checks of `npu_allocator_allocate` that read only the request,
`npu_allocator.c:565-596`. High priority drops the AICore quota and the policy. -/
def checkRequest (req : AllocRequest) : Except (Status × String) CheckedRequest :=
  let parse (priority : VnpuPriority) (aicore : Int32) (policy : Int) :
      Except (Status × String) CheckedRequest :=
    if 100 < aicore then
      .error (.invalidParam, "aicore_quota exceeds 100 (single DIE limit), got " ++
        toString aicore.toInt)
    else match parseHbmRequestLimit policy req.hbmQuota req.hbmLimit with
      | .error e => .error e
      | .ok p => .ok ⟨aicore, req.hbmQuota, req.hbmLimit, p, priority⟩
  if req.vnpuPriority = 1 then parse .high 0 3
  else if req.vnpuPriority = 0 then
    if req.aicoreQuota ≤ 0 then
      .error (.invalidParam, "aicore_quota must > 0, got " ++ toString req.aicoreQuota.toInt)
    else parse .normal req.aicoreQuota req.schedPolicy
  else
    .error (.invalidParam, "vnpu_priority must be 0 (normal) or 1 (high), got " ++
      toString req.vnpuPriority)

/-- The swap priority of a request, `npu_allocator.c:736-738`. -/
def clampSwapPriority (p : Int) : SwapPriority :=
  if p = 0 then .high else if p = 2 then .low else .medium

/-! ### Allocate -/

namespace Allocator

/-- The sum of the limits of the vNPUs in the bitmap of a die, `npu_allocator.c:668-680`,
in 64-bit arithmetic. -/
def allocatedHbmLimit (s : Allocator F) (phyId : Int) : UInt64 :=
  match s.shm phyId with
  | none => 0
  | some st =>
    ((List.range maxVnpuPerDie).map fun v =>
      if st.bitmapTest v then (st.entries v).hbmLimit else 0).sum

/-- The request handed to the evaluator, `npu_allocator.c:650-680`. The AICore quota has
been checked against 100, so one vNPU is asked for. -/
def evalRequest (cfg : NodeConfig F) (s : Allocator F) (predicatePhyId : Int)
    (c : CheckedRequest) : EvalRequest :=
  { aicoreQuota := c.aicoreQuota, hbmQuota := c.hbmRequest, hbmLimit := c.hbmLimit
    schedPolicy := c.schedPolicy, vnpuPriority := c.vnpuPriority
    predicatePhyId := predicatePhyId, ratio := cfg.ratio
    allocatedHbmLimit := fun phyId =>
      if 0 ≤ phyId ∧ phyId < maxNpuPerNode then s.allocatedHbmLimit phyId else 0 }

/-- The allocation built for a request, `npu_allocator.c:716-747`: names left empty get
their defaults. The shm id is filled in once the shared memory exists. -/
def newAllocation (req : AllocRequest) (c : CheckedRequest) (d : DieMeta) (v time : Nat) :
    Allocation :=
  { podUid := if req.podUid = "" then "pod-" ++ toString d.phyId else req.podUid
    containerName :=
      if req.containerName = "" then "container-" ++ toString d.phyId ++ "-" ++ toString v
      else req.containerName
    phyId := d.phyId
    vnpuId := v
    dieId := d.dieId
    shmId := ""
    aicoreQuota := c.aicoreQuota
    hbmQuota := c.hbmRequest
    hbmLimit := c.hbmLimit
    schedPolicy := c.schedPolicy
    swapPriority := clampSwapPriority req.swapPriority
    vnpuPriority := c.vnpuPriority
    createTimeNs := .ofNat time * 1000000000 }

/-- The steps of an allocation that can fail, in the order they are taken. -/
inductive AllocStep where
  | markOccupied
  | attachPolicy
  | shmApply
  | writeConfig
  | register
  deriving DecidableEq, Repr

/-- The message of a failed step, `npu_allocator.c:750-871`. -/
def stepError (a : Allocation) (status : Status) : AllocStep → AllocResponse
  | .markOccupied => .error status ("mark_vnpu_occupied failed (phy=" ++ toString a.phyId ++
      " vnpu=" ++ toString a.vnpuId ++ "): ret=" ++ toString status.code)
  | .attachPolicy => .error status ("attach_policy failed (phy=" ++ toString a.phyId ++
      " vnpu=" ++ toString a.vnpuId ++ " sched_policy=" ++ toString a.schedPolicy.code ++
      "): ret=" ++ toString status.code)
  | .shmApply => .error status ("shm_apply_vnpu_locked failed (phy=" ++ toString a.phyId ++
      " die=" ++ a.dieId ++ " vnpu=" ++ toString a.vnpuId ++ "): ret=" ++ toString status.code)
  | .writeConfig => .error status ("write npu_info.config failed (pod=" ++ a.podUid ++
      " container=" ++ a.containerName ++ "): ret=" ++ toString status.code)
  | .register => .error status ("allocation_registry_register failed (pod=" ++ a.podUid ++
      " container=" ++ a.containerName ++ " phy=" ++ toString a.phyId ++ " vnpu=" ++
      toString a.vnpuId ++ "): ret=" ++ toString status.code)

/-- The six steps of an allocation with their rollback, `npu_allocator.c:747-884`. -/
def allocateSteps (cfg : NodeConfig F) (s : Allocator F) (a : Allocation) (d : DieMeta)
    (ch : AllocChoices) : AllocResponse × Allocator F :=
  let phy := d.phyId
  let v := a.vnpuId
  let aicoreDelta := -a.aicoreQuota
  let hbmDelta := -a.hbmQuota.toInt64
  let (status₁, l₁) := (s.leaf phy).markOccupied v
  -- the first step has nothing to undo when it fails
  if status₁ ≠ .success then (stepError a status₁ .markOccupied, s)
  else
  let s₁ := s.setLeaf phy l₁
  let log₁ := rollbackLogAppend [] (.markOccupied phy v)
  let s₂ := s₁.setLeaf phy ((s₁.leaf phy).updateQuota aicoreDelta hbmDelta)
  let log₂ := rollbackLogAppend log₁ (.updateQuota phy v aicoreDelta hbmDelta)
  let (status₃, l₃) := (s₂.leaf phy).attachPolicy v a.schedPolicy a.vnpuPriority ch.policyCalloc
  if status₃ ≠ .success then
    (stepError a status₃ .attachPolicy,
      (rollbackLogRollback cfg s₂ log₂ ch.unlink ch.save).2)
  else
  let s₃ := s₂.setLeaf phy l₃
  let log₃ := rollbackLogAppend log₂ (.attachPolicy phy v)
  let (status₄, shmId, s₄) := s₃.shmApplyVnpu phy a.dieId d.totalBytes v
    (buildShmEntry a (cfg.ratio phy).enabled) ch.shmCreate
  if status₄ ≠ .success then
    (stepError a status₄ .shmApply,
      (rollbackLogRollback cfg s₄ log₃ ch.unlink ch.save).2)
  else
  let log₄ := rollbackLogAppend log₃ (.createShm phy v shmId)
  let a' := { a with shmId := shmId }
  let (status₅, files) := writeConfig s₄.files (cfg.configFile a.podUid a.containerName)
    (generateConfigContent a'.config) ch.configWrite
  let s₅ := { s₄ with files := files }
  if status₅ ≠ .success then
    (stepError a status₅ .writeConfig,
      (rollbackLogRollback cfg s₅ log₄ ch.unlink ch.save).2)
  else
  let log₅ := rollbackLogAppend log₄ (.writeConfig phy v a.podUid a.containerName)
  let (status₆, registry) := s₅.registry.register a' ch.registryMalloc ch.save
  let s₆ := { s₅ with registry := registry }
  if status₆ ≠ .success then
    (stepError a status₆ .register,
      (rollbackLogRollback cfg s₆ log₅ ch.unlink ch.save).2)
  else ({ result := .success, errorMsg := "", grant := some a' }, s₆)

/-- The die and vNPU id for a checked request, `npu_allocator.c:640-714`. -/
def selectVnpu (cfg : NodeConfig F) (s : Allocator F) (predicatePhyId : Int) (c : CheckedRequest)
    (nodesCalloc : Bool) : Except (Status × String) (DieMeta × Nat) :=
  if !cfg.pickEvaluator then
    .error (.invalidParam, "no allocator evaluator available for aicore_quota=" ++
      toString c.aicoreQuota.toInt ++ " (multi-card vnpu not supported)")
  else if !nodesCalloc then .error (.fail, "OOM: failed to alloc evaluator nodes buffer")
  else match evaluateShare cfg.strategy cfg.leaves s.leaf (s.evalRequest cfg predicatePhyId c) with
    | .error (status, msg) =>
      .error (status,
        if msg ≠ "" then "allocation failed: " ++ msg
        else if 0 ≤ predicatePhyId ∧ status = .noResource then
          "card " ++ toString predicatePhyId ++ " insufficient resources"
        else "allocation failed: share")
    | .ok (d, v) =>
      if vnpuIdIsValid v then .ok (d, v)
      else .error (.invalidParam, "invalid vnpu_id selected: " ++ toString v)

/-- `npu_allocator_allocate`, `npu_allocator.c:559-884`. -/
def allocate (cfg : NodeConfig F) (s : Allocator F) (req : AllocRequest) (ch : AllocChoices) :
    AllocResponse × Allocator F :=
  match checkRequest req with
  | .error (status, msg) => (.error status msg, s)
  | .ok c =>
    let notFound := "card " ++ toString req.predicatePhyId ++ " not found"
    if 0 ≤ req.predicatePhyId ∧ (cfg.leaves.length : Int) ≤ req.predicatePhyId then
      (.error .notFound notFound, s)
    else if 0 ≤ req.predicatePhyId ∧ (cfg.getLeaf req.predicatePhyId).isNone then
      (.error .fail notFound, s)
    else match s.registry.get req.podUid req.containerName with
      | some old =>
        ({ result := .alreadyExists
           errorMsg := "vNPU already exists: pod=" ++ old.podUid ++ " container=" ++
            old.containerName ++ " phy=" ++ toString old.phyId ++ " vnpu=" ++ toString old.vnpuId
           grant := some old }, s)
      | none =>
        match s.selectVnpu cfg req.predicatePhyId c ch.nodesCalloc with
        | .error (status, msg) => (.error status msg, s)
        | .ok (d, v) => s.allocateSteps cfg (newAllocation req c d v ch.time) d ch

/-! ### Release and recovery -/

/-- Outcomes of the library calls of a release. -/
structure ReleaseChoices where
  unlink : Bool
  save : Status
  deriving DecidableEq, Repr

/-- `npu_allocator_release`, `npu_allocator.c:886-925`. -/
def release (cfg : NodeConfig F) (s : Allocator F) (pod container : String) (ch : ReleaseChoices) :
    Status × Allocator F :=
  match s.registry.get pod container with
  | none => (.notFound, s)
  | some a =>
    let s₁ := match cfg.getLeaf a.phyId with
      | none => s
      | some d =>
        let l := s.leaf d.phyId
        let l' :=
          if l.isFree a.vnpuId then l
          else
            let l₁ := (l.detachPolicy a.vnpuId).2
            let l₂ := l₁.updateQuota a.aicoreQuota a.hbmQuota.toInt64
            (l₂.markFree a.vnpuId).2
        ((s.setLeaf d.phyId l').shmReleaseVnpu a.phyId a.vnpuId).2
    let files := (deleteConfig cfg.basePath pod s₁.files (cfg.configFile pod container) ch.unlink).2
    (.success, { s₁ with files := files, registry := (s₁.registry.release pod container ch.save).2 })

/-- `npu_allocator_release_by_vnpu`, `npu_allocator.c:927-958`. -/
def releaseByVnpu (cfg : NodeConfig F) (s : Allocator F) (phyId : Int) (v : Nat)
    (ch : ReleaseChoices) : Status × Allocator F :=
  if maxVnpuPerDie ≤ v then (.invalidParam, s)
  else match s.registry.findVnpu phyId v with
    | none => (.notFound, s)
    | some a => s.release cfg a.podUid a.containerName ch

/-- Outcomes of the library calls made for one recovered allocation. -/
structure RecoverChoices where
  policyCalloc : Bool
  shmCreate : Bool
  configWrite : WriteOutcome
  deriving DecidableEq, Repr

/-- Rebuild one allocation, the body of the loop of `npu_allocator_recover`,
`npu_allocator.c:998-1058`. The codes of the tree operations are ignored, and the process
slots of the entry stay as they are. -/
def recoverOne (cfg : NodeConfig F) (s : Allocator F) (a : Allocation) (ch : RecoverChoices) :
    Allocator F :=
  if !vnpuIdIsValid a.vnpuId then s
  else match cfg.getLeaf a.phyId with
    | none => s
    | some d =>
      let l₁ := ((s.leaf d.phyId).markOccupied a.vnpuId).2
      let l₂ := l₁.updateQuota (-a.aicoreQuota) (-a.hbmQuota.toInt64)
      let l₃ := (l₂.attachPolicy a.vnpuId a.schedPolicy a.vnpuPriority ch.policyCalloc).2
      let s₁ := s.setLeaf d.phyId l₃
      match s₁.getOrCreateShm a.phyId a.dieId ch.shmCreate with
      | .error _ => s₁
      | .ok (st, s₂) =>
        let st₁ := st.initState d.totalBytes
        let st₂ := { st₁ with
          vnpuBitmap := update st₁.vnpuBitmap a.vnpuId true
          entries := update st₁.entries a.vnpuId
            { st₁.entries a.vnpuId with
              vnpuId := a.vnpuId
              hbmRequest := a.hbmQuota
              hbmLimit := a.hbmLimit
              schedPolicy := a.schedPolicy.code
              swapPriority := a.swapPriority.code
              swapEnabled := true
              hbmUsed := 0 } }
        let s₃ := { s₂ with shm := update s₂.shm a.phyId (some st₂) }
        { s₃ with
          files := (writeConfig s₃.files (cfg.configFile a.podUid a.containerName)
            (generateConfigContent a.config) ch.configWrite).2 }

/-- `npu_allocator_recover`, `npu_allocator.c:981-1064`: the registered allocations in
order, each with the outcomes of its own calls. -/
def recover (cfg : NodeConfig F) (s : Allocator F) (ch : Nat → RecoverChoices) : Allocator F :=
  s.registry.entries.zipIdx.foldl (fun s a => s.recoverOne cfg a.1 (ch a.2)) s

def init (cfg : NodeConfig F) (registry : Registry) (pool : Tlsf.Pool) (files : F → Option String) :
    Allocator F :=
  { leaf := fun phyId =>
      match cfg.leaves.find? (·.phyId == phyId) with
      | some d => .fresh d
      | none =>
        { aicoreQuota := 0, hbmQuota := 0, vnpuCount := 0, vnpuMask := 0#64, policyReady := false
          policyEntries := [] }
    registry := registry
    shm := fun _ => none
    pool := pool
    files := files }

/-- A call of the allocator with the outcomes of the library calls it makes. -/
inductive Call where
  | allocate (req : AllocRequest) (ch : AllocChoices)
  | release (pod container : String) (ch : ReleaseChoices)
  | releaseByVnpu (phyId : Int) (v : Nat) (ch : ReleaseChoices)

def step (cfg : NodeConfig F) (s : Allocator F) : Call → Allocator F
  | .allocate req ch => (s.allocate cfg req ch).2
  | .release pod container ch => (s.release cfg pod container ch).2
  | .releaseByVnpu phyId v ch => (s.releaseByVnpu cfg phyId v ch).2

end Allocator

end UbsVirt.Enpu
