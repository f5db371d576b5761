import Mathlib.Data.List.Basic

/-!
# Common codes, constants and records of the eNPU manager

Return codes, size limits and the request and allocation records shared by the
allocator, the device tree, the registry and the shared-memory manager.
Source: `enpu-manager/core/include/common.h`, `allocation.h`, `enpu_manager.h`.
-/

namespace UbsVirt.Enpu

/-- Return codes, `common.h:22-28`. -/
inductive Status where
  | success
  | fail
  | invalidParam
  | noResource
  | alreadyExists
  | notFound
  deriving DecidableEq, Repr

/-- The numbers behind the codes, as the log texts print them. -/
def Status.code : Status → Int
  | .success => 0
  | .fail => -1
  | .invalidParam => -2
  | .noResource => -3
  | .alreadyExists => -4
  | .notFound => -5

/-- `common.h:30`. -/
def maxNpuPerNode : Nat := 16

/-- `common.h:31`, also the number of entries of `shm_state_t`. -/
def maxVnpuPerDie : Nat := 128

/-- `shm_manager.h:29`, the number of vNPUs the scheduler struct has room for. -/
def maxVnpuSched : Nat := 100

/-- `shm_manager.h:40`, process slots of one vNPU. -/
def maxProcessesPerVnpu : Nat := 64

/-- `common.h:35`. -/
def maxAllocCount : Nat := 1024

/-- `schedule_policy_t`, `common.h:44-49`. -/
inductive SchedPolicy where
  | fixedShare
  | elastic
  | bestEffort
  deriving DecidableEq, Repr

/-- The integers of `schedule_policy_t`. -/
def SchedPolicy.code : SchedPolicy → Int
  | .fixedShare => 1
  | .elastic => 2
  | .bestEffort => 3

/-- `VNPU_PRIORITY_NORMAL` and `VNPU_PRIORITY_HIGH`, `common.h:33-34`. -/
inductive VnpuPriority where
  | normal
  | high
  deriving DecidableEq, Repr

def VnpuPriority.code : VnpuPriority → Int
  | .normal => 0
  | .high => 1

/-- `swap_priority_t`, `common.h:52-57`: the larger the value, the sooner it is swapped out. -/
inductive SwapPriority where
  | high
  | medium
  | low
  deriving DecidableEq, Repr

/-- The integers of `swap_priority_t`. -/
def SwapPriority.code : SwapPriority → Int
  | .high => 0
  | .medium => 1
  | .low => 2

/-- `alloc_request_t`. The three enumerations arrive as plain integers and are checked by
`npu_allocator_allocate`; quotas are MB of HBM and percent of AICore. -/
structure AllocRequest where
  podUid : String
  containerName : String
  aicoreQuota : Int32
  hbmQuota : UInt64
  hbmLimit : UInt64
  schedPolicy : Int
  vnpuPriority : Int
  swapPriority : Int
  predicatePhyId : Int
  deriving DecidableEq, Repr

/-- `allocation_t`, `allocation.h:13-31`: a registry entry. The defaults are those of `= {0}`. -/
structure Allocation where
  podUid : String
  containerName : String
  phyId : Int
  vnpuId : Nat
  dieId : String
  shmId : String
  aicoreQuota : Int32
  hbmQuota : UInt64
  hbmLimit : UInt64
  schedPolicy : SchedPolicy
  swapPriority : SwapPriority
  vnpuPriority : VnpuPriority
  createTimeNs : UInt64 := 0
  updateTimeNs : UInt64 := 0
  swapOffset : UInt64 := 0
  swapSize : UInt64 := 0
  swapped : Bool := false
  deriving DecidableEq, Repr

/-- The vNPU id fits the tree's 64-bit mask and both shared-memory arrays,
`npu_allocator.c:50-54`. -/
def vnpuIdIsValid (vnpuId : Nat) : Bool :=
  decide (vnpuId < 64) && decide (vnpuId < maxVnpuSched) && decide (vnpuId < maxVnpuPerDie)

theorem vnpuIdIsValid_iff {vnpuId : Nat} : vnpuIdIsValid vnpuId = true ↔ vnpuId < 64 := by
  unfold vnpuIdIsValid maxVnpuSched maxVnpuPerDie
  simp only [Bool.and_eq_true, decide_eq_true_eq]
  omega

end UbsVirt.Enpu
