import Mathlib.Data.List.Infix
import UbsVirt.Enpu.Common
import UbsVirt.Lib.Text

/-!
# The runtime's configuration reader

Inside a container the runtime reads `npu_info.config` line by line into `struct Config`,
checks it, and takes it over into `g_npu_info`. Source: `vcann-rt/src/utils/config.c`,
`vcann-rt/src/npu_manager.c:138-178`, `vcann-rt/src/include/config.h`.

Characters stand for the bytes of the file, which are ASCII; the log lines are left out.
-/

namespace UbsVirt.Enpu

open Text

/-- The options a line can set, `config.h:22-30`. -/
inductive ConfigOption where
  | npuId
  | vnpuId
  | aicoreQuota
  | memoryQuota
  | memoryRequest
  | memoryLimit
  | schedulingPolicy
  | vnpuPriority
  | shmId
  deriving DecidableEq, Repr

namespace ConfigOption

/-- The keys `OPTION_NPU_ID`, ..., `OPTION_VNPU_PRIORITY`. -/
def text : ConfigOption → String
  | .npuId => "physical-npu-id"
  | .vnpuId => "virtual-npu-id"
  | .aicoreQuota => "aicore-quota"
  | .memoryQuota => "memory-quota"
  | .memoryRequest => "memory-request"
  | .memoryLimit => "memory-limit"
  | .schedulingPolicy => "scheduling-policy"
  | .vnpuPriority => "vnpu_priority"
  | .shmId => "shm-id"

/-- The options in the order `save2config` compares them. -/
def all : List ConfigOption :=
  [.npuId, .vnpuId, .aicoreQuota, .memoryQuota, .memoryRequest, .memoryLimit, .schedulingPolicy,
    .vnpuPriority, .shmId]

def ofKey (key : List Char) : Option ConfigOption :=
  all.find? fun o => o.text.toList == key

theorem ofKey_text (o : ConfigOption) : ofKey o.text.toList = some o := by
  cases o <;> decide

end ConfigOption

/-- `INVALID_VALUE`, `config.h:33`. -/
def invalidValue : Int := -1

/-- `SHM_ID_LEN` of the runtime, `config.h:21`. -/
def rtShmIdLen : Nat := 128

/-- `struct Config`, `config.h:35-45`. `load_int32` stores only numbers of 32 bits in the
fields of type `int32_t`. -/
structure RtConfig where
  phyNpuId : Int
  vnpuId : Int
  aicoreQuota : Int
  memoryQuota : Int
  memoryRequest : UInt64
  memoryLimit : UInt64
  schedulingPolicy : Int
  vnpuPriority : Int
  shmId : String
  deriving DecidableEq, Repr

/-- `reset_config`, `config.c:20-31`. -/
def resetConfig : RtConfig :=
  { phyNpuId := invalidValue, vnpuId := invalidValue, aicoreQuota := invalidValue
    memoryQuota := invalidValue, memoryRequest := 0, memoryLimit := 0
    schedulingPolicy := invalidValue, vnpuPriority := VnpuPriority.normal.code, shmId := "" }

/-! ### Values -/

/-- `load_int32`, `config.c:118-137`. The number -1 stands for an option that is not set and
is refused. -/
def loadInt32 (value : List Char) : Option Int :=
  let r := strtol value
  if r.erange then none
  else match r.rest with
    | some [] =>
      if r.value < -2 ^ 31 ∨ 2 ^ 31 ≤ r.value then none
      else if r.value = -1 then none
      else some r.value
    | _ => none

/-- `load_uint64`, `config.c:154-170`. -/
def loadUint64 (value : List Char) : Option UInt64 :=
  let r := strtoull value
  if r.erange then none
  else if r.value = UInt64.ofNat (2 ^ 64 - 1) then none
  else match r.rest with
    | some [] => some r.value
    | _ => none

/-- `load_str`, `config.c:139-152`. -/
def loadStr (value : List Char) (retLen : Nat) : Option String :=
  if retLen ≤ value.length then none else some (String.ofList value)

/-- The branch of `save2config` for an option. -/
def saveOption (c : RtConfig) (value : List Char) : ConfigOption → Option RtConfig
  | .npuId => (loadInt32 value).map fun x => { c with phyNpuId := x }
  | .vnpuId => (loadInt32 value).map fun x => { c with vnpuId := x }
  | .aicoreQuota => (loadInt32 value).map fun x => { c with aicoreQuota := x }
  | .memoryQuota => (loadInt32 value).map fun x => { c with memoryQuota := x }
  | .memoryRequest => (loadUint64 value).map fun x => { c with memoryRequest := x }
  | .memoryLimit => (loadUint64 value).map fun x => { c with memoryLimit := x }
  | .schedulingPolicy => (loadInt32 value).map fun x => { c with schedulingPolicy := x }
  | .vnpuPriority => (loadInt32 value).map fun x => { c with vnpuPriority := x }
  | .shmId => (loadStr value rtShmIdLen).map fun x => { c with shmId := x }

/-- `save2config`, `config.c:172-198`. An unknown key and a value that cannot be loaded leave
the configuration as it was. -/
def save2config (c : RtConfig) (key value : List Char) : Option RtConfig :=
  match ConfigOption.ofKey key with
  | some o => saveOption c value o
  | none => none

/-! ### Checks -/

/-- `check_shm_id`, `config.c:53-71`. -/
def checkShmId (str : String) : Bool :=
  decide (str ≠ "") && decide ('/' ∉ str.toList) && decide (¬ ['.', '.'] <:+: str.toList)

/-- The checks at the end of `check_config`, `config.c:115-119`. -/
def checkOptions (c : RtConfig) : Bool :=
  decide (c.phyNpuId ≠ invalidValue) && decide (c.vnpuId ≠ invalidValue) &&
    decide (c.aicoreQuota ≠ invalidValue) && decide (c.schedulingPolicy ≠ invalidValue) &&
    checkShmId c.shmId

/-- `check_config`, `config.c:73-120`: the configuration with its defaults filled in. High
priority admits no AICore quota and no policy but best-effort, and sets both when they
were left out. -/
def checkConfig (c : RtConfig) : Option RtConfig :=
  let high := decide (c.vnpuPriority = VnpuPriority.high.code)
  let badQuota := decide (c.aicoreQuota ≠ invalidValue ∧ c.aicoreQuota ≠ 0)
  let badPolicy := decide (c.schedulingPolicy ≠ invalidValue ∧ c.schedulingPolicy ≠ 3)
  let c₁ := if high then { c with aicoreQuota := 0, schedulingPolicy := 3 } else c
  if c.vnpuPriority ≠ VnpuPriority.normal.code ∧ c.vnpuPriority ≠ VnpuPriority.high.code then none
  else if high && (badQuota || badPolicy) then none
  else if c₁.memoryRequest = 0 ∧ c₁.memoryLimit = 0 then
    if c₁.memoryQuota = invalidValue then none
    else
      let quota := UInt64.ofInt c₁.memoryQuota
      let c₂ := { c₁ with memoryRequest := quota, memoryLimit := quota }
      if checkOptions c₂ then some c₂ else none
  else if c₁.memoryRequest = 0 ∨ c₁.memoryLimit = 0 then none
  else if checkOptions c₁ then some c₁ else none

/-! ### The file -/

/-- The first loop over the buffer, `config.c:215-224`: characters below `!` are dropped. -/
def cleanLine (buffer : List Char) : List Char :=
  (buffer.takeWhile (· ≠ '\x00')).filter fun c => decide ('!' ≤ c)

/-- The body of the reading loop, `config.c:214-249`. The flag records that the AICore quota
or the policy could not be read. -/
def loadLine (st : RtConfig × Bool) (buffer : List Char) : RtConfig × Bool :=
  let line := cleanLine buffer
  if line.head? = some '#' ∨ line = [] then st
  else match line.span (· ≠ '=') with
    | (_, []) => st
    | (key, _ :: value) =>
      match save2config st.1 key value with
      | some c => (c, st.2)
      | none => (st.1, st.2 || key == ConfigOption.aicoreQuota.text.toList ||
          key == ConfigOption.schedulingPolicy.text.toList)

/-- `load_config`, `config.c:200-264`, on the text of the file. The buffer of
`MAX_LINE_LENGTH` characters holds 255 and the terminator. -/
def loadConfig (text : String) : Option RtConfig :=
  let (c, invalidComputeSetting) := foldLines 255 loadLine (resetConfig, false) text.toList
  if invalidComputeSetting && decide (c.vnpuPriority = VnpuPriority.high.code) then none
  else checkConfig c

/-! ### Taking it over -/

/-- The fields of `struct npu_info` that the configuration sets, `npu_manager.h:66-89`. -/
structure NpuInfo where
  pnpuId : UInt32
  vnpuId : UInt8
  vnpuPriority : UInt8
  memRequestQuota : UInt64
  memLimitQuota : UInt64
  coreLimitQuota : UInt8
  isCoreLimit : Bool
  schedPolicy : Int
  shmId : String
  deriving DecidableEq, Repr

/-- `MB_TO_B`, `npu_manager.h:36`. -/
def rtMbToB : UInt64 := 1024 * 1024

/-- `SIZE_MAX / MB_TO_B`, `npu_manager.c:143`. -/
def maxMemoryQuota : UInt64 := UInt64.ofNat (2 ^ 64 - 1) / rtMbToB

/-- The memory quotas in MB that `enpu_config_info_init` uses, `npu_manager.c:144-153`. -/
def memoryQuotas (c : RtConfig) : UInt64 × UInt64 :=
  if c.memoryRequest = 0 ∧ c.memoryLimit = 0 then
    (UInt64.ofInt c.memoryQuota, UInt64.ofInt c.memoryQuota)
  else (c.memoryRequest, c.memoryLimit)

/-- `enpu_config_info_init`, `npu_manager.c:138-178`, on the value of `g_npu_info` before
it. What was stored before a check fails stays. -/
def enpuConfigInfoInit (c : RtConfig) (g : NpuInfo) : Bool × NpuInfo :=
  let (request, limit) := memoryQuotas c
  if c.phyNpuId < 0 ∨ 15 < c.phyNpuId then (false, g)
  else if c.vnpuId < 0 ∨ 99 < c.vnpuId then (false, g)
  else if request < 1 ∨ maxMemoryQuota < request then (false, g)
  else if limit < 1 ∨ maxMemoryQuota < limit then (false, g)
  else
    let g₁ := { g with memRequestQuota := request * rtMbToB, memLimitQuota := limit * rtMbToB }
    let limited := decide (c.schedulingPolicy = SchedPolicy.fixedShare.code ∨
      c.schedulingPolicy = SchedPolicy.elastic.code)
    if limited && decide (c.aicoreQuota < 1 ∨ 100 < c.aicoreQuota) then (false, g₁)
    else if !limited && decide (c.schedulingPolicy ≠ SchedPolicy.bestEffort.code) then (false, g₁)
    else
      let g₂ := { g₁ with
        coreLimitQuota := if limited then UInt8.ofInt c.aicoreQuota else g.coreLimitQuota
        isCoreLimit := limited
        pnpuId := UInt32.ofInt c.phyNpuId
        vnpuId := UInt8.ofInt c.vnpuId
        vnpuPriority := UInt8.ofInt c.vnpuPriority
        schedPolicy := c.schedulingPolicy }
      if rtShmIdLen ≤ c.shmId.length then (false, g₂) else (true, { g₂ with shmId := c.shmId })

end UbsVirt.Enpu
