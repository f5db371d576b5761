import Mathlib.Data.List.Nodup
import UbsVirt.Enpu.Common

/-!
# The allocation registry and the configuration files

The registry is the list of granted allocations, keyed by pod and container, and saved
through a storage adapter after every change. Next to it the manager keeps one
`npu_info.config` file per allocation. Source:
`enpu-manager/core/src/allocation_registry.c`, `config_manager.c`.
-/

namespace UbsVirt.Enpu

/-- `allocation_registry_t`: the entries in use and the capacity of their array. -/
structure Registry where
  entries : List Allocation
  capacity : Nat
  deriving DecidableEq, Repr

namespace Registry

def empty : Registry :=
  { entries := [], capacity := 64 }

def hasKey (pod container : String) (a : Allocation) : Bool :=
  a.podUid == pod && a.containerName == container

/-- `allocation_registry_get`, `allocation_registry.c:189-209`. -/
def get (r : Registry) (pod container : String) : Option Allocation :=
  r.entries.find? (hasKey pod container)

/-- `allocation_registry_register`, `allocation_registry.c:87-133`. `malloc` tells whether
the array can grow and `save` is the result of `persist_to_adapter`. The entry stays when
saving fails. -/
def register (r : Registry) (a : Allocation) (malloc : Bool) (save : Status) : Status × Registry :=
  if a.podUid = "" ∨ a.containerName = "" then (.invalidParam, r)
  else if (r.get a.podUid a.containerName).isSome then (.alreadyExists, r)
  else if maxAllocCount ≤ r.entries.length then (.noResource, r)
  else if r.capacity ≤ r.entries.length ∧ malloc = false then (.noResource, r)
  else
    (save,
      { entries := r.entries ++ [a]
        capacity :=
          if r.capacity ≤ r.entries.length then min (r.capacity * 2) maxAllocCount
          else r.capacity })

/-- `allocation_registry_release`, `allocation_registry.c:135-159`. -/
def release (r : Registry) (pod container : String) (save : Status) : Status × Registry :=
  if (r.get pod container).isSome then
    (save, { r with entries := r.entries.eraseP (hasKey pod container) })
  else (.notFound, r)

/-- The first entry of a vNPU, as `npu_allocator_release_by_vnpu` looks it up in the list,
`npu_allocator.c:943-950`. -/
def findVnpu (r : Registry) (phyId : Int) (vnpuId : Nat) : Option Allocation :=
  r.entries.find? fun a => a.phyId == phyId && a.vnpuId == vnpuId

def key (a : Allocation) : String × String :=
  (a.podUid, a.containerName)

theorem hasKey_iff {pod container : String} {a : Allocation} :
    hasKey pod container a = true ↔ key a = (pod, container) := by
  simp [hasKey, key]

theorem get_some {r : Registry} {pod container : String} {a : Allocation}
    (h : r.get pod container = some a) : a ∈ r.entries ∧ key a = (pod, container) :=
  ⟨List.mem_of_find?_eq_some h, hasKey_iff.mp (List.find?_some h)⟩

def accepts (r : Registry) (a : Allocation) (malloc : Bool) : Bool :=
  a.podUid != "" && a.containerName != "" && (r.get a.podUid a.containerName).isNone &&
    decide (r.entries.length < maxAllocCount) && (decide (r.entries.length < r.capacity) || malloc)

/-- What a registration can do: either it refuses and keeps the registry, or the entry is
appended and the result is that of saving. -/
theorem register_cases (r : Registry) (a : Allocation) (malloc : Bool) (save : Status) :
    (r.accepts a malloc = false ∧ (r.register a malloc save).1 ≠ .success ∧
      (r.register a malloc save).2 = r) ∨
    (r.accepts a malloc = true ∧ (r.register a malloc save).1 = save ∧
      (r.register a malloc save).2.entries = r.entries ++ [a]) := by
  unfold register accepts
  split
  · next h =>
    refine .inl ⟨?_, by simp, rfl⟩
    rcases h with h | h <;> simp [h]
  · next hname =>
    split
    · next hget =>
      refine .inl ⟨?_, by simp, rfl⟩
      obtain ⟨old, hold⟩ := Option.isSome_iff_exists.mp hget
      simp [hold]
    · next hget =>
      split
      · next hfull =>
        refine .inl ⟨?_, by simp, rfl⟩
        have : ¬ r.entries.length < maxAllocCount := by omega
        simp [this]
      · next hfull =>
        split
        · next hmem =>
          refine .inl ⟨?_, by simp, rfl⟩
          have : ¬ r.entries.length < r.capacity := by omega
          simp [this, hmem.2]
        · next hmem =>
          refine .inr ⟨?_, rfl, rfl⟩
          push Not at hname hmem
          have hlen : r.entries.length < maxAllocCount := by omega
          have hgrow : r.entries.length < r.capacity ∨ malloc = true := by
            by_cases hc : r.entries.length < r.capacity
            · exact .inl hc
            · exact .inr (by simpa using hmem (by omega))
          simp only [Option.not_isSome_iff_eq_none] at hget
          simp [hname.1, hname.2, hget, hlen, hgrow]

end Registry

/-- `vnpu_config_t`: what the runtime reads about its vNPU. -/
structure VnpuConfig where
  phyNpuId : Int
  vnpuId : Nat
  aicoreQuota : Int32
  memoryRequest : UInt64
  memoryLimit : UInt64
  shmId : String
  schedulingPolicy : SchedPolicy
  vnpuPriority : VnpuPriority
  deriving DecidableEq, Repr

/-- The configuration written for an allocation, `npu_allocator.c:801-809`, `1036-1045`. -/
def Allocation.config (a : Allocation) : VnpuConfig :=
  { phyNpuId := a.phyId, vnpuId := a.vnpuId, aicoreQuota := a.aicoreQuota
    memoryRequest := a.hbmQuota, memoryLimit := a.hbmLimit, shmId := a.shmId
    schedulingPolicy := a.schedPolicy, vnpuPriority := a.vnpuPriority }

/-- `generate_config_content`, `config_manager.c:64-93`. -/
def generateConfigContent (c : VnpuConfig) : String :=
  "physical-npu-id=" ++ toString c.phyNpuId ++ "\n" ++
  "virtual-npu-id=" ++ toString c.vnpuId ++ "\n" ++
  "aicore-quota=" ++ toString c.aicoreQuota.toInt ++ "\n" ++
  "memory-request=" ++ toString c.memoryRequest.toNat ++ "\n" ++
  "memory-limit=" ++ toString c.memoryLimit.toNat ++ "\n" ++
  "shm-id=" ++ c.shmId ++ "\n" ++
  "scheduling-policy=" ++ toString c.schedulingPolicy.code ++ "\n" ++
  "vnpu_priority=" ++ toString c.vnpuPriority.code ++ "\n"

/-- The path of a configuration file, `config_manager.c:192-209`. -/
def configPath (basePath pod container : String) : String :=
  basePath ++ pod ++ "/" ++ container ++ "/npu_info.config"

/-- How the file system answers one write of a configuration file: the directories or the
file cannot be made, the write is short (the text that stays if the unlink that follows
fails as well), or all went well. -/
inductive WriteOutcome where
  | mkdirFailed
  | openFailed
  | short (left : Option String)
  | done
  deriving DecidableEq, Repr

variable {F : Type} [DecidableEq F]

/-- `config_manager_write_config` and `write_file_content`, `config_manager.c:95-122`,
`178-226`. `file` is the file the path names and `files` the contents of all files. -/
def writeConfig (files : F → Option String) (file : F) (content : String) :
    WriteOutcome → Status × (F → Option String)
  | .mkdirFailed => (.fail, files)
  | .openFailed => (.fail, files)
  | .short left => (.fail, Function.update files file left)
  | .done => (.success, Function.update files file (some content))

/-- `config_manager_delete_config`, `config_manager.c:228-269`. The result of the unlink is
overwritten by the length `snprintf_s` returns for the parent path, which is what the call
returns. -/
def deleteConfig (basePath pod : String) (files : F → Option String) (file : F) (unlink : Bool) :
    Int × (F → Option String) :=
  ((basePath ++ pod).length, if unlink then Function.update files file none else files)

theorem deleteConfig_of_ne {basePath pod : String} {files : F → Option String} {file g : F}
    {unlink : Bool} (h : g ≠ file) : (deleteConfig basePath pod files file unlink).2 g = files g := by
  cases unlink <;> simp [deleteConfig, h]

theorem writeConfig_of_ne {files : F → Option String} {file g : F} {content : String}
    {w : WriteOutcome} (h : g ≠ file) : (writeConfig files file content w).2 g = files g := by
  cases w <;> simp [writeConfig, h]

end UbsVirt.Enpu
