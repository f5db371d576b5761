import Mathlib.Data.Int.NatAbs
import UbsVirt.Lib.Probing
import UbsVirt.Lib.Run

/-!
# The memory hooks of MCS

The hooks of the runtime's allocation functions compare the memory in use with the quota before
they call the real function, and record the size of what it returned under its address, in a
table with linear probing; the hooks of the free functions look the size up and subtract it.
Source: `mcs/common/memory.c`, `mcs/common/mem_limiter.c`, `mcs/src/mcs_mem.c`. Calls are taken
one after the other. `rtMallocPhysical`, which returns a handle that no hook takes back, and the
query `rtMemGetInfoEx` are left out.
-/

namespace UbsVirt.Mcs

open Probing

/-! ### The registry -/

/-- `MEM_TRACK_SLOTS`, `memory.c:54`. -/
def memTrackSlots : Nat := 65536

/-- `mem_track_slot_t`, `memory.c:57-60`; the key of an empty slot is zero. -/
structure MemTrackSlot where
  key : Nat
  size : Nat
deriving DecidableEq

abbrev MemTrack := Nat → MemTrackSlot

/-- `mem_track_hash`, `memory.c:65-68`, on 64-bit keys. -/
def memTrackHash (key : Nat) : Nat :=
  key / 2 ^ 4 * 2654435761 % 2 ^ 64 % 2 ^ 32 % memTrackSlots

/-- The slot at which the loops of `mem_track_insert` and `mem_track_erase` break: the first one
that is empty or holds the key. -/
def memTrackProbe (t : MemTrack) (key : Nat) : Option Nat :=
  probe memTrackSlots (fun i => (t i).key == 0 || (t i).key == key) (memTrackHash key)

def sizeMax : Nat := 2 ^ 64 - 1

/-- `mem_track_insert`, `memory.c:76-100`: what the usage changes by, and the registry. -/
def memTrackInsert (t : MemTrack) (key size : Nat) : Nat × MemTrack :=
  match memTrackProbe t key with
  | none => (sizeMax, t)
  | some i =>
    if (t i).key = 0 then (size, Function.update t i ⟨key, size⟩)
    else
      (if (t i).size < size then size - (t i).size else 0,
        Function.update t i { t i with size := size })

/-- `mem_track_erase`, `memory.c:104-123`: the size of the entry, and the registry. -/
def memTrackErase (t : MemTrack) (key : Nat) : Nat × MemTrack :=
  match memTrackProbe t key with
  | none => (0, t)
  | some i => if (t i).key = 0 then (0, t) else ((t i).size, Function.update t i ⟨0, 0⟩)

/-! ### The quota -/

/-- `get_mem_limit_quota`, `mcs_mem.c:40-44`: the quota is configured in MB as an `int32_t`. -/
def getMemLimitQuota (memoryQuota : Int) : Nat :=
  (memoryQuota % 2 ^ 64).toNat * 2 ^ 20 % 2 ^ 64

/-- `memory_check`, `mem_limiter.c:49-62`. -/
def memoryCheck (memoryQuota : Int) (used requested : Nat) : Bool :=
  if 2 ^ 64 ≤ requested + used then false
  else if getMemLimitQuota memoryQuota < requested + used then false
  else true

/-- `ACL_ERROR_STORAGE_OVER_LIMIT`, `ascend_compat.h:28`. -/
def aclErrorStorageOverLimit : Int := 500006

/-- `guard_memory`, `mem_limiter.c:64-86`; the recursion guard does not change the result. -/
def guardMemory (memoryQuota : Int) (used requested : Nat) : Int :=
  if memoryCheck memoryQuota used requested then 0 else aclErrorStorageOverLimit

/-- `on_mem_alloc`, `mcs_mem.c:56-59`. -/
def onMemAlloc (used size : Nat) : Nat :=
  (used + size) % 2 ^ 64

/-- `on_mem_free`, `mcs_mem.c:62-69`. -/
def onMemFree (used size : Nat) : Nat :=
  if used < size then 0 else used - size

/-! ### The hooks -/

/-- `g_mem_hooks_active`, `g_mem_track` and `g_mem_used_local`. -/
structure MemHooks where
  active : Bool
  track : MemTrack
  usedLocal : Nat

/-- What becomes of a call of the real function, by its name: `dlsym` does not find it, or it
returns a code, and what then stands where the caller wants the result (`none` if the caller
passed a null pointer). -/
inductive RealCall where
  | missing
  | returned (ret : Int) (result : Option Nat)

def RealCall.code : RealCall → Int
  | .missing => -1
  | .returned ret _ => ret

def MemHooks.record (s : MemHooks) (key size : Nat) : MemHooks :=
  { s with
    track := (memTrackInsert s.track key size).2
    usedLocal :=
      if (memTrackInsert s.track key size).1 ≠ sizeMax then
        onMemAlloc s.usedLocal (memTrackInsert s.track key size).1
      else s.usedLocal }

/-- The hook of an allocation function `name` that returns a pointer. -/
def allocHook (name : String) (memoryQuota : Int) (s : MemHooks) (size : Nat)
    (real : String → RealCall) : Int × MemHooks :=
  if !s.active then ((real name).code, s)
  else if guardMemory memoryQuota s.usedLocal size ≠ 0 then
    (guardMemory memoryQuota s.usedLocal size, s)
  else
    match real name with
    | .missing => (-1, s)
    | .returned ret none => (ret, s)
    | .returned ret (some ptr) =>
      if ret = 0 ∧ ptr ≠ 0 then (ret, s.record ptr size) else (ret, s)

/-- `memory.c:128-159`. -/
def rtMalloc := allocHook "rtMalloc"

/-- `memory.c:161-191`. -/
def rtMallocCached := allocHook "rtMallocCached"

/-- `memory.c:193-223`. -/
def rtDvppMalloc := allocHook "rtDvppMalloc"

/-- `memory.c:225-255`. -/
def rtDvppMallocWithFlag := allocHook "rtDvppMallocWithFlag"

/-- `memory.c:257-288`. -/
def rtMemAlloc := allocHook "rtMemAlloc"

/-- `memory.c:290-320`. -/
def rtMemAllocManaged := allocHook "rtMemAllocManaged"

def freeHook (name : String) (s : MemHooks) (devPtr : Nat) (real : String → RealCall) :
    Int × MemHooks :=
  if !s.active then ((real name).code, s)
  else
    match real name with
    | .missing => (-1, s)
    | .returned ret _ =>
      if ret = 0 ∧ devPtr ≠ 0 then
        (ret,
          { s with
            track := (memTrackErase s.track devPtr).2
            usedLocal := onMemFree s.usedLocal (memTrackErase s.track devPtr).1 })
      else (ret, s)

/-- `memory.c:354-377`. -/
def rtFree := freeHook "rtFree"

/-- `memory.c:379-402`. -/
def rtDvppFree := freeHook "rtDvppFree"

/-- `memory.c:404-427`. -/
def rtMemFree := freeHook "rtMemFree"

def MemHooks.init (active : Bool) : MemHooks where
  active := active
  track := fun _ => ⟨0, 0⟩
  usedLocal := 0

end UbsVirt.Mcs
