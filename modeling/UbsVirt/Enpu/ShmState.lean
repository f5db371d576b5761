import UbsVirt.Enpu.Common
import UbsVirt.Enpu.Tlsf

/-!
# The shared state of a die

`shm_state_t` is the memory that the manager and the runtime processes of one die share:
one entry per vNPU with its process slots, the swap command the manager writes and the
swap-out request the processes write. Source: `enpu-manager/core/include/shm_manager.h`,
`enpu-manager/core/src/shm_manager.c` (the runtime's copy of the header is the same).

Byte counters and the epoch counter are natural numbers; only a subtraction can leave
their range, and it wraps as the 64-bit atomics do (`subU64`).
-/

namespace UbsVirt.Enpu

open Function

def subU64 (a b : Nat) : Nat :=
  if b ≤ a then a - b else a + 2 ^ 64 - b

theorem subU64_of_le {a b : Nat} (h : b ≤ a) : subU64 a b = a - b := by
  simp [subU64, h]

def Slot : Type := Fin maxProcessesPerVnpu
  deriving DecidableEq

def Slot.first : Slot := ⟨0, by decide⟩

/-- `process_entry_t`, `shm_manager.h:43-57`; ids of the process are only logged. -/
structure ProcessEntry where
  active : Bool
  swapped : Bool
  lastHeartbeatNs : Nat
  hbmUsed : Nat
  swapOffset : Nat
  swapSize : Nat
  ackPendingSeq : Nat
  deriving DecidableEq, Repr

/-- An empty slot, as `shm_state_posix_shm_create` and `build_shm_entry` leave it. -/
def ProcessEntry.empty : ProcessEntry :=
  { active := false, swapped := false, lastHeartbeatNs := 0, hbmUsed := 0
    swapOffset := 0, swapSize := 0, ackPendingSeq := 0 }

/-- `vnpu_shm_entry_t`. -/
structure VnpuShmEntry where
  vnpuId : Int
  hbmRequest : UInt64
  hbmLimit : UInt64
  hbmUsed : Nat
  schedPolicy : Int
  swapEnabled : Bool
  swapPriority : Int
  processes : Slot → ProcessEntry

def VnpuShmEntry.zero : VnpuShmEntry :=
  { vnpuId := 0, hbmRequest := 0, hbmLimit := 0, hbmUsed := 0, schedPolicy := 0
    swapEnabled := false, swapPriority := 0, processes := fun _ => .empty }

/-- `SWAP_ACTION_NONE`, `SWAP_ACTION_OUT`, `SWAP_ACTION_IN`. -/
inductive SwapAction where
  | none
  | out
  | in
  deriving DecidableEq, Repr

/-- `SWAP_OUT_NONE`, `SWAP_OUT_FROM_BORROWED`, `SWAP_OUT_FROM_ALL`. -/
inductive SwapOutFlag where
  | none
  | fromBorrowed
  | fromAll
  deriving DecidableEq, Repr

/-- `swap_cmd_t`; the pod name and the time stamp are only logged. -/
structure SwapCmd where
  targetVnpuId : Nat
  action : SwapAction
  completed : Bool
  refcount : Int
  cmdSeq : Nat
  deriving DecidableEq, Repr

/-- `swap_out_cmd_t`. -/
structure SwapOutCmd where
  targetVnpuId : Nat
  action : SwapOutFlag
  completed : Bool
  deriving DecidableEq, Repr

/-- `shm_state_t`. Bit `v` of `vnpu_bitmap` is `vnpuBitmap v`; indices of
`maxVnpuPerDie` and more are never used. -/
structure ShmState where
  shmId : String
  hbmTotal : UInt64
  entries : Nat → VnpuShmEntry
  vnpuBitmap : Nat → Bool
  swapCmd : SwapCmd
  swapOutCmd : SwapOutCmd

namespace ShmState

/-- `shm_state_posix_shm_create`, `shm_manager.c:943-1030`: zeroed memory. Both completed
flags start as `false`; `shm_manager_init_state` sets them. -/
def create (dieId : String) : ShmState :=
  { shmId := dieId
    hbmTotal := 0
    entries := fun _ => .zero
    vnpuBitmap := fun _ => false
    swapCmd := { targetVnpuId := 0, action := .none, completed := false, refcount := 0, cmdSeq := 0 }
    swapOutCmd := { targetVnpuId := 0, action := .none, completed := false } }

def bitmapTest (st : ShmState) (v : Nat) : Bool :=
  decide (v < maxVnpuPerDie) && st.vnpuBitmap v

/-- `find_entry`, `shm_manager.c:501-516`. -/
def findEntry (st : ShmState) (v : Nat) : Option VnpuShmEntry :=
  if st.bitmapTest v then some (st.entries v) else none

def slot (st : ShmState) (v : Nat) (i : Slot) : ProcessEntry :=
  (st.entries v).processes i

def modifyEntry (st : ShmState) (v : Nat) (f : VnpuShmEntry → VnpuShmEntry) : ShmState :=
  { st with entries := update st.entries v (f (st.entries v)) }

def modifySlot (st : ShmState) (v : Nat) (i : Slot) (f : ProcessEntry → ProcessEntry) :
    ShmState :=
  st.modifyEntry v fun e => { e with processes := update e.processes i (f (e.processes i)) }

/-- `shm_manager_add_entry`, `shm_manager.c:410-443`. -/
def addEntry (st : ShmState) (v : Nat) (e : VnpuShmEntry) : Status × ShmState :=
  if maxVnpuPerDie ≤ v then (.invalidParam, st)
  else if st.bitmapTest v then (.alreadyExists, st)
  else
    (.success,
      { st with
        entries := update st.entries v e
        vnpuBitmap := update st.vnpuBitmap v true })

/-- `shm_manager_remove_entry`, `shm_manager.c:445-477`: only the id and the bitmap bit are
cleared, the rest of the entry stays in memory. -/
def removeEntry (st : ShmState) (v : Nat) : Status × ShmState :=
  if maxVnpuPerDie ≤ v then (.invalidParam, st)
  else if !st.bitmapTest v then (.notFound, st)
  else
    (.success,
      { st.modifyEntry v (fun e => { e with vnpuId := -1 }) with
        vnpuBitmap := update st.vnpuBitmap v false })

/-- `shm_manager_init_state`, `shm_manager.c:479-499`. -/
def initState (st : ShmState) (hbmTotal : UInt64) : ShmState :=
  { st with
    hbmTotal := hbmTotal
    swapCmd := { st.swapCmd with completed := true }
    swapOutCmd := { st.swapOutCmd with completed := true } }

section

variable (st : ShmState) (v w : Nat) (i j : Slot)

theorem slot_modifySlot (f : ProcessEntry → ProcessEntry) :
    (st.modifySlot v i f).slot w j = if w = v ∧ j = i then f (st.slot v i) else st.slot w j := by
  unfold slot modifySlot modifyEntry
  by_cases hw : w = v
  · subst hw
    by_cases hj : j = i
    · subst hj; simp
    · simp [hj]
  · simp [hw]

@[simp]
theorem slot_modifySlot_self (f : ProcessEntry → ProcessEntry) :
    (st.modifySlot v i f).slot v i = f (st.slot v i) := by
  simp [slot_modifySlot]

variable {st v i} in
theorem slot_modifySlot_of_ne {f : ProcessEntry → ProcessEntry} {w : Nat} {j : Slot}
    (hne : w ≠ v ∨ j ≠ i) : (st.modifySlot v i f).slot w j = st.slot w j := by
  rw [slot_modifySlot, if_neg]
  rintro ⟨rfl, rfl⟩
  exact hne.elim (· rfl) (· rfl)

theorem slot_modifyEntry {f : VnpuShmEntry → VnpuShmEntry}
    (hf : ∀ e, (f e).processes = e.processes) : (st.modifyEntry v f).slot w j = st.slot w j := by
  unfold slot modifyEntry
  by_cases hw : w = v
  · subst hw
    simp [hf]
  · simp [hw]

variable {st v i} in
@[simp]
theorem hbmUsed_modifySlot (w : Nat) (f : ProcessEntry → ProcessEntry) :
    ((st.modifySlot v i f).entries w).hbmUsed = (st.entries w).hbmUsed := by
  unfold modifySlot modifyEntry
  by_cases hw : w = v
  · subst hw
    simp
  · simp [hw]

@[simp]
theorem bitmapTest_modifySlot (f : ProcessEntry → ProcessEntry) :
    (st.modifySlot v i f).bitmapTest w = st.bitmapTest w := rfl

end

end ShmState

/-- Release the swap buffer recorded in a slot, `shm_free_per_process`,
`shm_manager.c:1608-1623`. -/
def shmFreePerProcess (ps : Tlsf.Pool × ShmState) (v : Nat) (i : Slot) : Tlsf.Pool × ShmState :=
  let pe := ps.2.slot v i
  if pe.swapSize = 0 then ps
  else
    (Tlsf.free ps.1 pe.swapOffset,
      ps.2.modifySlot v i fun pe => { pe with swapOffset := 0, swapSize := 0 })

def allSlots : List Slot :=
  List.finRange maxProcessesPerVnpu

theorem mem_allSlots (i : Slot) : i ∈ allSlots :=
  List.mem_finRange i

/-- `shm_free`, `shm_manager.c:1637-1648`: release the buffers of every slot of a vNPU. -/
def shmFree (ps : Tlsf.Pool × ShmState) (v : Nat) : Tlsf.Pool × ShmState :=
  if maxVnpuPerDie ≤ v then ps
  else allSlots.foldl (fun ps i => shmFreePerProcess ps v i) ps

/-- What releasing one buffer keeps, releasing the buffers of a vNPU keeps. -/
theorem shmFree_induction {P : Tlsf.Pool × ShmState → Prop} {ps : Tlsf.Pool × ShmState} (v : Nat)
    (h : P ps) (hstep : ∀ qs i, P qs → P (shmFreePerProcess qs v i)) : P (shmFree ps v) := by
  unfold shmFree
  split
  · exact h
  · exact List.foldlRecOn allSlots _ h fun qs hqs i _ => hstep qs i hqs

section

variable (ps : Tlsf.Pool × ShmState)

theorem slot_shmFreePerProcess_of_ne {v w : Nat} {i j : Slot}
    (hne : w ≠ v ∨ j ≠ i) : (shmFreePerProcess ps v i).2.slot w j = ps.2.slot w j := by
  simp only [shmFreePerProcess]
  split
  · rfl
  · dsimp only
    exact ShmState.slot_modifySlot_of_ne hne

theorem slot_shmFree_of_ne {v w : Nat} (j : Slot) (hne : w ≠ v) :
    (shmFree ps v).2.slot w j = ps.2.slot w j :=
  shmFree_induction (P := fun qs => qs.2.slot w j = ps.2.slot w j) v rfl fun qs i hqs => by
    rw [slot_shmFreePerProcess_of_ne qs (.inl hne), hqs]

@[simp]
theorem vnpuBitmap_shmFreePerProcess (v : Nat) (i : Slot) :
    (shmFreePerProcess ps v i).2.vnpuBitmap = ps.2.vnpuBitmap := by
  simp only [shmFreePerProcess]
  split <;> rfl

@[simp]
theorem vnpuBitmap_shmFree (v : Nat) : (shmFree ps v).2.vnpuBitmap = ps.2.vnpuBitmap :=
  shmFree_induction (P := fun qs => qs.2.vnpuBitmap = ps.2.vnpuBitmap) v rfl fun qs i hqs => by
    rw [vnpuBitmap_shmFreePerProcess, hqs]

@[simp]
theorem swapCmd_shmFreePerProcess (v : Nat) (i : Slot) :
    (shmFreePerProcess ps v i).2.swapCmd = ps.2.swapCmd := by
  simp only [shmFreePerProcess]
  split <;> rfl

@[simp]
theorem swapCmd_shmFree (v : Nat) : (shmFree ps v).2.swapCmd = ps.2.swapCmd :=
  shmFree_induction (P := fun qs => qs.2.swapCmd = ps.2.swapCmd) v rfl fun qs i hqs => by
    rw [swapCmd_shmFreePerProcess, hqs]

@[simp]
theorem swapOutCmd_shmFreePerProcess (v : Nat) (i : Slot) :
    (shmFreePerProcess ps v i).2.swapOutCmd = ps.2.swapOutCmd := by
  simp only [shmFreePerProcess]
  split <;> rfl

end

end UbsVirt.Enpu
