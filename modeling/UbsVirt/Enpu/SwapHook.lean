import Mathlib.Algebra.Order.Floor.Div
import Mathlib.Data.PNat.Defs
import UbsVirt.Enpu.SwapCommand

/-!
# Memory records and swapping in the runtime

A runtime process keeps a record of every block of device memory it hands out. Swapping
out copies the records one after the other into the process's range of the swap buffer and
gives their device memory back; swapping in brings the records back, each on its own. What
the calls into the device runtime return is an argument here. Source:
`vcann-rt/src/memory_tracker.c`, `swap_executor.c`, `swap_hook.c:55-285`,
`swap_monitor_thread.c:43-170`.
-/

namespace UbsVirt.Enpu

/-- Round up to the allocation granularity, `swap_executor.c:154`. -/
def alignUp (g : ℕ+) (size : Nat) : Nat :=
  (size + g - 1) / g * g

theorem le_alignUp (g : ℕ+) (size : Nat) : size ≤ alignUp g size := by
  have h : size ≤ (g : Nat) • (size ⌈/⌉ (g : Nat)) := le_smul_ceilDiv g.pos
  rwa [Nat.ceilDiv_eq_add_pred_div, smul_eq_mul, Nat.mul_comm] at h

theorem dvd_alignUp (g : ℕ+) (size : Nat) : (g : Nat) ∣ alignUp g size :=
  Nat.dvd_mul_left _ _

/-- A multiple of the granularity is not rounded. -/
theorem alignUp_of_dvd {g : ℕ+} {size : Nat} (h : (g : Nat) ∣ size) : alignUp g size = size := by
  have hg := g.pos
  obtain ⟨k, rfl⟩ := h
  rw [Nat.mul_comm]
  unfold alignUp
  have hsplit : k * (g : Nat) + g - 1 = (g - 1) + k * (g : Nat) := by omega
  rw [hsplit, Nat.add_mul_div_right _ _ hg, Nat.div_eq_of_lt (by omega), Nat.zero_add]

/-- Rounding up does not pass a multiple of the granularity. -/
theorem alignUp_le {g : ℕ+} {size m : Nat} (hm : (g : Nat) ∣ m) (h : size ≤ m) :
    alignUp g size ≤ m := by
  rw [← alignUp_of_dvd hm]
  exact Nat.mul_le_mul_right _ (Nat.div_le_div_right (by omega))

/-- `memory_record_t`. `memory_tracker_add` refuses empty blocks. The handle is only passed
to the device runtime and the time stamp is only logged. -/
structure Record where
  ptr : Nat
  size : Nat
  size_pos : 0 < size
  physical : Bool
  swapped : Bool
  swapOffset : Nat
  deriving DecidableEq

namespace Record

def markSwapped (r : Record) (offset : Nat) : Record :=
  { r with swapped := true, swapOffset := offset }

/-- `memory_tracker_mark_active`, on the record of the pointer. -/
def markActive (r : Record) : Record :=
  { r with swapped := false, swapOffset := 0 }

def grow (g : ℕ+) (r : Record) : Record :=
  { r with size := alignUp g r.size, size_pos := r.size_pos.trans_le (le_alignUp g r.size) }

/-- How bringing one record back ends: all calls succeed; a call fails before the new memory
is mapped; a call fails after the size was rounded up. -/
inductive Restore where
  | ok
  | failed
  | failedAfterMap
  deriving DecidableEq, Repr

/-- The loop body of `swap_hook_check_and_swap_in`, `swap_hook.c:163-190`, with
`swap_executor_swap_in` and `swap_executor_swap_in_physical`. Physical memory keeps the
size it was allocated with. -/
def swapIn (g : ℕ+) (outcome : Restore) (r : Record) : Record :=
  if !r.swapped then r
  else match outcome with
    | .ok => if r.physical then r.markActive else (r.grow g).markActive
    | .failed => r
    | .failedAfterMap => if r.physical then r else r.grow g

/-- The loop body of `swap_executor_swap_out`, `swap_executor.c:58-125`: the record, the next
offset and the bytes swapped so far. A call that fails leaves the record as it was. -/
def swapOut (ok : Bool) (offset act : Nat) (r : Record) : Record × Nat × Nat :=
  if r.swapped || !ok then (r, offset, act)
  else (r.markSwapped offset, offset + r.size, act + r.size)

end Record

/-- How `memory_tracker_add` ends: the table or its map is full; the record is stored; the
record is stored but the table could not be grown, which is reported as a failure. -/
inductive TrackerAdd where
  | full
  | stored
  | expandFails
  deriving DecidableEq, Repr

/-- `memory_tracker_add`, `memory_tracker.c:135-176`: success, and the records. -/
def trackerAdd (outcome : TrackerAdd) (records : List Record) (ptr size : Nat) (physical : Bool) :
    Bool × List Record :=
  if h : ptr = 0 ∨ size = 0 then (false, records)
  else
    let r : Record := { ptr, size, size_pos := Nat.pos_of_ne_zero (not_or.mp h).2, physical
                        swapped := false, swapOffset := 0 }
    match outcome with
    | .full => (false, records)
    | .stored => (true, records ++ [r])
    | .expandFails => (false, records ++ [r])

def trackerFind (records : List Record) (ptr : Nat) : Option Record :=
  records.find? (·.ptr == ptr)

def trackerRemove (records : List Record) (ptr : Nat) : List Record :=
  records.eraseP (·.ptr == ptr)

namespace ShmState

/-- Count new bytes for the process and its vNPU, `swap_hook.c:69-77`; a vNPU without an
entry is not counted. -/
def addUsed (st : ShmState) (v : Nat) (i : Slot) (size : Nat) : ShmState :=
  if st.bitmapTest v then
    (st.modifyEntry v fun e => { e with hbmUsed := e.hbmUsed + size }).modifySlot v i
      fun pe => { pe with hbmUsed := pe.hbmUsed + size }
  else st

/-- Take back bytes, `swap_hook.c:237-244`. -/
def subUsed (st : ShmState) (v : Nat) (i : Slot) (size : Nat) : ShmState :=
  if st.bitmapTest v then
    (st.modifyEntry v fun e => { e with hbmUsed := subU64 e.hbmUsed size }).modifySlot v i
      fun pe => { pe with hbmUsed := subU64 pe.hbmUsed size }
  else st

/-- `my_entry->swap_size = act_swapped`, `swap_monitor_thread.c:120`. -/
def publishSwapSize (st : ShmState) (v : Nat) (i : Slot) (act : Nat) : ShmState :=
  st.modifySlot v i fun pe => { pe with swapSize := act }

/-- `swap_monitor_thread.c:122-134`: the bytes leave both counters, at most down to zero, and
the process counts as swapped out. -/
def finishSwapOut (st : ShmState) (v : Nat) (i : Slot) (act : Nat) : ShmState :=
  (st.modifyEntry v fun e => { e with hbmUsed := e.hbmUsed - min act e.hbmUsed }).modifySlot v i
    fun pe => { pe with hbmUsed := pe.hbmUsed - min act pe.hbmUsed, swapped := true }

/-- `swap_hook.c:196-206`: the recorded bytes come back, whatever was restored. -/
def finishSwapIn (st : ShmState) (v : Nat) (i : Slot) (used : Nat) : ShmState :=
  if used = 0 then st
  else
    let st₁ := st.modifySlot v i fun pe => { pe with hbmUsed := pe.hbmUsed + used }
    let st₂ := if st₁.bitmapTest v then
        st₁.modifyEntry v fun e => { e with hbmUsed := e.hbmUsed + used }
      else st₁
    st₂.modifySlot v i fun pe => { pe with swapped := false }

section

variable {st : ShmState} {v : Nat} {i : Slot}

theorem finishSwapIn_eq {used : Nat} (hused : used ≠ 0) : st.finishSwapIn v i used =
    (st.modifyEntry v fun e => { e with
      hbmUsed := if st.bitmapTest v then e.hbmUsed + used else e.hbmUsed }).modifySlot v i
        fun pe => { pe with hbmUsed := pe.hbmUsed + used, swapped := false } := by
  unfold finishSwapIn
  simp only [hused, if_false, bitmapTest_modifySlot]
  by_cases hbit : st.bitmapTest v = true <;> simp [modifySlot, modifyEntry, hbit]

theorem counted_addUsed (size : Nat) : Counted st (st.addUsed v i size) v i := by
  unfold addUsed
  split
  · exact .modify (fun _ => rfl) fun _ => ⟨rfl, rfl, rfl⟩
  · exact .refl st v i

theorem counted_subUsed (size : Nat) : Counted st (st.subUsed v i size) v i := by
  unfold subUsed
  split
  · exact .modify (fun _ => rfl) fun _ => ⟨rfl, rfl, rfl⟩
  · exact .refl st v i

theorem counted_finishSwapOut (act : Nat) : Counted st (st.finishSwapOut v i act) v i :=
  .modify (fun _ => rfl) fun _ => ⟨rfl, rfl, rfl⟩

theorem counted_finishSwapIn (used : Nat) : Counted st (st.finishSwapIn v i used) v i := by
  by_cases hused : used = 0
  · rw [finishSwapIn, if_pos hused]
    exact .refl st v i
  · rw [finishSwapIn_eq hused]
    exact .modify (fun _ => rfl) fun _ => ⟨rfl, rfl, rfl⟩

end

end ShmState

end UbsVirt.Enpu
