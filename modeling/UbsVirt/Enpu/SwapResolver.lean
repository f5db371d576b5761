import UbsVirt.Enpu.Watchdog

/-!
# The swap resolver

One resolver thread per die writes swap-out commands and takes back the swap buffers of
processes that came back. It picks the vNPU to swap out among those that are not the one
that ran last. Before it writes a command it allocates a range of the swap buffer for every
process of the vNPU that will have something to copy. Source:
`enpu-manager/core/src/swap_resolver.c:63-457`, `shm_manager.c:1588-1606`.
-/

namespace UbsVirt.Enpu

/-- `SWAP_BUFFER_ALIGN_SIZE` rounding, `swap_resolver.c:349`. -/
def swapAlign (used : Nat) : Nat :=
  (used + 4095) % 2 ^ 64 / 4096 * 4096

namespace Watched

/-- `shm_alloc_per_process`, `shm_manager.c:1588-1606`. `header` tells whether the header of a
split block could be allocated. -/
def allocSlot (header : Bool) (w : Watched) (v : Nat) (i : Slot) (size : Nat) : Option Watched :=
  if maxVnpuPerDie ≤ v then none
  else if !(w.shm.slot v i).active then none
  else match Tlsf.alloc w.pool size header with
    | none => none
    | some (off, pool) =>
      some { w with
        pool := pool
        shm := w.shm.modifySlot v i fun pe => { pe with swapOffset := off, swapSize := size } }

theorem allocSlot_some {w w' : Watched} {header : Bool} {v : Nat} {i : Slot} {size : Nat}
    (h : w.allocSlot header v i size = some w') :
    ∃ off pool, Tlsf.alloc w.pool size header = some (off, pool) ∧ w' = { w with
      pool := pool
      shm := w.shm.modifySlot v i fun pe => { pe with swapOffset := off, swapSize := size } } := by
  unfold allocSlot at h
  split at h
  · cases h
  split at h
  · cases h
  split at h
  · cases h
  next off pool hpool => exact ⟨off, pool, hpool, (Option.some.inj h).symm⟩

/-- The allocation loop of `swap_resolver_write_swap_command`, lines 331-370: a range for every
active process that is not swapped out and holds memory. The first failure releases the
ranges of this call, `done`. -/
def allocBuffers (header : Slot → Bool) (v : Nat) :
    List Slot → List Slot → Watched → Status × Watched
  | [], _, w => (.success, w)
  | i :: is, done, w =>
    let pe := w.shm.slot v i
    if !pe.active || pe.swapped || pe.hbmUsed == 0 then allocBuffers header v is done w
    else match w.allocSlot (header i) v i (swapAlign pe.hbmUsed) with
      | none => (.fail, done.foldl (fun w j => w.freeSlot v j) w)
      | some w' => allocBuffers header v is (done ++ [i]) w'

/-- `swap_resolver_write_swap_command`, lines 270-374, on a die that has a shared state. -/
def writeSwapCommand (header : Slot → Bool) (w : Watched) (v : Nat) (action : SwapAction)
    (toSwapOut : SwapOutFlag) : Status × Watched :=
  let write (w : Watched) : Status × Watched :=
    ((w.shm.writeSwapCmd v action toSwapOut).1,
      w.onShm fun st => (st.writeSwapCmd v action toSwapOut).2)
  if action ≠ .out then write w
  else if !w.shm.swapCmd.completed then (.success, w)
  else if !w.shm.bitmapTest v then (.notFound, w)
  else if !w.shm.anySlot v (·.active) then (.success, w)
  else match allocBuffers header v allSlots [] w with
    | (.success, w') => write w'
    | failed => failed

/-- The loop body of `swap_resolver_check_and_swap_in`, lines 402-417: the buffer of an active
process that is not swapped out is taken back. -/
def reclaimSlot (w : Watched) (v : Nat) (i : Slot) : Watched :=
  let pe := w.shm.slot v i
  if pe.active && !pe.swapped && pe.swapSize != 0 then w.freeSlot v i else w

/-- `swap_resolver_check_and_swap_in`, lines 376-422; the bitmap is read once. -/
def checkAndSwapIn (w : Watched) : Watched :=
  if !w.shm.swapCmd.completed then w
  else
    ((List.range maxVnpuPerDie).filter w.shm.bitmapTest).foldl
      (fun w v => allSlots.foldl (fun w i => w.reclaimSlot v i) w) w

end Watched

/-- `swap_resolver_is_swap_pending`, lines 443-457. -/
def ShmState.isSwapPending (st : ShmState) : Bool :=
  !st.swapCmd.completed

/-! ### Choosing a vNPU -/

/-- `swap_resolver_check_watermark`, lines 63-111: whether the level is `WATERMARK_PRE_SWAP`.
`reached used total` is the comparison of the ratio with the threshold, in `double`. -/
def ShmState.checkWatermark (reached : Nat → Nat → Bool) (st : ShmState) : Bool :=
  let totalUsed := (((List.range maxVnpuPerDie).filter st.bitmapTest).map
    fun v => (st.entries v).hbmUsed).sum % 2 ^ 64
  if st.hbmTotal = 0 then false else reached totalUsed st.hbmTotal.toNat

/-- `swap_candidate_t`, without the fields that are only logged. -/
structure SwapCandidate where
  vnpuId : Nat
  swapPriority : Int
  hbmUsed : Nat
  lastKernelTimeNs : Nat
  swapped : Bool
  swappable : Bool
  deriving DecidableEq, Repr

/-- The candidate of a vNPU, lines 143-171. Without oversubscription a vNPU is not swappable,
and for a request from borrowed memory it has to hold more than it requested. -/
def ShmState.candidate (st : ShmState) (lastKernelTimeNs : Nat → Nat) (toSwapOut : SwapOutFlag)
    (v : Nat) : SwapCandidate :=
  let e := st.entries v
  { vnpuId := v
    swapPriority := e.swapPriority
    hbmUsed := e.hbmUsed
    lastKernelTimeNs := lastKernelTimeNs v
    swapped := st.vnpuAllSwapped v
    swappable := !(e.hbmRequest == e.hbmLimit ||
      toSwapOut == .fromBorrowed && e.hbmUsed ≤ (e.hbmRequest * 1024 * 1024).toNat) }

/-- The index of the first candidate that ran last, lines 184-190. -/
def newestIdx (cs : List SwapCandidate) : Nat :=
  (cs.zipIdx.foldl (fun best c =>
    if best.1 < c.1.lastKernelTimeNs then (c.1.lastKernelTimeNs, c.2) else best) (0, 0)).2

/-- The last candidate takes the place of the newest one, lines 195-198. -/
def excludeNewest (cs : List SwapCandidate) : List SwapCandidate :=
  match cs.getLast? with
  | none => []
  | some last => (cs.set (newestIdx cs) last).dropLast

/-- `swap_resolver_get_idle_models`, lines 113-225. -/
def ShmState.getIdleModels (st : ShmState) (lastKernelTimeNs : Nat → Nat)
    (toSwapOut : SwapOutFlag) : List SwapCandidate :=
  let collected := (((List.range maxVnpuPerDie).filter st.bitmapTest).take maxVnpuSched).map
    (st.candidate lastKernelTimeNs toSwapOut)
  (excludeNewest collected).filter fun c => c.hbmUsed != 0 && !c.swapped && c.swappable

/-- The loop body of `swap_resolver_select_candidate_from_list`: the larger priority value, and
among equals the one that has not run for longer. -/
def preferred (best : Option SwapCandidate) (c : SwapCandidate) : Option SwapCandidate :=
  match best with
  | none => some c
  | some b =>
    if b.swapPriority < c.swapPriority then some c
    else if c.swapPriority = b.swapPriority ∧ c.lastKernelTimeNs < b.lastKernelTimeNs then some c
    else some b

/-- `swap_resolver_select_candidate_from_list`, lines 227-268. -/
def selectCandidate (cs : List SwapCandidate) : Option SwapCandidate :=
  cs.foldl preferred none

theorem isSome_preferred (best : Option SwapCandidate) (c : SwapCandidate) :
    (preferred best c).isSome = true := by
  unfold preferred
  repeat' split
  all_goals rfl

theorem selectCandidate_isSome {cs : List SwapCandidate} (h : cs ≠ []) :
    (selectCandidate cs).isSome = true := by
  cases cs with
  | nil => exact absurd rfl h
  | cons c cs =>
    exact List.foldlRecOn cs preferred (motive := fun best => best.isSome = true)
      (isSome_preferred none c) fun best _ c _ => isSome_preferred best c

end UbsVirt.Enpu
