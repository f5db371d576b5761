import UbsVirt.Enpu.ShmState

/-!
# Swap commands and their acknowledgements

The manager asks the processes of a vNPU to swap out by a command in the shared state: it
takes the next epoch number, marks every active slot of the vNPU with it, and the command
is complete once no slot carries the mark. Completion is decided by the manager (the
proxy acknowledgement and the marker scan of the watchdog) and by the runtime (the last
process that acknowledges). Source: `enpu-manager/core/src/shm_manager.c:594-885`,
`vcann-rt/src/shm_manager.c:245-319`, `vcann-rt/src/npu_manager.c:260-331`.
-/

namespace UbsVirt.Enpu

namespace ShmState

/-- The epoch a slot still has to acknowledge, `ack_pending_seq`. -/
def marker (st : ShmState) (v : Nat) (i : Slot) : Nat :=
  (st.slot v i).ackPendingSeq

def anySlot (st : ShmState) (v : Nat) (p : ProcessEntry → Bool) : Bool :=
  allSlots.any fun i => p (st.slot v i)

theorem anySlot_eq_false {st : ShmState} {v : Nat} {p : ProcessEntry → Bool} :
    st.anySlot v p = false ↔ ∀ i, p (st.slot v i) = false := by
  unfold anySlot
  rw [List.any_eq_false]
  exact ⟨fun h i => by simpa using h i (mem_allSlots i), fun h i _ => by simp [h i]⟩

/-! ### The manager -/

def markActive (st : ShmState) (v : Nat) (seq : Nat) : ShmState :=
  st.modifyEntry v fun e =>
    { e with
      processes := fun i =>
        if (e.processes i).active then { e.processes i with ackPendingSeq := seq }
        else e.processes i }

/-- `shm_manager_write_swap_cmd`, `shm_manager.c:594-660`. A failure to format the name of
the pod is not modelled. -/
def writeSwapCmd (st : ShmState) (v : Nat) (action : SwapAction) (toSwapOut : SwapOutFlag) :
    Status × ShmState :=
  if maxVnpuPerDie ≤ v then (.invalidParam, st)
  else
    let swapOutCmd :=
      if toSwapOut ≠ .none then { st.swapOutCmd with targetVnpuId := v } else st.swapOutCmd
    match action with
    | .out =>
      let seq := st.swapCmd.cmdSeq + 1
      let count := (allSlots.filter fun i => (st.slot v i).active).length
      (.success,
        { st.markActive v seq with
          swapCmd :=
            { targetVnpuId := v, action := .out, completed := count == 0, refcount := count
              cmdSeq := seq }
          swapOutCmd := swapOutCmd })
    | action =>
      (.success,
        { st with
          swapCmd := { st.swapCmd with targetVnpuId := v, action := action, completed := false }
          swapOutCmd := swapOutCmd })

/-- `swap_cmd_has_pending_ack_locked`, `shm_manager.c:694-707`: a vNPU that is not in the
bitmap has no entry, hence no pending acknowledgement. -/
def hasPendingAck (st : ShmState) (v : Nat) (seq : Nat) : Bool :=
  st.bitmapTest v && st.anySlot v (·.ackPendingSeq == seq)

/-- `swap_cmd_mark_completed_locked`, `shm_manager.c:711-718`, and the runtime's
`shm_ack_swap_cmd`, which does the same. -/
def markCompleted (st : ShmState) : ShmState :=
  { st with
    swapCmd := { st.swapCmd with completed := true, action := .none }
    swapOutCmd :=
      if st.swapCmd.targetVnpuId = st.swapOutCmd.targetVnpuId then
        { st.swapOutCmd with completed := true }
      else st.swapOutCmd }

/-- Clear the mark of a slot (`atomic_exchange(&ack_pending_seq, 0)`). -/
def clearMarker (st : ShmState) (v : Nat) (i : Slot) : ShmState :=
  st.modifySlot v i fun pe => { pe with ackPendingSeq := 0 }

/-- Count one acknowledgement (`atomic_fetch_sub(&refcount, 1)`). -/
def decRefcount (st : ShmState) : ShmState :=
  { st with swapCmd := { st.swapCmd with refcount := st.swapCmd.refcount - 1 } }

/-- `shm_manager_proxy_ack_process`, `shm_manager.c:740-791`. -/
def proxyAckProcess (st : ShmState) (v : Nat) (i : Slot) : ShmState :=
  if maxVnpuPerDie ≤ v then st
  else if st.swapCmd.action ≠ .out then st
  else if st.swapCmd.cmdSeq = 0 then st
  else if st.marker v i ≠ st.swapCmd.cmdSeq then st.clearMarker v i
  else
    let st₁ := (st.clearMarker v i).decRefcount
    if st₁.hasPendingAck v st.swapCmd.cmdSeq then st₁ else st₁.markCompleted

/-- `shm_manager_try_complete_swap_cmd`, `shm_manager.c:793-831`. -/
def tryCompleteSwapCmd (st : ShmState) : ShmState :=
  if st.swapCmd.completed ∨ st.swapCmd.action ≠ .out then st
  else if st.swapCmd.cmdSeq = 0 ∨ maxVnpuPerDie ≤ st.swapCmd.targetVnpuId then st
  else if st.hasPendingAck st.swapCmd.targetVnpuId st.swapCmd.cmdSeq then st
  else st.markCompleted

/-- `shm_manager_get_vnpu_all_swapped`, `shm_manager.c:833-877`: there is an active process
and all of them are swapped. A vNPU without an entry leaves the caller's `false`. -/
def vnpuAllSwapped (st : ShmState) (v : Nat) : Bool :=
  st.bitmapTest v && st.anySlot v (·.active) && !st.anySlot v (fun pe => pe.active && !pe.swapped)

/-! ### The runtime -/

/-- `shm_swap_ack_done`, `vcann-rt/src/shm_manager.c:259-279`. -/
def swapAckDone (st : ShmState) (v : Nat) (seq : Nat) : Bool :=
  if maxVnpuPerDie ≤ v then false
  else if seq = 0 then true
  else !st.anySlot v (·.ackPendingSeq == seq)

/-- `swap_cmd_finish_if_epoch`, `vcann-rt/src/shm_manager.c:281-296`. -/
def finishIfEpoch (st : ShmState) (v : Nat) (seq : Nat) : ShmState :=
  if st.swapCmd.cmdSeq ≠ seq then st
  else if st.swapCmd.action ≠ .out then st
  else if !st.swapAckDone v seq then st
  else st.markCompleted

/-- `shm_try_ack_swap_cmd`, `vcann-rt/src/shm_manager.c:298-319`: the acknowledgements that
remain by the reference count, or `-1`. -/
def tryAckSwapCmd (st : ShmState) (v : Nat) (i : Slot) (seq : Nat) : Int × ShmState :=
  if maxVnpuPerDie ≤ v ∨ seq = 0 then (-1, st)
  else if st.marker v i ≠ seq then (-1, st.clearMarker v i)
  else
    let st₁ := (st.clearMarker v i).decRefcount
    (if 0 < st.swapCmd.refcount then st.swapCmd.refcount - 1 else 0, st₁.finishIfEpoch v seq)

/-- `register_to_shm_state`, `vcann-rt/src/npu_manager.c:260-306`: the process takes the first
slot that is not active; what the slot recorded of an earlier process is overwritten. -/
def registerProcess (st : ShmState) (v : Nat) (now : Nat) : Option Slot × ShmState :=
  if maxVnpuPerDie ≤ v then (none, st)
  else match allSlots.find? fun i => !(st.slot v i).active with
    | none => (none, st)
    | some i =>
      (some i, st.modifySlot v i fun _ => { ProcessEntry.empty with
        active := true
        lastHeartbeatNs := now })

theorem registerProcess_some {st st' : ShmState} {v now : Nat} {i : Slot}
    (h : st.registerProcess v now = (some i, st')) :
    (st.slot v i).active = false ∧ st' = st.modifySlot v i fun _ =>
      { ProcessEntry.empty with active := true, lastHeartbeatNs := now } := by
  unfold registerProcess at h
  split at h
  · cases h
  split at h
  · cases h
  next j hj =>
  cases h
  have hfree := List.find?_some hj
  exact ⟨by simpa using hfree, rfl⟩

/-- `unregister_from_shm_state`, `vcann-rt/src/npu_manager.c:308-331`. -/
def unregisterProcess (st : ShmState) (v : Nat) (i : Slot) : ShmState :=
  if maxVnpuPerDie ≤ v then st
  else
    let remaining := (st.slot v i).hbmUsed
    (st.modifyEntry v fun e => { e with hbmUsed := subU64 e.hbmUsed remaining }).modifySlot v i
      fun pe => { pe with hbmUsed := 0, swapped := false, active := false }

/-! ### What the functions leave alone -/

section

variable {st st' : ShmState} {v w : Nat} {i j : Slot}

/-- An acknowledgement writes no more to the slots than the mark of its own one. -/
structure Acked (st st' : ShmState) (v : Nat) (i : Slot) : Prop where
  entries : st'.entries = st.entries ∨ st'.entries = (st.clearMarker v i).entries
  bitmap : st'.vnpuBitmap = st.vnpuBitmap

theorem acked_proxyAckProcess : Acked st (st.proxyAckProcess v i) v i := by
  simp only [proxyAckProcess]
  repeat' split
  iterate 3 exact ⟨.inl rfl, rfl⟩
  all_goals exact ⟨.inr rfl, rfl⟩

theorem acked_tryAckSwapCmd {seq : Nat} : Acked st (st.tryAckSwapCmd v i seq).2 v i := by
  simp only [tryAckSwapCmd, finishIfEpoch]
  repeat' split
  · exact ⟨.inl rfl, rfl⟩
  all_goals exact ⟨.inr rfl, rfl⟩

theorem Acked.slot_of_ne (h : Acked st st' v i) (hne : w ≠ v ∨ j ≠ i) :
    st'.slot w j = st.slot w j := by
  unfold slot
  rcases h.entries with heq | heq
  · rw [heq]
  · rw [heq]
    exact slot_modifySlot_of_ne hne

theorem Acked.keeps {α : Type} (h : Acked st st' v i) (f : ProcessEntry → α)
    (hf : ∀ pe, f { pe with ackPendingSeq := 0 } = f pe) (w : Nat) (j : Slot) :
    f (st'.slot w j) = f (st.slot w j) := by
  by_cases hwj : w = v ∧ j = i
  · obtain ⟨rfl, rfl⟩ := hwj
    unfold slot
    rcases h.entries with heq | heq
    · rw [heq]
    · rw [heq]
      exact (congrArg f (slot_modifySlot_self st w j _)).trans (hf _)
  · rw [h.slot_of_ne (by rwa [← not_and_or])]

theorem Acked.hbmUsed (h : Acked st st' v i) (w : Nat) :
    (st'.entries w).hbmUsed = (st.entries w).hbmUsed := by
  rcases h.entries with heq | heq
  · rw [heq]
  · rw [heq]
    exact hbmUsed_modifySlot w _

/-- One slot and the counters change; the slot keeps its range and its mark. -/
structure Counted (st st' : ShmState) (v : Nat) (i : Slot) : Prop where
  cmd : st'.swapCmd = st.swapCmd
  outCmd : st'.swapOutCmd = st.swapOutCmd
  bitmap : st'.vnpuBitmap = st.vnpuBitmap
  others : ∀ w j, w ≠ v ∨ j ≠ i → st'.slot w j = st.slot w j
  offset : (st'.slot v i).swapOffset = (st.slot v i).swapOffset
  size : (st'.slot v i).swapSize = (st.slot v i).swapSize
  mark : (st'.slot v i).ackPendingSeq = (st.slot v i).ackPendingSeq

theorem Counted.refl (st : ShmState) (v : Nat) (i : Slot) : Counted st st v i :=
  ⟨rfl, rfl, rfl, fun _ _ _ => rfl, rfl, rfl, rfl⟩

theorem Counted.modify {e : VnpuShmEntry → VnpuShmEntry} {f : ProcessEntry → ProcessEntry}
    (he : ∀ x, (e x).processes = x.processes) (hf : ∀ pe, (f pe).swapOffset = pe.swapOffset ∧
      (f pe).swapSize = pe.swapSize ∧ (f pe).ackPendingSeq = pe.ackPendingSeq) :
    Counted st ((st.modifyEntry v e).modifySlot v i f) v i := by
  have hself : ((st.modifyEntry v e).modifySlot v i f).slot v i = f (st.slot v i) := by
    rw [slot_modifySlot_self, slot_modifyEntry _ _ _ _ he]
  refine ⟨rfl, rfl, rfl, fun w j hne => ?_, ?_, ?_, ?_⟩
  · rw [slot_modifySlot_of_ne hne, slot_modifyEntry _ _ _ _ he]
  · rw [hself, (hf _).1]
  · rw [hself, (hf _).2.1]
  · rw [hself, (hf _).2.2]

theorem Counted.keeps {α : Type} (h : Counted st st' v i) {f : ProcessEntry → α}
    (hf : f (st'.slot v i) = f (st.slot v i)) (w : Nat) (j : Slot) :
    f (st'.slot w j) = f (st.slot w j) := by
  by_cases hwj : w = v ∧ j = i
  · rw [hwj.1, hwj.2, hf]
  · rw [h.others w j (by rwa [← not_and_or])]

theorem counted_unregisterProcess : Counted st (st.unregisterProcess v i) v i := by
  unfold unregisterProcess
  split
  · exact .refl st v i
  · exact .modify (fun _ => rfl) fun _ => ⟨rfl, rfl, rfl⟩

end

end ShmState

end UbsVirt.Enpu
