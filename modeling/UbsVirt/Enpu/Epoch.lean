import UbsVirt.Enpu.Watchdog
import UbsVirt.Lib.Run

/-!
# Completion of a swap-out epoch

A swap-out command may be reported complete only once no process slot of its vNPU still
owes the acknowledgement of its epoch (`shm_manager.h`, the comment on
`ack_pending_seq`). The acknowledgements only ever clear marks (`Progress`), and they
complete a command whose vNPU is in the bitmap soundly; `shm_manager_init_state`
completes whatever is pending. Source: `enpu-manager/core/src/shm_manager.c:479-831`,
`vcann-rt/src/shm_manager.c:245-319`, `enpu-manager/core/src/pod_watchdog.c:117-278`.
-/

namespace UbsVirt.Enpu

open Run Function

variable {f : ProcessEntry → ProcessEntry} {v : Nat}

namespace ShmState

/-- The slot owes the acknowledgement of the current epoch; number zero is no epoch. -/
def Owes (st : ShmState) (v : Nat) (i : Slot) : Prop :=
  st.swapCmd.cmdSeq ≠ 0 ∧ st.marker v i = st.swapCmd.cmdSeq

instance (st : ShmState) (v : Nat) (i : Slot) : Decidable (st.Owes v i) :=
  inferInstanceAs (Decidable (_ ∧ _))

def Settled (st : ShmState) : Prop :=
  ∀ i, ¬ st.Owes st.swapCmd.targetVnpuId i

/-- The vNPU of the command is in the bitmap, or none of its slots owes. -/
def Listed (st : ShmState) : Prop :=
  st.bitmapTest st.swapCmd.targetVnpuId = true ∨ st.Settled

/-- Marks never run ahead of the epoch, and while a swap-out command stands only slots of
its vNPU carry the epoch. -/
structure EpochInv (st : ShmState) : Prop where
  le : ∀ v i, st.marker v i ≤ st.swapCmd.cmdSeq
  pos : st.swapCmd.action = .out → st.swapCmd.cmdSeq ≠ 0
  target : st.swapCmd.action = .out → ∀ v i, st.marker v i = st.swapCmd.cmdSeq →
    v = st.swapCmd.targetVnpuId

/-- What acknowledging can do to a command: marks are cleared, and the command stands as it
was or a swap-out is completed, soundly if its vNPU was listed. -/
structure Progress (st st' : ShmState) : Prop where
  target : st'.swapCmd.targetVnpuId = st.swapCmd.targetVnpuId
  cmdSeq : st'.swapCmd.cmdSeq = st.swapCmd.cmdSeq
  bitmap : st'.vnpuBitmap = st.vnpuBitmap
  marker : ∀ v i, st'.marker v i = st.marker v i ∨ st'.marker v i = 0
  command : (st'.swapCmd.completed = st.swapCmd.completed ∧
      st'.swapCmd.action = st.swapCmd.action) ∨
    (st.swapCmd.action = .out ∧ st'.swapCmd.completed = true ∧ st'.swapCmd.action = .none ∧
      (st.Listed → st'.Settled))

namespace Progress

variable {st st' st'' : ShmState}

theorem refl (st : ShmState) : Progress st st :=
  ⟨rfl, rfl, rfl, fun _ _ => .inl rfl, .inl ⟨rfl, rfl⟩⟩

theorem settled (h : Progress st st') (hs : st.Settled) : st'.Settled := by
  intro i howes
  obtain ⟨hne, hm⟩ := howes
  rw [h.target, h.cmdSeq] at hm
  rw [h.cmdSeq] at hne
  rcases h.marker st.swapCmd.targetVnpuId i with heq | hz
  · exact hs i ⟨hne, heq ▸ hm⟩
  · exact hne (hm.symm.trans hz)

theorem listed (h : Progress st st') (hl : st.Listed) : st'.Listed := by
  rcases hl with hbit | hs
  · left
    rw [h.target]
    simpa only [bitmapTest, h.bitmap] using hbit
  · exact .inr (h.settled hs)

theorem trans (h : Progress st st') (h' : Progress st' st'') : Progress st st'' where
  target := h'.target.trans h.target
  cmdSeq := h'.cmdSeq.trans h.cmdSeq
  bitmap := h'.bitmap.trans h.bitmap
  marker v i := by
    rcases h'.marker v i with heq | hz
    · rw [heq]; exact h.marker v i
    · exact .inr hz
  command := by
    rcases h'.command with ⟨hc', ha'⟩ | ⟨hout', hc', ha', hs'⟩
    · rcases h.command with ⟨hc, ha⟩ | ⟨hout, hc, ha, hs⟩
      · exact .inl ⟨hc'.trans hc, ha'.trans ha⟩
      · exact .inr ⟨hout, hc'.trans hc, ha'.trans ha, fun hl => h'.settled (hs hl)⟩
    · rcases h.command with ⟨-, ha⟩ | ⟨-, -, ha, -⟩
      · exact .inr ⟨ha ▸ hout', hc', ha', fun hl => hs' (h.listed hl)⟩
      · rw [ha] at hout'; cases hout'

theorem inv (h : Progress st st') (hi : EpochInv st) : EpochInv st' where
  le v i := by
    rw [h.cmdSeq]
    rcases h.marker v i with heq | hz
    · rw [heq]; exact hi.le v i
    · rw [hz]; exact Nat.zero_le _
  pos ha := by
    rw [h.cmdSeq]
    rcases h.command with ⟨-, hact⟩ | ⟨-, -, hnone, -⟩
    · exact hi.pos (hact ▸ ha)
    · rw [hnone] at ha; cases ha
  target ha v i hm := by
    rcases h.command with ⟨-, hact⟩ | ⟨-, -, hnone, -⟩
    swap
    · rw [hnone] at ha; cases ha
    have hout := hact ▸ ha
    rw [h.cmdSeq] at hm
    rcases h.marker v i with heq | hz
    · rw [h.target]
      exact hi.target hout v i (heq ▸ hm)
    · exact absurd (hm.symm.trans hz) (hi.pos hout)

/-- A completion by progress is sound when the vNPU was listed. -/
theorem settled_of_rise (h : Progress st st') (hl : st.Listed)
    (hrise : st.swapCmd.completed = false) (hdone : st'.swapCmd.completed = true) :
    st'.Settled := by
  rcases h.command with ⟨hc, -⟩ | ⟨-, -, -, hs⟩
  · rw [hdone, hrise] at hc; cases hc
  · exact hs hl

/-- Steps that leave the command and the bitmap alone and at most clear marks. -/
theorem of_quiet (hcmd : st'.swapCmd = st.swapCmd) (hbit : st'.vnpuBitmap = st.vnpuBitmap)
    (hmark : ∀ v i, st'.marker v i = st.marker v i ∨ st'.marker v i = 0) : Progress st st' :=
  ⟨by rw [hcmd], by rw [hcmd], hbit, hmark, .inl ⟨by rw [hcmd], by rw [hcmd]⟩⟩

/-- A fold of steps that each make progress from states of the invariant. -/
theorem foldl {α : Type*} {f : Watched → α → Watched}
    (hf : ∀ w a, EpochInv w.shm → Progress w.shm (f w a).shm) (l : List α) (w : Watched)
    (hi : EpochInv w.shm) : Progress w.shm (l.foldl f w).shm := by
  induction l generalizing w with
  | nil => exact refl _
  | cons a l ih =>
    have hstep := hf w a hi
    exact hstep.trans (ih (f w a) (hstep.inv hi))

end Progress

/-! ### What the functions do to the marks -/

section

variable (st : ShmState) (v w : Nat) (i j : Slot)

theorem marker_modifySlot (f : ProcessEntry → ProcessEntry) : (st.modifySlot v i f).marker w j =
      if w = v ∧ j = i then (f (st.slot v i)).ackPendingSeq else st.marker w j := by
  unfold marker
  rw [slot_modifySlot]
  split <;> rfl

theorem marker_modifySlot_of_eq (hf : ∀ pe, (f pe).ackPendingSeq = pe.ackPendingSeq) :
    (st.modifySlot v i f).marker w j = st.marker w j := by
  rw [marker_modifySlot]
  split
  · next h => rw [hf, h.1, h.2]; rfl
  · rfl

theorem marker_modifyEntry {f : VnpuShmEntry → VnpuShmEntry}
    (hf : ∀ e, (f e).processes = e.processes) : (st.modifyEntry v f).marker w j = st.marker w j :=
  congrArg ProcessEntry.ackPendingSeq (slot_modifyEntry st v w j hf)

theorem marker_clearMarker :
    (st.clearMarker v i).marker w j = if w = v ∧ j = i then 0 else st.marker w j :=
  marker_modifySlot st v w i j _

end

namespace Progress

variable {st : ShmState}

theorem clearMarker (v : Nat) (i : Slot) : Progress st (st.clearMarker v i) := by
  refine of_quiet rfl rfl fun w j => ?_
  rw [marker_clearMarker]
  split
  · exact .inr rfl
  · exact .inl rfl

theorem decRefcount : Progress st st.decRefcount :=
  ⟨rfl, rfl, rfl, fun _ _ => .inl rfl, .inl ⟨rfl, rfl⟩⟩

/-- Completing is sound once no slot of the command's vNPU carries the epoch. -/
theorem markCompleted (hout : st.swapCmd.action = .out) (h : st.Listed → st.Settled) :
    Progress st st.markCompleted :=
  ⟨rfl, rfl, rfl, fun _ _ => .inl rfl, .inr ⟨hout, rfl, rfl, h⟩⟩

theorem settled_of_anySlot (htarget : v = st.swapCmd.targetVnpuId)
    (h : st.anySlot v (·.ackPendingSeq == st.swapCmd.cmdSeq) = false) : st.Settled := by
  subst htarget
  intro i howes
  have := anySlot_eq_false.mp h i
  simp only [beq_eq_false_iff_ne] at this
  exact this howes.2

theorem proxyAckProcess (hi : EpochInv st) (v : Nat) (i : Slot) :
    Progress st (st.proxyAckProcess v i) := by
  unfold ShmState.proxyAckProcess
  split
  · exact refl st
  split
  · exact refl st
  next hout =>
  split
  · exact refl st
  next hseq =>
  split
  · exact clearMarker v i
  next hmark =>
  simp only [ne_eq, not_not] at hout hmark
  have hv := hi.target hout v i hmark
  have hclear : Progress st (st.clearMarker v i).decRefcount := (clearMarker v i).trans decRefcount
  simp only
  split
  · exact hclear
  · next hpend =>
    refine hclear.trans (markCompleted hout fun hl => ?_)
    rw [Bool.not_eq_true, hasPendingAck, Bool.and_eq_false_iff] at hpend
    -- without an entry nothing was scanned, but then the vNPU was not listed
    rcases hpend with hbit | hnone
    · rcases hl with hbit' | hs
      · have htarget : (st.clearMarker v i).decRefcount.swapCmd.targetVnpuId = v := hv.symm
        rw [htarget, hbit] at hbit'
        cases hbit'
      · exact hs
    · exact settled_of_anySlot hv hnone

theorem tryCompleteSwapCmd : Progress st st.tryCompleteSwapCmd := by
  unfold ShmState.tryCompleteSwapCmd
  split
  · exact refl st
  next hidle =>
  split
  · exact refl st
  split
  · exact refl st
  next hpend =>
  simp only [not_or, ne_eq, not_not] at hidle
  refine markCompleted hidle.2 fun hl => ?_
  rw [Bool.not_eq_true, hasPendingAck, Bool.and_eq_false_iff] at hpend
  rcases hpend with hbit | hnone
  · rcases hl with hbit' | hs
    · rw [hbit] at hbit'; cases hbit'
    · exact hs
  · exact settled_of_anySlot rfl hnone

theorem shmFreePerProcess (ps : Tlsf.Pool × ShmState) (v : Nat) (i : Slot) :
    Progress ps.2 (shmFreePerProcess ps v i).2 := by
  unfold UbsVirt.Enpu.shmFreePerProcess
  simp only
  split
  · exact refl _
  · refine of_quiet rfl rfl fun w j => .inl ?_
    simp only
    rw [marker_modifySlot_of_eq]
    exact fun _ => rfl

theorem shmFree (ps : Tlsf.Pool × ShmState) (v : Nat) : Progress ps.2 (shmFree ps v).2 := by
  unfold UbsVirt.Enpu.shmFree
  split
  · exact refl _
  · induction allSlots generalizing ps with
    | nil => exact refl _
    | cons i is ih => exact (shmFreePerProcess ps v i).trans (ih _)

end Progress

end ShmState

/-! ### The watchdog makes progress -/

variable {i : Slot}

namespace Watched

open ShmState

variable {w : Watched}

theorem progress_freeSlot (v : Nat) (i : Slot) : Progress w.shm (w.freeSlot v i).shm :=
  Progress.shmFreePerProcess (w.pool, w.shm) v i

theorem progress_proxyAckMarked (hi : EpochInv w.shm) (v : Nat) (i : Slot) :
    Progress w.shm (w.proxyAckMarked v i).shm := by
  unfold proxyAckMarked
  split
  · exact Progress.proxyAckProcess hi v i
  · exact Progress.refl _

theorem progress_cleanupSwapData (v : Nat) : Progress w.shm (w.cleanupSwapData v).shm := by
  unfold cleanupSwapData
  split
  · exact Progress.shmFree (w.pool, w.shm) v
  · exact Progress.refl _

theorem progress_resetRuntimeState (v : Nat) : Progress w.shm (w.resetRuntimeState v).shm := by
  refine Progress.of_quiet rfl rfl fun u j => ?_
  by_cases hu : u = v
  · right
    subst hu
    simp [resetRuntimeState, marker, slot, modifyEntry, ProcessEntry.empty]
  · left
    simp [resetRuntimeState, marker, slot, modifyEntry, hu]

/-- Changing a slot otherwise than in its mark. -/
theorem progress_modifySlot (hf : ∀ pe, (f pe).ackPendingSeq = pe.ackPendingSeq) :
    Progress w.shm (w.onShm (·.modifySlot v i f)).shm :=
  Progress.of_quiet rfl rfl fun u j => .inl (marker_modifySlot_of_eq w.shm v u i j hf)

theorem progress_reapSlot (now timeout : Nat) (hi : EpochInv w.shm) (v : Nat) (i : Slot) :
    Progress w.shm (reapSlot now timeout w v i).shm := by
  have hack := progress_proxyAckMarked hi v i
  unfold reapSlot
  simp only
  split
  · split
    · exact hack.trans (progress_freeSlot v i)
    · exact hack
  split
  · exact Progress.refl _
  split
  · exact progress_modifySlot fun _ => rfl
  split
  · exact Progress.refl _
  · -- a dead process: acknowledge for it, take back its bytes, its buffer and its slot
    refine hack.trans ?_
    generalize w.proxyAckMarked v i = w₁
    have hused : Progress w₁.shm (w₁.onShm fun st => (st.modifyEntry v fun e =>
        { e with hbmUsed := subU64 e.hbmUsed (w.shm.slot v i).hbmUsed }).modifySlot v i
        fun pe => { pe with hbmUsed := 0 }).shm := by
      refine Progress.of_quiet rfl rfl fun u j => .inl ?_
      simp only [onShm]
      rw [marker_modifySlot_of_eq, marker_modifyEntry]
      · exact fun _ => rfl
      · exact fun _ => rfl
    refine hused.trans ?_
    split
    · exact (progress_freeSlot v i).trans (progress_modifySlot fun _ => rfl)
    · exact progress_modifySlot fun _ => rfl

theorem progress_reapDeadProcesses (now timeout : Nat) (hi : EpochInv w.shm) :
    Progress w.shm (w.reapDeadProcesses now timeout).shm := by
  apply Progress.foldl _ _ _ hi
  intro w v hi
  apply Progress.foldl _ _ _ hi
  intro w i hi
  exact progress_reapSlot now timeout hi v i

theorem progress_pollVnpu (now : Nat) (hi : EpochInv w.shm) (v : Nat) :
    Progress w.shm (pollVnpu now w v).shm := by
  unfold pollVnpu
  split
  · exact Progress.refl _
  split
  · exact Progress.refl _
  split
  · exact Progress.refl _
  split
  · exact Progress.refl _
  split
  · exact Progress.refl _
  · have hclean : Progress w.shm (if w.shm.vnpuAllSwapped v then w.cleanupSwapData v else w).shm := by
      split
      · exact progress_cleanupSwapData v
      · exact Progress.refl _
    have hacks := Progress.foldl (fun w i hi => progress_proxyAckMarked hi v i) allSlots _
      (hclean.inv hi)
    exact (hclean.trans hacks).trans (progress_resetRuntimeState v)

theorem progress_poll (now : Nat) (hi : EpochInv w.shm) : Progress w.shm (w.poll now).shm := by
  unfold poll
  split
  · exact Progress.refl _
  · have hvnpus := Progress.foldl (f := pollVnpu now) (fun w v hi => progress_pollVnpu now hi v)
      (List.range maxVnpuPerDie) w hi
    simp only
    generalize (List.range maxVnpuPerDie).foldl (pollVnpu now) w = w₁ at hvnpus ⊢
    have hreap := progress_reapDeadProcesses now processAliveTimeoutNs (hvnpus.inv hi)
    generalize w₁.reapDeadProcesses now processAliveTimeoutNs = w₂ at hreap ⊢
    exact (hvnpus.trans hreap).trans Progress.tryCompleteSwapCmd

end Watched

/-! ### Operations on a die -/

/-- The operations that touch the command, the marks or the bitmap of a die, each one step.
An allocation runs `initState` and then `addEntry`, a release `removeEntry` after its
buffers are freed, and a recovery `initState` and then `recoverEntry`. -/
inductive DieOp where
  | writeSwapCmd (v : Nat) (action : SwapAction) (toSwapOut : SwapOutFlag)
  | initState (hbmTotal : UInt64)
  | proxyAck (v : Nat) (i : Slot)
  | tryComplete
  | poll (now : Nat)
  | tryAck (v : Nat) (i : Slot) (seq : Nat)
  | register (v : Nat) (now : Nat)
  | unregister (v : Nat) (i : Slot)
  | heartbeat (v : Nat) (i : Slot) (now : Nat)
  | alive (v : Nat) (now : Nat)
  | addEntry (v : Nat) (e : VnpuShmEntry)
  | freeBuffers (v : Nat)
  | removeEntry (v : Nat)
  | recoverEntry (v : Nat) (e : VnpuShmEntry)

namespace Watched

open ShmState

/-- The state of the die after an operation. A new entry has no process; a recovered one
keeps the slots it finds. -/
def step (w : Watched) : DieOp → Watched
  | .writeSwapCmd v action toSwapOut => w.onShm fun st => (st.writeSwapCmd v action toSwapOut).2
  | .initState hbmTotal => w.onShm (·.initState hbmTotal)
  | .proxyAck v i => w.onShm (·.proxyAckProcess v i)
  | .tryComplete => w.onShm (·.tryCompleteSwapCmd)
  | .poll now => w.poll now
  | .tryAck v i seq => w.onShm fun st => (st.tryAckSwapCmd v i seq).2
  | .register v now => w.onShm fun st => (st.registerProcess v now).2
  | .unregister v i => w.onShm (·.unregisterProcess v i)
  | .heartbeat v i now => w.onShm (·.modifySlot v i fun pe => { pe with lastHeartbeatNs := now })
  | .alive v now => { w with lastAlive := w.lastAlive.map fun alive => update alive v now }
  | .addEntry v e => w.onShm fun st => (st.addEntry v { e with processes := fun _ => .empty }).2
  | .freeBuffers v => { w with
      pool := (shmFree (w.pool, w.shm) v).1
      shm := (shmFree (w.pool, w.shm) v).2 }
  | .removeEntry v => w.onShm fun st => (st.removeEntry v).2
  | .recoverEntry v e => w.onShm fun st =>
      { st with
        vnpuBitmap := update st.vnpuBitmap v true
        entries := update st.entries v { e with processes := (st.entries v).processes } }

/-- A step that turns `completed` on leaves no slot of the command's vNPU owing the
acknowledgement of the epoch. -/
def CompletesSettled (w : Watched) (op : DieOp) : Prop :=
  w.shm.swapCmd.completed = false → (w.step op).shm.swapCmd.completed = true →
    (w.step op).shm.Settled

/-- When an operation may run: a standing command is not thrown away by initialising the
state, and its vNPU is in the bitmap when the manager decides about it, unless no slot
owes anything. -/
def MayRun (w : Watched) : DieOp → Prop
  | .initState _ => w.shm.swapCmd.completed = true ∨ w.shm.Settled
  | .proxyAck _ _ => w.shm.swapCmd.completed = true ∨ w.shm.Listed
  | .tryComplete => w.shm.swapCmd.completed = true ∨ w.shm.Listed
  | .poll _ => w.shm.swapCmd.completed = true ∨ w.shm.Listed
  | _ => True

end Watched

namespace ShmState

variable {st st' : ShmState}

/-- The command is untouched and marks are at most cleared. -/
def Quiet (st st' : ShmState) : Prop :=
  st'.swapCmd = st.swapCmd ∧ ∀ v i, st'.marker v i = st.marker v i ∨ st'.marker v i = 0

theorem Quiet.inv (h : Quiet st st') (hi : EpochInv st) : EpochInv st' := by
  obtain ⟨hcmd, hmark⟩ := h
  constructor
  · intro v i
    rw [hcmd]
    rcases hmark v i with heq | hz
    · rw [heq]; exact hi.le v i
    · rw [hz]; exact Nat.zero_le _
  · rw [hcmd]; exact hi.pos
  · rw [hcmd]
    intro ha v i hm
    rcases hmark v i with heq | hz
    · exact hi.target ha v i (heq ▸ hm)
    · exact absurd (hm.symm.trans hz) (hi.pos ha)

theorem quiet_modifySlot
    (hf : ∀ pe, (f pe).ackPendingSeq = pe.ackPendingSeq ∨ (f pe).ackPendingSeq = 0) :
    Quiet st (st.modifySlot v i f) := by
  refine ⟨rfl, fun w j => ?_⟩
  rw [marker_modifySlot]
  split
  · next h =>
    rw [h.1, h.2]
    exact hf (st.slot v i)
  · exact .inl rfl

theorem quiet_registerProcess (v now : Nat) : Quiet st (st.registerProcess v now).2 := by
  unfold registerProcess
  split
  · exact ⟨rfl, fun _ _ => .inl rfl⟩
  split
  · exact ⟨rfl, fun _ _ => .inl rfl⟩
  · exact quiet_modifySlot fun _ => .inr rfl

theorem Counted.quiet (h : Counted st st' v i) : Quiet st st' :=
  ⟨h.cmd, fun w j => .inl (h.keeps h.mark w j)⟩

theorem quiet_addEntry (v : Nat) {e : VnpuShmEntry} (he : ∀ i, (e.processes i).ackPendingSeq = 0) :
    Quiet st (st.addEntry v e).2 := by
  unfold addEntry
  split
  · exact ⟨rfl, fun _ _ => .inl rfl⟩
  split
  · exact ⟨rfl, fun _ _ => .inl rfl⟩
  · refine ⟨rfl, fun w j => ?_⟩
    by_cases hw : w = v
    · right
      subst hw
      simp [marker, slot, he]
    · left
      simp [marker, slot, hw]

theorem quiet_removeEntry (v : Nat) : Quiet st (st.removeEntry v).2 := by
  unfold removeEntry
  split
  · exact ⟨rfl, fun _ _ => .inl rfl⟩
  split
  · exact ⟨rfl, fun _ _ => .inl rfl⟩
  · refine ⟨rfl, fun w j => .inl ?_⟩
    have hsame : ∀ e : VnpuShmEntry, { e with vnpuId := -1 }.processes = e.processes := fun _ => rfl
    exact marker_modifyEntry st v w j hsame

theorem quiet_recoverEntry (v : Nat) (e : VnpuShmEntry) : Quiet st { st with
      vnpuBitmap := update st.vnpuBitmap v true
      entries := update st.entries v { e with processes := (st.entries v).processes } } :=
  ⟨rfl, fun w j => .inl (marker_modifyEntry st v w j (f := fun e' => { e with
    processes := e'.processes }) fun _ => rfl)⟩

/-! ### Writing and acknowledging -/

theorem marker_markActive (v seq w : Nat) (j : Slot) : (st.markActive v seq).marker w j =
      if w = v ∧ (st.slot v j).active = true then seq else st.marker w j := by
  unfold marker slot markActive modifyEntry
  by_cases hw : w = v
  · subst hw
    by_cases ha : ((st.entries w).processes j).active = true <;> simp [ha]
  · simp [hw]

/-- Writing a command takes a fresh epoch, which only active slots of its vNPU carry. -/
theorem writeSwapCmd_spec (hi : EpochInv st) (v : Nat) (action : SwapAction) (flag : SwapOutFlag) :
    EpochInv (st.writeSwapCmd v action flag).2 ∧
      (st.swapCmd.completed = false → (st.writeSwapCmd v action flag).2.swapCmd.completed = true →
        (st.writeSwapCmd v action flag).2.Settled) := by
  unfold writeSwapCmd
  split
  · exact ⟨hi, fun h h' => by rw [h] at h'; cases h'⟩
  cases action with
  | none | «in» =>
    refine ⟨⟨hi.le, ?_, ?_⟩, ?_⟩
    · intro h; cases h
    · intro h; cases h
    · intro _ h; cases h
  | out =>
    refine ⟨⟨fun w j => ?_, fun _ => Nat.succ_ne_zero _, fun _ w j hm => ?_⟩,
      fun _ hdone j howes => ?_⟩
    · have hle := hi.le w j
      change (st.markActive v (st.swapCmd.cmdSeq + 1)).marker w j ≤ st.swapCmd.cmdSeq + 1
      rw [marker_markActive]
      split <;> omega
    · have hle := hi.le w j
      change (st.markActive v (st.swapCmd.cmdSeq + 1)).marker w j = st.swapCmd.cmdSeq + 1 at hm
      rw [marker_markActive] at hm
      split at hm
      · next h => exact h.1
      · omega
    · -- no process was active, so the fresh epoch is on no slot
      have hle := hi.le v j
      have hm : (st.markActive v (st.swapCmd.cmdSeq + 1)).marker v j = st.swapCmd.cmdSeq + 1 :=
        howes.2
      rw [marker_markActive] at hm
      split at hm
      · next h =>
        have hcount : (allSlots.filter fun i => (st.slot v i).active).length = 0 := by
          simpa using hdone
        have hmem : j ∈ allSlots.filter fun i => (st.slot v i).active :=
          List.mem_filter.mpr ⟨mem_allSlots j, h.2⟩
        rw [List.length_eq_zero_iff.mp hcount] at hmem
        cases hmem
      · omega

/-- An acknowledgement makes progress, and completes only when no slot owes. -/
theorem tryAckSwapCmd_spec (hi : EpochInv st) (v : Nat) (i : Slot) (seq : Nat) :
    Progress st (st.tryAckSwapCmd v i seq).2 ∧
      (st.swapCmd.completed = false → (st.tryAckSwapCmd v i seq).2.swapCmd.completed = true →
        (st.tryAckSwapCmd v i seq).2.Settled) := by
  have hstay : ∀ st' : ShmState, Progress st st' → st'.swapCmd.completed = st.swapCmd.completed →
      Progress st st' ∧ (st.swapCmd.completed = false → st'.swapCmd.completed = true →
        st'.Settled) :=
    fun st' hp hc => ⟨hp, fun h h' => by rw [hc, h] at h'; cases h'⟩
  unfold tryAckSwapCmd
  split
  · exact hstay st (Progress.refl st) rfl
  split
  · exact hstay _ (Progress.clearMarker v i) rfl
  next hmark =>
  have hclear : Progress st (st.clearMarker v i).decRefcount :=
    (Progress.clearMarker v i).trans Progress.decRefcount
  simp only [ne_eq, not_not] at hmark
  simp only [finishIfEpoch]
  split
  · exact hstay _ hclear rfl
  next hseq =>
  split
  · exact hstay _ hclear rfl
  next hout =>
  split
  · exact hstay _ hclear rfl
  next hdone =>
  simp only [ne_eq, not_not] at hseq hout
  have hv : v = (st.clearMarker v i).decRefcount.swapCmd.targetVnpuId :=
    hi.target hout v i (hmark.trans hseq.symm)
  have hsettled : (st.clearMarker v i).decRefcount.Settled := by
    apply Progress.settled_of_anySlot hv
    rw [hseq]
    simp only [swapAckDone, Bool.not_eq_true, Bool.not_eq_false'] at hdone
    split at hdone
    · cases hdone
    · split at hdone
      · next hz => exact absurd hz (by omega)
      · simpa using hdone
  exact ⟨hclear.trans (Progress.markCompleted hout fun _ => hsettled), fun _ _ => hsettled⟩

theorem epochInv_create (dieId : String) : EpochInv (create dieId) where
  le _ _ := Nat.zero_le _
  pos h := by cases h
  target h := by cases h

end ShmState

/-! ### Runs -/

namespace Watched

open ShmState

variable {w : Watched}

/-- Every operation on the die keeps the epochs. -/
theorem epochInv_step (hi : EpochInv w.shm) (op : DieOp) : EpochInv (w.step op).shm := by
  cases op with
  | writeSwapCmd v action flag => exact (writeSwapCmd_spec hi v action flag).1
  | initState hbmTotal => exact ⟨hi.le, hi.pos, hi.target⟩
  | proxyAck v i => exact (Progress.proxyAckProcess hi v i).inv hi
  | tryComplete => exact Progress.tryCompleteSwapCmd.inv hi
  | poll now => exact (progress_poll now hi).inv hi
  | tryAck v i seq => exact (tryAckSwapCmd_spec hi v i seq).1.inv hi
  | register v now => exact (quiet_registerProcess v now).inv hi
  | unregister v i => exact counted_unregisterProcess.quiet.inv hi
  | heartbeat v i now =>
    have hq : Quiet w.shm (w.shm.modifySlot v i fun pe => { pe with lastHeartbeatNs := now }) :=
      quiet_modifySlot fun _ => .inl rfl
    exact hq.inv hi
  | alive v now => exact hi
  | addEntry v e => exact (quiet_addEntry v fun _ => rfl).inv hi
  | freeBuffers v => exact (Progress.shmFree (w.pool, w.shm) v).inv hi
  | removeEntry v => exact (quiet_removeEntry v).inv hi
  | recoverEntry v e => exact (quiet_recoverEntry v e).inv hi

variable {op : DieOp}

theorem completesSettled_of_progress (hp : Progress w.shm (w.step op).shm)
    (h : w.shm.swapCmd.completed = true ∨ w.shm.Listed) : CompletesSettled w op := by
  intro hrise hdone
  rcases h with hc | hl
  · rw [hrise] at hc; cases hc
  · exact hp.settled_of_rise hl hrise hdone

theorem completesSettled_of_same
    (h : (w.step op).shm.swapCmd.completed = w.shm.swapCmd.completed) : CompletesSettled w op := by
  intro hrise hdone
  rw [h, hrise] at hdone
  cases hdone

/-- A step that may run completes only what is settled. -/
theorem completesSettled_of_mayRun (hi : EpochInv w.shm) (h : MayRun w op) :
    CompletesSettled w op := by
  cases op with
  | writeSwapCmd v action flag => exact (writeSwapCmd_spec hi v action flag).2
  | initState hbmTotal =>
    intro hrise _
    rcases h with hc | hs
    · rw [hrise] at hc; cases hc
    · exact hs
  | proxyAck v i => exact completesSettled_of_progress (Progress.proxyAckProcess hi v i) h
  | tryComplete => exact completesSettled_of_progress Progress.tryCompleteSwapCmd h
  | poll now => exact completesSettled_of_progress (progress_poll now hi) h
  | tryAck v i seq => exact (tryAckSwapCmd_spec hi v i seq).2
  | register v now =>
    exact completesSettled_of_same (congrArg SwapCmd.completed (quiet_registerProcess v now).1)
  | unregister v i =>
    exact completesSettled_of_same (congrArg SwapCmd.completed counted_unregisterProcess.cmd)
  | heartbeat v i now | alive v now | recoverEntry v e => exact completesSettled_of_same rfl
  | addEntry v e =>
    exact completesSettled_of_same (congrArg SwapCmd.completed (quiet_addEntry v fun _ => rfl).1)
  | freeBuffers v =>
    exact completesSettled_of_same (congrArg SwapCmd.completed (swapCmd_shmFree _ v))
  | removeEntry v =>
    exact completesSettled_of_same (congrArg SwapCmd.completed (quiet_removeEntry v).1)

/-- In every interleaving on a die in which the state is not initialised under a command
some slot still owes, and the vNPU of such a command is not released before the manager
decides about it, a command is completed only when no slot owes its acknowledgement. -/
theorem completes_settled (dieId : String) (pool : Tlsf.Pool) (lastAlive : Option (Nat → Nat))
    (run : List DieOp) (h : EachStep step MayRun ⟨pool, .create dieId, lastAlive⟩ run) :
    EachStep step CompletesSettled ⟨pool, .create dieId, lastAlive⟩ run := by
  apply eachStep_of_invariant (P := fun w => EpochInv w.shm) (epochInv_create dieId) _ _ h
  · intro w op hi _
    exact epochInv_step hi op
  · intro w op hi hmay
    exact completesSettled_of_mayRun hi hmay

/-- In every interleaving on a die no slot is marked for an epoch to come, and the slots that owe
a swap-out are those of its vNPU. -/
theorem marks_fit_command (dieId : String) (pool : Tlsf.Pool) (lastAlive : Option (Nat → Nat))
    (run : List DieOp) :
    Throughout step (fun w => EpochInv w.shm) ⟨pool, .create dieId, lastAlive⟩ run :=
  throughout_of_step (C := fun _ _ => True) (epochInv_create dieId)
    (fun _ op hi _ => epochInv_step hi op) (eachStep_of_forall fun _ _ => trivial)

/-- A vNPU is added, its process registers, is told to swap out and acknowledges. -/
def acknowledgedRun : List DieOp :=
  [.initState 64, .addEntry 0 .zero, .register 0 1, .writeSwapCmd 0 .out .none,
    .tryAck 0 .first 1]

theorem acknowledgedRun_completes :
    EachStep step CompletesSettled ⟨Tlsf.init 4096, .create "die0", none⟩ acknowledgedRun := by
  apply completes_settled
  refine ⟨.inr ?_, trivial, trivial, trivial, trivial, trivial⟩
  intro i howes
  exact howes.1 rfl

/-- The same, but a second allocation initialises the state before the acknowledgement. -/
def allocationUnderCommand : List DieOp :=
  [.initState 64, .addEntry 0 .zero, .register 0 1, .writeSwapCmd 0 .out .none, .initState 64]

/-- Initialising the state completes the command while slot 0 still owes its
acknowledgement. -/
theorem allocation_completes_owed :
    ¬ EachStep step CompletesSettled ⟨Tlsf.init 4096, .create "die0", none⟩
      allocationUnderCommand := by
  intro h
  have hlast := h.2.2.2.2.1 (by decide +kernel) (by decide +kernel)
  exact hlast .first (by decide +kernel)

end Watched

end UbsVirt.Enpu
