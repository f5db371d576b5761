import Mathlib.Data.List.Nodup
import Mathlib.Data.List.ProdSigma
import UbsVirt.Enpu.Epoch

/-!
# One poll completes a swap-out that nobody alive owes

A pending swap-out command waits for the slots of its vNPU that carry its epoch. A poll of
the watchdog acknowledges for every slot that has been given up and then scans the marks
(`pod_watchdog.c:117-187,268-274`), so one poll is enough when only such slots owe. The
same pass takes the memory of the processes it reaps off their vNPU, once for each.
-/

namespace UbsVirt.Enpu

open List ShmState ProcessEntry

namespace ShmState

variable {st st' : ShmState} {seq target v t : Nat} {i j : Slot}

def Finished (st : ShmState) : Prop :=
  st.swapCmd.completed = true ∧ st.swapCmd.action = .none

/-- The swap-out command of an epoch is pending. -/
structure Awaits (seq target : Nat) (st : ShmState) : Prop where
  pending : st.swapCmd.completed = false
  out : st.swapCmd.action = .out
  seq : st.swapCmd.cmdSeq = seq
  target : st.swapCmd.targetVnpuId = target

def Underway (seq target : Nat) (st : ShmState) : Prop :=
  st.Finished ∨ st.Awaits seq target

theorem Finished.of_swapCmd (h : st.Finished) (hcmd : st'.swapCmd = st.swapCmd) : st'.Finished := by
  unfold Finished
  rwa [hcmd]

theorem Awaits.of_swapCmd (h : st.Awaits seq target) (hcmd : st'.swapCmd = st.swapCmd) :
    st'.Awaits seq target :=
  ⟨hcmd ▸ h.pending, hcmd ▸ h.out, hcmd ▸ h.seq, hcmd ▸ h.target⟩

theorem Underway.of_swapCmd (h : st.Underway seq target) (hcmd : st'.swapCmd = st.swapCmd) :
    st'.Underway seq target :=
  h.imp (·.of_swapCmd hcmd) (·.of_swapCmd hcmd)

theorem Finished.proxyAckProcess (h : st.Finished) (v : Nat) (i : Slot) :
    (st.proxyAckProcess v i).Finished := by
  have hidle : st.swapCmd.action ≠ .out := by rw [h.2]; decide
  unfold ShmState.proxyAckProcess
  rwa [if_pos hidle, ite_self]

theorem finished_markCompleted : st.markCompleted.Finished := ⟨rfl, rfl⟩

theorem Underway.proxyAckProcess (h : st.Underway seq target) (v : Nat) (i : Slot) :
    (st.proxyAckProcess v i).Underway seq target := by
  rcases h with h | h
  · exact .inl (h.proxyAckProcess v i)
  have hclear : (st.clearMarker v i).Awaits seq target := h.of_swapCmd rfl
  have hdec : (st.clearMarker v i).decRefcount.Awaits seq target :=
    ⟨h.pending, h.out, h.seq, h.target⟩
  unfold ShmState.proxyAckProcess
  split
  · exact .inr h
  split
  · exact .inr h
  split
  · exact .inr h
  split
  · exact .inr hclear
  dsimp only
  split
  · exact .inr hdec
  · exact .inl finished_markCompleted

/-- A proxy acknowledgement clears the mark of its slot or changes no mark. -/
theorem marker_proxyAckProcess (v : Nat) (i : Slot) :
    (st.proxyAckProcess v i).marker t j = st.marker t j ∨ (st.proxyAckProcess v i).marker t j = 0 := by
  unfold marker slot
  have hacked : Acked st (st.proxyAckProcess v i) v i := acked_proxyAckProcess
  rcases hacked.entries with heq | heq
  · rw [heq]
    exact .inl rfl
  · rw [heq]
    have hclear := marker_clearMarker st v t i j
    split at hclear
    · exact .inr hclear
    · exact .inl hclear

/-- While a command is pending, a proxy acknowledgement clears the mark of its slot. -/
theorem Awaits.marker_proxyAckProcess_self (h : st.Awaits seq target) (hseq : seq ≠ 0)
    (hv : v < maxVnpuPerDie) (i : Slot) : (st.proxyAckProcess v i).marker v i = 0 := by
  have hclear : (st.clearMarker v i).marker v i = 0 := by
    rw [marker_clearMarker, if_pos ⟨rfl, rfl⟩]
  unfold ShmState.proxyAckProcess
  rw [if_neg (Nat.not_le.mpr hv), if_neg (not_not.mpr h.out), if_neg (h.seq ▸ hseq)]
  split
  · exact hclear
  dsimp only
  split <;> exact hclear

/-- The scan at the end of a poll completes a command nobody owes. -/
theorem Underway.tryCompleteSwapCmd (h : st.Underway seq target) (hseq : seq ≠ 0)
    (ht : target < maxVnpuPerDie) (howes : st.Finished ∨ ∀ i, st.marker target i ≠ seq) :
    st.tryCompleteSwapCmd.Finished := by
  unfold ShmState.tryCompleteSwapCmd
  rcases h with h | h
  · rwa [if_pos (.inl h.1)]
  replace howes : ∀ i, st.marker target i ≠ seq := by
    refine howes.resolve_left fun hdone => ?_
    have hpending := h.pending
    rw [hdone.1] at hpending
    cases hpending
  have hnone : st.hasPendingAck target seq = false := by
    unfold hasPendingAck
    rw [anySlot_eq_false.mpr fun i => ?_, Bool.and_false]
    exact beq_eq_false_iff_ne.mpr (howes i)
  rw [if_neg (by simp [h.pending, h.out]), h.seq, h.target, if_neg (by omega), hnone]
  exact finished_markCompleted

end ShmState

/-! ### The memory a vNPU has in use -/

/-- The process of the slot is reaped: it is active and its heartbeat is overdue. -/
def ProcessEntry.Dies (now : Nat) (pe : ProcessEntry) : Prop :=
  pe.active = true ∧ pe.GivenUp now processAliveTimeoutNs

instance (now : Nat) (pe : ProcessEntry) : Decidable (pe.Dies now) :=
  inferInstanceAs (Decidable (_ ∧ (_ ∨ _ ∧ _ ∧ _)))

theorem hbmUsed_shmFreePerProcess (ps : Tlsf.Pool × ShmState) (u v : Nat) (j : Slot) :
    ((shmFreePerProcess ps u j).2.entries v).hbmUsed = (ps.2.entries v).hbmUsed := by
  unfold shmFreePerProcess
  dsimp only
  split
  · rfl
  · dsimp only
    exact hbmUsed_modifySlot v _

namespace Watched

variable {w w' : Watched} {u v : Nat} {i j : Slot}

theorem hbmUsed_proxyAckMarked :
    ((w.proxyAckMarked u j).shm.entries v).hbmUsed = (w.shm.entries v).hbmUsed :=
  acked_proxyAckMarked.hbmUsed v

theorem hbmUsed_freeSlot : ((w.freeSlot u j).shm.entries v).hbmUsed = (w.shm.entries v).hbmUsed :=
  hbmUsed_shmFreePerProcess (w.pool, w.shm) u v j

/-! ### The vNPU part of the poll -/

variable {now : Nat}

/-- The poll of a vNPU that is in time changes nothing of the shared state. -/
theorem shm_pollVnpu_of_fresh (h : VnpuFresh w now v) : (pollVnpu now w v).shm = w.shm := by
  unfold pollVnpu
  split
  · rfl
  next alive halive =>
  split
  · rfl
  next hbit =>
  split
  · rfl
  next hne =>
  split
  · rfl
  next hle =>
  rw [if_pos (h alive halive (by simpa using hbit) hne (not_lt.mp hle))]

/-- The vNPU has been reset: it uses no memory and its slots are empty. -/
structure Cleared (w : Watched) (v : Nat) : Prop where
  hbmUsed : (w.shm.entries v).hbmUsed = 0
  slot : ∀ i, w.shm.slot v i = .empty

theorem cleared_resetRuntimeState : (w.resetRuntimeState v).Cleared v :=
  ⟨by simp [resetRuntimeState, ShmState.modifyEntry],
    fun i => by simp [resetRuntimeState, ShmState.modifyEntry, slot]⟩

/-- A vNPU that is overdue is reset. -/
theorem cleared_pollVnpu (h : ¬ VnpuFresh w now v) : (pollVnpu now w v).Cleared v := by
  simp only [VnpuFresh, not_forall, not_le] at h
  obtain ⟨alive, halive, hbit, hne, hle, hlate⟩ := h
  unfold pollVnpu
  simp only [halive]
  rw [hbit, if_neg (by decide), if_neg hne, if_neg (not_lt.mpr hle), if_neg (not_le.mpr hlate)]
  exact cleared_resetRuntimeState

theorem hbmUsed_pollVnpu_of_ne (now : Nat) (hvu : v ≠ u) :
    ((pollVnpu now w u).shm.entries v).hbmUsed = (w.shm.entries v).hbmUsed := by
  unfold pollVnpu
  split
  · rfl
  split
  · rfl
  split
  · rfl
  split
  · rfl
  split
  · rfl
  have hclean : ((if w.shm.vnpuAllSwapped u then w.cleanupSwapData u else w).shm.entries v).hbmUsed =
      (w.shm.entries v).hbmUsed := by
    unfold cleanupSwapData
    split
    · split
      · exact shmFree_induction (P := fun ps => (ps.2.entries v).hbmUsed = _) u rfl
          fun ps i hps => (hbmUsed_shmFreePerProcess ps u v i).trans hps
      · rfl
    · rfl
  have hacks := foldlRecOn allSlots (fun (w : Watched) j => w.proxyAckMarked u j)
    (motive := fun w' => (w'.shm.entries v).hbmUsed = (w.shm.entries v).hbmUsed) hclean
    fun w' hw' j _ => hbmUsed_proxyAckMarked.trans hw'
  rw [← hacks]
  simp [resetRuntimeState, ShmState.modifyEntry, hvu]

theorem isSome_lastAlive_pollVnpu (now : Nat) :
    (pollVnpu now w u).lastAlive.isSome = w.lastAlive.isSome := by
  unfold pollVnpu
  split
  · rfl
  next alive halive =>
  split
  · rfl
  split
  · rfl
  split
  · rw [halive]; rfl
  split
  · rfl
  have hclean : (if w.shm.vnpuAllSwapped u then w.cleanupSwapData u else w).lastAlive =
      w.lastAlive := by
    unfold cleanupSwapData
    split
    · split <;> rfl
    · rfl
  have hacks := foldlRecOn allSlots (fun (w : Watched) j => w.proxyAckMarked u j)
    (motive := fun w' => w'.lastAlive = w.lastAlive) hclean
    fun w' hw' j _ => lastAlive_proxyAckMarked.trans hw'
  simp [resetRuntimeState, hacks]

theorem OtherVnpu.fresh_of_fresh (ho : OtherVnpu w w' v)
    (hsome : w'.lastAlive.isSome = w.lastAlive.isSome) (h : VnpuFresh w' now v) :
    VnpuFresh w now v := by
  intro alive hw hb hne hle
  obtain ⟨alive', hw'⟩ := Option.isSome_iff_exists.mp (hsome.trans (by rw [hw]; rfl))
  obtain ⟨alive₁, hw₁, heq⟩ := ho.alive alive' hw'
  cases hw.symm.trans hw₁
  rw [heq] at hne hle ⊢
  refine h alive' hw' ?_ hne hle
  simpa only [bitmapTest, ho.bitmap] using hb

/-- The memory in use of a vNPU in time stays as it is through the vNPU part of the poll. -/
theorem hbmUsed_pollVnpus_of_fresh (h : VnpuFresh w now v) (us : List Nat) :
    ((us.foldl (pollVnpu now) w).shm.entries v).hbmUsed = (w.shm.entries v).hbmUsed := by
  refine (foldlRecOn us (pollVnpu now) (motive := fun w' =>
    (w'.shm.entries v).hbmUsed = (w.shm.entries v).hbmUsed ∧ VnpuFresh w' now v) ⟨rfl, h⟩ ?_).1
  intro w' hw' u _
  refine ⟨?_, (pollVnpu_of_fresh hw'.2 u .first).2⟩
  by_cases hvu : v = u
  · subst hvu
    rw [shm_pollVnpu_of_fresh hw'.2, hw'.1]
  · rw [hbmUsed_pollVnpu_of_ne now hvu, hw'.1]

theorem Cleared.pollVnpu (h : w.Cleared v) (u : Nat) : (pollVnpu now w u).Cleared v := by
  by_cases hvu : v = u
  · subst hvu
    by_cases hfresh : VnpuFresh w now v
    · have hshm := shm_pollVnpu_of_fresh hfresh
      exact ⟨hshm ▸ h.hbmUsed, fun i => hshm ▸ h.slot i⟩
    · exact cleared_pollVnpu hfresh
  · exact ⟨(hbmUsed_pollVnpu_of_ne now hvu).trans h.hbmUsed,
      fun i => ((pollVnpu_otherVnpu now hvu).slot i).trans (h.slot i)⟩

/-- A vNPU that is overdue has been reset after the vNPU part of the poll. -/
theorem cleared_pollVnpus (hv : v < maxVnpuPerDie) (h : ¬ VnpuFresh w now v) :
    ((range maxVnpuPerDie).foldl (pollVnpu now) w).Cleared v := by
  refine Run.exec_establishes (P := fun w => w.Cleared v ∨ ¬ VnpuFresh w now v)
    (Q := fun w => w.Cleared v) (i := v) (mem_range.mpr hv) (.inr h) ?_ ?_ ?_
  · rintro w u (hclear | hlate)
    · exact .inl (hclear.pollVnpu u)
    by_cases hvu : v = u
    · subst hvu
      exact .inl (cleared_pollVnpu hlate)
    · exact .inr fun hfresh => hlate
        ((pollVnpu_otherVnpu now hvu).fresh_of_fresh (isSome_lastAlive_pollVnpu now) hfresh)
  · rintro w (hclear | hlate)
    · exact hclear.pollVnpu v
    · exact cleared_pollVnpu hlate
  · exact fun w u hclear => hclear.pollVnpu u

/-! ### The reaper -/

def places : List (Nat × Slot) :=
  List.range maxVnpuPerDie ×ˢ allSlots

theorem nodup_places : places.Nodup :=
  List.Nodup.product nodup_range (nodup_finRange _)

theorem mem_places : (v, i) ∈ places ↔ v < maxVnpuPerDie := by
  rw [places, mem_product, mem_range]
  exact and_iff_left (mem_allSlots i)

theorem reapDeadProcesses_eq (now timeout : Nat) : w.reapDeadProcesses now timeout =
    places.foldl (fun w p => reapSlot now timeout w p.1 p.2) w := by
  unfold reapDeadProcesses places
  rw [SProd.sprod, instSProd]
  simp only [product, foldl_flatMap, foldl_map]

section

variable {seq target now : Nat}

theorem underway_freeSlot (h : w.shm.Underway seq target) (v : Nat) (i : Slot) :
    (w.freeSlot v i).shm.Underway seq target :=
  h.of_swapCmd (swapCmd_shmFreePerProcess (w.pool, w.shm) v i)

theorem underway_pollVnpus (h : w.shm.Underway seq target) (us : List Nat) :
    (us.foldl (pollVnpu now) w).shm.Underway seq target := by
  refine foldlRecOn us (pollVnpu now) (motive := fun w => w.shm.Underway seq target) h ?_
  intro w hw u _
  exact pollVnpu_induction (P := fun w => w.shm.Underway seq target)
    (fun _ v i h => h.proxyAckProcess v i) (fun _ v i h => underway_freeSlot h v i)
    (fun _ _ _ _ h => h.of_swapCmd rfl) (fun _ _ h => h) hw now u

theorem underway_reapSlot (h : w.shm.Underway seq target) (v : Nat) (i : Slot) :
    (reapSlot now processAliveTimeoutNs w v i).shm.Underway seq target :=
  reapSlot_induction (P := fun w => w.shm.Underway seq target)
    (fun _ v i h => h.proxyAckProcess v i) (fun _ v i h => underway_freeSlot h v i)
    (fun _ _ _ _ h => h.of_swapCmd rfl) h now processAliveTimeoutNs v i

/-- The slot owes the command nothing, or the command has been completed. -/
def Acknowledged (seq target : Nat) (i : Slot) (w : Watched) : Prop :=
  w.shm.Finished ∨ w.shm.marker target i ≠ seq

theorem Acknowledged.of_marker (h : w.Acknowledged seq target i) (hseq : seq ≠ 0)
    (hdone : w.shm.Finished → w'.shm.Finished)
    (hmark : w'.shm.marker target i = w.shm.marker target i ∨ w'.shm.marker target i = 0) :
    w'.Acknowledged seq target i := by
  refine h.imp hdone fun hm => ?_
  rcases hmark with heq | hzero
  · rwa [heq]
  · rw [hzero]; exact hseq.symm

section

variable (hseq : seq ≠ 0) (h : w.Acknowledged seq target i)
include hseq h

theorem Acknowledged.freeSlot (v : Nat) (j : Slot) : (w.freeSlot v j).Acknowledged seq target i :=
  h.of_marker hseq (·.of_swapCmd (swapCmd_shmFreePerProcess (w.pool, w.shm) v j))
    ((progress_freeSlot v j).marker target i)

theorem Acknowledged.modifyEntry (v : Nat) {f : VnpuShmEntry → VnpuShmEntry} (hf : ClearsMarks f) :
    (w.onShm (·.modifyEntry v f)).Acknowledged seq target i := by
  refine h.of_marker hseq (·.of_swapCmd rfl) ?_
  by_cases hv : target = v
  · subst hv
    simpa [marker, slot, ShmState.modifyEntry] using hf (w.shm.entries target) i
  · exact .inl (by simp [marker, slot, ShmState.modifyEntry, hv])

theorem Acknowledged.reapSlot (v : Nat)
    (j : Slot) : (reapSlot now processAliveTimeoutNs w v j).Acknowledged seq target i :=
  reapSlot_induction (P := Acknowledged seq target i)
    (fun _ v j h => h.of_marker hseq (·.proxyAckProcess v j) (marker_proxyAckProcess v j))
    (fun _ v j h => h.freeSlot hseq v j) (fun _ v _ hf h => h.modifyEntry hseq v hf)
    h now processAliveTimeoutNs v j

end

/-- If the slot still owes the command, it has been given up. -/
def OwesLate (now seq target : Nat) (i : Slot) (w : Watched) : Prop :=
  w.shm.Underway seq target ∧ (w.Acknowledged seq target i ∨
    (w.shm.slot target i).GivenUp now processAliveTimeoutNs)

section

variable (h : OwesLate now seq target i w) (hseq : seq ≠ 0) (ht : target < maxVnpuPerDie)
include h hseq ht

/-- Looking at the slot, the reaper sees to it that it owes nothing. -/
theorem OwesLate.acknowledged :
    (reapSlot now processAliveTimeoutNs w target i).Acknowledged seq target i := by
  obtain ⟨hway, hack | hup⟩ := h
  · exact hack.reapSlot hseq target i
  by_cases hack : w.Acknowledged seq target i
  · exact hack.reapSlot hseq target i
  simp only [Acknowledged, not_or, ne_eq, not_not] at hack
  have hawaits := hway.resolve_left hack.1
  refine reapSlot_of_givenUp (P := Acknowledged seq target i) (fun _ v j h => h.freeSlot hseq v j)
    (fun _ v _ hf h => h.modifyEntry hseq v hf) hup ?_
  unfold proxyAckMarked
  rw [if_pos (hack.2 ▸ hseq)]
  right
  rw [shm_onShm, hawaits.marker_proxyAckProcess_self hseq ht]
  exact hseq.symm

theorem OwesLate.reapSlot (v : Nat) (j : Slot) :
    OwesLate now seq target i (reapSlot now processAliveTimeoutNs w v j) := by
  refine ⟨underway_reapSlot h.1 v j, ?_⟩
  by_cases hne : target ≠ v ∨ i ≠ j
  · refine h.2.imp (·.reapSlot hseq v j) fun hup => ?_
    rwa [slot_reapSlot_of_ne now processAliveTimeoutNs hne]
  · rw [not_or, not_not, not_not] at hne
    obtain ⟨rfl, rfl⟩ := hne
    exact .inl (h.acknowledged hseq ht)

/-- The reaper leaves no slot of the command's vNPU owing that had been given up. -/
theorem OwesLate.reapDeadProcesses :
    (w.reapDeadProcesses now processAliveTimeoutNs).Acknowledged seq target i := by
  rw [reapDeadProcesses_eq]
  exact Run.exec_establishes (P := OwesLate now seq target i) (Q := Acknowledged seq target i)
    (i := (target, i)) (mem_places.mpr ht) h (fun _ p h => h.reapSlot hseq ht p.1 p.2)
    (fun _ h => h.acknowledged hseq ht) (fun _ p h => h.reapSlot hseq p.1 p.2)

end

variable (now) in
theorem underway_reapDeadProcesses (h : w.shm.Underway seq target) :
    (w.reapDeadProcesses now processAliveTimeoutNs).shm.Underway seq target := by
  rw [reapDeadProcesses_eq]
  exact foldlRecOn places _ (motive := fun (w : Watched) => w.shm.Underway seq target) h
    fun _ hw p _ => underway_reapSlot hw p.1 p.2

variable (now) in
/-- The vNPU part of the poll does not bring a slot back that has been given up. -/
theorem owesLate_pollVnpus (h : w.shm.Underway seq target) (ht : target < maxVnpuPerDie)
    (howes : w.shm.marker target i = seq →
      (w.shm.slot target i).GivenUp now processAliveTimeoutNs) :
    OwesLate now seq target i ((range maxVnpuPerDie).foldl (pollVnpu now) w) := by
  refine ⟨underway_pollVnpus h _, ?_⟩
  by_cases hfresh : VnpuFresh w now target
  · have hslot := pollVnpus_of_fresh hfresh (range maxVnpuPerDie) i
    rw [hslot]
    by_cases hm : w.shm.marker target i = seq
    · exact .inr (howes hm)
    · left; right
      unfold marker
      rwa [hslot]
  · right; left
    rw [(cleared_pollVnpus ht hfresh).slot i]
    rfl

end

/-! ### The memory of the reaped -/

section

variable {now : Nat}

def reaped (now : Nat) (st : ShmState) (v : Nat) : List (Nat × Slot) :=
  places.filter fun p => p.1 = v ∧ (st.slot p.1 p.2).Dies now

def uncount (st : ShmState) (ps : List (Nat × Slot)) (used : Nat) : Nat :=
  ps.foldl (fun used p => subU64 used (st.slot p.1 p.2).hbmUsed) used

theorem hbmUsed_reapSlot_of_dies (h : (w.shm.slot u j).Dies now) :
    ((reapSlot now processAliveTimeoutNs w u j).shm.entries v).hbmUsed =
      if u = v then subU64 (w.shm.entries v).hbmUsed (w.shm.slot u j).hbmUsed
      else (w.shm.entries v).hbmUsed := by
  obtain ⟨hactive, hup⟩ := h
  obtain ⟨hset, hpast, hlate⟩ := hup.resolve_left (by simp [hactive])
  have huncount : (((w.proxyAckMarked u j).onShm fun st =>
      (st.modifyEntry u fun e => { e with hbmUsed := subU64 e.hbmUsed (w.shm.slot u j).hbmUsed }
        ).modifySlot u j fun pe => { pe with hbmUsed := 0 }).shm.entries v).hbmUsed =
      if u = v then subU64 (w.shm.entries v).hbmUsed (w.shm.slot u j).hbmUsed
      else (w.shm.entries v).hbmUsed := by
    rw [shm_onShm, hbmUsed_modifySlot]
    unfold ShmState.modifyEntry
    by_cases huv : u = v
    · subst huv
      simp [hbmUsed_proxyAckMarked]
    · simp [huv, Ne.symm huv, hbmUsed_proxyAckMarked]
  unfold reapSlot
  dsimp only
  rw [hactive, if_neg (by decide), if_neg hset, if_neg (by omega), if_neg (by omega), shm_onShm,
    hbmUsed_modifySlot]
  split
  · rw [hbmUsed_freeSlot, huncount]
  · exact huncount

theorem hbmUsed_reapSlot_of_not_dies (h : ¬ (w.shm.slot u j).Dies now) :
    ((reapSlot now processAliveTimeoutNs w u j).shm.entries v).hbmUsed =
      (w.shm.entries v).hbmUsed := by
  unfold reapSlot
  dsimp only
  split
  · split
    · rw [hbmUsed_freeSlot, hbmUsed_proxyAckMarked]
    · exact hbmUsed_proxyAckMarked
  next hactive =>
  split
  · rfl
  next hset =>
  split
  · rw [shm_onShm, hbmUsed_modifySlot]
  next hpast =>
  split
  · rfl
  next hlate =>
  exact absurd ⟨by simpa using hactive, .inr ⟨hset, not_lt.mp hpast, not_le.mp hlate⟩⟩ h

variable {st : ShmState}

theorem uncount_congr {st' : ShmState} {ps : List (Nat × Slot)}
    (h : ∀ p ∈ ps, st'.slot p.1 p.2 = st.slot p.1 p.2) (used : Nat) :
    uncount st' ps used = uncount st ps used :=
  foldl_ext _ _ used fun used p hp => by rw [h p hp]

/-- The reaper takes the memory of the processes it reaps off their vNPU, once for each. -/
theorem hbmUsed_reapSlots (ps : List (Nat × Slot)) (hnodup : ps.Nodup) :
    ((ps.foldl (fun w p => reapSlot now processAliveTimeoutNs w p.1 p.2) w).shm.entries v).hbmUsed =
      uncount w.shm (ps.filter fun p => p.1 = v ∧ (w.shm.slot p.1 p.2).Dies now)
        (w.shm.entries v).hbmUsed := by
  induction ps generalizing w with
  | nil => rfl
  | cons p ps ih =>
    rw [nodup_cons] at hnodup
    -- the slots still to be visited are as they were
    have hslot : ∀ q ∈ ps, (reapSlot now processAliveTimeoutNs w p.1 p.2).shm.slot q.1 q.2 =
        w.shm.slot q.1 q.2 := by
      intro q hq
      refine slot_reapSlot_of_ne now processAliveTimeoutNs ?_
      by_contra hsame
      rw [not_or, not_not, not_not] at hsame
      exact hnodup.1 (Prod.ext hsame.1 hsame.2 ▸ hq)
    have hrest := ih (w := reapSlot now processAliveTimeoutNs w p.1 p.2) hnodup.2
    rw [uncount_congr fun q hq => hslot q (mem_of_mem_filter hq),
      filter_congr fun q hq => by rw [hslot q hq]] at hrest
    rw [foldl_cons, hrest]
    by_cases hdies : (w.shm.slot p.1 p.2).Dies now
    · rw [hbmUsed_reapSlot_of_dies hdies]
      by_cases hp : p.1 = v
      · rw [if_pos hp, filter_cons_of_pos (by simp [hp ▸ hdies, hp])]
        rfl
      · rw [if_neg hp, filter_cons_of_neg (by simp [hp])]
    · rw [hbmUsed_reapSlot_of_not_dies hdies, filter_cons_of_neg (by simp [hdies])]

theorem hbmUsed_reapDeadProcesses :
    ((w.reapDeadProcesses now processAliveTimeoutNs).shm.entries v).hbmUsed =
      uncount w.shm (reaped now w.shm v) (w.shm.entries v).hbmUsed := by
  rw [reapDeadProcesses_eq]
  exact hbmUsed_reapSlots places nodup_places

theorem reaped_congr {st' : ShmState} (h : ∀ i, st'.slot v i = st.slot v i) :
    reaped now st' v = reaped now st v := by
  refine filter_congr fun p _ => ?_
  by_cases hp : p.1 = v
  · rw [hp, h]
  · simp [hp]

theorem fst_of_mem_reaped {p : Nat × Slot} (h : p ∈ reaped now st v) : p.1 = v := by
  simp only [reaped, mem_filter, decide_eq_true_eq] at h
  exact h.2.1

/-- The memory that is taken off without running below zero is the sum. -/
theorem uncount_eq_sub (st : ShmState) (ps : List (Nat × Slot)) {used : Nat}
    (h : (ps.map fun p => (st.slot p.1 p.2).hbmUsed).sum ≤ used) :
    uncount st ps used = used - (ps.map fun p => (st.slot p.1 p.2).hbmUsed).sum := by
  induction ps generalizing used with
  | nil => rfl
  | cons p ps ih =>
    rw [map_cons, sum_cons] at h ⊢
    have hsub : subU64 used (st.slot p.1 p.2).hbmUsed = used - (st.slot p.1 p.2).hbmUsed :=
      if_pos (by omega)
    change uncount st ps (subU64 used (st.slot p.1 p.2).hbmUsed) = _
    rw [hsub, ih (by omega), Nat.sub_sub]

theorem hbmUsed_tryCompleteSwapCmd :
    ((w.onShm (·.tryCompleteSwapCmd)).shm.entries v).hbmUsed = (w.shm.entries v).hbmUsed := by
  simp only [onShm, ShmState.tryCompleteSwapCmd]
  repeat' split
  all_goals rfl

/-- A poll takes the memory of the processes it reaps off their vNPU. -/
theorem hbmUsed_poll_of_fresh (halive : w.lastAlive.isSome) (h : VnpuFresh w now v) :
    ((w.poll now).shm.entries v).hbmUsed =
      uncount w.shm (reaped now w.shm v) (w.shm.entries v).hbmUsed := by
  obtain ⟨alive, halive⟩ := Option.isSome_iff_exists.mp halive
  have hslot := pollVnpus_of_fresh h (range maxVnpuPerDie)
  simp only [poll, halive]
  rw [hbmUsed_tryCompleteSwapCmd, hbmUsed_reapDeadProcesses, hbmUsed_pollVnpus_of_fresh h,
    reaped_congr hslot]
  exact uncount_congr (fun p hp => by rw [fst_of_mem_reaped hp, hslot]) _

/-- A vNPU that is overdue uses no memory after a poll; its slots are emptied before the
reaper comes to them. -/
theorem hbmUsed_poll_of_late (hv : v < maxVnpuPerDie) (h : ¬ VnpuFresh w now v) :
    ((w.poll now).shm.entries v).hbmUsed = 0 := by
  have hclear := cleared_pollVnpus hv h
  simp only [VnpuFresh, not_forall] at h
  obtain ⟨alive, halive, -⟩ := h
  have hnone : reaped now ((range maxVnpuPerDie).foldl (pollVnpu now) w).shm v = [] := by
    refine filter_eq_nil_iff.mpr fun p _ => ?_
    by_cases hp : p.1 = v
    · rw [hp, hclear.slot]
      simp [Dies, empty]
    · simp [hp]
  simp only [poll, halive]
  rw [hbmUsed_tryCompleteSwapCmd, hbmUsed_reapDeadProcesses, hnone, hclear.hbmUsed]
  rfl

end

/-! ### One poll -/

theorem finished_poll {seq target : Nat} (halive : w.lastAlive.isSome) (hseq : seq ≠ 0)
    (htarget : target < maxVnpuPerDie) (hway : w.shm.Underway seq target)
    (howes : ∀ i, w.shm.marker target i = seq →
      (w.shm.slot target i).GivenUp now processAliveTimeoutNs) : (w.poll now).shm.Finished := by
  have howesLate := fun i => owesLate_pollVnpus now hway htarget (howes i)
  obtain ⟨alive, halive⟩ := Option.isSome_iff_exists.mp halive
  simp only [poll, halive]
  generalize (range maxVnpuPerDie).foldl (pollVnpu now) w = w₁ at howesLate ⊢
  have hack := fun i => (howesLate i).reapDeadProcesses hseq htarget
  have hway₂ := underway_reapDeadProcesses now (howesLate .first).1
  generalize w₁.reapDeadProcesses now processAliveTimeoutNs = w₂ at hack hway₂ ⊢
  refine hway₂.tryCompleteSwapCmd hseq htarget ?_
  by_cases hdone : w₂.shm.Finished
  · exact .inl hdone
  · exact .inr fun i => (hack i).resolve_left hdone

/-- A pending swap-out that is owed only by slots that have been given up is complete after one
poll. The memory of every process that is reaped goes off its vNPU, and off no other; a vNPU
that is overdue itself is reset before the reaper comes to it. -/
theorem poll_completes (w : Watched) (now : Nat) (halive : w.lastAlive.isSome)
    (hpending : w.shm.swapCmd.completed = false) (hout : w.shm.swapCmd.action = .out)
    (hseq : w.shm.swapCmd.cmdSeq ≠ 0) (htarget : w.shm.swapCmd.targetVnpuId < maxVnpuPerDie)
    (howes : ∀ i, w.shm.marker w.shm.swapCmd.targetVnpuId i = w.shm.swapCmd.cmdSeq →
      (w.shm.slot w.shm.swapCmd.targetVnpuId i).GivenUp now processAliveTimeoutNs) :
    (w.poll now).shm.swapCmd.completed = true ∧ (w.poll now).shm.swapCmd.action = .none ∧
      ∀ v < maxVnpuPerDie,
        (VnpuFresh w now v →
          let used := (w.shm.entries v).hbmUsed
          let lost := ((reaped now w.shm v).map fun p => (w.shm.slot p.1 p.2).hbmUsed).sum
          ((w.poll now).shm.entries v).hbmUsed = uncount w.shm (reaped now w.shm v) used ∧
            (lost ≤ used → ((w.poll now).shm.entries v).hbmUsed = used - lost)) ∧
        (¬ VnpuFresh w now v → ((w.poll now).shm.entries v).hbmUsed = 0) := by
  have hway : w.shm.Underway w.shm.swapCmd.cmdSeq w.shm.swapCmd.targetVnpuId :=
    .inr ⟨hpending, hout, rfl, rfl⟩
  have hfinished := finished_poll halive hseq htarget hway howes
  refine ⟨hfinished.1, hfinished.2, fun v hv => ⟨fun hfresh => ?_, hbmUsed_poll_of_late hv⟩⟩
  have hused := hbmUsed_poll_of_fresh halive hfresh
  exact ⟨hused, fun hle => hused.trans (uncount_eq_sub _ _ hle)⟩

/-- A die with a pending swap-out of vNPU 3 in the given epoch. Its first process is active,
uses memory and carries the mark of the epoch; its last heartbeat was at time 1. -/
def owedByTheDead (seq : Nat) : Watched :=
  let process : ProcessEntry := { empty with
    active := true, lastHeartbeatNs := 1, hbmUsed := 10, ackPendingSeq := seq }
  let cmd : SwapCmd :=
    { targetVnpuId := 3, action := .out, completed := false, refcount := 1, cmdSeq := seq }
  let st := (create "die").modifyEntry 3 fun e => { e with hbmUsed := 30 }
  { pool := Tlsf.init 4096
    shm := { st.modifySlot 3 .first fun _ => process with
      vnpuBitmap := fun v => v = 3, swapCmd := cmd }
    lastAlive := some fun _ => 0 }

theorem owedByTheDead_givenUp (seq : Nat) (i : Slot) :
    ((owedByTheDead seq).shm.slot 3 i).GivenUp 6000000000 processAliveTimeoutNs := by
  by_cases hi : i = .first
  · subst hi
    right
    have hlate : 1 ≤ 6000000000 ∧ processAliveTimeoutNs < 6000000000 - 1 := by decide
    exact ⟨Nat.one_ne_zero, hlate⟩
  · left
    simp [owedByTheDead, slot, modifySlot, ShmState.modifyEntry, hi,
      create, VnpuShmEntry.zero, empty]

theorem poll_completes_owedByTheDead : (owedByTheDead 1).shm.marker 3 .first = 1 ∧
      ((owedByTheDead 1).poll 6000000000).shm.swapCmd.completed = true ∧
      (((owedByTheDead 1).poll 6000000000).shm.entries 3).hbmUsed = 20 := by
  have hreaped : reaped 6000000000 (owedByTheDead 1).shm 3 = [(3, .first)] := by decide +kernel
  have hfresh : VnpuFresh (owedByTheDead 1) 6000000000 3 := fun alive halive _ hne => by
    cases halive
    exact absurd rfl hne
  obtain ⟨hdone, -, hused⟩ := poll_completes (owedByTheDead 1) 6000000000 rfl rfl rfl
    Nat.one_ne_zero (by decide) fun i _ => owedByTheDead_givenUp 1 i
  refine ⟨rfl, hdone, ?_⟩
  rw [((hused 3 (by decide)).1 hfresh).1, hreaped]
  rfl

/-- A poll leaves a command alone that has no epoch. -/
theorem swapCmd_poll_of_no_epoch (w : Watched) (now : Nat) (h : w.shm.swapCmd.cmdSeq = 0) :
    (w.poll now).shm.swapCmd = w.shm.swapCmd := by
  refine poll_induction (P := fun w' => w'.shm.swapCmd = w.shm.swapCmd) ?_ ?_ ?_ ?_ ?_ rfl now
  · intro w' v i hw'
    have hseq : w'.shm.swapCmd.cmdSeq = 0 := hw' ▸ h
    rw [← hw', shm_onShm, ShmState.proxyAckProcess, if_pos hseq, ite_self, ite_self]
  · exact fun w' v i hw' => (swapCmd_shmFreePerProcess (w'.pool, w'.shm) v i).trans hw'
  · exact fun w' v f _ hw' => hw'
  · exact fun w' alive hw' => hw'
  · intro w' hw'
    have hseq : w'.shm.swapCmd.cmdSeq = 0 ∨
        maxVnpuPerDie ≤ w'.shm.swapCmd.targetVnpuId := .inl (hw' ▸ h)
    rw [← hw', shm_onShm, ShmState.tryCompleteSwapCmd, if_pos hseq, ite_self]

/-- A command that is pending without an epoch stays pending, though every slot has been given
up. -/
theorem pending_without_epoch :
    ¬ ∀ (w : Watched) (now : Nat), w.lastAlive.isSome → w.shm.swapCmd.completed = false →
      w.shm.swapCmd.action = .out →
      (∀ i, w.shm.marker w.shm.swapCmd.targetVnpuId i = w.shm.swapCmd.cmdSeq →
        (w.shm.slot w.shm.swapCmd.targetVnpuId i).GivenUp now processAliveTimeoutNs) →
      (w.poll now).shm.swapCmd.completed = true := by
  intro h
  have hdone := h (owedByTheDead 0) 6000000000 rfl rfl rfl fun i _ => owedByTheDead_givenUp 0 i
  rw [swapCmd_poll_of_no_epoch _ _ rfl] at hdone
  cases hdone

end Watched

end UbsVirt.Enpu
