import UbsVirt.Enpu.SwapProtocol
import UbsVirt.Lib.Maps

/-!
# Swap buffers are taken back only when nobody needs them

`swap_resolver_check_and_swap_in` (`swap_resolver.c:376-422`) releases the swap buffer of an
active process that is not marked as swapped out. The buffer is still needed while the
process has not acknowledged the command it was allocated for, and while one of its records
lies in it. The invariant ties the marks, the flag `swapped` and the records together at
every point of a swap-out and of a swap-in.
-/

namespace UbsVirt.Enpu

open Run Watched List

namespace ShmState

variable {st st' st'' : ShmState}

def NoneOwes (st : ShmState) : Prop :=
  ∀ v i, ¬ st.Owes v i

/-- The marks fit the command, and while a slot owes the command is not completed. -/
structure Guarded (st : ShmState) : Prop where
  epoch : EpochInv st
  owed : ∀ v i, st.Owes v i → st.swapCmd.completed = false

/-- A step that at most clears marks makes no slot owe. -/
theorem owes_of_cleared (hseq : st'.swapCmd.cmdSeq = st.swapCmd.cmdSeq)
    (hmark : ∀ v i, st'.marker v i = st.marker v i ∨ st'.marker v i = 0) (v : Nat) (i : Slot)
    (h : st'.Owes v i) : st.Owes v i := by
  obtain ⟨hne, hm⟩ := h
  rw [hseq] at hne hm
  rcases hmark v i with heq | hz
  · exact ⟨hne, heq ▸ hm⟩
  · exact absurd (hm.symm.trans hz) hne

theorem Quiet.owes (h : Quiet st st') (v : Nat) (i : Slot) : st'.Owes v i → st.Owes v i :=
  owes_of_cleared (by rw [h.1]) h.2 v i

theorem Quiet.guarded (h : Quiet st st') (hg : Guarded st) : Guarded st' where
  epoch := h.inv hg.epoch
  owed v i howes := by
    rw [h.1]
    exact hg.owed v i (h.owes v i howes)

theorem Progress.owes (h : Progress st st') (v : Nat) (i : Slot) : st'.Owes v i → st.Owes v i :=
  owes_of_cleared h.cmdSeq h.marker v i

/-- Acknowledging keeps the marks fit if what it completes is settled. -/
theorem Progress.guarded (h : Progress st st') (hg : Guarded st)
    (hs : st.swapCmd.completed = false → st'.swapCmd.completed = true → st'.Settled) :
    Guarded st' where
  epoch := h.inv hg.epoch
  owed v i howes := by
    have howes₀ := h.owes v i howes
    have hopen := hg.owed v i howes₀
    rcases h.command with ⟨hc, -⟩ | ⟨hout, hc, -, -⟩
    · rw [hc, hopen]
    · have hv : v = st'.swapCmd.targetVnpuId := by
        rw [h.target]
        exact hg.epoch.target hout v i howes₀.2
      subst hv
      exact absurd howes (hs hopen hc i)

/-! ### What a step leaves alone -/

/-- What a process relies on in its own slot and in the command. -/
structure Frame (st st' : ShmState) (v : Nat) (i : Slot) : Prop where
  active : (st'.slot v i).active = (st.slot v i).active
  swapped : (st'.slot v i).swapped = (st.slot v i).swapped
  marker : st'.marker v i = st.marker v i
  cmdSeq : st'.swapCmd.cmdSeq = st.swapCmd.cmdSeq
  command : st'.swapCmd.action = .out →
    st.swapCmd.action = .out ∧ st'.swapCmd.targetVnpuId = st.swapCmd.targetVnpuId

variable {v : Nat}

theorem Frame.of_slot {i : Slot} (hcmd : st'.swapCmd = st.swapCmd)
    (hslot : st'.slot v i = st.slot v i) : Frame st st' v i where
  active := by rw [hslot]
  swapped := by rw [hslot]
  marker := by unfold ShmState.marker; rw [hslot]
  cmdSeq := by rw [hcmd]
  command h := ⟨hcmd ▸ h, by rw [hcmd]⟩

/-- Only swap ranges and counters change: the command, the flags and the marks stay. -/
structure Untouched (st st' : ShmState) : Prop where
  command : st'.swapCmd = st.swapCmd
  active : ∀ v i, (st'.slot v i).active = (st.slot v i).active
  swapped : ∀ v i, (st'.slot v i).swapped = (st.slot v i).swapped
  marker : ∀ v i, st'.marker v i = st.marker v i

namespace Untouched

theorem refl (st : ShmState) : Untouched st st :=
  ⟨rfl, fun _ _ => rfl, fun _ _ => rfl, fun _ _ => rfl⟩

theorem trans (h : Untouched st st') (h' : Untouched st' st'') : Untouched st st'' where
  command := h'.command.trans h.command
  active v i := (h'.active v i).trans (h.active v i)
  swapped v i := (h'.swapped v i).trans (h.swapped v i)
  marker v i := (h'.marker v i).trans (h.marker v i)

theorem quiet (h : Untouched st st') : Quiet st st' :=
  ⟨h.command, fun v i => .inl (h.marker v i)⟩

theorem frame (h : Untouched st st') (v : Nat) (i : Slot) : Frame st st' v i where
  active := h.active v i
  swapped := h.swapped v i
  marker := h.marker v i
  cmdSeq := by rw [h.command]
  command ha := ⟨h.command ▸ ha, by rw [h.command]⟩

theorem modifySlot {i : Slot} {f : ProcessEntry → ProcessEntry}
    (hf : ∀ pe, (f pe).active = pe.active ∧ (f pe).swapped = pe.swapped ∧
      (f pe).ackPendingSeq = pe.ackPendingSeq) : Untouched st (st.modifySlot v i f) := by
  have hslot : ∀ w j, ((st.modifySlot v i f).slot w j).active = (st.slot w j).active ∧
      ((st.modifySlot v i f).slot w j).swapped = (st.slot w j).swapped ∧
      (st.modifySlot v i f).marker w j = st.marker w j := by
    intro w j
    unfold ShmState.marker
    rw [slot_modifySlot]
    split
    · next h =>
      rw [h.1, h.2]
      exact hf _
    · exact ⟨rfl, rfl, rfl⟩
  exact ⟨rfl, fun w j => (hslot w j).1, fun w j => (hslot w j).2.1, fun w j => (hslot w j).2.2⟩

theorem modifyEntry {f : VnpuShmEntry → VnpuShmEntry}
    (hf : ∀ e, (f e).processes = e.processes) : Untouched st (st.modifyEntry v f) := by
  refine ⟨rfl, fun w j => ?_, fun w j => ?_, fun w j => marker_modifyEntry st v w j hf⟩
  · rw [slot_modifyEntry st v w j hf]
  · rw [slot_modifyEntry st v w j hf]

theorem shmFreePerProcess (ps : Tlsf.Pool × ShmState) (v : Nat) (i : Slot) :
    Untouched ps.2 (shmFreePerProcess ps v i).2 := by
  simp only [UbsVirt.Enpu.shmFreePerProcess]
  split
  · exact refl _
  · dsimp only
    apply modifySlot
    exact fun _ => ⟨rfl, rfl, rfl⟩

theorem shmFree (ps : Tlsf.Pool × ShmState) (v : Nat) : Untouched ps.2 (shmFree ps v).2 := by
  unfold UbsVirt.Enpu.shmFree
  split
  · exact refl _
  · induction allSlots generalizing ps with
    | nil => exact refl _
    | cons i is ih => exact (shmFreePerProcess ps v i).trans (ih _)

theorem addUsed (v : Nat) (i : Slot) (size : Nat) : Untouched st (st.addUsed v i size) := by
  unfold ShmState.addUsed
  split
  · refine (modifyEntry ?_).trans (modifySlot fun _ => ⟨rfl, rfl, rfl⟩)
    exact fun _ => rfl
  · exact refl st

theorem subUsed (v : Nat) (i : Slot) (size : Nat) : Untouched st (st.subUsed v i size) := by
  unfold ShmState.subUsed
  split
  · refine (modifyEntry ?_).trans (modifySlot fun _ => ⟨rfl, rfl, rfl⟩)
    exact fun _ => rfl
  · exact refl st

end Untouched

/-! ### Local steps -/

/-- A step on one slot, as the rest of the die sees it. -/
structure Local (st st' : ShmState) (v : Nat) (i : Slot) : Prop where
  others : ∀ w j, w ≠ v ∨ j ≠ i → st'.slot w j = st.slot w j
  cmdSeq : st'.swapCmd.cmdSeq = st.swapCmd.cmdSeq
  command : st'.swapCmd.action = .out →
    st.swapCmd.action = .out ∧ st'.swapCmd.targetVnpuId = st.swapCmd.targetVnpuId
  owes : ∀ w j, st'.Owes w j → st.Owes w j
  guarded : Guarded st'

namespace Local

variable {v : Nat} {i : Slot}

theorem frame (h : Local st st' v i) {w : Nat} {j : Slot} (hne : w ≠ v ∨ j ≠ i) :
    Frame st st' w j where
  active := by rw [h.others w j hne]
  swapped := by rw [h.others w j hne]
  marker := by unfold ShmState.marker; rw [h.others w j hne]
  cmdSeq := h.cmdSeq
  command := h.command

theorem of_quiet (hq : Quiet st st') (hg : Guarded st)
    (hothers : ∀ w j, w ≠ v ∨ j ≠ i → st'.slot w j = st.slot w j) : Local st st' v i where
  others := hothers
  cmdSeq := by rw [hq.1]
  command h := ⟨hq.1 ▸ h, by rw [hq.1]⟩
  owes := hq.owes
  guarded := hq.guarded hg

theorem refl (hg : Guarded st) : Local st st v i :=
  of_quiet ⟨rfl, fun _ _ => .inl rfl⟩ hg fun _ _ _ => rfl

theorem counted (hg : Guarded st) (h : Counted st st' v i) : Local st st' v i :=
  of_quiet h.quiet hg h.others

theorem modifySlot (hg : Guarded st) {f : ProcessEntry → ProcessEntry}
    (hf : ∀ pe, (f pe).ackPendingSeq = pe.ackPendingSeq ∨ (f pe).ackPendingSeq = 0) :
    Local st (st.modifySlot v i f) v i :=
  of_quiet (quiet_modifySlot hf) hg fun _ _ hne => slot_modifySlot_of_ne hne

theorem tryAckSwapCmd (hg : Guarded st) (seq : Nat) :
    Local st (st.tryAckSwapCmd v i seq).2 v i := by
  obtain ⟨hp, hs⟩ := tryAckSwapCmd_spec hg.epoch v i seq
  refine ⟨fun w j hne => ?_, hp.cmdSeq, ?_, hp.owes, hp.guarded hg hs⟩
  · exact acked_tryAckSwapCmd.slot_of_ne hne
  · intro hout
    rcases hp.command with ⟨-, ha⟩ | ⟨-, -, ha, -⟩
    · exact ⟨ha ▸ hout, hp.target⟩
    · rw [ha] at hout; cases hout

end Local

end ShmState

variable {st : ShmState}

theorem ShmState.slot_markActive (v seq w : Nat) (j : Slot) :
    ((st.markActive v seq).slot w j).active = (st.slot w j).active ∧
      ((st.markActive v seq).slot w j).swapped = (st.slot w j).swapped := by
  unfold slot markActive modifyEntry
  by_cases hw : w = v
  · subst hw
    simp only [Function.update_self]
    split <;> exact ⟨rfl, rfl⟩
  · simp [hw]

/-! ### What holds of a process -/

open ShmState

/-- What a monitor knows of the flag `swapped` of its slot and of the records: when the process
is not swapped out, none of its records is, except while they are copied. -/
def Monitor.Knows (swapped : Bool) (allIn : Prop) : Monitor → Prop
  | .ready _ => swapped = false ∧ allIn
  | .copying _ _ act _ => act = 0 → allIn
  | .published _ _ => True
  | _ => swapped = false → allIn

namespace Monitor.Knows

variable {m : Monitor} {swapped : Bool} {allIn allIn' : Prop}

theorem imp (h : m.Knows swapped allIn) (himp : allIn → allIn') : m.Knows swapped allIn' := by
  cases m with
  | ready seq => exact ⟨h.1, himp h.2⟩
  | published seq act => trivial
  | _ => exact himp ∘ h

theorem of_allIn (hs : swapped = false) (h : allIn) : m.Knows swapped allIn := by
  cases m with
  | ready seq => exact ⟨hs, h⟩
  | published seq act => trivial
  | _ => exact fun _ => h

theorem allIn_of_home (h : m.Knows swapped allIn) (hs : swapped = false) (hl : m.locked = false) :
    allIn := by
  cases m with
  | ready seq => exact h.2
  | copying seq offset act next => cases hl
  | published seq act => cases hl
  | _ => exact h hs

end Monitor.Knows

def Proc.AllIn (a : Proc) : Prop := ∀ r ∈ a.records, r.swapped = false

/-- A running process is active. A command of its vNPU that it has not seen is marked on its
slot, and while it works for an epoch it owes that one. -/
structure ProcOk (st : ShmState) (a : Proc) : Prop where
  active : (a.entry st).active = true
  unseen : st.swapCmd.action = .out → st.swapCmd.targetVnpuId = a.vnpu →
    a.lastSeen ≠ st.swapCmd.cmdSeq → st.marker a.vnpu a.slot = st.swapCmd.cmdSeq
  busy : ∀ seq, a.monitor.epoch = some seq →
    a.lastSeen = seq ∧ st.swapCmd.cmdSeq = seq ∧ st.Owes a.vnpu a.slot
  knows : a.monitor.Knows (a.entry st).swapped a.AllIn

namespace ProcOk

variable {st st' : ShmState} {a : Proc}

theorem frame (h : ProcOk st a) (hf : Frame st st' a.vnpu a.slot) : ProcOk st' a where
  active := hf.active.trans h.active
  unseen hout htarget hne := by
    obtain ⟨hout₀, htarget₀⟩ := hf.command hout
    rw [hf.marker, hf.cmdSeq]
    rw [hf.cmdSeq] at hne
    exact h.unseen hout₀ (htarget₀ ▸ htarget) hne
  busy seq hseq := by
    obtain ⟨hlast, hcmd, hne, hmark⟩ := h.busy seq hseq
    refine ⟨hlast, hf.cmdSeq.trans hcmd, ?_, ?_⟩
    · rwa [hf.cmdSeq]
    · rwa [hf.marker, hf.cmdSeq]
  knows := by
    rw [Proc.entry, hf.swapped]
    exact h.knows

/-- A process that nobody waits for does not hold its records. -/
theorem not_locked (h : ProcOk st a) (hnone : NoneOwes st) : a.monitor.locked = false := by
  have hidle : ∀ seq, a.monitor.epoch ≠ some seq := fun seq hseq =>
    hnone _ _ (h.busy seq hseq).2.2
  cases hm : a.monitor with
  | copying seq offset act next | published seq act => exact absurd (by rw [hm]; rfl) (hidle seq)
  | _ => rfl

/-- The monitor moves on within an epoch, or stops. -/
theorem setMonitor (h : ProcOk st a) {m : Monitor}
    (hepoch : m.epoch = a.monitor.epoch ∨ m.epoch = none)
    (hknows : m.Knows (a.entry st).swapped a.AllIn) : ProcOk st { a with monitor := m } where
  active := h.active
  unseen := h.unseen
  busy seq hseq := by
    rcases hepoch with heq | hnone
    · exact h.busy seq (heq ▸ hseq)
    · cases hnone.symm.trans hseq
  knows := hknows

/-- The records change so that none is newly swapped out. -/
theorem setRecords (h : ProcOk st a) {records : List Record} (app : App)
    (hr : a.AllIn → ∀ r ∈ records, r.swapped = false) :
    ProcOk st { a with records := records, app := app } where
  active := h.active
  unseen := h.unseen
  busy := h.busy
  knows := h.knows.imp hr

end ProcOk

/-! ### Steps of a process -/

namespace Proc

variable {st : ShmState} {a : Proc}

/-- When a process may take a step: the command it has found is still the one in force when
it reads its number, and a swap-in is declared finished once every record is back. -/
def MayStep (st : ShmState) (a : Proc) : ProcStep → Prop
  | .readSeq => a.monitor = .looking → st.swapCmd.cmdSeq = a.lastSeen ∨
      (st.swapCmd.action = .out ∧ st.swapCmd.targetVnpuId = a.vnpu)
  | .finish => ∀ used next, a.app = .restoring used next → used ≠ 0 → a.records.length ≤ next →
      ∀ r ∈ a.records, r.swapped = false
  | _ => True

theorem step_place (g : ℕ+) (b : ProcStep) :
    (a.step g st b).2.vnpu = a.vnpu ∧ (a.step g st b).2.slot = a.slot := by
  cases b <;> simp only [step] <;> (repeat' split) <;> exact ⟨rfl, rfl⟩

/-- A step touches its own slot of the shared memory only. -/
theorem step_local (g : ℕ+) (hg : Guarded st) (b : ProcStep) :
    Local st (a.step g st b).1 a.vnpu a.slot := by
  have hsame : Local st st a.vnpu a.slot := .refl hg
  cases b with
  | publish =>
    simp only [step]
    split
    · split
      · exact hsame
      split
      · exact hsame
      · dsimp only [publishSwapSize]
        apply Local.modifySlot hg
        exact fun _ => .inl rfl
    · exact hsame
  | flag =>
    simp only [step]
    split
    · exact .counted hg (counted_finishSwapOut _)
    · exact hsame
  | ack =>
    simp only [step]
    split
    · exact Local.tryAckSwapCmd hg _
    · exact hsame
  | finish =>
    simp only [step]
    split
    · split
      · exact hsame
      · exact .counted hg (counted_finishSwapIn _)
    · exact hsame
  | malloc ptr size physical outcome =>
    simp only [step]
    split
    · split
      · exact .counted hg (counted_addUsed size)
      · exact hsame
    · exact hsame
  | free ptr =>
    simp only [step]
    split
    · split
      · exact hsame
      · exact .counted hg (counted_subUsed _)
    · exact hsame
  | _ => simp only [step]; (repeat' split) <;> exact hsame

end Proc

namespace ProcOk

variable {st : ShmState} {a : Proc}

section

variable (h : ProcOk st a)
include h

theorem copy (g : ℕ+) (ok : Bool) :
    ProcOk (a.step g st (.copy ok)).1 (a.step g st (.copy ok)).2 := by
  simp only [Proc.step]
  split
  swap
  · exact h
  next seq offset act next hm =>
  split
  · exact h
  next r hr =>
  have hmem : r ∈ a.records := mem_of_getElem? hr
  have hknows := h.knows
  rw [hm] at hknows
  refine ⟨h.active, h.unseen, fun seq' hseq => h.busy seq' (by rw [hm]; exact hseq), ?_⟩
  -- a record that is copied has bytes, so nothing was copied before and nothing is now
  intro hact r' hr'
  by_cases hskip : (r.swapped || !ok) = true
  · simp only [Record.swapOut, hskip, if_true] at hact hr'
    exact hknows hact r' ((mem_or_eq_of_mem_set hr').elim id (· ▸ hmem))
  · simp only [Record.swapOut, hskip] at hact
    have hsum : act + r.size = 0 := hact
    have hsize := r.size_pos
    omega

theorem restore (g : ℕ+) (outcome : Record.Restore) :
    ProcOk (a.step g st (.restore outcome)).1 (a.step g st (.restore outcome)).2 := by
  simp only [Proc.step]
  split
  swap
  · exact h
  split
  · exact h
  next r hr =>
  refine h.setRecords _ fun hall r' hr' => ?_
  rcases mem_or_eq_of_mem_set hr' with hold | rfl
  · exact hall r' hold
  · have hr₀ := hall r (mem_of_getElem? hr)
    simp [Record.swapIn, hr₀]

theorem readSeq (hi : EpochInv st) (g : ℕ+) (hmay : a.MayStep st .readSeq) :
    ProcOk (a.step g st .readSeq).1 (a.step g st .readSeq).2 := by
  simp only [Proc.step]
  split
  swap
  · exact h
  next hm =>
  have hknows := h.knows
  rw [hm] at hknows
  split
  · exact h.setMonitor (.inr rfl) hknows
  next hne =>
  rcases hmay hm with hseen | ⟨hout, htarget⟩
  · exact absurd hseen hne
  have hmark := h.unseen hout htarget (Ne.symm hne)
  refine ⟨h.active, fun _ _ hbad => absurd rfl hbad, ?_, hknows⟩
  intro seq hseq
  cases hseq
  exact ⟨rfl, rfl, hi.pos hout, hmark⟩

theorem publish (g : ℕ+) : ProcOk (a.step g st .publish).1 (a.step g st .publish).2 := by
  simp only [Proc.step]
  split
  swap
  · exact h
  next seq offset act next hm =>
  have hknows := h.knows
  rw [hm] at hknows
  split
  · exact h
  split
  · next hact => exact h.setMonitor (.inl (by rw [hm]; rfl)) fun _ => hknows hact
  · have hu : Untouched st (st.publishSwapSize a.vnpu a.slot act) := by
      apply Untouched.modifySlot
      exact fun _ => ⟨rfl, rfl, rfl⟩
    exact (h.frame (hu.frame _ _)).setMonitor (.inl (by rw [hm]; rfl)) trivial

/-- The flag `swapped` of the process changes, and nothing else it relies on. -/
theorem setSwapped {st' : ShmState} (hcmd : st'.swapCmd = st.swapCmd)
    (hactive : (a.entry st').active = (a.entry st).active)
    (hmark : st'.marker a.vnpu a.slot = st.marker a.vnpu a.slot)
    (hknows : a.monitor.Knows (a.entry st').swapped a.AllIn) : ProcOk st' a where
  active := hactive.trans h.active
  unseen := by
    rw [hcmd, hmark]
    exact h.unseen
  busy seq hseq := by
    unfold Owes
    rw [hcmd, hmark]
    exact h.busy seq hseq
  knows := hknows

theorem flag (g : ℕ+) : ProcOk (a.step g st .flag).1 (a.step g st .flag).2 := by
  simp only [Proc.step]
  split
  swap
  · exact h
  next seq act hm =>
  have hentry : (a.entry (st.finishSwapOut a.vnpu a.slot act)).swapped = true ∧
      (a.entry (st.finishSwapOut a.vnpu a.slot act)).active = (a.entry st).active := by
    simp only [Proc.entry, finishSwapOut, slot_modifySlot_self, true_and]
    rw [slot_modifyEntry]
    exact fun _ => rfl
  have hflag : ProcOk (st.finishSwapOut a.vnpu a.slot act) a :=
    h.setSwapped rfl hentry.2 (counted_finishSwapOut act).mark (by rw [hm]; trivial)
  exact hflag.setMonitor (.inl (by rw [hm]; rfl)) fun hbad => nomatch hentry.1.symm.trans hbad

theorem finish (g : ℕ+) (hmay : a.MayStep st .finish) :
    ProcOk (a.step g st .finish).1 (a.step g st .finish).2 := by
  simp only [Proc.step]
  split
  swap
  · exact h
  next used next happ =>
  split
  · exact h
  next hlen =>
  suffices hdone : ProcOk (st.finishSwapIn a.vnpu a.slot used) a from
    hdone.setRecords .idle id
  by_cases hused : used = 0
  · simpa [finishSwapIn, hused] using h
  have hall := hmay used next happ hused (Nat.not_lt.mp hlen)
  have hcounted : Counted st (st.finishSwapIn a.vnpu a.slot used) a.vnpu a.slot :=
    counted_finishSwapIn used
  have hentry : (a.entry (st.finishSwapIn a.vnpu a.slot used)).swapped = false ∧
      (a.entry (st.finishSwapIn a.vnpu a.slot used)).active = (a.entry st).active := by
    simp only [Proc.entry, finishSwapIn_eq hused, slot_modifySlot_self, true_and]
    rw [slot_modifyEntry]
    exact fun _ => rfl
  exact h.setSwapped hcounted.cmd hentry.2 hcounted.mark (.of_allIn hentry.1 hall)

theorem ack (hi : EpochInv st) (g : ℕ+) : ProcOk (a.step g st .ack).1 (a.step g st .ack).2 := by
  simp only [Proc.step]
  split
  swap
  · exact h
  next seq hm =>
  obtain ⟨hlast, hcmd, -⟩ := h.busy seq (by rw [hm]; rfl)
  have hp := (tryAckSwapCmd_spec hi a.vnpu a.slot seq).1
  have hacked : Acked st (st.tryAckSwapCmd a.vnpu a.slot seq).2 a.vnpu a.slot :=
    acked_tryAckSwapCmd
  have hactive := hacked.keeps ProcessEntry.active (fun _ => rfl) a.vnpu a.slot
  have hswapped := hacked.keeps ProcessEntry.swapped (fun _ => rfl) a.vnpu a.slot
  refine ⟨hactive.trans h.active, ?_, nofun, ?_⟩
  · -- the epoch was seen, so it is no longer asked for
    intro _ _ hbad
    rw [hp.cmdSeq] at hbad
    exact absurd (hlast.trans hcmd.symm) hbad
  · exact fun hs => h.knows.allIn_of_home (hswapped.symm.trans hs) (by rw [hm]; rfl)

/-- Every step of a process keeps its own records right. -/
theorem step (hi : EpochInv st) (g : ℕ+) (b : ProcStep)
    (hmay : a.MayStep st b) : ProcOk (a.step g st b).1 (a.step g st b).2 := by
  cases b with
  | look =>
    simp only [Proc.step]
    split
    · next hidle =>
      exact h.setMonitor (.inr rfl) fun hs => h.knows.allIn_of_home hs (by rw [hidle.1]; rfl)
    · exact h
  | readSeq => exact h.readSeq hi g hmay
  | test =>
    simp only [Proc.step]
    split
    swap
    · exact h
    next seq hm =>
    have hknows := h.knows
    rw [hm] at hknows
    split
    · exact h.setMonitor (.inl (by rw [hm]; rfl)) hknows
    · next hgo =>
      rw [Bool.or_eq_true, not_or, Bool.not_eq_true] at hgo
      exact h.setMonitor (.inl (by rw [hm]; rfl)) ⟨hgo.1, hknows hgo.1⟩
  | start collected =>
    simp only [Proc.step]
    split
    swap
    · exact h
    next seq hm =>
    have hknows := h.knows
    rw [hm] at hknows
    split
    · exact h
    split
    · exact h.setMonitor (.inl (by rw [hm]; rfl)) fun _ => hknows.2
    · exact h.setMonitor (.inl (by rw [hm]; rfl)) fun _ => hknows.2
  | copy ok => exact h.copy g ok
  | publish => exact h.publish g
  | flag => exact h.flag g
  | ack => exact h.ack hi g
  | lock =>
    simp only [Proc.step]
    split
    · exact h.setRecords .waiting id
    · exact h
  | read =>
    simp only [Proc.step]
    split
    · exact h.setRecords _ id
    · exact h
  | restore outcome => exact h.restore g outcome
  | finish => exact h.finish g hmay
  | malloc ptr size physical outcome =>
    simp only [Proc.step]
    split
    swap
    · exact h
    have hrecords : a.AllIn →
        ∀ r ∈ (trackerAdd outcome a.records ptr size physical).2, r.swapped = false := by
      intro hall r hr
      unfold trackerAdd at hr
      split at hr
      · exact hall r hr
      · cases outcome with
        | full => exact hall r hr
        | stored | expandFails =>
          rcases mem_append.mp hr with hr | hr
          · exact hall r hr
          · rw [mem_singleton.mp hr]
    split
    · exact (h.frame ((Untouched.addUsed _ _ _).frame _ _)).setRecords a.app hrecords
    · exact h.setRecords a.app hrecords
  | free ptr =>
    simp only [Proc.step]
    split
    swap
    · exact h
    split
    · exact h
    · refine (h.frame ((Untouched.subUsed _ _ _).frame _ _)).setRecords a.app fun hall r hr => ?_
      exact hall r (mem_of_mem_eraseP hr)

end

end ProcOk

/-- A record lies in a range of the swap buffer: it is swapped out and shares a byte with it. -/
def Record.LiesIn (r : Record) (offset size : Nat) : Prop :=
  r.swapped = true ∧
    ∃ x, r.swapOffset ≤ x ∧ x < r.swapOffset + r.size ∧ offset ≤ x ∧ x < offset + size

/-! ### The whole die -/

namespace SwapState

variable {s : SwapState}

/-- The invariant of the protocol. Distinct processes have distinct slots. -/
structure SwapInv (s : SwapState) : Prop where
  guarded : Guarded s.die.shm
  pass : s.pass ≠ none → NoneOwes s.die.shm
  procs : ∀ p a, s.procs p = some a → ProcOk s.die.shm a
  inj : ∀ p q a b, s.procs p = some a → s.procs q = some b →
    a.vnpu = b.vnpu → a.slot = b.slot → p = q

theorem swapInv_init (dieId : String) (pool : Tlsf.Pool) (lastAlive : Option (Nat → Nat)) :
    SwapInv (init dieId pool lastAlive) where
  guarded := ⟨epochInv_create dieId, fun _ _ howes => absurd rfl howes.1⟩
  pass h := absurd rfl h
  procs _ _ h := by cases h
  inj _ _ _ _ h := by cases h

/-- When a step may be taken. A swap-out command is written when the last one is completed
and no pass is under way; the state is initialised when no slot owes; the watchdog looks at
a die whose processes have reported in time and whose command is on a listed vNPU; a vNPU
is set up anew when no process runs on it. -/
def MayStep (s : SwapState) : SwapStep → Prop
  | .manager (.writeSwapCmd _ .out _) _ => s.die.shm.swapCmd.completed = true ∧ s.pass = none
  | .manager (.initState _) _ => NoneOwes s.die.shm
  | .manager (.poll now) _ =>
    (s.die.shm.swapCmd.completed = true ∨ s.die.shm.Listed) ∧
      ∀ p a, s.procs p = some a → s.die.VnpuFresh now a.vnpu ∧
        HeartbeatFresh now (a.entry s.die.shm).lastHeartbeatNs
  | .manager (.addEntry v _) _ =>
    s.die.shm.bitmapTest v = true ∨ ∀ p a, s.procs p = some a → a.vnpu ≠ v
  | .proc p b => ∀ a, s.procs p = some a → a.MayStep s.die.shm b
  | _ => True

namespace SwapInv

variable {d : Watched}

/-- The manager changes the die around the processes. -/
theorem setDie (h : SwapInv s) (hg : Guarded d.shm)
    (howes : ∀ v i, d.shm.Owes v i → s.die.shm.Owes v i)
    (hf : ∀ p a, s.procs p = some a → Frame s.die.shm d.shm a.vnpu a.slot) :
    SwapInv { s with die := d } where
  guarded := hg
  pass hp v i ho := h.pass hp v i (howes v i ho)
  procs p a ha := (h.procs p a ha).frame (hf p a ha)
  inj := h.inj

theorem setDie_of_untouched (h : SwapInv s) (hu : Untouched s.die.shm d.shm) :
    SwapInv { s with die := d } :=
  h.setDie (hu.quiet.guarded h.guarded) hu.quiet.owes fun _ a _ => hu.frame a.vnpu a.slot

variable {p : Nat} {a : Proc}

section

variable (h : SwapInv s)
include h

theorem slot_ne {q : Nat} {b : Proc} (ha : s.procs p = some a)
    (hb : s.procs q = some b) (hne : q ≠ p) : b.vnpu ≠ a.vnpu ∨ b.slot ≠ a.slot := by
  rw [← not_and_or]
  exact fun hsame => hne (h.inj q p b a hb ha hsame.1 hsame.2)

/-- A process gets a state, in a slot that no other process has. -/
theorem putProc (hl : Local s.die.shm st a.vnpu a.slot) (hok : ProcOk st a)
    (hnew : ∀ q b, q ≠ p → s.procs q = some b → b.vnpu ≠ a.vnpu ∨ b.slot ≠ a.slot) :
    SwapInv ({ s with die := { s.die with shm := st } }.setProc p (some a)) where
  guarded := hl.guarded
  pass hp v i ho := h.pass hp v i (hl.owes v i ho)
  procs q b hb := by
    rcases Maps.update_eq_some.mp hb with ⟨-, ⟨rfl⟩⟩ | ⟨hqp, hb⟩
    · exact hok
    · exact (h.procs q b hb).frame (hl.frame (hnew q b hqp hb))
  inj q r b c hb hc hvnpu hslot := by
    apply Maps.apart_update (R := fun b c => b.vnpu = c.vnpu ∧ b.slot = c.slot) _ _ _ q r b c hb hc
    · exact ⟨hvnpu, hslot⟩
    · exact fun hyz => ⟨hyz.1.symm, hyz.2.symm⟩
    · exact fun u v y z hu hv hyz => h.inj u v y z hu hv hyz.1 hyz.2
    · intro v z hv hz hsame
      exact (hnew v z hv hz).elim (· hsame.1.symm) (· hsame.2.symm)

/-- A process takes a step on its own slot. -/
theorem setProc {a' : Proc} (ha : s.procs p = some a)
    (hl : Local s.die.shm st a.vnpu a.slot) (hok : ProcOk st a') (hv : a'.vnpu = a.vnpu)
    (hi : a'.slot = a.slot) :
    SwapInv ({ s with die := { s.die with shm := st } }.setProc p (some a')) := by
  rw [← hv, ← hi] at hl
  apply h.putProc hl hok
  intro q b hqp hb
  rw [hv, hi]
  exact h.slot_ne ha hb hqp

/-- A process leaves. -/
theorem dropProc (p : Nat) (hg : Guarded st) (howes : ∀ v i, st.Owes v i → s.die.shm.Owes v i)
    (hf : ∀ q a, q ≠ p → s.procs q = some a → Frame s.die.shm st a.vnpu a.slot) :
    SwapInv ({ s with die := { s.die with shm := st } }.setProc p none) where
  guarded := hg
  pass hp v i ho := h.pass hp v i (howes v i ho)
  procs q a ha := by
    obtain ⟨hqp, ha⟩ := Maps.update_none_eq_some.mp ha
    exact (h.procs q a ha).frame (hf q a hqp ha)
  inj q r a b ha hb :=
    h.inj q r a b (Maps.update_none_eq_some.mp ha).2 (Maps.update_none_eq_some.mp hb).2

theorem register (g : ℕ+) (p v now : Nat) : SwapInv (s.step g (.register p v now)) := by
  simp only [SwapState.step]
  split
  swap
  · exact h
  next i st hp hreg =>
  obtain ⟨hfree, rfl⟩ := registerProcess_some hreg
  apply h.putProc
  · exact Local.modifySlot h.guarded fun _ => .inr rfl
  · exact ⟨by simp [Proc.entry], fun _ _ hbad => absurd rfl hbad, nofun, fun _ => nofun⟩
  · -- the slot was not active, so it is no other process's
    intro q a _ ha
    by_contra hsame
    rw [not_or, not_not, not_not] at hsame
    have hactive := (h.procs q a ha).active
    rw [Proc.entry, hsame.1, hsame.2, hfree] at hactive
    cases hactive

/-- Writing a swap-out command over a completed one. -/
theorem writeOut (v : Nat) (flag : SwapOutFlag)
    (hdone : s.die.shm.swapCmd.completed = true) (hpass : s.pass = none) :
    SwapInv { s with die := s.die.step (.writeSwapCmd v .out flag) } := by
  have hnone : NoneOwes s.die.shm := by
    intro w j howes
    have hopen := h.guarded.owed w j howes
    rw [hdone] at hopen
    cases hopen
  have hepoch := (writeSwapCmd_spec h.guarded.epoch v .out flag).1
  simp only [Watched.step, onShm]
  by_cases hv : maxVnpuPerDie ≤ v
  · simpa [writeSwapCmd, hv] using h
  simp only [writeSwapCmd, hv, if_false] at hepoch ⊢
  have hmark := @marker_markActive s.die.shm v (s.die.shm.swapCmd.cmdSeq + 1)
  refine ⟨⟨hepoch, fun w j howes => ?_⟩, fun hbad => absurd hpass hbad, fun p a ha => ?_, h.inj⟩
  · -- only active slots of the vNPU carry the new epoch
    have hm : (s.die.shm.markActive v (s.die.shm.swapCmd.cmdSeq + 1)).marker w j =
        s.die.shm.swapCmd.cmdSeq + 1 := howes.2
    rw [hmark] at hm
    split at hm
    · next hactive =>
      simpa using ⟨j, mem_allSlots j, hactive.2⟩
    · have hle := h.guarded.epoch.le w j
      omega
  · have hok := h.procs p a ha
    have hidle : a.monitor.epoch = none := by
      cases hm : a.monitor.epoch with
      | none => rfl
      | some seq => exact absurd (hok.busy seq hm).2.2 (hnone _ _)
    have hslot : ∀ w j, ((s.die.shm.markActive v (s.die.shm.swapCmd.cmdSeq + 1)).slot w j).active =
          (s.die.shm.slot w j).active ∧
        ((s.die.shm.markActive v (s.die.shm.swapCmd.cmdSeq + 1)).slot w j).swapped =
          (s.die.shm.slot w j).swapped := slot_markActive v _
    refine ⟨(hslot _ _).1.trans hok.active, ?_, ?_, ?_⟩
    · intro _ htarget _
      change (s.die.shm.markActive v (s.die.shm.swapCmd.cmdSeq + 1)).marker a.vnpu a.slot =
        s.die.shm.swapCmd.cmdSeq + 1
      have htarget' : v = a.vnpu := htarget
      rw [hmark, if_pos]
      exact ⟨htarget'.symm, htarget' ▸ hok.active⟩
    · intro seq hseq
      rw [hidle] at hseq
      cases hseq
    · have hknows := hok.knows
      rwa [Proc.entry, ← (hslot _ _).2] at hknows

theorem writeOther (v : Nat) {action : SwapAction} (flag : SwapOutFlag)
    (hother : action ≠ .out) : SwapInv { s with die := s.die.step (.writeSwapCmd v action flag) } := by
  have hepoch := (writeSwapCmd_spec h.guarded.epoch v action flag).1
  simp only [Watched.step, onShm]
  by_cases hv : maxVnpuPerDie ≤ v
  · simpa [writeSwapCmd, hv] using h
  cases action with
  | out => exact absurd rfl hother
  | none | «in» =>
    simp only [writeSwapCmd, hv, if_false] at hepoch ⊢
    exact h.setDie ⟨hepoch, fun _ _ _ => rfl⟩ (fun _ _ howes => howes) fun p a _ =>
      ⟨rfl, rfl, rfl, rfl, fun hout => by cases hout⟩

theorem poll (now : Nat) (hlisted : s.die.shm.swapCmd.completed = true ∨ s.die.shm.Listed)
    (hfresh : ∀ p a, s.procs p = some a → s.die.VnpuFresh now a.vnpu ∧
      HeartbeatFresh now (a.entry s.die.shm).lastHeartbeatNs) :
    SwapInv { s with die := s.die.poll now } := by
  have hp := progress_poll now h.guarded.epoch
  refine h.setDie (hp.guarded h.guarded fun hrise hdone => ?_) hp.owes fun p a ha => ?_
  · rcases hlisted with hc | hl
    · rw [hrise] at hc; cases hc
    · exact hp.settled_of_rise hl hrise hdone
  · obtain ⟨hv, hhb⟩ := hfresh p a ha
    obtain ⟨heartbeat, -, hslot⟩ := slot_poll_of_fresh (h.procs p a ha).active hv hhb
    refine ⟨by rw [hslot], by rw [hslot], ?_, hp.cmdSeq, fun hout => ?_⟩
    · unfold marker; rw [hslot]
    · rcases hp.command with ⟨-, haction⟩ | ⟨-, -, haction, -⟩
      · exact ⟨haction ▸ hout, hp.target⟩
      · rw [haction] at hout; cases hout

/-- A step of the manager that leaves the command alone and at most clears marks. -/
theorem quietStep (hq : Quiet s.die.shm d.shm)
    (hslot : ∀ p a, s.procs p = some a → d.shm.slot a.vnpu a.slot = s.die.shm.slot a.vnpu a.slot) :
    SwapInv { s with die := d } :=
  h.setDie (hq.guarded h.guarded) hq.owes fun p a ha => .of_slot hq.1 (hslot p a ha)

/-- Every manager operation keeps the invariant. -/
theorem manager (g : ℕ+) (op : DieOp) (hop : op.byManager = true)
    (hmay : s.MayStep (.manager op hop)) : SwapInv (s.step g (.manager op hop)) := by
  simp only [SwapState.step]
  cases op with
  | writeSwapCmd v action flag =>
    cases action with
    | out => exact h.writeOut v flag hmay.1 hmay.2
    | none | «in» => exact h.writeOther v flag (by simp)
  | initState hbmTotal =>
    have hi := h.guarded.epoch
    refine h.setDie ⟨⟨hi.le, hi.pos, hi.target⟩, fun v i howes => absurd howes (hmay v i)⟩
      (fun v i howes => howes) fun p a _ => ⟨rfl, rfl, rfl, rfl, fun hout => ⟨hout, rfl⟩⟩
  | poll now => exact h.poll now hmay.1 hmay.2
  | heartbeat v i now =>
    apply h.setDie_of_untouched
    simp only [Watched.step, shm_onShm]
    apply Untouched.modifySlot
    exact fun _ => ⟨rfl, rfl, rfl⟩
  | alive v now => exact h.setDie_of_untouched (Untouched.refl _)
  | addEntry v e =>
    refine h.quietStep (quiet_addEntry v fun _ => rfl) fun p a ha => ?_
    simp only [Watched.step, shm_onShm, addEntry]
    split
    · rfl
    split
    · rfl
    next hbit =>
    have hne : a.vnpu ≠ v := by
      rcases hmay with hb | hfree
      · exact absurd hb hbit
      · exact hfree p a ha
    simp [slot, hne]
  | freeBuffers v => exact h.setDie_of_untouched (Untouched.shmFree (s.die.pool, s.die.shm) v)
  | removeEntry v =>
    refine h.quietStep (quiet_removeEntry v) fun p a _ => ?_
    simp only [Watched.step, shm_onShm, removeEntry]
    split
    · rfl
    split
    · rfl
    · exact slot_modifyEntry s.die.shm v a.vnpu a.slot (f := fun e => { e with vnpuId := -1 })
        fun _ => rfl
  | recoverEntry v e =>
    refine h.quietStep (quiet_recoverEntry v e) fun p a _ => ?_
    exact slot_modifyEntry s.die.shm v a.vnpu a.slot
      (f := fun e' => { e with processes := e'.processes }) fun _ => rfl
  | proxyAck v i => cases hop
  | tryComplete => cases hop
  | tryAck v i seq => cases hop
  | register v now => cases hop
  | unregister v i => cases hop

/-- Every step of the die keeps the invariant. -/
theorem step (g : ℕ+) (b : SwapStep) (hmay : s.MayStep b) : SwapInv (s.step g b) := by
  cases b with
  | manager op hop => exact h.manager g op hop hmay
  | allocBuffer v i size header =>
    apply h.setDie_of_untouched
    simp only [allocSlot]
    split
    · exact Untouched.refl _
    split
    · exact Untouched.refl _
    split
    · exact Untouched.refl _
    · simp only [Option.getD_some]
      apply Untouched.modifySlot
      exact fun _ => ⟨rfl, rfl, rfl⟩
  | freeBuffer v i =>
    exact h.setDie_of_untouched (Untouched.shmFreePerProcess (s.die.pool, s.die.shm) v i)
  | passBegin =>
    simp only [SwapState.step]
    split
    · next hdone =>
      refine ⟨h.guarded, fun _ v i howes => ?_, h.procs, h.inj⟩
      have hopen := h.guarded.owed v i howes
      rw [hdone] at hopen
      cases hopen
    · exact h
  | passVisit v i =>
    simp only [SwapState.step]
    split
    · split
      · apply h.setDie_of_untouched
        simp only [reclaimSlot]
        split
        · exact Untouched.shmFreePerProcess (s.die.pool, s.die.shm) v i
        · exact Untouched.refl _
      · exact h
    · exact h
  | passEnd => exact ⟨h.guarded, fun hbad => absurd rfl hbad, h.procs, h.inj⟩
  | register p v now => exact h.register g p v now
  | exit p =>
    simp only [SwapState.step]
    split
    swap
    · exact h
    next a ha =>
    have hcounted : s.die.shm.Counted (s.die.shm.unregisterProcess a.vnpu a.slot) a.vnpu a.slot :=
      counted_unregisterProcess
    have hq := hcounted.quiet
    refine h.dropProc p (hq.guarded h.guarded) hq.owes fun q b hqp hb => ?_
    exact .of_slot hq.1 (hcounted.others _ _ (h.slot_ne ha hb hqp))
  | crash p =>
    exact h.dropProc p h.guarded (fun _ _ howes => howes) fun q a _ _ => .of_slot rfl rfl
  | proc p b =>
    simp only [SwapState.step]
    split
    swap
    · exact h
    next a ha =>
    have hplace := @Proc.step_place s.die.shm a g b
    exact h.setProc ha (Proc.step_local g h.guarded b)
      ((h.procs p a ha).step h.guarded.epoch g b (hmay a ha)) hplace.1 hplace.2

end

end SwapInv

/-! ### Runs -/

/-- If a pass takes back the buffer of a slot, the slot owes no acknowledgement, and no record
of a process in that slot lies in the buffer. -/
def ReclaimsUnused (g : ℕ+) (s : SwapState) : SwapStep → Prop
  | .passVisit v i =>
    (s.step g (.passVisit v i)).die.shm.slot v i ≠ s.die.shm.slot v i →
      ¬ s.die.shm.Owes v i ∧
      ∀ p a, s.procs p = some a → a.vnpu = v → a.slot = i → ∀ r ∈ a.records,
        ¬ r.LiesIn (s.die.shm.slot v i).swapOffset (s.die.shm.slot v i).swapSize
  | _ => True

theorem SwapInv.reclaimsUnused (h : SwapInv s) (g : ℕ+) (b : SwapStep) : ReclaimsUnused g s b := by
  cases b with
  | passVisit v i =>
    intro hchanged
    simp only [SwapState.step] at hchanged
    split at hchanged
    swap
    · exact absurd rfl hchanged
    next bitmap hpass =>
    split at hchanged
    swap
    · exact absurd rfl hchanged
    simp only [reclaimSlot] at hchanged
    split at hchanged
    swap
    · exact absurd rfl hchanged
    next hreclaim =>
    simp only [Bool.and_eq_true, Bool.not_eq_true'] at hreclaim
    have hnone := h.pass (by rw [hpass]; exact Option.some_ne_none _)
    refine ⟨hnone v i, fun p a ha hv hi r hr hlies => ?_⟩
    subst hv hi
    have hok := h.procs p a ha
    have hclean := hok.knows.allIn_of_home hreclaim.1.2 (hok.not_locked hnone) r hr
    cases hlies.1.symm.trans hclean
  | _ => trivial

/-- In every run on a die whose steps are all taken when they may be, a pass of
`swap_resolver_check_and_swap_in` takes back only buffers nobody needs. -/
theorem reclaims_unused (g : ℕ+) (dieId : String) (pool : Tlsf.Pool)
    (lastAlive : Option (Nat → Nat)) (run : List SwapStep)
    (h : EachStep (step g) MayStep (init dieId pool lastAlive) run) :
    EachStep (step g) (ReclaimsUnused g) (init dieId pool lastAlive) run := by
  apply eachStep_of_invariant (P := SwapInv) (swapInv_init dieId pool lastAlive) _ _ h
  · intro s b hs hmay
    exact hs.step g b hmay
  · intro s b hs _
    exact hs.reclaimsUnused g b

/-- A process with two blocks is swapped out. -/
def swappedOutRun : List SwapStep :=
  [.manager (.initState 64) rfl, .manager (.addEntry 0 .zero) rfl, .register 7 0 1,
    .proc 7 (.malloc 1 64 false .stored), .proc 7 (.malloc 2 64 false .stored),
    .allocBuffer 0 .first 4096 true, .manager (.writeSwapCmd 0 .out .none) rfl,
    .proc 7 .look, .proc 7 .readSeq, .proc 7 .test, .proc 7 (.start true), .proc 7 (.copy true),
    .proc 7 (.copy true), .proc 7 .publish, .proc 7 .flag, .proc 7 .ack]

/-- It is swapped in again, the second block with the given outcome, and its buffer is
taken back. -/
def swappedInRun (second : Record.Restore) : List SwapStep :=
  [.proc 7 .lock, .proc 7 .read, .proc 7 (.restore .ok), .proc 7 (.restore second),
    .proc 7 .finish, .passBegin, .passVisit 0 .first, .passEnd]

theorem swapIn_reclaims_unused :
    EachStep (step 1) (ReclaimsUnused 1) (init "die0" (Tlsf.init 8192) none)
      (swappedOutRun ++ swappedInRun .ok) := by
  apply reclaims_unused
  refine ⟨fun v i howes => absurd rfl howes.1, .inr fun p a ha => (by cases ha), trivial,
    fun _ _ => trivial, fun _ _ => trivial, trivial, ⟨rfl, rfl⟩, fun _ _ => trivial, ?_,
    fun _ _ => trivial, fun _ _ => trivial, fun _ _ => trivial, fun _ _ => trivial,
    fun _ _ => trivial, fun _ _ => trivial, fun _ _ => trivial, fun _ _ => trivial,
    fun _ _ => trivial, fun _ _ => trivial, fun _ _ => trivial, ?_, trivial, trivial, trivial,
    trivial⟩
  · intro a ha _
    cases ha
    exact .inr ⟨rfl, rfl⟩
  · intro a ha used next _ _ _
    cases ha
    decide +kernel

/-- When the second block cannot be brought back, the process still counts as swapped in, and
the buffer with the only copy of the block is taken back. -/
theorem failedSwapIn_reclaims_used :
    ¬ EachStep (step 1) (ReclaimsUnused 1) (init "die0" (Tlsf.init 8192) none)
      (swappedOutRun ++ swappedInRun .failed) := by
  intro h
  have hvisit := (eachStep_append.mp h).2.2.2.2.2.2.2.1
  have hunused := (hvisit (by decide +kernel)).2 7 _ rfl rfl rfl
  exact hunused ⟨2, 64, by decide, false, true, 64⟩ (by decide +kernel)
    ⟨rfl, 64, by decide +kernel, by decide +kernel, by decide +kernel, by decide +kernel⟩

end SwapState

end UbsVirt.Enpu
