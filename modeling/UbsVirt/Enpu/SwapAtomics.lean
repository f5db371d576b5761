import UbsVirt.Enpu.SwapCommand
import UbsVirt.Lib.Interleaving
import UbsVirt.Lib.Run

/-!
# Swap commands, access by access

The operations on a swap command are called by different threads and processes at the same
time. Those of the manager take its lock; the acknowledgement of a runtime process does not.
Here every operation is split into its accesses to the shared state, and a step of the system
is one access of one thread. An operation that nothing comes between does what the functions of
`SwapCommand` say. Source: `enpu-manager/core/src/shm_manager.c:594-831`,
`enpu-manager/core/src/swap_resolver.c:288-297`, `vcann-rt/src/shm_manager.c:245-319`.

Only swap-out commands are written. What the resolver checks besides the completion of the
previous command only makes it write fewer of them, and is left out.
-/

namespace UbsVirt.Enpu

open Interleaving Run ShmState List Function Config

namespace ShmState

def setCompleted (st : ShmState) (b : Bool) : ShmState :=
  { st with swapCmd := { st.swapCmd with completed := b } }

def setAction (st : ShmState) (action : SwapAction) : ShmState :=
  { st with swapCmd := { st.swapCmd with action := action } }

def setRefcount (st : ShmState) (count : Nat) : ShmState :=
  { st with swapCmd := { st.swapCmd with refcount := count } }

def incCmdSeq (st : ShmState) : ShmState :=
  { st with swapCmd := { st.swapCmd with cmdSeq := st.swapCmd.cmdSeq + 1 } }

def setTarget (st : ShmState) (v : Nat) : ShmState :=
  { st with swapCmd := { st.swapCmd with targetVnpuId := v } }

def setOutTarget (st : ShmState) (v : Nat) (toSwapOut : SwapOutFlag) : ShmState :=
  { st with
    swapOutCmd :=
      if toSwapOut ≠ .none then { st.swapOutCmd with targetVnpuId := v } else st.swapOutCmd }

/-- Complete the swap-out request if it is for the vNPU of the command. -/
def completeOut (st : ShmState) : ShmState :=
  { st with
    swapOutCmd :=
      if st.swapCmd.targetVnpuId = st.swapOutCmd.targetVnpuId then
        { st.swapOutCmd with completed := true }
      else st.swapOutCmd }

def setMarker (st : ShmState) (v : Nat) (i : Slot) (seq : Nat) : ShmState :=
  st.modifySlot v i fun pe => { pe with ackPendingSeq := seq }

section

variable {st : ShmState} {v seq count : Nat} {i : Slot} {b : Bool}

@[simp]
theorem setCompleted_swapCmd :
    (st.setCompleted b).swapCmd = { st.swapCmd with completed := b } := rfl

@[simp]
theorem setAction_swapCmd {action : SwapAction} :
    (st.setAction action).swapCmd = { st.swapCmd with action := action } := rfl

@[simp]
theorem setRefcount_swapCmd :
    (st.setRefcount count).swapCmd = { st.swapCmd with refcount := count } := rfl

@[simp]
theorem incCmdSeq_swapCmd :
    st.incCmdSeq.swapCmd = { st.swapCmd with cmdSeq := st.swapCmd.cmdSeq + 1 } := rfl

@[simp]
theorem setTarget_swapCmd : (st.setTarget v).swapCmd = { st.swapCmd with targetVnpuId := v } := rfl

@[simp]
theorem setOutTarget_swapCmd {toSwapOut : SwapOutFlag} :
    (st.setOutTarget v toSwapOut).swapCmd = st.swapCmd := rfl

@[simp]
theorem completeOut_swapCmd : st.completeOut.swapCmd = st.swapCmd := rfl

@[simp]
theorem setMarker_swapCmd : (st.setMarker v i seq).swapCmd = st.swapCmd := rfl

@[simp]
theorem clearMarker_swapCmd : (st.clearMarker v i).swapCmd = st.swapCmd := rfl

@[simp]
theorem decRefcount_swapCmd :
    st.decRefcount.swapCmd = { st.swapCmd with refcount := st.swapCmd.refcount - 1 } := rfl

end

end ShmState

/-- The shared state of a die, and the thread that holds the lock of the manager. -/
structure CmdShared (ι : Type) where
  shm : ShmState
  lock : Option ι

/-- The operations: `shm_try_ack_swap_cmd`, `swap_resolver_write_swap_command` with
`SWAP_ACTION_OUT`, `shm_manager_proxy_ack_process`, `shm_manager_try_complete_swap_cmd`. -/
inductive CmdOp where
  | tryAck (v : Nat) (i : Slot) (seq : Nat)
  | write (v : Nat) (toSwapOut : SwapOutFlag)
  | proxyAck (v : Nat) (i : Slot)
  | tryComplete

/-- Where a thread is: the access it makes next. Between the slots of a loop there is none. -/
inductive CmdPc where
  | idle
  /-- `shm_try_ack_swap_cmd`, `vcann-rt/src/shm_manager.c:298-319`. -/
  | ackExchange (v : Nat) (i : Slot) (seq : Nat)
  | ackSub (v seq : Nat)
  /-- `swap_cmd_finish_if_epoch`, `:281-296`. -/
  | ackSeq (v seq : Nat)
  | ackAction (v seq : Nat)
  | ackScan (v seq : Nat) (rest : List Slot)
  | ackSeqAgain (seq : Nat)
  /-- `shm_ack_swap_cmd`, and `swap_cmd_mark_completed_locked` with the lock. -/
  | storeCompleted (seq : Nat) (locked : Bool)
  | storeAction (seq : Nat) (locked : Bool)
  | storeOut (locked : Bool)
  /-- `swap_resolver_write_swap_command`, `swap_resolver.c:288-297`. -/
  | seeCompleted (v : Nat) (toSwapOut : SwapOutFlag)
  /-- `shm_manager_write_swap_cmd`, `shm_manager.c:594-660`. -/
  | lockWrite (v : Nat) (toSwapOut : SwapOutFlag)
  | storeTarget (v : Nat) (toSwapOut : SwapOutFlag)
  | storeOutTarget (v : Nat) (toSwapOut : SwapOutFlag)
  | addSeq (v : Nat)
  | loadActive (v seq : Nat) (rest : List Slot) (count : Nat)
  | storeMarker (v seq : Nat) (i : Slot) (rest : List Slot) (count : Nat)
  | storeRefcount (count : Nat)
  | resetCompleted (count : Nat)
  | publish
  /-- `shm_manager_proxy_ack_process`, `:740-791`. -/
  | lockProxy (v : Nat) (i : Slot)
  | proxyAction (v : Nat) (i : Slot)
  | proxySeq (v : Nat) (i : Slot)
  | proxyExchange (v : Nat) (i : Slot) (seq : Nat)
  | proxySub (v seq : Nat)
  /-- `shm_manager_try_complete_swap_cmd`, `:793-831`. -/
  | lockTry
  | tryCompleted
  | tryAction
  | trySeq
  | tryTarget (seq : Nat)
  /-- `swap_cmd_has_pending_ack_locked`, `:694-707`. -/
  | pendingEntry (v seq : Nat)
  | pendingScan (v seq : Nat) (rest : List Slot)
  | unlock
deriving DecidableEq

/-- The first access of an operation; the arguments are checked before it. -/
def CmdOp.entry : CmdOp → CmdPc
  | .tryAck v i seq => if maxVnpuPerDie ≤ v ∨ seq = 0 then .idle else .ackExchange v i seq
  | .write v toSwapOut => if maxVnpuPerDie ≤ v then .idle else .seeCompleted v toSwapOut
  | .proxyAck v i => if maxVnpuPerDie ≤ v then .idle else .lockProxy v i
  | .tryComplete => .lockTry

section

variable {ι : Type}

def CmdShared.acquire (c : CmdShared ι) (p : ι) (here next : CmdPc) : CmdShared ι × CmdPc :=
  match c.lock with
  | none => ({ c with lock := some p }, next)
  | some _ => (c, here)

@[simp]
theorem CmdShared.acquire_shm {c : CmdShared ι} {p : ι} {here next : CmdPc} :
    (c.acquire p here next).1.shm = c.shm := by
  unfold acquire
  split <;> rfl

/-- The next access of thread `p`. -/
def perform (p : ι) (c : CmdShared ι) : CmdPc → CmdShared ι × CmdPc
  | .idle => (c, .idle)
  | .ackExchange v i seq =>
    ({ c with shm := c.shm.clearMarker v i },
      if c.shm.marker v i ≠ seq then .idle else .ackSub v seq)
  | .ackSub v seq => ({ c with shm := c.shm.decRefcount }, .ackSeq v seq)
  | .ackSeq v seq => (c, if c.shm.swapCmd.cmdSeq ≠ seq then .idle else .ackAction v seq)
  | .ackAction v seq =>
    (c, if c.shm.swapCmd.action ≠ .out then .idle else .ackScan v seq allSlots)
  | .ackScan _ seq [] => (c, .ackSeqAgain seq)
  | .ackScan v seq (i :: rest) =>
    (c, if c.shm.marker v i = seq then .idle else .ackScan v seq rest)
  | .ackSeqAgain seq =>
    (c, if c.shm.swapCmd.cmdSeq ≠ seq then .idle else .storeCompleted seq false)
  | .storeCompleted seq locked => ({ c with shm := c.shm.setCompleted true }, .storeAction seq locked)
  | .storeAction _ locked => ({ c with shm := c.shm.setAction .none }, .storeOut locked)
  | .storeOut locked => ({ c with shm := c.shm.completeOut }, if locked then .unlock else .idle)
  | .seeCompleted v toSwapOut =>
    (c, if c.shm.swapCmd.completed then .lockWrite v toSwapOut else .idle)
  | .lockWrite v toSwapOut => c.acquire p (.lockWrite v toSwapOut) (.storeTarget v toSwapOut)
  | .storeTarget v toSwapOut => ({ c with shm := c.shm.setTarget v }, .storeOutTarget v toSwapOut)
  | .storeOutTarget v toSwapOut => ({ c with shm := c.shm.setOutTarget v toSwapOut }, .addSeq v)
  | .addSeq v =>
    ({ c with shm := c.shm.incCmdSeq }, .loadActive v (c.shm.swapCmd.cmdSeq + 1) allSlots 0)
  | .loadActive _ _ [] count => (c, .storeRefcount count)
  | .loadActive v seq (i :: rest) count =>
    (c, if (c.shm.slot v i).active then .storeMarker v seq i rest count
      else .loadActive v seq rest count)
  | .storeMarker v seq i rest count =>
    ({ c with shm := c.shm.setMarker v i seq }, .loadActive v seq rest (count + 1))
  | .storeRefcount count => ({ c with shm := c.shm.setRefcount count }, .resetCompleted count)
  | .resetCompleted count => ({ c with shm := c.shm.setCompleted (count == 0) }, .publish)
  | .publish => ({ c with shm := c.shm.setAction .out }, .unlock)
  | .lockProxy v i => c.acquire p (.lockProxy v i) (.proxyAction v i)
  | .proxyAction v i => (c, if c.shm.swapCmd.action ≠ .out then .unlock else .proxySeq v i)
  | .proxySeq v i =>
    (c, if c.shm.swapCmd.cmdSeq = 0 then .unlock else .proxyExchange v i c.shm.swapCmd.cmdSeq)
  | .proxyExchange v i seq =>
    ({ c with shm := c.shm.clearMarker v i },
      if c.shm.marker v i ≠ seq then .unlock else .proxySub v seq)
  | .proxySub v seq => ({ c with shm := c.shm.decRefcount }, .pendingEntry v seq)
  | .lockTry => c.acquire p .lockTry .tryCompleted
  | .tryCompleted => (c, if c.shm.swapCmd.completed then .unlock else .tryAction)
  | .tryAction => (c, if c.shm.swapCmd.action ≠ .out then .unlock else .trySeq)
  | .trySeq => (c, .tryTarget c.shm.swapCmd.cmdSeq)
  | .tryTarget seq =>
    (c, if seq = 0 ∨ maxVnpuPerDie ≤ c.shm.swapCmd.targetVnpuId then .unlock
      else .pendingEntry c.shm.swapCmd.targetVnpuId seq)
  | .pendingEntry v seq =>
    (c, if c.shm.bitmapTest v then .pendingScan v seq allSlots else .storeCompleted seq true)
  | .pendingScan _ seq [] => (c, .storeCompleted seq true)
  | .pendingScan v seq (i :: rest) =>
    (c, if c.shm.marker v i = seq then .unlock else .pendingScan v seq rest)
  | .unlock => ({ c with lock := none }, .idle)

/-- The steps of the system: a thread calls an operation, or makes its next access. -/
inductive CmdStep (ι : Type) where
  | call (p : ι) (op : CmdOp)
  | access (p : ι)

abbrev CmdSystem (ι : Type) := Config ι (CmdShared ι) CmdPc

variable [DecidableEq ι]

def CmdSystem.step (s : CmdSystem ι) : CmdStep ι → CmdSystem ι
  | .call p op => if s.control p = .idle then s.act p (s.shared, op.entry) else s
  | .access p => s.act p (perform p s.shared (s.control p))

def CmdSystem.init (st : ShmState) : CmdSystem ι where
  shared := ⟨st, none⟩
  control := fun _ => .idle

end

open CmdSystem (step init)

/-! ### An operation that nothing comes between -/

/-- What an operation does to the shared state. -/
def CmdOp.result (st : ShmState) : CmdOp → ShmState
  | .tryAck v i seq => (st.tryAckSwapCmd v i seq).2
  | .write v toSwapOut => if st.swapCmd.completed then (st.writeSwapCmd v .out toSwapOut).2 else st
  | .proxyAck v i => st.proxyAckProcess v i
  | .tryComplete => st.tryCompleteSwapCmd

section

variable {ι : Type} {p : ι} {c : CmdShared ι} {r r' r'' : CmdShared ι × CmdPc}

/-- Thread `p` comes from one place to another by accesses of its own. -/
def Leads (p : ι) (r r' : CmdShared ι × CmdPc) : Prop :=
  ∃ k, (fun r : CmdShared ι × CmdPc => perform p r.1 r.2)^[k] r = r'

theorem Leads.refl (r : CmdShared ι × CmdPc) : Leads p r r := ⟨0, rfl⟩

theorem Leads.head (h : Leads p (perform p r.1 r.2) r') : Leads p r r' := by
  obtain ⟨k, hk⟩ := h
  exact ⟨k + 1, hk⟩

theorem Leads.trans (h : Leads p r r') (h' : Leads p r' r'') : Leads p r r'' := by
  obtain ⟨k, rfl⟩ := h
  obtain ⟨k', rfl⟩ := h'
  exact ⟨k' + k, iterate_add_apply _ k' k r⟩

/-- Both branches of an access come to the end, and so does the access. -/
theorem Leads.cond {q : Prop} [Decidable q] {x y : CmdPc} {st st' : ShmState} {l : Option ι}
    (hpos : q → Leads p (c, x) (⟨st, l⟩, .idle)) (hneg : ¬ q → Leads p (c, y) (⟨st', l⟩, .idle)) :
    Leads p (c, if q then x else y) (⟨if q then st else st', l⟩, .idle) := by
  by_cases hq : q
  · rw [if_pos hq, if_pos hq]
    exact hpos hq
  · rw [if_neg hq, if_neg hq]
    exact hneg hq

variable {v seq : Nat} {st st' : ShmState}

/-- A scan of the marks stops at a slot that owes the epoch. -/
theorem leads_scan (scan : List Slot → CmdPc) {stop done : CmdPc} {l : Option ι}
    (hnil : perform p c (scan []) = (c, done)) (hcons : ∀ i rest, perform p c (scan (i :: rest)) =
      (c, if c.shm.marker v i = seq then stop else scan rest))
    (hstop : Leads p (c, stop) (⟨st, l⟩, .idle)) (hdone : Leads p (c, done) (⟨st', l⟩, .idle))
    (rest : List Slot) : Leads p (c, scan rest)
      (⟨if rest.any (fun i => c.shm.marker v i == seq) then st else st', l⟩, .idle) := by
  induction rest with
  | nil =>
    apply Leads.head
    rwa [hnil]
  | cons i rest ih =>
    apply Leads.head
    simp only [hcons, any_cons, Bool.or_eq_true, ite_or, beq_iff_eq]
    exact .cond (fun _ => hstop) fun _ => ih

/-- The stores of a completion do what `markCompleted` does. -/
theorem leads_storeCompleted (seq : Nat) (locked : Bool) : Leads p (c, .storeCompleted seq locked)
      ({ c with shm := c.shm.markCompleted }, if locked then .unlock else .idle) :=
  .head (.head (.head (.refl _)))

theorem leads_unlock : Leads p (c, .unlock) (⟨c.shm, none⟩, .idle) :=
  .head (.refl _)

/-- With the lock held, the marker scan and the completion. -/
theorem leads_pendingEntry (v seq : Nat) : Leads p (c, .pendingEntry v seq)
      (⟨if c.shm.hasPendingAck v seq then c.shm else c.shm.markCompleted, none⟩, .idle) := by
  have hcomplete : Leads p (c, .storeCompleted seq true) (⟨c.shm.markCompleted, none⟩, .idle) :=
    (leads_storeCompleted seq true).trans leads_unlock
  have hpend : (if c.shm.hasPendingAck v seq then c.shm else c.shm.markCompleted) =
      if c.shm.bitmapTest v then
        if allSlots.any fun i => c.shm.marker v i == seq then c.shm else c.shm.markCompleted
      else c.shm.markCompleted := by
    cases hbit : c.shm.bitmapTest v <;> simp [hasPendingAck, hbit, anySlot, marker]
  rw [hpend]
  exact .head (.cond (fun _ => leads_scan (.pendingScan v seq) rfl (fun _ _ => rfl) leads_unlock
    hcomplete allSlots) fun _ => hcomplete)

theorem leads_finishIfEpoch (hv : v < maxVnpuPerDie) (hseq : seq ≠ 0) :
    Leads p (c, .ackSeq v seq) ({ c with shm := c.shm.finishIfEpoch v seq }, .idle) := by
  have hdone : (!c.shm.swapAckDone v seq) = allSlots.any fun i => c.shm.marker v i == seq := by
    simp [swapAckDone, Nat.not_le.mpr hv, hseq, anySlot, marker]
  unfold finishIfEpoch
  rw [hdone]
  refine .head (.cond (fun _ => .refl _) fun hepoch => .head (.cond (fun _ => .refl _) fun _ => ?_))
  refine leads_scan (.ackScan v seq) rfl (fun _ _ => rfl) (.refl _) (.head ?_) allSlots
  rw [perform, if_neg hepoch]
  exact leads_storeCompleted seq false

theorem leads_tryAck (i : Slot) : Leads p (c, CmdOp.entry (.tryAck v i seq))
    ({ c with shm := (c.shm.tryAckSwapCmd v i seq).2 }, .idle) := by
  have hres : (c.shm.tryAckSwapCmd v i seq).2 = if maxVnpuPerDie ≤ v ∨ seq = 0 then c.shm
      else if c.shm.marker v i ≠ seq then c.shm.clearMarker v i
      else (c.shm.clearMarker v i).decRefcount.finishIfEpoch v seq := by
    unfold tryAckSwapCmd
    split_ifs <;> rfl
  rw [hres]
  exact .cond (fun _ => .refl _) fun hargs => .head (.cond (fun _ => .refl _) fun _ =>
    .head (leads_finishIfEpoch (by omega) (by omega)))

theorem leads_proxyAck (i : Slot) : Leads p (⟨st, none⟩, CmdOp.entry (.proxyAck v i))
    (⟨st.proxyAckProcess v i, none⟩, .idle) :=
  .cond (fun _ => .refl _) fun _ => .head (.head (.cond (fun _ => leads_unlock) fun _ =>
    .head (.cond (fun _ => leads_unlock) fun _ => .head (.cond (fun _ => leads_unlock) fun _ =>
      .head (leads_pendingEntry v _)))))

theorem leads_tryComplete :
    Leads p (⟨st, none⟩, .lockTry) (⟨st.tryCompleteSwapCmd, none⟩, .idle) := by
  unfold tryCompleteSwapCmd
  rw [ite_or]
  exact .head (.head (.cond (fun _ => leads_unlock) fun _ => .head (.cond (fun _ => leads_unlock)
    fun _ => .head (.head (.cond (fun _ => leads_unlock) fun _ => leads_pendingEntry _ _)))))

def ShmState.markSlot (v seq : Nat) (st : ShmState) (i : Slot) : ShmState :=
  if (st.slot v i).active then st.setMarker v i seq else st

theorem ShmState.active_markSlot (v seq : Nat) (st : ShmState) (i j : Slot) :
    ((st.markSlot v seq i).slot v j).active = (st.slot v j).active := by
  unfold markSlot
  split
  · unfold setMarker
    rw [slot_modifySlot]
    split
    · next h =>
      rw [h.2]
    · rfl
  · rfl

/-- The loop of `shm_manager_write_swap_cmd`. -/
theorem leads_loadActive (v seq : Nat) (rest : List Slot) (count : Nat) :
    Leads p (c, .loadActive v seq rest count) ({ c with shm := rest.foldl (markSlot v seq) c.shm },
        .storeRefcount (count + (rest.filter fun i => (c.shm.slot v i).active).length)) := by
  induction rest generalizing c count with
  | nil => exact .head (.refl _)
  | cons i rest ih =>
    have hrest := ih (c := { c with shm := c.shm.markSlot v seq i })
    simp only [active_markSlot] at hrest
    apply Leads.head
    by_cases hi : (c.shm.slot v i).active = true
    · have hmark : c.shm.markSlot v seq i = c.shm.setMarker v i seq := if_pos hi
      rw [perform, if_pos hi, foldl_cons, hmark]
      apply Leads.head
      simpa [perform, hi, hmark, Nat.add_assoc, Nat.add_comm 1] using hrest (count + 1)
    · simpa [perform, markSlot, hi] using hrest count

/-- Marking the active slots one after the other marks all of them. -/
theorem ShmState.foldl_markSlot (v seq : Nat) (rest : List Slot) (st : ShmState) :
    rest.foldl (markSlot v seq) st = st.modifyEntry v fun e =>
      { e with
        processes := fun i =>
          if i ∈ rest ∧ (e.processes i).active then { e.processes i with ackPendingSeq := seq }
          else e.processes i } := by
  induction rest generalizing st with
  | nil =>
    show st = { st with entries := _ }
    simp
  | cons i rest ih =>
    rw [foldl_cons, ih]
    unfold markSlot ShmState.slot
    split
    all_goals
      next ha =>
      simp only [setMarker, modifySlot, modifyEntry, update_self, update_idem]
      congr 3
      funext j
      by_cases hj : j = i
      · subst hj
        simp [ha]
      · simp [hj]

theorem ShmState.foldl_markSlot_allSlots (v seq : Nat) (st : ShmState) :
    allSlots.foldl (markSlot v seq) st = st.markActive v seq := by
  rw [foldl_markSlot]
  unfold markActive
  simp only [mem_allSlots, true_and]

theorem leads_write (hv : v < maxVnpuPerDie) (toSwapOut : SwapOutFlag) :
    Leads p (⟨st, none⟩, .lockWrite v toSwapOut)
      (⟨(st.writeSwapCmd v .out toSwapOut).2, none⟩, .idle) := by
  have hres : (st.writeSwapCmd v .out toSwapOut).2 = ((((((st.setTarget v).setOutTarget v
      toSwapOut).incCmdSeq.markActive v (st.swapCmd.cmdSeq + 1)).setRefcount
      (allSlots.filter fun i => (st.slot v i).active).length).setCompleted
      ((allSlots.filter fun i => (st.slot v i).active).length == 0)).setAction .out) := by
    unfold writeSwapCmd
    rw [if_neg (Nat.not_le.mpr hv)]
    rfl
  apply Leads.head
  apply Leads.head
  apply Leads.head
  apply Leads.head
  apply (leads_loadActive v (st.swapCmd.cmdSeq + 1) allSlots 0).trans
  rw [foldl_markSlot_allSlots, Nat.zero_add]
  rw [hres]
  exact .head (.head (.head (.head (.refl _))))

/-- An operation that nothing comes between does what its result says. -/
theorem leads_result (op : CmdOp) (st : ShmState) :
    Leads p (⟨st, none⟩, op.entry) (⟨op.result st, none⟩, .idle) := by
  cases op with
  | tryAck v i seq => exact leads_tryAck i
  | write v toSwapOut =>
    by_cases hv : maxVnpuPerDie ≤ v
    · have hres : CmdOp.result st (.write v toSwapOut) = st := by
        simp [CmdOp.result, writeSwapCmd, hv]
      rw [hres, CmdOp.entry, if_pos hv]
      exact .refl _
    · rw [CmdOp.entry, if_neg hv]
      exact .head (.cond (fun _ => leads_write (by omega) toSwapOut) fun _ => .refl _)
  | proxyAck v i => exact leads_proxyAck i
  | tryComplete => exact leads_tryComplete

end

section

variable {ι : Type} [DecidableEq ι]

theorem exec_access (p : ι) (k : Nat) (s : CmdSystem ι) :
    exec step s (replicate k (.access p)) =
      s.act p ((fun r : CmdShared ι × CmdPc => perform p r.1 r.2)^[k] (s.shared, s.control p)) := by
  induction k generalizing s with
  | zero => exact act_self.symm
  | succ k ih =>
    have hstep : s.step (.access p) = s.act p (perform p s.shared (s.control p)) := rfl
    rw [replicate_succ, exec_cons, ih, hstep, act_act, act_shared,
      act_control_self, iterate_succ_apply]

/-- The system of accesses refines the operations: a thread that calls one while the others are
idle, and is not interrupted, comes to what the operation says. -/
theorem exec_call_alone (p : ι) (op : CmdOp) (st : ShmState) :
    ∃ k, exec step (init st) (.call p op :: replicate k (.access p)) =
      init (op.result st) := by
  obtain ⟨k, hk⟩ := leads_result (p := p) op st
  refine ⟨k, ?_⟩
  have hcall : (init st).step (.call p op) =
      (init st).act p (⟨st, none⟩, op.entry) := by
    unfold step
    exact if_pos rfl
  rw [exec_cons, hcall, exec_access, act_act, act_shared, act_control_self, hk]
  show Config.mk _ _ = Config.mk _ _
  rw [show (init st).control = fun _ : ι => CmdPc.idle from rfl]
  congr 1
  exact update_eq_self p (fun _ => CmdPc.idle)

end

end UbsVirt.Enpu
