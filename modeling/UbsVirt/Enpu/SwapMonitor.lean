import UbsVirt.Enpu.SwapOverlap

/-!
# The swap monitor threads

Every runtime process registers in a slot of its vNPU and runs a monitor thread. The thread
polls the swap command of the die, reads its target, its action and its epoch in separate
accesses, and copies the memory of the process out when all three fit. The manager writes,
completes and acknowledges commands meanwhile. A step of the system is one access of one thread,
or an operation of the manager that does not touch the command. Source:
`vcann-rt/src/swap_monitor_thread.c:43-170`, `vcann-rt/src/npu_manager.c:260-331`,
`enpu-manager/core/src/shm_manager.c:594-831`, `enpu-manager/core/src/pod_watchdog.c:90-187`.

When the watchdog takes a process for dead is not modelled: its stores to the slots come as
steps of their own, at any time. Heartbeats, which only it reads, are left out.
-/

namespace UbsVirt.Enpu

open Interleaving Run

/-! ### Slots -/

/-- The fields of a slot that are reset by a store. -/
inductive SlotField where
  | active
  | swapped
  | hbmUsed
  | swapOffset
  | swapSize
  | ackPendingSeq
  deriving DecidableEq

def ProcessEntry.clear (pe : ProcessEntry) : SlotField → ProcessEntry
  | .active => { pe with active := false }
  | .swapped => { pe with swapped := false }
  | .hbmUsed => { pe with hbmUsed := 0 }
  | .swapOffset => { pe with swapOffset := 0 }
  | .swapSize => { pe with swapSize := 0 }
  | .ackPendingSeq => { pe with ackPendingSeq := 0 }

/-- What `register_to_shm_state` resets in the slot it has taken, in its order,
`npu_manager.c:289-297`. -/
def registerFields : List SlotField :=
  [.swapped, .hbmUsed, .swapOffset, .swapSize, .ackPendingSeq]

/-! ### The monitor thread -/

/-- Where a monitor thread is: the access it makes next. The epoch it handles is the one it has
recorded as seen. -/
inductive MonPc where
  /-- The store before the loop, `swap_monitor_thread.c:57`. -/
  | resetSwapped
  /-- `shm_check_swap_cmd`, `vcann-rt/src/shm_manager.c:232-243`. -/
  | checkTarget
  | checkAction (target : Nat)
  | loadSeq
  | loadSwapped
  /-- `shm_get_entry`, `vcann-rt/src/shm_manager.c:116-134`. -/
  | getEntry
  /-- Under the lock of the tracker, `swap_monitor_thread.c:107-152`. -/
  | collect
  | copy
  | storeSize (bytes : Nat)
  | loadUsed (bytes : Nat)
  | subUsed (bytes dec : Nat)
  | loadVnpuUsed (bytes : Nat)
  | subVnpuUsed (dec : Nat)
  | storeSwapped
  /-- `swap_ack_and_decrement`. -/
  | ack (pc : CmdPc)
  deriving DecidableEq

section

variable {ι : Type}

def CmdShared.modifySlot (c : CmdShared ι) (v : Nat) (i : Slot)
    (f : ProcessEntry → ProcessEntry) : CmdShared ι :=
  { c with shm := c.shm.modifySlot v i f }

def MonPc.startAck (v : Nat) (i : Slot) (lastSeen : Nat) : MonPc :=
  .ack (CmdOp.tryAck v i lastSeen).entry

/-- The next access of the monitor thread `p` of slot `i` of vNPU `v`: what becomes of the shared
state, of the epoch seen last, and where the thread goes on. `n` is what the access finds in the
process itself: the number of its records, or the bytes that were copied. -/
def MonPc.next (p : ι) (n : Nat) (c : CmdShared ι) (v : Nat) (i : Slot) (lastSeen : Nat) :
    MonPc → CmdShared ι × Nat × MonPc
  | .resetSwapped => (c.modifySlot v i (·.clear .swapped), lastSeen, .checkTarget)
  | .checkTarget => (c, lastSeen, .checkAction c.shm.swapCmd.targetVnpuId)
  | .checkAction target =>
    (c, lastSeen,
      match c.shm.swapCmd.action with
      | .none => .checkTarget
      | .in => .checkTarget
      | .out => if target ≠ v then .checkTarget else .loadSeq)
  | .loadSeq =>
    if c.shm.swapCmd.cmdSeq = lastSeen then (c, lastSeen, .checkTarget)
    else (c, c.shm.swapCmd.cmdSeq, .loadSwapped)
  | .loadSwapped =>
    (c, lastSeen, if (c.shm.slot v i).swapped then .startAck v i lastSeen else .getEntry)
  | .getEntry => (c, lastSeen, if c.shm.bitmapTest v then .collect else .startAck v i lastSeen)
  | .collect => (c, lastSeen, if n = 0 then .startAck v i lastSeen else .copy)
  | .copy => (c, lastSeen, if n = 0 then .startAck v i lastSeen else .storeSize n)
  | .storeSize bytes =>
    (c.modifySlot v i ({ · with swapSize := bytes }), lastSeen, .loadUsed bytes)
  | .loadUsed bytes =>
    let dec := min bytes (c.shm.slot v i).hbmUsed
    (c, lastSeen, if 0 < dec then .subUsed bytes dec else .loadVnpuUsed bytes)
  | .subUsed bytes dec =>
    (c.modifySlot v i (fun pe => { pe with hbmUsed := subU64 pe.hbmUsed dec }), lastSeen,
      .loadVnpuUsed bytes)
  | .loadVnpuUsed bytes =>
    let dec := min bytes (c.shm.entries v).hbmUsed
    (c, lastSeen, if 0 < dec then .subVnpuUsed dec else .storeSwapped)
  | .subVnpuUsed dec =>
    ({ c with shm := c.shm.modifyEntry v fun e => { e with hbmUsed := subU64 e.hbmUsed dec } },
      lastSeen, .storeSwapped)
  | .storeSwapped => (c.modifySlot v i ({ · with swapped := true }), lastSeen, .startAck v i lastSeen)
  | .ack .idle => (c, lastSeen, .checkTarget)
  | .ack pc => ((perform p c pc).1, lastSeen, .ack (perform p c pc).2)

end

/-! ### Processes and threads of the manager -/

/-- `unregister_from_shm_state`, `npu_manager.c:308-331`: the access made next. -/
inductive LeavePc where
  | loadUsed
  | subUsed (remaining : Nat)
  | clearUsed
  | clearSwapped
  | clearActive
  deriving DecidableEq

/-- A thread of the manager, or the process a monitor thread belongs to. -/
inductive Thread where
  | manager (pc : CmdPc)
  | absent
  /-- The compare-and-exchange loop of `register_to_shm_state`. -/
  | claiming (v : Nat) (rest : List Slot)
  | resetting (v : Nat) (i : Slot) (fields : List SlotField)
  | recording (v : Nat) (i : Slot)
  | monitor (v : Nat) (i : Slot) (lastSeen : Nat) (pc : MonPc)
  | leaving (v : Nat) (i : Slot) (pc : LeavePc)
  deriving DecidableEq

section

variable {ι : Type}

def LeavePc.next (c : CmdShared ι) (v : Nat) (i : Slot) : LeavePc → CmdShared ι × Thread
  | .loadUsed =>
    let remaining := (c.shm.slot v i).hbmUsed
    (c, .leaving v i (if 0 < remaining then .subUsed remaining else .clearSwapped))
  | .subUsed remaining =>
    ({ c with
        shm := c.shm.modifyEntry v fun e => { e with hbmUsed := subU64 e.hbmUsed remaining } },
      .leaving v i .clearUsed)
  | .clearUsed => (c.modifySlot v i (·.clear .hbmUsed), .leaving v i .clearSwapped)
  | .clearSwapped => (c.modifySlot v i (·.clear .swapped), .leaving v i .clearActive)
  | .clearActive => (c.modifySlot v i (·.clear .active), .absent)

def Thread.next (p : ι) (n : Nat) (c : CmdShared ι) : Thread → CmdShared ι × Thread
  | .manager pc => ((perform p c pc).1, .manager (perform p c pc).2)
  | .absent => (c, .absent)
  | .claiming _ [] => (c, .absent)
  | .claiming v (i :: rest) =>
    if (c.shm.slot v i).active then (c, .claiming v rest)
    else (c.modifySlot v i ({ · with active := true }), .resetting v i registerFields)
  | .resetting v i [] => (c, .recording v i)
  | .resetting v i (field :: fields) =>
    (c.modifySlot v i (·.clear field), .resetting v i fields)
  | .recording v i => (c, .monitor v i c.shm.swapCmd.cmdSeq .resetSwapped)
  | .monitor v i lastSeen pc =>
    let r := pc.next p n c v i lastSeen
    (r.1, .monitor v i r.2.1 r.2.2)
  | .leaving v i pc => pc.next c v i

def CmdOp.byManager : CmdOp → Bool
  | .tryAck _ _ _ => false
  | _ => true

/-- The steps of the system. -/
inductive DieStep (ι : Type) where
  /-- A thread of the manager calls an operation on the command. -/
  | call (p : ι) (op : CmdOp)
  /-- A process of vNPU `v` starts. -/
  | register (p : ι) (v : Nat)
  /-- A thread makes its next access. -/
  | access (p : ι) (n : Nat)
  /-- The monitor thread is stopped between two polls, and its process unregisters. -/
  | leave (p : ι)
  | crash (p : ι)
  /-- The hook of the process has brought its memory back, `swap_hook.c:203`. -/
  | swapIn (p : ι)
  /-- A store of the watchdog to a slot, `pod_watchdog.c:96-105` and `:183-184`. -/
  | watchdog (v : Nat) (i : Slot) (field : SlotField)
  /-- The operations of the allocator, under the lock of the manager. -/
  | addEntry (v : Nat) (e : VnpuShmEntry)
  | removeEntry (v : Nat)
  | initState (hbmTotal : UInt64)

abbrev DieSystem (ι : Type) := Config ι (CmdShared ι) Thread

variable [DecidableEq ι]

def DieSystem.underLock (s : DieSystem ι) (f : ShmState → ShmState) : DieSystem ι :=
  if s.shared.lock = none then { s with shared := { s.shared with shm := f s.shared.shm } } else s

def DieSystem.step (s : DieSystem ι) : DieStep ι → DieSystem ι
  | .call p op =>
    if s.control p = .manager .idle ∧ op.byManager = true then
      s.act p (s.shared, .manager op.entry)
    else s
  | .register p v =>
    if s.control p = .absent ∧ v < maxVnpuPerDie then s.act p (s.shared, .claiming v allSlots)
    else s
  | .access p n => s.act p ((s.control p).next p n s.shared)
  | .leave p =>
    match s.control p with
    | .monitor v i _ .checkTarget => s.act p (s.shared, .leaving v i .loadUsed)
    | _ => s
  | .crash p =>
    match s.control p with
    | .manager _ => s
    | _ => s.act p (s.shared, .absent)
  | .swapIn p =>
    match s.control p with
    | .monitor v i lastSeen pc =>
      s.act p (s.shared.modifySlot v i (·.clear .swapped), .monitor v i lastSeen pc)
    | _ => s
  | .watchdog v i field => { s with shared := s.shared.modifySlot v i (·.clear field) }
  | .addEntry v e => s.underLock fun st => (st.addEntry v e).2
  | .removeEntry v => s.underLock fun st => (st.removeEntry v).2
  | .initState hbmTotal => s.underLock (·.initState hbmTotal)

omit [DecidableEq ι] in
def DieSystem.init (isManager : ι → Bool) (st : ShmState) : DieSystem ι where
  shared := ⟨st, none⟩
  control := fun p => if isManager p then .manager .idle else .absent

end

/-! ### The property and the condition -/

namespace Thread

def slot? : Thread → Option (Nat × Slot)
  | .resetting v i _ | .recording v i | .monitor v i _ _ | .leaving v i _ => some (v, i)
  | _ => none

/-- The monitor thread has read its own vNPU as the target and has not acknowledged yet. -/
def handling : Thread → Bool
  | .monitor v _ _ (.checkAction target) => target == v
  | .monitor _ _ _ .resetSwapped | .monitor _ _ _ .checkTarget => false
  | .monitor _ _ _ (.ack (.ackExchange _ _ _)) => true
  | .monitor _ _ _ (.ack _) => false
  | .monitor _ _ _ _ => true
  | _ => false

end Thread

section

variable {ι : Type}

/-- A swap-out is started only by a process whose slot owes the epoch it has recorded as
seen. -/
def StartsOwn (s : DieSystem ι) : DieStep ι → Prop
  | .access p n => ∀ v i lastSeen, s.control p = .monitor v i lastSeen .collect → n ≠ 0 →
    s.shared.shm.marker v i = lastSeen
  | _ => True

/-- The condition on an access of the manager. A command is written only when the action of the
previous one has been taken back and no monitor thread is handling one; the watchdog
acknowledges only for slots without a process. -/
def MayGoAhead (s : DieSystem ι) : Thread → Prop
  | .manager (.storeTarget _ _) =>
    s.shared.shm.swapCmd.action ≠ .out ∧ ∀ q, (s.control q).handling = false
  | .manager (.proxyExchange v i _) => ∀ q, (s.control q).slot? ≠ some (v, i)
  | _ => True

/-- The condition on a step: besides, the watchdog and the allocator reset only slots without
a process. -/
def MayPoll (s : DieSystem ι) : DieStep ι → Prop
  | .access p _ => MayGoAhead s (s.control p)
  | .watchdog v i _ => ∀ q, (s.control q).slot? ≠ some (v, i)
  | .addEntry v _ => ∀ q, (s.control q).slot?.map Prod.fst ≠ some v
  | _ => True

end

end UbsVirt.Enpu
