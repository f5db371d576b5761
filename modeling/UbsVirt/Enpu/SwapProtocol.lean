import UbsVirt.Enpu.Epoch
import UbsVirt.Enpu.SwapHook
import UbsVirt.Enpu.SwapResolver

/-!
# The swap protocol of a die

The manager and the runtime processes of one die, in steps as small as the accesses to what
they share. A process has two threads: its monitor swaps out when a command asks for it
(`swap_monitor_thread.c:43-170`), and the thread that called into the runtime swaps in
before it goes on (`swap_hook.c:115-210`); both hold the tracker's lock while they work on
the records. The resolver takes buffers back slot by slot (`swap_resolver.c:376-422`).
-/

namespace UbsVirt.Enpu

/-- Where the monitor thread of a process is. From `seen` on it works for an epoch. -/
inductive Monitor where
  | idle
  /-- It has read a swap-out command for its vNPU, but not yet its number. -/
  | looking
  /-- It has noted the epoch as seen. -/
  | seen (seq : Nat)
  /-- The process is not swapped out and its vNPU has an entry. -/
  | ready (seq : Nat)
  /-- It holds the lock and copies record `next` to `offset`. -/
  | copying (seq offset act next : Nat)
  /-- `swap_size` is written, the lock is still held. -/
  | published (seq act : Nat)
  | acking (seq : Nat)
  deriving DecidableEq

namespace Monitor

def epoch : Monitor → Option Nat
  | idle | looking => none
  | seen seq | ready seq | copying seq _ _ _ | published seq _ | acking seq => some seq

def locked : Monitor → Bool
  | copying .. | published .. => true
  | _ => false

end Monitor

/-- Where the thread that swaps in is; it holds the tracker's lock unless it is idle. -/
inductive App where
  | idle
  /-- The process was found swapped out; room is being made. -/
  | waiting
  /-- `swap_size` was `used`; record `next` is brought back. -/
  | restoring (used next : Nat)
  deriving DecidableEq

/-- A registered runtime process. -/
structure Proc where
  vnpu : Nat
  slot : Slot
  records : List Record
  lastSeen : Nat
  monitor : Monitor
  app : App

/-- What a process does. -/
inductive ProcStep where
  | look
  | readSeq
  | test
  | start (collected : Bool)
  | copy (ok : Bool)
  | publish
  | flag
  | ack
  | lock
  | read
  | restore (outcome : Record.Restore)
  | finish
  | malloc (ptr size : Nat) (physical : Bool) (outcome : TrackerAdd)
  | free (ptr : Nat)
  deriving DecidableEq

namespace Proc

def entry (a : Proc) (st : ShmState) : ProcessEntry :=
  st.slot a.vnpu a.slot

/-- One step of a process, with the shared state. A step that is not the next one of its
thread, or that waits for the lock, changes nothing. -/
def step (g : ℕ+) (st : ShmState) (a : Proc) : ProcStep → ShmState × Proc
  -- the monitor: `swap_monitor_thread.c:62-93`
  | .look =>
    if a.monitor = .idle ∧ st.swapCmd.action = .out ∧ st.swapCmd.targetVnpuId = a.vnpu then
      (st, { a with monitor := .looking })
    else (st, a)
  | .readSeq =>
    if a.monitor = .looking then
      if st.swapCmd.cmdSeq = a.lastSeen then (st, { a with monitor := .idle })
      else (st, { a with lastSeen := st.swapCmd.cmdSeq, monitor := .seen st.swapCmd.cmdSeq })
    else (st, a)
  | .test =>
    match a.monitor with
    | .seen seq =>
      if (a.entry st).swapped || !st.bitmapTest a.vnpu then (st, { a with monitor := .acking seq })
      else (st, { a with monitor := .ready seq })
    | _ => (st, a)
  -- `collected` tells whether the list of records could be built
  | .start collected =>
    match a.monitor with
    | .ready seq =>
      if a.app ≠ .idle then (st, a)
      else if !collected || a.records.isEmpty then (st, { a with monitor := .acking seq })
      else (st, { a with monitor := .copying seq (a.entry st).swapOffset 0 0 })
    | _ => (st, a)
  | .copy ok =>
    match a.monitor with
    | .copying seq offset act next =>
      match a.records[next]? with
      | none => (st, a)
      | some r =>
        let (r', offset', act') := r.swapOut ok offset act
        (st, { a with
          records := a.records.set next r'
          monitor := .copying seq offset' act' (next + 1) })
    | _ => (st, a)
  -- lines 118-148: nothing is published when nothing was copied
  | .publish =>
    match a.monitor with
    | .copying seq _ act next =>
      if next < a.records.length then (st, a)
      else if act = 0 then (st, { a with monitor := .acking seq })
      else (st.publishSwapSize a.vnpu a.slot act, { a with monitor := .published seq act })
    | _ => (st, a)
  | .flag =>
    match a.monitor with
    | .published seq act =>
      (st.finishSwapOut a.vnpu a.slot act, { a with monitor := .acking seq })
    | _ => (st, a)
  | .ack =>
    match a.monitor with
    | .acking seq => ((st.tryAckSwapCmd a.vnpu a.slot seq).2, { a with monitor := .idle })
    | _ => (st, a)
  -- the caller: `swap_hook.c:126-157`
  | .lock =>
    if a.app = .idle ∧ a.monitor.locked = false ∧ (a.entry st).swapped = true then
      (st, { a with app := .waiting })
    else (st, a)
  | .read =>
    if a.app = .waiting then (st, { a with app := .restoring (a.entry st).swapSize 0 })
    else (st, a)
  | .restore outcome =>
    match a.app with
    | .restoring used next =>
      match a.records[next]? with
      | none => (st, a)
      | some r =>
        (st, { a with
          records := a.records.set next (r.swapIn g outcome)
          app := .restoring used (next + 1) })
    | _ => (st, a)
  | .finish =>
    match a.app with
    | .restoring used next =>
      if next < a.records.length then (st, a)
      else (st.finishSwapIn a.vnpu a.slot used, { a with app := .idle })
    | _ => (st, a)
  -- `swap_hook_malloc_mem` and `swap_hook_free_mem` with their physical variants
  | .malloc ptr size physical outcome =>
    if a.app = .idle ∧ a.monitor.locked = false then
      let (ok, records) := trackerAdd outcome a.records ptr size physical
      (if ok then st.addUsed a.vnpu a.slot size else st, { a with records := records })
    else (st, a)
  | .free ptr =>
    if a.app = .idle ∧ a.monitor.locked = false then
      match trackerFind a.records ptr with
      | none => (st, a)
      | some r => (st.subUsed a.vnpu a.slot r.size,
          { a with records := trackerRemove a.records ptr })
    else (st, a)

end Proc

/-- The operations of a die that are the manager's own, and the signs of life it reads. -/
def DieOp.byManager : DieOp → Bool
  | .writeSwapCmd .. | .initState .. | .poll .. | .heartbeat .. | .alive .. | .addEntry ..
  | .freeBuffers .. | .removeEntry .. | .recoverEntry .. => true
  | .proxyAck .. | .tryComplete | .tryAck .. | .register .. | .unregister .. => false

/-- A die with its processes. `pass` is the bitmap a pass of
`swap_resolver_check_and_swap_in` has read, while it is under way. -/
structure SwapState where
  die : Watched
  pass : Option (Nat → Bool)
  procs : Nat → Option Proc

/-- The steps of the protocol. Processes are named by numbers that stand for their pids. -/
inductive SwapStep where
  | manager (op : DieOp) (h : op.byManager = true)
  | allocBuffer (v : Nat) (i : Slot) (size : Nat) (header : Bool)
  | freeBuffer (v : Nat) (i : Slot)
  | passBegin
  | passVisit (v : Nat) (i : Slot)
  | passEnd
  | register (p v now : Nat)
  | exit (p : Nat)
  | crash (p : Nat)
  | proc (p : Nat) (a : ProcStep)

namespace SwapState

def setProc (s : SwapState) (p : Nat) (a : Option Proc) : SwapState :=
  { s with procs := Function.update s.procs p a }

/-- The state after a step. A crashed process leaves its slot as it is. -/
def step (g : ℕ+) (s : SwapState) : SwapStep → SwapState
  | .manager op _ => { s with die := s.die.step op }
  | .allocBuffer v i size header => { s with die := (s.die.allocSlot header v i size).getD s.die }
  | .freeBuffer v i => { s with die := s.die.freeSlot v i }
  | .passBegin =>
    if s.die.shm.swapCmd.completed then { s with pass := some s.die.shm.bitmapTest } else s
  | .passVisit v i =>
    match s.pass with
    | some bitmap => if bitmap v then { s with die := s.die.reclaimSlot v i } else s
    | none => s
  | .passEnd => { s with pass := none }
  | .register p v now =>
    match s.procs p, s.die.shm.registerProcess v now with
    | none, (some i, st) =>
      { s with die := { s.die with shm := st } }.setProc p (some
        { vnpu := v, slot := i, records := [], lastSeen := s.die.shm.swapCmd.cmdSeq
          monitor := .idle, app := .idle })
    | _, _ => s
  | .exit p =>
    match s.procs p with
    | some a => { s with die := s.die.onShm (·.unregisterProcess a.vnpu a.slot) }.setProc p none
    | none => s
  | .crash p => s.setProc p none
  | .proc p b =>
    match s.procs p with
    | some a =>
      let r := a.step g s.die.shm b
      { s with die := { s.die with shm := r.1 } }.setProc p (some r.2)
    | none => s

def init (dieId : String) (pool : Tlsf.Pool) (lastAlive : Option (Nat → Nat)) : SwapState :=
  { die := ⟨pool, .create dieId, lastAlive⟩, pass := none, procs := fun _ => none }

end SwapState

end UbsVirt.Enpu
