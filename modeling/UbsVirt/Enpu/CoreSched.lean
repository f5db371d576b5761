import UbsVirt.Lib.Interleaving
import UbsVirt.Lib.Run
import Mathlib.Data.Int.NatAbs

/-!
# Time slices of the cores

The scheduler threads of the processes that share a die hand the die on from vNPU to vNPU.
The vNPU in `owner` has its turn: one of its processes adds the quota to the time slice of the
vNPU, all of them use the slice granted, wait for their streams, and one of them subtracts the
time that took longest and stores the next owner. Processes of other vNPUs store the next
owner when the owner's heartbeat is old. A control state is the next access to shared memory;
the lock of a vNPU is held between `pthread_mutex_lock` and `pthread_mutex_unlock`.

Source: `vcann-rt/src/core_limiter.c`. Left out are idling and borrowing time slices, which
read the shared memory only to sleep, and the statistics.
-/

namespace UbsVirt.Enpu

open Interleaving Function

/-- `MAX_VNPU`, `npu_manager.h:34`. -/
def maxVnpu : Nat := 100

/-- `VNPU_TIMEOUT_PERIOD`, in ns. `core_limiter.h:46`. -/
def vnpuTimeoutPeriod : Nat := 3000000

/-- A `uint64_t` cast to `int64_t`. -/
def toInt64 (x : Nat) : Int :=
  if x < 2 ^ 63 then x else x - 2 ^ 64

def fetchAdd (x y : Nat) : Nat :=
  (x + y) % 2 ^ 64

def fetchSub (x y : Nat) : Nat :=
  (x + (2 ^ 64 - y % 2 ^ 64)) % 2 ^ 64

/-- What has been done for a vNPU in one turn: how often the quota was added, the slices
granted, and the debts subtracted. -/
structure TurnRecord where
  injections : Nat
  granted : Nat
  debts : Nat
deriving DecidableEq

/-- The turns of a vNPU that are over, the last one first, and the current one. This is not
part of the shared memory: it says what has happened. -/
structure TurnLedger where
  past : List TurnRecord
  now : TurnRecord

namespace TurnLedger

def ended (l : TurnLedger) : Nat := l.past.length

def inject (l : TurnLedger) : TurnLedger :=
  { l with now := { l.now with injections := l.now.injections + 1 } }

def grant (l : TurnLedger) (slice : Nat) : TurnLedger :=
  { l with now := { l.now with granted := l.now.granted + slice } }

def charge (l : TurnLedger) (debt : Nat) : TurnLedger :=
  { l with now := { l.now with debts := l.now.debts + debt } }

def endTurn (l : TurnLedger) : TurnLedger :=
  ⟨l.now :: l.past, ⟨0, 0, 0⟩⟩

end TurnLedger

/-- `vnpu_time_slice_sched_t`, `npu_manager.h:47-66`, with the clock and the ledgers. The
mutex of a vNPU gives the process that holds it. -/
structure SchedContext where
  scheduleMutex : Nat → Option Nat
  lastAliveTime : Nat → Nat
  scheduleTurn : Nat → Nat
  owner : Int
  quotaTimeslice : Nat → Nat
  curTimeslice : Nat → Nat
  quotaInjectedForTurn : Nat → Nat
  syncExpected : Nat → Int
  syncCompleted : Nat → Int
  turnMaxSync : Nat → Nat
  timesliceForTurn : Nat → Nat
  clock : Nat
  ledger : Nat → TurnLedger

/-- `check_timeout`, `core_limiter.c:235-246`. -/
def checkTimeout (last now : Nat) : Bool :=
  if last < now then now - last ≤ vnpuTimeoutPeriod else last - now ≤ vnpuTimeoutPeriod

/-- `is_vnpu_alive`, `core_limiter.c:248-254`. -/
def SchedContext.isVnpuAlive (c : SchedContext) (vnpuId : Int) : Bool :=
  0 ≤ vnpuId ∧ vnpuId < maxVnpu ∧ checkTimeout (c.lastAliveTime vnpuId.toNat) c.clock

/-- `select_next_owner`, `core_limiter.c:288-301`. `seen`: the candidate was found alive and of
normal priority when the loop came to it. -/
def selectNextOwner (seen : Nat → Bool) (vnpuId : Int) : Int :=
  match (List.range maxVnpu).find? fun i => seen ((vnpuId + (i + 1)) % maxVnpu).toNat with
  | some i => (vnpuId + (i + 1)) % maxVnpu
  | none => -1

/-- The locals `turn_id`, `next_vnpu_id` and `timeslice` of the scheduler thread. `number`
counts the turns that were over when the turn was read. -/
structure Turn where
  turnId : Nat
  number : Nat
  nextVnpuId : Int
  timeslice : Nat
deriving DecidableEq

/-- Where a scheduler thread is: the access to shared memory it makes next.
`core_limiter.c:372-432,582-668`. -/
inductive Pc where
  /-- `:593`. -/
  | loadOwner
  /-- `is_vnpu_alive(owner)`, `:601`. -/
  | loadAlive (owner : Int)
  | readClock (owner : Int) (last : Nat)
  /-- `:602`. -/
  | reloadOwner
  | select (vnpuId : Int)
  /-- `set_vnpu_and_idle`, `:603`. -/
  | takeOver (next : Int)
  /-- `add_and_consume_time_slice` from here on, `:375`. -/
  | lockConsume
  | lockFailed
  | loadTurn
  | loadInjected (t : Turn)
  | resetExpected (t : Turn)
  | resetCompleted (t : Turn)
  | resetMaxSync (t : Turn)
  | loadQuota (t : Turn)
  | addQuota (t : Turn) (quota : Nat)
  | loadCur (t : Turn)
  | subSlice (t : Turn) (ts : Nat)
  | storeSlice (t : Turn) (ts : Nat)
  | storeInjected (t : Turn)
  | addExpected (t : Turn)
  | loadOwnerNext (t : Turn)
  | selectNext (t : Turn) (owner : Int)
  | unlockConsume (t : Turn)
  | loadSlice (t : Turn)
  | consume (t : Turn)
  /-- `sync_own_streams_and_measure_ns`, `:623`. -/
  | sync (t : Turn)
  | checkTurn (t : Turn) (mySync : Nat)
  | maxSync (t : Turn) (mySync : Nat)
  | addCompleted (t : Turn)
  /-- `wait_for_sibling_sync`, `:640`. -/
  | waitTurn (t : Turn)
  | waitExpected (t : Turn)
  | waitCompleted (t : Turn) (expected : Int)
  /-- The hand-over, `:643-664`. -/
  | lockHandOver (t : Turn)
  | recheckTurn (t : Turn)
  | loadDebt (t : Turn)
  | subDebt (t : Turn) (debt : Nat)
  | storeOwner (t : Turn)
  | storeTurn (t : Turn)
  | unlockHandOver
  /-- The process is gone. -/
  | exited
deriving DecidableEq

/-- What a step does not decide by itself. -/
structure StepInput where
  /-- `pthread_mutex_lock` fails, other than with `EOWNERDEAD`. -/
  lockFails : Bool
  /-- What the loop of `select_next_owner` sees. -/
  seen : Nat → Bool
  /-- The time the streams took. -/
  syncNs : Nat
  /-- The slice or the time to wait is over. -/
  timeUp : Bool

/-- The next access of a scheduler thread of process `p`, which belongs to `vnpuId`. -/
def access (vnpuId p : Nat) (input : StepInput) (c : SchedContext) : Pc → SchedContext × Pc
  | .loadOwner => (c, if c.owner = vnpuId then .lockConsume else .loadAlive c.owner)
  | .loadAlive owner =>
    if 0 ≤ owner ∧ owner < maxVnpu then (c, .readClock owner (c.lastAliveTime owner.toNat))
    else (c, .reloadOwner)
  | .readClock _ last => (c, if checkTimeout last c.clock then .loadOwner else .reloadOwner)
  | .reloadOwner => (c, .select c.owner)
  | .select owner =>
    (c, if selectNextOwner input.seen owner = -1 then .loadOwner
      else .takeOver (selectNextOwner input.seen owner))
  | .takeOver next => ({ c with owner := next }, .loadOwner)
  | .lockConsume =>
    if input.lockFails then (c, .lockFailed)
    else if c.scheduleMutex vnpuId = none then
      ({ c with scheduleMutex := update c.scheduleMutex vnpuId (some p) }, .loadTurn)
    else (c, .lockConsume)
  | .lockFailed =>
    (c, .addCompleted ⟨c.scheduleTurn vnpuId, (c.ledger vnpuId).ended, -1, 0⟩)
  | .loadTurn => (c, .loadInjected ⟨c.scheduleTurn vnpuId, (c.ledger vnpuId).ended, -1, 0⟩)
  | .loadInjected t =>
    (c, if t.turnId = c.quotaInjectedForTurn vnpuId then .addExpected t else .resetExpected t)
  | .resetExpected t =>
    ({ c with syncExpected := update c.syncExpected vnpuId 0 }, .resetCompleted t)
  | .resetCompleted t =>
    ({ c with syncCompleted := update c.syncCompleted vnpuId 0 }, .resetMaxSync t)
  | .resetMaxSync t =>
    ({ c with turnMaxSync := update c.turnMaxSync vnpuId 0 }, .loadQuota t)
  | .loadQuota t => (c, .addQuota t (c.quotaTimeslice vnpuId))
  | .addQuota t quota =>
    ({ c with
        curTimeslice := update c.curTimeslice vnpuId
          (fetchAdd (c.curTimeslice vnpuId) quota)
        ledger := update c.ledger vnpuId (c.ledger vnpuId).inject }, .loadCur t)
  | .loadCur t =>
    (c, if 0 < toInt64 (c.curTimeslice vnpuId) then
        .subSlice t (toInt64 (c.curTimeslice vnpuId)).toNat
      else .storeSlice t 0)
  | .subSlice t ts =>
    ({ c with
        curTimeslice := update c.curTimeslice vnpuId (fetchSub (c.curTimeslice vnpuId) ts)
        ledger := update c.ledger vnpuId ((c.ledger vnpuId).grant ts) }, .storeSlice t ts)
  | .storeSlice t ts =>
    ({ c with timesliceForTurn := update c.timesliceForTurn vnpuId ts }, .storeInjected t)
  | .storeInjected t =>
    ({ c with quotaInjectedForTurn := update c.quotaInjectedForTurn vnpuId t.turnId },
      .addExpected t)
  | .addExpected t =>
    ({ c with syncExpected := update c.syncExpected vnpuId (c.syncExpected vnpuId + 1) },
      .loadOwnerNext t)
  | .loadOwnerNext t => (c, .selectNext t c.owner)
  | .selectNext t owner =>
    (c, .unlockConsume { t with nextVnpuId := selectNextOwner input.seen owner })
  | .unlockConsume t =>
    ({ c with scheduleMutex := update c.scheduleMutex vnpuId none }, .loadSlice t)
  | .loadSlice t =>
    (c, if 0 < c.timesliceForTurn vnpuId then
        .consume { t with timeslice := c.timesliceForTurn vnpuId }
      else .addCompleted { t with timeslice := 0 })
  | .consume t => (c, if input.timeUp ∨ c.owner ≠ vnpuId then .sync t else .consume t)
  | .sync t => (c, .checkTurn t (input.syncNs % 2 ^ 64))
  | .checkTurn t mySync =>
    (c, if c.scheduleTurn vnpuId = t.turnId then .maxSync t mySync else .loadOwner)
  | .maxSync t mySync =>
    ({ c with turnMaxSync :=
        update c.turnMaxSync vnpuId (max (c.turnMaxSync vnpuId) mySync) }, .addCompleted t)
  | .addCompleted t =>
    ({ c with syncCompleted := update c.syncCompleted vnpuId (c.syncCompleted vnpuId + 1) },
      .waitTurn t)
  | .waitTurn t =>
    (c, if input.timeUp ∨ c.scheduleTurn vnpuId ≠ t.turnId then .lockHandOver t
      else .waitExpected t)
  | .waitExpected t => (c, .waitCompleted t (c.syncExpected vnpuId))
  | .waitCompleted t expected =>
    (c, if expected ≤ c.syncCompleted vnpuId then .lockHandOver t else .waitTurn t)
  | .lockHandOver t =>
    if input.lockFails then (c, .loadOwner)
    else if c.scheduleMutex vnpuId = none then
      ({ c with scheduleMutex := update c.scheduleMutex vnpuId (some p) }, .recheckTurn t)
    else (c, .lockHandOver t)
  | .recheckTurn t =>
    (c, if c.scheduleTurn vnpuId = t.turnId then
        if 0 < t.timeslice then .loadDebt t else .storeOwner t
      else .unlockHandOver)
  | .loadDebt t => (c, .subDebt t (c.turnMaxSync vnpuId))
  | .subDebt t debt =>
    ({ c with
        curTimeslice := update c.curTimeslice vnpuId (fetchSub (c.curTimeslice vnpuId) debt)
        ledger := update c.ledger vnpuId ((c.ledger vnpuId).charge debt) }, .storeOwner t)
  | .storeOwner t =>
    (if t.nextVnpuId = -1 then c else { c with owner := t.nextVnpuId }, .storeTurn t)
  | .storeTurn t =>
    ({ c with
        scheduleTurn := update c.scheduleTurn vnpuId ((t.turnId + 1) % 256)
        ledger := update c.ledger vnpuId (c.ledger vnpuId).endTurn }, .unlockHandOver)
  | .unlockHandOver =>
    ({ c with scheduleMutex := update c.scheduleMutex vnpuId none }, .loadOwner)
  | .exited => (c, .exited)

/-- The steps of the system: an access of a process, the clock going on, a heartbeat of a vNPU
(`vnpu_scheduler_flush_thread`, `:434-456`, which reads the clock before it stores), and the
end of a process. -/
inductive CoreStep where
  | access (p : Nat) (input : StepInput)
  | tick (ns : Nat)
  | heartbeat (vnpuId now : Nat)
  | exit (p : Nat)

abbrev CoreState := Config Nat SchedContext Pc

/-- The effect of a step; `vnpus` gives the vNPU of every process. A robust mutex whose holder
is gone is handed to the next process. -/
def CoreState.step (vnpus : List Nat) (s : CoreState) : CoreStep → CoreState
  | .access p input =>
    match vnpus[p]? with
    | none => s
    | some vnpuId => s.act p (Enpu.access vnpuId p input s.shared (s.control p))
  | .tick ns => { s with shared := { s.shared with clock := s.shared.clock + ns } }
  | .heartbeat vnpuId now =>
    if now ≤ s.shared.clock then
      { s with shared := { s.shared with
          lastAliveTime := update s.shared.lastAliveTime vnpuId now } }
    else s
  | .exit p =>
    s.act p ({ s.shared with scheduleMutex := fun vnpuId =>
      if s.shared.scheduleMutex vnpuId = some p then none else s.shared.scheduleMutex vnpuId },
      .exited)

/-- `share_mem_init` and `vnpu_scheduler_init`, `:688-772`: the quota of a vNPU is a percentage
of the period of 100 ms. -/
def CoreState.init (coreLimitQuota : Nat → UInt8) (clock : Nat) : CoreState where
  shared :=
    { scheduleMutex := fun _ => none
      lastAliveTime := fun _ => 0
      scheduleTurn := fun _ => 0
      owner := -1
      quotaTimeslice := fun v => (coreLimitQuota v).toNat * 100000000 / 100
      curTimeslice := fun _ => 0
      quotaInjectedForTurn := fun _ => 255
      syncExpected := fun _ => 0
      syncCompleted := fun _ => 0
      turnMaxSync := fun _ => 0
      timesliceForTurn := fun _ => 0
      clock := clock
      ledger := fun _ => ⟨[], ⟨0, 0, 0⟩⟩ }
  control := fun _ => .loadOwner

/-! ### Runs of one process -/

/-- The input of an access while the vNPUs below `n` are alive. -/
def aliveBelow (n syncNs : Nat) (timeUp : Bool) : StepInput where
  lockFails := false
  seen := fun v => v < n
  syncNs := syncNs
  timeUp := timeUp

/-- The vNPUs below `n` come up, and process 0 takes over the die that nobody has. -/
def startRun (n : Nat) : List CoreStep :=
  (List.range n).map (fun v => .heartbeat v 10000000) ++
    List.replicate 6 (.access 0 (aliveBelow n 0 false))

/-- A process that has found its vNPU to be the owner takes the turn, up to storing the next
owner. -/
def turnRun (n syncNs p : Nat) : List CoreStep :=
  List.replicate 17 (.access p (aliveBelow n syncNs false)) ++
    [.access p (aliveBelow n syncNs true)] ++
    List.replicate 11 (.access p (aliveBelow n syncNs false))

end UbsVirt.Enpu
