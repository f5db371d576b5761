import UbsVirt.Lib.InitOnce
import UbsVirt.Lib.Run

/-!
# Initialization of the scheduling segment

`share_mem_init` looks at `magic_number` twice and then claims the initialization by a plain
store, so two processes that both find the segment uninitialized both claim it. Processes that
terminate (`g_terminate`) are left out. Source: `vcann-rt/src/core_limiter.c:654-753`.
-/

namespace UbsVirt.Enpu

open Interleaving InitOnce Run

def magicInitialized : Nat := 0x495A4547

def magicInitializing : Nat := 0x5A494E47

/-- The words of `vnpu_time_slice_sched_t` that `share_mem_init` decides by, and the number of
times its body has been begun. -/
structure SchedShm where
  magicNumber : Nat
  lastAliveTimeNs : List Nat
  begun : Nat

/-- `sched_shm_is_stale`, lines 655-670: no heartbeat for `SCHED_SHM_STALE_THRESHOLD_NS`. -/
def SchedShm.isStale (c : SchedShm) (now : Nat) : Bool :=
  let newestAlive := c.lastAliveTimeNs.foldl max 0
  newestAlive != 0 && decide (newestAlive < now ∧ 2000000000 < now - newestAlive)

/-- Where a call of `share_mem_init` is: before its first or second load, a store of
`MAGIC_UNINITIALIZED`, the claiming store, the body, the last store, or back. -/
inductive ShmPc where
  | first
  | second
  | reset
  | claim
  | body
  | publish
  | success
  | failed
  deriving DecidableEq

/-- What an access meets: the time, how long the call has waited, and whether the mutexes can be
initialized. -/
structure ShmInput where
  now : Nat
  waited : Nat
  mutexOk : Bool

/-- The next access of `share_mem_init`, with `VNPU_TIMEOUT_PERIOD` at 3 ms. -/
def shmAccess (input : ShmInput) (c : SchedShm) : ShmPc → SchedShm × ShmPc
  | .first =>
    (c, if c.magicNumber = magicInitialized then
      if c.isStale input.now then .reset else .success
    else .second)
  | .second =>
    (c, if c.magicNumber = magicInitializing then
      if 3000000 < input.waited then .reset else .first
    else .claim)
  | .reset => ({ c with magicNumber := 0 }, .first)
  | .claim => ({ c with magicNumber := magicInitializing, begun := c.begun + 1 }, .body)
  | .body =>
    ({ c with lastAliveTimeNs := c.lastAliveTimeNs.map fun _ => 0 },
      if input.mutexOk then .publish else .failed)
  | .publish => ({ c with magicNumber := magicInitialized }, .success)
  | .success => (c, .success)
  | .failed => (c, .failed)

/-- A process is inside from its claim to the last store, and for good when it fails there. -/
def ShmPc.role : ShmPc → Role
  | .first | .second | .reset | .claim => .outside
  | .body | .publish | .failed => .inside
  | .success => .returned

/-- The word tells how far the initialization is. -/
def shareMemInit : Protocol SchedShm ShmPc where
  role := ShmPc.role
  begun := SchedShm.begun
  fresh c := c.magicNumber = 0
  busy c := c.magicNumber = magicInitializing
  ready c := c.magicNumber = magicInitialized

abbrev Starting (ι : Type) := Config ι SchedShm ShmPc

namespace Starting

variable {ι : Type} [DecidableEq ι]

def step (s : Starting ι) (i : ι × ShmInput) : Starting ι :=
  s.act i.1 (shmAccess i.2 s.shared (s.control i.1))

def start (ι : Type) : Starting ι := ⟨⟨0, List.replicate 100 0, 0⟩, fun _ => .first⟩

def InTime (_ : Starting ι) (i : ι × ShmInput) : Prop := i.2.waited ≤ 3000000

/-- A process claims only a segment that is still `MAGIC_UNINITIALIZED`. -/
def ClaimsFresh (s : Starting ι) (i : ι × ShmInput) : Prop :=
  s.control i.1 = .claim → s.shared.magicNumber = 0

/-- The invariant of the protocol. -/
structure InitInv (s : Starting ι) : Prop where
  agreed : shareMemInit.Agreed s
  silent : ∀ t ∈ s.shared.lastAliveTimeNs, t = 0
  noReset : ∀ q, s.control q ≠ .reset

variable {s : Starting ι}

theorem isStale_of_silent {c : SchedShm} (h : ∀ t ∈ c.lastAliveTimeNs, t = 0) (now : Nat) :
    c.isStale now = false := by
  have hnewest : c.lastAliveTimeNs.foldl max 0 = 0 :=
    List.foldlRecOn (motive := (· = 0)) c.lastAliveTimeNs max rfl fun b hb t ht => by
      simp [hb, h t ht]
  simp [SchedShm.isStale, hnewest]

omit [DecidableEq ι] in
/-- No access of a run in time stores `MAGIC_UNINITIALIZED` or a heartbeat. -/
theorem InitInv.quiet (h : InitInv s) {i : ι × ShmInput} (htime : s.InTime i) :
    (∀ t ∈ (shmAccess i.2 s.shared (s.control i.1)).1.lastAliveTimeNs, t = 0) ∧
      (shmAccess i.2 s.shared (s.control i.1)).2 ≠ .reset := by
  have hstale := isStale_of_silent h.silent i.2.now
  have hreset := h.noReset i.1
  have hsilent := h.silent
  cases hpc : s.control i.1 <;> simp_all [shmAccess, InTime] <;> grind

/-- Every step of the initialisation keeps the invariant. -/
theorem InitInv.step (h : InitInv s) {i : ι × ShmInput} (htime : s.InTime i)
    (hfresh : s.ClaimsFresh i) : InitInv (s.step i) := by
  obtain ⟨hsilent, hreset⟩ := h.quiet htime
  refine ⟨?_, hsilent, Config.forall_act (I := fun _ pc _ => pc ≠ ShmPc.reset) h.noReset hreset
    fun _ _ hq => hq⟩
  simp only [Starting.step]
  cases hpc : s.control i.1 with
  | reset => exact absurd hpc (h.noReset i.1)
  | success => exact h.agreed.stay (by rw [hpc])
  | failed => exact h.agreed.stay (by rw [hpc])
  | first =>
    simp only [shmAccess, isStale_of_silent h.silent, Bool.false_eq_true, if_false]
    split
    · next hready =>
      refine h.agreed.follow ?_ ?_ rfl
      · simp [shareMemInit, hready, magicInitialized]
      · simp [shareMemInit, hready, magicInitialized, magicInitializing]
    · exact h.agreed.stay (by rw [hpc]; rfl)
  | second =>
    simp only [shmAccess, if_neg (Nat.not_lt.mpr htime)]
    split
    · exact h.agreed.stay (by rw [hpc]; rfl)
    · exact h.agreed.stay (by rw [hpc]; rfl)
  | claim =>
    have hzero := hfresh hpc
    refine h.agreed.enter ?_ (fun q hq => ?_) rfl rfl rfl
    · simp [shareMemInit, hzero, magicInitialized]
    · simpa [shareMemInit, hzero, magicInitializing] using (h.agreed.of_inside hq).1
  | body =>
    have hin : (s.control i.1).role = .inside := by rw [hpc]; rfl
    refine h.agreed.work hin rfl (.inl ⟨?_, (h.agreed.of_inside hin).1⟩)
    simp only [shmAccess]
    split <;> rfl
  | publish => exact h.agreed.work (by rw [hpc]; rfl) rfl (.inr ⟨rfl, rfl⟩)

/-- In every interleaving in which each claim finds the segment still uninitialized, one process
runs the body and the others return `ENPU_SUCCESS` after it. -/
theorem shared_initializedOnce (run : List (ι × ShmInput))
    (htime : EachStep step InTime (start ι) run)
    (hfresh : EachStep step ClaimsFresh (start ι) run) :
    Throughout step shareMemInit.Once (start ι) run := by
  have hstart : InitInv (start ι) := ⟨.fresh rfl rfl fun _ => rfl, by simp [start], nofun⟩
  have hinv : Throughout step InitInv (start ι) run :=
    throughout_of_step hstart (fun s i hs hi => hs.step hi.1 hi.2) (htime.and hfresh)
  exact hinv.mono fun s hs => hs.agreed.once

/-- The accesses of two processes, one after the other, none of which has waited. -/
def accesses (order : List (Fin 2)) : List (Fin 2 × ShmInput) :=
  order.map (·, ⟨0, 0, true⟩)

theorem inTime_accesses (s : Starting (Fin 2)) (order : List (Fin 2)) :
    EachStep step InTime s (accesses order) := by
  induction order generalizing s with
  | nil => trivial
  | cons p order ih => exact ⟨Nat.zero_le _, ih _⟩

theorem second_returns_after_first :
    Throughout step shareMemInit.Once (start (Fin 2)) (accesses [0, 0, 0, 1, 1, 0, 0, 1]) := by
  apply shared_initializedOnce
  · exact inTime_accesses _ _
  · exact ⟨nofun, nofun, fun _ => rfl, nofun, nofun, nofun, nofun, nofun, trivial⟩

/-- Both processes make their two loads before the first one stores `MAGIC_INITIALIZING`: both run
the body. -/
theorem both_claim : EachStep step InTime (start (Fin 2)) (accesses [0, 0, 1, 1, 0, 1]) ∧
      ¬ Throughout step shareMemInit.Once (start (Fin 2)) (accesses [0, 0, 1, 1, 0, 1]) := by
  refine ⟨inTime_accesses _ _, fun h => ?_⟩
  exact absurd h.last.1 (by decide)

end Starting

end UbsVirt.Enpu
