import Mathlib.Algebra.GroupWithZero.Nat
import UbsVirt.Lib.Interleaving
import UbsVirt.Lib.Run

/-!
# The launch gate of MCS

A normal launch waits while a high-priority vNPU is active, unless the high-priority launches
since the last normal one have reached the burst limit. The count is looked at by one atomic load
and taken back to zero by a later exchange, so callers that load it before the first of them
exchanges go through on the same count. Source: `mcs/src/mcs_sched.c:135-233`.
-/

namespace UbsVirt.Mcs

open Interleaving Run

def mcsMaxVnpu : Nat := 100

def mcsNoTaskTimeoutNs : Nat := 5000000

/-- `mcs_shared_state_t` as the gate uses it, with the number of high-priority launches and of
normal ones that have passed the gate. -/
structure GateState where
  lastKernelTimeNs : Nat → Nat
  highLaunchCount : Nat
  vnpuPriority : Nat → Nat
  highLaunches : Nat
  normalLaunches : Nat

/-- `mcs_has_high_priority_active`, lines 135-170. -/
def hasHighPriorityActive (c : GateState) (myVnpuId now : Nat) : Bool :=
  c.vnpuPriority myVnpuId == 0 && (List.range mcsMaxVnpu).any fun i =>
    let last := c.lastKernelTimeNs i
    i != myVnpuId && c.vnpuPriority i == 1 && last != 0 &&
      decide ((if last ≤ now then now - last else last - now) ≤ mcsNoTaskTimeoutNs)

/-- Where a call of `mcs_before_launch` for a vNPU is: before its increment, its look at the other
vNPUs, its load, its exchange or the store of the time. -/
inductive LaunchPc where
  | idle
  | count (v : Nat)
  | look (v : Nat)
  | load (v : Nat)
  | consume (v : Nat)
  | stamp (v : Nat)
  deriving DecidableEq

def LaunchPc.passing : LaunchPc → Bool
  | .consume _ => true
  | _ => false

/-- The next access of `mcs_before_launch`, lines 205-233, at time `now`. -/
def launchAccess (limit now : Nat) (c : GateState) : LaunchPc → GateState × LaunchPc
  | .idle => (c, .idle)
  | .count v =>
    ({ c with
      highLaunchCount := (c.highLaunchCount + 1) % 2 ^ 64
      highLaunches := c.highLaunches + 1 }, .stamp v)
  | .look v =>
    if hasHighPriorityActive c v now then (c, .load v)
    else ({ c with normalLaunches := c.normalLaunches + 1 }, .consume v)
  | .load v =>
    if c.highLaunchCount < limit then (c, .look v)
    else ({ c with normalLaunches := c.normalLaunches + 1 }, .consume v)
  | .consume v => ({ c with highLaunchCount := 0 }, .stamp v)
  | .stamp v => ({ c with lastKernelTimeNs := Function.update c.lastKernelTimeNs v now }, .idle)

/-- A caller enters `mcs_before_launch`, or makes its next access. -/
inductive LaunchStep (ι : Type) where
  | call (p : ι) (vnpuId priority : Nat)
  | access (p : ι) (now : Nat)

abbrev Gate (ι : Type) := Config ι GateState LaunchPc

namespace Gate

variable {ι : Type} [DecidableEq ι]

def step (limit : Nat) (s : Gate ι) : LaunchStep ι → Gate ι
  | .call p v priority =>
    if s.control p = .idle ∧ v < mcsMaxVnpu then
      s.act p (s.shared, if priority = 1 then .count v else .look v)
    else s
  | .access p now => s.act p (launchAccess limit now s.shared (s.control p))

def start (ι : Type) (vnpuPriority lastKernelTimeNs : Nat → Nat) : Gate ι :=
  ⟨⟨lastKernelTimeNs, 0, vnpuPriority, 0, 0⟩, fun _ => .idle⟩

/-- A caller that looks at the other vNPUs finds one of high priority that is active. -/
def StaysBusy (s : Gate ι) : LaunchStep ι → Prop
  | .access p now => match s.control p with
    | .look v => hasHighPriorityActive s.shared v now = true
    | _ => True
  | .call .. => True

/-- A caller passes on the count while no other one that has passed is yet to take it back. -/
def PassesAlone (limit : Nat) (s : Gate ι) : LaunchStep ι → Prop
  | .access p _ => match s.control p with
    | .load _ => limit ≤ s.shared.highLaunchCount → ∀ q, (s.control q).passing = false
    | _ => True
  | .call .. => True

/-- No more normal launches have passed than the count entitles to. -/
structure GateInv (limit : Nat) (s : Gate ι) : Prop where
  passed : s.shared.normalLaunches * limit ≤ s.shared.highLaunches
  counted : (∀ p, (s.control p).passing = false) →
    s.shared.normalLaunches * limit + s.shared.highLaunchCount ≤ s.shared.highLaunches

variable {limit : Nat} {s : Gate ι}

/-- Every access keeps the invariant, if the gate stays busy and callers pass alone. -/
theorem GateInv.access (h : GateInv limit s) (p : ι) (now : Nat)
    (hbusy : s.StaysBusy (.access p now)) (hmay : s.PassesAlone limit (.access p now)) :
    GateInv limit (s.step limit (.access p now)) := by
  obtain ⟨hpassed, hcounted⟩ := h
  -- who is passing afterwards, and who was before
  have hothers : ∀ {c l}, (∀ q, ((s.act p (c, l)).control q).passing = false) →
      (s.control p).passing = false → ∀ q, (s.control q).passing = false := by
    intro c l hall hp q
    by_cases hq : q = p
    · rw [hq, hp]
    · rw [← hall q, Config.act_control_of_ne hq]
  simp only [StaysBusy, PassesAlone] at hbusy hmay
  simp only [step]
  cases hpc : s.control p with
  | idle | stamp v => exact ⟨hpassed, fun hall => hcounted (hothers hall (by rw [hpc]; rfl))⟩
  | consume v => exact ⟨hpassed, fun _ => hpassed⟩
  | count v =>
    refine ⟨Nat.le_succ_of_le hpassed, fun hall => ?_⟩
    have hbefore := hcounted (hothers hall (by rw [hpc]; rfl))
    have hmod := Nat.mod_le (s.shared.highLaunchCount + 1) (2 ^ 64)
    simp only [launchAccess, Config.act_shared]
    omega
  | look v =>
    rw [hpc] at hbusy
    simp only [launchAccess, hbusy, if_true]
    exact ⟨hpassed, fun hall => hcounted (hothers hall (by rw [hpc]; rfl))⟩
  | load v =>
    rw [hpc] at hmay
    simp only [launchAccess]
    split
    · exact ⟨hpassed, fun hall => hcounted (hothers hall (by rw [hpc]; rfl))⟩
    · next hfull =>
      -- nobody has used up the count, so it is worth one more launch
      have hbefore := hcounted (hmay (Nat.le_of_not_lt hfull))
      refine ⟨?_, fun hall => ?_⟩
      · simp only [Config.act_shared, Nat.add_mul]
        omega
      · have hself := hall p
        rw [Config.act_control_self] at hself
        cases hself

/-- Entering `mcs_before_launch` changes nothing that is counted. -/
theorem GateInv.call (h : GateInv limit s) (p : ι) (v priority : Nat) :
    GateInv limit (s.step limit (.call p v priority)) := by
  simp only [step]
  split
  · next hidle =>
    refine ⟨h.passed, fun hall => h.counted fun q => ?_⟩
    by_cases hq : q = p
    · rw [hq, hidle.1]
      rfl
    · rw [← hall q, Config.act_control_of_ne hq]
  · exact h

/-- While a high-priority vNPU is active, and no caller passes on a count that another one is about
to take back, every normal launch that has passed the gate has its own burst of high-priority
launches. -/
theorem normalLaunches_le (vnpuPriority lastKernelTimeNs : Nat → Nat) (hlimit : 0 < limit)
    (run : List (LaunchStep ι))
    (hbusy : EachStep (step limit) StaysBusy (start ι vnpuPriority lastKernelTimeNs) run)
    (hmay : EachStep (step limit) (PassesAlone limit) (start ι vnpuPriority lastKernelTimeNs) run) :
    Throughout (step limit) (fun s => s.shared.normalLaunches ≤ s.shared.highLaunches / limit)
      (start ι vnpuPriority lastKernelTimeNs) run := by
  have hinv : Throughout (step limit) (GateInv limit) (start ι vnpuPriority lastKernelTimeNs) run := by
    apply throughout_of_step _ _ (hbusy.and hmay)
    · exact ⟨by simp [start], fun _ => by simp [start]⟩
    · intro s i hs hi
      cases i with
      | call p v priority => exact hs.call p v priority
      | access p now => exact hs.access p now hi.1 hi.2
  exact hinv.mono fun s hs => (Nat.le_div_iff_mul_le hlimit).mpr hs.passed

/-- A vNPU of high priority launches, and the two others wait. -/
def oneHigh (v : Nat) : Nat :=
  if v = 0 then 1 else 0

local instance callers_ne_zero : NeZero 3 :=
  Nat.instNeZeroSucc

/-- One launch of high priority; caller `1` passes on it and takes the count back, and caller `2`
then waits. -/
def turnRun : List (LaunchStep (Fin 3)) :=
  [.call 0 0 1, .access 0 1, .access 0 1, .call 1 1 0, .access 1 2, .access 1 2, .access 1 2,
    .call 2 2 0, .access 2 2, .access 2 2]

theorem turnRun_le : Throughout (step 1) (fun s => s.shared.normalLaunches ≤
    s.shared.highLaunches / 1) (start (Fin 3) oneHigh fun _ => 0) turnRun := by
  apply normalLaunches_le
  · decide
  · exact ⟨trivial, trivial, trivial, trivial, rfl, trivial, trivial, trivial, rfl, trivial, trivial⟩
  · exact ⟨trivial, trivial, trivial, trivial, trivial, fun _ => by decide, trivial, trivial, trivial,
      fun h => absurd h (by decide), trivial⟩

/-- One launch of high priority; the callers `1` and `2` make `k` accesses each, in turn. -/
def burstRun (k : Nat) : List (LaunchStep (Fin 3)) :=
  [.call 0 0 1, .access 0 1, .access 0 1, .call 1 1 0, .call 2 2 0] ++
    (List.replicate k [.access 1 2, .access 2 2]).flatten

/-- With a burst limit of one, both callers load the count before one of them exchanges it: one
launch of high priority lets two normal ones through. -/
theorem twoLaunches_on_one_count :
    EachStep (step 1) StaysBusy (start (Fin 3) oneHigh fun _ => 0) (burstRun 2) ∧
      ¬ Throughout (step 1) (fun s => s.shared.normalLaunches ≤ s.shared.highLaunches / 1)
        (start (Fin 3) oneHigh fun _ => 0) (burstRun 2) := by
  refine ⟨⟨trivial, trivial, trivial, trivial, trivial, rfl, rfl, trivial, trivial, trivial⟩, ?_⟩
  intro h
  have hlast := h.last
  revert hlast
  decide

end Gate

end UbsVirt.Mcs
