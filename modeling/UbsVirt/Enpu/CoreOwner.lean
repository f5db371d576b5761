import UbsVirt.Enpu.CoreTurns

/-!
# Who takes the die from its owner

The owner of the die is stored in two places: by a process of the owner at the end of the
turn, and by a process of another vNPU that found the owner's heartbeat old. Neither compares
the owner again before it stores. A process enters a turn although its vNPU has handed the die
on since it read the owner, a take-over goes on although another one has already been made,
and a turn is found again after 256 turns; so the die can be taken from a vNPU that is alive
by a process of another one. It is not, in the runs in which a turn is entered while the vNPU
is the owner and a take-over is not disturbed. Source:
`vcann-rt/src/core_limiter.c:288-312,372-432,582-668`.
-/

namespace UbsVirt.Enpu

open Interleaving Run Function CoreState Config TurnLedger
open CoreState (init)

namespace Pc

/-- The process has found the owner's heartbeat old and is going to store the next owner. -/
def takesOver : Pc → Bool
  | .reloadOwner | .select _ | .takeOver _ => true
  | _ => false

/-- The process has stored the next owner, or has found none, and is going to end the turn. -/
def endsTurn : Pc → Bool
  | .storeTurn _ => true
  | _ => false

/-- The process is in the turn with the given number, and will store a next owner unless it
finds none. -/
def InTurn (ended : Nat) : Pc → Prop
  | .loadTurn => True
  | .loadInjected t | .resetExpected t | .resetCompleted t | .resetMaxSync t | .loadQuota t
  | .addQuota t _ | .loadCur t | .subSlice t _ | .storeSlice t _ | .storeInjected t | .addExpected t
  | .loadOwnerNext t | .selectNext t _ => t.number = ended
  | .unlockConsume t | .loadSlice t | .consume t | .sync t | .checkTurn t _ | .maxSync t _
  | .addCompleted t | .waitTurn t | .waitExpected t | .waitCompleted t _ | .lockHandOver t
  | .recheckTurn t | .loadDebt t | .subDebt t _ | .storeOwner t =>
    t.number = ended ∧ t.nextVnpuId ≠ -1
  | _ => False

instance (ended : Nat) (pc : Pc) : Decidable (pc.InTurn ended) := by
  cases pc <;> unfold InTurn <;> infer_instance

end Pc

def NoTakeOver (vnpus : List Nat) (s : CoreState) (p : Option Nat) : Prop :=
  ∀ q < vnpus.length, some q ≠ p → (s.control q).takesOver = false

/-- No process of the owner is in the current turn. -/
def OutOfTurn (vnpus : List Nat) (s : CoreState) : Prop :=
  ∀ q < vnpus.length, ∀ v ∈ vnpus[q]?, (v : Int) = s.shared.owner →
    ¬ (s.control q).InTurn (s.shared.ledger v).ended

/-- The condition on an access. A take-over begins while the owner is the vNPU that was found to
have an old heartbeat, has not renewed it, and has no process in the turn; no other store to the
owner and no beginning of a turn comes between. A process enters a turn while its vNPU is the
owner, and does not stay in it for 256 turns. -/
def MayAccess (vnpus : List Nat) (s : CoreState) (p v : Nat) (input : StepInput) : Pc → Prop
  | .loadAlive owner =>
    ¬ (0 ≤ owner ∧ owner < maxVnpu) → s.shared.owner = owner ∧ OutOfTurn vnpus s
  | .readClock owner last => checkTimeout last s.shared.clock = false →
    s.shared.owner = owner ∧ s.shared.lastAliveTime owner.toNat = last ∧ OutOfTurn vnpus s
  | .takeOver _ => NoTakeOver vnpus s (some p)
  | .storeOwner t => t.nextVnpuId ≠ -1 → NoTakeOver vnpus s (some p)
  | .lockConsume => input.lockFails = false → s.shared.scheduleMutex v = none →
    s.shared.owner = v ∧ NoTakeOver vnpus s none
  | .recheckTurn t => (s.shared.ledger v).ended < t.number + 256
  | _ => True

/-- The condition on a step. Besides, the owner does not renew its heartbeat during a take-over,
and no process exits between storing the next owner and ending the turn. -/
def MayHandOn (vnpus : List Nat) (s : CoreState) : CoreStep → Prop
  | .access p input => ∀ v ∈ vnpus[p]?, MayAccess vnpus s p v input (s.control p)
  | .heartbeat v _ => s.shared.owner = v → NoTakeOver vnpus s none
  | .exit p => (s.control p).endsTurn = false
  | .tick _ => True

/-- A step that takes the die from a vNPU that is alive is one of a process of that vNPU. -/
def TakesOwn (vnpus : List Nat) (s : CoreState) (i : CoreStep) : Prop :=
  s.shared.isVnpuAlive s.shared.owner = true → (s.step vnpus i).shared.owner ≠ s.shared.owner →
    ∃ p input v, i = .access p input ∧ vnpus[p]? = some v ∧ s.shared.owner = (v : Int)

/-! ### The invariant -/

/-- A vNPU with a process in the current turn is the owner, until the turn is ended; and an
owner that is taken over from has an old heartbeat and no process in the turn. -/
structure OwnerInv (vnpus : List Nat) (s : CoreState) : Prop where
  turns : TurnInv vnpus s
  time : ∀ v, s.shared.lastAliveTime v ≤ s.shared.clock
  owner : ∀ p v, vnpus[p]? = some v → (s.control p).InTurn (s.shared.ledger v).ended →
    (∀ q, vnpus[q]? = some v → (s.control q).endsTurn = false) → s.shared.owner = (v : Int)
  takeOver : ∀ q v, vnpus[q]? = some v → (s.control q).takesOver = true →
    s.shared.isVnpuAlive s.shared.owner = false ∧ OutOfTurn vnpus s

section

variable {vnpus : List Nat} {s : CoreState}

theorem MayHandOn.mayRecheck {i : CoreStep} (h : MayHandOn vnpus s i) : MayRecheck vnpus s i := by
  cases i with
  | access p input =>
    intro v hv t ht
    have := h v hv
    rw [ht] at this
    exact this
  | _ => trivial

variable {q v : Nat}

theorem NoTakeOver.eq_false {p : Option Nat} (h : NoTakeOver vnpus s p)
    (hq : vnpus[q]? = some v) (hne : some q ≠ p) : (s.control q).takesOver = false :=
  h q (List.getElem?_eq_some_iff.mp hq).1 hne

variable {p : Nat} {pc : Pc}

/-- A process comes into a turn only when it takes the mutex. -/
theorem inTurn_access {vnpuId : Nat} {input : StepInput} {c : SchedContext}
    (h : (access vnpuId p input c pc).2.InTurn ((access vnpuId p input c pc).1.ledger vnpuId).ended) :
    pc.endsTurn = false ∧ (pc.InTurn (c.ledger vnpuId).ended ∨
      pc = .lockConsume ∧ input.lockFails = false ∧ c.scheduleMutex vnpuId = none) := by
  cases pc <;> simp only [access] at h <;> (try split_ifs at h) <;>
    simp_all [Pc.InTurn, Pc.endsTurn, ended, inject, grant,
      charge]

theorem Pc.InTurn.cases {ended : Nat} (h : pc.InTurn ended) :
    pc = .loadTurn ∨ ∃ t ∈ pc.turn?, t.number = ended := by
  cases pc <;> simp_all [Pc.InTurn, Pc.turn?]

variable {w : Nat}

/-- A step of another process brings no process into a turn. -/
theorem TurnInv.inTurn_other (h : TurnInv vnpus s) (hp : vnpus[p]? = some v)
    (hq : vnpus[q]? = some w) (hne : q ≠ p) (input : StepInput) (hin : (s.control q).InTurn
      ((access v p input s.shared (s.control p)).1.ledger w).ended) :
    (s.control q).InTurn (s.shared.ledger w).ended ∧ (w = v → (s.control p).endsTurn = false) := by
  by_cases hw : w = v
  · subst hw
    rcases access_turn w p input s.shared (s.control p) with ⟨-, hended⟩ | ⟨t, hpc, -, hended⟩
    · rw [hended] at hin
      refine ⟨hin, fun _ => ?_⟩
      -- a turn that is ended is counted
      cases hpc : s.control p with
      | storeTurn t =>
        rw [hpc] at hended
        simp [access, ended, endTurn] at hended
      | _ => rfl
    · exfalso
      rw [hended] at hin
      rcases hin.cases with hload | ⟨t', ht', hnum⟩
      · apply hne
        apply h.exclusive hq hp
        · rw [hload]
          rfl
        · rw [hpc]
          rfl
      · have := (h.proc q w hq).number t' ht'
        omega
  · obtain ⟨-, -, -, -, hledger⟩ :=
      access_of_ne p input s.shared (s.control p) hw
    rw [hledger] at hin
    exact ⟨hin, fun heq => absurd heq hw⟩

/-- A take-over begins with an old heartbeat. -/
theorem takesOver_access {vnpuId : Nat} {input : StepInput} {c : SchedContext}
    (h : (access vnpuId p input c pc).2.takesOver = true) :
    pc.takesOver = true ∨ (∃ owner, pc = .loadAlive owner ∧ ¬ (0 ≤ owner ∧ owner < maxVnpu)) ∨
      ∃ owner last, pc = .readClock owner last ∧ checkTimeout last c.clock = false := by
  cases pc <;> simp only [access] at h <;> (try split_ifs at h) <;> simp_all [Pc.takesOver]

theorem access_time (vnpuId p : Nat) (input : StepInput) (c : SchedContext) (pc : Pc) :
    (access vnpuId p input c pc).1.lastAliveTime = c.lastAliveTime ∧
      (access vnpuId p input c pc).1.clock = c.clock := by
  cases pc <;> simp only [access] <;> (try split_ifs) <;> simp

/-- The process that hands over is one of the owner. -/
theorem OwnerInv.owner_of_storeOwner (h : OwnerInv vnpus s) (hp : vnpus[p]? = some v)
    {t : Turn} (hpc : s.control p = .storeOwner t) (hnext : t.nextVnpuId ≠ -1) :
    s.shared.owner = (v : Int) := by
  have hcur := (h.turns.proc p v hp).current
  rw [hpc] at hcur
  apply h.owner p v hp
  · rw [hpc]
    exact ⟨hcur rfl t rfl, hnext⟩
  · intro q hq
    cases hqc : s.control q with
    | storeTurn t' =>
      -- both would hold the mutex
      have heq : q = p := by
        apply h.turns.exclusive hq hp
        · rw [hqc]
          rfl
        · rw [hpc]
          rfl
      subst heq
      rw [hpc] at hqc
      cases hqc
    | _ => rfl

/-- The owner is the vNPU in turn after a step of a process, too. -/
theorem OwnerInv.owner_access (h : OwnerInv vnpus s) (hp : vnpus[p]? = some v)
    (input : StepInput) (hmay : MayHandOn vnpus s (.access p input)) (hq : vnpus[q]? = some w)
    (hin : ((s.step vnpus (.access p input)).control q).InTurn
      ((s.step vnpus (.access p input)).shared.ledger w).ended) (hends : ∀ q, vnpus[q]? = some w →
      ((s.step vnpus (.access p input)).control q).endsTurn = false) :
    (s.step vnpus (.access p input)).shared.owner = (w : Int) := by
  have hmay := hmay v hp
  rw [step_access hp] at hin ⊢
  simp only [step_access hp] at hends
  rw [act_shared] at hin ⊢
  -- what the others are at, they have been at before
  have hends' : (w = v → (s.control p).endsTurn = false) →
      ∀ q, vnpus[q]? = some w → (s.control q).endsTurn = false := by
    intro hself q' hq'
    by_cases hne : q' = p
    · subst hne
      rw [hp] at hq'
      cases hq'
      exact hself rfl
    · rw [← act_control_of_ne hne]
      exact hends q' hq'
  by_cases hne : q = p
  · -- the acting process
    subst hne
    rw [hp] at hq
    cases hq
    rw [act_control_self] at hin
    obtain ⟨hself, hold | ⟨hpc, hok, hfree⟩⟩ := inTurn_access hin
    · have howner := h.owner q v hp hold (hends' fun _ => hself)
      rcases access_owner v q input s.shared (s.control q) with heq | ⟨next, hpc⟩ | ⟨t, hpc, hnext⟩
      · rw [heq, howner]
      · rw [hpc] at hold
        cases hold
      · rw [hpc] at hin
        cases hin
    · rw [hpc] at hmay ⊢
      have howner := (hmay hok hfree).1
      simp only [access, hok, hfree]
      exact howner
  · rw [act_control_of_ne hne] at hin
    obtain ⟨hold, hself⟩ := h.turns.inTurn_other hp hq hne input hin
    have howner := h.owner q w hq hold (hends' hself)
    rcases access_owner v p input s.shared (s.control p) with heq | ⟨next, hpc⟩ | ⟨t, hpc, hnext⟩
    · rw [heq, howner]
    · -- a take-over is not made from a vNPU in turn
      obtain ⟨-, hout⟩ := h.takeOver p v hp (by rw [hpc]; rfl)
      exact absurd hold (hout q (List.getElem?_eq_some_iff.mp hq).1 w hq howner.symm)
    · -- the process that hands over is one of the owner, and now ends the turn
      have howner' := h.owner_of_storeOwner hp hpc hnext
      rw [howner] at howner'
      have hwv : w = v := Int.ofNat.inj howner'
      have hcon := hends p (by rw [hp, hwv])
      rw [act_control_self, hpc] at hcon
      cases hcon

theorem isVnpuAlive_eq_false {c : SchedContext} {owner : Int} :
    c.isVnpuAlive owner = false ↔ (0 ≤ owner → owner < maxVnpu →
      checkTimeout (c.lastAliveTime owner.toNat) c.clock = false) := by
  simp [SchedContext.isVnpuAlive]

/-- A take-over goes on undisturbed. -/
theorem OwnerInv.takeOver_access (h : OwnerInv vnpus s) (hp : vnpus[p]? = some v)
    (input : StepInput) (hmay : MayHandOn vnpus s (.access p input)) (hq : vnpus[q]? = some w)
    (htakes : ((s.step vnpus (.access p input)).control q).takesOver = true) :
    (s.step vnpus (.access p input)).shared.isVnpuAlive
        (s.step vnpus (.access p input)).shared.owner = false ∧
      OutOfTurn vnpus (s.step vnpus (.access p input)) := by
  have hmay := hmay v hp
  rw [step_access hp] at htakes ⊢
  have hbefore : q ≠ p → (s.control q).takesOver = true := by
    intro hne
    rwa [act_control_of_ne hne] at htakes
  -- nobody stores the owner while another process takes over
  have hstore : NoTakeOver vnpus s (some p) →
      (access v p input s.shared (s.control p)).2.takesOver = false → False := by
    intro hno hself
    by_cases hne : q = p
    · subst hne
      rw [act_control_self, hself] at htakes
      cases htakes
    · have := hno.eq_false hq fun heq => hne (Option.some.inj heq)
      rw [hbefore hne] at this
      cases this
  have howner : (access v p input s.shared (s.control p)).1.owner = s.shared.owner := by
    rcases access_owner v p input s.shared (s.control p) with heq | ⟨next, hpc⟩ | ⟨t, hpc, hnext⟩
    · exact heq
    · rw [hpc] at hmay
      exact (hstore hmay (by rw [hpc]; rfl)).elim
    · rw [hpc] at hmay
      exact (hstore (hmay hnext) (by rw [hpc]; rfl)).elim
  have hbase : s.shared.isVnpuAlive s.shared.owner = false ∧ OutOfTurn vnpus s := by
    by_cases hne : q = p
    · subst hne
      rw [act_control_self] at htakes
      rcases takesOver_access htakes with hold | ⟨owner, hpc, hrange⟩ | ⟨owner, last, hpc, hold⟩
      · exact h.takeOver q w hq hold
      · rw [hpc] at hmay
        obtain ⟨heq, hout⟩ := hmay hrange
        rw [isVnpuAlive_eq_false, heq]
        exact ⟨fun hlo hhi => absurd ⟨hlo, hhi⟩ hrange, hout⟩
      · rw [hpc] at hmay
        obtain ⟨heq, hlast, hout⟩ := hmay hold
        rw [isVnpuAlive_eq_false, heq, hlast]
        exact ⟨fun _ _ => hold, hout⟩
    · exact h.takeOver q w hq (hbefore hne)
  obtain ⟨htime, hclock⟩ :=
    access_time v p input s.shared (s.control p)
  constructor
  · rw [act_shared, howner, isVnpuAlive_eq_false, htime, hclock, ← isVnpuAlive_eq_false]
    exact hbase.1
  · intro q' hlt v' hq' hv' hin
    rw [act_shared] at hv' hin
    rw [howner] at hv'
    by_cases hne : q' = p
    · subst hne
      rw [hp] at hq'
      cases hq'
      rw [act_control_self] at hin
      obtain ⟨-, hold | ⟨hpc, hok, hfree⟩⟩ := inTurn_access hin
      · exact hbase.2 q' hlt v hp hv' hold
      · -- no turn is entered during a take-over
        rw [hpc] at hmay
        have hno := (hmay hok hfree).2
        by_cases hself : q = q'
        · subst hself
          rw [act_control_self, hpc] at htakes
          simp [access, hok, hfree, Pc.takesOver] at htakes
        · have := hno.eq_false hq (by rintro ⟨⟩)
          rw [hbefore hself] at this
          cases this
    · rw [act_control_of_ne hne] at hin
      exact hbase.2 q' hlt v' hq' hv' (h.turns.inTurn_other hp hq' hne input hin).1

theorem checkTimeout_tick {last clock : Nat} (hle : last ≤ clock) (ns : Nat)
    (h : checkTimeout last clock = false) : checkTimeout last (clock + ns) = false := by
  unfold checkTimeout at h ⊢
  split at h
  · rw [if_pos (by omega)]
    simp only [decide_eq_false_iff_not] at h ⊢
    omega
  · simp only [decide_eq_false_iff_not] at h
    omega

/-- Every step keeps one owner of the core. -/
theorem OwnerInv.step (h : OwnerInv vnpus s) {i : CoreStep} (hmay : MayHandOn vnpus s i) :
    OwnerInv vnpus (s.step vnpus i) := by
  have hturns := h.turns.step hmay.mayRecheck
  cases i with
  | access p input =>
    cases hp : vnpus[p]? with
    | none => rwa [step_access_none hp]
    | some v =>
      refine ⟨hturns, ?_, ?_, ?_⟩
      · intro w
        obtain ⟨htime, hclock⟩ :=
          access_time v p input s.shared (s.control p)
        rw [step_access hp, act_shared, htime, hclock]
        exact h.time w
      · exact fun q w hq hin hends => h.owner_access hp input hmay hq hin hends
      · exact fun q w hq htakes => h.takeOver_access hp input hmay hq htakes
  | tick ns =>
    refine ⟨hturns, ?_, h.owner, ?_⟩
    · intro w
      have := h.time w
      show s.shared.lastAliveTime w ≤ s.shared.clock + ns
      omega
    · intro q w hq htakes
      obtain ⟨hdead, hout⟩ := h.takeOver q w hq htakes
      rw [isVnpuAlive_eq_false] at hdead
      refine ⟨isVnpuAlive_eq_false.mpr fun hlo hhi => ?_, hout⟩
      exact checkTimeout_tick (h.time _) ns (hdead hlo hhi)
  | heartbeat v now =>
    unfold CoreState.step at hturns ⊢
    dsimp only at hturns ⊢
    split at hturns
    swap
    · rwa [if_neg (by assumption)]
    next hnow =>
    rw [if_pos hnow]
    refine ⟨hturns, ?_, h.owner, ?_⟩
    · intro w
      show update s.shared.lastAliveTime v now w ≤ s.shared.clock
      rw [update_apply]
      split
      · exact hnow
      · exact h.time w
    · intro q w hq htakes
      obtain ⟨hdead, hout⟩ := h.takeOver q w hq htakes
      rw [isVnpuAlive_eq_false] at hdead
      have hne : s.shared.owner ≠ v := by
        intro heq
        have := (hmay heq).eq_false hq nofun
        rw [htakes] at this
        cases this
      refine ⟨isVnpuAlive_eq_false.mpr fun hlo hhi => ?_, hout⟩
      change 0 ≤ s.shared.owner at hlo
      show checkTimeout (update s.shared.lastAliveTime v now s.shared.owner.toNat) _ = false
      rw [update_of_ne (by omega)]
      exact hdead hlo hhi
  | exit p =>
    refine ⟨hturns, h.time, ?_, ?_⟩
    · intro q w hq hin hends
      apply h.owner q w hq (control_exit id hin).2
      intro q' hq'
      by_cases heq : q' = p
      · subst heq
        exact hmay
      · rw [← hends q' hq']
        exact congrArg Pc.endsTurn (act_control_of_ne heq).symm
    · intro q w hq htakes
      have hbefore := (control_exit (f := (·.takesOver = true)) nofun htakes).2
      obtain ⟨hdead, hout⟩ := h.takeOver q w hq hbefore
      refine ⟨hdead, fun q' hlt v' hq' hv' hin => ?_⟩
      exact hout q' hlt v' hq' hv' (control_exit id hin).2

theorem OwnerInv.init (coreLimitQuota : Nat → UInt8) (clock : Nat) :
    OwnerInv vnpus (init coreLimitQuota clock) :=
  ⟨.init coreLimitQuota clock, fun _ => Nat.zero_le _, nofun, nofun⟩

/-- In states that satisfy the invariant the die is taken from an owner that is alive by its
own processes only. -/
theorem OwnerInv.takesOwn (h : OwnerInv vnpus s) (i : CoreStep) : TakesOwn vnpus s i := by
  intro halive hne
  cases i with
  | access p input =>
    cases hp : vnpus[p]? with
    | none => exact absurd (by rw [step_access_none hp]) hne
    | some v =>
      rw [step_access hp, act_shared] at hne
      rcases access_owner v p input s.shared (s.control p) with heq | ⟨next, hpc⟩ | ⟨t, hpc, hnext⟩
      · exact absurd heq hne
      · obtain ⟨hdead, -⟩ := h.takeOver p v hp (by rw [hpc]; rfl)
        rw [hdead] at halive
        cases halive
      · exact ⟨p, input, v, rfl, hp, h.owner_of_storeOwner hp hpc hnext⟩
  | tick ns => exact absurd rfl hne
  | heartbeat v now =>
    exfalso
    apply hne
    unfold CoreState.step
    dsimp only
    split <;> rfl
  | exit p => exact absurd rfl hne

end

/-- For any number of processes of any vNPUs, the die is taken from a vNPU that is alive by its
own processes only, throughout every run whose steps all meet the condition. -/
theorem takes_own (vnpus : List Nat) (coreLimitQuota : Nat → UInt8) (clock : Nat)
    (run : List CoreStep)
    (hmay : EachStep (CoreState.step vnpus) (MayHandOn vnpus) (init coreLimitQuota clock)
      run) :
    EachStep (CoreState.step vnpus) (TakesOwn vnpus) (init coreLimitQuota clock) run :=
  eachStep_of_invariant (OwnerInv.init coreLimitQuota clock) (fun _ _ h hi => h.step hi)
    (fun _ i h _ => h.takesOwn i) hmay

section

instance (vnpus : List Nat) (s : CoreState) (p : Option Nat) :
    Decidable (NoTakeOver vnpus s p) := by
  unfold NoTakeOver
  infer_instance

instance (vnpus : List Nat) (s : CoreState) : Decidable (OutOfTurn vnpus s) := by
  unfold OutOfTurn
  infer_instance

instance (vnpus : List Nat) (s : CoreState) (p v : Nat) (input : StepInput) (pc : Pc) :
    Decidable (MayAccess vnpus s p v input pc) := by
  cases pc <;> unfold MayAccess <;> infer_instance

instance (vnpus : List Nat) (s : CoreState) (i : CoreStep) : Decidable (MayHandOn vnpus s i) := by
  cases i <;> unfold MayHandOn <;> infer_instance

def Pc.selects : Pc → Bool
  | .select _ | .selectNext _ _ => true
  | _ => false

/-- The loop of `select_next_owner` sees the vNPUs as they are. -/
def SeesAlive (s : CoreState) : CoreStep → Prop
  | .access p input => (s.control p).selects = true →
    ∀ v < maxVnpu, input.seen v = s.shared.isVnpuAlive v
  | _ => True

instance (s : CoreState) (i : CoreStep) : Decidable (SeesAlive s i) := by
  cases i <;> unfold SeesAlive <;> infer_instance

/-- Two vNPUs hand the die to each other. -/
def handOnRun : List CoreStep :=
  startRun 2 ++ turnRun 2 0 0 ++ List.replicate 3 (.access 0 (aliveBelow 2 0 false)) ++
    [.access 1 (aliveBelow 2 0 false)] ++ turnRun 2 0 1 ++
    List.replicate 3 (.access 1 (aliveBelow 2 0 false))

theorem handOnRun_takes_own :
    EachStep (CoreState.step [0, 1]) (MayHandOn [0, 1]) (init (fun _ => 50) 10000000)
        handOnRun ∧
      EachStep (CoreState.step [0, 1]) (TakesOwn [0, 1]) (init (fun _ => 50) 10000000)
        handOnRun := by
  have hmay : EachStep (CoreState.step [0, 1]) (MayHandOn [0, 1])
      (init (fun _ => 50) 10000000) handOnRun := by
    decide +kernel
  exact ⟨hmay, takes_own [0, 1] (fun _ => 50) 10000000 handOnRun hmay⟩

/-- Both processes of vNPU 0 find it to be the owner; the first one hands the die to vNPU 1, and
then the second one takes a turn. -/
def staleRun : List CoreStep :=
  startRun 3 ++ [.access 1 (aliveBelow 3 0 false)] ++ turnRun 3 0 0 ++
    List.replicate 3 (.access 0 (aliveBelow 3 0 false)) ++ turnRun 3 0 1

def staleRunEnd : CoreState :=
  exec (CoreState.step [0, 0, 1, 2]) (init (fun _ => 50) 10000000) staleRun

theorem staleRunEnd_owner : staleRunEnd.shared.owner = 1 ∧ staleRunEnd.shared.isVnpuAlive 1 = true ∧
    (staleRunEnd.step [0, 0, 1, 2] (.access 1 (aliveBelow 3 0 false))).shared.owner = 2 := by
  decide +kernel

/-- A process of vNPU 0 takes the die from vNPU 1, which is alive. -/
theorem staleRun_takes_other :
    ¬ ∀ (vnpus : List Nat) (coreLimitQuota : Nat → UInt8) (clock : Nat) (run : List CoreStep),
      EachStep (CoreState.step vnpus) SeesAlive (init coreLimitQuota clock) run →
        EachStep (CoreState.step vnpus) (TakesOwn vnpus) (init coreLimitQuota clock)
          run := by
  intro h
  have hall := h [0, 0, 1, 2] (fun _ => 50) 10000000
    (staleRun ++ [.access 1 (aliveBelow 3 0 false)]) (by decide +kernel)
  rw [eachStep_append] at hall
  have htakes : TakesOwn [0, 0, 1, 2] staleRunEnd (.access 1 (aliveBelow 3 0 false)) := hall.2.1
  obtain ⟨howner, halive, hnext⟩ := staleRunEnd_owner
  obtain ⟨p, input, v, hstep, hp, hv⟩ := htakes (by rw [howner]; exact halive)
    (by rw [hnext, howner]; decide)
  cases hstep
  cases hp
  rw [howner] at hv
  cases hv

end

end UbsVirt.Enpu
