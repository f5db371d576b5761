import UbsVirt.Enpu.CoreBooks
import UbsVirt.Enpu.CoreTurns

/-!
# One quota a turn

The quota of a vNPU is added by the first of its processes that finds the turn new, under the
mutex of the vNPU; the turn it was added for is stored afterwards, and a turn is ended by a
process that finds its own turn unchanged. A turn is ended without a quota by a process whose
lock failed, or that is back at its turn after 256 turns; the quota is added twice when a
process exits before it has stored the turn. Otherwise the books of every vNPU balance after
every turn. Source: `vcann-rt/src/core_limiter.c:372-432,609-664`.
-/

namespace UbsVirt.Enpu

open Interleaving Run Function Config List Pc Enpu

variable {pc : Pc}

namespace Pc

/-- The process has added the quota and not yet subtracted what it grants. -/
def granting : Pc → Bool
  | .loadCur _ | .subSlice _ _ => true
  | _ => false

/-- The process has added the quota and not yet stored the turn. -/
def injecting : Pc → Bool
  | .loadCur _ | .subSlice _ _ | .storeSlice _ _ | .storeInjected _ => true
  | _ => false

theorem granting_of_injecting (h : pc.injecting = false) : pc.granting = false := by
  cases pc <;> simp_all [injecting, granting]

theorem critical_of_granting (h : pc.granting = true) : pc.critical = true := by
  cases pc <;> simp_all [granting, critical]

theorem critical_of_injecting (h : pc.injecting = true) : pc.critical = true := by
  cases pc <;> simp_all [injecting, critical]

end Pc

def NoneAt (vnpus : List Nat) (s : CoreState) (vnpuId : Nat) (f : Pc → Bool) : Prop :=
  ∀ p, vnpus[p]? = some vnpuId → f (s.control p) = false

/-- The condition on an access: a process that could not lock reads a turn whose quota has been
added, a process that hands over has not been in its turn for 256 turns, and a debt does not
take the time slice out of the range of an `int64_t`. -/
def MayCharge (c : SchedContext) (vnpuId : Nat) : Pc → Prop
  | .lockFailed => c.quotaInjectedForTurn vnpuId = c.scheduleTurn vnpuId
  | .recheckTurn t => (c.ledger vnpuId).ended < t.number + 256
  | .subDebt _ debt => -2 ^ 63 ≤ toInt64 (c.curTimeslice vnpuId) - debt
  | _ => True

/-- The condition on a step. Besides, no process exits between adding the quota and storing the
turn. -/
def MayTakeTurn (vnpus : List Nat) (s : CoreState) : CoreStep → Prop
  | .access p _ => ∀ vnpuId ∈ vnpus[p]?, MayCharge s.shared vnpuId (s.control p)
  | .exit p => (s.control p).injecting = false
  | _ => True

/-- The quota has been added once in every turn that is over and at most once in the current one;
no turn grants more than the quota; the time slice is not positive, unless a process is about
to grant it; and before the quota of a turn is added, what was used in the turns before it and
the time slice make up their quotas. -/
structure Conserved (vnpus : List Nat) (quota : Nat → Nat) (s : CoreState) : Prop where
  injections : ∀ v, ∀ r ∈ (s.shared.ledger v).past, r.injections = 1
  once : ∀ v, (s.shared.ledger v).now.injections ≤ 1
  granted : ∀ v, ∀ r ∈ (s.shared.ledger v).now :: (s.shared.ledger v).past, r.granted ≤ quota v
  nonpos : ∀ v, NoneAt vnpus s v granting → toInt64 (s.shared.curTimeslice v) ≤ 0
  balance : ∀ v, (s.shared.ledger v).now.injections = 0 →
    ((s.shared.ledger v).used : Int) =
      (s.shared.ledger v).ended * quota v - toInt64 (s.shared.curTimeslice v)

/-! ### The invariant -/

/-- What a process knows of the books of its vNPU, with quota `q`. -/
def QuotaPc (q : Nat) (l : TurnLedger) (cur : Nat) : Pc → Prop
  | .loadInjected _ => True
  | .resetExpected _ | .resetCompleted _ | .resetMaxSync _ | .loadQuota _ => l.now.injections = 0
  | .addQuota _ quota => l.now.injections = 0 ∧ quota = q
  | .loadCur _ => l.now.injections = 1 ∧ l.now.granted = 0 ∧ toInt64 cur ≤ q
  | .subSlice _ ts => l.now.injections = 1 ∧ l.now.granted = 0 ∧ toInt64 cur = ts ∧ ts ≤ q
  | pc => ∀ t ∈ pc.turn?, t.number = l.ended → l.now.injections = 1

structure QuotaInv (vnpus : List Nat) (quota : Nat → Nat) (s : CoreState) : Prop where
  turns : TurnInv vnpus s
  small : ∀ v, quota v < 2 ^ 62
  fixed : s.shared.quotaTimeslice = quota
  books : ∀ v, Books (quota v) (s.shared.ledger v) (s.shared.curTimeslice v)
    (s.shared.quotaInjectedForTurn v) (NoneAt vnpus s v injecting)
    (NoneAt vnpus s v granting)
  proc : ∀ p v, vnpus[p]? = some v →
    QuotaPc (quota v) (s.shared.ledger v) (s.shared.curTimeslice v) (s.control p)

variable {vnpus : List Nat} {s : CoreState}

theorem QuotaInv.conserved {quota : Nat → Nat}
    (h : QuotaInv vnpus quota s) : Conserved vnpus quota s := by
  constructor
  case injections => exact fun v r hr => ((h.books v).past r hr).1
  case once => exact fun v => (h.books v).once
  case granted =>
    intro v r hr
    rcases mem_cons.mp hr with rfl | hr
    · exact (h.books v).granted
    · exact ((h.books v).past r hr).2
  case nonpos => exact fun v => (h.books v).nonpos
  case balance =>
    intro v hnow
    have hbal := (h.books v).balance
    rw [(h.books v).empty hnow, hnow] at hbal
    rwa [Int.natCast_zero, Int.add_zero, Int.add_zero] at hbal

theorem MayTakeTurn.mayRecheck {i : CoreStep}
    (h : MayTakeTurn vnpus s i) : MayRecheck vnpus s i := by
  cases i with
  | access p input =>
    intro v hv t ht
    have := h v hv
    rw [ht] at this
    exact this
  | _ => trivial

variable {n : Nat}

section

variable {vnpuId p : Nat} {input : StepInput} {c : SchedContext} {pc : Pc} {q : Nat}

variable (vnpuId p input c) in
/-- A process that does not hold the mutex leaves the books alone. -/
theorem access_of_not_critical (h : pc.critical = false) :
    (access vnpuId p input c pc).1.curTimeslice = c.curTimeslice ∧
      (access vnpuId p input c pc).1.quotaInjectedForTurn = c.quotaInjectedForTurn ∧
      (access vnpuId p input c pc).1.ledger = c.ledger ∧
      (access vnpuId p input c pc).2.injecting = false := by
  cases pc <;> simp only [access] <;> (try split_ifs) <;> simp_all [critical, injecting]

theorem access_quota : (access vnpuId p input c pc).1.quotaTimeslice = c.quotaTimeslice := by
  cases pc <;> simp only [access] <;> (try split_ifs) <;> rfl

theorem quotaPc_of_not_critical {l : TurnLedger} {cur : Nat} (h : pc.critical = false) :
    QuotaPc q l cur pc ↔ ∀ t ∈ pc.turn?, t.number = l.ended → l.now.injections = 1 := by
  cases pc <;> simp_all [QuotaPc, critical]

/-- The process in the critical section keeps the books. -/
theorem Books.access_critical (hq : q < 2 ^ 62) (hpc : PcInv c vnpuId p pc)
    (hmay : MayCharge c vnpuId pc) (hcrit : pc.critical = true)
    (h : Books q (c.ledger vnpuId) (c.curTimeslice vnpuId) (c.quotaInjectedForTurn vnpuId)
      (pc.injecting = false) (pc.granting = false))
    (hproc : QuotaPc q (c.ledger vnpuId) (c.curTimeslice vnpuId) pc) :
    Books q ((access vnpuId p input c pc).1.ledger vnpuId)
        ((access vnpuId p input c pc).1.curTimeslice vnpuId)
        ((access vnpuId p input c pc).1.quotaInjectedForTurn vnpuId)
        ((access vnpuId p input c pc).2.injecting = false)
        ((access vnpuId p input c pc).2.granting = false) := by
  cases pc with
  | addQuota t quota =>
    simp only [access, update_self]
    obtain ⟨hnow, rfl⟩ := hproc
    exact (h.inject hq hnow rfl).1.mono (by rintro ⟨⟩) (by rintro ⟨⟩)
  | loadCur t =>
    simp only [access]
    split
    · exact h.mono (by rintro ⟨⟩) (by rintro ⟨⟩)
    · next hcur =>
      exact { h with injected := by rintro _ ⟨⟩, nonpos := fun _ => Int.not_lt.mp hcur }
  | subSlice t ts =>
    simp only [access, update_self]
    obtain ⟨hnow, hnone, hcur, hts⟩ := hproc
    exact (h.grant hnow hnone hcur hts).mono (by rintro ⟨⟩) fun _ => trivial
  | storeSlice t ts => exact h
  | storeInjected t =>
    have hnow := hproc t rfl (hpc.current rfl t rfl)
    have hid : t.turnId = (c.ledger vnpuId).ended % 256 := by
      rw [hpc.turnId t rfl, hpc.current rfl t rfl]
    simp only [access, update_self]
    rw [hid]
    exact (h.store hnow).mono (fun _ => trivial) fun _ => rfl
  | subDebt t debt =>
    have hnow := hproc t rfl (hpc.current rfl t rfl)
    simp only [access, update_self]
    exact h.charge hnow hmay
  | storeTurn t =>
    have hnow := hproc t rfl (hpc.current rfl t rfl)
    simp only [access, update_self]
    exact h.endTurn hnow rfl
  | loadInjected t =>
    simp only [access]
    split <;> exact h
  | recheckTurn t =>
    simp only [access]
    split_ifs
    · exact h
    · exact h
    · exact h
  | storeOwner t =>
    simp only [access]
    split_ifs
    · exact h
    · exact h
  | _ =>
    first
      | exact h
      | cases hcrit

/-- A process keeps what it knows. -/
theorem QuotaPc.access (hq : q < 2 ^ 62) (hquota : c.quotaTimeslice vnpuId = q)
    (hturn : c.scheduleTurn vnpuId = (c.ledger vnpuId).ended % 256)
    (hpc : PcInv c vnpuId p pc) (hmay : MayCharge c vnpuId pc) {idle settled : Prop}
    (hidle : pc.critical = true → pc.injecting = false → idle)
    (hsettled : pc.critical = true → pc.granting = false → settled)
    (h : Books q (c.ledger vnpuId) (c.curTimeslice vnpuId) (c.quotaInjectedForTurn vnpuId)
      idle settled) (hproc : QuotaPc q (c.ledger vnpuId) (c.curTimeslice vnpuId) pc) :
    QuotaPc q ((access vnpuId p input c pc).1.ledger vnpuId)
        ((access vnpuId p input c pc).1.curTimeslice vnpuId)
        (access vnpuId p input c pc).2 := by
  cases pc with
  | lockFailed =>
    intro t ht _
    exact h.injections_eq_one (hmay.trans hturn)
  | loadInjected t =>
    have hid : t.turnId = (c.ledger vnpuId).ended % 256 := by
      rw [hpc.turnId t rfl, hpc.current rfl t rfl]
    simp only [access]
    split
    · next heq => exact fun _ _ _ => h.injections_eq_one (heq.symm.trans hid)
    · next hne =>
      exact h.injections_eq_zero (hidle rfl rfl) fun heq => hne (hid.trans heq.symm)
  | loadQuota t => exact ⟨hproc, hquota⟩
  | addQuota t quota =>
    simp only [access, update_self]
    obtain ⟨hnow, rfl⟩ := hproc
    have hempty := h.empty hnow
    refine ⟨by rw [TurnLedger.inject, hnow], ?_, (h.inject hq hnow (hsettled rfl rfl)).2⟩
    unfold TurnRecord.used at hempty
    show (c.ledger vnpuId).now.granted = 0
    omega
  | loadCur t =>
    obtain ⟨hnow, hnone, hcur⟩ := hproc
    simp only [access]
    split
    · exact ⟨hnow, hnone, by omega, by omega⟩
    · exact fun _ _ _ => hnow
  | subSlice t ts =>
    simp only [access, update_self]
    exact fun _ _ _ => hproc.1
  | subDebt t debt =>
    simp only [access, update_self]
    exact hproc
  | _ =>
    simp only [access]
    (try split_ifs) <;> first
      | exact hproc
      | simp_all [QuotaPc, turn?]

/-- What a step of the process in the critical section leaves to a process outside. -/
theorem ledger_access (hproc : QuotaPc q (c.ledger vnpuId) (c.curTimeslice vnpuId) pc)
    (hn : n ≤ (c.ledger vnpuId).ended)
    (hnow : n = (c.ledger vnpuId).ended → (c.ledger vnpuId).now.injections = 1)
    (hn' : n = ((access vnpuId p input c pc).1.ledger vnpuId).ended) :
    ((access vnpuId p input c pc).1.ledger vnpuId).now.injections = 1 := by
  cases pc with
  | addQuota t quota =>
    simp only [access, update_self]
    rw [TurnLedger.inject, hproc.1]
  | storeTurn t =>
    simp only [access, update_self] at hn'
    change n = (c.ledger vnpuId).ended + 1 at hn'
    omega
  | subSlice t ts | subDebt t debt =>
    simp only [access, update_self] at hn' ⊢
    exact hnow hn'
  | _ =>
    simp only [access] at hn' ⊢
    (try split_ifs at hn' ⊢) <;> exact hnow hn'

end

variable {p v : Nat}

section

variable {vnpus : List Nat} {quota : Nat → Nat} {s : CoreState}

/-- While a process is in the critical section, no other process of the vNPU is injecting. -/
theorem TurnInv.noneAt (h : TurnInv vnpus s) (hp : vnpus[p]? = some v)
    (hcrit : (s.control p).critical = true) {f : Pc → Bool} (hf : f (s.control p) = false)
    (hfc : ∀ pc, f pc = true → pc.critical = true) : NoneAt vnpus s v f := by
  intro r hr
  by_contra hne
  have hr' := hfc _ (Bool.not_eq_false _ ▸ hne)
  have := h.exclusive hp hr hcrit hr'
  subst this
  exact hne hf

theorem NoneAt.of_act {f : Pc → Bool} {r : SchedContext × Pc}
    (h : NoneAt vnpus (s.act p r) v f) (hp : vnpus[p]? = some v → f (s.control p) = false) :
    NoneAt vnpus s v f := by
  intro w hw
  by_cases heq : w = p
  · subst heq
    exact hp hw
  · have := h w hw
    rwa [act_control_of_ne heq] at this

/-- One shared access keeps the books of every virtual NPU. -/
theorem QuotaInv.books_access (h : QuotaInv vnpus quota s) (hp : vnpus[p]? = some v)
    (hmay : MayCharge s.shared v (s.control p)) (input : StepInput) (w : Nat) :
    Books (quota w) ((access v p input s.shared (s.control p)).1.ledger w)
      ((access v p input s.shared (s.control p)).1.curTimeslice w)
      ((access v p input s.shared (s.control p)).1.quotaInjectedForTurn w)
      (NoneAt vnpus (s.act p (access v p input s.shared (s.control p))) w injecting)
      (NoneAt vnpus (s.act p (access v p input s.shared (s.control p))) w granting) := by
  by_cases hw : w = v
  · subst hw
    cases hcrit : (s.control p).critical with
    | false =>
      obtain ⟨hcur, hinj, hledger, -⟩ :=
        access_of_not_critical w p input s.shared hcrit
      have hnot : (s.control p).injecting = false := by
        by_contra hne
        have := critical_of_injecting (Bool.not_eq_false _ ▸ hne)
        rw [hcrit] at this
        cases this
      rw [hcur, hinj, hledger]
      exact (h.books w).mono (fun hnone => hnone.of_act fun _ => hnot)
        fun hnone => hnone.of_act fun _ => granting_of_injecting hnot
    | true =>
      have hbooks := (h.books w).mono
        (fun hf => h.turns.noneAt hp hcrit hf fun _ => critical_of_injecting)
        (fun hf => h.turns.noneAt hp hcrit hf fun _ => critical_of_granting)
      refine (hbooks.access_critical (h.small w) (h.turns.proc p w hp) hmay hcrit
        (h.proc p w hp)).mono ?_ ?_
      · intro hnone
        have := hnone p hp
        rwa [act_control_self] at this
      · intro hnone
        have := hnone p hp
        rwa [act_control_self] at this
  · obtain ⟨-, -, hcur, hinj, hledger⟩ :=
      access_of_ne p input s.shared (s.control p) hw
    have hother : vnpus[p]? ≠ some w := by
      rw [hp]
      exact fun heq => hw (Option.some.inj heq).symm
    rw [hcur, hinj, hledger]
    exact (h.books w).mono (fun hnone => hnone.of_act fun heq => absurd heq hother)
      fun hnone => hnone.of_act fun heq => absurd heq hother

/-- The processes that are not in the critical section keep what they know. -/
theorem QuotaInv.proc_other (h : QuotaInv vnpus quota s) (hp : vnpus[p]? = some v)
    (input : StepInput) {r w : Nat} (hr : vnpus[r]? = some w) (hne : r ≠ p) :
    QuotaPc (quota w) ((access v p input s.shared (s.control p)).1.ledger w)
      ((access v p input s.shared (s.control p)).1.curTimeslice w) (s.control r) := by
  have hproc := h.proc r w hr
  by_cases hw : w = v
  · subst hw
    cases hcrit : (s.control p).critical with
    | false =>
      obtain ⟨hcur, -, hledger, -⟩ :=
        access_of_not_critical w p input s.shared hcrit
      rwa [hcur, hledger]
    | true =>
      have hout : (s.control r).critical = false := by
        by_contra hcrit'
        exact hne (h.turns.exclusive hr hp (Bool.not_eq_false _ ▸ hcrit') hcrit)
      rw [quotaPc_of_not_critical hout] at hproc ⊢
      intro t ht
      exact ledger_access (h.proc p w hp) ((h.turns.proc r w hr).number t ht) (hproc t ht)
  · obtain ⟨-, -, hcur, -, hledger⟩ :=
      access_of_ne p input s.shared (s.control p) hw
    rwa [hcur, hledger]

/-- Every step keeps the quota invariant. -/
theorem QuotaInv.step (h : QuotaInv vnpus quota s) {i : CoreStep} (hmay : MayTakeTurn vnpus s i) :
    QuotaInv vnpus quota (s.step vnpus i) := by
  have hturns := h.turns.step hmay.mayRecheck
  cases i with
  | access p input =>
    cases hp : vnpus[p]? with
    | none => rwa [CoreState.step_access_none hp]
    | some v =>
      rw [CoreState.step_access hp] at hturns ⊢
      refine ⟨hturns, h.small, access_quota.trans h.fixed, h.books_access hp (hmay v hp) input, ?_⟩
      apply forall_act (I := fun (r : Nat) pc (c : SchedContext) => ∀ w, vnpus[r]? = some w →
        QuotaPc (quota w) (c.ledger w) (c.curTimeslice w) pc) h.proc
      · intro w hw
        rw [hp] at hw
        cases hw
        exact (h.proc p v hp).access (h.small v) (congrFun h.fixed v) (h.turns.turn v)
          (h.turns.proc p v hp) (hmay v hp)
          (fun hcrit hf => h.turns.noneAt hp hcrit hf fun _ => critical_of_injecting)
          (fun hcrit hf => h.turns.noneAt hp hcrit hf fun _ => critical_of_granting)
          (h.books v)
      · intro r hne _ w hr
        exact h.proc_other hp input hr hne
  | tick ns => exact ⟨hturns, h.small, h.fixed, h.books, h.proc⟩
  | heartbeat v now =>
    unfold CoreState.step at hturns ⊢
    dsimp only at hturns ⊢
    split at hturns
    · rw [if_pos (by assumption)]
      exact ⟨hturns, h.small, h.fixed, h.books, h.proc⟩
    · rwa [if_neg (by assumption)]
  | exit p =>
    refine ⟨hturns, h.small, h.fixed, ?_, ?_⟩
    · intro v
      exact (h.books v).mono (fun hnone => hnone.of_act fun _ => hmay)
        fun hnone => hnone.of_act fun _ => granting_of_injecting hmay
    · apply forall_act (I := fun (r : Nat) pc (c : SchedContext) => ∀ w, vnpus[r]? = some w →
        QuotaPc (quota w) (c.ledger w) (c.curTimeslice w) pc) h.proc
      · exact fun _ _ => nofun
      · exact fun _ _ hproc => hproc

theorem QuotaInv.init (coreLimitQuota : Nat → UInt8) (clock : Nat) :
    QuotaInv vnpus (CoreState.init coreLimitQuota clock).shared.quotaTimeslice
      (CoreState.init coreLimitQuota clock) where
  turns := .init coreLimitQuota clock
  small := by
    intro v
    have := (coreLimitQuota v).toNat_lt
    show (coreLimitQuota v).toNat * 100000000 / 100 < 2 ^ 62
    omega
  fixed := rfl
  books := by
    intro v
    constructor
    case bound =>
      show 0 < 2 ^ 64
      decide
    case past => exact nofun
    case once => exact Nat.zero_le _
    case granted => exact Nat.zero_le _
    case empty => exact fun _ => rfl
    case balance =>
      show (0 : Int) = (0 + 0) * _ - 0
      omega
    case fresh => exact fun _ => rfl
    case injected => exact nofun
    case nonpos => exact fun _ => Int.le_refl 0
  proc := fun _ _ _ => nofun

end

/-- For any number of processes of any vNPUs and any debts, the books of every vNPU balance in
every state of every run whose steps all meet the condition. -/
theorem quota_conserved (vnpus : List Nat) (coreLimitQuota : Nat → UInt8) (clock : Nat)
    (run : List CoreStep) (hmay : EachStep (CoreState.step vnpus) (MayTakeTurn vnpus)
      (CoreState.init coreLimitQuota clock) run) :
    Throughout (CoreState.step vnpus)
      (Conserved vnpus (CoreState.init coreLimitQuota clock).shared.quotaTimeslice)
      (CoreState.init coreLimitQuota clock) run :=
  (throughout_of_step (QuotaInv.init coreLimitQuota clock) (fun _ _ h hi => h.step hi)
    hmay).mono fun _ h => h.conserved

section

instance (c : SchedContext) (vnpuId : Nat) (pc : Pc) : Decidable (MayCharge c vnpuId pc) := by
  induction pc using Pc.casesOn <;> dsimp only [MayCharge] <;> infer_instance

instance (vnpus : List Nat) (s : CoreState) (i : CoreStep) :
    Decidable (MayTakeTurn vnpus s i) := by
  induction i using CoreStep.casesOn <;> dsimp only [MayTakeTurn] <;> infer_instance

/-- Two processes of vNPU 0 take its first turn, one of them hands the die on, and a process of
vNPU 1 takes a turn. The streams take 1 us. -/
def debtRun : List CoreStep :=
  startRun 2 ++ [.access 1 (aliveBelow 2 1000 false)] ++ turnRun 2 1000 0 ++
    replicate 3 (.access 0 (aliveBelow 2 1000 false)) ++
    replicate 9 (.access 1 (aliveBelow 2 1000 true)) ++
    [.access 2 (aliveBelow 2 1000 false)] ++ turnRun 2 1000 2

def debtRunEnd : CoreState :=
  exec (CoreState.step [0, 0, 1]) (CoreState.init (fun _ => 50) 10000000) debtRun

theorem debtRun_mayTakeTurn : EachStep (CoreState.step [0, 0, 1]) (MayTakeTurn [0, 0, 1])
    (CoreState.init (fun _ => 50) 10000000) debtRun := by
  decide +kernel

/-- The die is handed on once, and the two processes of vNPU 0 exclude each other. -/
theorem debtRun_exclusive : (debtRunEnd.shared.ledger 0).ended = 1 ∧
    Throughout (CoreState.step [0, 0, 1]) (fun s =>
        (∀ v, s.shared.scheduleTurn v = (s.shared.ledger v).ended % 256) ∧
        ∀ p q v, [0, 0, 1][p]? = some v → [0, 0, 1][q]? = some v → (s.control p).critical = true →
          (s.control q).critical = true → p = q) (CoreState.init (fun _ => 50) 10000000) debtRun :=
  ⟨by decide +kernel, turns_exclusive [0, 0, 1] (fun _ => 50) 10000000 debtRun
    (debtRun_mayTakeTurn.imp fun _ _ h => h.mayRecheck)⟩

theorem debtRun_conserved : EachStep (CoreState.step [0, 0, 1]) (MayTakeTurn [0, 0, 1])
        (CoreState.init (fun _ => 50) 10000000) debtRun ∧
      (debtRunEnd.shared.ledger 0).ended = 1 ∧
      Throughout (CoreState.step [0, 0, 1]) (Conserved [0, 0, 1]
          (CoreState.init (fun _ => 50) 10000000).shared.quotaTimeslice)
        (CoreState.init (fun _ => 50) 10000000) debtRun :=
  ⟨debtRun_mayTakeTurn, by decide +kernel,
    quota_conserved [0, 0, 1] (fun _ => 50) 10000000 debtRun debtRun_mayTakeTurn⟩

/-! ### A process that is 256 turns late -/

def CoreStep.Undisturbed : CoreStep → Prop
  | .access _ input => input.lockFails = false
  | .exit _ => False
  | _ => True

instance (i : CoreStep) : Decidable i.Undisturbed := by
  induction i using CoreStep.casesOn <;> dsimp only [CoreStep.Undisturbed] <;> infer_instance

def alone (v p : Nat) (r : SchedContext × Pc) (inputs : List StepInput) : SchedContext × Pc :=
  inputs.foldl (fun r input => access v p input r.1 r.2) r

theorem alone_nil {r : SchedContext × Pc} : alone v p r [] = r := rfl

variable {c : SchedContext}

theorem alone_cons {input : StepInput} {inputs : List StepInput} :
    alone v p (c, pc) (input :: inputs) = alone v p (access v p input c pc) inputs := rfl

theorem exec_alone (hp : vnpus[p]? = some v) (inputs : List StepInput) (s : CoreState) :
    exec (CoreState.step vnpus) s (inputs.map (.access p)) =
      s.act p (alone v p (s.shared, s.control p) inputs) := by
  induction inputs generalizing s with
  | nil => exact act_self.symm
  | cons input inputs ih =>
    rw [map_cons, exec_cons, ih, CoreState.step_access hp, act_act, act_shared,
      act_control_self, alone_cons]

/-- The shared memory between two turns of vNPU 0 when `n` turns are over. -/
structure Between (n : Nat) (c : SchedContext) : Prop where
  mutex : c.scheduleMutex 0 = none
  turn : c.scheduleTurn 0 = n % 256
  owner : c.owner = 0
  quota : c.quotaTimeslice 0 = 50000000
  cur : c.curTimeslice 0 = 0
  injectedFor : c.quotaInjectedForTurn 0 = (n + 255) % 256
  now : (c.ledger 0).now = ⟨0, 0, 0⟩

def aloneInputs : List StepInput :=
  replicate 18 (aliveBelow 1 0 false) ++ aliveBelow 1 0 true ::
    replicate 14 (aliveBelow 1 0 false)

theorem selectNextOwner_alone (timeUp : Bool) :
    selectNextOwner (aliveBelow 1 0 timeUp).seen 0 = 0 := by
  show selectNextOwner (fun v => v < 1) 0 = 0
  decide +kernel

theorem Between.turn_alone (h : Between n c) :
    ∃ c', alone 0 0 (c, .loadOwner) aloneInputs = (c', .loadOwner) ∧ Between (n + 1) c' := by
  obtain ⟨hmutex, hturn, howner, hquota, hcur, hinj, -⟩ := h
  have hne : n % 256 ≠ (n + 255) % 256 := by omega
  have hfails : ∀ timeUp, (aliveBelow 1 0 timeUp).lockFails = false := fun _ => rfl
  have hup : ∀ timeUp, (aliveBelow 1 0 timeUp).timeUp = timeUp := fun _ => rfl
  have hsync : ∀ timeUp, (aliveBelow 1 0 timeUp).syncNs = 0 := fun _ => rfl
  obtain ⟨r, hr⟩ : ∃ r, r = alone 0 0 (c, .loadOwner) aloneInputs := ⟨_, rfl⟩
  rw [← hr]
  simp [aloneInputs, replicate, alone_cons, alone_nil, access, fetchAdd, fetchSub, toInt64,
    hmutex, hturn, howner, hquota, hcur, hinj, hne, hfails, hup, hsync,
    selectNextOwner_alone] at hr
  refine ⟨_, hr, ?_⟩
  constructor
  case injectedFor =>
    show update c.quotaInjectedForTurn 0 (n % 256) 0 = (n + 1 + 255) % 256
    rw [update_self]
    omega
  all_goals simp [hquota, TurnLedger.endTurn]

def aloneTurns : Nat → List CoreStep
  | 0 => []
  | k + 1 => aloneTurns k ++ aloneInputs.map (.access 0)

theorem aloneTurns_between (hs : Between n s.shared) (hpc : s.control 0 = .loadOwner) (k : Nat) :
    Between (n + k) (exec (CoreState.step [0, 0]) s (aloneTurns k)).shared ∧
      (exec (CoreState.step [0, 0]) s (aloneTurns k)).control 0 = .loadOwner ∧
      (exec (CoreState.step [0, 0]) s (aloneTurns k)).control 1 = s.control 1 := by
  induction k with
  | zero => exact ⟨hs, hpc, rfl⟩
  | succ k ih =>
    obtain ⟨hbetween, hpc', hother⟩ := ih
    obtain ⟨c, hc, hnext⟩ := hbetween.turn_alone
    unfold aloneTurns
    rw [exec_append, exec_alone rfl, hpc', hc, act_shared, act_control_self,
      act_control_of_ne (by decide), hother]
    exact ⟨hnext, rfl, rfl⟩

/-- Process 1 finds its turn again, and ends it. -/
theorem Between.turn_late (h : Between 256 c) {number : Nat} :
    ∃ r ∈ ((alone 0 1 (c, .sync ⟨0, number, 0, 50000000⟩)
        (replicate 11 (aliveBelow 1 0 true))).1.ledger 0).past, r.injections = 0 := by
  obtain ⟨hmutex, hturn, -, -, -, -, hnow⟩ := h
  have hfails : ∀ timeUp, (aliveBelow 1 0 timeUp).lockFails = false := fun _ => rfl
  have hup : ∀ timeUp, (aliveBelow 1 0 timeUp).timeUp = timeUp := fun _ => rfl
  obtain ⟨r, hr⟩ : ∃ r, r = alone 0 1 (c, .sync ⟨0, number, 0, 50000000⟩)
    (replicate 11 (aliveBelow 1 0 true)) := ⟨_, rfl⟩
  rw [← hr]
  simp [replicate, alone_cons, alone_nil, access, hmutex, hturn, hfails, hup] at hr
  rw [hr]
  refine ⟨_, mem_cons_self, ?_⟩
  show (c.ledger 0).now.injections = 0
  rw [hnow]

/-- Both processes of vNPU 0 are in its first turn. Process 0 does not wait for process 1, whose
streams go on, and hands over to itself. -/
def lateStart : List CoreStep :=
  startRun 1 ++ replicate 17 (.access 0 (aliveBelow 1 0 false)) ++
    replicate 10 (.access 1 (aliveBelow 1 0 true)) ++
    replicate 13 (.access 0 (aliveBelow 1 0 true))

def lateStartEnd : CoreState :=
  exec (CoreState.step [0, 0]) (CoreState.init (fun _ => 50) 10000000) lateStart

theorem lateStartEnd_between : Between 1 lateStartEnd.shared := by
  constructor <;> decide +kernel

theorem lateStartEnd_control : lateStartEnd.control 0 = .loadOwner ∧
    lateStartEnd.control 1 = .sync ⟨0, 0, 0, 50000000⟩ := by
  decide +kernel

/-- After `k` more turns of process 0, the streams of process 1 are done. -/
def lateRun (k : Nat) : List CoreStep :=
  lateStart ++ (aloneTurns k ++ (replicate 11 (aliveBelow 1 0 true)).map (.access 1))

theorem lateRun_end {k : Nat} (hk : 1 + k = 256) : ∃ r ∈ ((exec (CoreState.step [0, 0])
    (CoreState.init (fun _ => 50) 10000000) (lateRun k)).shared.ledger 0).past,
      r.injections = 0 := by
  obtain ⟨hpc, hother⟩ := lateStartEnd_control
  obtain ⟨hbetween, -, hcontrol⟩ := aloneTurns_between lateStartEnd_between hpc k
  unfold lateRun
  rw [exec_append, exec_append, exec_alone rfl, act_shared]
  change ∃ r ∈ ((alone 0 1 ((exec (CoreState.step [0, 0]) lateStartEnd (aloneTurns k)).shared,
    (exec (CoreState.step [0, 0]) lateStartEnd (aloneTurns k)).control 1) _).1.ledger 0).past, _
  rw [hcontrol, hother]
  rw [hk] at hbetween
  exact hbetween.turn_late

theorem aloneTurns_undisturbed (k : Nat) : ∀ i ∈ aloneTurns k, i.Undisturbed := by
  induction k with
  | zero => exact nofun
  | succ k ih =>
    intro i hi
    rcases mem_append.mp hi with hi | hi
    · exact ih i hi
    · have : ∀ i ∈ aloneInputs.map (.access 0), CoreStep.Undisturbed i := by decide
      exact this i hi

theorem lateRun_undisturbed (k : Nat) : ∀ i ∈ lateRun k, i.Undisturbed := by
  intro i hi
  rcases mem_append.mp hi with hi | hi
  · have : ∀ i ∈ lateStart, i.Undisturbed := by decide
    exact this i hi
  rcases mem_append.mp hi with hi | hi
  · exact aloneTurns_undisturbed k i hi
  · have : ∀ i ∈ (replicate 11 (aliveBelow 1 0 true)).map (.access 1),
        CoreStep.Undisturbed i := by decide
    exact this i hi

/-- The quota of turn 256 is not added, although no lock fails and no process exits. -/
theorem lateRun_unpaid :
    ¬ ∀ (vnpus : List Nat) (coreLimitQuota : Nat → UInt8) (clock : Nat) (run : List CoreStep),
      (∀ i ∈ run, i.Undisturbed) → Throughout (CoreState.step vnpus)
          (Conserved vnpus (CoreState.init coreLimitQuota clock).shared.quotaTimeslice)
          (CoreState.init coreLimitQuota clock) run := by
  intro h
  obtain ⟨k, hk⟩ : ∃ k, 1 + k = 256 := ⟨255, rfl⟩
  have hall := h [0, 0] (fun _ => 50) 10000000 (lateRun k) (lateRun_undisturbed k)
  obtain ⟨r, hr, hzero⟩ := lateRun_end hk
  have hone := hall.last.injections 0 r hr
  rw [hzero] at hone
  cases hone

end

end UbsVirt.Enpu
