import UbsVirt.Enpu.CoreSched

/-!
# The turns of a vNPU

The 8-bit turn of a vNPU counts the turns that are over, modulo 256. Only the process that
holds the mutex of the vNPU changes it, so a process that has read it under the mutex knows
the turn until it unlocks. A process that has been in a turn for so long that 256 turns have
passed finds its number again; apart from that, a process that finds its turn unchanged when
it hands over is in the current turn. Source: `vcann-rt/src/core_limiter.c:372-432,609-664`.
-/

namespace UbsVirt.Enpu

open Interleaving Run TurnLedger

namespace Pc

def critical : Pc → Bool
  | .loadTurn | .loadInjected _ | .resetExpected _ | .resetCompleted _ | .resetMaxSync _
  | .loadQuota _ | .addQuota _ _ | .loadCur _ | .subSlice _ _ | .storeSlice _ _ | .storeInjected _
  | .addExpected _ | .loadOwnerNext _ | .selectNext _ _ | .unlockConsume _ | .recheckTurn _
  | .loadDebt _ | .subDebt _ _ | .storeOwner _ | .storeTurn _ | .unlockHandOver => true
  | _ => false

def turn? : Pc → Option Turn
  | .loadInjected t | .resetExpected t | .resetCompleted t | .resetMaxSync t | .loadQuota t
  | .addQuota t _ | .loadCur t | .subSlice t _ | .storeSlice t _ | .storeInjected t | .addExpected t
  | .loadOwnerNext t | .selectNext t _ | .unlockConsume t | .loadSlice t | .consume t | .sync t
  | .checkTurn t _ | .maxSync t _ | .addCompleted t | .waitTurn t | .waitExpected t
  | .waitCompleted t _ | .lockHandOver t | .recheckTurn t | .loadDebt t | .subDebt t _
  | .storeOwner t | .storeTurn t => some t
  | _ => none

/-- The process holds the mutex and has compared or read the turn under it. -/
def current : Pc → Bool
  | .recheckTurn _ => false
  | pc => pc.critical

end Pc

/-! ### What an access changes -/

variable {p vnpuId : Nat}

section

variable {vnpus : List Nat} {s : CoreState}

theorem CoreState.step_access (hp : vnpus[p]? = some vnpuId) (input : StepInput) :
    s.step vnpus (.access p input) = s.act p (access vnpuId p input s.shared (s.control p)) := by
  simp only [step, hp]

theorem CoreState.step_access_none (hp : vnpus[p]? = none) (input : StepInput) :
    s.step vnpus (.access p input) = s := by
  simp only [step, hp]

/-- A process that has exited is at no other control state. -/
theorem CoreState.control_exit {q : Nat} {f : Pc → Prop} (hf : ¬ f .exited)
    (h : f ((s.step vnpus (.exit p)).control q)) : q ≠ p ∧ f (s.control q) := by
  have hne : q ≠ p := by
    rintro rfl
    exact hf (by simpa [step] using h)
  exact ⟨hne, by simpa [step, Config.act_control_of_ne hne] using h⟩

end

section

attribute [local simp] access

variable {vnpuId p : Nat} {input : StepInput} {c : SchedContext} {pc : Pc} {w : Nat}

variable (p input c pc) in
/-- A process leaves the entries of other vNPUs alone. -/
theorem access_of_ne (hw : w ≠ vnpuId) :
    (access vnpuId p input c pc).1.scheduleMutex w = c.scheduleMutex w ∧
      (access vnpuId p input c pc).1.scheduleTurn w = c.scheduleTurn w ∧
      (access vnpuId p input c pc).1.curTimeslice w = c.curTimeslice w ∧
      (access vnpuId p input c pc).1.quotaInjectedForTurn w = c.quotaInjectedForTurn w ∧
      (access vnpuId p input c pc).1.ledger w = c.ledger w := by
  cases pc <;> simp only [access] <;> (try split_ifs) <;> simp [Function.update_of_ne hw]

variable (vnpuId p input c pc)

/-- The mutex is taken when it is free, and released by its holder. -/
theorem access_mutex :
    (access vnpuId p input c pc).1.scheduleMutex vnpuId = c.scheduleMutex vnpuId ∨
      pc.critical = true ∧ (access vnpuId p input c pc).1.scheduleMutex vnpuId = none ∨
      c.scheduleMutex vnpuId = none ∧
        (access vnpuId p input c pc).1.scheduleMutex vnpuId = some p := by
  cases pc <;> simp only [access] <;> (try split_ifs) <;> simp_all [Pc.critical]

/-- Only `storeTurn` ends a turn. -/
theorem access_turn : (access vnpuId p input c pc).1.scheduleTurn vnpuId = c.scheduleTurn vnpuId ∧
        ((access vnpuId p input c pc).1.ledger vnpuId).ended = (c.ledger vnpuId).ended ∨
      ∃ t, pc = .storeTurn t ∧
        (access vnpuId p input c pc).1.scheduleTurn vnpuId = (t.turnId + 1) % 256 ∧
        ((access vnpuId p input c pc).1.ledger vnpuId).ended = (c.ledger vnpuId).ended + 1 := by
  cases pc <;> simp only [access] <;> (try split_ifs) <;> simp [inject, grant, charge, ended,
      endTurn]

/-- Only a take-over and a hand-over store the owner. -/
theorem access_owner : (access vnpuId p input c pc).1.owner = c.owner ∨
      (∃ next, pc = .takeOver next) ∨ ∃ t, pc = .storeOwner t ∧ t.nextVnpuId ≠ -1 := by
  cases pc <;> simp only [access] <;> (try split_ifs) <;> simp_all

variable {vnpuId p input c pc}

/-- A process comes into a critical section by taking the mutex. -/
theorem mutex_access (h : pc.critical = true → c.scheduleMutex vnpuId = some p) :
    (access vnpuId p input c pc).2.critical = true →
      (access vnpuId p input c pc).1.scheduleMutex vnpuId = some p := by
  cases pc <;> simp only [access] <;> (try split_ifs) <;> simp_all [Pc.critical]

/-- A process stays in its turn, or reads the turn. -/
theorem turn?_access {t : Turn} (h : t ∈ (access vnpuId p input c pc).2.turn?) :
    (∃ t' ∈ pc.turn?, t.turnId = t'.turnId ∧ t.number = t'.number) ∨
      t.turnId = c.scheduleTurn vnpuId ∧ t.number = (c.ledger vnpuId).ended := by
  revert h
  cases pc <;> simp only [access] <;> (try split_ifs) <;> simp [Pc.turn?] <;> rintro rfl <;> simp

/-- A process knows that its turn is the current one from the mutex: it has read the turn, or
compared it, since it took the mutex. -/
theorem current_access {t : Turn} (h : (access vnpuId p input c pc).2.current = true)
    (ht : t ∈ (access vnpuId p input c pc).2.turn?) :
    ((access vnpuId p input c pc).1.ledger vnpuId).ended = (c.ledger vnpuId).ended ∧
      (t.number = (c.ledger vnpuId).ended ∨
        pc.current = true ∧ (∃ t' ∈ pc.turn?, t.number = t'.number) ∨
        ∃ t', pc = .recheckTurn t' ∧ c.scheduleTurn vnpuId = t'.turnId ∧ t.number = t'.number) := by
  revert h ht
  cases pc <;> simp only [access] <;> (try split_ifs) <;>
    simp [Pc.turn?, Pc.current, Pc.critical, ended, inject,
      grant, charge] <;> rintro rfl <;> simp_all

end

/-! ### The invariant -/

/-- What is known of the process `p` of a vNPU. -/
structure PcInv (c : SchedContext) (vnpuId p : Nat) (pc : Pc) : Prop where
  mutex : pc.critical = true → c.scheduleMutex vnpuId = some p
  turnId : ∀ t ∈ pc.turn?, t.turnId = t.number % 256
  number : ∀ t ∈ pc.turn?, t.number ≤ (c.ledger vnpuId).ended
  current : pc.current = true → ∀ t ∈ pc.turn?, t.number = (c.ledger vnpuId).ended

/-- The 8-bit turns count the turns that are over, and the processes know their turn. -/
structure TurnInv (vnpus : List Nat) (s : CoreState) : Prop where
  turn : ∀ vnpuId, s.shared.scheduleTurn vnpuId = (s.shared.ledger vnpuId).ended % 256
  proc : ∀ p vnpuId, vnpus[p]? = some vnpuId → PcInv s.shared vnpuId p (s.control p)

/-- A process that hands over has not been in its turn for 256 turns. -/
def MayRecheck (vnpus : List Nat) (s : CoreState) : CoreStep → Prop
  | .access p _ => ∀ vnpuId ∈ vnpus[p]?, ∀ t, s.control p = .recheckTurn t →
      (s.shared.ledger vnpuId).ended < t.number + 256
  | _ => True

section

variable {vnpus : List Nat} {s : CoreState} {c : SchedContext} {pc : Pc}

theorem PcInv.congr {c' : SchedContext} (h : PcInv c vnpuId p pc)
    (hmutex : c'.scheduleMutex = c.scheduleMutex) (hledger : c'.ledger = c.ledger) :
    PcInv c' vnpuId p pc := by
  refine ⟨?_, h.turnId, ?_, ?_⟩
  · rw [hmutex]
    exact h.mutex
  · rw [hledger]
    exact h.number
  · rw [hledger]
    exact h.current

/-- The acting process keeps what is known of it. -/
theorem PcInv.own (input : StepInput)
    (hturn : c.scheduleTurn vnpuId = (c.ledger vnpuId).ended % 256) (h : PcInv c vnpuId p pc)
    (hlag : ∀ t, pc = .recheckTurn t → (c.ledger vnpuId).ended < t.number + 256) :
    PcInv (access vnpuId p input c pc).1 vnpuId p (access vnpuId p input c pc).2 := by
  constructor
  case mutex => exact mutex_access h.mutex
  case turnId =>
    intro t ht
    rcases turn?_access ht with ⟨t', ht', hid, hnum⟩ | ⟨hid, hnum⟩
    · rw [hid, hnum]
      exact h.turnId t' ht'
    · rw [hid, hnum, hturn]
  case number =>
    intro t ht
    have hle : t.number ≤ (c.ledger vnpuId).ended := by
      rcases turn?_access ht with ⟨t', ht', -, hnum⟩ | ⟨-, hnum⟩
      · rw [hnum]
        exact h.number t' ht'
      · exact Nat.le_of_eq hnum
    rcases access_turn vnpuId p input c pc with ⟨-, hended⟩ | ⟨-, -, -, hended⟩
    · rwa [hended]
    · omega
  case current =>
    intro hcur t ht
    obtain ⟨hended, hnum | ⟨hold, t', ht', hnum⟩ | ⟨t', rfl, hsame, hnum⟩⟩ := current_access hcur ht
    · rw [hended, hnum]
    · rw [hended, hnum]
      exact h.current hold t' ht'
    · -- the turn was read less than 256 turns ago
      have hid := h.turnId t' rfl
      have hle := h.number t' rfl
      have hlt := hlag t' rfl
      omega

/-- The other processes keep it: a step of another process of the vNPU does not change what
the mutex protects, and turns only go on. -/
theorem PcInv.others {q w : Nat} {pc' : Pc} (input : StepInput)
    (hq : q ≠ p) (hp : PcInv c vnpuId p pc) (h : PcInv c w q pc') :
    PcInv (access vnpuId p input c pc).1 w q pc' := by
  by_cases hw : w = vnpuId
  · subst hw
    have hmutex : pc'.critical = true →
        (access w p input c pc).1.scheduleMutex w = some q := by
      intro hcrit
      have hheld := h.mutex hcrit
      rcases access_mutex w p input c pc with
        heq | ⟨hcrit', -⟩ | ⟨hnone, -⟩
      · rw [heq, hheld]
      · rw [hp.mutex hcrit'] at hheld
        cases hheld
        exact absurd rfl hq
      · rw [hnone] at hheld
        cases hheld
    rcases access_turn w p input c pc with
      ⟨-, hended⟩ | ⟨t, rfl, -, hended⟩
    · refine ⟨hmutex, h.turnId, ?_, ?_⟩
      · rw [hended]
        exact h.number
      · rw [hended]
        exact h.current
    · -- the process that ends the turn holds the mutex
      refine ⟨hmutex, h.turnId, ?_, ?_⟩
      · intro t' ht'
        have := h.number t' ht'
        omega
      · intro hcur
        have hcrit : pc'.critical = true := by
          cases pc' <;> simp_all [Pc.current, Pc.critical]
        have hheld := h.mutex hcrit
        rw [hp.mutex rfl] at hheld
        cases hheld
        exact absurd rfl hq
  · obtain ⟨hmutex, -, -, -, hledger⟩ :=
      access_of_ne p input c pc hw
    refine ⟨?_, h.turnId, ?_, ?_⟩
    · rw [hmutex]
      exact h.mutex
    · rw [hledger]
      exact h.number
    · rw [hledger]
      exact h.current

/-- The turn of the vNPU goes on as it is counted. -/
theorem TurnInv.turn_access (h : TurnInv vnpus s) (hv : vnpus[p]? = some vnpuId)
    (input : StepInput) (w : Nat) :
    (access vnpuId p input s.shared (s.control p)).1.scheduleTurn w =
      ((access vnpuId p input s.shared (s.control p)).1.ledger w).ended % 256 := by
  by_cases hw : w = vnpuId
  · subst hw
    rcases access_turn w p input s.shared (s.control p) with ⟨hturn, hended⟩ | ⟨t, hpc, hturn, hended⟩
    · rw [hturn, hended]
      exact h.turn w
    · have hp := h.proc p w hv
      rw [hpc] at hp
      have hid := hp.turnId t rfl
      have hnum := hp.current rfl t rfl
      rw [hturn, hended]
      omega
  · obtain ⟨-, hturn, -, -, hledger⟩ :=
      access_of_ne p input s.shared (s.control p) hw
    rw [hturn, hledger]
    exact h.turn w

/-- Every step keeps the turns. -/
theorem TurnInv.step (h : TurnInv vnpus s) {i : CoreStep} (hmay : MayRecheck vnpus s i) :
    TurnInv vnpus (s.step vnpus i) := by
  cases i with
  | access p input =>
    unfold CoreState.step
    dsimp only
    cases hv : vnpus[p]? with
    | none => exact h
    | some vnpuId =>
      constructor
      · exact h.turn_access hv input
      · apply Config.forall_act (I := fun q pc c => ∀ w, vnpus[q]? = some w → PcInv c w q pc) h.proc
        · intro w hw
          rw [hv] at hw
          cases hw
          exact (h.proc p vnpuId hv).own input (h.turn vnpuId) (hmay vnpuId hv)
        · intro q hq hproc w hw
          exact (h.proc p vnpuId hv).others input hq (hproc w hw)
  | tick ns => exact ⟨h.turn, fun p v hv => (h.proc p v hv).congr rfl rfl⟩
  | heartbeat vnpuId now =>
    unfold CoreState.step
    dsimp only
    split
    · exact ⟨h.turn, fun p v hv => (h.proc p v hv).congr rfl rfl⟩
    · exact h
  | exit p =>
    constructor
    · exact h.turn
    · apply Config.forall_act (I := fun q pc c => ∀ w, vnpus[q]? = some w → PcInv c w q pc) h.proc
      · intro w hw
        exact ⟨nofun, nofun, nofun, nofun⟩
      · intro q hq hproc w hw
        refine ⟨?_, (hproc w hw).turnId, (hproc w hw).number, (hproc w hw).current⟩
        intro hcrit
        have hheld := (hproc w hw).mutex hcrit
        dsimp only
        rw [if_neg, hheld]
        rw [hheld]
        exact fun heq => hq (Option.some.inj heq)

theorem TurnInv.init (coreLimitQuota : Nat → UInt8) (clock : Nat) :
    TurnInv vnpus (CoreState.init coreLimitQuota clock) :=
  ⟨fun _ => rfl, fun _ _ _ => ⟨nofun, nofun, nofun, nofun⟩⟩

/-- Two processes of a vNPU are not in its critical sections at once. -/
theorem TurnInv.exclusive (h : TurnInv vnpus s) {q : Nat} (hp : vnpus[p]? = some vnpuId)
    (hq : vnpus[q]? = some vnpuId) (hcp : (s.control p).critical = true)
    (hcq : (s.control q).critical = true) : p = q := by
  have hheld := (h.proc p vnpuId hp).mutex hcp
  rw [(h.proc q vnpuId hq).mutex hcq] at hheld
  exact (Option.some.inj hheld).symm

end

/-- In every interleaving in which no process is 256 turns late, the turns are counted exactly and
the processes of a vNPU exclude each other. -/
theorem turns_exclusive (vnpus : List Nat) (coreLimitQuota : Nat → UInt8) (clock : Nat)
    (run : List CoreStep)
    (hmay : EachStep (.step vnpus) (MayRecheck vnpus) (.init coreLimitQuota clock) run) :
    Throughout (.step vnpus) (fun s =>
        (∀ v, s.shared.scheduleTurn v = (s.shared.ledger v).ended % 256) ∧
        ∀ p q v, vnpus[p]? = some v → vnpus[q]? = some v → (s.control p).critical = true →
          (s.control q).critical = true → p = q) (CoreState.init coreLimitQuota clock) run :=
  (throughout_of_step (.init coreLimitQuota clock) (fun _ _ h hi => TurnInv.step h hi) hmay).mono
    fun _ h => ⟨h.turn, fun _ _ _ => h.exclusive⟩

end UbsVirt.Enpu
