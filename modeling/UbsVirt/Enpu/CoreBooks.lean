import UbsVirt.Enpu.CoreSched

/-!
# The books of a vNPU

The time slice of a vNPU is a `uint64_t` that is read as signed: the quota is added once a turn,
what is then positive is granted and subtracted, and the time the streams took is subtracted
when the turn is handed over. The books say how the time slice goes with the ledger, as long as
no subtraction leaves the range of an `int64_t`. Source:
`vcann-rt/src/core_limiter.c:387-411,650-659`.
-/

namespace UbsVirt.Enpu

/-! ### Signed reading -/

theorem fetchAdd_lt (x y : Nat) : fetchAdd x y < 2 ^ 64 :=
  Nat.mod_lt _ (by decide)

theorem fetchSub_lt (x y : Nat) : fetchSub x y < 2 ^ 64 :=
  Nat.mod_lt _ (by decide)

theorem toInt64_fetchAdd {x y : Nat} (hx : x < 2 ^ 64) (hy : y < 2 ^ 63)
    (hxy : toInt64 x + y < 2 ^ 63) : toInt64 (fetchAdd x y) = toInt64 x + y := by
  unfold toInt64 fetchAdd at *
  split at hxy
  · rw [Nat.mod_eq_of_lt (by omega), if_pos (by omega)]
    omega
  · split <;> omega

theorem toInt64_fetchSub {x y : Nat} (hx : x < 2 ^ 64) (hxy : -2 ^ 63 ≤ toInt64 x - y) :
    toInt64 (fetchSub x y) = toInt64 x - y := by
  unfold toInt64 fetchSub at *
  split at hxy
  · split <;> omega
  · split <;> omega

/-! ### Books -/

def TurnRecord.used (r : TurnRecord) : Nat :=
  r.granted + r.debts

def TurnLedger.used (l : TurnLedger) : Nat :=
  (l.past.map TurnRecord.used).sum

/-- The ledger of a vNPU with quota `q`, its time slice and the turn the quota was last injected
for. `idle`: no process is between adding the quota and storing the turn; `settled`: no
process is between adding the quota and subtracting what it grants. -/
structure Books (q : Nat) (l : TurnLedger) (cur injectedFor : Nat) (idle settled : Prop) :
    Prop where
  bound : cur < 2 ^ 64
  past : ∀ r ∈ l.past, r.injections = 1 ∧ r.granted ≤ q
  once : l.now.injections ≤ 1
  granted : l.now.granted ≤ q
  empty : l.now.injections = 0 → l.now.used = 0
  balance : (l.used + l.now.used : Int) = (l.ended + l.now.injections) * q - toInt64 cur
  fresh : l.now.injections = 0 → injectedFor = (l.ended + 255) % 256
  injected : l.now.injections = 1 → idle → injectedFor = l.ended % 256
  nonpos : settled → toInt64 cur ≤ 0

namespace Books

variable {q : Nat} {l : TurnLedger} {cur injectedFor : Nat} {idle settled idle' settled' : Prop}

section

variable (h : Books q l cur injectedFor idle settled)
include h

theorem mono (hidle : idle' → idle)
    (hsettled : settled' → settled) : Books q l cur injectedFor idle' settled' :=
  { h with
    injected := fun hnow hi => h.injected hnow (hidle hi)
    nonpos := fun hs => h.nonpos (hsettled hs) }

/-- In the time between two turns the turn stored last is the one before. -/
theorem injections_eq_one (hturn : injectedFor = l.ended % 256) : l.now.injections = 1 := by
  have honce := h.once
  by_contra hne
  have := h.fresh (by omega)
  omega

theorem injections_eq_zero (hidle : idle)
    (hturn : injectedFor ≠ l.ended % 256) : l.now.injections = 0 := by
  have honce := h.once
  by_contra hne
  exact hturn (h.injected (by omega) hidle)

/-- The quota is added. -/
theorem inject (hq : q < 2 ^ 62) (hnow : l.now.injections = 0) (hsettled : settled) :
    Books q l.inject (fetchAdd cur q) injectedFor False False ∧ toInt64 (fetchAdd cur q) ≤ q := by
  have hnonpos := h.nonpos hsettled
  have hadd := toInt64_fetchAdd (y := q) h.bound (by omega) (by omega)
  refine ⟨?_, by omega⟩
  constructor
  case bound => exact fetchAdd_lt ..
  case past => exact h.past
  case once =>
    show l.now.injections + 1 ≤ 1
    omega
  case granted => exact h.granted
  case empty => exact fun hzero => absurd hzero (Nat.succ_ne_zero _)
  case balance =>
    have hbal := h.balance
    show (l.used + l.now.used : Int) = (l.ended + (l.now.injections + 1 : Nat)) * q - _
    rw [hadd, hbal, Int.natCast_add, ← Int.add_assoc, Int.add_mul _ (1 : Nat)]
    omega
  case fresh => exact fun hzero => absurd hzero (Nat.succ_ne_zero _)
  case injected => exact fun _ hf => hf.elim
  case nonpos => exact fun hf => hf.elim

/-- What the quota has made positive is granted. -/
theorem grant {ts : Nat}
    (hnow : l.now.injections = 1) (hnone : l.now.granted = 0) (hcur : toInt64 cur = ts)
    (hts : ts ≤ q) : Books q (l.grant ts) (fetchSub cur ts) injectedFor idle True := by
  have hsub := toInt64_fetchSub (y := ts) h.bound (by omega)
  constructor
  case bound => exact fetchSub_lt ..
  case past => exact h.past
  case once => exact h.once
  case granted =>
    show l.now.granted + ts ≤ q
    omega
  case empty =>
    intro hzero
    change l.now.injections = 0 at hzero
    omega
  case balance =>
    have hbal := h.balance
    show (l.used + (l.now.granted + ts + l.now.debts : Nat) : Int) =
      (l.ended + l.now.injections) * q - _
    unfold TurnRecord.used at hbal
    omega
  case fresh => exact h.fresh
  case injected => exact h.injected
  case nonpos =>
    intro
    omega

/-- The turn of the injection is stored. -/
theorem store (hnow : l.now.injections = 1) : Books q l cur (l.ended % 256) True settled :=
  { h with
    fresh := by
      intro hzero
      omega
    injected := fun _ _ => rfl }

/-- A debt is subtracted. -/
theorem charge {debt : Nat} (hnow : l.now.injections = 1) (hdebt : -2 ^ 63 ≤ toInt64 cur - debt) :
    Books q (l.charge debt) (fetchSub cur debt) injectedFor idle settled := by
  have hsub := toInt64_fetchSub h.bound hdebt
  constructor
  case bound => exact fetchSub_lt ..
  case past => exact h.past
  case once => exact h.once
  case granted => exact h.granted
  case empty =>
    intro hzero
    change l.now.injections = 0 at hzero
    omega
  case balance =>
    have hbal := h.balance
    show (l.used + (l.now.granted + (l.now.debts + debt) : Nat) : Int) =
      (l.ended + l.now.injections) * q - _
    unfold TurnRecord.used at hbal
    omega
  case fresh => exact h.fresh
  case injected => exact h.injected
  case nonpos =>
    intro hs
    have := h.nonpos hs
    omega

/-- The turn is over. -/
theorem endTurn (hnow : l.now.injections = 1)
    (hidle : idle) : Books q l.endTurn cur injectedFor idle settled := by
  constructor
  case bound => exact h.bound
  case past =>
    intro r hr
    rcases List.mem_cons.mp hr with rfl | hr
    · exact ⟨hnow, h.granted⟩
    · exact h.past r hr
  case once => exact Nat.zero_le _
  case granted => exact Nat.zero_le _
  case empty => exact fun _ => rfl
  case balance =>
    have hbal := h.balance
    show (((l.now :: l.past).map TurnRecord.used).sum + (0 : Nat) : Int) =
      ((l.now :: l.past).length + (0 : Nat)) * q - _
    rw [hnow] at hbal
    unfold TurnLedger.used TurnLedger.ended at hbal
    rw [List.map_cons, List.sum_cons, List.length_cons]
    push_cast at hbal ⊢
    rw [Int.add_zero (_ + 1)]
    omega
  case fresh =>
    intro
    have := h.injected hnow hidle
    show injectedFor = (l.ended + 1 + 255) % 256
    omega
  case injected =>
    intro hone
    cases hone
  case nonpos => exact h.nonpos

end

end Books

end UbsVirt.Enpu
