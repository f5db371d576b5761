import UbsVirt.Enpu.Common
import UbsVirt.Enpu.CoreSched
import Mathlib.Algebra.BigOperators.Ring.List
import Mathlib.Algebra.Ring.Nat

/-!
# A round of the owners

While the same vNPUs stay alive, the die goes round among those of normal priority. Each turn adds
the quota of the owner to its time slice and stores the next owner; under the fixed-share policy
the owner that hands the die back to the front idles for what the quotas leave of the period.
Source: `vcann-rt/src/core_limiter.c:274-312,372-432,643-664,755-772`.
-/

namespace UbsVirt.Enpu

open List

/-- `VNPU_SCHEULE_PERIOD`, in ns. `core_limiter.h:42`. -/
def vnpuSchedulePeriod : Nat := 100000000

/-- The quota of a vNPU, a percentage, as a time slice. `core_limiter.c:768`. -/
def quotaTimeslice (coreLimit : UInt8) : Nat := coreLimit.toNat * vnpuSchedulePeriod / 100

/-- The loop of `vnpu_idling`, which adds up the quotas and gives up above 100 percent. `seen`: the
vNPU was found alive and of normal priority. -/
def quotaLoop (seen : Nat → Bool) (coreLimit : Nat → UInt8) : List Nat → Nat → Option Nat
  | [], sum => some sum
  | i :: rest, sum =>
    let sum' := if seen i then sum + (coreLimit i).toNat else sum
    if 100 < sum' then none else quotaLoop seen coreLimit rest sum'

/-- How long `vnpu_idling` sleeps, `core_limiter.c:274-286`. -/
def vnpuIdling (seen : Nat → Bool) (coreLimit : Nat → UInt8) : Nat :=
  (quotaLoop seen coreLimit (range maxVnpu) 0).elim 0 fun sum =>
    (100 - sum) * vnpuSchedulePeriod / 100

/-- The owner, and what has happened: the vNPUs that had a turn, the quotas they were given, and
how often and how long the die idled. -/
structure Rotation where
  owner : Int
  visited : List Nat
  injected : Nat
  idlings : Nat
  idle : Nat

namespace Rotation

variable (policy : SchedPolicy) (seen : Nat → Bool) (coreLimit : Nat → UInt8)

/-- `set_vnpu_and_idle`, `core_limiter.c:303-312`. -/
def setVnpuAndIdle (r : Rotation) (vnpuId next : Int) : Rotation :=
  if next = -1 then r
  else if policy = .fixedShare ∧ next ≤ vnpuId then
    { r with
      owner := next, idlings := r.idlings + 1, idle := r.idle + vnpuIdling seen coreLimit }
  else { r with owner := next }

/-- A turn of the owner, which hands the die on. -/
def turn (r : Rotation) : Rotation :=
  setVnpuAndIdle policy seen coreLimit
    { r with
      visited := r.visited ++ [r.owner.toNat]
      injected := r.injected + quotaTimeslice (coreLimit r.owner.toNat) }
    r.owner (selectNextOwner seen r.owner)

def start (vnpuId : Nat) : Rotation := ⟨vnpuId, [], 0, 0, 0⟩

end Rotation

def normalVnpus (seen : Nat → Bool) : List Nat := (range maxVnpu).filter seen

section

variable {seen : Nat → Bool} {coreLimit : Nat → UInt8} {us vs ws : List Nat} {v w : Nat}

theorem mem_normalVnpus : v ∈ normalVnpus seen ↔ v < maxVnpu ∧ seen v = true := by
  simp [normalVnpus]

theorem pairwise_normalVnpus : (normalVnpus seen).Pairwise (· < ·) :=
  pairwise_lt_range.filter _

/-- The next owner is the first one in cyclic order. -/
theorem selectNextOwner_eq (hv : v < maxVnpu) (hw : w ∈ normalVnpus seen)
    (hno : ∀ u ∈ normalVnpus seen, v < w ∧ (u ≤ v ∨ w ≤ u) ∨ w ≤ u ∧ u ≤ v) :
    selectNextOwner seen v = w := by
  obtain ⟨hlt, hseen⟩ := mem_normalVnpus.mp hw
  have hcast : ∀ i : Nat, ((v : Int) + (i + 1)) % maxVnpu = ((v + (i + 1)) % maxVnpu : Nat) := by
    intro i
    push_cast
    rfl
  have hself := hno w hw
  have hmod : (v + ((maxVnpu + w - v - 1) % maxVnpu + 1)) % maxVnpu = w := by
    unfold maxVnpu at *
    omega
  have hfind : ((range maxVnpu).find? fun i => seen ((v + (i + 1)) % maxVnpu)) =
      some ((maxVnpu + w - v - 1) % maxVnpu) := by
    rw [find?_range_eq_some]
    refine ⟨by rw [hmod, hseen], mem_range.mpr (Nat.mod_lt _ (by decide)), fun j hj => ?_⟩
    rw [Bool.not_eq_true', ← Bool.not_eq_true]
    intro hj'
    have hu := hno _ (mem_normalVnpus.mpr ⟨Nat.mod_lt (v + (j + 1)) (by decide), hj'⟩)
    unfold maxVnpu at *
    omega
  simp only [selectNextOwner, bind_pure_comp, map_eq_map, find?_map, Function.comp_def, hcast,
    Int.toNat_natCast, hfind, Option.map_some, hmod]

/-- In the list of the vNPUs, the next one has the next turn. -/
theorem selectNextOwner_of_lt (h : normalVnpus seen = us ++ v :: vs) (hw : vs.head? = some w) :
    selectNextOwner seen v = w ∧ v < w := by
  obtain ⟨ws, rfl⟩ := head?_eq_some_iff.mp hw
  have hpair : (us ++ v :: w :: ws).Pairwise (· < ·) := h ▸ pairwise_normalVnpus
  have hmem : v ∈ normalVnpus seen := by simp [h]
  have hw : w ∈ normalVnpus seen := by simp [h]
  simp only [pairwise_append, pairwise_cons, mem_cons] at hpair
  have hlt : v < w := hpair.2.1.1 w (.inl rfl)
  refine ⟨selectNextOwner_eq (mem_normalVnpus.mp hmem).1 hw fun u hu => .inl ⟨hlt, ?_⟩, hlt⟩
  simp only [h, mem_append, mem_cons] at hu
  rcases hu with hu | rfl | rfl | hu
  · exact .inl (Nat.le_of_lt (hpair.2.2 u hu v (.inl rfl)))
  · exact .inl (Nat.le_refl u)
  · exact .inr (Nat.le_refl u)
  · exact .inr (Nat.le_of_lt (hpair.2.1.2.1 u hu))

/-- After the last one it is the turn of the first. -/
theorem selectNextOwner_of_last (h : normalVnpus seen = us ++ [v])
    (hw : (us ++ [v]).head? = some w) : selectNextOwner seen v = w ∧ w ≤ v := by
  have hpair : (normalVnpus seen).Pairwise (· < ·) := pairwise_normalVnpus
  have hmem : v ∈ normalVnpus seen := by simp [h]
  have hle : ∀ u ∈ normalVnpus seen, w ≤ u ∧ u ≤ v := by
    obtain ⟨ws, hws⟩ := head?_eq_some_iff.mp hw
    intro u hu
    constructor
    · rw [h, hws, pairwise_cons] at hpair
      rw [h, hws, mem_cons] at hu
      exact hu.elim (fun hu => Nat.le_of_eq hu.symm) fun hu => Nat.le_of_lt (hpair.1 u hu)
    · rw [h, pairwise_append] at hpair
      rw [h, mem_append, mem_singleton] at hu
      exact hu.elim (fun hu => Nat.le_of_lt (hpair.2.2 u hu v (by simp))) Nat.le_of_eq
  have hw : w ∈ normalVnpus seen := h ▸ mem_of_mem_head? hw
  have hnext := selectNextOwner_eq (mem_normalVnpus.mp hmem).1 hw fun u hu => .inr (hle u hu)
  exact ⟨hnext, (hle w hw).2⟩

/-! ### The time of a round -/

theorem quotaTimeslice_eq (quota : UInt8) : quotaTimeslice quota = quota.toNat * 1000000 := by
  unfold quotaTimeslice vnpuSchedulePeriod
  omega

theorem quotaLoop_eq (l : List Nat) (sum : Nat)
    (h : sum + ((l.filter seen).map fun v => (coreLimit v).toNat).sum ≤ 100) :
    quotaLoop seen coreLimit l sum =
      some (sum + ((l.filter seen).map fun v => (coreLimit v).toNat).sum) := by
  induction l generalizing sum with
  | nil => rfl
  | cons i l ih =>
    cases hi : seen i with
    | false =>
      simp only [filter_cons, hi, Bool.false_eq_true, if_false] at h ⊢
      simp only [quotaLoop, hi, Bool.false_eq_true, if_false, ih sum h]
      exact if_neg (by omega)
    | true =>
      simp only [filter_cons, hi, if_true, map_cons, sum_cons, ← Nat.add_assoc] at h ⊢
      simp only [quotaLoop, hi, if_true, ih _ h]
      exact if_neg (by omega)

theorem vnpuIdling_eq (h : ((normalVnpus seen).map fun v => (coreLimit v).toNat).sum ≤ 100) :
    vnpuIdling seen coreLimit =
      (100 - ((normalVnpus seen).map fun v => (coreLimit v).toNat).sum) * 1000000 := by
  unfold normalVnpus at *
  rw [vnpuIdling, quotaLoop_eq _ _ (by omega), Option.elim_some, Nat.zero_add, vnpuSchedulePeriod]
  omega

/-! ### A round -/

namespace Rotation

variable {r : Rotation}

theorem turn_eq (howner : r.owner = v) (hnext : selectNextOwner seen v = w) :
    turn .fixedShare seen coreLimit r =
      { owner := w
        visited := r.visited ++ [v]
        injected := r.injected + quotaTimeslice (coreLimit v)
        idlings := r.idlings + if w ≤ v then 1 else 0
        idle := r.idle + if w ≤ v then vnpuIdling seen coreLimit else 0 } := by
  unfold turn setVnpuAndIdle
  rw [howner, hnext, Int.toNat_natCast, if_neg (by omega)]
  by_cases hle : w ≤ v <;> simp [hle]

/-- The owners of a part of the list, up to `w`, have their turns without idling. -/
theorem iterate_turn (coreLimit : Nat → UInt8) (h : normalVnpus seen = us ++ (vs ++ w :: ws))
    (hv : (vs ++ w :: ws).head? = some v) (howner : r.owner = v) :
    (turn .fixedShare seen coreLimit)^[vs.length] r =
      { r with
        owner := w
        visited := r.visited ++ vs
        injected := r.injected + (vs.map fun v => quotaTimeslice (coreLimit v)).sum } := by
  induction vs generalizing us v r with
  | nil =>
    obtain rfl : w = v := by simpa using hv
    simp [← howner]
  | cons u vs ih =>
    obtain rfl : u = v := by simpa using hv
    obtain ⟨x, hx⟩ : ∃ x, (vs ++ w :: ws).head? = some x :=
      Option.isSome_iff_exists.mp (by cases vs <;> rfl)
    obtain ⟨hnext, hlt⟩ := selectNextOwner_of_lt h hx
    have hrest : normalVnpus seen = (us ++ [u]) ++ (vs ++ w :: ws) := by simpa using h
    rw [length_cons, Function.iterate_succ_apply, turn_eq howner hnext, ih hrest hx rfl]
    simp [Nat.not_le.mpr hlt, Nat.add_assoc]

/-- From any owner, as many turns as there are vNPUs give each of them one turn, idle once, come
back to the owner, and take one period together. -/
theorem round_takes_period (seen : Nat → Bool) (coreLimit : Nat → UInt8) (v : Nat)
    (hv : v ∈ normalVnpus seen)
    (hsum : ((normalVnpus seen).map fun v => (coreLimit v).toNat).sum ≤ 100) :
    let after := (turn .fixedShare seen coreLimit)^[(normalVnpus seen).length] (start v)
    after.owner = v ∧ after.visited.Perm (normalVnpus seen) ∧ after.idlings = 1 ∧
      after.injected + after.idle = vnpuSchedulePeriod := by
  intro after
  obtain ⟨us, vs, hsplit⟩ := append_of_mem hv
  obtain ⟨ws, z, hlast⟩ := (eq_nil_or_concat (v :: vs)).resolve_left nofun
  rw [concat_eq_append] at hlast
  obtain ⟨first, hfirst⟩ : ∃ first, (us ++ v :: vs).head? = some first :=
    Option.isSome_iff_exists.mp (by cases us <;> rfl)
  -- up to the last one, over to the first one, and up to where it began
  have hall : normalVnpus seen = us ++ ws ++ [z] := by rw [hsplit, hlast, append_assoc]
  have hv : (ws ++ [z]).head? = some v := by rw [← hlast, head?_cons]
  have hup := iterate_turn coreLimit (hall.trans (append_assoc us ws [z])) hv
    (show (start v).owner = v from rfl)
  obtain ⟨hnext, hle⟩ := selectNextOwner_of_last hall (hall ▸ hsplit ▸ hfirst)
  have hback := fun r => iterate_turn coreLimit (r := r) (hsplit.trans (nil_append _).symm) hfirst
  have hlength : (normalVnpus seen).length = us.length + (ws.length + 1) := by
    simp [hall]
  have hafter : after = (turn .fixedShare seen coreLimit)^[us.length]
      (turn .fixedShare seen coreLimit
        ((turn .fixedShare seen coreLimit)^[ws.length] (start v))) := by
    rw [← Function.iterate_succ_apply' (turn .fixedShare seen coreLimit),
      ← Function.iterate_add_apply, ← hlength]
  rw [hup, turn_eq rfl hnext, hback _ rfl] at hafter
  have hperm : (ws ++ [z] ++ us).Perm (normalVnpus seen) := by
    rw [hall, append_assoc us]
    exact perm_append_comm
  rw [hafter]
  refine ⟨rfl, by simpa [start] using hperm, by simp [start, hle], ?_⟩
  have hinjected := (hperm.map fun v => (coreLimit v).toNat).sum_eq
  simp only [if_pos hle, vnpuIdling_eq hsum, start, quotaTimeslice_eq, vnpuSchedulePeriod,
    sum_map_mul_right, map_append, sum_append, map_singleton, sum_singleton] at hinjected ⊢
  omega

theorem round_of_two :
    let after := (turn .fixedShare (fun v => v == 2 || v == 5) fun v => if v = 2 then 30 else 50)^[2]
      (start 5)
    after.owner = 5 ∧ after.visited.Perm [2, 5] ∧ after.idlings = 1 ∧
      after.injected + after.idle = vnpuSchedulePeriod :=
  round_takes_period (fun v => v == 2 || v == 5) (fun v => if v = 2 then 30 else 50) 5
    (by decide +kernel) (by decide +kernel)

end Rotation

end

end UbsVirt.Enpu
