import Mathlib.Data.List.TakeWhile
import UbsVirt.Enpu.Atomicity
import UbsVirt.Enpu.Restart

/-!
# Recovering twice

`npu_allocator_recover` applies five effects per registered allocation. Occupying the id and
writing the entry of the shared memory can be repeated; subtracting the quotas and attaching the
policy cannot. The control call of the daemon runs it on an allocator that is already recovered.
Here the books after a second recovery are compared with those after the first. Source:
`enpu-manager/core/src/npu_allocator.c:981-1064`, `enpu-manager/core/src/npu_tree.c:582-708`,
`enpu-manager/core/src/enpu_manager.c:535-553`.
-/

namespace UbsVirt.Enpu

open List Function

/-! ### A leaf -/

variable {steps steps' : List RecoverStep}

namespace LeafState

/-- The steps whose policies are attached: once the array of policies is there, all of them. -/
def attaching (ready : Bool) (steps : List RecoverStep) : List RecoverStep :=
  if ready then steps else steps.dropWhile fun e => !e.2.policyCalloc

def policyOf (e : RecoverStep) : PolicyEntry :=
  ⟨e.1.vnpuId, e.1.schedPolicy, e.1.vnpuPriority⟩

variable {l : LeafState} {e : RecoverStep} {steps : List RecoverStep}

theorem vnpuMask_markOccupied {v : Nat} (hv : v < 64) :
    (l.markOccupied v).2.vnpuMask = l.vnpuMask &&& ~~~bitMask v := by
  cases hfree : l.isFree v with
  | true => rw [markOccupied_of_isFree hfree]
  | false =>
    have hsame : (l.markOccupied v).2 = l := by
      unfold markOccupied
      split
      · rfl
      · simp [hfree]
    rw [hsame]
    apply BitVec.eq_of_getLsbD_eq
    intro w hw
    rw [isFree_eq hv] at hfree
    simp only [BitVec.getLsbD_and, BitVec.getLsbD_not, getLsbD_bitMask, hw, decide_true,
      Bool.true_and]
    by_cases hwv : w = v
    · subst hwv
      simp [hfree]
    · simp [hwv]

/-- The fields that `attachPolicy` leaves alone. -/
theorem attachPolicy_fields (l : LeafState) (v : Nat) (p : SchedPolicy) (q : VnpuPriority)
    (calloc : Bool) :
    (l.attachPolicy v p q calloc).2.aicoreQuota = l.aicoreQuota ∧
      (l.attachPolicy v p q calloc).2.hbmQuota = l.hbmQuota ∧
      (l.attachPolicy v p q calloc).2.vnpuMask = l.vnpuMask := by
  unfold attachPolicy
  split
  · exact ⟨rfl, rfl, rfl⟩
  split
  · exact ⟨rfl, rfl, rfl⟩
  split <;> exact ⟨rfl, rfl, rfl⟩

theorem markOccupied_fields (l : LeafState) (v : Nat) :
    (l.markOccupied v).2 = { l with vnpuMask := (l.markOccupied v).2.vnpuMask } := by
  unfold markOccupied
  split
  · rfl
  split <;> rfl

theorem aicoreQuota_recovered : (l.recovered e).aicoreQuota = l.aicoreQuota + -e.1.aicoreQuota := by
  unfold recovered
  rw [(attachPolicy_fields _ _ _ _ _).1, updateQuota_aicoreQuota, markOccupied_fields]

theorem hbmQuota_recovered : (l.recovered e).hbmQuota = l.hbmQuota + -e.1.hbmQuota := by
  unfold recovered
  rw [(attachPolicy_fields _ _ _ _ _).2.1, updateQuota_hbmQuota, markOccupied_fields,
    Int64.toUInt64_neg, UInt64.toUInt64_toInt64]

theorem vnpuMask_recovered (hv : e.1.vnpuId < 64) :
    (l.recovered e).vnpuMask = l.vnpuMask &&& ~~~bitMask e.1.vnpuId := by
  unfold recovered
  rw [(attachPolicy_fields _ _ _ _ _).2.2]
  exact vnpuMask_markOccupied hv

/-- How the policies of a leaf change; the array is there afterwards if it was, or could be
allocated. -/
theorem policies_recovered (hv : e.1.vnpuId < 64) :
    (l.recovered e).policyReady = (l.policyReady || e.2.policyCalloc) ∧
      (l.recovered e).policyEntries = l.policyEntries ++
        (if (l.policyReady || e.2.policyCalloc) = true ∧ l.policyEntries.length < maxVnpuPerDie
          then [policyOf e] else []) ∧
      (l.recovered e).vnpuCount - (l.recovered e).policyEntries.length =
        l.vnpuCount - l.policyEntries.length := by
  have hmax : ¬ maxVnpuPerDie ≤ e.1.vnpuId := by unfold maxVnpuPerDie; omega
  unfold recovered
  rw [markOccupied_fields]
  unfold attachPolicy
  rw [if_neg hmax]
  cases l.policyReady <;> cases e.2.policyCalloc <;>
    by_cases hlen : l.policyEntries.length < maxVnpuPerDie <;>
    simp [updateQuota, hlen, policyOf]

/-! ### All steps of a die -/

section

variable (steps : List RecoverStep)

theorem aicoreQuota_foldl (l : LeafState) : (steps.foldl recovered l).aicoreQuota =
      l.aicoreQuota + (steps.map fun e => -e.1.aicoreQuota).sum := by
  induction steps generalizing l with
  | nil => simp
  | cons e steps ih =>
    rw [foldl_cons, ih, aicoreQuota_recovered, map_cons, sum_cons]
    grind

theorem hbmQuota_foldl (l : LeafState) : (steps.foldl recovered l).hbmQuota =
      l.hbmQuota + (steps.map fun e => -e.1.hbmQuota).sum := by
  induction steps generalizing l with
  | nil => simp
  | cons e steps ih =>
    rw [foldl_cons, ih, hbmQuota_recovered, map_cons, sum_cons, add_assoc]

/-- After the steps their ids are occupied. -/
theorem isFree_foldl (hsteps : ∀ e ∈ steps, e.1.vnpuId < 64)
    (l : LeafState) {w : Nat} (hw : w < 64) :
    (steps.foldl recovered l).isFree w = (l.isFree w && !steps.any (·.1.vnpuId == w)) := by
  induction steps generalizing l with
  | nil => simp
  | cons e steps ih =>
    rw [foldl_cons, ih fun e he => hsteps e (mem_cons_of_mem _ he),
      isFree_and_not (vnpuMask_recovered (hsteps e mem_cons_self)) hw, any_cons]
    by_cases hwe : w = e.1.vnpuId
    · simp [hwe]
    · have hne : (e.1.vnpuId == w) = false := beq_eq_false_iff_ne.mpr (Ne.symm hwe)
      simp [hwe, hne]

/-- Steps whose ids are occupied leave the mask. -/
theorem vnpuMask_foldl_of_occupied (hsteps : ∀ e ∈ steps, e.1.vnpuId < 64) (l : LeafState)
    (hocc : ∀ e ∈ steps, l.isFree e.1.vnpuId = false) :
    (steps.foldl recovered l).vnpuMask = l.vnpuMask := by
  apply BitVec.eq_of_getLsbD_eq
  intro w hw
  rw [← isFree_eq hw, ← isFree_eq hw, isFree_foldl steps hsteps l hw]
  cases hany : steps.any (·.1.vnpuId == w) with
  | false => simp
  | true =>
    obtain ⟨e, he, heq⟩ := any_eq_true.mp hany
    rw [beq_iff_eq] at heq
    have := hocc e he
    rw [heq] at this
    simp [this]

theorem attaching_true : attaching true steps = steps := rfl

theorem attaching_cons (ready : Bool) (e : RecoverStep) (steps : List RecoverStep) :
    attaching ready (e :: steps) =
      if (ready || e.2.policyCalloc) = true then e :: steps else attaching false steps := by
  unfold attaching
  cases ready <;> cases hcalloc : e.2.policyCalloc <;> simp [hcalloc]

/-- The policies of a leaf after a list of recovery steps. -/
theorem policies_foldl (hsteps : ∀ e ∈ steps, e.1.vnpuId < 64) (l : LeafState) :
    (steps.foldl recovered l).policyReady = (l.policyReady || steps.any (·.2.policyCalloc)) ∧
      (steps.foldl recovered l).policyEntries = l.policyEntries ++
        ((attaching l.policyReady steps).map policyOf).take
          (maxVnpuPerDie - l.policyEntries.length) ∧
      (steps.foldl recovered l).vnpuCount - (steps.foldl recovered l).policyEntries.length =
        l.vnpuCount - l.policyEntries.length := by
  induction steps generalizing l with
  | nil => simp [attaching]
  | cons e steps ih =>
    obtain ⟨hready, hentries, hcount⟩ := policies_recovered (l := l) (hsteps e mem_cons_self)
    obtain ⟨ihready, ihentries, ihcount⟩ :=
      ih (fun e he => hsteps e (mem_cons_of_mem _ he)) (l.recovered e)
    rw [foldl_cons]
    refine ⟨?_, ?_, ihcount.trans hcount⟩
    · rw [ihready, hready, any_cons, Bool.or_assoc]
    · rw [ihentries, hready, hentries, attaching_cons]
      cases hatt : l.policyReady || e.2.policyCalloc with
      | false => simp
      | true =>
        by_cases hlen : l.policyEntries.length < maxVnpuPerDie
        · obtain ⟨k, hk⟩ : ∃ k, maxVnpuPerDie - l.policyEntries.length = k + 1 :=
            ⟨maxVnpuPerDie - l.policyEntries.length - 1, by omega⟩
          have hk' : maxVnpuPerDie - (l.policyEntries.length + 1) = k := by omega
          simp [hlen, hk, hk', attaching_true]
        · have hzero : maxVnpuPerDie - l.policyEntries.length = 0 := by omega
          simp [hlen, hzero]

end

/-- The leaf is the same as far as its books go. -/
structure SameBooks (l l' : LeafState) : Prop where
  aicoreQuota : l'.aicoreQuota = l.aicoreQuota
  hbmQuota : l'.hbmQuota = l.hbmQuota
  vnpuMask : l'.vnpuMask = l.vnpuMask
  policyEntries : l'.policyEntries = l.policyEntries
  vnpuCount : l'.vnpuCount = l.vnpuCount

/-- No policy is attached by the second recovery: there is nothing to recover, or the array of
policies is full after the first one, or it could be allocated neither time. -/
def PoliciesSettled (l : LeafState) (steps steps' : List RecoverStep) : Prop :=
  steps' = [] ∨ maxVnpuPerDie ≤ l.policyEntries.length + (attaching l.policyReady steps).length ∨
    (l.policyReady = false ∧ (∀ e ∈ steps, e.2.policyCalloc = false) ∧
      ∀ e ∈ steps', e.2.policyCalloc = false)

theorem attaching_eq_nil {ready : Bool} : attaching ready steps = [] ↔
      steps = [] ∨ ready = false ∧ ∀ e ∈ steps, e.2.policyCalloc = false := by
  unfold attaching
  cases ready with
  | true => simp
  | false =>
    simp only [Bool.false_eq_true, if_false, true_and]
    rw [dropWhile_eq_nil_iff]
    constructor
    · intro h
      exact .inr fun e he => by simpa using h e he
    · rintro (rfl | h)
      · exact nofun
      · exact fun e he => by simpa using h e he

theorem sum_neg_aicoreQuota (steps : List RecoverStep) :
    (steps.map fun e => -e.1.aicoreQuota).sum = -(steps.map fun e => e.1.aicoreQuota).sum := by
  induction steps with
  | nil => rfl
  | cons e steps ih =>
    simp only [map_cons, sum_cons, ih]
    grind

theorem sum_neg_hbmQuota (steps : List RecoverStep) :
    (steps.map fun e => -e.1.hbmQuota).sum = -(steps.map fun e => e.1.hbmQuota).sum := by
  induction steps with
  | nil => rfl
  | cons e steps ih =>
    simp only [map_cons, sum_cons, ih]
    grind

/-- The second recovery attaches no policy exactly when they are settled. -/
theorem policyEntries_foldl_foldl_iff {l : LeafState}
    (hsteps : ∀ e ∈ steps, e.1.vnpuId < 64) (hsteps' : ∀ e ∈ steps', e.1.vnpuId < 64) :
    (steps'.foldl recovered (steps.foldl recovered l)).policyEntries =
        (steps.foldl recovered l).policyEntries ↔ PoliciesSettled l steps steps' := by
  obtain ⟨hready, hentries, -⟩ := policies_foldl steps hsteps l
  rw [(policies_foldl steps' hsteps' _).2.1, append_right_eq_self, take_eq_nil_iff,
    map_eq_nil_iff, attaching_eq_nil, hready, hentries]
  have hfull : maxVnpuPerDie - (l.policyEntries ++ ((attaching l.policyReady steps).map
      policyOf).take (maxVnpuPerDie - l.policyEntries.length)).length = 0 ↔
      maxVnpuPerDie ≤ l.policyEntries.length + (attaching l.policyReady steps).length := by
    rw [length_append, length_take, length_map]
    omega
  rw [hfull]
  unfold PoliciesSettled
  simp only [Bool.or_eq_false_iff, any_eq_false, Bool.not_eq_true, and_assoc]
  tauto

/-- When recovering the same allocations again leaves the books of a leaf alone. -/
theorem sameBooks_foldl_iff {l : LeafState} (hsame : steps'.map Prod.fst = steps.map Prod.fst)
    (hsteps : ∀ e ∈ steps, e.1.vnpuId < 64) :
    SameBooks (steps.foldl recovered l) (steps'.foldl recovered (steps.foldl recovered l)) ↔
      (steps.map fun e => e.1.aicoreQuota).sum = 0 ∧ (steps.map fun e => e.1.hbmQuota).sum = 0 ∧
        PoliciesSettled l steps steps' := by
  have hids : ∀ e ∈ steps', ∃ e₀ ∈ steps, e₀.1 = e.1 := by
    intro e he
    have hmem : e.1 ∈ steps.map Prod.fst := by
      rw [← hsame]
      exact mem_map_of_mem he
    exact mem_map.mp hmem
  have hsteps' : ∀ e ∈ steps', e.1.vnpuId < 64 := by
    intro e he
    obtain ⟨e₀, he₀, heq⟩ := hids e he
    rw [← heq]
    exact hsteps e₀ he₀
  have hsums : ∀ {α : Type} (f : Allocation → α),
      (steps'.map fun e => f e.1) = steps.map fun e => f e.1 := by
    intro α f
    have := congrArg (map f) hsame
    rwa [map_map, map_map] at this
  have hmask : (steps'.foldl recovered (steps.foldl recovered l)).vnpuMask =
      (steps.foldl recovered l).vnpuMask := by
    apply vnpuMask_foldl_of_occupied steps' hsteps'
    intro e he
    obtain ⟨e₀, he₀, heq⟩ := hids e he
    have hany : steps.any (·.1.vnpuId == e.1.vnpuId) = true :=
      any_eq_true.mpr ⟨e₀, he₀, by rw [heq]; exact beq_self_eq_true _⟩
    rw [isFree_foldl steps hsteps l (hsteps' e he), hany]
    simp
  have haicore : (steps'.foldl recovered (steps.foldl recovered l)).aicoreQuota =
      (steps.foldl recovered l).aicoreQuota ↔ (steps.map fun e => e.1.aicoreQuota).sum = 0 := by
    rw [aicoreQuota_foldl steps', sum_neg_aicoreQuota, hsums]
    constructor
    · intro h
      grind
    · intro h
      rw [h]
      grind
  have hhbm : (steps'.foldl recovered (steps.foldl recovered l)).hbmQuota =
      (steps.foldl recovered l).hbmQuota ↔ (steps.map fun e => e.1.hbmQuota).sum = 0 := by
    rw [hbmQuota_foldl steps', sum_neg_hbmQuota, hsums]
    constructor
    · intro h
      grind
    · intro h
      rw [h]
      grind
  have hpolicies := policyEntries_foldl_foldl_iff (l := l) hsteps hsteps'
  constructor
  · intro h
    exact ⟨haicore.mp h.aicoreQuota, hhbm.mp h.hbmQuota, hpolicies.mp h.policyEntries⟩
  · rintro ⟨h₁, h₂, h₃⟩
    have hentries := hpolicies.mpr h₃
    refine ⟨haicore.mpr h₁, hhbm.mpr h₂, hmask, hentries, ?_⟩
    have hcount := (policies_foldl steps' hsteps' (steps.foldl recovered l)).2.2
    rw [hentries] at hcount
    omega

end LeafState

/-! ### The shared memory of a die -/

def usedRecovered (used : Option (Nat → Nat)) (e : RecoverStep) : Option (Nat → Nat) :=
  match used with
  | some f => some (update f e.1.vnpuId 0)
  | none => if e.2.shmCreate then some fun _ => 0 else none

theorem usedRecovered_foldl_some (steps : List RecoverStep) (f : Nat → Nat) :
    steps.foldl usedRecovered (some f) =
      some fun v => if steps.any (·.1.vnpuId == v) then 0 else f v := by
  induction steps generalizing f with
  | nil => simp
  | cons e steps ih =>
    rw [foldl_cons]
    refine (ih _).trans (congrArg some ?_)
    funext v
    rw [any_cons]
    by_cases hve : v = e.1.vnpuId
    · subst hve
      simp
    · have hne : (e.1.vnpuId == v) = false := beq_eq_false_iff_ne.mpr (Ne.symm hve)
      rw [hne, Bool.false_or, update_of_ne hve]

theorem usedRecovered_foldl_none (steps : List RecoverStep) : steps.foldl usedRecovered none =
      if steps.any (·.2.shmCreate) then some fun _ => 0 else none := by
  induction steps with
  | nil => rfl
  | cons e steps ih =>
    rw [foldl_cons, any_cons]
    cases hcreate : e.2.shmCreate with
    | false =>
      rw [Bool.false_or, ← ih]
      simp [usedRecovered, hcreate]
    | true => simp [usedRecovered, hcreate, usedRecovered_foldl_some]

/-- Recovering again changes the counters only where shared memory comes into being. -/
theorem usedRecovered_foldl_foldl_iff
    (hids : ∀ v, steps'.any (·.1.vnpuId == v) = steps.any (·.1.vnpuId == v))
    (used : Option (Nat → Nat)) :
    steps'.foldl usedRecovered (steps.foldl usedRecovered used) = steps.foldl usedRecovered used ↔
      (used = none → (∀ e ∈ steps, e.2.shmCreate = false) →
        ∀ e ∈ steps', e.2.shmCreate = false) := by
  cases used with
  | some f =>
    simp only [reduceCtorEq, false_implies, iff_true]
    rw [usedRecovered_foldl_some, usedRecovered_foldl_some]
    apply congrArg some
    funext v
    rw [hids]
    split <;> rfl
  | none =>
    rw [usedRecovered_foldl_none]
    cases hany : steps.any (·.2.shmCreate) with
    | true =>
      rw [if_pos rfl, usedRecovered_foldl_some]
      obtain ⟨e, he, hcreate⟩ := any_eq_true.mp hany
      simp only [ite_self, forall_const, true_iff]
      intro hall
      rw [hall e he] at hcreate
      cases hcreate
    | false =>
      rw [if_neg Bool.false_ne_true, usedRecovered_foldl_none]
      have hnone : ∀ e ∈ steps, e.2.shmCreate = false := by
        simpa using any_eq_false.mp hany
      simp only [forall_const, ite_eq_right_iff, reduceCtorEq, imp_false, any_eq_true,
        not_exists, not_and, Bool.not_eq_true]
      exact ⟨fun h _ => h, fun h => h hnone⟩

/-! ### The allocator -/

namespace Allocator

variable {F : Type} [DecidableEq F] {cfg : NodeConfig F} {s : Allocator F}

omit [DecidableEq F] in
def used (s : Allocator F) (phyId : Int) : Option (Nat → Nat) :=
  (s.shm phyId).map fun st v => (st.entries v).hbmUsed

variable (cfg s) in
/-- What one step of the recovery does to the leaf and the counters of a die. -/
theorem recoverOne_effect (a : Allocation) (ch : RecoverChoices) (p : Int) :
    (s.recoverOne cfg a ch).registry = s.registry ∧ (s.recoverOne cfg a ch).leaf p =
        (if (recovers cfg a && a.phyId == p) = true then (s.leaf p).recovered (a, ch)
          else s.leaf p) ∧
      (s.recoverOne cfg a ch).used p = (if (recovers cfg a && a.phyId == p && hasShm p) = true then
          usedRecovered (s.used p) (a, ch) else s.used p) := by
  cases hrec : recovers cfg a with
  | false =>
    rw [recoverOne_of_not_recovers hrec]
    simp
  | true =>
    obtain ⟨hregistry, hleaf, hshm⟩ := recoverOne_cases cfg s hrec ch
    refine ⟨hregistry, ?_, ?_⟩
    · rw [hleaf, update_apply]
      by_cases hp : p = a.phyId
      · simp [hp]
      · simp [hp, Ne.symm hp]
    by_cases hp : p = a.phyId
    · subst hp
      unfold used
      rcases hshm with ⟨hsame, hwhy⟩ | ⟨hin, hcreate, total, hshm⟩
      · rw [hsame]
        rcases hwhy with hout | ⟨hnone, hfail⟩
        · simp [hout]
        · simp [hnone, usedRecovered, hfail]
      · rw [hshm, update_self, if_pos (by simp [hin]), Option.map_some]
        have hupdate : ∀ st : ShmState, (fun v => ((recoveredShm a total st).entries v).hbmUsed) =
            update (fun v => (st.entries v).hbmUsed) a.vnpuId 0 := by
          intro st
          funext v
          by_cases hv : v = a.vnpuId
          · subst hv
            simp [recoveredShm, recoveredEntry]
          · simp [recoveredShm, hv]
        rw [hupdate]
        unfold shmOf
        cases hs : s.shm a.phyId with
        | some st => rfl
        | none =>
          have hzero : update (fun v => ((ShmState.create a.dieId).entries v).hbmUsed)
              a.vnpuId 0 = fun _ => 0 := update_eq_self a.vnpuId fun _ => 0
          simp [usedRecovered, hcreate hs, hzero]
    · have hsame : (s.recoverOne cfg a ch).shm p = s.shm p := by
        rcases hshm with ⟨hsame, -⟩ | ⟨-, -, total, hshm⟩
        · rw [hsame]
        · rw [hshm, update_of_ne hp]
      simp [used, hsame, Ne.symm hp]

def stepsOn (cfg : NodeConfig F) (ch : Nat → RecoverChoices) (p : Int)
    (entries : List (Allocation × Nat)) : List RecoverStep :=
  (entries.filter fun a => recovers cfg a.1 && a.1.phyId == p).map fun a => (a.1, ch a.2)

omit [DecidableEq F] in
theorem stepsOn_cons (ch : Nat → RecoverChoices) (p : Int) (a : Allocation × Nat)
    (entries : List (Allocation × Nat)) :
    stepsOn cfg ch p (a :: entries) =
      if (recovers cfg a.1 && a.1.phyId == p) = true then (a.1, ch a.2) :: stepsOn cfg ch p entries
      else stepsOn cfg ch p entries := by
  unfold stepsOn
  rw [filter_cons]
  split <;> rfl

theorem foldl_recoverOne_effect (ch : Nat → RecoverChoices) (p : Int)
    (entries : List (Allocation × Nat)) (s : Allocator F) :
    (entries.foldl (fun s a => s.recoverOne cfg a.1 (ch a.2)) s).registry = s.registry ∧
      (entries.foldl (fun s a => s.recoverOne cfg a.1 (ch a.2)) s).leaf p =
        (stepsOn cfg ch p entries).foldl LeafState.recovered (s.leaf p) ∧
      (entries.foldl (fun s a => s.recoverOne cfg a.1 (ch a.2)) s).used p =
        if hasShm p = true then (stepsOn cfg ch p entries).foldl usedRecovered (s.used p)
        else s.used p := by
  induction entries generalizing s with
  | nil => simp [stepsOn]
  | cons a entries ih =>
    obtain ⟨hregistry, hleaf, hused⟩ := recoverOne_effect cfg s a.1 (ch a.2) p
    obtain ⟨ihregistry, ihleaf, ihused⟩ := ih (s.recoverOne cfg a.1 (ch a.2))
    rw [foldl_cons, stepsOn_cons]
    refine ⟨ihregistry.trans hregistry, ?_, ?_⟩
    · rw [ihleaf, hleaf]
      split <;> rfl
    · rw [ihused, hused]
      cases hasShm p with
      | false => simp
      | true =>
        rw [if_pos rfl, if_pos rfl, Bool.and_true]
        split <;> rfl

def recoverySteps (cfg : NodeConfig F) (s : Allocator F) (ch : Nat → RecoverChoices) (p : Int) :
    List RecoverStep :=
  stepsOn cfg ch p s.registry.entries.zipIdx

/-- The books of every die are the same. -/
structure SameBooks (s s' : Allocator F) : Prop where
  leaf : ∀ p, (s.leaf p).SameBooks (s'.leaf p)
  hbmUsed : ∀ p, s'.used p = s.used p

/-- A second recovery finds nothing more to do on a die. -/
structure Settled (cfg : NodeConfig F) (s : Allocator F) (ch ch' : Nat → RecoverChoices)
    (p : Int) : Prop where
  aicore : ((recoverySteps cfg s ch p).map fun e => e.1.aicoreQuota).sum = 0
  hbm : ((recoverySteps cfg s ch p).map fun e => e.1.hbmQuota).sum = 0
  policies : (s.leaf p).PoliciesSettled (recoverySteps cfg s ch p) (recoverySteps cfg s ch' p)
  shm : hasShm p = true → s.used p = none →
    (∀ e ∈ recoverySteps cfg s ch p, e.2.shmCreate = false) →
    ∀ e ∈ recoverySteps cfg s ch' p, e.2.shmCreate = false

omit [DecidableEq F] in
theorem recoverySteps_fst (ch : Nat → RecoverChoices) (p : Int) :
    (recoverySteps cfg s ch p).map Prod.fst =
      (s.registry.entries.zipIdx.filter fun a => recovers cfg a.1 && a.1.phyId == p).map
        Prod.fst := by
  unfold recoverySteps stepsOn
  rw [map_map]
  rfl

omit [DecidableEq F] in
theorem recoverySteps_valid {ch : Nat → RecoverChoices} {p : Int} {e : RecoverStep}
    (he : e ∈ recoverySteps cfg s ch p) : e.1.vnpuId < 64 := by
  unfold recoverySteps stepsOn at he
  obtain ⟨a, ha, rfl⟩ := mem_map.mp he
  have hrec := (mem_filter.mp ha).2
  simp only [recovers, Bool.and_eq_true] at hrec
  exact vnpuIdIsValid_iff.mp hrec.1.1

section

variable (cfg s) (ch : Nat → RecoverChoices)

theorem recover_registry : (s.recover cfg ch).registry = s.registry :=
  (foldl_recoverOne_effect ch 0 _ s).1

theorem recover_leaf (p : Int) : (s.recover cfg ch).leaf p =
    (recoverySteps cfg s ch p).foldl LeafState.recovered (s.leaf p) :=
  (foldl_recoverOne_effect ch p _ s).2.1

theorem recover_used (p : Int) : (s.recover cfg ch).used p =
    if hasShm p = true then (recoverySteps cfg s ch p).foldl usedRecovered (s.used p)
    else s.used p :=
  (foldl_recoverOne_effect ch p _ s).2.2

/-- A second recovery goes over the same allocations. -/
theorem recoverySteps_recover (ch' : Nat → RecoverChoices) (p : Int) :
    recoverySteps cfg (s.recover cfg ch) ch' p = recoverySteps cfg s ch' p := by
  unfold recoverySteps
  rw [recover_registry]

end

/-- For every allocator state, every registry and all outcomes of the library calls of both
recoveries: the second one leaves the books as they are if and only if on every die it finds
nothing to do. -/
theorem recover_recover_sameBooks_iff (cfg : NodeConfig F) (s : Allocator F)
    (ch ch' : Nat → RecoverChoices) :
    SameBooks (s.recover cfg ch) ((s.recover cfg ch).recover cfg ch') ↔
      ∀ p, Settled cfg s ch ch' p := by
  have hfst : ∀ p, (recoverySteps cfg s ch' p).map Prod.fst =
      (recoverySteps cfg s ch p).map Prod.fst := by
    intro p
    rw [recoverySteps_fst, recoverySteps_fst]
  have hbooks : ∀ p, ((s.recover cfg ch).leaf p).SameBooks
      (((s.recover cfg ch).recover cfg ch').leaf p) ↔
      ((recoverySteps cfg s ch p).map fun e => e.1.aicoreQuota).sum = 0 ∧
        ((recoverySteps cfg s ch p).map fun e => e.1.hbmQuota).sum = 0 ∧
        (s.leaf p).PoliciesSettled (recoverySteps cfg s ch p) (recoverySteps cfg s ch' p) := by
    intro p
    rw [recover_leaf cfg (s.recover cfg ch), recoverySteps_recover, recover_leaf]
    exact LeafState.sameBooks_foldl_iff (hfst p) fun e he => recoverySteps_valid he
  have hids : ∀ p v, (recoverySteps cfg s ch' p).any (·.1.vnpuId == v) =
      (recoverySteps cfg s ch p).any (·.1.vnpuId == v) := by
    intro p v
    have := congrArg (any · fun a : Allocation => a.vnpuId == v) (hfst p)
    rwa [any_map, any_map] at this
  have hcounters : ∀ p, ((s.recover cfg ch).recover cfg ch').used p = (s.recover cfg ch).used p ↔
      (hasShm p = true → s.used p = none →
        (∀ e ∈ recoverySteps cfg s ch p, e.2.shmCreate = false) →
        ∀ e ∈ recoverySteps cfg s ch' p, e.2.shmCreate = false) := by
    intro p
    rw [recover_used cfg (s.recover cfg ch), recoverySteps_recover, recover_used]
    cases hasShm p with
    | false => simp
    | true => simpa using usedRecovered_foldl_foldl_iff (hids p) (s.used p)
  constructor
  · intro h p
    obtain ⟨h₁, h₂, h₃⟩ := (hbooks p).mp (h.leaf p)
    exact ⟨h₁, h₂, h₃, (hcounters p).mp (h.hbmUsed p)⟩
  · intro h
    exact ⟨fun p => (hbooks p).mpr ⟨(h p).aicore, (h p).hbm, (h p).policies⟩,
      fun p => (hcounters p).mpr (h p).shm⟩

/-! ### One allocation recovered twice -/

def savedHalf : Allocation :=
  { podUid := "pod", containerName := "main", phyId := 0, vnpuId := 0, dieId := "die-0"
    shmId := "die-0", aicoreQuota := 50, hbmQuota := 32768, hbmLimit := 32768
    schedPolicy := .fixedShare, swapPriority := .medium, vnpuPriority := .normal }

def savedNode : Allocator String :=
  init oneDie ⟨[savedHalf], 16⟩ (Tlsf.init 0) fun _ => none

def allSucceed (_ : Nat) : RecoverChoices :=
  { policyCalloc := true, shmCreate := true, configWrite := .done }

/-- The second recovery takes the quotas of the allocation once more. -/
theorem recover_recover_takes_twice :
    ¬ ∀ (cfg : NodeConfig String) (s : Allocator String) (ch ch' : Nat → RecoverChoices),
      (s.registry.entries.map fun a => (a.phyId, a.vnpuId)).Nodup →
      SameBooks (s.recover cfg ch) ((s.recover cfg ch).recover cfg ch') := by
  intro h
  have hsame := h oneDie savedNode allSucceed allSucceed (by decide)
  have haicore := (hsame.leaf 0).aicoreQuota
  exact absurd haicore (by decide +kernel)

end Allocator

end UbsVirt.Enpu
