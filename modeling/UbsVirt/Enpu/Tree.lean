import Mathlib.Data.UInt
import UbsVirt.Enpu.Common

/-!
# Leaves of the NPU tree

A leaf of the tree is a die. Its description (`npu_meta_t`) is fixed once
`npu_tree_init` has run; what an allocation changes is `npu_allocatable_t` and the list of
policy entries, here `LeafState`. Source: `enpu-manager/core/src/npu_tree.c`.
-/

namespace UbsVirt.Enpu

/-- What `npu_tree_init` learns of a die, `npu_tree.c:198-283`: the device number is
`phy_id` and `minor_id` at once, `totalMemory` is in MB and `aicore` is the whole quota.
Every device adapter formats a non-empty die id and reports a quota of no less than zero. -/
structure DieMeta where
  phyId : Int
  dieId : String
  uuid : String
  totalMemory : UInt64
  aicore : Int32
  dieId_ne : dieId ≠ ""
  aicore_nonneg : 0 ≤ aicore

/-- `npu_node_get_total_memory`: bytes, `npu_tree.c:233`. -/
def DieMeta.totalBytes (d : DieMeta) : UInt64 :=
  d.totalMemory * 1024 * 1024

/-- `vnpu_policy_entry_t`. -/
structure PolicyEntry where
  vnpuId : Nat
  schedPolicy : SchedPolicy
  vnpuPriority : VnpuPriority
  deriving DecidableEq, Repr

/-- `npu_allocatable_t` with the policy entries of the node. `policyReady` tells whether
the array behind them has been allocated yet. -/
structure LeafState where
  aicoreQuota : Int32
  hbmQuota : UInt64
  vnpuCount : Int
  vnpuMask : BitVec 64
  policyReady : Bool
  policyEntries : List PolicyEntry
  deriving DecidableEq, Repr

namespace LeafState

/-- A leaf as `npu_tree_init` leaves it, `npu_tree.c:246-249`. -/
def fresh (d : DieMeta) : LeafState :=
  { aicoreQuota := d.aicore, hbmQuota := d.totalMemory, vnpuCount := 0
    vnpuMask := BitVec.allOnes 64, policyReady := false, policyEntries := [] }

/-- `1ULL << vnpu_id`; ids of 64 and more never reach a shift. -/
def bitMask (v : Nat) : BitVec 64 :=
  1#64 <<< v

def isFree (l : LeafState) (v : Nat) : Bool :=
  l.vnpuMask &&& bitMask v != 0#64

/-- `npu_tree_mark_vnpu_occupied`, `npu_tree.c:582-613`. -/
def markOccupied (l : LeafState) (v : Nat) : Status × LeafState :=
  if maxVnpuPerDie ≤ v then (.invalidParam, l)
  else if !l.isFree v then (.alreadyExists, l)
  else (.success, { l with vnpuMask := l.vnpuMask &&& ~~~bitMask v })

/-- `npu_tree_mark_vnpu_free`, `npu_tree.c:615-646`. -/
def markFree (l : LeafState) (v : Nat) : Status × LeafState :=
  if maxVnpuPerDie ≤ v then (.invalidParam, l)
  else if l.isFree v then (.success, l)
  else (.success, { l with vnpuMask := l.vnpuMask ||| bitMask v })

/-- `npu_tree_update_quota`, `npu_tree.c:648-673`. -/
def updateQuota (l : LeafState) (aicoreDelta : Int32) (hbmDelta : Int64) : LeafState :=
  { l with
    aicoreQuota := l.aicoreQuota + aicoreDelta
    hbmQuota :=
      if 0 ≤ hbmDelta then l.hbmQuota + hbmDelta.toUInt64
      else l.hbmQuota - (-hbmDelta).toUInt64 }

/-- `npu_tree_attach_policy`, `npu_tree.c:675-708`. `calloc` tells whether the array can
be allocated; it is asked for only once. -/
def attachPolicy (l : LeafState) (v : Nat) (policy : SchedPolicy) (priority : VnpuPriority)
    (calloc : Bool) : Status × LeafState :=
  if maxVnpuPerDie ≤ v then (.invalidParam, l)
  else if !l.policyReady && !calloc then (.fail, l)
  else if l.policyEntries.length < maxVnpuPerDie then
    (.success,
      { l with
        policyReady := true
        policyEntries := l.policyEntries ++ [⟨v, policy, priority⟩]
        vnpuCount := l.vnpuCount + 1 })
  else (.success, { l with policyReady := true })

/-- `npu_tree_detach_policy`, `npu_tree.c:710-742`: the first entry of the vNPU goes. -/
def detachPolicy (l : LeafState) (v : Nat) : Status × LeafState :=
  if maxVnpuPerDie ≤ v then (.invalidParam, l)
  else if l.policyEntries.any (·.vnpuId == v) then
    (.success,
      { l with
        policyEntries := l.policyEntries.eraseP (·.vnpuId == v)
        vnpuCount := l.vnpuCount - 1 })
  else (.success, l)

/-- `npu_tree_get_available_vnpu_id`, `npu_tree.c:744-764`: the lowest free id. -/
def getAvailableVnpuId (l : LeafState) : Option Nat :=
  if l.vnpuMask = 0#64 then none
  else (List.range maxVnpuPerDie).find? l.isFree

/-- `npu_node_validate_policy`, `npu_tree.c:934-956`: every normal-priority vNPU of the die
has this policy. -/
def validatePolicy (l : LeafState) (policy : SchedPolicy) : Bool :=
  l.policyEntries.all fun e => e.vnpuPriority == .high || e.schedPolicy == policy

def policyIds (l : LeafState) : List Nat :=
  l.policyEntries.map (·.vnpuId)

/-! ### The mask -/

theorem getLsbD_bitMask (v w : Nat) : (bitMask v).getLsbD w = (decide (w < 64) && decide (w = v)) := by
  simp only [bitMask, BitVec.getLsbD_shiftLeft, BitVec.getLsbD_one]
  by_cases hw : w < 64
  · by_cases hv : w = v
    · subst hv; simp [hw]
    · have : ¬(¬ w < v ∧ w - v = 0) := by omega
      simp only [hw, hv, decide_true, decide_false, Bool.true_and, Bool.and_false]
      simpa using this
  · simp [hw]

variable {l : LeafState} {v : Nat}

theorem isFree_eq (hv : v < 64) : l.isFree v = l.vnpuMask.getLsbD v := by
  have hbit : (l.vnpuMask &&& bitMask v).getLsbD v = l.vnpuMask.getLsbD v := by
    simp [getLsbD_bitMask, hv]
  have hother : ∀ w, w ≠ v → (l.vnpuMask &&& bitMask v).getLsbD w = false := by
    intro w hw
    simp [getLsbD_bitMask, hw]
  unfold isFree
  cases hm : l.vnpuMask.getLsbD v with
  | true =>
    have hne : l.vnpuMask &&& bitMask v ≠ 0#64 := by
      intro h
      rw [h] at hbit
      simp [hm] at hbit
    simpa using hne
  | false =>
    have hz : l.vnpuMask &&& bitMask v = 0#64 := by
      apply BitVec.eq_of_getLsbD_eq
      intro w _
      by_cases hwv : w = v
      · subst hwv; simp [hbit, hm]
      · simp [hother w hwv]
    simp [hz]

theorem isFree_fresh {d : DieMeta} (hv : v < 64) : (fresh d).isFree v = true := by
  rw [isFree_eq hv]
  simp only [fresh, BitVec.getLsbD_allOnes, hv, decide_true]

theorem lt_of_isFree (h : l.isFree v = true) : v < 64 := by
  by_contra hv
  have hz : bitMask v = 0#64 := by
    apply BitVec.eq_of_getLsbD_eq
    intro w hw
    have : w ≠ v := by omega
    simp [getLsbD_bitMask, this]
  simp [isFree, hz] at h

variable {l' : LeafState}

theorem isFree_congr (h : l'.vnpuMask = l.vnpuMask) (v : Nat) : l'.isFree v = l.isFree v := by
  simp only [isFree, h]

/-- Clearing one bit makes one id occupied and leaves the others. -/
theorem isFree_and_not {w : Nat} (h : l'.vnpuMask = l.vnpuMask &&& ~~~bitMask v) (hw : w < 64) :
    l'.isFree w = (l.isFree w && !decide (w = v)) := by
  rw [isFree_eq hw, isFree_eq hw, h]
  simp only [BitVec.getLsbD_and, BitVec.getLsbD_not, getLsbD_bitMask, hw, decide_true,
    Bool.true_and]

/-- Setting one bit makes one id free and leaves the others. -/
theorem isFree_or {w : Nat} (h : l'.vnpuMask = l.vnpuMask ||| bitMask v) (hw : w < 64) :
    l'.isFree w = (l.isFree w || decide (w = v)) := by
  rw [isFree_eq hw, isFree_eq hw, h]
  simp only [BitVec.getLsbD_or, getLsbD_bitMask, hw, decide_true, Bool.true_and]

/-- Setting the bit that was cleared restores the mask. -/
theorem and_not_or_bitMask (h : l.isFree v = true) :
    (l.vnpuMask &&& ~~~bitMask v) ||| bitMask v = l.vnpuMask := by
  have hv := lt_of_isFree h
  rw [isFree_eq hv] at h
  apply BitVec.eq_of_getLsbD_eq
  intro w hw
  simp only [BitVec.getLsbD_or, BitVec.getLsbD_and, BitVec.getLsbD_not, getLsbD_bitMask, hw,
    decide_true, Bool.true_and]
  by_cases hwv : w = v
  · subst hwv; simp only [h, decide_true, Bool.or_true]
  · simp only [hwv, decide_false, Bool.not_false, Bool.and_true, Bool.or_false]

theorem getAvailableVnpuId_isFree (h : l.getAvailableVnpuId = some v) : l.isFree v = true := by
  unfold getAvailableVnpuId at h
  split at h
  · cases h
  · exact List.find?_some h

/-! ### Quotas -/

section

variable (l : LeafState) (a : Int32) (h : Int64)
include h

/-- The two branches of the quota update are one addition modulo `2 ^ 64`. -/
theorem updateQuota_hbmQuota : (l.updateQuota a h).hbmQuota = l.hbmQuota + h.toUInt64 := by
  unfold updateQuota
  by_cases hh : 0 ≤ h
  · simp [hh]
  · simp only [hh, if_false, Int64.toUInt64_neg]
    exact sub_neg_eq_add _ _

@[simp]
theorem updateQuota_aicoreQuota : (l.updateQuota a h).aicoreQuota = l.aicoreQuota + a := rfl

@[simp]
theorem updateQuota_policyReady : (l.updateQuota a h).policyReady = l.policyReady := rfl

/-- A quota update is undone by the opposite one. -/
theorem updateQuota_neg : (l.updateQuota a h).updateQuota (-a) (-h) = l := by
  have haicore : l.aicoreQuota + a + -a = l.aicoreQuota := by grind
  have hhbm : ((l.updateQuota a h).updateQuota (-a) (-h)).hbmQuota = l.hbmQuota := by
    rw [updateQuota_hbmQuota, updateQuota_hbmQuota, Int64.toUInt64_neg]
    exact add_neg_cancel_right _ _
  calc (l.updateQuota a h).updateQuota (-a) (-h)
      = { l with
          aicoreQuota := l.aicoreQuota + a + -a
          hbmQuota := ((l.updateQuota a h).updateQuota (-a) (-h)).hbmQuota } := rfl
    _ = l := by rw [haicore, hhbm]

end

/-! ### Marking and policies -/

theorem markOccupied_of_isFree (h : l.isFree v = true) :
    l.markOccupied v = (.success, { l with vnpuMask := l.vnpuMask &&& ~~~bitMask v }) := by
  have hv := lt_of_isFree h
  have : ¬ maxVnpuPerDie ≤ v := by unfold maxVnpuPerDie; omega
  simp [markOccupied, this, h]

theorem markFree_of_occupied (hv : v < 64) (h : l.isFree v = false) :
    l.markFree v = (.success, { l with vnpuMask := l.vnpuMask ||| bitMask v }) := by
  have : ¬ maxVnpuPerDie ≤ v := by unfold maxVnpuPerDie; omega
  simp [markFree, this, h]

/-- The leaf after a policy entry is appended; a full array drops the entry. -/
def appendPolicy (l : LeafState) (v : Nat) (p : SchedPolicy) (q : VnpuPriority) : LeafState :=
  if l.policyEntries.length < maxVnpuPerDie then
    { l with
      policyReady := true
      policyEntries := l.policyEntries ++ [⟨v, p, q⟩]
      vnpuCount := l.vnpuCount + 1 }
  else { l with policyReady := true }

/-- Attaching fails only for want of memory, and then it changes nothing. -/
theorem attachPolicy_cases (hv : v < 64) (p : SchedPolicy) (q : VnpuPriority) (calloc : Bool) :
    ((l.policyReady || calloc) = false ∧ l.attachPolicy v p q calloc = (.fail, l)) ∨
    ((l.policyReady || calloc) = true ∧
      l.attachPolicy v p q calloc = (.success, l.appendPolicy v p q)) := by
  have hlt : ¬ maxVnpuPerDie ≤ v := by unfold maxVnpuPerDie; omega
  unfold attachPolicy appendPolicy
  simp only [hlt, if_false]
  cases hready : l.policyReady || calloc with
  | false =>
    have hno : (!l.policyReady && !calloc) = true := by rw [← Bool.not_or, hready]; rfl
    exact .inl ⟨rfl, by simp [hno]⟩
  | true =>
    have hyes : (!l.policyReady && !calloc) = false := by rw [← Bool.not_or, hready]; rfl
    right
    refine ⟨rfl, ?_⟩
    simp only [hyes, Bool.false_eq_true, if_false]
    split <;> rfl

theorem any_eq_false_of_notMem (h : v ∉ l.policyIds) :
    l.policyEntries.any (·.vnpuId == v) = false := by
  rw [List.any_eq_false]
  intro e he hev
  exact h (List.mem_map.mpr ⟨e, he, by simpa using hev⟩)

theorem detachPolicy_of_notMem (hv : v < 64) (h : v ∉ l.policyIds) :
    l.detachPolicy v = (.success, l) := by
  have hlt : ¬ maxVnpuPerDie ≤ v := by unfold maxVnpuPerDie; omega
  simp [detachPolicy, hlt, any_eq_false_of_notMem h]

/-- Detaching removes the entry that was appended for a new id. -/
theorem detachPolicy_append (hv : v < 64) (h : v ∉ l.policyIds)
    (p : SchedPolicy) (q : VnpuPriority) (b : Bool) :
    (LeafState.detachPolicy { l with
        policyReady := b
        policyEntries := l.policyEntries ++ [⟨v, p, q⟩]
        vnpuCount := l.vnpuCount + 1 } v).2 = { l with policyReady := b } := by
  have hlt : ¬ maxVnpuPerDie ≤ v := by unfold maxVnpuPerDie; omega
  have hnone : ∀ e ∈ l.policyEntries, ¬ (e.vnpuId == v) = true := by
    simpa [List.any_eq_false] using any_eq_false_of_notMem h
  have herase : (l.policyEntries ++ [PolicyEntry.mk v p q]).eraseP (·.vnpuId == v)
      = l.policyEntries := by
    rw [List.eraseP_append_right _ hnone]
    simp
  simp [detachPolicy, hlt, herase]

def reserve (l : LeafState) (v : Nat) (p : SchedPolicy) (q : VnpuPriority) (aicore : Int32)
    (hbm : Int64) : LeafState :=
  ((l.markOccupied v).2.updateQuota aicore hbm).appendPolicy v p q

/-- Taking back the policy, the quota and the mask bit of a new vNPU restores the leaf;
only the array of policies stays allocated. -/
theorem undo_reserve (hfree : l.isFree v = true)
    (hid : v ∉ l.policyIds) (p : SchedPolicy) (q : VnpuPriority) (aicore : Int32) (hbm : Int64) :
    ((((l.reserve v p q aicore hbm).detachPolicy v).2.updateQuota (-aicore) (-hbm)).markFree v).2
      = { l with policyReady := true } := by
  have hv := lt_of_isFree hfree
  unfold reserve
  rw [markOccupied_of_isFree hfree]
  -- the marked leaf, whose mask bit is cleared
  obtain ⟨m, hm⟩ : ∃ m : LeafState, m = { l with vnpuMask := l.vnpuMask &&& ~~~bitMask v } :=
    ⟨_, rfl⟩
  simp only [← hm]
  have hmid : v ∉ (m.updateQuota aicore hbm).policyIds := by subst hm; exact hid
  have hdetach : (((m.updateQuota aicore hbm).appendPolicy v p q).detachPolicy v).2
      = { m.updateQuota aicore hbm with policyReady := true } := by
    unfold appendPolicy
    split
    · exact detachPolicy_append hv hmid p q true
    · rw [detachPolicy_of_notMem hv (l := { m.updateQuota aicore hbm with policyReady := true })
        hmid]
  have hquota : (((m.updateQuota aicore hbm).appendPolicy v p q).detachPolicy v).2.updateQuota
      (-aicore) (-hbm) = { m with policyReady := true } := by
    rw [hdetach]
    exact congrArg (fun l : LeafState => { l with policyReady := true }) (updateQuota_neg m aicore hbm)
  have hocc : ({ m with policyReady := true } : LeafState).isFree v = false := by
    rw [isFree_and_not (l := l) (v := v) (by rw [hm]) hv]
    simp
  rw [hquota, markFree_of_occupied hv hocc]
  subst hm
  simp only [and_not_or_bitMask hfree]

/-- The same when no policy was attached. -/
theorem undo_mark_quota (hfree : l.isFree v = true) (aicore : Int32) (hbm : Int64) :
    ((((l.markOccupied v).2.updateQuota aicore hbm).updateQuota (-aicore) (-hbm)).markFree v).2
      = l := by
  have hv := lt_of_isFree hfree
  rw [updateQuota_neg, markOccupied_of_isFree hfree]
  have hocc : ({ l with vnpuMask := l.vnpuMask &&& ~~~bitMask v } : LeafState).isFree v = false := by
    rw [isFree_and_not (l := l) (v := v) rfl hv]
    simp
  simp only [markFree_of_occupied hv hocc, and_not_or_bitMask hfree]

/-! ### What reserving and releasing change -/

section

variable {l : LeafState} {v : Nat} (p : SchedPolicy) (q : VnpuPriority) (aicore : Int32) (hbm : Int64)

/-- Reserving a free id, field by field. -/
theorem reserve_fields (hfree : l.isFree v = true) (hlen : l.policyEntries.length < maxVnpuPerDie) :
    let l' := l.reserve v p q aicore hbm
    l'.vnpuMask = l.vnpuMask &&& ~~~bitMask v ∧ l'.aicoreQuota = l.aicoreQuota + aicore ∧
      l'.hbmQuota = l.hbmQuota + hbm.toUInt64 ∧
      l'.policyEntries = l.policyEntries ++ [⟨v, p, q⟩] := by
  intro l'
  have hl' : l' = { (l.markOccupied v).2.updateQuota aicore hbm with
      policyReady := true
      policyEntries := l.policyEntries ++ [⟨v, p, q⟩]
      vnpuCount := l.vnpuCount + 1 } := by
    simp only [l', reserve, appendPolicy, markOccupied_of_isFree hfree]
    exact if_pos hlen
  rw [hl']
  refine ⟨?_, ?_, ?_, rfl⟩
  · simp only [markOccupied_of_isFree hfree]; rfl
  · simp only [markOccupied_of_isFree hfree]; rfl
  · exact (updateQuota_hbmQuota _ aicore hbm).trans (by simp only [markOccupied_of_isFree hfree])

/-- The leaf after a vNPU is released, `npu_allocator.c:900-911`. -/
def unreserve (l : LeafState) (v : Nat) (aicore : Int32) (hbm : Int64) : LeafState :=
  if l.isFree v then l
  else (((l.detachPolicy v).2.updateQuota aicore hbm).markFree v).2

theorem detachPolicy_fields (hv : v < 64) :
    (l.detachPolicy v).2.policyEntries = l.policyEntries.eraseP (·.vnpuId == v) ∧
      (l.detachPolicy v).2.vnpuMask = l.vnpuMask ∧
      (l.detachPolicy v).2.aicoreQuota = l.aicoreQuota ∧
      (l.detachPolicy v).2.hbmQuota = l.hbmQuota := by
  have hlt : ¬ maxVnpuPerDie ≤ v := by unfold maxVnpuPerDie; omega
  unfold detachPolicy
  rw [if_neg hlt]
  split
  · exact ⟨rfl, rfl, rfl, rfl⟩
  · next hnone =>
    rw [Bool.not_eq_true, List.any_eq_false] at hnone
    exact ⟨(List.eraseP_of_forall_not hnone).symm, rfl, rfl, rfl⟩

/-- Releasing an occupied id, field by field. -/
theorem unreserve_fields (hv : v < 64) (hocc : l.isFree v = false) :
    let l' := l.unreserve v aicore hbm
    l'.vnpuMask = l.vnpuMask ||| bitMask v ∧ l'.aicoreQuota = l.aicoreQuota + aicore ∧
      l'.hbmQuota = l.hbmQuota + hbm.toUInt64 ∧
      l'.policyEntries = l.policyEntries.eraseP (·.vnpuId == v) := by
  intro l'
  obtain ⟨hpol, hmask, haicore, hhbm⟩ := detachPolicy_fields (l := l) hv
  have hocc' : ((l.detachPolicy v).2.updateQuota aicore hbm).isFree v = false := by
    exact (isFree_congr (l := l) hmask v).trans hocc
  have hl' : l' = { (l.detachPolicy v).2.updateQuota aicore hbm with
      vnpuMask := l.vnpuMask ||| bitMask v } := by
    simp only [l', unreserve, hocc, Bool.false_eq_true, if_false, markFree_of_occupied hv hocc']
    rw [← hmask]
    rfl
  rw [hl']
  refine ⟨rfl, ?_, ?_, hpol⟩
  · rw [← haicore]; rfl
  · rw [← hhbm]; exact updateQuota_hbmQuota _ aicore hbm

end

end LeafState

end UbsVirt.Enpu
