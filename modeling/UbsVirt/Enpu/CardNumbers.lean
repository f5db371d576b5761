import UbsVirt.Enpu.Ledger

/-!
# Card numbers and positions

A card is named by its device number, and `npu_tree_get_leaf` looks for the leaf with that number.
`npu_allocator_query_devices` takes the number as a position among the leaves, and
`npu_allocator_allocate` refuses a number that is no position before it looks. The three agree
on a number exactly when the leaf at that position, and no other, has it. Source:
`enpu-manager/core/src/npu_allocator.c:598-616,1129-1177`, `npu_tree.c:485-507`.
-/

namespace UbsVirt.Enpu

open List Allocator

variable {F : Type} {cfg : NodeConfig F} {k : Nat}

/-- What is copied out of the nodes. `npu_allocator.c:1129-1177`. -/
def Allocator.queryDevices (cfg : NodeConfig F) (s : Allocator F) (phyId : Int) :
    List (DieMeta × LeafState) :=
  if 0 ≤ phyId ∧ (cfg.leaves.length : Int) ≤ phyId then []
  else (range cfg.leaves.length).filterMap fun i : Nat =>
    if 0 ≤ phyId ∧ (i : Int) ≠ phyId then none
    else cfg.leaves[i]?.map fun d => (d, s.leaf d.phyId)

/-- The message of both refusals of a card, `npu_allocator.c:600,611`. -/
def cardNotFound (phyId : Int) : String := "card " ++ toString phyId ++ " not found"

/-- The leaf at a position, and no other, has the position as its number. -/
def NodeConfig.NumberedAt (cfg : NodeConfig F) (k : Nat) : Prop :=
  ∀ (i : Nat) (d : DieMeta), cfg.leaves[i]? = some d → (i = k ↔ d.phyId = k)

/-! ### Queries -/

theorem filterMap_range_eq {α : Type} (f : Nat → Option α) (n : Nat) :
    ((range n).filterMap fun i => if i = k then f i else none) =
      if k < n then (f k).toList else [] := by
  induction n with
  | zero => rfl
  | succ n ih =>
    rw [range_succ, filterMap_append, ih]
    obtain hlt | rfl | hgt := Nat.lt_trichotomy k n
    · simp [hlt, Nat.ne_of_gt hlt, Nat.lt_succ_of_lt hlt]
    · cases hf : f k <;> simp [hf]
    · simp [Nat.not_lt_of_gt hgt, Nat.ne_of_lt hgt, Nat.not_lt.mpr hgt]

theorem queryDevices_eq (s : Allocator F) :
    s.queryDevices cfg k = (cfg.leaves[k]?.map fun d => (d, s.leaf d.phyId)).toList := by
  have hloop := filterMap_range_eq (k := k)
    (fun i : Nat => cfg.leaves[i]?.map fun d => (d, s.leaf d.phyId)) cfg.leaves.length
  unfold queryDevices
  split
  · rw [getElem?_eq_none (by omega)]
    rfl
  · simp only [Int.natCast_nonneg, true_and, ne_eq, ite_not, Int.natCast_inj]
    rw [hloop, if_pos (by omega)]

theorem getLeaf_eq_getElem?_iff : cfg.getLeaf k = cfg.leaves[k]? ↔ cfg.NumberedAt k := by
  constructor
  · intro h i d hi
    constructor
    · rintro rfl
      exact (cfg.getLeaf_some (h.trans hi)).2.1
    · intro hd
      have hleaf := cfg.getLeaf_of_mem (mem_of_getElem? hi) (by omega)
      rw [hd, h] at hleaf
      have hlt := (List.getElem?_eq_some_iff.mp hi).1
      exact (getElem?_inj hlt cfg.distinct.of_map).mp (hi.trans hleaf.symm)
  · intro h
    cases hk : cfg.leaves[k]? with
    | some d =>
      have hd : d.phyId = k := (h k d hk).mp rfl
      rw [← hd]
      exact cfg.getLeaf_of_mem (mem_of_getElem? hk) (by omega)
    | none =>
      rw [Option.eq_none_iff_forall_ne_some]
      intro d hd
      obtain ⟨hmem, hphy, -⟩ := cfg.getLeaf_some hd
      obtain ⟨i, hi⟩ := getElem?_of_mem hmem
      rw [(h i d hi).mpr hphy, hk] at hi
      cases hi

/-! ### Allocations -/

theorem ne_cardNotFound {msg : String} (h : msg.toList.head? ≠ some 'c') (phyId : Int) :
    msg ≠ cardNotFound phyId := by
  rintro rfl
  simp [cardNotFound] at h

variable {s : Allocator F} {phyId : Int}

theorem selectVnpu_ne_cardNotFound {c : CheckedRequest} {calloc : Bool} {e : Status × String}
    (h : s.selectVnpu cfg phyId c calloc = .error e) : e.2 ≠ cardNotFound phyId := by
  unfold selectVnpu at h
  split at h
  · cases h
    exact ne_cardNotFound (by simp) phyId
  split at h
  · cases h
    exact ne_cardNotFound (by simp) phyId
  split at h
  next msg _ =>
    cases h
    dsimp only
    split
    · exact ne_cardNotFound (by simp) phyId
    split
    · -- the two messages about a card differ after its number
      intro heq
      have := congrArg String.toList heq
      simp [cardNotFound] at this
    · exact ne_cardNotFound (by simp) phyId
  · split at h
    · cases h
    · cases h
      exact ne_cardNotFound (by simp) phyId

theorem allocateSteps_ne_cardNotFound [DecidableEq F] (a : Allocation) (d : DieMeta)
    (ch : AllocChoices) (phyId : Int) :
    (s.allocateSteps cfg a d ch).1.errorMsg ≠ cardNotFound phyId := by
  have hstep : ∀ status step, (stepError a status step).errorMsg ≠ cardNotFound phyId := by
    intro status step
    cases step <;> exact ne_cardNotFound (by simp [stepError, AllocResponse.error]) phyId
  unfold allocateSteps
  simp only
  split
  · exact hstep _ _
  split
  · exact hstep _ _
  split
  · exact hstep _ _
  split
  · exact hstep _ _
  split
  · exact hstep _ _
  · exact ne_cardNotFound (by simp) phyId

/-- A card that is there at its position is not refused as not found. -/
theorem allocate_ne_cardNotFound [DecidableEq F] {req : AllocRequest} {c : CheckedRequest}
    {d : DieMeta} (ch : AllocChoices) (hc : checkRequest req = .ok c)
    (hlt : req.predicatePhyId < cfg.leaves.length) (hd : cfg.getLeaf req.predicatePhyId = some d) :
    (s.allocate cfg req ch).1.errorMsg ≠ cardNotFound req.predicatePhyId := by
  unfold allocate
  simp only [hc, hd, Option.isNone_some, Bool.false_eq_true, and_false, if_false]
  rw [if_neg (by omega)]
  split
  · exact ne_cardNotFound (by simp) _
  split
  next hselect => exact selectVnpu_ne_cardNotFound hselect
  · exact allocateSteps_ne_cardNotFound _ _ _ _

/-- A query for a card answers the leaf with that number, and an allocation refuses a card as not
found exactly when no leaf has its number, for the cards that stand at the position of their number
and for no other. -/
theorem queryDevices_agrees_iff [DecidableEq F] (cfg : NodeConfig F) (s : Allocator F) (k : Nat) :
    (s.queryDevices cfg k = ((cfg.getLeaf k).map fun d => (d, s.leaf d.phyId)).toList ∧
      ∀ (req : AllocRequest) (c : CheckedRequest) (ch : AllocChoices),
        checkRequest req = .ok c → req.predicatePhyId = k →
          ((s.allocate cfg req ch).1.errorMsg = cardNotFound k ↔ cfg.getLeaf k = none)) ↔
    cfg.NumberedAt k := by
  rw [← getLeaf_eq_getElem?_iff, queryDevices_eq]
  constructor
  · rintro ⟨hquery, -⟩
    cases hleaf : cfg.getLeaf k with
    | none | some d => cases hk : cfg.leaves[k]? <;> simp_all
  · intro h
    refine ⟨by rw [h], fun req c ch hc hphy => ?_⟩
    cases hleaf : cfg.getLeaf k with
    | none =>
      have hlength : cfg.leaves.length ≤ k := getElem?_eq_none_iff.mp (h.symm.trans hleaf)
      unfold allocate
      simp [hc, hphy, hlength, cardNotFound, AllocResponse.error]
    | some d =>
      have hlt := (List.getElem?_eq_some_iff.mp (h.symm.trans hleaf)).1
      have hne := allocate_ne_cardNotFound (s := s) ch hc (by omega) (hphy ▸ hleaf)
      rw [hphy] at hne
      simp [hne]

/-- A node whose only card has the number 4. -/
def cardFour : NodeConfig String :=
  { oneDie with
    leaves := oneDie.leaves.map fun d =>
      ⟨4, "die-4", "uuid-4", d.totalMemory, d.aicore, by decide, d.aicore_nonneg⟩
    distinct := by decide }

/-- The tree has the card; the query does not answer it and an allocation does not find it. -/
theorem cardFour_not_found :
    (cardFour.getLeaf 4).isSome = true ∧ emptyNode.queryDevices cardFour 4 = [] ∧
      (emptyNode.allocate cardFour { halfDie with predicatePhyId := 4 } saveFails).1.errorMsg =
          cardNotFound 4 := by
  decide

end UbsVirt.Enpu
