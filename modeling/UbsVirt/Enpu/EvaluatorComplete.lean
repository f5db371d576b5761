import UbsVirt.Enpu.Evaluator

/-!
# When the share evaluator succeeds

The loop of the evaluator passes over no leaf that fits: with at most `MAX_CANDIDATES` leaves
every leaf that passes the checks becomes a candidate, and the evaluator fails only when no
candidate has a fitting policy. What it does not take is a request for no HBM, which the table
of the README allows. Source: `enpu-manager/core/src/evaluator_share.c:112-322`,
`enpu-manager/README.md:387-405`.
-/

namespace UbsVirt.Enpu

open List

/-- The leaves of an initialised tree: their card numbers differ and index the arrays per
die. -/
structure TreeLeaves (leaves : List DieMeta) : Prop where
  inRange : ∀ d ∈ leaves, 0 ≤ d.phyId ∧ d.phyId < maxNpuPerNode
  distinct : (leaves.map DieMeta.phyId).Nodup

/-- There are at most `MAX_CANDIDATES` leaves. -/
theorem TreeLeaves.length_le {leaves : List DieMeta} (h : TreeLeaves leaves) :
    leaves.length ≤ maxNpuPerNode := by
  have hnodup : ((leaves.map DieMeta.phyId).map Int.toNat).Nodup := by
    apply List.Nodup.map_on _ h.distinct
    intro x hx y hy hxy
    obtain ⟨d, hd, rfl⟩ := mem_map.mp hx
    obtain ⟨e, he, rfl⟩ := mem_map.mp hy
    have := h.inRange d hd
    have := h.inRange e he
    omega
  have hsub : (leaves.map DieMeta.phyId).map Int.toNat ⊆ range maxNpuPerNode := by
    intro n hn
    obtain ⟨x, hx, rfl⟩ := mem_map.mp hn
    obtain ⟨d, hd, rfl⟩ := mem_map.mp hx
    have := h.inRange d hd
    exact mem_range.mpr (by omega)
  have hlen := (subperm_of_subset hnodup hsub).length_le
  simpa using hlen

variable {d : DieMeta}

theorem TreeLeaves.eq_of_phyId {leaves : List DieMeta} (h : TreeLeaves leaves) {e : DieMeta}
    (hd : d ∈ leaves) (he : e ∈ leaves) (heq : d.phyId = e.phyId) : d = e :=
  inj_on_of_nodup_map h.distinct hd he heq

/-! ### The requirements of a request -/

/-- The requests the table of the README allows. -/
structure Allowed (req : EvalRequest) : Prop where
  aicore : req.vnpuPriority = .normal → 1 ≤ req.aicoreQuota
  request : req.hbmQuota ≤ req.hbmLimit
  fixedShare : req.schedPolicy = .fixedShare → 0 < req.hbmQuota ∧ req.hbmQuota = req.hbmLimit

/-- The leaf can hold the vNPU that is asked for, in plain numbers. -/
structure Fits (req : EvalRequest) (d : DieMeta) (l : LeafState) : Prop where
  named : 0 ≤ req.predicatePhyId → d.phyId = req.predicatePhyId
  limit : req.hbmLimit ≤ d.totalMb
  limitSum : (req.allocatedHbmLimit d.phyId).toNat + req.hbmLimit.toNat ≤
    ((req.ratio d.phyId).threshold d.totalMb).toNat
  hbm : req.hbmQuota ≤ l.hbmQuota
  aicore : req.aicoreQuota ≤ l.aicoreQuota
  oversub : req.hbmQuota < req.hbmLimit → (req.ratio d.phyId).enabled = true
  slot : ∃ v, l.isFree v = true
  policy : req.vnpuPriority = .normal → ∀ e ∈ l.policyEntries, e.vnpuPriority = .normal →
    e.schedPolicy = req.schedPolicy

def SumWraps (req : EvalRequest) (d : DieMeta) : Prop :=
  2 ^ 64 ≤ (req.allocatedHbmLimit d.phyId).toNat + req.hbmLimit.toNat

variable {l : LeafState}

namespace LeafState

/-- The mask has a bit set exactly when an id is free. -/
theorem getAvailableVnpuId_isSome :
    (∃ v, l.getAvailableVnpuId = some v) ↔ ∃ v, l.isFree v = true := by
  constructor
  · rintro ⟨v, hv⟩
    exact ⟨v, getAvailableVnpuId_isFree hv⟩
  · rintro ⟨v, hv⟩
    have hlt := lt_of_isFree hv
    have hmask : l.vnpuMask ≠ 0#64 := by
      intro hzero
      rw [isFree_eq hlt, hzero] at hv
      simp at hv
    unfold getAvailableVnpuId
    rw [if_neg hmask]
    apply Option.isSome_iff_exists.mp
    rw [find?_isSome]
    exact ⟨v, mem_range.mpr (by unfold maxVnpuPerDie; omega), hv⟩

theorem validatePolicy_iff {policy : SchedPolicy} : l.validatePolicy policy = true ↔
      ∀ e ∈ l.policyEntries, e.vnpuPriority = .normal → e.schedPolicy = policy := by
  unfold validatePolicy
  rw [all_eq_true]
  apply forall₂_congr
  intro e _
  cases hp : e.vnpuPriority <;> simp

end LeafState

/-- What the evaluator checks is what the request needs, unless the sum of the limits wraps. -/
theorem feasible_iff_fits {req : EvalRequest}
    (hd : 0 ≤ d.phyId ∧ d.phyId < maxNpuPerNode) (hsum : ¬ SumWraps req d) :
    (∃ v, Feasible req d l v) ↔ Fits req d l := by
  have hnat : (req.allocatedHbmLimit d.phyId + req.hbmLimit).toNat =
      (req.allocatedHbmLimit d.phyId).toNat + req.hbmLimit.toNat := by
    rw [UInt64.toNat_add]
    exact Nat.mod_eq_of_lt (Nat.not_le.mp hsum)
  constructor
  · rintro ⟨v, h⟩
    refine ⟨h.named, h.limit, ?_, h.hbm, h.aicore, h.oversub,
      LeafState.getAvailableVnpuId_isSome.mp ⟨v, h.vnpu⟩, ?_⟩
    · rw [← hnat]
      exact UInt64.le_iff_toNat_le.mp h.limitSum
    · intro hnormal
      rcases h.policy with hhigh | hvalid
      · rw [hhigh] at hnormal
        cases hnormal
      · exact LeafState.validatePolicy_iff.mp hvalid
  · intro h
    obtain ⟨v, hv⟩ := LeafState.getAvailableVnpuId_isSome.mpr h.slot
    refine ⟨v, hd, h.named, h.oversub, h.limit, ?_, h.aicore, h.hbm, hv, ?_⟩
    · rw [UInt64.le_iff_toNat_le, hnat]
      exact h.limitSum
    · cases hp : req.vnpuPriority with
      | high => exact .inl rfl
      | normal => exact .inr (LeafState.validatePolicy_iff.mpr (h.policy hp))

/-- A leaf that fits has no sum that wraps. -/
theorem Fits.not_sumWraps {req : EvalRequest} (h : Fits req d l) : ¬ SumWraps req d := by
  have hlt := UInt64.toNat_lt ((req.ratio d.phyId).threshold d.totalMb)
  have := h.limitSum
  unfold SumWraps
  omega

/-! ### The candidates -/

/-- The candidate made of a leaf, lines 224-235. -/
def candidateOf (req : EvalRequest) (d : DieMeta) (l : LeafState) (v : Nat) : Candidate :=
  { die := d, vnpuId := v, availAicore := l.aicoreQuota, availHbm := l.hbmQuota
    vnpuCount := l.vnpuCount, vnpuPriority := req.vnpuPriority
    policyOk := req.vnpuPriority == .high || l.validatePolicy req.schedPolicy
    dieOversubEnabled := (req.ratio d.phyId).enabled }

variable {req : EvalRequest} {leaf : Int → LeafState} {log : RejectLog} {c : Candidate}

theorem examineLeaf_accept_eq (h : examineLeaf req log d l = .accept c) :
    (0 ≤ req.predicatePhyId → d.phyId = req.predicatePhyId) ∧ ∃ v, c = candidateOf req d l v := by
  unfold examineLeaf at h
  dsimp only at h
  split at h
  · cases h
  next hnamed =>
  refine ⟨by simpa using hnamed, ?_⟩
  repeat' split at h
  all_goals cases h
  exact ⟨_, rfl⟩

/-- A feasible leaf becomes a candidate. -/
theorem examineLeaf_of_feasible (log : RejectLog) {v : Nat}
    (h : Feasible req d l v) : examineLeaf req log d l = .accept (candidateOf req d l v) := by
  unfold examineLeaf
  dsimp only
  rw [if_neg, if_neg, if_neg, if_neg, if_neg, if_neg, h.vnpu]
  · rfl
  · rintro (haicore | hhbm)
    · exact Int32.not_lt.mpr h.aicore haicore
    · exact UInt64.not_lt.mpr h.hbm hhbm
  · exact UInt64.not_lt.mpr h.limitSum
  · exact UInt64.not_lt.mpr h.limit
  · rintro ⟨hlt, hoff⟩
    rw [h.oversub hlt] at hoff
    cases hoff
  · have := h.inRange
    omega
  · rintro ⟨hnamed, hne⟩
    exact hne (h.named hnamed)

variable {ds : List DieMeta}

theorem collectCandidates_mem {acc : List Candidate}
    (h : c ∈ (collectCandidates req leaf ds acc log).1) :
    c ∈ acc ∨ ∃ d ∈ ds, (0 ≤ req.predicatePhyId → d.phyId = req.predicatePhyId) ∧
      ∃ v, c = candidateOf req d (leaf d.phyId) v := by
  induction ds generalizing acc log with
  | nil => exact .inl h
  | cons d ds ih =>
    have hrest : ∀ {acc log}, c ∈ (collectCandidates req leaf ds acc log).1 →
        c ∈ acc ∨ ∃ d' ∈ d :: ds, (0 ≤ req.predicatePhyId → d'.phyId = req.predicatePhyId) ∧
          ∃ v, c = candidateOf req d' (leaf d'.phyId) v := by
      intro acc log h
      rcases ih h with hacc | ⟨d', hd', hc⟩
      · exact .inl hacc
      · exact .inr ⟨d', mem_cons_of_mem _ hd', hc⟩
    unfold collectCandidates at h
    split at h
    swap
    · exact .inl h
    split at h
    · exact hrest h
    · exact hrest h
    next c' hc' =>
    rcases hrest h with hacc | hmem
    · rcases mem_append.mp hacc with hacc | hnew
      · exact .inl hacc
      · rw [mem_singleton] at hnew
        subst hnew
        exact .inr ⟨d, mem_cons_self, examineLeaf_accept_eq hc'⟩
    · exact .inr hmem

theorem mem_collectCandidates_of_acc {acc : List Candidate} (h : c ∈ acc) :
    c ∈ (collectCandidates req leaf ds acc log).1 := by
  induction ds generalizing acc log with
  | nil => exact h
  | cons d ds ih =>
    unfold collectCandidates
    split
    swap
    · exact h
    split
    · exact ih h
    · exact ih h
    · exact ih (mem_append_left _ h)

/-- The loop does not stop before the last leaf, so no feasible leaf is missed. -/
theorem mem_collectCandidates_of_feasible (acc : List Candidate)
    (log : RejectLog) (hlen : acc.length + ds.length ≤ maxNpuPerNode) (hd : d ∈ ds)
    {v : Nat} (h : Feasible req d (leaf d.phyId) v) :
    candidateOf req d (leaf d.phyId) v ∈ (collectCandidates req leaf ds acc log).1 := by
  induction ds generalizing acc log with
  | nil => cases hd
  | cons e ds ih =>
    rw [length_cons] at hlen
    unfold collectCandidates
    rw [if_pos (by omega)]
    rcases mem_cons.mp hd with rfl | hd
    · rw [examineLeaf_of_feasible log h]
      exact mem_collectCandidates_of_acc (mem_append_right _ (mem_singleton_self _))
    · split
      · exact ih _ _ (by omega) hd
      · exact ih _ _ (by omega) hd
      · exact ih _ _ (by rw [length_append, length_singleton]; omega) hd

/-! ### Success -/

section

variable {strategy : ShareStrategy} {leaves : List DieMeta}

/-- The evaluator succeeds exactly when it accepts the request and some leaf is feasible. -/
theorem evaluateShare_isOk_iff (htree : TreeLeaves leaves) :
    (∃ r, evaluateShare strategy leaves leaf req = .ok r) ↔
      (req.vnpuPriority = .normal → 0 < req.aicoreQuota) ∧ 0 < req.hbmQuota ∧
        ∃ d ∈ leaves, ∃ v, Feasible req d (leaf d.phyId) v := by
  constructor
  · rintro ⟨⟨d, v⟩, hr⟩
    obtain ⟨hd, hfeas, hhbm, haicore⟩ := evaluateShare_ok hr
    exact ⟨haicore, hhbm, d, hd, v, hfeas⟩
  rintro ⟨haicore, hhbm, d, hd, v, hfeas⟩
  have hmem := mem_collectCandidates_of_feasible [] .none (by simpa using htree.length_le) hd hfeas
  have hok : (candidateOf req d (leaf d.phyId) v).policyOk = true := by
    rcases hfeas.policy with hp | hp <;> simp [candidateOf, hp]
  have hvalid : ¬ ((req.vnpuPriority = .normal ∧ req.aicoreQuota ≤ 0) ∨ req.hbmQuota = 0) := by
    rintro (⟨hnormal, hle⟩ | hzero)
    · exact Int32.not_le.mpr (haicore hnormal) hle
    · exact UInt64.pos_iff_ne_zero.mp hhbm hzero
  unfold evaluateShare
  rw [if_neg hvalid]
  split
  · next hcoll =>
    rw [hcoll] at hmem
    cases hmem
  next c cs log hcoll =>
  rw [hcoll] at hmem
  split
  · next hnamed =>
    -- the first candidate is of the named card, which is the only leaf with that number
    have hfirst : c ∈ (collectCandidates req leaf leaves [] .none).1 := by
      rw [hcoll]
      exact mem_cons_self
    rcases collectCandidates_mem hfirst with hnil | ⟨e, he, hnamed', w, rfl⟩
    · cases hnil
    have heq : e = d :=
      htree.eq_of_phyId he hd ((hnamed' hnamed).trans (hfeas.named hnamed).symm)
    subst heq
    have hok' : (candidateOf req e (leaf e.phyId) w).policyOk = true := hok
    rw [if_pos hok']
    exact ⟨_, rfl⟩
  · dsimp only
    split
    · exact ⟨_, rfl⟩
    next hnone =>
    exfalso
    have hall := find?_eq_none.mp hnone (candidateOf req d (leaf d.phyId) v)
      ((mem_insertionSort _).mpr hmem)
    exact hall hok

/-- Among the requests the table allows, on every tree: that the evaluator succeeds exactly when
some leaf fits is right if and only if HBM is asked for or no leaf fits, and no sum of limits that
wraps makes it take a leaf where none fits. -/
theorem evaluateShare_fits_iff (htree : TreeLeaves leaves) (hreq : Allowed req) :
    ((∃ r, evaluateShare strategy leaves leaf req = .ok r) ↔
        ∃ d ∈ leaves, Fits req d (leaf d.phyId)) ↔
      (req.hbmQuota = 0 → ¬ ∃ d ∈ leaves, Fits req d (leaf d.phyId)) ∧ (0 < req.hbmQuota →
          (∃ d ∈ leaves, SumWraps req d ∧ ∃ v, Feasible req d (leaf d.phyId) v) →
          ∃ d ∈ leaves, Fits req d (leaf d.phyId)) := by
  have haicore : req.vnpuPriority = .normal → 0 < req.aicoreQuota := by
    intro hnormal
    exact Int32.lt_of_lt_of_le (by decide) (hreq.aicore hnormal)
  have hfits : (∃ d ∈ leaves, Fits req d (leaf d.phyId)) →
      ∃ d ∈ leaves, ∃ v, Feasible req d (leaf d.phyId) v := by
    rintro ⟨d, hd, h⟩
    exact ⟨d, hd, (feasible_iff_fits (htree.inRange d hd) h.not_sumWraps).mpr h⟩
  rw [evaluateShare_isOk_iff htree]
  constructor
  · intro h
    refine ⟨?_, ?_⟩
    · intro hzero hfit
      have hpos := (h.mpr hfit).2.1
      rw [hzero] at hpos
      exact absurd hpos (by decide)
    · rintro hpos ⟨d, hd, -, hfeas⟩
      exact h.mp ⟨haicore, hpos, d, hd, hfeas⟩
  · rintro ⟨hzero, hwraps⟩
    constructor
    · rintro ⟨-, hpos, d, hd, hfeas⟩
      by_cases hsum : SumWraps req d
      · exact hwraps hpos ⟨d, hd, hsum, hfeas⟩
      · exact ⟨d, hd, (feasible_iff_fits (htree.inRange d hd) hsum).mp hfeas⟩
    · intro hfit
      refine ⟨haicore, ?_, hfits hfit⟩
      by_contra hnpos
      apply hzero _ hfit
      by_contra hne
      exact hnpos (UInt64.pos_iff_ne_zero.mpr hne)

end

/-! ### A request for no HBM -/

/-- A card of 64 GB with 24 cores, on which HBM may be oversubscribed. -/
def firstDie : DieMeta :=
  { phyId := 0, dieId := "die", uuid := "", totalMemory := 65536, aicore := 24
    dieId_ne := by decide, aicore_nonneg := by decide }

/-- A request for 8 cores and up to 1024 MB with the elastic policy. -/
def elasticRequest (hbmQuota : UInt64) : EvalRequest :=
  { aicoreQuota := 8, hbmQuota := hbmQuota, hbmLimit := 1024, schedPolicy := .elastic
    vnpuPriority := .normal, predicatePhyId := -1
    ratio := fun _ => ⟨true, fun total => total + total⟩
    allocatedHbmLimit := fun _ => 0 }

theorem treeLeaves_firstDie : TreeLeaves [firstDie] :=
  ⟨by simp [firstDie, maxNpuPerNode], by simp⟩

theorem allowed_elasticRequest {hbmQuota : UInt64} (h : hbmQuota ≤ 1024) :
    Allowed (elasticRequest hbmQuota) :=
  ⟨fun _ => (by decide : (1 : Int32) ≤ 8), h, nofun⟩

theorem fits_firstDie {hbmQuota : UInt64} (h : hbmQuota ≤ 1024) :
    Fits (elasticRequest hbmQuota) firstDie (.fresh firstDie) where
  named := fun h => absurd h (by decide : ¬ (0 : Int) ≤ -1)
  limit := (by decide : (1024 : UInt64) ≤ firstDie.totalMb)
  limitSum := (by decide : (0 : UInt64).toNat + (1024 : UInt64).toNat ≤
    (firstDie.totalMb + firstDie.totalMb).toNat)
  hbm := UInt64.le_trans h (by decide)
  aicore := (by decide : (8 : Int32) ≤ firstDie.aicore)
  oversub := fun _ => rfl
  slot := ⟨0, by decide⟩
  policy := fun _ _ he => nomatch he

/-- With 512 MB asked for, the evaluator succeeds and the die fits. -/
theorem evaluateShare_fits_firstDie : TreeLeaves [firstDie] ∧ Allowed (elasticRequest 512) ∧
      ((∃ r, evaluateShare .compact [firstDie] (fun _ => .fresh firstDie) (elasticRequest 512) = .ok r) ↔
        ∃ d ∈ [firstDie], Fits (elasticRequest 512) d (.fresh firstDie)) := by
  have hallowed : Allowed (elasticRequest 512) := allowed_elasticRequest (by decide)
  refine ⟨treeLeaves_firstDie, hallowed, ?_⟩
  refine (evaluateShare_fits_iff treeLeaves_firstDie hallowed).mpr ⟨fun h => absurd h (by decide), ?_⟩
  exact fun _ _ => ⟨firstDie, mem_singleton_self _, fits_firstDie (by decide)⟩

/-- A request for no HBM is refused although the die fits. -/
theorem evaluateShare_refuses_zero :
    ¬ ∀ (strategy : ShareStrategy) (leaves : List DieMeta) (leaf : Int → LeafState)
        (req : EvalRequest), TreeLeaves leaves → Allowed req →
      ((∃ r, evaluateShare strategy leaves leaf req = .ok r) ↔
        ∃ d ∈ leaves, Fits req d (leaf d.phyId)) := by
  intro h
  obtain ⟨r, hr⟩ := (h .compact [firstDie] (fun _ => .fresh firstDie) (elasticRequest 0)
    treeLeaves_firstDie (allowed_elasticRequest (by decide))).mpr
      ⟨firstDie, mem_singleton_self _, fits_firstDie (by decide)⟩
  cases hr

end UbsVirt.Enpu
