import UbsVirt.Enpu.Tree

/-!
# The share evaluator

`evaluator_share_evaluate` picks the die and the vNPU id of a request: it filters the
leaves of the tree, sorts the candidates by the configured strategy and takes the first
one whose scheduling policy fits. Source: `enpu-manager/core/src/evaluator_share.c`.
-/

namespace UbsVirt.Enpu

open List

/-- `oversub_ratio` of a die as the code uses the double: whether it is positive, and
`(uint64_t)((1.0 + ratio) * (double)total)` as a function of the total. -/
structure OversubRatio where
  enabled : Bool
  threshold : UInt64 → UInt64

/-- `eval_request_t`. The integers have been checked by `npu_allocator_allocate`, so the
evaluator's own range checks of priority and policy cannot fail. -/
structure EvalRequest where
  aicoreQuota : Int32
  hbmQuota : UInt64
  hbmLimit : UInt64
  schedPolicy : SchedPolicy
  vnpuPriority : VnpuPriority
  predicatePhyId : Int
  ratio : Int → OversubRatio
  allocatedHbmLimit : Int → UInt64

/-- `share_candidate_t`. -/
structure Candidate where
  die : DieMeta
  vnpuId : Nat
  availAicore : Int32
  availHbm : UInt64
  vnpuCount : Int
  vnpuPriority : VnpuPriority
  policyOk : Bool
  dieOversubEnabled : Bool

/-- `share_strategy_t`. -/
inductive ShareStrategy where
  | compact
  | antiFragment
  deriving DecidableEq, Repr

namespace Candidate

/-- `compare_compact`, lines 45-60. -/
def compareCompact (a b : Candidate) : Int :=
  if a.vnpuCount ≠ b.vnpuCount then b.vnpuCount - a.vnpuCount
  else if a.availAicore ≠ b.availAicore then a.availAicore.toInt - b.availAicore.toInt
  else a.die.phyId - b.die.phyId

/-- `compare_anti_fragment`, lines 62-76. -/
def compareAntiFragment (a b : Candidate) : Int :=
  if a.vnpuCount ≠ b.vnpuCount then a.vnpuCount - b.vnpuCount
  else if a.availAicore ≠ b.availAicore then b.availAicore.toInt - a.availAicore.toInt
  else a.die.phyId - b.die.phyId

/-- `compare_load_balance`, lines 78-90. -/
def compareLoadBalance (a b : Candidate) : Int :=
  if a.vnpuCount ≠ b.vnpuCount then a.vnpuCount - b.vnpuCount
  else if a.availHbm ≠ b.availHbm then if a.availHbm < b.availHbm then 1 else -1
  else a.die.phyId - b.die.phyId

/-- `compare_share_candidates`, lines 92-110. -/
def compareShare (strategy : ShareStrategy) (a b : Candidate) : Int :=
  if a.vnpuPriority = .high then compareLoadBalance a b
  else if a.dieOversubEnabled ≠ b.dieOversubEnabled then if a.dieOversubEnabled then 1 else -1
  else match strategy with
    | .compact => compareCompact a b
    | .antiFragment => compareAntiFragment a b

end Candidate

/-- Why a leaf was passed over, with the texts of lines 161-222. -/
inductive RejectReason where
  | phyIdOutOfRange
  | needsOversub
  | limitExceedsTotal
  | limitSumExceeds
  | insufficient
  | noFreeSlot
  deriving DecidableEq, Repr

def RejectReason.text : RejectReason → String
  | .phyIdOutOfRange => "phy_id out of range for per-die arrays"
  | .needsOversub =>
    "vNPU requires oversubscription (hbm_request<hbm_limit) but die has oversub_ratio=0"
  | .limitExceedsTotal => "request hbm_limit exceeds die hbm_total"
  | .limitSumExceeds => "hbm_limit sum exceeds (1+oversub_ratio_per_die)*die_hbm_total"
  | .insufficient => "insufficient aicore or hbm quota"
  | .noFreeSlot => "no free vnpu slot on this die"

/-- The `last_reject_*` variables of the loop. A reason sets only the numbers it is about,
so older numbers can stand beside a newer reason. -/
structure RejectLog where
  reason : Option RejectReason
  phyId : Int
  dieTotal : UInt64
  allocated : UInt64
  threshold : UInt64
  deriving DecidableEq, Repr

/-- The variables before the loop, lines 144-148. -/
def RejectLog.none : RejectLog :=
  { reason := Option.none, phyId := -1, dieTotal := 0, allocated := 0, threshold := 0 }

/-- The message when no leaf was a candidate, lines 239-258. -/
def RejectLog.message (r : RejectLog) : String :=
  match r.reason with
  | Option.none => "no DIE candidate available"
  | some reason =>
    if 0 < r.allocated ∨ 0 < r.threshold then
      "all DIEs rejected; last reason: phy_id=" ++ toString r.phyId ++ " " ++ reason.text ++
        " (allocated=" ++ toString r.allocated.toNat ++ " MB, threshold=" ++
        toString r.threshold.toNat ++ " MB, die_total=" ++ toString r.dieTotal.toNat ++ " MB)"
    else
      "all DIEs rejected; last reason: phy_id=" ++ toString r.phyId ++ " " ++ reason.text ++
        " (die_total=" ++ toString r.dieTotal.toNat ++ " MB)"

/-- What the loop body decides about one leaf. -/
inductive Verdict where
  | skip
  | reject (log : RejectLog)
  | accept (c : Candidate)

def DieMeta.totalMb (d : DieMeta) : UInt64 :=
  d.totalBytes / (1024 * 1024)

/-- The checks of one leaf in the order of the loop body, lines 152-235. -/
def examineLeaf (req : EvalRequest) (log : RejectLog) (d : DieMeta) (l : LeafState) : Verdict :=
  let ratio := req.ratio d.phyId
  let dieTotal := d.totalMb
  let allocated := req.allocatedHbmLimit d.phyId
  let threshold := ratio.threshold dieTotal
  if 0 ≤ req.predicatePhyId ∧ d.phyId ≠ req.predicatePhyId then .skip
  else if d.phyId < 0 ∨ (maxNpuPerNode : Int) ≤ d.phyId then
    .reject { log with phyId := d.phyId, reason := some .phyIdOutOfRange }
  else if req.hbmQuota < req.hbmLimit ∧ ratio.enabled = false then
    .reject { log with phyId := d.phyId, reason := some .needsOversub }
  else if dieTotal < req.hbmLimit then
    .reject { log with phyId := d.phyId, reason := some .limitExceedsTotal, dieTotal := dieTotal }
  else if threshold < allocated + req.hbmLimit then
    .reject
      { phyId := d.phyId, reason := some .limitSumExceeds, dieTotal := dieTotal
        allocated := allocated, threshold := threshold }
  else if l.aicoreQuota < req.aicoreQuota ∨ l.hbmQuota < req.hbmQuota then
    .reject { log with phyId := d.phyId, reason := some .insufficient }
  else match l.getAvailableVnpuId with
    | Option.none => .reject { log with phyId := d.phyId, reason := some .noFreeSlot }
    | some v =>
      .accept
        { die := d, vnpuId := v, availAicore := l.aicoreQuota, availHbm := l.hbmQuota
          vnpuCount := l.vnpuCount, vnpuPriority := req.vnpuPriority
          policyOk := req.vnpuPriority == .high || l.validatePolicy req.schedPolicy
          dieOversubEnabled := ratio.enabled }

/-- The loop over the leaves, lines 152-237. It stops at `MAX_CANDIDATES`. -/
def collectCandidates (req : EvalRequest) (leaf : Int → LeafState) :
    List DieMeta → List Candidate → RejectLog → List Candidate × RejectLog
  | [], acc, log => (acc, log)
  | d :: ds, acc, log =>
    if acc.length < maxNpuPerNode then
      match examineLeaf req log d (leaf d.phyId) with
      | .skip => collectCandidates req leaf ds acc log
      | .reject log' => collectCandidates req leaf ds acc log'
      | .accept c => collectCandidates req leaf ds (acc ++ [c]) log
    else (acc, log)

/-- `evaluator_share_evaluate`, lines 112-322: the die and vNPU id, or the code and the
message of the failure. -/
def evaluateShare (strategy : ShareStrategy) (leaves : List DieMeta) (leaf : Int → LeafState)
    (req : EvalRequest) : Except (Status × String) (DieMeta × Nat) :=
  if (req.vnpuPriority = .normal ∧ req.aicoreQuota ≤ 0) ∨ req.hbmQuota = 0 then
    .error (.invalidParam, "")
  else
    match collectCandidates req leaf leaves [] .none with
    | ([], log) => .error (.noResource, log.message)
    | (c :: cs, _) =>
      if 0 ≤ req.predicatePhyId then
        if c.policyOk then .ok (c.die, c.vnpuId)
        else .error (.noResource, "card " ++ toString req.predicatePhyId ++
          " rejected: sched_policy=" ++ toString req.schedPolicy.code ++
          " conflicts with existing vNPUs on the DIE")
      else
        let sorted := (c :: cs).insertionSort fun a b => Candidate.compareShare strategy a b ≤ 0
        match sorted.find? (·.policyOk) with
        | some best => .ok (best.die, best.vnpuId)
        | Option.none => .error (.noResource, toString (c :: cs).length ++
          " candidate DIEs passed resource/oversub checks but all rejected sched_policy=" ++
          toString req.schedPolicy.code ++ " (must match existing vNPUs on the DIE)")

/-- What the evaluator has checked of the die and the vNPU id it returns. -/
structure Feasible (req : EvalRequest) (d : DieMeta) (l : LeafState) (v : Nat) : Prop where
  inRange : 0 ≤ d.phyId ∧ d.phyId < maxNpuPerNode
  named : 0 ≤ req.predicatePhyId → d.phyId = req.predicatePhyId
  oversub : req.hbmQuota < req.hbmLimit → (req.ratio d.phyId).enabled = true
  limit : req.hbmLimit ≤ d.totalMb
  limitSum : req.allocatedHbmLimit d.phyId + req.hbmLimit ≤ (req.ratio d.phyId).threshold d.totalMb
  aicore : req.aicoreQuota ≤ l.aicoreQuota
  hbm : req.hbmQuota ≤ l.hbmQuota
  vnpu : l.getAvailableVnpuId = some v
  policy : req.vnpuPriority = .high ∨ l.validatePolicy req.schedPolicy = true

variable {req : EvalRequest}

/-- A leaf becomes a candidate only when it passed every check of the loop body. -/
theorem examineLeaf_accept {log : RejectLog} {d : DieMeta} {l : LeafState}
    {c : Candidate} (h : examineLeaf req log d l = .accept c) :
    c.die = d ∧ (c.policyOk = true → Feasible req d l c.vnpuId) := by
  unfold examineLeaf at h
  simp only at h
  split at h
  · cases h
  next hnamed =>
  split at h
  · cases h
  next hrange =>
  split at h
  · cases h
  next hover =>
  split at h
  · cases h
  next hlimit =>
  split at h
  · cases h
  next hsum =>
  split at h
  · cases h
  next hquota =>
  split at h
  · cases h
  next v hv =>
  cases h
  refine ⟨rfl, fun hpol => ?_⟩
  push Not at hnamed hrange hquota
  exact
    { inRange := hrange
      named := hnamed
      oversub := fun hlt => by simpa [hlt] using hover
      limit := UInt64.not_lt.mp hlimit
      limitSum := UInt64.not_lt.mp hsum
      aicore := Int32.not_lt.mp (by simpa using hquota.1)
      hbm := UInt64.not_lt.mp (by simpa using hquota.2)
      vnpu := hv
      policy := by simpa using hpol }

/-- A collected candidate that passes the policy is feasible. -/
theorem collectCandidates_spec {leaf : Int → LeafState} {ds : List DieMeta}
    {acc : List Candidate} {log : RejectLog} {c : Candidate}
    (h : c ∈ (collectCandidates req leaf ds acc log).1) :
    c ∈ acc ∨ (c.die ∈ ds ∧
      (c.policyOk = true → Feasible req c.die (leaf c.die.phyId) c.vnpuId)) := by
  induction ds generalizing acc log with
  | nil => exact .inl h
  | cons d ds ih =>
    simp only [collectCandidates] at h
    split at h
    · split at h
      · rcases ih h with h | h
        · exact .inl h
        · exact .inr ⟨mem_cons_of_mem _ h.1, h.2⟩
      · rcases ih h with h | h
        · exact .inl h
        · exact .inr ⟨mem_cons_of_mem _ h.1, h.2⟩
      · next c' hc' =>
        rcases ih h with h | h
        · rcases mem_append.mp h with h | h
          · exact .inl h
          · obtain ⟨hdie, hfeas⟩ := examineLeaf_accept hc'
            rw [mem_singleton] at h
            subst h
            rw [hdie]
            exact .inr ⟨mem_cons_self, hfeas⟩
        · exact .inr ⟨mem_cons_of_mem _ h.1, h.2⟩
    · exact .inl h

/-- The die and id the evaluator returns passed every check. -/
theorem evaluateShare_ok {strategy : ShareStrategy} {leaves : List DieMeta}
    {leaf : Int → LeafState} {d : DieMeta} {v : Nat}
    (h : evaluateShare strategy leaves leaf req = .ok (d, v)) :
    d ∈ leaves ∧ Feasible req d (leaf d.phyId) v ∧ 0 < req.hbmQuota ∧
      (req.vnpuPriority = .normal → 0 < req.aicoreQuota) := by
  unfold evaluateShare at h
  split at h
  · cases h
  next hvalid =>
  have hpos : 0 < req.hbmQuota ∧ (req.vnpuPriority = .normal → 0 < req.aicoreQuota) := by
    push Not at hvalid
    exact ⟨UInt64.pos_iff_ne_zero.mpr hvalid.2, fun hn => Int32.not_le.mp (by simpa using hvalid.1 hn)⟩
  have key : ∀ c, c ∈ (collectCandidates req leaf leaves [] .none).1 → c.policyOk = true →
      c.die ∈ leaves ∧ Feasible req c.die (leaf c.die.phyId) c.vnpuId := by
    intro c hc hok
    rcases collectCandidates_spec hc with h | h
    · cases h
    · exact ⟨h.1, h.2 hok⟩
  split at h
  · cases h
  next c cs log hcoll =>
  rw [hcoll] at key
  split at h
  · split at h
    · next hok =>
      cases h
      obtain ⟨hmem, hfeas⟩ := key c mem_cons_self hok
      exact ⟨hmem, hfeas, hpos⟩
    · cases h
  · simp only at h
    split at h
    · next best hbest =>
      cases h
      have hmem := (perm_insertionSort _ _).mem_iff.mp (mem_of_find?_eq_some hbest)
      obtain ⟨hmem, hfeas⟩ := key best hmem (by simpa using find?_some hbest)
      exact ⟨hmem, hfeas, hpos⟩
    · cases h

end UbsVirt.Enpu
