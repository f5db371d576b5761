import Mathlib.Data.Prod.Lex
import UbsVirt.Enpu.EvaluatorComplete

/-!
# The die the share evaluator picks

The comparison functions are lexicographic orders on a few numbers of a die, so what comes first
in the sorted list is a minimum, and with distinct card numbers the only one. For normal
priority this is the documented order. For high priority dies are compared by load alone: the
rule that a vNPU without oversubscription goes to a die without oversubscription first is not
applied. Source: `enpu-manager/core/src/evaluator_share.c:45-110`, `:253-322`,
`enpu-manager/README.md:387-405`.

Counts of vNPUs and the free cores of a candidate are not negative, so that the differences the
comparison functions return fit an `int`.
-/

namespace UbsVirt.Enpu

open List Candidate
open Prod.Lex (toLex_le_toLex)

abbrev DieKey := ℤ ×ₗ ℤ ×ₗ ℤ

abbrev RankedKey := ℤ ×ₗ DieKey

namespace DieKey

def mk (a b c : ℤ) : DieKey := toLex (a, toLex (b, c))

theorem mk_le_mk {a b c a' b' c' : ℤ} :
    mk a b c ≤ mk a' b' c' ↔ a < a' ∨ a = a' ∧ (b < b' ∨ b = b' ∧ c ≤ c') := by
  unfold mk
  rw [toLex_le_toLex, toLex_le_toLex]

end DieKey

/-! ### The documented order -/

/-- Compact: the die with most vNPUs, then the one with fewest free cores. -/
def compactKey (d : DieMeta) (l : LeafState) : DieKey :=
  .mk (-l.vnpuCount) l.aicoreQuota.toInt d.phyId

/-- Anti-fragment: the die with fewest vNPUs, then the one with most free cores. -/
def antiFragmentKey (d : DieMeta) (l : LeafState) : DieKey :=
  .mk l.vnpuCount (-l.aicoreQuota.toInt) d.phyId

/-- Load balance: the die with fewest vNPUs, then the one with most free HBM. -/
def loadBalanceKey (d : DieMeta) (l : LeafState) : DieKey :=
  .mk l.vnpuCount (-l.hbmQuota.toNat) d.phyId

/-- The configured strategy; high priority balances the load. -/
def strategyKey (strategy : ShareStrategy) (priority : VnpuPriority) (d : DieMeta)
    (l : LeafState) : DieKey :=
  match priority, strategy with
  | .high, _ => loadBalanceKey d l
  | .normal, .compact => compactKey d l
  | .normal, .antiFragment => antiFragmentKey d l

def oversubscribes (req : EvalRequest) (d : DieMeta) : Bool :=
  (req.ratio d.phyId).enabled

/-- The documented order: without oversubscription first if the vNPU needs none, then by the
strategy, then by the card number. -/
def documentedKey (strategy : ShareStrategy) (req : EvalRequest) (d : DieMeta) (l : LeafState) :
    RankedKey :=
  toLex (if req.hbmQuota = req.hbmLimit ∧ oversubscribes req d = true then 1 else 0,
    strategyKey strategy req.vnpuPriority d l)

def comparedKey (strategy : ShareStrategy) (req : EvalRequest) (d : DieMeta) (l : LeafState) :
    RankedKey :=
  toLex (if req.vnpuPriority = .normal ∧ oversubscribes req d = true then 1 else 0,
    strategyKey strategy req.vnpuPriority d l)

/-! ### The comparison functions -/

section

variable {req : EvalRequest} {d e : DieMeta} {l m : LeafState} {v w : Nat}

theorem compareCompact_le_iff : compareCompact (candidateOf req d l v) (candidateOf req e m w) ≤ 0 ↔
      compactKey d l ≤ compactKey e m := by
  unfold compareCompact compactKey candidateOf
  rw [DieKey.mk_le_mk]
  dsimp only
  split
  · omega
  split
  · next haicore =>
    have hne : l.aicoreQuota.toInt ≠ m.aicoreQuota.toInt := mt Int32.toInt_inj.mp haicore
    omega
  · next haicore =>
    rw [not_not.mp haicore]
    omega

theorem compareAntiFragment_le_iff :
    compareAntiFragment (candidateOf req d l v) (candidateOf req e m w) ≤ 0 ↔
      antiFragmentKey d l ≤ antiFragmentKey e m := by
  unfold compareAntiFragment antiFragmentKey candidateOf
  rw [DieKey.mk_le_mk]
  dsimp only
  split
  · omega
  split
  · next haicore =>
    have hne : l.aicoreQuota.toInt ≠ m.aicoreQuota.toInt := mt Int32.toInt_inj.mp haicore
    omega
  · next haicore =>
    rw [not_not.mp haicore]
    omega

theorem compareLoadBalance_le_iff :
    compareLoadBalance (candidateOf req d l v) (candidateOf req e m w) ≤ 0 ↔
      loadBalanceKey d l ≤ loadBalanceKey e m := by
  unfold compareLoadBalance loadBalanceKey candidateOf
  rw [DieKey.mk_le_mk]
  dsimp only
  split
  · omega
  split
  · next hhbm =>
    have hne : l.hbmQuota.toNat ≠ m.hbmQuota.toNat := mt UInt64.toNat_inj.mp hhbm
    split
    · next hlt =>
      have := UInt64.lt_iff_toNat_lt.mp hlt
      omega
    · next hlt =>
      have := mt UInt64.lt_iff_toNat_lt.mpr hlt
      omega
  · next hhbm =>
    rw [not_not.mp hhbm]
    omega

/-- `compare_share_candidates` is an order of the candidates of one request. -/
theorem compareShare_le_iff {strategy : ShareStrategy} :
    compareShare strategy (candidateOf req d l v) (candidateOf req e m w) ≤ 0 ↔
      comparedKey strategy req d l ≤ comparedKey strategy req e m := by
  unfold compareShare comparedKey strategyKey
  rw [toLex_le_toLex]
  have hpriority : ∀ d l v, (candidateOf req d l v).vnpuPriority = req.vnpuPriority :=
    fun _ _ _ => rfl
  have hrank : ∀ d l v, (candidateOf req d l v).dieOversubEnabled = oversubscribes req d :=
    fun _ _ _ => rfl
  rw [hpriority, hrank, hrank]
  cases req.vnpuPriority with
  | high => simpa using compareLoadBalance_le_iff
  | normal =>
    cases strategy with
    | compact =>
      cases oversubscribes req d <;> cases oversubscribes req e <;> simp [compareCompact_le_iff]
    | antiFragment =>
      cases oversubscribes req d <;> cases oversubscribes req e <;>
        simp [compareAntiFragment_le_iff]

end

/-! ### The first of the sorted candidates -/

/-- In a sorted list, what is found first comes before all others that could be found. -/
theorem rel_of_find? {α : Type} {r : α → α → Prop} {p : α → Bool} {l : List α}
    {x y : α} (hl : l.Pairwise r) (hx : l.find? p = some x) (hy : y ∈ l) (hpy : p y = true)
    (hrefl : r y y) : r x y := by
  obtain ⟨-, before, after, rfl, hbefore⟩ := find?_eq_some_iff_append.mp hx
  rcases mem_append.mp hy with hmem | hmem
  · have := hbefore y hmem
    rw [hpy] at this
    cases this
  · rcases mem_cons.mp hmem with rfl | hmem
    · exact hrefl
    · exact rel_of_pairwise_cons (pairwise_append.mp hl).2.1 hmem

variable {d : DieMeta}

section

variable {strategy : ShareStrategy} {leaves : List DieMeta} {leaf : Int → LeafState}
  {req : EvalRequest}

def Candidate.key (strategy : ShareStrategy) (req : EvalRequest) (leaf : Int → LeafState)
    (c : Candidate) : RankedKey :=
  comparedKey strategy req c.die (leaf c.die.phyId)

/-- The sorted candidates are in the order of their keys. -/
theorem pairwise_sorted {cs : List Candidate}
    (hcs : ∀ c ∈ cs, ∃ d v, c = candidateOf req d (leaf d.phyId) v) :
    (cs.insertionSort fun a b => compareShare strategy a b ≤ 0).Pairwise
      fun a b => a.key strategy req leaf ≤ b.key strategy req leaf := by
  have hsame := map_insertionSort (fun a b => compareShare strategy a b ≤ 0)
    (fun a b : Candidate => a.key strategy req leaf ≤ b.key strategy req leaf) id cs (by
      intro a ha b hb
      obtain ⟨d, v, rfl⟩ := hcs a ha
      obtain ⟨e, w, rfl⟩ := hcs b hb
      exact compareShare_le_iff)
  rw [map_id, map_id] at hsame
  rw [hsame]
  exact pairwise_insertionSort _ _

variable {e : DieMeta}

/-- Without a named card, the die that is picked comes first of the feasible ones. -/
theorem evaluateShare_comparedKey_le (htree : TreeLeaves leaves) (hauto : req.predicatePhyId < 0)
    {v : Nat} (h : evaluateShare strategy leaves leaf req = .ok (d, v)) (he : e ∈ leaves) {w : Nat}
    (hfeas : Feasible req e (leaf e.phyId) w) :
    comparedKey strategy req d (leaf d.phyId) ≤ comparedKey strategy req e (leaf e.phyId) := by
  have hmem := mem_collectCandidates_of_feasible [] .none (by simpa using htree.length_le) he hfeas
  have hok : (candidateOf req e (leaf e.phyId) w).policyOk = true := by
    rcases hfeas.policy with hp | hp <;> simp [candidateOf, hp]
  have hcs : ∀ c ∈ (collectCandidates req leaf leaves [] .none).1,
      ∃ d v, c = candidateOf req d (leaf d.phyId) v := by
    intro c hc
    rcases collectCandidates_mem hc with hnil | ⟨d, -, -, v, hcd⟩
    · cases hnil
    · exact ⟨d, v, hcd⟩
  unfold evaluateShare at h
  split at h
  · cases h
  split at h
  · cases h
  next c cs log hcoll =>
  rw [hcoll] at hmem hcs
  rw [if_neg (by omega)] at h
  dsimp only at h
  split at h
  swap
  · cases h
  next best hbest =>
  cases h
  exact rel_of_find? (r := fun a b : Candidate => a.key strategy req leaf ≤ b.key strategy req leaf)
    (pairwise_sorted hcs) hbest ((mem_insertionSort _).mpr hmem) hok le_rfl

/-- The die that is picked is the minimum of the documented order of the feasible dies. -/
def PicksDocumented (strategy : ShareStrategy) (leaves : List DieMeta) (leaf : Int → LeafState)
    (req : EvalRequest) : Prop :=
  ∀ d v, evaluateShare strategy leaves leaf req = .ok (d, v) →
    ∀ e ∈ leaves, (∃ w, Feasible req e (leaf e.phyId) w) →
      documentedKey strategy req d (leaf d.phyId) ≤ documentedKey strategy req e (leaf e.phyId)

variable {l m : LeafState}

/-- Dies of the same rank are ordered by the strategy. -/
theorem strategyKey_le_of_comparedKey_le
    (h : comparedKey strategy req d l ≤ comparedKey strategy req e m)
    (hrank : req.vnpuPriority = .high ∨ oversubscribes req d = oversubscribes req e) :
    strategyKey strategy req.vnpuPriority d l ≤ strategyKey strategy req.vnpuPriority e m := by
  unfold comparedKey at h
  rw [toLex_le_toLex] at h
  rcases hrank with hhigh | hsame
  · simpa [hhigh] using h
  · simpa [hsame] using h

theorem documentedKey_le_of_strategyKey_le
    (h : strategyKey strategy req.vnpuPriority d l ≤ strategyKey strategy req.vnpuPriority e m)
    (hrank : req.hbmQuota ≠ req.hbmLimit ∨ oversubscribes req d = false ∨
      oversubscribes req e = true) :
    documentedKey strategy req d l ≤ documentedKey strategy req e m := by
  unfold documentedKey
  rw [toLex_le_toLex]
  by_cases hneeds : req.hbmQuota = req.hbmLimit <;> cases hd : oversubscribes req d <;>
    cases he : oversubscribes req e <;> simp_all

theorem loadBalanceKey_injective
    (h : loadBalanceKey d l = loadBalanceKey e m) : d.phyId = e.phyId := by
  unfold loadBalanceKey DieKey.mk at h
  exact congrArg (fun k : DieKey => (ofLex (ofLex k).2).2) h

/-- A request of normal priority gets the minimum of the documented order. -/
theorem picksDocumented_of_normal (htree : TreeLeaves leaves) (hauto : req.predicatePhyId < 0)
    (hle : req.hbmQuota ≤ req.hbmLimit) (hnormal : req.vnpuPriority = .normal) :
    PicksDocumented strategy leaves leaf req := by
  rintro d v h e he ⟨w, hfeas⟩
  have hcompared := evaluateShare_comparedKey_le htree hauto h he hfeas
  by_cases hneeds : req.hbmQuota = req.hbmLimit
  · unfold documentedKey
    unfold comparedKey at hcompared
    simpa [hnormal, hneeds] using hcompared
  · -- the vNPU needs oversubscription, which all feasible dies have
    have hlt : req.hbmQuota < req.hbmLimit := UInt64.lt_of_le_of_ne hle hneeds
    have hd := (evaluateShare_ok h).2.1.oversub hlt
    have hsame : oversubscribes req d = oversubscribes req e := hd.trans (hfeas.oversub hlt).symm
    exact documentedKey_le_of_strategyKey_le
      (strategyKey_le_of_comparedKey_le hcompared (.inr hsame)) (.inl hneeds)

/-- For every request without a named card, on every tree: the die that is picked is the minimum
of the documented order if and only if the request has normal priority, needs oversubscription or
is refused, or only dies with oversubscription are feasible, or a feasible die without it has less
load than every feasible die with it. -/
theorem picksDocumented_iff (htree : TreeLeaves leaves) (hauto : req.predicatePhyId < 0)
    (hle : req.hbmQuota ≤ req.hbmLimit) :
    PicksDocumented strategy leaves leaf req ↔
      req.vnpuPriority = .normal ∨ req.hbmQuota < req.hbmLimit ∨ req.hbmQuota = 0 ∨
        (∀ e ∈ leaves, (∃ w, Feasible req e (leaf e.phyId) w) → oversubscribes req e = true) ∨
        ∃ e ∈ leaves, (∃ w, Feasible req e (leaf e.phyId) w) ∧ oversubscribes req e = false ∧
          ∀ e' ∈ leaves, (∃ w, Feasible req e' (leaf e'.phyId) w) → oversubscribes req e' = true →
            loadBalanceKey e (leaf e.phyId) < loadBalanceKey e' (leaf e'.phyId) := by
  cases hpriority : req.vnpuPriority with
  | normal =>
    simp only [true_or, iff_true]
    exact picksDocumented_of_normal htree hauto hle hpriority
  | high =>
    have hload : ∀ {d v}, evaluateShare strategy leaves leaf req = .ok (d, v) → ∀ e ∈ leaves,
        (∃ w, Feasible req e (leaf e.phyId) w) →
        strategyKey strategy req.vnpuPriority d (leaf d.phyId) ≤
          strategyKey strategy req.vnpuPriority e (leaf e.phyId) := by
      rintro d v h e he ⟨w, hfeas⟩
      exact strategyKey_le_of_comparedKey_le (evaluateShare_comparedKey_le htree hauto h he hfeas)
        (.inl hpriority)
    have hkey : ∀ d l, strategyKey strategy req.vnpuPriority d l = loadBalanceKey d l := by
      intro d l
      rw [hpriority]
      rfl
    constructor
    · intro h
      by_contra hcon
      push Not at hcon
      obtain ⟨-, hge, hne, ⟨e₁, he₁, hfeas₁, hfree₁⟩, hnone⟩ := hcon
      have hneeds : req.hbmQuota = req.hbmLimit := UInt64.le_antisymm hle (UInt64.not_lt.mp hge)
      have hisOk : ∃ r, evaluateShare strategy leaves leaf req = .ok r := by
        refine (evaluateShare_isOk_iff htree).mpr
          ⟨?_, UInt64.pos_iff_ne_zero.mpr hne, e₁, he₁, hfeas₁⟩
        rw [hpriority]
        exact nofun
      obtain ⟨⟨d, v⟩, hr⟩ := hisOk
      obtain ⟨hd, hfeas, -⟩ := evaluateShare_ok hr
      -- the documented order puts a die without oversubscription first
      have hfree : oversubscribes req d = false := by
        have hmin := h d v hr e₁ he₁ hfeas₁
        unfold documentedKey at hmin
        rw [toLex_le_toLex] at hmin
        cases hover : oversubscribes req d with
        | false => rfl
        | true => simp [hneeds, hover, hfree₁] at hmin
      obtain ⟨e', he', hfeas', hover, hless⟩ := hnone d hd ⟨v, hfeas⟩ hfree
      have hload' := hload hr e' he' hfeas'
      rw [hkey, hkey] at hload'
      have hsame := loadBalanceKey_injective (le_antisymm hload' hless)
      unfold oversubscribes at hfree hover
      rw [hsame, hover] at hfree
      cases hfree
    · rintro (hcon | hlt | hzero | hall | ⟨e₀, he₀, hfeas₀, hfree, hless⟩) d v h e he hfeas
      · cases hcon
      · exact documentedKey_le_of_strategyKey_le (hload h e he hfeas) (.inl (UInt64.ne_of_lt hlt))
      · exact absurd hzero (UInt64.pos_iff_ne_zero.mp (evaluateShare_ok h).2.2.1)
      · exact documentedKey_le_of_strategyKey_le (hload h e he hfeas) (.inr (.inr (hall e he hfeas)))
      · refine documentedKey_le_of_strategyKey_le (hload h e he hfeas) (.inr (.inl ?_))
        by_contra hover
        obtain ⟨hd, hfeasd, -⟩ := evaluateShare_ok h
        have hlt := hless d hd ⟨v, hfeasd⟩ (by simpa using hover)
        have hge := hload h e₀ he₀ hfeas₀
        rw [hkey, hkey] at hge
        exact absurd hlt (not_lt.mpr hge)

end

/-! ### High priority on two dies -/

def secondDie : DieMeta :=
  { firstDie with phyId := 1, dieId := "second", dieId_ne := by decide }

/-- A request of high priority for 1024 MB; only the second card oversubscribes. -/
def highRequest : EvalRequest :=
  { aicoreQuota := 0, hbmQuota := 1024, hbmLimit := 1024, schedPolicy := .bestEffort
    vnpuPriority := .high, predicatePhyId := -1
    ratio := fun phyId => ⟨phyId == 1, fun total => total⟩
    allocatedHbmLimit := fun _ => 0 }

def firstLoaded (phyId : Int) : LeafState :=
  { LeafState.fresh firstDie with vnpuCount := if phyId = 0 then 1 else 0 }

theorem treeLeaves_two : TreeLeaves [firstDie, secondDie] :=
  ⟨by simp [firstDie, secondDie, maxNpuPerNode], by simp [firstDie, secondDie]⟩

theorem eq_of_mem_two (hd : d ∈ [firstDie, secondDie]) : d = firstDie ∨ d = secondDie := by
  simpa using hd

theorem feasible_highRequest {leaf : LeafState} (hvnpu : leaf.getAvailableVnpuId = some 0)
    (haicore : leaf.aicoreQuota = 24) (hhbm : leaf.hbmQuota = 65536)
    (hd : d ∈ [firstDie, secondDie]) : Feasible highRequest d leaf 0 where
  inRange := treeLeaves_two.inRange d hd
  named := fun h => absurd h (by decide)
  oversub := fun h => absurd h (by decide)
  limit := by
    rcases eq_of_mem_two hd with rfl | rfl <;> decide
  limitSum := by
    rcases eq_of_mem_two hd with rfl | rfl <;> decide
  aicore := by
    rw [haicore]
    decide
  hbm := by
    rw [hhbm]
    decide
  vnpu := hvnpu
  policy := .inl rfl

/-- With no vNPU on either card the first one is picked, as documented. -/
theorem picksDocumented_fresh : TreeLeaves [firstDie, secondDie] ∧ highRequest.predicatePhyId < 0 ∧
      highRequest.hbmQuota ≤ highRequest.hbmLimit ∧
      PicksDocumented .compact [firstDie, secondDie] (fun _ => .fresh firstDie) highRequest := by
  refine ⟨treeLeaves_two, by decide, by decide, ?_⟩
  refine (picksDocumented_iff treeLeaves_two (by decide) (by decide)).mpr ?_
  refine .inr (.inr (.inr (.inr ⟨firstDie, mem_cons_self, ?_, rfl, ?_⟩)))
  · exact ⟨0, feasible_highRequest (by decide) rfl rfl mem_cons_self⟩
  · intro e he _ hover
    rcases eq_of_mem_two he with rfl | rfl
    · cases hover
    · decide

/-- The loaded card that does not oversubscribe is passed over for the one that does. -/
theorem picksDocumented_fails_high :
    ¬ ∀ (strategy : ShareStrategy) (leaves : List DieMeta) (leaf : Int → LeafState)
        (req : EvalRequest), TreeLeaves leaves → req.predicatePhyId < 0 →
      req.hbmQuota ≤ req.hbmLimit → PicksDocumented strategy leaves leaf req := by
  intro h
  have hpick : evaluateShare .compact [firstDie, secondDie] firstLoaded highRequest =
      .ok (secondDie, 0) := by
    rfl
  have hmin := h .compact [firstDie, secondDie] firstLoaded highRequest treeLeaves_two (by decide)
    (by decide) secondDie 0 hpick firstDie mem_cons_self
    ⟨0, feasible_highRequest (by decide) rfl rfl mem_cons_self⟩
  exact absurd hmin (by decide)

end UbsVirt.Enpu
