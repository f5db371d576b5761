import Mathlib.Data.String.Basic
import UbsVirt.Udm.Selector

/-!
# What the affinity policies choose

One tier function, one limit and one sort serve the three policies (`affinity_policy.py:31-67`).
The documented rules (`docs/design.md:150-158`) are stated here for each policy by itself: which
NPUs may be chosen, and which of two NPUs comes first. A list follows them if it is in that order
and nothing that was left out comes before something chosen.
-/

namespace UbsVirt.Udm

open List

section

variable {δ : Type*} (idOf : δ → String) (policy : NpuAffinityPolicy) (memoryNodes : List Int)
  (topology : HostTopology)

def OnNodes (device : δ) : Prop :=
  ∃ node, topology.npuToNuma (idOf device) = some node ∧ node ∈ memoryNodes

/-- The NPU is on a socket that is known to have one of the memory nodes. -/
def OnSockets (device : δ) : Prop :=
  ∃ node socket, topology.npuToNuma (idOf device) = some node ∧
    topology.numaToSocket node = some (some socket) ∧
    ∃ memoryNode ∈ memoryNodes, topology.numaToSocket memoryNode = some (some socket)

def MayChoose (device : δ) : Prop :=
  match policy with
  | .required => OnNodes idOf memoryNodes topology device
  | .socket => OnSockets idOf memoryNodes topology device
  | .preferred => True

/-- The first NPU is chosen before the second: by id, and where sockets are preferred, first those
on the sockets of the memory. -/
def ComesFirst (a b : δ) : Prop :=
  match policy with
  | .required => idOf a < idOf b
  | .socket => idOf a < idOf b
  | .preferred =>
    (OnSockets idOf memoryNodes topology a ∧ ¬ OnSockets idOf memoryNodes topology b) ∨
      ((OnSockets idOf memoryNodes topology a ↔ OnSockets idOf memoryNodes topology b) ∧
        idOf a < idOf b)

/-- The first `count` of the candidates that may be chosen. -/
structure Selected (candidates : List δ) (count : Nat) (selected : List δ) : Prop where
  length : selected.length = count
  may : ∀ device ∈ selected, device ∈ candidates ∧ MayChoose idOf policy memoryNodes topology device
  ordered : selected.Pairwise (ComesFirst idOf policy memoryNodes topology)
  first : ∀ device ∈ candidates, MayChoose idOf policy memoryNodes topology device →
    device ∉ selected → ∀ chosen ∈ selected,
      ComesFirst idOf policy memoryNodes topology chosen device

end

/-! ### Tiers -/

section

variable {δ : Type*} {idOf : δ → String} {policy : NpuAffinityPolicy} {memoryNodes : List Int}
  {topology : HostTopology} {device a b : δ}

def knownSockets (memoryNodes : List Int) (topology : HostTopology) : List Int :=
  (memoryNodes.filterMap topology.numaToSocket).filterMap id

theorem mem_knownSockets {socket : Int} : socket ∈ knownSockets memoryNodes topology ↔
    ∃ node ∈ memoryNodes, topology.numaToSocket node = some (some socket) := by
  simp only [knownSockets, mem_filterMap, id_eq]
  constructor
  · rintro ⟨known, ⟨node, hnode, hknown⟩, rfl⟩
    exact ⟨node, hnode, hknown⟩
  · rintro ⟨node, hnode, hknown⟩
    exact ⟨some socket, ⟨node, hnode, hknown⟩, rfl⟩

variable (idOf policy memoryNodes topology) in
def tierOf (device : δ) : Nat :=
  tier idOf policy memoryNodes (knownSockets memoryNodes topology) topology device

theorem tierOf_required :
    tierOf idOf .required memoryNodes topology device = 0 ↔ OnNodes idOf memoryNodes topology device := by
  unfold tierOf tier OnNodes
  rw [if_pos rfl]
  simp only [Option.mem_def]
  split
  · next h => exact iff_of_true rfl h
  · next h => exact iff_of_false Nat.one_ne_zero h

theorem tierOf_sockets (hpolicy : policy ≠ .required) :
    tierOf idOf policy memoryNodes topology device = 0 ↔
      OnSockets idOf memoryNodes topology device := by
  have hon : OnSockets idOf memoryNodes topology device ↔
      ∃ n ∈ topology.npuToNuma (idOf device), ∃ known ∈ topology.numaToSocket n,
        ∃ socket ∈ known, socket ∈ knownSockets memoryNodes topology := by
    simp only [OnSockets, mem_knownSockets, Option.mem_def]
    constructor
    · rintro ⟨node, socket, hnode, hsocket, hmem⟩
      exact ⟨node, hnode, some socket, hsocket, socket, rfl, hmem⟩
    · rintro ⟨node, hnode, _, hsocket, socket, rfl, hmem⟩
      exact ⟨node, socket, hnode, hsocket, hmem⟩
  unfold tierOf tier
  rw [hon, if_neg hpolicy]
  split
  · next h => exact iff_of_true rfl h
  · next h => exact iff_of_false Nat.one_ne_zero h

theorem tierOf_le : tierOf idOf policy memoryNodes topology device ≤ 1 := by
  unfold tierOf tier
  dsimp only
  repeat' split
  all_goals decide

def limitOf (policy : NpuAffinityPolicy) : Nat :=
  if policy = .preferred then 1 else 0

theorem mayChoose_iff : MayChoose idOf policy memoryNodes topology device ↔
    tierOf idOf policy memoryNodes topology device ≤ limitOf policy := by
  cases policy with
  | required => exact tierOf_required.symm.trans Nat.le_zero.symm
  | socket => exact (tierOf_sockets (by decide)).symm.trans Nat.le_zero.symm
  | preferred => exact iff_of_true trivial tierOf_le

instance : DecidablePred (MayChoose idOf policy memoryNodes topology) :=
  fun _ => decidable_of_iff _ mayChoose_iff.symm

/-- Among NPUs that may be chosen, the rule goes by tier and then by id. -/
theorem comesFirst_iff (ha : MayChoose idOf policy memoryNodes topology a)
    (hb : MayChoose idOf policy memoryNodes topology b) :
    ComesFirst idOf policy memoryNodes topology a b ↔
      tierOf idOf policy memoryNodes topology a < tierOf idOf policy memoryNodes topology b ∨
        (tierOf idOf policy memoryNodes topology a = tierOf idOf policy memoryNodes topology b ∧
          idOf a < idOf b) := by
  have hboth (hlimit : limitOf policy = 0) : tierOf idOf policy memoryNodes topology a = 0 ∧
        tierOf idOf policy memoryNodes topology b = 0 :=
    ⟨Nat.le_zero.mp (hlimit ▸ mayChoose_iff.mp ha), Nat.le_zero.mp (hlimit ▸ mayChoose_iff.mp hb)⟩
  cases policy with
  | required | socket =>
    obtain ⟨hta, htb⟩ := hboth rfl
    simp [ComesFirst, hta, htb]
  | preferred =>
    have hon : ∀ c : δ, OnSockets idOf memoryNodes topology c ↔
        tierOf idOf .preferred memoryNodes topology c = 0 :=
      fun _ => (tierOf_sockets (by decide)).symm
    have hle : ∀ c : δ, tierOf idOf .preferred memoryNodes topology c ≤ 1 := fun _ => tierOf_le
    have hlea := hle a
    have hleb := hle b
    have hlt : (OnSockets idOf memoryNodes topology a ∧ ¬ OnSockets idOf memoryNodes topology b) ↔
        tierOf idOf .preferred memoryNodes topology a <
          tierOf idOf .preferred memoryNodes topology b := by
      rw [hon, hon]
      omega
    have heq : (OnSockets idOf memoryNodes topology a ↔ OnSockets idOf memoryNodes topology b) ↔
        tierOf idOf .preferred memoryNodes topology a =
          tierOf idOf .preferred memoryNodes topology b := by
      rw [hon, hon]
      omega
    unfold ComesFirst
    rw [hlt, heq]

/-! ### The sort -/

variable {candidates : List δ}

theorem rankLe_trans (a b c : Nat × δ) (hab : rankLe idOf a b = true) (hbc : rankLe idOf b c = true) :
    rankLe idOf a c = true := by
  simp only [rankLe, decide_eq_true_eq] at hab hbc ⊢
  rcases hab with hlt | ⟨heq, hle⟩
  · rcases hbc with hlt' | ⟨heq', -⟩
    · exact .inl (hlt.trans hlt')
    · exact .inl (heq' ▸ hlt)
  · rcases hbc with hlt' | ⟨heq', hle'⟩
    · exact .inl (heq ▸ hlt')
    · exact .inr ⟨heq.trans heq', hle.trans hle'⟩

theorem rankLe_total (a b : Nat × δ) : (rankLe idOf a b || rankLe idOf b a) = true := by
  simp only [rankLe, Bool.or_eq_true, decide_eq_true_eq]
  rcases Nat.lt_trichotomy a.1 b.1 with hlt | heq | hlt
  · exact .inl (.inl hlt)
  · rcases le_total (idOf a.2) (idOf b.2) with hle | hle
    · exact .inl (.inr ⟨heq, hle⟩)
    · exact .inr (.inr ⟨heq.symm, hle⟩)
  · exact .inr (.inl hlt)

/-- The decorated candidates within the limit. -/
theorem filter_tiers : ((candidates.map fun device =>
      (tierOf idOf policy memoryNodes topology device, device)).filter (·.1 ≤ limitOf policy)) =
    (candidates.filter (MayChoose idOf policy memoryNodes topology)).map fun device =>
      (tierOf idOf policy memoryNodes topology device, device) := by
  rw [filter_map]
  congr 1
  refine filter_congr fun device _ => ?_
  exact decide_eq_decide.mpr mayChoose_iff.symm

theorem ranked_eq : ranked idOf candidates policy memoryNodes topology =
    (((candidates.filter (MayChoose idOf policy memoryNodes topology)).map fun device =>
      (tierOf idOf policy memoryNodes topology device, device)).mergeSort (rankLe idOf)).map
        Prod.snd := by
  rw [← filter_tiers]
  rfl

theorem ranked_perm : (ranked idOf candidates policy memoryNodes topology).Perm
    (candidates.filter (MayChoose idOf policy memoryNodes topology)) := by
  rw [ranked_eq]
  refine ((mergeSort_perm _ _).map _).trans ?_
  rw [map_map]
  exact .of_eq (map_id'' (fun _ => rfl) _)

theorem mem_ranked {device : δ} : device ∈ ranked idOf candidates policy memoryNodes topology ↔
    device ∈ candidates ∧ MayChoose idOf policy memoryNodes topology device := by
  rw [ranked_perm.mem_iff, mem_filter, decide_eq_true_eq]

/-- The candidates are in the order of the rules. -/
theorem pairwise_ranked (hids : (candidates.map idOf).Nodup) :
    (ranked idOf candidates policy memoryNodes topology).Pairwise
      (ComesFirst idOf policy memoryNodes topology) := by
  have hdistinct : (ranked idOf candidates policy memoryNodes topology).Pairwise
      fun a b => idOf a ≠ idOf b := by
    rw [← pairwise_map]
    exact (ranked_perm.map idOf).nodup_iff.mpr (hids.sublist (filter_sublist.map _))
  have hsorted : (ranked idOf candidates policy memoryNodes topology).Pairwise fun a b =>
      rankLe idOf (tierOf idOf policy memoryNodes topology a, a)
        (tierOf idOf policy memoryNodes topology b, b) = true := by
    rw [ranked_eq, pairwise_map]
    refine (pairwise_mergeSort rankLe_trans rankLe_total _).imp_of_mem ?_
    intro x y hx hy hle
    obtain ⟨a, -, rfl⟩ := mem_map.mp ((mergeSort_perm _ _).mem_iff.mp hx)
    obtain ⟨b, -, rfl⟩ := mem_map.mp ((mergeSort_perm _ _).mem_iff.mp hy)
    exact hle
  refine (hsorted.and hdistinct).imp_of_mem ?_
  rintro a b ha hb ⟨hle, hne⟩
  rw [comesFirst_iff (mem_ranked.mp ha).2 (mem_ranked.mp hb).2]
  simp only [rankLe, decide_eq_true_eq] at hle
  exact hle.imp_right fun h => ⟨h.1, lt_of_le_of_ne h.2 hne⟩

/-! ### The selection -/

variable {count : Nat}

/-- The first ones of the ranking are what the rules ask for. -/
theorem selected_take (hids : (candidates.map idOf).Nodup)
    (hcount : count ≤ (ranked idOf candidates policy memoryNodes topology).length) :
    Selected idOf policy memoryNodes topology candidates count
      ((ranked idOf candidates policy memoryNodes topology).take count) := by
  have hordered : (ranked idOf candidates policy memoryNodes topology).Pairwise
      (ComesFirst idOf policy memoryNodes topology) := pairwise_ranked hids
  refine ⟨length_take_of_le hcount, ?_, hordered.sublist (take_sublist ..), ?_⟩
  · exact fun device hdevice => mem_ranked.mp (mem_of_mem_take hdevice)
  · intro device hdevice hmay hleft chosen hchosen
    have hmem := mem_ranked.mpr ⟨hdevice, hmay⟩
    have hsplit := take_append_drop count (ranked idOf candidates policy memoryNodes topology)
    rw [← hsplit] at hmem hordered
    exact (pairwise_append.mp hordered).2.2 chosen hchosen device
      ((mem_append.mp hmem).resolve_left hleft)

/-- With known memory nodes only an unknown socket fails the ranking. -/
theorem filterAndRank_eq (hnodes : memoryNodes ≠ [])
    (hknown : ∀ node ∈ memoryNodes, topology.numaToSocket node ≠ none) :
    filterAndRank idOf candidates policy memoryNodes topology =
      if policy = .socket ∧ ∃ node ∈ memoryNodes, topology.numaToSocket node = some none then
        .error (.valueError "socket topology is unknown for a memory NUMA node")
      else .ok (ranked idOf candidates policy memoryNodes topology) := by
  unfold filterAndRank
  rw [if_neg]
  · simp only [mem_filterMap]
    rfl
  · rintro (hnil | ⟨node, hnode, hnone⟩)
    · exact hnodes hnil
    · exact hknown node hnode hnone

variable (count) in
theorem select_of_ranked {devices : List δ}
    (h : filterAndRank idOf candidates policy memoryNodes topology = .ok devices) :
    ∃ e, select idOf candidates (some count) policy memoryNodes topology =
      if devices.length < count then .error e else .ok (devices.take count) := by
  unfold select
  rw [h]
  exact ⟨_, rfl⟩

end

/-- The selector follows the rules of every policy. It fails exactly when too few candidates may
be chosen or, where the sockets decide, the socket of a memory node is unknown. -/
theorem select_follows_rules {δ : Type*} (idOf : δ → String) (candidates : List δ) (count : Nat)
    (policy : NpuAffinityPolicy) (memoryNodes : List Int) (topology : HostTopology)
    (hids : (candidates.map idOf).Nodup) (hnodes : memoryNodes ≠ [])
    (hknown : ∀ node ∈ memoryNodes, topology.numaToSocket node ≠ none) :
    (∀ selected, select idOf candidates (some count) policy memoryNodes topology = .ok selected →
      Selected idOf policy memoryNodes topology candidates count selected) ∧
    ((∃ e, select idOf candidates (some count) policy memoryNodes topology = .error e) ↔
      (candidates.filter (MayChoose idOf policy memoryNodes topology)).length < count ∨
        (policy = .socket ∧ ∃ node ∈ memoryNodes, topology.numaToSocket node = some none)) := by
  have hlen : (ranked idOf candidates policy memoryNodes topology).length =
      (candidates.filter (MayChoose idOf policy memoryNodes topology)).length :=
    ranked_perm.length_eq
  rw [← hlen]
  have hrank : filterAndRank idOf candidates policy memoryNodes topology = _ :=
    filterAndRank_eq hnodes hknown
  by_cases hsocket : policy = .socket ∧ ∃ node ∈ memoryNodes, topology.numaToSocket node = some none
  · rw [if_pos hsocket] at hrank
    unfold select
    rw [hrank]
    refine ⟨?_, iff_of_true ⟨_, rfl⟩ (.inr hsocket)⟩
    rintro selected ⟨⟩
  rw [if_neg hsocket] at hrank
  obtain ⟨e, hselect⟩ := select_of_ranked count hrank
  rw [hselect]
  split
  · next hfew =>
    refine ⟨?_, iff_of_true ⟨_, rfl⟩ (.inl hfew)⟩
    rintro selected ⟨⟩
  · next henough =>
    refine ⟨?_, iff_of_false ?_ (not_or.mpr ⟨henough, hsocket⟩)⟩
    · rintro selected ⟨⟩
      exact selected_take hids (Nat.not_lt.mp henough)
    · rintro ⟨e, ⟨⟩⟩

/-- Two NPUs on the nodes 0 and 1, which are on different sockets. -/
def twoSockets : HostTopology where
  npuToNuma id := if id = "0-1" then some 0 else if id = "0-2" then some 1 else none
  numaToSocket node := if node = 0 then some (some 0) else if node = 1 then some (some 1) else none

theorem select_follows_rules_twoSockets :
    ∃ selected, select id ["0-2", "0-1"] (some 1) .socket [0] twoSockets = .ok selected ∧
      Selected id .socket [0] twoSockets ["0-2", "0-1"] 1 selected := by
  have hrules := select_follows_rules id ["0-2", "0-1"] 1 .socket [0] twoSockets (by decide)
    (by decide) (by decide)
  cases hselect : select id ["0-2", "0-1"] (some 1) .socket [0] twoSockets with
  | error e => exact absurd (hrules.2.mp ⟨e, hselect⟩) (by decide +kernel)
  | ok selected => exact ⟨selected, rfl, hrules.1 selected hselect⟩

/-- Without memory nodes the selection fails, even if every NPU may be chosen and none is
wanted. -/
theorem select_fails_without_nodes :
    ¬ ∀ (candidates : List String) (count : Nat) (policy : NpuAffinityPolicy)
      (memoryNodes : List Int) (topology : HostTopology), (candidates.map id).Nodup →
      (∀ node ∈ memoryNodes, topology.numaToSocket node ≠ none) →
      ((∃ e, select id candidates (some count) policy memoryNodes topology = .error e) ↔
        (candidates.filter (MayChoose id policy memoryNodes topology)).length < count ∨
          (policy = .socket ∧ ∃ node ∈ memoryNodes, topology.numaToSocket node = some none)) := by
  intro h
  have hfails := (h [] 0 .preferred [] twoSockets nodup_nil (by simp)).mp ⟨_, rfl⟩
  simp at hfails

end UbsVirt.Udm
