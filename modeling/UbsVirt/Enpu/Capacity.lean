import Mathlib.Algebra.Order.BigOperators.Group.Finset
import Mathlib.Algebra.BigOperators.Intervals
import Mathlib.Algebra.Group.Action.Defs
import UbsVirt.Enpu.Ledger

/-!
# No die is promised more than it has

The evaluator admits a vNPU by three views of a die: the limits from the shared memory,
the requests from the quotas of the leaf and the policies from the policy list. The
consistency of the stores makes all three views of the same registry entries, so that the
admission checks bound the registry: limits by the oversubscription threshold, requests
and AICore by the die, borrowing only on dies that allow it, and one policy for all
vNPUs of normal priority. Source: `enpu-manager/core/src/evaluator_share.c:112-322`.
-/

namespace UbsVirt.Enpu.Allocator

open Run List

variable {F : Type}

/-- What a die has been promised to its registry entries. -/
structure WithinCapacity (cfg : NodeConfig F) (d : DieMeta) (entries : List Allocation) : Prop where
  limit : (entries.map (·.hbmLimit.toNat)).sum ≤ ((cfg.ratio d.phyId).threshold d.totalMb).toNat
  request : (entries.map (·.hbmQuota.toNat)).sum ≤ d.totalMemory.toNat
  aicore : (entries.map (·.aicoreQuota.toInt)).sum ≤ d.aicore.toInt
  oversub : ∀ a ∈ entries, a.hbmQuota < a.hbmLimit → (cfg.ratio d.phyId).enabled = true
  policy : ∀ a ∈ entries, ∀ b ∈ entries, a.vnpuPriority = .normal → b.vnpuPriority = .normal →
    a.schedPolicy = b.schedPolicy

def Capacity (cfg : NodeConfig F) (s : Allocator F) : Prop :=
  ∀ d ∈ cfg.leaves, WithinCapacity cfg d (s.registry.onDie d.phyId)

/-! ### The limit sum of the shared memory -/

theorem toNat_sum (l : List UInt64) : l.sum.toNat = (l.map (·.toNat)).sum % 2 ^ 64 := by
  induction l with
  | nil => rfl
  | cons a l ih =>
    rw [sum_cons, UInt64.toNat_add, ih, map_cons, sum_cons]
    exact Nat.add_mod_mod _ _ _

/-- A sum over a range that is zero off a duplicate-free list of indices is the sum over
the list. -/
theorem sum_range_eq_sum_map {α : Type*} {n : Nat} {f : Nat → Nat} {l : List α} {id : α → Nat}
    (hnd : (l.map id).Nodup) (hlt : ∀ a ∈ l, id a < n) (hzero : ∀ v, v ∉ l.map id → f v = 0) :
    ((range n).map f).sum = (l.map fun a => f (id a)).sum := by
  have hlist : (l.map fun a => f (id a)) = (l.map id).map f := by rw [map_map]; rfl
  rw [hlist, ← sum_toFinset f hnd, ← sum_toFinset f nodup_range, toFinset_range]
  symm
  apply Finset.sum_subset
  · intro v hv
    obtain ⟨a, ha, rfl⟩ := mem_map.mp (mem_toFinset.mp hv)
    exact Finset.mem_range.mpr (hlt a ha)
  · intro v _ hv
    exact hzero v fun hmem => hv (mem_toFinset.mpr hmem)

theorem totalMb_lt (d : DieMeta) : d.totalMb.toNat < 2 ^ 44 := by
  have hlt := d.totalBytes.toNat_lt
  have hdiv : d.totalMb.toNat = d.totalBytes.toNat / (1024 * 1024) := by
    rw [DieMeta.totalMb, UInt64.toNat_div]
    rfl
  rw [hdiv]
  omega

variable {cfg : NodeConfig F} {s : Allocator F} {d : DieMeta}

def liveLimit (s : Allocator F) (phyId : Int) (v : Nat) : UInt64 :=
  ((s.liveEntry phyId v).map VnpuShmEntry.hbmLimit).getD 0

theorem allocatedHbmLimit_eq (s : Allocator F) (phyId : Int) :
    s.allocatedHbmLimit phyId = ((range maxVnpuPerDie).map (s.liveLimit phyId)).sum := by
  have hfun : ∀ st, s.shm phyId = some st → s.liveLimit phyId =
      fun v => if st.bitmapTest v then (st.entries v).hbmLimit else 0 := by
    intro st hs
    funext v
    unfold liveLimit liveEntry
    rw [hs, Option.bind_some, ShmState.findEntry]
    cases st.bitmapTest v <;> rfl
  unfold allocatedHbmLimit
  cases hs : s.shm phyId with
  | none =>
    have : s.liveLimit phyId = fun _ => 0 := by
      funext v
      simp [liveLimit, liveEntry, hs]
    rw [this]
    simp
  | some st => rw [hfun st hs]

/-- The limits of the vNPUs in the bitmap are those of the registry entries. -/
theorem Consistent.sum_liveLimit (h : Consistent cfg s) (hd : d ∈ cfg.leaves) :
    ((range maxVnpuPerDie).map fun v => (s.liveLimit d.phyId v).toNat).sum =
      ((s.registry.onDie d.phyId).map (·.hbmLimit.toNat)).sum := by
  have hdie := h.die d hd
  rw [sum_range_eq_sum_map hdie.vnpuIds]
  · congr 1
    apply map_congr_left
    intro a ha
    obtain ⟨e, he, hlim⟩ := hdie.limit a ha
    rw [liveLimit, he, Option.map_some, Option.getD_some, hlim]
  · intro a ha
    have := ((hdie.mask a.vnpuId).mp (mem_map_of_mem ha)).1
    unfold maxVnpuPerDie
    omega
  · intro v hv
    cases hl : s.liveEntry d.phyId v with
    | none => simp [liveLimit, hl]
    | some e => exact absurd (hdie.live v e hl) hv

section

variable (h : Consistent cfg s) (hd : d ∈ cfg.leaves)
  (hlimit : ∀ a ∈ s.registry.onDie d.phyId, a.hbmLimit ≤ d.totalMb)
include h hd hlimit

/-- Limits within the die leave room: the sum of at most 64 of them is far from 64 bits. -/
theorem Consistent.sum_limit_le :
    ((s.registry.onDie d.phyId).map (·.hbmLimit.toNat)).sum ≤ 64 * 2 ^ 44 := by
  have hle : ∀ x ∈ (s.registry.onDie d.phyId).map (·.hbmLimit.toNat), x ≤ 2 ^ 44 := by
    intro x hx
    obtain ⟨a, ha, rfl⟩ := mem_map.mp hx
    have := UInt64.le_iff_toNat_le.mp (hlimit a ha)
    have := totalMb_lt d
    omega
  have hcard := sum_le_card_nsmul _ _ hle
  have hlen := (h.die d hd).length_le
  rw [length_map, smul_eq_mul] at hcard
  exact hcard.trans (Nat.mul_le_mul_right _ hlen)

theorem Consistent.allocatedHbmLimit_toNat : (s.allocatedHbmLimit d.phyId).toNat =
      ((s.registry.onDie d.phyId).map (·.hbmLimit.toNat)).sum := by
  have hbound := h.sum_limit_le hd hlimit
  rw [allocatedHbmLimit_eq, toNat_sum, map_map]
  refine (congrArg (· % 2 ^ 64) (h.sum_liveLimit hd)).trans ?_
  exact Nat.mod_eq_of_lt (by omega)

end

/-! ### Runs -/

/-- Every die is within its capacity, and every limit within its die. -/
structure Sound (cfg : NodeConfig F) (s : Allocator F) : Prop where
  consistent : Consistent cfg s
  capacity : Capacity cfg s
  limit : ∀ d ∈ cfg.leaves, ∀ a ∈ s.registry.onDie d.phyId, a.hbmLimit ≤ d.totalMb

theorem sound_init (cfg : NodeConfig F) (pool : Tlsf.Pool) (files : F → Option String) :
    Sound cfg (init cfg .empty pool files) where
  consistent := consistent_init cfg pool files
  capacity d _ :=
    { limit := Nat.zero_le _
      request := Nat.zero_le _
      aicore := Int32.le_iff_toInt_le.mp d.aicore_nonneg
      oversub := fun _ h => by cases h
      policy := fun _ h => by cases h }
  limit _ _ _ h := by cases h

/-- Fewer entries stay within the capacity. -/
theorem WithinCapacity.sublist {entries entries' : List Allocation}
    (h : WithinCapacity cfg d entries) (hnonneg : ∀ a ∈ entries, 0 ≤ a.aicoreQuota.toInt)
    (hsub : entries'.Sublist entries) : WithinCapacity cfg d entries' where
  limit := ((hsub.map _).sum_le_sum fun _ _ => Nat.zero_le _).trans h.limit
  request := ((hsub.map _).sum_le_sum fun _ _ => Nat.zero_le _).trans h.request
  aicore := by
    refine ((hsub.map _).sum_le_sum fun x hx => ?_).trans h.aicore
    obtain ⟨a, ha, rfl⟩ := mem_map.mp hx
    exact hnonneg a ha
  oversub a ha := h.oversub a (hsub.subset ha)
  policy a ha b hb := h.policy a (hsub.subset ha) b (hsub.subset hb)

/-- A vNPU that passed the checks of the evaluator keeps its die within the capacity. -/
theorem WithinCapacity.concat {a : Allocation} (h : Sound cfg s) (hsel : Selection cfg s a d) :
    WithinCapacity cfg d (s.registry.onDie d.phyId ++ [a]) := by
  have hdie : DieConsistent d _ _ (s.registry.onDie d.phyId) := h.consistent.die d hsel.mem
  have hcap := h.capacity d hsel.mem
  constructor
  case limit =>
    have hsum := h.consistent.allocatedHbmLimit_toNat hsel.mem (h.limit d hsel.mem)
    have hbound := h.consistent.sum_limit_le hsel.mem (h.limit d hsel.mem)
    have hlim := UInt64.le_iff_toNat_le.mp hsel.limit_le
    have hmb := totalMb_lt d
    have hle := UInt64.le_iff_toNat_le.mp hsel.limitSum_le
    rw [toNat_add_of_lt (by omega), hsum] at hle
    rwa [map_append, sum_append, map_singleton, sum_singleton]
  case request =>
    have hhbm := hdie.hbm
    have hle := UInt64.le_iff_toNat_le.mp hsel.hbm_le
    rw [map_append, sum_append, map_singleton, sum_singleton]
    omega
  case aicore =>
    have haicore := hdie.aicore
    have hle := Int32.le_iff_toInt_le.mp hsel.aicore_le
    rw [map_append, sum_append, map_singleton, sum_singleton]
    omega
  case oversub =>
    intro b hb
    rcases mem_append.mp hb with hb | hb
    · exact hcap.oversub b hb
    · rw [mem_singleton] at hb
      subst hb
      exact hsel.oversub
  case policy =>
    -- the policy list of the leaf holds the policies of the entries
    have hnew : a.vnpuPriority = .normal → ∀ b ∈ s.registry.onDie d.phyId,
        b.vnpuPriority = .normal → b.schedPolicy = a.schedPolicy := by
      intro hna b hb hnb
      have hvalid : (s.leaf d.phyId).validatePolicy a.schedPolicy = true :=
        hsel.policy.resolve_left (by rw [hna]; decide)
      have hmem : b.policy ∈ (s.leaf d.phyId).policyEntries :=
        hdie.policy.mem_iff.mpr (mem_map_of_mem hb)
      have := all_eq_true.mp hvalid _ hmem
      simpa [Allocation.policy, hnb] using this
    intro b hb c hc hnb hnc
    rcases mem_append.mp hb with hb' | hb' <;> rcases mem_append.mp hc with hc' | hc'
    · exact hcap.policy b hb' c hc' hnb hnc
    · rw [mem_singleton] at hc'
      subst hc'
      exact hnew hnc b hb' hnb
    · rw [mem_singleton] at hb'
      subst hb'
      exact (hnew hnb c hc' hnc).symm
    · rw [mem_singleton] at hb' hc'
      rw [hb', hc']

/-- A granted request keeps the capacities sound. -/
theorem Sound.of_granted {s' : Allocator F} {a : Allocation} (h : Sound cfg s)
    (hsel : Selection cfg s a d) (hg : Granted cfg s a d s') : Sound cfg s' := by
  have hon : ∀ d' ∈ cfg.leaves, s'.registry.onDie d'.phyId =
      if d'.phyId = d.phyId then s.registry.onDie d.phyId ++ [a] else s.registry.onDie d'.phyId := by
    intro d' _
    simp only [Registry.onDie, hg.registry, filter_append]
    by_cases hp : d'.phyId = d.phyId
    · simp [hp, hsel.phyId]
    · have : ¬ d.phyId = d'.phyId := fun h => hp h.symm
      simp [hp, hsel.phyId, this]
  refine ⟨h.consistent.of_granted hsel hg, fun d' hd' => ?_, fun d' hd' b hb => ?_⟩
  · rw [hon d' hd']
    split
    · next hp =>
      obtain rfl := cfg.die_unique hd' hsel.mem hp
      exact WithinCapacity.concat h hsel
    · exact h.capacity d' hd'
  · rw [hon d' hd'] at hb
    split at hb
    · next hp =>
      obtain rfl := cfg.die_unique hd' hsel.mem hp
      rcases mem_append.mp hb with hb | hb
      · exact h.limit d' hd' b hb
      · rw [mem_singleton] at hb
        subst hb
        exact hsel.limit_le
    · exact h.limit d' hd' b hb

/-- A state whose registry entries are some of the old ones. -/
theorem Sound.of_sublist {s' : Allocator F} (h : Sound cfg s) (hc : Consistent cfg s')
    (hsub : s'.registry.entries.Sublist s.registry.entries) : Sound cfg s' :=
  ⟨hc, fun d hd => (h.capacity d hd).sublist (h.consistent.die d hd).aicore_nonneg (hsub.filter _),
    fun d hd a ha => h.limit d hd a ((hsub.filter _).subset ha)⟩

theorem Sound.of_released {s' : Allocator F} {a : Allocation} (h : Sound cfg s)
    (hget : s.registry.get a.podUid a.containerName = some a) (hrel : Released cfg s a s') :
    Sound cfg s' := by
  refine h.of_sublist (h.consistent.of_released hget hrel) ?_
  rw [hrel.registry]
  exact eraseP_sublist

variable [DecidableEq F]

/-- An allocation succeeds, or fails and leaves the registry as it was. -/
def Clean (cfg : NodeConfig F) (s : Allocator F) : Call → Prop
  | .allocate req ch => (s.allocate cfg req ch).1.result = .success ∨
      (s.allocate cfg req ch).2.registry.entries = s.registry.entries
  | .release _ _ _ => True
  | .releaseByVnpu _ _ _ => True

theorem Sound.step (h : Sound cfg s) (c : Call) (hc : Clean cfg s c) : Sound cfg (s.step cfg c) := by
  refine step_keeps h (fun _ _ => h.of_released) c ?_
  rintro req ch rfl
  rcases h.consistent.allocate_outcome req ch with ⟨-, -, hreg, hcons⟩ |
    ⟨-, -, hfail, a, d, -, -, hreg⟩ | ⟨-, -, -, a, d, hsel, hgrant⟩
  · exact h.of_sublist hcons (by rw [hreg])
  · -- the failure that leaves its entry is not a clean one
    rcases hc with hok | hsame
    · exact absurd hok hfail
    · rw [hsame] at hreg
      have := congrArg length hreg
      simp at this
  · exact h.of_granted hsel hgrant

/-- From an empty node, every state of a run whose allocations all succeed or fail cleanly
is within the capacity of every die. -/
theorem capacity_throughout (cfg : NodeConfig F) (pool : Tlsf.Pool) (files : F → Option String)
    (run : List Call) (hclean : EachStep (step cfg) (Clean cfg) (init cfg .empty pool files) run) :
    Throughout (step cfg) (Capacity cfg) (init cfg .empty pool files) run :=
  (throughout_of_step (sound_init cfg pool files) (fun _ c h hc => h.step c hc) hclean).mono
    fun _ h => h.capacity

/-- A grant, a failed write of a configuration file and a release. -/
def grantFailRelease : List Call :=
  [.allocate halfDie { saveFails with save := .success },
    .allocate { halfDie with podUid := "pod2" } { saveFails with configWrite := .openFailed },
    .release "pod" "main" { unlink := true, save := .success }]

theorem capacity_grantFailRelease :
    Throughout (step oneDie) (Capacity oneDie) (init oneDie .empty (Tlsf.init 0) fun _ => none)
      grantFailRelease :=
  capacity_throughout oneDie (Tlsf.init 0) (fun _ => none) grantFailRelease
    ⟨.inl (by decide +kernel), .inr (by decide +kernel), trivial, trivial⟩

end UbsVirt.Enpu.Allocator
