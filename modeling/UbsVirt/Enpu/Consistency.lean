import Mathlib.Algebra.Order.BigOperators.Group.List
import UbsVirt.Enpu.Calls

/-!
# The four stores agree

A granted vNPU is recorded in the tree, in the shared memory and in the registry. A die is
consistent when what the tree and the shared memory say of it is what follows from its
registry entries (`DieConsistent`); the order of the entries does not matter. Granting and
releasing one vNPU keep it (`DieConsistent.reserve`, `DieConsistent.unreserve`), and so
does every call whose checkpoint, once it is reached, can be saved
(`Consistent.step`). Source: `enpu-manager/core/src/npu_allocator.c`, `npu_tree.c`.
-/

namespace UbsVirt.Enpu

open List LeafState

def Allocation.policy (a : Allocation) : PolicyEntry :=
  { vnpuId := a.vnpuId, schedPolicy := a.schedPolicy, vnpuPriority := a.vnpuPriority }

def Registry.onDie (r : Registry) (phyId : Int) : List Allocation :=
  r.entries.filter (·.phyId == phyId)

/-- The leaf and the live shared-memory entries of a die are what its registry entries say. -/
structure DieConsistent (d : DieMeta) (l : LeafState) (live : Nat → Option VnpuShmEntry)
    (entries : List Allocation) : Prop where
  vnpuIds : (entries.map (·.vnpuId)).Nodup
  mask : ∀ v, v ∈ entries.map (·.vnpuId) ↔ v < 64 ∧ l.isFree v = false
  aicore_nonneg : ∀ a ∈ entries, 0 ≤ a.aicoreQuota.toInt
  aicore : l.aicoreQuota.toInt + (entries.map (·.aicoreQuota.toInt)).sum = d.aicore.toInt
  hbm : l.hbmQuota.toNat + (entries.map (·.hbmQuota.toNat)).sum = d.totalMemory.toNat
  policy : l.policyEntries.Perm (entries.map (·.policy))
  limit : ∀ a ∈ entries, ∃ e, live a.vnpuId = some e ∧ e.hbmLimit = a.hbmLimit
  live : ∀ v e, live v = some e → v ∈ entries.map (·.vnpuId)

/-! ### Machine arithmetic -/

theorem toInt_add_of_range {a b : Int32} (h : -2 ^ 31 ≤ a.toInt + b.toInt)
    (h' : a.toInt + b.toInt < 2 ^ 31) : (a + b).toInt = a.toInt + b.toInt := by
  rw [Int32.toInt_add]
  exact Int.bmod_eq_of_le (by omega) (by omega)

theorem toInt_neg_of_nonneg {a : Int32} (h : 0 ≤ a.toInt) : (-a).toInt = -a.toInt := by
  have := a.toInt_lt
  rw [Int32.toInt_neg]
  exact Int.bmod_eq_of_le (by omega) (by omega)

theorem toNat_add_of_lt {a b : UInt64} (h : a.toNat + b.toNat < 2 ^ 64) :
    (a + b).toNat = a.toNat + b.toNat := by
  rw [UInt64.toNat_add, Nat.mod_eq_of_lt h]

/-- The first element a search finds is the one an erasure removes. -/
theorem perm_cons_eraseP {α : Type*} {p : α → Bool} {l : List α} {a : α}
    (h : l.find? p = some a) : l.Perm (a :: l.eraseP p) := by
  obtain ⟨hp, as, bs, rfl, has⟩ := find?_eq_some_iff_append.mp h
  have has' : ∀ b ∈ as, ¬ p b = true := fun b hb => by simpa using has b hb
  rw [eraseP_append_right _ has', eraseP_cons_of_pos hp]
  exact perm_middle

namespace DieConsistent

variable {d : DieMeta} {l : LeafState} {live : Nat → Option VnpuShmEntry}
  {entries entries' : List Allocation} {a : Allocation}

theorem perm (h : DieConsistent d l live entries) (hp : entries.Perm entries') :
    DieConsistent d l live entries' where
  vnpuIds := (hp.map _).nodup_iff.mp h.vnpuIds
  mask v := by rw [← (hp.map (·.vnpuId)).mem_iff]; exact h.mask v
  aicore_nonneg a ha := h.aicore_nonneg a (hp.mem_iff.mpr ha)
  aicore := by rw [← (hp.map _).sum_eq]; exact h.aicore
  hbm := by rw [← (hp.map _).sum_eq]; exact h.hbm
  policy := h.policy.trans (hp.map _)
  limit a ha := h.limit a (hp.mem_iff.mpr ha)
  live v e hv := (hp.map _).mem_iff.mp (h.live v e hv)

variable {live' : Nat → Option VnpuShmEntry}

section

variable (h : DieConsistent d l live entries)
include h

/-- Only the quotas, the mask and the policies of the leaf matter. -/
theorem congr {l' : LeafState} (hl : ∃ b, l' = { l with policyReady := b })
    (hlive : ∀ v, live' v = live v) : DieConsistent d l' live' entries := by
  obtain ⟨b, rfl⟩ := hl
  obtain rfl : live' = live := funext hlive
  exact ⟨h.vnpuIds, h.mask, h.aicore_nonneg, h.aicore, h.hbm, h.policy, h.limit, h.live⟩

theorem policyIds_perm : l.policyIds.Perm (entries.map (·.vnpuId)) := by
  have := h.policy.map (·.vnpuId)
  rwa [map_map] at this

theorem notMem_of_isFree {v : Nat} (hv : l.isFree v = true) : v ∉ entries.map (·.vnpuId) := by
  intro hmem
  have := ((h.mask v).mp hmem).2
  rw [hv] at this
  cases this

theorem live_eq_none {v : Nat} (hv : l.isFree v = true) : live v = none := by
  cases hl : live v with
  | none => rfl
  | some e => exact absurd (h.live v e hl) (h.notMem_of_isFree hv)

/-- There is at most one entry for each of the 64 ids of the mask. -/
theorem length_le : entries.length ≤ 64 := by
  have hsub : entries.map (·.vnpuId) ⊆ range 64 := fun v hv =>
    mem_range.mpr ((h.mask v).mp hv).1
  have hlen := (h.vnpuIds.subperm hsub).length_le
  simpa using hlen

/-- Granting a vNPU that fits keeps the die consistent. -/
theorem reserve (hfree : l.isFree a.vnpuId = true)
    (hnonneg : 0 ≤ a.aicoreQuota.toInt) (haicore : a.aicoreQuota.toInt ≤ l.aicoreQuota.toInt)
    (hhbm : a.hbmQuota ≤ l.hbmQuota) {e : VnpuShmEntry} (he : e.hbmLimit = a.hbmLimit)
    (hlive : ∀ v, live' v = if v = a.vnpuId then some e else live v) :
    DieConsistent d (l.reserve a.vnpuId a.schedPolicy a.vnpuPriority (-a.aicoreQuota)
      (-a.hbmQuota.toInt64)) live' (a :: entries) := by
  have hlen : l.policyEntries.length < maxVnpuPerDie := by
    have := h.length_le
    have hperm := h.policy.length_eq
    rw [length_map] at hperm
    unfold maxVnpuPerDie
    omega
  have hid := h.notMem_of_isFree hfree
  have hv := lt_of_isFree hfree
  obtain ⟨fmask, faicore, fhbm, fpolicy⟩ := reserve_fields a.schedPolicy a.vnpuPriority
    (-a.aicoreQuota) (-a.hbmQuota.toInt64) hfree hlen
  constructor
  case vnpuIds => exact nodup_cons.mpr ⟨hid, h.vnpuIds⟩
  case mask =>
    intro v
    rw [map_cons, mem_cons, h.mask v]
    by_cases hlt : v < 64
    · rw [isFree_and_not fmask hlt]
      by_cases hva : v = a.vnpuId
      · simp [hva, hv]
      · simp [hlt, hva]
    · constructor
      · rintro (rfl | h')
        · omega
        · omega
      · intro h'; omega
  case aicore_nonneg =>
    intro b hb
    rcases mem_cons.mp hb with rfl | hb
    · exact hnonneg
    · exact h.aicore_nonneg b hb
  case aicore =>
    have hbound := l.aicoreQuota.toInt_lt
    have hneg := toInt_neg_of_nonneg hnonneg
    rw [faicore, toInt_add_of_range (by omega) (by omega), hneg, map_cons, sum_cons, ← h.aicore]
    omega
  case hbm =>
    have hle : a.hbmQuota.toNat ≤ l.hbmQuota.toNat := UInt64.le_iff_toNat_le.mp hhbm
    rw [fhbm, Int64.toUInt64_neg, UInt64.toUInt64_toInt64, UInt64.add_neg_eq_sub,
      UInt64.toNat_sub_of_le _ _ hhbm, map_cons, sum_cons, ← h.hbm]
    omega
  case policy =>
    rw [fpolicy, map_cons]
    exact (perm_append_singleton _ _).trans (h.policy.cons _)
  case limit =>
    intro b hb
    rcases mem_cons.mp hb with rfl | hb
    · exact ⟨e, by rw [hlive, if_pos rfl], he⟩
    · have hne : b.vnpuId ≠ a.vnpuId := fun heq => hid (mem_map.mpr ⟨b, hb, heq⟩)
      rw [hlive, if_neg hne]
      exact h.limit b hb
  case live =>
    intro v e' hv'
    rw [hlive] at hv'
    rw [map_cons, mem_cons]
    by_cases hva : v = a.vnpuId
    · exact .inl hva
    · rw [if_neg hva] at hv'
      exact .inr (h.live v e' hv')

end

/-- Releasing a vNPU keeps the die consistent. -/
theorem unreserve (h : DieConsistent d l live (a :: entries))
    (hlive : ∀ v, live' v = if v = a.vnpuId then none else live v) :
    DieConsistent d (l.unreserve a.vnpuId a.aicoreQuota a.hbmQuota.toInt64) live' entries := by
  obtain ⟨hv, hocc⟩ := (h.mask a.vnpuId).mp mem_cons_self
  obtain ⟨hid, hids⟩ := nodup_cons.mp h.vnpuIds
  obtain ⟨fmask, faicore, fhbm, fpolicy⟩ := unreserve_fields a.aicoreQuota
    a.hbmQuota.toInt64 hv hocc
  have hmem : ∀ b ∈ entries, b.vnpuId ≠ a.vnpuId := by
    intro b hb heq
    exact hid (mem_map.mpr ⟨b, hb, heq⟩)
  constructor
  case vnpuIds => exact hids
  case mask =>
    intro v
    have hmask := h.mask v
    rw [map_cons, mem_cons] at hmask
    by_cases hlt : v < 64
    · rw [isFree_or fmask hlt]
      by_cases hva : v = a.vnpuId
      · subst hva
        simp [hid]
      · simpa [hlt, hva] using hmask
    · constructor
      · intro h'
        exact absurd (hmask.mp (.inr h')).1 hlt
      · intro h'; omega
  case aicore_nonneg => exact fun b hb => h.aicore_nonneg b (mem_cons_of_mem _ hb)
  case aicore =>
    have haicore := h.aicore
    rw [map_cons, sum_cons] at haicore
    have hsum : 0 ≤ (entries.map (·.aicoreQuota.toInt)).sum := by
      apply sum_nonneg
      intro x hx
      obtain ⟨b, hb, rfl⟩ := mem_map.mp hx
      exact h.aicore_nonneg b (mem_cons_of_mem _ hb)
    have hpos := h.aicore_nonneg a mem_cons_self
    have hlow := l.aicoreQuota.le_toInt
    have hup := d.aicore.toInt_lt
    rw [faicore, toInt_add_of_range (by omega) (by omega)]
    omega
  case hbm =>
    have hhbm := h.hbm
    rw [map_cons, sum_cons] at hhbm
    have hup := d.totalMemory.toNat_lt
    rw [fhbm, UInt64.toUInt64_toInt64, toNat_add_of_lt (by omega)]
    omega
  case policy =>
    have hpolicy := h.policy
    rw [map_cons] at hpolicy
    -- the erased entry is the one of `a`, because no other entry has its id
    obtain ⟨e, hfind⟩ : ∃ e, l.policyEntries.find? (·.vnpuId == a.vnpuId) = some e := by
      rw [← Option.isSome_iff_exists, find?_isSome]
      exact ⟨a.policy, hpolicy.mem_iff.mpr mem_cons_self, by simp [Allocation.policy]⟩
    have hea : e = a.policy := by
      have hid' : e.vnpuId = a.vnpuId := by simpa using find?_some hfind
      rcases mem_cons.mp (hpolicy.mem_iff.mp (mem_of_find?_eq_some hfind)) with rfl | he
      · rfl
      · obtain ⟨b, hb, rfl⟩ := mem_map.mp he
        exact absurd hid' (hmem b hb)
    subst hea
    rw [fpolicy]
    exact ((perm_cons_eraseP hfind).symm.trans hpolicy).cons_inv
  case limit =>
    intro b hb
    rw [hlive, if_neg (hmem b hb)]
    exact h.limit b (mem_cons_of_mem _ hb)
  case live =>
    intro v e hv'
    rw [hlive] at hv'
    split at hv'
    · cases hv'
    · next hva =>
      have := h.live v e hv'
      rw [map_cons, mem_cons] at this
      exact this.resolve_left hva

end DieConsistent

/-! ### The whole node -/

namespace Allocator

variable {F : Type}

/-- Every die is consistent with those of the entries that are on it. -/
def DiesConsistent (cfg : NodeConfig F) (s : Allocator F) (entries : List Allocation) : Prop :=
  ∀ d ∈ cfg.leaves, DieConsistent d (s.leaf d.phyId) (s.liveEntry d.phyId)
    (entries.filter (·.phyId == d.phyId))

/-- A vNPU that fits is charged to its die and gets the entry `e`. -/
structure Reserves (cfg : NodeConfig F) (s : Allocator F) (a : Allocation) (d : DieMeta)
    (e : VnpuShmEntry) (s' : Allocator F) : Prop where
  mem : d ∈ cfg.leaves
  phyId : a.phyId = d.phyId
  isFree : (s.leaf d.phyId).isFree a.vnpuId = true
  aicore_nonneg : 0 ≤ a.aicoreQuota.toInt
  aicore_le : a.aicoreQuota.toInt ≤ (s.leaf d.phyId).aicoreQuota.toInt
  hbm_le : a.hbmQuota ≤ (s.leaf d.phyId).hbmQuota
  limit : e.hbmLimit = a.hbmLimit
  leaf : s'.leaf = Function.update s.leaf d.phyId
    ((s.leaf d.phyId).reserve a.vnpuId a.schedPolicy a.vnpuPriority (-a.aicoreQuota)
      (-a.hbmQuota.toInt64))
  live : ∀ phyId v, s'.liveEntry phyId v =
    if phyId = d.phyId ∧ v = a.vnpuId then some e else s.liveEntry phyId v

section

variable {cfg : NodeConfig F} {s s' : Allocator F} {a : Allocation} {d : DieMeta}
  {e : VnpuShmEntry} {entries : List Allocation}

theorem DiesConsistent.reserve (h : DiesConsistent cfg s entries) (hr : Reserves cfg s a d e s') :
    DiesConsistent cfg s' (entries ++ [a]) := by
  intro d' hd'
  rw [filter_append, filter_singleton, Bool.cond_eq_ite, hr.phyId, hr.leaf]
  by_cases hp : d'.phyId = d.phyId
  · obtain rfl := cfg.die_unique hd' hr.mem hp
    rw [if_pos (beq_self_eq_true _), Function.update_self]
    refine DieConsistent.perm ?_ (perm_append_singleton a _).symm
    refine (h d' hd').reserve hr.isFree hr.aicore_nonneg hr.aicore_le hr.hbm_le hr.limit fun v => ?_
    simp [hr.live]
  · rw [if_neg (by simpa using Ne.symm hp), append_nil, Function.update_of_ne hp]
    refine (h d' hd').congr ⟨_, rfl⟩ fun v => ?_
    rw [hr.live, if_neg (fun hc => hp hc.1)]

/-- What holds of the entries of the shared memory stays, and holds of the new one. -/
theorem DiesConsistent.live_reserve {P : Allocation → VnpuShmEntry → Prop}
    (h : DiesConsistent cfg s entries) (hr : Reserves cfg s a d e s') (he : P a e)
    (hP : ∀ b ∈ entries, ∃ e, s.liveEntry b.phyId b.vnpuId = some e ∧ P b e) :
    ∀ b ∈ entries ++ [a], ∃ e, s'.liveEntry b.phyId b.vnpuId = some e ∧ P b e := by
  intro b hb
  rw [hr.live]
  rw [mem_append, mem_singleton] at hb
  rcases hb with hb | rfl
  · rw [if_neg]
    · exact hP b hb
    · -- the id of the new vNPU was free
      rintro ⟨hphy, hv⟩
      apply (h d hr.mem).notMem_of_isFree hr.isFree
      rw [← hv]
      exact mem_map_of_mem (mem_filter.mpr ⟨hb, beq_iff_eq.mpr hphy⟩)
  · exact ⟨e, if_pos ⟨hr.phyId, rfl⟩, he⟩

end

/-- The four stores of the node agree. -/
structure Consistent (cfg : NodeConfig F) (s : Allocator F) : Prop where
  die : DiesConsistent cfg s s.registry.entries
  entry : ∀ a ∈ s.registry.entries, ∃ d ∈ cfg.leaves, d.phyId = a.phyId ∧ 0 ≤ d.phyId ∧
    d.phyId < maxNpuPerNode
  shmIds : ShmNamed (· ≠ "") s

theorem consistent_init (cfg : NodeConfig F) (pool : Tlsf.Pool) (files : F → Option String) :
    Consistent cfg (init cfg .empty pool files) where
  die d hd := by
    have hleaf : (init cfg .empty pool files).leaf d.phyId = .fresh d := by
      simp only [init, cfg.find_leaf hd]
    rw [hleaf]
    change DieConsistent d (.fresh d) _ []
    refine ⟨nodup_nil, fun v => ?_, by simp, by simp [LeafState.fresh],
      by simp [LeafState.fresh], by simp [LeafState.fresh], by simp, fun v e h => ?_⟩
    · constructor
      · intro h; cases h
      · rintro ⟨hv, hocc⟩
        rw [isFree_fresh hv] at hocc
        cases hocc
    · cases h
  entry a ha := by cases ha
  shmIds phyId st h := by cases h

theorem Granted.reserves {cfg : NodeConfig F} {s s' : Allocator F} {a : Allocation} {d : DieMeta}
    (hg : Granted cfg s a d s') (hsel : Selection cfg s a d) :
    Reserves cfg s a d (buildShmEntry a (cfg.ratio d.phyId).enabled) s' :=
  ⟨hsel.mem, hsel.phyId, hsel.isFree, Int32.le_iff_toInt_le.mp hsel.aicore_nonneg,
    Int32.le_iff_toInt_le.mp hsel.aicore_le, hsel.hbm_le, rfl, hg.leaf, hg.live⟩

namespace Consistent

variable {cfg : NodeConfig F} {s s' : Allocator F} {a : Allocation} {d : DieMeta}

/-- A failed allocation that leaves the registry alone. -/
theorem of_undone (h : Consistent cfg s) {ch : AllocChoices} (hu : Undone cfg s a d ch s')
    (hr : s'.registry = s.registry) : Consistent cfg s' where
  die d' hd' := by
    rw [hr]
    exact (h.die d' hd').congr (hu.leaf d'.phyId) (hu.live d'.phyId)
  entry := by rw [hr]; exact h.entry
  shmIds := hu.shmIds _ d.dieId_ne h.shmIds

theorem of_granted (h : Consistent cfg s) (hsel : Selection cfg s a d)
    (hg : Granted cfg s a d s') : Consistent cfg s' where
  die := by
    rw [hg.registry]
    exact h.die.reserve (hg.reserves hsel)
  entry b hb := by
    rw [hg.registry] at hb
    rcases mem_append.mp hb with hb | hb
    · exact h.entry b hb
    · rw [mem_singleton] at hb
      subst hb
      exact ⟨d, hsel.mem, hsel.phyId.symm, hsel.inRange⟩
  shmIds := hg.shmIds _ d.dieId_ne h.shmIds

/-- A release keeps the stores consistent, whether or not its own file and checkpoint
operations succeed. -/
theorem of_released (h : Consistent cfg s)
    (hfind : s.registry.get a.podUid a.containerName = some a) (hrel : Released cfg s a s') :
    Consistent cfg s' where
  die d' hd' := by
    have hperm := perm_cons_eraseP hfind
    rw [← hrel.registry] at hperm
    obtain ⟨d, hd, hphy, h₀, h₁⟩ := h.entry a (mem_of_find?_eq_some hfind)
    have hleaf : cfg.getLeaf a.phyId = some d := hphy ▸ cfg.getLeaf_of_mem hd h₀
    have hon := hperm.filter (·.phyId == d'.phyId)
    have hdie := h.die d' hd'
    have hl := hrel.leaf
    have hlive := hrel.live d'.phyId
    rw [hleaf] at hl hlive
    simp only at hl
    rw [hl]
    by_cases hp : d'.phyId = d.phyId
    · obtain rfl := cfg.die_unique hd' hd hp
      rw [Function.update_self]
      rw [filter_cons_of_pos (by simp [hphy])] at hon
      refine (hdie.perm hon).unreserve fun v => ?_
      rw [hlive]
      simp only [Option.isSome_some, ← hphy, h₀, h₁, true_and, and_true]
    · rw [Function.update_of_ne hp]
      rw [filter_cons_of_neg (by simp only [beq_iff_eq]; omega)] at hon
      refine (hdie.perm hon).congr ⟨_, rfl⟩ fun v => ?_
      rw [hlive, if_neg]
      rintro ⟨-, hc, -⟩
      exact hp (hc.trans hphy.symm)
  entry b hb := by
    rw [hrel.registry] at hb
    exact h.entry b (mem_of_mem_eraseP hb)
  shmIds := hrel.shmIds _ h.shmIds

end Consistent

variable [DecidableEq F] {cfg : NodeConfig F} {s : Allocator F}

/-- What an allocation does in a consistent state: it fails and leaves the stores as they
were, it grants a checked vNPU, or, when the checkpoint cannot be saved, it takes
everything back but the registry entry. -/
theorem Consistent.allocate_outcome (h : Consistent cfg s)
    (req : AllocRequest) (ch : AllocChoices) :
    let r := s.allocate cfg req ch
    (s.reachesSave cfg req ch = false ∧ r.1.result ≠ .success ∧ r.2.registry = s.registry ∧
      Consistent cfg r.2) ∨
    (s.reachesSave cfg req ch = true ∧ ch.save ≠ .success ∧ r.1.result ≠ .success ∧
      ∃ a d, Selection cfg s a d ∧ Undone cfg s a d ch r.2 ∧
        r.2.registry.entries = s.registry.entries ++ [a]) ∨
    (s.reachesSave cfg req ch = true ∧ ch.save = .success ∧ r.1.result = .success ∧
      ∃ a d, Selection cfg s a d ∧ Granted cfg s a d r.2) := by
  intro r
  rcases allocate_cases cfg s req ch with ⟨hnone, hfail, hsame⟩ | ⟨a, d, hsome, hsel, hsteps⟩
  · have hr : r.2 = s := hsame
    rw [hr]
    exact .inl ⟨by rw [reachesSave, hnone], hfail, rfl, h⟩
  have hreach : s.reachesSave cfg req ch = s.stepsSave a d ch := by rw [reachesSave, hsome]
  have hr : r = s.allocateSteps cfg a d ch := hsteps
  have hdie := h.die d hsel.mem
  have hid : a.vnpuId ∉ (s.leaf d.phyId).policyIds := fun hmem =>
    hdie.notMem_of_isFree hsel.isFree (hdie.policyIds_perm.mem_iff.mp hmem)
  have hspec := allocateSteps_spec (cfg.getLeaf_of_mem hsel.mem hsel.inRange.1) hsel.inRange
    hsel.isFree hid (hdie.live_eq_none hsel.isFree) h.shmIds hsel.dieId ch
  rw [hreach, hr]
  rcases hspec with ⟨hsave, hfail, hundone, hreg⟩ | ⟨hsave, hne, hfail, hundone, shmId, hreg⟩ |
    ⟨hsave, hok, hres, shmId, hgrant⟩
  · exact .inl ⟨hsave, hfail, hreg, h.of_undone hundone hreg⟩
  · exact .inr (.inl ⟨hsave, hne, hfail, { a with shmId := shmId }, d,
      hsel.setShmId shmId, { hundone with }, hreg⟩)
  · exact .inr (.inr ⟨hsave, hok, hres, { a with shmId := shmId }, d, hsel.setShmId shmId, hgrant⟩)

/-- The checkpoint of an allocation that gets as far as saving it can be saved. -/
def Saves (cfg : NodeConfig F) (s : Allocator F) : Call → Prop
  | .allocate req ch => s.reachesSave cfg req ch = true → ch.save = .success
  | .release _ _ _ => True
  | .releaseByVnpu _ _ _ => True

theorem Consistent.step (h : Consistent cfg s) (c : Call)
    (hsave : Saves cfg s c) : Consistent cfg (s.step cfg c) := by
  refine step_keeps h (fun _ _ => h.of_released) c ?_
  rintro req ch rfl
  rcases h.allocate_outcome req ch with ⟨-, -, -, h'⟩ | ⟨hreach, hne, -⟩ |
    ⟨-, -, -, a, d, hsel, hgrant⟩
  · exact h'
  · exact absurd (hsave hreach) hne
  · exact h.of_granted hsel hgrant

end Allocator

end UbsVirt.Enpu
