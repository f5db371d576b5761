import UbsVirt.Enpu.Capacity

/-!
# Restarting the manager

The registry is saved to a JSON file after every change. A new manager builds a fresh tree,
loads the registry from the file and rebuilds the leaves and the shared memory from it, by
other code than the one that granted the vNPUs. Source:
`enpu-manager/core/src/file_storage_adapter.c`, `allocation_registry.c:279-315`,
`npu_allocator.c:981-1064`.
-/

namespace UbsVirt.Enpu

open Run List Allocator Registry

/-! ### The checkpoint -/

/-- A number that survives the JSON library: its digits before the trailing zeros are at most the
15 that are printed, and a double holds it. -/
def IsDouble (n : Nat) : Prop :=
  n < 2 ^ 64 ∧ ∃ m k, n = m * 10 ^ k ∧ m < 10 ^ 15 ∧ m * 5 ^ k < 2 ^ 53

/-- What the JSON library does to a number that is printed and parsed again: it is a double on
the way, printed with at least 15 digits. -/
structure JsonNumber where
  readBack : Nat → Nat
  exact : ∀ n, IsDouble n → readBack n = n

theorem isDouble_of_lt {n : Nat} (h : n < 10 ^ 15) : IsDouble n :=
  ⟨by omega, n, 0, by omega, h, by omega⟩

/-- An entry of the checkpoint file as it is parsed; any member may be missing. -/
structure CheckpointItem where
  podUid : Option String
  containerName : Option String
  phyId : Option Int
  vnpuId : Option Nat
  dieId : Option String
  shmId : Option String
  aicoreQuota : Option Int32
  hbmQuota : Option Nat
  hbmLimit : Option Nat
  schedPolicy : Option Int
  swapPriority : Option Int
  vnpuPriority : Option Int
  createTimeNs : Option Nat
  updateTimeNs : Option Nat
  swapOffset : Option Nat
  swapSize : Option Nat
  swapped : Option Bool
  deriving DecidableEq, Repr

def added {α : Type} (ok : Bool) (value : α) : Option α :=
  if ok then some value else none

/-- The entry written for an allocation, `file_storage_adapter.c:70-93`. Whether a `cJSON_Add…`
call has succeeded is not looked at: a member whose call has failed is missing. -/
def Allocation.checkpoint (num : JsonNumber) (adds : Nat → Bool) (a : Allocation) :
    CheckpointItem :=
  { podUid := added (adds 0) a.podUid
    containerName := added (adds 1) a.containerName
    phyId := added (adds 2) a.phyId
    vnpuId := added (adds 3) a.vnpuId
    dieId := added (adds 4) a.dieId
    shmId := added (adds 5) a.shmId
    aicoreQuota := added (adds 6) a.aicoreQuota
    hbmQuota := added (adds 7) (num.readBack a.hbmQuota.toNat)
    hbmLimit := added (adds 8) (num.readBack a.hbmLimit.toNat)
    schedPolicy := added (adds 9) a.schedPolicy.code
    swapPriority := added (adds 10) a.swapPriority.code
    vnpuPriority := added (adds 11) a.vnpuPriority.code
    createTimeNs := added (adds 12) (num.readBack a.createTimeNs.toNat)
    updateTimeNs := added (adds 13) (num.readBack a.updateTimeNs.toNat)
    swapOffset := added (adds 14) (num.readBack a.swapOffset.toNat)
    swapSize := added (adds 15) (num.readBack a.swapSize.toNat)
    swapped := added (adds 16) a.swapped }

def Allocation.fullItem (num : JsonNumber) (a : Allocation) : CheckpointItem :=
  a.checkpoint num fun _ => true

/-- The entries written for a registry, `file_storage_adapter.c:68-96`. The last call for an entry
adds it to the array. -/
def savedItems (num : JsonNumber) (adds : Nat → Nat → Bool) (entries : List Allocation) :
    List CheckpointItem :=
  entries.zipIdx.filterMap fun a => added (adds a.2 17) (a.1.checkpoint num (adds a.2))

def SchedPolicy.ofCode : Int → Option SchedPolicy
  | 1 => some .fixedShare
  | 2 => some .elastic
  | 3 => some .bestEffort
  | _ => none

/-- The allocation read from an entry, `file_storage_adapter.c:196-301`: a missing limit is the
quota, a priority that is missing or out of range is the default, and other missing members are
zero. There is none if the policy is not one of the three, which the source does not check. -/
def CheckpointItem.load (c : CheckpointItem) : Option Allocation :=
  (SchedPolicy.ofCode (c.schedPolicy.getD 0)).map fun policy =>
    { podUid := c.podUid.getD ""
      containerName := c.containerName.getD ""
      phyId := c.phyId.getD 0
      vnpuId := c.vnpuId.getD 0
      dieId := c.dieId.getD ""
      shmId := c.shmId.getD ""
      aicoreQuota := c.aicoreQuota.getD 0
      hbmQuota := .ofNat (c.hbmQuota.getD 0)
      hbmLimit := .ofNat ((c.hbmLimit.or c.hbmQuota).getD 0)
      schedPolicy := policy
      swapPriority :=
        match c.swapPriority with
        | some 0 => .high
        | some 2 => .low
        | _ => .medium
      vnpuPriority :=
        match c.vnpuPriority with
        | some 1 => .high
        | _ => .normal
      createTimeNs := .ofNat (c.createTimeNs.getD 0)
      updateTimeNs := .ofNat (c.updateTimeNs.getD 0)
      swapOffset := .ofNat (c.swapOffset.getD 0)
      swapSize := .ofNat (c.swapSize.getD 0)
      swapped := c.swapped.getD false }

/-- `allocation_registry_recover` on an empty registry, `allocation_registry.c:279-315`. The file
is `none` when it is missing or cannot be parsed. -/
def Registry.recover (file : Option (List CheckpointItem)) : Option Registry :=
  (((file.getD []).take maxAllocCount).mapM CheckpointItem.load).map fun loaded =>
    { entries := loaded, capacity := max empty.capacity loaded.length }

variable {a : Allocation} {entries : List Allocation}

/-- The JSON library keeps the numbers of an allocation. -/
def Allocation.Exact (a : Allocation) : Prop :=
  ∀ n ∈ [a.hbmQuota, a.hbmLimit, a.createTimeNs, a.updateTimeNs, a.swapOffset, a.swapSize],
    IsDouble n.toNat

/-- What is saved loads back. -/
theorem Allocation.load_checkpoint (num : JsonNumber) (h : a.Exact) :
    (a.fullItem num).load = some a := by
  have hread : ∀ n : UInt64, IsDouble n.toNat → UInt64.ofNat (num.readBack n.toNat) = n := by
    intro n hn
    rw [num.exact _ hn, UInt64.ofNat_toNat]
  unfold Allocation.Exact at h
  simp only [forall_mem_cons, not_mem_nil, false_implies, implies_true, and_true] at h
  obtain ⟨hquota, hlimit, hcreate, hupdate, hoffset, hsize⟩ := h
  have hpolicy : SchedPolicy.ofCode a.schedPolicy.code = some a.schedPolicy := by
    cases a.schedPolicy <;> rfl
  unfold Allocation.fullItem Allocation.checkpoint CheckpointItem.load
  simp only [added, if_true, Option.getD_some, Option.some_or, hpolicy, Option.map_some,
    hread _ hquota, hread _ hlimit, hread _ hcreate, hread _ hupdate, hread _ hoffset,
    hread _ hsize]
  congr 1
  cases a with
  | mk pod container phy v die shm aicore quota limit policy swap priority =>
    simp only [Allocation.mk.injEq, and_true, true_and]
    constructor
    · cases swap <;> rfl
    · cases priority <;> rfl

/-- If every member and every entry is added, the entries are those of the registry. -/
theorem savedItems_eq (num : JsonNumber) {adds : Nat → Nat → Bool} (h : ∀ i j, adds i j = true) :
    savedItems num adds entries = entries.map (·.fullItem num) := by
  have hadds : adds = fun _ _ => true := funext fun i => funext (h i)
  unfold savedItems
  rw [hadds]
  simp only [added, if_true]
  rw [filterMap_eq_map']
  conv_rhs => rw [← zipIdx_map_fst 0 entries, map_map]
  rfl

theorem mapM_load_checkpoint (num : JsonNumber) (h : ∀ a ∈ entries, a.Exact) :
    (entries.map (·.fullItem num)).mapM CheckpointItem.load = some entries := by
  induction entries with
  | nil => rfl
  | cons a entries ih =>
    obtain ⟨ha, hentries⟩ := forall_mem_cons.mp h
    rw [map_cons, mapM_cons, Allocation.load_checkpoint num ha, ih hentries]
    rfl

/-! ### The manager and its checkpoint file -/

/-- The settings of a vNPU in the shared memory. -/
structure VnpuSettings where
  hbmRequest : UInt64
  hbmLimit : UInt64
  schedPolicy : Int
  swapPriority : Int
  swapEnabled : Bool
  deriving DecidableEq, Repr

def VnpuShmEntry.settings (e : VnpuShmEntry) : VnpuSettings :=
  ⟨e.hbmRequest, e.hbmLimit, e.schedPolicy, e.swapPriority, e.swapEnabled⟩

def Allocation.settings (a : Allocation) (swapEnabled : Bool) : VnpuSettings :=
  ⟨a.hbmQuota, a.hbmLimit, a.schedPolicy.code, a.swapPriority.code, swapEnabled⟩

variable {F : Type} [DecidableEq F]

/-- The allocator and its checkpoint file. -/
structure SavedNode (F : Type) where
  alloc : Allocator F
  file : Option (List CheckpointItem)

/-- A call, how the calls of the JSON library end in it, and what the checkpoint file holds
afterwards if it cannot be saved: the file is truncated before it is written. -/
structure SavedCall where
  call : Call
  adds : Nat → Nat → Bool
  left : Option (List CheckpointItem)

namespace Allocator

/-- The result of saving the checkpoint in a call, if it comes to that. -/
def saves (cfg : NodeConfig F) (s : Allocator F) : Call → Option Status
  | .allocate req ch => if s.reachesSave cfg req ch then some ch.save else none
  | .release pod container ch => (s.registry.get pod container).map fun _ => ch.save
  | .releaseByVnpu phyId v ch =>
    if maxVnpuPerDie ≤ v then none else (s.registry.findVnpu phyId v).map fun _ => ch.save

def result (cfg : NodeConfig F) (s : Allocator F) : Call → Status
  | .allocate req ch => (s.allocate cfg req ch).1.result
  | .release pod container ch => (s.release cfg pod container ch).1
  | .releaseByVnpu phyId v ch => (s.releaseByVnpu cfg phyId v ch).1

end Allocator

namespace SavedNode

def step (cfg : NodeConfig F) (num : JsonNumber) (s : SavedNode F) (c : SavedCall) : SavedNode F :=
  let alloc := s.alloc.step cfg c.call
  { alloc := alloc
    file :=
      match s.alloc.saves cfg c.call with
      | none => s.file
      | some .success => some (savedItems num c.adds alloc.registry.entries)
      | some _ => c.left }

def init (cfg : NodeConfig F) (pool : Tlsf.Pool) (files : F → Option String) : SavedNode F :=
  { alloc := .init cfg .empty pool files, file := none }

/-- The allocator of a new manager, `npu_allocator.c:215-367`: a fresh tree, no shared memory
mapped, the registry from the file, and then `npu_allocator_recover`. -/
def restart (cfg : NodeConfig F) (s : SavedNode F) (pool : Tlsf.Pool)
    (ch : Nat → RecoverChoices) : Option (Allocator F) :=
  (Registry.recover s.file).map fun registry =>
    (Allocator.init cfg registry pool s.alloc.files).recover cfg ch

/-- The allocators agree on the registry, on every leaf and on the settings of every allocation
in the shared memory. -/
structure Recovered (cfg : NodeConfig F) (s s' : Allocator F) : Prop where
  registry : s'.registry.entries = s.registry.entries
  aicore : ∀ d ∈ cfg.leaves, (s'.leaf d.phyId).aicoreQuota = (s.leaf d.phyId).aicoreQuota
  hbm : ∀ d ∈ cfg.leaves, (s'.leaf d.phyId).hbmQuota = (s.leaf d.phyId).hbmQuota
  mask : ∀ d ∈ cfg.leaves, (s'.leaf d.phyId).vnpuMask = (s.leaf d.phyId).vnpuMask
  policy : ∀ d ∈ cfg.leaves,
    (s'.leaf d.phyId).policyEntries.Perm (s.leaf d.phyId).policyEntries
  shm : ∀ a ∈ s.registry.entries, ∃ e e', s.liveEntry a.phyId a.vnpuId = some e ∧
    s'.liveEntry a.phyId a.vnpuId = some e' ∧ e'.settings = e.settings

/-- A successful call that has saved the checkpoint with every member of every entry. A release
does not report whether it has saved it, and no call whether all members were added. -/
def Checkpointed (cfg : NodeConfig F) (s : SavedNode F) (c : SavedCall) : Prop :=
  s.alloc.result cfg c.call = .success ∧ (∀ i j, c.adds i j = true) ∧
    match c.call with
    | .allocate _ _ => True
    | .release _ _ ch | .releaseByVnpu _ _ ch => ch.save = .success

/-- When a manager may be restarted: every vNPU is on a die with oversubscription and was created
at a full second before 2106, there is memory for the policies, and the shared memory of the dies
can be created. -/
structure MayRestart (cfg : NodeConfig F) (s : SavedNode F)
    (ch : Nat → RecoverChoices) : Prop where
  enabled : ∀ a ∈ s.alloc.registry.entries, (cfg.ratio a.phyId).enabled = true
  created : ∀ a ∈ s.alloc.registry.entries, a.createTimeNs.toNat % 10 ^ 9 = 0 ∧
    a.createTimeNs.toNat < 2 ^ 32 * 10 ^ 9
  policyCalloc : ∀ i, (ch i).policyCalloc = true
  shmCreate : ∀ i, (ch i).shmCreate = true

end SavedNode

/-! ### Rebuilding one allocation -/

namespace Allocator

section

variable {cfg : NodeConfig F} {s : Allocator F} {a : Allocation} {d : DieMeta}

/-- Rebuilding an allocation reserves it, when its id is free on its die and its quotas are
available. -/
theorem recoverOne_reserves (hd : d ∈ cfg.leaves) (hphyId : a.phyId = d.phyId)
    (hphy : 0 ≤ d.phyId ∧ d.phyId < maxNpuPerNode)
    (hfree : (s.leaf d.phyId).isFree a.vnpuId = true) (hnonneg : 0 ≤ a.aicoreQuota.toInt)
    (haicore : a.aicoreQuota.toInt ≤ (s.leaf d.phyId).aicoreQuota.toInt)
    (hhbm : a.hbmQuota ≤ (s.leaf d.phyId).hbmQuota) {ch : RecoverChoices}
    (hcalloc : ch.policyCalloc = true) (hcreate : ch.shmCreate = true) :
    (∃ e, Reserves cfg s a d (recoveredEntry a e) (s.recoverOne cfg a ch)) ∧
      (s.recoverOne cfg a ch).registry = s.registry := by
  have hv := LeafState.lt_of_isFree hfree
  have hvalid : vnpuIdIsValid a.vnpuId = true := vnpuIdIsValid_iff.mpr hv
  have hmax : a.vnpuId < maxVnpuPerDie := by unfold maxVnpuPerDie; omega
  have hattach : ∀ l : LeafState, (l.attachPolicy a.vnpuId a.schedPolicy a.vnpuPriority
      ch.policyCalloc).2 = l.appendPolicy a.vnpuId a.schedPolicy a.vnpuPriority := by
    intro l
    rw [hcalloc]
    rcases l.attachPolicy_cases hv a.schedPolicy a.vnpuPriority true with ⟨hno, -⟩ | ⟨-, heq⟩
    · rw [Bool.or_true] at hno
      cases hno
    · rw [heq]
  have hrec : recovers cfg a = true := by
    simp [recovers, hvalid, hphyId, cfg.getLeaf_of_mem hd hphy.1]
  obtain ⟨hreg, hleaf, ⟨-, hwhy⟩ | ⟨-, -, total, hshm⟩⟩ := recoverOne_cases cfg s hrec ch
  · simp [hasShm, hphyId, hphy, hcreate] at hwhy
  rw [hphyId] at hleaf hshm
  refine ⟨⟨(s.shmOf d.phyId a.dieId).entries a.vnpuId, hd, hphyId, hfree, hnonneg, haicore, hhbm,
    rfl, ?_, fun phyId v => ?_⟩, hreg⟩
  · simp only [hleaf, LeafState.recovered, hattach]
    rfl
  · rw [liveEntry_setShm hshm, findEntry_recoveredShm hmax, shmOf_findEntry]
    by_cases hp : phyId = d.phyId <;> simp [hp]

end

/-! ### Rebuilding the registry -/

section

variable {cfg : NodeConfig F} {s : Allocator F}

/-- The entries seen so far have been rebuilt. -/
structure Rebuilt (cfg : NodeConfig F) (done : List Allocation) (s : Allocator F) : Prop where
  die : DiesConsistent cfg s done
  settings : ∀ a ∈ done, ∃ e, s.liveEntry a.phyId a.vnpuId = some e ∧ e.settings = a.settings true

/-- Entries that one node can hold: on each die their ids differ and fit the mask, and the die
has the quotas they need. -/
structure Placeable (cfg : NodeConfig F) (entries : List Allocation) : Prop where
  entry : ∀ a ∈ entries, ∃ d ∈ cfg.leaves, d.phyId = a.phyId ∧ 0 ≤ d.phyId ∧
    d.phyId < maxNpuPerNode
  vnpuIds : ∀ d ∈ cfg.leaves, ((entries.filter (·.phyId == d.phyId)).map (·.vnpuId)).Nodup
  inMask : ∀ a ∈ entries, a.vnpuId < 64
  aicore_nonneg : ∀ a ∈ entries, 0 ≤ a.aicoreQuota.toInt
  capacity : ∀ d ∈ cfg.leaves, WithinCapacity cfg d (entries.filter (·.phyId == d.phyId))

omit [DecidableEq F] in
theorem Placeable.of_sound (h : Sound cfg s) : Placeable cfg s.registry.entries := by
  have hon : ∀ a ∈ s.registry.entries, ∃ d ∈ cfg.leaves, a ∈ s.registry.onDie d.phyId := by
    intro a ha
    obtain ⟨d, hd, hphy, -⟩ := h.consistent.entry a ha
    refine ⟨d, hd, mem_filter.mpr ⟨ha, ?_⟩⟩
    rw [beq_iff_eq, hphy]
  refine ⟨h.consistent.entry, ?_, ?_, ?_, h.capacity⟩
  · exact fun d hd => (h.consistent.die d hd).vnpuIds
  · intro a ha
    obtain ⟨d, hd, ha⟩ := hon a ha
    exact (((h.consistent.die d hd).mask a.vnpuId).mp (mem_map_of_mem ha)).1
  · intro a ha
    obtain ⟨d, hd, ha⟩ := hon a ha
    exact (h.consistent.die d hd).aicore_nonneg a ha

omit [DecidableEq F] in
theorem Placeable.sublist {entries' : List Allocation} (h : Placeable cfg entries)
    (hsub : entries'.Sublist entries) : Placeable cfg entries' where
  entry a ha := h.entry a (hsub.subset ha)
  vnpuIds d hd := (h.vnpuIds d hd).sublist ((hsub.filter _).map _)
  inMask a ha := h.inMask a (hsub.subset ha)
  aicore_nonneg a ha := h.aicore_nonneg a (hsub.subset ha)
  capacity d hd := by
    apply (h.capacity d hd).sublist
    · intro a ha
      exact h.aicore_nonneg a (mem_filter.mp ha).1
    · exact hsub.filter _

/-- The next entry finds its id free and its quotas available. -/
theorem Rebuilt.recoverOne {done : List Allocation} (h : Rebuilt cfg done s)
    (hplace : Placeable cfg (done ++ [a])) {ch : RecoverChoices}
    (hcalloc : ch.policyCalloc = true) (hcreate : ch.shmCreate = true) :
    Rebuilt cfg (done ++ [a]) (s.recoverOne cfg a ch) ∧
      (s.recoverOne cfg a ch).registry = s.registry := by
  have ha : a ∈ done ++ [a] := mem_append_right _ (mem_singleton_self a)
  obtain ⟨d, hd, hphyId, h₀, h₁⟩ := hplace.entry a ha
  have hon : (done ++ [a]).filter (·.phyId == d.phyId) =
      done.filter (·.phyId == d.phyId) ++ [a] := by
    rw [filter_append, filter_singleton]
    simp [hphyId]
  have hdie := h.die d hd
  have hids := hplace.vnpuIds d hd
  have hcap := hplace.capacity d hd
  rw [hon] at hids hcap
  have hfree : (s.leaf d.phyId).isFree a.vnpuId = true := by
    by_contra hocc
    rw [Bool.not_eq_true] at hocc
    have hmem := (hdie.mask a.vnpuId).mpr ⟨hplace.inMask a ha, hocc⟩
    rw [map_append, nodup_append] at hids
    exact hids.2.2 _ hmem _ (mem_singleton_self a.vnpuId) rfl
  have haicore : a.aicoreQuota.toInt ≤ (s.leaf d.phyId).aicoreQuota.toInt := by
    have hsum := hcap.aicore
    rw [map_append, sum_append, map_singleton, sum_singleton] at hsum
    have := hdie.aicore
    omega
  have hhbm : a.hbmQuota ≤ (s.leaf d.phyId).hbmQuota := by
    have hsum := hcap.request
    rw [map_append, sum_append, map_singleton, sum_singleton] at hsum
    have := hdie.hbm
    rw [UInt64.le_iff_toNat_le]
    omega
  obtain ⟨⟨e, hres⟩, hreg⟩ := recoverOne_reserves hd hphyId.symm ⟨h₀, h₁⟩ hfree
    (hplace.aicore_nonneg a ha) haicore hhbm hcalloc hcreate
  exact ⟨⟨h.die.reserve hres, h.die.live_reserve hres rfl h.settings⟩, hreg⟩

theorem rebuilt_foldl {ch : Nat → RecoverChoices} (hcalloc : ∀ i, (ch i).policyCalloc = true)
    (hcreate : ∀ i, (ch i).shmCreate = true) (rest done : List Allocation) (n : Nat)
    (h : Rebuilt cfg done s) (hplace : Placeable cfg (done ++ rest)) :
    Rebuilt cfg (done ++ rest)
        ((rest.zipIdx n).foldl (fun s a => s.recoverOne cfg a.1 (ch a.2)) s) ∧
      ((rest.zipIdx n).foldl (fun s a => s.recoverOne cfg a.1 (ch a.2)) s).registry =
        s.registry := by
  -- the entries before the current one are rebuilt
  induction rest generalizing done n s with
  | nil =>
    rw [append_nil]
    exact ⟨h, rfl⟩
  | cons a rest ih =>
    have happ : done ++ a :: rest = done ++ [a] ++ rest := by simp
    rw [happ] at hplace ⊢
    obtain ⟨hone, hreg⟩ := h.recoverOne (hplace.sublist (sublist_append_left _ rest))
      (hcalloc n) (hcreate n)
    obtain ⟨hrest, hreg'⟩ := ih (done ++ [a]) (n + 1) hone hplace
    exact ⟨hrest, hreg'.trans hreg⟩

omit [DecidableEq F] in
theorem rebuilt_init (cfg : NodeConfig F) (registry : Registry) (pool : Tlsf.Pool)
    (files : F → Option String) : Rebuilt cfg [] (init cfg registry pool files) where
  die d hd := (consistent_init cfg pool files).die d hd
  settings a ha := by cases ha

end

end Allocator

/-- The entries of a die determine the quotas, the mask and the policies of its leaf. -/
theorem DieConsistent.unique {d : DieMeta} {l l' : LeafState}
    {live live' : Nat → Option VnpuShmEntry}
    (h : DieConsistent d l live entries) (h' : DieConsistent d l' live' entries) :
    l'.aicoreQuota = l.aicoreQuota ∧ l'.hbmQuota = l.hbmQuota ∧ l'.vnpuMask = l.vnpuMask ∧
      l'.policyEntries.Perm l.policyEntries := by
  refine ⟨?_, ?_, ?_, h'.policy.trans h.policy.symm⟩
  · apply Int32.toInt_inj.mp
    have := h.aicore
    have := h'.aicore
    omega
  · apply UInt64.toNat_inj.mp
    have := h.hbm
    have := h'.hbm
    omega
  · apply BitVec.eq_of_getLsbD_eq
    intro v hv
    rw [← LeafState.isFree_eq hv, ← LeafState.isFree_eq hv]
    have hmask := (h.mask v).symm.trans (h'.mask v)
    simp only [hv, true_and] at hmask
    cases hl : l.isFree v with
    | false => exact hmask.mp hl
    | true =>
      cases hl' : l'.isFree v with
      | true => rfl
      | false =>
        rw [hmask.mpr hl'] at hl
        cases hl

/-! ### Runs -/

namespace SavedNode

variable {cfg : NodeConfig F} {num : JsonNumber} {s : SavedNode F}

/-- The stores agree, the shared memory holds the settings of every allocation, and the
checkpoint file holds the registry. -/
structure Restorable (cfg : NodeConfig F) (num : JsonNumber) (s : SavedNode F) : Prop where
  sound : s.alloc.Sound cfg
  request_le : ∀ a ∈ s.alloc.registry.entries, a.hbmQuota ≤ a.hbmLimit
  settings : ∀ a ∈ s.alloc.registry.entries, ∃ e, s.alloc.liveEntry a.phyId a.vnpuId = some e ∧
    e.settings = a.settings (cfg.ratio a.phyId).enabled
  untouched : ∀ a ∈ s.alloc.registry.entries,
    a.updateTimeNs = 0 ∧ a.swapOffset = 0 ∧ a.swapSize = 0
  length_le : s.alloc.registry.entries.length ≤ maxAllocCount
  file : s.file.getD [] = s.alloc.registry.entries.map (·.fullItem num)

omit [DecidableEq F] in
theorem restorable_init (cfg : NodeConfig F) (pool : Tlsf.Pool) (files : F → Option String) :
    Restorable cfg num (init cfg pool files) where
  sound := sound_init cfg pool files
  request_le a ha := by cases ha
  settings a ha := by cases ha
  untouched a ha := by cases ha
  length_le := Nat.zero_le _
  file := rfl

variable {alloc : Allocator F}

omit [DecidableEq F] in
/-- A quota is at most the memory of its die in MB, so it is printed exactly. -/
theorem Restorable.recover (h : Restorable cfg num s)
    (hcreated : ∀ a ∈ s.alloc.registry.entries, a.createTimeNs.toNat % 10 ^ 9 = 0 ∧
      a.createTimeNs.toNat < 2 ^ 32 * 10 ^ 9) :
    ∃ registry, Registry.recover s.file = some registry ∧
      registry.entries = s.alloc.registry.entries := by
  have hexact : ∀ a ∈ s.alloc.registry.entries, a.Exact := by
    intro a ha
    obtain ⟨d, hd, hphy, -⟩ := h.sound.consistent.entry a ha
    have hlimit := UInt64.le_iff_toNat_le.mp (h.sound.limit d hd a
      (mem_filter.mpr ⟨ha, beq_iff_eq.mpr hphy.symm⟩))
    have hquota := UInt64.le_iff_toNat_le.mp (h.request_le a ha)
    have htotal := totalMb_lt d
    obtain ⟨hupdate, hoffset, hsize⟩ := h.untouched a ha
    obtain ⟨hsecond, hbefore⟩ := hcreated a ha
    have hcreate : IsDouble a.createTimeNs.toNat :=
      ⟨by omega, a.createTimeNs.toNat / 10 ^ 9, 9, by omega, by omega, by omega⟩
    unfold Allocation.Exact
    simp only [forall_mem_cons, not_mem_nil, false_implies, implies_true, and_true, hupdate, hoffset,
      hsize]
    exact ⟨isDouble_of_lt (by omega), isDouble_of_lt (by omega), hcreate,
      isDouble_of_lt (by decide), isDouble_of_lt (by decide), isDouble_of_lt (by decide)⟩
  unfold Registry.recover
  rw [h.file, take_of_length_le (by rw [length_map]; exact h.length_le),
    mapM_load_checkpoint num hexact]
  exact ⟨_, rfl, rfl⟩

omit [DecidableEq F] in
theorem Restorable.granted (h : Restorable cfg num s) {d : DieMeta}
    (hsel : s.alloc.Selection cfg a d) (hg : s.alloc.Granted cfg a d alloc)
    (hlen : s.alloc.registry.entries.length < maxAllocCount) :
    Restorable cfg num ⟨alloc, some (alloc.registry.entries.map (·.fullItem num))⟩ := by
  have hsound := h.sound.of_granted hsel hg
  have hmem : ∀ b ∈ alloc.registry.entries, b ∈ s.alloc.registry.entries ∨ b = a := by
    intro b hb
    rwa [hg.registry, mem_append, mem_singleton] at hb
  refine ⟨hsound, ?_, ?_, ?_, ?_, rfl⟩
  · intro b hb
    rcases hmem b hb with hb | rfl
    · exact h.request_le b hb
    · exact hsel.request_le
  · rw [hg.registry]
    refine h.sound.consistent.die.live_reserve (hg.reserves hsel) ?_ h.settings
    rw [hsel.phyId]
    rfl
  · intro b hb
    rcases hmem b hb with hb | rfl
    · exact h.untouched b hb
    · exact hsel.untouched
  · rw [hg.registry, length_append, length_singleton]
    omega

omit [DecidableEq F] in
/-- A saved release keeps the state restorable. -/
theorem Restorable.released (h : Restorable cfg num s)
    (hget : s.alloc.registry.get a.podUid a.containerName = some a)
    (hrel : s.alloc.Released cfg a alloc) :
    Restorable cfg num ⟨alloc, some (alloc.registry.entries.map (·.fullItem num))⟩ := by
  have hsub : alloc.registry.entries.Sublist s.alloc.registry.entries := by
    rw [hrel.registry]
    exact eraseP_sublist
  refine ⟨h.sound.of_released hget hrel, fun b hb => h.request_le b (hsub.subset hb), ?_,
    fun b hb => h.untouched b (hsub.subset hb), hsub.length_le.trans h.length_le, rfl⟩
  intro b hb
  rw [hrel.live, if_neg]
  · exact h.settings b (hsub.subset hb)
  rintro ⟨-, hphy, hv, -⟩
  -- the released entry was the only one with its id
  obtain ⟨d, hd, hphyId, -⟩ := h.sound.consistent.entry a (get_some hget).1
  have hperm := perm_cons_eraseP hget
  rw [← hrel.registry] at hperm
  have hon := hperm.filter (·.phyId == d.phyId)
  rw [filter_cons_of_pos (by simp [hphyId])] at hon
  have hids := (h.sound.consistent.die d hd).perm hon |>.vnpuIds
  rw [map_cons, nodup_cons] at hids
  apply hids.1
  rw [← hv]
  apply mem_map_of_mem
  rw [mem_filter, beq_iff_eq]
  exact ⟨hb, hphy.trans hphyId.symm⟩

omit [DecidableEq F] in
theorem length_lt_of_reachesSave {req : AllocRequest} {ch : AllocChoices}
    (h : alloc.reachesSave cfg req ch = true) : alloc.registry.entries.length < maxAllocCount := by
  unfold reachesSave at h
  split at h
  · cases h
  · simp only [stepsSave, accepts, Bool.and_eq_true, decide_eq_true_eq] at h
    exact h.2.1.2

theorem Restorable.release (h : Restorable cfg num s) {pod container : String}
    {ch : ReleaseChoices} (hresult : (s.alloc.release cfg pod container ch).1 = .success) :
    Restorable cfg num ⟨(s.alloc.release cfg pod container ch).2,
      some ((s.alloc.release cfg pod container ch).2.registry.entries.map (·.fullItem num))⟩ := by
  rcases release_cases cfg s.alloc pod container ch with ⟨hnone, -⟩ | ⟨a, -, hget, hrel⟩
  · unfold Allocator.release at hresult
    rw [hnone] at hresult
    cases hresult
  · exact h.released hget hrel

/-- Every checkpointed call keeps the state restorable. -/
theorem Restorable.step (h : Restorable cfg num s) (c : SavedCall) (hc : s.Checkpointed cfg c) :
    Restorable cfg num (s.step cfg num c) := by
  obtain ⟨call, adds, left⟩ := c
  obtain ⟨hresult, hadds, hsave⟩ := hc
  cases call with
  | allocate req ch =>
    rcases h.sound.consistent.allocate_outcome req ch with ⟨-, hfail, -⟩ | ⟨-, -, hfail, -⟩ |
      ⟨hreach, hsave, -, a, d, hsel, hgrant⟩
    · exact absurd hresult hfail
    · exact absurd hresult hfail
    · simp only [SavedNode.step, saves, hreach, hsave, if_true, savedItems_eq num hadds]
      exact h.granted hsel hgrant (length_lt_of_reachesSave hreach)
  | release pod container ch =>
    have hsave : ch.save = .success := hsave
    cases hget : s.alloc.registry.get pod container with
    | none =>
      simp only [result, Allocator.release, hget] at hresult
      cases hresult
    | some a =>
      simp only [SavedNode.step, saves, hget, Option.map_some, hsave, savedItems_eq num hadds]
      exact h.release hresult
  | releaseByVnpu phyId v ch =>
    simp only [result, releaseByVnpu] at hresult
    simp only [SavedNode.step, saves, Allocator.step, releaseByVnpu]
    split at hresult
    · cases hresult
    next hv =>
    simp only [if_neg hv]
    split at hresult
    · cases hresult
    next a hfind =>
    have hsave : ch.save = .success := hsave
    simp only [hfind, Option.map_some, hsave, savedItems_eq num hadds]
    exact h.release hresult

open Allocator (oneDie halfDie saveFails)

def exactNumber : JsonNumber :=
  { readBack := id, exact := fun _ _ => rfl }

/-- Two vNPUs are granted and the first is released. -/
def grantTwiceRelease : List SavedCall :=
  [.allocate halfDie { saveFails with save := .success },
    .allocate { halfDie with podUid := "pod2" } { saveFails with save := .success },
    .release "pod" "main" { unlink := true, save := .success }].map (⟨·, fun _ _ => true, none⟩)

def borrowingDie : NodeConfig String :=
  { oneDie with ratio := fun _ => { enabled := true, threshold := fun total => 2 * total } }

def recoverOk : Nat → RecoverChoices :=
  fun _ => { policyCalloc := true, shmCreate := true, configWrite := .done }

def granted (cfg : NodeConfig String) : SavedNode String :=
  exec (step cfg exactNumber) (init cfg (Tlsf.init 0) fun _ => none) grantTwiceRelease

end SavedNode

end UbsVirt.Enpu
