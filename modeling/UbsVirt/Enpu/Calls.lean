import UbsVirt.Enpu.Transaction

/-!
# What the calls of the allocator can do

One statement per call (`allocate_cases`, `release_cases`), on which the invariants of
runs are built. An allocation reaches its steps only with a vNPU the evaluator has
checked (`Selection`); a release takes back exactly one registry entry (`Released`).
Source: `enpu-manager/core/src/npu_allocator.c:559-958`.
-/

namespace UbsVirt.Enpu

open ShmState Function

variable {F : Type} {cfg : NodeConfig F} {d : DieMeta}

theorem NodeConfig.getLeaf_some {phyId : Int}
    (h : cfg.getLeaf phyId = some d) : d ∈ cfg.leaves ∧ d.phyId = phyId ∧ 0 ≤ phyId := by
  unfold getLeaf at h
  split at h
  · cases h
  · next hneg =>
    exact ⟨List.mem_of_find?_eq_some h, by simpa using List.find?_some h, by omega⟩

/-- Device numbers are distinct, so a number names at most one die. -/
theorem NodeConfig.die_unique {d' : DieMeta} (h : d ∈ cfg.leaves)
    (h' : d' ∈ cfg.leaves) (heq : d.phyId = d'.phyId) : d = d' :=
  List.inj_on_of_nodup_map cfg.distinct h h' heq

theorem NodeConfig.find_leaf (h : d ∈ cfg.leaves) :
    cfg.leaves.find? (·.phyId == d.phyId) = some d := by
  cases hf : cfg.leaves.find? (·.phyId == d.phyId) with
  | none => exact absurd (List.find?_eq_none.mp hf d h) (by simp)
  | some d' =>
    have hd' : d'.phyId = d.phyId := by simpa using List.find?_some hf
    rw [cfg.die_unique (List.mem_of_find?_eq_some hf) h hd']

theorem NodeConfig.getLeaf_of_mem (h : d ∈ cfg.leaves)
    (hphy : 0 ≤ d.phyId) : cfg.getLeaf d.phyId = some d := by
  unfold getLeaf
  rw [if_neg (by omega), find_leaf h]

/-! ### Checked requests -/

/-- A check answers: a refusal is not the code of success, and `Q` holds of what it accepts. -/
def Checked {α : Type} (Q : α → Prop) : Except (Status × String) α → Prop
  | .error e => e.1 ≠ .success
  | .ok a => Q a

/-- An accepted pair has its request within its limit. -/
theorem parseHbmRequestLimit_spec (p : Int) (r l : UInt64) :
    Checked (fun _ => r ≤ l) (parseHbmRequestLimit p r l) := by
  unfold parseHbmRequestLimit
  split
  · split
    · simp [Checked]
    · split
      · simp [Checked]
      · next heq => simp only [not_not] at heq; subst heq; exact UInt64.le_refl _
  · split
    · split
      · simp [Checked]
      · next hlt => exact UInt64.not_lt.mp hlt
    · simp [Checked]

/-- What the checks on the request alone establish. -/
theorem checkRequest_spec (req : AllocRequest) :
    Checked (fun c => 0 ≤ c.aicoreQuota ∧ c.hbmRequest ≤ c.hbmLimit) (checkRequest req) := by
  unfold checkRequest
  simp only
  split
  · have hparse := parseHbmRequestLimit_spec 3 req.hbmQuota req.hbmLimit
    rw [if_neg (by decide)]
    cases hp : parseHbmRequestLimit 3 req.hbmQuota req.hbmLimit with
    | error e => rw [hp] at hparse; exact hparse
    | ok p => rw [hp] at hparse; exact ⟨Int32.le_refl 0, hparse⟩
  · split
    · split
      · simp [Checked]
      · next hpos =>
        have hnonneg : 0 ≤ req.aicoreQuota := Int32.le_of_lt (Int32.not_le.mp hpos)
        have hparse := parseHbmRequestLimit_spec req.schedPolicy req.hbmQuota req.hbmLimit
        split
        · simp [Checked]
        · cases hp : parseHbmRequestLimit req.schedPolicy req.hbmQuota req.hbmLimit with
          | error e => rw [hp] at hparse; exact hparse
          | ok p => rw [hp] at hparse; exact ⟨hnonneg, hparse⟩
    · simp [Checked]

/-! ### Allocation -/

theorem evaluateShare_error {strategy : ShareStrategy} {leaves : List DieMeta}
    {leaf : Int → LeafState} {req : EvalRequest} {e : Status × String}
    (h : evaluateShare strategy leaves leaf req = .error e) : e.1 ≠ .success := by
  unfold evaluateShare at h
  split at h
  · cases h; simp
  · split at h
    · cases h; simp
    · split at h
      · split at h
        · cases h
        · cases h; simp
      · simp only at h
        split at h
        · cases h
        · cases h; simp

variable {s : Allocator F} {a : Allocation}

namespace Allocator

/-- What is selected is an answer of the evaluator. -/
theorem selectVnpu_spec (cfg : NodeConfig F) (s : Allocator F) (phyId : Int) (c : CheckedRequest)
    (calloc : Bool) :
    Checked
      (fun p => evaluateShare cfg.strategy cfg.leaves s.leaf (s.evalRequest cfg phyId c) = .ok p)
      (s.selectVnpu cfg phyId c calloc) := by
  unfold selectVnpu
  split
  · simp [Checked]
  · split
    · simp [Checked]
    · cases he : evaluateShare cfg.strategy cfg.leaves s.leaf (s.evalRequest cfg phyId c) with
      | error e =>
        have hne := evaluateShare_error he
        exact hne
      | ok p =>
        by_cases hv : vnpuIdIsValid p.2 = true <;> simp [Checked, hv]

/-- The allocation a call goes on to make once its checks have passed, with its die. -/
def selected (cfg : NodeConfig F) (s : Allocator F) (req : AllocRequest) (ch : AllocChoices) :
    Option (Allocation × DieMeta) :=
  match checkRequest req with
  | .error _ => none
  | .ok c =>
    if 0 ≤ req.predicatePhyId ∧ (cfg.leaves.length : Int) ≤ req.predicatePhyId then none
    else if 0 ≤ req.predicatePhyId ∧ (cfg.getLeaf req.predicatePhyId).isNone then none
    else match s.registry.get req.podUid req.containerName with
      | some _ => none
      | none =>
        match s.selectVnpu cfg req.predicatePhyId c ch.nodesCalloc with
        | .error _ => none
        | .ok (d, v) => some (newAllocation req c d v ch.time, d)

/-- The call gets as far as saving the checkpoint. -/
def reachesSave (cfg : NodeConfig F) (s : Allocator F) (req : AllocRequest) (ch : AllocChoices) :
    Bool :=
  match s.selected cfg req ch with
  | none => false
  | some (a, d) => s.stepsSave a d ch

/-- What has been checked of an allocation before its steps start. -/
structure Selection (cfg : NodeConfig F) (s : Allocator F) (a : Allocation) (d : DieMeta) :
    Prop where
  mem : d ∈ cfg.leaves
  phyId : a.phyId = d.phyId
  dieId : a.dieId = d.dieId
  inRange : 0 ≤ d.phyId ∧ d.phyId < maxNpuPerNode
  isFree : (s.leaf d.phyId).isFree a.vnpuId = true
  aicore_nonneg : 0 ≤ a.aicoreQuota
  aicore_le : a.aicoreQuota ≤ (s.leaf d.phyId).aicoreQuota
  hbm_le : a.hbmQuota ≤ (s.leaf d.phyId).hbmQuota
  request_le : a.hbmQuota ≤ a.hbmLimit
  oversub : a.hbmQuota < a.hbmLimit → (cfg.ratio d.phyId).enabled = true
  limit_le : a.hbmLimit ≤ d.totalMb
  limitSum_le : s.allocatedHbmLimit d.phyId + a.hbmLimit ≤ (cfg.ratio d.phyId).threshold d.totalMb
  policy : a.vnpuPriority = .high ∨ (s.leaf d.phyId).validatePolicy a.schedPolicy = true
  untouched : a.updateTimeNs = 0 ∧ a.swapOffset = 0 ∧ a.swapSize = 0

theorem Selection.setShmId
    (h : Selection cfg s a d) (shmId : String) : Selection cfg s { a with shmId := shmId } d :=
  { h with }

/-- The selected virtual NPU is free and fits the request. -/
theorem selection_of_select {req : AllocRequest}
    {c : CheckedRequest} {calloc : Bool} {v time : Nat} (hc : checkRequest req = .ok c)
    (h : s.selectVnpu cfg req.predicatePhyId c calloc = .ok (d, v)) :
    Selection cfg s (newAllocation req c d v time) d := by
  have hcheck := checkRequest_spec req
  rw [hc] at hcheck
  have heval := selectVnpu_spec cfg s req.predicatePhyId c calloc
  rw [h] at heval
  obtain ⟨hmem, hfeas, -, -⟩ := evaluateShare_ok heval
  have hsum := hfeas.limitSum
  simp only [evalRequest, hfeas.inRange, and_self, if_true] at hsum
  exact
    { mem := hmem
      phyId := rfl
      dieId := rfl
      inRange := hfeas.inRange
      isFree := LeafState.getAvailableVnpuId_isFree hfeas.vnpu
      aicore_nonneg := hcheck.1
      aicore_le := hfeas.aicore
      hbm_le := hfeas.hbm
      request_le := hcheck.2
      oversub := hfeas.oversub
      limit_le := hfeas.limit
      limitSum_le := hsum
      policy := hfeas.policy
      untouched := ⟨rfl, rfl, rfl⟩ }

variable [DecidableEq F]

/-- An allocation fails before it has changed anything, or takes its steps with a checked
vNPU. -/
theorem allocate_cases (cfg : NodeConfig F) (s : Allocator F) (req : AllocRequest)
    (ch : AllocChoices) :
    (s.selected cfg req ch = none ∧ (s.allocate cfg req ch).1.result ≠ .success ∧
      (s.allocate cfg req ch).2 = s) ∨
    ∃ a d, s.selected cfg req ch = some (a, d) ∧ Selection cfg s a d ∧
      s.allocate cfg req ch = s.allocateSteps cfg a d ch := by
  unfold allocate selected
  have hcheck := checkRequest_spec req
  cases hc : checkRequest req with
  | error e =>
    rw [hc] at hcheck
    exact .inl ⟨rfl, hcheck, rfl⟩
  | ok c =>
    simp only
    split
    · exact .inl ⟨rfl, by simp [AllocResponse.error], rfl⟩
    · split
      · exact .inl ⟨rfl, by simp [AllocResponse.error], rfl⟩
      · cases hg : s.registry.get req.podUid req.containerName with
        | some old => exact .inl ⟨rfl, by simp, rfl⟩
        | none =>
          have hselect := selectVnpu_spec cfg s req.predicatePhyId c ch.nodesCalloc
          cases hv : s.selectVnpu cfg req.predicatePhyId c ch.nodesCalloc with
          | error e =>
            rw [hv] at hselect
            exact .inl ⟨rfl, hselect, rfl⟩
          | ok p => exact .inr ⟨_, p.1, rfl, selection_of_select hc hv, rfl⟩

end Allocator

/-! ### Release -/

section

variable (ps : Tlsf.Pool × ShmState) (v w : Nat) (i : Slot)

theorem shmFreePerProcess_findEntry (hw : w ≠ v) :
    (shmFreePerProcess ps v i).2.findEntry w = ps.2.findEntry w := by
  simp only [shmFreePerProcess]
  split
  · rfl
  · simp [findEntry, ShmState.modifySlot, ShmState.modifyEntry, bitmapTest, hw]

theorem shmFreePerProcess_shmId : (shmFreePerProcess ps v i).2.shmId = ps.2.shmId := by
  simp only [shmFreePerProcess]
  split <;> rfl

theorem shmFree_findEntry (hw : w ≠ v) : (shmFree ps v).2.findEntry w = ps.2.findEntry w := by
  unfold shmFree
  split
  · rfl
  · induction allSlots generalizing ps with
    | nil => rfl
    | cons i is ih => rw [List.foldl_cons, ih, shmFreePerProcess_findEntry ps v w i hw]

theorem shmFree_shmId : (shmFree ps v).2.shmId = ps.2.shmId := by
  unfold shmFree
  split
  · rfl
  · induction allSlots generalizing ps with
    | nil => rfl
    | cons i is ih => rw [List.foldl_cons, ih, shmFreePerProcess_shmId ps v i]

end

namespace Allocator

/-- Releasing a vNPU in the shared memory either finds nothing to release, or frees its
buffers and takes its entry out of the bitmap. -/
theorem shmReleaseVnpu_cases (s : Allocator F) (phyId : Int) (v : Nat) :
    (((phyId < 0 ∨ (maxNpuPerNode : Int) ≤ phyId) ∨ s.liveEntry phyId v = none) ∧
      (s.shmReleaseVnpu phyId v).2 = s) ∨
    ∃ st, s.shm phyId = some st ∧ 0 ≤ phyId ∧ phyId < maxNpuPerNode ∧ (s.shmReleaseVnpu phyId v).2 =
        { s with
          shm := update s.shm phyId (some ((shmFree (s.pool, st) v).2.removeEntry v).2)
          pool := (shmFree (s.pool, st) v).1 } := by
  unfold shmReleaseVnpu
  by_cases hrange : phyId < 0 ∨ (maxNpuPerNode : Int) ≤ phyId
  · exact .inl ⟨.inl hrange, by rw [if_pos hrange]⟩
  rw [if_neg hrange]
  by_cases hv : maxVnpuPerDie ≤ v
  · have hlive : s.liveEntry phyId v = none := by
      have : ¬ v < maxVnpuPerDie := by omega
      cases hs : s.shm phyId <;> simp [liveEntry, hs, findEntry, bitmapTest, this]
    exact .inl ⟨.inr hlive, by rw [if_pos hv]⟩
  rw [if_neg hv]
  cases hs : s.shm phyId with
  | none => exact .inl ⟨.inr (by simp [liveEntry, hs]), rfl⟩
  | some st =>
    cases hbit : st.bitmapTest v with
    | false => exact .inl ⟨.inr (by simp [liveEntry, hs, findEntry, hbit]), by simp [hbit]⟩
    | true => exact .inr ⟨st, rfl, by omega, by omega, by simp [hbit]⟩

theorem shmReleaseVnpu_live (s : Allocator F) (phyId : Int) (v : Nat) (p : Int) (w : Nat) :
    (s.shmReleaseVnpu phyId v).2.liveEntry p w =
      if p = phyId ∧ w = v ∧ 0 ≤ phyId ∧ phyId < maxNpuPerNode then none
      else s.liveEntry p w := by
  rcases s.shmReleaseVnpu_cases phyId v with ⟨hnone, heq⟩ | ⟨st, hs, h₀, h₁, heq⟩
  · rw [heq]
    split
    · next hpw =>
      obtain ⟨rfl, rfl, hrange⟩ := hpw
      exact hnone.resolve_left (by omega)
    · rfl
  · rw [heq, liveEntry_setShm (s := s) rfl, findEntry_removeEntry]
    by_cases hp : p = phyId
    · by_cases hw : w = v
      · simp [hp, hw, h₀, h₁]
      · simp [hp, hw, liveEntry, hs, shmFree_findEntry _ _ _ hw]
    · simp [hp]

/-- The tree, the registry and the files stay, and no shared memory changes its name. -/
theorem shmReleaseVnpu_frame (s : Allocator F) (phyId : Int) (v : Nat) :
    let s' := (s.shmReleaseVnpu phyId v).2
    s'.leaf = s.leaf ∧ s'.registry = s.registry ∧ s'.files = s.files ∧
    ∀ G, ShmNamed G s → ShmNamed G s' := by
  intro s'
  have hs' : s' = (s.shmReleaseVnpu phyId v).2 := rfl
  clear_value s'
  rcases s.shmReleaseVnpu_cases phyId v with ⟨-, heq⟩ | ⟨st, hs, -, -, heq⟩
  · rw [heq] at hs'
    subst hs'
    exact ⟨rfl, rfl, rfl, fun _ h => h⟩
  · rw [heq] at hs'
    subst hs'
    refine ⟨rfl, rfl, rfl, fun G h => h.setShm rfl ?_⟩
    rw [removeEntry_shmId, shmFree_shmId]
    exact h phyId st hs

/-- What releasing the registry entry `a` changes. -/
structure Released (cfg : NodeConfig F) (s : Allocator F) (a : Allocation) (s' : Allocator F) :
    Prop where
  leaf : s'.leaf = match cfg.getLeaf a.phyId with
    | none => s.leaf
    | some d => update s.leaf d.phyId
        ((s.leaf d.phyId).unreserve a.vnpuId a.aicoreQuota a.hbmQuota.toInt64)
  live : ∀ phyId v, s'.liveEntry phyId v =
    if (cfg.getLeaf a.phyId).isSome ∧ phyId = a.phyId ∧ v = a.vnpuId ∧ 0 ≤ a.phyId ∧
      a.phyId < maxNpuPerNode then none else s.liveEntry phyId v
  shmIds : ∀ G, ShmNamed G s → ShmNamed G s'
  registry : s'.registry.entries =
    s.registry.entries.eraseP (Registry.hasKey a.podUid a.containerName)

variable [DecidableEq F]

/-- The state once the tree and the shared memory have been released. -/
private def unreserved (cfg : NodeConfig F) (s : Allocator F) (a : Allocation) : Allocator F :=
  match cfg.getLeaf a.phyId with
  | none => s
  | some d =>
    ((s.setLeaf d.phyId ((s.leaf d.phyId).unreserve a.vnpuId a.aicoreQuota
      a.hbmQuota.toInt64)).shmReleaseVnpu a.phyId a.vnpuId).2

private theorem release_of_get {pod container : String} (h : s.registry.get pod container = some a)
    (ch : ReleaseChoices) :
    (s.release cfg pod container ch).2 = { s.unreserved cfg a with
        files := (deleteConfig cfg.basePath pod (s.unreserved cfg a).files
          (cfg.configFile pod container) ch.unlink).2
        registry := ((s.unreserved cfg a).registry.release pod container ch.save).2 } := by
  unfold release
  rw [h]
  rfl

omit [DecidableEq F] in
private theorem unreserved_registry (cfg : NodeConfig F) (s : Allocator F) (a : Allocation) :
    (s.unreserved cfg a).registry = s.registry := by
  unfold unreserved
  split
  · rfl
  · exact (shmReleaseVnpu_frame _ a.phyId a.vnpuId).2.1

/-- A release finds no entry and changes nothing, or takes back the entry it finds. -/
theorem release_cases (cfg : NodeConfig F) (s : Allocator F) (pod container : String)
    (ch : ReleaseChoices) :
    (s.registry.get pod container = none ∧ (s.release cfg pod container ch).2 = s) ∨
    ∃ a, s.registry.get pod container = some a ∧
      s.registry.get a.podUid a.containerName = some a ∧
      Released cfg s a (s.release cfg pod container ch).2 := by
  cases hget : s.registry.get pod container with
  | none => exact .inl ⟨rfl, by unfold release; rw [hget]⟩
  | some a =>
    right
    obtain ⟨-, hkey⟩ := Registry.get_some hget
    simp only [Registry.key, Prod.mk.injEq] at hkey
    obtain ⟨rfl, rfl⟩ := hkey
    refine ⟨a, rfl, hget, ?_⟩
    rw [release_of_get hget]
    have hreg : ((s.unreserved cfg a).registry.release a.podUid a.containerName ch.save).2.entries =
        s.registry.entries.eraseP (Registry.hasKey a.podUid a.containerName) := by
      rw [unreserved_registry, Registry.release, hget]
      rfl
    cases hleaf : cfg.getLeaf a.phyId with
    | none =>
      have hsame : s.unreserved cfg a = s := by simp [unreserved, hleaf]
      rw [hsame] at hreg ⊢
      exact
        { leaf := by rw [hleaf]
          live := fun p v => by simp [hleaf, liveEntry]
          shmIds := fun _ h => h
          registry := hreg }
    | some d =>
      obtain ⟨l, hl⟩ : ∃ l, l = (s.leaf d.phyId).unreserve a.vnpuId a.aicoreQuota
        a.hbmQuota.toInt64 := ⟨_, rfl⟩
      have hun : s.unreserved cfg a =
          ((s.setLeaf d.phyId l).shmReleaseVnpu a.phyId a.vnpuId).2 := by
        simp [unreserved, hleaf, hl]
      obtain ⟨uleaf, -, -, uids⟩ := (s.setLeaf d.phyId l).shmReleaseVnpu_frame a.phyId a.vnpuId
      have ulive := (s.setLeaf d.phyId l).shmReleaseVnpu_live a.phyId a.vnpuId
      rw [← hun] at uleaf uids ulive
      exact
        { leaf := by rw [hleaf]; subst hl; exact uleaf
          live := fun p v => by
            rw [hleaf]
            simp only [Option.isSome_some, true_and]
            exact ulive p v
          shmIds := uids
          registry := hreg }

/-- What allocations and releases of an entry keep, every call keeps: releasing by vNPU is
releasing the entry found for it. -/
theorem step_keeps {P : Allocator F → Prop} (h : P s)
    (hrel : ∀ a s', s.registry.get a.podUid a.containerName = some a → Released cfg s a s' → P s')
    (c : Call) (halloc : ∀ req ch, c = .allocate req ch → P (s.allocate cfg req ch).2) :
    P (s.step cfg c) := by
  have hrelease : ∀ pod container ch, P (s.release cfg pod container ch).2 := by
    intro pod container ch
    rcases release_cases cfg s pod container ch with ⟨-, hsame⟩ | ⟨a, -, hget, hreleased⟩
    · rwa [hsame]
    · exact hrel a _ hget hreleased
  cases c with
  | allocate req ch => exact halloc req ch rfl
  | release pod container ch => exact hrelease pod container ch
  | releaseByVnpu phyId v ch =>
    unfold Allocator.step releaseByVnpu
    dsimp only
    split
    · exact h
    · split
      · exact h
      · exact hrelease _ _ ch

end Allocator

/-! ### Rebuilding one allocation -/

abbrev RecoverStep := Allocation × Allocator.RecoverChoices

def LeafState.recovered (l : LeafState) (e : RecoverStep) : LeafState :=
  (((l.markOccupied e.1.vnpuId).2.updateQuota (-e.1.aicoreQuota)
    (-e.1.hbmQuota.toInt64)).attachPolicy e.1.vnpuId e.1.schedPolicy e.1.vnpuPriority
      e.2.policyCalloc).2

namespace Allocator

def hasShm (phyId : Int) : Bool :=
  decide (0 ≤ phyId) && decide (phyId < maxNpuPerNode)

/-- How the call for the shared memory of a die ends. -/
theorem getOrCreateShm_eq (s : Allocator F) (phyId : Int) (dieId : String) (create : Bool) :
    (∃ e, e ≠ .success ∧ s.getOrCreateShm phyId dieId create = .error e ∧
        (hasShm phyId = false ∨ s.shm phyId = none ∧ create = false)) ∨
      (hasShm phyId = true ∧ (s.shm phyId = none → create = true) ∧
        s.getOrCreateShm phyId dieId create = .ok (s.shmOf phyId dieId,
          { s with shm := update s.shm phyId (some (s.shmOf phyId dieId)) })) := by
  unfold getOrCreateShm hasShm shmOf
  split
  · next hrange =>
    refine .inl ⟨.invalidParam, nofun, rfl, .inl ?_⟩
    rw [Bool.and_eq_false_iff, decide_eq_false_iff_not, decide_eq_false_iff_not]
    omega
  next hrange =>
  have hin : (decide (0 ≤ phyId) && decide (phyId < (maxNpuPerNode : Int))) = true := by
    rw [Bool.and_eq_true, decide_eq_true_eq, decide_eq_true_eq]
    omega
  cases hs : s.shm phyId with
  | some st =>
    refine .inr ⟨hin, nofun, ?_⟩
    have hsame : update s.shm phyId (some st) = s.shm := by
      rw [← hs, update_eq_self]
    simp [hsame]
  | none =>
    cases create with
    | false => exact .inl ⟨.fail, nofun, rfl, .inr ⟨rfl, rfl⟩⟩
    | true => exact .inr ⟨hin, fun _ => rfl, rfl⟩

/-- The recovery of an entry gets as far as the tree. -/
def recovers (cfg : NodeConfig F) (a : Allocation) : Bool :=
  vnpuIdIsValid a.vnpuId && (cfg.getLeaf a.phyId).isSome

/-- The entry `npu_allocator_recover` writes over what the memory holds. -/
def recoveredEntry (a : Allocation) (e : VnpuShmEntry) : VnpuShmEntry :=
  { e with
    vnpuId := a.vnpuId
    hbmRequest := a.hbmQuota
    hbmLimit := a.hbmLimit
    schedPolicy := a.schedPolicy.code
    swapPriority := a.swapPriority.code
    swapEnabled := true
    hbmUsed := 0 }

def recoveredShm (a : Allocation) (total : UInt64) (st : ShmState) : ShmState :=
  { st.initState total with
    vnpuBitmap := update st.vnpuBitmap a.vnpuId true
    entries := update st.entries a.vnpuId (recoveredEntry a (st.entries a.vnpuId)) }

theorem findEntry_recoveredShm (hv : a.vnpuId < maxVnpuPerDie) (total : UInt64)
    (st : ShmState) (v : Nat) : (recoveredShm a total st).findEntry v =
      if v = a.vnpuId then some (recoveredEntry a (st.entries a.vnpuId)) else st.findEntry v := by
  by_cases hva : v = a.vnpuId
  · subst hva
    simp [findEntry, bitmapTest, recoveredShm, hv]
  · simp [findEntry, bitmapTest, recoveredShm, ShmState.initState, hva]

variable [DecidableEq F] {cfg : NodeConfig F} {s : Allocator F}

theorem recoverOne_of_not_recovers (ha : recovers cfg a = false)
    (ch : RecoverChoices) : s.recoverOne cfg a ch = s := by
  unfold recoverOne
  cases hv : vnpuIdIsValid a.vnpuId with
  | false => rfl
  | true =>
    cases hd : cfg.getLeaf a.phyId with
    | none => rfl
    | some d => simp [recovers, hv, hd] at ha

/-- The end of `recoverOne`, from the shared memory of the device on. -/
def recoverShm (s : Allocator F) (cfg : NodeConfig F) (a : Allocation) (ch : RecoverChoices)
    (total : UInt64) : Except Status (ShmState × Allocator F) → Allocator F
  | .error _ => s
  | .ok (st, s₂) =>
    { s₂ with
      shm := update s₂.shm a.phyId (some (recoveredShm a total st))
      files := (writeConfig s₂.files (cfg.configFile a.podUid a.containerName)
        (generateConfigContent a.config) ch.configWrite).2 }

variable (cfg s) in
/-- What rebuilding one allocation changes: the leaf of its die, and the shared memory if there
is one to write to. -/
theorem recoverOne_cases (ha : recovers cfg a = true) (ch : RecoverChoices) :
    (s.recoverOne cfg a ch).registry = s.registry ∧ (s.recoverOne cfg a ch).leaf =
        update s.leaf a.phyId ((s.leaf a.phyId).recovered (a, ch)) ∧
      ((s.recoverOne cfg a ch).shm = s.shm ∧
          (hasShm a.phyId = false ∨ s.shm a.phyId = none ∧ ch.shmCreate = false) ∨
        hasShm a.phyId = true ∧ (s.shm a.phyId = none → ch.shmCreate = true) ∧
          ∃ total, (s.recoverOne cfg a ch).shm = update s.shm a.phyId
            (some (recoveredShm a total (s.shmOf a.phyId a.dieId)))) := by
  simp only [recovers, Bool.and_eq_true] at ha
  obtain ⟨d, hd⟩ := Option.isSome_iff_exists.mp ha.2
  obtain ⟨-, hphyId, -⟩ := cfg.getLeaf_some hd
  obtain ⟨s₁, hs₁⟩ : ∃ s₁, s₁ = s.setLeaf a.phyId ((s.leaf a.phyId).recovered (a, ch)) := ⟨_, rfl⟩
  have hone : s.recoverOne cfg a ch =
      s₁.recoverShm cfg a ch d.totalBytes (s₁.getOrCreateShm a.phyId a.dieId ch.shmCreate) := by
    unfold recoverOne
    simp only [ha.1, hd, hphyId, hs₁]
    rfl
  rw [hone]
  rcases s₁.getOrCreateShm_eq a.phyId a.dieId ch.shmCreate with
    ⟨e, -, herr, hwhy⟩ | ⟨hin, hcreate, hok⟩
  · rw [herr]
    subst hs₁
    exact ⟨rfl, rfl, .inl ⟨rfl, hwhy⟩⟩
  · rw [hok]
    subst hs₁
    exact ⟨rfl, rfl, .inr ⟨hin, hcreate, d.totalBytes, update_idem ..⟩⟩

end Allocator

end UbsVirt.Enpu
