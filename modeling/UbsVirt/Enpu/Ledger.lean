import UbsVirt.Enpu.Consistency
import UbsVirt.Lib.Run

/-!
# The tree as a ledger of the registry

What is left of a die is what its registry entries have not taken: its two quotas are the
initial ones less the sums over its entries, and the mask bit of an id is clear exactly
when one entry has the id. Every run of calls keeps this as long as each checkpoint that
is reached can be saved, and no longer (`ledger_iff_saves`): a failed save leaves the
entry in the registry while the rollback gives everything else back, because
`ROLLBACK_SAVE_CHECKPOINT` is never logged. Source: `npu_allocator.c:854-871`,
`allocation_registry.c:119-132`.
-/

namespace UbsVirt.Enpu.Allocator

open Run

variable {F : Type}

/-- The leaf of a die against its registry entries. -/
structure DieLedger (d : DieMeta) (l : LeafState) (entries : List Allocation) : Prop where
  aicore : l.aicoreQuota.toInt = d.aicore.toInt - (entries.map (·.aicoreQuota.toInt)).sum
  hbm : (l.hbmQuota.toNat : Int) = d.totalMemory.toNat - (entries.map (·.hbmQuota.toNat)).sum
  mask : ∀ v < 64, l.isFree v = false ↔ (entries.map (·.vnpuId)).count v = 1

def Ledger (cfg : NodeConfig F) (s : Allocator F) : Prop :=
  ∀ d ∈ cfg.leaves, DieLedger d (s.leaf d.phyId) (s.registry.onDie d.phyId)

theorem Consistent.ledger {cfg : NodeConfig F} {s : Allocator F} (h : Consistent cfg s) :
    Ledger cfg s := by
  intro d hd
  have hdie : DieConsistent d _ _ (s.registry.onDie d.phyId) := h.die d hd
  have haicore := hdie.aicore
  have hhbm := hdie.hbm
  refine ⟨by omega, by omega, fun v hv => ?_⟩
  constructor
  · intro hocc
    exact List.count_eq_one_of_mem hdie.vnpuIds ((hdie.mask v).mpr ⟨hv, hocc⟩)
  · intro hcount
    have hmem : v ∈ (s.registry.onDie d.phyId).map (·.vnpuId) :=
      List.count_pos_iff.mp (by omega)
    exact ((hdie.mask v).mp hmem).2

variable [DecidableEq F]

/-- A failed save leaves an entry whose mask bit is set. -/
theorem Consistent.not_ledger_of_not_saves {cfg : NodeConfig F} {s : Allocator F}
    (h : Consistent cfg s) {c : Call} (hc : ¬ Saves cfg s c) : ¬ Ledger cfg (s.step cfg c) := by
  cases c with
  | release pod container ch => exact absurd trivial hc
  | releaseByVnpu phyId v ch => exact absurd trivial hc
  | allocate req ch =>
    have hreach : s.reachesSave cfg req ch = true ∧ ch.save ≠ .success := by
      simpa [Saves] using hc
    rcases h.allocate_outcome req ch with ⟨hno, -⟩ | ⟨-, -, -, a, d, hsel, hundone, hreg⟩ |
      ⟨-, hok, -⟩
    · rw [hno] at hreach; exact absurd hreach.1 (by simp)
    swap
    · exact absurd hok hreach.2
    intro hledger
    have hv := LeafState.lt_of_isFree hsel.isFree
    have hmask := (hledger d hsel.mem).mask a.vnpuId hv
    -- the id is free again, so no entry of the die had it before the call
    obtain ⟨b, hleaf⟩ := hundone.leaf d.phyId
    have hfree : ((s.step cfg (.allocate req ch)).leaf d.phyId).isFree a.vnpuId = true := by
      have : (s.step cfg (.allocate req ch)).leaf d.phyId = _ := hleaf
      rw [this]
      exact hsel.isFree
    have hnone : a.vnpuId ∉ (s.registry.onDie d.phyId).map (·.vnpuId) :=
      (h.die d hsel.mem).notMem_of_isFree hsel.isFree
    have hon : (s.step cfg (.allocate req ch)).registry.onDie d.phyId =
        s.registry.onDie d.phyId ++ [a] := by
      have : (s.step cfg (.allocate req ch)).registry.entries = _ := hreg
      simp [Registry.onDie, this, hsel.phyId]
    rw [hfree, hon, List.map_append, List.count_append, List.count_eq_zero_of_not_mem hnone] at hmask
    simp at hmask

/-- From a fresh tree and an empty registry, every state of a run balances exactly when
each checkpoint that an allocation of the run reaches can be saved. -/
theorem ledger_iff_saves (cfg : NodeConfig F) (pool : Tlsf.Pool) (files : F → Option String)
    (run : List Call) :
    Throughout (step cfg) (Ledger cfg) (init cfg .empty pool files) run ↔
      EachStep (step cfg) (Saves cfg) (init cfg .empty pool files) run :=
  throughout_iff_of_invariant (consistent_init cfg pool files) (fun _ h => h.ledger)
    (fun _ c h hc => h.step c hc) (fun _ _ h hc => h.not_ledger_of_not_saves hc)

/-- A node with one die of 100 percent AICore and 65536 MB. -/
def oneDie : NodeConfig String :=
  { leaves := [⟨0, "die-0", "uuid-0", 65536, 100, by decide, by decide⟩]
    distinct := by decide
    ratio := fun _ => { enabled := false, threshold := fun total => total }
    strategy := .compact
    evaluatorName := ""
    basePath := "/etc/enpu/"
    fileOf := fun path => path }

def halfDie : AllocRequest :=
  { podUid := "pod", containerName := "main", aicoreQuota := 50, hbmQuota := 32768
    hbmLimit := 32768, schedPolicy := 1, vnpuPriority := 0, swapPriority := 1
    predicatePhyId := 0 }

def saveFails : AllocChoices :=
  { nodesCalloc := true, policyCalloc := true, shmCreate := true, configWrite := .done
    registryMalloc := true, save := .fail, unlink := true, time := 0 }

def emptyNode : Allocator String :=
  init oneDie .empty (Tlsf.init 0) (fun _ => none)

/-- One allocation whose save fails leaves the ledger out of balance. -/
theorem failed_save_breaks_ledger :
    ¬ Throughout (step oneDie) (Ledger oneDie) emptyNode [.allocate halfDie saveFails] := by
  have hreach : emptyNode.reachesSave oneDie halfDie saveFails = true := by decide
  have hsave : ¬ Saves oneDie emptyNode (.allocate halfDie saveFails) := by
    intro h
    exact absurd (h hreach) (by decide)
  intro h
  exact (consistent_init oneDie (Tlsf.init 0) _).not_ledger_of_not_saves hsave h.2

end UbsVirt.Enpu.Allocator
