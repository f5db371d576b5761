import UbsVirt.Vas.LayoutSteps

/-!
# The layers of the clusters

In every layer of every cluster the groups hold areas of CPUs that lie inside the cluster,
apart from each other and from the skipped CPUs; the bitmap of the layer marks exactly these
and the skipped CPUs, and `idle` counts the others. The search for an area, the bitmap, the
counter and the table of groups are kept in step by separate functions
(`cluster_sched.cpp:826-980,1311-1437`, `dynamic_bitset.cpp:152-178`).

The layers stay exact in the runs in which no search meets a map whose first free CPU is
followed too soon by one that is taken.
-/

namespace UbsVirt.Vas

open Areas Run Sched

/-- The layer records its groups exactly. -/
structure LayerExact (m : Machine) (s : Sched) (c : ClusterInfo) (l : ClusterLayer) : Prop where
  disjoint : ∀ id ∈ l.groups, ∀ id' ∈ l.groups, id ≠ id' → ∀ g g', s.groupMap id = some g →
    s.groupMap id' = some g' →
      g.start + g.nrCpus ≤ g'.start ∨ g'.start + g'.nrCpus ≤ g.start
  inside : ∀ id ∈ l.groups, ∀ g, s.groupMap id = some g → g.start + g.nrCpus ≤ c.cpuSet.length
  avoids : ∀ id ∈ l.groups, ∀ g, s.groupMap id = some g → ∀ i, g.start ≤ i →
    i < g.start + g.nrCpus → c.startCpu + i ∉ m.skipCpuSet
  used : ∀ i < c.cpuSet.length, l.usedBitmap[i]? = some true ↔
    c.startCpu + i ∈ m.skipCpuSet ∨
      ∃ id ∈ l.groups, ∃ g, s.groupMap id = some g ∧ g.start ≤ i ∧ i < g.start + g.nrCpus
  idle : l.idle = l.usedBitmap.count false

namespace Sched

/-- Every layer of every cluster records its groups exactly. -/
def LayersExact (m : Machine) (s : Sched) : Prop :=
  ∀ c ∈ m.topology, ∀ l ∈ s.layers c.id, LayerExact m s c l

variable {m : Machine} {s : Sched}

/-- A layer of a regular machine that keeps the layout records its groups exactly. -/
theorem LayerInv.exact (hm : m.Regular) {c : ClusterInfo} (hc : c ∈ m.topology) {i : Nat}
    {l : ClusterLayer} (h : LayerInv m s c i l) : LayerExact m s c l := by
  have hlen := hm.length_bitMap hc
  constructor
  · intro id hid id' hid' hne g g' hg hg'
    by_contra hcon
    obtain ⟨g₁, hg₁, hpos⟩ := h.group id hid
    obtain ⟨g₂, hg₂, hpos'⟩ := h.group id' hid'
    rw [hg] at hg₁
    rw [hg'] at hg₂
    cases hg₁
    cases hg₂
    -- two areas that overlap share the later of their starts
    apply hne
    apply h.carved.apart id id' _ _ (max g.start g'.start) (areas_of_mem hid hg)
      (areas_of_mem hid' hg')
    · show g.start ≤ max g.start g'.start ∧ max g.start g'.start < g.start + g.nrCpus
      omega
    · show g'.start ≤ max g.start g'.start ∧ max g.start g'.start < g'.start + g'.nrCpus
      omega
  · intro id hid g hg
    have := h.carved.within id _ (areas_of_mem hid hg)
    rwa [hlen, ← hm.length_cpuSet hc] at this
  · intro id hid g hg j hlo hhi hskip
    have hout := h.carved.outside id _ j (areas_of_mem hid hg) ⟨hlo, hhi⟩
    have hwithin := h.carved.within id _ (areas_of_mem hid hg)
    dsimp only at hwithin
    rw [hm.getElem?_bitMap hc (by omega), decide_eq_true hskip] at hout
    cases hout
  · intro j hj
    rw [hm.length_cpuSet hc] at hj
    rw [h.carved.taken j, hm.getElem?_bitMap hc hj, Option.some.injEq, decide_eq_true_eq]
    apply or_congr_right
    constructor
    · rintro ⟨id, area, harea, hcov⟩
      obtain ⟨hid, g, hg, rfl⟩ := areas_some harea
      exact ⟨id, hid, g, hg, hcov⟩
    · rintro ⟨id, hid, g, hg, hlo, hhi⟩
      exact ⟨id, _, areas_of_mem hid hg, hlo, hhi⟩
  · exact h.idle

theorem Layout.layersExact (hm : m.Regular) (h : Layout m s) : s.LayersExact m := by
  intro c hc l hl
  obtain ⟨i, hi, rfl⟩ := List.getElem_of_mem hl
  exact (h.layers c hc i _ (List.getElem?_eq_getElem hi)).exact hm hc

/-- The layout throughout a run of operations. -/
theorem Layout.throughout (hm : m.Regular) (dynamicAffinity : Bool) (ops : List SchedOp)
    (hmay : EachStep (Sched.step m) (MayPlace m) (Sched.init m dynamicAffinity)
      (steps m (Sched.init m dynamicAffinity) ops)) :
    Throughout (Sched.step m) (Layout m) (Sched.init m dynamicAffinity)
      (steps m (Sched.init m dynamicAffinity) ops) :=
  throughout_of_step (Layout.init dynamicAffinity) (fun _ _ h hi => h.step hm hi) hmay

/-- On a regular machine the layers are exact throughout every run of operations in which no write
throws, no group loses its last thread in compaction, no search meets a fragmented map and no
domain gets a second group in a layer of a cluster. -/
theorem layers_exact (hm : m.Regular) (dynamicAffinity : Bool) (ops : List SchedOp)
    (hmay : EachStep (Sched.step m) (MayPlace m) (Sched.init m dynamicAffinity)
      (steps m (Sched.init m dynamicAffinity) ops)) :
    Throughout (Sched.step m) (LayersExact m) (Sched.init m dynamicAffinity)
      (steps m (Sched.init m dynamicAffinity) ops) :=
  (Layout.throughout hm dynamicAffinity ops hmay).mono fun _ h => h.layersExact hm

/-! ### Runs -/

/-- Two clusters of four CPUs on one node. -/
def smallMachine (skipCpuSet : List Nat) : Machine where
  cpuInfoList := (List.range 8).map fun cpu => ⟨0, cpu, cpu / 4, List.range' (cpu / 4 * 4) 4⟩
  clusterCpuNum := 4
  maxCpuNum := 8
  skipCpuSet := skipCpuSet
  granularity := 1

theorem smallMachine_regular (skipCpuSet : List Nat) : (smallMachine skipCpuSet).Regular := by
  refine ⟨Nat.zero_lt_succ 3, ?_, ?_⟩
  · show 4 < 32768
    omega
  intro cpu hcpu
  obtain ⟨n, hn, rfl⟩ := List.mem_map.mp hcpu
  have := List.mem_range.mp hn
  refine ⟨n / 4 * 4, rfl, ?_⟩
  show n / 4 * 4 + 4 ≤ 8
  omega

def freeVm (uuid : String) (pids : List Nat) : VmInfo where
  uuid := uuid
  name := uuid
  vcpuMap := pids.map fun pid => ⟨pid, pid, [0], List.replicate 8 true⟩

/-- Two VMs start, the first one stops, and the other one is moved to its place. -/
def startStopRun : List SchedOp :=
  [.addDomainInfo (freeVm "a" [1, 2]) fun _ _ => .ok,
    .addDomainInfo (freeVm "b" [3, 4]) fun _ _ => .ok,
    .delDomainInfo "a" [⟨"a", 0⟩, ⟨"b", 0⟩] (fun _ => false) fun _ _ => .ok]

theorem startStopRun_exact :
    Throughout (Sched.step (smallMachine [3])) (LayersExact (smallMachine [3]))
      (Sched.init (smallMachine [3]) false)
      (steps (smallMachine [3]) (Sched.init (smallMachine [3]) false) startStopRun) :=
  layers_exact (smallMachine_regular [3]) false startStopRun (by decide +kernel)

/-- With CPU 1 skipped, a VM with two vCPUs starts. -/
def skipRun : List SchedOp :=
  [.addDomainInfo (freeVm "a" [1, 2]) fun _ _ => .ok]

def skipRunEnd : Sched :=
  exec (Sched.step (smallMachine [1])) (Sched.init (smallMachine [1]) false)
    (steps (smallMachine [1]) (Sched.init (smallMachine [1]) false) skipRun)

/-- The VM is given the CPUs 0 and 1, although CPU 1 is skipped. -/
theorem skipRun_inexact :
    ¬ ∀ (m : Machine) (dynamicAffinity : Bool) (ops : List SchedOp), m.Regular →
      Throughout (Sched.step m) (LayersExact m) (Sched.init m dynamicAffinity)
        (steps m (Sched.init m dynamicAffinity) ops) := by
  intro hall
  have hrun := hall (smallMachine [1]) false skipRun (smallMachine_regular [1])
  have hexact : LayersExact (smallMachine [1]) skipRunEnd := Throughout.last hrun
  have htaken : ∃ c ∈ (smallMachine [1]).topology, ∃ l ∈ skipRunEnd.layers c.id, ∃ id ∈ l.groups,
      ∃ g ∈ (skipRunEnd.groupMap id).toList, g.start ≤ 1 ∧ 1 < g.start + g.nrCpus ∧
        c.startCpu + 1 ∈ (smallMachine [1]).skipCpuSet := by
    decide +kernel
  obtain ⟨c, hc, l, hl, id, hid, g, hg, hlo, hhi, hskip⟩ := htaken
  exact (hexact c hc l hl).avoids id hid g (Option.mem_toList.mp hg) 1 hlo hhi hskip

end Sched

end UbsVirt.Vas
