import UbsVirt.Vas.Bitset
import Mathlib.Data.List.Dedup
import Mathlib.Data.List.Sort

/-!
# The CPU topology

The clusters of a machine and the CPUs the configuration tells the scheduler to leave alone.
A cluster that meets the skipped CPUs gets a bitmap cut from the CPU mask between its first
and its last CPU; the others get a bitmap of the size of CPU 0's cluster. Source:
`virt-awaresched/src/vasd/acquire/cpu_helper/cpu_helper.cpp`.
-/

namespace UbsVirt.Vas

open Areas List

/-- What is read of an online CPU; the CPUs of its cluster are a `std::set`.
`cpu_helper.h:28-43`. -/
structure CpuInfo where
  numaId : Nat
  cpuId : Nat
  clusterId : Nat
  clusterCpuSet : List Nat

/-- `cpu_helper.h:46-68`. -/
structure ClusterInfo where
  id : Nat
  numaId : Nat
  total : Nat
  cpuSet : List Nat
  bitMap : List Bool

namespace ClusterInfo

/-- `cluster_vm.h:73-79`; the clusters read from a machine are not empty. -/
def startCpu (cluster : ClusterInfo) : Nat :=
  cluster.cpuSet.headD 0

end ClusterInfo

/-- What the scheduler reads of the machine and its configuration when it starts. -/
structure Machine where
  /-- The online CPUs, in the order the directory lists them. -/
  cpuInfoList : List CpuInfo
  /-- `CLUSTER_CPU_NUM`, the number of CPUs of the cluster of CPU 0. -/
  clusterCpuNum : Nat
  /-- `MAX_CPU_NUM`. -/
  maxCpuNum : Nat
  /-- The configured CPUs to skip, each below `MAX_CPU_NUM` (others stop the daemon). -/
  skipCpuSet : List Nat
  /-- `GetGranularity()`, the CPUs one vCPU takes. -/
  granularity : Nat

namespace Machine

variable (m : Machine)

/-- The bitmap of a cluster with these CPUs. `cpu_helper.cpp:178-187`. -/
def clusterBitMap (clusterCpuSet : List Nat) : List Bool :=
  let clusterCpuMask := genDynamicBitsetByCpuSet m.maxCpuNum clusterCpuSet
  let skipCpuMask := genDynamicBitsetByCpuSet m.maxCpuNum m.skipCpuSet
  if isDynamicBitsetCross clusterCpuMask skipCpuMask then
    genClusterBitSetByCpuSet (dynamicBitsetAnd clusterCpuMask skipCpuMask) clusterCpuSet
  else List.replicate m.clusterCpuNum false

def clusterOf (cpu : CpuInfo) : ClusterInfo where
  id := cpu.clusterId
  numaId := cpu.numaId
  total := cpu.clusterCpuSet.length
  cpuSet := cpu.clusterCpuSet
  bitMap := m.clusterBitMap cpu.clusterCpuSet

/-- One CPU of the list: the first CPU with a cluster id defines the cluster. The map is
ordered by id. `cpu_helper.cpp:168-189`. -/
def addCpu (topology : List ClusterInfo) (cpu : CpuInfo) : List ClusterInfo :=
  if topology.any (·.id = cpu.clusterId) then topology
  else topology.orderedInsert (fun a b => a.id ≤ b.id) (m.clusterOf cpu)

/-- `GetCpuTopologyByCpuInfoList`, `cpu_helper.cpp:151-190`. -/
def topology : List ClusterInfo :=
  m.cpuInfoList.foldl m.addCpu []

/-- The clusters of a NUMA node, `numaClusterMap_[numaId]`. -/
def clustersOf (numaId : Nat) : List ClusterInfo :=
  m.topology.filter (·.numaId = numaId)

/-- `numaClusterMap_[numaId].find(clusterId)`. -/
def cluster (numaId clusterId : Nat) : Option ClusterInfo :=
  (m.clustersOf numaId).find? (·.id = clusterId)

/-- The NUMA nodes in ascending order, the keys of `numaClusterMap_`. -/
def numas : List Nat :=
  ((m.topology.map (·.numaId)).dedup).insertionSort (· ≤ ·)

/-- The online CPUs of a NUMA node, `numaCpusetMap`. `cpu_helper.cpp:137-144`. -/
def numaCpuset (numaId : Nat) : List Nat :=
  (m.cpuInfoList.filter (·.numaId = numaId)).map (·.cpuId)

/-- Every cluster is a run of consecutive CPUs below `MAX_CPU_NUM`, all have the size of CPU
0's, and a position in a cluster fits in an `int16_t`. -/
structure Regular : Prop where
  clusterCpuNum_pos : 0 < m.clusterCpuNum
  clusterCpuNum_lt : m.clusterCpuNum < 32768
  consecutive : ∀ cpu ∈ m.cpuInfoList, ∃ start,
    cpu.clusterCpuSet = List.range' start m.clusterCpuNum ∧
      start + m.clusterCpuNum ≤ m.maxCpuNum

variable {m}

theorem addCpu_nodup {topology : List ClusterInfo} (h : (topology.map (·.id)).Nodup)
    (cpu : CpuInfo) : ((m.addCpu topology cpu).map (·.id)).Nodup := by
  unfold addCpu
  split
  · exact h
  next hnew =>
  have hperm := perm_orderedInsert (fun a b : ClusterInfo => a.id ≤ b.id) (m.clusterOf cpu) topology
  rw [(hperm.map _).nodup_iff, map_cons, nodup_cons]
  refine ⟨?_, h⟩
  intro hmem
  apply hnew
  obtain ⟨c, hc, hid⟩ := mem_map.mp hmem
  simp only [any_eq_true, decide_eq_true_eq]
  exact ⟨c, hc, hid⟩

/-- Cluster ids are unique on the machine. -/
theorem topology_nodup : (m.topology.map (·.id)).Nodup := by
  have hfold : ∀ (cpus : List CpuInfo) (acc : List ClusterInfo), (acc.map (·.id)).Nodup →
      ((cpus.foldl m.addCpu acc).map (·.id)).Nodup := by
    intro cpus
    induction cpus with
    | nil => intro acc h; exact h
    | cons cpu cpus ih => intro acc h; exact ih _ (addCpu_nodup h cpu)
  exact hfold m.cpuInfoList [] nodup_nil

variable {c : ClusterInfo}

/-- Every cluster of the topology is that of some CPU. -/
theorem exists_of_mem_topology (h : c ∈ m.topology) :
    ∃ cpu ∈ m.cpuInfoList, c = m.clusterOf cpu := by
  have hfold : ∀ (cpus : List CpuInfo) (acc : List ClusterInfo), c ∈ cpus.foldl m.addCpu acc →
      c ∈ acc ∨ ∃ cpu ∈ cpus, c = m.clusterOf cpu := by
    intro cpus
    induction cpus with
    | nil => intro acc h; exact .inl h
    | cons cpu cpus ih =>
      intro acc h
      rcases ih _ h with hacc | ⟨cpu', hmem, heq⟩
      · unfold addCpu at hacc
        split at hacc
        · exact .inl hacc
        · rw [mem_orderedInsert] at hacc
          rcases hacc with heq | hacc
          · exact .inr ⟨cpu, mem_cons_self, heq⟩
          · exact .inl hacc
      · exact .inr ⟨cpu', mem_cons_of_mem _ hmem, heq⟩
  rcases hfold m.cpuInfoList [] h with hnil | hcpu
  · cases hnil
  · exact hcpu

theorem eq_of_id_eq {c' : ClusterInfo} (h : c ∈ m.topology) (h' : c' ∈ m.topology)
    (hid : c.id = c'.id) : c = c' :=
  inj_on_of_nodup_map topology_nodup h h' hid

/-- The id of a cluster selects it. -/
theorem filter_id_topology (h : c ∈ m.topology) : m.topology.filter (·.id = c.id) = [c] := by
  have hnodup := topology_nodup (m := m)
  generalize m.topology = topology at h hnodup
  induction topology with
  | nil => cases h
  | cons a rest ih =>
    rw [map_cons, nodup_cons] at hnodup
    by_cases heq : a.id = c.id
    · have hac : a = c := by
        rcases mem_cons.mp h with hca | hmem
        · exact hca.symm
        · exact absurd (mem_map.mpr ⟨c, hmem, heq.symm⟩) hnodup.1
      subst hac
      rw [filter_cons_of_pos (by simp), cons.injEq, filter_eq_nil_iff]
      refine ⟨rfl, ?_⟩
      intro b hb hid
      exact hnodup.1 (mem_map.mpr ⟨b, hb, by simpa using hid⟩)
    · rw [filter_cons_of_neg (by simp [heq])]
      apply ih _ hnodup.2
      rcases mem_cons.mp h with hca | hmem
      · exact absurd (by rw [hca]) heq
      · exact hmem

variable {numaId : Nat}

theorem mem_clustersOf : c ∈ m.clustersOf numaId ↔ c ∈ m.topology ∧ c.numaId = numaId := by
  simp [clustersOf]

theorem cluster_some {clusterId : Nat} (h : m.cluster numaId clusterId = some c) :
    c ∈ m.topology ∧ c.numaId = numaId ∧ c.id = clusterId := by
  have hmem := mem_clustersOf.mp (mem_of_find?_eq_some h)
  have hid := find?_some h
  exact ⟨hmem.1, hmem.2, by simpa using hid⟩

theorem mem_numas : numaId ∈ m.numas ↔ ∃ c ∈ m.topology, c.numaId = numaId := by
  unfold numas
  rw [mem_insertionSort]
  simp

/-! ### Regular machines -/

section

variable {c : ClusterInfo}

section

variable (h : m.Regular) (hc : c ∈ m.topology)
include h hc

theorem Regular.cpuSet_eq : c.cpuSet = range' c.startCpu m.clusterCpuNum ∧
      c.startCpu + m.clusterCpuNum ≤ m.maxCpuNum := by
  obtain ⟨cpu, hcpu, rfl⟩ := exists_of_mem_topology hc
  obtain ⟨start, hset, hle⟩ := h.consecutive cpu hcpu
  have hfirst : (m.clusterOf cpu).startCpu = start := by
    show cpu.clusterCpuSet.headD 0 = start
    rw [hset]
    obtain ⟨n, hn⟩ := Nat.exists_eq_succ_of_ne_zero (Nat.ne_of_gt h.clusterCpuNum_pos)
    rw [hn, range'_succ]
    rfl
  rw [hfirst]
  exact ⟨hset, hle⟩

theorem Regular.length_cpuSet : c.cpuSet.length = m.clusterCpuNum := by
  rw [(h.cpuSet_eq hc).1, length_range']

theorem Regular.total_eq : c.total = m.clusterCpuNum := by
  rw [← h.length_cpuSet hc]
  obtain ⟨cpu, -, rfl⟩ := exists_of_mem_topology hc
  rfl

/-- The bitmap of a cluster of a regular machine marks the skipped CPUs, and nothing else. -/
theorem Regular.getElem?_bitMap {i : Nat} (hi : i < m.clusterCpuNum) :
    c.bitMap[i]? = some (decide (c.startCpu + i ∈ m.skipCpuSet)) := by
  obtain ⟨hset, hle⟩ := h.cpuSet_eq hc
  have hmap : c.bitMap = m.clusterBitMap c.cpuSet := by
    obtain ⟨cpu, -, rfl⟩ := exists_of_mem_topology hc
    rfl
  generalize c.startCpu = start at hset hle ⊢
  rw [hmap, hset]
  have hmem : start + i ∈ range' start m.clusterCpuNum := by
    rw [mem_range'_1]
    omega
  have hcl := getElem?_genDynamicBitsetByCpuSet m.maxCpuNum
    (range' start m.clusterCpuNum) (i := start + i) (by omega)
  have hsk := getElem?_genDynamicBitsetByCpuSet m.maxCpuNum m.skipCpuSet (i := start + i) (by omega)
  have hlen := length_genDynamicBitsetByCpuSet m.maxCpuNum (range' start m.clusterCpuNum)
  have hlen' := length_genDynamicBitsetByCpuSet m.maxCpuNum m.skipCpuSet
  rw [decide_eq_true hmem] at hcl
  unfold clusterBitMap
  dsimp only
  generalize genDynamicBitsetByCpuSet m.maxCpuNum (range' start m.clusterCpuNum) = mask
    at hcl hlen ⊢
  generalize genDynamicBitsetByCpuSet m.maxCpuNum m.skipCpuSet = skip at hsk hlen' ⊢
  have hand : (zipWith (· && ·) mask skip)[start + i]? =
      some (decide (start + i ∈ m.skipCpuSet)) := by
    rw [getElem?_zipWith, hcl, hsk]
    simp
  split
  · have hhead : (range' start m.clusterCpuNum).head? = some start := by
      rw [head?_range', if_neg (by omega)]
    have hlast : (range' start m.clusterCpuNum).getLast? =
        some (start + m.clusterCpuNum - 1) := by
      rw [getLast?_range', if_neg (by omega)]
    unfold genClusterBitSetByCpuSet dynamicBitsetAnd
    rw [hhead, hlast, if_neg (by omega)]
    dsimp only
    rw [if_neg (by rw [length_zipWith]; omega), getElem?_take_of_lt (by omega), getElem?_drop, hand]
  · next hcross =>
    rw [getElem?_replicate, if_pos hi]
    congr 1
    symm
    rw [decide_eq_false_iff_not]
    intro hskip
    apply hcross
    rw [decide_eq_true hskip] at hand
    unfold isDynamicBitsetCross
    rw [any_eq_true]
    exact ⟨true, mem_of_getElem? hand, rfl⟩

theorem Regular.length_bitMap : c.bitMap.length = m.clusterCpuNum := by
  obtain ⟨hset, hle⟩ := h.cpuSet_eq hc
  have hpos := h.clusterCpuNum_pos
  have hmap : c.bitMap = m.clusterBitMap c.cpuSet := by
    obtain ⟨cpu, -, rfl⟩ := exists_of_mem_topology hc
    rfl
  generalize c.startCpu = start at hset hle
  rw [hmap, hset]
  unfold clusterBitMap
  dsimp only
  have hlen := length_genDynamicBitsetByCpuSet m.maxCpuNum (range' start m.clusterCpuNum)
  have hlen' := length_genDynamicBitsetByCpuSet m.maxCpuNum m.skipCpuSet
  split
  · unfold genClusterBitSetByCpuSet dynamicBitsetAnd
    rw [head?_range', if_neg (by omega), getLast?_range', if_neg (by omega), if_neg (by omega)]
    dsimp only
    rw [if_neg (by rw [length_zipWith]; omega), length_take, length_drop, length_zipWith]
    omega
  · exact length_replicate

end

end

end Machine

end UbsVirt.Vas
