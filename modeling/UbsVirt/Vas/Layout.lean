import UbsVirt.Vas.Changes
import Mathlib.Algebra.BigOperators.Group.Finset.Basic

/-!
# The layout of the groups

Which group holds which CPUs of which layer is written down in four places: the bitmap and
the counter of the layer, its set of groups, the table of groups and the lists of the
domains. `Layout` says how they belong together; it is kept when a group leaves its layer and
when one is bound to a clear area. Source: `cluster_sched.cpp:826-980,1252-1437`.
-/

namespace UbsVirt.Vas

open Areas Maps Function List

namespace Sched

/-- The group is in the layer its id names. -/
def InLayer (s : Sched) (id : GroupId) : Prop :=
  ∃ l, s.layer id.clusterId id.layerId = some l ∧ id ∈ l.groups

def Listed (s : Sched) (id : GroupId) : Prop :=
  ∃ d, s.domainMap id.domainKey = some d ∧ id ∈ d.groups

def areas (s : Sched) (l : ClusterLayer) (id : GroupId) : Option (Nat × Nat) :=
  if id ∈ l.groups then (s.groupMap id).map fun g => (g.start, g.nrCpus) else none

/-- The number of layers every cluster has: one, and one for every time a node was raised. -/
def depth (m : Machine) (s : Sched) : Nat :=
  1 + ∑ numaId ∈ m.numas.toFinset, (s.overProvision numaId - 1)

/-- The layer records its areas, and its groups are those of domains on the node. -/
structure LayerInv (m : Machine) (s : Sched) (c : ClusterInfo) (layerId : Nat) (l : ClusterLayer) :
    Prop where
  carved : Carved c.bitMap l.usedBitmap (s.areas l)
  idle : l.idle = l.usedBitmap.count false
  total : l.total = c.total
  nodup : l.groups.Nodup
  place : ∀ id ∈ l.groups, id.clusterId = c.id ∧ id.layerId = layerId ∧
    id.domainKey.numaId = c.numaId
  level : ∀ id ∈ l.groups, layerId < s.overProvision c.numaId
  group : ∀ id ∈ l.groups, ∃ g, s.groupMap id = some g ∧ 0 < g.nrCpus
  listed : ∀ id ∈ l.groups, s.Listed id

/-- The clusters have as many layers as the levels say. -/
structure Heights (m : Machine) (s : Sched) : Prop where
  length_layers : ∀ c ∈ m.topology, (s.layers c.id).length = s.depth m
  level_pos : ∀ numaId, 0 < s.overProvision numaId ↔ numaId ∈ m.numas

/-- The layers, the groups and the lists of the domains belong together. A domain may list a
group that is gone, but a group it lists is in its layer. -/
structure Layout (m : Machine) (s : Sched) : Prop extends Heights m s where
  layers : ∀ c ∈ m.topology, ∀ i l, s.layer c.id i = some l → LayerInv m s c i l
  groupId : ∀ id g, s.groupMap id = some g → g.id = id
  domainKey : ∀ key d, s.domainMap key = some d → d.key = key
  nodup : ∀ key d, s.domainMap key = some d → d.groups.Nodup
  owned : ∀ key d, s.domainMap key = some d → ∀ id ∈ d.groups, id.domainKey = key
  present : ∀ key d, s.domainMap key = some d → ∀ id ∈ d.groups, (s.groupMap id).isSome →
    s.InLayer id ∧ (m.cluster key.numaId id.clusterId).isSome

/-! ### The number of layers -/

variable {c : ClusterInfo} {i : Nat} {l : ClusterLayer}

section

variable {m : Machine} {s s' : Sched} {numaId layerId : Nat}

theorem Heights.congr (h : Heights m s) (hlen : ∀ c, (s'.layers c).length = (s.layers c).length)
    (hop : s'.overProvision = s.overProvision) : Heights m s' := by
  constructor
  · intro c hc
    rw [hlen, h.length_layers c hc]
    unfold depth
    rw [hop]
  · rw [hop]
    exact h.level_pos

/-- How a change of one node's level changes the number of layers. -/
theorem depth_update (hn : numaId ∈ m.numas) (level : Nat)
    (hop : s'.overProvision = update s.overProvision numaId level) :
    s'.depth m + (s.overProvision numaId - 1) = s.depth m + (level - 1) := by
  have hmem : numaId ∈ m.numas.toFinset := mem_toFinset.mpr hn
  unfold depth
  rw [← Finset.add_sum_erase _ _ hmem, ← Finset.add_sum_erase m.numas.toFinset
    (fun n => s.overProvision n - 1) hmem, hop, update_self]
  have hrest : ∑ n ∈ m.numas.toFinset.erase numaId, (update s.overProvision numaId level n - 1) =
        ∑ n ∈ m.numas.toFinset.erase numaId, (s.overProvision n - 1) := by
    apply Finset.sum_congr rfl
    intro n hne
    rw [update_of_ne (Finset.ne_of_mem_erase hne)]
  rw [hrest]
  omega

/-- A level above zero that changes to another one. -/
theorem Heights.level_pos_update (h : Heights m s) (hn : numaId ∈ m.numas) {level : Nat}
    (hpos : 0 < level) (n : Nat) :
    0 < update s.overProvision numaId level n ↔ n ∈ m.numas := by
  rw [update_apply]
  split
  · next heq =>
    rw [heq]
    exact iff_of_true hpos hn
  · exact h.level_pos n

theorem overProvisionUp_cases (numaId : Nat) : s.overProvisionUp m numaId = s ∨
    0 < s.overProvision numaId ∧ s.overProvision numaId < maxOverProvision ∧
      (s.overProvisionUp m numaId).overProvision =
        update s.overProvision numaId (s.overProvision numaId + 1) ∧
      ∀ c ∈ m.topology, (s.overProvisionUp m numaId).layers c.id =
        s.layers c.id ++ [freshLayer c] := by
  unfold overProvisionUp
  split
  · next hguard =>
    refine .inr ⟨hguard.1, hguard.2.1, rfl, fun c hc => ?_⟩
    show s.layers c.id ++ _ = _
    rw [Machine.filter_id_topology hc]
    rfl
  · exact .inl rfl

theorem Heights.layerUp (h : Heights m s) (numaId : Nat) :
    Heights m (s.overProvisionUp m numaId) := by
  rcases s.overProvisionUp_cases (m := m) numaId with heq | ⟨hpos, -, hop, hlayers⟩
  · rwa [heq]
  · have hn := (h.level_pos numaId).mp hpos
    constructor
    · intro c hc
      have hdepth := depth_update hn (s.overProvision numaId + 1) hop
      rw [hlayers c hc, length_append, h.length_layers c hc, length_singleton]
      omega
    · rw [hop]
      exact h.level_pos_update hn (Nat.succ_pos _)

/-- A layer after a raise is one from before, or a new one. -/
theorem overProvisionUp_layer (hc : c ∈ m.topology)
    (hl : (s.overProvisionUp m numaId).layer c.id i = some l) :
    s.layer c.id i = some l ∨ l = freshLayer c := by
  rcases s.overProvisionUp_cases (m := m) numaId with heq | ⟨-, -, -, hlayers⟩
  · rw [heq] at hl
    exact .inl hl
  · unfold layer at hl ⊢
    rw [hlayers c hc, getElem?_append] at hl
    split at hl
    · exact .inl hl
    · exact .inr (mem_singleton.mp (mem_of_getElem? hl))

theorem layer_overProvisionUp {c : Nat} (hl : s.layer c i = some l) :
    (s.overProvisionUp m numaId).layer c i = some l := by
  unfold overProvisionUp
  split
  · unfold layer at hl ⊢
    dsimp only
    rwa [getElem?_append_left (List.getElem?_eq_some_iff.mp hl).1]
  · exact hl

theorem le_overProvisionUp (n : Nat) :
    s.overProvision n ≤ (s.overProvisionUp m numaId).overProvision n := by
  rcases s.overProvisionUp_cases (m := m) numaId with heq | ⟨-, -, hop, -⟩
  · rw [heq]
  · rw [hop, update_apply]
    split
    · next heq =>
      rw [heq]
      omega
    · exact le_refl _

/-- The level of a node and the raises of another one both fit in the number of layers. -/
theorem level_add_le {n n' : Nat} (hn : n ∈ m.numas) (hn' : n' ∈ m.numas) (hne : n' ≠ n)
    (hpos : 0 < s.overProvision n') :
    s.overProvision n' + (s.overProvision n - 1) ≤ s.depth m := by
  have hmem : n ∈ m.numas.toFinset := mem_toFinset.mpr hn
  have hmem' : n' ∈ m.numas.toFinset.erase n :=
    Finset.mem_erase.mpr ⟨hne, mem_toFinset.mpr hn'⟩
  unfold depth
  rw [← Finset.add_sum_erase _ _ hmem, ← Finset.add_sum_erase _ _ hmem']
  omega

theorem level_le_depth {n : Nat} (hn : n ∈ m.numas) (hpos : 0 < s.overProvision n) :
    s.overProvision n ≤ s.depth m := by
  have hmem : n ∈ m.numas.toFinset := mem_toFinset.mpr hn
  unfold depth
  rw [← Finset.add_sum_erase _ _ hmem]
  omega

theorem overProvisionDown_cases (numaId layerId : Nat) : s.overProvisionDown m numaId layerId = s ∨
    layerId + 1 < s.overProvision numaId ∧ s.lastLayerEmpty m numaId = true ∧
      (s.overProvisionDown m numaId layerId).overProvision =
        update s.overProvision numaId (s.overProvision numaId - 1) ∧
      ∀ c, (s.overProvisionDown m numaId layerId).layers c = (s.layers c).dropLast := by
  unfold overProvisionDown
  split
  · next hguard => exact .inr ⟨hguard.1, hguard.2.1, rfl, fun c => rfl⟩
  · exact .inl rfl

theorem Heights.layerDown (h : Heights m s) (numaId layerId : Nat) :
    Heights m (s.overProvisionDown m numaId layerId) := by
  rcases s.overProvisionDown_cases (m := m) numaId layerId with heq | ⟨hlevel, -, hop, hlayers⟩
  · rwa [heq]
  · have hn := (h.level_pos numaId).mp (by omega)
    constructor
    · intro c hc
      have hdepth := depth_update hn (s.overProvision numaId - 1) hop
      rw [hlayers, length_dropLast, h.length_layers c hc]
      omega
    · rw [hop]
      exact h.level_pos_update hn (by omega)

theorem overProvisionDown_layer {c : Nat}
    (hl : (s.overProvisionDown m numaId layerId).layer c i = some l) : s.layer c i = some l := by
  rcases s.overProvisionDown_cases (m := m) numaId layerId with heq | ⟨-, -, -, hlayers⟩
  · rwa [heq] at hl
  · unfold layer at hl ⊢
    rw [hlayers, getElem?_dropLast] at hl
    split at hl
    · exact hl
    · cases hl

/-- A layer in use below its node's level: when the last layer of a node is dropped, it stays,
and stays below the level. -/
theorem Heights.layer_down (h : Heights m s) (numaId layerId : Nat) (hc : c ∈ m.topology)
    (hl : s.layer c.id i = some l) (hi : i < s.overProvision c.numaId)
    (hused : l.total ≠ l.idle) : (s.overProvisionDown m numaId layerId).layer c.id i = some l ∧
      i < (s.overProvisionDown m numaId layerId).overProvision c.numaId ∧
      (s.overProvisionDown m numaId layerId = s ∨ i + 1 < s.depth m) := by
  rcases s.overProvisionDown_cases (m := m) numaId layerId with heq | ⟨hlevel, hempty, hop, hlayers⟩
  · rw [heq]
    exact ⟨hl, hi, .inl rfl⟩
  have hn : numaId ∈ m.numas := (h.level_pos numaId).mp (by omega)
  -- the last layer of the node is unused, so it is not this one
  have hown : c.numaId = numaId → i + 1 ≠ s.overProvision numaId := by
    intro hnuma hlast
    unfold lastLayerEmpty at hempty
    have hunused := all_eq_true.mp hempty c (Machine.mem_clustersOf.mpr ⟨hc, hnuma⟩)
    rw [show s.overProvision numaId - 1 = i by omega, hl] at hunused
    exact hused (by simpa using hunused)
  have hdepth : i + 1 < s.depth m := by
    by_cases hnuma : c.numaId = numaId
    · have := hown hnuma
      have := level_le_depth (s := s) hn (by omega)
      rw [hnuma] at hi
      omega
    · have := level_add_le (s := s) hn (Machine.mem_numas.mpr ⟨c, hc, rfl⟩) hnuma (by omega)
      omega
  refine ⟨?_, ?_, .inr hdepth⟩
  · unfold layer at hl ⊢
    rw [hlayers, getElem?_dropLast, if_pos]
    · exact hl
    · rw [h.length_layers c hc]
      omega
  · rw [hop, update_apply]
    split
    · next hnuma =>
      have := hown hnuma
      rw [hnuma] at hi
      omega
    · exact hi

/-- A state without groups, with one layer per cluster. -/
structure IsFresh (m : Machine) (s : Sched) : Prop where
  layers : s.layers = fun id => (m.topology.filter (·.id = id)).map freshLayer
  groupMap : ∀ id, s.groupMap id = none
  overProvision : ∀ n, s.overProvision n = if n ∈ m.numas then 1 else 0

theorem IsFresh.init (dynamicAffinity : Bool) : IsFresh m (Sched.init m dynamicAffinity) :=
  ⟨rfl, fun _ => rfl, fun _ => rfl⟩

theorem Heights.restore (h : Heights m s) (dynamicAffinity : Bool) :
    IsFresh m (s.restoreVmInfo m dynamicAffinity) := by
  refine ⟨rfl, fun _ => rfl, fun n => ?_⟩
  show (if n ∈ m.numas then 1 else s.overProvision n) = _
  split
  · rfl
  · next hn =>
    have := (h.level_pos n).not.mpr hn
    omega

theorem IsFresh.layer (h : IsFresh m s) (hc : c ∈ m.topology) (hl : s.layer c.id i = some l) :
    l = freshLayer c := by
  have hmem := mem_of_getElem? hl
  rw [h.layers] at hmem
  change l ∈ ((m.topology.filter (·.id = c.id)).map freshLayer) at hmem
  rw [Machine.filter_id_topology hc] at hmem
  exact mem_singleton.mp hmem

theorem IsFresh.no_group (h : IsFresh m s) (id : GroupId) (g : VmGroup) :
    s.groupMap id ≠ some g := by
  rw [h.groupMap]
  nofun

theorem IsFresh.heights (h : IsFresh m s) : Heights m s := by
  constructor
  · intro c hc
    rw [h.layers]
    show ((m.topology.filter (·.id = c.id)).map freshLayer).length = _
    rw [Machine.filter_id_topology hc]
    unfold depth
    rw [Finset.sum_eq_zero]
    · rfl
    · intro n hn
      rw [h.overProvision, if_pos (mem_toFinset.mp hn)]
      rfl
  · intro n
    rw [h.overProvision]
    split
    · next hn => exact iff_of_true Nat.one_pos hn
    · next hn => exact iff_of_false (Nat.lt_irrefl 0) hn

end

/-! ### One layer -/

variable {id : GroupId}

section

variable {m : Machine} {s s' : Sched} {c : ClusterInfo} {i : Nat} {l : ClusterLayer} {g : VmGroup}

theorem areas_of_mem (hid : id ∈ l.groups) (hg : s.groupMap id = some g) :
    s.areas l id = some (g.start, g.nrCpus) := by
  unfold areas
  rw [if_pos hid, hg]
  rfl

theorem areas_some {area : Nat × Nat} (h : s.areas l id = some area) :
    id ∈ l.groups ∧ ∃ g, s.groupMap id = some g ∧ area = (g.start, g.nrCpus) := by
  unfold areas at h
  split at h
  · next hid =>
    refine ⟨hid, ?_⟩
    cases hg : s.groupMap id with
    | none => simp [hg] at h
    | some g =>
      rw [hg] at h
      exact ⟨g, rfl, (Option.some.inj h).symm⟩
  · cases h

/-- A group whose place has not changed. -/
theorem place_some {g' : VmGroup}
    (h : (s'.groupMap id).map VmGroup.place = (s.groupMap id).map VmGroup.place)
    (hg' : s'.groupMap id = some g') :
    ∃ g, s.groupMap id = some g ∧ g'.id = g.id ∧ g'.start = g.start ∧ g'.nrCpus = g.nrCpus := by
  rw [hg', Option.map_some, eq_comm, Option.map_eq_some_iff] at h
  obtain ⟨g, hg, hplace⟩ := h
  unfold VmGroup.place at hplace
  rw [Prod.mk.injEq, Prod.mk.injEq] at hplace
  exact ⟨g, hg, hplace.1.symm, hplace.2.1.symm, hplace.2.2.symm⟩

/-- A group with other threads has the place it had. -/
theorem place_update {g' : VmGroup} (hg : s.groupMap g.id = some g)
    (hplace : g'.place = g.place) (id : GroupId) :
    (update s.groupMap g.id (some g') id).map VmGroup.place =
      (s.groupMap id).map VmGroup.place := by
  rw [update_apply]
  split
  · next heq => rw [heq, hg, Option.map_some, Option.map_some, hplace]
  · rfl

/-- A layer does not notice changes elsewhere. -/
theorem LayerInv.frame (h : LayerInv m s c i l)
    (hgroup : ∀ id ∈ l.groups, (s'.groupMap id).map VmGroup.place =
      (s.groupMap id).map VmGroup.place) (hlisted : ∀ id ∈ l.groups, s.Listed id → s'.Listed id)
    (hlevel : ∀ id ∈ l.groups, i < s'.overProvision c.numaId) : LayerInv m s' c i l := by
  have hsame : ∀ id ∈ l.groups, ∀ g, s.groupMap id = some g →
      ∃ g', s'.groupMap id = some g' ∧ g.start = g'.start ∧ g.nrCpus = g'.nrCpus := by
    intro id hid g hg
    obtain ⟨g', hg', -, hplace⟩ := place_some (hgroup id hid).symm hg
    exact ⟨g', hg', hplace⟩
  refine ⟨?_, h.idle, h.total, h.nodup, h.place, hlevel, ?_, fun id hid => hlisted id hid
    (h.listed id hid)⟩
  · apply h.carved.congr
    intro id
    unfold areas
    split
    · next hid =>
      obtain ⟨g, hg, -⟩ := h.group id hid
      obtain ⟨g', hg', hstart, hnr⟩ := hsame id hid g hg
      rw [hg, hg', Option.map_some, Option.map_some, hstart, hnr]
    · rfl
  · intro id hid
    obtain ⟨g, hg, hpos⟩ := h.group id hid
    obtain ⟨g', hg', -, hnr⟩ := hsame id hid g hg
    exact ⟨g', hg', by omega⟩

theorem addU16_eq {a b : Nat} (h : a + b < 65536) : addU16 a b = a + b :=
  Nat.mod_eq_of_lt h

theorem subU16_eq {a b : Nat} (hle : b ≤ a) (h : a < 65536) : subU16 a b = a - b := by
  unfold subU16
  omega

theorem LayerInv.count_lt (hm : m.Regular) (hc : c ∈ m.topology) (h : LayerInv m s c i l) :
    l.usedBitmap.count false < 65536 := by
  have hle : l.usedBitmap.count false ≤ l.usedBitmap.length := count_le_length
  rw [h.carved.length_eq, hm.length_bitMap hc] at hle
  have := hm.clusterCpuNum_lt
  omega

theorem mem_delGroup (h : l.groups.Nodup) :
    id ∈ (l.delGroup g).groups ↔ id ≠ g.id ∧ id ∈ l.groups := by
  show id ∈ l.groups.erase g.id ↔ _
  exact h.mem_erase_iff

theorem mem_addGroup : id ∈ (l.addGroup g).groups ↔ id = g.id ∨ id ∈ l.groups := by
  show id ∈ setInsert GroupId.Le g.id l.groups ↔ _
  exact mem_setInsert

/-- The area a group of the layer holds. -/
theorem LayerInv.isArea (h : LayerInv m s c i l) (hid : g.id ∈ l.groups)
    (hg : s.groupMap g.id = some g) : 0 < g.nrCpus ∧ IsArea true g.start g.nrCpus l.usedBitmap ∧
      g.start + g.nrCpus ≤ l.usedBitmap.length := by
  obtain ⟨g', hg', hpos⟩ := h.group _ hid
  rw [hg] at hg'
  cases hg'
  have hmarked : IsArea true g.start g.nrCpus l.usedBitmap := h.carved.isArea (areas_of_mem hid hg)
  exact ⟨hpos, hmarked, hmarked.le_length hpos⟩

section

variable (hm : m.Regular) (hc : c ∈ m.topology) (h : LayerInv m s c i l)
include hm hc h

/-- What a group gives back is not too much for the counter. -/
theorem LayerInv.addU16_idle (hid : g.id ∈ l.groups) (hg : s.groupMap g.id = some g) :
    addU16 l.idle g.nrCpus = l.idle + g.nrCpus ∧ l.idle + g.nrCpus < 65536 ∧
      (fill false g.start g.nrCpus l.usedBitmap).count false = l.idle + g.nrCpus := by
  obtain ⟨-, hmarked, hlen⟩ := h.isArea hid hg
  have hcount := count_fill_false hmarked hlen
  have hbound : (fill false g.start g.nrCpus l.usedBitmap).count false ≤
      (fill false g.start g.nrCpus l.usedBitmap).length := count_le_length
  rw [length_fill hlen, h.carved.length_eq, hm.length_bitMap hc] at hbound
  have hlt := hm.clusterCpuNum_lt
  rw [h.idle]
  exact ⟨addU16_eq (by omega), by omega, hcount⟩

/-- Taking a group out of its layer. -/
theorem LayerInv.delGroup (hid : g.id ∈ l.groups) (hg : s.groupMap g.id = some g) :
    LayerInv m s c i (l.delGroup g) := by
  obtain ⟨hpos, -, hlen⟩ := h.isArea hid hg
  obtain ⟨hidle, -, hcount⟩ := h.addU16_idle hm hc hid hg
  have hmem : ∀ id, id ∈ (l.delGroup g).groups ↔ id ≠ g.id ∧ id ∈ l.groups :=
    fun id => mem_delGroup h.nodup
  have hbits : (l.delGroup g).usedBitmap = fill false g.start g.nrCpus l.usedBitmap :=
    dynamicBitsetClear_eq hlen hpos
  constructor
  · rw [hbits]
    apply (h.carved.release (areas_of_mem hid hg)).congr
    intro id
    unfold areas
    rw [update_apply]
    by_cases hidg : id = g.id
    · rw [if_pos hidg, if_neg]
      intro hcon
      exact ((hmem id).mp hcon).1 hidg
    · rw [if_neg hidg]
      by_cases hin : id ∈ l.groups
      · rw [if_pos hin, if_pos ((hmem id).mpr ⟨hidg, hin⟩)]
      · rw [if_neg hin, if_neg (fun hcon => hin ((hmem id).mp hcon).2)]
  · rwa [hbits, hcount]
  · exact h.total
  · exact h.nodup.erase g.id
  · exact fun id hin => h.place id ((hmem id).mp hin).2
  · exact fun id hin => h.level id ((hmem id).mp hin).2
  · exact fun id hin => h.group id ((hmem id).mp hin).2
  · exact fun id hin => h.listed id ((hmem id).mp hin).2

/-- Putting a group into a layer at a clear area. -/
theorem LayerInv.addGroup
    (hnew : g.id ∉ l.groups) (hclear : IsArea false g.start g.nrCpus l.usedBitmap)
    (hpos : 0 < g.nrCpus)
    (hplace : g.id.clusterId = c.id ∧ g.id.layerId = i ∧ g.id.domainKey.numaId = c.numaId)
    (hlevel : i < s.overProvision c.numaId) (hg : s.groupMap g.id = some g)
    (hlist : s.Listed g.id) : LayerInv m s c i (l.addGroup g) := by
  have hlen := hclear.le_length hpos
  have hcount := count_fill_true hclear hlen
  have hlt := h.count_lt hm hc
  have hbits : (l.addGroup g).usedBitmap = fill true g.start g.nrCpus l.usedBitmap :=
    dynamicBitsetSet_eq hlen hpos
  have hnone : s.areas l g.id = none := by
    unfold areas
    rw [if_neg hnew]
  -- a property of the groups that the new one has too
  have hall : ∀ p : GroupId → Prop, p g.id → (∀ id ∈ l.groups, p id) →
      ∀ id ∈ (l.addGroup g).groups, p id := by
    intro p hp hold id hid
    rcases mem_addGroup.mp hid with rfl | hin
    · exact hp
    · exact hold id hin
  constructor
  · rw [hbits]
    apply (h.carved.carve (g.start, g.nrCpus) hnone hclear hlen).congr
    intro id
    unfold areas
    rw [update_apply]
    by_cases hid : id = g.id
    · subst hid
      rw [if_pos rfl, if_pos (mem_addGroup.mpr (.inl rfl)), hg]
      rfl
    · have hiff : id ∈ (l.addGroup g).groups ↔ id ∈ l.groups := by
        rw [mem_addGroup, or_iff_right hid]
      rw [if_neg hid, if_congr hiff rfl rfl]
  · rw [hbits]
    show subU16 l.idle g.nrCpus = _
    rw [subU16_eq (by rw [h.idle]; omega) (by rw [h.idle]; exact hlt), h.idle]
    omega
  · exact h.total
  · exact nodup_setInsert h.nodup
  · exact hall _ hplace h.place
  · exact fun _ _ => hlevel
  · exact hall _ ⟨g, hg, hpos⟩ h.group
  · exact hall _ hlist h.listed

end

/-- A layer nobody has CPUs in. -/
theorem LayerInv.fresh : LayerInv m s c i (freshLayer c) := by
  have hnil : ∀ id, id ∉ (freshLayer c).groups := fun id => not_mem_nil
  constructor
  · apply Carved.fresh
    intro id
    unfold areas
    rw [if_neg (hnil id)]
  · rfl
  · rfl
  · exact nodup_nil
  all_goals exact fun id hid => absurd hid (hnil id)

/-- A layer whose CPUs are all idle has no group. -/
theorem LayerInv.eq_nil_of_idle (hm : m.Regular) (hc : c ∈ m.topology) (h : LayerInv m s c i l)
    (hidle : l.total = l.idle) (id : GroupId) : id ∉ l.groups := by
  intro hid
  obtain ⟨g, hg, hpos⟩ := h.group id hid
  have hcount : l.usedBitmap.count false = l.usedBitmap.length := by
    rw [← h.idle, ← hidle, h.total, hm.total_eq hc, h.carved.length_eq, hm.length_bitMap hc]
  have := h.carved.eq_zero_of_clear hcount (areas_of_mem hid hg)
  dsimp only at this
  omega

theorem LayerInv.mem_iff_congr {l' : ClusterLayer} (h : LayerInv m s c i l)
    (hbits : l'.usedBitmap = l.usedBitmap) (hidle : l'.idle = l.idle)
    (htotal : l'.total = l.total) (hnodup : l'.groups.Nodup)
    (hmem : ∀ id, id ∈ l'.groups ↔ id ∈ l.groups) : LayerInv m s c i l' := by
  constructor
  · rw [hbits]
    apply h.carved.congr
    intro id
    unfold areas
    by_cases hid : id ∈ l.groups
    · rw [if_pos hid, if_pos ((hmem id).mpr hid)]
    · rw [if_neg hid, if_neg (fun hcon => hid ((hmem id).mp hcon))]
  · rw [hidle, hbits, h.idle]
  · rw [htotal, h.total]
  · exact hnodup
  · exact fun id hid => h.place id ((hmem id).mp hid)
  · exact fun id hid => h.level id ((hmem id).mp hid)
  · exact fun id hid => h.group id ((hmem id).mp hid)
  · exact fun id hid => h.listed id ((hmem id).mp hid)

/-- A group that returns to its layer finds it as it was. -/
theorem LayerInv.addGroup_delGroup (hm : m.Regular) (hc : c ∈ m.topology) (h : LayerInv m s c i l)
    (hid : g.id ∈ l.groups) (hg : s.groupMap g.id = some g) :
    LayerInv m s c i ((l.delGroup g).addGroup g) := by
  obtain ⟨hpos, hmarked, hlen⟩ := h.isArea hid hg
  obtain ⟨hidle, hlt, -⟩ := h.addU16_idle hm hc hid hg
  apply h.mem_iff_congr
  · show dynamicBitsetSet (dynamicBitsetClear l.usedBitmap g.start g.nrCpus) g.start g.nrCpus = _
    rw [dynamicBitsetClear_eq hlen hpos,
      dynamicBitsetSet_eq (by rw [length_fill hlen]; exact hlen) hpos, fill_fill hlen,
      fill_eq_self hmarked hlen]
  · show subU16 (addU16 l.idle g.nrCpus) g.nrCpus = l.idle
    rw [hidle, subU16_eq (by omega) hlt]
    omega
  · rfl
  · exact nodup_setInsert (h.nodup.erase _)
  · intro id
    rw [mem_addGroup, mem_delGroup h.nodup]
    by_cases heq : id = g.id
    · simp [heq, hid]
    · simp [heq]

end

/-! ### Changes of the layout -/

section

variable {m : Machine} {s s' : Sched}

/-- A domain may give up groups that are gone, or go. -/
theorem Listed.relist (h : s.Listed id) (hsome : (s.groupMap id).isSome)
    {key : DomainKey} {d : VmDomain} {d' : Option VmDomain} (hd : s.domainMap key = some d)
    (hkeep : ∀ id ∈ d.groups, (s.groupMap id).isSome → ∃ e ∈ d', id ∈ e.groups) :
    (s.setDomain key d').Listed id := by
  obtain ⟨e, he, hid⟩ := h
  by_cases heq : id.domainKey = key
  · rw [heq, hd] at he
    cases he
    obtain ⟨e, he, hid⟩ := hkeep id hid hsome
    exact ⟨e, by rw [heq]; exact (update_self ..).trans he, hid⟩
  · exact ⟨e, (update_of_ne heq ..).trans he, hid⟩

theorem Listed.newDomain (h : s.Listed id) {key : DomainKey}
    (hnone : s.domainMap key = none) (d' : Option VmDomain) : (s.setDomain key d').Listed id := by
  obtain ⟨e, he, hid⟩ := h
  refine ⟨e, (update_of_ne ?_ ..).trans he, hid⟩
  intro heq
  rw [heq, hnone] at he
  cases he

/-- The layout does not depend on the threads, and domains may list less. -/
theorem Layout.frame (h : Layout m s) (hlayers : s'.layers = s.layers)
    (hop : s'.overProvision = s.overProvision)
    (hgroups : ∀ id, (s'.groupMap id).map VmGroup.place = (s.groupMap id).map VmGroup.place)
    (hlisted : ∀ id, (s.groupMap id).isSome → s.Listed id → s'.Listed id)
    (hdomain : ∀ key d', s'.domainMap key = some d' → d'.key = key ∧
      ∃ ids, d'.groups.Sublist ids ∧ (ids = [] ∨ ∃ d, s.domainMap key = some d ∧ d.groups = ids)) :
    Layout m s' := by
  have hlayer : ∀ c i, s'.layer c i = s.layer c i := by
    intro c i
    unfold layer
    rw [hlayers]
  have hold : ∀ key d', s'.domainMap key = some d' → ∀ id ∈ d'.groups,
      ∃ d, s.domainMap key = some d ∧ id ∈ d.groups := by
    intro key d' hd' id hid
    obtain ⟨-, ids, hsub, rfl | ⟨d, hd, rfl⟩⟩ := hdomain key d' hd'
    · exact absurd (hsub.subset hid) not_mem_nil
    · exact ⟨d, hd, hsub.subset hid⟩
  constructor
  · exact h.toHeights.congr (fun c => by rw [hlayers]) hop
  · intro c hc i l hl
    rw [hlayer] at hl
    have hinv := h.layers c hc i l hl
    apply hinv.frame
    · exact fun id _ => hgroups id
    · intro id hid
      obtain ⟨g, hg, -⟩ := hinv.group id hid
      exact hlisted id (by rw [hg]; rfl)
    · rw [hop]
      exact hinv.level
  · intro id g' hg'
    obtain ⟨g, hg, heq, -⟩ := place_some (hgroups id) hg'
    rw [heq]
    exact h.groupId id g hg
  · exact fun key d' hd' => (hdomain key d' hd').1
  · intro key d' hd'
    obtain ⟨-, ids, hsub, rfl | ⟨d, hd, rfl⟩⟩ := hdomain key d' hd'
    · exact nodup_nil.sublist hsub
    · exact (h.nodup key d hd).sublist hsub
  · intro key d' hd' id hid
    obtain ⟨d, hd, hin⟩ := hold key d' hd' id hid
    exact h.owned key d hd id hin
  · intro key d' hd' id hid hsome
    obtain ⟨d, hd, hin⟩ := hold key d' hd' id hid
    obtain ⟨g', hg'⟩ := Option.isSome_iff_exists.mp hsome
    obtain ⟨g, hg, -⟩ := place_some (hgroups id) hg'
    obtain ⟨⟨l, hl, hin⟩, hcluster⟩ := h.present key d hd id hin (by rw [hg]; rfl)
    exact ⟨⟨l, by rw [hlayer]; exact hl, hin⟩, hcluster⟩

/-- Nothing changes but one group and what is recorded of it. -/
structure Elsewhere (id₀ : GroupId) (s s' : Sched) : Prop where
  overProvision : s'.overProvision = s.overProvision
  length : ∀ c, (s'.layers c).length = (s.layers c).length
  group : ∀ id, id ≠ id₀ →
    (s'.groupMap id).map VmGroup.place = (s.groupMap id).map VmGroup.place
  listed : ∀ id, id ≠ id₀ → (s.groupMap id).isSome → s.Listed id → s'.Listed id

theorem LayerInv.elsewhere (h : LayerInv m s c i l)
    {id₀ : GroupId} (hs : Elsewhere id₀ s s') (hnot : id₀ ∉ l.groups) : LayerInv m s' c i l := by
  have hne : ∀ id ∈ l.groups, id ≠ id₀ := fun id hid => ne_of_mem_of_not_mem hid hnot
  apply h.frame
  · exact fun id hid => hs.group id (hne id hid)
  · intro id hid
    obtain ⟨g, hg, -⟩ := h.group id hid
    exact hs.listed id (hne id hid) (by rw [hg]; rfl)
  · rw [hs.overProvision]
    exact h.level

/-- The layer of one group changes, with the group and its place in the list of its domain. -/
theorem Layout.setLayer (h : Layout m s) {id₀ : GroupId}
    (hl : s.layer id₀.clusterId id₀.layerId = some l) (l' : ClusterLayer) (hs : Elsewhere id₀ s s')
    (hlayer : ∀ c i, s'.layer c i =
      if c = id₀.clusterId ∧ i = id₀.layerId then some l' else s.layer c i)
    (hinv : ∀ c ∈ m.topology, c.id = id₀.clusterId → LayerInv m s c id₀.layerId l →
      LayerInv m s' c id₀.layerId l') (hmem : ∀ id ∈ l.groups, id ≠ id₀ → id ∈ l'.groups)
    (hgroupId : ∀ g, s'.groupMap id₀ = some g → g.id = id₀)
    (hdomain : ∀ key d', s'.domainMap key = some d' → ∃ d, s.domainMap key = some d ∧
      d'.key = d.key ∧ d'.groups.Nodup ∧ ∀ id ∈ d'.groups, id ≠ id₀ → id ∈ d.groups)
    (hnew : ∀ key d', s'.domainMap key = some d' → id₀ ∈ d'.groups → id₀.domainKey = key ∧
      ((s'.groupMap id₀).isSome →
        id₀ ∈ l'.groups ∧ (m.cluster key.numaId id₀.clusterId).isSome)) : Layout m s' := by
  constructor
  · exact h.toHeights.congr hs.length hs.overProvision
  · intro c hc i l₁ hl₁
    rw [hlayer] at hl₁
    split at hl₁
    · next heq =>
      cases hl₁
      rw [heq.2]
      exact hinv c hc heq.1 (h.layers c hc _ l (by rw [heq.1]; exact hl))
    · next hne =>
      have hinv₁ := h.layers c hc i l₁ hl₁
      apply hinv₁.elsewhere hs
      intro hin
      obtain ⟨hcid, hlid, -⟩ := hinv₁.place id₀ hin
      exact hne ⟨hcid.symm, hlid.symm⟩
  · intro id g' hg'
    by_cases heq : id = id₀
    · rw [heq] at hg' ⊢
      exact hgroupId g' hg'
    · obtain ⟨g, hg, hid, -⟩ := place_some (hs.group id heq) hg'
      rw [hid]
      exact h.groupId id g hg
  · intro key d' hd'
    obtain ⟨d, hd, hkey, -⟩ := hdomain key d' hd'
    rw [hkey]
    exact h.domainKey key d hd
  · intro key d' hd'
    obtain ⟨-, -, -, hnodup, -⟩ := hdomain key d' hd'
    exact hnodup
  · intro key d' hd' id hid
    by_cases heq : id = id₀
    · rw [heq] at hid ⊢
      exact (hnew key d' hd' hid).1
    · obtain ⟨d, hd, -, -, hsub⟩ := hdomain key d' hd'
      exact h.owned key d hd id (hsub id hid heq)
  · intro key d' hd' id hid hsome
    unfold InLayer
    rw [hlayer]
    by_cases heq : id = id₀
    · rw [heq] at hid hsome ⊢
      obtain ⟨hin, hcluster⟩ := (hnew key d' hd' hid).2 hsome
      exact ⟨⟨l', if_pos ⟨rfl, rfl⟩, hin⟩, hcluster⟩
    · obtain ⟨d, hd, -, -, hsub⟩ := hdomain key d' hd'
      obtain ⟨g', hg'⟩ := Option.isSome_iff_exists.mp hsome
      obtain ⟨g, hg, -⟩ := place_some (hs.group id heq) hg'
      obtain ⟨⟨l₁, hl₁, hin⟩, hcluster⟩ := h.present key d hd id (hsub id hid heq) (by rw [hg]; rfl)
      refine ⟨?_, hcluster⟩
      split
      · next hplace =>
        rw [hplace.1, hplace.2, hl] at hl₁
        cases hl₁
        exact ⟨l', rfl, hmem id hin heq⟩
      · exact ⟨l₁, hl₁, hin⟩

end

end Sched

end UbsVirt.Vas
