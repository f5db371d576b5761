import UbsVirt.Vas.Records

/-!
# The levels of the nodes

A node that runs out of CPUs is raised: every cluster of every node gets one more layer, and the
level of the node goes up by one. When compaction finds the last layer of a node unused it drops
the last layer of every cluster again (`cluster_sched.cpp:826-862,1252-1303,1368-1437`). That the
layer dropped is not one in which another node has groups rests on the levels adding up, and that
it is unused on `idle`, which is counted up and down on its own and is compared with `total`.
-/

namespace UbsVirt.Vas

open Maps Run Function Sched List

/-- No cluster has more clear bits in its bitmap than CPUs. A cluster that meets no skipped CPU
gets as many bits as CPU 0's cluster has CPUs, whatever its own size
(`cpu_helper.cpp:178-187`). -/
def Machine.BitsFit (m : Machine) : Prop :=
  ∀ c ∈ m.topology, c.bitMap.count false ≤ c.total ∧ c.bitMap.count false < 65536

instance (m : Machine) : Decidable m.BitsFit :=
  inferInstanceAs (Decidable (∀ c ∈ m.topology, _))

namespace Sched

def sizeOf (s : Sched) (id : GroupId) : Nat := ((s.groupMap id).map (·.nrCpus)).getD 0

def held (s : Sched) (l : ClusterLayer) : Nat := (l.groups.map s.sizeOf).sum

/-- The levels add up to the layers, and the layers count the CPUs of the groups in the table,
each of which is in its layer and below the level of its node. -/
structure Levels (m : Machine) (s : Sched) : Prop extends Heights m s where
  level_le : ∀ numaId, s.overProvision numaId ≤ maxOverProvision
  total : ∀ c ∈ m.topology, ∀ i l, s.layer c.id i = some l → l.total = c.total
  counted : ∀ c ∈ m.topology, ∀ i l, s.layer c.id i = some l →
    l.idle + s.held l ≤ c.bitMap.count false
  pos : ∀ id g, s.groupMap id = some g → 0 < g.nrCpus
  inLayer : ∀ id g, s.groupMap id = some g → s.InLayer id
  level : ∀ id g, s.groupMap id = some g → id.layerId < s.overProvision id.domainKey.numaId

section

variable {m : Machine} {P : Permits} {s s' : Sched}

/-! ### Counting -/

variable {l : ClusterLayer}

theorem held_congr (h : ∀ id ∈ l.groups, s'.sizeOf id = s.sizeOf id) : s'.held l = s.held l := by
  unfold held
  rw [map_congr_left h]

variable {id : GroupId} {g : VmGroup}

theorem sizeOf_eq (hg : s.groupMap id = some g) : s.sizeOf id = g.nrCpus := by
  unfold sizeOf
  rw [hg]
  rfl

/-- A group that is in a layer accounts for a part of what is held there. -/
theorem held_erase (hid : id ∈ l.groups) :
    s.sizeOf id + ((l.groups.erase id).map s.sizeOf).sum = s.held l :=
  sum_map_erase s.sizeOf hid

/-- A group that enters a layer adds at most its own size. -/
theorem held_addGroup_le (hnodup : l.groups.Nodup)
    (hsize : ∀ id ∈ l.groups, id ≠ g.id → s'.sizeOf id = s.sizeOf id) :
    s'.held (l.addGroup g) ≤ s'.sizeOf g.id + s.held l := by
  unfold ClusterLayer.addGroup held setInsert
  split
  · next hmem =>
    have hrest : ((l.groups.erase g.id).map s'.sizeOf).sum =
        ((l.groups.erase g.id).map s.sizeOf).sum := by
      congr 1
      apply map_congr_left
      intro id hid
      obtain ⟨hne, hin⟩ := (hnodup.mem_erase_iff).mp hid
      exact hsize id hin hne
    rw [← sum_map_erase s'.sizeOf hmem, ← sum_map_erase s.sizeOf hmem]
    omega
  · next hnew =>
    have hrest : (l.groups.map s'.sizeOf).sum = (l.groups.map s.sizeOf).sum := by
      congr 1
      apply map_congr_left
      intro id hid
      apply hsize id hid
      rintro rfl
      exact hnew hid
    rw [((perm_orderedInsert GroupId.Le g.id l.groups).map s'.sizeOf).sum_eq, map_cons,
      sum_cons, hrest]

/-! ### Changes -/

/-- What a change to one layer, and to the group with the id in question, comes to. -/
theorem Levels.setLayer (h : Levels m s) (hlinked : Linked m s) {id₀ : GroupId}
    (hl : s.layer id₀.clusterId id₀.layerId = some l) (l' : ClusterLayer)
    (hlayer : ∀ c i, s'.layer c i =
      if c = id₀.clusterId ∧ i = id₀.layerId then some l' else s.layer c i)
    (hlen : ∀ c, (s'.layers c).length = (s.layers c).length)
    (hop : s'.overProvision = s.overProvision)
    (hgroup : ∀ id, id ≠ id₀ → s'.groupMap id = s.groupMap id) (htotal : l'.total = l.total)
    (hheld : l'.idle + s'.held l' ≤ l.idle + s.held l)
    (hmem : ∀ id ∈ l.groups, id ≠ id₀ → id ∈ l'.groups)
    (hnew : ∀ g, s'.groupMap id₀ = some g → 0 < g.nrCpus ∧ id₀ ∈ l'.groups ∧
      id₀.layerId < s.overProvision id₀.domainKey.numaId) : Levels m s' := by
  have hold : ∀ id g, id ≠ id₀ → s'.groupMap id = some g → s.groupMap id = some g := by
    intro id g hne hg
    rwa [← hgroup id hne]
  constructor
  · exact h.toHeights.congr hlen hop
  · rw [hop]
    exact h.level_le
  · intro c hc i l₁ hl₁
    rw [hlayer] at hl₁
    split at hl₁
    · next heq =>
      cases hl₁
      rw [htotal]
      exact h.total c hc i l (by rw [heq.1, heq.2]; exact hl)
    · exact h.total c hc i l₁ hl₁
  · intro c hc i l₁ hl₁
    rw [hlayer] at hl₁
    split at hl₁
    · next heq =>
      cases hl₁
      have hcount := h.counted c hc i l (by rw [heq.1, heq.2]; exact hl)
      omega
    · next hother =>
      -- the group is in no other layer
      have hsame : s'.held l₁ = s.held l₁ := by
        apply held_congr
        intro id hid
        unfold sizeOf
        rw [hgroup]
        rintro rfl
        obtain ⟨hcid, hlid, -⟩ := hlinked.place _ _ l₁ hl₁ _ hid
        exact hother ⟨hcid.symm, hlid.symm⟩
      rw [hsame]
      exact h.counted c hc i l₁ hl₁
  · intro id g hg
    by_cases heq : id = id₀
    · subst heq
      exact (hnew g hg).1
    · exact h.pos id g (hold id g heq hg)
  · intro id g hg
    unfold InLayer
    rw [hlayer]
    by_cases heq : id = id₀
    · subst heq
      exact ⟨l', if_pos ⟨rfl, rfl⟩, (hnew g hg).2.1⟩
    · obtain ⟨l₁, hl₁, hin⟩ := h.inLayer id g (hold id g heq hg)
      split
      · next hplace =>
        rw [hplace.1, hplace.2, hl] at hl₁
        cases hl₁
        exact ⟨l', rfl, hmem id hin heq⟩
      · exact ⟨l₁, hl₁, hin⟩
  · intro id g hg
    rw [hop]
    by_cases heq : id = id₀
    · subst heq
      exact (hnew g hg).2.2
    · exact h.level id g (hold id g heq hg)

/-- The levels do not depend on the domains and the threads. -/
theorem Levels.congr (h : Levels m s) (hlayers : s'.layers = s.layers)
    (hop : s'.overProvision = s.overProvision)
    (hgroups : ∀ id, (s'.groupMap id).map VmGroup.place = (s.groupMap id).map VmGroup.place) :
    Levels m s' := by
  have hlayer : ∀ c i, s'.layer c i = s.layer c i := by
    intro c i
    unfold layer
    rw [hlayers]
  have hsize : ∀ id, s'.sizeOf id = s.sizeOf id := by
    intro id
    have hplace := congrArg (Option.map fun p => p.2.2) (hgroups id)
    rw [Option.map_map, Option.map_map] at hplace
    exact congrArg (Option.getD · 0) hplace
  constructor
  · exact h.toHeights.congr (fun c => by rw [hlayers]) hop
  · rw [hop]
    exact h.level_le
  · intro c hc i l hl
    rw [hlayer] at hl
    exact h.total c hc i l hl
  · intro c hc i l hl
    rw [hlayer] at hl
    rw [held_congr fun id _ => hsize id]
    exact h.counted c hc i l hl
  · intro id g' hg'
    obtain ⟨g, hg, -, -, hnr⟩ := place_some (hgroups id) hg'
    rw [hnr]
    exact h.pos id g hg
  · intro id g' hg'
    obtain ⟨g, hg, -⟩ := place_some (hgroups id) hg'
    unfold InLayer
    rw [hlayer]
    exact h.inLayer id g hg
  · intro id g' hg'
    obtain ⟨g, hg, -⟩ := place_some (hgroups id) hg'
    rw [hop]
    exact h.level id g hg

/-- The cluster of a group of the table. -/
theorem Linked.cluster_mem (hlinked : Linked m s) (hg : s.groupMap id = some g) :
    ∃ c ∈ m.topology, c.id = id.clusterId ∧ c.numaId = id.domainKey.numaId := by
  obtain ⟨c, hc⟩ := Option.isSome_iff_exists.mp (hlinked.cluster id g hg)
  obtain ⟨hct, hnuma, hcid⟩ := Machine.cluster_some hc
  exact ⟨c, hct, hcid, hnuma⟩

section

variable (hm : m.BitsFit) (h : Levels m s) (hlinked : Linked m s)
include hm h hlinked

/-- Taking a group out keeps the levels. -/
theorem Levels.withdraw (hg : s.groupMap g.id = some g) (entityMap : Nat → Option Int) :
    Levels m (s.withdraw g entityMap) := by
  obtain ⟨l, hl, hin⟩ := h.inLayer _ g hg
  obtain ⟨c, hc, hcid, -⟩ := hlinked.cluster_mem hg
  have hcount := h.counted c hc _ l (by rw [hcid]; exact hl)
  have hbound := (hm c hc).2
  have hnodup := hlinked.nodup _ _ l hl
  have hpart := held_erase (s := s) hin
  rw [sizeOf_eq hg] at hpart
  have hidle : addU16 l.idle g.nrCpus = l.idle + g.nrCpus := addU16_eq (by omega)
  apply h.setLayer hlinked hl (l.delGroup g)
  · rw [withdraw_eq hl]
    exact fun c i => layer_setLayer hl c i
  · rw [withdraw_eq hl]
    exact fun c => length_layers_setLayer c
  · rw [withdraw_eq hl]
    rfl
  · intro id hne
    rw [withdraw_groupMap, update_of_ne hne]
  · rfl
  · -- what is counted back is what is no longer held
    have hrest : (s.withdraw g entityMap).held (l.delGroup g) = ((l.groups.erase g.id).map s.sizeOf).sum := by
      unfold held ClusterLayer.delGroup
      congr 1
      apply map_congr_left
      intro id hid
      unfold sizeOf
      rw [withdraw_groupMap, update_of_ne ((hnodup.mem_erase_iff).mp hid).1]
    show addU16 l.idle g.nrCpus + _ ≤ _
    omega
  · intro id hid hne
    exact (mem_delGroup hnodup).mpr ⟨hne, hid⟩
  · intro g' hg'
    rw [withdraw_groupMap, update_self] at hg'
    cases hg'

/-- Binding a group that fits its layer. -/
theorem Levels.bind {d' : VmDomain} (hc : (m.cluster g.id.domainKey.numaId g.id.clusterId).isSome)
    (hl : s.layer g.id.clusterId g.id.layerId = some l)
    (hlevel : g.id.layerId < s.overProvision g.id.domainKey.numaId) (hpos : 0 < g.nrCpus)
    (hfits : g.nrCpus ≤ l.idle) : Levels m (s.bindGroup d' g) := by
  obtain ⟨c, hc⟩ := Option.isSome_iff_exists.mp hc
  obtain ⟨hct, -, hcid⟩ := Machine.cluster_some hc
  have hcount := h.counted c hct _ l (by rw [hcid]; exact hl)
  have hbound := (hm c hct).2
  have hidle : subU16 l.idle g.nrCpus = l.idle - g.nrCpus := subU16_eq hfits (by omega)
  apply h.setLayer hlinked hl (l.addGroup g)
  · rw [bindGroup_eq hl]
    exact fun c i => layer_setLayer hl c i
  · rw [bindGroup_eq hl]
    exact fun c => length_layers_setLayer c
  · rw [bindGroup_eq hl]
    rfl
  · intro id hne
    rw [bindGroup_groupMap, update_of_ne hne]
  · rfl
  · have hle : (s.bindGroup d' g).held (l.addGroup g) ≤
        (s.bindGroup d' g).sizeOf g.id + s.held l := by
      apply held_addGroup_le (hlinked.nodup _ _ l hl)
      intro id _ hne
      unfold sizeOf
      rw [bindGroup_groupMap, update_of_ne hne]
    rw [sizeOf_eq (by rw [bindGroup_groupMap, update_self])] at hle
    show subU16 l.idle g.nrCpus + _ ≤ _
    omega
  · exact fun id hid _ => mem_addGroup.mpr (.inr hid)
  · intro g' hg'
    rw [bindGroup_groupMap, update_self] at hg'
    cases hg'
    exact ⟨hpos, mem_addGroup.mpr (.inl rfl), hlevel⟩

theorem Levels.back (hg : s.groupMap g.id = some g)
    (hl : s.layer g.id.clusterId g.id.layerId = some l) (hin : g.id ∈ l.groups)
    (entityMap : Nat → Option Int) :
    Levels m { s.setLayer g.id.clusterId g.id.layerId ((l.delGroup g).addGroup g) with
      entityMap := entityMap } := by
  obtain ⟨c, hc, hcid, -⟩ := hlinked.cluster_mem hg
  have hcount := h.counted c hc _ l (by rw [hcid]; exact hl)
  have hbound := (hm c hc).2
  have hpart := held_erase (s := s) hin
  rw [sizeOf_eq hg] at hpart
  have hidle : subU16 (addU16 l.idle g.nrCpus) g.nrCpus = l.idle := by
    rw [addU16_eq (by omega), subU16_eq (by omega) (by omega)]
    omega
  apply h.setLayer hlinked hl ((l.delGroup g).addGroup g)
  · exact fun c i => layer_setLayer hl c i
  · exact fun c => length_layers_setLayer c
  · rfl
  · exact fun _ _ => rfl
  · rfl
  · have hle : s.held ((l.delGroup g).addGroup g) ≤ s.sizeOf g.id + s.held (l.delGroup g) :=
      held_addGroup_le ((hlinked.nodup _ _ l hl).erase _) fun _ _ _ => rfl
    rw [sizeOf_eq hg] at hle
    show subU16 (addU16 l.idle g.nrCpus) g.nrCpus + s.held _ ≤ _
    have hrest : s.held (l.delGroup g) = ((l.groups.erase g.id).map s.sizeOf).sum := rfl
    omega
  · intro id hid hne
    exact mem_addGroup.mpr (.inr ((mem_erase_of_ne hne).mpr hid))
  · intro g' hg'
    exact ⟨h.pos _ g' hg', mem_addGroup.mpr (.inl rfl), h.level _ g' hg'⟩

end

/-! ### Layers up and down -/

/-- The groups are those from before, and so are the layers they are in. -/
theorem Levels.of_maps (h : Levels m s) (hlinked : Linked m s) (hheights : Heights m s')
    (hgroup : s'.groupMap = s.groupMap) (hle : ∀ n, s'.overProvision n ≤ maxOverProvision)
    (hnew : ∀ c ∈ m.topology, ∀ i l, s'.layer c.id i = some l →
      s.layer c.id i = some l ∨ l = freshLayer c)
    (hold : ∀ c ∈ m.topology, ∀ l, ∀ id ∈ l.groups, s.layer c.id id.layerId = some l →
      id.layerId < s.overProvision c.numaId →
      s'.layer c.id id.layerId = some l ∧ id.layerId < s'.overProvision c.numaId) :
    Levels m s' := by
  have hheld : ∀ l, s'.held l = s.held l := by
    intro l
    apply held_congr
    intro id _
    unfold sizeOf
    rw [hgroup]
  have hkept : ∀ id g, s'.groupMap id = some g →
      s'.InLayer id ∧ id.layerId < s'.overProvision id.domainKey.numaId := by
    intro id g hg
    rw [hgroup] at hg
    obtain ⟨l, hl, hin⟩ := h.inLayer id g hg
    obtain ⟨c, hc, hcid, hcn⟩ := hlinked.cluster_mem hg
    have hlevel := h.level id g hg
    rw [← hcid] at hl
    rw [← hcn] at hlevel ⊢
    obtain ⟨hl', hlevel'⟩ := hold c hc l id hin hl hlevel
    rw [hcid] at hl'
    exact ⟨⟨l, hl', hin⟩, hlevel'⟩
  constructor
  · exact hheights
  · exact hle
  · intro c hc i l hl
    rcases hnew c hc i l hl with hl | rfl
    · exact h.total c hc i l hl
    · rfl
  · intro c hc i l hl
    rw [hheld]
    rcases hnew c hc i l hl with hl | rfl
    · exact h.counted c hc i l hl
    · exact le_refl _
  · rw [hgroup]
    exact h.pos
  · exact fun id g hg => (hkept id g hg).1
  · exact fun id g hg => (hkept id g hg).2

theorem Levels.layerUp (h : Levels m s) (hlinked : Linked m s) (numaId : Nat) :
    Levels m (s.overProvisionUp m numaId) := by
  apply h.of_maps hlinked (h.toHeights.layerUp numaId) (s.overProvisionUp_maps numaId).1
  · intro n
    rcases s.overProvisionUp_cases (m := m) numaId with heq | ⟨-, hlt, hop, -⟩
    · rw [heq]
      exact h.level_le n
    · rw [hop, update_apply]
      split
      · exact hlt
      · exact h.level_le n
  · exact fun c hc i l hl => overProvisionUp_layer hc hl
  · exact fun c hc l id _ hl hlevel =>
      ⟨layer_overProvisionUp hl, lt_of_lt_of_le hlevel (le_overProvisionUp _)⟩

/-- A layer with a group does not count all its CPUs as idle. -/
theorem Levels.used (hm : m.BitsFit) (h : Levels m s) (hlinked : Linked m s)
    {c : ClusterInfo} (hc : c ∈ m.topology) {i : Nat}
    (hl : s.layer c.id i = some l) (hid : id ∈ l.groups) : l.total ≠ l.idle := by
  have hcount := h.counted c hc i l hl
  have hbits := (hm c hc).1
  have htotal := h.total c hc i l hl
  obtain ⟨g, hg⟩ := Option.isSome_iff_exists.mp (hlinked.place _ _ l hl id hid).2.2
  have hpart := held_erase (s := s) hid
  rw [sizeOf_eq hg] at hpart
  have hpos := h.pos id g hg
  omega

theorem Levels.layerDown (hm : m.BitsFit) (h : Levels m s) (hlinked : Linked m s)
    (numaId layerId : Nat) : Levels m (s.overProvisionDown m numaId layerId) := by
  apply h.of_maps hlinked (h.toHeights.layerDown numaId layerId)
    (s.overProvisionDown_maps numaId layerId).1
  · intro n
    have := h.level_le n
    rcases s.overProvisionDown_cases (m := m) numaId layerId with heq | ⟨-, -, hop, -⟩
    · rwa [heq]
    · rw [hop, update_apply]
      split
      · next heq =>
        rw [heq] at this
        omega
      · exact this
  · exact fun c hc i l hl => .inl (overProvisionDown_layer hl)
  · intro c hc l id hid hl hlevel
    obtain ⟨hl', hlevel', -⟩ := h.layer_down numaId layerId hc hl hlevel
      (h.used hm hlinked hc hl hid)
    exact ⟨hl', hlevel'⟩

theorem Levels.fresh (hs : IsFresh m s) : Levels m s := by
  constructor
  · exact hs.heights
  · intro n
    rw [hs.overProvision]
    split <;> decide
  · intro c hc i l hl
    rw [hs.layer hc hl]
    rfl
  · intro c hc i l hl
    rw [hs.layer hc hl]
    exact le_refl _
  · exact fun id g hg => absurd hg (hs.no_group id g)
  · exact fun id g hg => absurd hg (hs.no_group id g)
  · exact fun id g hg => absurd hg (hs.no_group id g)

/-- Every change keeps the levels. -/
theorem Levels.change (hm : m.BitsFit) (h : Levels m s) (hlinked : Linked m s)
    (hplace : ∀ s p, P.place s p → p.size ≤ p.layer.idle) (hchange : Change m P s s') :
    Levels m s' := by
  cases hchange with
  | bind d c l g hd hc hl hlevel hnil hfind hp =>
    exact h.bind hm hlinked (by rw [hc]; rfl) hl hlevel (findFirstIdlePos_some hfind).1
      (hplace _ _ hp)
  | free key d id g hd hid hg hfree =>
    have hgid := hlinked.groupId id g hg
    subst hgid
    rw [freeGroup_eq hg (by rw [← hlinked.owned key d hd _ hid]; exact hlinked.cluster _ g hg)]
    exact h.withdraw hm hlinked hg s.entityMap
  | relist key d d' hd hsub hkeep => exact h.congr rfl rfl fun _ => rfl
  | assign key d id g pid index hd hpid hnew hid hg hfind hlt
  | unbind key d id g pids hd hid hg hpids =>
    have hgid := hlinked.groupId id g hg
    subst hgid
    exact h.congr rfl rfl (place_update hg rfl)
  | migrate mig ok d g c l start ht hp =>
    obtain ⟨src, hmoves, heq⟩ := hlinked.placed.migrate ht ok
    rw [heq]
    split
    · apply (h.withdraw hm hlinked hmoves.group _).bind hm (hlinked.withdraw _)
      · rw [hmoves.cluster]
        rfl
      · exact hmoves.layer_withdraw _
      · rw [withdraw_eq hmoves.source]
        exact hmoves.level
      · exact (findFirstIdlePos_some hmoves.find).1
      · exact hplace _ _ hp
    · exact h.back hm hlinked hmoves.group hmoves.source hmoves.mem _
  | layerUp numaId => exact h.layerUp hlinked numaId
  | layerDown numaId layerId => exact h.layerDown hm hlinked numaId layerId
  | newDomain d hnone hnil hadd => exact h.congr rfl rfl fun _ => rfl
  | restore dynamicAffinity => exact .fresh (h.toHeights.restore dynamicAffinity)

end

/-! ### Runs -/

/-- All clusters have as many layers as the levels say, the levels are in their range, and every
group is below the level of its node. -/
structure LevelsExact (m : Machine) (s : Sched) : Prop where
  layers : ∀ c ∈ m.topology,
    (s.layers c.id).length = 1 + ∑ numaId ∈ m.numas.toFinset, (s.overProvision numaId - 1)
  range : ∀ numaId ∈ m.numas,
    1 ≤ s.overProvision numaId ∧ s.overProvision numaId ≤ maxOverProvision
  group : ∀ id g, s.groupMap id = some g → id.layerId < s.overProvision id.domainKey.numaId

/-- A step that drops a layer of a cluster drops one without groups. -/
def DropsUnused (m : Machine) (s : Sched) : SchedStep → Prop
  | .layerDown numaId layerId => ∀ c ∈ m.topology,
      ((s.overProvisionDown m numaId layerId).layers c.id).length < (s.layers c.id).length →
        ∀ l ∈ (s.layers c.id).getLast?, l.groups = []
  | _ => True

/-- The condition on a step under which the layers count their groups: it completes, a group
that is moved fits into the CPUs counted as idle where it goes (for one that is allocated the
code checks this), and compaction finds a thread of the domain in every group of a domain. -/
def MayCount (m : Machine) (s : Sched) (i : SchedStep) : Prop :=
  s.Completes m i ∧ (∀ p ∈ s.placement m i, p.size ≤ p.layer.idle) ∧ s.MayClean i

instance (m : Machine) (s : Sched) (i : SchedStep) : Decidable (s.MayCount m i) :=
  inferInstanceAs (Decidable (_ ∧ (∀ p ∈ s.placement m i, _) ∧ _))

section

variable {m : Machine} {s : Sched}

theorem Levels.exact (h : Levels m s) : LevelsExact m s where
  layers := h.length_layers
  range numaId hn := ⟨(h.level_pos numaId).mpr hn, h.level_le numaId⟩
  group := h.level

/-- The layer that is dropped has no group of any node. -/
theorem Levels.dropsUnused (hm : m.BitsFit) (h : Levels m s) (hlinked : Linked m s)
    (i : SchedStep) : s.DropsUnused m i := by
  cases i with
  | layerDown numaId layerId =>
    intro c hc hshorter l hlast
    rw [eq_nil_iff_forall_not_mem]
    intro id hid
    have hl : s.layer c.id ((s.layers c.id).length - 1) = some l := by
      unfold layer
      rwa [← getLast?_eq_getElem?]
    obtain ⟨-, -, hsome⟩ := hlinked.place _ _ l hl id hid
    obtain ⟨g, hg⟩ := Option.isSome_iff_exists.mp hsome
    obtain ⟨-, hlid, hnuma⟩ := hlinked.placed.place c hc _ l hl id hid hsome
    have hlevel := h.level id g hg
    rw [hlid, hnuma] at hlevel
    obtain ⟨-, -, hsame | hdepth⟩ := h.layer_down numaId layerId hc hl hlevel
      (h.used hm hlinked hc hl hid)
    · rw [hsame] at hshorter
      exact lt_irrefl _ hshorter
    · rw [h.length_layers c hc] at hdepth
      omega
  | _ => trivial

/-- On every machine whose bitmaps fit its clusters, in every run of operations whose steps all
meet the condition, the levels are exact throughout and no layer that holds a group is
dropped. -/
theorem levels_exact (hm : m.BitsFit) (dynamicAffinity : Bool) (ops : List SchedOp)
    (hmay : EachStep (step m) (MayCount m) (init m dynamicAffinity)
      (steps m (init m dynamicAffinity) ops)) :
    Throughout (step m) (LevelsExact m) (init m dynamicAffinity)
        (steps m (init m dynamicAffinity) ops) ∧
      EachStep (step m) (DropsUnused m) (init m dynamicAffinity)
        (steps m (init m dynamicAffinity) ops) := by
  have hinit : Linked m (init m dynamicAffinity) ∧ Levels m (init m dynamicAffinity) :=
    ⟨.init dynamicAffinity, .fresh (.init dynamicAffinity)⟩
  have hkeep : ∀ s i, Linked m s ∧ Levels m s → s.MayCount m i →
      Linked m (s.step m i) ∧ Levels m (s.step m i) := by
    intro s i h hi
    have hpermitted : Permitted m ⟨fun _ p => p.size ≤ p.layer.idle, True, True⟩ s i :=
      ⟨hi.1, hi.2.2, hi.2.1, .inl trivial, .inl trivial⟩
    exact hpermitted.keeps (I := fun s => Linked m s ∧ Levels m s) (fun h hchange =>
      ⟨h.1.change hchange, h.2.change hm h.1 (fun _ _ hp => hp) hchange⟩) h
  constructor
  · exact (throughout_of_step (P := fun s => Linked m s ∧ Levels m s) hinit hkeep hmay).mono
      fun _ h => h.2.exact
  · exact eachStep_of_invariant (P := fun s => Linked m s ∧ Levels m s) hinit hkeep
      (fun _ i h _ => h.2.dropsUnused hm h.1 i) hmay

/-- Two VMs fill the node, a third raises it. One of the first two stops, the third takes its
place, and the layer that has become unused is dropped. -/
def raiseDropRun : List SchedOp :=
  [.addDomainInfo (freeVm "a" [1, 2, 3, 4]) fun _ _ => .ok,
    .addDomainInfo (freeVm "b" [5, 6, 7, 8]) fun _ _ => .ok,
    .addDomainInfo (freeVm "c" [9, 10]) fun _ _ => .ok,
    .delDomainInfo "a" [⟨"a", 0⟩, ⟨"b", 0⟩, ⟨"c", 0⟩] (fun _ => false) fun _ _ => .ok]

theorem raiseDropRun_levels : Throughout (step (smallMachine [])) (LevelsExact (smallMachine []))
        (init (smallMachine []) true)
        (steps (smallMachine []) (init (smallMachine []) true) raiseDropRun) ∧
      EachStep (step (smallMachine [])) (DropsUnused (smallMachine []))
        (init (smallMachine []) true)
        (steps (smallMachine []) (init (smallMachine []) true) raiseDropRun) :=
  levels_exact (by decide +kernel) true raiseDropRun (by decide +kernel)

/-- A cluster of four CPUs and one of two, whose other two CPUs are offline. -/
def unevenMachine : Machine where
  cpuInfoList := (range 4).map (fun cpu => ⟨0, cpu, 0, [0, 1, 2, 3]⟩) ++
    [⟨0, 4, 1, [4, 5]⟩, ⟨0, 5, 1, [4, 5]⟩]
  clusterCpuNum := 4
  maxCpuNum := 6
  skipCpuSet := []
  granularity := 1

def pinnedVm (uuid : String) (pids : List Nat) : VmInfo where
  uuid := uuid
  name := uuid
  vcpuMap := pids.map fun pid => ⟨pid, pid, [0], [false, false, false, false, true, true]⟩

/-- Three VMs with two vCPUs each, and a compaction. -/
def unevenRun : List SchedOp :=
  [.addDomainInfo (pinnedVm "a" [1, 2]) fun _ _ => .ok,
    .addDomainInfo (pinnedVm "b" [3, 4]) fun _ _ => .ok,
    .addDomainInfo (pinnedVm "c" [5, 6]) fun _ _ => .ok,
    .clusterCompaction [⟨"a", 0⟩, ⟨"b", 0⟩, ⟨"c", 0⟩] (fun _ => false) fun _ _ => .ok]

/-- The second cluster starts with four idle CPUs out of two. The third VM leaves two of them in
its last layer, which then counts as unused, and is dropped with the group of the VM. -/
theorem unevenRun_drops_group : ¬ ∀ (m : Machine) (dynamicAffinity : Bool) (ops : List SchedOp),
      (∀ numaId ∈ m.numas, m.clustersOf numaId ≠ []) →
      Throughout (step m) (LevelsExact m) (init m dynamicAffinity)
          (steps m (init m dynamicAffinity) ops) ∧
        EachStep (step m) (DropsUnused m) (init m dynamicAffinity)
          (steps m (init m dynamicAffinity) ops) := by
  intro hall
  have hrun := hall unevenMachine true unevenRun (by decide)
  have hexact := hrun.1.last
  have hgroup : ∃ d ∈ (exec (step unevenMachine) (init unevenMachine true)
        (steps unevenMachine (init unevenMachine true) unevenRun)).domainMap ⟨"c", 0⟩,
      ∃ id ∈ d.groups, ∃ g ∈ (exec (step unevenMachine) (init unevenMachine true)
        (steps unevenMachine (init unevenMachine true) unevenRun)).groupMap id,
      (exec (step unevenMachine) (init unevenMachine true)
        (steps unevenMachine (init unevenMachine true) unevenRun)).overProvision
          id.domainKey.numaId ≤ id.layerId := by
    decide +kernel
  obtain ⟨-, -, id, -, g, hg, hlevel⟩ := hgroup
  exact absurd (hexact.group id g hg) (Nat.not_lt.mpr hlevel)

end

end Sched

end UbsVirt.Vas
