import UbsVirt.Vas.Layout

/-!
# What the steps of the scheduler do to the layout

Every step keeps the layout of the groups, those that take CPUs under a condition on the map
they search: the search returns the first free CPU as soon as it has counted enough free
CPUs, whether or not they follow each other (`dynamic_bitset.cpp:152-178`).
-/

namespace UbsVirt.Vas

open Areas Maps Function

namespace Sched

section

variable {m : Machine} {s s' : Sched} {P : Permits}

variable {c : ClusterInfo} {l : ClusterLayer} {d : VmDomain}

/-- The area the search returns is clear in the layer, when the map searched is not
fragmented. -/
theorem Layout.isArea_of_search (hm : m.Regular) (h : Layout m s)
    (hc : c ∈ m.topology) {i : Nat} (hl : s.layer c.id i = some l) {n start : Nat}
    (hfit : Unfragmented (availableCpuMap d c l) n)
    (hfind : findFirstIdlePos (availableCpuMap d c l) 0 n = some start) :
    IsArea false start n l.usedBitmap ∧
      ∀ j, start ≤ j → j < start + n → d.commonCpuMap[c.startCpu + j]? = some true := by
  have hlen : (dynamicBitsetNot (dynamicBitsetCut d.commonCpuMap c.startCpu
      c.cpuSet.length)).length = l.usedBitmap.length := by
    rw [length_dynamicBitsetNot, length_dynamicBitsetCut,
      (h.layers c hc i l hl).carved.length_eq, hm.length_bitMap hc, hm.length_cpuSet hc]
  have harea := (isArea_findFirstIdlePos_iff hfind).mpr hfit
  constructor
  · intro j hlo hhi
    exact (dynamicBitsetOr_false hlen (harea j hlo hhi)).2
  · intro j hlo hhi
    exact (dynamicBitsetNot_cut_false (dynamicBitsetOr_false hlen (harea j hlo hhi)).1).2

theorem Layout.placed (h : Layout m s) : Placed m s :=
  ⟨h.groupId, fun c hc i l hl id hid _ => (h.layers c hc i l hl).place id hid⟩

/-! ### Groups -/

variable {g : VmGroup}

section

variable (hm : m.Regular) (h : Layout m s)
include hm h

/-- A group is bound to a clear area of a layer, and to its domain, which may have given up
groups that are gone. -/
theorem Layout.bind {d' : VmDomain} (hd : s.domainMap g.id.domainKey = some d)
    (hkey : d'.key = d.key) (hsub : d'.groups.Sublist d.groups)
    (hkeep : ∀ id ∈ d.groups, (s.groupMap id).isSome → id ∈ d'.groups)
    (hc : m.cluster g.id.domainKey.numaId g.id.clusterId = some c)
    (hl : s.layer g.id.clusterId g.id.layerId = some l)
    (hlevel : g.id.layerId < s.overProvision g.id.domainKey.numaId) (hnew : g.id ∉ l.groups)
    (hclear : IsArea false g.start g.nrCpus l.usedBitmap) (hpos : 0 < g.nrCpus) :
    Layout m (s.bindGroup d' g) := by
  obtain ⟨hct, hnuma, hcid⟩ := Machine.cluster_some hc
  have hop : (s.bindGroup d' g).overProvision = s.overProvision := by
    rw [bindGroup_eq hl]
    rfl
  have hgroup : (s.bindGroup d' g).groupMap g.id = some g := by
    rw [bindGroup_groupMap, update_self]
  have hlist : (s.bindGroup d' g).domainMap g.id.domainKey =
      some { d' with groups := setInsert GroupId.Le g.id d'.groups } := by
    rw [bindGroup_domainMap, update_self]
  have hs : Elsewhere g.id s (s.bindGroup d' g) := by
    refine ⟨hop, fun c => ?_, fun id hne => ?_, fun id hne hsome hlisted => ?_⟩
    · rw [bindGroup_eq hl]
      exact length_layers_setLayer c
    · rw [bindGroup_groupMap, update_of_ne hne]
    · obtain ⟨e, he, hid⟩ := hlisted
      by_cases hkey : id.domainKey = g.id.domainKey
      · rw [hkey, hd] at he
        cases he
        exact ⟨_, by rw [hkey]; exact hlist, mem_setInsert.mpr (.inr (hkeep id hid hsome))⟩
      · refine ⟨e, ?_, hid⟩
        rw [bindGroup_domainMap, update_of_ne hkey, he]
  apply h.setLayer hl (l.addGroup g) hs
  · intro c i
    rw [bindGroup_eq hl]
    exact layer_setLayer hl c i
  · intro c' hc' hcid' hinv
    have hcc : c' = c := Machine.eq_of_id_eq hc' hct (by rw [hcid, hcid'])
    subst hcc
    apply (hinv.elsewhere hs hnew).addGroup hm hc' hnew hclear hpos ⟨hcid.symm, rfl, hnuma.symm⟩
    · rwa [hop, hnuma]
    · exact hgroup
    · exact ⟨_, hlist, mem_setInsert.mpr (.inl rfl)⟩
  · exact fun id hid _ => mem_addGroup.mpr (.inr hid)
  · intro g' hg'
    rw [hgroup] at hg'
    cases hg'
    rfl
  · intro key e he
    rw [bindGroup_domainMap] at he
    rcases update_eq_some.mp he with ⟨rfl, heq⟩ | ⟨-, he⟩
    · cases heq
      refine ⟨d, hd, hkey, nodup_setInsert ((h.nodup _ d hd).sublist hsub), fun id hid hne => ?_⟩
      exact hsub.subset ((mem_setInsert.mp hid).resolve_left hne)
    · exact ⟨e, he, rfl, h.nodup key e he, fun _ hid _ => hid⟩
  · intro key e he hid
    have hown : g.id.domainKey = key := by
      rw [bindGroup_domainMap] at he
      rcases update_eq_some.mp he with ⟨rfl, -⟩ | ⟨-, he⟩
      · rfl
      · exact h.owned key e he _ hid
    refine ⟨hown, fun _ => ⟨mem_addGroup.mpr (.inl rfl), ?_⟩⟩
    rw [← hown, hc]
    rfl

/-- A group leaves its layer and the table of groups. -/
theorem Layout.withdraw (hl : s.layer g.id.clusterId g.id.layerId = some l) (hin : g.id ∈ l.groups)
    (hg : s.groupMap g.id = some g) (entityMap : Nat → Option Int) :
    Layout m (s.withdraw g entityMap) := by
  have hnone : update s.groupMap g.id none g.id = none := update_self ..
  have hs : Elsewhere g.id s { (s.setLayer g.id.clusterId g.id.layerId (l.delGroup g)).setGroup g.id
      none with entityMap := entityMap } := by
    refine ⟨rfl, length_layers_setLayer, fun id hne => ?_, fun _ _ _ hlisted => hlisted⟩
    show (update s.groupMap g.id none id).map _ = _
    rw [update_of_ne hne]
  rw [withdraw_eq hl]
  apply h.setLayer hl (l.delGroup g) hs fun c i => layer_setLayer hl c i
  · intro c hc _ hinv
    apply (hinv.delGroup hm hc hin hg).elsewhere hs
    exact fun hcon => ((mem_delGroup hinv.nodup).mp hcon).1 rfl
  · exact fun id hin hne => (List.mem_erase_of_ne hne).mpr hin
  · intro g' hg'
    cases hnone.symm.trans hg'
  · exact fun key d hd => ⟨d, hd, rfl, h.nodup key d hd, fun _ hid _ => hid⟩
  · intro key d hd hid
    refine ⟨h.owned key d hd _ hid, fun hsome => ?_⟩
    cases (congrArg Option.isSome hnone).symm.trans hsome

/-- A group returns to the layer it was in. -/
theorem Layout.back (hl : s.layer g.id.clusterId g.id.layerId = some l) (hin : g.id ∈ l.groups)
    (hg : s.groupMap g.id = some g) (entityMap : Nat → Option Int) :
    Layout m { s.setLayer g.id.clusterId g.id.layerId ((l.delGroup g).addGroup g) with
      entityMap := entityMap } := by
  apply h.setLayer hl ((l.delGroup g).addGroup g)
  · exact ⟨rfl, length_layers_setLayer, fun _ _ => rfl, fun _ _ _ hlisted => hlisted⟩
  · exact fun c i => layer_setLayer hl c i
  · intro c hc _ hinv
    have hback := hinv.addGroup_delGroup hm hc hin hg
    exact hback.frame (fun _ _ => rfl) (fun _ _ hlisted => hlisted) hback.level
  · exact fun id hid hne => mem_addGroup.mpr (.inr ((List.mem_erase_of_ne hne).mpr hid))
  · exact fun g' => h.groupId g.id g'
  · exact fun key d hd => ⟨d, hd, rfl, h.nodup key d hd, fun _ hid _ => hid⟩
  · intro key d hd hid
    refine ⟨h.owned key d hd _ hid, fun hsome => ⟨mem_addGroup.mpr (.inl rfl), ?_⟩⟩
    exact (h.present key d hd _ hid hsome).2

/-- A group moves to a layer that has a clear area for it, or returns. -/
theorem Layout.migrate {mig : Migration} {start : Nat}
    (ht : s.migrationTarget m mig = some (d, g, c, l, start)) (ok : Nat → Bool)
    (hfit : Unfragmented (availableCpuMap d c l) g.nrCpus)
    (hnew : (⟨g.id.domainKey, mig.clusterId, mig.layerId⟩ : GroupId) ∉ l.groups) :
    Layout m (s.migrate m mig ok) := by
  obtain ⟨src, hmoves, heq⟩ := h.placed.migrate ht ok
  obtain ⟨hct, -, hcid⟩ := Machine.cluster_some hmoves.cluster
  rw [heq]
  split
  · -- the threads have followed: the group leaves the old place and is bound to the new one
    have hleft := h.withdraw hm hmoves.source hmoves.mem hmoves.group
      (migrateEntities g.start start ok g.entityPids [] s.entityMap).1
    apply hleft.bind hm (d := d) (c := c) (l := l)
    · rw [withdraw_domainMap]
      exact hmoves.domain
    · rfl
    · exact List.erase_sublist
    · exact fun id => mem_erase_of_withdraw
    · exact hmoves.cluster
    · exact hmoves.layer_withdraw _
    · rw [withdraw_eq hmoves.source]
      exact hmoves.level
    · exact hnew
    · exact (h.isArea_of_search hm hct (by rw [hcid]; exact hmoves.target) hfit hmoves.find).1
    · exact (findFirstIdlePos_some hmoves.find).1
  · exact h.back hm hmoves.source hmoves.mem hmoves.group _

end

/-! ### Layers and domains -/

/-- The domains and groups are those from before, and so are the layers that name groups. -/
theorem Layout.of_maps (h : Layout m s) (hheights : Heights m s') (hg : s'.groupMap = s.groupMap)
    (hd : s'.domainMap = s.domainMap) (hnew : ∀ c ∈ m.topology, ∀ i l, s'.layer c.id i = some l →
      s.layer c.id i = some l ∨ l = freshLayer c)
    (hold : ∀ c ∈ m.topology, ∀ i l, s.layer c.id i = some l → ∀ id ∈ l.groups,
      s'.layer c.id i = some l ∧ i < s'.overProvision c.numaId) : Layout m s' := by
  constructor
  · exact hheights
  · intro c hc i l hl
    rcases hnew c hc i l hl with hl | rfl
    · apply (h.layers c hc i l hl).frame
      · exact fun id _ => by rw [hg]
      · intro id _ hlisted
        unfold Listed
        rwa [hd]
      · exact fun id hid => (hold c hc i l hl id hid).2
    · exact .fresh
  · rw [hg]
    exact h.groupId
  · rw [hd]
    exact h.domainKey
  · rw [hd]
    exact h.nodup
  · rw [hd]
    exact h.owned
  · rw [hd, hg]
    intro key d hd id hid hsome
    obtain ⟨⟨l, hl, hin⟩, hcluster⟩ := h.present key d hd id hid hsome
    obtain ⟨c, hc⟩ := Option.isSome_iff_exists.mp hcluster
    obtain ⟨hct, -, hcid⟩ := Machine.cluster_some hc
    rw [← hcid] at hl
    refine ⟨⟨l, ?_, hin⟩, hcluster⟩
    rw [← hcid]
    exact (hold c hct _ l hl id hin).1

theorem Layout.layerUp (h : Layout m s) (numaId : Nat) : Layout m (s.overProvisionUp m numaId) := by
  obtain ⟨hg, hd, -⟩ := s.overProvisionUp_maps (m := m) numaId
  apply h.of_maps (h.toHeights.layerUp numaId) hg hd
  · exact fun c hc i l hl => overProvisionUp_layer hc hl
  · intro c hc i l hl id hid
    have hlevel := (h.layers c hc i l hl).level id hid
    exact ⟨layer_overProvisionUp hl, lt_of_lt_of_le hlevel (le_overProvisionUp _)⟩

theorem Layout.layerDown (hm : m.Regular) (h : Layout m s) (numaId layerId : Nat) :
    Layout m (s.overProvisionDown m numaId layerId) := by
  obtain ⟨hg, hd, -⟩ := s.overProvisionDown_maps (m := m) numaId layerId
  apply h.of_maps (h.toHeights.layerDown numaId layerId) hg hd
  · exact fun c hc i l hl => .inl (overProvisionDown_layer hl)
  · intro c hc i l hl id hid
    have hinv := h.layers c hc i l hl
    obtain ⟨hl', hi', -⟩ := h.layer_down numaId layerId hc hl
      (hinv.level id hid) fun hidle => hinv.eq_nil_of_idle hm hc hidle id hid
    exact ⟨hl', hi'⟩

theorem Layout.fresh (hs : IsFresh m s)
    (hdomain : ∀ key d, s.domainMap key = some d → d.key = key ∧ d.groups = []) : Layout m s := by
  have hnone : ∀ key d, s.domainMap key = some d → ∀ id, id ∉ d.groups := by
    intro key d hd id hid
    rw [(hdomain key d hd).2] at hid
    cases hid
  constructor
  · exact hs.heights
  · intro c hc i l hl
    rw [hs.layer hc hl]
    exact .fresh
  · exact fun id g hg => absurd hg (hs.no_group id g)
  · exact fun key d hd => (hdomain key d hd).1
  · intro key d hd
    rw [(hdomain key d hd).2]
    exact List.nodup_nil
  · exact fun key d hd id hid => absurd hid (hnone key d hd id)
  · exact fun key d hd id hid => absurd hid (hnone key d hd id)

theorem Layout.init (dynamicAffinity : Bool) : Layout m (Sched.init m dynamicAffinity) :=
  .fresh (.init dynamicAffinity) fun _ _ hd => nomatch hd

/-! ### Steps -/

/-- Every change keeps the layout, if CPUs are taken where they may. -/
theorem Layout.change (hm : m.Regular) (h : Layout m s)
    (hP : ∀ s p, P.place s p → Unfragmented p.map p.size ∧ p.groupId ∉ p.layer.groups)
    (hchange : Change m P s s') : Layout m s' := by
  cases hchange with
  | bind d c l g hd hc hl hlevel hnil hfind hplace =>
    obtain ⟨hct, -, hcid⟩ := Machine.cluster_some hc
    obtain ⟨hfit, hnew⟩ := hP _ _ hplace
    apply h.bind hm hd rfl (.refl _) (fun _ hid _ => hid) hc hl hlevel hnew
    · exact (h.isArea_of_search hm hct (by rw [hcid]; exact hl) hfit hfind).1
    · exact (findFirstIdlePos_some hfind).1
  | free key d id g hd hid hg hfree =>
    obtain ⟨⟨l, hl, hin⟩, hc⟩ := h.present key d hd id hid (by rw [hg]; rfl)
    have hgid := h.groupId id g hg
    subst hgid
    rw [freeGroup_eq hg hc]
    exact h.withdraw hm hl hin hg s.entityMap
  | relist key d d' hd hsub hkeep =>
    refine h.frame rfl rfl (fun _ => rfl)
      (fun id hsome hlisted => hlisted.relist hsome hd hkeep) fun key' e he => ?_
    rcases update_eq_some.mp he with ⟨rfl, heq⟩ | ⟨-, he⟩
    · obtain ⟨hsame, hlist⟩ := hsub e heq
      have hkey : e.key = d.key := congrArg (fun p => (⟨p.1, p.2.2.1⟩ : DomainKey)) hsame
      exact ⟨hkey.trans (h.domainKey _ d hd), _, hlist, .inr ⟨d, hd, rfl⟩⟩
    · exact ⟨h.domainKey key' e he, _, .refl _, .inr ⟨e, he, rfl⟩⟩
  | assign key d id g pid index hd hpid hnew hid hg hfind hlt
  | unbind key d id g pids hd hid hg hpids =>
    have hgid := h.groupId id g hg
    subst hgid
    exact h.frame rfl rfl (place_update hg rfl) (fun _ _ hlisted => hlisted)
      fun key' e he => ⟨h.domainKey key' e he, _, .refl _, .inr ⟨e, he, rfl⟩⟩
  | migrate mig ok d g c l start ht hplace =>
    exact h.migrate hm ht ok (hP _ _ hplace).1 (hP _ _ hplace).2
  | layerUp numaId => exact h.layerUp numaId
  | layerDown numaId layerId => exact h.layerDown hm numaId layerId
  | newDomain d hnone hnil hadd =>
    refine h.frame rfl rfl (fun _ => rfl) (fun id _ hlisted => hlisted.newDomain hnone _)
      fun key e he => ?_
    rcases update_eq_some.mp he with ⟨rfl, heq⟩ | ⟨-, he⟩
    · cases heq
      exact ⟨rfl, [], by rw [hnil], .inl rfl⟩
    · exact ⟨h.domainKey key e he, _, .refl _, .inr ⟨e, he, rfl⟩⟩
  | restore dynamicAffinity =>
    apply Layout.fresh (h.toHeights.restore dynamicAffinity)
    intro key d hd
    obtain ⟨d₀, hd₀, rfl⟩ := Option.map_eq_some_iff.mp hd
    exact ⟨h.domainKey key d₀ hd₀, rfl⟩

/-- Every step that meets the condition keeps the layout. -/
theorem Layout.step (hm : m.Regular) (h : Layout m s) {i : SchedStep} (hmay : s.MayPlace m i) :
    Layout m (s.step m i) := by
  have hi : Permitted m ⟨fun _ p => Unfragmented p.map p.size ∧ p.groupId ∉ p.layer.groups,
      True, True⟩ s i := ⟨hmay.1, hmay.2.1, hmay.2.2, .inl trivial, .inl trivial⟩
  exact hi.keeps (fun h => h.change hm fun _ _ hp => hp) h

end

end Sched

end UbsVirt.Vas
