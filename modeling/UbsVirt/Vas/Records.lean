import UbsVirt.Vas.NumaChoice

/-!
# The records of a VM

A VM is recorded in the map of domains, its groups in the map of groups, in the list of their
domain and in a layer of a cluster. Every operation changes these records one at a time
(`cluster_sched.cpp:585-603,701-710,930-960,1122-1169,1244-1297,1352-1357`), and keeps them
linked as long as compaction drops no group.
-/

namespace UbsVirt.Vas

open Maps Run List Function

namespace Sched

/-- The records of the groups belong together: a group of the table is listed by its domain, and
a layer names groups of the table only. A domain may list a group that is gone. -/
structure Linked (m : Machine) (s : Sched) : Prop where
  groupId : ∀ id g, s.groupMap id = some g → g.id = id
  cluster : ∀ id g, s.groupMap id = some g → (m.cluster id.domainKey.numaId id.clusterId).isSome
  listed : ∀ id g, s.groupMap id = some g → s.Listed id
  owned : ∀ key d, s.domainMap key = some d → ∀ id ∈ d.groups, id.domainKey = key
  nodup : ∀ c i l, s.layer c i = some l → l.groups.Nodup
  place : ∀ c i l, s.layer c i = some l → ∀ id ∈ l.groups,
    id.clusterId = c ∧ id.layerId = i ∧ (s.groupMap id).isSome

section

variable {m : Machine} {P : Permits} {s s' : Sched}

theorem Linked.placed (h : Linked m s) : Placed m s := by
  refine ⟨h.groupId, fun c hc i l hl id hid hsome => ?_⟩
  obtain ⟨g, hg⟩ := Option.isSome_iff_exists.mp hsome
  obtain ⟨hcid, hlid, -⟩ := h.place _ _ l hl id hid
  -- clusters of different nodes have different ids
  obtain ⟨c', hc'⟩ := Option.isSome_iff_exists.mp (h.cluster id g hg)
  obtain ⟨hct', hnuma', hcid'⟩ := Machine.cluster_some hc'
  rw [Machine.eq_of_id_eq hct' hc (by rw [hcid', hcid])] at hnuma'
  exact ⟨hcid, hlid, hnuma'.symm⟩

/-! ### Changes keep the records linked -/

/-- The groups keep their places and go on being listed. -/
theorem Linked.frame (h : Linked m s) (hlayers : s'.layers = s.layers)
    (hgroups : ∀ id, (s'.groupMap id).map VmGroup.place = (s.groupMap id).map VmGroup.place)
    (hlisted : ∀ id, (s.groupMap id).isSome → s.Listed id → s'.Listed id)
    (howned : ∀ key d, s'.domainMap key = some d → ∀ id ∈ d.groups, id.domainKey = key) :
    Linked m s' := by
  have hold : ∀ id g', s'.groupMap id = some g' → ∃ g, s.groupMap id = some g ∧ g'.id = g.id := by
    intro id g' hg'
    obtain ⟨g, hg, hid, -⟩ := place_some (hgroups id) hg'
    exact ⟨g, hg, hid⟩
  have hlayer : ∀ c i, s'.layer c i = s.layer c i := by
    intro c i
    unfold layer
    rw [hlayers]
  constructor
  · intro id g' hg'
    obtain ⟨g, hg, hid⟩ := hold id g' hg'
    rw [hid]
    exact h.groupId id g hg
  · intro id g' hg'
    obtain ⟨g, hg, -⟩ := hold id g' hg'
    exact h.cluster id g hg
  · intro id g' hg'
    obtain ⟨g, hg, -⟩ := hold id g' hg'
    exact hlisted id (by rw [hg]; rfl) (h.listed id g hg)
  · exact howned
  · intro c i l hl
    rw [hlayer] at hl
    exact h.nodup c i l hl
  · intro c i l hl id hid
    rw [hlayer] at hl
    obtain ⟨hcid, hlid, hsome⟩ := h.place c i l hl id hid
    refine ⟨hcid, hlid, ?_⟩
    rwa [← Option.isSome_map (f := VmGroup.place), hgroups id, Option.isSome_map]

/-- A layer after a group has left it: no other layer is touched. -/
theorem delGroupFromClusterLayer_layer (g : VmGroup) {c i : Nat} {l' : ClusterLayer}
    (hl' : (s.delGroupFromClusterLayer g).layer c i = some l') :
    ∃ l, s.layer c i = some l ∧
      l' = if c = g.id.clusterId ∧ i = g.id.layerId then l.delGroup g else l := by
  unfold delGroupFromClusterLayer at hl'
  split at hl'
  · next l hl =>
    rw [layer_setLayer hl] at hl'
    split at hl'
    · next heq =>
      cases hl'
      exact ⟨l, by rw [heq.1, heq.2]; exact hl, (if_pos heq).symm⟩
    · next hne => exact ⟨l', hl', (if_neg hne).symm⟩
  · next hnone =>
    refine ⟨l', hl', ?_⟩
    split
    · next heq =>
      rw [heq.1, heq.2, hnone] at hl'
      cases hl'
    · rfl

variable {g : VmGroup}

/-- Taking a group off the records. -/
theorem Linked.withdraw (h : Linked m s) (entityMap : Nat → Option Int) :
    Linked m (s.withdraw g entityMap) := by
  have hold : ∀ id g', (s.withdraw g entityMap).groupMap id = some g' →
      s.groupMap id = some g' := by
    intro id g' hg'
    rw [withdraw_groupMap] at hg'
    exact (update_none_eq_some.mp hg').2
  constructor
  · exact fun id g' hg' => h.groupId id g' (hold id g' hg')
  · exact fun id g' hg' => h.cluster id g' (hold id g' hg')
  · intro id g' hg'
    unfold Listed
    rw [withdraw_domainMap]
    exact h.listed id g' (hold id g' hg')
  · rw [withdraw_domainMap]
    exact h.owned
  · intro c i l' hl'
    obtain ⟨l, hl, rfl⟩ := delGroupFromClusterLayer_layer g hl'
    have hnodup := h.nodup c i l hl
    split
    · exact hnodup.erase _
    · exact hnodup
  · intro c i l' hl' id hid
    obtain ⟨l, hl, rfl⟩ := delGroupFromClusterLayer_layer g hl'
    -- the group is named by its own layer only, and not there any more
    have hne : id ≠ g.id ∧ id ∈ l.groups := by
      split at hid
      · exact (mem_delGroup (h.nodup c i l hl)).mp hid
      · next hother =>
        refine ⟨?_, hid⟩
        rintro rfl
        obtain ⟨hcid, hlid, -⟩ := h.place c i l hl _ hid
        exact hother ⟨hcid.symm, hlid.symm⟩
    obtain ⟨hcid, hlid, hsome⟩ := h.place c i l hl id hne.2
    refine ⟨hcid, hlid, ?_⟩
    rwa [withdraw_groupMap, update_of_ne hne.1]

variable {l : ClusterLayer}

/-- A group is bound to a layer and to its domain, which may give up groups that are gone. -/
theorem Linked.bind (h : Linked m s) {d d' : VmDomain}
    (hd : s.domainMap g.id.domainKey = some d) (hsub : ∀ id ∈ d'.groups, id ∈ d.groups)
    (hkeep : ∀ id ∈ d.groups, (s.groupMap id).isSome → id ∈ d'.groups)
    (hc : (m.cluster g.id.domainKey.numaId g.id.clusterId).isSome)
    (hl : s.layer g.id.clusterId g.id.layerId = some l) : Linked m (s.bindGroup d' g) := by
  rw [bindGroup_eq hl]
  constructor
  · intro id g' hg'
    rcases update_eq_some.mp hg' with ⟨rfl, hnew⟩ | ⟨-, hold⟩
    · cases hnew
      rfl
    · exact h.groupId id g' hold
  · intro id g' hg'
    rcases update_eq_some.mp hg' with ⟨rfl, -⟩ | ⟨-, hold⟩
    · exact hc
    · exact h.cluster id g' hold
  · intro id g' hg'
    show ∃ e, update s.domainMap g.id.domainKey _ id.domainKey = some e ∧ id ∈ e.groups
    rw [update_apply]
    rcases update_eq_some.mp hg' with ⟨rfl, -⟩ | ⟨-, hold⟩
    · exact ⟨_, if_pos rfl, mem_setInsert.mpr (.inl rfl)⟩
    · change s.groupMap id = some g' at hold
      obtain ⟨e, he, hid⟩ := h.listed id g' hold
      split
      · next heq =>
        rw [heq, hd] at he
        cases he
        exact ⟨_, rfl, mem_setInsert.mpr (.inr (hkeep id hid (by rw [hold]; rfl)))⟩
      · exact ⟨e, he, hid⟩
  · intro key e he id hid
    rcases update_eq_some.mp he with ⟨rfl, hnew⟩ | ⟨-, hold⟩
    · cases hnew
      rcases mem_setInsert.mp hid with rfl | hin
      · rfl
      · exact h.owned _ d hd id (hsub id hin)
    · exact h.owned key e hold id hid
  · intro c i l' hl'
    change (s.setLayer _ _ _).layer c i = some l' at hl'
    rw [layer_setLayer hl] at hl'
    split at hl'
    · cases hl'
      exact nodup_setInsert (h.nodup _ _ l hl)
    · exact h.nodup c i l' hl'
  · intro c i l' hl' id hid
    show _ ∧ _ ∧ (update s.groupMap g.id (some g) id).isSome
    have hsome : (s.groupMap id).isSome →
        (update s.groupMap g.id (some g) id).isSome := by
      intro hsome
      rw [update_apply]
      split
      · rfl
      · exact hsome
    change (s.setLayer _ _ _).layer c i = some l' at hl'
    rw [layer_setLayer hl] at hl'
    split at hl'
    · next heq =>
      cases hl'
      rcases mem_addGroup.mp hid with rfl | hin
      · exact ⟨heq.1.symm, heq.2.symm, by rw [update_self]; rfl⟩
      · obtain ⟨hcid, hlid, hold⟩ := h.place _ _ l hl id hin
        exact ⟨hcid.trans heq.1.symm, hlid.trans heq.2.symm, hsome hold⟩
    · obtain ⟨hcid, hlid, hold⟩ := h.place c i l' hl' id hid
      exact ⟨hcid, hlid, hsome hold⟩

/-- A group returns to its layer. -/
theorem Linked.back (h : Linked m s)
    (hl : s.layer g.id.clusterId g.id.layerId = some l) (hin : g.id ∈ l.groups)
    (entityMap : Nat → Option Int) :
    Linked m { s.setLayer g.id.clusterId g.id.layerId ((l.delGroup g).addGroup g) with
      entityMap := entityMap } := by
  constructor
  · exact h.groupId
  · exact h.cluster
  · exact h.listed
  · exact h.owned
  · intro c i l' hl'
    change (s.setLayer _ _ _).layer c i = some l' at hl'
    rw [layer_setLayer hl] at hl'
    split at hl'
    · cases hl'
      exact nodup_setInsert ((h.nodup _ _ l hl).erase _)
    · exact h.nodup c i l' hl'
  · intro c i l' hl' id hid
    change (s.setLayer _ _ _).layer c i = some l' at hl'
    rw [layer_setLayer hl] at hl'
    split at hl'
    · next heq =>
      cases hl'
      rw [heq.1, heq.2]
      rcases mem_addGroup.mp hid with rfl | hid
      · exact h.place _ _ l hl _ hin
      · exact h.place _ _ l hl _ (mem_of_mem_erase hid)
    · exact h.place c i l' hl' id hid

/-- The maps are the same, and so are the layers that name groups. -/
theorem Linked.of_maps (h : Linked m s) (hgroup : s'.groupMap = s.groupMap)
    (hdomain : s'.domainMap = s.domainMap)
    (hlayer : ∀ c i l, s'.layer c i = some l → s.layer c i = some l ∨ l.groups = []) :
    Linked m s' := by
  constructor
  · rw [hgroup]
    exact h.groupId
  · rw [hgroup]
    exact h.cluster
  · unfold Listed
    rw [hgroup, hdomain]
    exact h.listed
  · rw [hdomain]
    exact h.owned
  · intro c i l hl
    rcases hlayer c i l hl with hold | hnil
    · exact h.nodup c i l hold
    · rw [hnil]
      exact nodup_nil
  · intro c i l hl id hid
    rcases hlayer c i l hl with hold | hnil
    · rw [hgroup]
      exact h.place c i l hold id hid
    · rw [hnil] at hid
      cases hid

/-- A state without groups. -/
theorem Linked.fresh (hlayers : s.layers = fun id => (m.topology.filter (·.id = id)).map freshLayer)
    (hgroup : ∀ id, s.groupMap id = none)
    (hdomain : ∀ key d, s.domainMap key = some d → d.groups = []) : Linked m s := by
  have hno : ∀ id g, s.groupMap id ≠ some g := by
    intro id g hg
    rw [hgroup] at hg
    cases hg
  have hnil : ∀ c i l, s.layer c i = some l → l.groups = [] := by
    intro c i l hl
    unfold layer at hl
    rw [hlayers] at hl
    obtain ⟨c', -, rfl⟩ := mem_map.mp (mem_of_getElem? hl)
    rfl
  constructor
  · exact fun id g hg => absurd hg (hno id g)
  · exact fun id g hg => absurd hg (hno id g)
  · exact fun id g hg => absurd hg (hno id g)
  · intro key d hd id hid
    rw [hdomain key d hd] at hid
    cases hid
  · intro c i l hl
    rw [hnil c i l hl]
    exact nodup_nil
  · intro c i l hl id hid
    rw [hnil c i l hl] at hid
    cases hid

theorem Linked.init (dynamicAffinity : Bool) : Linked m (Sched.init m dynamicAffinity) :=
  .fresh rfl (fun _ => rfl) fun _ _ hd => nomatch hd

/-- A layer of the state after a raise is one from before or names no group. -/
theorem overProvisionUp_groups (numaId : Nat) {c i : Nat}
    (hl : (s.overProvisionUp m numaId).layer c i = some l) :
    s.layer c i = some l ∨ l.groups = [] := by
  unfold overProvisionUp at hl
  split at hl
  · unfold layer at hl
    dsimp only at hl
    rw [getElem?_append] at hl
    split at hl
    · exact .inl hl
    · obtain ⟨c', -, rfl⟩ := mem_map.mp (mem_of_getElem? hl)
      exact .inr rfl
  · exact .inl hl

/-- A domain lists groups of its own after one of the domains has been rewritten. -/
theorem Linked.owned_update (h : Linked m s) {key : DomainKey} {d' : Option VmDomain}
    (hnew : ∀ e, d' = some e → ∀ id ∈ e.groups, id.domainKey = key) :
    ∀ key' e, (s.setDomain key d').domainMap key' = some e → ∀ id ∈ e.groups,
      id.domainKey = key' := by
  intro key' e he id hid
  rcases update_eq_some.mp he with ⟨rfl, heq⟩ | ⟨-, hold⟩
  · exact hnew e heq id hid
  · exact h.owned key' e hold id hid

/-- Every change that drops no group keeps the records linked. -/
theorem Linked.change (h : Linked m s) (hchange : Change m P s s') :
    Linked m s' := by
  cases hchange with
  | bind d c l g hd hc hl hlevel hnil hfind hplace =>
    exact h.bind hd (fun _ hid => hid) (fun _ hid _ => hid) (by rw [hc]; rfl) hl
  | free key d id g hd hid hg hfree =>
    have hgid := h.groupId id g hg
    subst hgid
    rw [freeGroup_eq hg (by rw [← h.owned key d hd _ hid]; exact h.cluster _ g hg)]
    exact h.withdraw s.entityMap
  | relist key d d' hd hsub hkeep =>
    exact h.frame rfl (fun _ => rfl) (fun id hsome hlisted => hlisted.relist hsome hd hkeep)
      (h.owned_update fun e he id hid => h.owned key d hd id ((hsub e he).2.subset hid))
  | assign key d id g pid index hd hpid hnew hid hg hfind hlt
  | unbind key d id g pids hd hid hg hpids =>
    have hgid := h.groupId id g hg
    subst hgid
    exact h.frame rfl (place_update hg rfl) (fun _ _ hlisted => hlisted) h.owned
  | migrate mig ok d g c l start ht hplace =>
    obtain ⟨src, hmoves, heq⟩ := h.placed.migrate ht ok
    rw [heq]
    split
    · apply (h.withdraw _).bind (d := d) (l := l)
      · rw [withdraw_domainMap]
        exact hmoves.domain
      · exact fun id hid => mem_of_mem_erase hid
      · exact fun id => mem_erase_of_withdraw
      · rw [hmoves.cluster]
        rfl
      · exact hmoves.layer_withdraw _
    · exact h.back hmoves.source hmoves.mem _
  | layerUp numaId =>
    obtain ⟨hg, hd, -⟩ := s.overProvisionUp_maps (m := m) numaId
    exact h.of_maps hg hd fun c i l => overProvisionUp_groups numaId
  | layerDown numaId layerId =>
    obtain ⟨hg, hd, -⟩ := s.overProvisionDown_maps (m := m) numaId layerId
    exact h.of_maps hg hd fun c i l hl => .inl (overProvisionDown_layer hl)
  | newDomain d hnone hnil hadd =>
    refine h.frame rfl (fun _ => rfl) (fun id _ hlisted => hlisted.newDomain hnone _)
      (h.owned_update fun e he id hid => ?_)
    cases he
    rw [hnil] at hid
    cases hid
  | restore dynamicAffinity =>
    apply Linked.fresh rfl (fun _ => rfl)
    intro key d hd
    obtain ⟨d₀, -, rfl⟩ := Option.map_eq_some_iff.mp hd
    rfl

theorem Linked.step (h : Linked m s) {i : SchedStep} (hmay : s.Completes m i ∧ s.MayClean i) :
    Linked m (s.step m i) := by
  have hi : Permitted m ⟨fun _ _ => True, True, True⟩ s i :=
    ⟨hmay.1, hmay.2, fun _ _ => trivial, .inl trivial, .inl trivial⟩
  exact hi.keeps (fun h => h.change) h

end

end Sched

end UbsVirt.Vas
