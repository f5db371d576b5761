import UbsVirt.Vas.Operations

/-!
# What a step of the scheduler can do

The steps of the scheduler change four maps and the layers, most of them in a loop over the
groups of a domain (`cluster_sched.cpp:585-603,701-775,930-960,1122-1169,1244-1297,1352-1357`).
`Change` says what one round of such a loop can do, with what the code has checked before it.
A step is a sequence of changes (`step_path`), so that an invariant is a matter of the changes
(`Permitted.keeps`).
-/

namespace UbsVirt.Vas

open Areas Maps Function List Sched

def VmGroup.place (g : VmGroup) : GroupId × Nat × Nat := (g.id, g.start, g.nrCpus)

/-- What does not change while a domain is known: all but its groups and whether it has been
scheduled. -/
def VmDomain.identity (d : VmDomain) : String × String × Nat × List Nat × List Bool :=
  (d.uuid, d.name, d.numaId, d.pids, d.commonCpuMap)

namespace Sched

/-! ### Conditions on steps -/

/-- What a step that takes CPUs asks for: the map it searches, how many CPUs, for which group,
and the layer the group goes to. -/
structure Placement where
  map : List Bool
  size : Nat
  groupId : GroupId
  layer : ClusterLayer

def placement (m : Machine) (s : Sched) : SchedStep → Option Placement
  | .allocGroup key clusterId layerId nr =>
    (s.domainMap key).bind fun d =>
      (m.cluster key.numaId clusterId).bind fun c =>
        (s.layer clusterId layerId).bind fun l =>
          (allocNum l nr).map fun n => ⟨availableCpuMap d c l, n, ⟨key, clusterId, layerId⟩, l⟩
  | .migrate mig _ =>
    (s.migrationTarget m mig).map fun (d, g, c, l, _) =>
      ⟨availableCpuMap d c l, g.nrCpus, ⟨g.id.domainKey, mig.clusterId, mig.layerId⟩, l⟩
  | _ => none

/-- Compaction takes groups that have no thread left off a domain's list while it walks over that
list. It does not come to that when every group of the domain has one of the domain's threads.
`cluster_sched.cpp:1125,1161-1165`. -/
def MayClean (s : Sched) : SchedStep → Prop
  | .clean key _ => ∀ d ∈ s.domainMap key, ∀ id ∈ d.groups, ∀ g ∈ s.groupMap id,
      ∃ pid ∈ g.entityPids, pid ∈ d.pids
  | _ => True

instance (s : Sched) (i : SchedStep) : Decidable (s.MayClean i) :=
  match i with
  | .clean key _ => inferInstanceAs (Decidable (∀ d ∈ s.domainMap key, _))
  | .allocGroup .. | .free .. | .layerUp .. | .layerDown .. | .assign .. | .unassign ..
  | .deReSched .. | .migrate .. | .update .. | .setReScheded .. | .restore .. => isTrue trivial

/-- The condition under which a step keeps the layers exact. It completes, and no group loses its
last thread in compaction. In the map a step that takes CPUs searches, the first free CPU starts a
run of as many free CPUs as are asked for, or there are fewer free CPUs than that; and the domain
has no group yet in that layer of the cluster. -/
def MayPlace (m : Machine) (s : Sched) (i : SchedStep) : Prop :=
  s.Completes m i ∧ s.MayClean i ∧
    ∀ p ∈ s.placement m i, Unfragmented p.map p.size ∧ p.groupId ∉ p.layer.groups

instance (m : Machine) (s : Sched) (i : SchedStep) : Decidable (s.MayPlace m i) :=
  inferInstanceAs (Decidable (_ ∧ _ ∧ ∀ p ∈ s.placement m i, _))

/-- A domain is freed only when no thread is bound in its groups. -/
def MayFree (s : Sched) : SchedStep → Prop
  | .free key _ => ∀ d ∈ s.domainMap key, ∀ id ∈ d.groups, ∀ g ∈ s.groupMap id, g.entityPids = []
  | _ => True

instance (s : Sched) (i : SchedStep) : Decidable (s.MayFree i) :=
  match i with
  | .free key _ => inferInstanceAs (Decidable (∀ d ∈ s.domainMap key, _))
  | .allocGroup .. | .layerUp .. | .layerDown .. | .assign .. | .unassign .. | .deReSched ..
  | .clean .. | .migrate .. | .update .. | .setReScheded .. | .restore .. => isTrue trivial

/-! ### Reading the state after a change -/

variable {g : VmGroup} {l : ClusterLayer} {d : VmDomain} {mig : Migration}

section

variable {m : Machine} {s : Sched} {clusterId layerId : Nat} {l l₀ : ClusterLayer}

theorem layer_setLayer (h : s.layer clusterId layerId = some l₀) (c i : Nat) :
    (s.setLayer clusterId layerId l).layer c i =
      if c = clusterId ∧ i = layerId then some l else s.layer c i := by
  unfold layer at h
  have hlt := (List.getElem?_eq_some_iff.mp h).1
  unfold layer setLayer
  dsimp only
  by_cases hc : c = clusterId
  · subst hc
    rw [update_self, getElem?_set]
    by_cases hi : i = layerId
    · subst hi
      simp [hlt]
    · rw [if_neg (fun h => hi h.symm), if_neg (fun h => hi h.2)]
  · rw [update_of_ne hc, if_neg (fun h => hc h.1)]

theorem length_layers_setLayer (c : Nat) :
    ((s.setLayer clusterId layerId l).layers c).length = (s.layers c).length := by
  unfold setLayer
  dsimp only
  rw [update_apply]
  split
  · next h => rw [length_set, h]
  · rfl

theorem delGroupFromClusterLayer_eq (hl : s.layer g.id.clusterId g.id.layerId = some l) :
    s.delGroupFromClusterLayer g = s.setLayer g.id.clusterId g.id.layerId (l.delGroup g) := by
  unfold delGroupFromClusterLayer
  rw [hl]

theorem bindGroup_eq (hl : s.layer g.id.clusterId g.id.layerId = some l) : s.bindGroup d g =
      ((s.setLayer g.id.clusterId g.id.layerId (l.addGroup g)).setGroup g.id (some g)).setDomain
        g.id.domainKey (some { d with groups := setInsert GroupId.Le g.id d.groups }) := by
  have hl' : (s.setGroup g.id (some g)).layer g.id.clusterId g.id.layerId = some l := hl
  unfold bindGroup addGroupToClusterLayer
  rw [hl']
  rfl

theorem bindGroup_groupMap (d : VmDomain) (g : VmGroup) :
    (s.bindGroup d g).groupMap = update s.groupMap g.id (some g) := by
  unfold bindGroup addGroupToClusterLayer
  split <;> rfl

theorem delGroupFromClusterLayer_domainMap (g : VmGroup) :
    (s.delGroupFromClusterLayer g).domainMap = s.domainMap := by
  unfold delGroupFromClusterLayer
  split <;> rfl

theorem delGroupFromClusterLayer_groupMap (g : VmGroup) :
    (s.delGroupFromClusterLayer g).groupMap = s.groupMap := by
  unfold delGroupFromClusterLayer
  split <;> rfl

theorem addGroupToClusterLayer_domainMap (g : VmGroup) :
    (s.addGroupToClusterLayer g).domainMap = s.domainMap := by
  unfold addGroupToClusterLayer
  split <;> rfl

theorem bindGroup_domainMap (d : VmDomain) (g : VmGroup) :
    (s.bindGroup d g).domainMap = update s.domainMap g.id.domainKey
      (some { d with groups := setInsert GroupId.Le g.id d.groups }) := by
  show update ((s.setGroup g.id (some g)).addGroupToClusterLayer g).domainMap _ _ = _
  rw [addGroupToClusterLayer_domainMap]
  rfl

theorem freeGroup_domainMap (numaId : Nat) (id : GroupId) :
    (s.freeGroup m numaId id).domainMap = s.domainMap := by
  unfold freeGroup
  split
  · rfl
  · next g _ =>
    split
    · rfl
    · exact delGroupFromClusterLayer_domainMap g

theorem freeGroup_groupMap (numaId : Nat) (id : GroupId) :
    (s.freeGroup m numaId id).groupMap = update s.groupMap id none := by
  unfold freeGroup
  cases hg : s.groupMap id with
  | none =>
    show s.groupMap = _
    rw [← hg, update_eq_self]
  | some g =>
    dsimp only
    split
    · rfl
    · show update (s.delGroupFromClusterLayer g).groupMap id none = _
      rw [delGroupFromClusterLayer_groupMap]

theorem freeGroup_entityMap (numaId : Nat) (id : GroupId) :
    (s.freeGroup m numaId id).entityMap = s.entityMap := by
  unfold freeGroup delGroupFromClusterLayer
  split
  · rfl
  · split
    · rfl
    · split <;> rfl

def withdraw (s : Sched) (g : VmGroup) (entityMap : Nat → Option Int) : Sched :=
  { (s.delGroupFromClusterLayer g).setGroup g.id none with entityMap := entityMap }

theorem withdraw_groupMap (g : VmGroup) (entityMap : Nat → Option Int) :
    (s.withdraw g entityMap).groupMap = update s.groupMap g.id none := by
  show update (s.delGroupFromClusterLayer g).groupMap g.id none = _
  rw [delGroupFromClusterLayer_groupMap]

theorem withdraw_domainMap (g : VmGroup) (entityMap : Nat → Option Int) :
    (s.withdraw g entityMap).domainMap = s.domainMap :=
  delGroupFromClusterLayer_domainMap g

theorem withdraw_eq (hl : s.layer g.id.clusterId g.id.layerId = some l)
    (entityMap : Nat → Option Int) : s.withdraw g entityMap =
      { (s.setLayer g.id.clusterId g.id.layerId (l.delGroup g)).setGroup g.id none with
        entityMap := entityMap } := by
  unfold withdraw
  rw [delGroupFromClusterLayer_eq hl]

theorem delGroupFromClusterLayer_entityMap (g : VmGroup) :
    (s.delGroupFromClusterLayer g).entityMap = s.entityMap := by
  unfold delGroupFromClusterLayer
  split <;> rfl

theorem freeGroup_eq (hg : s.groupMap g.id = some g) {numaId : Nat}
    (hc : (m.cluster numaId g.id.clusterId).isSome) :
    s.freeGroup m numaId g.id = s.withdraw g s.entityMap := by
  obtain ⟨c, hc⟩ := Option.isSome_iff_exists.mp hc
  unfold freeGroup withdraw
  rw [hg]
  dsimp only
  rw [hc, ← delGroupFromClusterLayer_entityMap g]
  rfl

theorem leaveLayer_eq {src : ClusterLayer}
    (hfrom : g.id.clusterId = mig.fromCluster) (hfrom' : g.id.layerId = mig.fromLayer)
    (hsrc : s.layer g.id.clusterId g.id.layerId = some src) :
    s.leaveLayer mig g = s.setLayer g.id.clusterId g.id.layerId (src.delGroup g) := by
  unfold leaveLayer
  rw [← hfrom, ← hfrom', hsrc]

theorem returnToLayer_domainMap (mig : Migration) (g : VmGroup) :
    (s.returnToLayer mig g).domainMap = s.domainMap := by
  unfold returnToLayer
  split <;> rfl

theorem leaveLayer_domainMap (mig : Migration) (g : VmGroup) :
    (s.leaveLayer mig g).domainMap = s.domainMap := by
  unfold leaveLayer
  split <;> rfl

/-- A group that returns to the layer it has just left. -/
theorem returnToLayer_eq {src : ClusterLayer}
    (hfrom : g.id.clusterId = mig.fromCluster) (hfrom' : g.id.layerId = mig.fromLayer)
    (hsrc : s.layer g.id.clusterId g.id.layerId = some src) :
    (s.setLayer g.id.clusterId g.id.layerId (src.delGroup g)).returnToLayer mig g =
      s.setLayer g.id.clusterId g.id.layerId ((src.delGroup g).addGroup g) := by
  unfold returnToLayer
  rw [← hfrom, ← hfrom', layer_setLayer hsrc, if_pos ⟨rfl, rfl⟩]
  unfold setLayer
  dsimp only
  rw [update_idem, update_self, set_set]

theorem overProvisionUp_maps (numaId : Nat) : (s.overProvisionUp m numaId).groupMap = s.groupMap ∧
      (s.overProvisionUp m numaId).domainMap = s.domainMap ∧
      (s.overProvisionUp m numaId).entityMap = s.entityMap := by
  unfold overProvisionUp
  split <;> exact ⟨rfl, rfl, rfl⟩

theorem overProvisionDown_maps (numaId layerId : Nat) :
    (s.overProvisionDown m numaId layerId).groupMap = s.groupMap ∧
      (s.overProvisionDown m numaId layerId).domainMap = s.domainMap ∧
      (s.overProvisionDown m numaId layerId).entityMap = s.entityMap := by
  unfold overProvisionDown
  split <;> exact ⟨rfl, rfl, rfl⟩

theorem foldl_domainMap {α : Type*} {f : Sched → α → Sched}
    (hf : ∀ s a, (f s a).domainMap = s.domainMap) (l : List α) :
    ∀ s, (l.foldl f s).domainMap = s.domainMap := by
  induction l with
  | nil => exact fun _ => rfl
  | cons a l ih => exact fun s => (ih (f s a)).trans (hf s a)

theorem unassignGroup_domainMap (id : GroupId) : (s.unassignGroup id).domainMap = s.domainMap := by
  unfold unassignGroup
  split <;> rfl

theorem unassign_domainMap (key : DomainKey) : (s.unassign key).domainMap = s.domainMap := by
  unfold unassign
  split
  · rfl
  · next d _ => exact foldl_domainMap (fun s id => s.unassignGroup_domainMap id) d.groups s

theorem foldl_freeGroup_groupMap (numaId : Nat) (ids : List GroupId) (s : Sched) (id : GroupId) :
    (ids.foldl (fun s id => s.freeGroup m numaId id) s).groupMap id =
      if id ∈ ids then none else s.groupMap id := by
  induction ids generalizing s with
  | nil => simp
  | cons id' ids ih =>
    rw [foldl_cons, ih, freeGroup_groupMap, update_apply]
    by_cases hmem : id ∈ ids
    · simp [hmem]
    · by_cases heq : id = id'
      · simp [heq]
      · simp [hmem, heq]

end

/-! ### What the steps find -/

variable {start : Nat}

section

variable {m : Machine} {s : Sched} {c : ClusterInfo}

theorem allocArea_some {nr n : Nat}
    (h : allocArea d c l nr = some (start, n)) : allocNum l nr = some n ∧
      findFirstIdlePos (availableCpuMap d c l) 0 n = some start := by
  unfold allocArea at h
  cases hn : allocNum l nr with
  | none => simp [hn] at h
  | some n' =>
    rw [hn, Option.bind_some, Option.map_eq_some_iff] at h
    obtain ⟨start', hfind, heq⟩ := h
    cases heq
    exact ⟨rfl, hfind⟩

/-- What allocating a group comes to. -/
theorem allocGroupFromCluster_cases (key : DomainKey) (clusterId layerId nr : Nat) :
    s.allocGroupFromCluster m key clusterId layerId nr = s ∨
      ∃ d c l n start, s.domainMap key = some d ∧ m.cluster key.numaId clusterId = some c ∧
        s.layer clusterId layerId = some l ∧ layerId < s.overProvision key.numaId ∧
        allocNum l nr = some n ∧ findFirstIdlePos (availableCpuMap d c l) 0 n = some start ∧
        s.allocGroupFromCluster m key clusterId layerId nr =
          s.bindGroup d (newGroup m ⟨key, clusterId, layerId⟩ start n) := by
  unfold allocGroupFromCluster
  split
  · next d c l hd hc hl =>
    split
    · next hlevel =>
      split
      · next start n harea =>
        obtain ⟨hn, hfind⟩ := allocArea_some harea
        exact .inr ⟨d, c, l, n, start, hd, hc, hl, hlevel, hn, hfind, rfl⟩
      · exact .inl rfl
    · exact .inl rfl
  · exact .inl rfl

theorem findPin_some {ids : List GroupId}
    {index : Nat} (h : s.findPin m d ids = some (g, c, index)) :
    ∃ id ∈ ids, s.groupMap id = some g ∧ m.cluster d.numaId g.id.clusterId = some c ∧
      findFirstIdlePos g.usedBitmap g.start m.granularity = some index ∧
      index < g.start + g.nrCpus := by
  induction ids with
  | nil => cases h
  | cons id ids ih =>
    unfold findPin at h
    split at h
    · exact (ih h).imp fun _ hpin => ⟨mem_cons_of_mem _ hpin.1, hpin.2⟩
    · next g' hg' =>
      split at h
      · next index' c' hfind hc' =>
        split at h
        · next hlt =>
          cases h
          exact ⟨id, mem_cons_self, hg', hc', hfind, hlt⟩
        · exact (ih h).imp fun _ hpin => ⟨mem_cons_of_mem _ hpin.1, hpin.2⟩
      · exact (ih h).imp fun _ hpin => ⟨mem_cons_of_mem _ hpin.1, hpin.2⟩

/-- What a migration that goes ahead has found. -/
theorem migrationTarget_some (h : s.migrationTarget m mig = some (d, g, c, l, start)) :
    m.cluster mig.numaId mig.clusterId = some c ∧ s.layer mig.clusterId mig.layerId = some l ∧
      (∃ c' src, m.cluster mig.numaId mig.fromCluster = some c' ∧
        s.layer mig.fromCluster mig.fromLayer = some src ∧ mig.groupId ∈ src.groups) ∧
      mig.layerId < s.overProvision mig.numaId ∧
      (mig.clusterId, mig.layerId) ≠ (mig.fromCluster, mig.fromLayer) ∧
      s.groupMap mig.groupId = some g ∧ s.domainMap g.id.domainKey = some d ∧
      findFirstIdlePos (availableCpuMap d c l) 0 g.nrCpus = some start := by
  unfold migrationTarget at h
  split at h
  · next c₀ l₀ c' src hc hl hc' hsrc =>
    split at h
    · next hguard =>
      split at h
      · cases h
      · next g₀ hg =>
        split at h
        · cases h
        · next d₀ hd =>
          split at h
          · cases h
          · next start₀ hfind =>
            split at h
            · cases h
            · cases h
              exact ⟨hc, hl, ⟨c', src, hc', hsrc, hguard.1⟩, hguard.2.1, hguard.2.2, hg, hd, hfind⟩
    · cases h
  · cases h

theorem updateDomainInfo_cases (used : NumaUsedCpuMap) (vm : VmInfo) :
    s.updateDomainInfo m used vm = s ∨ ∃ numaId, (s.selectVmNuma m used vm).map (·.1) = some numaId ∧
      s.domainMap ⟨vm.uuid, numaId⟩ = none ∧
      s.updateDomainInfo m used vm =
        s.setDomain ⟨vm.uuid, numaId⟩ (some (newDomain vm numaId)) := by
  unfold updateDomainInfo
  split
  · exact .inl rfl
  · next numaId used' hsel =>
    split
    · exact .inl rfl
    · next hnone =>
      refine .inr ⟨numaId, by rw [hsel]; rfl, ?_, rfl⟩
      rwa [Option.not_isSome_iff_eq_none] at hnone

end

/-! ### Changes -/

/-- What the steps of a run are permitted: the areas they take, to free groups that have
threads, and to add domains. -/
structure Permits where
  place : Sched → Placement → Prop
  free : Prop
  add : Prop

/-- What can happen to the maps in one go. -/
inductive Change (m : Machine) (P : Permits) (s : Sched) : Sched → Prop
  /-- A group without threads is bound to a layer and to its domain. -/
  | bind (d : VmDomain) (c : ClusterInfo) (l : ClusterLayer) (g : VmGroup)
      (hd : s.domainMap g.id.domainKey = some d)
      (hc : m.cluster g.id.domainKey.numaId g.id.clusterId = some c)
      (hl : s.layer g.id.clusterId g.id.layerId = some l)
      (hlevel : g.id.layerId < s.overProvision g.id.domainKey.numaId) (hnil : g.entityPids = [])
      (hfind : findFirstIdlePos (availableCpuMap d c l) 0 g.nrCpus = some g.start)
      (hplace : P.place s ⟨availableCpuMap d c l, g.nrCpus, g.id, l⟩) :
    Change m P s (s.bindGroup d g)
  | free (key : DomainKey) (d : VmDomain) (id : GroupId) (g : VmGroup)
      (hd : s.domainMap key = some d) (hid : id ∈ d.groups) (hg : s.groupMap id = some g)
      (hfree : P.free ∨ g.entityPids = []) :
    Change m P s (s.freeGroup m key.numaId id)
  /-- A domain gives up groups that are gone, or goes. -/
  | relist (key : DomainKey) (d : VmDomain) (d' : Option VmDomain) (hd : s.domainMap key = some d)
      (hsub : ∀ e ∈ d', e.identity = d.identity ∧ e.groups.Sublist d.groups)
      (hkeep : ∀ id ∈ d.groups, (s.groupMap id).isSome → ∃ e ∈ d', id ∈ e.groups) :
    Change m P s (s.setDomain key d')
  /-- A thread without a CPU gets a free one of a group of its domain. -/
  | assign (key : DomainKey) (d : VmDomain) (id : GroupId) (g : VmGroup) (pid index : Nat)
      (hd : s.domainMap key = some d) (hpid : pid ∈ d.pids) (hnew : s.entityMap pid = none)
      (hid : id ∈ d.groups) (hg : s.groupMap id = some g)
      (hfind : findFirstIdlePos g.usedBitmap g.start m.granularity = some index)
      (hlt : index < g.start + g.nrCpus) :
    Change m P s { s.setGroup g.id (some { g with
        usedBitmap := dynamicBitsetSet g.usedBitmap index m.granularity
        entityPids := setInsert (· ≤ ·) pid g.entityPids }) with
      entityMap := Function.update s.entityMap pid (some (index : Int)) }
  /-- The threads of a group, or those that have left its domain, are taken off their CPUs. -/
  | unbind (key : DomainKey) (d : VmDomain) (id : GroupId) (g : VmGroup) (pids : List Nat)
      (hd : s.domainMap key = some d) (hid : id ∈ d.groups) (hg : s.groupMap id = some g)
      (hpids : pids = g.entityPids ∨ ∀ pid ∈ pids, pid ∈ g.entityPids ∧ pid ∉ d.pids) :
    Change m P s (s.unbind g pids)
  /-- A group moves, or returns to its layer. -/
  | migrate (mig : Migration) (ok : Nat → Bool) (d : VmDomain) (g : VmGroup) (c : ClusterInfo)
      (l : ClusterLayer) (start : Nat)
      (ht : s.migrationTarget m mig = some (d, g, c, l, start))
      (hplace : P.place s ⟨availableCpuMap d c l, g.nrCpus,
        ⟨g.id.domainKey, mig.clusterId, mig.layerId⟩, l⟩) :
    Change m P s (s.migrate m mig ok)
  | layerUp (numaId : Nat) : Change m P s (s.overProvisionUp m numaId)
  | layerDown (numaId layerId : Nat) : Change m P s (s.overProvisionDown m numaId layerId)
  | newDomain (d : VmDomain) (hnone : s.domainMap d.key = none) (hnil : d.groups = [])
      (hadd : P.add) : Change m P s (s.setDomain d.key (some d))
  | restore (dynamicAffinity : Bool) : Change m P s (s.restoreVmInfo m dynamicAffinity)

/-- The step is permitted in the state. -/
structure Permitted (m : Machine) (P : Permits) (s : Sched) (i : SchedStep) : Prop where
  completes : s.Completes m i
  clean : s.MayClean i
  place : ∀ p ∈ s.placement m i, P.place s p
  free : P.free ∨ (∀ id g, s.groupMap id = some g → g.id = id) ∧ s.MayFree i
  add : P.add ∨ ∀ used vm, i ≠ .update used vm

section

variable {m : Machine} {P : Permits} {s : Sched}

abbrev Path (m : Machine) (P : Permits) : Sched → Sched → Prop :=
  Relation.ReflTransGen (Change m P)

variable {key : DomainKey}

theorem path_foldl_freeGroup (ids : List GroupId)
    (hids : ∀ id ∈ ids, id ∈ d.groups) : ∀ {s}, s.domainMap key = some d →
      (P.free ∨ ∀ id ∈ ids, ∀ g ∈ s.groupMap id, g.entityPids = []) →
      Path m P s (ids.foldl (fun s id => s.freeGroup m key.numaId id) s) := by
  induction ids with
  | nil => exact fun _ _ => .refl
  | cons id ids ih =>
    intro s hd hfree
    have hone : Path m P s (s.freeGroup m key.numaId id) := by
      cases hg : s.groupMap id with
      | none =>
        unfold freeGroup
        rw [hg]
      | some g =>
        exact .single (.free key d id g hd (hids id mem_cons_self) hg
          (hfree.imp_right fun h => h id mem_cons_self g hg))
    apply hone.trans
    apply ih (fun id' hid' => hids id' (mem_cons_of_mem _ hid'))
    · rwa [freeGroup_domainMap]
    · refine hfree.imp_right fun h id' hid' g hg => ?_
      rw [freeGroup_groupMap] at hg
      exact h id' (mem_cons_of_mem _ hid') g (update_none_eq_some.mp hg).2

theorem path_free (key : DomainKey) (keep : List GroupId)
    (hfree : P.free ∨ s.MayFree (.free key keep)) : Path m P s (s.free m key keep) := by
  unfold free
  cases hd : s.domainMap key with
  | none => exact .refl
  | some d =>
    apply (path_foldl_freeGroup d.groups (fun _ hid => hid) hd
      (hfree.imp_right fun h => h d hd)).tail
    apply Change.relist key d
    · rwa [foldl_domainMap (fun s id => freeGroup_domainMap key.numaId id)]
    · rintro e ⟨⟩
      exact ⟨rfl, filter_sublist⟩
    · intro id hid hsome
      rw [foldl_freeGroup_groupMap, if_pos hid] at hsome
      cases hsome

theorem path_unassign (key : DomainKey) : Path m P s (s.unassign key) := by
  unfold unassign
  cases hd : s.domainMap key with
  | none => exact .refl
  | some d =>
    have hloop : ∀ ids : List GroupId, (∀ id ∈ ids, id ∈ d.groups) → ∀ s, s.domainMap key = some d →
        Path m P s (ids.foldl unassignGroup s) := by
      intro ids
      induction ids with
      | nil => exact fun _ _ _ => .refl
      | cons id ids ih =>
        intro hids s hd
        have hone : Path m P s (s.unassignGroup id) := by
          unfold unassignGroup
          split
          · exact .refl
          · next g hg =>
            exact .single (.unbind key d id g _ hd (hids id mem_cons_self) hg (.inl rfl))
        apply hone.trans
        apply ih (fun id' hid' => hids id' (mem_cons_of_mem _ hid'))
        rwa [unassignGroup_domainMap]
    exact hloop d.groups (fun _ hid => hid) s hd

section

variable (hid : ∀ id g, s.groupMap id = some g → g.id = id)
include hid

/-- A group that is unassigned has no threads, and no other group gets one. -/
theorem unassignGroup_entityPids
    (id id' : GroupId) {g' : VmGroup} (hg' : (s.unassignGroup id).groupMap id' = some g') :
    (id' = id → g'.entityPids = []) ∧
      ((∀ g, s.groupMap id' = some g → g.entityPids = []) → g'.entityPids = []) := by
  unfold unassignGroup at hg'
  cases hg : s.groupMap id with
  | none =>
    rw [hg] at hg'
    refine ⟨?_, fun hnil => hnil g' hg'⟩
    rintro rfl
    change s.groupMap id' = some g' at hg'
    rw [hg] at hg'
    cases hg'
  | some g =>
    have hgid := hid id g hg
    subst hgid
    rw [hg] at hg'
    change update s.groupMap g.id _ id' = some g' at hg'
    rw [update_apply] at hg'
    split at hg'
    · next heq =>
      cases hg'
      have hnil : g.entityPids.filter (· ∉ g.entityPids) = [] := by
        rw [filter_eq_nil_iff]
        intro pid hpid
        simp [hpid]
      exact ⟨fun _ => hnil, fun _ => hnil⟩
    · next hne => exact ⟨fun heq => absurd heq hne, fun hnil => hnil g' hg'⟩

theorem unassignGroup_groupId (id : GroupId) :
    ∀ id' g, (s.unassignGroup id).groupMap id' = some g → g.id = id' := by
  intro id' g' hg'
  unfold unassignGroup at hg'
  split at hg'
  · exact hid id' g' hg'
  · rcases update_eq_some.mp hg' with ⟨heq, hg'⟩ | ⟨-, hg'⟩
    · cases hg'
      exact heq.symm
    · exact hid id' g' hg'

/-- After `UnAssign` no group of the domain has threads. -/
theorem unassign_mayFree (key : DomainKey)
    (keep : List GroupId) : (s.unassign key).MayFree (.free key keep) := by
  have hloop : ∀ ids : List GroupId, ∀ s, (∀ id g, s.groupMap id = some g → g.id = id) →
      ∀ id g, (ids.foldl unassignGroup s).groupMap id = some g →
        (id ∈ ids ∨ ∀ g, s.groupMap id = some g → g.entityPids = []) → g.entityPids = [] := by
    intro ids
    induction ids with
    | nil => exact fun s _ id g hg hor => hor.elim (fun hid => nomatch hid) fun hnil => hnil g hg
    | cons id ids ih =>
      intro s hid id' g hg hor
      apply ih _ (unassignGroup_groupId hid id) id' g hg
      rcases hor with hmem | hold
      · rcases mem_cons.mp hmem with rfl | hmem
        · exact .inr fun g' hg' => (unassignGroup_entityPids hid id' id' hg').1 rfl
        · exact .inl hmem
      · exact .inr fun g' hg' => (unassignGroup_entityPids hid id id' hg').2 hold
  intro d hd id hmem g hg
  rw [unassign_domainMap] at hd
  unfold unassign at hg
  change s.domainMap key = some d at hd
  rw [hd] at hg
  exact hloop d.groups s hid id g hg (.inl hmem)

end

theorem path_deReSched (key : DomainKey)
    (hfree : P.free ∨ ∀ id g, s.groupMap id = some g → g.id = id) :
    Path m P s (s.deReSched m key) := by
  have hfreed := (path_unassign (m := m) (P := P) (s := s) key).trans
    (path_free key [] (hfree.imp_right fun hid => unassign_mayFree hid key []))
  unfold deReSched
  cases hd : (s.unassign key).domainMap key with
  | none =>
    -- nothing to delete
    have hsame : (s.unassign key).free m key [] = s.unassign key := by
      unfold free
      rw [hd]
    have hnone : ((s.unassign key).free m key []).setDomain key none =
        (s.unassign key).free m key [] := by
      rw [hsame, setDomain, ← hd, update_eq_self]
    rwa [hnone]
  | some d =>
    apply hfreed.tail
    apply Change.relist key { d with groups := d.groups.filter (· ∈ []) } none
    · unfold free
      rw [hd]
      exact update_self ..
    · intro e he
      cases he
    · intro id hid
      simp at hid

/-- One group of `CleanDyingPidByGroup`: the threads that have left the domain are taken off
their CPUs. -/
theorem cleanGroup_cases (hd : s.domainMap key = some d) {id : GroupId}
    (hkeep : ∀ g ∈ s.groupMap id, ∃ pid ∈ g.entityPids, pid ∈ d.pids) :
    s.cleanGroup m key id = s ∨ ∃ g pids, s.groupMap id = some g ∧
      (∀ pid ∈ pids, pid ∈ g.entityPids ∧ pid ∉ d.pids) ∧
      s.cleanGroup m key id = s.unbind g pids := by
  unfold cleanGroup
  rw [hd]
  cases hg : s.groupMap id with
  | none => exact .inl rfl
  | some g =>
    dsimp only
    split
    · exact .inl rfl
    obtain ⟨dying, hdying⟩ : ∃ dying, dying =
        g.entityPids.filter fun pid => pid ∉ d.pids ∧ (s.entityMap pid).isSome := ⟨_, rfl⟩
    have hpids : ∀ pid ∈ dying, pid ∈ g.entityPids ∧ pid ∉ d.pids := by
      rw [hdying]
      exact fun pid hpid => ⟨(mem_filter.mp hpid).1, (of_decide_eq_true (mem_filter.mp hpid).2).1⟩
    rw [← hdying, if_neg]
    · exact .inr ⟨g, dying, rfl, hpids, rfl⟩
    · -- a thread of the domain stays in the group
      intro hempty
      obtain ⟨pid, hpid, hin⟩ := hkeep g hg
      have hleft := filter_eq_nil_iff.mp (List.isEmpty_iff.mp hempty) pid hpid
      exact (hpids pid (by simpa using hleft)).2 hin

/-- The groups of a domain go on having threads of the domain while they are cleaned. -/
theorem unbind_keeps {pids threads : List Nat}
    (hpids : ∀ pid ∈ pids, pid ∉ threads) (hg : ∃ pid ∈ g.entityPids, pid ∈ threads)
    {id' : GroupId} (h : ∀ g ∈ s.groupMap id', ∃ pid ∈ g.entityPids, pid ∈ threads) :
    ∀ g' ∈ (s.unbind g pids).groupMap id', ∃ pid ∈ g'.entityPids, pid ∈ threads := by
  intro g' hg'
  rcases update_eq_some.mp hg' with ⟨-, hg'⟩ | ⟨-, hg'⟩
  · cases hg'
    obtain ⟨pid, hpid, hin⟩ := hg
    refine ⟨pid, mem_filter.mpr ⟨hpid, ?_⟩, hin⟩
    exact decide_eq_true fun hdying => hpids pid hdying hin
  · exact h g' hg'

/-- Cleaning the groups of a domain is a path of changes. -/
theorem path_foldl_cleanGroup (ids : List GroupId) (hids : ∀ id ∈ ids, id ∈ d.groups) :
    ∀ {s : Sched}, s.domainMap key = some d →
      (∀ id ∈ ids, ∀ g ∈ s.groupMap id, ∃ pid ∈ g.entityPids, pid ∈ d.pids) →
      Path m P s (ids.foldl (fun s id => s.cleanGroup m key id) s) ∧
        (ids.foldl (fun s id => s.cleanGroup m key id) s).domainMap key = some d := by
  induction ids with
  | nil => exact fun hd _ => ⟨.refl, hd⟩
  | cons id ids ih =>
    intro s hd hkeep
    have hrest := fun id' hid' => hids id' (mem_cons_of_mem _ hid')
    rw [foldl_cons]
    rcases cleanGroup_cases (m := m) hd (hkeep id mem_cons_self) with heq | ⟨g, pids, hg, hpids, heq⟩
    · rw [heq]
      exact ih hrest hd fun id' hid' => hkeep id' (mem_cons_of_mem _ hid')
    · have hone : Change m P s (s.unbind g pids) :=
        .unbind key d id g pids hd (hids id mem_cons_self) hg (.inr hpids)
      rw [heq]
      obtain ⟨hpath, hsame⟩ := ih hrest (s := s.unbind g pids) hd fun id' hid' =>
        unbind_keeps (fun pid hpid => (hpids pid hpid).2) (hkeep id mem_cons_self g hg)
          (hkeep id' (mem_cons_of_mem _ hid'))
      exact ⟨hpath.head hone, hsame⟩

theorem path_clean (key : DomainKey) (gone : Bool) (hclean : s.MayClean (.clean key gone)) :
    Path m P s (s.cleanDyingPid m key gone) := by
  unfold cleanDyingPid
  cases hd : s.domainMap key with
  | none => exact .refl
  | some d =>
    obtain ⟨hcleaned, hsame⟩ := path_foldl_cleanGroup (m := m) (P := P) d.groups (fun _ hid => hid) hd
      (hclean d hd)
    dsimp only
    rw [hsame]
    dsimp only
    split
    · next hempty =>
      apply hcleaned.tail
      apply Change.relist key d none hsame
      · intro e he
        cases he
      · intro id hid
        rw [List.isEmpty_iff.mp hempty.2] at hid
        cases hid
    · exact hcleaned

theorem path_assign (key : DomainKey) (pid : Nat) (ok : Bool) :
    Path m P s (s.assignPidCpu m key pid ok) := by
  unfold assignPidCpu
  split
  · exact .refl
  next d hd =>
  split
  · exact .refl
  next hcond =>
  rw [not_or, not_not, Option.not_isSome_iff_eq_none] at hcond
  split
  · next g c index hpin =>
    split
    · obtain ⟨id, hid, hg, -, hfind, hlt⟩ := findPin_some hpin
      exact .single (.assign key d id g pid index hd hcond.1 hcond.2 hid hg hfind hlt)
    · exact .refl
  · exact .refl

theorem step_eq_complete {i : SchedStep} (h : s.Completes m i) : s.step m i = s.complete m i := by
  unfold step
  rw [h]
  rfl

/-- A permitted step is a sequence of changes. -/
theorem step_path {i : SchedStep} (hi : Permitted m P s i) : Path m P s (s.step m i) := by
  rw [step_eq_complete hi.completes]
  cases i with
  | allocGroup key clusterId layerId nr =>
    show Path m P s (s.allocGroupFromCluster m key clusterId layerId nr)
    rcases s.allocGroupFromCluster_cases (m := m) key clusterId layerId nr with
      heq | ⟨d, c, l, n, start, hd, hc, hl, hlevel, hn, hfind, heq⟩
    · rw [heq]
    · rw [heq]
      exact .single (.bind d c l (newGroup m ⟨key, clusterId, layerId⟩ start n) hd hc hl hlevel rfl
        hfind (hi.place _ (by simp [placement, hd, hc, hl, hn, newGroup])))
  | free key keep => exact path_free key keep (hi.free.imp_right And.right)
  | layerUp numaId => exact .single (.layerUp numaId)
  | layerDown numaId layerId => exact .single (.layerDown numaId layerId)
  | assign key pid write copied => exact path_assign key pid _
  | unassign key => exact path_unassign key
  | deReSched key => exact path_deReSched key (hi.free.imp_right And.left)
  | clean key gone => exact path_clean key gone hi.clean
  | migrate mig write =>
    show Path m P s (s.migrate m mig _)
    cases ht : s.migrationTarget m mig with
    | none =>
      unfold Sched.migrate
      rw [ht]
    | some r =>
      obtain ⟨d, g, c, l, start⟩ := r
      exact .single (.migrate mig _ d g c l start ht (hi.place _ (by simp [placement, ht])))
  | update used vm =>
    show Path m P s (s.updateDomainInfo m used vm)
    rcases s.updateDomainInfo_cases (m := m) used vm with heq | ⟨numaId, -, hnone, heq⟩
    · rw [heq]
    · rw [heq]
      exact .single (.newDomain (newDomain vm numaId) hnone rfl
        (hi.add.resolve_right fun h => h used vm rfl))
  | setReScheded key b =>
    show Path m P s (s.setReScheded key b)
    unfold setReScheded
    split
    · exact .refl
    · next d hd =>
      apply Relation.ReflTransGen.single
      apply Change.relist key d _ hd
      · rintro e ⟨⟩
        exact ⟨rfl, .refl _⟩
      · exact fun id hid _ => ⟨_, rfl, hid⟩
  | restore dynamicAffinity => exact .single (.restore dynamicAffinity)

/-- The rule for steps: an invariant kept by every change is kept by every permitted step. -/
theorem Permitted.keeps {i : SchedStep} (hi : Permitted m P s i) {I : Sched → Prop}
    (hI : ∀ {s s'}, I s → Change m P s s' → I s') (h : I s) : I (s.step m i) := by
  have hpath := step_path hi
  generalize s.step m i = s' at hpath ⊢
  induction hpath with
  | refl => exact h
  | tail _ hchange ih => exact hI ih hchange

end

/-! ### Migration -/

/-- The groups go by their ids, and are in the layers these name. -/
structure Placed (m : Machine) (s : Sched) : Prop where
  groupId : ∀ id g, s.groupMap id = some g → g.id = id
  place : ∀ c ∈ m.topology, ∀ i l, s.layer c.id i = some l → ∀ id ∈ l.groups,
    (s.groupMap id).isSome → id.clusterId = c.id ∧ id.layerId = i ∧ id.domainKey.numaId = c.numaId

/-- A group `g` in a layer `src` that moves to the layer `l` of the cluster `c`, and is `g'`
there. -/
structure Moves (m : Machine) (s : Sched) (d : VmDomain) (g g' : VmGroup) (c : ClusterInfo)
    (l src : ClusterLayer) : Prop where
  group : s.groupMap g.id = some g
  domain : s.domainMap g.id.domainKey = some d
  source : s.layer g.id.clusterId g.id.layerId = some src
  mem : g.id ∈ src.groups
  key : g'.id.domainKey = g.id.domainKey
  cluster : m.cluster g'.id.domainKey.numaId g'.id.clusterId = some c
  target : s.layer g'.id.clusterId g'.id.layerId = some l
  level : g'.id.layerId < s.overProvision g'.id.domainKey.numaId
  apart : ¬ (g'.id.clusterId = g.id.clusterId ∧ g'.id.layerId = g.id.layerId)
  find : findFirstIdlePos (availableCpuMap d c l) 0 g'.nrCpus = some g'.start

section

variable {m : Machine} {s : Sched} {d : VmDomain} {g g' : VmGroup} {c : ClusterInfo}
  {l src : ClusterLayer}

/-- The new layer is there after the group has left the old one. -/
theorem Moves.layer_withdraw (h : Moves m s d g g' c l src) (entityMap : Nat → Option Int) :
    (s.withdraw g entityMap).layer g'.id.clusterId g'.id.layerId = some l := by
  rw [withdraw_eq h.source]
  show (s.setLayer g.id.clusterId g.id.layerId (src.delGroup g)).layer _ _ = some l
  rw [layer_setLayer h.source, if_neg h.apart]
  exact h.target

/-- The groups that are left after the group has gone are others. -/
theorem mem_erase_of_withdraw {entityMap : Nat → Option Int} {id : GroupId} {ids : List GroupId}
    (hid : id ∈ ids) (hsome : ((s.withdraw g entityMap).groupMap id).isSome) :
    id ∈ ids.erase g.id := by
  refine (mem_erase_of_ne ?_).mpr hid
  rintro rfl
  rw [withdraw_groupMap, update_self] at hsome
  cases hsome

/-- What a migration that goes ahead comes to. -/
theorem Placed.migrate (hs : Placed m s)
    (ht : s.migrationTarget m mig = some (d, g, c, l, start)) (ok : Nat → Bool) :
    ∃ src, Moves m s d g (movedGroup m g mig.clusterId mig.layerId start) c l src ∧
      s.migrate m mig ok =
        if (migrateEntities g.start start ok g.entityPids [] s.entityMap).2 then
          (s.withdraw g (migrateEntities g.start start ok g.entityPids [] s.entityMap).1).bindGroup
            { d with groups := d.groups.erase g.id }
            (movedGroup m g mig.clusterId mig.layerId start)
        else { s.setLayer g.id.clusterId g.id.layerId ((src.delGroup g).addGroup g) with
          entityMap := (migrateEntities g.start start ok g.entityPids [] s.entityMap).1 } := by
  obtain ⟨hc, hl, ⟨c', src, hc', hsrc, hin⟩, hlevel, hne, hg, hd, hfind⟩ := migrationTarget_some ht
  have hid := hs.groupId _ g hg
  rw [← hid] at hg hin
  obtain ⟨hct', hnuma', hcid'⟩ := Machine.cluster_some hc'
  obtain ⟨hfrom, hfrom', hnuma⟩ := hs.place c' hct' _ src (by rw [hcid']; exact hsrc) _ hin
    (by rw [hg]; rfl)
  rw [hcid'] at hfrom
  rw [hnuma'] at hnuma
  rw [← hfrom, ← hfrom'] at hsrc
  refine ⟨src, ⟨hg, hd, hsrc, hin, rfl, ?_, hl, ?_, ?_, hfind⟩, ?_⟩
  · show m.cluster g.id.domainKey.numaId mig.clusterId = some c
    rwa [hnuma]
  · show mig.layerId < s.overProvision g.id.domainKey.numaId
    rwa [hnuma]
  · rintro ⟨h₁, h₂⟩
    apply hne
    rw [← hfrom, ← hfrom']
    exact Prod.ext h₁ h₂
  · unfold Sched.migrate
    rw [ht]
    dsimp only
    rw [leaveLayer_eq hfrom hfrom' hsrc, returnToLayer_eq hfrom hfrom' hsrc, withdraw_eq hsrc, hid]

end

end Sched

end UbsVirt.Vas
