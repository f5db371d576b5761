import UbsVirt.Vas.Records

/-!
# Deleting a VM

`DelDomainInfo` unassigns and frees the groups that the domains of the VM list, and erases the
domains (`cluster_sched.cpp:102-111,701-710`). An entity is found through the group that lists
its thread, and a group through the domain that lists it, so nothing is left of the VM if every
entity is listed by a group and every group by its domain. `Free` and compaction can break these
links: a round that schedules a VM again frees its groups but not their entities, and compaction
takes a group without threads off its domain's list but leaves it in the table of groups.
-/

namespace UbsVirt.Vas

open Maps Run Function List Sched

namespace Sched

/-- Every bound thread is listed by a group. -/
def Bound (s : Sched) : Prop :=
  ∀ pid, (s.entityMap pid).isSome → ∃ id g, s.groupMap id = some g ∧ pid ∈ g.entityPids

section

variable {m : Machine} {P : Permits} {s s' : Sched}

/-- No thread gets an entity, and the threads that keep theirs are still listed. -/
theorem Bound.frame (h : Bound s)
    (hentity : ∀ pid, (s'.entityMap pid).isSome → (s.entityMap pid).isSome)
    (hlisted : ∀ id g pid, s.groupMap id = some g → pid ∈ g.entityPids →
      (s'.entityMap pid).isSome → ∃ id' g', s'.groupMap id' = some g' ∧ pid ∈ g'.entityPids) :
    Bound s' := by
  intro pid hpid
  obtain ⟨id, g, hg, hmem⟩ := h pid (hentity pid hpid)
  exact hlisted id g pid hg hmem hpid

theorem Bound.of_maps (h : Bound s) (hgroup : s'.groupMap = s.groupMap)
    (hentity : s'.entityMap = s.entityMap) : Bound s' := by
  apply h.frame
  · rw [hentity]
    exact fun _ hpid => hpid
  · intro id g pid hg hmem _
    exact ⟨id, g, by rw [hgroup]; exact hg, hmem⟩

/-! ### Steps -/

theorem Bound.unbind (h : Bound s) {g : VmGroup} (hg : s.groupMap g.id = some g)
    (pids : List Nat) : Bound (s.unbind g pids) := by
  have hold : ∀ pid, ((s.unbind g pids).entityMap pid).isSome →
      pid ∉ pids ∧ (s.entityMap pid).isSome := by
    intro pid hpid
    change (if pid ∈ pids then none else s.entityMap pid).isSome at hpid
    split at hpid
    · cases hpid
    · next hnot => exact ⟨hnot, hpid⟩
  apply h.frame
  · exact fun pid hpid => (hold pid hpid).2
  · intro id g' pid hg' hmem hpid
    show ∃ id' g', update s.groupMap g.id _ id' = some g' ∧ pid ∈ g'.entityPids
    by_cases heq : id = g.id
    · subst heq
      rw [hg] at hg'
      cases hg'
      refine ⟨g.id, _, update_self .., mem_filter.mpr ⟨hmem, ?_⟩⟩
      exact decide_eq_true (hold pid hpid).1
    · exact ⟨id, g', by rw [update_of_ne heq]; exact hg', hmem⟩

/-- Another CPU for a thread that has an entity. -/
theorem update_isSome {entityMap : Nat → Option Int} {pid : Nat} (h : (entityMap pid).isSome)
    (cpuIdx : Int) (p : Nat) :
    (update entityMap pid (some cpuIdx) p).isSome = (entityMap p).isSome := by
  rw [update_apply]
  split
  · next heq =>
    rw [heq, h]
    rfl
  · rfl

theorem foldl_restore_isSome (backup : List (Nat × Int)) (p : Nat) :
    ∀ entityMap : Nat → Option Int, (∀ b ∈ backup, (entityMap b.1).isSome) →
      ((backup.foldl (fun (em : Nat → Option Int) b => update em b.1 (some b.2))
        entityMap) p).isSome = (entityMap p).isSome := by
  induction backup with
  | nil => exact fun _ _ => rfl
  | cons b backup ih =>
    intro entityMap hsome
    have hb := hsome b mem_cons_self
    rw [foldl_cons, ih, update_isSome hb]
    intro b' hb'
    rw [update_isSome hb]
    exact hsome b' (mem_cons_of_mem _ hb')

/-- Moving a group changes the CPUs of entities, not which threads have one. `backup` are the
threads moved before. -/
theorem migrateEntities_isSome (start newStart : Nat) (ok : Nat → Bool) (pids : List Nat) (p : Nat) :
    ∀ (backup : List (Nat × Int)) (entityMap : Nat → Option Int),
      (∀ b ∈ backup, (entityMap b.1).isSome) →
      ((migrateEntities start newStart ok pids backup entityMap).1 p).isSome =
        (entityMap p).isSome := by
  induction pids with
  | nil => exact fun _ _ _ => rfl
  | cons pid pids ih =>
    intro backup entityMap hsome
    unfold migrateEntities
    cases hold : entityMap pid with
    | none => rfl
    | some old =>
      have hpid : (entityMap pid).isSome := by rw [hold]; rfl
      dsimp only
      split
      · rw [ih, update_isSome hpid]
        intro b hb
        rw [update_isSome hpid]
        rcases mem_append.mp hb with hb | hb
        · exact hsome b hb
        · rwa [mem_singleton.mp hb]
      · exact foldl_restore_isSome backup p entityMap hsome

/-- A migration keeps the threads bound. -/
theorem Bound.migrate (h : Bound s) (hlinked : Linked m s) {mig : Migration} {d : VmDomain}
    {g : VmGroup} {c : ClusterInfo} {l : ClusterLayer} {start : Nat}
    (ht : s.migrationTarget m mig = some (d, g, c, l, start)) (ok : Nat → Bool)
    (hnew : ∀ g₀ ∈ s.groupMap ⟨g.id.domainKey, mig.clusterId, mig.layerId⟩, g₀.entityPids = []) :
    Bound (s.migrate m mig ok) := by
  obtain ⟨src, hmoves, heq⟩ := hlinked.placed.migrate ht ok
  have hsome := fun p => migrateEntities_isSome g.start start ok g.entityPids p [] s.entityMap
    (fun b hb => absurd hb not_mem_nil)
  rw [heq]
  split
  · apply h.frame
    · intro pid hpid
      rw [bindGroup_eq (hmoves.layer_withdraw _)] at hpid
      exact (hsome pid) ▸ hpid
    · intro id g' pid hg' hmem _
      rw [bindGroup_groupMap, withdraw_groupMap]
      by_cases heq : id = g.id
      · -- the group is listed under its new id, with the threads it had
        subst heq
        rw [hmoves.group] at hg'
        cases hg'
        exact ⟨_, _, update_self .., hmem⟩
      · refine ⟨id, g', ?_, hmem⟩
        rw [update_of_ne, update_of_ne heq, hg']
        rintro rfl
        rw [hnew g' hg'] at hmem
        cases hmem
  · apply h.frame
    · exact fun pid hpid => (hsome pid) ▸ hpid
    · exact fun id g' pid hg' hmem _ => ⟨id, g', hg', hmem⟩

/-- The condition on a step under which no record of a VM is lost sight of: it completes, a group
that is put in the place of another one, and a domain that is freed, have no threads bound, and
compaction finds a thread of the domain in every group of a domain. -/
def KeepsTrack (m : Machine) (s : Sched) (i : SchedStep) : Prop :=
  s.Completes m i ∧ (∀ p ∈ s.placement m i, ∀ g ∈ s.groupMap p.groupId, g.entityPids = []) ∧
    s.MayFree i ∧ s.MayClean i

instance (m : Machine) (s : Sched) (i : SchedStep) : Decidable (s.KeepsTrack m i) :=
  inferInstanceAs (Decidable (_ ∧ (∀ p ∈ s.placement m i, _) ∧ _))

/-- Every change keeps the entities listed, if no group that lists one is replaced or freed. -/
theorem Bound.change (h : Bound s) (hlinked : Linked m s)
    (hplace : ∀ s p, P.place s p → ∀ g ∈ s.groupMap p.groupId, g.entityPids = [])
    (hfree : ¬ P.free) (hchange : Change m P s s') : Bound s' := by
  cases hchange with
  | bind d c l g hd hc hl hlevel hnil hfind hp =>
    apply h.frame
    · rw [bindGroup_eq hl]
      exact fun _ hpid => hpid
    · intro id g' pid hg' hmem _
      refine ⟨id, g', ?_, hmem⟩
      rw [bindGroup_groupMap, update_of_ne, hg']
      rintro rfl
      rw [hplace _ _ hp g' hg'] at hmem
      cases hmem
  | free key d id g hd hid hg hgo =>
    apply h.frame
    · rw [freeGroup_entityMap]
      exact fun _ hpid => hpid
    · intro id' g' pid hg' hmem _
      refine ⟨id', g', ?_, hmem⟩
      rw [freeGroup_groupMap, update_of_ne, hg']
      rintro rfl
      rw [hg] at hg'
      cases hg'
      rw [hgo.resolve_left hfree] at hmem
      cases hmem
  | relist key d d' hd hsub hkeep => exact h.of_maps rfl rfl
  | assign key d id g pid index hd hpids hnew hid hg hfind hlt =>
    have hgid := hlinked.groupId id g hg
    subst hgid
    intro p hp
    show ∃ id' g', update s.groupMap g.id _ id' = some g' ∧ p ∈ g'.entityPids
    change (update s.entityMap pid _ p).isSome at hp
    by_cases heq : p = pid
    · exact ⟨g.id, _, update_self .., mem_setInsert.mpr (.inl heq)⟩
    · rw [update_of_ne heq] at hp
      obtain ⟨id', g', hg', hmem⟩ := h p hp
      by_cases heq : id' = g.id
      · subst heq
        rw [hg] at hg'
        cases hg'
        exact ⟨g.id, _, update_self .., mem_setInsert.mpr (.inr hmem)⟩
      · exact ⟨id', g', by rw [update_of_ne heq]; exact hg', hmem⟩
  | unbind key d id g pids hd hid hg hpids =>
    have hgid := hlinked.groupId id g hg
    subst hgid
    exact h.unbind hg pids
  | migrate mig ok d g c l start ht hp => exact h.migrate hlinked ht ok (hplace _ _ hp)
  | layerUp numaId =>
    obtain ⟨hg, -, he⟩ := s.overProvisionUp_maps (m := m) numaId
    exact h.of_maps hg he
  | layerDown numaId layerId =>
    obtain ⟨hg, -, he⟩ := s.overProvisionDown_maps (m := m) numaId layerId
    exact h.of_maps hg he
  | newDomain d hnone hnil hadd => exact h.of_maps rfl rfl
  | restore dynamicAffinity => exact fun pid hpid => nomatch hpid

end

/-! ### Compaction -/

section

variable {m : Machine} {s₀ : Sched} {P : Sched → Prop}
  (hP : ∀ (t : Steps m s₀) i, (∀ used vm, i ≠ .update used vm) → P t.state → P (t.emit i).state)
include hP

/-- What every step but an update of a domain keeps is kept by compaction. -/
theorem compactionGroupWithinCluster_keeps (write : Writes) (numaId layerId : Nat)
    (cluster nextCluster : ClusterInfo) {t : Steps m s₀} (h : P t.state) :
    P (compactionGroupWithinCluster m write numaId layerId cluster nextCluster t).state := by
  unfold compactionGroupWithinCluster
  split
  · next next _ _ =>
    apply foldlRecOn (motive := fun t : Steps m s₀ => P t.state) _ _ h
    intro t ht groupId _
    exact hP t _ (fun _ _ => nofun) ht
  · exact h

theorem compactionGroupFromLastLayer_keeps (write : Writes) (numaId layerId : Nat)
    (cluster : ClusterInfo) {t : Steps m s₀} (h : P t.state) :
    P (compactionGroupFromLastLayer m write numaId layerId cluster t).state := by
  unfold compactionGroupFromLastLayer
  dsimp only
  apply hP
  · exact fun _ _ => nofun
  · apply foldlRecOn (motive := fun t : Steps m s₀ => P t.state) _ _ h
    intro t ht lastCluster _
    split
    · next last _ =>
      split
      · exact ht
      · apply foldlRecOn (motive := fun t : Steps m s₀ => P t.state) _ _ ht
        intro t ht groupId _
        exact hP t _ (fun _ _ => nofun) ht
    · exact ht

theorem compactionClusterOneLayer_keeps (write : Writes) (numaId layerId : Nat)
    (clusters : List ClusterInfo) : ∀ {t : Steps m s₀}, P t.state →
      P (compactionClusterOneLayer m write numaId layerId clusters t).state := by
  induction clusters with
  | nil => exact fun h => h
  | cons cluster rest ih =>
    intro t h
    unfold compactionClusterOneLayer
    apply ih
    split
    · exact h
    · next l hl =>
      split
      · exact h
      · have hwithin : ∀ t₁ : Steps m s₀, P t₁.state → P (if t₁.state.overProvision numaId ≠ 0 ∧
                layerId + 1 ≠ t₁.state.overProvision numaId then
              compactionGroupFromLastLayer m write numaId layerId cluster t₁ else t₁).state := by
          intro t₁ h₁
          split
          · exact compactionGroupFromLastLayer_keeps hP write numaId layerId cluster h₁
          · exact h₁
        apply hwithin
        split
        · split
          · exact compactionGroupWithinCluster_keeps hP write numaId layerId cluster _ h
          · exact h
        · exact h

theorem clusterCompaction_keeps (order : List DomainKey) (gone : String → Bool) (write : Writes)
    {t : Steps m s₀} (h : P t.state) : P (clusterCompaction m order gone write t).state := by
  have hcluster : ∀ (numaId layersLeft layerId : Nat) (t : Steps m s₀), P t.state →
      P (compactionCluster m write numaId layersLeft layerId t).state := by
    intro numaId layersLeft
    induction layersLeft with
    | zero => exact fun _ _ h => h
    | succ layersLeft ih =>
      intro layerId t h
      unfold compactionCluster
      split
      · exact ih _ _ (compactionClusterOneLayer_keeps hP write numaId layerId _ h)
      · exact h
  unfold clusterCompaction
  apply foldlRecOn (motive := fun t : Steps m s₀ => P t.state)
  · apply foldlRecOn (motive := fun t : Steps m s₀ => P t.state) _ _ h
    intro t ht key _
    exact hP t _ (fun _ _ => nofun) ht
  · exact fun t ht numaId _ => hcluster numaId _ _ t ht

end

/-! ### What is left of a VM -/

def reached (m : Machine) (dynamicAffinity : Bool) (ops : List SchedOp) : Sched :=
  exec (step m) (init m dynamicAffinity)
    (steps m (init m dynamicAffinity) ops)

/-- The thread is one of the VM: of a domain, or in a group. -/
def HasThread (s : Sched) (uuid : String) (pid : Nat) : Prop :=
  (∃ key d, s.domainMap key = some d ∧ d.uuid = uuid ∧ pid ∈ d.pids) ∨
    ∃ id g, s.groupMap id = some g ∧ id.domainKey.uuid = uuid ∧ pid ∈ g.entityPids

/-- Nothing is left in `s'` of a VM that was there in `s`. A thread of the VM has an entity only
if it is in a group of another VM. -/
structure Forgotten (uuid : String) (s s' : Sched) : Prop where
  domains : ∀ key d, s'.domainMap key = some d → key.uuid ≠ uuid ∧ d.uuid ≠ uuid
  groups : ∀ id g, s'.groupMap id = some g → id.domainKey.uuid ≠ uuid
  layers : ∀ c i l, s'.layer c i = some l → ∀ id ∈ l.groups, id.domainKey.uuid ≠ uuid
  entities : ∀ pid, s.HasThread uuid pid → (s'.entityMap pid).isSome →
    ∃ id g, s'.groupMap id = some g ∧ id.domainKey.uuid ≠ uuid ∧ pid ∈ g.entityPids

section

variable {m : Machine} {s : Sched}

def Filed (s : Sched) : Prop := ∀ key d, s.domainMap key = some d → d.uuid = key.uuid

theorem Filed.step (h : Filed s) (i : SchedStep) : Filed (s.step m i) := by
  intro key e he
  rcases step_domainMap i he with ⟨d, hd, hsame⟩ | ⟨used, vm, numaId, -, rfl, rfl, -⟩
  · exact (congrArg Prod.fst hsame).trans (h key d hd)
  · rfl

/-- The records of the VMs: groups and layers linked to the domains, entities listed. -/
structure Tracked (m : Machine) (s : Sched) : Prop where
  linked : Linked m s
  bound : Bound s
  filed : Filed s

theorem Tracked.init (dynamicAffinity : Bool) : Tracked m (init m dynamicAffinity) :=
  ⟨.init dynamicAffinity, fun _ hpid => (nomatch hpid), fun _ _ hd => (nomatch hd)⟩

theorem Tracked.step (h : Tracked m s) {i : SchedStep} (hmay : s.KeepsTrack m i) :
    Tracked m (s.step m i) := by
  obtain ⟨hcompletes, hnew, hfree, hclean⟩ := hmay
  have hi : Permitted m ⟨fun s p => ∀ g ∈ s.groupMap p.groupId, g.entityPids = [], False, True⟩ s i :=
    ⟨hcompletes, hclean, hnew, .inr ⟨h.linked.groupId, hfree⟩, .inl trivial⟩
  obtain ⟨hlinked, hbound⟩ := hi.keeps (I := fun s => Linked m s ∧ Bound s)
    (fun h hchange => ⟨h.1.change hchange,
      h.2.change h.1 (fun _ _ hp => hp) not_false hchange⟩) ⟨h.linked, h.bound⟩
  exact ⟨hlinked, hbound, h.filed.step i⟩

def NoDomain (uuid : String) (s : Sched) : Prop :=
  ∀ key, key.uuid = uuid → s.domainMap key = none

/-- With the records linked, a VM without a domain has nothing left. -/
theorem Tracked.forgotten (h : Tracked m s) {uuid : String} (hnone : NoDomain uuid s)
    (s₀ : Sched) : Forgotten uuid s₀ s := by
  have hdomains : ∀ key d, s.domainMap key = some d → key.uuid ≠ uuid := by
    intro key d hd huuid
    rw [hnone key huuid] at hd
    cases hd
  have hgroups : ∀ id g, s.groupMap id = some g → id.domainKey.uuid ≠ uuid := by
    intro id g hg
    obtain ⟨d, hd, -⟩ := h.linked.listed id g hg
    exact hdomains _ d hd
  constructor
  · intro key d hd
    rw [h.filed key d hd]
    exact ⟨hdomains key d hd, hdomains key d hd⟩
  · exact hgroups
  · intro c i l hl id hid
    obtain ⟨g, hg⟩ := Option.isSome_iff_exists.mp (h.linked.place c i l hl id hid).2.2
    exact hgroups id g hg
  · intro pid _ hpid
    obtain ⟨id, g, hg, hmem⟩ := h.bound pid hpid
    exact ⟨id, g, hg, hgroups id g hg, hmem⟩

theorem NoDomain.emit {uuid : String} {s₀ : Sched} (t : Steps m s₀) (i : SchedStep)
    (hi : ∀ used vm, i ≠ .update used vm) (h : NoDomain uuid t.state) :
    NoDomain uuid (t.emit i).state := by
  intro key huuid
  by_contra hsome
  obtain ⟨e, he⟩ := Option.ne_none_iff_exists'.mp hsome
  rcases step_domainMap i he with ⟨d, hd, -⟩ | ⟨used, vm, -, hupdate, -⟩
  · rw [h key huuid] at hd
    cases hd
  · exact hi used vm hupdate

/-- After `DeReSched` of some domains only others are left. -/
theorem foldl_deReSched_domainMap {s₀ : Sched} (keys : List DomainKey) :
    ∀ (t : Steps m s₀) {key : DomainKey} {e : VmDomain},
      (keys.foldl (fun t key => t.emit (.deReSched key)) t).state.domainMap key = some e →
        key ∉ keys ∧ ∃ d, t.state.domainMap key = some d := by
  induction keys with
  | nil => exact fun t key e he => ⟨not_mem_nil, e, he⟩
  | cons key' keys ih =>
    intro t key e he
    rw [foldl_cons] at he
    obtain ⟨hnot, d, hd⟩ := ih _ he
    change (t.state.deReSched m key').domainMap key = some d at hd
    have hne : key ≠ key' := by
      rintro rfl
      unfold deReSched setDomain at hd
      dsimp only at hd
      rw [update_self] at hd
      cases hd
    obtain ⟨d₀, hd₀, -⟩ := DomainsFrom.step (i := .deReSched key') (fun _ _ => nofun) key d hd
    exact ⟨not_mem_cons_of_ne_of_not_mem hne hnot, d₀, hd₀⟩

theorem delDomainInfo_noDomain (uuid : String) {order : List DomainKey} (gone : String → Bool)
    (write : Writes) (hwalk : ∀ key d, s.domainMap key = some d → key ∈ order) :
    NoDomain uuid (operation m s (.delDomainInfo uuid order gone write)).state := by
  unfold operation
  apply clusterCompaction_keeps NoDomain.emit order gone write
  intro key huuid
  by_contra hsome
  obtain ⟨e, he⟩ := Option.ne_none_iff_exists'.mp hsome
  obtain ⟨hnot, d, hd⟩ := foldl_deReSched_domainMap _ _ he
  apply hnot
  rw [mem_filter]
  exact ⟨hwalk key d hd, decide_eq_true huuid⟩

end

theorem reached_concat (m : Machine) (dynamicAffinity : Bool) (ops : List SchedOp) (op : SchedOp) :
    reached m dynamicAffinity (ops ++ [op]) =
      (program m (reached m dynamicAffinity ops) op).state :=
  exec_unroll_concat (program m) ops op

/-- On every machine, in every run of operations whose steps all keep track of the records,
nothing is left of a VM that is deleted at the end. `order` is the order in which the map of
domains is walked. -/
theorem delDomainInfo_forgets (m : Machine) (dynamicAffinity : Bool) (ops : List SchedOp)
    (uuid : String) (order : List DomainKey) (gone : String → Bool) (write : Writes)
    (hmay : EachStep (step m) (KeepsTrack m) (init m dynamicAffinity)
      (steps m (init m dynamicAffinity) (ops ++ [.delDomainInfo uuid order gone write])))
    (hwalk : ∀ key d, (reached m dynamicAffinity ops).domainMap key = some d → key ∈ order) :
    Forgotten uuid (reached m dynamicAffinity ops)
      (reached m dynamicAffinity (ops ++ [.delDomainInfo uuid order gone write])) := by
  have htracked : Tracked m (reached m dynamicAffinity (ops ++ [.delDomainInfo uuid order gone write])) :=
    (throughout_of_step (Tracked.init dynamicAffinity) (fun _ _ h hi => h.step hi) hmay).last
  apply htracked.forgotten
  have hcompletes : EachStep (step m) (Completes m) (reached m dynamicAffinity ops)
      (program m (reached m dynamicAffinity ops) (.delDomainInfo uuid order gone write)).steps := by
    unfold steps at hmay
    rw [unroll_append, eachStep_append, unroll, unroll, append_nil] at hmay
    exact hmay.2.imp fun _ _ hi => hi.1
  rw [reached_concat, program, Trace.cut_state _ hcompletes]
  exact delDomainInfo_noDomain uuid gone write hwalk

/-! ### Runs -/

/-- The domains that updates can add are among the given ones. -/
def UpdatesOf (m : Machine) (keys : List DomainKey) (_ : Sched) : SchedStep → Prop
  | .update _ vm => ∀ numaId ∈ availableNumas m vm, (⟨vm.uuid, numaId⟩ : DomainKey) ∈ keys
  | _ => True

instance (m : Machine) (keys : List DomainKey) (s : Sched) (i : SchedStep) :
    Decidable (UpdatesOf m keys s i) :=
  match i with
  | .update _ vm => inferInstanceAs (Decidable (∀ numaId ∈ availableNumas m vm, _))
  | .allocGroup .. | .free .. | .layerUp .. | .layerDown .. | .assign .. | .unassign ..
  | .deReSched .. | .clean .. | .migrate .. | .setReScheded .. | .restore .. => isTrue trivial

theorem reached_domainMap {m : Machine} {dynamicAffinity : Bool} {ops : List SchedOp}
    {keys : List DomainKey}
    (h : EachStep (step m) (UpdatesOf m keys) (init m dynamicAffinity)
      (steps m (init m dynamicAffinity) ops)) :
    ∀ key d, (reached m dynamicAffinity ops).domainMap key = some d → key ∈ keys := by
  have hall : Throughout (step m) (fun s => ∀ key d, s.domainMap key = some d → key ∈ keys)
      (init m dynamicAffinity) (steps m (init m dynamicAffinity) ops) := by
    apply throughout_of_step _ _ h
    · exact fun _ _ hd => nomatch hd
    · intro s i hs hi key e he
      rcases step_domainMap i he with ⟨d, hd, -⟩ | ⟨used, vm, numaId, rfl, rfl, -, hsel⟩
      · exact hs key d hd
      · exact hi numaId (selectVmNuma_mem hsel)
  exact hall.last

def twoDomains : List DomainKey := [⟨"a", 0⟩, ⟨"b", 0⟩]

def twoVmsRun : List SchedOp :=
  [.addDomainInfo (freeVm "a" [1, 2]) fun _ _ => .ok,
    .addDomainInfo (freeVm "b" [3, 4]) fun _ _ => .ok]

/-- The first of two VMs is deleted, and the other one is moved to its place. -/
theorem twoVmsRun_forgets :
    Forgotten "a" (reached (smallMachine []) false twoVmsRun)
      (reached (smallMachine []) false
        (twoVmsRun ++ [.delDomainInfo "a" twoDomains (fun _ => false) fun _ _ => .ok])) :=
  delDomainInfo_forgets (smallMachine []) false twoVmsRun "a" twoDomains (fun _ => false)
    (fun _ _ => .ok) (by decide +kernel) (reached_domainMap (by decide +kernel))

/-- A VM whose first round of binding has failed half-way is scheduled again, and deleted: the
thread bound in the first round keeps its entity. -/
theorem retryRun_leaves_entity :
    ¬ ∀ (m : Machine) (dynamicAffinity : Bool) (ops : List SchedOp) (uuid : String)
      (order : List DomainKey) (gone : String → Bool) (write : Writes), m.Regular →
      (∀ key d, (reached m dynamicAffinity ops).domainMap key = some d → key ∈ order) →
      Forgotten uuid (reached m dynamicAffinity ops)
        (reached m dynamicAffinity (ops ++ [.delDomainInfo uuid order gone write])) := by
  intro hall
  obtain ⟨ops, hops⟩ : ∃ ops, ops = retryRun ++
      [.delDomainInfo "a" [⟨"a", 0⟩] (fun _ => true) fun _ _ => .ok] := ⟨_, rfl⟩
  have hforgotten := hall (smallMachine []) false retryRun "a" [⟨"a", 0⟩] (fun _ => true)
    (fun _ _ => .ok) (smallMachine_regular []) (reached_domainMap (by decide +kernel))
  have hentity : ((reached (smallMachine []) false ops).entityMap 1).isSome = true := by
    rw [hops]
    decide +kernel
  have hthread : HasThread (reached (smallMachine []) false retryRun) "a" 1 := by
    have hdomain : ∃ d ∈ (reached (smallMachine []) false retryRun).domainMap ⟨"a", 0⟩,
        d.uuid = "a" ∧ 1 ∈ d.pids := by
      decide +kernel
    obtain ⟨d, hd, huuid, hpid⟩ := hdomain
    exact .inl ⟨_, d, hd, huuid, hpid⟩
  rw [← hops] at hforgotten
  obtain ⟨id, g, hg, hother, -⟩ := hforgotten.entities 1 hthread hentity
  -- no group is left: the only domain there was has gone
  have hclean : EachStep (step (smallMachine []))
      (fun s i => s.Completes (smallMachine []) i ∧ s.MayClean i) (init (smallMachine []) false)
      (steps (smallMachine []) (init (smallMachine []) false) ops) := by
    rw [hops]
    decide +kernel
  have hlinked : Linked (smallMachine []) (reached (smallMachine []) false ops) :=
    (throughout_of_step (Linked.init false) (fun _ _ h hi => h.step hi) hclean).last
  obtain ⟨d, hd, -⟩ := hlinked.listed id g hg
  have hkey : id.domainKey ∈ [(⟨"a", 0⟩ : DomainKey)] := by
    apply reached_domainMap _ _ d hd
    rw [hops]
    decide +kernel
  rw [mem_singleton] at hkey
  exact hother (by rw [hkey])

end Sched

end UbsVirt.Vas
