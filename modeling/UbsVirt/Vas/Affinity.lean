import UbsVirt.Vas.NumaChoice

/-!
# The CPUs written to cgroup files

`SetVcpuAffinity` writes the CPU of a thread; under the policy `dynamicAffinity` it first
writes all CPUs of the NUMA node, and the CPU of the thread as the preferred one
(`cluster_sched.cpp:648-675`). It is called when a thread is bound and when compaction moves
a group (`:730-752,1222-1250`). The affinity of the VM is only looked at when an area is
searched for a group; that a group stays inside it is an invariant of the groups listed by
their domains.
-/

namespace UbsVirt.Vas

open Areas Maps Run List Sched

/-- What a successful `SetVcpuAffinity` has written for a thread of a domain. -/
structure AffinityWrite where
  domain : VmDomain
  pid : Nat
  cpuMaps : List (List Bool)

/-- Every CPU written is one the VM may use, lies in a cluster of its node, and is not
skipped. -/
def AffinityWrite.Fits (m : Machine) (w : AffinityWrite) : Prop :=
  ∀ map ∈ w.cpuMaps, ∀ cpu < map.length, map[cpu]? = some true →
    w.domain.commonCpuMap[cpu]? = some true ∧
      (∃ c ∈ m.topology, c.numaId = w.domain.numaId ∧ cpu ∈ c.cpuSet) ∧ cpu ∉ m.skipCpuSet

instance (m : Machine) (w : AffinityWrite) : Decidable (w.Fits m) :=
  inferInstanceAs (Decidable (∀ map ∈ w.cpuMaps, _))

namespace Sched

/-- `SetVcpuAffinity`, `cluster_sched.cpp:648-675`; the CPU is passed as a `uint16_t`. -/
def setVcpuAffinity (m : Machine) (s : Sched) (d : VmDomain) (pid : Nat) (cpuIndex : Int) :
    AffinityWrite where
  domain := d
  pid := pid
  cpuMaps :=
    let cpuMap := genDynamicBitSetByArea m.maxCpuNum (cpuIndex % 65536).toNat 1
    if s.dynamicAffinity then
      [genDynamicBitsetByCpuSet m.maxCpuNum (m.numaCpuset d.numaId), cpuMap]
    else [cpuMap]

/-- What `GroupEntityMigrate` writes, up to the first write that fails.
`cluster_sched.cpp:1225-1243`. -/
def migrationWrites (m : Machine) (s : Sched) (d : VmDomain) (startCpu start newStart : Nat)
    (ok : Nat → Bool) : List Nat → List AffinityWrite
  | [] => []
  | pid :: pids =>
    match s.entityMap pid with
    | none => []
    | some cpuIdx =>
      if ok pid then
        s.setVcpuAffinity m d pid (startCpu + (newStart + (cpuIdx - start))) ::
          migrationWrites m s d startCpu start newStart ok pids
      else []

def affinityWrites (m : Machine) (s : Sched) : SchedStep → List AffinityWrite
  | .assign key pid write _ =>
    match s.domainMap key with
    | none => []
    | some d =>
      if pid ∉ d.pids ∨ (s.entityMap pid).isSome then []
      else
        match s.findPin m d d.groups with
        | some (_, c, index) =>
          if write = .ok then [s.setVcpuAffinity m d pid (c.startCpu + index : Nat)] else []
        | none => []
  | .migrate mig write =>
    match s.migrationTarget m mig with
    | none => []
    | some (d, g, c, _, newStart) =>
      s.migrationWrites m d c.startCpu g.start newStart (fun pid => write pid = .ok) g.entityPids
  | _ => []

/-! ### Groups stay inside the affinity of their VM -/

/-- A group lies inside the affinity of the VM that lists it. -/
def Allowed (m : Machine) (s : Sched) : Prop :=
  ∀ id g d c, s.groupMap id = some g → s.domainMap id.domainKey = some d → id ∈ d.groups →
    m.cluster id.domainKey.numaId id.clusterId = some c →
      ∀ j, g.start ≤ j → j < g.start + g.nrCpus → d.commonCpuMap[c.startCpu + j]? = some true

variable {g : VmGroup} {d : VmDomain} {c : ClusterInfo}

section

variable {m : Machine} {P : Permits} {s s' : Sched}

/-- The groups that their domains list are such groups from before, with the same area and
affinity. -/
theorem Allowed.frame (h : s.Allowed m)
    (hfrom : ∀ id g' d', s'.groupMap id = some g' → s'.domainMap id.domainKey = some d' →
      id ∈ d'.groups → ∃ g d, s.groupMap id = some g ∧ s.domainMap id.domainKey = some d ∧
        id ∈ d.groups ∧ g.start = g'.start ∧ g.nrCpus = g'.nrCpus ∧
        d.commonCpuMap = d'.commonCpuMap) : s'.Allowed m := by
  intro id g' d' c hg' hd' hid' hc j hlo hhi
  obtain ⟨g, d, hg, hd, hid, hstart, hnr, hmap⟩ := hfrom id g' d' hg' hd' hid'
  rw [← hmap]
  exact h id g d c hg hd hid hc j (by omega) (by omega)

theorem Allowed.of_maps (h : s.Allowed m) (hgroup : s'.groupMap = s.groupMap)
    (hdomain : s'.domainMap = s.domainMap) : s'.Allowed m := by
  apply h.frame
  rw [hgroup, hdomain]
  exact fun id g d hg hd hid => ⟨g, d, hg, hd, hid, rfl, rfl, rfl⟩

/-- The threads of a group may change. -/
theorem Allowed.setGroup (h : s.Allowed m) {g' : VmGroup} (hg : s.groupMap g.id = some g)
    (hgroup : s'.groupMap = Function.update s.groupMap g.id (some g')) (hplace : g'.place = g.place)
    (hdomain : s'.domainMap = s.domainMap) : s'.Allowed m := by
  apply h.frame
  intro id e d he hd hid
  rw [hdomain] at hd
  have hsame : (s'.groupMap id).map VmGroup.place = (s.groupMap id).map VmGroup.place := by
    rw [hgroup]
    exact place_update hg hplace id
  obtain ⟨e₀, he₀, -, hstart, hnr⟩ := place_some hsame he
  exact ⟨e₀, d, he₀, hd, hid, hstart.symm, hnr.symm, rfl⟩

/-- A group may go. -/
theorem Allowed.erase (h : s.Allowed m) (id : GroupId)
    (hgroup : s'.groupMap = Function.update s.groupMap id none)
    (hdomain : s'.domainMap = s.domainMap) : s'.Allowed m := by
  apply h.frame
  intro i e d he hd hin
  rw [hgroup] at he
  rw [hdomain] at hd
  exact ⟨e, d, (update_none_eq_some.mp he).2, hd, hin, rfl, rfl, rfl⟩

/-- A domain may list less, or go. -/
theorem Allowed.setDomain (h : s.Allowed m) (key : DomainKey) {d? : Option VmDomain}
    (hless : ∀ e ∈ d?, ∀ id ∈ e.groups, ∃ d, s.domainMap key = some d ∧ id ∈ d.groups ∧
      d.commonCpuMap = e.commonCpuMap) : Allowed m (s.setDomain key d?) := by
  apply h.frame
  intro id g d' hg hd' hid
  rcases update_eq_some.mp hd' with ⟨rfl, heq⟩ | ⟨-, hold⟩
  · obtain ⟨d, hd, hin, hmap⟩ := hless d' heq id hid
    exact ⟨g, d, hg, hd, hin, rfl, rfl, hmap⟩
  · exact ⟨g, d', hg, hold, hid, rfl, rfl, rfl⟩

/-- What a bound group has to fit into. -/
theorem Allowed.bindGroup (h : s.Allowed m) {e : VmDomain}
    (hd : s.domainMap g.id.domainKey = some d) (hmap : e.commonCpuMap = d.commonCpuMap)
    (hsub : ∀ id ∈ e.groups, id ∈ d.groups)
    (hc : m.cluster g.id.domainKey.numaId g.id.clusterId = some c)
    (hfit : ∀ j, g.start ≤ j → j < g.start + g.nrCpus →
      d.commonCpuMap[c.startCpu + j]? = some true) : (s.bindGroup e g).Allowed m := by
  intro id g' d' c' hg' hd' hid hc' j hlo hhi
  rw [bindGroup_groupMap] at hg'
  rw [bindGroup_domainMap] at hd'
  rcases update_eq_some.mp hg' with ⟨rfl, hnew⟩ | ⟨hne, hold⟩
  · cases hnew
    rw [Function.update_self] at hd'
    cases hd'
    rw [hc] at hc'
    cases hc'
    show e.commonCpuMap[c.startCpu + j]? = some true
    rw [hmap]
    exact hfit j hlo hhi
  · rcases update_eq_some.mp hd' with ⟨hkey, hnew⟩ | ⟨-, hold'⟩
    · cases hnew
      show e.commonCpuMap[c'.startCpu + j]? = some true
      rw [hmap]
      exact h id g' d c' hold (by rw [hkey]; exact hd)
        (hsub id ((mem_setInsert.mp hid).resolve_left hne)) hc' j hlo hhi
    · exact h id g' d' c' hold hold' hid hc' j hlo hhi

/-- Every change that takes CPUs where it may keeps the groups inside the affinity of their
VMs. -/
theorem Allowed.change (hm : m.Regular) (hlayout : Layout m s) (h : s.Allowed m)
    (hP : ∀ s p, P.place s p → Unfragmented p.map p.size) (hchange : Change m P s s') :
    s'.Allowed m := by
  cases hchange with
  | bind d c l g hd hc hl hlevel hnil hfind hplace =>
    obtain ⟨hct, -, hcid⟩ := Machine.cluster_some hc
    exact h.bindGroup hd rfl (fun _ hid => hid) hc
      (hlayout.isArea_of_search hm hct (by rw [hcid]; exact hl) (hP _ _ hplace) hfind).2
  | free key d id g hd hid hg hfree =>
    exact h.erase id (freeGroup_groupMap key.numaId id) (freeGroup_domainMap key.numaId id)
  | relist key d d' hd hsub hkeep =>
    apply h.setDomain key
    intro e he id hid
    exact ⟨d, hd, (hsub e he).2.subset hid, (congrArg (fun p => p.2.2.2.2) (hsub e he).1).symm⟩
  | assign key d id g pid index hd hpid hnew hid hg hfind hlt
  | unbind key d id g pids hd hid hg hpids =>
    have hgid := hlayout.groupId id g hg
    subst hgid
    exact h.setGroup hg rfl rfl rfl
  | migrate mig ok d g c l start ht hplace =>
    obtain ⟨src, hmoves, heq⟩ := hlayout.placed.migrate ht ok
    obtain ⟨hct, -, hcid⟩ := Machine.cluster_some hmoves.cluster
    rw [heq]
    split
    · have hleft := h.erase g.id (withdraw_groupMap g _) (withdraw_domainMap g
        (migrateEntities g.start start ok g.entityPids [] s.entityMap).1)
      refine hleft.bindGroup (d := d) ?_ rfl (fun id hid => mem_of_mem_erase hid) hmoves.cluster ?_
      · rw [withdraw_domainMap]
        exact hmoves.domain
      · exact (hlayout.isArea_of_search hm hct (by rw [hcid]; exact hmoves.target)
          (hP _ _ hplace) hmoves.find).2
    · exact h.of_maps rfl rfl
  | layerUp numaId =>
    obtain ⟨hg, hd, -⟩ := s.overProvisionUp_maps (m := m) numaId
    exact h.of_maps hg hd
  | layerDown numaId layerId =>
    obtain ⟨hg, hd, -⟩ := s.overProvisionDown_maps (m := m) numaId layerId
    exact h.of_maps hg hd
  | newDomain d hnone hnil hadd =>
    apply h.setDomain d.key
    rintro e ⟨⟩ id hid
    rw [hnil] at hid
    cases hid
  | restore dynamicAffinity =>
    intro id g d c hg
    cases hg

end

/-! ### What is written -/

def writesFor (m : Machine) (s : Sched) : SchedStep → Option VmDomain
  | .assign key _ _ _ => s.domainMap key
  | .migrate mig _ => (s.migrationTarget m mig).map (·.1)
  | _ => none

/-- The VM may use the whole of its node, and nothing of it is skipped. -/
def NodeWide (m : Machine) (d : VmDomain) : Prop :=
  ∀ cpu ∈ m.numaCpuset d.numaId, d.commonCpuMap[cpu]? = some true ∧
    (∃ c ∈ m.topology, c.numaId = d.numaId ∧ cpu ∈ c.cpuSet) ∧ cpu ∉ m.skipCpuSet

instance (m : Machine) (d : VmDomain) : Decidable (NodeWide m d) :=
  inferInstanceAs (Decidable (∀ cpu ∈ m.numaCpuset d.numaId, _))

/-- The condition on a step: it takes CPUs where it may, and under `dynamicAffinity` it writes
only for VMs that may use their whole node. -/
def MayWrite (m : Machine) (s : Sched) (i : SchedStep) : Prop :=
  s.MayPlace m i ∧ (s.dynamicAffinity = true → ∀ d ∈ s.writesFor m i, NodeWide m d)

instance (m : Machine) (s : Sched) (i : SchedStep) : Decidable (s.MayWrite m i) :=
  inferInstanceAs (Decidable (_ ∧ (_ → _)))

section

variable {m : Machine} {s : Sched}

/-- One bit of a map of one CPU. -/
theorem eq_of_getElem?_genDynamicBitSetByArea {totalSize cpu i : Nat}
    (h : (genDynamicBitSetByArea totalSize cpu 1)[i]? = some true) : i = cpu := by
  unfold genDynamicBitSetByArea dynamicBitsetSet dynamicBitsetSetArea at h
  rw [length_replicate] at h
  split at h
  · change (replicate totalSize false)[i]? = some true at h
    rw [getElem?_replicate] at h
    split at h <;> cases h
  · next hfit =>
    change (fill true cpu 1 (replicate totalSize false))[i]? = some true at h
    rw [getElem?_fill (by rw [length_replicate]; omega)] at h
    split at h
    · omega
    · rw [getElem?_replicate] at h
      split at h <;> cases h

/-- A write fits when its CPU does, and the node if it is written. -/
theorem setVcpuAffinity_fits (hmax : m.maxCpuNum < 65536) {pid cpu : Nat}
    (hwide : s.dynamicAffinity = true → NodeWide m d) (hcpu : d.commonCpuMap[cpu]? = some true ∧
      (∃ c ∈ m.topology, c.numaId = d.numaId ∧ cpu ∈ c.cpuSet) ∧ cpu ∉ m.skipCpuSet)
    (hlt : cpu < m.maxCpuNum) : (s.setVcpuAffinity m d pid (cpu : Int)).Fits m := by
  have hindex : ((cpu : Int) % 65536).toNat = cpu := by omega
  have hone : ∀ i, (genDynamicBitSetByArea m.maxCpuNum ((cpu : Int) % 65536).toNat 1)[i]? = some true →
      i = cpu := by
    intro i hi
    rw [hindex] at hi
    exact eq_of_getElem?_genDynamicBitSetByArea hi
  intro map hmap i hi hset
  change map ∈ (if s.dynamicAffinity then _ else _) at hmap
  split at hmap
  · next hdyn =>
    rcases mem_cons.mp hmap with rfl | hmap
    · -- the node
      rw [length_genDynamicBitsetByCpuSet] at hi
      rw [getElem?_genDynamicBitsetByCpuSet _ _ hi, Option.some.injEq, decide_eq_true_eq] at hset
      exact hwide hdyn i hset
    · rw [mem_singleton.mp hmap] at hset
      rwa [hone i hset]
  · rw [mem_singleton.mp hmap] at hset
    rwa [hone i hset]

/-- A CPU of a listed group of a domain is one the domain may write. -/
theorem Layout.cpu_of_group (hm : m.Regular) (hlayout : Layout m s) (h : s.Allowed m)
    {key : DomainKey} (hd : s.domainMap key = some d) {id : GroupId}
    (hid : id ∈ d.groups) (hg : s.groupMap id = some g)
    (hc : m.cluster d.numaId g.id.clusterId = some c) {j : Nat} (hlo : g.start ≤ j)
    (hhi : j < g.start + g.nrCpus) :
    d.commonCpuMap[c.startCpu + j]? = some true ∧ j < m.clusterCpuNum ∧
      c.startCpu + j ∉ m.skipCpuSet := by
  obtain ⟨hct, -, hcid⟩ := Machine.cluster_some hc
  have hgid := hlayout.groupId id g hg
  have hkey := hlayout.owned key d hd id hid
  have hnuma : d.numaId = key.numaId := by
    rw [← hlayout.domainKey key d hd]
    rfl
  obtain ⟨⟨l, hl, hin⟩, -⟩ := hlayout.present key d hd id hid (by rw [hg]; rfl)
  rw [hgid] at hcid hc
  have hexact := (hlayout.layers c hct _ l (by rw [hcid]; exact hl)).exact hm hct
  refine ⟨?_, ?_, ?_⟩
  · rw [← hkey] at hd hnuma
    exact h id g d c hg hd hid (by rw [← hnuma]; exact hc) j hlo hhi
  · have := hexact.inside id hin g hg
    rw [hm.length_cpuSet hct] at this
    omega
  · exact hexact.avoids id hin g hg j hlo hhi

/-- A clear position of a layer is not skipped. -/
theorem Layout.not_skipped_of_clear (hm : m.Regular) (hlayout : Layout m s)
    (hc : c ∈ m.topology) {i : Nat} {l : ClusterLayer} (hl : s.layer c.id i = some l) {j : Nat}
    (hclear : l.usedBitmap[j]? = some false) :
    j < m.clusterCpuNum ∧ c.startCpu + j ∉ m.skipCpuSet := by
  have hcarved := (hlayout.layers c hc i l hl).carved
  have hlt : j < m.clusterCpuNum := by
    have := (List.getElem?_eq_some_iff.mp hclear).1
    rwa [hcarved.length_eq, hm.length_bitMap hc] at this
  refine ⟨hlt, fun hskip => ?_⟩
  have hset : l.usedBitmap[j]? = some true := by
    rw [hcarved.taken j, hm.getElem?_bitMap hc hlt, decide_eq_true hskip]
    exact .inl rfl
  rw [hclear] at hset
  cases hset

/-- What compaction writes fits, when the threads are on the CPUs of their group and the CPUs
of the new area fit. -/
theorem migrationWrites_fits (hmax : m.maxCpuNum < 65536)
    (hwide : s.dynamicAffinity = true → NodeWide m d) {startCpu start newStart nr : Nat}
    (hcpu : ∀ j, newStart ≤ j → j < newStart + nr → startCpu + j < m.maxCpuNum ∧
      d.commonCpuMap[startCpu + j]? = some true ∧
        (∃ c ∈ m.topology, c.numaId = d.numaId ∧ startCpu + j ∈ c.cpuSet) ∧
          startCpu + j ∉ m.skipCpuSet) (ok : Nat → Bool) (pids : List Nat)
    (hpids : ∀ pid ∈ pids, ∀ cpuIdx, s.entityMap pid = some cpuIdx →
      start ≤ cpuIdx ∧ cpuIdx < start + nr) :
    ∀ w ∈ s.migrationWrites m d startCpu start newStart ok pids, w.Fits m := by
  induction pids with
  | nil =>
    intro w hw
    cases hw
  | cons pid pids ih =>
    intro w hw
    unfold migrationWrites at hw
    split at hw
    · cases hw
    next cpuIdx hentity =>
    split at hw
    · rcases mem_cons.mp hw with rfl | hw
      · obtain ⟨hlo, hhi⟩ := hpids pid mem_cons_self cpuIdx hentity
        obtain ⟨j, hj⟩ : ∃ j : Nat, (newStart : Int) + (cpuIdx - start) = j :=
          ⟨(newStart + (cpuIdx - start)).toNat, by omega⟩
        obtain ⟨hlt, hfits⟩ := hcpu j (by omega) (by omega)
        rw [hj, ← Int.natCast_add]
        exact setVcpuAffinity_fits hmax hwide hfits hlt
      · exact ih (fun p hp => hpids p (mem_cons_of_mem _ hp)) w hw
    · cases hw

/-- The writes of a step fit, from a state in which the layout, the threads and the affinity
of the groups are in order. -/
theorem affinityWrites_fits (hm : m.Regular) (hmax : m.maxCpuNum < 65536) (hlayout : Layout m s)
    (hpins : s.Pins (fun _ => True)) (h : s.Allowed m) {i : SchedStep} (hmay : s.MayWrite m i) :
    ∀ w ∈ s.affinityWrites m i, w.Fits m := by
  obtain ⟨hplace, hwide⟩ := hmay
  intro w hw
  cases i with
  | assign key pid write copied =>
    unfold affinityWrites at hw
    dsimp only at hw
    split at hw
    · cases hw
    next d hd =>
    split at hw
    · cases hw
    split at hw
    · next g c index hpin =>
      split at hw
      · obtain ⟨id, hid, hg, hc, hfind, hlt⟩ := findPin_some hpin
        obtain ⟨hct, hnuma, -⟩ := Machine.cluster_some hc
        obtain ⟨hmap, hin, hskip⟩ := hlayout.cpu_of_group hm h hd hid hg hc
          (findFirstIdlePos_some hfind).2.1 hlt
        obtain ⟨hset, hle⟩ := hm.cpuSet_eq hct
        rw [mem_singleton.mp hw]
        apply setVcpuAffinity_fits hmax (fun hdyn => hwide hdyn d hd)
        · refine ⟨hmap, ⟨c, hct, hnuma, ?_⟩, hskip⟩
          rw [hset, mem_range'_1]
          omega
        · omega
      · cases hw
    · cases hw
  | migrate mig write =>
    unfold affinityWrites at hw
    dsimp only at hw
    split at hw
    · cases hw
    next d g c l newStart ht =>
    obtain ⟨hc, hl, -, -, -, hg, hd, hfind⟩ := migrationTarget_some ht
    obtain ⟨src, hmoves, -⟩ := hlayout.placed.migrate ht fun pid => write pid = .ok
    obtain ⟨hct, hnuma, hcid⟩ := Machine.cluster_some hmoves.cluster
    have hfit := (hplace.2.2 ⟨availableCpuMap d c l, g.nrCpus,
      ⟨g.id.domainKey, mig.clusterId, mig.layerId⟩, l⟩ (by simp [placement, ht])).1
    change c.id = mig.clusterId at hcid
    rw [← hcid] at hl
    obtain ⟨hclear, hmap⟩ := hlayout.isArea_of_search hm hct hl hfit hfind
    obtain ⟨hset, hle⟩ := hm.cpuSet_eq hct
    have hnode : c.numaId = d.numaId := by
      rw [hnuma, hmoves.key, ← hlayout.domainKey _ d hd]
      rfl
    apply migrationWrites_fits hmax _ _ _ g.entityPids _ w hw
    · exact fun hdyn => hwide hdyn d (by simp [writesFor, ht])
    · exact g.nrCpus
    · intro j hlo hhi
      obtain ⟨hlt, hskip⟩ := hlayout.not_skipped_of_clear hm hct hl (hclear j hlo hhi)
      refine ⟨by omega, hmap j hlo hhi, ⟨c, hct, hnode, ?_⟩, hskip⟩
      rw [hset, mem_range'_1]
      omega
    · intro pid hmem cpuIdx hentity
      obtain ⟨cpuIdx', hthread⟩ := hpins.thread _ g pid hg hmem
      have heq := hthread.entity
      rw [hentity] at heq
      cases heq
      exact ⟨hthread.lower, hthread.upper⟩
  | _ => cases hw

end

/-! ### Runs -/

/-- On a regular machine every CPU written in a run of operations is one the VM may use, lies
in a cluster of its node and is not skipped, if no write throws, no group loses its last thread
in compaction, no search meets a fragmented map, no domain gets a second group in a layer of a
cluster, and under `dynamicAffinity` the VMs may use their whole node. -/
theorem affinity_fits {m : Machine} (hm : m.Regular) (hmax : m.maxCpuNum < 65536)
    (dynamicAffinity : Bool) (ops : List SchedOp)
    (hmay : EachStep (step m) (MayWrite m) (init m dynamicAffinity)
      (steps m (init m dynamicAffinity) ops)) :
    EachStep (step m) (fun s i => ∀ w ∈ s.affinityWrites m i, w.Fits m)
      (init m dynamicAffinity) (steps m (init m dynamicAffinity) ops) := by
  apply eachStep_of_invariant
    (P := fun s => Layout m s ∧ s.Pins (fun _ => True) ∧ s.Allowed m) _ _ _ hmay
  · refine ⟨.init dynamicAffinity, .of_empty (fun _ => rfl) fun _ => rfl, ?_⟩
    intro id g d c hg
    cases hg
  · intro s i h hi
    have hpermitted : Permitted m ⟨fun _ p => Unfragmented p.map p.size ∧
        p.groupId ∉ p.layer.groups, True, True⟩ s i :=
      ⟨hi.1.1, hi.1.2.1, hi.1.2.2, .inl trivial, .inl trivial⟩
    exact hpermitted.keeps (I := fun s => Layout m s ∧ s.Pins (fun _ => True) ∧ s.Allowed m)
      (fun h hchange => ⟨h.1.change hm (fun _ _ hp => hp) hchange,
        h.2.1.change hm h.1 (fun _ _ hp => And.right hp) (fun _ _ => trivial) hchange,
        h.2.2.change hm h.1 (fun _ _ hp => And.left hp) hchange⟩) h
  · rintro s i ⟨hlayout, hpins, hallowed⟩ hi
    exact affinityWrites_fits hm hmax hlayout hpins hallowed hi

theorem startStopRun_fits : EachStep (step (smallMachine [3]))
      (fun s i => ∀ w ∈ s.affinityWrites (smallMachine [3]) i, w.Fits (smallMachine [3]))
      (init (smallMachine [3]) false)
      (steps (smallMachine [3]) (init (smallMachine [3]) false) startStopRun) :=
  affinity_fits (smallMachine_regular [3]) (by decide) false startStopRun (by decide +kernel)

/-- The second thread of the VM is bound to CPU 1, which is skipped. -/
theorem skipRun_writes_skipped :
    ¬ ∀ (m : Machine) (dynamicAffinity : Bool) (ops : List SchedOp), m.Regular →
      m.maxCpuNum < 65536 →
      EachStep (step m) (fun s i => ∀ w ∈ s.affinityWrites m i, w.Fits m)
        (init m dynamicAffinity) (steps m (init m dynamicAffinity) ops) := by
  intro hall
  have hrun := hall (smallMachine [1]) false skipRun (smallMachine_regular [1]) (by decide)
  have hnot : ¬ EachStep (step (smallMachine [1]))
      (fun s i => ∀ w ∈ s.affinityWrites (smallMachine [1]) i, w.Fits (smallMachine [1]))
      (init (smallMachine [1]) false)
      (steps (smallMachine [1]) (init (smallMachine [1]) false) skipRun) := by
    decide +kernel
  exact hnot hrun

end Sched

end UbsVirt.Vas
