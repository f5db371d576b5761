import UbsVirt.Vas.Layers

/-!
# The threads of the VMs and their CPUs

A vCPU thread that has been bound to a CPU is an entity. It is listed by one group of its VM
and its CPU lies in the area of that group; no two threads of a layer of a cluster share a
CPU. This is spread over four maps, and binding is retried after writes to cgroup files have
failed (`cluster_sched.cpp:38-111,610-710,730-775,1222-1250`).

A round that finds a domain not completely scheduled frees its groups but keeps its entities,
and then passes over the threads that have one. So the pins stay exact in the runs in which
only domains without bound threads are freed. An exception out of a write leaves them as they
are half-way.
-/

namespace UbsVirt.Vas

open Areas Maps Run Function List Sched

namespace Sched

/-- The group is one of the VM of the thread, and lists the thread. -/
def ListsThread (s : Sched) (id : GroupId) (pid : Nat) : Prop :=
  ∃ d g, s.domainMap id.domainKey = some d ∧ id ∈ d.groups ∧ pid ∈ d.pids ∧
    s.groupMap id = some g ∧ pid ∈ g.entityPids

/-- Every bound thread is listed by one group of its VM, on a CPU of that group, and shares
the CPU with no other thread of the layer. -/
structure PinsExact (s : Sched) : Prop where
  one : ∀ pid, (s.entityMap pid).isSome → ∃! id, s.ListsThread id pid
  inRange : ∀ pid cpuIdx id g, s.entityMap pid = some cpuIdx → s.ListsThread id pid →
    s.groupMap id = some g → g.start ≤ cpuIdx ∧ cpuIdx < g.start + g.nrCpus
  exclusive : ∀ pid pid' cpuIdx id id', pid ≠ pid' → s.entityMap pid = some cpuIdx →
    s.entityMap pid' = some cpuIdx → s.ListsThread id pid → s.ListsThread id' pid' →
      (id.clusterId, id.layerId) ≠ (id'.clusterId, id'.layerId)

/-! ### The invariant -/

/-- What is known of a thread that a group lists. -/
structure Thread (s : Sched) (id : GroupId) (g : VmGroup) (pid : Nat) (cpuIdx : Int) : Prop where
  entity : s.entityMap pid = some cpuIdx
  lower : g.start ≤ cpuIdx
  upper : cpuIdx < g.start + g.nrCpus
  marked : g.usedBitmap[cpuIdx.toNat]? = some true
  owner : ∃ d, s.domainMap id.domainKey = some d ∧ id ∈ d.groups ∧ pid ∈ d.pids

/-- The table of groups and the table of entities belong together. A thread that is `stale`
may have an entity left from a group that has been freed. -/
structure Pins (stale : Nat → Prop) (s : Sched) : Prop where
  bound : ∀ pid, ¬ stale pid → (s.entityMap pid).isSome →
    ∃ id g, s.groupMap id = some g ∧ pid ∈ g.entityPids
  thread : ∀ id g pid, s.groupMap id = some g → pid ∈ g.entityPids →
    ∃ cpuIdx, s.Thread id g pid cpuIdx
  unique : ∀ id id' g g' pid, s.groupMap id = some g → pid ∈ g.entityPids →
    s.groupMap id' = some g' → pid ∈ g'.entityPids → id = id'
  apart : ∀ id g pid pid', s.groupMap id = some g → pid ∈ g.entityPids → pid' ∈ g.entityPids →
    s.entityMap pid = s.entityMap pid' → pid = pid'
  nodup : ∀ id g, s.groupMap id = some g → g.entityPids.Nodup

section

variable {m : Machine} {s s' : Sched} {stale : Nat → Prop} {P : Permits}

/-- With the layout, the invariant gives the exact pins. -/
theorem Pins.exact (hlayout : Layout m s) (h : Pins (fun _ => False) s) : PinsExact s := by
  constructor
  · intro pid hpid
    obtain ⟨id, g, hg, hmem⟩ := h.bound pid not_false hpid
    obtain ⟨cpuIdx, hthread⟩ := h.thread id g pid hg hmem
    obtain ⟨d, hd, hid, hpids⟩ := hthread.owner
    refine ⟨id, ⟨d, g, hd, hid, hpids, hg, hmem⟩, ?_⟩
    rintro id' ⟨d', g', -, -, -, hg', hmem'⟩
    exact h.unique id' id g' g pid hg' hmem' hg hmem
  · rintro pid cpuIdx id g hpid ⟨d, g', -, -, -, hg', hmem⟩ hg
    rw [hg] at hg'
    cases hg'
    obtain ⟨cpuIdx', hthread⟩ := h.thread id g pid hg hmem
    have heq := hthread.entity
    rw [hpid] at heq
    cases heq
    exact ⟨hthread.lower, hthread.upper⟩
  · rintro pid pid' cpuIdx id id' hne hpid hpid' ⟨d, g, hd, hid, -, hg, hmem⟩
      ⟨d', g', hd', hid', -, hg', hmem'⟩ hplace
    obtain ⟨i, hthread⟩ := h.thread id g pid hg hmem
    obtain ⟨i', hthread'⟩ := h.thread id' g' pid' hg' hmem'
    have hi := hthread.entity
    have hi' := hthread'.entity
    rw [hpid] at hi
    rw [hpid'] at hi'
    cases hi
    cases hi'
    -- both groups are in the layer, and their areas share the CPU
    obtain ⟨⟨l, hl, hin⟩, hcl⟩ := hlayout.present _ d hd id hid (by rw [hg]; rfl)
    obtain ⟨⟨l', hl', hin'⟩, -⟩ := hlayout.present _ d' hd' id' hid' (by rw [hg']; rfl)
    rw [Prod.mk.injEq] at hplace
    rw [← hplace.1, ← hplace.2, hl] at hl'
    cases hl'
    obtain ⟨c, hc⟩ := Option.isSome_iff_exists.mp hcl
    obtain ⟨hct, -, hcid⟩ := Machine.cluster_some hc
    have hinv := hlayout.layers c hct _ l (by rw [hcid]; exact hl)
    have hsame : id = id' := by
      apply hinv.carved.apart id id' _ _ cpuIdx.toNat (areas_of_mem hin hg) (areas_of_mem hin' hg')
      · have hlo := hthread.lower
        have hhi := hthread.upper
        show g.start ≤ cpuIdx.toNat ∧ cpuIdx.toNat < g.start + g.nrCpus
        omega
      · have hlo := hthread'.lower
        have hhi := hthread'.upper
        show g'.start ≤ cpuIdx.toNat ∧ cpuIdx.toNat < g'.start + g'.nrCpus
        omega
    subst hsame
    rw [hg] at hg'
    cases hg'
    apply hne
    apply h.apart id g pid pid' hg hmem hmem'
    rw [hpid, hpid']

/-- Groups may go with the threads they list, if those are stale or lose their entities. -/
theorem Pins.shrink (h : Pins stale s)
    (hold : ∀ id g pid, pid ∈ g.entityPids → s'.groupMap id = some g →
      s.groupMap id = some g ∧ s'.entityMap pid = s.entityMap pid)
    (hkept : ∀ pid, ¬ stale pid → (s'.entityMap pid).isSome → (s.entityMap pid).isSome ∧
      ∀ id g, s.groupMap id = some g → pid ∈ g.entityPids → s'.groupMap id = some g)
    (hlist : ∀ id g d, s'.groupMap id = some g → g.entityPids ≠ [] →
      s.domainMap id.domainKey = some d → id ∈ d.groups →
        ∃ d', s'.domainMap id.domainKey = some d' ∧ id ∈ d'.groups ∧ d'.pids = d.pids) :
    Pins stale s' := by
  constructor
  · intro pid hstale hpid
    obtain ⟨hbound, hsame⟩ := hkept pid hstale hpid
    obtain ⟨id, g, hg, hmem⟩ := h.bound pid hstale hbound
    exact ⟨id, g, hsame id g hg hmem, hmem⟩
  · intro id g pid hg hmem
    obtain ⟨hg₀, hentity⟩ := hold id g pid hmem hg
    obtain ⟨cpuIdx, hthread⟩ := h.thread id g pid hg₀ hmem
    obtain ⟨d, hd, hid, hpids⟩ := hthread.owner
    obtain ⟨d', hd', hid', heq⟩ := hlist id g d hg (ne_nil_of_mem hmem) hd hid
    exact ⟨cpuIdx, hentity.trans hthread.entity, hthread.lower, hthread.upper, hthread.marked, d',
      hd', hid', heq ▸ hpids⟩
  · intro id id' g g' pid hg hmem hg' hmem'
    exact h.unique id id' g g' pid (hold id g pid hmem hg).1 hmem (hold id' g' pid hmem' hg').1 hmem'
  · intro id g pid pid' hg hmem hmem' heq
    rw [(hold id g pid hmem hg).2, (hold id g pid' hmem' hg).2] at heq
    exact h.apart id g pid pid' (hold id g pid hmem hg).1 hmem hmem' heq
  · intro id g hg
    cases hpids : g.entityPids with
    | nil => exact nodup_nil
    | cons pid pids =>
      rw [← hpids]
      exact h.nodup id g (hold id g pid (by rw [hpids]; exact mem_cons_self) hg).1

/-- Changes that leave the groups with threads alone keep the invariant. -/
theorem Pins.frame (h : Pins stale s) (hentity : s'.entityMap = s.entityMap)
    (hgroup : ∀ id g, g.entityPids ≠ [] → (s'.groupMap id = some g ↔ s.groupMap id = some g))
    (hlist : ∀ id g d, s.groupMap id = some g → g.entityPids ≠ [] →
      s.domainMap id.domainKey = some d → id ∈ d.groups →
        ∃ d', s'.domainMap id.domainKey = some d' ∧ id ∈ d'.groups ∧ d'.pids = d.pids) :
    Pins stale s' := by
  have hgroup' : ∀ id g pid, pid ∈ g.entityPids → (s'.groupMap id = some g ↔ s.groupMap id = some g) :=
    fun id g pid hmem => hgroup id g (ne_nil_of_mem hmem)
  apply h.shrink
  · exact fun id g pid hmem hg => ⟨(hgroup' id g pid hmem).mp hg, by rw [hentity]⟩
  · exact fun pid _ hpid => ⟨hentity ▸ hpid, fun id g hg hmem => (hgroup' id g pid hmem).mpr hg⟩
  · exact fun id g d hg hne => hlist id g d ((hgroup id g hne).mp hg) hne

theorem Pins.of_empty (hentity : ∀ pid, s.entityMap pid = none)
    (hgroup : ∀ id, s.groupMap id = none) : Pins stale s := by
  have hno : ∀ id g, s.groupMap id ≠ some g := by
    intro id g hg
    rw [hgroup] at hg
    cases hg
  constructor
  · intro pid _ hpid
    rw [hentity] at hpid
    cases hpid
  · exact fun id g _ hg => absurd hg (hno id g)
  · exact fun id _ g _ _ hg => absurd hg (hno id g)
  · exact fun id g _ _ hg => absurd hg (hno id g)
  · exact fun id g hg => absurd hg (hno id g)

variable {id : GroupId} {g : VmGroup}

/-- A group with a thread is in its layer. -/
theorem Pins.inLayer (hlayout : Layout m s) (h : Pins stale s)
    (hg : s.groupMap id = some g) (hne : g.entityPids ≠ []) : s.InLayer id := by
  obtain ⟨pid, hmem⟩ := exists_mem_of_ne_nil _ hne
  obtain ⟨cpuIdx, hthread⟩ := h.thread id g pid hg hmem
  obtain ⟨d, hd, hid, -⟩ := hthread.owner
  exact (hlayout.present _ d hd id hid (by rw [hg]; rfl)).1

variable {l : ClusterLayer}

/-- What the table has under an id that is not in the layer lists no thread. -/
theorem Pins.eq_nil (hlayout : Layout m s) (h : Pins stale s) (id : GroupId)
    (hl : s.layer id.clusterId id.layerId = some l) (hnew : id ∉ l.groups)
    (hg : s.groupMap id = some g) : g.entityPids = [] := by
  by_contra hne
  obtain ⟨l', hl', hin⟩ := h.inLayer hlayout hg hne
  rw [hl] at hl'
  cases hl'
  exact hnew hin

/-! ### Groups -/

variable {d : VmDomain}

/-- Binding a group without entities. -/
theorem Pins.bind (hlayout : Layout m s) (h : Pins stale s) (hd : s.domainMap g.id.domainKey = some d)
    (hl : s.layer g.id.clusterId g.id.layerId = some l) (hnil : g.entityPids = [])
    (hnew : g.id ∉ l.groups) : Pins stale (s.bindGroup d g) := by
  rw [bindGroup_eq hl]
  apply h.frame
  · rfl
  · intro id g' hne
    show update s.groupMap _ _ id = some g' ↔ _
    rw [update_apply]
    split
    · next hid =>
      -- neither the new group nor what it replaces has threads
      subst hid
      constructor
      · intro hg'
        cases hg'
        exact absurd hnil hne
      · exact fun hg' => absurd (h.eq_nil hlayout g.id hl hnew hg') hne
    · rfl
  · intro id g' d' _ _ hd' hid
    show ∃ e, update s.domainMap g.id.domainKey _ id.domainKey = some e ∧ _
    rw [update_apply]
    split
    · next hkey =>
      rw [hkey, hd] at hd'
      cases hd'
      exact ⟨_, rfl, mem_setInsert.mpr (.inr hid), rfl⟩
    · exact ⟨d', hd', hid, rfl⟩

theorem Pins.free (h : Pins stale s) (numaId : Nat)
    (hg : s.groupMap id = some g) (hfree : (∀ pid, stale pid) ∨ g.entityPids = []) :
    Pins stale (s.freeGroup m numaId id) := by
  have hentity : (s.freeGroup m numaId id).entityMap = s.entityMap := freeGroup_entityMap numaId id
  apply h.shrink
  · intro id' g' pid _ hg'
    rw [freeGroup_groupMap] at hg'
    exact ⟨(update_none_eq_some.mp hg').2, by rw [hentity]⟩
  · refine fun pid hstale hpid => ⟨hentity ▸ hpid, fun id' g' hg' hmem => ?_⟩
    rw [freeGroup_groupMap, update_of_ne, hg']
    rintro rfl
    rw [hg] at hg'
    cases hg'
    rcases hfree with hall | hnil
    · exact hstale (hall pid)
    · rw [hnil] at hmem
      cases hmem
  · intro id' g' d' _ _ hd' hid'
    exact ⟨d', by rw [freeGroup_domainMap]; exact hd', hid', rfl⟩

/-- The lists of the domains may change as long as they keep the groups with threads. -/
theorem Pins.setDomain (h : Pins stale s) (key : DomainKey) {d' : Option VmDomain}
    (hkeep : ∀ d, s.domainMap key = some d → ∀ id ∈ d.groups, ∀ g, s.groupMap id = some g →
      g.entityPids ≠ [] → ∃ e, d' = some e ∧ id ∈ e.groups ∧ e.pids = d.pids) :
    Pins stale (s.setDomain key d') := by
  apply h.frame
  · rfl
  · exact fun _ _ _ => Iff.rfl
  · intro id g d hg hne hd hid
    by_cases hkey : id.domainKey = key
    · rw [hkey] at hd ⊢
      obtain ⟨e, rfl, hin, hpids⟩ := hkeep d hd id hid g hg hne
      exact ⟨e, update_self .., hin, hpids⟩
    · exact ⟨d, (update_of_ne hkey ..).trans hd, hid, rfl⟩

/-! ### Binding and unbinding -/

/-- What a change to one group comes to: its own threads are in order, and the other groups keep
theirs. -/
theorem Pins.setGroup (h : Pins stale s) (g' : VmGroup) (hg' : s'.groupMap g'.id = some g')
    (hother : ∀ id g₁, id ≠ g'.id → s'.groupMap id = some g₁ →
      s.groupMap id = some g₁ ∧ ∀ p ∈ g₁.entityPids, p ∉ g'.entityPids)
    (hkept : ∀ id g₁ p, s.groupMap id = some g₁ → p ∈ g₁.entityPids →
      p ∈ g'.entityPids ∨ s'.groupMap id = some g₁)
    (hentity : ∀ p, p ∉ g'.entityPids → s'.entityMap p = s.entityMap p)
    (hlist : ∀ id g₁ d, id ≠ g'.id → s'.groupMap id = some g₁ → s.domainMap id.domainKey = some d →
      id ∈ d.groups → ∃ d', s'.domainMap id.domainKey = some d' ∧ id ∈ d'.groups ∧ d'.pids = d.pids)
    (hthread : ∀ p ∈ g'.entityPids, ∃ cpuIdx, s'.Thread g'.id g' p cpuIdx)
    (hapart : ∀ p ∈ g'.entityPids, ∀ p' ∈ g'.entityPids, s'.entityMap p = s'.entityMap p' → p = p')
    (hnodup : g'.entityPids.Nodup) : Pins stale s' := by
  have hthreads : ∀ id g₁ p, s'.groupMap id = some g₁ → p ∈ g₁.entityPids →
      id = g'.id ∧ g₁ = g' ∨ id ≠ g'.id ∧ s.groupMap id = some g₁ ∧ p ∉ g'.entityPids := by
    intro id g₁ p hg₁ hmem
    by_cases hid : id = g'.id
    · rw [hid, hg'] at hg₁
      cases hg₁
      exact .inl ⟨hid, rfl⟩
    · obtain ⟨hold, hnot⟩ := hother id g₁ hid hg₁
      exact .inr ⟨hid, hold, hnot p hmem⟩
  constructor
  · intro p hstale hp
    by_cases hpg : p ∈ g'.entityPids
    · exact ⟨g'.id, g', hg', hpg⟩
    · rw [hentity p hpg] at hp
      obtain ⟨id, g₁, hg₁, hmem⟩ := h.bound p hstale hp
      exact ⟨id, g₁, (hkept id g₁ p hg₁ hmem).resolve_left hpg, hmem⟩
  · intro id g₁ p hg₁ hmem
    rcases hthreads id g₁ p hg₁ hmem with ⟨rfl, rfl⟩ | ⟨hid, hold, hp⟩
    · exact hthread p hmem
    · obtain ⟨i, ht⟩ := h.thread id g₁ p hold hmem
      obtain ⟨d, hd, hin, hpd⟩ := ht.owner
      obtain ⟨d', hd', hin', heq⟩ := hlist id g₁ d hid hg₁ hd hin
      exact ⟨i, (hentity p hp).trans ht.entity, ht.lower, ht.upper, ht.marked, d', hd', hin',
        heq ▸ hpd⟩
  · intro id₁ id₂ g₁ g₂ p h₁ m₁ h₂ m₂
    rcases hthreads id₁ g₁ p h₁ m₁ with ⟨rfl, rfl⟩ | ⟨-, a₁, n₁⟩
    · rcases hthreads id₂ g₂ p h₂ m₂ with ⟨rfl, -⟩ | ⟨-, -, n₂⟩
      · rfl
      · exact absurd m₁ n₂
    · rcases hthreads id₂ g₂ p h₂ m₂ with ⟨-, rfl⟩ | ⟨-, a₂, -⟩
      · exact absurd m₂ n₁
      · exact h.unique id₁ id₂ g₁ g₂ p a₁ m₁ a₂ m₂
  · intro id g₁ p p' hg₁ hmem hmem' heq
    rcases hthreads id g₁ p hg₁ hmem with ⟨rfl, rfl⟩ | ⟨hid, hold, hp⟩
    · exact hapart p hmem p' hmem' heq
    · rw [hentity p hp, hentity p' ((hother id g₁ hid hg₁).2 p' hmem')] at heq
      exact h.apart id g₁ p p' hold hmem hmem' heq
  · intro id g₁ hg₁
    by_cases hid : id = g'.id
    · rw [hid, hg'] at hg₁
      cases hg₁
      exact hnodup
    · exact h.nodup id g₁ (hother id g₁ hid hg₁).1

/-- A thread without an entity is in no group. -/
theorem Pins.not_listed (h : Pins stale s) {pid : Nat} (hfree : s.entityMap pid = none)
    (hg : s.groupMap id = some g) : pid ∉ g.entityPids := by
  intro hmem
  obtain ⟨i, ht⟩ := h.thread id g pid hg hmem
  rw [ht.entity] at hfree
  cases hfree

/-- Nobody in a group is on a CPU that is clear in its map. -/
theorem Pins.ne_of_clear (h : Pins stale s) (hg : s.groupMap id = some g) {index : Nat}
    (hclear : g.usedBitmap[index]? = some false) :
    ∀ pid ∈ g.entityPids, s.entityMap pid ≠ some (index : Int) := by
  intro pid hmem hcon
  obtain ⟨i, ht⟩ := h.thread id g pid hg hmem
  rw [ht.entity] at hcon
  cases hcon
  have hmark := ht.marked
  rw [Int.toNat_natCast, hclear] at hmark
  cases hmark

/-- A thread without an entity is bound to a free CPU of a group of its domain. -/
theorem Pins.assign (hlayout : Layout m s) (h : Pins stale s) {key : DomainKey} {pid index : Nat}
    (hd : s.domainMap key = some d) (hpids : pid ∈ d.pids)
    (hfree : s.entityMap pid = none) (hid : g.id ∈ d.groups) (hg : s.groupMap g.id = some g)
    (hfind : findFirstIdlePos g.usedBitmap g.start m.granularity = some index)
    (hlt : index < g.start + g.nrCpus) :
    Pins stale { s.setGroup g.id (some { g with
        usedBitmap := dynamicBitsetSet g.usedBitmap index m.granularity
        entityPids := setInsert (· ≤ ·) pid g.entityPids }) with
      entityMap := update s.entityMap pid (some (index : Int)) } := by
  obtain ⟨hsize, hlo, hclear, -, -⟩ := findFirstIdlePos_some hfind
  have hle := findFirstIdlePos_le_length hfind
  have hother := h.ne_of_clear hg hclear
  have hset : (dynamicBitsetSet g.usedBitmap index m.granularity)[index]? = some true := by
    rw [dynamicBitsetSet_eq hle hsize, getElem?_fill hle, if_pos ⟨le_refl _, by omega⟩]
  have hold : ∀ q ∈ g.entityPids, update s.entityMap pid (some (index : Int)) q = s.entityMap q := by
    intro q hq
    apply update_of_ne
    rintro rfl
    exact h.not_listed hfree hg hq
  apply h.setGroup { g with
    usedBitmap := dynamicBitsetSet g.usedBitmap index m.granularity
    entityPids := setInsert (· ≤ ·) pid g.entityPids } (update_self ..)
  · intro id g₁ hne hg₁
    have hg₀ : s.groupMap id = some g₁ := (update_of_ne hne ..).symm.trans hg₁
    refine ⟨hg₀, fun p hp hcon => ?_⟩
    rcases mem_setInsert.mp hcon with rfl | hpg
    · exact h.not_listed hfree hg₀ hp
    · exact hne (h.unique id g.id g₁ g p hg₀ hp hg hpg)
  · intro id g₁ p hg₁ hmem
    by_cases hne : id = g.id
    · rw [hne, hg] at hg₁
      cases hg₁
      exact .inl (mem_setInsert.mpr (.inr hmem))
    · exact .inr ((update_of_ne hne ..).trans hg₁)
  · exact fun p hp => update_of_ne (fun heq => hp (mem_setInsert.mpr (.inl heq))) ..
  · exact fun id g₁ d _ _ hd hid => ⟨d, hd, hid, rfl⟩
  · intro p hp
    rcases mem_setInsert.mp hp with rfl | hpg
    · exact ⟨index, update_self .., Int.ofNat_le.mpr hlo, Int.ofNat_lt.mpr hlt, hset, d,
        (congrArg s.domainMap (hlayout.owned key d hd g.id hid)).trans hd, hid, hpids⟩
    · obtain ⟨i, ht⟩ := h.thread g.id g p hg hpg
      exact ⟨i, (hold p hpg).trans ht.entity, ht.lower, ht.upper, dynamicBitsetSet_mono ht.marked,
        ht.owner⟩
  · intro p hp p' hp' heq
    change update s.entityMap pid _ p = update s.entityMap pid _ p' at heq
    rcases mem_setInsert.mp hp with rfl | hpg
    · rcases mem_setInsert.mp hp' with rfl | hpg'
      · rfl
      · rw [update_self, hold p' hpg'] at heq
        exact absurd heq.symm (hother p' hpg')
    · rcases mem_setInsert.mp hp' with rfl | hpg'
      · rw [update_self, hold p hpg] at heq
        exact absurd heq (hother p hpg)
      · rw [hold p hpg, hold p' hpg'] at heq
        exact h.apart g.id g p p' hg hpg hpg' heq
  · exact nodup_setInsert (h.nodup _ g hg)

/-- All threads of a group are taken off their CPUs. -/
theorem Pins.unbind (h : Pins stale s) (hg : s.groupMap g.id = some g) :
    Pins stale (s.unbind g g.entityPids) := by
  have hnil : g.entityPids.filter (· ∉ g.entityPids) = [] := by simp
  apply h.shrink
  · -- a group that lists a thread afterwards is another one
    intro id' g' p hmem hg'
    rcases update_eq_some.mp hg' with ⟨-, heq⟩ | ⟨hne, hg'⟩
    · cases heq
      change p ∈ g.entityPids.filter (· ∉ g.entityPids) at hmem
      rw [hnil] at hmem
      cases hmem
    · exact ⟨hg', if_neg fun hp => hne (h.unique id' g.id g' g p hg' hmem hg hp)⟩
  · intro p _ hp
    change ((if p ∈ g.entityPids then none else s.entityMap p) : Option Int).isSome = true at hp
    split at hp
    · cases hp
    · next hpg =>
      refine ⟨hp, fun id' g' hg' hmem => (update_of_ne ?_ ..).trans hg'⟩
      rintro rfl
      rw [hg] at hg'
      cases hg'
      exact hpg hmem
  · exact fun id' g' d _ _ hd hid => ⟨d, hd, hid, rfl⟩

theorem unbind_nil (hg : s.groupMap g.id = some g) : s.unbind g [] = s := by
  have hall : g.entityPids.filter (· ∉ []) = g.entityPids := filter_eq_self.mpr (by simp)
  have hset : s.setGroup g.id (some g) = s := by
    unfold setGroup
    rw [← hg, update_eq_self]
  unfold unbind
  rw [foldl_nil, hall]
  show ({ s.setGroup g.id (some g) with
    entityMap := fun pid => if pid ∈ [] then none else s.entityMap pid } : Sched) = s
  rw [hset]
  simp

/-- The threads of a listed group are threads of the domain. -/
theorem Pins.mem_pids (h : Pins stale s) {key : DomainKey}
    (hd : s.domainMap key = some d) (hkey : id.domainKey = key)
    (hg : s.groupMap id = some g) {pid : Nat} (hpid : pid ∈ g.entityPids) : pid ∈ d.pids := by
  obtain ⟨i, hthread⟩ := h.thread id g pid hg hpid
  obtain ⟨d', hd', -, hpids⟩ := hthread.owner
  rw [hkey, hd] at hd'
  cases hd'
  exact hpids

/-! ### Migration -/

/-- Restoring writes the old positions of the threads that were moved. -/
theorem foldl_restore {orig : Nat → Option Int} (backup : List (Nat × Int)) (p : Nat) :
    ∀ entityMap : Nat → Option Int, (∀ b ∈ backup, orig b.1 = some b.2) →
      (backup.foldl (fun (em : Nat → Option Int) b => update em b.1 (some b.2)) entityMap) p =
        if p ∈ backup.map (·.1) then orig p else entityMap p := by
  induction backup with
  | nil => intro entityMap _; simp
  | cons b backup ih =>
    intro entityMap hb
    rw [foldl_cons, ih _ fun b' hb' => hb b' (mem_cons_of_mem _ hb'), update_apply]
    by_cases hp : p = b.1
    · subst hp
      simp [hb b mem_cons_self]
    · have hmem : p ∈ (b :: backup).map (·.1) ↔ p ∈ backup.map (·.1) := by
        rw [map_cons, mem_cons, or_iff_right hp]
      rw [if_neg hp, if_congr hmem rfl rfl]

/-- What the loop over the threads of a group that moves comes to, when they all have an
entity: the shifted positions, or those from before. `done` are the threads moved so far. -/
theorem migrateEntities_spec (start newStart : Nat) (ok : Nat → Bool) {orig : Nat → Option Int}
    (pids : List Nat) : ∀ (done : List Nat) (backup : List (Nat × Int)) (entityMap : Nat → Option Int),
      (done ++ pids).Nodup → (∀ p ∈ pids, (orig p).isSome) →
      (∀ p, entityMap p =
        if p ∈ done then (orig p).map fun i : Int => (newStart : Int) + (i - start) else orig p) →
      backup.map (·.1) = done → (∀ b ∈ backup, orig b.1 = some b.2) →
      (migrateEntities start newStart ok pids backup entityMap).2 = true ∧
          (∀ p, (migrateEntities start newStart ok pids backup entityMap).1 p =
            if p ∈ done ++ pids then (orig p).map fun i : Int => (newStart : Int) + (i - start)
            else orig p) ∨
        (migrateEntities start newStart ok pids backup entityMap).2 = false ∧
          (migrateEntities start newStart ok pids backup entityMap).1 = orig := by
  induction pids with
  | nil =>
    intro done backup entityMap _ _ hcur _ _
    rw [append_nil]
    exact .inl ⟨rfl, hcur⟩
  | cons pid pids ih =>
    intro done backup entityMap hnodup hsome hcur hkeys hvals
    have hnot : pid ∉ done := by
      intro hmem
      exact (nodup_append.mp hnodup).2.2 pid hmem pid mem_cons_self rfl
    obtain ⟨old, hold⟩ := Option.isSome_iff_exists.mp (hsome pid mem_cons_self)
    have hpid : entityMap pid = some old := by rw [hcur, if_neg hnot, hold]
    unfold migrateEntities
    rw [hpid]
    dsimp only
    split
    · have happ : done ++ pid :: pids = (done ++ [pid]) ++ pids := by simp
      rw [happ] at hnodup ⊢
      apply ih (done ++ [pid]) _ _ hnodup (fun p hp => hsome p (mem_cons_of_mem _ hp))
      · intro p
        rw [update_apply, hcur]
        by_cases hp : p = pid
        · subst hp
          simp [hold]
        · simp [hp]
      · simp [hkeys]
      · intro b hb
        rcases mem_append.mp hb with hb | hb
        · exact hvals b hb
        · rw [mem_singleton] at hb
          rwa [hb]
    · refine .inr ⟨rfl, ?_⟩
      funext p
      dsimp only
      rw [foldl_restore backup p entityMap hvals, hkeys, hcur]
      split <;> rfl

/-- The threads of a group that has moved are on its new area, at the same offsets. -/
theorem movedGroup_thread (hm : m.Regular) {c : ClusterInfo} (hc : c ∈ m.topology) {newStart : Nat}
    (hfind : findFirstIdlePos (availableCpuMap d c l) 0 g.nrCpus = some newStart) {cpuIdx : Int}
    (hlo : g.start ≤ cpuIdx) (hhi : cpuIdx < g.start + g.nrCpus) (clusterId layerId : Nat) :
    (newStart : Int) ≤ newStart + (cpuIdx - g.start) ∧
      newStart + (cpuIdx - g.start) < newStart + g.nrCpus ∧
      (movedGroup m g clusterId layerId newStart).usedBitmap[
        ((newStart : Int) + (cpuIdx - g.start)).toNat]? = some true := by
  have hle := findFirstIdlePos_le_length hfind
  have hlen : (availableCpuMap d c l).length = m.clusterCpuNum := by
    unfold availableCpuMap
    rw [length_dynamicBitsetOr, length_dynamicBitsetNot, length_dynamicBitsetCut,
      hm.length_cpuSet hc]
  rw [hlen] at hle
  refine ⟨by omega, by omega, ?_⟩
  apply genDynamicBitSetByArea_isArea hle (findFirstIdlePos_some hfind).1
  · omega
  · omega

/-- A group moves to a free id, and its threads are shifted with it. -/
theorem Pins.moveGroup (h : Pins stale s) (g' : VmGroup) {shift : Int → Int}
    (hg : s.groupMap g.id = some g) (hpids : g'.entityPids = g.entityPids)
    (hkey : g'.id.domainKey = g.id.domainKey) (hd : s.domainMap g.id.domainKey = some d)
    (hfree : ∀ g₀, s.groupMap g'.id = some g₀ → g₀.entityPids = [])
    (hshift : ∀ cpuIdx : Int, g.start ≤ cpuIdx → cpuIdx < g.start + g.nrCpus →
      g'.start ≤ shift cpuIdx ∧ shift cpuIdx < g'.start + g'.nrCpus ∧
        g'.usedBitmap[(shift cpuIdx).toNat]? = some true)
    (hinj : ∀ i j, shift i = shift j → i = j)
    (hgroup : s'.groupMap = update (update s.groupMap g.id none) g'.id (some g'))
    (hdomain : s'.domainMap = update s.domainMap g.id.domainKey
      (some { d with groups := setInsert GroupId.Le g'.id (d.groups.erase g.id) }))
    (hentity : ∀ p, s'.entityMap p =
      if p ∈ g.entityPids then (s.entityMap p).map shift else s.entityMap p) : Pins stale s' := by
  apply h.setGroup g' (by rw [hgroup, update_self])
  · intro id g₁ hid hg₁
    rw [hgroup, update_of_ne hid] at hg₁
    obtain ⟨hne, hg₀⟩ := update_none_eq_some.mp hg₁
    refine ⟨hg₀, fun p hp hcon => ?_⟩
    rw [hpids] at hcon
    exact hne (h.unique id g.id g₁ g p hg₀ hp hg hcon)
  · intro id g₁ p hg₁ hmem
    by_cases hid : id = g.id
    · rw [hid, hg] at hg₁
      cases hg₁
      exact .inl (by rwa [hpids])
    · have hid' : id ≠ g'.id := by
        rintro rfl
        rw [hfree g₁ hg₁] at hmem
        cases hmem
      exact .inr (by rw [hgroup, update_of_ne hid', update_of_ne hid, hg₁])
  · intro p hp
    rw [hpids] at hp
    rw [hentity, if_neg hp]
  · intro id g₁ d₀ hid hg₁ hd₀ hin
    rw [hgroup, update_of_ne hid] at hg₁
    rw [hdomain, update_apply]
    split
    · next heq =>
      rw [heq, hd] at hd₀
      cases hd₀
      have hmem := (mem_erase_of_ne (update_none_eq_some.mp hg₁).1).mpr hin
      exact ⟨_, rfl, mem_setInsert.mpr (.inr hmem), rfl⟩
    · exact ⟨d₀, hd₀, hin, rfl⟩
  · intro p hp
    rw [hpids] at hp
    obtain ⟨i, ht⟩ := h.thread g.id g p hg hp
    obtain ⟨hlo, hhi, hmark⟩ := hshift i ht.lower ht.upper
    obtain ⟨d₀, hd₀, -, hpd⟩ := ht.owner
    rw [hd] at hd₀
    cases hd₀
    refine ⟨shift i, ?_, hlo, hhi, hmark, ?_⟩
    · rw [hentity, if_pos hp, ht.entity]
      rfl
    · rw [hdomain, hkey, update_self]
      exact ⟨_, rfl, mem_setInsert.mpr (.inl rfl), hpd⟩
  · intro p hp p' hp' heq
    rw [hpids] at hp hp'
    obtain ⟨i, ht⟩ := h.thread g.id g p hg hp
    obtain ⟨i', ht'⟩ := h.thread g.id g p' hg hp'
    rw [hentity, hentity, if_pos hp, if_pos hp', ht.entity, ht'.entity, Option.map_some,
      Option.map_some, Option.some.injEq] at heq
    apply h.apart g.id g p p' hg hp hp'
    rw [ht.entity, ht'.entity, hinj i i' heq]
  · rw [hpids]
    exact h.nodup _ g hg

theorem Pins.of_maps (h : Pins stale s) (hgroup : s'.groupMap = s.groupMap)
    (hdomain : s'.domainMap = s.domainMap) (hentity : s'.entityMap = s.entityMap) : Pins stale s' := by
  apply h.frame hentity
  · intro id g _
    rw [hgroup]
  · intro id g d _ _ hd hid
    exact ⟨d, by rw [hdomain]; exact hd, hid, rfl⟩

/-- A migration to a fresh group keeps the pins. -/
theorem Pins.migrate (hm : m.Regular) (hlayout : Layout m s) (h : Pins stale s) {mig : Migration}
    {c : ClusterInfo} {start : Nat}
    (ht : s.migrationTarget m mig = some (d, g, c, l, start)) (ok : Nat → Bool)
    (hnew : (⟨g.id.domainKey, mig.clusterId, mig.layerId⟩ : GroupId) ∉ l.groups) :
    Pins stale (s.migrate m mig ok) := by
  obtain ⟨src, hmoves, heq⟩ := hlayout.placed.migrate ht ok
  obtain ⟨hct, -, -⟩ := Machine.cluster_some hmoves.cluster
  have hents : ∀ p ∈ g.entityPids, (s.entityMap p).isSome := by
    intro p hp
    obtain ⟨i, hthread⟩ := h.thread g.id g p hmoves.group hp
    rw [hthread.entity]
    rfl
  rw [heq]
  rcases migrateEntities_spec g.start start ok g.entityPids [] [] s.entityMap
    (h.nodup _ g hmoves.group) hents (fun p => by simp) rfl (fun b hb => absurd hb (by simp))
    with ⟨hok, hmap⟩ | ⟨hok, hmap⟩
  · rw [if_pos hok]
    apply h.moveGroup (d := d) (movedGroup m g mig.clusterId mig.layerId start) hmoves.group rfl rfl
      hmoves.domain
    · exact fun g₀ => h.eq_nil hlayout _ hmoves.target hnew
    · exact fun cpuIdx hlo hhi =>
        movedGroup_thread (g := g) hm hct hmoves.find hlo hhi mig.clusterId mig.layerId
    · intro i j hij
      omega
    · rw [bindGroup_groupMap, withdraw_groupMap]
    · rw [bindGroup_domainMap, withdraw_domainMap]
      rfl
    · rwa [bindGroup_eq (hmoves.layer_withdraw _)]
  · rw [if_neg (by rw [hok]; exact Bool.noConfusion), hmap]
    exact h.of_maps rfl rfl rfl

/-! ### Runs -/

/-- Every change keeps the pins, if groups go to free places and are freed without threads. -/
theorem Pins.change (hm : m.Regular) (hlayout : Layout m s) (h : Pins stale s)
    (hplace : ∀ s p, P.place s p → p.groupId ∉ p.layer.groups) (hfree : P.free → ∀ pid, stale pid)
    (hchange : Change m P s s') : Pins stale s' := by
  cases hchange with
  | bind d c l g hd hc hl hlevel hnil hfind hp => exact h.bind hlayout hd hl hnil (hplace _ _ hp)
  | free key d id g hd hid hg hgo => exact h.free key.numaId hg (hgo.imp_left hfree)
  | relist key d d' hd hsub hkeep =>
    apply h.setDomain
    intro d₀ hd₀ id hid g hg _
    rw [hd] at hd₀
    cases hd₀
    obtain ⟨e, he, hin⟩ := hkeep id hid (by rw [hg]; rfl)
    exact ⟨e, he, hin, congrArg (fun p => p.2.2.2.1) (hsub e he).1⟩
  | assign key d id g pid index hd hpid hnone hid hg hfind hlt =>
    have hgid := hlayout.groupId id g hg
    subst hgid
    exact h.assign hlayout hd hpid hnone hid hg hfind hlt
  | unbind key d id g pids hd hid hg hpids =>
    have hgid := hlayout.groupId id g hg
    subst hgid
    rcases hpids with rfl | hpids
    · exact h.unbind hg
    · -- no thread of the group has left the domain
      have hnil : pids = [] := by
        rw [eq_nil_iff_forall_not_mem]
        intro pid hpid
        exact (hpids pid hpid).2 (h.mem_pids hd (hlayout.owned key d hd _ hid) hg (hpids pid hpid).1)
      rwa [hnil, unbind_nil hg]
  | migrate mig ok d g c l start ht hp => exact h.migrate hm hlayout ht ok (hplace _ _ hp)
  | layerUp numaId =>
    obtain ⟨hg, hd, he⟩ := s.overProvisionUp_maps (m := m) numaId
    exact h.of_maps hg hd he
  | layerDown numaId layerId =>
    obtain ⟨hg, hd, he⟩ := s.overProvisionDown_maps (m := m) numaId layerId
    exact h.of_maps hg hd he
  | newDomain d hnone hnil hadd =>
    apply h.setDomain
    intro d₀ hd₀
    rw [hnone] at hd₀
    cases hd₀
  | restore dynamicAffinity => exact .of_empty (fun _ => rfl) fun _ => rfl

/-- Every step that meets the conditions keeps the pins. -/
theorem Pins.step (hm : m.Regular) (hlayout : Layout m s) (h : Pins stale s) {i : SchedStep}
    (hplace : s.MayPlace m i) (hfree : s.MayFree i ∨ ∀ pid, stale pid) : Pins stale (s.step m i) := by
  have hi : Permitted m ⟨fun _ p => Unfragmented p.map p.size ∧ p.groupId ∉ p.layer.groups,
      ∀ pid, stale pid, True⟩ s i :=
    ⟨hplace.1, hplace.2.1, hplace.2.2, hfree.symm.imp_right fun h => ⟨hlayout.groupId, h⟩,
      .inl trivial⟩
  exact (hi.keeps (I := fun s => Layout m s ∧ Pins stale s)
    (fun h hchange => ⟨h.1.change hm (fun _ _ hp => hp) hchange,
      h.2.change hm h.1 (fun _ _ hp => And.right hp) id hchange⟩) ⟨hlayout, h⟩).2

end

def MayPin (m : Machine) (s : Sched) (i : SchedStep) : Prop :=
  s.MayPlace m i ∧ s.MayFree i

instance (m : Machine) (s : Sched) (i : SchedStep) : Decidable (s.MayPin m i) :=
  inferInstanceAs (Decidable (_ ∧ _))

/-- On a regular machine the pins are exact throughout every run of operations in which no write
throws, no group loses its last thread in compaction, no search meets a fragmented map, no domain
gets a second group in a layer of a cluster, and a domain is freed only when none of its threads
is bound. -/
theorem pins_exact {m : Machine} (hm : m.Regular) (dynamicAffinity : Bool) (ops : List SchedOp)
    (hmay : EachStep (step m) (MayPin m) (init m dynamicAffinity)
      (steps m (init m dynamicAffinity) ops)) :
    Throughout (step m) PinsExact (init m dynamicAffinity)
      (steps m (init m dynamicAffinity) ops) := by
  have hinit : Layout m (init m dynamicAffinity) ∧ Pins (fun _ => False) (init m dynamicAffinity) :=
    ⟨.init dynamicAffinity, .of_empty (fun _ => rfl) fun _ => rfl⟩
  have hinv : Throughout (step m) (fun s => Layout m s ∧ Pins (fun _ => False) s)
      (init m dynamicAffinity) (steps m (init m dynamicAffinity) ops) :=
    throughout_of_step hinit
      (fun s i h hi => ⟨h.1.step hm hi.1, h.2.step hm h.1 hi.1 (.inl hi.2)⟩) hmay
  exact hinv.mono fun s h => h.2.exact h.1

theorem startStopRun_pins :
    Throughout (step (smallMachine [3])) PinsExact (init (smallMachine [3]) false)
      (steps (smallMachine [3]) (init (smallMachine [3]) false) startStopRun) :=
  pins_exact (smallMachine_regular [3]) false startStopRun (by decide +kernel)

/-- A VM with two vCPUs starts and the affinity of the second cannot be written; the next
round schedules the VM again. -/
def retryRun : List SchedOp :=
  [.addDomainInfo (freeVm "a" [1, 2]) fun _ pid => if pid = 2 then .fails else .ok,
    .updateDomainInfosAndSched [freeVm "a" [1, 2]] [⟨"a", 0⟩] fun _ _ => .ok]

def retryRunEnd : Sched :=
  exec (step (smallMachine [])) (init (smallMachine []) false)
    (steps (smallMachine []) (init (smallMachine []) false) retryRun)

theorem retryRunEnd_layout : Layout (smallMachine []) retryRunEnd := by
  have hrun := Layout.throughout (smallMachine_regular []) false retryRun (by decide +kernel)
  exact Throughout.last hrun

/-- The first thread keeps its entity, but no group lists it any more: its group has been
freed, and the second thread has got its CPU. -/
theorem retryRun_inexact :
    ¬ ∀ (m : Machine) (dynamicAffinity : Bool) (ops : List SchedOp), m.Regular →
      Throughout (step m) PinsExact (init m dynamicAffinity)
        (steps m (init m dynamicAffinity) ops) := by
  intro hall
  have hrun := hall (smallMachine []) false retryRun (smallMachine_regular [])
  have hexact : PinsExact retryRunEnd := Throughout.last hrun
  have hbound : (retryRunEnd.entityMap 1).isSome = true := by decide +kernel
  have hnone : ∀ c ∈ (smallMachine []).topology, ∀ l ∈ retryRunEnd.layers c.id, ∀ id ∈ l.groups,
      ∀ g ∈ (retryRunEnd.groupMap id).toList, 1 ∉ g.entityPids := by
    decide +kernel
  obtain ⟨id, ⟨d, g, hd, hid, -, hg, hmem⟩, -⟩ := hexact.one 1 hbound
  obtain ⟨⟨l, hl, hin⟩, hcl⟩ := retryRunEnd_layout.present _ d hd id hid (by rw [hg]; rfl)
  obtain ⟨c, hc⟩ := Option.isSome_iff_exists.mp hcl
  obtain ⟨hct, -, hcid⟩ := Machine.cluster_some hc
  rw [← hcid] at hl
  exact hnone c hct l (mem_of_getElem? hl) id hin g (Option.mem_toList.mpr hg) hmem

end Sched

end UbsVirt.Vas
