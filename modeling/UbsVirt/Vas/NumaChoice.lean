import UbsVirt.Vas.Pinning

/-!
# One NUMA node for a VM

A VM is scheduled on one NUMA node, the one `SelectVmNuma` chooses, and its domain is kept
under its uuid and that node. Every round runs the choice again for every VM libvirt reports,
on a usage that already contains the VM (`cluster_sched.cpp:291-452`). A VM so stays on one
node in the runs in which its node has room for it once more, in a layer that is as low as
those of the other nodes it may run on and more used.
-/

namespace UbsVirt.Vas

open Maps Run List Sched

namespace Sched

/-! ### Domains only come from updates -/

def DomainsFrom (s s' : Sched) : Prop :=
  ∀ key d', s'.domainMap key = some d' → ∃ d, s.domainMap key = some d ∧ d'.identity = d.identity

section

variable {m : Machine} {s s' : Sched} {P : Permits}

theorem DomainsFrom.of_eq (h : s'.domainMap = s.domainMap) : DomainsFrom s s' := by
  intro key d hd
  rw [h] at hd
  exact ⟨d, hd, rfl⟩

theorem DomainsFrom.trans {s'' : Sched} (h : DomainsFrom s s') (h' : DomainsFrom s' s'') :
    DomainsFrom s s'' := by
  intro key d'' hd''
  obtain ⟨d', hd', heq'⟩ := h' key d'' hd''
  obtain ⟨d, hd, heq⟩ := h key d' hd'
  exact ⟨d, hd, heq'.trans heq⟩

/-- A domain may be rewritten, if it remains that of the same VM, or erased. -/
theorem DomainsFrom.of_update {key : DomainKey} {d : VmDomain} (hd : s.domainMap key = some d)
    {d? : Option VmDomain} (h : s'.domainMap = Function.update s.domainMap key d?)
    (hsame : ∀ e ∈ d?, e.identity = d.identity) : DomainsFrom s s' := by
  intro key' e he
  rw [h] at he
  rcases update_eq_some.mp he with ⟨rfl, heq⟩ | ⟨-, hold⟩
  · exact ⟨d, hd, hsame e heq⟩
  · exact ⟨e, hold, rfl⟩

/-- A change that adds no domain keeps them where they are. -/
theorem DomainsFrom.change (hadd : ¬ P.add) (hchange : Change m P s s') : DomainsFrom s s' := by
  cases hchange with
  | bind d c l g hd hc hl hlevel hnil hfind hplace =>
    apply DomainsFrom.of_update hd (bindGroup_domainMap d g)
    rintro e ⟨⟩
    rfl
  | free key d id g hd hid hg hfree => exact .of_eq (freeGroup_domainMap key.numaId id)
  | relist key d d' hd hsub hkeep => exact .of_update hd rfl fun e he => (hsub e he).1
  | assign key d id g pid index hd hpid hnew hid hg hfind hlt => exact .of_eq rfl
  | unbind key d id g pids hd hid hg hpids => exact .of_eq rfl
  | migrate mig ok d g c l start ht hplace =>
    obtain ⟨-, -, -, -, -, -, hd, -⟩ := migrationTarget_some ht
    unfold migrate
    rw [ht]
    dsimp only
    split
    · apply DomainsFrom.of_update hd
      · rw [bindGroup_domainMap]
        exact congrArg (Function.update · _ _) (leaveLayer_domainMap mig g)
      · rintro e ⟨⟩
        rfl
    · exact .of_eq ((returnToLayer_domainMap mig g).trans (leaveLayer_domainMap mig g))
  | layerUp numaId => exact .of_eq (overProvisionUp_maps numaId).2.1
  | layerDown numaId layerId => exact .of_eq (overProvisionDown_maps numaId layerId).2.1
  | newDomain d hnone hnil hnew => exact absurd hnew hadd
  | restore dynamicAffinity =>
    intro key e he
    obtain ⟨d, hd, rfl⟩ := Option.map_eq_some_iff.mp he
    exact ⟨d, hd, rfl⟩

/-- Steps that end by an exception add no domain. -/
theorem DomainsFrom.thrown {i : SchedStep} (h : s.thrown m i = some s') : DomainsFrom s s' := by
  unfold Sched.thrown at h
  split at h
  · next key pid copied =>
    split at h
    · cases h
      intro key' e he
      rcases update_eq_some.mp he with ⟨rfl, heq⟩ | ⟨-, hold⟩
      · obtain ⟨d, hd, rfl⟩ := Option.map_eq_some_iff.mp heq
        exact ⟨d, hd, rfl⟩
      · exact ⟨e, hold, rfl⟩
    · cases h
  · next mig write =>
    obtain ⟨⟨d, g, c, l, start⟩, ht, hmap⟩ := Option.bind_eq_some_iff.mp h
    obtain ⟨entityMap, -, rfl⟩ := Option.map_eq_some_iff.mp hmap
    exact .of_eq (leaveLayer_domainMap mig g)
  · cases h

/-- Cleaning up rewrites or erases the domain, also where it takes groups off its list. -/
theorem DomainsFrom.clean (key : DomainKey) (gone : Bool) :
    DomainsFrom s (s.cleanDyingPid m key gone) := by
  have hone : ∀ (s : Sched) id, DomainsFrom s (s.cleanGroup m key id) := by
    intro s id
    unfold cleanGroup
    split
    · next d g hd hg =>
      split
      · exact .of_eq rfl
      · dsimp only
        split
        · apply DomainsFrom.of_update hd
            (congrArg (Function.update · key _) (delGroupFromClusterLayer_domainMap g))
          rintro e ⟨⟩
          rfl
        · exact .of_eq rfl
    · exact .of_eq rfl
  unfold cleanDyingPid
  split
  · exact .of_eq rfl
  next d hd =>
  have hloop : DomainsFrom s (d.groups.foldl (fun s id => s.cleanGroup m key id) s) :=
    foldlRecOn (motive := DomainsFrom s) d.groups _ (.of_eq rfl) fun s' h id _ => h.trans (hone s' id)
  dsimp only
  split
  · next d' hd' =>
    split
    · exact hloop.trans (.of_update hd' rfl fun e he => nomatch he)
    · exact hloop
  · exact hloop

/-- Only updates add domains. -/
theorem DomainsFrom.step {i : SchedStep} (hi : ∀ used vm, i ≠ .update used vm) :
    DomainsFrom s (s.step m i) := by
  cases hthrown : s.thrown m i with
  | none =>
    by_cases hclean : s.MayClean i
    · have hpermitted : Permitted m ⟨fun _ _ => True, True, False⟩ s i :=
        ⟨hthrown, hclean, fun _ _ => trivial, .inl trivial, .inr hi⟩
      exact hpermitted.keeps (I := fun s' => DomainsFrom s s')
        (fun h hchange => h.trans (.change not_false hchange)) (.of_eq rfl)
    · cases i with
      | clean key gone => exact .clean key gone
      | _ => exact absurd trivial hclean
  | some s' =>
    unfold Sched.step
    rw [hthrown]
    exact .thrown hthrown

/-- A domain of the state after a step is one from before, or that of the VM of an update. -/
theorem step_domainMap (i : SchedStep) {key : DomainKey} {e : VmDomain}
    (he : (s.step m i).domainMap key = some e) :
    (∃ d, s.domainMap key = some d ∧ e.identity = d.identity) ∨
      ∃ used vm numaId, i = .update used vm ∧ key = ⟨vm.uuid, numaId⟩ ∧ e = newDomain vm numaId ∧
        (s.selectVmNuma m used vm).map (·.1) = some numaId := by
  by_cases hi : ∀ used vm, i ≠ .update used vm
  · exact .inl (DomainsFrom.step hi key e he)
  · simp only [ne_eq, not_forall, not_not] at hi
    obtain ⟨used, vm, rfl⟩ := hi
    change (s.updateDomainInfo m used vm).domainMap key = some e at he
    rcases s.updateDomainInfo_cases (m := m) used vm with heq | ⟨numaId, hsel, hnone, heq⟩
    · rw [heq] at he
      exact .inl ⟨e, he, rfl⟩
    · rw [heq] at he
      rcases update_eq_some.mp he with ⟨hkey, hnew⟩ | ⟨-, hold⟩
      · cases hnew
        exact .inr ⟨used, vm, numaId, rfl, hkey, rfl, hsel⟩
      · exact .inl ⟨e, hold, rfl⟩

end

/-! ### The choice -/

def HasRoom (m : Machine) (s : Sched) (used : NumaUsedCpuMap) (vm : VmInfo) (numaId layerId : Nat) :
    Prop :=
  used layerId numaId + vm.vcpuMap.length ≤ s.getNumaCpuCount m numaId

instance (m : Machine) (s : Sched) (used : NumaUsedCpuMap) (vm : VmInfo) (numaId layerId : Nat) :
    Decidable (s.HasRoom m used vm numaId layerId) :=
  inferInstanceAs (Decidable (_ ≤ _))

/-- What keeps a VM on its node: the node has room in a layer that is no higher and more used
than every layer with room of the other nodes the VM may run on; or no node has room and no
other one is raised as little. -/
def StaysOn (m : Machine) (s : Sched) (used : NumaUsedCpuMap) (vm : VmInfo) (numaId : Nat) : Prop :=
  numaId ∈ availableNumas m vm ∧
    ((∃ layerId < s.overProvision numaId, layerId ≤ maxOverProvision ∧
        s.HasRoom m used vm numaId layerId ∧
        ∀ n ∈ availableNumas m vm, n ≠ numaId → ∀ l < s.overProvision n, s.HasRoom m used vm n l →
          layerId ≤ l ∧ used l n < used layerId numaId) ∨
      ((∀ n ∈ availableNumas m vm, ∀ l < s.overProvision n, ¬ s.HasRoom m used vm n l) ∧
        ∀ n ∈ availableNumas m vm, n ≠ numaId →
          s.overProvision numaId < s.overProvision n ∨ maxOverProvision ≤ s.overProvision n))

instance (m : Machine) (s : Sched) (used : NumaUsedCpuMap) (vm : VmInfo) (numaId : Nat) :
    Decidable (s.StaysOn m used vm numaId) :=
  inferInstanceAs (Decidable (_ ∧ _))

section

variable {m : Machine} {s : Sched} {used : NumaUsedCpuMap} {vm : VmInfo} {numaId layerId : Nat}
  {selected : Option (Nat × Nat × Nat)}

/-- What may be selected before the search comes to the layer of the VM's node. -/
def Beatable (used : NumaUsedCpuMap) (numaId layerId : Nat) (selected : Option (Nat × Nat × Nat)) :
    Prop :=
  ∀ n l u, selected = some (n, l, u) → u = used l n ∧
    (n ≠ numaId → layerId ≤ l ∧ used l n < used layerId numaId)

/-- What is selected from then on. -/
def Settled (used : NumaUsedCpuMap) (numaId layerId : Nat) (selected : Option (Nat × Nat × Nat)) :
    Prop :=
  ∃ l, selected = some (numaId, l, used l numaId) ∧
    (l ≤ layerId ∨ used layerId numaId ≤ used l numaId)

/-- Every candidate with room is on the VM's node, or no lower and less used. -/
def Prevails (m : Machine) (s : Sched) (used : NumaUsedCpuMap) (vm : VmInfo) (numaId layerId : Nat)
    (candidate : Nat × Nat) : Prop :=
  candidate.1 ≠ numaId → s.HasRoom m used vm candidate.1 candidate.2 →
    layerId ≤ candidate.2 ∧ used candidate.2 candidate.1 < used layerId numaId

/-- A layer is selected when it has room and beats what was selected before. -/
theorem selectLayer_cases (selected : Option (Nat × Nat × Nat)) (n l : Nat) :
    s.selectLayer m vm used selected (n, l) = some (n, l, used l n) ∧ s.HasRoom m used vm n l ∧
        (∀ n' l' u, selected = some (n', l', u) → u < used l n ∧ l ≤ l') ∨
      s.selectLayer m vm used selected (n, l) = selected ∧
        (s.HasRoom m used vm n l → l ≤ maxOverProvision →
          ∃ n' l' u, selected = some (n', l', u) ∧ ¬ (u < used l n ∧ l ≤ l')) := by
  cases selected with
  | none =>
    by_cases hsel : l ≤ maxOverProvision ∧ s.HasRoom m used vm n l
    · refine .inl ⟨if_pos ⟨decide_eq_true hsel.1, hsel.2⟩, hsel.2, ?_⟩
      intro n' l' u h
      cases h
    · refine .inr ⟨if_neg fun h => hsel ⟨of_decide_eq_true h.1, h.2⟩, ?_⟩
      intro hroom hmax
      exact absurd ⟨hmax, hroom⟩ hsel
  | some x =>
    obtain ⟨n', l', u⟩ := x
    by_cases hsel : (u < used l n ∧ l ≤ l') ∧ s.HasRoom m used vm n l
    · refine .inl ⟨if_pos ⟨decide_eq_true hsel.1, hsel.2⟩, hsel.2, ?_⟩
      rintro _ _ _ ⟨⟩
      exact hsel.1
    · refine .inr ⟨if_neg fun h => hsel ⟨of_decide_eq_true h.1, h.2⟩, ?_⟩
      intro hroom _
      exact ⟨n', l', u, rfl, fun h => hsel ⟨h, hroom⟩⟩

theorem Beatable.selectLayer (h : Beatable used numaId layerId selected) {candidate : Nat × Nat}
    (hc : s.Prevails m used vm numaId layerId candidate) :
    Beatable used numaId layerId (s.selectLayer m vm used selected candidate) := by
  obtain ⟨n, l⟩ := candidate
  rcases s.selectLayer_cases selected n l with ⟨heq, hroom, -⟩ | ⟨heq, -⟩
  · rw [heq]
    rintro _ _ _ ⟨⟩
    exact ⟨rfl, fun hn => hc hn hroom⟩
  · rwa [heq]

theorem Beatable.settle (h : Beatable used numaId layerId selected)
    (hmax : layerId ≤ maxOverProvision) (hroom : s.HasRoom m used vm numaId layerId) :
    Settled used numaId layerId (s.selectLayer m vm used selected (numaId, layerId)) := by
  rcases s.selectLayer_cases selected numaId layerId with ⟨heq, -, -⟩ | ⟨heq, hnot⟩
  · rw [heq]
    exact ⟨layerId, rfl, .inl (le_refl _)⟩
  · -- it is not taken, so what is selected is on the node already
    obtain ⟨n, l, u, rfl, hbeat⟩ := hnot hroom hmax
    rw [heq]
    obtain ⟨rfl, hother⟩ := h n l u rfl
    by_cases hn : n = numaId
    · subst hn
      refine ⟨l, rfl, ?_⟩
      omega
    · obtain ⟨hle, hlt⟩ := hother hn
      exact absurd ⟨hlt, hle⟩ hbeat

theorem Settled.selectLayer (h : Settled used numaId layerId selected) {candidate : Nat × Nat}
    (hc : s.Prevails m used vm numaId layerId candidate) :
    Settled used numaId layerId (s.selectLayer m vm used selected candidate) := by
  obtain ⟨l₀, rfl, hl₀⟩ := h
  obtain ⟨n, l⟩ := candidate
  rcases s.selectLayer_cases (some (numaId, l₀, used l₀ numaId)) n l with
    ⟨heq, hroom, hbeat⟩ | ⟨heq, -⟩
  · obtain ⟨hlt, hle⟩ := hbeat _ _ _ rfl
    rw [heq]
    by_cases hn : n = numaId
    · subst hn
      refine ⟨l, rfl, ?_⟩
      omega
    · -- the layer of the other node is not lower, and less used
      obtain ⟨hlow, hused⟩ := hc hn hroom
      dsimp only at hlow hused
      have hl : l₀ = layerId ∨ used layerId numaId ≤ used l₀ numaId := by omega
      rcases hl with rfl | hge <;> omega
  · rw [heq]
    exact ⟨l₀, rfl, hl₀⟩

theorem Settled.foldl (candidates : List (Nat × Nat)) :
    ∀ selected, Settled used numaId layerId selected →
      (∀ c ∈ candidates, s.Prevails m used vm numaId layerId c) →
      Settled used numaId layerId (candidates.foldl (s.selectLayer m vm used) selected) := by
  induction candidates with
  | nil => exact fun _ h _ => h
  | cons c candidates ih =>
    intro selected h hall
    exact ih _ (h.selectLayer (hall c mem_cons_self)) fun c' hc' => hall c' (mem_cons_of_mem _ hc')

/-- The search ends on the node whose layer prevails. -/
theorem Beatable.foldl (hmax : layerId ≤ maxOverProvision)
    (hroom : s.HasRoom m used vm numaId layerId) (candidates : List (Nat × Nat)) :
    ∀ selected, Beatable used numaId layerId selected → (numaId, layerId) ∈ candidates →
      (∀ c ∈ candidates, s.Prevails m used vm numaId layerId c) →
      Settled used numaId layerId (candidates.foldl (s.selectLayer m vm used) selected) := by
  induction candidates with
  | nil => exact fun _ _ hmem => absurd hmem not_mem_nil
  | cons c candidates ih =>
    intro selected h hmem hall
    have hrest : ∀ c' ∈ candidates, s.Prevails m used vm numaId layerId c' :=
      fun c' hc' => hall c' (mem_cons_of_mem _ hc')
    rcases mem_cons.mp hmem with rfl | hmem
    · exact Settled.foldl candidates _ (h.settle hmax hroom) hrest
    · exact ih _ (h.selectLayer (hall c mem_cons_self)) hmem hrest

variable (m s used vm) in
/-- Without room anywhere nothing is selected. -/
theorem foldl_selectLayer_none (candidates : List (Nat × Nat))
    (hnone : ∀ c ∈ candidates, ¬ s.HasRoom m used vm c.1 c.2) :
    candidates.foldl (s.selectLayer m vm used) none = none := by
  induction candidates with
  | nil => rfl
  | cons c candidates ih =>
    have hc : s.selectLayer m vm used none c = none :=
      if_neg fun hsel => hnone c mem_cons_self hsel.2
    rw [foldl_cons, hc]
    exact ih fun c' hc' => hnone c' (mem_cons_of_mem _ hc')

/-- `SelectMinLayer` so far: the least level seen, below the limit, and a node that has it. -/
structure MinLayer (s : Sched) (seen : List Nat) (best : Option Nat × Nat) : Prop where
  node : ∀ n, best.1 = some n → n ∈ seen ∧ best.2 = s.overProvision n ∧ best.2 < maxOverProvision
  least : ∀ n ∈ seen, best.2 ≤ s.overProvision n

/-- The scan finds the node of the lowest level. -/
theorem MinLayer.foldl (numas : List Nat) : ∀ (seen : List Nat) (best : Option Nat × Nat),
    best.2 ≤ maxOverProvision → s.MinLayer seen best →
    s.MinLayer (seen ++ numas) (numas.foldl (fun (best : Option Nat × Nat) numaId =>
        if s.overProvision numaId < best.2 then (some numaId, s.overProvision numaId) else best)
      best) := by
  induction numas with
  | nil =>
    intro seen best _ h
    rwa [append_nil]
  | cons n numas ih =>
    intro seen best hmax h
    rw [append_cons, foldl_cons]
    by_cases hlt : s.overProvision n < best.2
    · rw [if_pos hlt]
      apply ih _ _ (by dsimp only; omega)
      constructor
      · rintro _ ⟨⟩
        exact ⟨mem_append_right _ mem_cons_self, rfl, by dsimp only; omega⟩
      · intro n' hn'
        rcases mem_append.mp hn' with hn' | hn'
        · have := h.least n' hn'
          dsimp only
          omega
        · rw [mem_singleton.mp hn']
    · rw [if_neg hlt]
      apply ih _ _ hmax
      constructor
      · intro n' hn'
        obtain ⟨hmem, hrest⟩ := h.node n' hn'
        exact ⟨mem_append_left _ hmem, hrest⟩
      · intro n' hn'
        rcases mem_append.mp hn' with hn' | hn'
        · exact h.least n' hn'
        · rw [mem_singleton.mp hn']
          omega

theorem selectMinLayer_spec (s : Sched) (numas : List Nat) : s.MinLayer numas (numas.foldl
      (fun (best : Option Nat × Nat) numaId =>
        if s.overProvision numaId < best.2 then (some numaId, s.overProvision numaId) else best)
      (none, maxOverProvision)) := by
  have hstart : s.MinLayer [] (none, maxOverProvision) := by
    constructor
    · intro n hn
      cases hn
    · intro n hn
      cases hn
  exact MinLayer.foldl numas [] _ (le_refl _) hstart

/-- A node that all others are raised above is the only one `SelectMinLayer` can choose. -/
theorem selectMinLayer_eq {numas : List Nat} (hmem : numaId ∈ numas)
    (hleast : ∀ n ∈ numas, n ≠ numaId →
      s.overProvision numaId < s.overProvision n ∨ maxOverProvision ≤ s.overProvision n)
    {n : Nat} (hsel : s.selectMinLayer numas = some n) : n = numaId := by
  have hmin := s.selectMinLayer_spec numas
  obtain ⟨hn, heq, hlt⟩ := hmin.node n hsel
  have hle := hmin.least numaId hmem
  by_contra hne
  have := hleast n hn hne
  omega

/-- What `SelectVmNuma` walks through. -/
theorem mem_candidates {c : Nat × Nat} : c ∈ ((availableNumas m vm).flatMap fun n =>
        (range (s.overProvision n)).map fun l => (n, l)) ↔
      c.1 ∈ availableNumas m vm ∧ c.2 < s.overProvision c.1 := by
  obtain ⟨n, l⟩ := c
  simp only [mem_flatMap, mem_map, mem_range, Prod.mk.injEq]
  constructor
  · rintro ⟨n', hn', l', hl', rfl, rfl⟩
    exact ⟨hn', hl'⟩
  · rintro ⟨hn, hl⟩
    exact ⟨n, hn, l, hl, rfl, rfl⟩

/-- The node comes from the search, or from `SelectMinLayer` when the search finds none. -/
theorem selectVmNuma_cases {n : Nat} (hsel : (s.selectVmNuma m used vm).map (·.1) = some n) :
    (∃ l u, ((availableNumas m vm).flatMap fun n =>
        (range (s.overProvision n)).map fun l => (n, l)).foldl (s.selectLayer m vm used) none =
          some (n, l, u)) ∨
      ((availableNumas m vm).flatMap fun n =>
        (range (s.overProvision n)).map fun l => (n, l)).foldl (s.selectLayer m vm used) none =
          none ∧ s.selectMinLayer (availableNumas m vm) = some n := by
  unfold selectVmNuma at hsel
  dsimp only at hsel
  split at hsel
  · cases hsel
  split at hsel
  · next n' l u heq =>
    cases hsel
    exact .inl ⟨l, u, heq⟩
  · next heq =>
    rw [Option.map_map] at hsel
    obtain ⟨n', hn', rfl⟩ := Option.map_eq_some_iff.mp hsel
    exact .inr ⟨heq, hn'⟩

/-- A VM whose node prevails is sent to it again. -/
theorem StaysOn.selectVmNuma_eq (h : s.StaysOn m used vm numaId) {n : Nat}
    (hsel : (s.selectVmNuma m used vm).map (·.1) = some n) : n = numaId := by
  obtain ⟨hmem, h⟩ := h
  rcases h with ⟨layerId, hlevel, hmax, hroom, hother⟩ | ⟨hnone, hleast⟩
  · -- the search ends on the node
    obtain ⟨l, hl, -⟩ := Beatable.foldl hmax hroom _ none (fun _ _ _ h => by cases h)
      (mem_candidates.mpr ⟨hmem, hlevel⟩)
      (fun c hc hne => hother c.1 (mem_candidates.mp hc).1 hne c.2 (mem_candidates.mp hc).2)
    rcases selectVmNuma_cases hsel with ⟨l', u, heq⟩ | ⟨heq, -⟩
    · rw [hl] at heq
      cases heq
      rfl
    · rw [hl] at heq
      cases heq
  · have hsearch := foldl_selectLayer_none m s used vm _
      fun c hc => hnone c.1 (mem_candidates.mp hc).1 c.2 (mem_candidates.mp hc).2
    rcases selectVmNuma_cases hsel with ⟨l', u, heq⟩ | ⟨-, hmin⟩
    · rw [hsearch] at heq
      cases heq
    · exact selectMinLayer_eq hmem hleast hmin

theorem foldl_selectLayer_mem (candidates : List (Nat × Nat)) :
    ∀ selected {n l u}, candidates.foldl (s.selectLayer m vm used) selected = some (n, l, u) →
      selected = some (n, l, u) ∨ (n, l) ∈ candidates := by
  induction candidates with
  | nil => exact fun _ _ _ _ h => .inl h
  | cons c candidates ih =>
    intro selected n l u h
    rcases ih _ h with h | h
    · obtain ⟨n', l'⟩ := c
      rcases s.selectLayer_cases selected n' l' with ⟨heq, -, -⟩ | ⟨heq, -⟩
      · rw [heq] at h
        cases h
        exact .inr mem_cons_self
      · rw [heq] at h
        exact .inl h
    · exact .inr (mem_cons_of_mem _ h)

/-- A VM is sent to one of the nodes it may run on. -/
theorem selectVmNuma_mem {n : Nat} (hsel : (s.selectVmNuma m used vm).map (·.1) = some n) :
    n ∈ availableNumas m vm := by
  rcases selectVmNuma_cases hsel with ⟨l, u, heq⟩ | ⟨-, hmin⟩
  · rcases foldl_selectLayer_mem _ none heq with h | h
    · cases h
    · exact (mem_candidates.mp h).1
  · exact ((s.selectMinLayer_spec _).node n hmin).1

end

/-! ### Runs -/

/-- The VM has a domain on the node with CPUs of its own. -/
def Charged (s : Sched) (uuid : String) (numaId : Nat) : Prop :=
  ∃ d id g, s.domainMap ⟨uuid, numaId⟩ = some d ∧ id ∈ d.groups ∧ s.groupMap id = some g ∧
    0 < g.nrCpus

/-- A VM has one domain at most, and CPUs on one node at most. -/
structure OneNode (s : Sched) : Prop where
  domain : ∀ key key', (s.domainMap key).isSome → (s.domainMap key').isSome →
    key.uuid = key'.uuid → key = key'
  charged : ∀ uuid numaId numaId', s.Charged uuid numaId → s.Charged uuid numaId' → numaId = numaId'

/-- When a VM that has a domain is updated, what keeps it on the node of that domain. -/
def MayUpdate (m : Machine) (s : Sched) : SchedStep → Prop
  | .update used vm => ∀ numaId, (s.domainMap ⟨vm.uuid, numaId⟩).isSome → s.StaysOn m used vm numaId
  | _ => True

theorem OneNode.of_domain {s : Sched} (h : ∀ key key', (s.domainMap key).isSome →
    (s.domainMap key').isSome → key.uuid = key'.uuid → key = key') : s.OneNode := by
  refine ⟨h, ?_⟩
  rintro uuid numaId numaId' ⟨d, -, -, hd, -⟩ ⟨d', -, -, hd', -⟩
  have heq := h ⟨uuid, numaId⟩ ⟨uuid, numaId'⟩ (by rw [hd]; rfl) (by rw [hd']; rfl) rfl
  exact congrArg DomainKey.numaId heq

/-- Every step that meets the condition keeps the VMs on one node each. -/
theorem OneNode.step {m : Machine} {s : Sched} (h : s.OneNode) {i : SchedStep}
    (hmay : s.MayUpdate m i) : (s.step m i).OneNode := by
  apply OneNode.of_domain
  intro key key' hkey hkey' huuid
  obtain ⟨e, he⟩ := Option.isSome_iff_exists.mp hkey
  obtain ⟨e', he'⟩ := Option.isSome_iff_exists.mp hkey'
  rcases step_domainMap i he with ⟨d, hd, -⟩ | ⟨used, vm, n, rfl, rfl, -, hsel⟩
  · rcases step_domainMap i he' with ⟨d', hd', -⟩ | ⟨used, vm, n, rfl, rfl, -, hsel⟩
    · exact h.domain key key' (by rw [hd]; rfl) (by rw [hd']; rfl) huuid
    · obtain ⟨uuid, numaId⟩ := key
      cases huuid
      rw [(hmay numaId (by rw [hd]; rfl)).selectVmNuma_eq hsel]
  · rcases step_domainMap _ he' with ⟨d', hd', -⟩ | ⟨used', vm', n', hi, rfl, -, hsel'⟩
    · obtain ⟨uuid, numaId⟩ := key'
      cases huuid
      rw [(hmay numaId (by rw [hd']; rfl)).selectVmNuma_eq hsel]
    · cases hi
      rw [hsel] at hsel'
      cases hsel'
      rfl

/-- On every machine, the VMs are on one node each throughout every run of operations in
which a VM that is updated meets on its node what keeps it there. -/
theorem one_node (m : Machine) (dynamicAffinity : Bool) (ops : List SchedOp)
    (hmay : EachStep (step m) (MayUpdate m) (init m dynamicAffinity)
      (steps m (init m dynamicAffinity) ops)) :
    Throughout (step m) OneNode (init m dynamicAffinity)
      (steps m (init m dynamicAffinity) ops) := by
  have hinit : OneNode (init m dynamicAffinity) :=
    OneNode.of_domain fun key _ hkey => by cases hkey
  exact throughout_of_step hinit (fun s i h hi => h.step hi) hmay

/-- As `MayUpdate`, for VMs that name nodes of the machine only. -/
def MayUpdateKnown (m : Machine) (s : Sched) : SchedStep → Prop
  | .update used vm => (∀ numaId ∈ availableNumas m vm, numaId ∈ m.numas) ∧
      ∀ numaId ∈ m.numas, (s.domainMap ⟨vm.uuid, numaId⟩).isSome → s.StaysOn m used vm numaId
  | _ => True

instance (m : Machine) (s : Sched) (i : SchedStep) : Decidable (s.MayUpdateKnown m i) :=
  match i with
  | .update _ vm => inferInstanceAs (Decidable ((∀ numaId ∈ availableNumas m vm, _) ∧ _))
  | .allocGroup .. | .free .. | .layerUp .. | .layerDown .. | .assign .. | .unassign ..
  | .deReSched .. | .clean .. | .migrate .. | .setReScheded .. | .restore .. => isTrue trivial

/-- When the VMs name nodes of the machine only, those are the nodes to look at. -/
theorem eachStep_mayUpdate {m : Machine} {dynamicAffinity : Bool} {run : List SchedStep}
    (h : EachStep (step m) (MayUpdateKnown m) (init m dynamicAffinity) run) :
    EachStep (step m) (MayUpdate m) (init m dynamicAffinity) run := by
  apply eachStep_of_invariant (P := fun s => ∀ key d, s.domainMap key = some d →
    key.numaId ∈ m.numas) _ _ _ h
  · intro key d hd
    cases hd
  · intro s i hs hi key e he
    rcases step_domainMap i he with ⟨d, hd, -⟩ | ⟨used, vm, n, rfl, rfl, -, hsel⟩
    · exact hs key d hd
    · exact hi.1 n (selectVmNuma_mem hsel)
  · intro s i hs hi
    cases i with
    | update used vm =>
      intro numaId hsome
      obtain ⟨d, hd⟩ := Option.isSome_iff_exists.mp hsome
      exact hi.2 numaId (hs _ d hd) hsome
    | _ => trivial

/-- Two nodes with a cluster of four CPUs each. -/
def twoNodes : Machine where
  cpuInfoList := (List.range 8).map fun cpu => ⟨cpu / 4, cpu, cpu / 4, List.range' (cpu / 4 * 4) 4⟩
  clusterCpuNum := 4
  maxCpuNum := 8
  skipCpuSet := []
  granularity := 1

def wideVm (uuid : String) (pids : List Nat) : VmInfo where
  uuid := uuid
  name := uuid
  vcpuMap := pids.map fun pid => ⟨pid, pid, [0, 1], List.replicate 8 true⟩

/-- A VM with two vCPUs starts, is seen in a round, and stops. -/
def seenRun : List SchedOp :=
  [.addDomainInfo (wideVm "a" [1, 2]) fun _ _ => .ok,
    .updateDomainInfosAndSched [wideVm "a" [1, 2]] [⟨"a", 0⟩] fun _ _ => .ok,
    .delDomainInfo "a" [⟨"a", 0⟩] (fun _ => true) fun _ _ => .ok]

theorem seenRun_one_node : Throughout (step twoNodes) OneNode (init twoNodes false)
      (steps twoNodes (init twoNodes false) seenRun) :=
  one_node twoNodes false seenRun (eachStep_mayUpdate (by decide +kernel))

/-- A VM with three vCPUs starts and is seen in a round. -/
def halfFullRun : List SchedOp :=
  [.addDomainInfo (wideVm "a" [1, 2, 3]) fun _ _ => .ok,
    .updateDomainInfosAndSched [wideVm "a" [1, 2, 3]] [⟨"a", 0⟩, ⟨"a", 1⟩] fun _ _ => .ok]

def halfFullRunEnd : Sched :=
  exec (step twoNodes) (init twoNodes false)
    (steps twoNodes (init twoNodes false) halfFullRun)

/-- Its node has no room for three more, so that the VM is sent to the other one, too. -/
theorem halfFullRun_two_nodes : ¬ ∀ (m : Machine) (dynamicAffinity : Bool) (ops : List SchedOp),
      Throughout (step m) OneNode (init m dynamicAffinity)
        (steps m (init m dynamicAffinity) ops) := by
  intro hall
  have hrun := hall twoNodes false halfFullRun
  have hone : OneNode halfFullRunEnd := Throughout.last hrun
  have hboth : (halfFullRunEnd.domainMap ⟨"a", 0⟩).isSome = true ∧
      (halfFullRunEnd.domainMap ⟨"a", 1⟩).isSome = true := by
    decide +kernel
  have heq := hone.domain ⟨"a", 0⟩ ⟨"a", 1⟩ hboth.1 hboth.2 rfl
  cases heq

end Sched

end UbsVirt.Vas
