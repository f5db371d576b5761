import UbsVirt.Vas.NumaChoice

/-!
# Which NUMA node a VM gets

`SelectVmNuma` first intersects the NUMA sets of the vCPUs, and then goes once through the layers
of the nodes that are left (`cluster_sched.cpp:404-452`). The intersection starts over when it runs
out: a set that is empty before the last vCPU is taken for one that has not been set yet. The search
moves on to a layer that is more used and not higher than the one it has, so that a lower layer that
is less used is passed by.
-/

namespace UbsVirt.Vas.Sched

open Run List Sched

/-! ### The nodes that are left -/

section

variable {m : Machine} {vm : VmInfo}

/-- All but the last vCPU, and then the last one. -/
theorem availableNumas_append (m : Machine) (vm : VmInfo) (vcpus : List VcpuInfo) (v : VcpuInfo) :
    availableNumas m { vm with vcpuMap := vcpus ++ [v] } =
      if availableNumas m { vm with vcpuMap := vcpus } = [] then v.numaSet
      else (availableNumas m { vm with vcpuMap := vcpus }).filter (· ∈ v.numaSet) := by
  unfold availableNumas
  rw [foldl_append, foldl_cons, foldl_nil]
  simp only [List.isEmpty_iff]

/-- The branch for an empty set is taken at `v`: nothing is left of the sets before it. -/
def StartsOver (m : Machine) (vm : VmInfo) (before : List VcpuInfo) (v : VcpuInfo)
    (after : List VcpuInfo) : Prop :=
  vm.vcpuMap = before ++ v :: after ∧ availableNumas m { vm with vcpuMap := before } = []

/-- A split of a list with one more element is one before the last element, or at it. -/
theorem append_cons_eq_concat {α : Type*} {before after l : List α} {w v : α}
    (h : l ++ [v] = before ++ w :: after) :
    (before = l ∧ w = v ∧ after = []) ∨
      ∃ after', after = after' ++ [v] ∧ l = before ++ w :: after' := by
  rcases eq_nil_or_concat after with rfl | ⟨after', x, rfl⟩
  · obtain ⟨rfl, hv⟩ := append_inj' h rfl
    cases hv
    exact .inl ⟨rfl, rfl, rfl⟩
  · rw [concat_eq_append, ← cons_append, ← append_assoc] at h
    obtain ⟨rfl, hv⟩ := append_inj' h rfl
    cases hv
    exact .inr ⟨after', concat_eq_append, rfl⟩

/-- A node is left when it is a node of the machine in all the sets, or in all the sets from a vCPU
on at which the intersection starts over. -/
theorem mem_availableNumas {n : Nat} :
    n ∈ availableNumas m vm ↔ (n ∈ m.numas ∧ ∀ v ∈ vm.vcpuMap, n ∈ v.numaSet) ∨
      ∃ before v after, StartsOver m vm before v after ∧ ∀ w ∈ v :: after, n ∈ w.numaSet := by
  obtain ⟨uuid, name, vcpus⟩ := vm
  unfold StartsOver
  dsimp only
  induction vcpus using reverseRecOn with
  | nil => simp [availableNumas]
  | append_singleton vcpus v ih =>
    have hlast : ∀ {before w after}, vcpus ++ [v] = before ++ w :: after → v ∈ w :: after := by
      intro before w after h
      rcases append_cons_eq_concat h with ⟨-, rfl, -⟩ | ⟨after', rfl, -⟩ <;> simp
    rw [availableNumas_append m ⟨uuid, name, vcpus⟩ vcpus v]
    dsimp only
    split
    · next hnil =>
      -- what came before does not count
      constructor
      · intro hn
        exact .inr ⟨vcpus, v, [], ⟨rfl, hnil⟩, by simpa using hn⟩
      · rintro (⟨-, hall⟩ | ⟨before, w, after, ⟨heq, -⟩, hall⟩)
        · exact hall v (by simp)
        · exact hall v (hlast heq)
    · next hne =>
      rw [mem_filter, ih, decide_eq_true_iff]
      constructor
      · rintro ⟨⟨hn, hall⟩ | ⟨before, w, after, ⟨heq, hnil⟩, hall⟩, hv⟩
        · exact .inl ⟨hn, by simpa [or_imp, forall_and] using ⟨hall, hv⟩⟩
        · refine .inr ⟨before, w, after ++ [v], ⟨by rw [heq]; simp, hnil⟩, ?_⟩
          rw [← cons_append]
          simpa [or_imp, forall_and, hv] using hall
      · rintro (⟨hn, hall⟩ | ⟨before, w, after, ⟨heq, hnil⟩, hall⟩)
        · exact ⟨.inl ⟨hn, fun x hx => hall x (mem_append_left _ hx)⟩, hall v (by simp)⟩
        · rcases append_cons_eq_concat heq with ⟨rfl, -, -⟩ | ⟨after', rfl, heq'⟩
          · exact absurd hnil hne
          · refine ⟨.inr ⟨before, w, after', ⟨heq', hnil⟩, ?_⟩, hall v (hlast heq)⟩
            rw [← cons_append] at hall
            intro x hx
            exact hall x (mem_append_left _ hx)

end

/-! ### Every node that is left can be chosen -/

section

variable {m : Machine} {vm : VmInfo} {n : Nat}

/-- No level below the limit has been seen as long as no node is kept. -/
theorem selectMinLayer_isSome {s : Sched} {numas : List Nat} (hn : n ∈ numas)
    (hlevel : s.overProvision n < maxOverProvision) : (s.selectMinLayer numas).isSome := by
  have hleast := (s.selectMinLayer_spec numas).least n hn
  have hnone := foldlRecOn numas
    (motive := fun best : Option Nat × Nat => best.1 = none → best.2 = maxOverProvision)
    (fun (best : Option Nat × Nat) numaId =>
      if s.overProvision numaId < best.2 then (some numaId, s.overProvision numaId) else best)
    (b := (none, maxOverProvision)) (fun _ => rfl) (by
      intro best ih numaId _
      split
      · exact fun h => nomatch h
      · exact ih)
  rw [Option.isSome_iff_ne_none]
  intro hsel
  rw [hnone hsel] at hleast
  omega

/-- A state in which `n` is the only node that is not raised to the limit. -/
def onlyRaises (m : Machine) (n : Nat) : Sched :=
  { init m true with overProvision := fun n' => if n' = n then 1 else maxOverProvision }

/-- There it is chosen for a VM that no node has room for. -/
theorem selectVmNuma_onlyRaises (hn : n ∈ availableNumas m vm) (hvcpu : 0 < vm.vcpuMap.length) :
    ((onlyRaises m n).selectVmNuma m (fun _ _ => 65535) vm).map (·.1) = some n := by
  have hsearch := foldl_selectLayer_none m (onlyRaises m n) (fun _ _ => 65535) vm
    ((availableNumas m vm).flatMap fun n' =>
      (range ((onlyRaises m n).overProvision n')).map fun l => (n', l)) (by
    intro c _ hroom
    have hlt : (onlyRaises m n).getNumaCpuCount m c.1 < 65536 := Nat.mod_lt _ (by decide)
    have hfull : 65535 + vm.vcpuMap.length ≤ (onlyRaises m n).getNumaCpuCount m c.1 := hroom
    omega)
  have hlevel : (onlyRaises m n).overProvision n < maxOverProvision := by
    simp [onlyRaises, maxOverProvision]
  obtain ⟨n', hmin⟩ := Option.isSome_iff_exists.mp (selectMinLayer_isSome hn hlevel)
  have heq : n' = n := by
    refine selectMinLayer_eq hn ?_ hmin
    intro n'' _ hne
    exact .inr (by simp [onlyRaises, hne])
  have hne : ¬ (availableNumas m vm).isEmpty = true := by
    rw [List.isEmpty_iff]
    exact ne_nil_of_mem hn
  unfold selectVmNuma
  dsimp only
  rw [if_neg hne, hsearch, hmin, heq]
  rfl

end

/-- The node chosen for a VM, in whatever state and usage, is in the NUMA set of each of its vCPUs,
exactly when starting over gives nothing away: at each vCPU at which nothing is left, the nodes that
it and all later ones may run on are nodes that the earlier ones may run on. -/
theorem selectVmNuma_in_every_numaSet_iff (m : Machine) (vm : VmInfo) :
    (∀ (s : Sched) (used : NumaUsedCpuMap) (n : Nat),
        (s.selectVmNuma m used vm).map (·.1) = some n → ∀ v ∈ vm.vcpuMap, n ∈ v.numaSet) ↔
      ∀ before v after, vm.vcpuMap = before ++ v :: after →
        availableNumas m { vm with vcpuMap := before } = [] →
        ∀ n, (∀ w ∈ v :: after, n ∈ w.numaSet) → ∀ w ∈ before, n ∈ w.numaSet := by
  constructor
  · intro h before v after heq hnil n hn w hw
    have hleft : n ∈ availableNumas m vm :=
      mem_availableNumas.mpr (.inr ⟨before, v, after, ⟨heq, hnil⟩, hn⟩)
    have hvcpu : 0 < vm.vcpuMap.length := by
      rw [heq, length_append, length_cons]
      omega
    exact h _ _ n (selectVmNuma_onlyRaises hleft hvcpu) w (heq ▸ mem_append_left _ hw)
  · intro h s used n hsel v hv
    rcases mem_availableNumas.mp (selectVmNuma_mem hsel) with
      ⟨-, hall⟩ | ⟨before, w, after, ⟨heq, hnil⟩, hlater⟩
    · exact hall v hv
    · rw [heq] at hv
      rcases mem_append.mp hv with hv | hv
      · exact h before w after heq hnil n hlater v hv
      · exact hlater v hv

/-- A VM whose first vCPU may run on node 0 only, and whose other two on node 1 only. -/
def splitVm : VmInfo where
  uuid := "a"
  name := "a"
  vcpuMap := [⟨0, 1, [0], List.replicate 8 true⟩, ⟨1, 2, [1], List.replicate 8 true⟩,
    ⟨2, 3, [1], List.replicate 8 true⟩]

/-- At the third vCPU nothing is left, and its own node is chosen. -/
theorem splitVm_sent_to_foreign_node : ¬ ∀ n, ((init twoNodes false).selectVmNuma twoNodes
        ((init twoNodes false).getNumaUsedCpuMap twoNodes) splitVm).map (·.1) = some n →
      ∀ v ∈ splitVm.vcpuMap, n ∈ v.numaSet := by
  intro h
  have hsel : ((init twoNodes false).selectVmNuma twoNodes
      ((init twoNodes false).getNumaUsedCpuMap twoNodes) splitVm).map (·.1) = some 1 := by
    decide +kernel
  exact absurd (h 1 hsel _ mem_cons_self) (by decide)

/-! ### The search through the layers -/

/-- What the search keeps: the node and the layer, and the CPUs in use there, which are −1 before
anything has been found and else a 16-bit integer with a sign. `cluster_sched.cpp:424-426`. -/
structure NumaSearch where
  selectNumaId : Nat
  selectLayerId : Nat
  selectNumaUsedCpuCount : Int
  deriving DecidableEq

def toInt16 (n : Nat) : Int := if n < 32768 then n else (n : Int) - 65536

section

variable (m : Machine) (s : Sched) (vm : VmInfo) (used : NumaUsedCpuMap)

/-- The body of the search. `cluster_sched.cpp:428-439`. -/
def visitLayer (found : NumaSearch) (candidate : Nat × Nat) : NumaSearch :=
  let (numaId, layerId) := candidate
  if found.selectNumaUsedCpuCount < used layerId numaId ∧ layerId ≤ found.selectLayerId ∧
      used layerId numaId + vm.vcpuMap.length ≤ s.getNumaCpuCount m numaId then
    ⟨numaId, layerId, toInt16 (used layerId numaId)⟩
  else found

def layersOf (numas : List Nat) : List (Nat × Nat) :=
  numas.flatMap fun numaId => (List.range (s.overProvision numaId)).map fun layerId =>
    (numaId, layerId)

/-- `SelectVmNuma` with the counts it has. The node starts as the one the caller passes in, which
is 0. `cluster_sched.cpp:403-452`. -/
def selectVmNumaInt16 : Option Nat :=
  let available := availableNumas m vm
  if available.isEmpty then none
  else
    let found := (s.layersOf available).foldl (s.visitLayer m vm used) ⟨0, maxOverProvision, -1⟩
    if found.selectNumaUsedCpuCount ≠ -1 then some found.selectNumaId
    else s.selectMinLayer available

def Offers (numaId layerId : Nat) : Prop :=
  numaId ∈ availableNumas m vm ∧ layerId < s.overProvision numaId ∧
    s.HasRoom m used vm numaId layerId

/-- The layer is as low as any with room, and as used as any so low. -/
structure Fullest (numaId layerId : Nat) : Prop where
  offers : s.Offers m vm used numaId layerId
  lowest : ∀ n l, s.Offers m vm used n l → layerId ≤ l
  most : ∀ n, s.Offers m vm used n layerId → used layerId n ≤ used layerId numaId

end

section

variable {m : Machine} {s : Sched} {vm : VmInfo} {used : NumaUsedCpuMap}

/-- What the search has found is what `selectLayer` has selected. -/
def Agrees (found : NumaSearch) : Option (Nat × Nat × Nat) → Prop
  | none => found.selectLayerId = maxOverProvision ∧ found.selectNumaUsedCpuCount = -1
  | some (n, l, u) => found = ⟨n, l, u⟩

/-- A layer with room on a node of fewer than 2^15 CPUs has a count that keeps its sign. -/
theorem Agrees.visitLayer {found : NumaSearch} {selected : Option (Nat × Nat × Nat)}
    (h : Agrees found selected) {candidate : Nat × Nat}
    (hcpus : s.getNumaCpuCount m candidate.1 < 32768) :
    Agrees (s.visitLayer m vm used found candidate) (s.selectLayer m vm used selected candidate) := by
  obtain ⟨n, l⟩ := candidate
  have hsign : s.HasRoom m used vm n l → toInt16 (used l n) = used l n := by
    intro hroom
    have hlt : used l n < 32768 := by
      unfold HasRoom at hroom
      dsimp only at hcpus
      omega
    exact if_pos hlt
  cases selected with
  | none =>
    obtain ⟨hl, hu⟩ := h
    have hnew : found.selectNumaUsedCpuCount < used l n := by omega
    by_cases hsel : l ≤ maxOverProvision ∧ s.HasRoom m used vm n l
    · have hfound : s.visitLayer m vm used found (n, l) = ⟨n, l, toInt16 (used l n)⟩ :=
        if_pos ⟨hnew, hl ▸ hsel.1, hsel.2⟩
      have hselected : s.selectLayer m vm used none (n, l) = some (n, l, used l n) :=
        if_pos ⟨decide_eq_true hsel.1, hsel.2⟩
      rw [hfound, hselected, hsign hsel.2]
      rfl
    · have hfound : s.visitLayer m vm used found (n, l) = found :=
        if_neg fun h => hsel ⟨hl ▸ h.2.1, h.2.2⟩
      have hselected : s.selectLayer m vm used none (n, l) = none :=
        if_neg fun h => hsel ⟨of_decide_eq_true h.1, h.2⟩
      rw [hfound, hselected]
      exact ⟨hl, hu⟩
  | some x =>
    obtain ⟨n', l', u⟩ := x
    obtain rfl : found = ⟨n', l', u⟩ := h
    by_cases hsel : (u < used l n ∧ l ≤ l') ∧ s.HasRoom m used vm n l
    · have hfound : s.visitLayer m vm used ⟨n', l', u⟩ (n, l) = ⟨n, l, toInt16 (used l n)⟩ :=
        if_pos ⟨Int.ofNat_lt.mpr hsel.1.1, hsel.1.2, hsel.2⟩
      have hselected : s.selectLayer m vm used (some (n', l', u)) (n, l) = some (n, l, used l n) :=
        if_pos ⟨decide_eq_true hsel.1, hsel.2⟩
      rw [hfound, hselected, hsign hsel.2]
      rfl
    · have hfound : s.visitLayer m vm used ⟨n', l', u⟩ (n, l) = ⟨n', l', u⟩ :=
        if_neg fun h => hsel ⟨⟨Int.ofNat_lt.mp h.1, h.2.1⟩, h.2.2⟩
      have hselected : s.selectLayer m vm used (some (n', l', u)) (n, l) = some (n', l', u) :=
        if_neg fun h => hsel ⟨of_decide_eq_true h.1, h.2⟩
      rw [hfound, hselected]
      rfl

variable (m s vm used) in
theorem Agrees.foldl (candidates : List (Nat × Nat)) : ∀ found selected, Agrees found selected →
      (∀ c ∈ candidates, s.getNumaCpuCount m c.1 < 32768) →
      Agrees (candidates.foldl (s.visitLayer m vm used) found)
        (candidates.foldl (s.selectLayer m vm used) selected) := by
  induction candidates with
  | nil => exact fun _ _ h _ => h
  | cons c candidates ih =>
    intro found selected h hcpus
    exact ih _ _ (h.visitLayer (hcpus c mem_cons_self))
      fun c' hc' => hcpus c' (mem_cons_of_mem _ hc')

/-- The node `selectVmNuma` gives. -/
theorem selectVmNuma_node (m : Machine) (s : Sched) (vm : VmInfo) (used : NumaUsedCpuMap) :
    (s.selectVmNuma m used vm).map (·.1) =
      if (availableNumas m vm).isEmpty then none
      else match (s.layersOf (availableNumas m vm)).foldl (s.selectLayer m vm used) none with
        | some (n, _, _) => some n
        | none => s.selectMinLayer (availableNumas m vm) := by
  unfold selectVmNuma layersOf
  dsimp only
  split
  · rfl
  generalize foldl _ _ _ = selected
  cases selected with
  | none =>
    rw [Option.map_map]
    exact Option.map_id'
  | some x => rfl

/-- On nodes of fewer than 2^15 CPUs the search is that of the model. -/
theorem selectVmNumaInt16_eq (hcpus : ∀ n ∈ availableNumas m vm, s.getNumaCpuCount m n < 32768) :
    s.selectVmNumaInt16 m vm used = (s.selectVmNuma m used vm).map (·.1) := by
  have hagree := Agrees.foldl m s vm used (s.layersOf (availableNumas m vm))
    ⟨0, maxOverProvision, -1⟩ none ⟨rfl, rfl⟩
    fun c hc => hcpus c.1 (mem_candidates.mp hc).1
  rw [selectVmNuma_node]
  unfold selectVmNumaInt16
  dsimp only
  split
  · rfl
  cases heq : (s.layersOf (availableNumas m vm)).foldl (s.selectLayer m vm used) none with
  | none =>
    rw [heq] at hagree
    exact if_neg (not_not_intro hagree.2)
  | some x =>
    obtain ⟨n, l, u⟩ := x
    rw [heq] at hagree
    have hfound : _ = NumaSearch.mk n l u := hagree
    rw [hfound]
    exact if_pos (by dsimp only; omega)

/-- What is selected has room, and every layer with room that is more used is higher. -/
structure Undominated (m : Machine) (s : Sched) (vm : VmInfo) (used : NumaUsedCpuMap)
    (seen : List (Nat × Nat)) (selected : Option (Nat × Nat × Nat)) : Prop where
  room : ∀ n l u, selected = some (n, l, u) → u = used l n ∧ s.HasRoom m used vm n l
  above : ∀ n l u, selected = some (n, l, u) → ∀ c ∈ seen, s.HasRoom m used vm c.1 c.2 →
    u < used c.2 c.1 → l < c.2
  missing : selected = none → ∀ c ∈ seen, ¬ s.HasRoom m used vm c.1 c.2

/-- One candidate of the layer selection loop. -/
theorem Undominated.selectLayer {seen : List (Nat × Nat)} {selected : Option (Nat × Nat × Nat)}
    (h : Undominated m s vm used seen selected) {c : Nat × Nat} (hc : c.2 ≤ maxOverProvision) :
    Undominated m s vm used (seen ++ [c]) (s.selectLayer m vm used selected c) := by
  obtain ⟨n, l⟩ := c
  rcases @selectLayer_cases m s used vm selected n l with ⟨heq, hroom, hbeat⟩ | ⟨heq, hnot⟩
  · rw [heq]
    refine ⟨?_, ?_, nofun⟩
    · rintro _ _ _ ⟨⟩
      exact ⟨rfl, hroom⟩
    · rintro _ _ _ ⟨⟩ c hc hcroom hless
      rcases mem_append.mp hc with hc | hc
      · cases selected with
        | none => exact absurd hcroom (h.missing rfl c hc)
        | some x =>
          -- it beats what was selected, which was already below `c`
          obtain ⟨hlt, hle⟩ := hbeat _ _ _ rfl
          have hbelow := h.above _ _ _ rfl c hc hcroom (hlt.trans hless)
          exact hle.trans_lt hbelow
      · cases mem_singleton.mp hc
        exact absurd hless (lt_irrefl _)
  · rw [heq]
    refine ⟨h.room, ?_, ?_⟩
    · intro n' l' u hsel c' hc' hroom hless
      rcases mem_append.mp hc' with hc' | hc'
      · exact h.above n' l' u hsel c' hc' hroom hless
      · cases mem_singleton.mp hc'
        obtain ⟨_, _, _, hsel', hnot⟩ := hnot hroom hc
        rw [hsel] at hsel'
        cases hsel'
        dsimp only at hless ⊢
        omega
    · intro hsel c' hc' hroom
      rcases mem_append.mp hc' with hc' | hc'
      · exact h.missing hsel c' hc' hroom
      · cases mem_singleton.mp hc'
        obtain ⟨_, _, _, hsel', -⟩ := hnot hroom hc
        rw [hsel] at hsel'
        cases hsel'

variable (m s vm used) in
/-- The search through layers that are all below the limit. -/
theorem undominated_foldl (candidates : List (Nat × Nat))
    (hc : ∀ c ∈ candidates, c.2 ≤ maxOverProvision) :
    Undominated m s vm used candidates (candidates.foldl (s.selectLayer m vm used) none) := by
  induction candidates using reverseRecOn with
  | nil => exact ⟨nofun, nofun, fun _ c hc => nomatch hc⟩
  | append_singleton candidates c ih =>
    rw [foldl_append, foldl_cons, foldl_nil]
    exact (ih fun c' hc' => hc c' (mem_append_left _ hc')).selectLayer
      (hc c (mem_append_right _ mem_cons_self))

end

/-- With the levels in their range and fewer than 2^15 CPUs on each node, a VM that some layer has
room for gets a node that has room in a layer such that every layer with room that is more used is
higher. Where no layer above the lowest one with room is as used as the fullest of these, that is
the fullest of these. -/
theorem selectVmNuma_undominated (m : Machine) (s : Sched) (vm : VmInfo) (used : NumaUsedCpuMap)
    (hlevel : ∀ n ∈ availableNumas m vm, s.overProvision n ≤ maxOverProvision)
    (hcpus : ∀ n ∈ availableNumas m vm, s.getNumaCpuCount m n < 32768)
    (hroom : ∃ n l, s.Offers m vm used n l) :
    ∃ n l, s.selectVmNumaInt16 m vm used = some n ∧ s.Offers m vm used n l ∧
      (∀ n' l', s.Offers m vm used n' l' → used l n < used l' n' → l < l') ∧
      ∀ n₀ l₀, s.Fullest m vm used n₀ l₀ →
        (∀ n' l', s.Offers m vm used n' l' → l₀ < l' → used l' n' < used l₀ n₀) →
        s.Fullest m vm used n l := by
  have hmem : ∀ {n l}, s.Offers m vm used n l → (n, l) ∈ s.layersOf (availableNumas m vm) :=
    fun h => mem_candidates.mpr ⟨h.1, h.2.1⟩
  have hsearch := undominated_foldl m s vm used (s.layersOf (availableNumas m vm)) (by
    intro c hc
    obtain ⟨hn, hl⟩ := mem_candidates.mp hc
    exact hl.le.trans (hlevel c.1 hn))
  -- something is found
  obtain ⟨⟨n, l, u⟩, heq⟩ : ∃ x,
      (s.layersOf (availableNumas m vm)).foldl (s.selectLayer m vm used) none = some x := by
    rw [← Option.ne_none_iff_exists']
    intro hnone
    obtain ⟨n, l, hoffer⟩ := hroom
    exact hsearch.missing hnone (n, l) (hmem hoffer) hoffer.2.2
  obtain ⟨rfl, hfits⟩ := hsearch.room n l u heq
  have hoffers : s.Offers m vm used n l := by
    rcases foldl_selectLayer_mem _ none heq with h | h
    · cases h
    · obtain ⟨hn, hl⟩ := mem_candidates.mp h
      exact ⟨hn, hl, hfits⟩
  have habove : ∀ n' l', s.Offers m vm used n' l' → used l n < used l' n' → l < l' :=
    fun n' l' h hless => hsearch.above n l _ heq (n', l') (hmem h) h.2.2 hless
  refine ⟨n, l, ?_, hoffers, habove, ?_⟩
  · have hne : ¬ (availableNumas m vm).isEmpty = true := by
      rw [List.isEmpty_iff]
      exact ne_nil_of_mem hoffers.1
    rw [selectVmNumaInt16_eq hcpus, selectVmNuma_node, if_neg hne, heq]
  · intro n₀ l₀ hfull hless
    have hle := hfull.lowest n l hoffers
    have hused : used l₀ n₀ ≤ used l n := by
      by_contra hlt
      have := habove n₀ l₀ hfull.offers (by omega)
      omega
    have hl : l = l₀ := by
      by_contra hne
      have := hless n l hoffers (by omega)
      omega
    subst hl
    exact ⟨hoffers, hfull.lowest, fun n' h => (hfull.most n' h).trans hused⟩

/-- Two VMs fill the two nodes and a third one raises node 0. Then the VM on node 1 stops. -/
def raisedRun : List SchedOp :=
  [.addDomainInfo (wideVm "a" [1, 2, 3, 4]) fun _ _ => .ok,
    .addDomainInfo (wideVm "b" [5, 6, 7, 8]) fun _ _ => .ok,
    .addDomainInfo (wideVm "c" [9, 10]) fun _ _ => .ok,
    .delDomainInfo "b" [⟨"b", 1⟩] (fun _ => true) fun _ _ => .ok]

def raisedRunEnd : Sched :=
  exec (step twoNodes) (init twoNodes true)
    (steps twoNodes (init twoNodes true) raisedRun)

def raisedUsed : NumaUsedCpuMap := raisedRunEnd.getNumaUsedCpuMap twoNodes

def lateVm : VmInfo := wideVm "d" [11]

theorem raisedRun_undominated :
    ∃ n l, raisedRunEnd.selectVmNumaInt16 twoNodes lateVm raisedUsed = some n ∧
      raisedRunEnd.Offers twoNodes lateVm raisedUsed n l ∧
      (∀ n' l', raisedRunEnd.Offers twoNodes lateVm raisedUsed n' l' →
        raisedUsed l n < raisedUsed l' n' → l < l') ∧
      ∀ n₀ l₀, raisedRunEnd.Fullest twoNodes lateVm raisedUsed n₀ l₀ →
        (∀ n' l', raisedRunEnd.Offers twoNodes lateVm raisedUsed n' l' → l₀ < l' →
          raisedUsed l' n' < raisedUsed l₀ n₀) →
        raisedRunEnd.Fullest twoNodes lateVm raisedUsed n l :=
  selectVmNuma_undominated twoNodes raisedRunEnd lateVm raisedUsed (by decide +kernel)
    (by decide +kernel) ⟨1, 0, by unfold Offers; decide +kernel⟩

/-- Two nodes of 40000 CPUs, … -/
def hugeNodes : Sched :=
  { init twoNodes false with
    layers := fun c =>
      ((init twoNodes false).layers c).map fun l => { l with total := 40000 } }

/-- … of which 33000 are in use on node 0 and 100 on node 1. -/
def hugeUsed : NumaUsedCpuMap := fun _ n => if n = 0 then 33000 else 100

/-- The late VM goes to layer 1 of node 0, which has two CPUs in use, although layer 0 of node 1 is
free. Of the huge nodes it gets the one that is less used, in the same layer: 33000 does not fit
into the signed count. -/
theorem lower_layer_passed_by :
    (¬ ∃ n l, raisedRunEnd.selectVmNumaInt16 twoNodes lateVm raisedUsed = some n ∧
      raisedRunEnd.Fullest twoNodes lateVm raisedUsed n l) ∧
    ¬ ∃ n l, hugeNodes.selectVmNumaInt16 twoNodes lateVm hugeUsed = some n ∧
      hugeNodes.Offers twoNodes lateVm hugeUsed n l ∧
      ∀ n' l', hugeNodes.Offers twoNodes lateVm hugeUsed n' l' →
        hugeUsed l n < hugeUsed l' n' → l < l' := by
  constructor
  · rintro ⟨n, l, hsel, hfull⟩
    have hchosen : raisedRunEnd.selectVmNumaInt16 twoNodes lateVm raisedUsed = some 0 := by
      decide +kernel
    cases hchosen.symm.trans hsel
    have hfree : raisedRunEnd.Offers twoNodes lateVm raisedUsed 1 0 := by
      unfold Offers
      decide +kernel
    cases Nat.le_zero.mp (hfull.lowest 1 0 hfree)
    have hfullLayer : ¬ raisedRunEnd.HasRoom twoNodes raisedUsed lateVm 0 0 := by decide +kernel
    exact hfullLayer hfull.offers.2.2
  · rintro ⟨n, l, hsel, hoffers, habove⟩
    have hchosen : hugeNodes.selectVmNumaInt16 twoNodes lateVm hugeUsed = some 1 := by
      decide +kernel
    cases hchosen.symm.trans hsel
    have hfuller : hugeNodes.Offers twoNodes lateVm hugeUsed 0 0 := by
      unfold Offers
      decide +kernel
    exact Nat.not_lt_zero _ (habove 0 0 hfuller (by change 100 < 33000; decide))

end UbsVirt.Vas.Sched
