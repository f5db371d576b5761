import Mathlib.Data.List.Perm.Subperm
import UbsVirt.Udm.AffinityChoice

/-!
# Which network devices a bind request is given

Every NPU of a request is given the first free network device of its affinity list, whatever the
other NPUs are given (`device_selector.py:108-134`). Whether a device is given twice is thus
decided by the inventory and the request: by the affinity lists of the NPUs that the request names
or, if it asks for a number of them, of those that have fewer than that number before them, in the
order of the policy or of the inventory.
-/

namespace UbsVirt.Udm

open List
open UbDeviceType (nicVfe)

section

variable (inventory : List UbDeviceInfo)

/-- An entry of an affinity list names a free network device. -/
structure NamesFreeNic (dev : AffinityDeviceInfo) (nic : UbDeviceInfo) : Prop where
  type : dev.deviceType = nicVfe.value
  entry : entryOf inventory (dev.deviceType, dev.deviceId) = some nic
  free : nic.isBound = false

/-- The first free network device that the affinity list of an NPU names. -/
def HasFirstNic (npu nic : UbDeviceInfo) : Prop :=
  ∃ before dev after, npu.affinityDevs = before ++ dev :: after ∧
    NamesFreeNic inventory dev nic ∧ ∀ dev' ∈ before, ∀ nic', ¬ NamesFreeNic inventory dev' nic'

/-- A free NPU, and if network devices are asked for, one whose affinity list names a free one. -/
structure Eligible (needNic : Bool) (npu : UbDeviceInfo) : Prop where
  entry : entryOf inventory npu.key = some npu
  type : npu.type = UbDeviceType.npu.value
  free : npu.isBound = false
  nic : needNic = true → ∃ nic, HasFirstNic inventory npu nic

def placeOf (npu : UbDeviceInfo) : Nat := inventory.findIdx (·.key = npu.key)

/-- A request for a number of NPUs may be given this one. -/
def MayTake (request : BindNpuDeviceRequest) (affinity : AffinityArgs) (npu : UbDeviceInfo) : Prop :=
  Eligible inventory (request.needNic.getD false) npu ∧
    match affinity.affinityPolicy, affinity.memoryNodes, affinity.topology with
    | some policy, some memoryNodes, some topology =>
      MayChoose (·.id) policy memoryNodes topology npu
    | _, _, _ => True

/-- The first NPU is taken before the second: by the policy, or by their places. -/
def TakenBefore (affinity : AffinityArgs) (npu npu' : UbDeviceInfo) : Prop :=
  match affinity.affinityPolicy, affinity.memoryNodes, affinity.topology with
  | some policy, some memoryNodes, some topology =>
    ComesFirst (·.id) policy memoryNodes topology npu npu'
  | _, _, _ => placeOf inventory npu < placeOf inventory npu'

/-- The request is given the NPU: it is named, or there are not as many as are asked for that
would be taken before it. -/
def IsGiven (request : BindNpuDeviceRequest) (affinity : AffinityArgs) (npu : UbDeviceInfo) : Prop :=
  match request.ids.getD [] with
  | [] => MayTake inventory request affinity npu ∧ ∀ others : List UbDeviceInfo, others.Nodup →
      (∀ other ∈ others, MayTake inventory request affinity other ∧
        TakenBefore inventory affinity other npu) → others.length < request.count.getD 0
  | ids => ∃ id ∈ ids, entryOf inventory (UbDeviceType.npu.value, id) = some npu

/-- If network devices are asked for, no two NPUs that are given have the same first free one. -/
def NicsApart (request : BindNpuDeviceRequest) (affinity : AffinityArgs) : Prop :=
  request.needNic.getD false = true → ∀ npu npu' nic, IsGiven inventory request affinity npu →
    IsGiven inventory request affinity npu' → HasFirstNic inventory npu nic →
    HasFirstNic inventory npu' nic → npu = npu'

end

/-! ### What is given is what is chosen -/

section

variable {inventory : List UbDeviceInfo} {request : BindNpuDeviceRequest}
  {affinity : AffinityArgs} {npu nic : UbDeviceInfo} {needNic : Bool}

theorem hasFirstNic_iff : HasFirstNic inventory npu nic ↔ firstFreeNic inventory npu = some nic := by
  have hnames : ∀ (dev : AffinityDeviceInfo) nic, NamesFreeNic inventory dev nic ↔
      (if dev.deviceType ≠ defaultNicType.value then none
        else ((inventoryIndex inventory).get? (dev.deviceType, dev.deviceId)).filter (!·.isBound)) =
          some nic := by
    intro dev nic
    rw [inventoryIndex_get?]
    split
    · next htype => exact iff_of_false (fun h => htype h.type) nofun
    · next htype =>
      rw [Option.filter_eq_some_iff, Bool.not_eq_true']
      exact ⟨fun h => ⟨h.entry, h.free⟩, fun h => ⟨not_not.mp htype, h.1, h.2⟩⟩
  unfold HasFirstNic firstFreeNic findAffinityDevice
  rw [findSome?_eq_some_iff]
  simp only [hnames, Option.eq_none_iff_forall_ne_some, ne_eq]

theorem mem_candidates : npu ∈ getFreeNpuCandidates (inventoryIndex inventory) needNic ↔
    Eligible inventory needNic npu := by
  have hfree := freeNpus_candidates inventory needNic
  constructor
  · intro hmem
    refine ⟨hfree.entry npu hmem, hfree.type npu hmem, hfree.free npu hmem, ?_⟩
    intro hneed
    obtain ⟨nic, hnic⟩ := Option.isSome_iff_exists.mp
      ((of_decide_eq_true (mem_filter.mp hmem).2).2.2 hneed)
    exact ⟨nic, hasFirstNic_iff.mpr hnic⟩
  · intro h
    refine mem_filter.mpr ⟨Dict.mem_values.mpr ⟨npu.key, ?_⟩, decide_eq_true ⟨h.type, ?_, ?_⟩⟩
    · rw [inventoryIndex_get?, h.entry]
    · rw [h.free]
      exact Bool.false_ne_true
    · intro hneed
      obtain ⟨nic, hnic⟩ := h.nic hneed
      exact Option.isSome_iff_exists.mpr ⟨nic, hasFirstNic_iff.mp hnic⟩

/-- Without a policy the candidates come in the order of the inventory. -/
theorem pairwise_candidates : (getFreeNpuCandidates (inventoryIndex inventory) needNic).Pairwise
    fun npu npu' => placeOf inventory npu < placeOf inventory npu' := by
  have hkeys : (inventoryIndex inventory).keys.Pairwise fun key key' =>
      inventory.findIdx (·.key = key) < inventory.findIdx (·.key = key') := by
    have h := Dict.pairwise_keys_ofList (inventory.map fun info => (info.key, info))
    simp only [findIdx_map] at h
    exact h
  rw [← map_key_index] at hkeys
  exact (pairwise_map.mp hkeys).sublist filter_sublist

/-- In a list that is in order, the first `n` are those with fewer than `n` before them. -/
theorem mem_take_iff_fewer {δ : Type*} {P : δ → Prop} {before : δ → δ → Prop} {l : List δ} {n : Nat}
    {a : δ} (hmem : ∀ b, b ∈ l ↔ P b) (hordered : l.Pairwise before)
    (hasymm : ∀ b c, P b → P c → before b c → ¬ before c b) :
    a ∈ l.take n ↔ P a ∧ ∀ others : List δ, others.Nodup →
      (∀ b ∈ others, P b ∧ before b a) → others.length < n := by
  have hP : ∀ b ∈ l, P b := fun b => (hmem b).mp
  constructor
  · intro ha
    have hPa := hP a (mem_of_mem_take ha)
    refine ⟨hPa, fun others hnodup hothers => ?_⟩
    obtain ⟨l₁, l₂, htake⟩ := append_of_mem ha
    have hsplit : l = l₁ ++ a :: (l₂ ++ l.drop n) := by
      rw [← cons_append, ← append_assoc, ← htake, take_append_drop]
    -- the others stand before `a`, as neither `a` nor what follows it comes before it
    have hsub : others ⊆ l₁ := by
      intro b hb
      obtain ⟨hPb, hba⟩ := hothers b hb
      have hbl := (hmem b).mpr hPb
      rw [hsplit] at hbl hordered
      rcases mem_append.mp hbl with hb₁ | hb₂
      · exact hb₁
      rcases mem_cons.mp hb₂ with rfl | hb₂
      · exact absurd hba (hasymm b b hPb hPb hba)
      · have hab := (pairwise_cons.mp (pairwise_append.mp hordered).2.1).1 b hb₂
        exact absurd hba (hasymm a b hPa hPb hab)
    have hlen := congrArg List.length htake
    rw [length_append, length_cons, length_take] at hlen
    have := (Nodup.subperm hnodup hsub).length_le
    omega
  · rintro ⟨hPa, hfew⟩
    obtain ⟨l₁, l₂, rfl⟩ := append_of_mem ((hmem a).mpr hPa)
    have hfirst := pairwise_append.mp hordered
    have hlt : l₁.length < n := by
      apply hfew
      · refine hfirst.1.imp_of_mem ?_
        rintro b _ hb - hlt rfl
        have hPb := hP b (mem_append_left _ hb)
        exact hasymm b b hPb hPb hlt hlt
      · intro b hb
        exact ⟨hP b (mem_append_left _ hb), hfirst.2.2 b hb a mem_cons_self⟩
    rw [take_append]
    obtain ⟨m, hm⟩ := Nat.exists_eq_add_of_lt hlt
    rw [hm, show l₁.length + m + 1 - l₁.length = m + 1 by omega, take_succ_cons]
    exact mem_append_right _ mem_cons_self

theorem comesFirst_asymm {policy : NpuAffinityPolicy} {memoryNodes : List Int}
    {topology : HostTopology} {a b : UbDeviceInfo}
    (ha : MayChoose (·.id) policy memoryNodes topology a)
    (hb : MayChoose (·.id) policy memoryNodes topology b)
    (h : ComesFirst (·.id) policy memoryNodes topology a b) :
    ¬ ComesFirst (·.id) policy memoryNodes topology b a := by
  rw [comesFirst_iff ha hb] at h
  rw [comesFirst_iff hb ha]
  rintro (hlt | ⟨heq, hlt⟩)
  · rcases h with hlt' | ⟨heq', -⟩ <;> omega
  · rcases h with hlt' | ⟨-, hlt'⟩
    · omega
    · exact lt_asymm hlt hlt'

/-- The chosen NPUs, told by the inventory alone. -/
theorem mem_chosenNpus : npu ∈ chosenNpus inventory request affinity ↔
    IsGiven inventory request affinity npu := by
  have hfree := freeNpus_candidates inventory (request.needNic.getD false)
  have hplain : npu ∈ (getFreeNpuCandidates (inventoryIndex inventory)
      (request.needNic.getD false)).take (request.count.getD 0) ↔ _ :=
    mem_take_iff_fewer (P := fun npu => Eligible inventory (request.needNic.getD false) npu ∧ True)
      (fun npu => mem_candidates.trans (and_true _).to_iff.symm) pairwise_candidates
      fun _ _ _ _ => Nat.lt_asymm
  unfold chosenNpus IsGiven
  cases request.ids.getD [] with
  | cons id ids => exact mem_filterMap
  | nil =>
    obtain ⟨_ | policy, _ | memoryNodes, _ | topology⟩ := affinity
    case some.some.some =>
      -- NPUs are told apart by their ids
      have hids : ((getFreeNpuCandidates (inventoryIndex inventory)
          (request.needNic.getD false)).map (·.id)).Nodup := by
        refine (Nodup.of_map _ hfree.distinct).map_on fun npu hnpu npu' hnpu' hid => ?_
        apply inj_on_of_nodup_map hfree.distinct hnpu hnpu'
        exact Prod.ext ((hfree.type npu hnpu).trans (hfree.type npu' hnpu').symm) hid
      exact mem_take_iff_fewer (fun npu => mem_ranked.trans (and_congr_left' mem_candidates))
        (pairwise_ranked hids) fun npu npu' hnpu hnpu' => comesFirst_asymm hnpu.2 hnpu'.2
    all_goals exact hplain

theorem nicsApart_of_nodup
    (h : ((chosenNpus inventory request affinity).map (firstFreeNic inventory)).Nodup) :
    NicsApart inventory request affinity := by
  intro _ npu npu' nic hnpu hnpu' hnic hnic'
  refine inj_on_of_nodup_map h (mem_chosenNpus.mpr hnpu) (mem_chosenNpus.mpr hnpu') ?_
  rw [hasFirstNic_iff.mp hnic, hasFirstNic_iff.mp hnic']

/-- Different NPUs have different network devices if no two of those given have the same first
free one. -/
theorem NicsApart.nodup {nics : List UbDeviceInfo} {devices : List UbDevice}
    (h : NicsApart inventory request affinity)
    (hchoice : Choice inventory request (chosenNpus inventory request affinity) nics devices)
    (hneed : request.needNic.getD false = true) :
    ((chosenNpus inventory request affinity).map (firstFreeNic inventory)).Nodup := by
  refine (Nodup.of_map _ hchoice.free.distinct).map_on fun npu hnpu npu' hnpu' heq => ?_
  have hmem := mem_map_of_mem (f := firstFreeNic inventory) hnpu
  rw [hchoice.nics_eq hneed] at hmem
  obtain ⟨nic, -, hnic⟩ := mem_map.mp hmem
  exact h hneed npu npu' nic (mem_chosenNpus.mp hnpu) (mem_chosenNpus.mp hnpu')
    (hasFirstNic_iff.mpr hnic.symm) (hasFirstNic_iff.mpr (heq.symm.trans hnic.symm))

end

/-- For every valid request for which the selector returns a list of devices: the list is as the
request wants it exactly if, where network devices are asked for, no two of the NPUs that the
request is given have the same first free one. -/
theorem resolved_iff (inventory : List UbDeviceInfo) (request : BindNpuDeviceRequest)
    (affinity : AffinityArgs) (devices : List UbDevice) (hvalid : validateRequest request = .ok ())
    (h : resolveRequest inventory request affinity = .ok devices) :
    Resolved inventory request devices ↔ NicsApart inventory request affinity := by
  obtain ⟨nics, hchoice⟩ := resolveRequest_ok (validateRequest_ok hvalid) h
  constructor
  · intro hresolved hneed
    exact nicsApart_of_nodup (hchoice.distinct_iff.mp hresolved.distinct hneed) hneed
  · intro happart
    refine ⟨hchoice.distinct_iff.mpr (happart.nodup hchoice), hchoice.unbound, ?_, hchoice.paired⟩
    rw [hchoice.filter_type.1, length_map, hchoice.length]

/-! ### Two hosts -/

def freeNpu (id : String) (nics : List String) : UbDeviceInfo where
  id := id
  type := UbDeviceType.npu.value
  guid := "guid-" ++ id
  busGuid := none
  affinityDevs := nics.map fun nic => ⟨nic, nicVfe.value⟩

def freeNic (id : String) : UbDeviceInfo where
  id := id
  type := nicVfe.value
  guid := "guid-" ++ id
  busGuid := none
  affinityDevs := []

def twoNpus : BindNpuDeviceRequest where
  upi := "0x000f"
  ids := none
  count := some 2
  needNic := some true

def apartHost : List UbDeviceInfo :=
  [freeNpu "0-1" ["1-1"], freeNpu "0-2" ["1-2"], freeNic "1-1", freeNic "1-2"]

theorem apartHost_resolved :
    Resolved apartHost twoNpus [⟨"NPU", "0-1", some "guid-0-1"⟩, ⟨"NPU", "0-2", some "guid-0-2"⟩,
      ⟨"NIC_VFE", "1-1", some "guid-1-1"⟩, ⟨"NIC_VFE", "1-2", some "guid-1-2"⟩] :=
  (resolved_iff apartHost twoNpus .none _ (by decide +kernel) (by decide +kernel)).mpr
    (nicsApart_of_nodup (by decide +kernel))

/-- Two NPUs that both have the same two network devices in their affinity lists. -/
def sharedHost : List UbDeviceInfo :=
  [freeNpu "0-1" ["1-1", "1-2"], freeNpu "0-2" ["1-1", "1-2"], freeNic "1-1", freeNic "1-2"]

/-- The first one is chosen twice, and the second one, which is free as well, not at all. -/
theorem sharedHost_repeats_nic :
    ¬ ∀ (inventory : List UbDeviceInfo) (request : BindNpuDeviceRequest)
      (affinity : AffinityArgs) (devices : List UbDevice), validateRequest request = .ok () →
      resolveRequest inventory request affinity = .ok devices →
      Resolved inventory request devices := by
  intro hall
  have hresolved := hall sharedHost twoNpus .none
    [⟨"NPU", "0-1", some "guid-0-1"⟩, ⟨"NPU", "0-2", some "guid-0-2"⟩,
      ⟨"NIC_VFE", "1-1", some "guid-1-1"⟩, ⟨"NIC_VFE", "1-1", some "guid-1-1"⟩]
    (by decide +kernel) (by decide +kernel)
  exact absurd hresolved.distinct (by decide +kernel)

end UbsVirt.Udm
