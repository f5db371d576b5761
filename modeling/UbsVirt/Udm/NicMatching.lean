import UbsVirt.Lib.Matching
import UbsVirt.Udm.NicChoice

/-!
# When NPUs and network devices can be matched

A request for a number of NPUs with network devices succeeds as soon as that many free NPUs have
some free network device in their affinity lists (`device_selector.py:84-106`); the network device
of an NPU is then the first free one, whatever the others were given (`:108-134`). What such a
request is for needs more: the NPUs have to be matched to different network devices. This is so
exactly when no set of candidates lacks more network devices than there are candidates to spare.
-/

namespace UbsVirt.Udm

open Matching List

variable {inventory : List UbDeviceInfo} {count : Nat} {npu nic : UbDeviceInfo}
  {npus nics : List UbDeviceInfo}

def affinityNics (inventory : List UbDeviceInfo) (npu : UbDeviceInfo) : List UbDeviceInfo :=
  npu.affinityDevs.filterMap fun affinityDev =>
    if affinityDev.deviceType ≠ defaultNicType.value then none
    else (entryOf inventory (affinityDev.deviceType, affinityDev.deviceId)).filter (!·.isBound)

def nicCandidates (inventory : List UbDeviceInfo) : List UbDeviceInfo :=
  getFreeNpuCandidates (inventoryIndex inventory) true

/-- Free NPUs matched to different free network devices of their affinity lists. -/
structure NicMatching (inventory npus nics : List UbDeviceInfo) : Prop where
  freeNpus : FreeNpus inventory npus
  entry : ∀ nic ∈ nics, entryOf inventory nic.key = some nic
  type : ∀ nic ∈ nics, nic.type = UbDeviceType.nicVfe.value
  free : ∀ nic ∈ nics, nic.isBound = false
  distinct : (nics.map (·.key)).Nodup
  paired : List.Forall₂ (fun npu nic => ⟨nic.id, nic.type⟩ ∈ npu.affinityDevs) npus nics

/-- No set of candidates lacks more network devices than there are candidates to spare. -/
def NicsSuffice (inventory : List UbDeviceInfo) (count : Nat) : Prop :=
  ∀ S ⊆ (nicCandidates inventory).toFinset,
    S.card + count ≤ (nicCandidates inventory).toFinset.card +
      (S.biUnion fun npu => (affinityNics inventory npu).toFinset).card

instance : Decidable (NicsSuffice inventory count) :=
  decidable_of_iff (∀ S ∈ (nicCandidates inventory).toFinset.powerset,
    S.card + count ≤ (nicCandidates inventory).toFinset.card +
      (S.biUnion fun npu => (affinityNics inventory npu).toFinset).card)
    (forall_congr' fun _ => by rw [Finset.mem_powerset])

/-! ### The candidates -/

theorem mem_affinityNics : nic ∈ affinityNics inventory npu ↔
    entryOf inventory nic.key = some nic ∧ nic.type = UbDeviceType.nicVfe.value ∧
      nic.isBound = false ∧ ⟨nic.id, nic.type⟩ ∈ npu.affinityDevs := by
  unfold affinityNics
  rw [mem_filterMap]
  constructor
  · rintro ⟨affinityDev, hmem, hfound⟩
    split at hfound
    · cases hfound
    next htype =>
    obtain ⟨hentry, hfree⟩ := Option.filter_eq_some_iff.mp hfound
    have hkey := entryOf_key hentry
    obtain ⟨htype', hid⟩ := Prod.mk.inj hkey
    refine ⟨hkey ▸ hentry, htype'.trans (not_not.mp htype), by simpa using hfree, ?_⟩
    rwa [htype', hid]
  · rintro ⟨hentry, htype, hfree, hmem⟩
    refine ⟨_, hmem, ?_⟩
    have hnic : ¬ nic.type ≠ defaultNicType.value := not_not.mpr htype
    dsimp only
    rw [if_neg hnic]
    exact Option.filter_eq_some_iff.mpr ⟨hentry, by simpa using hfree⟩

theorem firstFreeNic_eq_head? : firstFreeNic inventory npu = (affinityNics inventory npu).head? := by
  unfold firstFreeNic findAffinityDevice affinityNics
  simp only [inventoryIndex_get?]
  exact head?_filterMap.symm

theorem nicCandidates_freeNpus (inventory : List UbDeviceInfo) :
    FreeNpus inventory (nicCandidates inventory) :=
  freeNpus_candidates inventory true

theorem nodup_nicCandidates (inventory : List UbDeviceInfo) : (nicCandidates inventory).Nodup :=
  List.Nodup.of_map _ (nicCandidates_freeNpus inventory).distinct

theorem card_nicCandidates (inventory : List UbDeviceInfo) :
    (nicCandidates inventory).toFinset.card = (nicCandidates inventory).length :=
  toFinset_card_of_nodup (nodup_nicCandidates inventory)

/-- A free NPU with a network device to choose is a candidate. -/
theorem mem_nicCandidates (hentry : entryOf inventory npu.key = some npu)
    (htype : npu.type = UbDeviceType.npu.value) (hfree : npu.isBound = false)
    (hnic : nic ∈ affinityNics inventory npu) : npu ∈ nicCandidates inventory := by
  refine mem_candidates.mpr ⟨hentry, htype, hfree, fun _ => ?_⟩
  rw [exists_congr fun nic => hasFirstNic_iff, ← Option.isSome_iff_exists, firstFreeNic_eq_head?,
    isSome_head?]
  exact ne_nil_of_mem hnic

/-! ### What the selector does -/

/-- The request succeeds as soon as there are enough candidates. -/
theorem resolveNpuDevices_ok_iff (memoryNodes : Option (List Int))
    (topology : Option HostTopology) :
    (∃ devices, resolveNpuDevices inventory none (some count) true
      ⟨none, memoryNodes, topology⟩ = .ok devices) ↔ count ≤ (nicCandidates inventory).length := by
  have hcall : resolveNpuDevices inventory none (some count) true ⟨none, memoryNodes, topology⟩ =
      (selectFreeNpus (some count) (inventoryIndex inventory) true >>= fun selected =>
        appendAffinityNics selected (inventoryIndex inventory)) := rfl
  rw [hcall]
  constructor
  · rintro ⟨devices, h⟩
    cases hselect : selectFreeNpus (some count) (inventoryIndex inventory) true with
    | error e =>
      rw [hselect] at h
      cases h
    | ok selected =>
      obtain ⟨n, hn, hlen, -⟩ := selectFreeNpus_ok hselect
      cases hn
      exact hlen
  · intro henough
    have hselect : selectFreeNpus (some count) (inventoryIndex inventory) true =
        .ok (((nicCandidates inventory).take count).map (·.toUbDevice)) :=
      if_neg (Nat.not_lt.mpr henough)
    have hnics : ∀ device ∈ ((nicCandidates inventory).take count).map (·.toUbDevice),
        ∃ nic, affinityNic (inventoryIndex inventory) device = .ok nic := by
      intro device hdevice
      obtain ⟨npu, hnpu, rfl⟩ := mem_map.mp hdevice
      have hmem := mem_of_mem_take hnpu
      have heligible := mem_candidates.mp hmem
      obtain ⟨nic, hnic⟩ := heligible.nic rfl
      refine ⟨nic.toUbDevice, ?_⟩
      unfold affinityNic
      rw [show npu.toUbDevice.key = npu.key from rfl, inventoryIndex_get?,
        heligible.entry]
      dsimp only
      rw [show findAffinityDevice npu (inventoryIndex inventory) defaultNicType = some nic from
        hasFirstNic_iff.mp hnic]
      rfl
    obtain ⟨nics, hnics⟩ := mapM_ok hnics
    refine ⟨((nicCandidates inventory).take count).map (·.toUbDevice) ++ nics, ?_⟩
    rw [hselect]
    change ((((nicCandidates inventory).take count).map (·.toUbDevice)).mapM
      (affinityNic (inventoryIndex inventory)) >>= _) = _
    rw [hnics]
    rfl

/-! ### Matchings as lists -/

/-- Different entries of the inventory have different keys. -/
theorem nodup_keys {ι : Type*} {is : List ι} (his : is.Nodup) {f : ι → UbDeviceInfo}
    (hinj : Function.Injective f) (hentry : ∀ i, entryOf inventory (f i).key = some (f i)) :
    ((is.map f).map (·.key)).Nodup := by
  rw [map_map]
  refine his.map fun i j hkey => hinj (Option.some.inj ?_)
  rw [← hentry i, ← hentry j]
  exact congrArg (entryOf inventory) hkey

theorem NicMatching.mem_affinityNics (h : NicMatching inventory npus nics) {i : Nat}
    (hi : i < npus.length) (hi' : i < nics.length) :
    nics.get ⟨i, hi'⟩ ∈ affinityNics inventory (npus.get ⟨i, hi⟩) := by
  have hnic := get_mem nics ⟨i, hi'⟩
  exact Udm.mem_affinityNics.mpr ⟨h.entry _ hnic, h.type _ hnic, h.free _ hnic,
    (forall₂_iff_get.mp h.paired).2 i hi hi'⟩

/-- Paired devices are a matching of the finite sets. -/
theorem NicMatching.matches (h : NicMatching inventory npus nics) :
    Matches (nicCandidates inventory).toFinset
      (fun npu => (affinityNics inventory npu).toFinset) npus.length := by
  have hlen : npus.length = nics.length := h.paired.length_eq
  have hnodup : npus.Nodup := List.Nodup.of_map _ h.freeNpus.distinct
  have hidx : ∀ a : npus.toFinset, npus.idxOf a.1 < npus.length :=
    fun a => idxOf_lt_length_of_mem (mem_toFinset.mp a.2)
  have hget : ∀ a : npus.toFinset, npus.get ⟨npus.idxOf a.1, hidx a⟩ = a.1 :=
    fun a => getElem_idxOf (hidx a)
  refine ⟨npus.toFinset, ?_, toFinset_card_of_nodup hnodup,
    fun a => nics.get ⟨npus.idxOf a.1, hlen ▸ hidx a⟩, ?_, ?_⟩
  · intro npu hnpu
    have hmem := mem_toFinset.mp hnpu
    have hi := idxOf_lt_length_of_mem hmem
    have hnic := h.mem_affinityNics hi (hlen ▸ hi)
    rw [get_eq_getElem, get_eq_getElem, getElem_idxOf] at hnic
    exact mem_toFinset.mpr (mem_nicCandidates (h.freeNpus.entry npu hmem)
      (h.freeNpus.type npu hmem) (h.freeNpus.free npu hmem) hnic)
  · intro a b hab
    have hsame := (List.Nodup.of_map _ h.distinct).injective_get hab
    exact Subtype.ext ((idxOf_inj (mem_toFinset.mp a.2)).mp (Fin.mk.inj hsame))
  · intro a
    have hnic := h.mem_affinityNics (hidx a) (hlen ▸ hidx a)
    rw [hget a] at hnic
    exact mem_toFinset.mpr hnic

/-- The matching of the finite sets is a matching of NPUs with NICs. -/
theorem matches_iff_nicMatching : Matches (nicCandidates inventory).toFinset
    (fun npu => (affinityNics inventory npu).toFinset) count ↔
      ∃ npus nics, npus.length = count ∧ NicMatching inventory npus nics := by
  constructor
  swap
  · rintro ⟨npus, nics, rfl, h⟩
    exact h.matches
  rintro ⟨T, hT, rfl, f, hinj, hf⟩
  have hcandidate : ∀ a : T, a.1 ∈ nicCandidates inventory :=
    fun a => mem_toFinset.mp (hT a.2)
  have hnic : ∀ a : T, _ := fun a => mem_affinityNics.mp (mem_toFinset.mp (hf a))
  have hfree := nicCandidates_freeNpus inventory
  refine ⟨T.attach.toList.map Subtype.val, T.attach.toList.map f, by simp, ?_⟩
  have hentry : ∀ a : T, entryOf inventory a.1.key = some a.1 :=
    fun a => hfree.entry a.1 (hcandidate a)
  constructor
  · constructor
    · exact forall_mem_map.mpr fun a _ => hentry a
    · exact forall_mem_map.mpr fun a _ => hfree.type a.1 (hcandidate a)
    · exact forall_mem_map.mpr fun a _ => hfree.free a.1 (hcandidate a)
    · exact nodup_keys (Finset.nodup_toList _) Subtype.val_injective hentry
  · exact forall_mem_map.mpr fun a _ => (hnic a).1
  · exact forall_mem_map.mpr fun a _ => (hnic a).2.1
  · exact forall_mem_map.mpr fun a _ => (hnic a).2.2.1
  · exact nodup_keys (Finset.nodup_toList _) hinj fun a => (hnic a).1
  · rw [forall₂_map_left_iff, forall₂_map_right_iff, forall₂_same]
    exact fun a _ => (hnic a).2.2.2

/-- A request for a number of NPUs with network devices and without an affinity policy succeeds
exactly when the NPUs can be matched to different network devices, if there are too few candidates
or no set of them lacks too many network devices, and not otherwise. -/
theorem resolves_iff_matching_iff (inventory : List UbDeviceInfo) (count : Nat)
    (memoryNodes : Option (List Int)) (topology : Option HostTopology) :
    ((∃ devices, resolveNpuDevices inventory none (some count) true
        ⟨none, memoryNodes, topology⟩ = .ok devices) ↔
      ∃ npus nics, npus.length = count ∧ NicMatching inventory npus nics) ↔
    ((nicCandidates inventory).length < count ∨ NicsSuffice inventory count) := by
  rw [resolveNpuDevices_ok_iff, ← matches_iff_nicMatching]
  by_cases henough : count ≤ (nicCandidates inventory).length
  · rw [iff_true_left henough, or_iff_right (Nat.not_lt.mpr henough),
      matches_iff ((card_nicCandidates inventory).symm ▸ henough)]
    rfl
  · refine iff_of_true (iff_of_false henough ?_) (.inl (Nat.not_le.mp henough))
    rintro ⟨T, hT, rfl, -⟩
    exact henough ((Finset.card_le_card hT).trans (card_nicCandidates inventory).le)

/-- Two NPUs with the same network device, the only one there is. -/
def loneNicHost : List UbDeviceInfo :=
  [freeNpu "0-1" ["1-1"], freeNpu "0-2" ["1-1"], freeNic "1-1"]

/-- The request for both NPUs succeeds, and the network device is in the list twice. -/
theorem resolves_without_matching : ¬ ∀ (inventory : List UbDeviceInfo) (count : Nat),
      (∃ devices, resolveNpuDevices inventory none (some count) true .none = .ok devices) ↔
        ∃ npus nics, npus.length = count ∧ NicMatching inventory npus nics := by
  intro h
  have hresolves : ∃ devices, resolveNpuDevices loneNicHost none (some 2) true .none =
      .ok devices := ⟨[⟨"NPU", "0-1", some "guid-0-1"⟩, ⟨"NPU", "0-2", some "guid-0-2"⟩,
        ⟨"NIC_VFE", "1-1", some "guid-1-1"⟩, ⟨"NIC_VFE", "1-1", some "guid-1-1"⟩],
      by decide +kernel⟩
  obtain ⟨npus, nics, hlen, hmatching⟩ := (h loneNicHost 2).mp hresolves
  have hcount := hmatching.matches.card_le (Finset.Subset.refl _)
  rw [hlen] at hcount
  exact absurd hcount (by decide +kernel)

end UbsVirt.Udm
