import UbsVirt.Mcs.Memory

/-!
# The memory in use

`g_mem_used_local` is to be the size of the allocations that are live. The registry that gives
the size of a freed pointer back empties its slot, and a search ends at an empty slot: a key
whose search has to pass the slot is not found again, although it is there, and its size is
never subtracted. As long as no slot is emptied that is on the way to another live pointer, the
usage is exact and a request is refused exactly when it does not fit. Source:
`mcs/common/memory.c:54-159,354-427`, `mcs/src/mcs_mem.c:38-69`,
`mcs/common/mem_limiter.c:49-86`.
-/

namespace UbsVirt.Mcs

open Probing Run Function List

/-- The allocation functions that return a pointer. -/
inductive AllocFn where
  | rtMalloc
  | rtMallocCached
  | rtDvppMalloc
  | rtDvppMallocWithFlag
  | rtMemAlloc
  | rtMemAllocManaged

/-- The free functions. -/
inductive FreeFn where
  | rtFree
  | rtDvppFree
  | rtMemFree

def AllocFn.name : AllocFn → String
  | .rtMalloc => "rtMalloc"
  | .rtMallocCached => "rtMallocCached"
  | .rtDvppMalloc => "rtDvppMalloc"
  | .rtDvppMallocWithFlag => "rtDvppMallocWithFlag"
  | .rtMemAlloc => "rtMemAlloc"
  | .rtMemAllocManaged => "rtMemAllocManaged"

def FreeFn.name : FreeFn → String
  | .rtFree => "rtFree"
  | .rtDvppFree => "rtDvppFree"
  | .rtMemFree => "rtMemFree"

def AllocFn.hook : AllocFn → Int → MemHooks → Nat → (String → RealCall) → Int × MemHooks
  | .rtMalloc => Mcs.rtMalloc
  | .rtMallocCached => Mcs.rtMallocCached
  | .rtDvppMalloc => Mcs.rtDvppMalloc
  | .rtDvppMallocWithFlag => Mcs.rtDvppMallocWithFlag
  | .rtMemAlloc => Mcs.rtMemAlloc
  | .rtMemAllocManaged => Mcs.rtMemAllocManaged

def FreeFn.hook : FreeFn → MemHooks → Nat → (String → RealCall) → Int × MemHooks
  | .rtFree => Mcs.rtFree
  | .rtDvppFree => Mcs.rtDvppFree
  | .rtMemFree => Mcs.rtMemFree

/-- The hooks of a family are one hook. -/
theorem AllocFn.hook_eq (fn : AllocFn) : fn.hook = allocHook fn.name := by
  cases fn <;> rfl

theorem FreeFn.hook_eq (fn : FreeFn) : fn.hook = freeHook fn.name := by
  cases fn <;> rfl

structure Allocation where
  ptr : Nat
  size : Nat
deriving DecidableEq

open Allocation

/-- The hooks, and the allocations the device has made and not yet freed. -/
structure MemRun where
  hooks : MemHooks
  live : List Allocation

open MemRun

/-- Calls of the intercepted functions, with what the real functions do. -/
inductive MemCall where
  | alloc (fn : AllocFn) (size : Nat) (real : String → RealCall)
  | free (fn : FreeFn) (devPtr : Nat) (real : String → RealCall)

def RealCall.pointer? : RealCall → Option Nat
  | .returned ret (some ptr) => if ret = 0 ∧ ptr ≠ 0 then some ptr else none
  | _ => none

section

variable (memoryQuota : Int)

/-- The pointer that comes of a call, if it gets through to the real function. -/
def MemRun.allocated (s : MemRun) (fn : AllocFn) (size : Nat) (real : String → RealCall) :
    Option Nat :=
  if s.hooks.active ∧ guardMemory memoryQuota s.hooks.usedLocal size ≠ 0 then none
  else (real fn.name).pointer?

def MemRun.step (s : MemRun) : MemCall → MemRun
  | .alloc fn size real =>
    { hooks := (fn.hook memoryQuota s.hooks size real).2
      live :=
        match s.allocated memoryQuota fn size real with
        | some ptr => ⟨ptr, size⟩ :: s.live
        | none => s.live }
  | .free fn devPtr real =>
    { hooks := (fn.hook s.hooks devPtr real).2
      live :=
        if (real fn.name).code = 0 then s.live.filter (·.ptr ≠ devPtr) else s.live }

def MemRun.init : MemRun :=
  ⟨MemHooks.init true, []⟩

def MemRun.liveBytes (s : MemRun) : Nat :=
  (s.live.map size).sum

/-- What the runtime and its callers do: a pointer that is returned is 64-byte aligned and not
live, at most 65536 pointers are live, and only live pointers are freed. -/
def Legal (s : MemRun) : MemCall → Prop
  | .alloc fn size real => ∀ ptr ∈ s.allocated memoryQuota fn size real,
    ptr % 64 = 0 ∧ (∀ a ∈ s.live, a.ptr ≠ ptr) ∧ s.live.length < memTrackSlots
  | .free _ devPtr _ => ∃ a ∈ s.live, a.ptr = devPtr

/-- The slot of the pointer is not on the way to another live pointer. -/
def OffPaths (s : MemRun) (devPtr : Nat) : Prop :=
  ∀ a ∈ s.live, a.ptr ≠ devPtr → ∀ i ∈ memTrackProbe s.hooks.track devPtr,
    ∀ j ∈ memTrackProbe s.hooks.track a.ptr,
      ¬ dist memTrackSlots (memTrackHash a.ptr) i < dist memTrackSlots (memTrackHash a.ptr) j

def MayFree (s : MemRun) : MemCall → Prop
  | .free fn devPtr real => (real fn.name).code = 0 → OffPaths s devPtr
  | .alloc _ _ _ => True

def Accounted (s : MemRun) : Prop :=
  s.hooks.usedLocal = s.liveBytes

/-- A request is refused exactly when it exceeds the quota together with the live allocations. -/
def RefusedExactly (s : MemRun) : MemCall → Prop
  | .alloc _ size _ => guardMemory memoryQuota s.hooks.usedLocal size ≠ 0 ↔
    getMemLimitQuota memoryQuota < s.liveBytes + size
  | .free _ _ _ => True

end

/-! ### The registry -/

def keyAt (t : MemTrack) (i : Nat) : Option Nat :=
  if (t i).key = 0 then none else some (t i).key

section

variable {t : MemTrack} {i key size : Nat}

theorem memTrackHash_lt (key : Nat) : memTrackHash key < memTrackSlots :=
  Nat.mod_lt _ (by decide)

theorem keyAt_eq_some : keyAt t i = some key ↔ (t i).key = key ∧ key ≠ 0 := by
  unfold keyAt
  by_cases h : (t i).key = 0
  · rw [if_pos h]
    constructor
    · intro hf
      cases hf
    · rintro ⟨rfl, hne⟩
      exact absurd h hne
  · rw [if_neg h, Option.some.injEq]
    constructor
    · rintro rfl
      exact ⟨rfl, h⟩
    · exact fun hk => hk.1

theorem keyAt_eq_none : keyAt t i = none ↔ (t i).key = 0 := by
  unfold keyAt
  split
  · next h => exact ⟨fun _ => h, fun _ => rfl⟩
  · next h => exact ⟨nofun, fun hz => absurd hz h⟩

theorem keyAt_update_some (hkey : key ≠ 0) :
    keyAt (update t i ⟨key, size⟩) = update (keyAt t) i (some key) := by
  funext j
  unfold keyAt
  by_cases hj : j = i
  · subst hj
    simp [hkey]
  · simp [hj]

theorem keyAt_update_zero : keyAt (update t i ⟨0, 0⟩) = update (keyAt t) i none := by
  funext j
  unfold keyAt
  by_cases hj : j = i
  · subst hj
    simp
  · simp [hj]

/-- The loops are searches of the library. -/
theorem memTrackProbe_eq :
    memTrackProbe t key = probe memTrackSlots (stopAt (keyAt t) key) (memTrackHash key) := by
  unfold memTrackProbe
  congr 1
  funext i
  unfold stopAt keyAt
  rw [Bool.eq_iff_iff]
  by_cases hi : (t i).key = 0 <;> simp [hi]

/-- A new key goes into an empty slot. -/
theorem memTrackInsert_of_new (h : Chained memTrackSlots memTrackHash (keyAt t)) (hkey : key ≠ 0)
    (hmiss : ∀ j < memTrackSlots, keyAt t j ≠ some key)
    (hfree : ∃ j < memTrackSlots, keyAt t j = none) (size : Nat) :
    ∃ i < memTrackSlots, (t i).key = 0 ∧
      memTrackInsert t key size = (size, update t i ⟨key, size⟩) ∧
      Chained memTrackSlots memTrackHash (keyAt (update t i ⟨key, size⟩)) := by
  obtain ⟨i, hi, hprobe, hnone, hpath⟩ :=
    Chained.probe_of_not_mem (memTrackHash_lt key) hmiss hfree
  have hempty := keyAt_eq_none.mp hnone
  refine ⟨i, hi, hempty, ?_, ?_⟩
  · unfold memTrackInsert
    rw [memTrackProbe_eq, hprobe]
    dsimp only
    rw [if_pos hempty]
  · rw [keyAt_update_some hkey]
    exact h.insert hmiss hnone hpath

/-- A key that is in the registry is found, and its slot emptied. -/
theorem memTrackErase_of_mem (h : Chained memTrackSlots memTrackHash (keyAt t)) (hkey : key ≠ 0)
    (hi : i < memTrackSlots) (ht : t i = ⟨key, size⟩) :
    memTrackProbe t key = some i ∧ memTrackErase t key = (size, update t i ⟨0, 0⟩) := by
  have hat : keyAt t i = some key := keyAt_eq_some.mpr ⟨by rw [ht], hkey⟩
  have hprobe := h.probe_of_mem (memTrackHash_lt key) hi hat
  rw [← memTrackProbe_eq] at hprobe
  refine ⟨hprobe, ?_⟩
  unfold memTrackErase
  rw [hprobe]
  dsimp only
  rw [if_neg (by rw [ht]; exact hkey), ht]

end

/-! ### The invariant -/

/-- The registry holds the live allocations, and the usage is their size. -/
structure RegistryInv (s : MemRun) : Prop where
  active : s.hooks.active = true
  chained : Chained memTrackSlots memTrackHash (keyAt s.hooks.track)
  stored : ∀ a ∈ s.live, ∃ i < memTrackSlots, s.hooks.track i = ⟨a.ptr, a.size⟩
  known : ∀ i < memTrackSlots, ∀ key ∈ keyAt s.hooks.track i, key ∈ s.live.map ptr
  distinct : (s.live.map ptr).Nodup
  nonzero : ∀ a ∈ s.live, a.ptr ≠ 0
  accounted : Accounted s

theorem getMemLimitQuota_lt (memoryQuota : Int) : getMemLimitQuota memoryQuota < sizeMax := by
  unfold getMemLimitQuota sizeMax
  omega

theorem memoryCheck_eq_true {memoryQuota : Int} {used size : Nat} :
    memoryCheck memoryQuota used size = true ↔ used + size ≤ getMemLimitQuota memoryQuota := by
  have hquota := getMemLimitQuota_lt memoryQuota
  unfold sizeMax at hquota
  unfold memoryCheck
  by_cases hover : 2 ^ 64 ≤ size + used
  · rw [if_pos hover]
    constructor
    · intro hf
      cases hf
    · omega
  · rw [if_neg hover]
    split
    · constructor
      · intro hf
        cases hf
      · omega
    · constructor
      · omega
      · exact fun _ => rfl

/-- A request that is not refused fits. -/
theorem guardMemory_eq_zero {memoryQuota : Int} {used size : Nat} :
    guardMemory memoryQuota used size = 0 ↔ used + size ≤ getMemLimitQuota memoryQuota := by
  rw [← memoryCheck_eq_true]
  unfold guardMemory
  split
  · next h => exact ⟨fun _ => h, fun _ => rfl⟩
  · next h => exact ⟨nofun, fun hc => absurd hc h⟩

theorem RegistryInv.refusedExactly {s : MemRun} (h : RegistryInv s) (memoryQuota : Int)
    (call : MemCall) : RefusedExactly memoryQuota s call := by
  cases call with
  | alloc fn size real =>
    show _ ≠ _ ↔ _
    rw [Ne, guardMemory_eq_zero, h.accounted]
    omega
  | free fn devPtr real => trivial

section

variable {memoryQuota : Int} {s : MemRun}

/-- An allocation that gets through is recorded. -/
theorem RegistryInv.record (h : RegistryInv s) {ptr size : Nat} (hptr : ptr ≠ 0)
    (hnew : ∀ a ∈ s.live, a.ptr ≠ ptr) (hlen : s.live.length < memTrackSlots)
    (hguard : guardMemory memoryQuota s.hooks.usedLocal size = 0) :
    RegistryInv ⟨s.hooks.record ptr size, ⟨ptr, size⟩ :: s.live⟩ := by
  have hmiss : ∀ j < memTrackSlots, keyAt s.hooks.track j ≠ some ptr := by
    intro j hj hat
    obtain ⟨a, ha, heq⟩ := mem_map.mp (h.known j hj ptr hat)
    exact hnew a ha heq
  have hfree := h.chained.exists_free h.known (by rwa [length_map])
  obtain ⟨i, hi, hempty, hins, hchained⟩ :=
    memTrackInsert_of_new h.chained hptr hmiss hfree size
  rw [guardMemory_eq_zero] at hguard
  have hquota := getMemLimitQuota_lt memoryQuota
  have htrack : (s.hooks.record ptr size).track =
      update s.hooks.track i ⟨ptr, size⟩ := by
    unfold MemHooks.record
    rw [hins]
  have hused : (s.hooks.record ptr size).usedLocal = s.hooks.usedLocal + size := by
    unfold MemHooks.record
    rw [hins]
    dsimp only
    rw [if_pos (by omega), onMemAlloc, Nat.mod_eq_of_lt]
    unfold sizeMax at hquota
    omega
  constructor
  case active => exact h.active
  case chained =>
    rwa [htrack]
  case stored =>
    intro a ha
    rw [htrack]
    rcases mem_cons.mp ha with rfl | ha
    · exact ⟨i, hi, update_self ..⟩
    · obtain ⟨j, hj, hat⟩ := h.stored a ha
      refine ⟨j, hj, ?_⟩
      rw [update_of_ne, hat]
      rintro rfl
      rw [hat] at hempty
      exact h.nonzero a ha hempty
  case known =>
    intro j hj key hkey
    rw [htrack, keyAt_update_some hptr, update_apply] at hkey
    rw [map_cons, mem_cons]
    split at hkey
    · exact .inl (Option.some.inj hkey).symm
    · exact .inr (h.known j hj key hkey)
  case distinct =>
    rw [map_cons, nodup_cons]
    refine ⟨?_, h.distinct⟩
    intro hmem
    obtain ⟨a, ha, heq⟩ := mem_map.mp hmem
    exact hnew a ha heq
  case nonzero =>
    intro a ha
    rcases mem_cons.mp ha with rfl | ha
    · exact hptr
    · exact h.nonzero a ha
  case accounted =>
    have hold := h.accounted
    unfold Accounted liveBytes at hold ⊢
    rw [hused, map_cons, sum_cons, hold, Nat.add_comm]

/-- Taking a live allocation out takes its size out. -/
theorem sum_filter_ptr {live : List Allocation} (hnd : (live.map ptr).Nodup)
    {a : Allocation} (ha : a ∈ live) :
    (live.map size).sum = a.size + ((live.filter (·.ptr ≠ a.ptr)).map size).sum := by
  induction live with
  | nil => cases ha
  | cons b live ih =>
    rw [map_cons, nodup_cons] at hnd
    rcases mem_cons.mp ha with rfl | ha
    · -- no other one has this pointer
      have hrest : live.filter (·.ptr ≠ a.ptr) = live := by
        rw [filter_eq_self]
        intro b hb
        apply decide_eq_true
        rintro heq
        exact hnd.1 (heq ▸ mem_map_of_mem hb)
      rw [filter_cons_of_neg (by simp), hrest, map_cons, sum_cons]
    · have hne : b.ptr ≠ a.ptr := by
        intro heq
        exact hnd.1 (heq ▸ mem_map_of_mem ha)
      rw [filter_cons_of_pos (by simpa using hne), map_cons, sum_cons,
        map_cons, sum_cons, ih hnd.2 ha]
      omega

/-- A live pointer whose slot is not on the way to another one is freed. -/
theorem RegistryInv.erase (h : RegistryInv s) {a : Allocation} (ha : a ∈ s.live)
    (hoff : OffPaths s a.ptr) :
    RegistryInv ⟨{ s.hooks with
          track := (memTrackErase s.hooks.track a.ptr).2
          usedLocal := onMemFree s.hooks.usedLocal (memTrackErase s.hooks.track a.ptr).1 },
        s.live.filter (·.ptr ≠ a.ptr)⟩ := by
  obtain ⟨i, hi, hat⟩ := h.stored a ha
  obtain ⟨hprobe, herase⟩ := memTrackErase_of_mem h.chained (h.nonzero a ha) hi hat
  have hkey : keyAt s.hooks.track i = some a.ptr :=
    keyAt_eq_some.mpr ⟨by rw [hat], h.nonzero a ha⟩
  -- another slot holds another pointer
  have hother : ∀ j < memTrackSlots, j ≠ i → ∀ key ∈ keyAt s.hooks.track j, key ≠ a.ptr := by
    rintro j hj hji key hk rfl
    exact hji (h.chained.unique j i a.ptr hj hi hk hkey)
  rw [herase]
  constructor
  case active => exact h.active
  case chained =>
    show Chained _ _ (keyAt (update s.hooks.track i ⟨0, 0⟩))
    rw [keyAt_update_zero]
    apply h.chained.erase memTrackHash_lt
    intro j hj hji key hk
    obtain ⟨b, hb, rfl⟩ := mem_map.mp (h.known j hj key hk)
    have hfound := h.chained.probe_of_mem (memTrackHash_lt b.ptr) hj hk
    rw [← memTrackProbe_eq] at hfound
    exact hoff b hb (hother j hj hji b.ptr hk) i hprobe j hfound
  case stored =>
    intro b hb
    obtain ⟨hb, hne⟩ := mem_filter.mp hb
    obtain ⟨j, hj, hbat⟩ := h.stored b hb
    refine ⟨j, hj, ?_⟩
    show update s.hooks.track i ⟨0, 0⟩ j = _
    rw [update_of_ne, hbat]
    rintro rfl
    rw [hat] at hbat
    exact of_decide_eq_true hne (congrArg MemTrackSlot.key hbat).symm
  case known =>
    intro j hj key hk
    change key ∈ keyAt (update s.hooks.track i ⟨0, 0⟩) j at hk
    rw [keyAt_update_zero, update_apply] at hk
    split at hk
    · cases hk
    next hji =>
    obtain ⟨b, hb, rfl⟩ := mem_map.mp (h.known j hj key hk)
    apply mem_map_of_mem
    exact mem_filter.mpr ⟨hb, decide_eq_true (hother j hj hji b.ptr hk)⟩
  case distinct => exact h.distinct.sublist (filter_sublist.map _)
  case nonzero => exact fun b hb => h.nonzero b (mem_filter.mp hb).1
  case accounted =>
    have hold := h.accounted
    have hsum := sum_filter_ptr h.distinct ha
    unfold Accounted liveBytes at hold ⊢
    show onMemFree s.hooks.usedLocal a.size = ((s.live.filter (·.ptr ≠ a.ptr)).map size).sum
    unfold onMemFree
    rw [if_neg (by omega)]
    omega

/-- An allocation keeps the registry right. -/
theorem RegistryInv.alloc (h : RegistryInv s) {fn : AllocFn} {size : Nat}
    {real : String → RealCall} (hlegal : Legal memoryQuota s (.alloc fn size real)) :
    RegistryInv (s.step memoryQuota (.alloc fn size real)) := by
  have hstep : s.step memoryQuota (.alloc fn size real) =
      ⟨(allocHook fn.name memoryQuota s.hooks size real).2,
        match s.allocated memoryQuota fn size real with
        | some ptr => ⟨ptr, size⟩ :: s.live
        | none => s.live⟩ := by
    rw [← fn.hook_eq]
    rfl
  rw [hstep]
  change ∀ ptr ∈ s.allocated memoryQuota fn size real, _ at hlegal
  unfold allocated at hlegal ⊢
  unfold allocHook
  rw [h.active] at hlegal ⊢
  by_cases hguard : guardMemory memoryQuota s.hooks.usedLocal size = 0
  swap
  · simpa [hguard] using h
  simp only [hguard, ne_eq, not_true_eq_false, and_false, if_false] at hlegal ⊢
  cases hreal : real fn.name with
  | missing => exact h
  | returned ret result =>
    cases result with
    | none => exact h
    | some ptr =>
      rw [hreal] at hlegal
      by_cases hok : ret = 0 ∧ ptr ≠ 0
      · simp only [RealCall.pointer?, if_pos hok] at hlegal ⊢
        obtain ⟨-, hnew, hlen⟩ := hlegal ptr rfl
        exact h.record hok.2 hnew hlen hguard
      · simp only [RealCall.pointer?, if_neg hok]
        exact h

/-- So does a free. -/
theorem RegistryInv.free (h : RegistryInv s) {fn : FreeFn} {devPtr : Nat}
    {real : String → RealCall} (hlegal : Legal memoryQuota s (.free fn devPtr real))
    (hmay : MayFree s (.free fn devPtr real)) :
    RegistryInv (s.step memoryQuota (.free fn devPtr real)) := by
  obtain ⟨a, ha, rfl⟩ := hlegal
  have hstep : s.step memoryQuota (.free fn a.ptr real) = ⟨(freeHook fn.name s.hooks a.ptr real).2,
        if (real fn.name).code = 0 then s.live.filter (·.ptr ≠ a.ptr) else s.live⟩ := by
    rw [← fn.hook_eq]
    rfl
  rw [hstep]
  change (real fn.name).code = 0 → _ at hmay
  have hactive : ¬ (!s.hooks.active) = true := by
    rw [h.active]
    decide
  unfold freeHook
  rw [if_neg hactive]
  cases hreal : real fn.name with
  | missing => exact h
  | returned ret result =>
    rw [hreal] at hmay
    by_cases hret : ret = 0
    · have hboth : ret = 0 ∧ a.ptr ≠ 0 := ⟨hret, h.nonzero a ha⟩
      have hcode : (RealCall.returned ret result).code = 0 := hret
      dsimp only
      rw [if_pos hboth, if_pos hcode]
      exact h.erase ha (hmay hret)
    · have hcode : ¬ (RealCall.returned ret result).code = 0 := hret
      dsimp only
      rwa [if_neg fun hboth => hret hboth.1, if_neg hcode]

theorem RegistryInv.step (h : RegistryInv s) {call : MemCall} (hlegal : Legal memoryQuota s call)
    (hmay : MayFree s call) : RegistryInv (s.step memoryQuota call) := by
  cases call with
  | alloc fn size real => exact h.alloc hlegal
  | free fn devPtr real => exact h.free hlegal hmay

theorem RegistryInv.init : RegistryInv init where
  active := rfl
  chained := chained_empty
  stored := nofun
  known := nofun
  distinct := nodup_nil
  nonzero := nofun
  accounted := rfl

end

/-- The usage is exact, and requests are refused exactly when they do not fit, in every run of
legal calls whose frees all meet the condition. -/
theorem usage_exact (memoryQuota : Int) (run : List MemCall)
    (hlegal : EachStep (step memoryQuota) (Legal memoryQuota) init run)
    (hmay : EachStep (step memoryQuota) MayFree init run) :
    Throughout (step memoryQuota) Accounted init run ∧
      EachStep (step memoryQuota) (RefusedExactly memoryQuota) init run := by
  have hboth := hlegal.and hmay
  constructor
  · exact (throughout_of_step RegistryInv.init (fun _ _ h hc => h.step hc.1 hc.2) hboth).mono
      fun _ h => h.accounted
  · exact eachStep_of_invariant RegistryInv.init (fun _ _ h hc => h.step hc.1 hc.2)
      (fun _ call h _ => h.refusedExactly memoryQuota call) hboth

section

instance (memoryQuota : Int) (s : MemRun) (call : MemCall) :
    Decidable (Legal memoryQuota s call) := by
  cases call <;> unfold Legal <;> infer_instance

instance (s : MemRun) (devPtr : Nat) : Decidable (OffPaths s devPtr) := by
  unfold OffPaths
  infer_instance

instance (s : MemRun) (call : MemCall) : Decidable (MayFree s call) := by
  cases call <;> unfold MayFree <;> infer_instance

def succeeds (result : Nat) : String → RealCall :=
  fun _ => .returned 0 (some result)

/-- Two allocations of 1 MiB, at 1 MiB and at 2 MiB, whose searches start at the same slot. -/
def twoAllocs : List MemCall :=
  [.alloc .rtMalloc 1048576 (succeeds 1048576), .alloc .rtMemAlloc 1048576 (succeeds 2097152)]

def lastFirstRun : List MemCall :=
  twoAllocs ++ [.free .rtMemFree 2097152 (succeeds 0), .free .rtFree 1048576 (succeeds 0)]

def firstFirstRun : List MemCall :=
  twoAllocs ++ [.free .rtFree 1048576 (succeeds 0), .free .rtMemFree 2097152 (succeeds 0)]

theorem lastFirstRun_exact : EachStep (step 2) (Legal 2) init lastFirstRun ∧
      EachStep (step 2) MayFree init lastFirstRun ∧
      Throughout (step 2) Accounted init lastFirstRun ∧
      EachStep (step 2) (RefusedExactly 2) init lastFirstRun := by
  have hlegal : EachStep (step 2) (Legal 2) init lastFirstRun := by
    decide +kernel
  have hmay : EachStep (step 2) MayFree init lastFirstRun := by
    decide +kernel
  exact ⟨hlegal, hmay, usage_exact 2 lastFirstRun hlegal hmay⟩

def firstFirstEnd : MemRun :=
  exec (step 2) init firstFirstRun

theorem firstFirstEnd_used : firstFirstEnd.hooks.usedLocal = 1048576 ∧
    firstFirstEnd.liveBytes = 0 := by
  decide +kernel

/-- After both are freed, the size of the second one is still in use. -/
theorem firstFirstRun_inexact : ¬ ∀ (memoryQuota : Int) (run : List MemCall),
      EachStep (step memoryQuota) (Legal memoryQuota) init run →
        Throughout (step memoryQuota) Accounted init run := by
  intro h
  have hall := h 2 firstFirstRun (by decide +kernel)
  have hlast : Accounted firstFirstEnd := hall.last
  obtain ⟨hused, hlive⟩ := firstFirstEnd_used
  unfold Accounted at hlast
  rw [hused, hlive] at hlast
  cases hlast

end

end UbsVirt.Mcs
