import UbsVirt.Enpu.Limiter
import UbsVirt.Enpu.SwapHook

/-!
# The device memory of one process

The hooks of the runtime check the size of an allocation against the quotas of the
container, then bring back what was swapped out, and then allocate. This module follows the
bytes of device memory that are live through these steps, with every way in which the calls
into the device runtime can end. Source: `vcann-rt/src/ascend/memory.c:22-40,145-171,266-286`,
`swap_hook.c:55-244`, `swap_executor.c:49-245`, `swap_monitor_thread.c:100-148`.
-/

namespace UbsVirt.Enpu

open Run List Record

/-- The device memory of a process: its records, the live bytes, and `swapped` and `swap_size`
of its slot. -/
structure MemProc where
  records : List Record
  live : Nat
  swapped : Bool
  swapSize : Nat

/-- What a process has been set up with: no shared memory; the shared memory of its die, but no
swap hook, as its initialisation has failed; or both. -/
inductive Setup where
  | detached
  | unhooked
  | hooked
  deriving DecidableEq, Repr

/-! ### What the device runtime answers -/

/-- How bringing one record back ends; `leaks` tells that memory allocated for it could not be
released again after a failure. -/
structure RestoreCall where
  outcome : Restore
  leaks : Bool
  deriving DecidableEq, Repr

/-- How `swap_hook_check_and_swap_in` goes: a lock or `check_and_swap_out` fails, or the records
are brought back one after the other. -/
inductive SwapInCall where
  | refused
  | restore (calls : List RestoreCall)

/-- A record that is not brought back has not kept memory either. -/
def SwapInCall.NoLeak : SwapInCall → Prop
  | .refused => True
  | .restore calls => ∀ c ∈ calls, c.leaks = false

instance : DecidablePred SwapInCall.NoLeak
  | .refused => isTrue trivial
  | .restore calls => inferInstanceAs (Decidable (∀ c ∈ calls, _))

/-- How an allocation ends: no memory is taken, it is taken and lost, or it is taken and the
tracker is asked to record it. -/
inductive MallocCall where
  | failed
  | lost
  | taken (ptr : Nat) (add : TrackerAdd)

/-- What the check of the limiter meets. -/
structure GuardCall where
  locked : Bool
  dcmiOk : Bool
  swapOutOk : Bool
  dynamicFree : Nat

/-! ### Bringing records back and copying them out -/

/-- The bytes that mapping a record again takes, `swap_executor.c:154,206`. -/
def Record.need (g : ℕ+) (r : Record) : Nat :=
  if r.physical then r.size else alignUp g r.size

def RestoreCall.bytes (g : ℕ+) (c : RestoreCall) (r : Record) : Nat :=
  if r.swapped && (c.outcome == .ok || c.leaks) then r.need g else 0

/-- The loop of `swap_hook_check_and_swap_in`, `swap_hook.c:163-190`: the records and the bytes
it leaves live. -/
def restoreAll (g : ℕ+) : List Record → List RestoreCall → List Record × Nat
  | r :: rs, c :: cs =>
    let rest := restoreAll g rs cs
    (r.swapIn g c.outcome :: rest.1, c.bytes g r + rest.2)
  | rs, _ => (rs, 0)

/-- The loop of `swap_executor_swap_out`, `swap_executor.c:58-125`: the records and the bytes it
releases, which are the bytes it copies. -/
def copyAll : List Record → List Bool → Nat → List Record × Nat
  | r :: rs, ok :: oks, offset =>
    let step := r.swapOut ok offset 0
    let rest := copyAll rs oks step.2.1
    (step.1 :: rest.1, step.2.2 + rest.2)
  | rs, _, _ => (rs, 0)

namespace MemProc

/-- `swap_hook_check_and_swap_in`, `swap_hook.c:115-210`; `none` when it fails. -/
def checkAndSwapIn (g : ℕ+) (s : MemProc) (call : SwapInCall) : Option MemProc :=
  if !s.swapped then some s
  else match call with
    | .refused => none
    | .restore calls =>
      let restored := restoreAll g s.records calls
      some { s with
        records := restored.1
        live := s.live + restored.2
        swapped := if s.swapSize ≠ 0 then false else s.swapped }

def take (s : MemProc) (size : Nat) (physical : Bool) : MallocCall → MemProc
  | .failed => s
  | .lost => { s with live := s.live + size }
  | .taken ptr add =>
    { s with
      records := (trackerAdd add s.records ptr size physical).2
      live := s.live + size }

/-- The check of `guard_memory` with the live bytes as DCMI's answer. -/
def admits (q : Quotas) (s : MemProc) (guard : GuardCall) (size : Nat) : Bool :=
  q.guardMemory guard.locked (if guard.dcmiOk then some s.live else none) guard.dynamicFree
    guard.swapOutOk size

/-- The hooks of `rtMalloc` and `rtMallocPhysical`: check the requested size, bring back what
was swapped out, allocate. Without the swap hook the call of the runtime takes what it takes,
`passed` bytes. -/
def allocate (g : ℕ+) (q : Quotas) (setup : Setup) (s : MemProc) (requested allocated : Nat)
    (physical : Bool) (guard : GuardCall) (swapIn : SwapInCall) (malloc : MallocCall)
    (passed : Nat) : MemProc :=
  if !s.admits q guard requested then s
  else if setup ≠ .hooked then { s with live := s.live + passed }
  else match s.checkAndSwapIn g swapIn with
    | none => s
    | some s₁ => s₁.take allocated physical malloc

/-- `rtMalloc`, `memory.c:22-40`: `swap_hook_malloc_mem` allocates the rounded size. -/
def rtMalloc (g : ℕ+) (q : Quotas) (setup : Setup) (s : MemProc) (size : Nat) (guard : GuardCall)
    (swapIn : SwapInCall) (malloc : MallocCall) (passed : Nat) : MemProc :=
  s.allocate g q setup size (alignUp g size) false guard swapIn malloc passed

/-- `rtMallocPhysical` of device memory, `memory.c:145-171`; other memory is passed through. -/
def rtMallocPhysical (g : ℕ+) (q : Quotas) (setup : Setup) (s : MemProc) (size : Nat)
    (guard : GuardCall) (swapIn : SwapInCall) (malloc : MallocCall) (passed : Nat) : MemProc :=
  s.allocate g q setup size size true guard swapIn malloc passed

/-- `rtFree`, `memory.c:266-286`, with `swap_hook_free_mem`. Without shared memory the call of the
runtime releases what it releases, `passed` bytes; without the swap hook the call fails. `freed`
tells whether `rtFreePhysical` succeeded; a record that is still swapped out has no device
memory. -/
def rtFree (g : ℕ+) (setup : Setup) (s : MemProc) (ptr : Nat) (unmapped freed : Bool)
    (swapIn : SwapInCall) (passed : Nat) : MemProc :=
  match setup with
  | .detached => { s with live := s.live - passed }
  | .unhooked => s
  | .hooked =>
    match s.checkAndSwapIn g swapIn with
    | none => s
    | some s₁ =>
      if !unmapped then s₁
      else match trackerFind s₁.records ptr with
        | none => s₁
        | some r =>
          { s₁ with
            records := trackerRemove s₁.records ptr
            live := if freed && !r.swapped then s₁.live - r.size else s₁.live }

/-- A swap-out by the monitor, `swap_monitor_thread.c:93-134`. -/
def swapOut (setup : Setup) (s : MemProc) (offset : Nat) (oks : List Bool) : MemProc :=
  if setup ≠ .hooked ∨ s.swapped = true then s
  else
    let copied := copyAll s.records oks offset
    let s₁ := { s with records := copied.1, live := s.live - copied.2 }
    if copied.2 = 0 then s₁ else { s₁ with swapSize := copied.2, swapped := true }

end MemProc

/-! ### Bytes on the device and off it -/

def swappedBytes (rs : List Record) : Nat :=
  (rs.map fun r => if r.swapped then r.size else 0).sum

def residentBytes (rs : List Record) : Nat :=
  (rs.map fun r => if r.swapped then 0 else r.size).sum

/-- Mapping the record again takes exactly its size: memory that `rtMalloc` handed out has a
rounded size, physical memory keeps its own. -/
def Record.Rounded (g : ℕ+) (r : Record) : Prop :=
  r.need g = r.size

@[simp]
theorem swappedBytes_cons (r : Record) (rs : List Record) :
    swappedBytes (r :: rs) = (if r.swapped then r.size else 0) + swappedBytes rs :=
  sum_cons

@[simp]
theorem residentBytes_cons (r : Record) (rs : List Record) :
    residentBytes (r :: rs) = (if r.swapped then 0 else r.size) + residentBytes rs :=
  sum_cons

variable {size : Nat} {physical : Bool}

section

variable {g : ℕ+} {r : Record}

theorem Record.Rounded.swapIn (h : r.Rounded g) (outcome : Restore) :
    (r.swapIn g outcome).Rounded g ∧ (r.swapIn g outcome).size = r.size := by
  unfold Record.swapIn
  split
  · exact ⟨h, rfl⟩
  unfold Rounded need at h ⊢
  cases outcome with
  | ok =>
    by_cases hp : r.physical = true
    · simp [hp, markActive]
    · simp only [hp, Bool.false_eq_true, if_false] at h
      simp [hp, markActive, grow, h]
  | failed => exact ⟨h, rfl⟩
  | failedAfterMap =>
    by_cases hp : r.physical = true
    · simp [hp]
    · simp only [hp, Bool.false_eq_true, if_false] at h
      simp [hp, grow, h]

theorem Record.swapped_swapIn (outcome : Restore) :
    (r.swapIn g outcome).swapped = (r.swapped && outcome != .ok) := by
  unfold Record.swapIn
  cases hs : r.swapped with
  | false => simp [hs]
  | true =>
    cases outcome with
    | ok =>
      by_cases hp : r.physical = true <;> simp [hp, markActive]
    | failed => simp [hs]
    | failedAfterMap =>
      by_cases hp : r.physical = true
      · simp [hp, hs]
      · simp [hp, hs, grow]

/-- Bringing records back keeps their sizes. -/
theorem restoreAll_records (rs : List Record) (cs : List RestoreCall)
    (h : ∀ r ∈ rs, r.Rounded g) :
    (∀ r ∈ (restoreAll g rs cs).1, r.Rounded g) ∧
      (restoreAll g rs cs).1.map Record.size = rs.map Record.size := by
  induction rs generalizing cs with
  | nil => exact ⟨h, by simp [restoreAll]⟩
  | cons r rs ih =>
    cases cs with
    | nil => exact ⟨h, by simp [restoreAll]⟩
    | cons c cs =>
      rw [forall_mem_cons] at h
      obtain ⟨hrounded, hsizes⟩ := ih cs h.2
      obtain ⟨hr, hsize⟩ := h.1.swapIn c.outcome
      simp only [restoreAll, forall_mem_cons, map_cons, hsize, hsizes]
      exact ⟨⟨hr, hrounded⟩, trivial⟩

/-- If nothing leaks, the records that come back leave the swapped bytes for the resident ones. -/
theorem restoreAll_bytes (rs : List Record) (cs : List RestoreCall) (h : ∀ r ∈ rs, r.Rounded g)
    (hleaks : ∀ c ∈ cs, c.leaks = false) :
    (restoreAll g rs cs).2 + swappedBytes (restoreAll g rs cs).1 = swappedBytes rs ∧
      residentBytes (restoreAll g rs cs).1 = residentBytes rs + (restoreAll g rs cs).2 := by
  induction rs generalizing cs with
  | nil => simp [restoreAll]
  | cons r rs ih =>
    cases cs with
    | nil => simp [restoreAll]
    | cons c cs =>
      rw [forall_mem_cons] at h hleaks
      obtain ⟨hswapped, hresident⟩ := ih cs h.2 hleaks.2
      have hneed : r.need g = r.size := h.1
      simp only [restoreAll, swappedBytes_cons, residentBytes_cons, swapped_swapIn,
        (h.1.swapIn c.outcome).2, RestoreCall.bytes, hneed, hleaks.1]
      constructor
      · cases r.swapped <;> cases c.outcome <;> simp <;> omega
      · cases r.swapped <;> cases c.outcome <;> simp <;> omega

/-- With nothing swapped out there is nothing to bring back. -/
theorem restoreAll_of_none_swapped {rs : List Record} (cs : List RestoreCall)
    (h : ∀ r ∈ rs, r.swapped = false) : restoreAll g rs cs = (rs, 0) := by
  induction rs generalizing cs with
  | nil => simp [restoreAll]
  | cons r rs ih =>
    cases cs with
    | nil => simp [restoreAll]
    | cons c cs =>
      rw [forall_mem_cons] at h
      simp [restoreAll, ih cs h.2, Record.swapIn, RestoreCall.bytes, h.1]

theorem bytes_of_none_swapped {rs : List Record} (h : ∀ r ∈ rs, r.swapped = false) :
    swappedBytes rs = 0 := by
  induction rs with
  | nil => rfl
  | cons r rs ih =>
    rw [forall_mem_cons] at h
    rw [swappedBytes_cons, h.1, ih h.2]
    simp

theorem map_size_copyAll (rs : List Record) (oks : List Bool) (offset : Nat) :
    (copyAll rs oks offset).1.map Record.size = rs.map Record.size := by
  induction rs generalizing oks offset with
  | nil => rfl
  | cons r rs ih =>
    cases oks with
    | nil => rfl
    | cons ok oks =>
      rw [copyAll, map_cons, map_cons, ih]
      congr 1
      unfold Record.swapOut
      split <;> rfl

/-- Copying out moves bytes from resident to swapped. -/
theorem copyAll_spec (rs : List Record) (oks : List Bool) (offset : Nat)
    (h : ∀ r ∈ rs, r.Rounded g) :
    (∀ r ∈ (copyAll rs oks offset).1, r.Rounded g) ∧
      swappedBytes (copyAll rs oks offset).1 = swappedBytes rs + (copyAll rs oks offset).2 ∧
      residentBytes (copyAll rs oks offset).1 + (copyAll rs oks offset).2 = residentBytes rs := by
  induction rs generalizing oks offset with
  | nil => exact ⟨h, rfl, rfl⟩
  | cons r rs ih =>
    cases oks with
    | nil => exact ⟨h, rfl, rfl⟩
    | cons ok oks =>
      rw [forall_mem_cons] at h
      simp only [copyAll, swappedBytes_cons, residentBytes_cons, forall_mem_cons]
      obtain ⟨hrounded, hswapped, hresident⟩ := ih oks (r.swapOut ok offset 0).2.1 h.2
      by_cases hskip : (r.swapped || !ok) = true
      · have hsame : r.swapOut ok offset 0 = (r, offset, 0) := by
          simp [swapOut, hskip]
        rw [hsame] at hrounded hswapped hresident ⊢
        dsimp only at hrounded hswapped hresident ⊢
        refine ⟨⟨h.1, hrounded⟩, ?_, ?_⟩
        all_goals omega
      · have hout : r.swapOut ok offset 0 = (r.markSwapped offset, offset + r.size, 0 + r.size) := by
          simp [swapOut, hskip]
        have hs : r.swapped = false := by
          simp only [Bool.or_eq_true, not_or, Bool.not_eq_true] at hskip
          exact hskip.1
        rw [hout] at hrounded hswapped hresident ⊢
        refine ⟨⟨h.1, hrounded⟩, ?_, ?_⟩
        · simp only [markSwapped, hs, if_true, Bool.false_eq_true, if_false] at hswapped ⊢
          omega
        · simp only [markSwapped, hs, if_true, Bool.false_eq_true, if_false] at hresident ⊢
          omega

theorem trackerAdd_spec (add : TrackerAdd) (ptr : Nat) {rs : List Record}
    (h : ∀ r ∈ rs, r.Rounded g) (hsize : physical = true ∨ alignUp g size = size) :
    (∀ r ∈ (trackerAdd add rs ptr size physical).2, r.Rounded g) ∧
      swappedBytes (trackerAdd add rs ptr size physical).2 = swappedBytes rs ∧
      residentBytes (trackerAdd add rs ptr size physical).2 ≤ residentBytes rs + size := by
  unfold trackerAdd
  split
  · exact ⟨h, rfl, Nat.le_add_right _ _⟩
  next hvalid =>
  have hstored : ∀ r : Record, r.size = size → r.physical = physical → r.swapped = false →
      (∀ r' ∈ rs ++ [r], r'.Rounded g) ∧ swappedBytes (rs ++ [r]) = swappedBytes rs ∧
      residentBytes (rs ++ [r]) ≤ residentBytes rs + size := by
    intro r hr hp hs
    refine ⟨?_, ?_, ?_⟩
    · intro r' hr'
      rw [mem_append, mem_singleton] at hr'
      rcases hr' with hold | rfl
      · exact h r' hold
      · unfold Rounded need
        rw [hr, hp]
        rcases hsize with rfl | hsize
        · rfl
        · rw [hsize, ite_self]
    · simp [swappedBytes, hs]
    · simp [residentBytes, hs, hr]
  cases add with
  | full => exact ⟨h, rfl, Nat.le_add_right _ _⟩
  | stored => exact hstored _ rfl rfl rfl
  | expandFails => exact hstored _ rfl rfl rfl

theorem mem_size_trackerAdd (add : TrackerAdd) (ptr : Nat) {rs : List Record} {n : Nat}
    (h : n ∈ (trackerAdd add rs ptr size physical).2.map Record.size) :
    n ∈ rs.map Record.size ∨ n = size := by
  unfold trackerAdd at h
  split at h
  · exact .inl h
  · cases add with
    | full => exact .inl h
    | stored | expandFails => simpa [mem_append] using h

/-- Removing the record of a pointer takes out the record that was found. -/
theorem trackerRemove_spec {rs : List Record} {ptr : Nat} (h : trackerFind rs ptr = some r) :
    (∀ r' ∈ trackerRemove rs ptr, r' ∈ rs) ∧
      swappedBytes (trackerRemove rs ptr) + (if r.swapped then r.size else 0) = swappedBytes rs ∧
      residentBytes (trackerRemove rs ptr) + (if r.swapped then 0 else r.size) =
        residentBytes rs := by
  unfold trackerFind trackerRemove at *
  induction rs with
  | nil => cases h
  | cons x rs ih =>
    cases hx : x.ptr == ptr with
    | true =>
      simp only [find?_cons, hx, Option.some.injEq] at h
      subst h
      rw [eraseP_cons, hx, cond_true]
      refine ⟨fun r' hr' => mem_cons_of_mem _ hr', ?_, ?_⟩
      · rw [swappedBytes_cons]
        omega
      · rw [residentBytes_cons]
        omega
    | false =>
      simp only [find?_cons, hx] at h
      rw [eraseP_cons, hx, cond_false]
      obtain ⟨hmem, hswapped, hresident⟩ := ih h
      refine ⟨?_, ?_, ?_⟩
      · intro r' hr'
        rw [mem_cons] at hr' ⊢
        exact hr'.imp_right (hmem r')
      · rw [swappedBytes_cons, swappedBytes_cons]
        omega
      · rw [residentBytes_cons, residentBytes_cons]
        omega

end

/-! ### Runs of calls -/

namespace MemProc

/-- The calls of a process, with what the limiter and the device runtime answer. -/
inductive Call where
  | malloc (size : Nat) (guard : GuardCall) (swapIn : SwapInCall) (malloc : MallocCall)
    (passed : Nat)
  | mallocPhysical (size : Nat) (guard : GuardCall) (swapIn : SwapInCall) (malloc : MallocCall)
    (passed : Nat)
  | free (ptr : Nat) (unmapped freed : Bool) (swapIn : SwapInCall) (passed : Nat)
  | swapOut (offset : Nat) (oks : List Bool)

def step (g : ℕ+) (q : Quotas) (setup : Setup) (s : MemProc) : Call → MemProc
  | .malloc size guard swapIn malloc passed =>
    s.rtMalloc g q setup size guard swapIn malloc passed
  | .mallocPhysical size guard swapIn malloc passed =>
    s.rtMallocPhysical g q setup size guard swapIn malloc passed
  | .free ptr unmapped freed swapIn passed =>
    s.rtFree g setup ptr unmapped freed swapIn passed
  | .swapOut offset oks => s.swapOut setup offset oks

def init : MemProc :=
  { records := [], live := 0, swapped := false, swapSize := 0 }

def AllIn (s : MemProc) : Prop := ∀ r ∈ s.records, r.swapped = false

/-- When a call may be made. With the swap hook memory is only allocated while none is swapped
out, physical memory in multiples of the granularity, and a swap-in that fails loses no memory.
Without it the runtime takes no more memory than it is asked for. -/
def MayCall (g : ℕ+) (setup : Setup) (s : MemProc) : Call → Prop
  | .malloc size _ _ _ passed => if setup = .hooked then s.AllIn else passed ≤ size
  | .mallocPhysical size _ _ _ passed =>
    if setup = .hooked then s.AllIn ∧ (g : Nat) ∣ size else passed ≤ size
  | .free _ _ _ swapIn _ => swapIn.NoLeak
  | .swapOut _ _ => True

instance : DecidablePred AllIn := fun s => inferInstanceAs (Decidable (∀ r ∈ s.records, _))

instance (g : ℕ+) (setup : Setup) (s : MemProc) : DecidablePred (MayCall g setup s)
  | .malloc _ _ _ _ _ | .mallocPhysical _ _ _ _ _ => inferInstanceAs (Decidable (ite _ _ _))
  | .free _ _ _ swapIn _ => inferInstanceAs (Decidable swapIn.NoLeak)
  | .swapOut _ _ => isTrue trivial

variable {g : ℕ+} {q : Quotas} {setup : Setup} {s : MemProc} {guard : GuardCall}

/-- Both checks of the limiter compare with the limit. -/
theorem live_add_le_of_admits (h : s.admits q guard size = true) : s.live + size ≤ q.limit := by
  unfold admits Quotas.guardMemory at h
  rw [Bool.and_eq_true] at h
  have hcheck := h.2
  cases hd : guard.dcmiOk with
  | false =>
    simp [hd, Quotas.memoryCheckElastic, Quotas.memoryCheck] at hcheck
  | true =>
    rw [hd, if_pos rfl] at hcheck
    split at hcheck
    · have hle := Quotas.memoryCheckElastic_le_limit hcheck
      omega
    · simp only [Quotas.memoryCheck, Bool.and_eq_true, decide_eq_true_eq] at hcheck
      omega

/-- Without the swap hook the check of the limiter is all there is. -/
theorem live_step_of_not_hooked (hsetup : setup ≠ .hooked) (h : s.live ≤ q.limit) {c : Call}
    (hmay : s.MayCall g setup c) : (s.step g q setup c).live ≤ q.limit := by
  have hallocate (requested allocated : Nat) (physical : Bool) (guard : GuardCall)
      (swapIn : SwapInCall) (malloc : MallocCall) {passed : Nat} (hpassed : passed ≤ requested) :
      (s.allocate g q setup requested allocated physical guard swapIn malloc passed).live ≤
        q.limit := by
    unfold allocate
    rw [if_pos hsetup]
    split
    · exact h
    next hadmits =>
    rw [Bool.not_eq_true', Bool.not_eq_false] at hadmits
    have hle := live_add_le_of_admits hadmits
    dsimp only
    omega
  cases c with
  | malloc size guard swapIn malloc passed | mallocPhysical size guard swapIn malloc passed =>
    exact hallocate _ _ _ _ _ _ ((if_neg hsetup).mp hmay)
  | free ptr unmapped freed swapIn passed =>
    cases setup with
    | detached => exact (Nat.sub_le _ _).trans h
    | unhooked => exact h
    | hooked => exact absurd rfl hsetup
  | swapOut offset oks =>
    simp only [step, MemProc.swapOut, hsetup, true_or, if_true, ne_eq, not_false_eq_true]
    exact h

/-- With the swap hook: all sizes are multiples of the granularity, the records on the device
are live, and everything fits on the device at once. -/
structure MemInv (g : ℕ+) (q : Quotas) (s : MemProc) : Prop where
  sizes : ∀ n ∈ s.records.map Record.size, (g : Nat) ∣ n
  resident : residentBytes s.records ≤ s.live
  aligned : (g : Nat) ∣ s.live + swappedBytes s.records
  fits : s.live + swappedBytes s.records ≤ q.limit

theorem memInv_init : MemInv g q init where
  sizes := by intro n hn; cases hn
  resident := Nat.le_refl 0
  aligned := Nat.dvd_zero _
  fits := Nat.zero_le _

theorem MemInv.rounded (h : MemInv g q s) : ∀ r ∈ s.records, r.Rounded g := by
  intro r hr
  unfold Record.Rounded Record.need
  rw [alignUp_of_dvd (h.sizes _ (mem_map_of_mem hr)), ite_self]

/-- Bringing records back moves their bytes onto the device. -/
theorem MemInv.checkAndSwapIn (h : MemInv g q s) {swapIn : SwapInCall} (hleak : swapIn.NoLeak)
    {s₁ : MemProc} (hs : s.checkAndSwapIn g swapIn = some s₁) : MemInv g q s₁ := by
  unfold MemProc.checkAndSwapIn at hs
  split at hs
  · cases hs
    exact h
  cases swapIn with
  | refused => cases hs
  | restore calls =>
    obtain ⟨hsum, hresident⟩ := restoreAll_bytes s.records calls h.rounded hleak
    have hres := h.resident
    have htotal : s.live + (restoreAll g s.records calls).2 +
        swappedBytes (restoreAll g s.records calls).1 = s.live + swappedBytes s.records := by
      omega
    cases hs
    refine ⟨?_, ?_, htotal ▸ h.aligned, htotal ▸ h.fits⟩
    · dsimp only
      rw [(restoreAll_records s.records calls h.rounded).2]
      exact h.sizes
    · dsimp only
      omega

/-- With nothing swapped out, the check for swapped memory changes no byte. -/
theorem checkAndSwapIn_of_allIn (h : s.AllIn) {swapIn : SwapInCall} {s₁ : MemProc}
    (hs : s.checkAndSwapIn g swapIn = some s₁) : s₁.records = s.records ∧ s₁.live = s.live := by
  unfold MemProc.checkAndSwapIn at hs
  split at hs
  · cases hs
    exact ⟨rfl, rfl⟩
  cases swapIn with
  | refused => cases hs
  | restore calls =>
    dsimp only at hs
    rw [restoreAll_of_none_swapped calls h] at hs
    cases hs
    exact ⟨rfl, rfl⟩

/-- An allocation that fits, with its record. -/
theorem MemInv.take (h : MemInv g q s) (hsize : (g : Nat) ∣ size)
    (hroom : s.live + swappedBytes s.records + size ≤ q.limit) (physical : Bool)
    (malloc : MallocCall) : MemInv g q (s.take size physical malloc) := by
  have hres := h.resident
  have haligned : (g : Nat) ∣ s.live + size + swappedBytes s.records := by
    rw [Nat.add_right_comm]
    exact Nat.dvd_add h.aligned hsize
  cases malloc with
  | failed => exact h
  | lost =>
    refine ⟨h.sizes, ?_, haligned, ?_⟩
    all_goals
      dsimp only [MemProc.take]
      omega
  | taken ptr add =>
    have hround : physical = true ∨ alignUp g size = size := .inr (alignUp_of_dvd hsize)
    obtain ⟨-, hswapped, hresident⟩ := trackerAdd_spec add ptr h.rounded hround
    refine ⟨?_, ?_, hswapped ▸ haligned, ?_⟩
    · intro n hn
      rcases mem_size_trackerAdd add ptr hn with hold | rfl
      · exact h.sizes n hold
      · exact hsize
    all_goals
      dsimp only [MemProc.take]
      omega

/-- An allocation while nothing is swapped out takes what the limiter has checked, or fits
whenever that does. -/
theorem MemInv.allocate (h : MemInv g q s) (hin : s.AllIn) {requested allocated : Nat}
    (hsize : (g : Nat) ∣ allocated)
    (hroom : s.live + requested ≤ q.limit → s.live + allocated ≤ q.limit) {physical : Bool}
    {swapIn : SwapInCall} {malloc : MallocCall} {passed : Nat} :
    MemInv g q
      (s.allocate g q .hooked requested allocated physical guard swapIn malloc passed) := by
  unfold MemProc.allocate
  split
  · exact h
  next hadmits =>
  rw [Bool.not_eq_true', Bool.not_eq_false] at hadmits
  rw [if_neg (by decide)]
  split
  · exact h
  next s₁ hs₁ =>
  obtain ⟨hrecords, hlive⟩ := checkAndSwapIn_of_allIn hin hs₁
  have hs : MemInv g q s₁ := by
    obtain ⟨hsizes, hresident, haligned, hfits⟩ := h
    rw [← hrecords] at hsizes hresident haligned hfits
    rw [← hlive] at hresident haligned hfits
    exact ⟨hsizes, hresident, haligned, hfits⟩
  apply hs.take hsize
  rw [hrecords, hlive, bytes_of_none_swapped hin]
  exact hroom (live_add_le_of_admits hadmits)

/-- The `rtFree` hook, whichever way it ends. -/
theorem MemInv.rtFree (h : MemInv g q s) {swapIn : SwapInCall} (hleak : swapIn.NoLeak)
    (ptr : Nat) (unmapped freed : Bool) (passed : Nat) :
    MemInv g q (s.rtFree g .hooked ptr unmapped freed swapIn passed) := by
  unfold MemProc.rtFree
  dsimp only
  split
  · exact h
  next s₁ hs₁ =>
  have h₁ := h.checkAndSwapIn hleak hs₁
  split
  · exact h₁
  split
  · exact h₁
  next r hfind =>
  obtain ⟨hmem, hswapped, hres⟩ := trackerRemove_spec hfind
  have hr : (g : Nat) ∣ r.size := h₁.sizes _ (mem_map_of_mem (mem_of_find?_eq_some hfind))
  obtain ⟨hsizes, hresident, haligned, hfits⟩ := h₁
  have hsub : ∀ n ∈ (trackerRemove s₁.records ptr).map Record.size, (g : Nat) ∣ n := by
    intro n hn
    obtain ⟨r', hr', rfl⟩ := mem_map.mp hn
    exact hsizes _ (mem_map_of_mem (hmem r' hr'))
  cases hout : r.swapped with
  | true =>
    rw [hout, if_pos rfl] at hswapped
    rw [hout, if_pos rfl] at hres
    simp only [Bool.not_true, Bool.and_false, Bool.false_eq_true, if_false]
    refine ⟨hsub, ?_, ?_, ?_⟩
    · dsimp only
      omega
    · dsimp only
      rw [← hswapped, ← Nat.add_assoc] at haligned
      exact (Nat.dvd_add_left hr).mp haligned
    · dsimp only
      omega
  | false =>
    rw [hout, if_neg Bool.false_ne_true] at hswapped
    rw [hout, if_neg Bool.false_ne_true] at hres
    simp only [Bool.not_false, Bool.and_true]
    rw [← hswapped] at haligned hfits
    refine ⟨hsub, ?_, ?_, ?_⟩
    · dsimp only
      split <;> omega
    · dsimp only
      split
      · have hleft := Nat.dvd_sub haligned hr
        rwa [Nat.sub_add_comm (by omega)] at hleft
      · exact haligned
    · dsimp only
      split <;> omega

theorem MemInv.swapOut (h : MemInv g q s) (offset : Nat) (oks : List Bool) :
    MemInv g q (s.swapOut .hooked offset oks) := by
  unfold MemProc.swapOut
  split
  · exact h
  obtain ⟨-, hswapped, hresident⟩ := copyAll_spec s.records oks offset h.rounded
  have hres := h.resident
  have htotal : s.live - (copyAll s.records oks offset).2 +
      swappedBytes (copyAll s.records oks offset).1 = s.live + swappedBytes s.records := by
    omega
  have hsizes : ∀ n ∈ (copyAll s.records oks offset).1.map Record.size, (g : Nat) ∣ n := by
    rw [map_size_copyAll]
    exact h.sizes
  dsimp only
  split
  all_goals
    refine ⟨hsizes, ?_, htotal ▸ h.aligned, htotal ▸ h.fits⟩
    dsimp only
    omega

/-- One call of a process with the swap hook, when the limit is a multiple of the granularity. -/
theorem MemInv.step (hlimit : (g : Nat) ∣ q.limit) (h : MemInv g q s) {c : Call}
    (hmay : s.MayCall g .hooked c) : MemInv g q (s.step g q .hooked c) := by
  cases c with
  | malloc size guard swapIn malloc passed =>
    have hin : s.AllIn := hmay
    apply h.allocate hin (dvd_alignUp g size)
    -- what is left below the limit is a multiple of the granularity
    intro hle
    have hlive : (g : Nat) ∣ s.live := by
      have haligned := h.aligned
      rwa [bytes_of_none_swapped hin] at haligned
    have hround := alignUp_le (Nat.dvd_sub hlimit hlive) (Nat.le_sub_of_add_le' hle)
    omega
  | mallocPhysical size guard swapIn malloc passed => exact h.allocate hmay.1 hmay.2 id
  | free ptr unmapped freed swapIn passed =>
    exact h.rtFree hmay ptr unmapped freed passed
  | swapOut offset oks => exact h.swapOut offset oks

/-- In every sequence of calls that may be made, the live device memory never exceeds the
limit. -/
theorem live_le_limit (g : ℕ+) (q : Quotas) (setup : Setup) (run : List Call)
    (hlimit : setup = .hooked → (g : Nat) ∣ q.limit)
    (hrun : EachStep (step g q setup) (MayCall g setup) init run) :
    Throughout (step g q setup) (fun s => s.live ≤ q.limit) init run := by
  by_cases hsetup : setup = .hooked
  · subst hsetup
    have hinv : Throughout (step g q .hooked) (MemInv g q) init run :=
      throughout_of_step memInv_init (fun _ _ hs hmay => hs.step (hlimit rfl) hmay) hrun
    apply hinv.mono
    intro s hs
    exact Nat.le_trans (Nat.le_add_right _ _) hs.fits
  · exact throughout_of_step (Nat.zero_le _)
      (fun _ _ hs hmay => live_step_of_not_hooked hsetup hs hmay) hrun

def elastic : Quotas :=
  ⟨1048576, 4194304⟩

def freeGuard : GuardCall :=
  ⟨true, true, true, 4194304⟩

/-- 1.5 MB are allocated, rounded up to 2 MB, and swapped out; freeing something else brings
them back, and then there is room for another 1.5 MB. -/
theorem swapRoundTrip_le_limit :
    Throughout (step 2097152 elastic .hooked) (fun s => s.live ≤ elastic.limit) init
      [.malloc 1572864 freeGuard .refused (.taken 1 .stored) 0, .swapOut 0 [true],
        .free 2 true true (.restore [⟨.ok, false⟩]) 0,
        .malloc 1572864 freeGuard .refused (.taken 2 .stored) 0] := by
  apply live_le_limit
  · decide
  · decide +kernel

/-- 4 MB are allocated and swapped out; then nothing is live, the next 4 MB are admitted, and
the first 4 MB come back before they are allocated. -/
theorem swappedAllocation_exceeds_limit :
    ¬ Throughout (step 2097152 elastic .hooked) (fun s => s.live ≤ elastic.limit) init
      [.malloc 4194304 freeGuard .refused (.taken 1 .stored) 0, .swapOut 0 [true],
        .malloc 4194304 freeGuard (.restore [⟨.ok, false⟩]) (.taken 2 .stored) 0] := by
  intro h
  exact absurd h.last (by decide +kernel)

end MemProc

end UbsVirt.Enpu
