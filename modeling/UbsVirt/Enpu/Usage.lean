import Mathlib.Data.Fintype.BigOperators
import UbsVirt.Enpu.DeviceMemory
import UbsVirt.Enpu.Epoch
import UbsVirt.Lib.Maps

/-!
# The usage counters of a die

`hbm_used` is kept twice, for a vNPU and for each of its process slots. The runtime counts
what it records and what it swaps, the manager takes back what dead processes left, and a
recovery writes the entries again. This module relates both counters to the records of the
processes. Source: `vcann-rt/src/swap_hook.c:55-281`, `swap_monitor_thread.c:85-163`,
`npu_manager.c:260-331`, `enpu-manager/core/src/pod_watchdog.c:91-187`,
`npu_allocator.c:981-1064`.
-/

namespace UbsVirt.Enpu

open Run Function Maps Watched Finset ProcessEntry

instance : Fintype Slot :=
  inferInstanceAs (Fintype (Fin maxProcessesPerVnpu))

/-- A runtime process with the swap hook; it has no slot when its registration failed. -/
structure UsageProc where
  vnpu : Nat
  slot : Option Slot
  records : List Record

open UsageProc

/-- A die and its processes, named by their pids. -/
structure UsageState where
  die : Watched
  procs : Nat → Option UsageProc

/-- The steps. A process that crashes leaves its slot as it is. -/
inductive UsageStep where
  | addEntry (v : Nat) (e : VnpuShmEntry)
  | register (p v now : Nat)
  | unregister (p : Nat)
  | crash (p : Nat)
  | malloc (p ptr size : Nat) (physical : Bool) (add : TrackerAdd) (handleOk : Bool)
  | free (p ptr : Nat) (physical unmapped handleOk : Bool)
  | swapOut (p : Nat) (oks : List Bool)
  | swapIn (p : Nat) (calls : List RestoreCall)
  | heartbeat (v : Nat) (i : Slot) (now : Nat)
  | reap (v : Nat) (i : Slot) (now : Nat)
  | reset (v : Nat)
  | recover (v : Nat) (e : VnpuShmEntry)

namespace ShmState

/-- `hbm_used` of each vNPU is that of its slots together. -/
def Balanced (st : ShmState) : Prop :=
  ∀ v, (st.entries v).hbmUsed = ∑ i, (st.slot v i).hbmUsed

/-- Count new bytes, `swap_hook.c:69-77`; a process without a slot counts for its vNPU only. -/
def charge (st : ShmState) (v : Nat) (size : Nat) : Option Slot → ShmState
  | some i => st.addUsed v i size
  | none =>
    if st.bitmapTest v then st.modifyEntry v fun e => { e with hbmUsed := e.hbmUsed + size } else st

/-- Take back bytes, `swap_hook.c:237-244`. -/
def uncharge (st : ShmState) (v : Nat) (size : Nat) : Option Slot → ShmState
  | some i => st.subUsed v i size
  | none =>
    if st.bitmapTest v then st.modifyEntry v fun e => { e with hbmUsed := subU64 e.hbmUsed size }
    else st

end ShmState

namespace UsageProc

/-- `swap_hook_malloc_mem` and `swap_hook_malloc_physical_mem`, `swap_hook.c:55-113`: the bytes
are counted once the block is recorded, and physical memory once its handle is recorded too. -/
def malloc (g : ℕ+) (st : ShmState) (a : UsageProc) (ptr size : Nat) (physical : Bool)
    (add : TrackerAdd) (handleOk : Bool) : ShmState × UsageProc :=
  let allocated := if physical then size else alignUp g size
  let (ok, records) := trackerAdd add a.records ptr allocated physical
  (if ok && (!physical || handleOk) then st.charge a.vnpu allocated a.slot else st,
    { a with records := records })

/-- The record a free finds; `rtFree` unmaps the block first, which may fail. -/
def freed (a : UsageProc) (ptr : Nat) (physical unmapped : Bool) : Option Record :=
  if physical || unmapped then trackerFind a.records ptr else none

/-- `swap_hook_free_mem` and `swap_hook_free_physical_mem`, `swap_hook.c:212-281`: the bytes are
taken back once the record is gone, and for physical memory its handle too. -/
def free (st : ShmState) (a : UsageProc) (ptr : Nat) (physical unmapped handleOk : Bool) :
    ShmState × UsageProc :=
  match a.freed ptr physical unmapped with
  | none => (st, a)
  | some r =>
    (if !physical || handleOk then st.uncharge a.vnpu r.size a.slot else st,
      { a with records := trackerRemove a.records ptr })

/-- A swap-out by the monitor, `swap_monitor_thread.c:93-148`. -/
def swapOut (st : ShmState) (a : UsageProc) (oks : List Bool) : ShmState × UsageProc :=
  match a.slot with
  | none => (st, a)
  | some i =>
    if (st.slot a.vnpu i).swapped || !st.bitmapTest a.vnpu then (st, a)
    else
      let copied := copyAll a.records oks (st.slot a.vnpu i).swapOffset
      (if copied.2 = 0 then st
        else (st.publishSwapSize a.vnpu i copied.2).finishSwapOut a.vnpu i copied.2,
        { a with records := copied.1 })

/-- `swap_hook_check_and_swap_in` after its locks were taken, `swap_hook.c:126-206`. -/
def swapIn (g : ℕ+) (st : ShmState) (a : UsageProc) (calls : List RestoreCall) :
    ShmState × UsageProc :=
  match a.slot with
  | none => (st, a)
  | some i =>
    if !(st.slot a.vnpu i).swapped then (st, a)
    else
      (st.finishSwapIn a.vnpu i (st.slot a.vnpu i).swapSize,
        { a with records := (restoreAll g a.records calls).1 })

end UsageProc

namespace UsageState

/-- A process does something to the shared state and its records. -/
def act (s : UsageState) (p : Nat) (f : UsageProc → ShmState × UsageProc) : UsageState :=
  match s.procs p with
  | none => s
  | some a =>
    { die := s.die.onShm fun _ => (f a).1, procs := Function.update s.procs p (some (f a).2) }

/-- The state after a step. A new and a recovered entry count no bytes. -/
def step (g : ℕ+) (s : UsageState) : UsageStep → UsageState
  | .addEntry v e => { s with die := s.die.step (.addEntry v { e with hbmUsed := 0 }) }
  | .register p v now =>
    match s.procs p with
    | some _ => s
    | none =>
      let r := s.die.shm.registerProcess v now
      { die := s.die.onShm fun _ => r.2
        procs := Function.update s.procs p (some ⟨v, r.1, []⟩) }
  | .unregister p =>
    match s.procs p with
    | none => s
    | some a =>
      { die := s.die.onShm fun st => a.slot.elim st fun i => st.unregisterProcess a.vnpu i
        procs := Function.update s.procs p none }
  | .crash p => { s with procs := Function.update s.procs p none }
  | .malloc p ptr size physical add handleOk =>
    s.act p fun a => a.malloc g s.die.shm ptr size physical add handleOk
  | .free p ptr physical unmapped handleOk =>
    s.act p fun a => a.free s.die.shm ptr physical unmapped handleOk
  | .swapOut p oks => s.act p fun a => a.swapOut s.die.shm oks
  | .swapIn p calls => s.act p fun a => a.swapIn g s.die.shm calls
  | .heartbeat v i now => { s with die := s.die.step (.heartbeat v i now) }
  | .reap v i now => { s with die := reapSlot now processAliveTimeoutNs s.die v i }
  | .reset v => { s with die := s.die.resetRuntimeState v }
  | .recover v e => { s with die := s.die.step (.recoverEntry v { e with hbmUsed := 0 }) }

def init (dieId : String) (pool : Tlsf.Pool) (lastAlive : Option (Nat → Nat)) : UsageState :=
  { die := ⟨pool, .create dieId, lastAlive⟩, procs := fun _ => none }

/-- The counters are exact: `hbm_used` of the active slot of a process is that of its records on
the device, and `hbm_used` of a vNPU that of its slots. -/
structure UsageExact (s : UsageState) : Prop where
  vnpu : s.die.shm.Balanced
  slot : ∀ p a i, s.procs p = some a → a.slot = some i →
    (s.die.shm.slot a.vnpu i).active = true →
    (s.die.shm.slot a.vnpu i).hbmUsed = residentBytes a.records

/-- What a step subtracts without a clamp: the vNPU, the slot if any, and the bytes. -/
def debit (s : UsageState) : UsageStep → Option (Nat × Option Slot × Nat)
  | .unregister p => do
    let a ← s.procs p
    let i ← a.slot
    return (a.vnpu, some i, (s.die.shm.slot a.vnpu i).hbmUsed)
  | .free p ptr physical unmapped _ => do
    let a ← s.procs p
    let r ← a.freed ptr physical unmapped
    return (a.vnpu, a.slot, r.size)
  | .reap v i _ => some (v, some i, (s.die.shm.slot v i).hbmUsed)
  | _ => none

/-- No counter wraps below zero in a step. -/
def NoWrap (s : UsageState) (l : UsageStep) : Prop :=
  ∀ d ∈ s.debit l, d.2.2 ≤ (s.die.shm.entries d.1).hbmUsed ∧
    ∀ i ∈ d.2.1, d.2.2 ≤ (s.die.shm.slot d.1 i).hbmUsed

end UsageState

/-! ### When the counters stay exact -/

def allRestored : List Record → List RestoreCall → Bool
  | r :: rs, c :: cs => (!r.swapped || c.outcome == .ok) && allRestored rs cs
  | rs, _ => rs.all fun r => !r.swapped

namespace UsageProc

/-- When a process may allocate: nothing is recorded, or all of it is and counted. -/
def MayMalloc (st : ShmState) (a : UsageProc) (physical : Bool) (add : TrackerAdd)
    (handleOk : Bool) : Prop :=
  add = .full ∨ a.slot ≠ none ∧ st.bitmapTest a.vnpu = true ∧ add = .stored ∧
    (physical = true → handleOk = true)

/-- When a process may free: the block is on the device and its bytes are taken back. -/
def MayFree (st : ShmState) (a : UsageProc) (ptr : Nat) (physical unmapped handleOk : Bool) :
    Prop :=
  ∀ r ∈ a.freed ptr physical unmapped, r.swapped = false ∧ st.bitmapTest a.vnpu = true ∧
    (physical = true → handleOk = true)

/-- When a process may swap in: its vNPU has an entry, and every record comes back. -/
def MaySwapIn (st : ShmState) (a : UsageProc) (calls : List RestoreCall) : Prop :=
  ∀ i ∈ a.slot, (st.slot a.vnpu i).swapped = true →
    st.bitmapTest a.vnpu = true ∧ allRestored a.records calls = true

end UsageProc

namespace UsageState

/-- No process that runs has a slot of the vNPU. -/
def Unused (s : UsageState) (v : Nat) : Prop :=
  ∀ p, ∀ a ∈ s.procs p, a.vnpu = v → a.slot = none

/-- When a step may be taken: what a process records is counted, what comes back is all that
was swapped out, the manager only takes the slots of processes that are gone, and an entry is
recovered while it counts nothing. -/
def MayUse (s : UsageState) : UsageStep → Prop
  | .addEntry v _ => s.die.shm.bitmapTest v = true ∨ s.Unused v
  | .malloc p _ _ physical add handleOk =>
    ∀ a ∈ s.procs p, a.MayMalloc s.die.shm physical add handleOk
  | .free p ptr physical unmapped handleOk =>
    ∀ a ∈ s.procs p, a.MayFree s.die.shm ptr physical unmapped handleOk
  | .swapIn p calls => ∀ a ∈ s.procs p, a.MaySwapIn s.die.shm calls
  | .reap v i now =>
    ∀ p, ∀ a ∈ s.procs p, a.vnpu = v → a.slot = some i →
      HeartbeatFresh now (s.die.shm.slot v i).lastHeartbeatNs
  | .reset v => s.Unused v
  | .recover v _ => (s.die.shm.entries v).hbmUsed = 0
  | _ => True

end UsageState

/-! ### Changes of one slot and its vNPU -/

namespace ShmState

section

variable {st st₁ st₂ : ShmState} {v : Nat} {i : Slot}

/-- At most one slot changes, and its vNPU counts the difference. -/
structure SlotChange (st st' : ShmState) (v : Nat) (i : Slot) : Prop where
  slots : ∀ w j, (w ≠ v ∨ j ≠ i) → st'.slot w j = st.slot w j
  vnpus : ∀ w, w ≠ v → (st'.entries w).hbmUsed = (st.entries w).hbmUsed
  balance : (st'.entries v).hbmUsed + (st.slot v i).hbmUsed =
    (st.entries v).hbmUsed + (st'.slot v i).hbmUsed

theorem SlotChange.refl (st : ShmState) (v : Nat) (i : Slot) : SlotChange st st v i :=
  ⟨fun _ _ _ => rfl, fun _ _ => rfl, rfl⟩

theorem SlotChange.trans (h : SlotChange st st₁ v i) (h' : SlotChange st₁ st₂ v i) :
    SlotChange st st₂ v i where
  slots w j hne := (h'.slots w j hne).trans (h.slots w j hne)
  vnpus w hne := (h'.vnpus w hne).trans (h.vnpus w hne)
  balance := by
    have hfirst := h.balance
    have hsecond := h'.balance
    omega

theorem SlotChange.balanced (h : SlotChange st st₁ v i) (hst : st.Balanced) : st₁.Balanced := by
  intro w
  by_cases hw : w = v
  · subst hw
    have hrest : ∑ j ∈ univ.erase i, (st₁.slot w j).hbmUsed =
        ∑ j ∈ univ.erase i, (st.slot w j).hbmUsed := by
      apply sum_congr rfl
      intro j hj
      rw [h.slots w j (.inr (ne_of_mem_erase hj))]
    have hbefore := hst w
    have hbalance := h.balance
    rw [← add_sum_erase _ _ (mem_univ i)] at hbefore
    rw [← add_sum_erase _ _ (mem_univ i), hrest]
    omega
  · rw [h.vnpus w hw, hst w]
    apply sum_congr rfl
    intro j _
    rw [h.slots w j (.inl hw)]

theorem Balanced.slot_le (hst : st.Balanced) (v : Nat) (i : Slot) :
    (st.slot v i).hbmUsed ≤ (st.entries v).hbmUsed := by
  rw [hst v]
  exact single_le_sum (f := fun j => (st.slot v j).hbmUsed) (fun _ _ => Nat.zero_le _) (mem_univ i)

def recount (st : ShmState) (v : Nat) (i : Slot) (count : Nat → Nat)
    (f : ProcessEntry → ProcessEntry) : ShmState :=
  (st.modifyEntry v fun e => { e with hbmUsed := count e.hbmUsed }).modifySlot v i f

variable {count : Nat → Nat} {f : ProcessEntry → ProcessEntry}

@[simp]
theorem slot_recount : (st.recount v i count f).slot v i = f (st.slot v i) := by
  unfold recount
  rw [slot_modifySlot_self, slot_modifyEntry]
  exact fun _ => rfl

theorem SlotChange.recount (h : count (st.entries v).hbmUsed + (st.slot v i).hbmUsed =
    (st.entries v).hbmUsed + (f (st.slot v i)).hbmUsed) :
    SlotChange st (st.recount v i count f) v i where
  slots w j hne := by
    unfold ShmState.recount
    rw [slot_modifySlot_of_ne hne, slot_modifyEntry]
    exact fun _ => rfl
  vnpus w hne := by simp [ShmState.recount, modifyEntry, hne]
  balance := by
    rw [slot_recount, ← h]
    simp [ShmState.recount, modifyEntry]

theorem SlotChange.modifySlot (h : (f (st.slot v i)).hbmUsed = (st.slot v i).hbmUsed) :
    SlotChange st (st.modifySlot v i f) v i where
  slots w j hne := slot_modifySlot_of_ne hne
  vnpus w _ := hbmUsed_modifySlot w f
  balance := by rw [hbmUsed_modifySlot, slot_modifySlot_self, h]

theorem publish_finishSwapOut_eq (act : Nat) : (st.publishSwapSize v i act).finishSwapOut v i act =
      st.recount v i (fun used => used - min act used) fun pe =>
        { pe with swapSize := act, hbmUsed := pe.hbmUsed - min act pe.hbmUsed, swapped := true } := by
  unfold publishSwapSize finishSwapOut recount
  simp [modifySlot, modifyEntry]

end

end ShmState

/-! ### What a process does to its slot -/

open ShmState

/-- A slot counts what its process has on the device, and `swap_size` what it has swapped out. -/
structure SlotOk (g : ℕ+) (pe : ProcessEntry) (rs : List Record) : Prop where
  active : pe.active = true
  used : pe.hbmUsed = residentBytes rs
  out : pe.swapped = true → pe.swapSize = swappedBytes rs
  home : pe.swapped = false → swappedBytes rs = 0
  rounded : ∀ r ∈ rs, r.Rounded g

section

variable {g : ℕ+} {rs : List Record}

theorem trackerAdd_full (rs : List Record) (ptr size : Nat) (physical : Bool) :
    trackerAdd .full rs ptr size physical = (false, rs) := by
  unfold trackerAdd
  split <;> rfl

theorem trackerAdd_stored (rs : List Record) (ptr size : Nat) (physical : Bool) :
    trackerAdd .stored rs ptr size physical = (false, rs) ∨
      (trackerAdd .stored rs ptr size physical).1 = true ∧
        residentBytes (trackerAdd .stored rs ptr size physical).2 = residentBytes rs + size := by
  unfold trackerAdd
  split
  · exact .inl rfl
  · exact .inr ⟨rfl, by simp [residentBytes]⟩

theorem restoreAll_of_allRestored {cs : List RestoreCall} (hrounded : ∀ r ∈ rs, r.Rounded g)
    (h : allRestored rs cs = true) :
    swappedBytes (restoreAll g rs cs).1 = 0 ∧
      residentBytes (restoreAll g rs cs).1 = residentBytes rs + swappedBytes rs := by
  induction rs generalizing cs with
  | nil => exact ⟨rfl, rfl⟩
  | cons r rs ih =>
    rw [List.forall_mem_cons] at hrounded
    cases cs with
    | nil =>
      have hnone : swappedBytes (r :: rs) = 0 := by
        apply bytes_of_none_swapped
        simpa [allRestored] using h
      exact ⟨hnone, by rw [hnone]; rfl⟩
    | cons c cs =>
      simp only [allRestored, Bool.and_eq_true, Bool.or_eq_true, Bool.not_eq_true', beq_iff_eq] at h
      obtain ⟨hswapped, hresident⟩ := ih hrounded.2 h.2
      simp only [restoreAll, swappedBytes_cons, residentBytes_cons, Record.swapped_swapIn,
        (hrounded.1.swapIn c.outcome).2, hswapped, hresident]
      rcases h.1 with hhome | hok
      · simp [hhome, Nat.add_assoc]
      · cases r.swapped
        all_goals
          simp [hok]
          omega

end

variable {f : ProcessEntry → ProcessEntry}

namespace UsageProc

/-- A process keeps its vNPU and its slot, changes no other slot, and its slot stays exact. -/
structure Kept (g : ℕ+) (st : ShmState) (a : UsageProc) (i : Slot) (r : ShmState × UsageProc) :
    Prop where
  proc : r.2 = { a with records := r.2.records }
  change : SlotChange st r.1 a.vnpu i
  ok : SlotOk g (r.1.slot a.vnpu i) r.2.records

variable {g : ℕ+} {st : ShmState} {a : UsageProc} {i : Slot}

theorem Kept.refl (hok : SlotOk g (st.slot a.vnpu i) a.records) : Kept g st a i (st, a) :=
  ⟨rfl, .refl st a.vnpu i, hok⟩

theorem Kept.recount {count : Nat → Nat} {rs : List Record}
    (hbalance : count (st.entries a.vnpu).hbmUsed + (st.slot a.vnpu i).hbmUsed =
      (st.entries a.vnpu).hbmUsed + (f (st.slot a.vnpu i)).hbmUsed)
    (hok : SlotOk g (f (st.slot a.vnpu i)) rs) :
    Kept g st a i (st.recount a.vnpu i count f, { a with records := rs }) :=
  ⟨rfl, .recount hbalance, by rw [slot_recount]; exact hok⟩

variable {ptr : Nat} {physical : Bool}

theorem counted {handleOk : Bool} (h : physical = true → handleOk = true) :
    (!physical || handleOk) = true := by
  cases physical with
  | false => rfl
  | true => simpa using h rfl

/-- An allocation counts what it records. -/
theorem malloc_kept (hslot : a.slot = some i) (hok : SlotOk g (st.slot a.vnpu i) a.records)
    {size : Nat} {add : TrackerAdd} {handleOk : Bool}
    (hmay : a.MayMalloc st physical add handleOk) :
    Kept g st a i (a.malloc g st ptr size physical add handleOk) := by
  rcases hmay with rfl | ⟨-, hbit, rfl, hhandle⟩
  · have hfull : a.malloc g st ptr size physical .full handleOk = (st, a) := by
      simp only [malloc, trackerAdd_full]
      rfl
    rw [hfull]
    exact .refl hok
  simp only [malloc, counted hhandle, Bool.and_true]
  generalize hall : (if physical then size else alignUp g size) = allocated
  rcases trackerAdd_stored a.records ptr allocated physical with hnone | ⟨hadded, hresident⟩
  · rw [hnone]
    exact .refl hok
  have hsize : physical = true ∨ alignUp g allocated = allocated := by
    cases physical with
    | true => exact .inl rfl
    | false =>
      rw [if_neg Bool.false_ne_true] at hall
      exact .inr (alignUp_of_dvd (hall ▸ dvd_alignUp g size))
  obtain ⟨hrounded, hswapped, -⟩ := trackerAdd_spec .stored ptr hok.rounded hsize
  have hcharge : st.charge a.vnpu allocated a.slot = st.recount a.vnpu i (· + allocated)
      fun pe => { pe with hbmUsed := pe.hbmUsed + allocated } := by
    rw [hslot]
    simp only [charge, addUsed, hbit, if_true]
    rfl
  rw [hadded, if_pos rfl, hcharge]
  apply Kept.recount
  · dsimp only
    omega
  refine ⟨hok.active, ?_, ?_, ?_, hrounded⟩
  · dsimp only
    rw [hresident, hok.used]
  · intro hout
    rw [hswapped]
    exact hok.out hout
  · intro hhome
    rw [hswapped]
    exact hok.home hhome

variable {unmapped : Bool}

theorem trackerFind_of_freed {r : Record}
    (h : a.freed ptr physical unmapped = some r) : trackerFind a.records ptr = some r := by
  unfold freed at h
  split at h
  · exact h
  · cases h

theorem freed_le (hok : SlotOk g (st.slot a.vnpu i) a.records) {r : Record}
    (hr : a.freed ptr physical unmapped = some r)
    (hhome : r.swapped = false) : r.size ≤ (st.slot a.vnpu i).hbmUsed := by
  obtain ⟨-, -, hresident⟩ := trackerRemove_spec (trackerFind_of_freed hr)
  rw [hok.used, ← hresident, hhome]
  exact Nat.le_add_left _ _

section

variable (hslot : a.slot = some i) (hok : SlotOk g (st.slot a.vnpu i) a.records)
include hslot hok

theorem free_kept
    (hst : st.Balanced) {handleOk : Bool} (hmay : a.MayFree st ptr physical unmapped handleOk) :
    Kept g st a i (a.free st ptr physical unmapped handleOk) := by
  unfold free
  split
  · exact .refl hok
  next r hr =>
  obtain ⟨hhome, hbit, hhandle⟩ := hmay r hr
  obtain ⟨hmem, hswapped, hresident⟩ := trackerRemove_spec (trackerFind_of_freed hr)
  rw [hhome, if_neg Bool.false_ne_true] at hswapped hresident
  have hslotLe := freed_le hok hr hhome
  have hentryLe := hslotLe.trans (hst.slot_le a.vnpu i)
  have huncharge : st.uncharge a.vnpu r.size a.slot = st.recount a.vnpu i (subU64 · r.size)
      fun pe => { pe with hbmUsed := subU64 pe.hbmUsed r.size } := by
    rw [hslot]
    simp only [uncharge, subUsed, hbit, if_true]
    rfl
  rw [counted hhandle, if_pos rfl, huncharge]
  apply Kept.recount
  · dsimp only
    rw [subU64_of_le hslotLe, subU64_of_le hentryLe]
    omega
  refine ⟨hok.active, ?_, ?_, ?_, fun r' hr' => hok.rounded r' (hmem r' hr')⟩
  · dsimp only
    rw [subU64_of_le hslotLe, hok.used]
    omega
  · intro hout
    rw [hok.out hout]
    exact hswapped.symm
  · intro hin
    have hzero := hok.home hin
    omega

theorem swapOut_kept (hst : st.Balanced) (oks : List Bool) : Kept g st a i (a.swapOut st oks) := by
  unfold swapOut
  split
  next hnone => cases hslot.symm.trans hnone
  next j hj =>
  cases hslot.symm.trans hj
  split
  · exact .refl hok
  next hgo =>
  have hhome : (st.slot a.vnpu i).swapped = false := by
    cases hs : (st.slot a.vnpu i).swapped with
    | false => rfl
    | true => simp [hs] at hgo
  obtain ⟨hrounded, hswapped, hresident⟩ :=
    copyAll_spec a.records oks (st.slot a.vnpu i).swapOffset hok.rounded
  have hnone := hok.home hhome
  have hused := hok.used
  have hle := hst.slot_le a.vnpu i
  generalize copyAll a.records oks (st.slot a.vnpu i).swapOffset = copied at *
  dsimp only
  by_cases hzero : copied.2 = 0
  · rw [if_pos hzero]
    refine ⟨rfl, .refl st a.vnpu i, hok.active, ?_, ?_, ?_, hrounded⟩
    · dsimp only
      omega
    · intro hout
      rw [hhome] at hout
      cases hout
    · intro _
      dsimp only
      omega
  · rw [if_neg hzero, publish_finishSwapOut_eq]
    apply Kept.recount
    · dsimp only
      omega
    refine ⟨hok.active, ?_, ?_, nofun, hrounded⟩
    · dsimp only
      omega
    · intro _
      dsimp only
      omega

theorem swapIn_kept {calls : List RestoreCall} (hmay : a.MaySwapIn st calls) :
    Kept g st a i (a.swapIn g st calls) := by
  unfold swapIn
  split
  next hnone => cases hslot.symm.trans hnone
  next j hj =>
  cases hslot.symm.trans hj
  split
  · exact .refl hok
  next hgo =>
  have hout : (st.slot a.vnpu i).swapped = true := by simpa using hgo
  obtain ⟨hbit, hall⟩ := hmay i hslot hout
  have hrounded := (restoreAll_records a.records calls hok.rounded).1
  obtain ⟨hswapped, hresident⟩ := restoreAll_of_allRestored hok.rounded hall
  have hsize := hok.out hout
  have hused := hok.used
  generalize restoreAll g a.records calls = restored at *
  by_cases hzero : (st.slot a.vnpu i).swapSize = 0
  · rw [hzero, finishSwapIn, if_pos rfl]
    refine ⟨rfl, .refl st a.vnpu i, hok.active, ?_, ?_, fun _ => hswapped, hrounded⟩
    · dsimp only
      omega
    · intro _
      dsimp only
      omega
  · have heq : st.finishSwapIn a.vnpu i (st.slot a.vnpu i).swapSize =
        st.recount a.vnpu i (· + (st.slot a.vnpu i).swapSize) fun pe => { pe with
          hbmUsed := pe.hbmUsed + (st.slot a.vnpu i).swapSize, swapped := false } := by
      rw [finishSwapIn_eq hzero]
      simp only [hbit, if_true]
      rfl
    rw [heq]
    apply Kept.recount
    · dsimp only
      omega
    refine ⟨hok.active, ?_, by rintro ⟨⟩, fun _ => hswapped, hrounded⟩
    dsimp only
    omega

end

end UsageProc

/-! ### The invariant -/

/-- The same as far as the counters and the swap state go. -/
structure ProcessEntry.SameUse (pe pe' : ProcessEntry) : Prop where
  active : pe'.active = pe.active
  used : pe'.hbmUsed = pe.hbmUsed
  swapped : pe'.swapped = pe.swapped
  size : pe'.swapSize = pe.swapSize

theorem SlotOk.congr {g : ℕ+} {pe pe' : ProcessEntry} {rs : List Record} (h : SlotOk g pe rs)
    (hsame : pe.SameUse pe') : SlotOk g pe' rs where
  active := hsame.active.trans h.active
  used := hsame.used.trans h.used
  out := by
    rw [hsame.swapped, hsame.size]
    exact h.out
  home := by
    rw [hsame.swapped]
    exact h.home
  rounded := h.rounded

variable {v : Nat}

namespace UsageState

/-- The vNPUs count what their slots count, a free slot counts nothing, the slot of a process
is its own and counts what it has, and a process without a slot has nothing. -/
structure UsageInv (g : ℕ+) (s : UsageState) : Prop where
  balanced : s.die.shm.Balanced
  idle : ∀ v i, (s.die.shm.slot v i).active = false → (s.die.shm.slot v i).hbmUsed = 0
  ok : ∀ p a i, s.procs p = some a → a.slot = some i →
    SlotOk g (s.die.shm.slot a.vnpu i) a.records
  unslotted : ∀ p a, s.procs p = some a → a.slot = none → a.records = []
  distinct : ∀ p q a b i, s.procs p = some a → s.procs q = some b → a.vnpu = b.vnpu →
    a.slot = some i → b.slot = some i → p = q

variable {g : ℕ+} {s : UsageState}

theorem usageInv_init (dieId : String) (pool : Tlsf.Pool) (lastAlive : Option (Nat → Nat)) :
    UsageInv g (init dieId pool lastAlive) where
  balanced v := by
    symm
    apply sum_eq_zero
    intro i _
    rfl
  idle _ _ _ := rfl
  ok p a i hp := by cases hp
  unslotted p a hp := by cases hp
  distinct p q a b i hp := by cases hp

section

variable (h : UsageInv g s)
include h

theorem UsageInv.exact : UsageExact s where
  vnpu := h.balanced
  slot p a i hp hi _ := (h.ok p a i hp hi).used

/-- At most one slot changes, and at most one process holds it afterwards. -/
theorem UsageInv.change {s' : UsageState} {i : Slot} (p : Nat)
    (hchange : SlotChange s.die.shm s'.die.shm v i)
    (hidle : (s'.die.shm.slot v i).active = false → (s'.die.shm.slot v i).hbmUsed = 0)
    (hprocs : ∀ q b, s'.procs q = some b → s.procs q = some b ∧ ¬ (b.vnpu = v ∧ b.slot = some i) ∨
      q = p ∧ b.vnpu = v ∧ b.slot = some i ∧ SlotOk g (s'.die.shm.slot v i) b.records) :
    UsageInv g s' where
  balanced := hchange.balanced h.balanced
  idle w j hactive := by
    by_cases hsame : w = v ∧ j = i
    · rw [hsame.1, hsame.2] at hactive ⊢
      exact hidle hactive
    · have hslot := hchange.slots w j (by rw [← not_and_or]; exact hsame)
      rw [hslot] at hactive ⊢
      exact h.idle w j hactive
  ok q b j hq hj := by
    rcases hprocs q b hq with ⟨hold, hother⟩ | ⟨-, hv, hi, hok⟩
    · have hne : b.vnpu ≠ v ∨ j ≠ i := by
        rw [← not_and_or]
        intro hsame
        exact hother ⟨hsame.1, hj.trans (congrArg some hsame.2)⟩
      rw [hchange.slots b.vnpu j hne]
      exact h.ok q b j hold hj
    · rw [hi, Option.some.injEq] at hj
      rwa [hv, ← hj]
  unslotted q b hq hnone := by
    rcases hprocs q b hq with ⟨hold, -⟩ | ⟨-, -, hi, -⟩
    · exact h.unslotted q b hold hnone
    · rw [hnone] at hi
      cases hi
  distinct q r b c j hq hr hv hb hc := by
    rcases hprocs q b hq with ⟨hbOld, hbOther⟩ | ⟨hqp, hbv, hbi, -⟩
    · rcases hprocs r c hr with ⟨hcOld, -⟩ | ⟨-, hcv, hci, -⟩
      · exact h.distinct q r b c j hbOld hcOld hv hb hc
      · exact absurd ⟨hv.trans hcv, hb.trans (hc.symm.trans hci)⟩ hbOther
    · rcases hprocs r c hr with ⟨-, hcOther⟩ | ⟨hrp, -, -, -⟩
      · exact absurd ⟨hv.symm.trans hbv, hc.trans (hb.symm.trans hbi)⟩ hcOther
      · exact hqp.trans hrp.symm

/-- Processes leave, or come without a slot. -/
theorem UsageInv.onProcs {procs : Nat → Option UsageProc}
    (hprocs : ∀ q b, procs q = some b → s.procs q = some b ∨ b.slot = none ∧ b.records = []) :
    UsageInv g { s with procs := procs } where
  balanced := h.balanced
  idle := h.idle
  ok q b j hq hj := by
    rcases hprocs q b hq with hold | ⟨hnone, -⟩
    · exact h.ok q b j hold hj
    · rw [hnone] at hj
      cases hj
  unslotted q b hq hnone := by
    rcases hprocs q b hq with hold | ⟨-, hempty⟩
    · exact h.unslotted q b hold hnone
    · exact hempty
  distinct q r b c j hq hr hv hb hc := by
    rcases hprocs q b hq with hbOld | ⟨hnone, -⟩
    · rcases hprocs r c hr with hcOld | ⟨hnone, -⟩
      · exact h.distinct q r b c j hbOld hcOld hv hb hc
      · rw [hnone] at hc
        cases hc
    · rw [hnone] at hb
      cases hb

/-- No counter and no swap state changes. -/
theorem UsageInv.quiet {die : Watched}
    (hslots : ∀ v i, (s.die.shm.slot v i).SameUse (die.shm.slot v i))
    (hvnpus : ∀ v, (die.shm.entries v).hbmUsed = (s.die.shm.entries v).hbmUsed) :
    UsageInv g { s with die := die } where
  balanced v := by
    rw [hvnpus v, h.balanced v]
    apply sum_congr rfl
    intro i _
    exact (hslots v i).used.symm
  idle v i hactive := by
    rw [(hslots v i).used]
    rw [(hslots v i).active] at hactive
    exact h.idle v i hactive
  ok p a i hp hi := (h.ok p a i hp hi).congr (hslots a.vnpu i)
  unslotted := h.unslotted
  distinct := h.distinct

theorem UsageInv.onSlot (v : Nat) (i : Slot) (hf : ∀ pe, SameUse pe (f pe)) :
    UsageInv g { s with die := s.die.onShm (·.modifySlot v i f) } := by
  apply h.quiet
  · intro w j
    rw [shm_onShm, slot_modifySlot]
    split
    · next hsame =>
      rw [hsame.1, hsame.2]
      exact hf _
    · exact ⟨rfl, rfl, rfl, rfl⟩
  · intro w
    rw [shm_onShm, hbmUsed_modifySlot]

/-- The slots of a vNPU that no process uses are emptied. -/
theorem UsageInv.clear {die : Watched} (hunused : s.Unused v)
    (hslots : ∀ w i, w ≠ v → die.shm.slot w i = s.die.shm.slot w i)
    (hvnpus : ∀ w, w ≠ v → (die.shm.entries w).hbmUsed = (s.die.shm.entries w).hbmUsed)
    (hempty : ∀ i, die.shm.slot v i = .empty) (hzero : (die.shm.entries v).hbmUsed = 0) :
    UsageInv g { s with die := die } where
  balanced w := by
    by_cases hw : w = v
    · subst hw
      rw [hzero]
      symm
      apply sum_eq_zero
      intro i _
      rw [hempty i]
      rfl
    · rw [hvnpus w hw, h.balanced w]
      apply sum_congr rfl
      intro i _
      rw [hslots w i hw]
  idle w i hactive := by
    by_cases hw : w = v
    · subst hw
      show (die.shm.slot w i).hbmUsed = 0
      rw [hempty i]
      rfl
    · show (die.shm.slot w i).hbmUsed = 0
      have hslot := hslots w i hw
      rw [hslot] at hactive ⊢
      exact h.idle w i hactive
  ok p a i hp hi := by
    have hne : a.vnpu ≠ v := by
      intro hv
      rw [hunused p a hp hv] at hi
      cases hi
    show SlotOk g (die.shm.slot a.vnpu i) a.records
    rw [hslots a.vnpu i hne]
    exact h.ok p a i hp hi
  unslotted := h.unslotted
  distinct := h.distinct

end

end UsageState

/-! ### What the watchdog does to a slot -/

namespace Watched

section

variable {w : Watched} {st st₁ st₂ : ShmState} {v : Nat} {i : Slot}

/-- One slot changes in what does not count. -/
structure MarkChange (st st' : ShmState) (v : Nat) (i : Slot) : Prop
    extends SlotChange st st' v i where
  used : (st'.slot v i).hbmUsed = (st.slot v i).hbmUsed
  active : (st'.slot v i).active = (st.slot v i).active

theorem MarkChange.refl (st : ShmState) (v : Nat) (i : Slot) : MarkChange st st v i :=
  ⟨.refl st v i, rfl, rfl⟩

theorem MarkChange.trans (h : MarkChange st st₁ v i) (h' : MarkChange st₁ st₂ v i) :
    MarkChange st st₂ v i :=
  ⟨h.toSlotChange.trans h'.toSlotChange, h'.used.trans h.used, h'.active.trans h.active⟩

theorem MarkChange.modifySlot
    (hused : ∀ pe, (f pe).hbmUsed = pe.hbmUsed) (hactive : ∀ pe, (f pe).active = pe.active) :
    MarkChange st (st.modifySlot v i f) v i := by
  refine ⟨.modifySlot (hused _), ?_, ?_⟩
  · rw [slot_modifySlot_self, hused]
  · rw [slot_modifySlot_self, hactive]

theorem markChange_proxyAckMarked : MarkChange w.shm (w.proxyAckMarked v i).shm v i := by
  have h : Acked w.shm (w.proxyAckMarked v i).shm v i := acked_proxyAckMarked
  have hused := h.keeps hbmUsed (fun _ => rfl) v i
  refine ⟨⟨fun u j hne => h.slot_of_ne hne, fun u _ => h.hbmUsed u, ?_⟩, hused, ?_⟩
  · rw [h.hbmUsed, hused]
  · exact h.keeps active (fun _ => rfl) v i

theorem markChange_freeSlot : MarkChange w.shm (w.freeSlot v i).shm v i := by
  simp only [freeSlot, shmFreePerProcess]
  split
  · exact .refl w.shm v i
  · dsimp only
    exact .modifySlot (fun _ => rfl) fun _ => rfl

/-- Reaping changes one slot, and a slot that is free afterwards counts nothing. -/
theorem slotChange_reapSlot (now timeout : Nat)
    (hle : (w.shm.slot v i).hbmUsed ≤ (w.shm.entries v).hbmUsed)
    (hidle : (w.shm.slot v i).active = false → (w.shm.slot v i).hbmUsed = 0) :
    SlotChange w.shm (reapSlot now timeout w v i).shm v i ∧
      (((reapSlot now timeout w v i).shm.slot v i).active = false →
        ((reapSlot now timeout w v i).shm.slot v i).hbmUsed = 0) := by
  have hmark : ∀ {st}, MarkChange w.shm st v i → SlotChange w.shm st v i ∧
      ((st.slot v i).active = false → (st.slot v i).hbmUsed = 0) := by
    intro st h
    refine ⟨h.toSlotChange, ?_⟩
    rwa [h.used, h.active]
  have hack : MarkChange w.shm (w.proxyAckMarked v i).shm v i := markChange_proxyAckMarked
  unfold reapSlot
  dsimp only
  split
  · split
    · exact hmark (hack.trans markChange_freeSlot)
    · exact hmark hack
  split
  · exact hmark (.refl w.shm v i)
  split
  · apply hmark
    rw [shm_onShm]
    exact .modifySlot (fun _ => rfl) fun _ => rfl
  split
  · exact hmark (.refl w.shm v i)
  -- the process is dead: its bytes leave both counters
  have huncount : SlotChange (w.proxyAckMarked v i).shm ((w.proxyAckMarked v i).shm.recount v i
      (subU64 · (w.shm.slot v i).hbmUsed) fun pe => { pe with hbmUsed := 0 }) v i := by
    have hentry : (w.shm.slot v i).hbmUsed ≤ ((w.proxyAckMarked v i).shm.entries v).hbmUsed := by
      have hbalance := hack.balance
      rw [hack.used] at hbalance
      omega
    apply SlotChange.recount
    rw [subU64_of_le hentry, hack.used]
    dsimp only
    omega
  let w₂ := (w.proxyAckMarked v i).onShm fun st =>
    st.recount v i (subU64 · (w.shm.slot v i).hbmUsed) fun pe => { pe with hbmUsed := 0 }
  have hdone : ∀ w₃ : Watched, MarkChange w₂.shm w₃.shm v i →
      SlotChange w.shm (w₃.shm.modifySlot v i fun pe =>
        { pe with swapped := false, active := false }) v i ∧
      ((w₃.shm.modifySlot v i fun pe =>
        { pe with swapped := false, active := false }).slot v i).hbmUsed = 0 := by
    intro w₃ h
    constructor
    · exact ((hack.toSlotChange.trans huncount).trans h.toSlotChange).trans (.modifySlot rfl)
    · rw [slot_modifySlot_self]
      dsimp only
      rw [h.used, shm_onShm, slot_recount]
  split
  · have hfreed := hdone (w₂.freeSlot v i) markChange_freeSlot
    exact ⟨hfreed.1, fun _ => hfreed.2⟩
  · have hkept := hdone w₂ (.refl w₂.shm v i)
    exact ⟨hkept.1, fun _ => hkept.2⟩

end

end Watched

namespace UsageState

variable {g : ℕ+} {s : UsageState}

/-- Reaping a slot takes its bytes off the total. -/
theorem UsageInv.reap (h : UsageInv g s) {i : Slot} {now : Nat}
    (hmay : s.MayUse (.reap v i now)) : UsageInv g (s.step g (.reap v i now)) := by
  by_cases hheld : ∃ p a, s.procs p = some a ∧ a.vnpu = v ∧ a.slot = some i
  · obtain ⟨p, a, hp, rfl, hi⟩ := hheld
    -- a process that has reported in time at most loses a time stamp from the future
    have hactive := (h.ok p a i hp hi).active
    have hfresh := hmay p a hp rfl hi
    have hquiet : reapSlot now processAliveTimeoutNs s.die a.vnpu i = s.die ∨
        reapSlot now processAliveTimeoutNs s.die a.vnpu i =
          s.die.onShm (·.modifySlot a.vnpu i fun pe => { pe with lastHeartbeatNs := 0 }) := by
      unfold reapSlot
      dsimp only
      rw [hactive, Bool.not_true, if_neg Bool.false_ne_true]
      split
      · exact .inl rfl
      next hzero =>
      split
      · exact .inr rfl
      next hpast =>
      rw [if_pos (hfresh hzero (Nat.not_lt.mp hpast))]
      exact .inl rfl
    show UsageInv g { s with die := reapSlot now processAliveTimeoutNs s.die a.vnpu i }
    rcases hquiet with heq | heq
    · rwa [heq]
    · rw [heq]
      apply h.onSlot
      exact fun _ => ⟨rfl, rfl, rfl, rfl⟩
  · obtain ⟨hchange, hidle⟩ := slotChange_reapSlot now processAliveTimeoutNs
      (h.balanced.slot_le v i) (h.idle v i)
    apply h.change 0 hchange hidle
    intro q b hq
    exact .inl ⟨hq, fun hb => hheld ⟨q, b, hq, hb.1, hb.2⟩⟩

/-! ### Runs -/

variable {p : Nat}

theorem act_of_none {f : UsageProc → ShmState × UsageProc} (hp : s.procs p = none) :
    s.act p f = s := by
  simp only [act, hp]

theorem act_of_some {f : UsageProc → ShmState × UsageProc} {a : UsageProc}
    (hp : s.procs p = some a) :
    s.act p f = ⟨s.die.onShm fun _ => (f a).1, update s.procs p (some (f a).2)⟩ := by
  simp only [act, hp]

section

variable (h : UsageInv g s)
include h

/-- A process with a slot keeps it exact, and a process without one does nothing. -/
theorem UsageInv.act {f : UsageProc → ShmState × UsageProc}
    (hkept : ∀ a i, s.procs p = some a → a.slot = some i →
      SlotOk g (s.die.shm.slot a.vnpu i) a.records → a.Kept g s.die.shm i (f a))
    (hsame : ∀ a, s.procs p = some a → a.slot = none → a.records = [] → f a = (s.die.shm, a)) :
    UsageInv g (s.act p f) := by
  cases hp : s.procs p with
  | none =>
    rwa [act_of_none hp]
  | some a =>
    rw [act_of_some hp]
    cases hi : a.slot with
    | none =>
      rwa [hsame a hp hi (h.unslotted p a hp hi), ← hp, update_eq_self]
    | some i =>
      obtain ⟨hproc, hchange, hok⟩ := hkept a i hp hi (h.ok p a i hp hi)
      have hvnpu : (f a).2.vnpu = a.vnpu := by rw [hproc]
      have hslot : (f a).2.slot = some i := by rw [hproc, ← hi]
      apply h.change p hchange
      · intro hidle
        rw [shm_onShm, hok.active] at hidle
        cases hidle
      intro q b hq
      rcases update_eq_some.mp hq with ⟨rfl, ⟨rfl⟩⟩ | ⟨hqp, hq⟩
      · exact .inr ⟨rfl, hvnpu, hslot, hok⟩
      · exact .inl ⟨hq, fun hb => hqp (h.distinct q p b a i hq hp hb.1 hb.2 hi)⟩

/-- A process registers with nothing in use. -/
theorem UsageInv.register (p v now : Nat) : UsageInv g (s.step g (.register p v now)) := by
  simp only [step]
  split
  · exact h
  cases hreg : s.die.shm.registerProcess v now with
  | mk slot st' =>
    cases slot with
    | none =>
      have hst : st' = s.die.shm := by
        unfold registerProcess at hreg
        split at hreg
        · cases hreg
          rfl
        split at hreg
        · cases hreg
          rfl
        · cases hreg
      subst hst
      apply h.onProcs
      intro q b hq
      rcases update_eq_some.mp hq with ⟨-, ⟨rfl⟩⟩ | ⟨-, hq⟩
      · exact .inr ⟨rfl, rfl⟩
      · exact .inl hq
    | some i =>
      obtain ⟨hfree, rfl⟩ := registerProcess_some hreg
      have hnew : ((s.die.shm.modifySlot v i fun _ => { empty with
          active := true
          lastHeartbeatNs := now }).slot v i) = { empty with
            active := true
            lastHeartbeatNs := now } := slot_modifySlot_self _ v i _
      apply h.change (v := v) (i := i) p
      · dsimp only
        rw [shm_onShm]
        apply SlotChange.modifySlot
        rw [h.idle v i hfree]
        rfl
      · intro hidle
        dsimp only at hidle
        rw [shm_onShm, hnew] at hidle
        cases hidle
      intro q b hq
      rcases update_eq_some.mp hq with ⟨rfl, ⟨rfl⟩⟩ | ⟨-, hold⟩
      · refine .inr ⟨rfl, rfl, rfl, ?_⟩
        dsimp only
        rw [shm_onShm, hnew]
        exact ⟨rfl, rfl, nofun, fun _ => rfl, fun r hr => nomatch hr⟩
      · refine .inl ⟨hold, ?_⟩
        rintro ⟨rfl, hi⟩
        have hactive := (h.ok q b i hold hi).active
        rw [hfree] at hactive
        cases hactive

theorem UsageInv.leave (p : Nat) : UsageInv g { s with procs := update s.procs p none } := by
  apply h.onProcs
  exact fun q b hq => .inl (update_none_eq_some.mp hq).2

theorem UsageInv.unregister (p : Nat) : UsageInv g (s.step g (.unregister p)) := by
  simp only [step]
  split
  · exact h
  next a hp =>
  cases hi : a.slot with
  | none => exact h.leave p
  | some i =>
    by_cases hv : maxVnpuPerDie ≤ a.vnpu
    · simp only [Option.elim, unregisterProcess, hv, if_true]
      exact h.leave p
    have heq : s.die.shm.unregisterProcess a.vnpu i = s.die.shm.recount a.vnpu i
        (subU64 · (s.die.shm.slot a.vnpu i).hbmUsed)
        fun pe => { pe with hbmUsed := 0, swapped := false, active := false } := by
      simp only [unregisterProcess, hv, if_false]
      rfl
    simp only [Option.elim]
    apply h.change (v := a.vnpu) (i := i) p
    · rw [shm_onShm, heq]
      apply SlotChange.recount
      rw [subU64_of_le (h.balanced.slot_le a.vnpu i)]
      have hle := h.balanced.slot_le a.vnpu i
      dsimp only
      omega
    · intro _
      dsimp only
      rw [shm_onShm, heq, slot_recount]
    intro q b hq
    obtain ⟨hqp, hq⟩ := update_none_eq_some.mp hq
    exact .inl ⟨hq, fun hb => hqp (h.distinct q p b a i hq hp hb.1 hb.2 hi)⟩

theorem UsageInv.addEntry {e : VnpuShmEntry}
    (hmay : s.MayUse (.addEntry v e)) : UsageInv g (s.step g (.addEntry v e)) := by
  simp only [step, Watched.step, onShm, ShmState.addEntry]
  by_cases hv : maxVnpuPerDie ≤ v
  · simp only [if_pos hv]
    exact h
  by_cases hbit : s.die.shm.bitmapTest v = true
  · simp only [if_neg hv, if_pos hbit]
    exact h
  simp only [if_neg hv, if_neg hbit]
  apply h.clear (hmay.resolve_left hbit)
  · intro w i hw
    simp [ShmState.slot, hw]
  · intro w hw
    simp [hw]
  · intro i
    simp [ShmState.slot]
  · simp

theorem UsageInv.reset (hmay : s.MayUse (.reset v)) : UsageInv g (s.step g (.reset v)) := by
  apply h.clear (v := v) hmay
  · intro w i hw
    simp [ShmState.slot, resetRuntimeState, modifyEntry, hw]
  · intro w hw
    simp [resetRuntimeState, modifyEntry, hw]
  · intro i
    simp [ShmState.slot, resetRuntimeState, modifyEntry]
  · simp [resetRuntimeState, modifyEntry]

theorem UsageInv.recover {e : VnpuShmEntry}
    (hmay : s.MayUse (.recover v e)) : UsageInv g (s.step g (.recover v e)) := by
  apply h.quiet
  · intro w i
    have hslot : (Watched.step s.die (.recoverEntry v { e with hbmUsed := 0 })).shm.slot w i =
        s.die.shm.slot w i := by
      by_cases hw : w = v
      · subst hw
        simp [Watched.step, ShmState.slot]
      · simp [Watched.step, ShmState.slot, hw]
    rw [hslot]
    exact ⟨rfl, rfl, rfl, rfl⟩
  · intro w
    by_cases hw : w = v
    · subst hw
      simpa [Watched.step] using hmay.symm
    · simp [Watched.step, hw]

/-- Every step keeps the totals. -/
theorem UsageInv.step (l : UsageStep) (hmay : s.MayUse l) : UsageInv g (s.step g l) := by
  cases l with
  | addEntry v e => exact h.addEntry hmay
  | register p v now => exact h.register p v now
  | unregister p => exact h.unregister p
  | crash p => exact h.leave p
  | malloc p ptr size physical add handleOk =>
    apply h.act
    · intro a i hp hi hok
      exact malloc_kept hi hok (hmay a hp)
    · intro a hp hi hempty
      rcases hmay a hp with rfl | hslot
      · simp only [malloc, trackerAdd_full]
        rfl
      · exact absurd hi hslot.1
  | free p ptr physical unmapped handleOk =>
    apply h.act
    · intro a i hp hi hok
      exact free_kept hi hok h.balanced (hmay a hp)
    · intro a hp hi hempty
      have hnone : a.freed ptr physical unmapped = none := by
        simp [freed, hempty, trackerFind]
      simp only [free, hnone]
  | swapOut p oks =>
    apply h.act
    · intro a i hp hi hok
      exact swapOut_kept hi hok h.balanced oks
    · intro a hp hi hempty
      simp only [swapOut, hi]
  | swapIn p calls =>
    apply h.act
    · intro a i hp hi hok
      exact swapIn_kept hi hok (hmay a hp)
    · intro a hp hi hempty
      simp only [swapIn, hi]
  | heartbeat v i now =>
    apply h.onSlot
    exact fun _ => ⟨rfl, rfl, rfl, rfl⟩
  | reap v i now => exact h.reap hmay
  | reset v => exact h.reset hmay
  | recover v e => exact h.recover hmay

/-- The totals never wrap below zero. -/
theorem UsageInv.noWrap (l : UsageStep) (hmay : s.MayUse l) : s.NoWrap l := by
  have hslot : ∀ v i, (s.die.shm.slot v i).hbmUsed ≤ (s.die.shm.entries v).hbmUsed ∧
      ∀ j ∈ some i, (s.die.shm.slot v i).hbmUsed ≤ (s.die.shm.slot v j).hbmUsed := by
    intro v i
    refine ⟨h.balanced.slot_le v i, ?_⟩
    intro j hj
    rw [Option.mem_some_iff] at hj
    rw [hj]
  intro d hd
  cases l with
  | unregister p =>
    simp only [debit, Option.mem_def, Option.bind_eq_bind, Option.bind_eq_some_iff] at hd
    obtain ⟨a, hp, i, hi, hd⟩ := hd
    cases hd
    exact hslot a.vnpu i
  | free p ptr physical unmapped handleOk =>
    simp only [debit, Option.mem_def, Option.bind_eq_bind, Option.bind_eq_some_iff] at hd
    obtain ⟨a, hp, r, hr, hd⟩ := hd
    cases hd
    have hhome := (hmay a hp r hr).1
    cases hi : a.slot with
    | none =>
      have hfind := trackerFind_of_freed hr
      rw [h.unslotted p a hp hi] at hfind
      cases hfind
    | some i =>
      have hle := freed_le (h.ok p a i hp hi) hr hhome
      refine ⟨hle.trans (h.balanced.slot_le a.vnpu i), ?_⟩
      intro j hj
      rw [Option.mem_some_iff] at hj
      rwa [← hj]
  | reap v i now =>
    cases hd
    exact hslot v i
  | _ => cases hd

end

def started : UsageState :=
  init "die0" ⟨false, [], fun _ _ => [], [], 0, 0⟩ none

/-- A process that allocates, is swapped out and in, frees and leaves, before a recovery. -/
def servedRun : List UsageStep :=
  [.addEntry 0 .zero, .register 7 0 1, .malloc 7 16 100 false .stored true,
    .malloc 7 32 50 true .stored true, .swapOut 7 [true, false],
    .swapIn 7 [⟨.ok, false⟩, ⟨.failed, false⟩], .free 7 16 false true true, .unregister 7,
    .recover 0 .zero]

/-- A recovery while a process has memory: the entry counts nothing, the slot still does. -/
def recoveredRun : List UsageStep :=
  [.addEntry 0 .zero, .register 7 0 1, .malloc 7 16 100 false .stored true, .recover 0 .zero]

end UsageState

end UbsVirt.Enpu
