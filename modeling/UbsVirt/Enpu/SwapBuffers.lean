import UbsVirt.Enpu.Epoch
import UbsVirt.Enpu.SwapHook
import UbsVirt.Enpu.SwapResolver
import UbsVirt.Enpu.TlsfPool
import UbsVirt.Lib.Ownership

/-!
# The swap buffer and the slots that record its ranges

One pool hands out ranges of the node's swap buffer to the process slots of all dies. A
slot records its range in `swap_offset` and `swap_size`; there is no other record, so a
range whose slot is overwritten is never given back. Source:
`enpu-manager/core/src/swap_resolver.c:270-422`, `pod_watchdog.c:56-278`,
`npu_allocator.c:475-560`, `vcann-rt/src/swap_monitor_thread.c:100-148`.
-/

namespace UbsVirt.Enpu

open Ownership Run List ShmState Watched ProcessEntry Function Tlsf

/-- The range a slot records, by its offset; `swap_size` zero means that there is none. -/
def ProcessEntry.range (pe : ProcessEntry) : Option Nat :=
  if pe.swapSize = 0 then none else some pe.swapOffset

theorem ProcessEntry.range_eq_some {pe : ProcessEntry} {o : Nat} :
    pe.range = some o ↔ pe.swapSize ≠ 0 ∧ pe.swapOffset = o := by
  unfold range
  split <;> simp_all

theorem ProcessEntry.range_eq_none {pe : ProcessEntry} : pe.range = none ↔ pe.swapSize = 0 := by
  unfold range
  split <;> simp_all

/-! ### The node -/

/-- The operations that leave the entries of a die in the bitmap; only a release takes one
out. -/
def DieOp.keepsEntries : DieOp → Bool
  | .removeEntry .. => false
  | _ => true

/-- What the processes and the manager do to the buffers of a die, each one step; what does
not touch the ranges is a `DieOp`. -/
inductive BufferOp where
  /-- `swap_resolver_write_swap_command`; `header` tells which block headers could be allocated. -/
  | resolve (header : Slot → Bool) (v : Nat) (action : SwapAction) (toSwapOut : SwapOutFlag)
  /-- `swap_resolver_check_and_swap_in`. -/
  | reclaim
  /-- A process has copied `act` bytes to its range. -/
  | swapOut (v : Nat) (i : Slot) (act : Nat)
  | swapIn (v : Nat) (i : Slot)
  | malloc (v : Nat) (i : Slot) (size : Nat)
  | free (v : Nat) (i : Slot) (size : Nat)
  /-- `shm_release_vnpu_locked`. -/
  | release (v : Nat)
  | die (op : DieOp) (h : op.keepsEntries = true)

def Watched.bufferStep (w : Watched) : BufferOp → Watched
  | .resolve header v action toSwapOut => (w.writeSwapCommand header v action toSwapOut).2
  | .reclaim => w.checkAndSwapIn
  | .swapOut v i act =>
    if act = 0 then w else w.onShm fun st => (st.publishSwapSize v i act).finishSwapOut v i act
  | .swapIn v i =>
    if (w.shm.slot v i).swapped then
      w.onShm fun st => st.finishSwapIn v i (st.slot v i).swapSize
    else w
  | .malloc v i size => w.onShm (·.addUsed v i size)
  | .free v i size => w.onShm (·.subUsed v i size)
  | .release v =>
    if w.shm.bitmapTest v then
      { ((w.step (.freeBuffers v)).step (.removeEntry v)) with
        lastAlive := w.lastAlive.map fun alive => update alive v 0 }
    else w
  | .die op _ => w.step op

/-- The dies of a node and the pool they share. -/
structure SwapNode where
  pool : Pool
  dies : Nat → ShmState
  lastAlive : Nat → Option (Nat → Nat)

namespace SwapNode

def view (n : SwapNode) (d : Nat) : Watched :=
  ⟨n.pool, n.dies d, n.lastAlive d⟩

def put (n : SwapNode) (d : Nat) (w : Watched) : SwapNode :=
  { pool := w.pool
    dies := update n.dies d w.shm
    lastAlive := update n.lastAlive d w.lastAlive }

def step (n : SwapNode) (l : Nat × BufferOp) : SwapNode :=
  n.put l.1 ((n.view l.1).bufferStep l.2)

def init (size : Nat) (name : Nat → String) (lastAlive : Nat → Option (Nat → Nat)) : SwapNode :=
  { pool := Tlsf.init size, dies := fun d => .create (name d), lastAlive := lastAlive }

def slotAt (n : SwapNode) (k : Nat × Nat × Slot) : ProcessEntry :=
  (n.dies k.1).slot k.2.1 k.2.2

def ranges (n : SwapNode) (k : Nat × Nat × Slot) : Option Nat :=
  (n.slotAt k).range

/-- Every used block is the range of exactly one slot, and without vNPUs nothing is used. -/
structure Accounted (n : SwapNode) : Prop where
  owner : ∀ b ∈ n.pool.usedBlocks, ∃! k, (n.slotAt k).swapSize ≠ 0 ∧ (n.slotAt k).swapOffset = b.offset
  released : (∀ d v, (n.dies d).bitmapTest v = false) → n.pool.totalUsed = 0

/-! ### The invariant -/

/-- The pool is well formed, its used blocks are owned by the slots that record them, and a
vNPU without an entry records none. -/
structure BufferInv (n : SwapNode) : Prop where
  pool : n.pool.WF
  owned : Owned n.pool.usedOffsets n.ranges
  listed : ∀ d v i, (n.dies d).bitmapTest v = false → ((n.dies d).slot v i).range = none

theorem BufferInv.accounted {n : SwapNode} (h : BufferInv n) : Accounted n where
  owner b hb := by
    have hused : b.offset ∈ n.pool.usedOffsets := ⟨b, hb, rfl⟩
    simpa only [ranges, range_eq_some] using h.owned.existsUnique hused
  released hnone := by
    have hempty : n.pool.usedOffsets = ∅ :=
      h.owned.eq_empty fun k => h.listed k.1 k.2.1 k.2.2 (hnone k.1 k.2.1)
    have hblocks : n.pool.usedBlocks = [] := by
      apply eq_nil_iff_forall_not_mem.mpr
      intro b hb
      have hoff : b.offset ∈ n.pool.usedOffsets := ⟨b, hb, rfl⟩
      rwa [hempty] at hoff
    rw [h.pool.total, hblocks]
    rfl

theorem bufferInv_init (size : Nat) (name : Nat → String) (lastAlive : Nat → Option (Nat → Nat)) :
    BufferInv (init size name lastAlive) where
  pool := wf_init size
  owned := by
    have hempty : (Tlsf.init size).usedOffsets = ∅ := by
      ext o
      simp [Pool.usedOffsets, Pool.usedBlocks, Tlsf.init, Pool.insertFree]
    rw [init, hempty]
    exact Owned.empty fun _ => rfl
  listed _ _ _ _ := rfl

section

variable {n : SwapNode} {d : Nat} {w w' : Watched}

theorem put_view : n.put d (n.view d) = n := by
  simp [put, view]

theorem ranges_put (k : Nat × Nat × Slot) :
    (n.put d w).ranges k = if k.1 = d then (w.shm.slot k.2.1 k.2.2).range else n.ranges k := by
  unfold ranges slotAt put
  by_cases hd : k.1 = d <;> simp [hd]

variable {v : Nat} {i : Slot}

/-- The ranges of the node when one slot of the die changes. -/
theorem ranges_put_update {r : Option Nat} (hself : (w'.shm.slot v i).range = r)
    (hother : ∀ u j, u ≠ v ∨ j ≠ i → (w'.shm.slot u j).range = (w.shm.slot u j).range) :
    (n.put d w').ranges = update (n.put d w).ranges (d, v, i) r := by
  ext1 k
  rw [ranges_put]
  by_cases hk : k = (d, v, i)
  · subst hk
    simp [hself]
  · rw [update_of_ne hk, ranges_put]
    split
    · next hd =>
      apply hother
      by_contra hsame
      rw [not_or, not_not, not_not] at hsame
      exact hk (Prod.ext hd (Prod.ext hsame.1 hsame.2))
    · rfl

theorem BufferInv.listed_self (h : BufferInv (n.put d w)) (i : Slot)
    (hbit : w.shm.bitmapTest v = false) : (w.shm.slot v i).range = none := by
  have hlisted := h.listed d v i
  simp only [put, update_self] at hlisted
  exact hlisted hbit

/-- What has to be shown of a die for the node. -/
theorem BufferInv.replace (h : BufferInv (n.put d w)) (hpool : w'.pool.WF)
    (howned : Owned w'.pool.usedOffsets (n.put d w').ranges)
    (hlisted : ∀ v i, w'.shm.bitmapTest v = false → (w'.shm.slot v i).range = none) :
    BufferInv (n.put d w') := by
  refine ⟨hpool, howned, fun e v i => ?_⟩
  have hold := h.listed e v i
  unfold put at hold ⊢
  by_cases he : e = d
  · subst he
    simpa only [update_self] using hlisted v i
  · simpa only [update_of_ne he] using hold

/-- The die records the same ranges, in the same pool; an entry that left the bitmap had
none. -/
structure SameRanges (w w' : Watched) : Prop where
  pool : w'.pool = w.pool
  listed : ∀ v, w'.shm.bitmapTest v = false →
    w.shm.bitmapTest v = false ∨ ∀ i, (w.shm.slot v i).range = none
  range : ∀ v i, (w'.shm.slot v i).range = (w.shm.slot v i).range

theorem SameRanges.of_bitmap (hpool : w'.pool = w.pool)
    (hbitmap : w'.shm.vnpuBitmap = w.shm.vnpuBitmap)
    (hrange : ∀ v i, (w'.shm.slot v i).range = (w.shm.slot v i).range) : SameRanges w w' := by
  refine ⟨hpool, fun v hbit => .inl ?_, hrange⟩
  rwa [bitmapTest, ← hbitmap]

theorem SameRanges.refl (w : Watched) : SameRanges w w :=
  .of_bitmap rfl rfl fun _ _ => rfl

theorem SameRanges.trans {w₁ w₂ : Watched} (h : SameRanges w w₁) (h' : SameRanges w₁ w₂) :
    SameRanges w w₂ := by
  refine ⟨h'.pool.trans h.pool, fun v hbit => ?_, fun v i => (h'.range v i).trans (h.range v i)⟩
  rcases h'.listed v hbit with hbit | hnone
  · exact h.listed v hbit
  · exact .inr fun i => (h.range v i).symm.trans (hnone i)

theorem BufferInv.same (h : BufferInv (n.put d w)) (hs : SameRanges w w') :
    BufferInv (n.put d w') := by
  have hranges : (n.put d w').ranges = (n.put d w).ranges := by
    ext1 k
    rw [ranges_put, ranges_put, hs.range]
  apply h.replace
  · rw [hs.pool]
    exact h.pool
  · rw [hranges, hs.pool]
    exact h.owned
  · intro v i hbit
    rw [hs.range]
    rcases hs.listed v hbit with hbit | hnone
    · exact h.listed_self i hbit
    · exact hnone i

/-- A change of the shared state that keeps the bitmap and all ranges. -/
theorem SameRanges.onShm {f : ShmState → ShmState}
    (hbitmap : (f w.shm).vnpuBitmap = w.shm.vnpuBitmap)
    (hrange : ∀ v i, ((f w.shm).slot v i).range = (w.shm.slot v i).range) :
    SameRanges w (w.onShm f) :=
  .of_bitmap rfl hbitmap hrange

theorem range_modifySlot {st : ShmState} {f : ProcessEntry → ProcessEntry}
    (hf : (f (st.slot v i)).range = (st.slot v i).range) (u : Nat) (j : Slot) :
    ((st.modifySlot v i f).slot u j).range = (st.slot u j).range := by
  rw [slot_modifySlot]
  split
  · next h => rw [h.1, h.2, hf]
  · rfl

theorem SameRanges.modifySlot {f : ProcessEntry → ProcessEntry}
    (hf : (f (w.shm.slot v i)).range = (w.shm.slot v i).range) :
    SameRanges w (w.onShm (·.modifySlot v i f)) :=
  .onShm rfl (range_modifySlot hf)

theorem SameRanges.modifyEntry {f : VnpuShmEntry → VnpuShmEntry}
    (hf : ∀ e, (f e).processes = e.processes) : SameRanges w (w.onShm (·.modifyEntry v f)) := by
  apply SameRanges.onShm rfl
  intro u j
  rw [slot_modifyEntry _ _ _ _ hf]

theorem SameRanges.acked (hpool : w'.pool = w.pool)
    (h : w.shm.Acked w'.shm v i) : SameRanges w w' :=
  .of_bitmap hpool h.bitmap (h.keeps ProcessEntry.range fun _ => rfl)

theorem SameRanges.counted (hpool : w'.pool = w.pool)
    (h : w.shm.Counted w'.shm v i) : SameRanges w w' := by
  apply SameRanges.of_bitmap hpool h.bitmap
  apply h.keeps
  simp [ProcessEntry.range, h.offset, h.size]

theorem SameRanges.proxyAckMarked (v : Nat) (i : Slot) : SameRanges w (w.proxyAckMarked v i) := by
  unfold Watched.proxyAckMarked
  split
  · exact .acked rfl acked_proxyAckProcess
  · exact .refl w

theorem SameRanges.tryCompleteSwapCmd : SameRanges w (w.onShm (·.tryCompleteSwapCmd)) := by
  apply SameRanges.onShm
  · unfold ShmState.tryCompleteSwapCmd
    repeat' split
    all_goals rfl
  · intro v i
    exact congrArg ProcessEntry.range (slot_tryCompleteSwapCmd w)

theorem SameRanges.writeSwapCmd (v : Nat) (action : SwapAction) (flag : SwapOutFlag) :
    SameRanges w (w.onShm fun st => (st.writeSwapCmd v action flag).2) := by
  have hmark : ∀ seq u j, ((w.shm.markActive v seq).slot u j).range = (w.shm.slot u j).range := by
    intro seq u j
    unfold markActive slot ShmState.modifyEntry
    by_cases hu : u = v
    · subst hu
      simp only [update_self]
      split <;> rfl
    · simp [hu]
  unfold ShmState.writeSwapCmd
  split
  · exact .refl w
  · cases action with
    | out => exact .onShm rfl fun u j => hmark _ u j
    | none => exact .onShm rfl fun _ _ => rfl
    | «in» => exact .onShm rfl fun _ _ => rfl

/-! ### Giving a range and taking it back -/

/-- Freeing a slot's range, if it has one. -/
theorem BufferInv.freeSlot (h : BufferInv (n.put d w)) (v : Nat) (i : Slot) :
    BufferInv (n.put d (w.freeSlot v i)) := by
  by_cases hsize : (w.shm.slot v i).swapSize = 0
  · have hsame : w.freeSlot v i = w := by
      simp [Watched.freeSlot, shmFreePerProcess, hsize]
    rwa [hsame]
  · have hrange : (n.put d w).ranges (d, v, i) = some (w.shm.slot v i).swapOffset := by
      rw [ranges_put, if_pos rfl]
      exact range_eq_some.mpr ⟨hsize, rfl⟩
    have hoff : (w.shm.slot v i).swapOffset ∈ w.pool.usedOffsets :=
      (h.owned.covered _).mpr ⟨_, hrange⟩
    obtain ⟨hwf, hused⟩ := free_spec h.pool hoff
    have hpool : (w.freeSlot v i).pool = free w.pool (w.shm.slot v i).swapOffset := by
      simp [Watched.freeSlot, shmFreePerProcess, hsize]
    have hslot : ((w.freeSlot v i).shm.slot v i).range = none := by
      simp [Watched.freeSlot, shmFreePerProcess, hsize, ProcessEntry.range]
    have hother : ∀ u j, u ≠ v ∨ j ≠ i →
        ((w.freeSlot v i).shm.slot u j).range = (w.shm.slot u j).range := by
      intro u j hne
      rw [slot_freeSlot_of_ne hne]
    apply h.replace
    · rwa [hpool]
    · rw [ranges_put_update hslot hother, hpool]
      exact hused ▸ h.owned.take hrange
    · intro u j hbit
      rw [bitmapTest, vnpuBitmap_freeSlot] at hbit
      by_cases hne : u ≠ v ∨ j ≠ i
      · rw [hother u j hne]
        exact h.listed_self j hbit
      · rw [not_or, not_not, not_not] at hne
        rw [hne.1, hne.2, hslot]

theorem alignSize_swapAlign_pos {used : Nat} (h : swapAlign used ≠ 0) :
    0 < alignSize (swapAlign used) := by
  unfold swapAlign at h ⊢
  unfold alignSize align
  omega

section

variable (h : BufferInv (n.put d w))
include h

theorem BufferInv.allocSlot {header : Bool} {used : Nat} (hbit : w.shm.bitmapTest v = true)
    (hnone : (w.shm.slot v i).range = none)
    (halloc : w.allocSlot header v i (swapAlign used) = some w') : BufferInv (n.put d w') := by
  obtain ⟨off, pool, hpool, rfl⟩ := allocSlot_some halloc
  have hsize : swapAlign used ≠ 0 := by
    intro hzero
    simp [alloc, hzero] at hpool
  obtain ⟨hwf, hfresh, hused⟩ := alloc_spec h.pool (alignSize_swapAlign_pos hsize) hpool
  have hbefore : (n.put d w).ranges (d, v, i) = none := by
    rw [ranges_put, if_pos rfl, hnone]
  apply h.replace
  · exact hwf
  · rw [ranges_put_update (w := w) (v := v) (i := i) (r := some off)]
    · exact hused ▸ h.owned.give hbefore hfresh
    · simp [ProcessEntry.range, hsize]
    · intro u j hne
      rw [slot_modifySlot_of_ne hne]
  · intro u j hu
    have hne : u ≠ v := by
      rintro rfl
      rw [bitmapTest_modifySlot, hbit] at hu
      cases hu
    rw [slot_modifySlot_of_ne (.inl hne)]
    exact h.listed_self j hu

theorem BufferInv.shmFree (v : Nat) :
    BufferInv (n.put d ⟨(shmFree (w.pool, w.shm) v).1, (shmFree (w.pool, w.shm) v).2, w.lastAlive⟩) :=
  shmFree_induction (P := fun ps => BufferInv (n.put d ⟨ps.1, ps.2, w.lastAlive⟩)) v h
    fun _ i hps => hps.freeSlot v i

theorem BufferInv.cleanupSwapData (v : Nat) : BufferInv (n.put d (w.cleanupSwapData v)) := by
  unfold Watched.cleanupSwapData
  split
  · exact h.shmFree v
  · exact h

theorem BufferInv.freeSlots (v : Nat) (is : List Slot) :
    BufferInv (n.put d (is.foldl (fun w i => w.freeSlot v i) w)) :=
  foldlRecOn is _ (motive := fun w => BufferInv (n.put d w)) h fun _ hw i _ => hw.freeSlot v i

theorem BufferInv.checkAndSwapIn : BufferInv (n.put d w.checkAndSwapIn) := by
  unfold Watched.checkAndSwapIn
  split
  · exact h
  apply foldlRecOn _ _ (motive := fun w => BufferInv (n.put d w)) h
  intro w hw v _
  apply foldlRecOn _ _ (motive := fun w => BufferInv (n.put d w)) hw
  intro w hw i _
  unfold reclaimSlot
  dsimp only
  split
  · exact hw.freeSlot v i
  · exact hw

end

/-! ### Writing a command -/

/-- A command takes a range for the slot: it is active, not swapped out and holds memory. -/
def NeedsRange (pe : ProcessEntry) : Prop :=
  pe.active = true ∧ pe.swapped = false ∧ pe.hbmUsed ≠ 0

instance : DecidablePred NeedsRange :=
  fun pe => inferInstanceAs (Decidable (pe.active = true ∧ pe.swapped = false ∧ pe.hbmUsed ≠ 0))

theorem allocSlot_frame {header : Bool} {size : Nat}
    (halloc : w.allocSlot header v i size = some w') :
    w'.shm.vnpuBitmap = w.shm.vnpuBitmap ∧ ∀ j, j ≠ i → w'.shm.slot v j = w.shm.slot v j := by
  obtain ⟨off, pool, -, rfl⟩ := allocSlot_some halloc
  exact ⟨rfl, fun j hj => by rw [slot_modifySlot_of_ne (.inr hj)]⟩

/-- The ranges a command takes are fresh ones, and a failed command gives them back. -/
theorem BufferInv.allocBuffers (header : Slot → Bool) (is done : List Slot)
    (h : BufferInv (n.put d w)) (hbit : w.shm.bitmapTest v = true) (hnodup : is.Nodup)
    (hfree : ∀ i ∈ is, NeedsRange (w.shm.slot v i) → (w.shm.slot v i).swapSize = 0) :
    BufferInv (n.put d (allocBuffers header v is done w).2) := by
  induction is generalizing done w with
  | nil => exact h
  | cons i is ih =>
    rw [nodup_cons] at hnodup
    rw [forall_mem_cons] at hfree
    simp only [allocBuffers]
    split
    · exact ih done h hbit hnodup.2 hfree.2
    next hneeds =>
    simp only [Bool.or_eq_true, Bool.not_eq_true', beq_iff_eq, not_or, Bool.not_eq_false,
      Bool.not_eq_true] at hneeds
    split
    · exact h.freeSlots v done
    next w' halloc =>
    obtain ⟨hbitmap, hslot⟩ := allocSlot_frame halloc
    have hnone := range_eq_none.mpr (hfree.1 ⟨hneeds.1.1, hneeds.1.2, hneeds.2⟩)
    apply ih _ (h.allocSlot hbit hnone halloc)
    · rwa [bitmapTest, hbitmap]
    · exact hnodup.2
    · intro j hj
      rw [hslot j fun hji => hnodup.1 (hji ▸ hj)]
      exact hfree.2 j hj

theorem BufferInv.writeSwapCommand {header : Slot → Bool} {action : SwapAction}
    {flag : SwapOutFlag} (h : BufferInv (n.put d w))
    (hfree : action = .out → w.shm.swapCmd.completed = true →
      ∀ i, NeedsRange (w.shm.slot v i) → (w.shm.slot v i).swapSize = 0) :
    BufferInv (n.put d (w.writeSwapCommand header v action flag).2) := by
  simp only [Watched.writeSwapCommand]
  split
  · exact h.same (.writeSwapCmd v action flag)
  next hout =>
  split
  · exact h
  next hcompleted =>
  split
  · exact h
  next hbit =>
  split
  · exact h
  simp only [ne_eq, not_not, Bool.not_eq_true', Bool.not_eq_false] at hout hcompleted hbit
  have halloc := BufferInv.allocBuffers header allSlots [] h hbit (nodup_finRange _)
    fun i _ => hfree hout hcompleted i
  split
  · next w' heq =>
    rw [heq] at halloc
    exact halloc.same (.writeSwapCmd v action flag)
  · exact halloc

/-! ### The watchdog -/

theorem range_shmFreePerProcess {ps : Pool × ShmState} {j : Slot}
    (h : (ps.2.slot v j).range = none ∨ j = i) :
    ((shmFreePerProcess ps v i).2.slot v j).range = none := by
  by_cases hj : j = i
  · subst hj
    simp only [shmFreePerProcess]
    split
    · next hsize => exact range_eq_none.mpr hsize
    · simp [ProcessEntry.range]
  · rw [slot_shmFreePerProcess_of_ne ps (.inr hj)]
    exact h.resolve_right hj

/-- Releasing the buffers of a vNPU leaves it none. -/
theorem range_shmFree {ps : Pool × ShmState} (hv : v < maxVnpuPerDie) (j : Slot) :
    ((shmFree ps v).2.slot v j).range = none := by
  have hfold : ∀ (is : List Slot) (qs : Pool × ShmState), (qs.2.slot v j).range = none ∨ j ∈ is →
      ((is.foldl (fun qs i => shmFreePerProcess qs v i) qs).2.slot v j).range = none := by
    intro is
    induction is with
    | nil => intro qs h; exact h.resolve_right not_mem_nil
    | cons i is ih =>
      intro qs h
      apply ih
      by_cases hj : j = i
      · exact .inl (range_shmFreePerProcess (.inr hj))
      · rcases h with hnone | hmem
        · exact .inl (range_shmFreePerProcess (.inl hnone))
        · exact .inr ((mem_cons.mp hmem).resolve_left hj)
  unfold UbsVirt.Enpu.shmFree
  rw [if_neg (Nat.not_le.mpr hv)]
  exact hfold allSlots ps (.inr (mem_allSlots j))

/-- Forgetting slots that record no range. -/
theorem SameRanges.resetRuntimeState (hnone : ∀ i, (w.shm.slot v i).range = none) :
    SameRanges w (w.resetRuntimeState v) := by
  refine .of_bitmap rfl rfl fun u j => ?_
  by_cases hu : u = v
  · subst hu
    rw [hnone j]
    simp [Watched.resetRuntimeState, slot, ShmState.modifyEntry, empty, ProcessEntry.range]
  · simp [Watched.resetRuntimeState, slot, ShmState.modifyEntry, hu]

variable {now : Nat}

theorem BufferInv.reapSlot {timeout : Nat} (h : BufferInv (n.put d w)) (v : Nat) (i : Slot) :
    BufferInv (n.put d (Watched.reapSlot now timeout w v i)) := by
  have hack := h.same (.proxyAckMarked v i)
  simp only [Watched.reapSlot]
  split
  · split
    · exact hack.freeSlot v i
    · exact hack
  split
  · exact h
  split
  · exact h.same (.modifySlot rfl)
  split
  · exact h
  have huncount := (hack.same (.modifyEntry (v := v) (f := fun e =>
    { e with hbmUsed := subU64 e.hbmUsed (w.shm.slot v i).hbmUsed }) fun _ => rfl)).same
    (.modifySlot (v := v) (i := i) (f := fun pe => { pe with hbmUsed := 0 }) rfl)
  split
  · exact (huncount.freeSlot v i).same (.modifySlot rfl)
  · exact huncount.same (.modifySlot rfl)

/-- The watchdog resets the vNPU at most once its slots record no range. -/
def ResetKeeps (w : Watched) (now v : Nat) : Prop :=
  w.VnpuFresh now v ∨ w.shm.vnpuAllSwapped v = true ∨ ∀ i, (w.shm.slot v i).swapSize = 0

/-- The watchdog's pass over one virtual NPU. -/
theorem BufferInv.pollVnpu (h : BufferInv (n.put d w)) (hkeeps : ResetKeeps w now v) :
    BufferInv (n.put d (Watched.pollVnpu now w v)) := by
  unfold Watched.pollVnpu
  split
  · exact h
  next alive halive =>
  split
  · exact h
  next hbit =>
  split
  · exact h
  next hne =>
  split
  · exact h.same (.of_bitmap rfl rfl fun _ _ => rfl)
  next hle =>
  split
  · exact h
  next hlate =>
  rw [Bool.not_eq_true', Bool.not_eq_false] at hbit
  have hv : v < maxVnpuPerDie := by
    simp only [bitmapTest, Bool.and_eq_true, decide_eq_true_eq] at hbit
    exact hbit.1
  -- the buffers are gone before the slots are forgotten
  have hclean : BufferInv (n.put d (if w.shm.vnpuAllSwapped v then w.cleanupSwapData v else w)) ∧
      ∀ i, ((if w.shm.vnpuAllSwapped v then w.cleanupSwapData v else w).shm.slot v i).range =
        none := by
    split
    · next hall =>
      refine ⟨h.cleanupSwapData v, fun i => ?_⟩
      simp only [vnpuAllSwapped, Bool.and_eq_true] at hall
      unfold Watched.cleanupSwapData
      rw [hall.1.1, hall.2, Bool.true_and, if_pos rfl]
      exact range_shmFree hv i
    · next hall =>
      refine ⟨h, fun i => range_eq_none.mpr ?_⟩
      rcases hkeeps with hfresh | hall' | hnone
      · exact absurd (hfresh alive halive hbit hne (Nat.not_lt.mp hle)) hlate
      · exact absurd hall' hall
      · exact hnone i
  have hacks := foldlRecOn allSlots (fun (w : Watched) j => w.proxyAckMarked v j)
    (motive := fun w' => SameRanges (if w.shm.vnpuAllSwapped v then w.cleanupSwapData v else w) w')
    (.refl _) fun w' hw' j _ => hw'.trans (.proxyAckMarked v j)
  refine (hclean.1.same hacks).same (.resetRuntimeState fun i => ?_)
  rw [hacks.range, hclean.2]

theorem ResetKeeps.pollVnpu {u : Nat} (h : ResetKeeps w now v) (hvu : v ≠ u) :
    ResetKeeps (Watched.pollVnpu now w u) now v := by
  have ho := pollVnpu_otherVnpu (w := w) now hvu
  rcases h with hfresh | hall | hnone
  · exact .inl (ho.fresh hfresh)
  · refine .inr (.inl ?_)
    rw [← hall]
    simp only [vnpuAllSwapped, bitmapTest, anySlot, ho.bitmap, ho.slot]
  · exact .inr (.inr fun i => by rw [ho.slot, hnone])

theorem BufferInv.pollVnpus (us : List Nat) (hnodup : us.Nodup)
    (h : BufferInv (n.put d w)) (hkeeps : ∀ u ∈ us, ResetKeeps w now u) :
    BufferInv (n.put d (us.foldl (Watched.pollVnpu now) w)) := by
  induction us generalizing w with
  | nil => exact h
  | cons u us ih =>
    rw [nodup_cons] at hnodup
    rw [forall_mem_cons] at hkeeps
    apply ih hnodup.2 (h.pollVnpu hkeeps.1)
    intro v hv
    apply (hkeeps.2 v hv).pollVnpu
    rintro rfl
    exact hnodup.1 hv

theorem BufferInv.poll (h : BufferInv (n.put d w)) (hkeeps : ∀ v, ResetKeeps w now v) :
    BufferInv (n.put d (w.poll now)) := by
  unfold Watched.poll
  split
  · exact h
  have hpolled := h.pollVnpus (range maxVnpuPerDie) nodup_range fun v _ => hkeeps v
  generalize (range maxVnpuPerDie).foldl (Watched.pollVnpu now) w = w₁ at hpolled ⊢
  have hreaped : BufferInv (n.put d (w₁.reapDeadProcesses now processAliveTimeoutNs)) := by
    unfold reapDeadProcesses
    apply foldlRecOn _ _ (motive := fun w => BufferInv (n.put d w)) hpolled
    intro w hw v _
    apply foldlRecOn _ _ (motive := fun w => BufferInv (n.put d w)) hw
    intro w hw i _
    exact hw.reapSlot v i
  exact hreaped.same .tryCompleteSwapCmd

/-! ### Processes and entries -/

theorem SameRanges.registerProcess
    (hfree : ∀ i, allSlots.find? (fun i => !(w.shm.slot v i).active) = some i →
      (w.shm.slot v i).swapSize = 0) :
    SameRanges w (w.onShm fun st => (st.registerProcess v now).2) := by
  have hrange : ∀ u j, ((w.shm.registerProcess v now).2.slot u j).range = (w.shm.slot u j).range := by
    intro u j
    unfold ShmState.registerProcess
    split
    · rfl
    split
    · rfl
    · next i hfind =>
      dsimp only
      apply range_modifySlot
      exact (range_eq_none.mpr (hfree i hfind)).symm
  refine .onShm ?_ hrange
  unfold ShmState.registerProcess
  repeat' split
  all_goals rfl

/-- A new entry has empty slots; the slots of a vNPU without an entry recorded nothing. -/
theorem SameRanges.addEntry (e : VnpuShmEntry)
    (hnone : w.shm.bitmapTest v = false → ∀ i, (w.shm.slot v i).range = none) :
    SameRanges w (w.step (.addEntry v e)) := by
  refine ⟨rfl, fun u hbit => .inl ?_, fun u j => ?_⟩
  · simp only [Watched.step, shm_onShm, ShmState.addEntry] at hbit
    split at hbit
    · exact hbit
    split at hbit
    · exact hbit
    next hv habsent =>
    by_cases hu : u = v
    · rwa [hu, ← Bool.not_eq_true]
    · simpa [bitmapTest, hu] using hbit
  · simp only [Watched.step, shm_onShm, ShmState.addEntry]
    split
    · rfl
    split
    · rfl
    next hv habsent =>
    by_cases hu : u = v
    · subst hu
      rw [hnone (Bool.not_eq_true _ ▸ habsent) j]
      simp [slot, ProcessEntry.range, empty]
    · simp [slot, hu]

theorem SameRanges.recoverEntry (v : Nat) (e : VnpuShmEntry) :
    SameRanges w (w.step (.recoverEntry v e)) := by
  refine ⟨rfl, fun u hbit => .inl ?_, fun u j => ?_⟩
  · simp only [Watched.step, Watched.onShm, bitmapTest] at hbit ⊢
    by_cases hu : u = v
    · simp_all
    · simpa [hu] using hbit
  · simp only [Watched.step, Watched.onShm, slot]
    by_cases hu : u = v
    · subst hu; simp
    · simp [hu]

theorem BufferInv.release (h : BufferInv (n.put d w)) (v : Nat) :
    BufferInv (n.put d (w.bufferStep (.release v))) := by
  simp only [bufferStep]
  split
  swap
  · exact h
  next hbit =>
  have hfreed : BufferInv (n.put d (w.step (.freeBuffers v))) := h.shmFree v
  have hnone : ∀ i, ((w.step (.freeBuffers v)).shm.slot v i).range = none := by
    simp only [bitmapTest, Bool.and_eq_true, decide_eq_true_eq] at hbit
    exact range_shmFree hbit.1
  refine hfreed.same ⟨rfl, fun u hu => ?_, fun u j => ?_⟩
  · by_cases huv : u = v
    · exact .inr (huv ▸ hnone)
    · refine .inl ?_
      generalize w.step (.freeBuffers v) = w₁ at hu ⊢
      simp only [Watched.step, Watched.onShm, removeEntry] at hu
      split at hu
      · exact hu
      split at hu
      · exact hu
      · simpa [bitmapTest, ShmState.modifyEntry, huv] using hu
  · generalize w.step (.freeBuffers v) = w₁
    simp only [Watched.step, Watched.onShm, removeEntry]
    split
    · rfl
    split
    · rfl
    · have hslot := slot_modifyEntry w₁.shm v u j
        (f := fun e => { e with vnpuId := -1 }) fun _ => rfl
      exact congrArg ProcessEntry.range hslot

/-! ### What a process does -/

/-- Publishing what was copied keeps a range, but does not make one. -/
theorem SameRanges.swapOut {act : Nat}
    (hsize : (w.shm.slot v i).swapSize ≠ 0) : SameRanges w (w.bufferStep (.swapOut v i act)) := by
  simp only [bufferStep]
  split
  · exact .refl w
  next hact =>
  have hpublish : SameRanges w (w.onShm (·.publishSwapSize v i act)) := by
    apply SameRanges.modifySlot
    simp [ProcessEntry.range, hact, hsize]
  exact hpublish.trans (.counted rfl (counted_finishSwapOut act))

theorem SameRanges.swapIn (v : Nat) (i : Slot) : SameRanges w (w.bufferStep (.swapIn v i)) := by
  simp only [bufferStep]
  split
  · exact .counted rfl (counted_finishSwapIn _)
  · exact .refl w

/-! ### Runs -/

/-- When a step may be taken. A command is written only if the slots it needs ranges for
record none; a process registers in a slot that records none, and swaps out to a range it
has; and the watchdog resets no vNPU whose ranges it does not release. -/
def MayTake (w : Watched) : BufferOp → Prop
  | .resolve _ v action _ => action = .out → w.shm.swapCmd.completed = true →
      ∀ i, NeedsRange (w.shm.slot v i) → (w.shm.slot v i).swapSize = 0
  | .swapOut v i _ => (w.shm.slot v i).swapSize ≠ 0
  | .die (.register v _) _ =>
      ∀ i, allSlots.find? (fun i => !(w.shm.slot v i).active) = some i →
        (w.shm.slot v i).swapSize = 0
  | .die (.poll now) _ => ∀ v, ResetKeeps w now v
  | _ => True

theorem BufferInv.die (h : BufferInv (n.put d w)) {op : DieOp} (hop : op.keepsEntries = true)
    (hmay : MayTake w (.die op hop)) : BufferInv (n.put d (w.step op)) := by
  cases op with
  | writeSwapCmd v action flag => exact h.same (.writeSwapCmd v action flag)
  | initState total | alive v now => exact h.same (.of_bitmap rfl rfl fun _ _ => rfl)
  | proxyAck v i => exact h.same (.acked rfl acked_proxyAckProcess)
  | tryComplete => exact h.same .tryCompleteSwapCmd
  | poll now => exact h.poll hmay
  | tryAck v i seq => exact h.same (.acked rfl acked_tryAckSwapCmd)
  | register v now => exact h.same (.registerProcess hmay)
  | unregister v i => exact h.same (.counted rfl counted_unregisterProcess)
  | heartbeat v i now => exact h.same (.modifySlot rfl)
  | addEntry v e => exact h.same (.addEntry e fun hbit i => h.listed_self i hbit)
  | freeBuffers v => exact h.shmFree v
  | removeEntry v => cases hop
  | recoverEntry v e => exact h.same (.recoverEntry v e)

theorem BufferInv.bufferStep (h : BufferInv (n.put d w)) {op : BufferOp} (hmay : MayTake w op) :
    BufferInv (n.put d (w.bufferStep op)) := by
  cases op with
  | resolve header v action flag => exact h.writeSwapCommand hmay
  | reclaim => exact h.checkAndSwapIn
  | swapOut v i act => exact h.same (.swapOut hmay)
  | swapIn v i => exact h.same (.swapIn v i)
  | malloc v i size => exact h.same (.counted rfl (counted_addUsed size))
  | free v i size => exact h.same (.counted rfl (counted_subUsed size))
  | release v => exact h.release v
  | die op hop => exact h.die hop hmay

end

/-- In every run whose steps may be taken, from a node whose dies are new, every used block
is the range of exactly one slot, and once all vNPUs are released nothing is in use. -/
theorem buffers_accounted (size : Nat) (name : Nat → String)
    (lastAlive : Nat → Option (Nat → Nat)) (run : List (Nat × BufferOp))
    (hrun : EachStep step (fun n l => MayTake (n.view l.1) l.2) (init size name lastAlive) run) :
    Throughout step Accounted (init size name lastAlive) run := by
  have hstep : ∀ (n : SwapNode) (l : Nat × BufferOp), BufferInv n → MayTake (n.view l.1) l.2 →
      BufferInv (n.step l) := by
    intro n l hn hmay
    apply BufferInv.bufferStep _ hmay
    rwa [put_view]
  have hinv := throughout_of_step (bufferInv_init size name lastAlive) hstep hrun
  exact hinv.mono fun _ h => h.accounted

def started : SwapNode :=
  init 8192 (fun _ => "die0") (fun _ => none)

/-- One process holds 100 bytes, is swapped out and in again, and its vNPU is released. -/
def roundTrip : List (Nat × BufferOp) :=
  [(0, .die (.addEntry 0 .zero) rfl), (0, .die (.initState 64) rfl), (0, .die (.register 0 1) rfl),
    (0, .malloc 0 .first 100), (0, .resolve (fun _ => true) 0 .out .none),
    (0, .swapOut 0 .first 100), (0, .die (.tryAck 0 .first 1) rfl), (0, .swapIn 0 .first),
    (0, .reclaim), (0, .resolve (fun _ => true) 0 .out .none), (0, .release 0)]

theorem roundTrip_accounted : Throughout step Accounted started roundTrip := by
  apply buffers_accounted
  have hall : ∀ {P : Slot → Prop}, (∀ i ∈ allSlots, P i) → ∀ i, P i :=
    fun h i => h i (mem_allSlots i)
  refine ⟨trivial, trivial, hall ?_, trivial, fun _ _ => hall ?_, ?_, trivial, trivial, trivial,
    fun _ _ => hall ?_, trivial, trivial⟩
  · decide +kernel
  · decide +kernel
  · dsimp only [MayTake]
    decide +kernel
  · decide +kernel

def secondSlot : Slot := ⟨1, by decide⟩

/-- Two processes, of which the second allocates only after the command was written: the
command took no range for it, and it copies to offset 0. -/
def lateAllocation : List (Nat × BufferOp) :=
  [(0, .die (.addEntry 0 .zero) rfl), (0, .die (.initState 64) rfl), (0, .die (.register 0 1) rfl),
    (0, .die (.register 0 1) rfl), (0, .malloc 0 .first 100),
    (0, .resolve (fun _ => true) 0 .out .none), (0, .malloc 0 secondSlot 64),
    (0, .swapOut 0 secondSlot 64)]

theorem lateAllocation_shares_range : ¬ Throughout step Accounted started lateAllocation := by
  intro h
  obtain ⟨k, -, hunique⟩ := h.last.owner ⟨0, 4096, true⟩ (by decide +kernel)
  have hfirst := hunique (0, 0, .first) (by decide +kernel)
  have hsecond := hunique (0, 0, secondSlot) (by decide +kernel)
  exact absurd (hfirst.trans hsecond.symm) (by decide)

end SwapNode

end UbsVirt.Enpu
