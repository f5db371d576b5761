import UbsVirt.Enpu.SwapExecutor
import UbsVirt.Enpu.SwapBuffers
import UbsVirt.Enpu.Usage

/-!
# Where a swap-out writes

The manager sizes the range of a process from its `hbm_used` when it writes the command. The
process may allocate and free until its monitor copies the records, and the copy loop has no
bound of its own. Source: `enpu-manager/core/src/swap_resolver.c:317-370`,
`vcann-rt/src/swap_monitor_thread.c:85-163`, `swap_executor.c:48-133`, `swap_hook.c:55-281`.
-/

namespace UbsVirt.Enpu

open Run Mapping List ShmState

/-! ### The range of a slot -/

namespace Watched

open SwapNode

def allotted (w : Watched) (v : Nat) (i : Slot) : Nat :=
  if NeedsRange (w.shm.slot v i) then swapAlign (w.shm.slot v i).hbmUsed else 0

variable {header : Slot → Bool} {v : Nat} {i : Slot} {w w' : Watched}

theorem swapSize_allocSlot {ok : Bool} {size : Nat} (h : w.allocSlot ok v i size = some w') :
    (w'.shm.slot v i).swapSize = size := by
  obtain ⟨off, pool, -, rfl⟩ := allocSlot_some h
  simp

/-- A slot that is not in the list keeps its entry. -/
theorem slot_allocBuffers_of_notMem {is done : List Slot}
    (h : allocBuffers header v is done w = (.success, w')) (hi : i ∉ is) :
    w'.shm.slot v i = w.shm.slot v i := by
  induction is generalizing done w with
  | nil =>
    cases h
    rfl
  | cons k is ih =>
    rw [mem_cons, not_or] at hi
    rw [allocBuffers] at h
    split at h
    · exact ih h hi.2
    · split at h
      · cases h
      · next w₁ halloc => rw [ih h hi.2, (allocSlot_frame halloc).2 i hi.1]

/-- A slot that needs a range gets one of the size of its memory. -/
theorem swapSize_allocBuffers {is done : List Slot}
    (h : allocBuffers header v is done w = (.success, w')) (hnodup : is.Nodup) (hi : i ∈ is)
    (hneeds : NeedsRange (w.shm.slot v i)) :
    (w'.shm.slot v i).swapSize = swapAlign (w.shm.slot v i).hbmUsed := by
  induction is generalizing done w with
  | nil => cases hi
  | cons k is ih =>
    rw [nodup_cons] at hnodup
    rw [allocBuffers] at h
    split at h
    · next hskip =>
      rcases mem_cons.mp hi with rfl | hmem
      · simp [hneeds.1, hneeds.2.1, hneeds.2.2] at hskip
      · exact ih h hnodup.2 hmem hneeds
    · split at h
      · cases h
      · next w₁ halloc =>
        rcases mem_cons.mp hi with rfl | hmem
        · rw [slot_allocBuffers_of_notMem h hnodup.1, swapSize_allocSlot halloc]
        · have hne : i ≠ k := fun heq => hnodup.1 (heq ▸ hmem)
          have hslot := (allocSlot_frame halloc).2 i hne
          rw [← hslot] at hneeds ⊢
          exact ih h hnodup.2 hmem hneeds

theorem swapSize_writeSwapCmd (st : ShmState) (flag : SwapOutFlag) (u : Nat) (j : Slot) :
    ((st.writeSwapCmd v .out flag).2.slot u j).swapSize = (st.slot u j).swapSize := by
  have hmark : ∀ seq, ((st.markActive v seq).slot u j).swapSize = (st.slot u j).swapSize := by
    intro seq
    unfold markActive slot modifyEntry
    by_cases hu : u = v
    · subst hu
      simp only [Function.update_self]
      split <;> rfl
    · simp [hu]
  unfold writeSwapCmd
  split
  · rfl
  · exact hmark _

/-- The size that the slot records after a command that was accepted. -/
theorem swapSize_writeSwapCommand {flag : SwapOutFlag} (hopen : w.shm.swapCmd.completed = true)
    (h : w.writeSwapCommand header v .out flag = (.success, w'))
    (hneeds : NeedsRange (w.shm.slot v i)) :
    (w'.shm.slot v i).swapSize = swapAlign (w.shm.slot v i).hbmUsed := by
  have hactive : w.shm.anySlot v (·.active) = true := by
    rw [← Bool.not_eq_false, anySlot_eq_false]
    intro hnone
    have hi := hnone i
    rw [hneeds.1] at hi
    cases hi
  unfold writeSwapCommand at h
  rw [if_neg (by simp), hopen, hactive] at h
  simp only [Bool.not_true, Bool.false_eq_true, if_false] at h
  split at h
  · cases h
  split at h
  · next w₁ halloc =>
    obtain ⟨-, rfl⟩ := Prod.mk.inj h
    exact (swapSize_writeSwapCmd ..).trans
      (swapSize_allocBuffers halloc (nodup_finRange _) (mem_allSlots i) hneeds)
  · next hfailed => exact absurd h (hfailed w')

end Watched

/-! ### What the process does in between -/

/-- A call of the process, after the swap-in that it may begin with. -/
inductive HookCall where
  | malloc (ptr size : Nat) (physical : Bool) (add : TrackerAdd) (handleOk : Bool)
  | free (ptr : Nat) (physical unmapped handleOk : Bool)
  | swapIn (calls : List RestoreCall)

namespace UsageProc

def hookStep (g : ℕ+) (s : ShmState × UsageProc) : HookCall → ShmState × UsageProc
  | .malloc ptr size physical add handleOk => s.2.malloc g s.1 ptr size physical add handleOk
  | .free ptr physical unmapped handleOk => s.2.free s.1 ptr physical unmapped handleOk
  | .swapIn calls => s.2.swapIn g s.1 calls

/-- The copies of a swap-out by the monitor, `swap_monitor_thread.c:93-117`. -/
def monitorCopies (rt : Chooser) (maps : List MapRecord) (dev : Memory) (buffer : Nat → UInt8)
    (st : ShmState) (a : UsageProc) (i : Slot) (ts : List (DevRecord × OutCall)) :
    List (Nat × Nat) :=
  if (st.slot a.vnpu i).swapped || !st.bitmapTest a.vnpu then []
  else (Swapping.swapOutAll rt maps ts (.start dev buffer (st.slot a.vnpu i).swapOffset)).2.copies

end UsageProc

/-! ### How far the copies reach -/

def pendingBytes (rs : List Record) : Nat :=
  (rs.map fun r => if r.pending then r.size else 0).sum

theorem pendingBytes_cons (r : Record) (rs : List Record) : pendingBytes (r :: rs) =
    (if r.pending then r.size else 0) + pendingBytes rs :=
  sum_cons

namespace Swapping

variable (rt : Chooser) (maps : List MapRecord)

theorem copies_subset (ts : List (DevRecord × OutCall)) (s : Swapping) :
    s.copies ⊆ (swapOutAll rt maps ts s).2.copies := by
  induction ts generalizing s with
  | nil => exact fun _ h => h
  | cons t ts ih =>
    refine List.Subset.trans ?_ (ih _)
    rw [(swapOutRecord_spec rt maps s t.1 t.2).copies]
    split
    · exact subset_append_left _ _
    · exact List.Subset.refl _

/-- Whatever the runtime answers, the copies stay within what can be copied. -/
theorem copies_bounded (ts : List (DevRecord × OutCall)) (s : Swapping) {c : Nat × Nat}
    (hc : c ∈ (swapOutAll rt maps ts s).2.copies) : c ∈ s.copies ∨
      s.offset ≤ c.1 ∧ c.1 + c.2 ≤ s.offset + pendingBytes (ts.map (·.1.toRecord)) := by
  induction ts generalizing s with
  | nil => exact .inl hc
  | cons t ts ih =>
    have hstep := swapOutRecord_spec rt maps s t.1 t.2
    have hoffset := hstep.offset
    have hcopies := hstep.copies
    have hpending : t.2.tries maps t.1 = true → t.1.pending = true := by
      intro h
      simp only [OutCall.tries, Bool.and_eq_true] at h
      exact h.1
    have htries : t.2.succeeds maps t.1 = true → t.2.tries maps t.1 = true := by
      intro h
      have hcopies := OutCall.copies_of_succeeds h
      simp only [OutCall.copies, Bool.and_eq_true] at hcopies
      exact hcopies.1
    rw [map_cons, pendingBytes_cons]
    cases ht : t.2.tries maps t.1 with
    | false =>
      have hfails : t.2.succeeds maps t.1 = false :=
        Bool.not_eq_true _ ▸ fun h => Bool.false_ne_true (ht.symm.trans (htries h))
      rw [ht, if_neg Bool.false_ne_true] at hcopies
      rw [hfails, if_neg Bool.false_ne_true] at hoffset
      have hrest := ih (swapOutRecord rt maps s t.1 t.2).2 hc
      rw [hcopies, hoffset] at hrest
      exact hrest.imp_right fun h => ⟨h.1, by omega⟩
    | true =>
      rw [ht, if_pos rfl] at hcopies
      rw [if_pos (hpending ht)]
      have hrest := ih (swapOutRecord rt maps s t.1 t.2).2 hc
      rw [hcopies, hoffset, mem_append, mem_singleton] at hrest
      rcases hrest with (hold | rfl) | hnew
      · exact .inl hold
      · exact .inr ⟨Nat.le_refl _, by dsimp only; omega⟩
      · refine .inr ?_
        split at hnew
        all_goals omega

/-- When the runtime answers every call, the last copy ends where the records end. -/
theorem copies_reach (rs : List DevRecord) (s : Swapping) : pendingBytes (rs.map (·.toRecord)) = 0 ∨
      ∃ c ∈ (swapOutAll rt maps (rs.map fun r => (r, allAnswered)) s).2.copies,
        c.1 + c.2 = s.offset + pendingBytes (rs.map (·.toRecord)) := by
  induction rs generalizing s with
  | nil => exact .inl rfl
  | cons r rs ih =>
    have hstep := swapOutRecord_spec rt maps s r allAnswered
    have hoffset := hstep.offset
    have hcopies := hstep.copies
    have hrest := ih (swapOutRecord rt maps s r allAnswered).2
    rw [map_cons, map_cons, pendingBytes_cons]
    cases hp : r.pending with
    | false =>
      have hfails : allAnswered.succeeds maps r = false := by
        simp [OutCall.succeeds, OutCall.copies, OutCall.tries, hp]
      rw [hfails, if_neg Bool.false_ne_true] at hoffset
      rw [hoffset] at hrest
      rwa [if_neg Bool.false_ne_true, Nat.zero_add]
    | true =>
      have htries : allAnswered.tries maps r = true := by simp [OutCall.tries, hp, allAnswered]
      have hsucceeds : allAnswered.succeeds maps r = true := by
        rw [OutCall.succeeds, OutCall.copies, htries]
        simp [allAnswered]
      rw [hsucceeds, if_pos rfl] at hoffset
      rw [htries, if_pos rfl] at hcopies
      rw [if_pos rfl]
      refine .inr ?_
      rcases hrest with hzero | ⟨c, hc, hend⟩
      · have hmem : (s.offset, r.size) ∈ (swapOutRecord rt maps s r allAnswered).2.copies := by
          rw [hcopies]
          exact mem_append_right _ (mem_singleton_self _)
        exact ⟨(s.offset, r.size), copies_subset rt maps
          (rs.map fun r => (r, allAnswered)) _ hmem, by rw [hzero]; rfl⟩
      · exact ⟨c, hc, by omega⟩

/-- A copy of `c.2` bytes to `c.1` lies in a range. -/
def Inside (offset size : Nat) (c : Nat × Nat) : Prop :=
  offset ≤ c.1 ∧ c.1 + c.2 ≤ offset + size

instance (offset size : Nat) (c : Nat × Nat) : Decidable (Inside offset size c) :=
  inferInstanceAs (Decidable (_ ∧ _))

/-- Whatever the runtime answers, the copies of the records stay in a range: exactly if all of them
together do. -/
theorem forall_inside_iff (rs : List Record) (offset size : Nat) :
    (∀ rt maps dev buffer ts, ts.map (fun t : DevRecord × OutCall => t.1.toRecord) = rs →
      ∀ c ∈ (swapOutAll rt maps ts (.start dev buffer offset)).2.copies, Inside offset size c) ↔
      pendingBytes rs ≤ size := by
  constructor
  · intro h
    have hrecords : (rs.map fun r => (⟨r, 0⟩ : DevRecord)).map (·.toRecord) = rs := by
      rw [map_map]
      exact map_id rs
    rcases copies_reach .next [] (rs.map fun r => (⟨r, 0⟩ : DevRecord))
      (.start ⟨∅, fun _ => none, ∅, fun _ _ => 0⟩ (fun _ => 0) offset) with hzero | ⟨c, hc, hend⟩
    · rw [hrecords] at hzero
      omega
    · rw [hrecords] at hend
      have hinside := h _ _ _ _ _ (by rw [map_map]; exact hrecords) c hc
      have hstart : c.1 + c.2 = offset + pendingBytes rs := hend
      have hle := hinside.2
      omega
  · intro hle rt maps dev buffer ts hts c hc
    rcases copies_bounded rt maps ts _ hc with hnone | hbound
    · cases hnone
    · rw [hts] at hbound
      exact ⟨hbound.1, hbound.2.trans (Nat.add_le_add_left hle offset)⟩

end Swapping

/-! ### The offset stays -/

namespace ShmState

def SameOffsets (st st' : ShmState) : Prop :=
  ∀ u j, (st'.slot u j).swapOffset = (st.slot u j).swapOffset

variable {st st' : ShmState}

theorem SameOffsets.refl (st : ShmState) : st.SameOffsets st := fun _ _ => rfl

theorem Counted.sameOffsets {v : Nat} {i : Slot} (h : Counted st st' v i) : st.SameOffsets st' :=
  h.keeps h.offset

theorem sameOffsets_modifyEntry (v : Nat) {f : VnpuShmEntry → VnpuShmEntry}
    (hf : ∀ e, (f e).processes = e.processes) : st.SameOffsets (st.modifyEntry v f) := by
  intro u j
  rw [slot_modifyEntry _ _ _ _ hf]

theorem sameOffsets_charge (st : ShmState) (v size : Nat) (o : Option Slot) :
    st.SameOffsets (st.charge v size o) := by
  cases o with
  | none =>
    unfold charge
    dsimp only
    split
    · exact sameOffsets_modifyEntry v fun _ => rfl
    · exact .refl st
  | some i => exact (counted_addUsed size).sameOffsets

theorem sameOffsets_uncharge (st : ShmState) (v size : Nat) (o : Option Slot) :
    st.SameOffsets (st.uncharge v size o) := by
  cases o with
  | none =>
    unfold uncharge
    dsimp only
    split
    · exact sameOffsets_modifyEntry v fun _ => rfl
    · exact .refl st
  | some i => exact (counted_subUsed size).sameOffsets

end ShmState

namespace UsageProc

theorem hookStep_keeps (g : ℕ+) (s : ShmState × UsageProc) (c : HookCall) :
    s.1.SameOffsets (hookStep g s c).1 ∧ (hookStep g s c).2.vnpu = s.2.vnpu := by
  cases c with
  | malloc ptr size physical add handleOk =>
    refine ⟨?_, rfl⟩
    unfold hookStep malloc
    dsimp only
    generalize (if physical then size else alignUp g size) = allocated
    split
    · exact sameOffsets_charge s.1 _ _ _
    · exact .refl _
  | free ptr physical unmapped handleOk =>
    unfold hookStep free
    dsimp only
    split
    · exact ⟨.refl _, rfl⟩
    · refine ⟨?_, rfl⟩
      dsimp only
      split
      · exact sameOffsets_uncharge s.1 _ _ _
      · exact .refl _
  | swapIn calls =>
    unfold hookStep swapIn
    dsimp only
    split
    · exact ⟨.refl _, rfl⟩
    split
    · exact ⟨.refl _, rfl⟩
    · exact ⟨(counted_finishSwapIn _).sameOffsets, rfl⟩

theorem history_keeps (g : ℕ+) (s : ShmState × UsageProc) (history : List HookCall) :
    s.1.SameOffsets (exec (hookStep g) s history).1 ∧
      (exec (hookStep g) s history).2.vnpu = s.2.vnpu := by
  induction history generalizing s with
  | nil => exact ⟨.refl _, rfl⟩
  | cons c history ih =>
    obtain ⟨hoffsets, hvnpu⟩ := hookStep_keeps g s c
    rw [exec_cons]
    exact ⟨fun u j => ((ih _).1 u j).trans (hoffsets u j), (ih _).2.trans hvnpu⟩

end UsageProc

open UsageProc Swapping in
/-- For every history of allocations and releases between the command and the swap-out, whatever
the runtime answers, the copies stay in the range of the slot: exactly if the records that are on
the device take no more than the manager has allocated, or the monitor does not copy. -/
theorem copies_inside_iff (g : ℕ+) (header : Slot → Bool) (w w' : Watched) (flag : SwapOutFlag)
    (a : UsageProc) (i : Slot) (history : List HookCall)
    (hopen : w.shm.swapCmd.completed = true)
    (hcmd : w.writeSwapCommand header a.vnpu .out flag = (.success, w')) :
    let s := exec (hookStep g) (w'.shm, a) history
    let slot := w'.shm.slot a.vnpu i
    (∀ rt maps dev buffer ts, ts.map (·.1.toRecord) = s.2.records →
      ∀ c ∈ monitorCopies rt maps dev buffer s.1 s.2 i ts,
        Inside slot.swapOffset
          (if SwapNode.NeedsRange (w.shm.slot a.vnpu i) then slot.swapSize else 0) c) ↔
      (s.1.slot a.vnpu i).swapped = true ∨ s.1.bitmapTest a.vnpu = false ∨
        pendingBytes s.2.records ≤ w.allotted a.vnpu i := by
  intro s slot
  have hsize : (if SwapNode.NeedsRange (w.shm.slot a.vnpu i) then slot.swapSize else 0) =
      w.allotted a.vnpu i := by
    unfold Watched.allotted
    split
    · next hneeds => exact Watched.swapSize_writeSwapCommand hopen hcmd hneeds
    · rfl
  obtain ⟨hoffsets, hvnpu⟩ := history_keeps g (w'.shm, a) history
  have hoffset : (s.1.slot s.2.vnpu i).swapOffset = slot.swapOffset := by
    rw [hvnpu]
    exact hoffsets a.vnpu i
  have hvnpu : s.2.vnpu = a.vnpu := hvnpu
  rw [hsize]
  unfold monitorCopies
  rw [hoffset, hvnpu]
  cases hswapped : (s.1.slot a.vnpu i).swapped with
  | true => simp
  | false =>
    cases hentry : s.1.bitmapTest a.vnpu with
    | false => simp
    | true =>
      simp only [Bool.not_true, Bool.or_false, Bool.false_eq_true, Bool.true_eq_false, if_false,
        false_or]
      exact forall_inside_iff ..

namespace UsageProc

/-- A die with a pool of 12288 bytes and one process, which holds 4096 bytes. -/
def loneDie : Watched where
  pool := Tlsf.init 12288
  shm :=
    let slot : ProcessEntry := { ProcessEntry.empty with active := true, hbmUsed := 4096 }
    let st := create "die"
    { st.modifySlot 0 .first fun _ => slot with
      vnpuBitmap := fun v => v == 0
      swapCmd := { st.swapCmd with completed := true } }
  lastAlive := none

def lone : UsageProc where
  vnpu := 0
  slot := some .first
  records := [{ ptr := 1, size := 4096, size_pos := by decide, physical := false, swapped := false
                swapOffset := 0 }]

def loneAsked : Watched :=
  (loneDie.writeSwapCommand (fun _ => true) 0 .out .none).2

theorem loneDie_asked :
    loneDie.writeSwapCommand (fun _ => true) lone.vnpu .out .none = (.success, loneAsked) :=
  Prod.ext (by decide +kernel) rfl

end UsageProc

open UsageProc Swapping in
/-- The process frees its memory and allocates 2048 bytes: all of it fits. -/
theorem copies_inside_lone :
    loneDie.allotted lone.vnpu .first = 4096 ∧
    let s := exec (hookStep 2048) (loneAsked.shm, lone)
      [.free 1 false true true, .malloc 2 2048 false .stored true]
    ∀ rt maps dev buffer ts, ts.map (·.1.toRecord) = s.2.records →
      ∀ c ∈ monitorCopies rt maps dev buffer s.1 s.2 .first ts,
        Inside (loneAsked.shm.slot lone.vnpu .first).swapOffset
          (if SwapNode.NeedsRange (loneDie.shm.slot lone.vnpu .first) then
            (loneAsked.shm.slot lone.vnpu .first).swapSize else 0) c :=
  ⟨by decide +kernel,
    (copies_inside_iff 2048 (fun _ => true) loneDie loneAsked .none lone .first
      [.free 1 false true true, .malloc 2 2048 false .stored true] rfl loneDie_asked).mpr
      (by decide +kernel)⟩

open UsageProc Swapping in
/-- The process allocates 4096 bytes more before the monitor copies: the second copy is written
behind the range. -/
theorem copy_outside_range :
    ¬ ∀ (g : ℕ+) (header : Slot → Bool) (w w' : Watched) (flag : SwapOutFlag) (a : UsageProc)
      (i : Slot) (history : List HookCall), w.shm.swapCmd.completed = true →
      w.writeSwapCommand header a.vnpu .out flag = (.success, w') →
      let s := exec (hookStep g) (w'.shm, a) history
      ∀ rt maps dev buffer ts, ts.map (·.1.toRecord) = s.2.records →
        ∀ c ∈ monitorCopies rt maps dev buffer s.1 s.2 i ts,
          Inside (w'.shm.slot a.vnpu i).swapOffset
            (if SwapNode.NeedsRange (w.shm.slot a.vnpu i) then (w'.shm.slot a.vnpu i).swapSize
              else 0) c := by
  intro h
  have hcopies := h 2048 (fun _ => true) loneDie loneAsked .none lone .first
    [.malloc 2 4096 false .stored true] rfl loneDie_asked .next []
    ⟨∅, fun _ => none, ∅, fun _ _ => 0⟩ (fun _ => 0)
  have hlast := hcopies ((exec (hookStep 2048) (loneAsked.shm, lone)
      [.malloc 2 4096 false .stored true]).2.records.map fun r => (⟨r, 0⟩, allAnswered))
    (by decide +kernel)
    ((loneAsked.shm.slot lone.vnpu .first).swapOffset + 4096, 4096) (by decide +kernel)
  exact absurd hlast (by decide +kernel)

end UbsVirt.Enpu
