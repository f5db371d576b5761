import UbsVirt.Enpu.SwapBuffers
import UbsVirt.Enpu.TlsfRun

/-!
# A swap-out command that cannot be written

`swap_resolver_write_swap_command` (`enpu-manager/core/src/swap_resolver.c:331-370`) takes a
range of the swap buffer for one process after the other. When a range cannot be had it gives
back those it took, by slot: each slot that was served is freed, and its `swap_offset` and
`swap_size` are set to 0. The pool is then as it was. The slots are not, if one of those served
recorded a range before.
-/

namespace UbsVirt.Enpu

open List Tlsf

open SwapNode (NeedsRange alignSize_swapAlign_pos)

namespace Watched

/-- The allocation loop over some slots, as long as no allocation fails. -/
def allocUpTo (header : Slot → Bool) (v : Nat) : List Slot → Watched → Option Watched
  | [], w => some w
  | i :: is, w =>
    if NeedsRange (w.shm.slot v i) then
      (w.allocSlot (header i) v i (swapAlign (w.shm.slot v i).hbmUsed)).bind
        (allocUpTo header v is)
    else allocUpTo header v is w

def served (w : Watched) (v : Nat) (is : List Slot) : List Slot :=
  is.filter fun i => decide (NeedsRange (w.shm.slot v i))

/-- Every slot records the same range in both states, and the same blocks are used. -/
def SameBuffers (w w' : Watched) : Prop :=
  (∀ u j, (w'.shm.slot u j).swapOffset = (w.shm.slot u j).swapOffset ∧
    (w'.shm.slot u j).swapSize = (w.shm.slot u j).swapSize) ∧
  ∀ b, b ∈ w'.pool.usedBlocks ↔ b ∈ w.pool.usedBlocks

end Watched

open Watched

variable {w w₁ w₂ : Watched} {v : Nat} {i : Slot} {done : List Slot} {header : Slot → Bool}

/-! ### Taking ranges -/

/-- Between the state `w` and `w₁` the slots `done` of a vNPU took a range, and nothing else
changed in the slots or among the used blocks. -/
structure Lent (v : Nat) (w w₁ : Watched) (done : List Slot) : Prop where
  wf : w₁.pool.WF
  slots : ∀ u j, u ≠ v ∨ j ∉ done → w₁.shm.slot u j = w.shm.slot u j
  sized : ∀ j ∈ done, (w₁.shm.slot v j).swapSize ≠ 0
  used : ∀ b, b ∈ w.pool.usedBlocks ↔
    b ∈ w₁.pool.usedBlocks ∧ ∀ j ∈ done, b.offset ≠ (w₁.shm.slot v j).swapOffset

theorem Lent.refl (h : w.pool.WF) : Lent v w w [] :=
  ⟨h, fun _ _ _ => rfl, by simp, by simp⟩

/-- One slot more is lent a range. -/
theorem Lent.alloc {used : Nat} {ok : Bool} (h : Lent v w w₁ done) (hi : i ∉ done)
    (halloc : w₁.allocSlot ok v i (swapAlign used) = some w₂) : Lent v w w₂ (done ++ [i]) := by
  obtain ⟨off, pool, hpool, rfl⟩ := allocSlot_some halloc
  have hsize : swapAlign used ≠ 0 := by
    intro hzero
    simp [alloc, hzero] at hpool
  have hpos := alignSize_swapAlign_pos hsize
  have hmem := mem_usedBlocks_alloc h.wf hpos hpool
  have hother : ∀ u j, u ≠ v ∨ j ≠ i → (w₁.shm.modifySlot v i fun pe =>
      { pe with swapOffset := off, swapSize := swapAlign used }).slot u j = w₁.shm.slot u j :=
    fun u j hne => ShmState.slot_modifySlot_of_ne hne
  have hkept : ∀ j ∈ done, (w₁.shm.modifySlot v i fun pe =>
      { pe with swapOffset := off, swapSize := swapAlign used }).slot v j = w₁.shm.slot v j := by
    refine fun j hj => hother v j (.inr ?_)
    rintro rfl
    exact hi hj
  refine ⟨(alloc_spec h.wf hpos hpool).1, fun u j hne => ?_, fun j hj => ?_, fun b => ?_⟩
  · rw [mem_append, mem_singleton, not_or] at hne
    have hslot := hother u j (hne.imp_right And.right)
    exact hslot.trans (h.slots u j (hne.imp_right And.left))
  · rw [mem_append, mem_singleton] at hj
    rcases hj with hj | rfl
    · rw [hkept j hj]
      exact h.sized j hj
    · simpa using hsize
  · rw [h.used, hmem]
    simp only [mem_append, mem_singleton]
    constructor
    · rintro ⟨⟨hb, hoff⟩, hold⟩
      refine ⟨hb, ?_⟩
      rintro j (hj | rfl)
      · rw [hkept j hj]
        exact hold j hj
      · simpa using hoff
    · rintro ⟨hb, hall⟩
      have hoff := hall i (.inr rfl)
      refine ⟨⟨hb, by simpa using hoff⟩, fun j hj => ?_⟩
      have hj' := hall j (.inl hj)
      rwa [hkept j hj] at hj'

/-- The loop serves the slots in order. -/
theorem allocBuffers_append {is : List Slot} (rest : List Slot) (h : Lent v w w₁ done)
    (hnodup : (done ++ is).Nodup) (hup : allocUpTo header v is w₁ = some w₂) :
    Lent v w w₂ (done ++ w.served v is) ∧ allocBuffers header v (is ++ rest) done w₁ =
        allocBuffers header v rest (done ++ w.served v is) w₂ := by
  induction is generalizing done w₁ with
  | nil =>
    cases hup
    simpa [served] using h
  | cons i is ih =>
    have hi : i ∉ done := by
      have hsplit := nodup_middle.mp hnodup
      exact fun hmem => (nodup_cons.mp hsplit).1 (mem_append_left _ hmem)
    have hslot := h.slots v i (.inr hi)
    rw [cons_append, allocBuffers]
    unfold allocUpTo at hup
    by_cases hneeds : NeedsRange (w₁.shm.slot v i)
    · rw [if_pos hneeds, Option.bind_eq_some_iff] at hup
      obtain ⟨w', halloc, hrest⟩ := hup
      have hserved : w.served v (i :: is) = i :: w.served v is := by
        unfold served
        rw [filter_cons_of_pos (by rw [← hslot]; exact decide_eq_true hneeds)]
      rw [append_cons] at hnodup
      obtain ⟨hlent, heq⟩ := ih (h.alloc hi halloc) hnodup hrest
      rw [hserved, append_cons]
      refine ⟨hlent, ?_⟩
      rwa [if_neg (by simp [hneeds.1, hneeds.2.1, hneeds.2.2]), halloc]
    · rw [if_neg hneeds] at hup
      have hserved : w.served v (i :: is) = w.served v is := by
        unfold served
        rw [filter_cons_of_neg (by rw [← hslot]; simpa using hneeds)]
      have hsub : (done ++ is).Sublist (done ++ i :: is) :=
        List.Sublist.append_left (sublist_cons_self i is) done
      obtain ⟨hlent, heq⟩ := ih h (hnodup.sublist hsub) hup
      rw [hserved]
      refine ⟨hlent, ?_⟩
      rw [if_pos ?_]
      · exact heq
      · unfold NeedsRange at hneeds
        cases hactive : (w₁.shm.slot v i).active <;> cases hswapped : (w₁.shm.slot v i).swapped <;>
          simp_all

/-! ### Giving them back -/

theorem freeSlot_eq (hsize : (w.shm.slot v i).swapSize ≠ 0) :
    (w.freeSlot v i).pool = free w.pool (w.shm.slot v i).swapOffset ∧
      ((w.freeSlot v i).shm.slot v i).swapOffset = 0 ∧
      ((w.freeSlot v i).shm.slot v i).swapSize = 0 := by
  simp [Watched.freeSlot, shmFreePerProcess, hsize]

/-- Freeing slots one after the other. -/
theorem freeSlots_spec (hwf : w.pool.WF) (hnodup : done.Nodup)
    (hsized : ∀ j ∈ done, (w.shm.slot v j).swapSize ≠ 0) :
    (∀ u j, u ≠ v ∨ j ∉ done →
        (done.foldl (fun w j => w.freeSlot v j) w).shm.slot u j = w.shm.slot u j) ∧
      (∀ j ∈ done, ((done.foldl (fun w j => w.freeSlot v j) w).shm.slot v j).swapOffset = 0 ∧
        ((done.foldl (fun w j => w.freeSlot v j) w).shm.slot v j).swapSize = 0) ∧
      ∀ b, b ∈ (done.foldl (fun w j => w.freeSlot v j) w).pool.usedBlocks ↔
        b ∈ w.pool.usedBlocks ∧ ∀ j ∈ done, b.offset ≠ (w.shm.slot v j).swapOffset := by
  induction done generalizing w with
  | nil => simp
  | cons i is ih =>
    rw [nodup_cons] at hnodup
    obtain ⟨hpool, hoff, hsize⟩ := freeSlot_eq (hsized i (by simp))
    have hother : ∀ u j, u ≠ v ∨ j ≠ i → (w.freeSlot v i).shm.slot u j = w.shm.slot u j :=
      fun u j hne => Watched.slot_freeSlot_of_ne hne
    have hkept : ∀ j ∈ is, (w.freeSlot v i).shm.slot v j = w.shm.slot v j := by
      refine fun j hj => hother v j (.inr ?_)
      rintro rfl
      exact hnodup.1 hj
    obtain ⟨hslots, hzero, hused⟩ := ih (w := w.freeSlot v i) (hpool ▸ hwf.free_any _) hnodup.2
      fun j hj => by rw [hkept j hj]; exact hsized j (by simp [hj])
    rw [foldl_cons]
    refine ⟨fun u j hne => ?_, fun j hj => ?_, fun b => ?_⟩
    · rw [mem_cons, not_or] at hne
      exact (hslots u j (hne.imp_right And.right)).trans (hother u j (hne.imp_right And.left))
    · rcases mem_cons.mp hj with rfl | hj
      · rw [hslots v j (.inr hnodup.1)]
        exact ⟨hoff, hsize⟩
      · exact hzero j hj
    · rw [hused, hpool, mem_usedBlocks_free_iff hwf, and_assoc, forall_mem_cons]
      refine and_congr_right fun _ => and_congr_right fun _ => forall₂_congr fun j hj => ?_
      rw [hkept j hj]

/-! ### The failed command -/

/-- The allocation for slot `k` of a vNPU fails, those for the slots `pre` before it do not. -/
def FailsAt (header : Slot → Bool) (w : Watched) (v : Nat) (pre : List Slot) (k : Slot) : Prop :=
  ∃ w₁, allocUpTo header v pre w = some w₁ ∧ NeedsRange (w.shm.slot v k) ∧
    w₁.allocSlot (header k) v k (swapAlign (w.shm.slot v k).hbmUsed) = none

variable {pre post : List Slot} {k : Slot}

/-- What a failed allocation leaves. -/
theorem allocBuffers_of_failsAt (hwf : w.pool.WF) (hslots : allSlots = pre ++ k :: post)
    (h : FailsAt header w v pre k) :
    ∃ w₁, Lent v w w₁ (w.served v pre) ∧ allocBuffers header v allSlots [] w =
      (.fail, (w.served v pre).foldl (fun w j => w.freeSlot v j) w₁) := by
  obtain ⟨w₁, hup, hneeds, hfail⟩ := h
  have hnodup : (pre ++ k :: post).Nodup := hslots ▸ nodup_finRange _
  have hk : k ∉ w.served v pre := by
    intro hmem
    have hsplit := nodup_middle.mp hnodup
    exact (nodup_cons.mp hsplit).1 (mem_append_left _ (mem_filter.mp hmem).1)
  obtain ⟨hlent, heq⟩ := allocBuffers_append (k :: post) (Lent.refl hwf)
    (by simpa using (nodup_append.mp hnodup).1) hup
  rw [nil_append] at hlent heq
  refine ⟨w₁, hlent, ?_⟩
  have hslot := hlent.slots v k (.inr hk)
  rw [hslots, heq, allocBuffers]
  rw [hslot, if_neg (by simp [hneeds.1, hneeds.2.1, hneeds.2.2]), hfail]

/-- When a failed allocation puts every range back. -/
theorem restores_iff_of_failsAt (hwf : w.pool.WF) (hslots : allSlots = pre ++ k :: post)
    (h : FailsAt header w v pre k) :
    SameBuffers w (allocBuffers header v allSlots [] w).2 ↔ ∀ j ∈ pre, NeedsRange (w.shm.slot v j) →
        (w.shm.slot v j).swapOffset = 0 ∧ (w.shm.slot v j).swapSize = 0 := by
  obtain ⟨w₁, hlent, heq⟩ := allocBuffers_of_failsAt hwf hslots h
  have hnodup : (w.served v pre).Nodup := by
    have hall : (pre ++ k :: post).Nodup := hslots ▸ nodup_finRange _
    exact (nodup_append.mp hall).1.filter _
  obtain ⟨hkept, hzero, hused⟩ := freeSlots_spec hlent.wf hnodup hlent.sized
  have hserved : ∀ j, j ∈ w.served v pre ↔ j ∈ pre ∧ NeedsRange (w.shm.slot v j) := by
    intro j
    simp [served]
  rw [heq]
  constructor
  · intro hsame j hj hneeds
    have hmem := (hserved j).mpr ⟨hj, hneeds⟩
    obtain ⟨hoff, hsize⟩ := hsame.1 v j
    exact ⟨hoff.symm.trans (hzero j hmem).1, hsize.symm.trans (hzero j hmem).2⟩
  · intro hempty
    refine ⟨fun u j => ?_, fun b => ?_⟩
    · by_cases hmem : u ≠ v ∨ j ∉ w.served v pre
      · dsimp only
        rw [hkept u j hmem, hlent.slots u j hmem]
        exact ⟨rfl, rfl⟩
      · rw [not_or, not_not, not_not] at hmem
        obtain ⟨rfl, hj⟩ := hmem
        have hold := hempty j ((hserved j).mp hj).1 ((hserved j).mp hj).2
        exact ⟨(hzero j hj).1.trans hold.1.symm, (hzero j hj).2.trans hold.2.symm⟩
    · rw [hused, hlent.used]

/-- The loop reports a failure only if an allocation fails. -/
theorem exists_failsAt {is : List Slot} (done : List Slot) (hnodup : is.Nodup)
    (hfail : (allocBuffers header v is done w).1 = .fail) :
    ∃ pre k post, is = pre ++ k :: post ∧ FailsAt header w v pre k := by
  induction is generalizing done w with
  | nil => cases hfail
  | cons i is ih =>
    rw [nodup_cons] at hnodup
    rw [allocBuffers] at hfail
    split at hfail
    · next hskip =>
      have hneeds : ¬ NeedsRange (w.shm.slot v i) := by
        rintro ⟨hactive, hswapped, hheld⟩
        simp [hactive, hswapped, hheld] at hskip
      obtain ⟨pre, k, post, rfl, w₁, hup, hrest⟩ := ih done hnodup.2 hfail
      refine ⟨i :: pre, k, post, rfl, w₁, ?_, hrest⟩
      unfold allocUpTo
      rwa [if_neg hneeds]
    · next hskip =>
      have hneeds : NeedsRange (w.shm.slot v i) := by
        simp only [Bool.or_eq_true, Bool.not_eq_true', beq_iff_eq, not_or, Bool.not_eq_false,
          Bool.not_eq_true] at hskip
        exact ⟨hskip.1.1, hskip.1.2, hskip.2⟩
      split at hfail
      · next halloc => exact ⟨[], i, is, rfl, w, rfl, hneeds, halloc⟩
      · next w' halloc =>
        obtain ⟨pre, k, post, rfl, w₁, hup, hk, hrest⟩ := ih _ hnodup.2 hfail
        have hki : k ≠ i := by
          rintro rfl
          exact hnodup.1 (by simp)
        have hslot := (SwapNode.allocSlot_frame halloc).2 k hki
        rw [hslot] at hk hrest
        refine ⟨i :: pre, k, post, rfl, w₁, ?_, hk, hrest⟩
        unfold allocUpTo
        rwa [if_pos hneeds, halloc]

theorem writeSwapCmd_ne_fail (st : ShmState) (v : Nat) (action : SwapAction) (flag : SwapOutFlag) :
    (st.writeSwapCmd v action flag).1 ≠ .fail := by
  unfold ShmState.writeSwapCmd
  split
  · exact Status.noConfusion
  · cases action <;> exact Status.noConfusion

/-- The command fails where its allocation loop does. -/
theorem writeSwapCommand_eq_of_fail {flag : SwapOutFlag}
    (hfail : (w.writeSwapCommand header v .out flag).1 = .fail) :
    w.writeSwapCommand header v .out flag = allocBuffers header v allSlots [] w := by
  unfold Watched.writeSwapCommand at hfail ⊢
  rw [if_neg (by simp)] at hfail ⊢
  by_cases hcompleted : (!w.shm.swapCmd.completed) = true
  · rw [if_pos hcompleted] at hfail
    cases hfail
  by_cases hbit : (!w.shm.bitmapTest v) = true
  · rw [if_neg hcompleted, if_pos hbit] at hfail
    cases hfail
  by_cases hactive : (!w.shm.anySlot v (·.active)) = true
  · rw [if_neg hcompleted, if_neg hbit, if_pos hactive] at hfail
    cases hfail
  rw [if_neg hcompleted, if_neg hbit, if_neg hactive] at hfail ⊢
  split at hfail
  · exact absurd hfail (writeSwapCmd_ne_fail _ _ _ _)
  · rfl

/-- A swap-out command that returns an error because a range cannot be had leaves the ranges
recorded in the slots and the used blocks as they were, exactly if no slot that was served
before the failure recorded a range. -/
theorem writeSwapCommand_restores_iff (header : Slot → Bool) (w : Watched) (v : Nat)
    (flag : SwapOutFlag) (hwf : w.pool.WF)
    (hfail : (w.writeSwapCommand header v .out flag).1 = .fail) :
    SameBuffers w (w.writeSwapCommand header v .out flag).2 ↔
      ∀ pre k post, allSlots = pre ++ k :: post → FailsAt header w v pre k →
        ∀ j ∈ pre, NeedsRange (w.shm.slot v j) →
          (w.shm.slot v j).swapOffset = 0 ∧ (w.shm.slot v j).swapSize = 0 := by
  have hcall := writeSwapCommand_eq_of_fail hfail
  rw [hcall] at hfail ⊢
  obtain ⟨pre, k, post, hslots, hpoint⟩ := exists_failsAt [] (nodup_finRange _) hfail
  constructor
  · intro hsame pre' k' post' hslots' hpoint'
    exact (restores_iff_of_failsAt hwf hslots' hpoint').mp hsame
  · intro hall
    exact (restores_iff_of_failsAt hwf hslots hpoint).mpr (hall pre k post hslots hpoint)

/-- A vNPU with two processes: the first one holds 4096 bytes and, if `old`, still records the
4096 bytes it had been given before, the second one holds more than the pool of 12288 has. -/
def crowded (old : Bool) : Watched where
  pool := if old then ((alloc (init 12288) 4096 true).map Prod.snd).getD (init 12288)
    else init 12288
  shm :=
    let first : ProcessEntry :=
      { ProcessEntry.empty with
        active := true, hbmUsed := 4096, swapSize := if old then 4096 else 0 }
    let second : ProcessEntry := { ProcessEntry.empty with active := true, hbmUsed := 20000 }
    { ShmState.create "" with
      entries := fun _ => { VnpuShmEntry.zero with
        processes := fun i => if i.val = 0 then first else if i.val = 1 then second else .empty }
      vnpuBitmap := fun v => v == 0
      swapCmd :=
        { targetVnpuId := 0, action := .none, completed := true, refcount := 0, cmdSeq := 0 } }
  lastAlive := none

theorem crowded_fails (old : Bool) :
    ((crowded old).writeSwapCommand (fun _ => true) 0 .out .none).1 = .fail := by
  cases old <;> decide +kernel

/-- With no range recorded before, the failed command leaves everything as it was. -/
theorem crowded_restores :
    SameBuffers (crowded false) ((crowded false).writeSwapCommand (fun _ => true) 0 .out .none).2 := by
  refine (writeSwapCommand_restores_iff (fun _ => true) (crowded false) 0 .none
    (wf_init 12288) (crowded_fails false)).mpr fun pre k post _ _ j _ _ => ?_
  by_cases hfirst : j.val = 0 <;> by_cases hsecond : j.val = 1 <;>
    simp [crowded, ShmState.slot, ProcessEntry.empty, hfirst, hsecond]

/-- The first process loses the record of the range it had; the range stays in use. -/
theorem failed_command_forgets_range :
    ¬ ∀ (header : Slot → Bool) (w : Watched) (v : Nat) (flag : SwapOutFlag), w.pool.WF →
      (w.writeSwapCommand header v .out flag).1 = .fail →
      SameBuffers w (w.writeSwapCommand header v .out flag).2 := by
  intro h
  have hwf : (crowded true).pool.WF := by
    cases halloc : alloc (init 12288) 4096 true with
    | none => exact absurd halloc (by decide +kernel)
    | some r =>
      have hpool : (crowded true).pool = r.2 := by simp [crowded, halloc]
      rw [hpool]
      exact (alloc_spec (wf_init 12288) (by decide) halloc).1
  have hsame := h (fun _ => true) (crowded true) 0 .none hwf (crowded_fails true)
  have hsize := (hsame.1 0 Slot.first).2
  revert hsize
  decide +kernel

end UbsVirt.Enpu
