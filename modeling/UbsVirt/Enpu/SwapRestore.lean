import UbsVirt.Enpu.SwapExecutor

/-!
# Swapping out and in again

`swap_hook_check_and_swap_in` brings the swapped records of a process back one by one: a new
block is allocated, mapped at the record's address and filled from the swap buffer. A record for
which a call fails is left marked, and the process counts as swapped in all the same. Source:
`vcann-rt/src/swap_executor.c:135-252`, `swap_hook.c:115-210`, `swap_monitor_thread.c:113-148`.
-/

namespace UbsVirt.Enpu

open Mapping List DevRecord

/-- What the runtime answers to the calls that bring one record back. `free` is the release of
the new block after a failure. -/
structure InCall where
  granularity : Bool
  malloc : Bool
  reserve : Bool
  map : Bool
  memcpy : Bool
  unmap : Bool
  release : Bool
  free : Bool
  deriving DecidableEq, Repr

open InCall

namespace InCall

variable (maps : List MapRecord) (r : DevRecord) (c : InCall)

def drop (d : Memory) (h : Nat) : Memory :=
  if c.free then d.free h else d

def succeeds : Bool :=
  if r.physical then
    c.malloc && ((r.va maps).isSome || c.reserve) && c.map && c.memcpy &&
      ((r.va maps).isSome || (c.unmap && c.release))
  else c.granularity && c.malloc && c.map && c.memcpy

/-- How bringing the record back ends: only memory that is not physical is given a new size, once
it is mapped. -/
def outcome : Record.Restore :=
  if c.succeeds maps r then .ok
  else if !r.physical && c.granularity && c.malloc && c.map then .failedAfterMap
  else .failed

end InCall

namespace DevRecord

variable (rt : Chooser) (maps : List MapRecord) (g : ℕ+) (buffer : Nat → UInt8)

/-- `swap_executor_swap_in` with `MEMCPY_FLAG`, `swap_executor.c:135-187`: success, the record and
the device. -/
def swapIn (d : Memory) (r : DevRecord) (c : InCall) : Bool × DevRecord × Memory :=
  if !c.granularity || !c.malloc then (false, r, d)
  else
    let h := rt.pick d.live
    let r' := { r with handle := h }
    let d' := d.malloc h
    if !c.map then (false, r', c.drop d' h)
    else
      let d' := d'.map r.ptr h
      let r' := { r' with toRecord := r.toRecord.grow g }
      if !c.memcpy then (false, r', c.drop d' h)
      else (true, r', d'.fill r.ptr (alignUp g r.size) fun i => buffer (r.swapOffset + i))

/-- `swap_executor_swap_in_physical`, `swap_executor.c:189-252`. The block is mapped where the
record was mapped, or for the copy only. -/
def swapInPhysical (d : Memory) (r : DevRecord) (c : InCall) : Bool × DevRecord × Memory :=
  if !c.malloc then (false, r, d)
  else
    let h := rt.pick d.live
    let r' := { r with handle := h }
    let d' := d.malloc h
    let src := fun i => buffer (r.swapOffset + i)
    match r.va maps with
    | some va =>
      if !c.map then (false, r', c.drop d' h)
      else if !c.memcpy then (false, r', c.drop (d'.map va h) h)
      else (true, r', (d'.map va h).fill va r.size src)
    | none =>
      if !c.reserve then (false, r', d')
      else
        let va := rt.pick d.reserved
        let d' := d'.reserve va
        if !c.map then (false, r', c.drop d' h)
        else if !c.memcpy then (false, r', c.drop (d'.map va h) h)
        else
          let d' := (d'.map va h).fill va r.size src
          if !c.unmap then (false, r', d')
          else if !c.release then (false, r', d'.unmap va)
          else (true, r', (d'.unmap va).release va)

/-- The loop body of `swap_hook_check_and_swap_in`, `swap_hook.c:163-190`. -/
def bringBack (d : Memory) (r : DevRecord) (c : InCall) : DevRecord × Memory :=
  if !r.swapped then (r, d)
  else
    match if r.physical then swapInPhysical rt maps buffer d r c else swapIn rt g buffer d r c with
    | (false, r', d') => (r', d')
    | (true, r', d') => ({ r' with toRecord := r'.toRecord.markActive }, d')

def bringAllBack : List (DevRecord × InCall) → Memory → List DevRecord × Memory
  | [], d => ([], d)
  | (r, c) :: ts, d =>
    let step := bringBack rt maps g buffer d r c
    let rest := bringAllBack ts step.2
    (step.1 :: rest.1, rest.2)

end DevRecord

def DevRecord.vas (maps : List MapRecord) (r : DevRecord) : Set Nat :=
  {a | a ∈ r.va maps}

/-! ### One record -/

section

variable {rt : Chooser} {maps : List MapRecord} {g : ℕ+} {buffer : Nat → UInt8} {d : Memory}
  {r : DevRecord} {c : InCall}

/-- What a call of one of the two functions comes to. -/
structure Attempt (maps : List MapRecord) (buffer : Nat → UInt8) (d : Memory) (r : DevRecord)
    (c : InCall) (res : Bool × DevRecord × Memory) : Prop where
  dev : d.Extends res.2.2 (r.vas maps)
  va : res.2.1.va maps = r.va maps
  swapped : res.2.1.swapped = r.swapped
  outcome : res.1 = c.succeeds maps r
  holds : res.1 = true →
    res.2.2.Holds res.2.1.handle (r.va maps) r.size fun i => buffer (r.swapOffset + i)

theorem InCall.extends_drop {d' : Memory} {vas : Set Nat} {h : Nat} (hd : d.Extends d' vas)
    (hnew : h ∉ d.live) : d.Extends (c.drop d' h) vas := by
  unfold drop
  split
  · exact hd.free hnew
  · exact hd

theorem DevRecord.swapIn_spec (hp : r.physical = false) :
    Attempt maps buffer d r c (r.swapIn rt g buffer d c) := by
  have hva : r.va maps = some r.ptr := by simp [va, hp]
  have hnew := rt.pick_notMem d.live
  have hmalloc : d.Extends (d.malloc (rt.pick d.live)) (r.vas maps) :=
    (Memory.Extends.refl d _).malloc
  unfold swapIn
  cases hg : c.granularity
  · exact ⟨.refl _ _, rfl, rfl, by simp [InCall.succeeds, hp, hg], nofun⟩
  cases hm : c.malloc
  · exact ⟨.refl _ _, rfl, rfl, by simp [InCall.succeeds, hp, hm], nofun⟩
  cases ha : c.map
  · exact ⟨extends_drop hmalloc hnew, rfl, rfl, by simp [InCall.succeeds, hp, ha], nofun⟩
  cases hc : c.memcpy
  · exact ⟨extends_drop (hmalloc.update (.inr hva) _) hnew, rfl, rfl,
      by simp [InCall.succeeds, hp, hc], nofun⟩
  · obtain ⟨hdev, hholds⟩ := hmalloc.map_fill (r.va maps) (.inr hva) hnew
      (Finset.mem_insert_self ..) (le_alignUp g r.size) fun a h => Option.some.inj (h.symm.trans hva)
    exact ⟨hdev, rfl, rfl, by simp [InCall.succeeds, hp, hg, hm, ha, hc], fun _ => hholds⟩

/-- What bringing back a physical block can come to. -/
theorem DevRecord.swapInPhysical_spec (hp : r.physical = true) :
    Attempt maps buffer d r c (r.swapInPhysical rt maps buffer d c) := by
  have hnew := rt.pick_notMem d.live
  have hfresh := rt.pick_notMem d.reserved
  have hmalloc : d.Extends (d.malloc (rt.pick d.live)) (r.vas maps) :=
    (Memory.Extends.refl d _).malloc
  unfold swapInPhysical
  cases hm : c.malloc
  · exact ⟨.refl _ _, rfl, rfl, by simp [InCall.succeeds, hp, hm], nofun⟩
  cases hva : r.va maps with
  | some va =>
    cases ha : c.map
    · exact ⟨extends_drop hmalloc hnew, rfl, rfl, by simp [InCall.succeeds, hp, ha], nofun⟩
    cases hc : c.memcpy
    · exact ⟨extends_drop (hmalloc.update (.inr hva) _) hnew, rfl, rfl,
        by simp [InCall.succeeds, hp, hc], nofun⟩
    · obtain ⟨hdev, hholds⟩ := hmalloc.map_fill (r.va maps) (.inr hva) hnew
        (Finset.mem_insert_self ..) (Nat.le_refl r.size) fun a h => Option.some.inj (h.symm.trans hva)
      exact ⟨hdev, rfl, rfl, by simp [InCall.succeeds, hp, hva, hm, ha, hc], fun _ => hholds⟩
  | none =>
    have hres := hmalloc.reserve (rt.pick d.reserved)
    cases hr : c.reserve
    · exact ⟨hmalloc, rfl, rfl, by simp [InCall.succeeds, hp, hva, hr], nofun⟩
    cases ha : c.map
    · exact ⟨extends_drop hres hnew, rfl, rfl, by simp [InCall.succeeds, hp, ha], nofun⟩
    cases hc : c.memcpy
    · exact ⟨extends_drop (hres.update (.inl hfresh) _) hnew, rfl, rfl,
        by simp [InCall.succeeds, hp, hc], nofun⟩
    obtain ⟨hdev, hholds⟩ := hres.map_fill (r.va maps) (.inl hfresh) hnew
      (Finset.mem_insert_self ..) (Nat.le_refl r.size) fun a h => nomatch h.symm.trans hva
    cases hu : c.unmap
    · exact ⟨hdev, rfl, rfl, by simp [InCall.succeeds, hp, hva, hu], nofun⟩
    cases hl : c.release
    · exact ⟨hdev.update (.inl hfresh) _, rfl, rfl, by simp [InCall.succeeds, hp, hva, hl], nofun⟩
    · refine ⟨(hdev.update (.inl hfresh) _).release hfresh, rfl, rfl,
        by simp [InCall.succeeds, hp, hva, hm, hr, ha, hc, hu, hl], fun _ => ?_⟩
      exact ⟨hholds.live, hholds.bytes, fun a h => nomatch h.symm.trans hva⟩

/-- What the work on one record leaves of the device, and what becomes of the record. -/
structure BackStep (maps : List MapRecord) (buffer : Nat → UInt8) (d : Memory) (r : DevRecord)
    (c : InCall) (r' : DevRecord) (d' : Memory) : Prop where
  dev : d.Extends d' {a | r.swapped = true ∧ a ∈ r.va maps}
  va : r'.va maps = r.va maps
  kept : r.swapped = false → r' = r
  restored : r.swapped = true → c.succeeds maps r = true → r'.swapped = false ∧
    d'.Holds r'.handle (r.va maps) r.size fun i => buffer (r.swapOffset + i)
  failed : r.swapped = true → c.succeeds maps r = false → r'.swapped = true

variable (rt maps g buffer d r c) in
theorem DevRecord.bringBack_spec : BackStep maps buffer d r c
    (r.bringBack rt maps g buffer d c).1 (r.bringBack rt maps g buffer d c).2 := by
  cases hs : r.swapped with
  | false =>
    unfold bringBack
    rw [hs]
    exact ⟨.refl _ _, rfl, fun _ => rfl, by simp [hs], by simp [hs]⟩
  | true =>
    have hattempt : Attempt maps buffer d r c
        (if r.physical then r.swapInPhysical rt maps buffer d c else r.swapIn rt g buffer d c) := by
      split
      · next hp => exact swapInPhysical_spec hp
      · next hp => exact swapIn_spec (Bool.not_eq_true _ ▸ hp)
    unfold bringBack
    rw [hs, if_neg (by decide)]
    generalize (if r.physical then r.swapInPhysical rt maps buffer d c
      else r.swapIn rt g buffer d c) = res at hattempt
    obtain ⟨ok, r', d'⟩ := res
    obtain ⟨hdev, hva, hswapped, houtcome, hholds⟩ := hattempt
    have hexempt : d.Extends d' {a | r.swapped = true ∧ a ∈ r.va maps} :=
      hdev.trans (.refl _ ∅) (fun a ha => ⟨hs, ha⟩) (Set.empty_subset _)
    cases ok with
    | false =>
      refine ⟨hexempt, hva, by simp [hs], fun _ h => ?_, fun _ _ => hswapped.trans hs⟩
      rw [← houtcome] at h
      cases h
    | true =>
      refine ⟨hexempt, hva, by simp [hs], fun _ _ => ⟨rfl, hholds rfl⟩, fun _ h => ?_⟩
      rw [← houtcome] at h
      cases h

variable (rt maps g buffer d r c) in
/-- The record alone goes through the loop body of `Record.swapIn`. -/
theorem DevRecord.toRecord_bringBack :
    (r.bringBack rt maps g buffer d c).1.toRecord = r.toRecord.swapIn g (c.outcome maps r) := by
  unfold bringBack Record.swapIn outcome InCall.succeeds
  cases hs : r.swapped
  · simp
  cases hp : r.physical
  · unfold swapIn
    cases c.granularity <;> cases c.malloc <;> cases c.map <;> cases c.memcpy <;> simp [hp, Record.grow]
  · unfold swapInPhysical
    cases hva : r.va maps <;> cases c.malloc <;> cases c.map <;> cases c.memcpy <;>
      cases c.reserve <;> cases c.unmap <;> cases c.release <;> simp

end

/-! ### All records -/

/-- The addresses of the records are reserved, each for one of them. -/
structure Placed (d : Memory) (vas : List (Option Nat)) : Prop where
  reserved : ∀ o ∈ vas, ∀ va ∈ o, va ∈ d.reserved
  apart : vas.Pairwise fun a b => ∀ va ∈ a, va ∉ b

section

variable (rt : Chooser) (maps : List MapRecord) (g : ℕ+) (buffer : Nat → UInt8)

/-- What becomes of a record by the end `f` of the loop: it is brought back, it is still marked,
or it was not marked and is as it was. -/
def Returned (maps : List MapRecord) (buffer : Nat → UInt8) (f : Memory) (t : DevRecord × InCall)
    (r' : DevRecord) : Prop :=
  if t.1.swapped then
    if t.2.succeeds maps t.1 then r'.swapped = false ∧
      f.Holds r'.handle (t.1.va maps) t.1.size fun i => buffer (t.1.swapOffset + i)
    else r'.swapped = true
  else r' = t.1

open DevRecord

/-- The loop leaves alone what is not at the address of a swapped record. -/
theorem bringAllBack_extends (ts : List (DevRecord × InCall)) (d : Memory) :
    d.Extends (bringAllBack rt maps g buffer ts d).2
      {a | ∃ t ∈ ts, t.1.swapped = true ∧ a ∈ t.1.va maps} := by
  induction ts generalizing d with
  | nil => exact .refl d _
  | cons t ts ih =>
    refine (bringBack_spec rt maps g buffer d t.1 t.2).dev.trans (ih _) ?_ ?_
    · exact fun a ha => ⟨t, mem_cons_self .., ha⟩
    · rintro a ⟨q, hq, ha⟩
      exact ⟨q, mem_cons_of_mem _ hq, ha⟩

variable {maps} in
/-- What the restore loop does to each record. -/
theorem returned (ts : List (DevRecord × InCall)) (d : Memory)
    (h : Placed d (ts.map (·.1.va maps))) :
    Forall₂ (Returned maps buffer (bringAllBack rt maps g buffer ts d).2) ts
      (bringAllBack rt maps g buffer ts d).1 := by
  induction ts generalizing d with
  | nil => exact .nil
  | cons t ts ih =>
    have hstep := bringBack_spec rt maps g buffer d t.1 t.2
    have hrest := bringAllBack_extends rt maps g buffer ts (t.1.bringBack rt maps g buffer d t.2).2
    obtain ⟨hapart, htail⟩ := pairwise_cons.mp h.apart
    have hplaced : Placed (t.1.bringBack rt maps g buffer d t.2).2 (ts.map (·.1.va maps)) :=
      ⟨fun o ho va hva => hstep.dev.reserved (h.reserved o (mem_cons_of_mem _ ho) va hva), htail⟩
    refine .cons ?_ (ih _ hplaced)
    unfold Returned
    split
    · next hs =>
      split
      · next hsucceeds =>
        obtain ⟨hactive, hholds⟩ := hstep.restored hs hsucceeds
        refine ⟨hactive, hrest.holds hholds ?_ ?_⟩
        · intro a ha
          exact hstep.dev.reserved (h.reserved _ (mem_cons_self ..) a ha)
        · rintro a ha ⟨q, hq, -, haq⟩
          exact hapart _ (mem_map_of_mem hq) a ha haq
      · next hfails => exact hstep.failed hs (Bool.not_eq_true _ ▸ hfails)
    · next hs => exact hstep.kept (Bool.not_eq_true _ ▸ hs)

variable {maps} in
/-- A record that is not marked keeps its mapping. -/
theorem mapped_bringAllBack {ts : List (DevRecord × InCall)} {d : Memory}
    (h : Placed d (ts.map (·.1.va maps))) {t : DevRecord × InCall} (ht : t ∈ ts)
    (hs : t.1.swapped = false) {va : Nat} (hva : va ∈ t.1.va maps) :
    (bringAllBack rt maps g buffer ts d).2.mapped va = d.mapped va := by
  apply (bringAllBack_extends rt maps g buffer ts d).mapped
  · exact h.reserved _ (mem_map_of_mem ht) va hva
  · rintro ⟨q, hq, hqs, hvaq⟩
    have hne : t ≠ q := by
      rintro rfl
      rw [hs] at hqs
      cases hqs
    have hsymm : Std.Symm fun a b : DevRecord × InCall =>
        ∀ va ∈ a.1.va maps, va ∉ b.1.va maps := ⟨fun a b hab va hb ha => hab va ha hb⟩
    exact (pairwise_map.mp h.apart).forall ht hq hne va hva hvaq

end

/-! ### The round trip -/

/-- A process with its device: `swapped`, `swap_size` and `swap_offset` of its slot. -/
structure DevProc where
  dev : Memory
  buffer : Nat → UInt8
  swapped : Bool
  swapSize : Nat
  offset : Nat

namespace DevProc

variable (rt : Chooser) (maps : List MapRecord) (g : ℕ+)

/-- A swap-out by the monitor, `swap_monitor_thread.c:93-148`: the process counts as swapped out
when something was copied. -/
def swapOut (p : DevProc) (ts : List (DevRecord × OutCall)) : List DevRecord × DevProc :=
  if p.swapped then (ts.map Prod.fst, p)
  else
    let out := Swapping.swapOutAll rt maps ts (.start p.dev p.buffer p.offset)
    let p' := { p with dev := out.2.dev, buffer := out.2.buffer }
    (out.1, if 0 < out.2.act then { p' with swapSize := out.2.act, swapped := true } else p')

/-- `swap_hook_check_and_swap_in`, `swap_hook.c:115-210`. It is `refused` when the lock cannot be
taken or no room can be made. -/
def checkAndSwapIn (p : DevProc) (refused : Bool) (ts : List (DevRecord × InCall)) :
    List DevRecord × DevProc :=
  if !p.swapped || refused then (ts.map Prod.fst, p)
  else
    let back := bringAllBack rt maps g p.buffer ts p.dev
    (back.1, { p with dev := back.2, swapped := if p.swapSize ≠ 0 then false else p.swapped })

end DevProc

/-- A record, with what the runtime answers when it is swapped out and when it is brought back. -/
structure Visit where
  record : DevRecord
  out : OutCall
  back : InCall

open Visit

def Visit.outs (vs : List Visit) : List (DevRecord × OutCall) :=
  vs.map fun v => (v.record, v.out)

namespace DevProc

variable (rt : Chooser) (maps : List MapRecord) (g : ℕ+)

def roundTrip (p : DevProc) (refused : Bool) (vs : List Visit) : List DevRecord × DevProc :=
  let out := p.swapOut rt maps (outs vs)
  out.2.checkAndSwapIn rt maps g refused (out.1.zip (vs.map Visit.back))

end DevProc

/-- The record of a visit is not marked and has its bytes again, at its address. -/
def Visit.Recovered (maps : List MapRecord) (s : Swapping) (m : Memory) (v : Visit)
    (r'' : DevRecord) : Prop :=
  r''.swapped = false ∧ m.Holds r''.handle (v.record.va maps) v.record.size (s.original v.record)

namespace DevProc

/-- The process still counts as swapped out, or it does not and every record is recovered. -/
def Restores (rt : Chooser) (maps : List MapRecord) (g : ℕ+) (p : DevProc) (refused : Bool)
    (vs : List Visit) : Prop :=
  let after := p.roundTrip rt maps g refused vs
  after.2.swapped = true ∨ after.2.swapped = false ∧
    Forall₂ (Recovered maps (.start p.dev p.buffer p.offset) after.2.dev) vs after.1

end DevProc

/-- Two passes over a list, the second one on the results of the first. -/
theorem forall₂_through {α β γ δ ε : Type*} {R : β → γ → Prop} {S : γ × δ → ε → Prop} (f : α → β)
    (k : α → δ) {as : List α} {cs : List γ} {es : List ε} (hR : Forall₂ R (as.map f) cs)
    (hS : Forall₂ S (cs.zip (as.map k)) es) :
    Forall₂ (fun a e => ∃ c, (c, k a) ∈ cs.zip (as.map k) ∧ R (f a) c ∧ S (c, k a) e) as es := by
  induction as generalizing cs es with
  | nil =>
    cases hR
    cases hS
    exact .nil
  | cons a as ih =>
    cases hR with
    | cons hr hR =>
    cases hS with
    | cons hs hS =>
    refine .cons ⟨_, mem_cons_self .., hr, hs⟩ ((ih hR hS).imp ?_)
    rintro a' e ⟨c, hc, hrs⟩
    exact ⟨c, mem_cons_of_mem _ hc, hrs⟩

/-- A property of both lists that comes down to one of the first. -/
theorem forall₂_iff_forall_mem {α β : Type*} {R : α → β → Prop} {C : α → Prop} {as : List α}
    {bs : List β} (h : Forall₂ (fun a b => R a b ↔ C a) as bs) :
    Forall₂ R as bs ↔ ∀ a ∈ as, C a := by
  constructor
  · intro hR
    have hC : Forall₂ (fun a (_ : β) => C a ∧ True) as bs :=
      h.mp (fun a b hiff hr => ⟨hiff.mp hr, trivial⟩) hR
    exact ((forall₂_and_left _ _).mp hC).1
  · intro hC
    refine ((forall₂_and_left _ _).mpr ⟨hC, h⟩).imp ?_
    exact fun a b hab => hab.2.mpr hab.1

section

open Swapping

variable {maps : List MapRecord} {s f : Swapping} {m : Memory} {v : Visit} {r' r'' : DevRecord}

/-- A marked record is recovered exactly if it is brought back and the buffer has its bytes. -/
theorem recovered_of_marked (hback : Returned maps f.buffer m (r', v.back) r'')
    (hr : r'.swapped = true) (hva : r'.va maps = v.record.va maps)
    (hsize : r'.size = v.record.size)
    (hcall : v.back.succeeds maps r' = v.back.succeeds maps v.record) :
    v.Recovered maps s m r'' ↔
      (∀ i < v.record.size, f.buffer (r'.swapOffset + i) = s.original v.record i) ∧
        v.back.succeeds maps v.record = true := by
  unfold Returned at hback
  rw [if_pos hr, hcall, hva, hsize] at hback
  unfold Recovered
  cases hb : v.back.succeeds maps v.record with
  | true =>
    rw [hb, if_pos rfl] at hback
    obtain ⟨hactive, hlive, hbytes, hmapped⟩ := hback
    constructor
    · intro h
      exact ⟨fun i hi => (hbytes i hi).symm.trans (h.2.bytes i hi), rfl⟩
    · intro h
      exact ⟨hactive, hlive, fun i hi => (hbytes i hi).trans (h.1 i hi), hmapped⟩
  | false =>
    rw [hb, if_neg Bool.false_ne_true] at hback
    refine iff_of_false (fun h => ?_) (fun h => Bool.false_ne_true h.2)
    rw [h.1] at hback
    cases hback

/-- A record that was copied out is recovered exactly if it is brought back. -/
theorem recovered_of_copied (hs : v.out.succeeds maps v.record = true)
    (hout : Outcome maps s.dev.bytes f (v.record, v.out) r')
    (hback : Returned maps f.buffer m (r', v.back) r'') :
    v.Recovered maps s m r'' ↔ v.back.succeeds maps v.record = true := by
  have hr := Record.swapped_of_pending (OutCall.pending_of_succeeds hs)
  rw [Outcome, if_pos hs] at hout
  obtain ⟨-, off, rfl, hstored⟩ := hout
  refine (recovered_of_marked hback rfl rfl rfl rfl).trans (and_iff_right fun i hi => ?_)
  rw [original, hr, if_neg Bool.false_ne_true]
  exact hstored i hi

/-- A record that was swapped out before is recovered exactly if it is brought back and its bytes
were not written over. -/
theorem recovered_of_swapped (hr : v.record.swapped = true)
    (hout : Outcome maps s.dev.bytes f (v.record, v.out) r')
    (hback : Returned maps f.buffer m (r', v.back) r'') :
    v.Recovered maps s m r'' ↔
      (∀ i < v.record.size, f.buffer (v.record.swapOffset + i) = s.buffer (v.record.swapOffset + i)) ∧
        v.back.succeeds maps v.record = true := by
  have hs : ¬ v.out.succeeds maps v.record = true := by
    intro hs
    rw [Record.swapped_of_pending (OutCall.pending_of_succeeds hs)] at hr
    cases hr
  rw [Outcome, if_neg hs] at hout
  obtain ⟨rfl, -⟩ := hout
  rw [recovered_of_marked hback hr rfl rfl rfl, original, hr, if_pos rfl]

/-- A record that stayed on the device is recovered exactly if it kept its mapping. -/
theorem recovered_of_kept (hr : v.record.swapped = false)
    (hs : v.out.succeeds maps v.record = false)
    (hout : Outcome maps s.dev.bytes f (v.record, v.out) r')
    (hbytes : f.dev.bytes = s.dev.bytes) {vas : Set Nat} (hdev : f.dev.Extends m vas)
    (hmapped : ∀ va ∈ v.record.va maps, m.mapped va = f.dev.mapped va) :
    v.Recovered maps s m r' ↔ v.out.unmaps maps v.record = false := by
  have hs' : ¬ v.out.succeeds maps v.record = true := by
    rw [hs]
    exact Bool.false_ne_true
  rw [Outcome, if_neg hs'] at hout
  obtain ⟨rfl, hkept⟩ := hout
  obtain ⟨hlive, hplace⟩ := hkept hr
  have hunmaps := unmaps_iff (t := (v.record, v.out)) hs
  unfold Recovered original
  rw [hr, if_neg Bool.false_ne_true]
  constructor
  · intro h
    rw [← Bool.not_eq_true, hunmaps]
    rintro ⟨hva, hgone⟩
    obtain ⟨va, hva⟩ := Option.isSome_iff_exists.mp hva
    have hnone := (hmapped va hva).trans (hplace va hva)
    rw [if_pos hgone, h.2.mapped va hva] at hnone
    cases hnone
  · intro h
    refine ⟨rfl, hdev.live hlive, fun i _ => ?_, fun va hva => ?_⟩
    · rw [hdev.bytes _ hlive, hbytes]
    · rw [hmapped va hva, hplace va hva, if_neg]
      intro hgone
      rw [hunmaps.mpr ⟨Option.isSome_of_mem hva, hgone⟩] at h
      cases h

end

/-! ### When a round trip restores everything -/

namespace DevProc

open Swapping

def copiedOut (rt : Chooser) (maps : List MapRecord) (p : DevProc) (vs : List Visit) :
    List DevRecord × Swapping :=
  swapOutAll rt maps (outs vs) (.start p.dev p.buffer p.offset)

section

variable {rt : Chooser} {maps : List MapRecord} {g : ℕ+} {p : DevProc} {vs : List Visit}

theorem act_copiedOut :
    0 < (copiedOut rt maps p vs).2.act ↔ ∃ v ∈ vs, v.out.succeeds maps v.record = true := by
  refine (act_pos_iff rt maps (outs vs) (.start p.dev p.buffer p.offset)).trans ?_
  simp [outs]

variable (rt maps p vs) in
theorem map_va_copiedOut :
    (copiedOut rt maps p vs).1.map (·.va maps) = vs.map (·.record.va maps) := by
  refine (map_va_swapOutAll rt maps (outs vs) (.start p.dev p.buffer p.offset)).trans ?_
  rw [outs, map_map]
  rfl

variable (rt maps p vs) in
theorem map_fst_zip_back : ((copiedOut rt maps p vs).1.zip (vs.map Visit.back)).map Prod.fst =
      (copiedOut rt maps p vs).1 := by
  apply map_fst_zip
  have hlength := congrArg length (map_va_copiedOut rt maps p vs)
  simp only [length_map] at hlength ⊢
  exact Nat.le_of_eq hlength

variable (rt g) in
/-- Nothing was copied: the process does not count as swapped out and nothing is brought back. -/
theorem roundTrip_of_none (hp : p.swapped = false)
    (hnone : ¬ ∃ v ∈ vs, v.out.succeeds maps v.record = true) (refused : Bool) :
    (p.roundTrip rt maps g refused vs).1 = (copiedOut rt maps p vs).1 ∧
      (p.roundTrip rt maps g refused vs).2.swapped = false ∧
      (p.roundTrip rt maps g refused vs).2.dev = (copiedOut rt maps p vs).2.dev := by
  have hact : ¬ 0 < (copiedOut rt maps p vs).2.act := fun h => hnone (act_copiedOut.mp h)
  have hout : p.swapOut rt maps (outs vs) = ((copiedOut rt maps p vs).1,
      { p with dev := (copiedOut rt maps p vs).2.dev, buffer := (copiedOut rt maps p vs).2.buffer }) := by
    unfold swapOut
    rw [hp, if_neg Bool.false_ne_true]
    exact congrArg (Prod.mk _) (if_neg hact)
  unfold roundTrip checkAndSwapIn
  rw [hout]
  simp [hp, map_fst_zip_back]

theorem swapOut_of_some (hp : p.swapped = false)
    (hsome : ∃ v ∈ vs, v.out.succeeds maps v.record = true) :
    p.swapOut rt maps (outs vs) = ((copiedOut rt maps p vs).1, { p with
        dev := (copiedOut rt maps p vs).2.dev
        buffer := (copiedOut rt maps p vs).2.buffer
        swapSize := (copiedOut rt maps p vs).2.act
        swapped := true }) := by
  unfold swapOut
  rw [hp, if_neg Bool.false_ne_true]
  exact congrArg (Prod.mk _) (if_pos (act_copiedOut.mpr hsome))

/-- Something was copied, and the swap-in is refused. -/
theorem roundTrip_of_refused (hp : p.swapped = false)
    (hsome : ∃ v ∈ vs, v.out.succeeds maps v.record = true) :
    (p.roundTrip rt maps g true vs).2.swapped = true := by
  unfold roundTrip checkAndSwapIn
  rw [swapOut_of_some hp hsome]
  simp

variable (rt g) in
/-- Something was copied, and the records are brought back. -/
theorem roundTrip_of_some (hp : p.swapped = false)
    (hsome : ∃ v ∈ vs, v.out.succeeds maps v.record = true) :
    let out := copiedOut rt maps p vs
    let back := bringAllBack rt maps g out.2.buffer (out.1.zip (vs.map Visit.back)) out.2.dev
    (p.roundTrip rt maps g false vs).1 = back.1 ∧
      (p.roundTrip rt maps g false vs).2.swapped = false ∧
      (p.roundTrip rt maps g false vs).2.dev = back.2 := by
  have hact := Nat.ne_of_gt (act_copiedOut.mpr hsome : 0 < (copiedOut rt maps p vs).2.act)
  unfold roundTrip checkAndSwapIn
  rw [swapOut_of_some hp hsome]
  simp [hact]

def Copies (maps : List MapRecord) (vs : List Visit) : Prop :=
  ∃ v ∈ vs, v.out.succeeds maps v.record = true

/-- What a record needs to be recovered: it is not left unmapped, its bytes are still in the buffer
if it was swapped out before, and if it is off the device then the process counts as swapped out and
it is brought back. -/
def Needs (maps : List MapRecord) (spared : DevRecord → Prop) (vs : List Visit) (v : Visit) : Prop :=
  v.out.unmaps maps v.record = false ∧ spared v.record ∧
    (v.record.swapped = true ∨ v.out.succeeds maps v.record = true →
      Copies maps vs ∧ v.back.succeeds maps v.record = true)

def SameBytes (s f : Swapping) (r : DevRecord) : Prop :=
  r.swapped = true → ∀ i < r.size, f.buffer (r.swapOffset + i) = s.buffer (r.swapOffset + i)

/-- A record that stayed on the device needs to keep its mapping. -/
theorem needs_of_kept {s f : Swapping} {v : Visit} (hr : v.record.swapped = false)
    (hs : v.out.succeeds maps v.record = false) :
    v.out.unmaps maps v.record = false ↔ Needs maps (SameBytes s f) vs v := by
  simp [Needs, SameBytes, hr, hs]

variable (rt) in
theorem outcomes_copiedOut (h : Tracked p.dev maps (vs.map record)) :
    Forall₂ (Outcome maps p.dev.bytes (copiedOut rt maps p vs).2) (outs vs)
      (copiedOut rt maps p vs).1 := by
  apply outcomes
  rwa [outs, map_map]

variable (rt) in
/-- Nothing was copied. -/
theorem recovered_of_none (h : Tracked p.dev maps (vs.map record)) (hnone : ¬ Copies maps vs) :
    Forall₂ (fun v r' => v.Recovered maps (.start p.dev p.buffer p.offset)
      (copiedOut rt maps p vs).2.dev r' ↔
        Needs maps (SameBytes (.start p.dev p.buffer p.offset) (copiedOut rt maps p vs).2) vs v)
      vs (copiedOut rt maps p vs).1 := by
  have hbytes : (copiedOut rt maps p vs).2.dev.bytes = p.dev.bytes := bytes_swapOutAll ..
  have hout := forall₂_map_left_iff.mp (outcomes_copiedOut rt h)
  have hfails : ∀ v ∈ vs, v.out.succeeds maps v.record = false :=
    fun v hv => Bool.not_eq_true _ ▸ fun hs => hnone ⟨v, hv, hs⟩
  refine ((forall₂_and_left _ _).mpr ⟨hfails, hout⟩).imp ?_
  rintro v r' ⟨hs, hv⟩
  cases hr : v.record.swapped with
  | true =>
    refine iff_of_false (fun hrec => ?_) (fun hneeds => hnone (hneeds.2.2 (.inl hr)).1)
    rw [Outcome, if_neg (by rw [hs]; exact Bool.false_ne_true)] at hv
    obtain ⟨rfl, -⟩ := hv
    rw [hrec.1] at hr
    cases hr
  | false =>
    exact (recovered_of_kept hr hs hv hbytes (.refl _ ∅) fun _ _ => rfl).trans (needs_of_kept hr hs)

variable (rt g) in
/-- Something was copied, and the records are brought back. -/
theorem recovered_of_some (h : Tracked p.dev maps (vs.map record)) (hsome : Copies maps vs) :
    let out := copiedOut rt maps p vs
    let back := bringAllBack rt maps g out.2.buffer (out.1.zip (vs.map Visit.back)) out.2.dev
    Forall₂ (fun v r'' => v.Recovered maps (.start p.dev p.buffer p.offset) back.2 r'' ↔
      Needs maps (SameBytes (.start p.dev p.buffer p.offset) out.2) vs v) vs back.1 := by
  intro out back
  have hbytes : out.2.dev.bytes = p.dev.bytes := bytes_swapOutAll ..
  have hplaced : Placed out.2.dev ((out.1.zip (vs.map Visit.back)).map (·.1.va maps)) := by
    have hmap : (out.1.zip (vs.map Visit.back)).map (·.1.va maps) = vs.map (·.record.va maps) := by
      have hfst := congrArg (map (·.va maps)) (map_fst_zip_back rt maps p vs)
      rw [map_map] at hfst
      exact hfst.trans (map_va_copiedOut rt maps p vs)
    rw [hmap]
    constructor
    · intro o ho va hva
      obtain ⟨v, hv, rfl⟩ := mem_map.mp ho
      exact reserved_subset rt maps _ _ (h.reserved _ (mem_map_of_mem hv) va hva)
    · exact pairwise_map.mpr ((pairwise_map.mp h.apart).imp And.right)
  have hdev := bringAllBack_extends rt maps g out.2.buffer (out.1.zip (vs.map Visit.back)) out.2.dev
  have hreturned := returned rt g out.2.buffer _ _ hplaced
  refine (forall₂_through (fun v : Visit => (v.record, v.out)) Visit.back (outcomes_copiedOut rt h)
    hreturned).imp ?_
  rintro v r'' ⟨r', hmem, hv, hb⟩
  cases hs : v.out.succeeds maps v.record with
  | true =>
    have hr := Record.swapped_of_pending (OutCall.pending_of_succeeds hs)
    rw [recovered_of_copied hs hv hb]
    simp [Needs, SameBytes, OutCall.unmaps_of_succeeds hs, hr, hs, hsome]
  | false =>
    cases hr : v.record.swapped with
    | true =>
      refine (recovered_of_swapped hr hv hb).trans ⟨fun hback => ?_, fun hneeds => ?_⟩
      · exact ⟨OutCall.unmaps_of_swapped hr, fun _ => hback.1, fun _ => ⟨hsome, hback.2⟩⟩
      · exact ⟨hneeds.2.1 hr, (hneeds.2.2 (.inl hr)).2⟩
    | false =>
      have hsame : r' = v.record := by
        rw [Outcome, if_neg (by rw [hs]; exact Bool.false_ne_true)] at hv
        exact hv.1
      subst hsame
      rw [Returned, if_neg (by rw [hr]; exact Bool.false_ne_true)] at hb
      rw [hb]
      exact (recovered_of_kept hr hs hv hbytes hdev fun va hva =>
        mapped_bringAllBack rt g out.2.buffer hplaced hmem hr hva).trans (needs_of_kept hr hs)

variable (rt g) in
theorem restores_iff (hp : p.swapped = false) (h : Tracked p.dev maps (vs.map record))
    (refused : Bool) :
    p.Restores rt maps g refused vs ↔ refused = true ∧ Copies maps vs ∨ ∀ v ∈ vs, Needs maps
        (SameBytes (.start p.dev p.buffer p.offset) (copiedOut rt maps p vs).2) vs v := by
  unfold Restores
  dsimp only
  by_cases hsome : Copies maps vs
  · cases refused with
    | true => exact iff_of_true (.inl (roundTrip_of_refused hp hsome)) (.inl ⟨rfl, hsome⟩)
    | false =>
      obtain ⟨hrecords, hswapped, hdev⟩ := roundTrip_of_some rt g hp hsome
      rw [hrecords, hswapped, hdev]
      simpa using forall₂_iff_forall_mem (recovered_of_some rt g h hsome)
  · obtain ⟨hrecords, hswapped, hdev⟩ := roundTrip_of_none rt g hp hsome refused
    rw [hrecords, hswapped, hdev]
    simpa [hsome] using forall₂_iff_forall_mem (recovered_of_none rt h hsome)

end

def filled (p : DevProc) (bytes : Nat → Nat → UInt8) (buffer : Nat → UInt8) : DevProc :=
  { p with dev := { p.dev with bytes := bytes }, buffer := buffer }

theorem tracked_filled {p : DevProc} {maps : List MapRecord} {rs : List DevRecord}
    (h : Tracked p.dev maps rs) (bytes : Nat → Nat → UInt8) (buffer : Nat → UInt8) :
    Tracked (p.filled bytes buffer).dev maps rs :=
  ⟨h.live, h.mapped, h.reserved, h.apart⟩

instance (maps : List MapRecord) (vs : List Visit) : Decidable (Copies maps vs) :=
  inferInstanceAs (Decidable (∃ v ∈ vs, _))

instance (maps : List MapRecord) (spared : DevRecord → Prop) [DecidablePred spared]
    (vs : List Visit) (v : Visit) : Decidable (Needs maps spared vs v) :=
  inferInstanceAs (Decidable (_ ∧ _ ∧ (_ → _)))

end DevProc

namespace DevProc

def twoBlocks : DevProc :=
  { dev := Swapping.twoBlocks, buffer := fun _ => 0, swapped := false, swapSize := 0, offset := 4096 }

def allBack : InCall := ⟨true, true, true, true, true, true, true, true⟩

end DevProc

end UbsVirt.Enpu
