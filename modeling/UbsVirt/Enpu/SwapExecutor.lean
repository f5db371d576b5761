import UbsVirt.Enpu.DeviceMemory
import UbsVirt.Lib.Mapping

/-!
# Swapping out, call by call

`swap_executor_swap_out` takes every record of a process through up to six calls into the
device runtime: it copies the block to the swap buffer, unmaps it and releases it. Physical
memory that is mapped nowhere is mapped at a new address first. A call that fails ends the
work on its record, with whatever the calls before it have done. Source:
`vcann-rt/src/swap_executor.c:48-133`, `memory_tracker.c:477-496`.
-/

namespace UbsVirt.Enpu

open Mapping List

/-- The records that `swap_executor_swap_out` does not skip, `swap_executor.c:60`. -/
def Record.pending (r : Record) : Bool :=
  r.ptr != 0 && !r.swapped

theorem Record.swapped_of_pending {r : Record} (h : r.pending = true) : r.swapped = false := by
  simp only [Record.pending, Bool.and_eq_true, Bool.not_eq_true'] at h
  exact h.2

/-- A record with the handle of its block. -/
structure DevRecord extends Record where
  handle : Nat
  deriving DecidableEq

/-- A node of the tracker's list of mappings; size, offset and flags are only passed on to the
runtime, which maps whole blocks. -/
structure MapRecord where
  va : Nat
  handle : Nat

namespace DevRecord

/-- The address a record is mapped at: its own, or for physical memory what
`memory_tracker_get_map_va` finds, which may be nothing. -/
def va (maps : List MapRecord) (r : DevRecord) : Option Nat :=
  if r.physical then
    ((maps.find? (·.handle == r.ptr)).map (·.va)).filter (· ≠ 0)
  else some r.ptr

def markSwapped (r : DevRecord) (offset : Nat) : DevRecord :=
  { r with toRecord := r.toRecord.markSwapped offset }

end DevRecord

/-- What the runtime answers to the calls made for one record; a call that is not made has an
answer too. -/
structure OutCall where
  reserve : Bool
  map : Bool
  memcpy : Bool
  unmap : Bool
  release : Bool
  free : Bool
  deriving DecidableEq, Repr

/-- The loop of `swap_executor_swap_out`: the device, the swap buffer, the destination and size
of every copy that was tried, `current_offset` and `act_swapped`. -/
structure Swapping where
  dev : Memory
  buffer : Nat → UInt8
  copies : List (Nat × Nat)
  offset : Nat
  act : Nat

namespace Swapping

def start (dev : Memory) (buffer : Nat → UInt8) (offset : Nat) : Swapping :=
  { dev, buffer, copies := [], offset, act := 0 }

/-- Lines 66-82: the address to copy from, unless no address can be had. -/
def source (rt : Chooser) (maps : List MapRecord) (d : Memory) (r : DevRecord) (c : OutCall) :
    Memory × Option Nat :=
  match r.va maps with
  | some va => (d, some va)
  | none =>
    if !c.reserve then (d, none)
    else
      let va := rt.pick d.reserved
      if !c.map then (d.reserve va, none) else ((d.reserve va).map va r.handle, some va)

/-- Lines 91-119: unmap the address, give back one that was reserved here, release the block;
whether all of it succeeded. -/
def giveBack (d : Memory) (va : Nat) (reservedHere : Bool) (r : DevRecord) (c : OutCall) :
    Memory × Bool :=
  if !c.unmap then (d, false)
  else if reservedHere then
    if !c.release then (d.unmap va, false)
    else if !c.free then ((d.unmap va).release va, false)
    else (((d.unmap va).release va).free r.handle, true)
  else if !c.free then (d.unmap va, false)
  else ((d.unmap va).free r.handle, true)

/-- The loop body, lines 58-125. -/
def swapOutRecord (rt : Chooser) (maps : List MapRecord) (s : Swapping) (r : DevRecord)
    (c : OutCall) : DevRecord × Swapping :=
  if !r.pending then (r, s)
  else match source rt maps s.dev r c with
    | (d, none) => (r, { s with dev := d })
    | (d, some va) =>
      let s := { s with dev := d, copies := s.copies ++ [(s.offset, r.size)] }
      if !c.memcpy then (r, s)
      else
        let s := { s with buffer := blit s.buffer s.offset r.size (d.read va) }
        match giveBack d va (r.va maps).isNone r c with
        | (d, false) => (r, { s with dev := d })
        | (d, true) => (r.markSwapped s.offset,
            { s with dev := d, offset := s.offset + r.size, act := s.act + r.size })

/-- The loop, for records with what the runtime answers on each of them. -/
def swapOutAll (rt : Chooser) (maps : List MapRecord) :
    List (DevRecord × OutCall) → Swapping → List DevRecord × Swapping
  | [], s => ([], s)
  | (r, c) :: ts, s =>
    let step := swapOutRecord rt maps s r c
    let rest := swapOutAll rt maps ts step.2
    (step.1 :: rest.1, rest.2)

end Swapping

/-! ### What the answers of the runtime lead to -/

namespace OutCall

variable (maps : List MapRecord) (r : DevRecord) (c : OutCall)

def tries : Bool :=
  r.pending && ((r.va maps).isSome || (c.reserve && c.map))

def copies : Bool :=
  c.tries maps r && c.memcpy

def succeeds : Bool :=
  c.copies maps r && c.unmap && ((r.va maps).isSome || c.release) && c.free

def strays : Bool :=
  r.pending && (r.va maps).isNone && c.reserve && !(c.map && c.memcpy && c.unmap && c.release)

def unmaps : Bool :=
  r.pending && (r.va maps).isSome && c.memcpy && c.unmap && !c.free

variable {maps r c}

theorem copies_of_succeeds (h : c.succeeds maps r = true) : c.copies maps r = true := by
  simp only [succeeds, Bool.and_eq_true] at h
  exact h.1.1.1

theorem pending_of_copies (h : c.copies maps r = true) : r.pending = true := by
  simp only [copies, tries, Bool.and_eq_true] at h
  exact h.1.1

theorem pending_of_succeeds (h : c.succeeds maps r = true) : r.pending = true :=
  pending_of_copies (copies_of_succeeds h)

theorem unmaps_of_succeeds (h : c.succeeds maps r = true) : c.unmaps maps r = false := by
  simp only [succeeds, Bool.and_eq_true] at h
  simp [unmaps, h.2]

theorem unmaps_of_swapped (h : r.swapped = true) : c.unmaps maps r = false := by
  simp [unmaps, Record.pending, h]

end OutCall

namespace Swapping

open OutCall

section

variable {rt : Chooser} {maps : List MapRecord} {s : Swapping} {r : DevRecord} {c : OutCall}

def content (maps : List MapRecord) (s : Swapping) (r : DevRecord) : Nat → UInt8 :=
  (r.va maps).elim (s.dev.bytes r.handle) s.dev.read

/-- What the loop body does to the record and to each part of the state. Of the mappings only
those at addresses that were reserved before matter. -/
structure OutStep (rt : Chooser) (maps : List MapRecord) (s : Swapping) (r : DevRecord)
    (c : OutCall) (r' : DevRecord) (s' : Swapping) : Prop where
  record : r' = if c.succeeds maps r then r.markSwapped s.offset else r
  offset : s'.offset = if c.succeeds maps r then s.offset + r.size else s.offset
  act : s'.act = if c.succeeds maps r then s.act + r.size else s.act
  copies : s'.copies = if c.tries maps r then s.copies ++ [(s.offset, r.size)] else s.copies
  buffer : s'.buffer = if c.copies maps r then
    blit s.buffer s.offset r.size (s.content maps r) else s.buffer
  bytes : s'.dev.bytes = s.dev.bytes
  live : s'.dev.live = if c.succeeds maps r then s.dev.live.erase r.handle else s.dev.live
  reserved : s'.dev.reserved = if c.strays maps r then
    insert (rt.pick s.dev.reserved) s.dev.reserved else s.dev.reserved
  mapped : ∀ va ∈ s.dev.reserved, s'.dev.mapped va =
    if r.va maps = some va ∧ c.copies maps r = true ∧ c.unmap = true then none
    else s.dev.mapped va

theorem read_map_reserve (d : Memory) (va h : Nat) : ((d.reserve va).map va h).read va = d.bytes h :=
  Memory.read_of_mapped (Function.update_self ..)

/-- A record that has an address. -/
theorem swapOutRecord_of_va {va : Nat} (hp : r.pending = true) (hva : r.va maps = some va) :
    OutStep rt maps s r c (swapOutRecord rt maps s r c).1 (swapOutRecord rt maps s r c).2 := by
  unfold swapOutRecord source giveBack
  cases hm : c.memcpy <;> cases hu : c.unmap <;> cases hf : c.free
  all_goals
    constructor
    all_goals
      simp [hp, hva, hm, hu, hf, tries, OutCall.copies, OutCall.succeeds, strays,
        content, Memory.unmap, Memory.free, Function.update_apply, eq_comm]

/-- Physical memory that is mapped nowhere. -/
theorem swapOutRecord_of_no_va (hp : r.pending = true) (hva : r.va maps = none) :
    OutStep rt maps s r c (swapOutRecord rt maps s r c).1 (swapOutRecord rt maps s r c).2 := by
  have hpick := rt.pick_notMem s.dev.reserved
  have hne : ∀ va ∈ s.dev.reserved, va ≠ rt.pick s.dev.reserved :=
    fun va hmem heq => hpick (heq ▸ hmem)
  have hread := read_map_reserve s.dev (rt.pick s.dev.reserved) r.handle
  unfold swapOutRecord source giveBack
  cases hr : c.reserve
  · constructor
    all_goals simp [hp, hva, hr, tries, OutCall.copies, OutCall.succeeds, strays]
  cases hm : c.map
  · constructor
    all_goals
      simp [hp, hva, hr, hm, tries, OutCall.copies, OutCall.succeeds, strays, Memory.reserve]
  cases hc : c.memcpy <;> cases hu : c.unmap <;> cases hl : c.release <;> cases hf : c.free
  all_goals
    constructor
    all_goals
      simp +contextual [hp, hva, hr, hm, hc, hu, hl, hf, hread, tries, OutCall.copies,
        OutCall.succeeds, strays, content]
    all_goals
      simp +contextual [Memory.reserve, Memory.map, Memory.unmap, Memory.release, Memory.free, hne,
        hpick]

variable (rt maps s r c) in
theorem swapOutRecord_spec :
    OutStep rt maps s r c (swapOutRecord rt maps s r c).1 (swapOutRecord rt maps s r c).2 := by
  cases hp : r.pending with
  | true =>
    cases hva : r.va maps with
    | some va => exact swapOutRecord_of_va hp hva
    | none => exact swapOutRecord_of_no_va hp hva
  | false =>
    unfold swapOutRecord
    constructor
    all_goals simp [hp, tries, OutCall.copies, OutCall.succeeds, strays]

end

/-! ### The whole loop -/

/-- How far behind `offset` the copies reach: a copy whose record was not marked is written over
by the next one. -/
def extent (maps : List MapRecord) : List (DevRecord × OutCall) → Nat
  | [] => 0
  | (r, c) :: ts =>
    if c.succeeds maps r then r.size + extent maps ts
    else if c.copies maps r then max r.size (extent maps ts)
    else extent maps ts

section

variable (rt : Chooser) (maps : List MapRecord)

section

variable (ts : List (DevRecord × OutCall)) (s : Swapping)

theorem bytes_swapOutAll : (swapOutAll rt maps ts s).2.dev.bytes = s.dev.bytes := by
  induction ts generalizing s with
  | nil => rfl
  | cons t ts ih => exact (ih _).trans (swapOutRecord_spec ..).bytes

theorem reserved_subset : s.dev.reserved ⊆ (swapOutAll rt maps ts s).2.dev.reserved := by
  induction ts generalizing s with
  | nil => exact Finset.Subset.refl _
  | cons t ts ih =>
    refine Finset.Subset.trans ?_ (ih _)
    rw [(swapOutRecord_spec ..).reserved]
    split
    · exact Finset.subset_insert _ _
    · exact Finset.Subset.refl _

/-- An address that was reserved and not given back stays reserved. -/
theorem reserved_swapOutAll_iff : (swapOutAll rt maps ts s).2.dev.reserved = s.dev.reserved ↔
      ∀ t ∈ ts, t.2.strays maps t.1 = false := by
  induction ts generalizing s with
  | nil => exact ⟨fun _ => nofun, fun _ => rfl⟩
  | cons t ts ih =>
    have hstep := (swapOutRecord_spec rt maps s t.1 t.2).reserved
    rw [forall_mem_cons]
    cases hstray : t.2.strays maps t.1 with
    | false =>
      rw [hstray, if_neg Bool.false_ne_true] at hstep
      rw [← ih (swapOutRecord rt maps s t.1 t.2).2, hstep]
      exact ⟨fun h => ⟨rfl, h⟩, And.right⟩
    | true =>
      rw [hstray, if_pos rfl] at hstep
      constructor
      · intro heq
        have hsub := reserved_subset rt maps ts (swapOutRecord rt maps s t.1 t.2).2
        rw [hstep] at hsub
        have hmem := hsub (Finset.mem_insert_self _ _)
        exact absurd (heq ▸ hmem) (rt.pick_notMem _)
      · rintro ⟨h, -⟩
        cases h

/-- Only the records' own addresses are unmapped. -/
theorem mapped_swapOutAll {va : Nat}
    (hva : va ∈ s.dev.reserved) (hother : ∀ t ∈ ts, t.1.va maps ≠ some va) :
    (swapOutAll rt maps ts s).2.dev.mapped va = s.dev.mapped va := by
  induction ts generalizing s with
  | nil => rfl
  | cons t ts ih =>
    rw [forall_mem_cons] at hother
    have hstep := swapOutRecord_spec rt maps s t.1 t.2
    have hres : va ∈ (swapOutRecord rt maps s t.1 t.2).2.dev.reserved :=
      reserved_subset rt maps [t] s hva
    have hrest := ih (swapOutRecord rt maps s t.1 t.2).2 hres hother.2
    rwa [hstep.mapped va hva, if_neg (fun h => hother.1 h.1)] at hrest

theorem live_subset : (swapOutAll rt maps ts s).2.dev.live ⊆ s.dev.live := by
  induction ts generalizing s with
  | nil => exact Finset.Subset.refl _
  | cons t ts ih =>
    refine (ih _).trans ?_
    rw [(swapOutRecord_spec ..).live]
    split
    · exact Finset.erase_subset _ _
    · exact Finset.Subset.refl _

/-- Only the records' own blocks are released. -/
theorem live_swapOutAll {h : Nat}
    (hlive : h ∈ s.dev.live) (hother : ∀ t ∈ ts, t.1.pending = true → t.1.handle ≠ h) :
    h ∈ (swapOutAll rt maps ts s).2.dev.live := by
  induction ts generalizing s with
  | nil => exact hlive
  | cons t ts ih =>
    rw [forall_mem_cons] at hother
    apply ih _ _ hother.2
    rw [(swapOutRecord_spec ..).live]
    split
    · next hsucceeds =>
      exact Finset.mem_erase_of_ne_of_mem (hother.1 (pending_of_succeeds hsucceeds)).symm hlive
    · exact hlive

end

/-! What the copies leave of the buffer -/

section

variable (ts : List (DevRecord × OutCall)) (s : Swapping)

theorem act_le : s.act ≤ (swapOutAll rt maps ts s).2.act := by
  induction ts generalizing s with
  | nil => exact Nat.le_refl _
  | cons t ts ih =>
    refine Nat.le_trans ?_ (ih _)
    rw [(swapOutRecord_spec rt maps s t.1 t.2).act]
    split
    · exact Nat.le_add_right _ _
    · exact Nat.le_refl _

/-- Something is swapped out exactly if all calls for some record succeed. -/
theorem act_pos_iff :
    s.act < (swapOutAll rt maps ts s).2.act ↔ ∃ t ∈ ts, t.2.succeeds maps t.1 = true := by
  induction ts generalizing s with
  | nil => simp [swapOutAll]
  | cons t ts ih =>
    have hact := (swapOutRecord_spec rt maps s t.1 t.2).act
    have hrest := ih (swapOutRecord rt maps s t.1 t.2).2
    have hle := act_le rt maps ts (swapOutRecord rt maps s t.1 t.2).2
    simp only [mem_cons, exists_eq_or_imp, ← hrest, swapOutAll]
    cases hs : t.2.succeeds maps t.1 with
    | true =>
      rw [hs, if_pos rfl] at hact
      refine iff_of_true (Nat.lt_of_lt_of_le ?_ hle) (.inl rfl)
      rw [hact]
      exact Nat.lt_add_of_pos_right t.1.size_pos
    | false =>
      rw [hs, if_neg Bool.false_ne_true] at hact
      simp [hact]

/-- The records keep their addresses. -/
theorem map_va_swapOutAll : (swapOutAll rt maps ts s).1.map (·.va maps) = ts.map (·.1.va maps) := by
  induction ts generalizing s with
  | nil => rfl
  | cons t ts ih =>
    have hrecord := (swapOutRecord_spec rt maps s t.1 t.2).record
    rw [map_cons, ← ih (swapOutRecord rt maps s t.1 t.2).2, swapOutAll, map_cons, hrecord]
    split
    all_goals rfl

/-- The three ways in which a record takes part: it is copied and the next copy follows it, it
is copied and the next copy replaces it, or it is not copied. -/
theorem copy_cases (t : DevRecord × OutCall) (ts : List (DevRecord × OutCall)) (s : Swapping) :
    let s' := (swapOutRecord rt maps s t.1 t.2).2
    (t.2.succeeds maps t.1 = true ∧ s'.offset = s.offset + t.1.size ∧
      s'.buffer = blit s.buffer s.offset t.1.size (s.content maps t.1) ∧
      extent maps (t :: ts) = t.1.size + extent maps ts) ∨
    (t.2.succeeds maps t.1 = false ∧ t.2.copies maps t.1 = true ∧ s'.offset = s.offset ∧
      s'.buffer = blit s.buffer s.offset t.1.size (s.content maps t.1) ∧
      extent maps (t :: ts) = max t.1.size (extent maps ts)) ∨
    (t.2.succeeds maps t.1 = false ∧ t.2.copies maps t.1 = false ∧ s'.offset = s.offset ∧
      s'.buffer = s.buffer ∧ extent maps (t :: ts) = extent maps ts) := by
  have hstep := swapOutRecord_spec rt maps s t.1 t.2
  have hoffset := hstep.offset
  have hbuffer := hstep.buffer
  cases hs : t.2.succeeds maps t.1 with
  | true =>
    rw [hs, if_pos rfl] at hoffset
    rw [copies_of_succeeds hs, if_pos rfl] at hbuffer
    exact .inl ⟨rfl, hoffset, hbuffer, by rw [extent, hs, if_pos rfl]⟩
  | false =>
    rw [hs, if_neg Bool.false_ne_true] at hoffset
    cases hc : t.2.copies maps t.1 with
    | true =>
      rw [hc, if_pos rfl] at hbuffer
      exact .inr (.inl ⟨rfl, rfl, hoffset, hbuffer, by simp [extent, hs, hc]⟩)
    | false =>
      rw [hc, if_neg Bool.false_ne_true] at hbuffer
      exact .inr (.inr ⟨rfl, rfl, hoffset, hbuffer, by simp [extent, hs, hc]⟩)

/-- Nothing is written before the first offset or behind what the copies reach. -/
theorem buffer_outside {o : Nat} (ho : o < s.offset ∨ s.offset + extent maps ts ≤ o) :
    (swapOutAll rt maps ts s).2.buffer o = s.buffer o := by
  induction ts generalizing s with
  | nil => rfl
  | cons t ts ih =>
    have hrest := ih (swapOutRecord rt maps s t.1 t.2).2
    rcases copy_cases rt maps t ts s with
      ⟨-, hoffset, hbuffer, hextent⟩ | ⟨-, -, hoffset, hbuffer, hextent⟩ |
        ⟨-, -, hoffset, hbuffer, hextent⟩
    all_goals rw [hextent] at ho
    · rw [hoffset, hbuffer, blit_outside _ _ (by omega)] at hrest
      exact hrest (by omega)
    · rw [hoffset, hbuffer, blit_outside _ _ (by omega)] at hrest
      exact hrest (by omega)
    · rw [hoffset, hbuffer] at hrest
      exact hrest ho

end

end

end Swapping

/-! ### Records that have their memory -/

/-- The records that are not swapped out have their blocks, at their addresses. No two of them
share a block, and no two records an address. -/
structure Tracked (d : Memory) (maps : List MapRecord) (rs : List DevRecord) : Prop where
  live : ∀ r ∈ rs, r.swapped = false → r.handle ∈ d.live
  mapped : ∀ r ∈ rs, r.swapped = false → ∀ va ∈ r.va maps, d.mapped va = some r.handle
  reserved : ∀ r ∈ rs, ∀ va ∈ r.va maps, va ∈ d.reserved
  apart : rs.Pairwise fun a b =>
    (a.swapped = false → b.swapped = false → a.handle ≠ b.handle) ∧
      ∀ va ∈ a.va maps, va ∉ b.va maps

namespace Swapping

open OutCall Record

variable (rt : Chooser) {maps : List MapRecord} {s : Swapping}

theorem content_eq {r : DevRecord} {rs : List DevRecord} (h : Tracked s.dev maps (r :: rs))
    (hs : r.swapped = false) : s.content maps r = s.dev.bytes r.handle := by
  unfold content
  cases hva : r.va maps with
  | none => rfl
  | some va => exact Memory.read_of_mapped (h.mapped r (mem_cons_self ..) hs va hva)

/-- Working on one record leaves the others their memory. -/
theorem tracked_swapOutRecord {r : DevRecord} {rs : List DevRecord} (c : OutCall)
    (h : Tracked s.dev maps (r :: rs)) : Tracked (swapOutRecord rt maps s r c).2.dev maps rs := by
  have hstep := swapOutRecord_spec rt maps s r c
  have hsub : s.dev.reserved ⊆ (Swapping.swapOutRecord rt maps s r c).2.dev.reserved :=
    reserved_subset rt maps [(r, c)] s
  obtain ⟨hapart, htail⟩ := pairwise_cons.mp h.apart
  refine ⟨?_, ?_, ?_, htail⟩
  · intro q hq hqs
    have hlive := h.live q (mem_cons_of_mem _ hq) hqs
    rw [hstep.live]
    split
    · next hsucceeds =>
      have hr := swapped_of_pending (pending_of_succeeds hsucceeds)
      exact Finset.mem_erase_of_ne_of_mem ((hapart q hq).1 hr hqs).symm hlive
    · exact hlive
  · intro q hq hqs va hva
    have hmem := mem_cons_of_mem r hq
    rw [hstep.mapped va (h.reserved q hmem va hva), h.mapped q hmem hqs va hva, if_neg]
    exact fun hr => (hapart q hq).2 va hr.1 hva
  · intro q hq va hva
    exact hsub (h.reserved q (mem_cons_of_mem _ hq) va hva)

/-- Every byte that the copies reach is a byte of some block. -/
theorem buffer_within {o : Nat} (ts : List (DevRecord × OutCall)) (s : Swapping)
    (h : Tracked s.dev maps (ts.map Prod.fst)) (ho : s.offset ≤ o)
    (ho' : o < s.offset + extent maps ts) :
    ∃ b i, (swapOutAll rt maps ts s).2.buffer o = s.dev.bytes b i := by
  induction ts generalizing s with
  | nil =>
    rw [extent] at ho'
    omega
  | cons t ts ih =>
    have hrest := ih (swapOutRecord rt maps s t.1 t.2).2 (tracked_swapOutRecord rt t.2 h)
    rw [(swapOutRecord_spec rt maps s t.1 t.2).bytes] at hrest
    have hout := buffer_outside (o := o) rt maps ts (swapOutRecord rt maps s t.1 t.2).2
    -- a byte of the record's own copy, when no later copy reaches it
    have hown : ∀ n, t.2.copies maps t.1 = true → n ≤ t.1.size → o < s.offset + n →
        ∃ i, blit s.buffer s.offset t.1.size (s.content maps t.1) o = s.dev.bytes t.1.handle i := by
      intro n hc hn hon
      have hs := swapped_of_pending (pending_of_copies hc)
      refine ⟨o - s.offset, ?_⟩
      rw [content_eq h hs]
      exact if_pos ⟨ho, by omega⟩
    rcases copy_cases rt maps t ts s with
      ⟨hs, hoffset, hbuffer, hextent⟩ | ⟨-, hc, hoffset, hbuffer, hextent⟩ |
        ⟨-, -, hoffset, hbuffer, hextent⟩
    all_goals
      rw [hextent] at ho'
      rw [hoffset] at hrest hout
      rw [hbuffer] at hout
    · by_cases hin : s.offset + t.1.size ≤ o
      · exact hrest hin (by omega)
      · obtain ⟨i, hi⟩ := hown _ (copies_of_succeeds hs) (Nat.le_refl _) (by omega)
        exact ⟨t.1.handle, i, (hout (by omega)).trans hi⟩
    · by_cases hin : o < s.offset + extent maps ts
      · exact hrest ho hin
      · obtain ⟨i, hi⟩ := hown _ hc (Nat.le_refl _) (by omega)
        exact ⟨t.1.handle, i, (hout (by omega)).trans hi⟩
    · exact hrest ho ho'

/-- What becomes of a record by the end `f` of the loop, for blocks that hold `bytes`. -/
def Outcome (maps : List MapRecord) (bytes : Nat → Nat → UInt8) (f : Swapping)
    (t : DevRecord × OutCall) (r' : DevRecord) : Prop :=
  if t.2.succeeds maps t.1 then
    t.1.handle ∉ f.dev.live ∧ ∃ off, r' = t.1.markSwapped off ∧
      ∀ i < t.1.size, f.buffer (off + i) = bytes t.1.handle i
  else
    r' = t.1 ∧ (t.1.swapped = false → t.1.handle ∈ f.dev.live ∧
      ∀ va ∈ t.1.va maps, f.dev.mapped va =
        if t.2.copies maps t.1 && t.2.unmap then none else some t.1.handle)

/-- What the loop over the records does to each of them. -/
theorem outcomes (ts : List (DevRecord × OutCall)) (s : Swapping)
    (h : Tracked s.dev maps (ts.map Prod.fst)) :
    List.Forall₂ (Outcome maps s.dev.bytes (swapOutAll rt maps ts s).2) ts
      (swapOutAll rt maps ts s).1 := by
  induction ts generalizing s with
  | nil => exact .nil
  | cons t ts ih =>
    have hstep := swapOutRecord_spec rt maps s t.1 t.2
    obtain ⟨hapart, -⟩ := pairwise_cons.mp h.apart
    have hrest := ih _ (tracked_swapOutRecord rt t.2 h)
    rw [hstep.bytes] at hrest
    refine .cons ?_ hrest
    change Outcome maps s.dev.bytes (swapOutAll rt maps ts (swapOutRecord rt maps s t.1 t.2).2).2 t
      (swapOutRecord rt maps s t.1 t.2).1
    unfold Outcome
    rw [hstep.record]
    split
    · next hsucceeds =>
      have hs := swapped_of_pending (pending_of_succeeds hsucceeds)
      refine ⟨?_, s.offset, rfl, ?_⟩
      · intro hmem
        have hlive := live_subset rt maps ts _ hmem
        rw [hstep.live, if_pos hsucceeds] at hlive
        exact Finset.notMem_erase _ _ hlive
      · -- the later copies lie behind this one
        intro i hi
        rw [buffer_outside rt maps ts, hstep.buffer,
          if_pos (copies_of_succeeds hsucceeds), blit_inside _ _ _ hi, content_eq h hs]
        left
        rw [hstep.offset, if_pos hsucceeds]
        omega
    · next hsucceeds =>
      refine ⟨rfl, fun hs => ⟨?_, ?_⟩⟩
      · apply live_swapOutAll
        · rw [hstep.live, if_neg hsucceeds]
          exact h.live _ (mem_cons_self ..) hs
        · intro q hq hpending heq
          exact (hapart _ (mem_map_of_mem hq)).1 hs (swapped_of_pending hpending) heq.symm
      · intro va hva
        have hres := h.reserved _ (mem_cons_self ..) va hva
        rw [mapped_swapOutAll rt maps ts, hstep.mapped va hres,
          h.mapped _ (mem_cons_self ..) hs va hva]
        · simp [Option.mem_def.mp hva]
        · exact reserved_subset rt maps [t] s hres
        · exact fun q hq => (hapart _ (mem_map_of_mem hq)).2 va hva

/-- The loop on the records alone: a record is copied when all its calls succeed. -/
theorem swapOutAll_copyAll (ts : List (DevRecord × OutCall)) (s : Swapping) :
    let copied := copyAll (ts.map (·.1.toRecord)) (ts.map fun t => t.2.succeeds maps t.1) s.offset
    (swapOutAll rt maps ts s).1.map (·.toRecord) = copied.1 ∧
      (swapOutAll rt maps ts s).2.act = s.act + copied.2 := by
  induction ts generalizing s with
  | nil => exact ⟨rfl, rfl⟩
  | cons t ts ih =>
    have hstep := swapOutRecord_spec rt maps s t.1 t.2
    obtain ⟨hrecords, hact⟩ := ih (swapOutRecord rt maps s t.1 t.2).2
    rw [hstep.offset] at hrecords hact
    rw [hstep.act] at hact
    cases hs : t.2.succeeds maps t.1 with
    | true =>
      have hr := swapped_of_pending (pending_of_succeeds hs)
      simp only [hs, if_true] at hrecords hact
      simp only [swapOutAll, map_cons, copyAll, Record.swapOut, hs, hr, hstep.record,
        hrecords, hact]
      exact ⟨rfl, by simp; omega⟩
    | false =>
      simp only [hs, Bool.false_eq_true, if_false] at hrecords hact
      simp only [swapOutAll, map_cons, copyAll, Record.swapOut, hs, hstep.record, hrecords, hact]
      exact ⟨by simp, by simp⟩

/-! ### Consistent records -/

/-- The bytes a record stands for: those of its block, or those in the buffer when it is swapped
out. -/
def original (s : Swapping) (r : DevRecord) : Nat → UInt8 :=
  if r.swapped then fun i => s.buffer (r.swapOffset + i) else s.dev.bytes r.handle

/-- A record `r` that became `r'` still has its block at its address, or the block is released
and its bytes are in the buffer. The handle of a record that was swapped out before may have been
given to another block. -/
def Settled (maps : List MapRecord) (s f : Swapping) (r r' : DevRecord) : Prop :=
  (r'.swapped = false ∧ f.dev.Holds r'.handle (r'.va maps) r.size (s.original r)) ∨
    (r'.swapped = true ∧ (r.swapped = false → r'.handle ∉ f.dev.live) ∧
      ∀ i < r.size, f.buffer (r'.swapOffset + i) = s.original r i)

/-- After the loop every record is consistent and the same addresses are reserved. -/
def Settles (rt : Chooser) (maps : List MapRecord) (s : Swapping) (ts : List (DevRecord × OutCall)) :
    Prop :=
  List.Forall₂ (fun t r' => Settled maps s (swapOutAll rt maps ts s).2 t.1 r') ts
      (swapOutAll rt maps ts s).1 ∧
    (swapOutAll rt maps ts s).2.dev.reserved = s.dev.reserved

/-- The answers on a record leave neither an address nor the block behind. -/
def Clean (maps : List MapRecord) (t : DevRecord × OutCall) : Prop :=
  t.2.strays maps t.1 = false ∧ t.2.unmaps maps t.1 = false

/-- The copies do not reach the bytes of a record that is already swapped out. -/
def Spared (maps : List MapRecord) (offset : Nat) (ts : List (DevRecord × OutCall))
    (r : DevRecord) : Prop :=
  r.swapped = true → ∀ i < r.size,
    r.swapOffset + i < offset ∨ offset + extent maps ts ≤ r.swapOffset + i

instance (maps : List MapRecord) (t : DevRecord × OutCall) : Decidable (Clean maps t) :=
  inferInstanceAs (Decidable (_ ∧ _))

instance (maps : List MapRecord) (offset : Nat) (ts : List (DevRecord × OutCall)) (r : DevRecord) :
    Decidable (Spared maps offset ts r) :=
  inferInstanceAs (Decidable (_ → ∀ i < r.size, _ ∨ _))

variable {t : DevRecord × OutCall}

/-- A record whose calls did not all succeed keeps its mapping unless it is unmapped and its
block not released. -/
theorem unmaps_iff (hs : t.2.succeeds maps t.1 = false) : t.2.unmaps maps t.1 = true ↔
      (t.1.va maps).isSome = true ∧ (t.2.copies maps t.1 && t.2.unmap) = true := by
  cases hva : (t.1.va maps).isSome with
  | false => simp [unmaps, hva]
  | true =>
    simp only [OutCall.succeeds, OutCall.copies, tries, hva, Bool.true_or, Bool.and_true] at hs
    simp only [unmaps, OutCall.copies, tries, hva, Bool.true_or, Bool.and_true,
      Bool.and_eq_true, true_and, Bool.not_eq_true']
    refine and_iff_left_of_imp fun hgone => ?_
    simpa only [hgone.1.1, hgone.1.2, hgone.2, Bool.true_and] using hs

variable {f : Swapping} {r' : DevRecord}

theorem Outcome.settled (h : Outcome maps s.dev.bytes f t r') (hbytes : f.dev.bytes = s.dev.bytes)
    (hunmaps : t.2.unmaps maps t.1 = false) (hbuffer : t.1.swapped = true → ∀ i < t.1.size,
      f.buffer (t.1.swapOffset + i) = s.buffer (t.1.swapOffset + i)) :
    Settled maps s f t.1 r' := by
  unfold Outcome at h
  unfold Settled original
  cases hsucceeds : t.2.succeeds maps t.1 with
  | true =>
    have hs := swapped_of_pending (pending_of_succeeds hsucceeds)
    rw [hsucceeds, if_pos rfl] at h
    obtain ⟨hfreed, off, rfl, hstored⟩ := h
    rw [hs, if_neg Bool.false_ne_true]
    exact .inr ⟨rfl, fun _ => hfreed, hstored⟩
  | false =>
    rw [hsucceeds, if_neg Bool.false_ne_true] at h
    obtain ⟨rfl, hkept⟩ := h
    cases hs : t.1.swapped with
    | true =>
      rw [if_pos rfl]
      exact .inr ⟨rfl, nofun, hbuffer hs⟩
    | false =>
      obtain ⟨hlive, hmapped⟩ := hkept hs
      rw [if_neg Bool.false_ne_true]
      refine .inl ⟨rfl, hlive, fun i _ => congrFun (congrFun hbytes _) i, ?_⟩
      intro va hva
      rw [hmapped va hva, if_neg]
      intro hgone
      have := (unmaps_iff hsucceeds).mpr ⟨Option.isSome_of_mem hva, hgone⟩
      rw [hunmaps] at this
      cases this

theorem Outcome.unmaps_eq_false
    (h : Outcome maps s.dev.bytes f t r') (hsettled : Settled maps s f t.1 r') :
    t.2.unmaps maps t.1 = false := by
  rw [← Bool.not_eq_true]
  intro hunmaps
  have hs : t.1.swapped = false := by
    simp only [unmaps, Bool.and_eq_true] at hunmaps
    exact swapped_of_pending hunmaps.1.1.1.1
  have hfails : t.2.succeeds maps t.1 = false := by
    simp only [unmaps, Bool.and_eq_true, Bool.not_eq_true'] at hunmaps
    simp [OutCall.succeeds, hunmaps.2]
  obtain ⟨hva, hgone⟩ := (unmaps_iff hfails).mp hunmaps
  obtain ⟨va, hva⟩ := Option.isSome_iff_exists.mp hva
  rw [Outcome, hfails, if_neg Bool.false_ne_true] at h
  obtain ⟨rfl, hkept⟩ := h
  have hmapped := (hkept hs).2 va hva
  rw [if_pos hgone] at hmapped
  rcases hsettled with ⟨-, hholds⟩ | ⟨hswapped, -⟩
  · rw [hholds.mapped va hva] at hmapped
    cases hmapped
  · rw [hs] at hswapped
    cases hswapped

variable {ts : List (DevRecord × OutCall)}

/-- With other bytes in the blocks than in the buffer, a copy over what is already swapped out
is seen. -/
theorem Outcome.spared (h : Outcome maps s.dev.bytes f t r') (hsettled : Settled maps s f t.1 r')
    (hwritten : ∀ o, s.offset ≤ o → o < s.offset + extent maps ts → f.buffer o ≠ s.buffer o) :
    Spared maps s.offset ts t.1 := by
  intro hs i hi
  have hfails : t.2.succeeds maps t.1 = false := by
    rw [← Bool.not_eq_true]
    intro hsucceeds
    rw [swapped_of_pending (pending_of_succeeds hsucceeds)] at hs
    cases hs
  rw [Outcome, hfails, if_neg Bool.false_ne_true] at h
  obtain ⟨rfl, -⟩ := h
  rcases hsettled with ⟨hswapped, -⟩ | ⟨-, -, hstored⟩
  · rw [hs] at hswapped
    cases hswapped
  · have hkept := hstored i hi
    rw [original, hs, if_pos rfl] at hkept
    by_contra hreached
    exact hwritten _ (by omega) (by omega) hkept

theorem settles_of_clean (h : Tracked s.dev maps (ts.map Prod.fst))
    (hcond : ∀ t ∈ ts, Clean maps t ∧ Spared maps s.offset ts t.1) : Settles rt maps s ts := by
  refine ⟨?_, (reserved_swapOutAll_iff rt maps ts s).mpr fun t ht => (hcond t ht).1.1⟩
  refine ((forall₂_and_left _ _).mpr ⟨hcond, outcomes rt ts s h⟩).imp ?_
  rintro t r' ⟨⟨hclean, hspared⟩, houtcome⟩
  exact houtcome.settled (bytes_swapOutAll rt maps ts s) hclean.2 fun hs i hi =>
    buffer_outside rt maps ts s (hspared hs i hi)

theorem clean_of_settles
    (h : Tracked s.dev maps (ts.map Prod.fst)) (hsettles : Settles rt maps s ts)
    (hdiffer : ∀ b i o, s.dev.bytes b i ≠ s.buffer o) :
    ∀ t ∈ ts, Clean maps t ∧ Spared maps s.offset ts t.1 := by
  have hstrays := (reserved_swapOutAll_iff rt maps ts s).mp hsettles.2
  have hwritten : ∀ o, s.offset ≤ o → o < s.offset + extent maps ts →
      (swapOutAll rt maps ts s).2.buffer o ≠ s.buffer o := by
    intro o ho ho'
    obtain ⟨b, i, hbyte⟩ := buffer_within rt ts s h ho ho'
    rw [hbyte]
    exact hdiffer b i o
  have hrecords : List.Forall₂ (fun t (_ : DevRecord) =>
      (t.2.unmaps maps t.1 = false ∧ Spared maps s.offset ts t.1) ∧ True) ts
      (swapOutAll rt maps ts s).1 :=
    (outcomes rt ts s h).mp
      (fun t r' houtcome hsettled =>
        ⟨⟨houtcome.unmaps_eq_false hsettled, houtcome.spared hsettled hwritten⟩, trivial⟩)
      hsettles.1
  intro t ht
  obtain ⟨hunmaps, hspared⟩ := ((forall₂_and_left _ _).mp hrecords).1 t ht
  exact ⟨⟨hstrays t ht, hunmaps⟩, hspared⟩

end Swapping

open Swapping in
/-- After a swap-out, whatever the blocks and the buffer held, every record is either mapped to
its block and not marked, or released, marked and stored, and no address is left reserved: exactly
if no record is unmapped without being released, every address reserved for a copy is given back,
and the copies do not reach what is already swapped out. -/
theorem swapOut_settles_iff (rt : Chooser) (maps : List MapRecord) (d : Memory) (offset : Nat)
    (ts : List (DevRecord × OutCall)) (h : Tracked d maps (ts.map Prod.fst)) :
    (∀ bytes buffer, Settles rt maps (start { d with bytes := bytes } buffer offset) ts) ↔
      ∀ t ∈ ts, Clean maps t ∧ Spared maps offset ts t.1 := by
  have htracked : ∀ bytes, Tracked { d with bytes := bytes } maps (ts.map Prod.fst) :=
    fun _ => ⟨h.live, h.mapped, h.reserved, h.apart⟩
  constructor
  · intro hsettles
    exact clean_of_settles rt (htracked fun _ _ => 1) (hsettles (fun _ _ => 1) fun _ => 0)
      fun _ _ _ => (by decide : (1 : UInt8) ≠ 0)
  · intro hcond bytes buffer
    exact settles_of_clean rt (htracked bytes) hcond

namespace Swapping

/-- A record of four bytes at address 1, in block 7. -/
def addressed : DevRecord :=
  { ptr := 1, size := 4, size_pos := by decide, physical := false, swapped := false
    swapOffset := 0, handle := 7 }

/-- Physical memory of eight bytes that is mapped nowhere, block 8. -/
def unaddressed : DevRecord :=
  { ptr := 8, size := 8, size_pos := by decide, physical := true, swapped := false
    swapOffset := 0, handle := 8 }

def twoBlocks : Memory :=
  { reserved := {1}, mapped := fun va => if va = 1 then some 7 else none, live := {7, 8}
    bytes := fun _ _ => 1 }

theorem tracked_twoBlocks : Tracked twoBlocks [] [addressed, unaddressed] where
  live := by decide
  mapped := by decide
  reserved := by decide
  apart := by decide

def allAnswered : OutCall := ⟨true, true, true, true, true, true⟩

end Swapping

open Swapping in
/-- One block is swapped out, for the other one no address can be reserved. -/
theorem swapOut_settles_twoBlocks : Tracked twoBlocks [] [addressed, unaddressed] ∧
      ∀ bytes buffer, Settles .next [] (start { twoBlocks with bytes := bytes } buffer 4096)
        [(addressed, allAnswered), (unaddressed, { allAnswered with reserve := false })] :=
  ⟨tracked_twoBlocks,
    (swapOut_settles_iff .next [] twoBlocks 4096
      [(addressed, allAnswered), (unaddressed, { allAnswered with reserve := false })]
      tracked_twoBlocks).mpr (by decide)⟩

open Swapping in
/-- `rtFreePhysical` fails after the block was copied and unmapped: the record is not marked and
its memory is not mapped. -/
theorem unmapped_and_not_marked :
    ¬ ∀ (rt : Chooser) (maps : List MapRecord) (s : Swapping) (ts : List (DevRecord × OutCall)),
      Tracked s.dev maps (ts.map Prod.fst) → Settles rt maps s ts := by
  intro h
  have hsettles := h .next [] (start twoBlocks (fun _ => 0) 4096)
    [(addressed, { allAnswered with free := false }), (unaddressed, allAnswered)] tracked_twoBlocks
  have hclean := clean_of_settles .next tracked_twoBlocks hsettles
    fun _ _ _ => (by decide : (1 : UInt8) ≠ 0)
  exact absurd (hclean _ (mem_cons_self ..)).1 (by decide)

end UbsVirt.Enpu
