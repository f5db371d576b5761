import Mathlib.Data.List.Chain
import UbsVirt.Enpu.TlsfPool
import UbsVirt.Lib.Run

/-!
# Runs of the swap-buffer pool

Beyond being well formed, the pool covers the whole buffer and is coalesced: freeing merges
with both neighbours (`enpu-manager/core/src/shm_manager.c:1379-1406`), so no two free blocks
ever lie next to each other. With a ledger of the offsets handed out and the sizes asked for,
this gives what callers rely on: the areas lent do not overlap, an allocation fails only when
no free block is large enough, and giving everything back restores the initial block.
-/

namespace UbsVirt.Enpu.Tlsf

open Tiling Run List

/-! ### Coalesced chains -/

def Apart (bs : List Block) : Prop :=
  bs.IsChain fun a b => a.used = true ∨ b.used = true

/-- The pool covers the buffer (up to the odd byte that the used flag costs) and is coalesced. -/
structure Pool.Packed (p : Pool) : Prop where
  wf : p.WF
  full : span Block.size p.blocks = p.totalSize / 2 * 2
  apart : Apart p.blocks
  nonempty : p.blocks ≠ []

theorem packed_init (size : Nat) : (init size).Packed where
  wf := wf_init size
  full := by simp [init, Pool.insertFree]
  apart := isChain_singleton _
  nonempty := cons_ne_nil _ _

section

variable {b : Block} {xs ys : List Block}

/-- Around a free block a coalesced chain has used blocks only. -/
theorem apart_middle (hfree : b.used = false) : Apart (xs ++ b :: ys) ↔
      Apart xs ∧ Apart ys ∧ (∀ x ∈ xs.getLast?, x.used = true) ∧ ∀ y ∈ ys.head?, y.used = true := by
  unfold Apart
  rw [isChain_append, isChain_cons]
  simp only [hfree, head?_cons, Option.mem_def, Option.some.injEq, forall_eq', or_false,
    Bool.false_eq_true, false_or]
  tauto

theorem Apart.left (h : Apart (xs ++ ys)) : Apart xs :=
  (isChain_append.mp h).1

theorem Apart.right (h : Apart (xs ++ ys)) : Apart ys :=
  (isChain_append.mp h).2.1

/-- Cutting a free block keeps the chain coalesced: the remainder follows a used block. -/
theorem apart_cut {kept : Block} {rest : Option Block} (h : Apart (xs ++ b :: ys))
    (hfree : b.used = false) (hc : Cut b kept rest) :
    Apart (xs ++ (kept :: rest.toList) ++ ys) := by
  obtain ⟨hxs, hys, -, hhead⟩ := (apart_middle hfree).mp h
  have hkept := hc.used
  have htail : Apart (kept :: (rest.toList ++ ys)) := by
    refine isChain_cons.mpr ⟨fun _ _ => .inl hkept, ?_⟩
    cases rest with
    | none => exact hys
    | some r => exact isChain_cons.mpr ⟨fun y hy => .inr (hhead y hy), hys⟩
  rw [append_assoc, cons_append]
  exact hxs.append htail fun x _ y hy => .inr (by cases hy; exact hkept)

end

variable {p : Pool}

theorem Pool.Packed.place {b kept : Block} {rest : Option Block} (h : p.Packed)
    (hb : b ∈ p.blocks) (hfree : b.used = false) (hc : Cut b kept rest) :
    (p.place b kept rest).Packed := by
  obtain ⟨xs, ys, hblocks, hx, hy⟩ := h.wf.split hb
  have hnew := @place_blocks p b kept rest xs ys hblocks hx hy
  refine ⟨wf_place h.wf hb hfree hc, ?_, ?_, ?_⟩
  · rw [hnew, place_fields.2, span_place hblocks hc]
    exact h.full
  · rw [hnew]
    exact apart_cut (hblocks ▸ h.apart) hfree hc
  · rw [hnew]
    simp

/-! ### Freeing coalesces -/

section

variable {p : Pool} {b : Block} {xs ys : List Block}

/-- After merging backwards, the block before is used. -/
theorem mergePrev_apart (h : Apart xs) : Apart (mergePrev p xs.reverse b).2.1.reverse ∧
      ∀ x ∈ (mergePrev p xs.reverse b).2.1.reverse.getLast?, x.used = true := by
  rcases eq_nil_or_concat xs with rfl | ⟨us, prev, rfl⟩
  · exact ⟨h, by simp [mergePrev]⟩
  rw [concat_eq_append] at h ⊢
  rw [reverse_append, reverse_singleton, singleton_append]
  simp only [mergePrev]
  split
  · next hprev => simpa [hprev] using h
  · next hprev =>
    rw [Bool.not_eq_true] at hprev
    have hus := (apart_middle hprev).mp h
    simpa using ⟨hus.1, hus.2.2.1⟩

/-- After merging forwards, the block behind is used. -/
theorem mergeNext_apart (h : Apart ys) :
    Apart (mergeNext p ys b).2.1 ∧ ∀ y ∈ (mergeNext p ys b).2.1.head?, y.used = true := by
  cases ys with
  | nil => exact ⟨h, by simp [mergeNext]⟩
  | cons next ys =>
    simp only [mergeNext]
    split
    · next hnext => exact ⟨h, by simpa using hnext⟩
    · next hnext =>
      rw [Bool.not_eq_true] at hnext
      have hys := (apart_middle hnext).mp (show Apart ([] ++ next :: ys) from h)
      exact ⟨hys.2.1, hys.2.2.2⟩

/-- Freeing merges, so no two free blocks stay adjacent. -/
theorem Pool.Packed.free_used (h : p.Packed) (hb : b ∈ p.blocks) (hused : b.used = true) :
    (free p b.offset).Packed := by
  have hwf := wf_free h.wf hb hused
  obtain ⟨xs, ys, hblocks, hx, -⟩ := h.wf.split hb
  have hm := merge_spec (merging_unuse h.wf hblocks hused)
  have hapart := hblocks ▸ h.apart
  have hprev := mergePrev_apart (p := p.unuse b) (b := { b with used := false }) hapart.left
  have heq := free_eq h.wf hblocks hx hused
  dsimp only at hm heq
  generalize mergePrev (p.unuse b) xs.reverse { b with used := false } = r₁ at hm heq hprev
  have hnext := mergeNext_apart (p := r₁.1) (b := r₁.2.2) (show Apart ([b] ++ ys) from hapart.right).right
  generalize mergeNext r₁.1 ys r₁.2.2 = r₂ at hm heq hnext
  obtain ⟨lists, hpool⟩ := hm.pool
  have hnew : (free p b.offset).blocks = r₁.2.1.reverse ++ r₂.2.2 :: r₂.2.1 := by rw [heq]; rfl
  refine ⟨hwf, ?_, ?_, ?_⟩
  · have htotal : (free p b.offset).totalSize = p.totalSize := by rw [heq, hpool]; rfl
    rw [hnew, htotal, ← h.full, hblocks]
    refine hm.span.trans ?_
    simp only [span_append, span_cons]
  · rw [hnew]
    exact (apart_middle hm.merging.unused).mpr ⟨hprev.1, hnext.1, hprev.2, hnext.2⟩
  · rw [hnew]
    simp

/-- Freeing an offset that is not in use does nothing. -/
theorem free_of_not_used (h : p.WF) {off : Nat} (hoff : off ∉ p.usedOffsets) : free p off = p := by
  have hlist : off ∉ p.usedList := by
    rw [h.used]
    rintro ⟨c, hc, hused, rfl⟩
    exact hoff ⟨c, mem_usedBlocks.mpr ⟨hc, hused⟩, rfl⟩
  have hfound : ∀ c, p.findByOffset off = some c → c.used = false := by
    intro c hc
    unfold Pool.findByOffset at hc
    rw [if_neg hlist] at hc
    split at hc
    · have hmem := mem_of_find?_eq_some hc
      have hat : c.offset = off := by simpa using find?_some hc
      rw [← Bool.not_eq_true]
      exact fun hused => hoff ⟨c, mem_usedBlocks.mpr ⟨hmem, hused⟩, hat⟩
    · cases hc
  unfold free
  split
  · rfl
  · cases hfind : p.findByOffset off with
    | none => rfl
    | some c =>
      dsimp only
      rw [if_pos (by simp [hfound c hfind])]

end

theorem Pool.Packed.free (h : p.Packed) (off : Nat) : (free p off).Packed := by
  by_cases hoff : off ∈ p.usedOffsets
  · obtain ⟨b, hb, rfl⟩ := hoff
    exact h.free_used (mem_usedBlocks.mp hb).1 (mem_usedBlocks.mp hb).2
  · rwa [free_of_not_used h.wf hoff]

theorem Pool.WF.free_any (h : p.WF) (off : Nat) : (Tlsf.free p off).WF := by
  by_cases hoff : off ∈ p.usedOffsets
  · exact (free_spec h hoff).1
  · rwa [free_of_not_used h hoff]

/-- The used blocks that freeing an offset leaves, whether or not the offset was in use. -/
theorem mem_usedBlocks_free_iff (h : p.WF) (off : Nat) (x : Block) :
    x ∈ (Tlsf.free p off).usedBlocks ↔ x ∈ p.usedBlocks ∧ x.offset ≠ off := by
  by_cases hoff : off ∈ p.usedOffsets
  · obtain ⟨b, hb, rfl⟩ := hoff
    exact mem_usedBlocks_free h (mem_usedBlocks.mp hb).1 (mem_usedBlocks.mp hb).2 x
  · rw [free_of_not_used h hoff]
    exact ⟨fun hx => ⟨hx, fun hat => hoff ⟨x, hx, hat⟩⟩, fun hx => hx.1⟩

variable {size : Nat}

/-- The used blocks before an allocation are those after it that are not at the new offset. -/
theorem mem_usedBlocks_alloc {p' : Pool} {off : Nat} {header : Bool} (h : p.WF)
    (hsize : 0 < alignSize size) (halloc : Tlsf.alloc p size header = some (off, p')) (x : Block) :
    x ∈ p.usedBlocks ↔ x ∈ p'.usedBlocks ∧ x.offset ≠ off := by
  obtain ⟨-, hfresh, -⟩ := alloc_spec h hsize halloc
  obtain ⟨b, kept, rest, hb, hfree, hc, rfl, rfl, -⟩ := alloc_eq_some h hsize halloc
  obtain ⟨xs, ys, hblocks, hx, hy⟩ := h.split hb
  obtain ⟨hold, hnew⟩ := usedBlocks_place hblocks hx hy hfree hc
  constructor
  · intro hmem
    refine ⟨?_, fun hoff => hfresh ⟨x, hmem, hoff⟩⟩
    rw [hold, mem_append] at hmem
    rw [hnew, mem_append, mem_cons]
    tauto
  · rintro ⟨hmem, hoff⟩
    rw [hnew, mem_append, mem_cons] at hmem
    rw [hold, mem_append]
    rcases hmem with hmem | rfl | hmem
    · exact .inl hmem
    · exact absurd hc.offset hoff
    · exact .inr hmem

theorem mem_usedOffsets_free (h : p.WF) (off o : Nat) :
    o ∈ (Tlsf.free p off).usedOffsets ↔ o ∈ p.usedOffsets ∧ o ≠ off := by
  simp only [mem_usedOffsets, mem_usedBlocks_free_iff h]
  constructor
  · rintro ⟨x, ⟨hx, hne⟩, rfl⟩
    exact ⟨⟨x, hx, rfl⟩, hne⟩
  · rintro ⟨⟨x, hx, rfl⟩, hne⟩
    exact ⟨x, ⟨hx, hne⟩, rfl⟩

theorem totalSize_free (h : p.WF) (off : Nat) : (Tlsf.free p off).totalSize = p.totalSize := by
  by_cases hoff : off ∈ p.usedOffsets
  · obtain ⟨b, hb, rfl⟩ := hoff
    obtain ⟨hb, hused⟩ := mem_usedBlocks.mp hb
    obtain ⟨xs, ys, hblocks, hx, -⟩ := h.split hb
    obtain ⟨p', xs', b', ys', heq, hm⟩ := free_merged h hblocks hx hused
    obtain ⟨lists, hpool⟩ := hm.pool
    rw [heq, hpool]
    rfl
  · rw [free_of_not_used h hoff]

/-! ### Finding a block -/

/-- Rounding up to a multiple of `TLSF_ALIGN`, without a word size. -/
def roundUp (size : Nat) : Nat :=
  (size + (align - 1)) / align * align

def maxRequest : Nat := 2 ^ 64 - align

theorem alignSize_eq (h : size ≤ maxRequest) : alignSize size = roundUp size := by
  unfold alignSize roundUp
  simp only [maxRequest, align] at h ⊢
  rw [Nat.mod_eq_of_lt (by omega)]

theorem alignSize_wraps (h : maxRequest < size) (hlt : size < 2 ^ 64) : alignSize size = 0 := by
  unfold alignSize
  simp only [maxRequest, align] at h ⊢
  rw [Nat.mod_eq_sub_mod (by omega), Nat.mod_eq_of_lt (by omega)]
  omega

theorem le_roundUp (size : Nat) : size ≤ roundUp size := by
  unfold roundUp align
  omega

theorem roundUp_mono {m n : Nat} (h : m ≤ n) : roundUp m ≤ roundUp n := by
  unfold roundUp align
  omega

/-- The size class is inside the table of free lists. -/
theorem calcFlSl_lt (size : Nat) : (calcFlSl size).1 < maxFl ∧ (calcFlSl size).2 < maxSl := by
  unfold calcFlSl
  dsimp only
  split
  · next h =>
    refine ⟨Nat.zero_lt_succ _, ?_⟩
    unfold maxSl
    dsimp only
    omega
  · refine ⟨?_, ?_⟩
    · exact (min_le_right _ _).trans_lt (by decide)
    · exact (min_le_right _ _).trans_lt (by decide)

/-- The first index of the size class grows with the size: across the small sizes, which
share index 0, and up to the clamped top class. -/
theorem calcFlSl_mono {m n : Nat} (h : m ≤ n) (hn : n ≤ maxRequest) :
    (calcFlSl m).1 ≤ (calcFlSl n).1 := by
  have hle : max (alignSize m) align ≤ max (alignSize n) align := by
    rw [alignSize_eq (h.trans hn), alignSize_eq hn]
    have hround := roundUp_mono h
    omega
  unfold calcFlSl
  dsimp only
  generalize max (alignSize m) align = m' at hle ⊢
  generalize max (alignSize n) align = n' at hle ⊢
  split
  · exact Nat.zero_le _
  · next hm =>
    rw [if_neg (by omega)]
    have hlog : Nat.log 2 m' ≤ Nat.log 2 n' := Nat.log_mono_right hle
    rw [Nat.log2_eq_log_two, Nat.log2_eq_log_two]
    omega

/-- The search fails exactly when no free block is large enough. -/
theorem findBlock_eq_none (h : p.WF) (hsmall : ∀ b ∈ p.blocks, b.size ≤ maxRequest) (size : Nat) :
    p.findBlock size = none ↔ ∀ b ∈ p.blocks, b.used = false → b.size < size := by
  constructor
  · intro hnone b hb hfree
    by_contra hge
    -- the block is in the list of its class, which the search visits
    have hclass := calcFlSl_lt b.size
    have hmono := calcFlSl_mono (not_lt.mp hge) (hsmall b hb)
    have hmem : b.offset ∈ p.freeList (calcFlSl b.size).1 (calcFlSl b.size).2 :=
      (h.free.mem _ _ _).mpr ⟨b, ⟨hb, hfree⟩, rfl, rfl⟩
    simp only [Pool.findBlock, findSome?_eq_none_iff, mem_range'_1, mem_range]
      at hnone
    have hskipped := hnone _ ⟨hmono, by omega⟩ _ hclass.2 _ hmem
    rw [h.blockAt_of_mem hb] at hskipped
    simp only [Option.filter_some, decide_eq_true_eq, ite_eq_right_iff, reduceCtorEq] at hskipped
    exact hskipped (not_lt.mp hge)
  · intro hall
    cases hfind : p.findBlock size with
    | none => rfl
    | some b =>
      obtain ⟨hb, hfree, hle⟩ := h.findBlock_spec hfind
      exact absurd (hall b hb hfree) (not_lt.mpr hle)

/-- A block of a pool that covers a buffer is no larger than the buffer. -/
theorem Pool.WF.size_le (h : p.WF) {b : Block} (hb : b ∈ p.blocks) : b.size ≤ p.totalSize := by
  have hbounds := h.tiles.bounds hb
  have hinside := h.inside
  omega

/-! ### Giving everything back -/

/-- A coalesced pool with nothing in use is its initial block. -/
theorem Pool.Packed.blocks_of_unused (h : p.Packed) (hused : p.usedOffsets = ∅) :
    p.blocks = [⟨0, p.totalSize / 2 * 2, false⟩] := by
  have hfree : ∀ b ∈ p.blocks, b.used = false := by
    intro b hb
    rw [← Bool.not_eq_true]
    intro hu
    have hmem : b.offset ∈ p.usedOffsets := ⟨b, mem_usedBlocks.mpr ⟨hb, hu⟩, rfl⟩
    rwa [hused] at hmem
  have hapart := h.apart
  have hfull := h.full
  have htiles := h.wf.tiles
  cases hblocks : p.blocks with
  | nil => exact absurd hblocks h.nonempty
  | cons b bs =>
    rw [hblocks] at hfree hapart hfull htiles
    cases bs with
    | nil =>
      obtain ⟨offset, size, used⟩ := b
      have hoff : offset = 0 := htiles.1
      have hsize : size = p.totalSize / 2 * 2 := by simpa using hfull
      have hu : used = false := hfree _ (mem_singleton_self _)
      rw [hoff, hsize, hu]
    | cons c bs =>
      have hb := hfree b (by simp)
      have hc := hfree c (by simp)
      rcases (isChain_cons_cons.mp hapart).1 with hu | hu
      · rw [hb] at hu; cases hu
      · rw [hc] at hu; cases hu

/-- A list without duplicates whose only member can be `a`. -/
theorem eq_ite_of_mem_iff {α : Type*} {l : List α} {a : α} {c : Prop} [Decidable c]
    (hnodup : l.Nodup) (hmem : ∀ x, x ∈ l ↔ c ∧ x = a) : l = if c then [a] else [] := by
  split
  · next hc =>
    refine perm_singleton.mp ((perm_ext_iff_of_nodup hnodup (by simp)).mpr fun x => ?_)
    rw [hmem, mem_singleton]
    exact and_iff_right hc
  · next hc =>
    refine eq_nil_iff_forall_not_mem.mpr fun x hx => ?_
    exact hc ((hmem x).mp hx).1

/-- With nothing in use, the pool is as it was set up. -/
theorem Pool.Packed.eq_init (h : p.Packed) (hused : p.usedOffsets = ∅) : p = init p.totalSize := by
  have hblocks := h.blocks_of_unused hused
  have hlist : p.usedList = [] := by
    refine eq_nil_iff_forall_not_mem.mpr fun o ho => ?_
    obtain ⟨b, hb, hu, hoff⟩ := (h.wf.used o).mp ho
    have hmem : o ∈ p.usedOffsets := ⟨b, mem_usedBlocks.mpr ⟨hb, hu⟩, hoff⟩
    rwa [hused] at hmem
  have htotal : p.totalUsed = 0 := by
    rw [h.wf.total, Pool.usedBlocks, hblocks]
    rfl
  have hfree : p.freeList = (init p.totalSize).freeList := by
    funext fl sl
    refine eq_ite_of_mem_iff (h.wf.free.nodup fl sl) fun o => ?_
    rw [h.wf.free.mem, hblocks]
    constructor
    · rintro ⟨b, ⟨hb, -⟩, rfl, hclass⟩
      rw [mem_singleton.mp hb] at hclass ⊢
      rw [hclass]
      exact ⟨⟨rfl, rfl⟩, rfl⟩
    · rintro ⟨⟨rfl, rfl⟩, rfl⟩
      exact ⟨_, ⟨mem_singleton_self _, rfl⟩, rfl, rfl⟩
  obtain ⟨initialized, blocks, freeList, usedList, totalSize, totalUsed⟩ := p
  have hinit := h.wf.initialized
  dsimp only at *
  rw [hinit, hblocks, hlist, htotal, hfree]
  rfl

theorem Pool.Packed.freeAll (h : p.Packed) (order : List Nat) : (order.foldl Tlsf.free p).Packed ∧
      (∀ o, o ∈ (order.foldl Tlsf.free p).usedOffsets ↔ o ∈ p.usedOffsets ∧ o ∉ order) ∧
      (order.foldl Tlsf.free p).totalSize = p.totalSize := by
  induction order generalizing p with
  | nil => exact ⟨h, by simp, rfl⟩
  | cons off order ih =>
    obtain ⟨hpacked, hused, htotal⟩ := ih (h.free off)
    refine ⟨hpacked, ?_, htotal.trans (totalSize_free h.wf off)⟩
    intro o
    rw [foldl_cons, hused, mem_usedOffsets_free h.wf, mem_cons]
    tauto

/-! ### Runs -/

/-- A call on the pool; `header` tells whether `malloc` finds room for the header of a
remainder. -/
inductive PoolCall where
  | alloc (size : Nat) (header : Bool)
  | free (offset : Nat)
  deriving DecidableEq, Repr

/-- The pool, and the ledger of what its callers hold: the offsets handed out and not given
back, with the sizes they were asked for. -/
structure Session where
  pool : Pool
  lent : List (Nat × Nat)

open Session

def Session.step (s : Session) : PoolCall → Session
  | .alloc size header =>
    match Tlsf.alloc s.pool size header with
    | none => s
    | some (off, p) => ⟨p, (off, size) :: s.lent⟩
  | .free offset => ⟨Tlsf.free s.pool offset, s.lent.filter (·.1 != offset)⟩

def Session.start (size : Nat) : Session := ⟨init size, []⟩

/-- The sizes for which the rounding in `tlsf_alloc` does not wrap. -/
def PoolCall.fits : PoolCall → Prop
  | .alloc size _ => size ≤ maxRequest
  | .free _ => True

instance : DecidablePred PoolCall.fits
  | .alloc size _ => inferInstanceAs (Decidable (size ≤ maxRequest))
  | .free _ => isTrue trivial

/-- The ledger agrees with the pool: what is lent is what is in use, and large enough. -/
structure Session.Inv (size : Nat) (s : Session) : Prop where
  packed : s.pool.Packed
  total : s.pool.totalSize = size
  offsets : ∀ o, o ∈ s.pool.usedOffsets ↔ o ∈ s.lent.map Prod.fst
  nodup : (s.lent.map Prod.fst).Nodup
  large : ∀ e ∈ s.lent, ∃ b ∈ s.pool.usedBlocks, b.offset = e.1 ∧ e.2 ≤ b.size

namespace Session.Inv

variable {size : Nat} {s : Session}

theorem start (size : Nat) : (Session.start size).Inv size where
  packed := packed_init size
  total := rfl
  offsets o := by
    simp [Session.start, Pool.usedOffsets, Pool.usedBlocks, init, Pool.insertFree]
  nodup := nodup_nil
  large := by simp [Session.start]

/-- An allocation keeps the session's invariant. -/
theorem alloc (h : s.Inv size) {request : Nat} (header : Bool) (hfits : request ≤ maxRequest) :
    (s.step (.alloc request header)).Inv size := by
  unfold step
  dsimp only
  split
  · exact h
  next off p halloc =>
  have hpos : 0 < alignSize request := by
    rw [alignSize_eq hfits]
    have hzero : request ≠ 0 := by
      rintro rfl
      simp [Tlsf.alloc] at halloc
    have := le_roundUp request
    omega
  obtain ⟨-, hfresh, hused⟩ := alloc_spec h.packed.wf hpos halloc
  obtain ⟨b, kept, rest, hb, hfree, hc, rfl, rfl, hkept⟩ := alloc_eq_some h.packed.wf hpos halloc
  obtain ⟨xs, ys, hblocks, hx, hy⟩ := h.packed.wf.split hb
  obtain ⟨hold, hnew⟩ := usedBlocks_place hblocks hx hy hfree hc
  refine ⟨h.packed.place hb hfree hc, place_fields.2.trans h.total, fun o => ?_, ?_, ?_⟩
  · rw [hused, Set.mem_insert_iff, h.offsets, map_cons, mem_cons]
  · exact nodup_cons.mpr ⟨fun hmem => hfresh ((h.offsets _).mpr hmem), h.nodup⟩
  · intro e he
    rw [hnew]
    rcases mem_cons.mp he with rfl | he
    · refine ⟨kept, by simp, hc.offset, ?_⟩
      rw [alignSize_eq hfits] at hkept
      exact (le_roundUp request).trans hkept
    · obtain ⟨c, hmem, hat, hle⟩ := h.large e he
      rw [hold] at hmem
      refine ⟨c, ?_, hat, hle⟩
      rw [mem_append] at hmem
      rw [mem_append, mem_cons]
      tauto

theorem free (h : s.Inv size) (off : Nat) : (s.step (.free off)).Inv size := by
  have hmem : ∀ o, o ∈ (s.lent.filter (·.1 != off)).map Prod.fst ↔
      o ∈ s.lent.map Prod.fst ∧ o ≠ off := by
    intro o
    simp only [mem_map, mem_filter, bne_iff_ne, ne_eq]
    constructor
    · rintro ⟨e, ⟨he, hne⟩, rfl⟩
      exact ⟨⟨e, he, rfl⟩, hne⟩
    · rintro ⟨⟨e, he, rfl⟩, hne⟩
      exact ⟨e, ⟨he, hne⟩, rfl⟩
  refine ⟨h.packed.free off, (totalSize_free h.packed.wf off).trans h.total, fun o => ?_, ?_, ?_⟩
  · change o ∈ (Tlsf.free s.pool off).usedOffsets ↔ o ∈ (s.lent.filter (·.1 != off)).map Prod.fst
    rw [hmem, mem_usedOffsets_free h.packed.wf, h.offsets]
  · exact h.nodup.sublist (filter_sublist.map Prod.fst)
  · intro e he
    obtain ⟨hlent, hne⟩ := mem_filter.mp he
    obtain ⟨b, hb, hat, hle⟩ := h.large e hlent
    refine ⟨b, ?_, hat, hle⟩
    exact (mem_usedBlocks_free_iff h.packed.wf off b).mpr ⟨hb, by simpa [hat] using hne⟩

theorem step (h : s.Inv size) (c : PoolCall) (hfits : c.fits) : (s.step c).Inv size := by
  cases c with
  | alloc request header => exact h.alloc header hfits
  | free off => exact h.free off

/-- The areas lent lie in the buffer. -/
theorem inside (h : s.Inv size) {e : Nat × Nat} (he : e ∈ s.lent) : e.1 + e.2 ≤ size := by
  obtain ⟨b, hb, hat, hle⟩ := h.large e he
  have hbounds := h.packed.wf.tiles.bounds (mem_usedBlocks.mp hb).1
  have hinside := h.packed.wf.inside
  rw [h.total] at hinside
  omega

/-- The areas lent do not overlap. -/
theorem disjoint (h : s.Inv size) :
    s.lent.Pairwise fun e e' => e.1 + e.2 ≤ e'.1 ∨ e'.1 + e'.2 ≤ e.1 := by
  refine (pairwise_map.mp h.nodup).imp_of_mem fun {e e'} he he' hne => ?_
  obtain ⟨b, hb, hat, hle⟩ := h.large e he
  obtain ⟨b', hb', hat', hle'⟩ := h.large e' he'
  obtain ⟨xs, ys, hblocks, -, -⟩ := h.packed.wf.split (mem_usedBlocks.mp hb).1
  have hmem := (mem_usedBlocks.mp hb').1
  have htiles := h.packed.wf.tiles
  rw [hblocks] at hmem htiles
  rcases mem_append.mp hmem with hbefore | hmem
  · have := htiles.before hbefore
    omega
  · rcases mem_cons.mp hmem with rfl | hafter
    · exact absurd (hat.symm.trans hat') hne
    · have := htiles.after hafter
      omega

end Session.Inv

theorem throughout_inv (size : Nat) {run : List PoolCall} (hrun : ∀ c ∈ run, c.fits) :
    Throughout step (Inv size) (Session.start size) run := by
  have heach : ∀ s, EachStep step (fun _ c => c.fits) s run := by
    induction run with
    | nil => exact fun _ => trivial
    | cons c run ih =>
      intro s
      exact ⟨hrun c (by simp), ih (fun c' hc' => hrun c' (by simp [hc'])) _⟩
  exact throughout_of_step (Inv.start size) (fun _ c h hc => h.step c hc) (heach _)

/-- An allocation in a coalesced pool fails exactly when no free block has the rounded size;
a size that cannot be rounded in a word is taken for 0. -/
theorem alloc_eq_none (h : p.WF) (hsmall : p.totalSize ≤ 2 ^ 63) {request : Nat}
    (header : Bool) (hpos : 0 < request) :
    alloc p request header = none ↔
      ∀ b ∈ p.blocks, b.used = false → b.size < alignSize request := by
  rw [alloc_eq header h.initialized (by omega), Option.map_eq_none_iff, findBlock_eq_none h]
  intro b hb
  refine (h.size_le hb).trans (hsmall.trans ?_)
  decide

/-- In every state that runs of calls with sizes up to `2 ^ 64 - 64` lead to, a further
allocation fails exactly when no free block has the size rounded up, provided its own size
does not exceed that bound either (or nothing is free), and freeing all that is lent, in any
order, leads back to the initial pool. That is one free block of the full size if the size
is even. -/
theorem alloc_fails_iff_and_free_coalesces (size : Nat) (hsize : size ≤ 2 ^ 63)
    (run : List PoolCall) (hrun : ∀ c ∈ run, c.fits) :
    let s := exec step (Session.start size) run
    (∀ request header, 0 < request → request < 2 ^ 64 →
      ((alloc s.pool request header = none ↔
          ∀ b ∈ s.pool.blocks, b.used = false → b.size < roundUp request) ↔
        (request ≤ maxRequest ∨ ∀ b ∈ s.pool.blocks, b.used = true))) ∧
    ∀ order : List Nat, (∀ e ∈ s.lent, e.1 ∈ order) →
      order.foldl free s.pool = init size ∧
        ((order.foldl free s.pool).blocks = [⟨0, size, false⟩] ↔ 2 ∣ size) := by
  intro s
  have hinv : s.Inv size := (throughout_inv size hrun).last
  have hwf := hinv.packed.wf
  have htotal := hinv.total
  constructor
  · intro request header hpos hlt
    rw [alloc_eq_none hwf (htotal.trans_le hsize) header hpos]
    by_cases hfits : request ≤ maxRequest
    · rw [alignSize_eq hfits]
      exact iff_of_true Iff.rfl (.inl hfits)
    · rw [alignSize_wraps (not_le.mp hfits) hlt]
      -- the rounded size exceeds every block, the wrapped one none
      have hlarge : ∀ b ∈ s.pool.blocks, b.used = false → b.size < roundUp request := by
        intro b hb _
        have hle := hwf.size_le hb
        have hround := le_roundUp request
        simp only [maxRequest, align] at hfits
        omega
      have hnone : (∀ b ∈ s.pool.blocks, b.used = false → b.size < 0) ↔
          ∀ b ∈ s.pool.blocks, b.used = true := by
        refine forall₂_congr fun b _ => ?_
        cases b.used <;> simp
      rw [hnone, iff_true_right hlarge]
      exact ⟨.inr, fun h => h.resolve_left hfits⟩
  · intro order hall
    obtain ⟨hpacked, hoffsets, hsame⟩ := hinv.packed.freeAll order
    have hempty : (order.foldl free s.pool).usedOffsets = ∅ := by
      refine Set.eq_empty_iff_forall_notMem.mpr fun o ho => ?_
      obtain ⟨hlent, hnot⟩ := (hoffsets o).mp ho
      obtain ⟨e, he, rfl⟩ := mem_map.mp ((hinv.offsets o).mp hlent)
      exact hnot (hall e he)
    have hinit : order.foldl free s.pool = init size := by
      have heq := hpacked.eq_init hempty
      rwa [hsame, htotal] at heq
    refine ⟨hinit, ?_⟩
    rw [hinit]
    simp only [init, Pool.insertFree, cons.injEq, Block.mk.injEq, and_true, true_and]
    omega

/-- A run that lends, gives back and asks for too much: the conditions can be met. -/
theorem alloc_fails_iff_on_small_pool :
    let s := exec step (Session.start 256) [.alloc 100 true, .alloc 1 true, .free 0]
    alloc s.pool 200 true = none ∧ ([64, 128].foldl free s.pool).blocks = [⟨0, 256, false⟩] := by
  have h := alloc_fails_iff_and_free_coalesces 256 (by decide)
    [.alloc 100 true, .alloc 1 true, .free 0] (by decide)
  refine ⟨((h.1 200 true (by decide) (by decide)).mpr (.inl (by decide))).mpr ?_, ?_⟩
  · decide
  · exact (h.2 [64, 128] (by decide)).2.mpr (by decide)

/-- `tlsf_alloc(2^64 - 1)` on a fresh pool of 64 bytes hands out offset 0. -/
theorem alloc_succeeds_without_block :
    ¬ ∀ (size : Nat) (run : List PoolCall) (request : Nat) (header : Bool), size ≤ 2 ^ 63 →
      0 < request → request < 2 ^ 64 →
      (alloc (exec step (Session.start size) run).pool request header = none ↔
        ∀ b ∈ (exec step (Session.start size) run).pool.blocks,
          b.used = false → b.size < roundUp request) := by
  intro h
  have hfail := (h 64 [] (2 ^ 64 - 1) true (by decide) (by decide) (by decide)).mpr (by decide)
  exact absurd hfail (by decide)

end UbsVirt.Enpu.Tlsf
