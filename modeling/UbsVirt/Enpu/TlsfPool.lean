import Mathlib.Data.List.Nodup
import Mathlib.Data.Set.Insert
import UbsVirt.Enpu.Tlsf
import UbsVirt.Lib.Tiling

/-!
# The swap-buffer pool is well formed

The physical chain tiles the buffer, the free lists hold exactly the free blocks, each in
the list of its size class, the used list holds the others, and `total_used` is their size.
Allocating and freeing keep this, and change the offsets in use by exactly the one that is
handed out or given back.
-/

namespace UbsVirt.Enpu.Tlsf

open Tiling List Block Pool

/-- The free lists hold the blocks `F`, each once and in the list of its size class. -/
structure FreeLists (p : Pool) (F : Block → Prop) : Prop where
  mem : ∀ fl sl o, o ∈ p.freeList fl sl ↔ ∃ b, F b ∧ b.offset = o ∧ calcFlSl b.size = (fl, sl)
  nodup : ∀ fl sl, (p.freeList fl sl).Nodup

namespace FreeLists

variable {p : Pool} {F G : Block → Prop} {b : Block}

theorem congr (h : FreeLists p F) (hFG : ∀ x, F x ↔ G x) : FreeLists p G where
  mem fl sl o := by
    rw [h.mem]
    simp only [hFG]
  nodup := h.nodup

theorem removeFree (h : FreeLists p F) (hb : F b) (hinj : ∀ x, F x → x.offset = b.offset → x = b) :
    FreeLists (p.removeFree b) (fun x => F x ∧ x ≠ b) where
  mem fl sl o := by
    simp only [Pool.removeFree]
    split
    · next hc =>
      rw [(h.nodup fl sl).mem_erase_iff, h.mem]
      constructor
      · rintro ⟨hne, x, hx, rfl, hclass⟩
        exact ⟨x, ⟨hx, fun hxb => hne (by rw [hxb])⟩, rfl, hclass⟩
      · rintro ⟨x, ⟨hx, hxb⟩, rfl, hclass⟩
        exact ⟨fun hoff => hxb (hinj x hx hoff), x, hx, rfl, hclass⟩
    · next hc =>
      rw [h.mem]
      constructor
      · rintro ⟨x, hx, hoff, hclass⟩
        refine ⟨x, ⟨hx, ?_⟩, hoff, hclass⟩
        rintro rfl
        exact hc ⟨by rw [hclass], by rw [hclass]⟩
      · rintro ⟨x, ⟨hx, -⟩, hoff, hclass⟩
        exact ⟨x, hx, hoff, hclass⟩
  nodup fl sl := by
    simp only [Pool.removeFree]
    split
    · exact (h.nodup fl sl).erase _
    · exact h.nodup fl sl

theorem insertFree (h : FreeLists p F) (hfresh : ∀ x, F x → x.offset ≠ b.offset) :
    FreeLists (p.insertFree b) (fun x => F x ∨ x = b) where
  mem fl sl o := by
    simp only [Pool.insertFree]
    split
    · next hc =>
      rw [mem_cons, h.mem]
      constructor
      · rintro (rfl | ⟨x, hx, hoff, hclass⟩)
        · exact ⟨b, .inr rfl, rfl, by rw [hc.1, hc.2]⟩
        · exact ⟨x, .inl hx, hoff, hclass⟩
      · rintro ⟨x, hx | rfl, hoff, hclass⟩
        · exact .inr ⟨x, hx, hoff, hclass⟩
        · exact .inl hoff.symm
    · next hc =>
      rw [h.mem]
      constructor
      · rintro ⟨x, hx, hoff, hclass⟩
        exact ⟨x, .inl hx, hoff, hclass⟩
      · rintro ⟨x, hx | rfl, hoff, hclass⟩
        · exact ⟨x, hx, hoff, hclass⟩
        · exact absurd ⟨by rw [hclass], by rw [hclass]⟩ hc
  nodup fl sl := by
    simp only [Pool.insertFree]
    split
    · refine nodup_cons.mpr ⟨fun hmem => ?_, h.nodup fl sl⟩
      obtain ⟨x, hx, hoff, -⟩ := (h.mem fl sl b.offset).mp hmem
      exact hfresh x hx hoff
    · exact h.nodup fl sl

end FreeLists

/-- A well-formed pool. -/
structure Pool.WF (p : Pool) : Prop where
  initialized : p.initialized = true
  tiles : Tiles offset Block.size 0 p.blocks
  nodup : (p.blocks.map offset).Nodup
  free : FreeLists p fun b => b ∈ p.blocks ∧ b.used = false
  used : ∀ o, o ∈ p.usedList ↔ ∃ b ∈ p.blocks, b.used = true ∧ b.offset = o
  usedNodup : p.usedList.Nodup
  pos : ∀ b ∈ p.blocks, b.used = true → 0 < b.size
  inside : span Block.size p.blocks ≤ p.totalSize
  total : p.totalUsed = span Block.size p.usedBlocks

def Pool.usedOffsets (p : Pool) : Set Nat :=
  {o | ∃ b ∈ p.usedBlocks, b.offset = o}

variable {p : Pool}

theorem mem_usedOffsets {o : Nat} : o ∈ p.usedOffsets ↔ ∃ b ∈ p.usedBlocks, b.offset = o := Iff.rfl

variable {b : Block}

theorem mem_usedBlocks : b ∈ p.usedBlocks ↔ b ∈ p.blocks ∧ b.used = true := by
  simp [usedBlocks]

theorem wf_init (size : Nat) : (init size).WF where
  initialized := rfl
  tiles := ⟨rfl, trivial⟩
  nodup := nodup_singleton _
  free := by
    have hempty : FreeLists ⟨true, [⟨0, size / 2 * 2, false⟩], fun _ _ => [], [], size, 0⟩
        (fun _ => False) := ⟨by simp, fun _ _ => nodup_nil⟩
    refine (hempty.insertFree (b := ⟨0, size / 2 * 2, false⟩) fun _ h => h.elim).congr fun x => ?_
    simp only [init, Pool.insertFree, mem_singleton, false_or]
    exact ⟨fun h => ⟨h, by rw [h]⟩, fun h => h.1⟩
  used o := by simp [init, Pool.insertFree]
  usedNodup := nodup_nil
  pos b hb hused := by
    simp only [init, Pool.insertFree, mem_singleton] at hb
    rw [hb] at hused
    cases hused
  inside := by
    simp only [init, Pool.insertFree, span_cons, span_nil]
    omega
  total := rfl

variable {size : Nat}

namespace Pool.WF

variable {p : Pool}

theorem eq_of_offset (h : p.WF) {c : Block} (hb : b ∈ p.blocks) (hc : c ∈ p.blocks)
    (hoff : b.offset = c.offset) : b = c :=
  inj_on_of_nodup_map h.nodup hb hc hoff

theorem blockAt_of_mem (h : p.WF) (hb : b ∈ p.blocks) : p.blockAt b.offset = some b := by
  cases hfind : p.blockAt b.offset with
  | none =>
    have hne := find?_eq_none.mp hfind b hb
    simp at hne
  | some c =>
    have hc := mem_of_find?_eq_some hfind
    have hoff : c.offset = b.offset := by simpa using find?_some hfind
    rw [h.eq_of_offset hc hb hoff]

theorem findBlock_spec (h : p.WF) (hb : p.findBlock size = some b) :
    b ∈ p.blocks ∧ b.used = false ∧ size ≤ b.size := by
  simp only [findBlock] at hb
  obtain ⟨fl, -, hfl⟩ := exists_of_findSome?_eq_some hb
  obtain ⟨sl, -, hsl⟩ := exists_of_findSome?_eq_some hfl
  obtain ⟨o, ho, hblock⟩ := exists_of_findSome?_eq_some hsl
  obtain ⟨c, ⟨hc, hfree⟩, rfl, -⟩ := (h.free.mem fl sl o).mp ho
  rw [h.blockAt_of_mem hc, Option.filter_eq_some_iff, Option.some.injEq] at hblock
  obtain ⟨rfl, hsize⟩ := hblock
  exact ⟨hc, hfree, of_decide_eq_true hsize⟩

/-- The offsets around a block of the chain. -/
theorem split (h : p.WF) (hb : b ∈ p.blocks) :
    ∃ xs ys, p.blocks = xs ++ b :: ys ∧ (∀ x ∈ xs, x.offset ≠ b.offset) ∧
      ∀ y ∈ ys, y.offset ≠ b.offset := by
  obtain ⟨xs, ys, hblocks⟩ := append_of_mem hb
  have hnodup := h.nodup
  rw [hblocks, map_append, map_cons, nodup_middle, nodup_cons, mem_append, not_or] at hnodup
  refine ⟨xs, ys, hblocks, fun x hx hoff => ?_, fun y hy hoff => ?_⟩
  · exact hnodup.1.1 (mem_map.mpr ⟨x, hx, hoff⟩)
  · exact hnodup.1.2 (mem_map.mpr ⟨y, hy, hoff⟩)

end Pool.WF

/-! ### Allocating -/

variable {xs : List Block}

theorem replaceAt_of_ne {offset : Nat} (mid : List Block) (h : ∀ x ∈ xs, x.offset ≠ offset) :
    replaceAt offset mid xs = xs := by
  induction xs with
  | nil => rfl
  | cons x xs ih =>
    have hx := h x (mem_cons_self ..)
    have hxs := ih fun y hy => h y (mem_cons_of_mem _ hy)
    unfold replaceAt at hxs ⊢
    rw [flatMap_cons, hxs, if_neg hx, singleton_append]

theorem replaceAt_split {mid ys : List Block} (hx : ∀ x ∈ xs, x.offset ≠ b.offset)
    (hy : ∀ y ∈ ys, y.offset ≠ b.offset) :
    replaceAt b.offset mid (xs ++ b :: ys) = xs ++ mid ++ ys := by
  have hxs := replaceAt_of_ne mid hx
  have hys := replaceAt_of_ne mid hy
  unfold replaceAt at hxs hys ⊢
  rw [flatMap_append, flatMap_cons, hxs, hys, if_pos rfl, append_assoc]

/-- The pool after block `b` of `p` was taken out, cut into `kept` and `rest`, and `kept`
handed out. -/
def Pool.place (p : Pool) (b kept : Block) (rest : Option Block) : Pool :=
  let p₁ := p.removeFree b
  let p₂ := match rest with
    | none => p₁
    | some r => p₁.insertFree r
  { p₂ with
    blocks := replaceAt b.offset (kept :: rest.toList) p.blocks
    usedList := b.offset :: p.usedList
    totalUsed := p.totalUsed + kept.size }

/-- How a free block is cut: the part handed out comes first, the remainder is free. -/
structure Cut (b kept : Block) (rest : Option Block) : Prop where
  offset : kept.offset = b.offset
  used : kept.used = true
  pos : 0 < kept.size
  remainder : ∀ r ∈ rest, r.used = false ∧ r.offset = b.offset + kept.size ∧ 0 < r.size
  size : kept.size + span Block.size rest.toList = b.size

theorem cut_splitBlock {need : Nat} (header : Bool) (hpos : 0 < need) (hneed : need ≤ b.size) :
    Cut b { (splitBlock header b need).1 with used := true } (splitBlock header b need).2 := by
  simp only [splitBlock]
  split
  · exact ⟨rfl, rfl, hpos.trans_le hneed, by simp, by simp⟩
  split
  · exact ⟨rfl, rfl, hpos.trans_le hneed, by simp, by simp⟩
  · next hremain _ =>
    refine ⟨rfl, rfl, hpos, ?_, ?_⟩
    · intro r hr
      cases hr
      refine ⟨rfl, rfl, ?_⟩
      simp only [align] at hremain
      change 0 < b.size - need
      omega
    · simp only [Option.toList_some, span_cons, span_nil]
      omega

section

variable {p : Pool} {b kept : Block} {rest : Option Block} {xs ys : List Block}

theorem place_blocks (hblocks : p.blocks = xs ++ b :: ys) (hx : ∀ x ∈ xs, x.offset ≠ b.offset)
    (hy : ∀ y ∈ ys, y.offset ≠ b.offset) :
    (p.place b kept rest).blocks = xs ++ (kept :: rest.toList) ++ ys := by
  rw [← replaceAt_split hx hy, ← hblocks]
  rfl

section

variable (h : p.WF) (hblocks : p.blocks = xs ++ b :: ys)
include h hblocks

/-- The remainder starts at an offset where no block started. -/
theorem rest_fresh (hc : Cut b kept rest)
    {r x : Block} (hr : r ∈ rest) (hx : x ∈ p.blocks) : x.offset ≠ r.offset := by
  obtain ⟨-, hoff, hrpos⟩ := hc.remainder r hr
  have hspan : span Block.size rest.toList = r.size := by
    rw [Option.mem_def.mp hr, Option.toList_some, span_cons, span_nil, Nat.add_zero]
  have hsize := hc.size
  have hpos := hc.pos
  have htiles := hblocks ▸ h.tiles
  rw [hblocks, mem_append, mem_cons] at hx
  rcases hx with hx | rfl | hx
  · have := htiles.before hx
    omega
  · omega
  · have := htiles.after hx
    omega

/-- Placing a cut block keeps the free lists exact. -/
theorem freeLists_place (hx : ∀ x ∈ xs, x.offset ≠ b.offset) (hy : ∀ y ∈ ys, y.offset ≠ b.offset)
    (hfree : b.used = false) (hc : Cut b kept rest) :
    FreeLists (p.place b kept rest) fun x => x ∈ (p.place b kept rest).blocks ∧ x.used = false := by
  have hb : b ∈ p.blocks := by rw [hblocks]; simp
  have hremoved : FreeLists (p.removeFree b) fun x => (x ∈ p.blocks ∧ x.used = false) ∧ x ≠ b :=
    h.free.removeFree ⟨hb, hfree⟩ fun x hx hoff => h.eq_of_offset hx.1 hb hoff
  have hold : ∀ x, x ∈ p.blocks ∧ x ≠ b ↔ x ∈ xs ∨ x ∈ ys := by
    intro x
    rw [hblocks, mem_append, mem_cons]
    constructor
    · rintro ⟨hx' | rfl | hy', hne⟩
      · exact .inl hx'
      · exact absurd rfl hne
      · exact .inr hy'
    · rintro (hx' | hy')
      · exact ⟨.inl hx', fun hxb => hx x hx' (by rw [hxb])⟩
      · exact ⟨.inr (.inr hy'), fun hxb => hy x hy' (by rw [hxb])⟩
  have hnew : ∀ x, x ∈ (p.place b kept rest).blocks ∧ x.used = false ↔
      ((x ∈ p.blocks ∧ x.used = false) ∧ x ≠ b) ∨ x ∈ rest := by
    intro x
    rw [place_blocks hblocks hx hy, and_right_comm, hold]
    simp only [mem_append, mem_cons, Option.mem_toList]
    constructor
    · rintro ⟨(hx' | rfl | hr) | hy', hu⟩
      · exact .inl ⟨.inl hx', hu⟩
      · rw [hc.used] at hu; cases hu
      · exact .inr hr
      · exact .inl ⟨.inr hy', hu⟩
    · rintro (⟨hx' | hy', hu⟩ | hr)
      · exact ⟨.inl (.inl hx'), hu⟩
      · exact ⟨.inr hy', hu⟩
      · exact ⟨.inl (.inr (.inr hr)), (hc.remainder x hr).1⟩
  cases rest with
  | none =>
    have hsame : FreeLists (p.place b kept none) fun x =>
        (x ∈ p.blocks ∧ x.used = false) ∧ x ≠ b := ⟨hremoved.mem, hremoved.nodup⟩
    exact hsame.congr fun x => by simp [hnew x]
  | some r =>
    have hinserted := hremoved.insertFree (b := r) fun x hx' =>
      rest_fresh h hblocks hc rfl hx'.1.1
    have hsame : FreeLists (p.place b kept (some r)) fun x =>
        ((x ∈ p.blocks ∧ x.used = false) ∧ x ≠ b) ∨ x = r := ⟨hinserted.mem, hinserted.nodup⟩
    refine hsame.congr fun x => ?_
    rw [hnew x, Option.mem_def, Option.some.injEq, eq_comm (a := r)]

omit h hblocks in
theorem usedBlocks_place (hblocks : p.blocks = xs ++ b :: ys)
    (hx : ∀ x ∈ xs, x.offset ≠ b.offset) (hy : ∀ y ∈ ys, y.offset ≠ b.offset)
    (hfree : b.used = false) (hc : Cut b kept rest) :
    p.usedBlocks = xs.filter (·.used) ++ ys.filter (·.used) ∧
      (p.place b kept rest).usedBlocks = xs.filter (·.used) ++ kept :: ys.filter (·.used) := by
  have hrest : rest.toList.filter (·.used) = [] := by
    rw [filter_eq_nil_iff]
    intro r hr
    rw [(hc.remainder r (Option.mem_toList.mp hr)).1]
    exact Bool.false_ne_true
  unfold usedBlocks
  rw [place_blocks hblocks hx hy, hblocks]
  simp [hfree, hc.used, hrest]

omit h hblocks in
theorem place_fields : (p.place b kept rest).initialized = p.initialized ∧
    (p.place b kept rest).totalSize = p.totalSize := by
  cases rest <;> exact ⟨rfl, rfl⟩

theorem nodup_place (hc : Cut b kept rest) :
    ((xs ++ (kept :: rest.toList) ++ ys).map offset).Nodup := by
  have hold := h.nodup
  rw [hblocks] at hold
  cases rest with
  | none => simpa [hc.offset] using hold
  | some r =>
    have hsplit : (xs ++ (kept :: (some r).toList) ++ ys).map offset =
        (xs ++ [b]).map offset ++ r.offset :: ys.map offset := by
      simp [hc.offset]
    rw [hsplit, nodup_middle, nodup_cons, ← map_append, ← append_cons]
    refine ⟨fun hmem => ?_, hold⟩
    obtain ⟨x, hx, hoff⟩ := mem_map.mp hmem
    exact rest_fresh h hblocks hc rfl (hblocks ▸ hx) hoff

theorem tiles_place (hc : Cut b kept rest) :
    Tiles offset Block.size 0 (xs ++ (kept :: rest.toList) ++ ys) := by
  have htiles := hblocks ▸ h.tiles
  have hmiddle := htiles.middle
  rw [append_cons] at htiles
  refine htiles.replace _ ⟨hc.offset.trans hmiddle.1, ?_⟩ ?_
  · cases rest with
    | none => trivial
    | some r =>
      have hr := (hc.remainder r rfl).2.1
      exact ⟨by rw [hr, hmiddle.1], trivial⟩
  · rw [span_cons, hc.size, span_cons, span_nil, Nat.add_zero]

end

theorem span_place (hblocks : p.blocks = xs ++ b :: ys) (hc : Cut b kept rest) :
    span Block.size (xs ++ (kept :: rest.toList) ++ ys) = span Block.size p.blocks := by
  have hsize := hc.size
  rw [hblocks]
  simp only [span_append, span_cons]
  omega

/-- Placing a cut block keeps the pool well formed. -/
theorem wf_place (h : p.WF) (hb : b ∈ p.blocks) (hfree : b.used = false) (hc : Cut b kept rest) :
    (p.place b kept rest).WF := by
  obtain ⟨xs, ys, hblocks, hx, hy⟩ := h.split hb
  have hnew := @place_blocks p b kept rest xs ys hblocks hx hy
  have hused := usedBlocks_place hblocks hx hy hfree hc
  have hmem : ∀ x, x ∈ (p.place b kept rest).blocks ∧ x.used = true ↔
      x = kept ∨ x ∈ p.blocks ∧ x.used = true := by
    intro x
    rw [← mem_usedBlocks, ← mem_usedBlocks, hused.1, hused.2, mem_append, mem_cons, mem_append]
    tauto
  refine ⟨place_fields.1.trans h.initialized, ?_, ?_, freeLists_place h hblocks hx hy hfree hc,
    fun o => ?_, ?_, fun x hx' hu => ?_, ?_, ?_⟩
  · rw [hnew]; exact tiles_place h hblocks hc
  · rw [hnew]; exact nodup_place h hblocks hc
  · change o ∈ b.offset :: p.usedList ↔ _
    simp only [← and_assoc, hmem]
    rw [mem_cons, h.used]
    constructor
    · rintro (rfl | ⟨x, hx', hu, rfl⟩)
      · exact ⟨kept, .inl rfl, hc.offset⟩
      · exact ⟨x, .inr ⟨hx', hu⟩, rfl⟩
    · rintro ⟨x, rfl | ⟨hx', hu⟩, rfl⟩
      · exact .inl hc.offset
      · exact .inr ⟨x, hx', hu, rfl⟩
  · refine nodup_cons.mpr ⟨fun hmem' => ?_, h.usedNodup⟩
    obtain ⟨x, hx', hu, hoff⟩ := (h.used b.offset).mp hmem'
    rw [h.eq_of_offset hx' hb hoff, hfree] at hu
    cases hu
  · rcases (hmem x).mp ⟨hx', hu⟩ with rfl | ⟨hold, -⟩
    · exact hc.pos
    · exact h.pos x hold hu
  · rw [place_fields.2, hnew, span_place hblocks hc]
    exact h.inside
  · change p.totalUsed + kept.size = _
    rw [h.total, hused.1, hused.2]
    simp only [span_append, span_cons]
    omega

theorem usedOffsets_place (h : p.WF) (hb : b ∈ p.blocks) (hfree : b.used = false)
    (hc : Cut b kept rest) :
    (p.place b kept rest).usedOffsets = insert b.offset p.usedOffsets := by
  obtain ⟨xs, ys, hblocks, hx, hy⟩ := h.split hb
  obtain ⟨hold, hnew⟩ := usedBlocks_place hblocks hx hy hfree hc
  ext o
  rw [Set.mem_insert_iff, mem_usedOffsets, mem_usedOffsets, hold, hnew]
  simp only [mem_append, mem_cons]
  constructor
  · rintro ⟨x, hx' | rfl | hy', rfl⟩
    · exact .inr ⟨x, .inl hx', rfl⟩
    · exact .inl hc.offset
    · exact .inr ⟨x, .inr hy', rfl⟩
  · rintro (rfl | ⟨x, hx' | hy', rfl⟩)
    · exact ⟨kept, .inr (.inl rfl), hc.offset⟩
    · exact ⟨x, .inl hx', rfl⟩
    · exact ⟨x, .inr (.inr hy'), rfl⟩

end

/-- Allocating fails when no block is found, and otherwise cuts the block it found. -/
theorem alloc_eq (header : Bool) (hinit : p.initialized = true) (hsize : size ≠ 0) :
    alloc p size header = (p.findBlock (alignSize size)).map fun b =>
      (b.offset, p.place b { (splitBlock header b (alignSize size)).1 with used := true }
        (splitBlock header b (alignSize size)).2) := by
  unfold alloc
  rw [if_neg (by simp [hinit, hsize])]
  dsimp only
  cases p.findBlock (alignSize size) with
  | none => rfl
  | some b => rfl

variable {off : Nat}

/-- What a successful allocation did. -/
theorem alloc_eq_some {p' : Pool} {header : Bool} (h : p.WF)
    (hsize : 0 < alignSize size) (halloc : alloc p size header = some (off, p')) :
    ∃ b kept rest, b ∈ p.blocks ∧ b.used = false ∧ Cut b kept rest ∧ off = b.offset ∧
      p' = p.place b kept rest ∧ alignSize size ≤ kept.size := by
  have hzero : size ≠ 0 := by
    rintro rfl
    exact absurd hsize (by decide)
  rw [alloc_eq header h.initialized hzero, Option.map_eq_some_iff] at halloc
  obtain ⟨b, hfind, hplace⟩ := halloc
  rw [Prod.mk.injEq] at hplace
  obtain ⟨hb, hfree, hle⟩ := h.findBlock_spec hfind
  refine ⟨b, _, _, hb, hfree, cut_splitBlock header hsize hle, hplace.1.symm, hplace.2.symm, ?_⟩
  simp only [splitBlock]
  split
  · exact hle
  · split
    · exact hle
    · exact le_rfl

/-- Allocating hands out an offset that was not in use. -/
theorem alloc_spec {p' : Pool} {header : Bool} (h : p.WF)
    (hsize : 0 < alignSize size) (halloc : alloc p size header = some (off, p')) :
    p'.WF ∧ off ∉ p.usedOffsets ∧ p'.usedOffsets = insert off p.usedOffsets := by
  obtain ⟨b, kept, rest, hb, hfree, hc, rfl, rfl, -⟩ := alloc_eq_some h hsize halloc
  refine ⟨wf_place h hb hfree hc, ?_, usedOffsets_place h hb hfree hc⟩
  rintro ⟨x, hx, hoff⟩
  rw [mem_usedBlocks] at hx
  rw [h.eq_of_offset hx.1 hb hoff, hfree] at hx
  cases hx.2

/-! ### Freeing -/

/-- A free block that is not in the lists yet, between the blocks before and after it. -/
structure Merging (p : Pool) (xs : List Block) (b : Block) (ys : List Block) : Prop where
  tiles : Tiles offset Block.size 0 (xs ++ b :: ys)
  nodup : ((xs ++ b :: ys).map offset).Nodup
  free : FreeLists p fun x => (x ∈ xs ∨ x ∈ ys) ∧ x.used = false
  unused : b.used = false

/-- What merging with a neighbour keeps. -/
structure Merged (p : Pool) (xs : List Block) (b : Block) (ys : List Block)
    (p' : Pool) (xs' : List Block) (b' : Block) (ys' : List Block) : Prop where
  merging : Merging p' xs' b' ys'
  used : xs'.filter (·.used) ++ ys'.filter (·.used) = xs.filter (·.used) ++ ys.filter (·.used)
  span : span Block.size (xs' ++ b' :: ys') = span Block.size (xs ++ b :: ys)
  pool : ∃ lists, p' = { p with freeList := lists }

section

variable {p : Pool} {b : Block} {xs ys : List Block}

theorem Merging.refl (h : Merging p xs b ys) : Merged p xs b ys p xs b ys :=
  ⟨h, rfl, rfl, p.freeList, rfl⟩

/-- A neighbour leaves its free list. -/
theorem Merging.removeFree {q : Block} {us vs : List Block} (h : Merging p xs b ys)
    (hrest : xs ++ ys = us ++ q :: vs) (hq : q.used = false) :
    FreeLists (p.removeFree q) fun x => (x ∈ us ∨ x ∈ vs) ∧ x.used = false := by
  have hmem : ∀ x, x ∈ xs ∨ x ∈ ys ↔ x ∈ us ++ q :: vs := fun x => by rw [← hrest, mem_append]
  have hnodup : ((us ++ q :: vs).map offset).Nodup := by
    rw [← hrest]
    exact h.nodup.sublist (((sublist_cons_self b ys).append_left xs).map _)
  refine (h.free.removeFree ⟨(hmem q).mpr (by simp), hq⟩ fun x hx hoff => ?_).congr fun x => ?_
  · exact inj_on_of_nodup_map hnodup ((hmem x).mp hx.1) (by simp) hoff
  · have hout := (nodup_cons.mp (nodup_middle.mp hnodup.of_map)).1
    have hne : x ∈ us ∨ x ∈ vs → x ≠ q := fun hx heq => hout (heq ▸ mem_append.mpr hx)
    rw [hmem, mem_append, mem_cons]
    tauto

/-- The free block `a` takes in the block `b` behind it. One of the two is the block being freed,
the other one, `q`, leaves its list. -/
theorem Merging.absorb {a c q : Block} {us vs : List Block} (h : Merging p xs c ys)
    (hlist : xs ++ c :: ys = us ++ a :: b :: vs) (hrest : xs ++ ys = us ++ q :: vs)
    (ha : a.used = false) (hq : q.used = false) :
    Merged p xs c ys (p.removeFree q) us { a with size := a.size + b.size } vs := by
  have hnodup := h.nodup
  have htiles := h.tiles
  rw [hlist] at hnodup htiles
  refine ⟨⟨?_, ?_, h.removeFree hrest hq, ha⟩, ?_, ?_, _, rfl⟩
  · have haAt := htiles.middle.1
    have hpair : us ++ a :: b :: vs = us ++ [a, b] ++ vs := by simp
    rw [hpair] at htiles
    simpa using htiles.replace [{ a with size := a.size + b.size }] ⟨haAt, trivial⟩ (by simp)
  · refine hnodup.sublist ?_
    simp only [map_append, map_cons]
    exact (Sublist.cons_cons _ (sublist_cons_self _ _)).append_left _
  · rw [← filter_append, ← filter_append, hrest]
    simp [hq]
  · rw [hlist]
    simp only [span_append, span_cons]
    omega

theorem mergePrev_spec (h : Merging p xs b ys) :
    Merged p xs b ys (mergePrev p xs.reverse b).1 (mergePrev p xs.reverse b).2.1.reverse
      (mergePrev p xs.reverse b).2.2 ys := by
  rcases eq_nil_or_concat xs with rfl | ⟨us, prev, rfl⟩
  · exact h.refl
  rw [concat_eq_append] at h ⊢
  rw [reverse_append, reverse_singleton, singleton_append]
  simp only [mergePrev]
  split
  · simpa using h.refl
  next hprev =>
  rw [Bool.not_eq_true] at hprev
  simp only [reverse_reverse]
  exact h.absorb (by simp) (by simp) hprev hprev

theorem mergeNext_spec (h : Merging p xs b ys) :
    Merged p xs b ys (mergeNext p ys b).1 xs (mergeNext p ys b).2.2 (mergeNext p ys b).2.1 := by
  cases ys with
  | nil => exact h.refl
  | cons next ys =>
    simp only [mergeNext]
    split
    · exact h.refl
    next hnext =>
    rw [Bool.not_eq_true] at hnext
    exact h.absorb rfl rfl h.unused hnext

theorem Merged.trans {p₁ p₂ : Pool} {b₁ b₂ : Block} {xs₁ xs₂ ys₁ ys₂ : List Block}
    (h₁ : Merged p xs b ys p₁ xs₁ b₁ ys₁) (h₂ : Merged p₁ xs₁ b₁ ys₁ p₂ xs₂ b₂ ys₂) :
    Merged p xs b ys p₂ xs₂ b₂ ys₂ where
  merging := h₂.merging
  used := h₂.used.trans h₁.used
  span := h₂.span.trans h₁.span
  pool := by
    obtain ⟨lists₁, rfl⟩ := h₁.pool
    obtain ⟨lists₂, rfl⟩ := h₂.pool
    exact ⟨lists₂, rfl⟩

end

/-- Merge with both neighbours. -/
theorem merge_spec {ys : List Block} (h : Merging p xs b ys) : let r₁ := mergePrev p xs.reverse b
    let r₂ := mergeNext r₁.1 ys r₁.2.2
    Merged p xs b ys r₂.1 r₁.2.1.reverse r₂.2.2 r₂.2.1 :=
  (mergePrev_spec h).trans (mergeNext_spec (mergePrev_spec h).merging)

/-- The pool in which the block of `p` at `off` is no longer used, before it is merged. -/
def Pool.unuse (p : Pool) (b : Block) : Pool :=
  { p with
    usedList := p.usedList.erase b.offset
    totalUsed := p.totalUsed - b.size }

def Pool.settle (p : Pool) (xs : List Block) (b : Block) (ys : List Block) : Pool :=
  ({ p with blocks := xs ++ b :: ys }).insertFree b

section

variable {p : Pool} {b : Block} {xs ys : List Block}

theorem free_eq (h : p.WF) (hblocks : p.blocks = xs ++ b :: ys)
    (hx : ∀ x ∈ xs, x.offset ≠ b.offset) (hused : b.used = true) :
    free p b.offset =
      let r₁ := mergePrev (p.unuse b) xs.reverse { b with used := false }
      let r₂ := mergeNext r₁.1 ys r₁.2.2
      r₂.1.settle r₁.2.1.reverse r₂.2.2 r₂.2.1 := by
  have hb : b ∈ p.blocks := by rw [hblocks]; simp
  have hlt : ¬ p.totalSize ≤ b.offset := by
    have hbounds := h.tiles.bounds hb
    have hinside := h.inside
    have hpos := h.pos b hb hused
    omega
  have hfind : p.findByOffset b.offset = some b := by
    unfold findByOffset
    rw [if_pos ((h.used b.offset).mpr ⟨b, hb, hused, rfl⟩), h.blockAt_of_mem hb]
  have hbefore : p.blocks.takeWhile (·.offset != b.offset) = xs := by
    rw [hblocks, takeWhile_append_of_pos fun x hx' => by simpa using hx x hx']
    simp
  have hafter : (p.blocks.dropWhile (·.offset != b.offset)).tail = ys := by
    rw [hblocks, dropWhile_append_of_pos fun x hx' => by simpa using hx x hx']
    simp
  unfold free
  rw [if_neg (by simp [h.initialized, hlt]), hfind]
  dsimp only
  rw [if_neg (by simp [hused]), hbefore, hafter]
  rfl

theorem merging_unuse (h : p.WF) (hblocks : p.blocks = xs ++ b :: ys) (hused : b.used = true) :
    Merging (p.unuse b) xs { b with used := false } ys := by
  have htiles := h.tiles
  have hnodup := h.nodup
  rw [hblocks] at htiles hnodup
  refine ⟨?_, ?_, ?_, rfl⟩
  · rw [tiles_append] at htiles ⊢
    exact htiles
  · rw [map_append] at hnodup ⊢
    exact hnodup
  · have hsame : FreeLists (p.unuse b) fun x => x ∈ p.blocks ∧ x.used = false :=
      ⟨h.free.mem, h.free.nodup⟩
    refine hsame.congr fun x => ?_
    rw [hblocks, mem_append, mem_cons]
    constructor
    · rintro ⟨hx | rfl | hx, hu⟩
      · exact ⟨.inl hx, hu⟩
      · rw [hused] at hu; cases hu
      · exact ⟨.inr hx, hu⟩
    · rintro ⟨hx | hx, hu⟩
      · exact ⟨.inl hx, hu⟩
      · exact ⟨.inr (.inr hx), hu⟩

theorem usedBlocks_settle (h : Merging p xs b ys) :
    (p.settle xs b ys).usedBlocks = xs.filter (·.used) ++ ys.filter (·.used) := by
  change (xs ++ b :: ys).filter (·.used) = _
  rw [filter_append, filter_cons_of_neg (by simp [h.unused])]

theorem freeLists_settle (h : Merging p xs b ys) :
    FreeLists (p.settle xs b ys) fun x => x ∈ (p.settle xs b ys).blocks ∧ x.used = false := by
  have hfresh : ∀ x, (x ∈ xs ∨ x ∈ ys) ∧ x.used = false → x.offset ≠ b.offset := by
    rintro x ⟨hx, -⟩ hoff
    have hnodup := h.nodup
    rw [map_append, map_cons, nodup_middle, nodup_cons, ← map_append]
      at hnodup
    exact hnodup.1 (mem_map.mpr ⟨x, mem_append.mpr hx, hoff⟩)
  have hinserted := h.free.insertFree hfresh
  have hsame : FreeLists (p.settle xs b ys) fun x => ((x ∈ xs ∨ x ∈ ys) ∧ x.used = false) ∨ x = b :=
    ⟨hinserted.mem, hinserted.nodup⟩
  refine hsame.congr fun x => ?_
  change _ ↔ x ∈ xs ++ b :: ys ∧ x.used = false
  rw [mem_append, mem_cons]
  constructor
  · rintro (⟨hx | hx, hu⟩ | rfl)
    · exact ⟨.inl hx, hu⟩
    · exact ⟨.inr (.inr hx), hu⟩
    · exact ⟨.inr (.inl rfl), h.unused⟩
  · rintro ⟨hx | rfl | hx, hu⟩
    · exact .inl ⟨.inl hx, hu⟩
    · exact .inr rfl
    · exact .inl ⟨.inr hx, hu⟩

/-- A used block is freed by merging it with its neighbours and putting the result into its
free list. -/
theorem free_merged (h : p.WF) (hblocks : p.blocks = xs ++ b :: ys)
    (hx : ∀ x ∈ xs, x.offset ≠ b.offset) (hused : b.used = true) :
    ∃ p' xs' b' ys', free p b.offset = p'.settle xs' b' ys' ∧
      Merged (p.unuse b) xs { b with used := false } ys p' xs' b' ys' :=
  ⟨_, _, _, _, free_eq h hblocks hx hused, merge_spec (merging_unuse h hblocks hused)⟩

/-- The used blocks that are left are the other ones. -/
theorem mem_usedBlocks_free (h : p.WF) (hb : b ∈ p.blocks) (hused : b.used = true) (x : Block) :
    x ∈ (free p b.offset).usedBlocks ↔ x ∈ p.usedBlocks ∧ x.offset ≠ b.offset := by
  obtain ⟨xs, ys, hblocks, hx, hy⟩ := h.split hb
  obtain ⟨p', xs', b', ys', heq, hm⟩ := free_merged h hblocks hx hused
  rw [heq, usedBlocks_settle hm.merging, hm.used]
  unfold usedBlocks
  rw [hblocks, filter_append, filter_cons_of_pos hused]
  simp only [mem_append, mem_cons, mem_filter]
  constructor
  · rintro (⟨hx', hu⟩ | ⟨hy', hu⟩)
    · exact ⟨.inl ⟨hx', hu⟩, hx x hx'⟩
    · exact ⟨.inr (.inr ⟨hy', hu⟩), hy x hy'⟩
  · rintro ⟨hx' | rfl | hy', hne⟩
    · exact .inl hx'
    · exact absurd rfl hne
    · exact .inr hy'

/-- Freeing a block in use keeps the pool well formed. -/
theorem wf_free (h : p.WF) (hb : b ∈ p.blocks) (hused : b.used = true) : (free p b.offset).WF := by
  have hmem := mem_usedBlocks_free h hb hused
  obtain ⟨xs, ys, hblocks, hx, -⟩ := h.split hb
  obtain ⟨p', xs', b', ys', heq, hm⟩ := free_merged h hblocks hx hused
  have hfree := freeLists_settle hm.merging
  have hnew : (p'.settle xs' b' ys').usedBlocks = xs.filter (·.used) ++ ys.filter (·.used) :=
    (usedBlocks_settle hm.merging).trans hm.used
  obtain ⟨lists, hpool⟩ := hm.pool
  rw [heq] at hmem ⊢
  refine ⟨?_, hm.merging.tiles, hm.merging.nodup, hfree, fun o => ?_, ?_, fun x hx' hu => ?_, ?_, ?_⟩
  · rw [hpool]; exact h.initialized
  · have hlist : (p'.settle xs' b' ys').usedList = p.usedList.erase b.offset := by
      rw [hpool]; rfl
    rw [hlist, h.usedNodup.mem_erase_iff, h.used]
    simp only [← and_assoc, ← mem_usedBlocks, hmem]
    constructor
    · rintro ⟨hne, x, hx', rfl⟩
      exact ⟨x, ⟨hx', hne⟩, rfl⟩
    · rintro ⟨x, ⟨hx', hne⟩, rfl⟩
      exact ⟨hne, x, hx', rfl⟩
  · rw [hpool]; exact h.usedNodup.erase _
  · have hx'' := ((hmem x).mp (mem_usedBlocks.mpr ⟨hx', hu⟩)).1
    exact h.pos x (mem_usedBlocks.mp hx'').1 hu
  · have hspan : span Block.size (p'.settle xs' b' ys').blocks = span Block.size p.blocks := by
      rw [hblocks]
      refine hm.span.trans ?_
      simp only [span_append, span_cons]
    rw [hspan, hpool]
    exact h.inside
  · have htotal : (p'.settle xs' b' ys').totalUsed = p.totalUsed - b.size := by
      rw [hpool]; rfl
    have hold : p.usedBlocks = xs.filter (·.used) ++ b :: ys.filter (·.used) := by
      unfold usedBlocks
      rw [hblocks, filter_append, filter_cons_of_pos hused]
    rw [htotal, h.total, hold, hnew]
    simp only [span_append, span_cons]
    omega

/-- Freeing takes an offset out of use. -/
theorem free_spec (h : p.WF) (hoff : off ∈ p.usedOffsets) :
    (free p off).WF ∧ (free p off).usedOffsets = p.usedOffsets \ {off} := by
  obtain ⟨b, hb, rfl⟩ := hoff
  obtain ⟨hb, hused⟩ := mem_usedBlocks.mp hb
  refine ⟨wf_free h hb hused, ?_⟩
  ext o
  rw [Set.mem_sdiff, Set.mem_singleton_iff, mem_usedOffsets, mem_usedOffsets]
  simp only [mem_usedBlocks_free h hb hused]
  constructor
  · rintro ⟨x, ⟨hx', hne⟩, rfl⟩
    exact ⟨⟨x, hx', rfl⟩, hne⟩
  · rintro ⟨⟨x, hx', rfl⟩, hne⟩
    exact ⟨x, ⟨hx', hne⟩, rfl⟩

end

end UbsVirt.Enpu.Tlsf
