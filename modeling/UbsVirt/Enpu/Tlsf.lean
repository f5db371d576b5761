import Mathlib.Algebra.GroupWithZero.Nat
import Mathlib.Data.List.Basic
import Mathlib.Data.Nat.Log

/-!
# The swap-buffer pool

The TLSF allocator that hands out ranges of the swap buffer, translated from
`enpu-manager/core/src/shm_manager.c:1088-1410`. A block header is identified by its
`data_offset`, so the free lists and the used list hold offsets, and the physical chain
(`prev_phys`, `next_phys`) is the order of `blocks`.
-/

namespace UbsVirt.Enpu.Tlsf

def align : Nat := 64

def maxFl : Nat := 30

def maxSl : Nat := 16

/-- `TLSFBlockHeader`; `used` is the low bit of the header's `size` field. -/
structure Block where
  offset : Nat
  size : Nat
  used : Bool
  deriving DecidableEq, Repr

/-- `TLSFManager`, with the headers reachable from its lists. A header goes by its offset, so this
stands only for sizes up to 2^64 - 64: a larger one is rounded up to 0, and what is split off then
has the offset of the rest. -/
structure Pool where
  initialized : Bool
  blocks : List Block
  freeList : Nat → Nat → List Nat
  usedList : List Nat
  totalSize : Nat
  totalUsed : Nat

/-- Round up to `TLSF_ALIGN` in `size_t` arithmetic. -/
def alignSize (size : Nat) : Nat :=
  (size + (align - 1)) % 2 ^ 64 / align * align

/-- `tlsf_calc_fl_sl`, lines 1136-1156. -/
def calcFlSl (size : Nat) : Nat × Nat :=
  let alignSz := max (alignSize size) align
  if alignSz < 256 then
    (0, (alignSz - 1) / 16)
  else
    let fl := Nat.log2 alignSz
    let sl := alignSz / 2 ^ (fl - 4) % maxSl
    (min fl (maxFl - 1), min sl (maxSl - 1))

def Pool.blockAt (p : Pool) (offset : Nat) : Option Block :=
  p.blocks.find? (·.offset == offset)

/-- `tlsf_insert_free_block`, lines 1158-1168: at the head of the list of its size class. -/
def Pool.insertFree (p : Pool) (b : Block) : Pool :=
  let c := calcFlSl b.size
  { p with
    freeList := fun fl sl =>
      if fl = c.1 ∧ sl = c.2 then b.offset :: p.freeList fl sl else p.freeList fl sl }

/-- `tlsf_remove_free_block`, lines 1170-1185. -/
def Pool.removeFree (p : Pool) (b : Block) : Pool :=
  let c := calcFlSl b.size
  { p with
    freeList := fun fl sl =>
      if fl = c.1 ∧ sl = c.2 then (p.freeList fl sl).erase b.offset else p.freeList fl sl }

/-- `tlsf_find_block`, lines 1231-1248: the first block that is large enough, from the
size class of the request upwards. -/
def Pool.findBlock (p : Pool) (size : Nat) : Option Block :=
  let fl := (calcFlSl size).1
  (List.range' fl (maxFl - fl)).findSome? fun i =>
    (List.range maxSl).findSome? fun j =>
      (p.freeList i j).findSome? fun offset =>
        (p.blockAt offset).filter (fun b => decide (size ≤ b.size))

def replaceAt (offset : Nat) (bs' : List Block) (bs : List Block) : List Block :=
  bs.flatMap fun b => if b.offset = offset then bs' else [b]

/-- `tlsf_split_block`, lines 1250-1281: the block that stays, and the remainder if there
is one. `header` tells whether the header of the remainder could be allocated. -/
def splitBlock (header : Bool) (b : Block) (need : Nat) : Block × Option Block :=
  let remain := b.size - need
  if remain < align then (b, none)
  else if !header then (b, none)
  else ({ b with size := need }, some { offset := b.offset + need, size := remain, used := false })

/-- `tlsf_alloc`, lines 1328-1355: the offset handed out, or `none` for `(uint64_t)-1`. -/
def alloc (p : Pool) (size : Nat) (header : Bool) : Option (Nat × Pool) :=
  if !p.initialized || size == 0 then none
  else
    let allocSz := alignSize size
    match p.findBlock allocSz with
    | none => none
    | some b =>
      let p₁ := p.removeFree b
      let (keep, rest) := splitBlock header b allocSz
      let p₂ := match rest with
        | none => p₁
        | some r => p₁.insertFree r
      let kept := { keep with used := true }
      some (b.offset,
        { p₂ with
          blocks := replaceAt b.offset (kept :: rest.toList) p.blocks
          usedList := b.offset :: p.usedList
          totalUsed := p.totalUsed + kept.size })

/-- `tlsf_find_block_by_offset`, lines 1206-1229: the used list first, then the free lists. -/
def Pool.findByOffset (p : Pool) (offset : Nat) : Option Block :=
  if offset ∈ p.usedList then p.blockAt offset
  else if (List.range maxFl).any fun i => (List.range maxSl).any fun j =>
      decide (offset ∈ p.freeList i j) then p.blockAt offset
  else none

/-- Merge a freed block with the block before it in the physical chain, if that one is
free, lines 1379-1392. `before` is the chain up to the block, nearest block first. -/
def mergePrev (p : Pool) (before : List Block) (b : Block) : Pool × List Block × Block :=
  match before with
  | prev :: before' =>
    if prev.used then (p, before, b)
    else (p.removeFree prev, before', { prev with size := prev.size + b.size })
  | [] => (p, before, b)

/-- Merge a freed block with the block after it, lines 1394-1406. -/
def mergeNext (p : Pool) (after : List Block) (b : Block) : Pool × List Block × Block :=
  match after with
  | next :: after' =>
    if next.used then (p, after, b)
    else (p.removeFree next, after', { b with size := b.size + next.size })
  | [] => (p, after, b)

/-- `tlsf_free`, lines 1357-1410. -/
def free (p : Pool) (offset : Nat) : Pool :=
  if !p.initialized || decide (p.totalSize ≤ offset) then p
  else
    match p.findByOffset offset with
    | none => p
    | some b =>
      if !b.used then p
      else
        let before := (p.blocks.takeWhile (·.offset != offset)).reverse
        let after := (p.blocks.dropWhile (·.offset != offset)).tail
        let p₀ := { p with
          usedList := p.usedList.erase offset
          totalUsed := p.totalUsed - b.size }
        let (p₁, before', b₁) := mergePrev p₀ before { b with used := false }
        let (p₂, after', b₂) := mergeNext p₁ after b₁
        ({ p₂ with blocks := before'.reverse ++ b₂ :: after' }).insertFree b₂

/-- `tlsf_pool_init`, lines 1283-1326: one free block over the whole buffer. The low bit
of the size field is the used flag, so an odd size loses its last byte. -/
def init (size : Nat) : Pool :=
  let b : Block := { offset := 0, size := size / 2 * 2, used := false }
  Pool.insertFree
    { initialized := true, blocks := [b], freeList := fun _ _ => [], usedList := []
      totalSize := size, totalUsed := 0 } b

def Pool.usedBlocks (p : Pool) : List Block :=
  p.blocks.filter (·.used)

end UbsVirt.Enpu.Tlsf
