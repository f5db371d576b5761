import Mathlib.Order.Lattice.Nat

/-!
# Addresses, blocks and mappings

A memory with addresses and blocks that are taken and given back separately: an address is
reserved, a block is allocated, and mapping the block at the address makes its bytes readable
there. What a taker of a new address or block gets is any one that is not in use.
-/

namespace UbsVirt.Mapping

open Function

/-- `n` bytes of `src` written over `dst`, from `off` on. -/
def blit (dst : Nat → UInt8) (off n : Nat) (src : Nat → UInt8) : Nat → UInt8 :=
  fun o => if off ≤ o ∧ o < off + n then src (o - off) else dst o

variable {n : Nat}

theorem blit_inside (dst : Nat → UInt8) (off : Nat) {i : Nat} (src : Nat → UInt8) (h : i < n) :
    blit dst off n src (off + i) = src i := by
  unfold blit
  rw [if_pos ⟨Nat.le_add_right off i, by omega⟩, Nat.add_sub_cancel_left]

theorem blit_outside (dst : Nat → UInt8) {off o : Nat} (src : Nat → UInt8)
    (h : o < off ∨ off + n ≤ o) : blit dst off n src o = dst o := by
  unfold blit
  rw [if_neg (by omega)]

/-- A way of choosing a number that is not in use. -/
structure Chooser where
  pick : Finset Nat → Nat
  pick_notMem : ∀ s, pick s ∉ s

def Chooser.next : Chooser where
  pick s := s.sup id + 1
  pick_notMem _ hs := Nat.not_succ_le_self _ (Finset.le_sup (f := id) hs)

/-- The reserved addresses, the block mapped at each address, the allocated blocks and what is
in them. -/
@[ext]
structure Memory where
  reserved : Finset Nat
  mapped : Nat → Option Nat
  live : Finset Nat
  bytes : Nat → Nat → UInt8

namespace Memory

variable (m : Memory) (va h : Nat)

def reserve : Memory := { m with reserved := insert va m.reserved }

def release : Memory := { m with reserved := m.reserved.erase va }

def map : Memory := { m with mapped := update m.mapped va (some h) }

def unmap : Memory := { m with mapped := update m.mapped va none }

def malloc : Memory := { m with live := insert h m.live }

def free : Memory := { m with live := m.live.erase h }

def read : Nat → UInt8 :=
  (m.mapped va).elim (fun _ => 0) m.bytes

/-- Overwrite the first `n` bytes at an address. -/
def fill (n : Nat) (src : Nat → UInt8) : Memory :=
  match m.mapped va with
  | some h => { m with bytes := update m.bytes h (blit (m.bytes h) 0 n src) }
  | none => m

/-- Block `h` is allocated, holds `content` in its first `n` bytes and is mapped at `vas`. -/
structure Holds (vas : Option Nat) (n : Nat) (content : Nat → UInt8) : Prop where
  live : h ∈ m.live
  bytes : ∀ i < n, m.bytes h i = content i
  mapped : ∀ va ∈ vas, m.mapped va = some h

variable {m va h}

theorem read_of_mapped (hmap : m.mapped va = some h) : m.read va = m.bytes h := by
  unfold read
  rw [hmap]
  rfl

/-- What does not touch the block, its bytes or its address keeps what it holds. -/
theorem Holds.frame {m' : Memory} {vas : Option Nat} {content : Nat → UInt8}
    (hm : m.Holds h vas n content) (hlive : h ∈ m'.live) (hbytes : m'.bytes h = m.bytes h)
    (hmapped : ∀ va ∈ vas, m'.mapped va = m.mapped va) : m'.Holds h vas n content where
  live := hlive
  bytes i hi := by rw [hbytes, hm.bytes i hi]
  mapped va hva := by rw [hmapped va hva, hm.mapped va hva]

variable {src : Nat → UInt8}

/-- Filling a block at an address it is mapped at. -/
theorem holds_fill {vas : Option Nat} {k : Nat} (hmap : m.mapped va = some h)
    (hlive : h ∈ m.live) (hn : n ≤ k) (hvas : ∀ a ∈ vas, m.mapped a = some h) :
    (m.fill va k src).Holds h vas n src := by
  unfold fill
  rw [hmap]
  refine ⟨hlive, ?_, hvas⟩
  intro i hi
  dsimp only
  have hin := blit_inside (m.bytes h) 0 src (Nat.lt_of_lt_of_le hi hn)
  rwa [Nat.zero_add, ← update_self h (blit (m.bytes h) 0 k src) m.bytes] at hin

/-! ### What is left alone -/

/-- `m'` has the blocks and the addresses of `m`, with the same bytes in the blocks, and, except
at `vas`, the same mappings at the addresses. -/
structure Extends (m m' : Memory) (vas : Set Nat) : Prop where
  live : m.live ⊆ m'.live
  reserved : m.reserved ⊆ m'.reserved
  bytes : ∀ b ∈ m.live, m'.bytes b = m.bytes b
  mapped : ∀ a ∈ m.reserved, a ∉ vas → m'.mapped a = m.mapped a

theorem Extends.refl (m : Memory) (vas : Set Nat) : m.Extends m vas :=
  ⟨Finset.Subset.refl _, Finset.Subset.refl _, fun _ _ => rfl, fun _ _ _ => rfl⟩

theorem Extends.trans {m₁ m₂ m₃ : Memory} {vas₁ vas₂ vas : Set Nat} (h₁ : m₁.Extends m₂ vas₁)
    (h₂ : m₂.Extends m₃ vas₂) (hvas₁ : vas₁ ⊆ vas) (hvas₂ : vas₂ ⊆ vas) : m₁.Extends m₃ vas where
  live := h₁.live.trans h₂.live
  reserved := h₁.reserved.trans h₂.reserved
  bytes b hb := by rw [h₂.bytes b (h₁.live hb), h₁.bytes b hb]
  mapped a ha hvas := by
    rw [h₂.mapped a (h₁.reserved ha) fun h => hvas (hvas₂ h), h₁.mapped a ha fun h => hvas (hvas₁ h)]

section

variable {m' : Memory} {vas : Set Nat} (hm : m.Extends m' vas)

include hm

theorem Extends.holds {own : Option Nat} {content : Nat → UInt8}
    (hold : m.Holds h own n content) (hres : ∀ a ∈ own, a ∈ m.reserved)
    (hown : ∀ a ∈ own, a ∉ vas) : m'.Holds h own n content :=
  hold.frame (hm.live hold.live) (hm.bytes h hold.live) fun a ha => hm.mapped a (hres a ha) (hown a ha)

theorem Extends.malloc : m.Extends (m'.malloc h) vas :=
  ⟨hm.live.trans (Finset.subset_insert ..), hm.reserved, hm.bytes, hm.mapped⟩

theorem Extends.free (hnew : h ∉ m.live) : m.Extends (m'.free h) vas :=
  ⟨fun _ hb => Finset.mem_erase_of_ne_of_mem (fun heq => hnew (heq ▸ hb)) (hm.live hb),
    hm.reserved, hm.bytes, hm.mapped⟩

theorem Extends.reserve (a : Nat) : m.Extends (m'.reserve a) vas :=
  ⟨hm.live, hm.reserved.trans (Finset.subset_insert ..), hm.bytes, hm.mapped⟩

theorem Extends.release (hnew : va ∉ m.reserved) : m.Extends (m'.release va) vas :=
  ⟨hm.live, fun _ ha => Finset.mem_erase_of_ne_of_mem (fun heq => hnew (heq ▸ ha)) (hm.reserved ha),
    hm.bytes, hm.mapped⟩

/-- A mapping at a new address, or at the exempt one. -/
theorem Extends.update (hva : va ∉ m.reserved ∨ va ∈ vas) (b : Option Nat) :
    m.Extends { m' with mapped := update m'.mapped va b } vas := by
  refine ⟨hm.live, hm.reserved, hm.bytes, fun a ha hvas => ?_⟩
  dsimp only
  rw [update_of_ne, hm.mapped a ha hvas]
  rintro rfl
  exact hva.elim (fun hnew => hnew ha) hvas

theorem Extends.fill (hnew : ∀ b, m'.mapped va = some b → b ∉ m.live) :
    m.Extends (m'.fill va n src) vas := by
  unfold Memory.fill
  split
  · next b hb =>
    refine ⟨hm.live, hm.reserved, fun x hx => ?_, hm.mapped⟩
    dsimp only
    rw [update_of_ne, hm.bytes x hx]
    rintro rfl
    exact hnew x hb hx
  · exact hm

/-- Mapping a new block and filling it: what was there is left alone, and the block holds what
was copied, at `own` too if that is where it was mapped. -/
theorem Extends.map_fill (own : Option Nat) {k : Nat}
    (hva : va ∉ m.reserved ∨ va ∈ vas) (hnew : h ∉ m.live) (hlive : h ∈ m'.live) (hn : n ≤ k)
    (hown : ∀ a ∈ own, a = va) :
    m.Extends ((m'.map va h).fill va k src) vas ∧
      ((m'.map va h).fill va k src).Holds h own n src := by
  have hat : (m'.map va h).mapped va = some h := update_self ..
  constructor
  · apply Extends.fill (hm.update hva _)
    intro b hb
    rwa [← Option.some.inj (hat.symm.trans hb)]
  · apply holds_fill hat hlive hn
    intro a ha
    rwa [hown a ha]

end

end Memory

end UbsVirt.Mapping
