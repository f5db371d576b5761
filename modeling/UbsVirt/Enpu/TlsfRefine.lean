import UbsVirt.Enpu.TlsfHeap

/-!
# The headers spell the pool

The links of the headers spell the lists of the pool: the physical chain its blocks, the chain
from every table entry the free list of that size class, the chain from `used_list` the used
list. Every call on the headers does what the call on the pool does, so what holds of the pool
in every run holds of the headers.
-/

namespace UbsVirt.Enpu.Tlsf

open Chain Tiling Run Function List Block Tlsf
open Option (map_some some)

/-! ### The lists -/

abbrev ListId := Option (Nat × Nat)

def Manager.head (m : Manager) (k : ListId) : Option Addr :=
  k.elim m.usedList fun c => m.freeList c.1 c.2

def Pool.list (p : Pool) (k : ListId) : List Nat :=
  k.elim p.usedList fun c => p.freeList c.1 c.2

theorem head_setFreeList (m : Manager) (c : Nat × Nat) (head : Option Addr) (k : ListId) :
    (m.setFreeList c head).head k = if k = some c then head else m.head k := by
  cases k with
  | none => rfl
  | some d => simp [Manager.head, Manager.setFreeList, Prod.ext_iff]

theorem list_removeFree (p : Pool) (b : Block) (k : ListId) : (p.removeFree b).list k =
    if k = some (calcFlSl b.size) then (p.list k).erase b.offset else p.list k := by
  cases k with
  | none => rfl
  | some d => simp [Pool.list, Pool.removeFree, Prod.ext_iff]

theorem list_insertFree (p : Pool) (b : Block) (k : ListId) : (p.insertFree b).list k =
    if k = some (calcFlSl b.size) then b.offset :: p.list k else p.list k := by
  cases k with
  | none => rfl
  | some d => simp [Pool.list, Pool.insertFree, Prod.ext_iff]

def Block.listId (b : Block) : ListId := if b.used then none else some (calcFlSl b.size)

variable {b : Block}

theorem Block.listId_eq_none : b.listId = none ↔ b.used = true := by
  unfold listId
  cases b.used <;> simp

theorem Block.listId_eq_some {c : Nat × Nat} :
    b.listId = some c ↔ b.used = false ∧ calcFlSl b.size = c := by
  unfold listId
  cases b.used <;> simp

variable {p : Pool} {k : ListId}

theorem Pool.WF.mem_list (h : p.WF) {o : Nat} :
    o ∈ p.list k ↔ ∃ b ∈ p.blocks, b.listId = k ∧ b.offset = o := by
  cases k with
  | none =>
    simp only [listId_eq_none]
    exact h.used o
  | some c =>
    simp only [listId_eq_some]
    refine (h.free.mem c.1 c.2 o).trans (exists_congr fun b => ?_)
    tauto

/-- A block is in no list but its own. -/
theorem Pool.WF.offset_mem_list (h : p.WF) (hb : b ∈ p.blocks) :
    b.offset ∈ p.list k ↔ b.listId = k := by
  rw [h.mem_list]
  constructor
  · rintro ⟨c, hc, hid, hoff⟩
    rwa [← h.eq_of_offset hc hb hoff]
  · exact fun hid => ⟨b, hb, hid, rfl⟩

/-- The lists of the pool, spelled by the headers `L`, which are among `dom`. No header is in two
of them. The used list has no backward links. -/
structure Held (m : Manager) (p : Pool) (dom : List Addr) (L : ListId → List Addr) : Prop where
  seg : ∀ k, Seg m.free.next none (m.head k) (L k)
  back : ∀ c, Back m.free.prev none (L (some c))
  nodup : ∀ k, (L k).Nodup
  apart : ∀ {k k' x}, x ∈ L k → x ∈ L k' → k = k'
  dom : ∀ {k x}, x ∈ L k → x ∈ dom
  offsets : ∀ k, (L k).map m.dataOffset = p.list k

theorem erase_middle {α : Type*} [DecidableEq α] {a : α} {xs ys : List α} (ha : a ∉ xs) :
    (xs ++ a :: ys).erase a = xs ++ ys := by
  rw [erase_append_right _ ha, erase_cons_head]

/-- Erasing commutes with a map that tells the entry from the others. -/
theorem map_erase_of_inj {α β : Type*} [DecidableEq α] [DecidableEq β] {f : α → β} {a : α}
    {xs : List α} (h : ∀ x ∈ xs, f x = f a → x = a) : (xs.erase a).map f = (xs.map f).erase (f a) := by
  induction xs with
  | nil => rfl
  | cons x xs ih =>
    have hrest := ih fun y hy => h y (by simp [hy])
    by_cases hx : x = a
    · rw [hx, erase_cons_head, map_cons, erase_cons_head]
    · have hfx : f x ≠ f a := fun heq => hx (h x (by simp) heq)
      rw [erase_cons_tail (by simpa using hx), map_cons, map_cons,
        erase_cons_tail (by simpa using hfx), hrest]

namespace Held

variable {m m' : Manager} {p p' : Pool} {dom dom' : List Addr} {L : ListId → List Addr}
  {a : Addr} {k : ListId}

section

variable (h : Held m p dom L)
include h

/-- Only the lists of the pool matter, and of the headers the heads, and the links and offsets of
those that are in a list. -/
theorem frame (hsub : ∀ x ∈ dom, x ∈ dom') (hnext : ∀ x ∈ dom, m'.free.next x = m.free.next x)
    (hprev : ∀ x ∈ dom, m'.free.prev x = m.free.prev x)
    (hoffset : ∀ x ∈ dom, m'.dataOffset x = m.dataOffset x) (hhead : m'.head = m.head)
    (hlist : p'.list = p.list) : Held m' p' dom' L where
  seg k := by
    rw [hhead]
    exact (h.seg k).congr fun x hx => hnext x (h.dom hx)
  back c := (h.back c).congr fun x hx => hprev x (h.dom hx)
  nodup := h.nodup
  apart := h.apart
  dom hx := hsub _ (h.dom hx)
  offsets k := by
    rw [hlist, ← h.offsets]
    exact map_congr_left fun x hx => hoffset x (h.dom hx)

/-- Only the lists of the pool matter, and only the headers' links, heads and offsets. -/
theorem congr (hfree : m'.free = m.free)
    (hoffset : m'.dataOffset = m.dataOffset) (hhead : m'.head = m.head) (hlist : p'.list = p.list) :
    Held m' p' dom L := by
  refine h.frame (fun _ hx => hx) ?_ ?_ ?_ hhead hlist
  · exact fun _ _ => by rw [hfree]
  · exact fun _ _ => by rw [hfree]
  · exact fun _ _ => by rw [hoffset]

/-- One list is changed; what comes into it was in no list. -/
theorem change (k : ListId) (xs : List Addr) (hseg : Seg m'.free.next none (m'.head k) xs)
    (hback : ∀ c, k = some c → Back m'.free.prev none xs) (hnodup : xs.Nodup)
    (hxs : ∀ x ∈ xs, x ∈ L k ∨ x ∈ dom ∧ ∀ k', x ∉ L k') (hframe : ∀ x, x ∉ L k → x ∉ xs →
      m'.free.next x = m.free.next x ∧ m'.free.prev x = m.free.prev x)
    (hhead : ∀ k', k' ≠ k → m'.head k' = m.head k') (hoffset : m'.dataOffset = m.dataOffset)
    (hlist : ∀ k', k' ≠ k → p'.list k' = p.list k') (hk : xs.map m.dataOffset = p'.list k) :
    Held m' p' dom (update L k xs) := by
  have hout : ∀ {k' x}, k' ≠ k → x ∈ L k' → x ∉ L k ∧ x ∉ xs := by
    intro k' x hne hx
    have hL : x ∉ L k := fun hx' => hne (h.apart hx hx')
    refine ⟨hL, fun hmem => ?_⟩
    rcases hxs x hmem with hx' | ⟨-, hno⟩
    · exact hL hx'
    · exact hno k' hx
  have hmem : ∀ {k' x}, x ∈ update L k xs k' → k' = k ∧ x ∈ xs ∨ k' ≠ k ∧ x ∈ L k' := by
    intro k' x hx
    rw [update_apply] at hx
    split at hx
    · next heq => exact .inl ⟨heq, hx⟩
    · next hne => exact .inr ⟨hne, hx⟩
  constructor
  case seg =>
    intro k'
    by_cases hne : k' = k
    · rwa [hne, update_self]
    · rw [update_of_ne hne, hhead k' hne]
      exact (h.seg k').congr fun x hx => (hframe x (hout hne hx).1 (hout hne hx).2).1
  case back =>
    intro c
    by_cases hne : some c = k
    · rw [hne, update_self]
      exact hback c hne.symm
    · rw [update_of_ne hne]
      exact (h.back c).congr fun x hx => (hframe x (hout hne hx).1 (hout hne hx).2).2
  case nodup =>
    intro k'
    rw [update_apply]
    split
    · exact hnodup
    · exact h.nodup k'
  case apart =>
    intro k₁ k₂ x hx₁ hx₂
    rcases hmem hx₁ with ⟨h₁, hnew₁⟩ | ⟨hne₁, hold₁⟩ <;>
      rcases hmem hx₂ with ⟨h₂, hnew₂⟩ | ⟨hne₂, hold₂⟩
    · exact h₁.trans h₂.symm
    · exact absurd hnew₁ (hout hne₂ hold₂).2
    · exact absurd hnew₂ (hout hne₁ hold₁).2
    · exact h.apart hold₁ hold₂
  case dom =>
    intro k' x hx
    rcases hmem hx with ⟨-, hx⟩ | ⟨-, hx⟩
    · rcases hxs x hx with hx | ⟨hx, -⟩
      · exact h.dom hx
      · exact hx
    · exact h.dom hx
  case offsets =>
    intro k'
    rw [hoffset]
    by_cases hne : k' = k
    · rwa [hne, update_self]
    · rw [update_of_ne hne, hlist k' hne]
      exact h.offsets k'

omit h in
/-- Offsets tell the headers apart. -/
theorem eq_of_offset (hdom : (dom.map m.dataOffset).Nodup) {x : Addr} (hx : x ∈ dom)
    (ha : a ∈ dom) (hoff : m.dataOffset x = m.dataOffset a) : x = a :=
  inj_on_of_nodup_map hdom hx ha hoff

theorem mem_iff (hdom : (dom.map m.dataOffset).Nodup) (ha : a ∈ dom) :
    a ∈ L k ↔ m.dataOffset a ∈ p.list k := by
  rw [← h.offsets, mem_map]
  constructor
  · exact fun hx => ⟨a, hx, rfl⟩
  · rintro ⟨x, hx, hoff⟩
    rwa [← eq_of_offset hdom (h.dom hx) ha hoff]

theorem not_mem (hlist : m.dataOffset a ∉ p.list k) : a ∉ L k := by
  intro hx
  refine hlist ?_
  rw [← h.offsets]
  exact mem_map_of_mem hx

omit h in
/-- What a list holds that gets a header which was in no list. -/
theorem mem_cons (ha : a ∈ dom) (hL : ∀ k, a ∉ L k) (x : Addr)
    (hx : x ∈ a :: L k) : x ∈ L k ∨ x ∈ dom ∧ ∀ k', x ∉ L k' := by
  rcases List.mem_cons.mp hx with rfl | hx
  · exact .inr ⟨ha, hL⟩
  · exact .inl hx

/-- The offsets of a list that loses a header. -/
theorem map_erase (hdom : (dom.map m.dataOffset).Nodup) (ha : a ∈ dom) :
    ((L k).erase a).map m.dataOffset = (p.list k).erase (m.dataOffset a) := by
  rw [← h.offsets]
  exact map_erase_of_inj fun x hx hoff => eq_of_offset hdom (h.dom hx) ha hoff

/-- One free list gets other links and another head. -/
theorem setFree {c : Nat × Nat} {r : Links Addr × Option Addr} {xs : List Addr}
    (hlinked : Linked r.1 r.2 xs)
    (hxs : ∀ x ∈ xs, x ∈ L (some c) ∨ x ∈ dom ∧ ∀ k', x ∉ L k') (hframe : ∀ x, x ∉ L (some c) →
      x ∉ xs → r.1.next x = m.free.next x ∧ r.1.prev x = m.free.prev x)
    (hlist : ∀ k, k ≠ some c → p'.list k = p.list k) (hk : xs.map m.dataOffset = p'.list (some c)) :
    ∃ L, Held ({ m with free := r.1 }.setFreeList c r.2) p' dom L := by
  have hhead := head_setFreeList { m with free := r.1 } c r.2
  refine ⟨_, h.change (some c) xs ?_ (fun _ _ => hlinked.back) hlinked.nodup hxs hframe
    (fun k hne => (hhead k).trans (if_neg hne)) rfl hlist hk⟩
  rw [hhead, if_pos rfl]
  exact hlinked.seg

theorem linked (c : Nat × Nat) : Linked m.free (m.head (some c)) (L (some c)) :=
  ⟨h.seg _, h.back c, h.nodup _⟩

theorem removeFree (hdom : (dom.map m.dataOffset).Nodup) (ha : a ∈ dom)
    (hmem : m.dataOffset a ∈ p.list (some (calcFlSl (m.block a).size))) :
    ∃ L, Held (m.removeFreeBlock a) (p.removeFree (m.block a)) dom L := by
  obtain ⟨xs, ys, hsplit⟩ := append_of_mem ((h.mem_iff hdom ha).mpr hmem)
  have hlist := h.linked (calcFlSl (m.block a).size)
  rw [hsplit] at hlist
  have herase : (xs ++ a :: ys).erase a = xs ++ ys := erase_middle (nodup_middle_iff.mp hlist.nodup).1
  have hpool := list_removeFree p (m.block a)
  refine h.setFree hlist.unlink (fun x hx => .inl ?_) (fun x hx _ => ?_)
    (fun k hne => (hpool k).trans (if_neg hne)) ?_
  · rw [← herase, ← hsplit] at hx
    exact mem_of_mem_erase hx
  · exact hlist.unlink_frame (hsplit ▸ hx)
  · rw [← herase, ← hsplit, h.map_erase hdom ha]
    exact ((hpool _).trans (if_pos rfl)).symm

theorem insertFree (ha : a ∈ dom) (hnew : ∀ k, m.dataOffset a ∉ p.list k) :
    ∃ L, Held (m.insertFreeBlock a) (p.insertFree (m.block a)) dom L := by
  have hL : ∀ k, a ∉ L k := fun k => h.not_mem (hnew k)
  have hlist := h.linked (calcFlSl (m.block a).size)
  have hpool := list_insertFree p (m.block a)
  refine h.setFree (r := (_, some a)) (hlist.push (hL _)) (mem_cons ha hL)
    (fun x hx hx' => hlist.push_frame hx (ne_of_not_mem_cons hx'))
    (fun k hne => (hpool k).trans (if_neg hne)) ?_
  rw [map_cons, h.offsets]
  exact ((hpool _).trans (if_pos rfl)).symm

omit h in
theorem of_ne_none {P : ListId → Prop} (hP : ∀ c, P (some c)) : ∀ k, k ≠ none → P k
  | some c, _ => hP c
  | none, hne => absurd rfl hne

theorem insertUsed (ha : a ∈ dom) (hnew : ∀ k, m.dataOffset a ∉ p.list k) :
    ∃ L, Held (m.insertUsedBlock a) { p with usedList := m.dataOffset a :: p.usedList } dom L := by
  have hL : ∀ k, a ∉ L k := fun k => h.not_mem (hnew k)
  refine ⟨_, h.change none (a :: L none) ⟨rfl, ?_⟩ nofun (nodup_cons.mpr ⟨hL none, h.nodup none⟩)
    (mem_cons ha hL) ?_ (of_ne_none fun c => rfl) rfl (of_ne_none fun c => rfl) ?_⟩
  · change Seg (update m.free.next a m.usedList) none (update m.free.next a m.usedList a) (L none)
    rw [update_self]
    exact (h.seg none).set (hL none)
  · exact fun x _ hx => ⟨update_of_ne (ne_of_not_mem_cons hx) _ _, rfl⟩
  · rw [map_cons, h.offsets]
    rfl

/-- The loop that looks for a used block ends with the block taken out. -/
theorem removeUsed (hdom : (dom.map m.dataOffset).Nodup) (ha : a ∈ dom)
    (hmem : m.dataOffset a ∈ p.usedList) (hlen : (L none).length ≤ m.live.length) :
    ∃ next head, m.removeUsedBlock a =
        some { m with free := { m.free with next := next }, usedList := head } ∧
      ∃ L, Held { m with free := { m.free with next := next }, usedList := head }
        { p with usedList := p.usedList.erase (m.dataOffset a) } dom L := by
  obtain ⟨xs, ys, hsplit⟩ := append_of_mem ((h.mem_iff (k := none) hdom ha).mpr hmem)
  have hused := h.seg none
  have hnodup := h.nodup none
  rw [hsplit] at hused hnodup hlen
  obtain ⟨next, head, heq, hseg, hframe⟩ := unlinkWalk_seg [] hused hnodup hlen
  have herase : (L none).erase a = xs ++ ys := by
    rw [hsplit, erase_middle (nodup_middle_iff.mp hnodup).1]
  refine ⟨next, head, ?_, _, h.change none ((L none).erase a) ?_ nofun
    ((h.nodup none).erase a) (fun x hx => .inl (mem_of_mem_erase hx)) ?_
    (of_ne_none fun c => rfl) rfl (of_ne_none fun c => rfl) (h.map_erase hdom ha)⟩
  · unfold Manager.removeUsedBlock
    rw [show (none : Option Addr) = ([] : List Addr).getLast? from rfl]
    exact congrArg (Option.map _) heq
  · rwa [herase]
  · exact fun x hx _ => ⟨hframe x (hsplit ▸ hx), rfl⟩

end

end Held

/-! ### The headers of a pool -/

/-- The headers, in the order `phys` of their physical chain, are those of the pool. -/
structure Rep (m : Manager) (phys : List Addr) (p : Pool) : Prop where
  initialized : m.initialized = p.initialized
  totalSize : m.shmTotalSize = p.totalSize
  totalUsed : m.totalUsed = p.totalUsed
  chain : Linked m.phys phys.head? phys
  live : m.live.Perm phys
  blocks : phys.map m.block = p.blocks
  held : ∃ L, Held m p phys L

variable {a : Addr} {L : ListId → List Addr}

namespace Rep

variable {m : Manager} {phys : List Addr} {p : Pool}

theorem offsets (h : Rep m phys p) (hwf : p.WF) : (phys.map m.dataOffset).Nodup := by
  have hnodup := hwf.nodup
  rwa [← h.blocks, map_map] at hnodup

theorem blockAt (h : Rep m phys p) (hwf : p.WF) (ha : a ∈ phys) :
    p.blockAt (m.dataOffset a) = some (m.block a) :=
  hwf.blockAt_of_mem (b := m.block a) (h.blocks ▸ mem_map_of_mem ha)

theorem block_mem (h : Rep m phys p) (ha : a ∈ phys) : m.block a ∈ p.blocks :=
  h.blocks ▸ mem_map_of_mem ha

theorem blocks_eq {us vs : List Addr} (h : Rep m (us ++ a :: vs) p) :
    p.blocks = us.map m.block ++ m.block a :: vs.map m.block := by
  rw [← h.blocks, map_append, map_cons]

/-- The other blocks start elsewhere. -/
theorem offset_ne {us vs : List Addr} (h : Rep m (us ++ a :: vs) p) (hwf : p.WF) :
    (∀ x ∈ us.map m.block, x.offset ≠ (m.block a).offset) ∧
      ∀ y ∈ vs.map m.block, y.offset ≠ (m.block a).offset := by
  have hnodup := hwf.nodup
  rw [h.blocks_eq, map_append, map_cons] at hnodup
  obtain ⟨hx, hy, -⟩ := nodup_middle_iff.mp hnodup
  exact ⟨fun x hmem hoff => hx (hoff ▸ mem_map_of_mem hmem),
    fun y hmem hoff => hy (hoff ▸ mem_map_of_mem hmem)⟩

/-- No list is longer than there are headers. -/
theorem length_le (h : Rep m phys p) {xs : List Addr} (hnodup : xs.Nodup)
    (hsub : ∀ x ∈ xs, x ∈ phys) : xs.length ≤ m.live.length :=
  (subperm_of_subset hnodup fun x hx => h.live.mem_iff.mpr (hsub x hx)).length_le

/-- A loop along one of the lists ends at the first header of the list it looks for. -/
theorem walkList (h : Rep m phys p) (hheld : Held m p phys L) (found : Addr → Bool) (k : ListId) :
    m.walkList found (m.head k) = some ((L k).find? found) :=
  walk_seg found (hheld.seg k) (h.length_le (hheld.nodup k) fun _ => hheld.dom)

end Rep

theorem map_find?_eq_findSome? {α β : Type*} {xs : List α} {found : α → Bool} {f : α → β}
    {g : α → Option β} (h : ∀ x ∈ xs, g x = if found x then some (f x) else none) :
    (xs.find? found).map f = xs.findSome? g := by
  induction xs with
  | nil => rfl
  | cons x xs ih =>
    rw [find?_cons, findSome?_cons, h x (by simp)]
    cases found x with
    | true => rfl
    | false => exact ih fun y hy => h y (by simp [hy])

theorem findSome?_ite {α β : Type*} {xs : List α} (c : α → Bool) (r : Option β) :
    (xs.findSome? fun x => if c x then r else none) = if xs.any c then r else none := by
  induction xs with
  | nil => rfl
  | cons x xs ih =>
    rw [findSome?_cons, any_cons, ih]
    cases c x with
    | true => cases r <;> simp
    | false => simp

namespace Rep

variable {m : Manager} {phys : List Addr} {p : Pool}

theorem findBlock (h : Rep m phys p) (hwf : p.WF) (size : Nat) :
    ∃ found, m.findBlock size = some found ∧ found.map m.block = p.findBlock size ∧
      ∀ a ∈ found, a ∈ phys := by
  obtain ⟨L, hheld⟩ := h.held
  refine ⟨_, firstFound_eq fun i _ => firstFound_eq fun j _ => h.walkList hheld _ (some (i, j)),
    ?_, fun a ha => ?_⟩
  · unfold Pool.findBlock
    rw [map_findSome?]
    refine congrArg (fun f => findSome? f _) (funext fun i => ?_)
    rw [comp_apply, map_findSome?]
    refine congrArg (fun f => findSome? f _) (funext fun j => ?_)
    change _ = (p.list (some (i, j))).findSome? _
    rw [comp_apply, ← hheld.offsets, findSome?_map]
    refine map_find?_eq_findSome? fun x hx => ?_
    rw [comp_apply, h.blockAt hwf (hheld.dom hx), Option.filter_some]
    rfl
  · obtain ⟨i, -, hi⟩ := exists_of_findSome?_eq_some ha
    obtain ⟨j, -, hj⟩ := exists_of_findSome?_eq_some hi
    exact hheld.dom (mem_of_find?_eq_some hj)

/-- Looking for an offset in one list. -/
theorem find_here (h : Rep m phys p) (hwf : p.WF)
    (hheld : Held m p phys L) (offset : Nat) (k : ListId) :
    ((L k).find? fun a => decide (m.dataOffset a = offset)).map m.block =
      if decide (offset ∈ p.list k) then p.blockAt offset else none := by
  rw [← hheld.offsets]
  cases hfind : (L k).find? fun a => decide (m.dataOffset a = offset) with
  | none =>
    rw [if_neg]
    · rfl
    · intro hmem
      obtain ⟨x, hx, hoff⟩ := mem_map.mp (of_decide_eq_true hmem)
      exact find?_eq_none.mp hfind x hx (decide_eq_true hoff)
  | some a =>
    have ha := mem_of_find?_eq_some hfind
    have hoff : m.dataOffset a = offset := by simpa using find?_some hfind
    rw [if_pos (decide_eq_true (hoff ▸ mem_map_of_mem ha)), ← hoff, h.blockAt hwf (hheld.dom ha)]
    rfl

/-- The offset search finds the pool's block. -/
theorem findBlockByOffset (h : Rep m phys p) (hwf : p.WF) (offset : Nat) :
    ∃ found, m.findBlockByOffset offset = some found ∧
      found.map m.block = p.findByOffset offset ∧ ∀ a ∈ found, a ∈ phys := by
  obtain ⟨L, hheld⟩ := h.held
  have hwalk := h.walkList hheld fun a => decide (m.dataOffset a = offset)
  have hhere := h.find_here hwf hheld offset
  generalize hfound : (fun a => decide (m.dataOffset a = offset)) = here at hwalk hhere
  have hfree : firstFound (fun i => firstFound (fun j => m.walkList here (m.freeList i j))
      (range maxSl)) (range maxFl) = some ((range maxFl).findSome? fun i =>
        (range maxSl).findSome? fun j => (L (some (i, j))).find? here) :=
    firstFound_eq fun i _ => firstFound_eq fun j _ => hwalk (some (i, j))
  refine ⟨((L none).find? here).or ((range maxFl).findSome? fun i =>
    (range maxSl).findSome? fun j => (L (some (i, j))).find? here), ?_, ?_, fun a ha => ?_⟩
  · unfold Manager.findBlockByOffset
    dsimp only
    rw [hfound, hfree]
    have hused : m.walkList here m.usedList = some ((L none).find? here) := hwalk none
    rw [hused]
    cases (L none).find? here with
    | some a => rfl
    | none => cases (range maxFl).findSome? _ <;> rfl
  · have hany : ((range maxFl).findSome? fun i => (range maxSl).findSome? fun j =>
        (L (some (i, j))).find? here).map m.block =
        if (range maxFl).any fun i => (range maxSl).any fun j =>
          decide (offset ∈ p.freeList i j) then p.blockAt offset else none := by
      rw [map_findSome?, ← findSome?_ite]
      refine congrArg (fun f => findSome? f _) (funext fun i => ?_)
      rw [comp_apply, map_findSome?, ← findSome?_ite]
      exact congrArg (fun f => findSome? f _) (funext fun j => hhere (some (i, j)))
    rw [Option.map_or, hhere, hany]
    unfold Pool.findByOffset
    by_cases hmem : offset ∈ p.usedList
    · have hused : offset ∈ p.list none := hmem
      rw [if_pos (decide_eq_true hused), if_pos hmem]
      cases p.blockAt offset with
      | some b => rfl
      | none => split <;> rfl
    · have hused : offset ∉ p.list none := hmem
      rw [if_neg (by simpa using hused), if_neg hmem]
      rfl
  · rcases Option.or_eq_some_iff.mp ha with ha | ⟨-, ha⟩
    · exact hheld.dom (mem_of_find?_eq_some ha)
    · obtain ⟨i, -, hi⟩ := exists_of_findSome?_eq_some ha
      obtain ⟨j, -, hj⟩ := exists_of_findSome?_eq_some hi
      exact hheld.dom (mem_of_find?_eq_some hj)

end Rep

/-! ### The size word -/

section

variable {m : Manager} {a n : Addr} {need : Nat}

theorem block_markAsUsed (x : Addr) : (m.blockMarkAsUsed a).block x =
    if x = a then { m.block a with used := true } else m.block x := by
  by_cases hx : x = a
  · subst hx
    simp [Manager.block, Manager.blockMarkAsUsed, Manager.blockGetSize, Manager.blockIsUsed]
    omega
  · simp [Manager.block, Manager.blockMarkAsUsed, Manager.blockGetSize, Manager.blockIsUsed, hx]

theorem block_markAsFree (x : Addr) : (m.blockMarkAsFree a).block x =
    if x = a then { m.block a with used := false } else m.block x := by
  by_cases hx : x = a
  · subst hx
    simp [Manager.block, Manager.blockMarkAsFree, Manager.blockGetSize, Manager.blockIsUsed]
  · simp [Manager.block, Manager.blockMarkAsFree, Manager.blockGetSize, Manager.blockIsUsed, hx]

/-- Setting the size of a free block. -/
theorem block_setSize (hneed : need % 2 = 0) (hfree : m.blockIsUsed a = false) (x : Addr) :
    (m.blockSetSize a need).block x =
      if x = a then { m.block a with size := need } else m.block x := by
  have hword : m.size a % 2 ≠ 1 := by simpa [Manager.blockIsUsed] using hfree
  by_cases hx : x = a
  · subst hx
    simp [Manager.block, Manager.blockSetSize, Manager.blockGetSize, Manager.blockIsUsed, hword]
    omega
  · simp [Manager.block, Manager.blockSetSize, Manager.blockGetSize, Manager.blockIsUsed, hx]

theorem blockGetSize_even (x : Addr) : m.blockGetSize x % 2 = 0 := by
  unfold Manager.blockGetSize
  omega

/-- The two blocks that a block is cut into; what the new header held before does not matter. -/
theorem block_carve (hne : n ≠ a) (hfree : m.blockIsUsed a = false) (hneed : need % 2 = 0)
    (hoff : m.dataOffset a + need < 2 ^ 64) (x : Addr) :
    (m.carve a need n).block x =
      if x = a then { m.block a with size := need }
      else if x = n then ⟨m.dataOffset a + need, m.blockGetSize a - need, false⟩
      else m.block x := by
  have hword : m.size a % 2 ≠ 1 := by simpa [Manager.blockIsUsed] using hfree
  have hremain : (m.blockGetSize a - need) % 2 = 0 := by
    have := blockGetSize_even (m := m) a
    omega
  have hmod : (m.dataOffset a + need) % 2 ^ 64 = m.dataOffset a + need := Nat.mod_eq_of_lt hoff
  have hsize : (m.carve a need n).size =
      update (update m.size n (m.blockGetSize a - need)) a need := by
    funext y
    by_cases hya : y = a
    · subst hya
      simp [Manager.carve, Manager.insertFreeBlock, Manager.setFreeList, Manager.blockSetSize,
        Manager.blockMarkAsFree, Manager.malloc, hne.symm, hword]
    · by_cases hyn : y = n
      · subst hyn
        simp only [Manager.carve, Manager.insertFreeBlock, Manager.setFreeList,
          Manager.blockSetSize, Manager.blockMarkAsFree, Manager.malloc, update_of_ne hya,
          update_self]
        change (if m.size y % 2 = 1 then (m.blockGetSize a - need) / 2 * 2 + 1
          else m.blockGetSize a - need) / 2 * 2 = m.blockGetSize a - need
        split <;> omega
      · simp [Manager.carve, Manager.insertFreeBlock, Manager.setFreeList, Manager.blockSetSize,
          Manager.blockMarkAsFree, Manager.malloc, hya, hyn]
  have hoffset : (m.carve a need n).dataOffset =
      update m.dataOffset n (m.dataOffset a + need) := by
    rw [← hmod]
    rfl
  unfold Manager.block Manager.blockGetSize Manager.blockIsUsed
  rw [hsize, hoffset]
  by_cases hxa : x = a
  · subst hxa
    simp [hne.symm]
    omega
  · by_cases hxn : x = n
    · subst hxn
      have hget : m.blockGetSize a = m.size a / 2 * 2 := rfl
      simp only [update_of_ne hxa, update_self, if_neg hxa, if_true, mk.injEq, true_and]
      exact ⟨by omega, by simpa using hremain⟩
    · simp [hxa, hxn]

end

theorem map_middle {α β : Type*} {f g : α → β} {a : α} {xs ys : List α} (hnodup : (xs ++ a :: ys).Nodup)
    (h : ∀ x, x ≠ a → f x = g x) : (xs ++ a :: ys).map f = xs.map g ++ f a :: ys.map g := by
  obtain ⟨hax, hay, -⟩ := nodup_middle_iff.mp hnodup
  rw [map_append, map_cons]
  congr 1
  · exact map_congr_left fun x hx => h x fun hxa => hax (hxa ▸ hx)
  · congr 1
    exact map_congr_left fun x hx => h x fun hxa => hay (hxa ▸ hx)

/-- A list without the one header that was changed. -/
theorem map_of_ite {f g : Addr → Block} {xs : List Addr}
    (h : ∀ x, f x = if x = a then b else g x) (ha : a ∉ xs) : xs.map f = xs.map g :=
  map_congr_left fun x hx => (h x).trans (if_neg (ne_of_mem_of_not_mem hx ha))

/-! ### Allocating -/

variable {m : Manager}

/-- The lists after a block was cut: the new header was in none of them. -/
theorem Held.carve {dom : List Addr} {n : Addr} (need : Nat) (h : Held m p dom L) (hn : n ∉ dom)
    (hnew : ∀ k, (m.carve a need n).dataOffset n ∉ p.list k) :
    ∃ L, Held (m.carve a need n) (p.insertFree ((m.carve a need n).block n)) (n :: dom) L := by
  refine Held.insertFree (h.frame (fun x => mem_cons_of_mem n) ?_ ?_ ?_ rfl rfl) mem_cons_self hnew
  · exact fun x hx => update_of_ne (ne_of_mem_of_not_mem hx hn) _ _
  · exact fun x hx => update_of_ne (ne_of_mem_of_not_mem hx hn) _ _
  · exact fun x hx => update_of_ne (ne_of_mem_of_not_mem hx hn) _ _

/-- What `tlsf_split_block` leaves of the block at `a`, which is out of its list: `keep` at `a`,
the headers `new` behind it with the remainder, and the other headers as they were. -/
structure Carved (m m' : Manager) (us : List Addr) (a : Addr) (vs : List Addr) (keep : Block)
    (rest : Option Block) (p : Pool) : Prop where
  exists_new : ∃ new, new.map m'.block = rest.toList ∧
    Linked m'.phys (us ++ a :: (new ++ vs)).head? (us ++ a :: (new ++ vs)) ∧
    m'.live.Perm (us ++ a :: (new ++ vs)) ∧
    ∃ L, Held m' (match rest with
      | none => p.removeFree (m.block a)
      | some r => (p.removeFree (m.block a)).insertFree r) (us ++ a :: (new ++ vs)) L
  keep : m'.block a = keep
  before : us.map m'.block = us.map m.block
  after : vs.map m'.block = vs.map m.block
  fields : m'.initialized = m.initialized ∧ m'.shmTotalSize = m.shmTotalSize ∧
    m'.totalUsed = m.totalUsed

namespace Rep

variable {m : Manager} {phys us vs : List Addr} {p : Pool} {a : Addr} {need : Nat}
  {header : Option Addr}

/-- A block is in the list it belongs to. -/
theorem mem_list (h : Rep m phys p) (hwf : p.WF) (ha : a ∈ phys) :
    m.dataOffset a ∈ p.list k ↔ (m.block a).listId = k :=
  hwf.offset_mem_list (h.block_mem ha)

/-- Splitting the struct's block is splitting the pool's block. -/
theorem split (h : Rep m (us ++ a :: vs) p) (hwf : p.WF) (htotal : p.totalSize < 2 ^ 64)
    (hfree : (m.block a).used = false) (hpos : 0 < need) (hneed : need ≤ (m.block a).size)
    (heven : need % 2 = 0) (hfresh : ∀ n ∈ header, n ∉ m.live) :
    Carved m ((m.removeFreeBlock a).splitBlock a need header) us a vs
      (splitBlock header.isSome (m.block a) need).1
      (splitBlock header.isSome (m.block a) need).2 p := by
  obtain ⟨L, hheld⟩ := h.held
  have ha : a ∈ us ++ a :: vs := by simp
  have hclass := listId_eq_some.mpr ⟨hfree, rfl⟩
  obtain ⟨L', hremoved⟩ := hheld.removeFree (h.offsets hwf) ha ((h.mem_list hwf ha).mpr hclass)
  have hwhole : Carved m (m.removeFreeBlock a) us a vs (m.block a) none p :=
    ⟨⟨[], rfl, h.chain, h.live, L', hremoved⟩, rfl, rfl, rfl, rfl, rfl, rfl⟩
  unfold Manager.splitBlock splitBlock
  dsimp only
  by_cases hremain : (m.block a).size - need < align
  · rw [if_pos hremain]
    have hremain' : (m.removeFreeBlock a).blockGetSize a - need < align := hremain
    rwa [if_pos hremain']
  · rw [if_neg hremain]
    have hremain' : ¬ (m.removeFreeBlock a).blockGetSize a - need < align := hremain
    rw [if_neg hremain']
    cases header with
    | none => exact hwhole
    | some n =>
      simp only [Option.isSome_some, Bool.not_true, Bool.false_eq_true, if_false]
      have hn : n ∉ us ++ a :: vs := fun hmem => hfresh n rfl (h.live.mem_iff.mpr hmem)
      have hna : n ≠ a := fun heq => hn (heq ▸ ha)
      have hbounds := hwf.tiles.bounds (h.block_mem ha)
      have hinside := hwf.inside
      have hlt : m.dataOffset a + need < 2 ^ 64 := by
        have hle : m.dataOffset a + (m.block a).size ≤ 0 + span size p.blocks := hbounds.2
        omega
      have hblock := block_carve (m := m.removeFreeBlock a) hna hfree heven hlt
      have hat : ((m.removeFreeBlock a).carve a need n).block a =
          { m.block a with size := need } := by
        rw [hblock, if_pos rfl]
        rfl
      have hnew : ((m.removeFreeBlock a).carve a need n).block n =
          ⟨(m.block a).offset + need, (m.block a).size - need, false⟩ := by
        rw [hblock, if_neg hna, if_pos rfl]
        rfl
      -- no block starts where the remainder does
      have hcut : Cut (m.block a) { (m.block a) with size := need, used := true }
          (some ⟨(m.block a).offset + need, (m.block a).size - need, false⟩) := by
        have hcut := cut_splitBlock true hpos hneed
        unfold splitBlock at hcut
        simpa [hremain] using hcut
      have hstart : ∀ x ∈ p.blocks, x.offset ≠ (m.block a).offset + need :=
        fun x hx => rest_fresh hwf h.blocks_eq hcut rfl hx
      have hout : ∀ x, x ≠ a → x ≠ n →
          ((m.removeFreeBlock a).carve a need n).block x = m.block x := by
        intro x hxa hxn
        rw [hblock, if_neg hxa, if_neg hxn]
        rfl
      obtain ⟨L₂, hcarved⟩ := hremoved.carve need hn fun k hmem => by
        have hoff := congrArg offset hnew
        change ((m.removeFreeBlock a).carve a need n).dataOffset n = _ at hoff
        rw [hoff, list_removeFree] at hmem
        have hmem' : (m.block a).offset + need ∈ p.list k := by
          split at hmem
          · exact mem_of_mem_erase hmem
          · exact hmem
        obtain ⟨x, hx, -, hoff⟩ := hwf.mem_list.mp hmem'
        exact hstart x hx hoff
      rw [hnew] at hcarved
      obtain ⟨hnus, hnvs⟩ : n ∉ us ∧ n ∉ vs := by
        simp only [mem_append, List.mem_cons, not_or] at hn
        exact ⟨hn.1, hn.2.2⟩
      obtain ⟨haus, havs, -⟩ := nodup_middle_iff.mp h.chain.nodup
      refine ⟨⟨[n], ?_, ?_, ?_, L₂, ?_⟩, hat, ?_, ?_, rfl, rfl, rfl⟩
      · rw [map_singleton, hnew]
        rfl
      · have hchain := h.chain.insertAfter hn
        have hhead : (us ++ a :: ([n] ++ vs)).head? = (us ++ a :: vs).head? := by
          cases us <;> rfl
        rwa [hhead]
      · have hperm : (n :: m.live).Perm (n :: (us ++ a :: vs)) := h.live.cons n
        rw [append_cons us a] at hperm ⊢
        exact hperm.trans perm_middle.symm
      · refine hcarved.frame (fun x hx => ?_) (fun _ _ => rfl) (fun _ _ => rfl) (fun _ _ => rfl)
          rfl rfl
        simp only [List.mem_cons, mem_append] at hx ⊢
        tauto
      · exact map_congr_left fun x hx =>
          hout x (ne_of_mem_of_not_mem hx haus) (ne_of_mem_of_not_mem hx hnus)
      · exact map_congr_left fun x hx =>
          hout x (ne_of_mem_of_not_mem hx havs) (ne_of_mem_of_not_mem hx hnvs)

theorem totalUsed_addUsed (hlt : m.totalUsed + m.blockGetSize a < 2 ^ 64) :
    (m.addUsed a).totalUsed = m.totalUsed + m.blockGetSize a := by
  unfold Manager.addUsed
  exact Nat.mod_eq_of_lt hlt

theorem block_subUsed : (m.subUsed a).block = m.block := rfl

theorem totalUsed_markAsFree : (m.blockMarkAsFree a).totalUsed = m.totalUsed := rfl

theorem totalUsed_subUsed (hle : m.blockGetSize a ≤ m.totalUsed) :
    (m.subUsed a).totalUsed = m.totalUsed - m.blockGetSize a :=
  subU64_of_le hle

/-- What is used fits in the buffer. -/
theorem totalUsed_le (hwf : p.WF) : p.totalUsed ≤ p.totalSize := by
  rw [hwf.total]
  exact (span_filter_le _).trans hwf.inside

/-- A block that was cut is marked as used and put into the used list. -/
theorem handOut {m' : Manager} {keep : Block} {rest : Option Block} (h : Rep m (us ++ a :: vs) p)
    (hwf : p.WF) (htotal : p.totalSize < 2 ^ 64) (hfree : (m.block a).used = false)
    (hcut : Cut (m.block a) { keep with used := true } rest)
    (hcarved : Carved m m' us a vs keep rest p) :
    ∃ phys', Rep (((m'.blockMarkAsUsed a).insertUsedBlock a).addUsed a) phys'
      (p.place (m.block a) { keep with used := true } rest) := by
  have ha : a ∈ us ++ a :: vs := by simp
  have hwf' := wf_place hwf (h.block_mem ha) hfree hcut
  obtain ⟨new, hnew, hchain, hlive, L, hheld⟩ := hcarved.exists_new
  have hmarked := block_markAsUsed (m := m') (a := a)
  have hkept : (m'.blockMarkAsUsed a).block a = { keep with used := true } := by
    rw [hmarked, if_pos rfl, hcarved.keep]
  obtain ⟨hx, hy⟩ := h.offset_ne hwf
  have hplace := @place_blocks p (m.block a) { keep with used := true } rest _ _ h.blocks_eq hx hy
  have hblocks : (us ++ a :: (new ++ vs)).map (m'.blockMarkAsUsed a).block =
      (p.place (m.block a) { keep with used := true } rest).blocks := by
    rw [map_middle hchain.nodup fun x hx => (hmarked x).trans (if_neg hx), hkept, map_append,
      hnew, hcarved.before, hcarved.after, hplace]
    simp
  generalize hpool : (match rest with
    | none => p.removeFree (m.block a)
    | some r => (p.removeFree (m.block a)).insertFree r) = p₂ at hheld
  have hlists : (p.place (m.block a) { keep with used := true } rest).list =
      { p₂ with usedList := (m.block a).offset :: p₂.usedList }.list ∧ p.usedList = p₂.usedList := by
    subst hpool
    cases rest <;> exact ⟨rfl, rfl⟩
  have hoffset : m'.dataOffset a = (m.block a).offset :=
    (congrArg offset hcarved.keep).trans hcut.offset
  refine ⟨us ++ a :: (new ++ vs), ?_, ?_, ?_, hchain, hlive, hblocks, ?_⟩
  · exact hcarved.fields.1.trans (h.initialized.trans place_fields.1.symm)
  · exact hcarved.fields.2.1.trans (h.totalSize.trans place_fields.2.symm)
  · have hle := totalUsed_le hwf'
    rw [place_fields.2] at hle
    have hused : (p.place (m.block a) { keep with used := true } rest).totalUsed =
        p.totalUsed + keep.size := rfl
    have hsize : (m'.blockMarkAsUsed a).blockGetSize a = keep.size := congrArg size hkept
    have hbefore : ((m'.blockMarkAsUsed a).insertUsedBlock a).totalUsed = p.totalUsed :=
      hcarved.fields.2.2.trans h.totalUsed
    have hsize' : ((m'.blockMarkAsUsed a).insertUsedBlock a).blockGetSize a = keep.size := hsize
    rw [hused] at hle ⊢
    rw [totalUsed_addUsed (by omega), hbefore, hsize']
  · -- the lists of the pool do not hold the block yet
    have hnotIn : ∀ k, m'.dataOffset a ∉ p₂.list k := by
      rw [hoffset]
      rintro (_ | c) hmem
      · have hmem' : (m.block a).offset ∈ p.usedList := by
          rwa [hlists.2]
        have hused := listId_eq_none.mp ((h.mem_list hwf ha (k := none)).mp hmem')
        cases hfree.symm.trans hused
      · have hmem' : (m.block a).offset ∈
            (p.place (m.block a) { keep with used := true } rest).list (some c) := by
          rwa [hlists.1]
        have hkeptMem : { keep with used := true } ∈
            (p.place (m.block a) { keep with used := true } rest).blocks := by
          rw [hplace]
          simp
        rw [← hcut.offset] at hmem'
        cases (hwf'.offset_mem_list hkeptMem).mp hmem'
    obtain ⟨L', hinserted⟩ := Held.insertUsed (m := m'.blockMarkAsUsed a)
      (hheld.congr rfl rfl rfl rfl)
      (by simp) hnotIn
    refine ⟨L', hinserted.congr rfl rfl rfl ?_⟩
    rw [hlists.1, ← hoffset]
    rfl

/-- Allocating on the headers is allocating on the pool. -/
theorem alloc {size : Nat} (h : Rep m phys p) (hwf : p.WF) (htotal : p.totalSize < 2 ^ 64)
    (hpos : 0 < alignSize size) (hfresh : ∀ n ∈ header, n ∉ m.live) :
    ∃ m' phys', m.alloc size header = some ((alloc p size header.isSome).map Prod.fst, m') ∧
      Rep m' phys' ((alloc p size header.isSome).elim p Prod.snd) := by
  have hzero : size ≠ 0 := by
    rintro rfl
    exact absurd hpos (by decide)
  obtain ⟨found, hfind, hsame, hsub⟩ := h.findBlock hwf (alignSize size)
  unfold Manager.alloc
  rw [if_neg (by simp [h.initialized, hwf.initialized, hzero]), alloc_eq _ hwf.initialized hzero]
  dsimp only
  rw [hfind, ← hsame]
  cases found with
  | none => exact ⟨m, phys, rfl, h⟩
  | some a =>
    have ha := hsub a rfl
    obtain ⟨hmem, hfree, hneed⟩ := hwf.findBlock_spec (b := m.block a) hsame.symm
    have heven : alignSize size % 2 = 0 := by
      unfold alignSize align
      omega
    obtain ⟨us, vs, rfl⟩ := append_of_mem ha
    have hsplit := h.split hwf htotal hfree hpos hneed heven hfresh
    have hcut := cut_splitBlock header.isSome hpos hneed
    have hwf' := wf_place hwf hmem hfree hcut
    obtain ⟨phys', hrep⟩ := h.handOut hwf htotal hfree hcut hsplit
    have hoffset := (congrArg offset hsplit.keep).trans hcut.offset
    refine ⟨_, phys', ?_, hrep⟩
    rw [map_some, map_some, map_some]
    exact congrArg some (Prod.ext (congrArg some hoffset) rfl)

end Rep

/-! ### Freeing -/

/-- The header of `b` is given up, and `a`, which is free, takes its bytes. -/
theorem block_absorb {b : Addr} (hfree : m.blockIsUsed a = false)
    (hlt : m.blockGetSize a + m.blockGetSize b < 2 ^ 64) (x : Addr) :
    (m.absorb a b).block x =
      if x = a then { m.block a with size := (m.block a).size + (m.block b).size }
      else m.block x := by
  have heven : (m.blockGetSize a + m.blockGetSize b) % 2 = 0 := by
    have ha := blockGetSize_even (m := m) a
    have hb := blockGetSize_even (m := m) b
    omega
  have hset := block_setSize (m := m) (a := a) heven hfree x
  unfold Manager.absorb
  rwa [Nat.mod_eq_of_lt hlt]

/-- A state between the steps of `tlsf_free`: the block at `a` is free and in no list, the
headers `us` lie before it and `vs` behind it. `dom` are the headers the call started with. -/
structure Mid (m : Manager) (p : Pool) (dom us : List Addr) (a : Addr) (vs : List Addr) : Prop where
  initialized : m.initialized = p.initialized
  totalSize : m.shmTotalSize = p.totalSize
  totalUsed : m.totalUsed = p.totalUsed
  chain : Linked m.phys (us ++ a :: vs).head? (us ++ a :: vs)
  live : m.live.Perm (us ++ a :: vs)
  sub : ∀ x ∈ us ++ a :: vs, x ∈ dom
  offsets : (dom.map m.dataOffset).Nodup
  held : ∃ L, Held m p dom L
  merging : Merging p (us.map m.block) (m.block a) (vs.map m.block)
  small : span size ((us ++ a :: vs).map m.block) < 2 ^ 64

namespace Mid

variable {m : Manager} {p : Pool} {dom us vs : List Addr} {a b : Addr}

/-- A free neighbour leaves its list. -/
theorem removeFree (h : Mid m p dom us a vs) (hb : b ∈ us ∨ b ∈ vs)
    (hfree : (m.block b).used = false) :
    ∃ L, Held (m.removeFreeBlock b) (p.removeFree (m.block b)) dom L := by
  obtain ⟨L, hheld⟩ := h.held
  have hdom : b ∈ dom := by
    refine h.sub b ?_
    rw [mem_append, List.mem_cons]
    tauto
  refine hheld.removeFree h.offsets hdom ?_
  refine (h.merging.free.mem _ _ _).mpr ⟨m.block b, ⟨?_, hfree⟩, rfl, rfl⟩
  exact hb.imp mem_map_of_mem mem_map_of_mem

/-- The free block at `a` takes in the block at `b` behind it. One of the two is the block
being freed, the other one, at `q`, leaves its list first. -/
theorem absorb {c q : Addr} {us' vs' : List Addr} (h : Mid m p dom us' c vs')
    (hlist : us' ++ c :: vs' = us ++ a :: b :: vs) (hq : q ∈ us' ∨ q ∈ vs')
    (hqfree : (m.block q).used = false) (hfree : (m.block a).used = false)
    (hmerging : Merging (p.removeFree (m.block q)) (us.map m.block)
      { m.block a with size := (m.block a).size + (m.block b).size } (vs.map m.block)) :
    Mid ((m.removeFreeBlock q).absorb a b) (p.removeFree (m.block q)) dom us a vs ∧
      us.map ((m.removeFreeBlock q).absorb a b).block = us.map m.block ∧
      ((m.removeFreeBlock q).absorb a b).block a =
        { m.block a with size := (m.block a).size + (m.block b).size } ∧
      vs.map ((m.removeFreeBlock q).absorb a b).block = vs.map m.block := by
  have hchain := h.chain
  have hperm := h.live
  have hsmall := h.small
  have hsub := h.sub
  rw [hlist] at hchain hperm hsmall hsub
  have hlt : (m.block a).size + (m.block b).size < 2 ^ 64 := by
    simp only [map_append, map_cons, span_append, span_cons] at hsmall
    omega
  have habsorb : ∀ x, ((m.removeFreeBlock q).absorb a b).block x =
      if x = a then { m.block a with size := (m.block a).size + (m.block b).size }
      else m.block x := block_absorb hfree hlt
  have hbypass := hchain.bypass
  obtain ⟨hau, hav, -⟩ := nodup_middle_iff.mp hbypass.nodup
  have hus := map_of_ite habsorb hau
  have hvs := map_of_ite habsorb hav
  have hat := (habsorb a).trans (if_pos rfl)
  refine ⟨⟨h.initialized, h.totalSize, h.totalUsed, ?_, ?_, ?_, h.offsets, ?_, ?_, ?_⟩,
    hus, hat, hvs⟩
  · have hhead : (us ++ a :: b :: vs).head? = (us ++ a :: vs).head? := by cases us <;> rfl
    rwa [hhead] at hbypass
  · change (m.live.erase b).Perm _
    refine (hperm.erase b).trans ?_
    have hbu : b ∉ us ++ [a] := by
      have hnodup := hchain.nodup
      rw [append_cons] at hnodup
      exact (nodup_middle_iff.mp hnodup).1
    rw [append_cons us a, erase_middle hbu, append_assoc]
    rfl
  · intro x hx
    refine hsub x ?_
    simp only [mem_append, List.mem_cons] at hx ⊢
    tauto
  · obtain ⟨L, hheld⟩ := h.removeFree hq hqfree
    exact ⟨L, hheld.congr rfl rfl rfl rfl⟩
  · rwa [hus, hat, hvs]
  · rw [map_append, map_cons, hus, hat, hvs]
    simp only [map_append, map_cons, span_append, span_cons] at hsmall ⊢
    omega

/-- Merging with the block before, in both models. -/
theorem mergePrev (h : Mid m p dom us a vs) :
    ∃ us', Mid (m.mergePrev a).1 (mergePrev p (us.map m.block).reverse (m.block a)).1 dom us'
        (m.mergePrev a).2 vs ∧
      us'.map (m.mergePrev a).1.block =
        (mergePrev p (us.map m.block).reverse (m.block a)).2.1.reverse ∧
      (m.mergePrev a).1.block (m.mergePrev a).2 =
        (mergePrev p (us.map m.block).reverse (m.block a)).2.2 ∧
      vs.map (m.mergePrev a).1.block = vs.map m.block := by
  have hprev := h.chain.at.2
  have hspec := (mergePrev_spec h.merging).merging
  unfold Manager.mergePrev
  rcases eq_nil_or_concat us with rfl | ⟨us, q, rfl⟩
  · rw [hprev]
    exact ⟨[], h, rfl, rfl, rfl⟩
  rw [concat_eq_append] at *
  rw [getLast?_concat] at hprev
  have hbefore : ((us ++ [q]).map m.block).reverse = m.block q :: (us.map m.block).reverse := by
    simp
  rw [hbefore] at hspec ⊢
  have hused : m.blockIsUsed q = (m.block q).used := rfl
  simp only [hprev, hused, mergePrev] at hspec ⊢
  by_cases hq : (m.block q).used = true
  · rw [if_pos hq, if_pos hq]
    exact ⟨us ++ [q], h, by simp, rfl, rfl⟩
  · rw [if_neg hq, reverse_reverse] at hspec
    rw [if_neg hq, if_neg hq, reverse_reverse]
    rw [Bool.not_eq_true] at hq
    exact ⟨us, h.absorb (by simp) (.inl (by simp)) hq hq hspec⟩

/-- Merging with the block after, in both models. -/
theorem mergeNext (h : Mid m p dom us a vs) :
    ∃ vs', Mid (m.mergeNext a) (mergeNext p (vs.map m.block) (m.block a)).1 dom us a vs' ∧
      us.map (m.mergeNext a).block = us.map m.block ∧
      (m.mergeNext a).block a = (mergeNext p (vs.map m.block) (m.block a)).2.2 ∧
      vs'.map (m.mergeNext a).block = (mergeNext p (vs.map m.block) (m.block a)).2.1 := by
  have hnext := h.chain.at.1
  have hspec := (mergeNext_spec h.merging).merging
  unfold Manager.mergeNext
  cases vs with
  | nil =>
    rw [hnext]
    exact ⟨[], h, rfl, rfl, rfl⟩
  | cons q vs =>
    have hused : m.blockIsUsed q = (m.block q).used := rfl
    simp only [hnext, head?_cons, hused, map_cons, mergeNext] at hspec ⊢
    by_cases hq : (m.block q).used = true
    · rw [if_pos hq, if_pos hq]
      exact ⟨q :: vs, h, rfl, rfl, rfl⟩
    · rw [if_neg hq] at hspec
      rw [if_neg hq, if_neg hq]
      rw [Bool.not_eq_true] at hq
      exact ⟨vs, h.absorb rfl (.inr (by simp)) hq h.merging.unused hspec⟩

/-- The merged block goes into its free list. The headers of the lists are among those left,
since the lists hold blocks of the pool. -/
theorem settle (h : Mid m p dom us a vs)
    (hwf : (p.settle (us.map m.block) (m.block a) (vs.map m.block)).WF) :
    Rep (m.insertFreeBlock a) (us ++ a :: vs)
      (p.settle (us.map m.block) (m.block a) (vs.map m.block)) := by
  have hblocks : (us ++ a :: vs).map m.block =
      (p.settle (us.map m.block) (m.block a) (vs.map m.block)).blocks := by
    rw [map_append, map_cons]
    rfl
  refine ⟨h.initialized, h.totalSize, h.totalUsed, h.chain, h.live, hblocks, ?_⟩
  obtain ⟨L, hheld⟩ := h.held
  have ha : m.block a ∈ (p.settle (us.map m.block) (m.block a) (vs.map m.block)).blocks := by
    rw [← hblocks]
    exact mem_map_of_mem (by simp)
  have hnotIn : ∀ k, m.dataOffset a ∉ p.list k := by
    rintro (_ | c) hmem
    · have hused := listId_eq_none.mp ((hwf.offset_mem_list ha (k := none)).mp hmem)
      cases h.merging.unused.symm.trans hused
    · obtain ⟨x, ⟨hx, -⟩, hoff, -⟩ := (h.merging.free.mem _ _ _).mp hmem
      have hnodup := h.merging.nodup
      rw [map_append, map_cons, nodup_middle, nodup_cons, ← map_append]
        at hnodup
      exact hnodup.1 (mem_map.mpr ⟨x, mem_append.mpr hx, hoff⟩)
  obtain ⟨L', hinserted⟩ := hheld.insertFree (h.sub a (by simp)) hnotIn
  have hpool : Held (m.insertFreeBlock a)
      (p.settle (us.map m.block) (m.block a) (vs.map m.block)) dom L' :=
    hinserted.congr rfl rfl rfl rfl
  refine ⟨L', { hpool with dom := fun hx => ?_ }⟩
  obtain ⟨c, hc, -, hoff⟩ := hwf.mem_list.mp ((hpool.mem_iff h.offsets (hpool.dom hx)).mp hx)
  rw [← hblocks] at hc
  obtain ⟨y, hy, rfl⟩ := mem_map.mp hc
  rwa [← Held.eq_of_offset h.offsets (h.sub y hy) (hpool.dom hx) hoff]

end Mid

namespace Rep

variable {m : Manager} {phys us vs : List Addr} {p : Pool} {a : Addr}

/-- The first steps of `tlsf_free` on a used block: out of the used list, and marked as free. -/
theorem unuse (h : Rep m (us ++ a :: vs) p) (hwf : p.WF) (htotal : p.totalSize < 2 ^ 64)
    (hused : (m.block a).used = true) :
    ∃ m', m.removeUsedBlock a = some m' ∧
      us.map ((m'.subUsed a).blockMarkAsFree a).block = us.map m.block ∧
      ((m'.subUsed a).blockMarkAsFree a).block a = { m.block a with used := false } ∧
      vs.map ((m'.subUsed a).blockMarkAsFree a).block = vs.map m.block ∧
      Mid ((m'.subUsed a).blockMarkAsFree a) (p.unuse (m.block a)) (us ++ a :: vs) us a vs := by
  have ha : a ∈ us ++ a :: vs := by simp
  obtain ⟨L, hheld⟩ := h.held
  have hmem : m.dataOffset a ∈ p.usedList := (hwf.used _).mpr ⟨m.block a, h.block_mem ha, hused, rfl⟩
  obtain ⟨next, head, heq, L', hremoved⟩ := hheld.removeUsed (h.offsets hwf) ha hmem
    (h.length_le (hheld.nodup none) fun _ => hheld.dom)
  refine ⟨_, heq, ?_⟩
  generalize hm₁ : ({ m with free := { m.free with next := next }, usedList := head } : Manager) = m₁
    at hremoved
  have hblock : m₁.block = m.block := by rw [← hm₁]; rfl
  have hmarked : ∀ x, ((m₁.subUsed a).blockMarkAsFree a).block x =
      if x = a then { m.block a with used := false } else m.block x := by
    intro x
    rw [block_markAsFree, block_subUsed, hblock]
  obtain ⟨hau, hav, -⟩ := nodup_middle_iff.mp h.chain.nodup
  have hus := map_of_ite hmarked hau
  have hvs := map_of_ite hmarked hav
  have hat := (hmarked a).trans (if_pos rfl)
  have hsplit := h.blocks_eq
  have hmerging := merging_unuse hwf hsplit hused
  have hsize : m₁.blockGetSize a = (m.block a).size := congrArg size (congrFun hblock a)
  subst hm₁
  refine ⟨hus, hat, hvs, h.initialized, h.totalSize, ?_, h.chain, h.live, fun x hx => hx,
    h.offsets hwf, ⟨L', hremoved.congr rfl rfl rfl rfl⟩, ?_, ?_⟩
  · have hle := totalUsed_le hwf
    have hpart : (m.block a).size ≤ p.totalUsed := by
      rw [hwf.total, Pool.usedBlocks, hsplit, filter_append, filter_cons_of_pos hused,
        span_append, span_cons]
      omega
    have htot := h.totalUsed
    rw [totalUsed_markAsFree, totalUsed_subUsed (by rw [hsize]; dsimp only; omega), hsize]
    dsimp only
    rw [htot]
    rfl
  · rwa [hus, hat, hvs]
  · rw [map_append, map_cons, hus, hat, hvs]
    have hinside := hwf.inside
    rw [hsplit] at hinside
    simp only [span_append, span_cons] at hinside ⊢
    omega

/-- Freeing a used block on the headers is freeing it on the pool. -/
theorem free_used (h : Rep m (us ++ a :: vs) p) (hwf : p.WF) (htotal : p.totalSize < 2 ^ 64)
    (hused : (m.block a).used = true) :
    ∃ m' phys', m.removeUsedBlock a = some m' ∧
      Rep (((m'.subUsed a).blockMarkAsFree a).coalesce a) phys'
        (Tlsf.free p (m.block a).offset) := by
  have ha : a ∈ us ++ a :: vs := by simp
  obtain ⟨m', hremoved, hus, hat, hvs, hmid⟩ := h.unuse hwf htotal hused
  have hfreeEq := free_eq hwf h.blocks_eq (h.offset_ne hwf).1 hused
  have hwf' := wf_free hwf (h.block_mem ha) hused
  -- merge with both neighbours and settle
  obtain ⟨us', hmid₁, hus₁, hat₁, hvs₁⟩ := hmid.mergePrev
  rw [hus, hat] at hmid₁ hus₁ hat₁
  rw [hvs] at hvs₁
  obtain ⟨vs', hmid₂, hus₂, hat₂, hvs₂⟩ := hmid₁.mergeNext
  rw [hvs₁, hat₁] at hmid₂ hat₂ hvs₂
  rw [hus₁] at hus₂
  dsimp only at hfreeEq
  rw [← hus₂, ← hat₂, ← hvs₂] at hfreeEq
  rw [hfreeEq] at hwf' ⊢
  exact ⟨m', _, hremoved, hmid₂.settle hwf'⟩

/-- Freeing on the headers is freeing on the pool. -/
theorem free (h : Rep m phys p) (hwf : p.WF) (htotal : p.totalSize < 2 ^ 64) (offset : Nat) :
    ∃ m' phys', m.freeOffset offset = some m' ∧ Rep m' phys' (Tlsf.free p offset) := by
  obtain ⟨found, hfind, hsame, hsub⟩ := h.findBlockByOffset hwf offset
  unfold Manager.freeOffset
  by_cases hout : (!p.initialized || decide (p.totalSize ≤ offset)) = true
  · rw [if_pos (by rw [h.initialized, h.totalSize]; exact hout)]
    refine ⟨m, phys, rfl, ?_⟩
    unfold Tlsf.free
    rwa [if_pos hout]
  rw [if_neg (by rw [h.initialized, h.totalSize]; exact hout), hfind, Option.bind_some]
  cases found with
  | none =>
    refine ⟨m, phys, rfl, ?_⟩
    unfold Tlsf.free
    rwa [if_neg hout, ← hsame]
  | some a =>
    have ha := hsub a rfl
    have hoffset : (m.block a).offset = offset := by
      have hat : p.blockAt offset = some (m.block a) := by
        rw [map_some] at hsame
        unfold Pool.findByOffset at hsame
        split at hsame
        · exact hsame.symm
        · split at hsame
          · exact hsame.symm
          · cases hsame
      simpa using find?_some hat
    dsimp only
    cases hused : m.blockIsUsed a with
    | false =>
      rw [if_pos (by decide), free_of_not_used hwf]
      · exact ⟨m, phys, rfl, h⟩
      · rintro ⟨x, hx, hoff⟩
        obtain ⟨hx, hu⟩ := mem_usedBlocks.mp hx
        rw [hwf.eq_of_offset hx (h.block_mem ha) (hoff.trans hoffset.symm)] at hu
        cases hused.symm.trans hu
    | true =>
      obtain ⟨us, vs, rfl⟩ := append_of_mem ha
      obtain ⟨m', phys', hremoved, hrep⟩ := h.free_used hwf htotal hused
      rw [if_neg (by decide), hremoved, map_some, ← hoffset]
      exact ⟨_, phys', rfl, hrep⟩

end Rep

/-! ### Setting up -/

/-- The lists after the first block was inserted. -/
theorem held_first (hfree : m.freeList = fun _ _ => none)
    (hused : m.usedList = none) (hpfree : p.freeList = fun _ _ => []) (hpused : p.usedList = [])
    (a : Addr) : ∃ L, Held (m.insertFreeBlock a) (p.insertFree (m.block a)) [a] L := by
  have hhead : ∀ k, m.head k = none := by
    unfold Manager.head
    rw [hfree, hused]
    rintro (_ | _) <;> rfl
  have hlist : ∀ k, p.list k = [] := by
    unfold Pool.list
    rw [hpfree, hpused]
    rintro (_ | _) <;> rfl
  have hempty : Held m p [a] fun _ => [] := by
    refine ⟨hhead, fun _ => trivial, fun _ => nodup_nil, nofun, nofun, ?_⟩
    exact fun k => (hlist k).symm
  exact hempty.insertFree (mem_singleton_self a) fun k => by simp [hlist]

/-- The pool as `tlsf_pool_init` sets it up, from a manager that was not initialised. -/
theorem rep_poolInit (hinit : m.initialized = false) (hlive : m.live = [])
    (size : Nat) (a : Addr) : Rep (m.poolInit size (some a)).1 [a] (init size) := by
  have hblock : (m.poolInit size (some a)).1.block a = ⟨0, size / 2 * 2, false⟩ := by
    unfold Manager.poolInit
    rw [if_neg (by simp [hinit])]
    simp only [Manager.block, Manager.blockGetSize, Manager.blockIsUsed, Manager.insertFreeBlock,
      Manager.setFreeList, Manager.blockMarkAsFree, Manager.blockSetSize, update_self]
    split
    · simp
      omega
    · simp
  unfold Manager.poolInit at hblock ⊢
  rw [if_neg (by simp [hinit])] at hblock ⊢
  dsimp only at hblock ⊢
  refine ⟨rfl, rfl, rfl, ?_, ?_, ?_, ?_⟩
  · refine ⟨⟨rfl, ?_⟩, ⟨?_, trivial⟩, nodup_singleton a⟩
    · exact update_self ..
    · exact update_self ..
  · change (a :: m.live).Perm [a]
    rw [hlive]
  · rw [map_singleton, hblock]
    rfl
  · obtain ⟨L, hheld⟩ := held_first
      (p := ⟨true, [⟨0, size / 2 * 2, false⟩], fun _ _ => [], [], size, 0⟩)
      (m := { m with
        freeList := fun _ _ => none, usedList := none, shmTotalSize := size, totalUsed := 0
        live := a :: m.live
        size := ((({ m with freeList := fun _ _ => none, usedList := none } : Manager).malloc a
          |>.blockSetSize a size).blockMarkAsFree a).size
        dataOffset := update m.dataOffset a 0
        phys := (m.phys.setPrev a none).setNext a none
        free := (m.free.setPrev a none).setNext a none }) rfl rfl rfl rfl a
    refine ⟨L, hheld.congr rfl rfl rfl ?_⟩
    exact congrArg (fun b => (Pool.insertFree _ b).list) hblock.symm

/-! ### Runs -/

/-- A call on the headers; `header` is what `malloc` returns for the header of a remainder. -/
inductive HeapCall where
  | alloc (size : Nat) (header : Option Addr)
  | free (offset : Nat)
  deriving DecidableEq, Repr

/-- The headers, and the ledger of what the callers hold. -/
structure HeapSession where
  mgr : Manager
  lent : List (Nat × Nat)

open HeapSession

/-- One call; `none` if it does not return. -/
def HeapSession.call (s : HeapSession) : HeapCall → Option HeapSession
  | .alloc size header =>
    (s.mgr.alloc size header).map fun r =>
      ⟨r.2, match r.1 with
        | none => s.lent
        | some off => (off, size) :: s.lent⟩
  | .free offset => (s.mgr.freeOffset offset).map fun m => ⟨m, s.lent.filter (·.1 != offset)⟩

/-- One call of a run, in which all calls so far have returned or not. -/
def HeapSession.step (s : Option HeapSession) (c : HeapCall) : Option HeapSession :=
  s.bind (·.call c)

/-- What runs may ask for: sizes up to `2 ^ 64 - 64`; and `malloc` returns a header that is not
in use. -/
def HeapSession.Allowed : Option HeapSession → HeapCall → Prop
  | some s, .alloc size header => size ≤ maxRequest ∧ ∀ n ∈ header, n ∉ s.mgr.live
  | _, _ => True

instance : ∀ s c, Decidable (HeapSession.Allowed s c)
  | some s, .alloc size header =>
    inferInstanceAs (Decidable (size ≤ maxRequest ∧ ∀ n ∈ header, n ∉ s.mgr.live))
  | some _, .free _ => isTrue trivial
  | none, .alloc _ _ => isTrue trivial
  | none, .free _ => isTrue trivial

def HeapCall.onPool : HeapCall → PoolCall
  | .alloc size header => .alloc size header.isSome
  | .free offset => .free offset

/-- The headers are those of the pool session `t`, and the callers hold the same areas. -/
def HeapSession.Shows (size : Nat) (s : Option HeapSession) (t : Session) : Prop :=
  ∃ (s' : HeapSession) (phys : List Addr),
    s = some s' ∧ t.Inv size ∧ t.lent = s'.lent ∧ Rep s'.mgr phys t.pool

/-- One allowed call keeps the two sessions in step. -/
theorem HeapSession.Shows.step {size : Nat} (hsize : size < 2 ^ 64) {s : Option HeapSession}
    {t : Session} {c : HeapCall} (h : Shows size s t) (hc : Allowed s c) :
    Shows size (step s c) (t.step c.onPool) := by
  obtain ⟨s, phys, rfl, hinv, hlent, hrep⟩ := h
  have htotal : t.pool.totalSize < 2 ^ 64 := hinv.total.trans_lt hsize
  cases c with
  | alloc request header =>
    have hnext := hinv.alloc header.isSome hc.1
    change Shows size ((s.mgr.alloc request header).map _) (t.step (.alloc request header.isSome))
    unfold Session.step at hnext ⊢
    dsimp only at hnext ⊢
    by_cases hzero : request = 0
    · have hm : s.mgr.alloc request header = some (none, s.mgr) := by
        unfold Manager.alloc
        rw [if_pos (by simp [hzero])]
      have hnone : alloc t.pool request header.isSome = none := by simp [alloc, hzero]
      rw [hm, hnone]
      exact ⟨s, phys, rfl, hinv, hlent, hrep⟩
    have hpos : 0 < alignSize request := by
      rw [alignSize_eq hc.1]
      have := le_roundUp request
      omega
    obtain ⟨m', phys', hm, hrep'⟩ := hrep.alloc hinv.packed.wf htotal hpos hc.2
    rw [hm, map_some]
    cases halloc : alloc t.pool request header.isSome with
    | none =>
      rw [halloc] at hrep'
      exact ⟨_, phys', rfl, hinv, hlent, hrep'⟩
    | some r =>
      rw [halloc] at hnext hrep'
      refine ⟨_, phys', rfl, hnext, ?_, hrep'⟩
      rw [hlent]
      rfl
  | free offset =>
    obtain ⟨m', phys', hm, hrep'⟩ := hrep.free hinv.packed.wf htotal offset
    change Shows size ((s.mgr.freeOffset offset).map _) _
    rw [hm, map_some]
    refine ⟨_, phys', rfl, hinv.free offset, ?_, hrep'⟩
    change t.lent.filter _ = s.lent.filter _
    rw [hlent]

/-- The headers do what the pool does: any sequence of calls returns, hands out the areas that the
same calls on the pool hand out, and leads to the headers of the pool that they lead to. -/
theorem headers_refine_pool {size : Nat} (hsize : size < 2 ^ 64) {s : Option HeapSession}
    {t : Session} (h : Shows size s t) (run : List HeapCall)
    (hrun : EachStep step HeapSession.Allowed s run) :
    Shows size (exec step s run) (exec Session.step t (run.map (·.onPool))) := by
  induction run generalizing s t with
  | nil => exact h
  | cons c run ih => exact ih (h.step hsize hrun.1) hrun.2

/-- What the headers of a pool of `size` bytes have to satisfy, `phys` being the physical
chain. -/
structure Manager.Sound (size : Nat) (m : Manager) (phys : List Addr) : Prop where
  chain : Linked m.phys phys.head? phys
  tiles : Tiles m.dataOffset m.blockGetSize 0 phys
  full : span m.blockGetSize phys = size
  apart : phys.IsChain fun a b => m.blockIsUsed a = true ∨ m.blockIsUsed b = true
  free : ∀ fl sl, ∃ xs, Linked m.free (m.freeList fl sl) xs ∧
    ∀ a, a ∈ xs ↔ a ∈ phys ∧ m.blockIsUsed a = false ∧ calcFlSl (m.blockGetSize a) = (fl, sl)
  used : ∃ xs, Seg m.free.next none m.usedList xs ∧ xs.Nodup ∧
    ∀ a, a ∈ xs ↔ a ∈ phys ∧ m.blockIsUsed a = true
  total : m.totalUsed = span m.blockGetSize (phys.filter (m.blockIsUsed ·))

/-- The headers of a coalesced pool are sound. -/
theorem Rep.sound {phys : List Addr} (h : Rep m phys p) (hp : p.Packed)
    (heven : p.totalSize % 2 = 0) : m.Sound p.totalSize phys := by
  obtain ⟨L, hheld⟩ := h.held
  have htiles := hp.wf.tiles
  have hfull := hp.full
  have hapart := hp.apart
  have htotal := hp.wf.total
  rw [Pool.usedBlocks, ← h.blocks] at htotal
  rw [← h.blocks] at htiles hfull hapart
  have hmem : ∀ k a, a ∈ L k ↔ a ∈ phys ∧ (m.block a).listId = k := by
    intro k a
    constructor
    · intro ha
      have hdom := hheld.dom ha
      exact ⟨hdom, (h.mem_list hp.wf hdom).mp ((hheld.mem_iff (h.offsets hp.wf) hdom).mp ha)⟩
    · rintro ⟨hdom, hid⟩
      exact (hheld.mem_iff (h.offsets hp.wf) hdom).mpr ((h.mem_list hp.wf hdom).mpr hid)
  refine ⟨h.chain, (tiles_map m.block phys).mp htiles, ?_, (isChain_map m.block).mp hapart,
    fun fl sl => ⟨L (some (fl, sl)), ⟨hheld.seg (some (fl, sl)), hheld.back _, hheld.nodup _⟩, fun a => ?_⟩,
    ⟨L none, hheld.seg none, hheld.nodup none, fun a => ?_⟩, ?_⟩
  · rw [span_map] at hfull
    refine Eq.trans hfull ?_
    omega
  · exact (hmem _ a).trans (and_congr_right fun _ => listId_eq_some)
  · exact (hmem _ a).trans (and_congr_right fun _ => listId_eq_none)
  · rw [h.totalUsed, htotal, filter_map, span_map]
    rfl

/-- Any sequence of allocations and frees on a pool whose size is a multiple of `TLSF_ALIGN`
returns from every call and leaves the headers sound, and the areas handed out and not freed
lie in the buffer, each in a used block that is large enough, and do not overlap. -/
theorem headers_sound_throughout (size : Nat) (halign : align ∣ size) (hsize : size < 2 ^ 64)
    (m : Manager) (hinit : m.initialized = false) (hlive : m.live = []) (start : Addr)
    (run : List HeapCall) (hrun : EachStep step HeapSession.Allowed
      (some ⟨(m.poolInit size (some start)).1, []⟩) run) :
    Throughout step
      (fun s => ∃ (s' : HeapSession) (phys : List Addr), s = some s' ∧ s'.mgr.Sound size phys ∧
        (∀ e ∈ s'.lent, e.1 + e.2 ≤ size ∧ ∃ a ∈ phys, s'.mgr.blockIsUsed a = true ∧
          s'.mgr.dataOffset a = e.1 ∧ e.2 ≤ s'.mgr.blockGetSize a) ∧
        s'.lent.Pairwise fun e e' => e.1 + e.2 ≤ e'.1 ∨ e'.1 + e'.2 ≤ e.1)
      (some ⟨(m.poolInit size (some start)).1, []⟩) run := by
  have hstart : Shows size (some ⟨(m.poolInit size (some start)).1, []⟩) (Session.start size) :=
    ⟨_, [start], rfl, Session.Inv.start size, rfl, rep_poolInit hinit hlive size start⟩
  have hshows := throughout_of_step (P := fun s => ∃ t, Shows size s t) ⟨_, hstart⟩
    (fun _ _ ⟨_, h⟩ hc => ⟨_, h.step hsize hc⟩) hrun
  refine hshows.mono ?_
  rintro s ⟨t, s', phys, rfl, hinv, hlent, hrep⟩
  have heven : t.pool.totalSize % 2 = 0 := by
    rw [hinv.total]
    obtain ⟨k, rfl⟩ := halign
    unfold align
    omega
  have hsound := hrep.sound hinv.packed heven
  rw [hinv.total] at hsound
  refine ⟨s', phys, rfl, hsound, ?_, hlent ▸ hinv.disjoint⟩
  intro e he
  rw [← hlent] at he
  refine ⟨hinv.inside he, ?_⟩
  obtain ⟨b, hb, hoff, hle⟩ := hinv.large e he
  obtain ⟨hb, hused⟩ := mem_usedBlocks.mp hb
  rw [← hrep.blocks] at hb
  obtain ⟨a, ha, rfl⟩ := mem_map.mp hb
  exact ⟨a, ha, hused, hoff, hle⟩

/-- `g_tlsf_mgr` before `tlsf_pool_init`, with a heap of zeros. -/
def Manager.zero : Manager where
  initialized := false
  freeList := fun _ _ => none
  usedList := none
  shmTotalSize := 0
  totalUsed := 0
  size := fun _ => 0
  dataOffset := fun _ => 0
  free := ⟨fun _ => none, fun _ => none⟩
  phys := ⟨fun _ => none, fun _ => none⟩
  live := []

theorem headers_refine_small_pool :
    Shows 256 (exec step (some ⟨(Manager.zero.poolInit 256 (some 1)).1, []⟩)
        [.alloc 100 (some 2), .free 0])
      (exec Session.step (Session.start 256) [.alloc 100 true, .free 0]) :=
  headers_refine_pool (by decide) ⟨_, [1], rfl, .start 256, rfl, rep_poolInit rfl rfl 256 1⟩
    [.alloc 100 (some 2), .free 0] (by decide +kernel)

/-- A run that splits twice, frees in between, fails to split and frees an offset that is not
in use. -/
theorem headers_sound_on_small_pool :
    ∃ s phys, exec step (some ⟨(Manager.zero.poolInit 256 (some 1)).1, []⟩)
        [.alloc 100 (some 2), .alloc 1 (some 3), .alloc 60 none, .free 0, .alloc 64 none, .free 7]
    = some s ∧ s.mgr.Sound 256 phys ∧ s.lent = [(0, 64), (192, 60), (128, 1)] := by
  have h := (headers_sound_throughout 256 (by decide) (by decide) Manager.zero rfl rfl 1
    [.alloc 100 (some 2), .alloc 1 (some 3), .alloc 60 none, .free 0, .alloc 64 none, .free 7]
    (by decide +kernel)).last
  obtain ⟨s, phys, hs, hsound, -⟩ := h
  have hlent : (exec step (some ⟨(Manager.zero.poolInit 256 (some 1)).1, []⟩)
      [.alloc 100 (some 2), .alloc 1 (some 3), .alloc 60 none, .free 0, .alloc 64 none, .free 7]).map
        lent = some [(0, 64), (192, 60), (128, 1)] := by decide +kernel
  refine ⟨s, phys, hs, hsound, ?_⟩
  rw [hs] at hlent
  exact some.inj hlent

end UbsVirt.Enpu.Tlsf
