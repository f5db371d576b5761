import Mathlib.Order.Interval.Finset.Nat
import UbsVirt.Lib.Fallible
import UbsVirt.Lib.PyText
import UbsVirt.Lib.Xml
import UbsVirt.Udm.Selector

/-!
# The host memory that a domain is bound to

With an affinity policy the NPUs of a VM are chosen near its memory, and the domain XML says where
that is: `numatune` binds the guest's NUMA cells to nodes of the host, and `memoryBacking` says
which cells the huge pages are for. `VmMemoryAffinityParser`
(`ub_device_manager/domain/vm/vm_memory_affinity.py`) refuses a domain in which this is left open.
What it accepts binds every cell, strictly, to nodes of the host, and backs every cell by huge
pages.
-/

namespace UbsVirt.Udm

open Fallible PyText Xml List

/-! ### Node sets -/

/-- `vm_memory_affinity.py:94-98`. A numeral too long for `int` is a `ValueError` as well. -/
def parseId (value : Option String) (label : String) : Except Exn Nat := do
  let value ← require value (.valueError ("invalid " ++ label))
  refuseIf (isNumeral value.toList = false) (.valueError ("invalid " ++ label))
  let n ← require (int? value.toList)
    (.valueError "Exceeds the limit (4300 digits) for integer string conversion")
  refuseIf (65535 < n) (.valueError ("invalid " ++ label))
  return n

/-- The groups of the pattern `(\^?)([0-9]+)(?:-([0-9]+))?`. -/
structure NodesetMatch where
  caret : Bool
  first : List Char
  last : Option (List Char)
  deriving DecidableEq, Repr

/-- `re.fullmatch` of the pattern for an item of a node set. The first numeral takes all the
digits there are, since only a dash or the end may follow it. -/
def matchItem (item : List Char) : Option NodesetMatch :=
  let caret := item.head? = some '^'
  let body := if caret then item.tail else item
  let first := body.takeWhile Char.isDigit
  if isNumeral first = false then none
  else
    match body.dropWhile Char.isDigit with
    | [] => some ⟨caret, first, none⟩
    | '-' :: last => if isNumeral last then some ⟨caret, first, some last⟩ else none
    | _ => none

/-- The nodes that the items so far include and exclude. -/
structure NodesetState where
  included : Finset Nat
  excluded : Finset Nat

/-- One round of the loop over the items. `vm_memory_affinity.py:104-113`. -/
def NodesetState.addItem (s : NodesetState) (item : List Char) : Except Exn NodesetState := do
  let found ← require (matchItem (strip item)) (.valueError "invalid NUMA nodeset")
  let start ← parseId (some (String.ofList found.first)) "NUMA node"
  let stop ← parseId (some (String.ofList (found.last.getD found.first))) "NUMA node"
  refuseIf (stop < start) (.valueError "invalid NUMA nodeset range")
  return if found.caret then { s with excluded := s.excluded ∪ Finset.Icc start stop }
    else { s with included := s.included ∪ Finset.Icc start stop }

/-- `vm_memory_affinity.py:100-117`. -/
def parseNodeset (value : String) : Except Exn (Finset Nat) := do
  let s ← (value.toList.splitOn ',').foldlM NodesetState.addItem ⟨∅, ∅⟩
  refuseIf (s.included \ s.excluded = ∅) (.valueError "empty NUMA nodeset")
  return s.included \ s.excluded

/-! ### The parser -/

/-- `vm_memory_affinity.py:23-27`. -/
def child (node : Element) (name : String) : Except Exn (Option Element) := do
  refuseIf (1 < (node.childrenNamed name).length) (.valueError ("duplicate " ++ name ++ " element"))
  return (node.childrenNamed name).head?

def childOf (node : Option Element) (name : String) : Except Exn (Option Element) :=
  match node with
  | none => return none
  | some node => child node name

/-- What the loop over the page entries has seen. -/
structure CoverageState where
  covered : Finset Nat
  hasDefault : Bool

/-- One round of the loop over the page entries. `vm_memory_affinity.py:125-137`. -/
def CoverageState.addPage (cellIds : List Nat) (s : CoverageState) (page : Element) :
    Except Exn CoverageState := do
  let size := ((page.get? "size").getD "").toList
  refuseIf (isNumeral size = false) (.valueError "invalid hugepage size")
  let n ← require (int? size)
    (.valueError "Exceeds the limit (4300 digits) for integer string conversion")
  refuseIf (n ≤ 0) (.valueError "invalid hugepage size")
  match page.get? "nodeset" with
  | none => do
    refuseIf (s.hasDefault = true) (.valueError "duplicate default hugepage configuration")
    return { s with hasDefault := true }
  | some nodeset => do
    let nodes ← parseNodeset nodeset
    refuseIf (¬ nodes ⊆ cellIds.toFinset ∨ (s.covered ∩ nodes).Nonempty)
      (.valueError "unknown or duplicate guest hugepage nodes")
    return { s with covered := s.covered ∪ nodes }

/-- `vm_memory_affinity.py:119-139`. -/
def validateHugepageCoverage (hugepages : Element) (cellIds : List Nat) : Except Exn Unit :=
  match hugepages.childrenNamed "page" with
  | [] => return ()
  | pages => do
    let s ← pages.foldlM (CoverageState.addPage cellIds) ⟨∅, false⟩
    refuseIf (s.hasDefault = false ∧ s.covered ≠ cellIds.toFinset)
      (.valueError "hugepages must cover every guest memory cell")

/-- One round of the loop over the guest cells. `vm_memory_affinity.py:57-61`. -/
def addCellId (ids : List Nat) (cell : Element) : Except Exn (List Nat) := do
  let cellId ← parseId (cell.get? "id") "guest NUMA cell id"
  refuseIf (cellId ∈ ids) (.valueError "duplicate guest NUMA cell id")
  return ids ++ [cellId]

/-- One round of the loop over the memory nodes. `vm_memory_affinity.py:75-79`. -/
def addMemnode (cellIds : List Nat) (memnodes : Dict Nat Element) (node : Element) :
    Except Exn (Dict Nat Element) := do
  let cellId ← parseId (node.get? "cellid") "memnode cellid"
  refuseIf (cellId ∉ cellIds ∨ (memnodes.get? cellId).isSome)
    (.valueError "unknown or duplicate memnode cellid")
  return memnodes.insert cellId node

/-- The nodes of the host that a cell is bound to. `vm_memory_affinity.py:83-91`. -/
def cellHostNodes (memory : Option Element) (memnodes : Dict Nat Element) (cellId : Nat) :
    Except Exn (Finset Nat) := do
  let strict := "every guest memory cell requires strict host NUMA binding"
  let missing := "memory binding nodeset is missing or empty for guest NUMA cell " ++
    toString cellId
  let node ← require ((memnodes.get? cellId).or memory) (.valueError strict)
  refuseIf ((node.get? "mode").getD "strict" ≠ "strict") (.valueError strict)
  let nodeset ← require (node.get? "nodeset") (.valueError missing)
  refuseIf (strip nodeset.toList = []) (.valueError missing)
  parseNodeset nodeset

/-- `vm_memory_affinity.py:30-32`. -/
structure VmMemoryAffinity where
  cellToHostNodes : Dict Nat (Finset Nat)

open VmMemoryAffinity

/-- The cells of the guest, or cell 0 where it has no topology. `vm_memory_affinity.py:53-65`. -/
def guestCellIds (root : Element) : Except Exn (List Nat) := do
  let cpu ← child root "cpu"
  let numa ← childOf cpu "numa"
  let cells := numa.elim [] (·.childrenNamed "cell")
  let ids ← cells.foldlM addCellId []
  refuseIf (numa.isSome ∧ cells.isEmpty) (.valueError "guest NUMA topology has no cells")
  return if ids = [] then [0] else ids

/-- The huge pages of the domain. `vm_memory_affinity.py:45-48`. -/
def hugepagesOf (root : Element) : Except Exn Element := do
  let backing ← child root "memoryBacking"
  let hugepages ← childOf backing "hugepages"
  require hugepages (.valueError "affinity_policy requires hugepage-backed memory")

/-- The binding of the cells. `vm_memory_affinity.py:68-92`. -/
def bindCells (root : Element) (cellIds : List Nat) : Except Exn (Dict Nat (Finset Nat)) := do
  let numatune ← child root "numatune"
  let numatune ← require numatune
    (.valueError "affinity_policy requires explicit host memory NUMA binding")
  let memory ← child numatune "memory"
  refuseIf (∃ m ∈ memory, (m.get? "placement").getD "static" ≠ "static")
    (.valueError "automatic memory placement is not supported")
  let memnodes ← (numatune.childrenNamed "memnode").foldlM (addMemnode cellIds) .empty
  (cellIds.insertionSort (· ≤ ·)).foldlM (fun result cellId => do
    let nodes ← cellHostNodes memory memnodes cellId
    return result.insert cellId nodes) .empty

/-- `vm_memory_affinity.py:43-92`, on the tree of the document. -/
def VmMemoryAffinity.parse (root : Element) : Except Exn VmMemoryAffinity := do
  let hugepages ← hugepagesOf root
  let devices ← child root "devices"
  refuseIf (∃ d ∈ devices, (d.childrenNamed "memory").isEmpty = false)
    (.valueError "affinity_policy does not support additional memory devices")
  let cellIds ← guestCellIds root
  validateHugepageCoverage hugepages cellIds
  let result ← bindCells root cellIds
  return ⟨result⟩

/-! ### What a node set says

The text of a node set is a list of items with commas between them: a node or a range of nodes,
and with a caret in front it is taken out. -/

/-- An item of a node set. -/
structure NodeItem where
  excluded : Bool
  first : Nat
  last : Nat
  deriving DecidableEq, Repr

def NodeItem.Has (i : NodeItem) (n : Nat) : Prop := i.first ≤ n ∧ n ≤ i.last

/-- The text of an item, up to blanks at its ends. -/
structure ItemText (text : List Char) (i : NodeItem) : Prop where
  written : ∃ first rest, strip text = (if i.excluded then ['^'] else []) ++ first ++ rest ∧
    Numeral first i.first ∧
    (rest = [] ∧ i.last = i.first ∨ ∃ last, rest = '-' :: last ∧ Numeral last i.last)
  ordered : i.first ≤ i.last

def NodesetText (value : String) (items : List NodeItem) : Prop :=
  List.Forall₂ ItemText (value.toList.splitOn ',') items

def InItems (items : List NodeItem) (n : Nat) : Prop :=
  (∃ i ∈ items, i.excluded = false ∧ i.Has n) ∧ ∀ i ∈ items, i.excluded = true → ¬ i.Has n

/-- The node set that a text stands for has the node `n`. -/
def InNodeset (value : String) (n : Nat) : Prop := ∃ items, NodesetText value items ∧ InItems items n

/-! ### Reading node sets -/

variable {n : Nat}

theorem parseId_ok {value : Option String} {label : String}
    (h : parseId value label = .ok n) : ∃ text, value = some text ∧ Numeral text.toList n := by
  unfold parseId at h
  simp only [bind_eq_ok, require_eq_ok, refuseIf_eq_ok, pure_eq_ok, exists_const,
    Bool.not_eq_false] at h
  obtain ⟨text, htext, hnumeral, m, hm, -, rfl⟩ := h
  exact ⟨text, htext, .of_int? hnumeral hm⟩

/-- The groups of a match, put together, are the text. -/
theorem matchItem_some {item : List Char} {m : NodesetMatch} (h : matchItem item = some m) :
    item = (if m.caret then ['^'] else []) ++ m.first ++ m.last.elim [] ('-' :: ·) ∧
      isNumeral m.first = true ∧ ∀ last ∈ m.last, isNumeral last = true := by
  unfold matchItem at h
  have hbody : item = (if item.head? = some '^' then ['^'] else []) ++
      (if item.head? = some '^' then item.tail else item) := by
    split
    · next hcaret => exact (cons_head?_tail hcaret).symm
    · rfl
  generalize hb : (if item.head? = some '^' then item.tail else item) = body at h hbody
  have hsplit : body = body.takeWhile Char.isDigit ++ body.dropWhile Char.isDigit :=
    takeWhile_append_dropWhile.symm
  dsimp only at h
  rw [hb] at h
  split at h
  · cases h
  · next hfirst =>
    rw [Bool.not_eq_false] at hfirst
    split at h
    · next hrest =>
      cases h
      refine ⟨?_, hfirst, fun _ h => nomatch h⟩
      rw [hrest] at hsplit
      simpa using hbody.trans (congrArg _ hsplit)
    · next last hrest =>
      split at h
      · next hlast =>
        cases h
        refine ⟨?_, hfirst, fun _ h => by cases h; exact hlast⟩
        rw [hrest] at hsplit
        simpa using hbody.trans (congrArg _ hsplit)
      · cases h
    · cases h

/-- A text put together from the groups of a match has this match. -/
theorem matchItem_eq (caret : Bool) {first rest : List Char} (hfirst : isNumeral first = true)
    (hrest : rest = [] ∨ ∃ last, rest = '-' :: last ∧ isNumeral last = true) :
    matchItem ((if caret then ['^'] else []) ++ first ++ rest) =
      some ⟨caret, first, if rest = [] then none else some rest.tail⟩ := by
  obtain ⟨hne, hdigits⟩ := isNumeral_iff.mp hfirst
  obtain ⟨c, cs, rfl⟩ := exists_cons_of_ne_nil hne
  have hc : c ≠ '^' := by
    rintro rfl
    exact absurd (hdigits '^' mem_cons_self) (by decide)
  -- neither the dash nor the end belongs to the first numeral
  have hstop : ∀ d ∈ rest.head?, d.isDigit = false := by
    obtain rfl | ⟨last, rfl, -⟩ := hrest
    · exact fun _ h => nomatch h
    · rintro d ⟨⟩
      decide
  obtain ⟨htake, hdrop⟩ := takeWhile_numeral hfirst hstop
  have hbody : ∀ (item : List Char) (b : Bool), (item.head? = some '^' ↔ b = true) →
      (if item.head? = some '^' then item.tail else item) = c :: cs ++ rest →
      matchItem item = some ⟨b, c :: cs, if rest = [] then none else some rest.tail⟩ := by
    intro item b hb hitem
    unfold matchItem
    dsimp only
    rw [hitem, htake, hdrop, if_neg (by simp [hfirst])]
    obtain rfl | ⟨last, rfl, hlast⟩ := hrest
    · simp [hb]
    · simp [hb, hlast]
  cases caret with
  | false => exact hbody _ false (by simp [hc]) (by simp [hc])
  | true => exact hbody _ true (by simp) (by simp)

theorem ItemText.matchItem {text : List Char} {i : NodeItem} (h : ItemText text i) :
    ∃ first last, matchItem (strip text) = some ⟨i.excluded, first, last⟩ ∧
      Numeral first i.first ∧ Numeral (last.getD first) i.last := by
  obtain ⟨first, rest, htext, hfirst, hrest⟩ := h.written
  obtain ⟨rfl, hlast⟩ | ⟨last, rfl, hlast⟩ := hrest
  · refine ⟨first, none, ?_, hfirst, hlast ▸ hfirst⟩
    rw [htext, matchItem_eq i.excluded hfirst.1 (.inl rfl), if_pos rfl]
  · refine ⟨first, some last, ?_, hfirst, hlast⟩
    rw [htext, matchItem_eq i.excluded hfirst.1 (.inr ⟨last, rfl, hlast.1⟩),
      if_neg (cons_ne_nil _ _), tail_cons]

/-- An item is read in one way only. -/
theorem ItemText.unique {text : List Char} {i j : NodeItem} (hi : ItemText text i)
    (hj : ItemText text j) : i = j := by
  obtain ⟨first, last, hmatch, hfirst, hlast⟩ := hi.matchItem
  obtain ⟨first', last', hmatch', hfirst', hlast'⟩ := hj.matchItem
  obtain ⟨hexcluded, rfl, rfl⟩ : i.excluded = j.excluded ∧ first = first' ∧ last = last' := by
    simpa using hmatch.symm.trans hmatch'
  obtain ⟨excluded, m, n⟩ := i
  obtain ⟨excluded', m', n'⟩ := j
  cases hexcluded
  cases hfirst.unique hfirst'
  cases hlast.unique hlast'
  rfl

theorem NodesetText.unique {value : String} {items items' : List NodeItem}
    (h : NodesetText value items) (h' : NodesetText value items') : items = items' := by
  unfold NodesetText at h h'
  generalize value.toList.splitOn ',' = texts at h h'
  induction h generalizing items' with
  | nil =>
    cases h'
    rfl
  | cons hi _ ih =>
    obtain _ | ⟨hj, hrest⟩ := h'
    rw [hi.unique hj, ih hrest]

/-- An item that is accepted adds its range to one of the two sets. -/
theorem NodesetState.addItem_ok {s s' : NodesetState} {item : List Char}
    (h : s.addItem item = .ok s') :
    ∃ i, ItemText item i ∧
      s' = if i.excluded then { s with excluded := s.excluded ∪ Finset.Icc i.first i.last }
        else { s with included := s.included ∪ Finset.Icc i.first i.last } := by
  unfold addItem at h
  simp only [bind_eq_ok, require_eq_ok, refuseIf_eq_ok, pure_eq_ok, exists_const, Nat.not_lt] at h
  obtain ⟨m, hm, start, hstart, stop, hstop, hle, rfl⟩ := h
  obtain ⟨htext, hfirst, hlast⟩ := matchItem_some hm
  obtain ⟨_, ⟨⟩, hstart⟩ := parseId_ok hstart
  obtain ⟨_, ⟨⟩, hstop⟩ := parseId_ok hstop
  rw [String.toList_ofList] at hstart hstop
  refine ⟨⟨m.caret, start, stop⟩, ⟨⟨m.first, _, htext, hstart, ?_⟩, hle⟩, rfl⟩
  cases hl : m.last with
  | none =>
    rw [hl] at hstop
    exact .inl ⟨rfl, hstop.unique hstart⟩
  | some last =>
    rw [hl] at hstop
    exact .inr ⟨last, rfl, hstop⟩

/-- What the two sets hold after the items of a list. -/
structure NodesetState.Holds (s : NodesetState) (items : List NodeItem) : Prop where
  included : ∀ n, n ∈ s.included ↔ ∃ i ∈ items, i.excluded = false ∧ i.Has n
  excluded : ∀ n, n ∈ s.excluded ↔ ∃ i ∈ items, i.excluded = true ∧ i.Has n

theorem NodesetState.Holds.addItem {s : NodesetState} {items : List NodeItem} (h : s.Holds items)
    (i : NodeItem) :
    (if i.excluded then { s with excluded := s.excluded ∪ Finset.Icc i.first i.last }
      else { s with included := s.included ∪ Finset.Icc i.first i.last } : NodesetState).Holds
        (items ++ [i]) := by
  cases hi : i.excluded with
  | false =>
    constructor
    · intro n
      simp [h.included n, hi, or_and_right, exists_or, NodeItem.Has]
    · intro n
      simp [h.excluded n, hi, or_and_right, exists_or]
  | true =>
    constructor
    · intro n
      simp [h.included n, hi, or_and_right, exists_or]
    · intro n
      simp [h.excluded n, hi, or_and_right, exists_or, NodeItem.Has]

/-- A node set that is accepted is not empty, and has the nodes its text stands for. -/
theorem parseNodeset_ok {value : String} {nodes : Finset Nat} (h : parseNodeset value = .ok nodes) :
    nodes.Nonempty ∧ ∀ n, n ∈ nodes ↔ InNodeset value n := by
  unfold parseNodeset at h
  simp only [bind_eq_ok, refuseIf_eq_ok, pure_eq_ok, exists_const] at h
  obtain ⟨s, hs, hne, rfl⟩ := h
  obtain ⟨items, hitems, hholds⟩ := foldlM_ok_induction
    (fun done s => ∃ items, List.Forall₂ ItemText done items ∧ s.Holds items)
    ⟨[], .nil, by simp, by simp⟩ (by
      rintro done item t t' ⟨items, hitems, hholds⟩ hadd
      obtain ⟨i, hi, rfl⟩ := NodesetState.addItem_ok hadd
      exact ⟨items ++ [i], rel_append hitems (.cons hi .nil), hholds.addItem i⟩) hs
  refine ⟨Finset.nonempty_iff_ne_empty.mpr hne, fun n => ?_⟩
  have hmem : n ∈ s.included \ s.excluded ↔ InItems items n := by
    rw [Finset.mem_sdiff, hholds.included, hholds.excluded]
    unfold InItems
    simp
  rw [hmem]
  constructor
  · intro hn
    exact ⟨items, hitems, hn⟩
  · rintro ⟨items', hitems', hn⟩
    rwa [NodesetText.unique hitems hitems']

/-! ### What a domain says -/

def HasNumber (e : Element) (key : String) (n : Nat) : Prop :=
  ∃ text, e.get? key = some text ∧ Numeral text.toList n

/-- A cell of the guest, by its id: those of its topology, or cell 0 where it has none. -/
def GuestCell (root : Element) (c : Nat) : Prop :=
  (∃ cell ∈ root.descend ["cpu", "numa", "cell"], HasNumber cell "id" c) ∨
    root.descend ["cpu", "numa", "cell"] = [] ∧ c = 0

def PageFor (c : Nat) (page : Element) : Prop := ∃ nodeset ∈ page.get? "nodeset", InNodeset nodeset c

def DefaultPage (page : Element) : Prop := page.get? "nodeset" = none

def ExactlyOne {α : Type*} (p : α → Prop) (xs : List α) : Prop :=
  ∃ before x after, xs = before ++ x :: after ∧ p x ∧ ∀ y ∈ before ++ after, ¬ p y

/-- The memory of the cell is backed by huge pages: by all huge pages alike, by the one entry
that names the cell, or by the default entry. -/
def BackedByHugepages (root : Element) (c : Nat) : Prop :=
  ∃ hugepages, root.descend ["memoryBacking", "hugepages"] = [hugepages] ∧
    (hugepages.childrenNamed "page" = [] ∨
      ExactlyOne (PageFor c) (hugepages.childrenNamed "page") ∨
      (∀ page ∈ hugepages.childrenNamed "page", ¬ PageFor c page) ∧
        ExactlyOne DefaultPage (hugepages.childrenNamed "page"))

/-- The element that binds the memory of the cell: its own `memnode`, or else `memory`. -/
def BindingOf (root : Element) (c : Nat) (node : Element) : Prop :=
  (node ∈ root.descend ["numatune", "memnode"] ∧ HasNumber node "cellid" c ∧
    ∀ other ∈ root.descend ["numatune", "memnode"], HasNumber other "cellid" c → other = node) ∨
  (∀ other ∈ root.descend ["numatune", "memnode"], ¬ HasNumber other "cellid" c) ∧
    root.descend ["numatune", "memory"] = [node]

/-- The memory of the cell is bound, strictly, to these nodes of the host. -/
def StrictlyBound (root : Element) (c : Nat) (nodes : Finset Nat) : Prop :=
  ∃ node nodeset, BindingOf root c node ∧ (node.get? "mode").getD "strict" = "strict" ∧
    node.get? "nodeset" = some nodeset ∧ nodes.Nonempty ∧ ∀ n, n ∈ nodes ↔ InNodeset nodeset n

theorem HasNumber.unique {e : Element} {key : String} {m : Nat} (hm : HasNumber e key m)
    (hn : HasNumber e key n) : m = n := by
  obtain ⟨text, htext, hm⟩ := hm
  obtain ⟨_, htext', hn⟩ := hn
  cases htext.symm.trans htext'
  exact hm.unique hn

/-- An attribute that is read as a number is a numeral for this number and no other. -/
theorem hasNumber_of_parseId {e : Element} {key label : String}
    (h : parseId (e.get? key) label = .ok n) (m : Nat) : HasNumber e key m ↔ m = n := by
  have hn : HasNumber e key n := parseId_ok h
  constructor
  · intro hm
    exact hm.unique hn
  · rintro rfl
    exact hn

theorem ExactlyOne.of_pairwise {α : Type*} {p : α → Prop} {xs : List α} {x : α} (hx : x ∈ xs)
    (hp : p x) (hpair : xs.Pairwise fun a b => ¬ (p a ∧ p b)) : ExactlyOne p xs := by
  obtain ⟨before, after, rfl⟩ := append_of_mem hx
  obtain ⟨-, hafter, hcross⟩ := pairwise_append.mp hpair
  refine ⟨before, x, after, rfl, hp, fun y hy hpy => ?_⟩
  rcases mem_append.mp hy with hy | hy
  · exact hcross y hy x mem_cons_self ⟨hpy, hp⟩
  · exact (pairwise_cons.mp hafter).1 y hy ⟨hp, hpy⟩

/-! ### Single elements and loops -/

/-- There is at most one child of the name, and it is the one returned. -/
theorem child_ok {node : Element} {name : String} {r : Option Element}
    (h : child node name = .ok r) : node.childrenNamed name = r.toList := by
  unfold child at h
  simp only [bind_eq_ok, refuseIf_eq_ok, pure_eq_ok, exists_const, Nat.not_lt] at h
  obtain ⟨hlength, rfl⟩ := h
  match hchildren : node.childrenNamed name with
  | [] => rfl
  | [_] => rfl
  | _ :: _ :: _ =>
    rw [hchildren] at hlength
    simp at hlength

theorem childOf_ok {node r : Option Element} {name : String} (h : childOf node name = .ok r) :
    node.toList.flatMap (·.childrenNamed name) = r.toList := by
  cases node with
  | none =>
    cases h
    rfl
  | some node =>
    rw [Option.toList_some, flatMap_singleton]
    exact child_ok h

/-- The ids are those of the cells. -/
theorem addCellId_loop {cells : List Element} {ids : List Nat}
    (h : cells.foldlM addCellId [] = .ok ids) :
    (∀ c, c ∈ ids ↔ ∃ cell ∈ cells, HasNumber cell "id" c) ∧ (ids = [] ↔ cells = []) := by
  refine foldlM_ok_induction (fun done ids =>
    (∀ c, c ∈ ids ↔ ∃ cell ∈ done, HasNumber cell "id" c) ∧ (ids = [] ↔ done = []))
    (by simp) ?_ h
  rintro done cell ids _ ⟨hids, -⟩ hadd
  unfold addCellId at hadd
  simp only [bind_eq_ok, refuseIf_eq_ok, pure_eq_ok, exists_const] at hadd
  obtain ⟨id, hid, -, rfl⟩ := hadd
  refine ⟨fun c => ?_, by simp⟩
  simp [hids, hasNumber_of_parseId hid, or_and_right, exists_or]

variable {root : Element} {cellIds : List Nat}

theorem guestCellIds_ok
    (h : guestCellIds root = .ok cellIds) (c : Nat) : c ∈ cellIds ↔ GuestCell root c := by
  unfold guestCellIds at h
  simp only [bind_eq_ok, refuseIf_eq_ok, pure_eq_ok, exists_const] at h
  obtain ⟨cpu, hcpu, numa, hnuma, ids, hids, -, rfl⟩ := h
  have hcells : root.descend ["cpu", "numa", "cell"] = numa.elim [] (·.childrenNamed "cell") := by
    simp only [Element.descend, foldl_cons, foldl_nil, flatMap_singleton,
      child_ok hcpu, childOf_ok hnuma]
    cases numa <;> simp
  unfold GuestCell
  rw [hcells]
  obtain ⟨hmem, hnil⟩ := addCellId_loop hids
  rw [← hmem, ← hnil]
  split
  · next hids => simp [hids]
  · next hids => simp [hids]

/-! ### Huge pages -/

/-- What is known of the page entries looked at so far. -/
structure CoverageState.Holds (cellIds : List Nat) (s : CoverageState) (pages : List Element) :
    Prop where
  covered : ∀ c, c ∈ s.covered ↔ ∃ page ∈ pages, PageFor c page
  known : ∀ c ∈ s.covered, c ∈ cellIds
  disjoint : ∀ c, pages.Pairwise fun p q => ¬ (PageFor c p ∧ PageFor c q)
  hasDefault : s.hasDefault = true ↔ ∃ page ∈ pages, DefaultPage page
  oneDefault : pages.Pairwise fun p q => ¬ (DefaultPage p ∧ DefaultPage q)

theorem pairwise_snoc {α : Type*} {p : α → Prop} {xs : List α} {x : α}
    (hxs : xs.Pairwise fun a b => ¬ (p a ∧ p b)) (hx : p x → ∀ y ∈ xs, ¬ p y) :
    (xs ++ [x]).Pairwise fun a b => ¬ (p a ∧ p b) := by
  rw [pairwise_append]
  refine ⟨hxs, pairwise_singleton _ _, ?_⟩
  rintro a ha b hb ⟨hpa, hpb⟩
  rw [mem_singleton] at hb
  exact hx (hb ▸ hpb) a ha hpa

/-- One page of the loop adds its cells to the coverage. -/
theorem CoverageState.Holds.addPage {s s' : CoverageState}
    {pages : List Element} {page : Element} (h : s.Holds cellIds pages)
    (hadd : s.addPage cellIds page = .ok s') : s'.Holds cellIds (pages ++ [page]) := by
  unfold CoverageState.addPage at hadd
  simp only [bind_eq_ok, require_eq_ok, refuseIf_eq_ok, exists_const] at hadd
  obtain ⟨-, -, -, -, hadd⟩ := hadd
  split at hadd
  · next hnone =>
    simp only [bind_eq_ok, refuseIf_eq_ok, pure_eq_ok, exists_const] at hadd
    obtain ⟨hfirst, rfl⟩ := hadd
    have hnot : ∀ c, ¬ PageFor c page := by
      rintro c ⟨nodeset, hmem, -⟩
      rw [hnone] at hmem
      cases hmem
    exact {
      covered := fun c => by simp [h.covered, hnot, or_and_right, exists_or]
      known := h.known
      disjoint := fun c => pairwise_snoc (h.disjoint c) fun hc => absurd hc (hnot c)
      hasDefault := iff_of_true rfl ⟨page, by simp, hnone⟩
      oneDefault := pairwise_snoc h.oneDefault fun _ p hp hdefault =>
        hfirst (h.hasDefault.mpr ⟨p, hp, hdefault⟩) }
  · next nodeset hsome =>
    simp only [bind_eq_ok, refuseIf_eq_ok, pure_eq_ok, exists_const, not_or, not_not] at hadd
    obtain ⟨nodes, hnodes, ⟨hknown, hapart⟩, rfl⟩ := hadd
    have hpage : ∀ c, PageFor c page ↔ c ∈ nodes := by
      intro c
      rw [(parseNodeset_ok hnodes).2 c]
      simp [PageFor, hsome]
    have hnot : ¬ DefaultPage page := fun hdefault => nomatch hsome.symm.trans hdefault
    exact {
      covered := fun c => by simp [h.covered, hpage, or_and_right, exists_or]
      known := fun c hc => by
        rcases Finset.mem_union.mp hc with hc | hc
        · exact h.known c hc
        · exact mem_toFinset.mp (hknown hc)
      disjoint := fun c => pairwise_snoc (h.disjoint c) fun hc p hp hp' =>
        hapart ⟨c, Finset.mem_inter.mpr ⟨(h.covered c).mpr ⟨p, hp, hp'⟩, (hpage c).mp hc⟩⟩
      hasDefault := by simp [h.hasDefault, hnot, or_and_right, exists_or]
      oneDefault := pairwise_snoc h.oneDefault fun hdefault => absurd hdefault hnot }

/-- What an accepted hugepage table says about each cell. -/
theorem validateHugepageCoverage_ok {hugepages : Element}
    (h : validateHugepageCoverage hugepages cellIds = .ok ()) {c : Nat} (hc : c ∈ cellIds) :
    hugepages.childrenNamed "page" = [] ∨
      ExactlyOne (PageFor c) (hugepages.childrenNamed "page") ∨
      (∀ page ∈ hugepages.childrenNamed "page", ¬ PageFor c page) ∧
        ExactlyOne DefaultPage (hugepages.childrenNamed "page") := by
  unfold validateHugepageCoverage at h
  split at h
  · next hnil => exact .inl hnil
  · simp only [bind_eq_ok, refuseIf_eq_ok] at h
    obtain ⟨s, hs, hcover⟩ := h
    generalize hugepages.childrenNamed "page" = pages at hs
    have hholds : s.Holds cellIds pages :=
      foldlM_ok_induction (fun done s => s.Holds cellIds done)
        ⟨by simp, by simp, by simp, by simp, by simp⟩
        (fun _ _ _ _ h hadd => h.addPage hadd) hs
    right
    by_cases hcovered : c ∈ s.covered
    · obtain ⟨page, hpage, hfor⟩ := (hholds.covered c).mp hcovered
      exact .inl (.of_pairwise hpage hfor (hholds.disjoint c))
    · -- a cell that is not covered is left to the default entry
      have hdefault : s.hasDefault = true := by
        by_contra hno
        refine hcover ⟨Bool.eq_false_of_not_eq_true hno, fun heq => hcovered ?_⟩
        rw [heq]
        exact mem_toFinset.mpr hc
      obtain ⟨page, hpage, hfor⟩ := hholds.hasDefault.mp hdefault
      refine .inr ⟨fun p hp hp' => hcovered ((hholds.covered c).mpr ⟨p, hp, hp'⟩), ?_⟩
      exact .of_pairwise hpage hfor hholds.oneDefault

theorem hugepagesOf_ok {hugepages : Element} (h : hugepagesOf root = .ok hugepages) :
    root.descend ["memoryBacking", "hugepages"] = [hugepages] := by
  unfold hugepagesOf at h
  simp only [bind_eq_ok, require_eq_ok] at h
  obtain ⟨backing, hbacking, found, hfound, rfl⟩ := h
  simp only [Element.descend, foldl_cons, foldl_nil, flatMap_singleton,
    child_ok hbacking, childOf_ok hfound, Option.toList_some]

/-! ### The binding of the cells -/

variable {memnodes : Dict Nat Element}

theorem addMemnode_loop {nodes : List Element}
    (h : nodes.foldlM (addMemnode cellIds) .empty = .ok memnodes) (c : Nat) (node : Element) :
    memnodes.get? c = some node ↔ node ∈ nodes ∧ HasNumber node "cellid" c := by
  revert c node
  refine foldlM_ok_induction (fun done d => ∀ c node,
    d.get? c = some node ↔ node ∈ done ∧ HasNumber node "cellid" c) ?_ ?_ h
  · intro c node
    simp [Dict.get?, Dict.empty]
  · intro done x d d' hd hadd c node
    unfold addMemnode at hadd
    simp only [bind_eq_ok, refuseIf_eq_ok, pure_eq_ok, exists_const, not_or, not_not,
      Bool.not_eq_true, Option.isSome_eq_false_iff, Option.isNone_iff_eq_none] at hadd
    obtain ⟨id, hid, ⟨-, hfree⟩, rfl⟩ := hadd
    rw [Dict.get?_insert, mem_append, mem_singleton, or_and_right, ← hd]
    split
    · next hc =>
      rw [hc, hfree]
      constructor
      · rintro ⟨⟩
        exact .inr ⟨rfl, (hasNumber_of_parseId hid id).mpr rfl⟩
      · rintro (h | ⟨rfl, -⟩)
        · cases h
        · rfl
    · next hc =>
      constructor
      · exact .inl
      · rintro (h | ⟨rfl, hnum⟩)
        · exact h
        · exact absurd ((hasNumber_of_parseId hid c).mp hnum) hc

theorem cellHostNodes_ok {memory : Option Element} {c : Nat}
    {nodes : Finset Nat} (h : cellHostNodes memory memnodes c = .ok nodes) :
    ∃ node nodeset, (memnodes.get? c).or memory = some node ∧
      (node.get? "mode").getD "strict" = "strict" ∧ node.get? "nodeset" = some nodeset ∧
      nodes.Nonempty ∧ ∀ n, n ∈ nodes ↔ InNodeset nodeset n := by
  unfold cellHostNodes at h
  simp only [bind_eq_ok, require_eq_ok, refuseIf_eq_ok, exists_const, not_not] at h
  obtain ⟨node, hnode, hmode, nodeset, hnodeset, -, hnodes⟩ := h
  exact ⟨node, nodeset, hnode, hmode, hnodeset, parseNodeset_ok hnodes⟩

/-- The result has the cells that were bound, each with its nodes. -/
theorem bindCells_loop {memory : Option Element} {result : Dict Nat (Finset Nat)}
    (h : cellIds.foldlM (fun result cellId => do
      let nodes ← cellHostNodes memory memnodes cellId
      return result.insert cellId nodes) .empty = Except.ok result) (c : Nat) :
    ((result.get? c).isSome ↔ c ∈ cellIds) ∧
      ∀ nodes ∈ result.get? c, cellHostNodes memory memnodes c = .ok nodes := by
  refine foldlM_ok_induction (fun done result => ((result.get? c).isSome ↔ c ∈ done) ∧
    ∀ nodes ∈ result.get? c, cellHostNodes memory memnodes c = .ok nodes) ?_ ?_ h
  · simp [Dict.get?, Dict.empty]
  · rintro done id d d' ⟨hkeys, hvalues⟩ hadd
    simp only [bind_eq_ok, pure_eq_ok] at hadd
    obtain ⟨nodes, hnodes, rfl⟩ := hadd
    rw [Dict.get?_insert]
    split
    · next hc =>
      refine ⟨by simp [hc], ?_⟩
      rintro _ ⟨⟩
      rwa [hc]
    · next hc => exact ⟨by simp [hkeys, hc], hvalues⟩

/-- The bound cells are those asked for, each strictly bound. -/
theorem bindCells_ok {result : Dict Nat (Finset Nat)}
    (h : bindCells root cellIds = .ok result) (c : Nat) :
    ((result.get? c).isSome ↔ c ∈ cellIds) ∧
      ∀ nodes ∈ result.get? c, StrictlyBound root c nodes := by
  unfold bindCells at h
  simp only [bind_eq_ok, require_eq_ok, refuseIf_eq_ok, exists_const] at h
  obtain ⟨_, hnumatune, numatune, rfl, memory, hmemory, -, memnodes, hmemnodes, h⟩ := h
  obtain ⟨hkeys, hvalues⟩ := bindCells_loop h c
  rw [mem_insertionSort] at hkeys
  refine ⟨hkeys, fun nodes hnodes => ?_⟩
  obtain ⟨node, nodeset, hnode, hstrict, hnodeset, hread⟩ := cellHostNodes_ok (hvalues nodes hnodes)
  refine ⟨node, nodeset, ?_, hstrict, hnodeset, hread⟩
  have hdescend : ∀ name, root.descend ["numatune", name] = numatune.childrenNamed name := by
    intro name
    simp only [Element.descend, foldl_cons, foldl_nil, flatMap_singleton,
      child_ok hnumatune, Option.toList_some]
  have hmem := addMemnode_loop hmemnodes c
  unfold BindingOf
  rw [hdescend, hdescend, child_ok hmemory]
  cases hown : memnodes.get? c with
  | some own =>
    rw [hown] at hnode hmem
    cases hnode
    refine .inl ⟨((hmem node).mp rfl).1, ((hmem node).mp rfl).2, fun other hother hnum => ?_⟩
    exact (Option.some.inj ((hmem other).mpr ⟨hother, hnum⟩)).symm
  | none =>
    rw [hown, Option.none_or] at hnode
    refine .inr ⟨fun other hother hnum => ?_, by rw [hnode, Option.toList_some]⟩
    exact nomatch hown.symm.trans ((hmem other).mpr ⟨hother, hnum⟩)

/-- What a domain that is accepted says of its memory: every cell of the guest, and nothing else,
is bound strictly to the nodes that its own `memnode`, or else `memory`, names, at least one; and
every cell is backed by huge pages in one way. -/
theorem parse_accepts {root : Element} {affinity : VmMemoryAffinity}
    (h : parse root = .ok affinity) :
    (∀ c, (affinity.cellToHostNodes.get? c).isSome ↔ GuestCell root c) ∧
      (∀ c, ∀ nodes ∈ affinity.cellToHostNodes.get? c, StrictlyBound root c nodes) ∧
      ∀ c, GuestCell root c → BackedByHugepages root c := by
  unfold parse at h
  simp only [bind_eq_ok, refuseIf_eq_ok, pure_eq_ok, exists_const] at h
  obtain ⟨hugepages, hhugepages, -, -, -, cellIds, hcells, ⟨⟩, hcoverage, result, hresult, rfl⟩ := h
  refine ⟨fun c => ?_, fun c => (bindCells_ok hresult c).2, fun c hc => ?_⟩
  · exact (bindCells_ok hresult c).1.trans (guestCellIds_ok hcells c)
  · exact ⟨hugepages, hugepagesOf_ok hhugepages,
      validateHugepageCoverage_ok hcoverage ((guestCellIds_ok hcells c).mpr hc)⟩

/-- A guest with two cells: the first has a binding and huge pages of its own, the second is left
to `memory` and to the default entry. -/
def twoCellDomain : Element :=
  .plain "domain" [] [
    .plain "memoryBacking" [] [.plain "hugepages" [] [
      .plain "page" [("size", "1048576"), ("nodeset", "0")] [],
      .plain "page" [("size", "2048")] []]],
    .plain "cpu" [] [.plain "numa" [] [
      .plain "cell" [("id", "0")] [], .plain "cell" [("id", "1")] []]],
    .plain "numatune" [] [
      .plain "memory" [("mode", "strict"), ("nodeset", "2-4, ^3")] [],
      .plain "memnode" [("cellid", "0"), ("nodeset", "1")] []]]

theorem parse_accepts_twoCellDomain : ∃ affinity, parse twoCellDomain = .ok affinity ∧
      affinity.cellToHostNodes.get? 0 = some {1} ∧
      affinity.cellToHostNodes.get? 1 = some {2, 4} ∧
      (∀ c, (affinity.cellToHostNodes.get? c).isSome ↔ GuestCell twoCellDomain c) ∧
      (∀ c, ∀ nodes ∈ affinity.cellToHostNodes.get? c, StrictlyBound twoCellDomain c nodes) ∧
      ∀ c, GuestCell twoCellDomain c → BackedByHugepages twoCellDomain c := by
  have hresult : (parse twoCellDomain).toOption.map
      (fun a => (a.cellToHostNodes.get? 0, a.cellToHostNodes.get? 1)) =
        some (some {1}, some {2, 4}) := by decide +kernel
  cases hparse : parse twoCellDomain with
  | error e =>
    rw [hparse] at hresult
    cases hresult
  | ok affinity =>
    rw [hparse] at hresult
    obtain ⟨h0, h1⟩ := Prod.mk.inj (Option.some.inj hresult)
    exact ⟨affinity, rfl, h0, h1, parse_accepts hparse⟩

end UbsVirt.Udm
