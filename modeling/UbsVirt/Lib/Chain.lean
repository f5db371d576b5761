import Mathlib.Data.List.Nodup

/-!
# Intrusive linked lists

Nodes live in a heap and carry their links: a function from nodes to the next node and one
to the node before. `Seg` reads a list off the forward links, `Back` off the backward ones,
`Linked` is the doubly linked list. The operations are the usual pointer sequences; each has
one lemma that says which list the links spell afterwards, and everything that is not in a
list keeps it (`Seg.congr`).
-/

namespace UbsVirt.Chain

open List

variable {ι : Type*}

/-- Following `next` from `head` visits the nodes of the list and then arrives at `stop`. -/
def Seg (next : ι → Option ι) (stop : Option ι) : Option ι → List ι → Prop
  | head, [] => head = stop
  | head, x :: xs => head = some x ∧ Seg next stop (next x) xs

/-- Every node of the list points back to the one before it, the first one to `before`. -/
def Back (prev : ι → Option ι) : Option ι → List ι → Prop
  | _, [] => True
  | before, x :: xs => prev x = before ∧ Back prev (some x) xs

variable {next : ι → Option ι}

section

variable {next next' prev prev' : ι → Option ι} {stop head before : Option ι} {b : ι}
  {xs ys : List ι}

theorem Seg.congr (h : Seg next stop head xs) (hsame : ∀ x ∈ xs, next' x = next x) :
    Seg next' stop head xs := by
  induction xs generalizing head with
  | nil => exact h
  | cons x xs ih =>
    refine ⟨h.1, ?_⟩
    rw [hsame x (by simp)]
    exact ih h.2 fun y hy => hsame y (by simp [hy])

theorem Back.congr (h : Back prev before xs) (hsame : ∀ x ∈ xs, prev' x = prev x) :
    Back prev' before xs := by
  induction xs generalizing before with
  | nil => trivial
  | cons x xs ih =>
    refine ⟨(hsame x (by simp)).trans h.1, ?_⟩
    exact ih h.2 fun y hy => hsame y (by simp [hy])

/-- The forward links around a node. -/
theorem seg_middle : Seg next stop head (xs ++ b :: ys) ↔
    Seg next (some b) head xs ∧ Seg next stop (next b) ys := by
  induction xs generalizing head with
  | nil => exact Iff.rfl
  | cons x xs ih => exact (and_congr_right fun _ => ih).trans and_assoc.symm

theorem seg_concat : Seg next stop head (xs ++ [b]) ↔ Seg next (some b) head xs ∧ next b = stop :=
  seg_middle

/-- The backward links around a node. -/
theorem back_middle : Back prev none (xs ++ b :: ys) ↔
    Back prev none xs ∧ prev b = xs.getLast? ∧ Back prev (some b) ys := by
  have hgeneral : ∀ before, Back prev before (xs ++ b :: ys) ↔
      Back prev before xs ∧ prev b = xs.getLast?.or before ∧ Back prev (some b) ys := by
    induction xs with
    | nil => exact fun before => ⟨fun h => ⟨trivial, h⟩, fun h => h.2⟩
    | cons x xs ih =>
      intro before
      refine (and_congr_right fun _ => ih (some x)).trans ?_
      rw [← and_assoc]
      refine and_congr_right fun _ => and_congr_left fun _ => ?_
      cases xs with
      | nil => rfl
      | cons y ys => rfl
  simpa using hgeneral none

theorem Seg.head_eq (h : Seg next none head xs) : head = xs.head? := by
  cases xs with
  | nil => exact h
  | cons x xs => exact h.1

/-- The link cell behind the nodes `xs` holds the node that follows them. -/
theorem Seg.cell {stop : Option ι} (h : Seg next stop head (xs ++ b :: ys)) :
    xs.getLast?.elim head next = some b := by
  rcases eq_nil_or_concat xs with rfl | ⟨us, a, rfl⟩
  · exact h.1
  · rw [concat_eq_append] at h ⊢
    rw [append_assoc, singleton_append] at h
    rw [getLast?_concat]
    exact (seg_middle.mp h).2.1

end

/-! ### Walking a list -/

/-- Walk along the links to the first node with a property. `none` is a walk that has not
come to an end after the given number of nodes. -/
def walk (next : ι → Option ι) (p : ι → Bool) : Nat → Option ι → Option (Option ι)
  | _, none => some none
  | 0, some _ => none
  | n + 1, some x => if p x then some (some x) else walk next p n (next x)

/-- A walk along a list ends at the first node of the list with the property. -/
theorem walk_seg {head : Option ι} {xs : List ι} (p : ι → Bool) {n : Nat}
    (h : Seg next none head xs) (hn : xs.length ≤ n) : walk next p n head = some (xs.find? p) := by
  induction xs generalizing head n with
  | nil =>
    cases h
    cases n <;> rfl
  | cons x xs ih =>
    obtain ⟨rfl, hrest⟩ := h
    cases n with
    | zero => exact absurd hn (by simp)
    | succ n =>
      rw [find?_cons, walk]
      split
      · next hp => rw [hp]
      · next hp =>
        rw [Bool.not_eq_true] at hp
        rw [hp]
        exact ih hrest (by simpa using hn)

/-- The first thing found in a list of places that are searched one after the other. `none`
is a search that does not end. -/
def firstFound {α β : Type*} (search : α → Option (Option β)) : List α → Option (Option β)
  | [] => some none
  | x :: xs =>
    match search x with
    | none => none
    | some (some found) => some (some found)
    | some none => firstFound search xs

theorem firstFound_eq {α β : Type*} {search : α → Option (Option β)} {found : α → Option β}
    {xs : List α} (h : ∀ x ∈ xs, search x = some (found x)) :
    firstFound search xs = some (xs.findSome? found) := by
  induction xs with
  | nil => rfl
  | cons x xs ih =>
    rw [firstFound, h x (by simp), findSome?_cons]
    cases found x with
    | none => exact ih fun y hy => h y (by simp [hy])
    | some b => rfl

/-! ### Doubly linked lists -/

/-- The two link fields of the nodes of a heap. -/
structure Links (ι : Type*) where
  next : ι → Option ι
  prev : ι → Option ι

open Links

/-- The links spell a list that starts at `head`. -/
structure Linked (l : Links ι) (head : Option ι) (xs : List ι) : Prop where
  seg : Seg l.next none head xs
  back : Back l.prev none xs
  nodup : xs.Nodup

variable {x : ι}

section

variable {l : Links ι} {head : Option ι} {b : ι} {xs ys : List ι}

/-- What the links of a node of the list are. -/
theorem Linked.at (h : Linked l head (xs ++ b :: ys)) :
    l.next b = ys.head? ∧ l.prev b = xs.getLast? :=
  ⟨(seg_middle.mp h.seg).2.head_eq, (back_middle.mp h.back).2.1⟩

theorem head?_ne_some (h : x ∉ ys) : ys.head? ≠ some x := by
  intro hx
  exact h (mem_of_mem_head? hx)

theorem nodup_middle_iff : (xs ++ b :: ys).Nodup ↔ b ∉ xs ∧ b ∉ ys ∧ (xs ++ ys).Nodup := by
  rw [nodup_middle, nodup_cons, mem_append, not_or, and_assoc]

end

namespace Links

variable [DecidableEq ι]

def setNext (l : Links ι) (a : ι) (v : Option ι) : Links ι :=
  { l with next := Function.update l.next a v }

def setPrev (l : Links ι) (a : ι) (v : Option ι) : Links ι :=
  { l with prev := Function.update l.prev a v }

/-- `b->prev = NULL; b->next = head; if (head) head->prev = b;` -/
def push (l : Links ι) (head : Option ι) (b : ι) : Links ι :=
  let l := (l.setPrev b none).setNext b head
  match head with
  | some h => l.setPrev h (some b)
  | none => l

/-- `if (b->prev) b->prev->next = b->next; else head = b->next;
if (b->next) b->next->prev = b->prev; b->prev = NULL; b->next = NULL;` The second component
is the new head. -/
def unlink (l : Links ι) (head : Option ι) (b : ι) : Links ι × Option ι :=
  let r := match l.prev b with
    | some p => (l.setNext p (l.next b), head)
    | none => (l, l.next b)
  let l := match r.1.next b with
    | some n => r.1.setPrev n (r.1.prev b)
    | none => r.1
  ((l.setPrev b none).setNext b none, r.2)

/-- `n->prev = b; n->next = b->next; if (b->next) b->next->prev = n; b->next = n;` -/
def insertAfter (l : Links ι) (b n : ι) : Links ι :=
  let l := (l.setPrev n (some b)).setNext n (l.next b)
  let l := match l.next b with
    | some c => l.setPrev c (some n)
    | none => l
  l.setNext b (some n)

/-- `a->next = b->next; if (b->next) b->next->prev = a;` for a node `b` that follows `a`. -/
def bypass (l : Links ι) (a b : ι) : Links ι :=
  let l := l.setNext a (l.next b)
  match l.next b with
  | some c => l.setPrev c (some a)
  | none => l

end Links

section

variable [DecidableEq ι] {l : Links ι} {head : Option ι} {a b n : ι} {xs ys : List ι}

open Function

variable {v : Option ι}

theorem Seg.set {stop : Option ι} (h : Seg next stop head xs)
    (ha : a ∉ xs) : Seg (update next a v) stop head xs := by
  refine h.congr fun x hx => update_of_ne ?_ _ _
  rintro rfl
  exact ha hx

variable {prev : ι → Option ι} {before : Option ι}

theorem Back.set (h : Back prev before xs) (ha : a ∉ xs) : Back (update prev a v) before xs := by
  refine h.congr fun x hx => update_of_ne ?_ _ _
  rintro rfl
  exact ha hx

def setPrevOf (prev : ι → Option ι) (at? v : Option ι) : ι → Option ι :=
  match at? with
  | some c => update prev c v
  | none => prev

theorem setPrevOf_of_ne {at? : Option ι} (h : at? ≠ some x) : setPrevOf prev at? v x = prev x := by
  cases at? with
  | none => rfl
  | some c => exact update_of_ne (fun heq => h (by rw [heq])) _ _

/-- The nodes behind a node still spell a list when the first of them is made to point back
to another one. -/
theorem Back.redirect (h : Back prev before ys)
    (hnodup : ys.Nodup) : Back (setPrevOf prev ys.head? v) v ys := by
  cases ys with
  | nil => trivial
  | cons c cs => exact ⟨update_self .., h.2.set (nodup_cons.mp hnodup).1⟩

/-- The nodes before a node still point back as they did when a node that is not among them
is redirected. -/
theorem Back.setPrevOf {at? : Option ι} (h : Back prev before xs)
    (hat : ∀ x ∈ xs, at? ≠ some x) : Back (setPrevOf prev at? v) before xs :=
  h.congr fun x hx => setPrevOf_of_ne (hat x hx)

/-! #### Pushing -/

theorem push_next : (l.push head b).next = update l.next b head := by
  cases head <;> rfl

theorem push_prev : (l.push head b).prev = setPrevOf (update l.prev b none) head (some b) := by
  cases head <;> rfl

theorem Linked.push (h : Linked l head xs) (hb : b ∉ xs) :
    Linked (l.push head b) (some b) (b :: xs) := by
  have hhead := h.seg.head_eq
  refine ⟨⟨rfl, ?_⟩, ⟨?_, ?_⟩, nodup_cons.mpr ⟨hb, h.nodup⟩⟩
  · rw [push_next, update_self]
    exact h.seg.set hb
  · rw [push_prev, hhead, setPrevOf_of_ne (head?_ne_some hb), update_self]
  · rw [push_prev, hhead]
    exact (h.back.set hb).redirect h.nodup

/-- Pushing leaves the links of the nodes outside the list. -/
theorem Linked.push_frame (h : Linked l head xs) (hx : x ∉ xs) (hne : x ≠ b) :
    (l.push head b).next x = l.next x ∧ (l.push head b).prev x = l.prev x := by
  rw [push_next, push_prev, h.seg.head_eq, setPrevOf_of_ne (head?_ne_some hx),
    update_of_ne hne, update_of_ne hne]
  exact ⟨rfl, rfl⟩

/-! #### Unlinking -/

/-- Unlinking a node, when no node is its own neighbour. -/
theorem unlink_eq (head : Option ι) (hprev : l.prev b ≠ some b) :
    (l.unlink head b).1.next = update (match l.prev b with
        | some p => update l.next p (l.next b)
        | none => l.next) b none ∧
      (l.unlink head b).1.prev = update (setPrevOf l.prev (l.next b) (l.prev b)) b none ∧
      (l.unlink head b).2 = (match l.prev b with
        | some _ => head
        | none => l.next b) := by
  unfold unlink
  cases hp : l.prev b with
  | none => cases hn : l.next b <;> simp [setPrev, setNext, setPrevOf, hp, hn]
  | some p =>
    have hpb : b ≠ p := by
      rintro rfl
      exact hprev hp
    cases hn : l.next b <;> simp [setPrev, setNext, setPrevOf, hp, hn, hpb]

/-- Unlinking takes one node out of the chain. -/
theorem Linked.unlink (h : Linked l head (xs ++ b :: ys)) :
    Linked (l.unlink head b).1 (l.unlink head b).2 (xs ++ ys) := by
  obtain ⟨hbx, hby, hnodup⟩ := nodup_middle_iff.mp h.nodup
  obtain ⟨hnext, hprev⟩ := h.at
  obtain ⟨hsegx, hsegy⟩ := seg_middle.mp h.seg
  obtain ⟨hbackx, -, hbacky⟩ := back_middle.mp h.back
  have hne : l.prev b ≠ some b := by
    rw [hprev]
    exact fun hlast => hbx (mem_of_mem_getLast? hlast)
  obtain ⟨hnext', hprev', hhead'⟩ := unlink_eq head hne
  have hdisjoint := disjoint_of_nodup_append hnodup
  refine ⟨?_, ?_, hnodup⟩
  · rw [hnext', hhead', hprev]
    rcases eq_nil_or_concat xs with rfl | ⟨us, p, rfl⟩
    · exact hsegy.set hby
    · -- the node before `b` now points to the node behind it
      rw [concat_eq_append] at *
      rw [append_assoc, singleton_append] at hnodup ⊢
      obtain ⟨hpu, hpy, -⟩ := nodup_middle_iff.mp hnodup
      have hbp : p ≠ b := by
        rintro rfl
        exact hbx (by simp)
      rw [getLast?_concat]
      refine seg_middle.mpr ⟨?_, ?_⟩
      · exact ((seg_concat.mp hsegx).1.set hpu).set fun hb => hbx (by simp [hb])
      · dsimp only
        rw [update_of_ne hbp, update_self]
        exact (hsegy.set hpy).set hby
  · rw [hprev', hnext, hprev]
    have hxs : Back (Chain.setPrevOf l.prev ys.head? xs.getLast?) none xs :=
      hbackx.setPrevOf fun x hx => head?_ne_some (hdisjoint hx)
    have hys : Back (Chain.setPrevOf l.prev ys.head? xs.getLast?) xs.getLast? ys :=
      hbacky.redirect hnodup.of_append_right
    cases ys with
    | nil => simpa using hxs.set hbx
    | cons c cs =>
      exact back_middle.mpr ⟨hxs.set hbx, (hys.set hby).1, (hys.set hby).2⟩

/-- Unlinking leaves the links of the nodes outside the list. -/
theorem Linked.unlink_frame (h : Linked l head (xs ++ b :: ys)) (hx : x ∉ xs ++ b :: ys) :
    (l.unlink head b).1.next x = l.next x ∧ (l.unlink head b).1.prev x = l.prev x := by
  obtain ⟨hbx, hby, hnodup⟩ := nodup_middle_iff.mp h.nodup
  obtain ⟨hnext, hprev⟩ := h.at
  rw [mem_append, mem_cons, not_or, not_or] at hx
  have hne : l.prev b ≠ some b := by
    rw [hprev]
    exact fun hlast => hbx (mem_of_mem_getLast? hlast)
  obtain ⟨hnext', hprev', -⟩ := unlink_eq head hne
  rw [hnext', hprev', hnext, update_of_ne hx.2.1, update_of_ne hx.2.1,
    setPrevOf_of_ne (head?_ne_some hx.2.2)]
  refine ⟨?_, rfl⟩
  cases hp : l.prev b with
  | none => rfl
  | some p =>
    refine update_of_ne ?_ _ _
    rintro rfl
    rw [hprev] at hp
    exact hx.1 (mem_of_mem_getLast? hp)

/-! #### Unlinking from a singly linked list -/

/-- `p = &head; while (*p) { if (*p == b) { *p = b->next; b->next = NULL; return; }
p = &(*p)->next; }` on forward links alone. `cell` is the node whose link `p` points to, or
`none` for the head. The result is the links and the head, or `none` if the loop has not come
to an end after the given number of nodes. -/
def unlinkWalk (b : ι) (next : ι → Option ι) (head : Option ι) :
    Nat → Option ι → Option ((ι → Option ι) × Option ι)
  | fuel, cell =>
    match cell.elim head next, fuel with
    | none, _ => some (next, head)
    | some _, 0 => none
    | some x, fuel + 1 =>
      if x = b then
        match cell with
        | none => some (update next b none, next b)
        | some a => some (update (update next a (next b)) b none, head)
      else unlinkWalk b next head fuel (some x)

/-- Writing the link cell behind `xs` so that it skips `b`. -/
theorem Seg.skip (h : Seg next none head (xs ++ b :: ys))
    (hnodup : (xs ++ b :: ys).Nodup) {fuel : Nat} :
    ∃ next' head', unlinkWalk b next head (fuel + 1) xs.getLast? = some (next', head') ∧
      Seg next' none head' (xs ++ ys) ∧ ∀ x, x ∉ xs ++ b :: ys → next' x = next x := by
  have hcell := h.cell
  obtain ⟨hbx, hby, hrest⟩ := nodup_middle_iff.mp hnodup
  obtain ⟨hsegx, hsegy⟩ := seg_middle.mp h
  unfold unlinkWalk
  rw [hcell]
  dsimp only
  rw [if_pos rfl]
  rcases eq_nil_or_concat xs with rfl | ⟨us, a, rfl⟩
  · refine ⟨_, _, rfl, hsegy.set hby, fun x hx => update_of_ne ?_ _ _⟩
    rintro rfl
    exact hx (by simp)
  · rw [concat_eq_append] at *
    rw [append_assoc, singleton_append] at hrest ⊢
    obtain ⟨hau, hay, -⟩ := nodup_middle_iff.mp hrest
    have hab : a ≠ b := by
      rintro rfl
      exact hbx (by simp)
    rw [getLast?_concat]
    refine ⟨_, _, rfl, seg_middle.mpr ⟨?_, ?_⟩, fun x hx => ?_⟩
    · exact ((seg_concat.mp hsegx).1.set hau).set fun hb => hbx (by simp [hb])
    · rw [update_of_ne hab, update_self]
      exact (hsegy.set hay).set hby
    · rw [update_of_ne (fun heq => hx (by simp [heq])), update_of_ne (fun heq => hx (by simp [heq]))]

/-- The loop ends, having taken `b` out of the list. -/
theorem unlinkWalk_seg (us : List ι) {fuel : Nat}
    (h : Seg next none head (us ++ xs ++ b :: ys)) (hnodup : (us ++ xs ++ b :: ys).Nodup)
    (hfuel : (xs ++ b :: ys).length ≤ fuel) :
    ∃ next' head', unlinkWalk b next head fuel us.getLast? = some (next', head') ∧
      Seg next' none head' (us ++ xs ++ ys) ∧
      ∀ x, x ∉ us ++ xs ++ b :: ys → next' x = next x := by
  induction xs generalizing us fuel with
  | nil =>
    rw [append_nil] at *
    cases fuel with
    | zero => exact absurd hfuel (by simp)
    | succ fuel => exact h.skip hnodup
  | cons x xs ih =>
    cases fuel with
    | zero => exact absurd hfuel (by simp)
    | succ fuel =>
      rw [append_cons us x xs] at *
      have hxb : x ≠ b := by
        rintro rfl
        have hmem := (nodup_middle_iff.mp hnodup).1
        exact hmem (by simp)
      have hcell : us.getLast?.elim head next = some x := by
        rw [append_assoc, append_assoc, singleton_append] at h
        exact h.cell
      obtain ⟨next', head', heq, hrest⟩ := ih (us ++ [x]) h hnodup (by simpa using hfuel)
      refine ⟨next', head', ?_, hrest⟩
      rw [getLast?_concat] at heq
      unfold unlinkWalk
      rw [hcell]
      dsimp only
      rwa [if_neg hxb]

/-! #### Inserting and bypassing a node behind another one -/

theorem insertAfter_eq (hne : n ≠ b) :
    (l.insertAfter b n).next = update (update l.next n (l.next b)) b (some n) ∧
      (l.insertAfter b n).prev = setPrevOf (update l.prev n (some b)) (l.next b) (some n) := by
  unfold insertAfter
  cases hn : l.next b <;> simp [setPrev, setNext, setPrevOf, hne.symm, hn]

/-- Linking a new node in behind another. -/
theorem Linked.insertAfter (h : Linked l head (xs ++ b :: ys)) (hn : n ∉ xs ++ b :: ys) :
    Linked (l.insertAfter b n) head (xs ++ b :: n :: ys) := by
  obtain ⟨hbx, hby, hnodup⟩ := nodup_middle_iff.mp h.nodup
  obtain ⟨hnext, hprev⟩ := h.at
  obtain ⟨hsegx, hsegy⟩ := seg_middle.mp h.seg
  obtain ⟨hbackx, -, hbacky⟩ := back_middle.mp h.back
  rw [mem_append, mem_cons, not_or, not_or] at hn
  obtain ⟨hnx, hnb, hny⟩ := hn
  obtain ⟨hnext', hprev'⟩ := insertAfter_eq (l := l) hnb
  have hdisjoint := disjoint_of_nodup_append hnodup
  refine ⟨?_, ?_, ?_⟩
  · rw [hnext']
    refine seg_middle.mpr ⟨(hsegx.set hnx).set hbx, ?_⟩
    rw [update_self]
    refine ⟨rfl, ?_⟩
    rw [update_of_ne hnb, update_self]
    exact (hsegy.set hny).set hby
  · rw [hprev', hnext]
    refine back_middle.mpr ⟨?_, ?_, ?_, ?_⟩
    · exact (hbackx.set hnx).setPrevOf fun x hx => head?_ne_some (hdisjoint hx)
    · rw [setPrevOf_of_ne (head?_ne_some hby), update_of_ne (Ne.symm hnb), hprev]
    · rw [setPrevOf_of_ne (head?_ne_some hny), update_self]
    · exact (hbacky.set hny).redirect hnodup.of_append_right
  · have hnodup' := h.nodup
    rw [append_cons] at hnodup' ⊢
    refine nodup_middle_iff.mpr ⟨?_, hny, hnodup'⟩
    simp [hnx, hnb]

theorem bypass_eq (hne : a ≠ b) : (l.bypass a b).next = update l.next a (l.next b) ∧
      (l.bypass a b).prev = setPrevOf l.prev (l.next b) (some a) := by
  unfold bypass
  cases hn : l.next b <;> simp [setPrev, setNext, setPrevOf, hne.symm, hn]

theorem Linked.bypass (h : Linked l head (xs ++ a :: b :: ys)) :
    Linked (l.bypass a b) head (xs ++ a :: ys) := by
  have hb := h
  rw [append_cons] at hb
  have hnextb := hb.at.1
  obtain ⟨hbx, hby, hnodup⟩ := nodup_middle_iff.mp hb.nodup
  rw [← append_cons] at hnodup
  obtain ⟨hax, hay, hrest⟩ := nodup_middle_iff.mp hnodup
  obtain ⟨hsegx, -, hsegy⟩ := seg_middle.mp h.seg
  obtain ⟨hbackx, hpreva, -, hbacky⟩ := back_middle.mp h.back
  have hne : a ≠ b := by
    rintro rfl
    exact hbx (by simp)
  obtain ⟨hnext', hprev'⟩ := bypass_eq (l := l) hne
  refine ⟨?_, ?_, hnodup⟩
  · rw [hnext']
    refine seg_middle.mpr ⟨hsegx.set hax, ?_⟩
    rw [update_self]
    exact hsegy.set hay
  · rw [hprev', hnextb]
    refine back_middle.mpr ⟨?_, ?_, hbacky.redirect hrest.of_append_right⟩
    · exact hbackx.setPrevOf fun x hx => head?_ne_some (disjoint_of_nodup_append hrest hx)
    · rw [setPrevOf_of_ne (head?_ne_some hay), hpreva]

end

end UbsVirt.Chain
