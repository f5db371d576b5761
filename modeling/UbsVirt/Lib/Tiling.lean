import Mathlib.Algebra.BigOperators.Group.List.Basic
import Mathlib.Algebra.GroupWithZero.Nat

/-!
# Lists that tile an interval

A list of blocks, each with a start and a length, tiles an interval of the natural numbers
when every block starts where the one before it ends. Splitting and merging neighbours
replaces a part of the list by another one of the same span.
-/

namespace UbsVirt.Tiling

variable {β : Type*} (lo len : β → Nat)

/-- The blocks follow each other from `start` on without gaps. -/
def Tiles : Nat → List β → Prop
  | _, [] => True
  | start, b :: bs => lo b = start ∧ Tiles (start + len b) bs

def span (bs : List β) : Nat :=
  (bs.map len).sum

variable {lo len} {start : Nat} {b : β} {bs xs ys : List β}

@[simp]
theorem span_nil : span len [] = 0 := rfl

@[simp]
theorem span_cons : span len (b :: bs) = len b + span len bs := by
  simp [span]

@[simp]
theorem span_append : span len (xs ++ ys) = span len xs + span len ys := by
  simp [span]

theorem span_filter_le (p : β → Bool) : span len (bs.filter p) ≤ span len bs := by
  induction bs with
  | nil => simp
  | cons b bs ih =>
    rw [List.filter_cons, span_cons]
    split
    · rw [span_cons]
      omega
    · omega

@[simp]
theorem tiles_nil : Tiles lo len start [] := trivial

@[simp]
theorem tiles_cons : Tiles lo len start (b :: bs) ↔ lo b = start ∧ Tiles lo len (start + len b) bs :=
  Iff.rfl

theorem tiles_append : Tiles lo len start (xs ++ ys) ↔
    Tiles lo len start xs ∧ Tiles lo len (start + span len xs) ys := by
  induction xs generalizing start with
  | nil => simp
  | cons b bs ih =>
    rw [List.cons_append, tiles_cons, tiles_cons, ih, span_cons, and_assoc, Nat.add_assoc]

theorem span_map {α : Type*} (f : α → β) (as : List α) :
    span len (as.map f) = span (fun a => len (f a)) as := by
  simp [span, Function.comp_def]

theorem tiles_map {α : Type*} (f : α → β) (as : List α) :
    Tiles lo len start (as.map f) ↔ Tiles (fun a => lo (f a)) (fun a => len (f a)) start as := by
  induction as generalizing start with
  | nil => exact Iff.rfl
  | cons a as ih => exact and_congr_right fun _ => ih

theorem Tiles.bounds (h : Tiles lo len start bs) (hb : b ∈ bs) :
    start ≤ lo b ∧ lo b + len b ≤ start + span len bs := by
  induction bs generalizing start with
  | nil => cases hb
  | cons c cs ih =>
    obtain ⟨hc, hcs⟩ := h
    rw [span_cons]
    rcases List.mem_cons.mp hb with rfl | hmem
    · omega
    · have := ih hcs hmem
      omega

/-- A part of a tiling may be replaced by one that tiles the same interval. -/
theorem Tiles.replace {old : List β} (h : Tiles lo len start (xs ++ old ++ ys)) (new : List β)
    (hnew : Tiles lo len (start + span len xs) new) (hspan : span len new = span len old) :
    Tiles lo len start (xs ++ new ++ ys) := by
  rw [tiles_append, tiles_append, span_append] at h ⊢
  rw [hspan]
  exact ⟨⟨h.1.1, hnew⟩, h.2⟩

/-- Where a block of a tiling lies: after the blocks before it, and the others after it. -/
theorem Tiles.middle (h : Tiles lo len start (xs ++ b :: ys)) :
    lo b = start + span len xs ∧ Tiles lo len (lo b + len b) ys := by
  rw [tiles_append, tiles_cons] at h
  obtain ⟨-, hb, hys⟩ := h
  rw [hb]
  exact ⟨rfl, hys⟩

theorem Tiles.before (h : Tiles lo len start (xs ++ b :: ys)) {x : β} (hx : x ∈ xs) :
    lo x + len x ≤ lo b := by
  have hbounds := (tiles_append.mp h).1.bounds hx
  rw [h.middle.1]
  exact hbounds.2

theorem Tiles.after (h : Tiles lo len start (xs ++ b :: ys)) {y : β} (hy : y ∈ ys) :
    lo b + len b ≤ lo y :=
  (h.middle.2.bounds hy).1

end UbsVirt.Tiling
