import Mathlib.Data.List.Induction
import Mathlib.Data.List.Nodup

/-!
# Dictionaries that keep the order of insertion

A key that is set again keeps its place and gets the new value, so the values come in the order
in which their keys were first set, and a lookup gives the value that was set last.
-/

namespace UbsVirt

open List
open Prod (fst snd)

variable {κ ν α ε : Type*}

/-- A dictionary: entries under different keys. -/
structure Dict (κ ν : Type*) where
  entries : List (κ × ν)
  nodup : (entries.map fst).Nodup

namespace Dict

def empty : Dict κ ν := ⟨[], List.nodup_nil⟩

def keys (d : Dict κ ν) : List κ := d.entries.map fst

def values (d : Dict κ ν) : List ν := d.entries.map snd

variable [DecidableEq κ]

def get? (d : Dict κ ν) (k : κ) : Option ν := (d.entries.find? (·.1 = k)).map snd

theorem keys_replace (entries : List (κ × ν)) (k : κ) (v : ν) :
    (entries.map fun e => if e.1 = k then (k, v) else e).map fst = entries.map fst := by
  rw [map_map]
  apply map_congr_left
  intro e _
  show (if e.1 = k then (k, v) else e).1 = e.1
  split
  · next he => exact he.symm
  · rfl

def insert (d : Dict κ ν) (k : κ) (v : ν) : Dict κ ν :=
  if h : k ∈ d.keys then
    ⟨d.entries.map fun e => if e.1 = k then (k, v) else e, by rw [keys_replace]; exact d.nodup⟩
  else
    ⟨d.entries ++ [(k, v)], by
      rw [List.map_append, List.nodup_append]
      refine ⟨d.nodup, List.nodup_singleton _, ?_⟩
      intro a ha b hb hab
      rw [List.map_singleton, List.mem_singleton] at hb
      rw [hab, hb] at ha
      exact h ha⟩

def ofList (entries : List (κ × ν)) : Dict κ ν :=
  entries.foldl (fun d e => d.insert e.1 e.2) empty

variable {d : Dict κ ν} {k k' : κ} {v : ν}

theorem mem_entries : (k, v) ∈ d.entries ↔ d.get? k = some v := by
  obtain ⟨entries, hnodup⟩ := d
  unfold get?
  dsimp only
  induction entries with
  | nil => simp
  | cons e entries ih =>
    obtain ⟨hnot, hrest⟩ := nodup_cons.mp hnodup
    rw [mem_cons, find?_cons]
    by_cases he : e.1 = k
    · have hgone : (k, v) ∉ entries := fun hmem =>
        hnot (he ▸ mem_map_of_mem (f := fst) hmem)
      simp only [he, hgone, or_false, decide_true, Option.map_some, Option.some.injEq]
      constructor
      · rintro rfl
        rfl
      · rintro rfl
        rw [← he]
    · have hne : (k, v) ≠ e := fun heq => he (heq ▸ rfl)
      simp only [he, hne, false_or, decide_false]
      exact ih hrest

theorem get?_eq_none : d.get? k = none ↔ k ∉ d.keys := by
  unfold get? keys
  rw [Option.map_eq_none_iff, find?_eq_none, mem_map]
  constructor
  · rintro h ⟨e, he, rfl⟩
    exact h e he (decide_eq_true rfl)
  · intro h e he hk
    exact h ⟨e, he, of_decide_eq_true hk⟩

theorem mem_values : v ∈ d.values ↔ ∃ k, d.get? k = some v := by
  unfold values
  rw [mem_map]
  constructor
  · rintro ⟨⟨k, _⟩, he, rfl⟩
    exact ⟨k, mem_entries.mp he⟩
  · rintro ⟨k, hk⟩
    exact ⟨(k, v), mem_entries.mpr hk, rfl⟩

/-- Looking up after an insertion. -/
theorem get?_insert : (d.insert k v).get? k' = if k' = k then some v else d.get? k' := by
  -- a dictionary is decided by its entries, so membership is enough
  apply Option.ext
  intro w
  rw [← mem_entries]
  unfold insert
  split
  · next hk =>
    rw [mem_map]
    by_cases h : k' = k
    · rw [if_pos h, h]
      constructor
      · rintro ⟨e, -, heq⟩
        split at heq
        · exact congrArg some (Prod.mk.inj heq).2
        · next hne => exact absurd (congrArg fst heq) hne
      · intro hw
        obtain ⟨e, he, hek⟩ := mem_map.mp hk
        refine ⟨e, he, ?_⟩
        rw [if_pos hek, Option.some.inj hw]
    · rw [if_neg h, ← mem_entries]
      constructor
      · rintro ⟨e, he, heq⟩
        split at heq
        · exact absurd (congrArg fst heq).symm h
        · rwa [heq] at he
      · intro hmem
        exact ⟨(k', w), hmem, if_neg h⟩
  · next hk =>
    rw [mem_append, mem_singleton, mem_entries]
    by_cases h : k' = k
    · rw [if_pos h, h, get?_eq_none.mpr hk]
      constructor
      · rintro (hn | heq)
        · cases hn
        · exact congrArg some (Prod.mk.inj heq).2.symm
      · intro hw
        exact .inr (by rw [Option.some.inj hw])
    · rw [if_neg h]
      constructor
      · rintro (hw | heq)
        · exact hw
        · exact absurd (congrArg fst heq) h
      · exact .inl

/-- A lookup finds the entry that was set last. -/
theorem get?_ofList (entries : List (κ × ν)) :
    (ofList entries).get? k = (entries.reverse.find? (·.1 = k)).map snd := by
  induction entries using reverseRecOn with
  | nil => rfl
  | append_singleton entries e ih =>
    unfold ofList at ih ⊢
    rw [foldl_append, reverse_append]
    show (Dict.insert _ e.1 e.2).get? k = ((e :: entries.reverse).find? _).map _
    rw [get?_insert, find?_cons, ih]
    by_cases he : e.1 = k
    · simp [he]
    · simp [he, Ne.symm he]

theorem keys_insert : (d.insert k v).keys = if k ∈ d.keys then d.keys else d.keys ++ [k] := by
  unfold insert
  split
  · exact keys_replace d.entries k v
  · exact map_append

theorem mem_keys_ofList {entries : List (κ × ν)} :
    k ∈ (ofList entries).keys ↔ k ∈ entries.map fst := by
  rw [← not_iff_not, ← get?_eq_none, get?_ofList, Option.map_eq_none_iff, find?_eq_none]
  simp only [mem_reverse, decide_eq_true_eq, mem_map, not_exists, not_and]

/-- The keys are in the order in which the list sets them first. -/
theorem pairwise_keys_ofList (entries : List (κ × ν)) :
    (ofList entries).keys.Pairwise fun a b =>
      entries.findIdx (·.1 = a) < entries.findIdx (·.1 = b) := by
  induction entries using reverseRecOn with
  | nil => exact Pairwise.nil
  | append_singleton entries e ih =>
    have hset : ∀ a, entries.findIdx (·.1 = a) < entries.length ↔ a ∈ (ofList entries).keys := by
      intro a
      rw [mem_keys_ofList, mem_map, findIdx_lt_length]
      simp only [decide_eq_true_eq]
    have hlast : ofList (entries ++ [e]) = (ofList entries).insert e.1 e.2 := foldl_append
    -- the places of the keys set before do not change
    have hbefore : (ofList entries).keys.Pairwise fun a b =>
        (entries ++ [e]).findIdx (·.1 = a) < (entries ++ [e]).findIdx (·.1 = b) := by
      refine ih.imp_of_mem fun ha hb hlt => ?_
      rwa [findIdx_append, findIdx_append, if_pos ((hset _).mpr ha), if_pos ((hset _).mpr hb)]
    rw [hlast, keys_insert]
    split
    · exact hbefore
    · next hnew =>
      refine pairwise_append.mpr ⟨hbefore, pairwise_singleton .., ?_⟩
      intro a ha b hb
      rw [mem_singleton.mp hb, findIdx_append, findIdx_append, if_pos ((hset a).mpr ha),
        if_neg (mt (hset e.1).mp hnew)]
      exact Nat.lt_add_left _ ((hset a).mpr ha)

/-- If every value is set under a key of its own, the values have the keys of the dictionary. -/
theorem map_values (key : ν → κ) (h : ∀ k v, d.get? k = some v → key v = k) :
    d.values.map key = d.keys := by
  unfold values keys
  rw [map_map]
  apply map_congr_left
  rintro ⟨k, v⟩ he
  exact h k v (mem_entries.mp he)

end Dict

variable {f : ν → Except ε α} {xs : List ν}

/-- A loop that appends what its rounds give, and has not failed, has one result per round. -/
theorem forall₂_of_mapM_ok {ys : List α}
    (h : xs.mapM f = .ok ys) : List.Forall₂ (fun x y => f x = .ok y) xs ys := by
  induction xs generalizing ys with
  | nil =>
    cases h
    exact .nil
  | cons x xs ih =>
    rw [mapM_cons] at h
    cases hx : f x with
    | error e =>
      rw [hx] at h
      cases h
    | ok y =>
      rw [hx] at h
      cases hxs : xs.mapM f with
      | error e =>
        rw [hxs] at h
        cases h
      | ok ys' =>
        rw [hxs] at h
        cases h
        exact .cons hx (ih hxs)

theorem exists_of_mapM_ok {ys : List α}
    (h : xs.mapM f = .ok ys) {y : α} (hy : y ∈ ys) : ∃ x ∈ xs, f x = .ok y := by
  have hrounds := forall₂_of_mapM_ok h
  clear h
  induction hrounds with
  | nil => cases hy
  | cons hround _ ih =>
    rcases mem_cons.mp hy with rfl | hy
    · exact ⟨_, mem_cons_self, hround⟩
    · obtain ⟨x, hx, hfx⟩ := ih hy
      exact ⟨x, mem_cons_of_mem _ hx, hfx⟩

/-- A loop none of whose rounds fails does not fail. -/
theorem mapM_ok (h : ∀ x ∈ xs, ∃ y, f x = .ok y) : ∃ ys, xs.mapM f = .ok ys := by
  induction xs with
  | nil => exact ⟨[], rfl⟩
  | cons x xs ih =>
    obtain ⟨⟨y, hy⟩, hrest⟩ := forall_mem_cons.mp h
    obtain ⟨ys, hys⟩ := ih hrest
    refine ⟨y :: ys, ?_⟩
    rw [mapM_cons, hy, hys]
    rfl

end UbsVirt
