import Mathlib.Data.List.Nodup
import Mathlib.Data.List.Perm.Subperm
import UbsVirt.Lib.Maps

/-!
# Linear probing

A table of `N` slots with open addressing: a key is looked for from its home slot on, up to the
first slot that is free or holds it. In a table in which no slot between the home of a key and
its place is free, every key is found. Inserting a key keeps that; freeing the slot of a key
keeps it exactly if the slot is not on the way to another key.
-/

namespace UbsVirt.Probing

open List Maps

/-- The first of `fuel` slots, from probe `p` on, at which a search from slot `h` stops. -/
def search (N : Nat) (stop : Nat → Bool) (h : Nat) : Nat → Nat → Option Nat
  | 0, _ => none
  | fuel + 1, p =>
    if stop ((h + p) % N) then some ((h + p) % N) else search N stop h fuel (p + 1)

/-- The first slot at which a search from slot `h` stops. -/
def probe (N : Nat) (stop : Nat → Bool) (h : Nat) : Option Nat :=
  search N stop h N 0

/-- How many probes slot `i` is away from slot `h`. -/
def dist (N h i : Nat) : Nat :=
  (i + (N - h)) % N

section

variable {N h i p q fuel : Nat} {stop : Nat → Bool}

theorem search_eq_some (hs : search N stop h fuel p = some i) :
    ∃ q, p ≤ q ∧ q < p + fuel ∧ i = (h + q) % N ∧ stop i = true ∧
      ∀ r, p ≤ r → r < q → stop ((h + r) % N) = false := by
  induction fuel generalizing p with
  | zero => cases hs
  | succ fuel ih =>
    unfold search at hs
    split at hs
    · next hstop =>
      cases hs
      exact ⟨p, Nat.le_refl p, by omega, rfl, hstop, fun r h₁ h₂ => by omega⟩
    · next hstop =>
      obtain ⟨q, hpq, hq, hi, hqstop, hbefore⟩ := ih hs
      refine ⟨q, by omega, by omega, hi, hqstop, ?_⟩
      intro r hpr hrq
      by_cases hr : r = p
      · rw [hr]
        exact Bool.not_eq_true _ ▸ hstop
      · exact hbefore r (by omega) hrq

theorem search_eq_none (hs : search N stop h fuel p = none) (hpq : p ≤ q) (hq : q < p + fuel) :
    stop ((h + q) % N) = false := by
  induction fuel generalizing p with
  | zero => omega
  | succ fuel ih =>
    unfold search at hs
    split at hs
    · cases hs
    · next hstop =>
      by_cases hqp : q = p
      · rw [hqp]
        exact Bool.not_eq_true _ ▸ hstop
      · exact ih hs (by omega) (by omega)

variable (fuel) in
theorem search_of_stop (hpq : p ≤ q) (hq : q < p + fuel) (hstop : stop ((h + q) % N) = true)
    (hbefore : ∀ r, p ≤ r → r < q → stop ((h + r) % N) = false) :
    search N stop h fuel p = some ((h + q) % N) := by
  induction fuel generalizing p with
  | zero => omega
  | succ fuel ih =>
    unfold search
    by_cases hqp : q = p
    · subst hqp
      rw [if_pos hstop]
    · rw [hbefore p (Nat.le_refl p) (by omega), if_neg Bool.false_ne_true]
      exact ih (by omega) (by omega) fun r hpr hrq => hbefore r (by omega) hrq

theorem dist_lt (hN : 0 < N) : dist N h i < N :=
  Nat.mod_lt _ hN

/-- The probe that reaches a slot. -/
theorem add_dist (hh : h < N) (hi : i < N) : (h + dist N h i) % N = i := by
  unfold dist
  rw [Nat.add_mod_mod, show h + (i + (N - h)) = i + N by omega, Nat.add_mod_right,
    Nat.mod_eq_of_lt hi]

/-- No other probe reaches it. -/
theorem eq_dist (hh : h < N) (hp : p < N) (heq : (h + p) % N = i) : p = dist N h i := by
  subst heq
  unfold dist
  rw [Nat.mod_add_mod, show h + p + (N - h) = p + N by omega, Nat.add_mod_right,
    Nat.mod_eq_of_lt hp]

end

/-! ### Tables -/

section

variable {κ : Type*} [DecidableEq κ] {N : Nat} {home : κ → Nat} {t : Nat → Option κ}
  {i : Nat} {k : κ}

/-- A search for `k` stops at a slot that is free or holds it. -/
def stopAt (t : Nat → Option κ) (k : κ) (i : Nat) : Bool :=
  t i = none ∨ t i = some k

/-- A key is in one slot only, and no slot on the way to it is free. -/
structure Chained (N : Nat) (home : κ → Nat) (t : Nat → Option κ) : Prop where
  unique : ∀ i j k, i < N → j < N → t i = some k → t j = some k → i = j
  path : ∀ i k, i < N → t i = some k → ∀ p < dist N (home k) i, t ((home k + p) % N) ≠ none

omit [DecidableEq κ] in
theorem chained_empty : Chained N home fun _ => none :=
  ⟨nofun, nofun⟩

namespace Chained

/-- A key that is in the table is found. -/
theorem probe_of_mem (h : Chained N home t) (hhome : home k < N) (hi : i < N)
    (ht : t i = some k) : probe N (stopAt t k) (home k) = some i := by
  have hreach := add_dist hhome hi
  have hstop : stopAt t k ((home k + dist N (home k) i) % N) = true := by
    rw [hreach]
    exact decide_eq_true (.inr ht)
  have hfound := search_of_stop N (p := 0) (Nat.zero_le _)
    (by have := dist_lt (h := home k) (i := i) (Nat.zero_lt_of_lt hi); omega) hstop ?_
  · rwa [hreach] at hfound
  · intro r _ hr
    apply decide_eq_false
    rintro (hfree | hkey)
    · exact h.path i k hi ht r hr hfree
    · have hlt : (home k + r) % N < N := Nat.mod_lt _ (Nat.zero_lt_of_lt hi)
      have hsame := h.unique _ _ _ hlt hi hkey ht
      have := eq_dist hhome (by have := dist_lt (h := home k) (i := i) (Nat.zero_lt_of_lt hi); omega)
        hsame
      omega

/-- A key that is not in the table comes to a free slot, with no free slot on the way. -/
theorem probe_of_not_mem (hhome : home k < N) (hmiss : ∀ j < N, t j ≠ some k)
    (hfree : ∃ j < N, t j = none) :
    ∃ i < N, probe N (stopAt t k) (home k) = some i ∧ t i = none ∧
      ∀ p < dist N (home k) i, t ((home k + p) % N) ≠ none := by
  have hN := Nat.zero_lt_of_lt hhome
  cases hprobe : probe N (stopAt t k) (home k) with
  | none =>
    exfalso
    obtain ⟨j, hj, hnone⟩ := hfree
    have hpass := search_eq_none hprobe (Nat.zero_le (dist N (home k) j))
      (by have := dist_lt (h := home k) (i := j) hN; omega)
    rw [add_dist hhome hj] at hpass
    exact of_decide_eq_false hpass (.inl hnone)
  | some i =>
    obtain ⟨q, -, hq, rfl, hstop, hbefore⟩ := search_eq_some hprobe
    have hlt := Nat.mod_lt (home k + q) hN
    have hdist := eq_dist hhome (by omega : q < N) rfl
    refine ⟨_, hlt, rfl, ?_, ?_⟩
    · rcases of_decide_eq_true hstop with hnone | hkey
      · exact hnone
      · exact absurd hkey (hmiss _ hlt)
    · intro p hp hnone
      rw [← hdist] at hp
      exact of_decide_eq_false (hbefore p (Nat.zero_le p) hp) (.inl hnone)

omit [DecidableEq κ] in
/-- A key is put into the slot its search has come to. -/
theorem insert (h : Chained N home t) (hmiss : ∀ j < N, t j ≠ some k) (hi : t i = none)
    (hpath : ∀ p < dist N (home k) i, t ((home k + p) % N) ≠ none) :
    Chained N home (Function.update t i (some k)) := by
  constructor
  · intro j j' k' hj hj' hk hk'
    rcases update_eq_some.mp hk with ⟨hji, ⟨rfl⟩⟩ | ⟨-, hk⟩
    · rcases update_eq_some.mp hk' with ⟨hji', -⟩ | ⟨-, hk'⟩
      · rw [hji, hji']
      · exact absurd hk' (hmiss j' hj')
    · rcases update_eq_some.mp hk' with ⟨-, ⟨rfl⟩⟩ | ⟨-, hk'⟩
      · exact absurd hk (hmiss j hj)
      · exact h.unique j j' k' hj hj' hk hk'
  · intro j k' hj hk p hp hnone
    rw [Function.update_apply] at hnone
    split at hnone
    · cases hnone
    rcases update_eq_some.mp hk with ⟨rfl, ⟨rfl⟩⟩ | ⟨-, hk⟩
    · exact hpath p hp hnone
    · exact h.path j k' hj hk p hp hnone

omit [DecidableEq κ] in
/-- A slot is freed that is not on the way to another key. -/
theorem erase (h : Chained N home t) (hhome : ∀ k, home k < N)
    (hoff : ∀ j < N, j ≠ i → ∀ k' ∈ t j, ¬ dist N (home k') i < dist N (home k') j) :
    Chained N home (Function.update t i none) := by
  constructor
  · intro j j' k' hj hj' hk hk'
    exact h.unique j j' k' hj hj' (update_none_eq_some.mp hk).2 (update_none_eq_some.mp hk').2
  · intro j k' hj hk p hp hnone
    obtain ⟨hji, hk⟩ := update_none_eq_some.mp hk
    rw [Function.update_apply] at hnone
    split at hnone
    · next hpi =>
      have hpN : p < N := by
        have := dist_lt (h := home k') (i := j) (Nat.zero_lt_of_lt hj)
        omega
      have hdist := eq_dist (hhome k') hpN hpi
      apply hoff j hj hji k' hk
      omega
    · exact h.path j k' hj hk p hp hnone

omit [DecidableEq κ] in
/-- A table with fewer keys than slots has a free slot. -/
theorem exists_free (h : Chained N home t) {keys : List κ} (hkeys : ∀ i < N, ∀ k ∈ t i, k ∈ keys)
    (hlen : keys.length < N) : ∃ i < N, t i = none := by
  by_contra hfull
  have hsome : ∀ i < N, ∃ k, t i = some k := by
    intro i hi
    cases ht : t i with
    | none => exact absurd ⟨i, hi, ht⟩ hfull
    | some k => exact ⟨k, rfl⟩
  have hsub : (range N).map t ⊆ keys.map some := by
    intro o ho
    obtain ⟨i, hi, rfl⟩ := mem_map.mp ho
    obtain ⟨k, hk⟩ := hsome i (mem_range.mp hi)
    rw [hk]
    exact mem_map_of_mem (hkeys i (mem_range.mp hi) k hk)
  have hnodup : ((range N).map t).Nodup := by
    apply List.Nodup.map_on _ nodup_range
    intro i hi j hj heq
    obtain ⟨k, hk⟩ := hsome i (mem_range.mp hi)
    exact h.unique i j k (mem_range.mp hi) (mem_range.mp hj) hk (heq ▸ hk)
  have hle := (subperm_of_subset hnodup hsub).length_le
  rw [length_map, length_map, length_range] at hle
  omega

end Chained

end

end UbsVirt.Probing
