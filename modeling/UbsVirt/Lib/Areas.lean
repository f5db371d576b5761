import Mathlib.Data.List.Basic
import UbsVirt.Lib.Maps

/-!
# Areas marked in a bitmap

A bitmap is a list of bits; a set bit is taken. An area is a start and a length. Some bits
are taken from the beginning (the base), the others are taken by the areas of the keys that
hold one. `Carved` says that the bitmap records exactly that. Marking a clear area for a key
that holds none, and clearing the area of a key, keep the record.
-/

namespace UbsVirt.Areas

open List Maps Function

def IsArea (v : Bool) (start size : Nat) (bits : List Bool) : Prop :=
  ∀ i, start ≤ i → i < start + size → bits[i]? = some v

def fill (v : Bool) (start size : Nat) (bits : List Bool) : List Bool :=
  bits.take start ++ List.replicate size v ++ bits.drop (start + size)

section

variable {v w : Bool} {start size : Nat} {bits : List Bool}

theorem IsArea.le_length (h : IsArea v start size bits) (hsize : 0 < size) :
    start + size ≤ bits.length := by
  have hlast := h (start + size - 1) (by omega) (by omega)
  have := (List.getElem?_eq_some_iff.mp hlast).1
  omega

/-- Filling an area inside the bitmap keeps its length. -/
theorem length_fill (h : start + size ≤ bits.length) :
    (fill v start size bits).length = bits.length := by
  unfold fill
  simp only [length_append, length_take, length_replicate, length_drop]
  omega

theorem getElem?_fill (h : start + size ≤ bits.length) (i : Nat) : (fill v start size bits)[i]? =
      if start ≤ i ∧ i < start + size then some v else bits[i]? := by
  unfold fill
  have hstart : (bits.take start).length = start := by
    rw [length_take]
    omega
  by_cases hlt : i < start
  · rw [if_neg (by omega), append_assoc, getElem?_append_left (by omega), getElem?_take_of_lt hlt]
  · by_cases hin : i < start + size
    · rw [if_pos (by omega), append_assoc, getElem?_append_right (by omega), hstart,
        getElem?_append_left (by rw [length_replicate]; omega),
        getElem?_replicate, if_pos (by omega)]
    · rw [if_neg (by omega), getElem?_append_right
        (by rw [length_append, hstart, length_replicate]; omega),
        length_append, hstart, length_replicate, getElem?_drop]
      congr 1
      omega

theorem fill_isArea (h : start + size ≤ bits.length) :
    IsArea v start size (fill v start size bits) := by
  intro i hlo hhi
  rw [getElem?_fill h, if_pos ⟨hlo, hhi⟩]

/-- Filling an area with the value it has changes nothing. -/
theorem fill_eq_self (h : IsArea v start size bits) (hlen : start + size ≤ bits.length) :
    fill v start size bits = bits := by
  apply ext_getElem?
  intro i
  rw [getElem?_fill hlen]
  split
  · next hi => exact (h i hi.1 hi.2).symm
  · rfl

/-- Filling an area twice leaves the later value. -/
theorem fill_fill (hlen : start + size ≤ bits.length) :
    fill v start size (fill w start size bits) = fill v start size bits := by
  apply ext_getElem?
  intro i
  rw [getElem?_fill (by rw [length_fill hlen]; exact hlen), getElem?_fill hlen, getElem?_fill hlen]
  split <;> rfl

/-- The number of clear bits around an area does not depend on what the area holds. -/
theorem count_fill_add (h : IsArea w start size bits) (hlen : start + size ≤ bits.length) :
    (fill v start size bits).count false + (replicate size w).count false =
      bits.count false + (replicate size v).count false := by
  have hsame := congrArg (count false) (fill_eq_self h hlen)
  unfold fill at hsame ⊢
  simp only [count_append] at hsame ⊢
  omega

/-- Marking a clear area uses up as many clear bits as it is long. -/
theorem count_fill_true (h : IsArea false start size bits) (hlen : start + size ≤ bits.length) :
    (fill true start size bits).count false + size = bits.count false := by
  have := count_fill_add (v := true) h hlen
  simpa [count_replicate] using this

/-- Clearing a marked area gives the same number back. -/
theorem count_fill_false (h : IsArea true start size bits) (hlen : start + size ≤ bits.length) :
    (fill false start size bits).count false = bits.count false + size := by
  have := count_fill_add (v := false) h hlen
  simpa [count_replicate] using this

end

section

variable {κ : Type*}

def Covers (area : Nat × Nat) (i : Nat) : Prop :=
  area.1 ≤ i ∧ i < area.1 + area.2

instance (area : Nat × Nat) (i : Nat) : Decidable (Covers area i) :=
  inferInstanceAs (Decidable (area.1 ≤ i ∧ i < area.1 + area.2))

/-- The taken bits are those of the base and those of the areas of the keys; the areas lie
inside the bitmap, outside the base and apart from each other. -/
structure Carved (base bits : List Bool) (areas : κ → Option (Nat × Nat)) : Prop where
  length_eq : bits.length = base.length
  within : ∀ k area, areas k = some area → area.1 + area.2 ≤ base.length
  outside : ∀ k area i, areas k = some area → Covers area i → base[i]? = some false
  apart : ∀ k k' area area' i, areas k = some area → areas k' = some area' →
    Covers area i → Covers area' i → k = k'
  taken : ∀ i, bits[i]? = some true ↔
    base[i]? = some true ∨ ∃ k area, areas k = some area ∧ Covers area i

namespace Carved

variable {base bits : List Bool} {areas : κ → Option (Nat × Nat)} {k : κ} {area : Nat × Nat}

theorem fresh (h : ∀ k, areas k = none) : Carved base base areas where
  length_eq := rfl
  within k area hk := by simp [h] at hk
  outside k area i hk := by simp [h] at hk
  apart k k' area area' i hk := by simp [h] at hk
  taken i := by simp [h]

/-- The record depends only on which areas are held. -/
theorem congr {areas' : κ → Option (Nat × Nat)} (h : Carved base bits areas)
    (heq : ∀ k, areas' k = areas k) : Carved base bits areas' := by
  rwa [funext heq]

theorem isArea (h : Carved base bits areas) (hk : areas k = some area) :
    IsArea true area.1 area.2 bits := by
  intro i hlo hhi
  exact (h.taken i).mpr (.inr ⟨k, area, hk, hlo, hhi⟩)

theorem getElem?_false (h : Carved base bits areas) {i : Nat} (hi : bits[i]? = some false) :
    base[i]? = some false ∧ ∀ k area, areas k = some area → ¬ Covers area i := by
  have hnot : ¬ bits[i]? = some true := by
    rw [hi]
    simp
  rw [h.taken, not_or] at hnot
  constructor
  · have hlt := (List.getElem?_eq_some_iff.mp hi).1
    rw [h.length_eq] at hlt
    rw [getElem?_eq_getElem hlt] at hnot ⊢
    cases hb : base[i] with
    | false => rfl
    | true => exact absurd (by rw [hb]) hnot.1
  · intro k area hk hcov
    exact hnot.2 ⟨k, area, hk, hcov⟩

/-- With no bit taken, no key holds a non-empty area. -/
theorem eq_zero_of_clear (h : Carved base bits areas) (hclear : bits.count false = bits.length)
    (hk : areas k = some area) : area.2 = 0 := by
  by_contra hne
  have hmark := h.isArea hk area.1 (Nat.le_refl _) (by omega)
  have hmem : true ∈ bits := mem_of_getElem? hmark
  rw [count_eq_length] at hclear
  exact Bool.noConfusion (hclear true hmem)

variable [DecidableEq κ]

variable (area) in
/-- Marking a clear area for a key that holds none. -/
theorem carve (h : Carved base bits areas) (hk : areas k = none)
    (hclear : IsArea false area.1 area.2 bits) (hlen : area.1 + area.2 ≤ bits.length) :
    Carved base (fill true area.1 area.2 bits) (update areas k (some area)) where
  length_eq := by rw [length_fill hlen, h.length_eq]
  within k' area' hk' := by
    rcases update_eq_some.mp hk' with ⟨-, ⟨rfl⟩⟩ | ⟨-, hk'⟩
    · rwa [← h.length_eq]
    · exact h.within k' area' hk'
  outside k' area' i hk' hcov := by
    rcases update_eq_some.mp hk' with ⟨-, ⟨rfl⟩⟩ | ⟨-, hk'⟩
    · exact (h.getElem?_false (hclear i hcov.1 hcov.2)).1
    · exact h.outside k' area' i hk' hcov
  apart k₁ k₂ a₁ a₂ i h₁ h₂ c₁ c₂ := by
    refine apart_update (R := fun a b => Covers a i ∧ Covers b i) And.symm ?_ ?_ k₁ k₂ a₁ a₂ h₁ h₂
      ⟨c₁, c₂⟩
    · exact fun u v y z hu hv hc => h.apart u v y z i hu hv hc.1 hc.2
    · -- no other area holds a bit of the new one, whose bits were clear
      exact fun v z _ hv hc => (h.getElem?_false (hclear i hc.1.1 hc.1.2)).2 v z hv hc.2
  taken i := by
    rw [getElem?_fill hlen]
    constructor
    · intro hi
      split at hi
      · next hcov => exact .inr ⟨k, area, by simp, hcov⟩
      · rcases (h.taken i).mp hi with hb | ⟨k', a', hk', hcov⟩
        · exact .inl hb
        · refine .inr ⟨k', a', ?_, hcov⟩
          rw [update_of_ne, hk']
          rintro rfl
          rw [hk] at hk'
          cases hk'
    · rintro (hb | ⟨k', a', hk', hcov⟩)
      · split
        · rfl
        · exact (h.taken i).mpr (.inl hb)
      · rcases update_eq_some.mp hk' with ⟨-, ⟨rfl⟩⟩ | ⟨-, hk'⟩
        · exact if_pos hcov
        · split
          · rfl
          · exact (h.taken i).mpr (.inr ⟨k', a', hk', hcov⟩)

/-- Clearing the area of a key. -/
theorem release (h : Carved base bits areas) (hk : areas k = some area) :
    Carved base (fill false area.1 area.2 bits) (update areas k none) := by
  have hlen : area.1 + area.2 ≤ bits.length := by
    rw [h.length_eq]
    exact h.within k area hk
  have hold : ∀ k' a', update areas k none k' = some a' → k' ≠ k ∧ areas k' = some a' :=
    fun k' a' => update_none_eq_some.mp
  constructor
  · rw [length_fill hlen, h.length_eq]
  · intro k' a' hk'
    exact h.within k' a' (hold k' a' hk').2
  · intro k' a' i hk'
    exact h.outside k' a' i (hold k' a' hk').2
  · intro k₁ k₂ a₁ a₂ i h₁ h₂
    exact h.apart k₁ k₂ a₁ a₂ i (hold k₁ a₁ h₁).2 (hold k₂ a₂ h₂).2
  · intro i
    rw [getElem?_fill hlen]
    constructor
    · intro hi
      split at hi
      · cases hi
      · next hcov =>
        rcases (h.taken i).mp hi with hb | ⟨k', a', hk', hcov'⟩
        · exact .inl hb
        · refine .inr ⟨k', a', ?_, hcov'⟩
          rw [update_of_ne, hk']
          rintro rfl
          rw [hk] at hk'
          cases hk'
          exact hcov hcov'
    · rintro (hb | ⟨k', a', hk', hcov⟩)
      · rw [if_neg]
        · exact (h.taken i).mpr (.inl hb)
        · intro hcov
          have := h.outside k area i hk hcov
          rw [hb] at this
          cases this
      · obtain ⟨hne, hk'⟩ := hold k' a' hk'
        rw [if_neg]
        · exact (h.taken i).mpr (.inr ⟨k', a', hk', hcov⟩)
        · intro hcov'
          exact hne (h.apart k' k a' area i hk' hk hcov hcov')

end Carved

end

end UbsVirt.Areas
