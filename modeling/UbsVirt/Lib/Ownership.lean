import Mathlib.Data.Set.Insert
import UbsVirt.Lib.Maps

/-!
# Resources with exactly one owner

Some resources are in use, and every key holds at most one of them. The use is accounted
for when the resources in use are exactly those that some key holds, and no two keys hold
the same. Handing a fresh resource to a key that has none, and taking one back from its
key, keep the account.
-/

namespace UbsVirt.Ownership

open Function Maps

variable {κ ο : Type*} {used : Set ο} {holds : κ → Option ο}

/-- The resources in use are held, each by exactly one key. -/
structure Owned (used : Set ο) (holds : κ → Option ο) : Prop where
  covered : ∀ o, o ∈ used ↔ ∃ k, holds k = some o
  unique : ∀ k k' o, holds k = some o → holds k' = some o → k = k'

namespace Owned

theorem empty (h : ∀ k, holds k = none) : Owned (∅ : Set ο) holds where
  covered o := by simp [h]
  unique k k' o hk := by simp [h] at hk

theorem existsUnique (h : Owned used holds) {o : ο} (ho : o ∈ used) : ∃! k, holds k = some o := by
  obtain ⟨k, hk⟩ := (h.covered o).mp ho
  exact ⟨k, hk, fun k' hk' => h.unique k' k o hk' hk⟩

theorem eq_empty (h : Owned used holds) (hnone : ∀ k, holds k = none) : used = ∅ := by
  ext o
  rw [h.covered o]
  simp [hnone]

variable [DecidableEq κ]

theorem give (h : Owned used holds) {k : κ} {o : ο} (hk : holds k = none) (ho : o ∉ used) :
    Owned (insert o used) (update holds k (some o)) where
  covered x := by
    rw [Set.mem_insert_iff, h.covered]
    constructor
    · rintro (rfl | ⟨k', hk'⟩)
      · exact ⟨k, by simp⟩
      · refine ⟨k', ?_⟩
        rw [update_of_ne, hk']
        rintro rfl
        rw [hk] at hk'
        cases hk'
    · rintro ⟨k', hk'⟩
      rcases update_eq_some.mp hk' with ⟨-, ⟨rfl⟩⟩ | ⟨-, hk'⟩
      · exact .inl rfl
      · exact .inr ⟨k', hk'⟩
  unique k₁ k₂ x h₁ h₂ := by
    -- the fresh resource was held by nobody
    refine apart_update (R := Eq) Eq.symm ?_ ?_ k₁ k₂ x x h₁ h₂ rfl
    · rintro k₁ k₂ x _ h₁ h₂ rfl
      exact h.unique k₁ k₂ x h₁ h₂
    · rintro k' _ - hk' rfl
      exact ho ((h.covered o).mpr ⟨k', hk'⟩)

theorem take (h : Owned used holds) {k : κ} {o : ο} (hk : holds k = some o) :
    Owned (used \ {o}) (update holds k none) where
  covered x := by
    rw [Set.mem_sdiff, h.covered, Set.mem_singleton_iff]
    constructor
    · rintro ⟨⟨k', hk'⟩, hx⟩
      refine ⟨k', ?_⟩
      rw [update_of_ne, hk']
      rintro rfl
      rw [hk, Option.some.injEq] at hk'
      exact hx hk'.symm
    · rintro ⟨k', hk'⟩
      obtain ⟨hkk, hk'⟩ := update_none_eq_some.mp hk'
      refine ⟨⟨k', hk'⟩, ?_⟩
      rintro rfl
      exact hkk (h.unique k' k x hk' hk)
  unique k₁ k₂ x h₁ h₂ :=
    h.unique k₁ k₂ x (update_none_eq_some.mp h₁).2 (update_none_eq_some.mp h₂).2

end Owned

end UbsVirt.Ownership
