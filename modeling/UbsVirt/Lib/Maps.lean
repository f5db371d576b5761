import Mathlib.Logic.Function.Basic

/-!
# Maps

A map is a function from keys to optional values, changed at one key at a time.
-/

namespace UbsVirt.Maps

open Function

variable {α β : Type*} [DecidableEq α] {f : α → Option β} {a x : α} {o : Option β} {y : β}

/-- An entry of a map after one key has been changed. -/
theorem update_eq_some : update f a o x = some y ↔ x = a ∧ o = some y ∨ x ≠ a ∧ f x = some y := by
  rw [update_apply]
  split
  · next h => simp [h]
  · next h => simp [h]

/-- An entry of a map after one key has been erased. -/
theorem update_none_eq_some : update f a none x = some y ↔ x ≠ a ∧ f x = some y := by
  rw [update_eq_some]
  simp

/-- A new entry, under its key, is not related to the others, and those are not to each other. -/
theorem apart_update {R : β → β → Prop} {b : β} (hsymm : ∀ {y z}, R y z → R z y)
    (h : ∀ u v y z, f u = some y → f v = some z → R y z → u = v)
    (hnew : ∀ v z, v ≠ a → f v = some z → ¬ R b z) (u v : α) (y z : β)
    (hu : update f a (some b) u = some y) (hv : update f a (some b) v = some z)
    (hyz : R y z) : u = v := by
  rcases update_eq_some.mp hu with ⟨rfl, ⟨rfl⟩⟩ | ⟨hua, hfu⟩
  · rcases update_eq_some.mp hv with ⟨rfl, -⟩ | ⟨hva, hfv⟩
    · rfl
    · exact absurd hyz (hnew v z hva hfv)
  · rcases update_eq_some.mp hv with ⟨rfl, ⟨rfl⟩⟩ | ⟨-, hfv⟩
    · exact absurd (hsymm hyz) (hnew u y hua hfu)
    · exact h u v y z hfu hfv hyz

end UbsVirt.Maps
