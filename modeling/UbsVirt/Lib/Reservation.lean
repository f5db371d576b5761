import Mathlib.Algebra.Order.BigOperators.Group.Finset

/-!
# Reservations that may be exceeded

Tenants share a total. Each has a reservation, and what it uses beyond that is borrowed.
The total is committed to the larger of use and reservation of every tenant; as long as it
covers that, every tenant can use its whole reservation whatever the others have borrowed.
-/

namespace UbsVirt.Reservation

open Finset Function

variable {ι : Type*} (tenants : Finset ι) (used request : ι → ℕ)

def committed : ℕ :=
  ∑ i ∈ tenants, max (used i) (request i)

def borrowed : ℕ :=
  ∑ i ∈ tenants, (used i - request i)

theorem committed_eq : committed tenants used request =
    ∑ i ∈ tenants, request i + borrowed tenants used request := by
  unfold committed borrowed
  rw [← sum_add_distrib]
  apply sum_congr rfl
  intro i _
  omega

theorem sum_used_le : ∑ i ∈ tenants, used i ≤ committed tenants used request := by
  apply sum_le_sum
  intro i _
  exact le_max_left (used i) (request i)

variable {tenants used request}

variable [DecidableEq ι] {i : ι}

theorem committed_erase (hi : i ∈ tenants) : committed tenants used request =
    max (used i) (request i) + committed (tenants.erase i) used request :=
  (add_sum_erase tenants _ hi).symm

/-- The use of somebody else does not count. -/
theorem committed_update_of_notMem (hi : i ∉ tenants) (n : ℕ) :
    committed tenants (update used i n) request = committed tenants used request := by
  apply sum_congr rfl
  intro j hj
  rw [update_of_ne]
  rintro rfl
  exact hi hj

variable {n : ℕ}

/-- Borrowing at most what is left keeps the commitment. -/
theorem committed_update_le (hi : i ∈ tenants) {total : ℕ}
    (h : committed tenants used request ≤ total) (hborrow : n - max (used i) (request i) ≤
      total - (∑ j ∈ tenants, request j + borrowed tenants used request)) :
    committed tenants (update used i n) request ≤ total := by
  have hrest : committed (tenants.erase i) (update used i n) request =
      committed (tenants.erase i) used request :=
    committed_update_of_notMem (notMem_erase i tenants) n
  rw [← committed_eq, committed_erase hi] at hborrow
  rw [committed_erase hi] at h ⊢
  rw [hrest, update_self]
  omega

/-- Giving back keeps the commitment. -/
theorem committed_update_le_of_le (hn : n ≤ used i) :
    committed tenants (update used i n) request ≤ committed tenants used request := by
  apply sum_le_sum
  intro j _
  by_cases hj : j = i
  · subst hj
    rw [update_self]
    omega
  · rw [update_of_ne hj]

/-- Within its reservation a tenant fits, whatever the others have borrowed. -/
theorem sum_used_add_le (hi : i ∈ tenants) {total : ℕ}
    (h : committed tenants used request ≤ total) (hn : used i + n ≤ request i) :
    ∑ j ∈ tenants, used j + n ≤ total := by
  have hrest := sum_used_le (tenants.erase i) used request
  rw [committed_erase hi] at h
  rw [← add_sum_erase tenants used hi]
  omega

end UbsVirt.Reservation
