import Mathlib.Order.Lattice
import Mathlib.Data.List.Basic

/-!
# Maps in the order of their keys

A `std::map` as its entries, which come in the order of the keys. A map is rebuilt by setting its
entries one after the other.
-/

namespace UbsVirt

open List

variable {κ ν : Type*} [LinearOrder κ]

def setEntry (k : κ) (v : ν) : List (κ × ν) → List (κ × ν)
  | [] => [(k, v)]
  | e :: es => if k < e.1 then (k, v) :: e :: es
    else if k = e.1 then (k, v) :: es else e :: setEntry k v es

variable {k : κ} {v : ν} {es : List (κ × ν)}

theorem mem_setEntry {e : κ × ν} (h : e ∈ setEntry k v es) : e = (k, v) ∨ e ∈ es := by
  induction es with
  | nil => exact .inl (mem_singleton.mp h)
  | cons d es ih =>
    rw [setEntry] at h
    split at h
    · exact mem_cons.mp h
    split at h
    · rcases mem_cons.mp h with h | h
      · exact .inl h
      · exact .inr (mem_cons_of_mem d h)
    · rcases mem_cons.mp h with h | h
      · exact .inr (h ▸ mem_cons_self)
      · exact (ih h).imp_right (mem_cons_of_mem d)

/-- A key above all others goes to the end. -/
theorem setEntry_of_lt (h : ∀ e ∈ es, e.1 < k) : setEntry k v es = es ++ [(k, v)] := by
  induction es with
  | nil => rfl
  | cons d es ih =>
    have hd := h d mem_cons_self
    rw [setEntry, if_neg (lt_asymm hd), if_neg (ne_of_gt hd),
      ih fun e he => h e (mem_cons_of_mem d he), cons_append]

theorem sorted_setEntry
    (h : es.Pairwise fun d e => d.1 < e.1) : (setEntry k v es).Pairwise fun d e => d.1 < e.1 := by
  induction es with
  | nil => exact pairwise_singleton _ _
  | cons d es ih =>
    obtain ⟨hd, hes⟩ := pairwise_cons.mp h
    rw [setEntry]
    split
    · next hk =>
      refine pairwise_cons.mpr ⟨fun e he => ?_, h⟩
      rcases mem_cons.mp he with rfl | he
      · exact hk
      · exact lt_trans hk (hd e he)
    split
    · next hk => exact pairwise_cons.mpr ⟨fun e he => hk ▸ hd e he, hes⟩
    · next hlt hne =>
      refine pairwise_cons.mpr ⟨fun e he => ?_, ih hes⟩
      rcases mem_setEntry he with rfl | he
      · exact lt_of_le_of_ne (not_lt.mp hlt) (Ne.symm hne)
      · exact hd e he

/-- A map, as its entries in the order of their keys. -/
structure OrderedMap (κ ν : Type*) [LinearOrder κ] where
  entries : List (κ × ν)
  sorted : entries.Pairwise fun d e => d.1 < e.1
  deriving DecidableEq

namespace OrderedMap

def empty : OrderedMap κ ν := ⟨[], List.Pairwise.nil⟩

def insert (m : OrderedMap κ ν) (k : κ) (v : ν) : OrderedMap κ ν :=
  ⟨setEntry k v m.entries, sorted_setEntry m.sorted⟩

def contains (m : OrderedMap κ ν) (k : κ) : Bool := m.entries.any (·.1 = k)

theorem ext_entries {m m' : OrderedMap κ ν} (h : m.entries = m'.entries) : m = m' := by
  cases m
  cases h
  rfl

/-- Setting the entries of a map one after the other, in their order, gives the map. -/
theorem foldl_insert_entries (m : OrderedMap κ ν) :
    m.entries.foldl (fun m e => m.insert e.1 e.2) empty = m := by
  have happend : ∀ (rest : List (κ × ν)) (d : OrderedMap κ ν), d.entries ++ rest = m.entries →
      (rest.foldl (fun m e => m.insert e.1 e.2) d).entries = m.entries := by
    intro rest
    induction rest with
    | nil => exact fun d hd => (append_nil _).symm.trans hd
    | cons e rest ih =>
      intro d hd
      have hbelow : ∀ e' ∈ d.entries, e'.1 < e.1 := by
        have hsorted := m.sorted
        rw [← hd] at hsorted
        exact fun e' he' => (pairwise_append.mp hsorted).2.2 e' he' e mem_cons_self
      refine ih (d.insert e.1 e.2) ?_
      show setEntry e.1 e.2 d.entries ++ rest = m.entries
      rwa [setEntry_of_lt hbelow, append_assoc]
  exact ext_entries (happend m.entries empty rfl)

end OrderedMap

end UbsVirt
