import Mathlib.Combinatorics.Hall.Finite
import Mathlib.Data.Fintype.Sum

/-!
# Matching some of the elements of a set

Hall's theorem says when every element of a set can be given one of its own choices so that no
choice is given twice. Here only `n` of the elements have to be served: then the elements of a
subset may lack choices, but no subset may lack more of them than there are elements to spare.
-/

namespace UbsVirt.Matching

open Finset Function

variable {α β : Type*} {C : Finset α} {N : α → Finset β} {n : Nat}

/-- Some `n` elements of `C` can each be given one of their choices, no choice twice. -/
def Matches (C : Finset α) (N : α → Finset β) (n : Nat) : Prop :=
  ∃ T ⊆ C, T.card = n ∧ ∃ f : T → β, Injective f ∧ ∀ a : T, f a ∈ N a

variable [DecidableEq β]

/-- The elements of a subset that are served have different choices; the others are to spare. -/
theorem Matches.card_le [DecidableEq α] (h : Matches C N n) {S : Finset α} (hS : S ⊆ C) :
    S.card + n ≤ C.card + (S.biUnion N).card := by
  obtain ⟨T, hT, hcard, hmatched⟩ := h
  have hserved : (S ∩ T).card ≤ (S.biUnion N).card := by
    have hhall := (all_card_le_biUnion_card_iff_existsInjective' fun a : T => N a).mpr
      hmatched (S.subtype (· ∈ T))
    rw [card_subtype, filter_mem_eq_inter] at hhall
    refine hhall.trans (card_le_card ?_)
    intro b hb
    obtain ⟨a, ha, hb⟩ := mem_biUnion.mp hb
    exact mem_biUnion.mpr ⟨a, mem_subtype.mp ha, hb⟩
  have hspare : (S \ T).card ≤ (C \ T).card :=
    card_le_card (sdiff_subset_sdiff hS (Finset.Subset.refl T))
  have hsplit := card_inter_add_card_sdiff S T
  have hrest := card_sdiff_add_card_eq_card hT
  omega

/-- With a spare choice for each element that need not be served, Hall's theorem serves all. -/
theorem exists_injective_spare (h : ∀ S ⊆ C, S.card + n ≤ C.card + (S.biUnion N).card)
    (hn : n ≤ C.card) : ∃ f : C → β ⊕ Fin (C.card - n), Injective f ∧
      ∀ a : C, f a ∈ (N a).disjSum Finset.univ := by
  refine (all_card_le_biUnion_card_iff_existsInjective' _).mp fun S => ?_
  rcases S.eq_empty_or_nonempty with rfl | hne
  · exact Nat.zero_le _
  have hsub : ((S.map (Embedding.subtype _)).biUnion N).disjSum univ ⊆
      S.biUnion fun a => (N a).disjSum (univ : Finset (Fin (C.card - n))) := by
    intro x hx
    obtain ⟨a, ha⟩ := hne
    rcases mem_disjSum.mp hx with ⟨b, hb, rfl⟩ | ⟨k, hk, rfl⟩
    · obtain ⟨a', ha', hb⟩ := mem_biUnion.mp hb
      obtain ⟨c, hc, rfl⟩ := mem_map.mp ha'
      exact mem_biUnion.mpr ⟨c, hc, inl_mem_disjSum.mpr hb⟩
    · exact mem_biUnion.mpr ⟨a, ha, inr_mem_disjSum.mpr hk⟩
  have hcard := card_le_card hsub
  rw [card_disjSum, card_univ, Fintype.card_fin] at hcard
  have hS := h (S.map (Embedding.subtype _)) (map_subtype_subset S)
  rw [card_map] at hS
  omega

/-- Hall's condition with a deficiency: `n` candidates can be served. -/
theorem matches_of_card_le (hn : n ≤ C.card)
    (h : ∀ S ⊆ C, S.card + n ≤ C.card + (S.biUnion N).card) : Matches C N n := by
  obtain ⟨f, hinj, hf⟩ := exists_injective_spare h hn
  -- the elements that got a spare choice are no more than there are spare choices
  have hunserved : (univ.filter fun a => ¬ (f a).isLeft = true).card ≤ C.card - n := by
    have hmaps : Set.MapsTo f (univ.filter fun a => ¬ (f a).isLeft = true)
        (univ.map Embedding.inr : Finset (β ⊕ Fin (C.card - n))) := by
      intro a ha
      obtain ⟨k, hk⟩ := Sum.isRight_iff.mp (Sum.not_isLeft.mp (mem_filter.mp ha).2)
      rw [hk]
      exact mem_coe.mpr (mem_map_of_mem _ (mem_univ k))
    have hcard := card_le_card_of_injOn f hmaps hinj.injOn
    rwa [card_map, card_univ, Fintype.card_fin] at hcard
  have hserved : n ≤ (univ.filter fun a => (f a).isLeft = true).card := by
    have hsplit := card_filter_add_card_filter_not (s := (univ : Finset C))
      fun a => (f a).isLeft = true
    rw [card_univ, Fintype.card_coe] at hsplit
    omega
  obtain ⟨T, hT, hcard⟩ := exists_subset_card_eq hserved
  have hleft : ∀ a : C, a ∈ T → (f a).isLeft = true :=
    fun a ha => (mem_filter.mp (hT ha)).2
  have hmem : ∀ a : T.map (Embedding.subtype (· ∈ C)), ∃ h : a.1 ∈ C, ⟨a.1, h⟩ ∈ T := by
    rintro ⟨a, ha⟩
    obtain ⟨c, hc, rfl⟩ := mem_map.mp ha
    exact ⟨c.2, hc⟩
  refine ⟨T.map (Embedding.subtype _), map_subtype_subset T,
    (card_map _).trans hcard, fun a => (f ⟨a.1, (hmem a).1⟩).getLeft
      (hleft _ (hmem a).2), ?_, ?_⟩
  · intro a b hab
    have hsame := congrArg (Sum.inl (β := Fin (C.card - n))) hab
    rw [Sum.inl_getLeft, Sum.inl_getLeft] at hsame
    exact Subtype.ext (Subtype.mk.inj (hinj hsame))
  · intro a
    have hchoice := hf ⟨a.1, (hmem a).1⟩
    rwa [← Sum.inl_getLeft _ (hleft _ (hmem a).2), inl_mem_disjSum] at hchoice

theorem matches_iff [DecidableEq α] (hn : n ≤ C.card) :
    Matches C N n ↔ ∀ S ⊆ C, S.card + n ≤ C.card + (S.biUnion N).card :=
  ⟨fun h _ hS => h.card_le hS, matches_of_card_le hn⟩

end UbsVirt.Matching
