import Mathlib.Data.List.Forall2
import Mathlib.Data.List.NodupEquivFin

/-!
# Matching two lists in order

The items of one list get partners in another, each its own, without crossing. Whether that can be
done is decided from the front: an item may take the first partner that suits it.
-/

namespace Matching

open List

/-- There is an order-preserving injection of the first list that keeps to the relation. -/
def Matches (R : α → β → Prop) (xs : List α) (ys : List β) : Prop :=
  ∃ f : Fin xs.length ↪o Fin ys.length, ∀ i, R (xs.get i) (ys.get (f i))

lemma matches_iff_sublist : Matches R xs ys ↔ ∃ zs, zs <+ ys ∧ Forall₂ R xs zs := by
  constructor
  · rintro ⟨f, hf⟩
    refine ⟨ofFn fun i => ys.get (f i), ?_, ?_⟩
    · rw [sublist_iff_exists_fin_orderEmbedding_get_eq]
      exact ⟨(Fin.castOrderIso length_ofFn).toOrderEmbedding.trans f, fun i => by simp; rfl⟩
    · refine forall₂_iff_get.2 ⟨by simp, fun i hi _ => ?_⟩
      simpa using hf ⟨i, hi⟩
  · rintro ⟨zs, hsub, hR⟩
    obtain ⟨f, hf⟩ := sublist_iff_exists_fin_orderEmbedding_get_eq.1 hsub
    obtain ⟨hlen, hget⟩ := forall₂_iff_get.1 hR
    refine ⟨(Fin.castOrderIso hlen).toOrderEmbedding.trans f, fun i => ?_⟩
    have := hget i i.2 (hlen ▸ i.2)
    rw [hf] at this
    exact this

lemma matches_nil (R : α → β → Prop) (ys : List β) : Matches R [] ys :=
  matches_iff_sublist.2 ⟨[], nil_sublist ys, .nil⟩

lemma not_matches_of_length_lt (h : ys.length < xs.length) : ¬ Matches R xs ys := by
  rw [matches_iff_sublist]
  rintro ⟨zs, hsub, hR⟩
  have := hsub.length_le
  rw [← hR.length_eq] at this
  omega

/-- A match can be moved to the first partner, so taking it loses nothing. -/
theorem matches_cons_of_rel (h : R x y) : Matches R (x :: xs) (y :: ys) ↔ Matches R xs ys := by
  simp only [matches_iff_sublist]
  constructor
  · rintro ⟨zs, hsub, hR⟩
    cases hR with
    | cons _ hR => exact ⟨_, hsub.tail, hR⟩
  · rintro ⟨zs, hsub, hR⟩
    exact ⟨y :: zs, hsub.cons_cons y, .cons h hR⟩

lemma matches_cons_of_not_rel (h : ¬ R x y) :
    Matches R (x :: xs) (y :: ys) ↔ Matches R (x :: xs) ys := by
  simp only [matches_iff_sublist]
  constructor
  · rintro ⟨zs, hsub, hR⟩
    cases hsub with
    | cons _ hsub => exact ⟨zs, hsub, hR⟩
    | cons_cons _ hsub =>
      cases hR with
      | cons hxy _ => exact (h hxy).elim
  · rintro ⟨zs, hsub, hR⟩
    exact ⟨zs, hsub.cons y, hR⟩

end Matching
