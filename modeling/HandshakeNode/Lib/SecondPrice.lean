import Mathlib.Algebra.Order.ZeroLEOne
import Mathlib.Data.Multiset.Fold
import Mathlib.Order.Lattice

/-!
# Second-price auctions

Bids come one after the other. The winner is the first of the largest bids and the price is the
second largest bid, both of the whole auction. A tally of the winner, the largest and the second
largest bid is kept up to date bid by bid.
-/

namespace SecondPrice

open Multiset

variable {O V : Type*} [LinearOrder V] [Zero V] {bids : List (O × V)} {b : O × V}

def highest (bids : Multiset V) : V := bids.fold max 0

/-- The second largest bid, counted with multiplicity, zero when there is none. -/
def second (bids : Multiset V) : V := highest (bids.erase (highest bids))

def amounts (bids : List (O × V)) : Multiset V := (bids.map Prod.snd : List V)

def winner (bids : List (O × V)) : Option O :=
  (bids.find? fun b => b.2 = highest (amounts bids)).map Prod.fst

structure Tally (O V : Type*) where
  winner : Option O
  highest : V
  second : V

def Tally.bid (t : Tally O V) (b : O × V) : Tally O V :=
  if t.winner = none ∨ t.highest < b.2 then ⟨some b.1, b.2, t.highest⟩
  else if t.second < b.2 then { t with second := b.2 }
  else t

def tally (bids : List (O × V)) : Tally O V :=
  ⟨winner bids, highest (amounts bids), second (amounts bids)⟩

lemma highest_cons (v : V) (bids : Multiset V) : highest (v ::ₘ bids) = max v (highest bids) :=
  fold_cons_left ..

lemma le_highest {bids : Multiset V} (h : v ∈ bids) : v ≤ highest bids := by
  obtain ⟨rest, rfl⟩ := exists_cons_of_mem h
  rw [highest_cons]
  exact le_max_left _ _

lemma highest_mem {bids : Multiset V} (hne : bids ≠ 0) (hpos : ∀ v ∈ bids, 0 ≤ v) :
    highest bids ∈ bids := by
  induction bids using Multiset.induction with
  | empty => exact absurd rfl hne
  | cons v bids ih =>
    rw [highest_cons]
    by_cases hbids : bids = 0
    · subst hbids
      exact mem_cons.2 (.inl (max_eq_left (hpos v (mem_cons_self v 0))))
    · rcases max_choice v (highest bids) with h | h
      · rw [h]
        exact mem_cons_self _ _
      · rw [h]
        exact mem_cons_of_mem
          (ih hbids fun w hw => hpos w (mem_cons_of_mem hw))

lemma highest_erase_le {bids : Multiset V} (h : v ∈ bids) :
    highest (bids.erase v) ≤ highest bids := by
  conv_rhs => rw [← cons_erase h, highest_cons]
  exact le_max_right _ _

lemma second_cons {bids : Multiset V} (hmem : highest bids ∈ bids)
    (hv : v ≤ highest bids) : second (v ::ₘ bids) = max v (second bids) := by
  unfold second
  rw [highest_cons, max_eq_right hv]
  by_cases heq : v = highest bids
  · rw [heq, erase_cons_head, max_eq_left (highest_erase_le hmem)]
  · rw [erase_cons_tail _ heq, highest_cons]

omit [LinearOrder V] [Zero V] in
lemma amounts_concat (bids : List (O × V)) (b : O × V) :
    amounts (bids ++ [b]) = b.2 ::ₘ amounts bids := by
  unfold amounts
  rw [List.map_append, List.map_singleton, ← Multiset.coe_add, Multiset.add_comm]
  rfl

omit [LinearOrder V] [Zero V] in
lemma mem_amounts (h : b ∈ bids) : b.2 ∈ amounts bids :=
  mem_coe.2 (List.mem_map_of_mem h)

lemma highest_amounts_mem (hne : bids ≠ []) (hpos : ∀ b ∈ bids, 0 ≤ b.2) :
    highest (amounts bids) ∈ amounts bids := by
  refine highest_mem (by simpa [amounts] using hne) fun v hv => ?_
  obtain ⟨b, hb, rfl⟩ := List.mem_map.1 (mem_coe.1 hv)
  exact hpos b hb

lemma winner_ne_none (hpos : ∀ b ∈ bids, 0 ≤ b.2) (hne : bids ≠ []) : winner bids ≠ none := by
  intro h
  obtain ⟨b, hb, heq⟩ := List.mem_map.1 (mem_coe.1 (highest_amounts_mem hne hpos))
  rw [winner, Option.map_eq_none_iff, List.find?_eq_none] at h
  exact h b hb (by simpa using heq)

lemma winner_concat_of_le (hwinner : winner bids ≠ none) (hb : b.2 ≤ highest (amounts bids)) :
    winner (bids ++ [b]) = winner bids := by
  unfold winner at hwinner ⊢
  rw [amounts_concat, highest_cons, max_eq_right hb, List.find?_append]
  cases hfind : bids.find? fun b => b.2 = highest (amounts bids) with
  | none => simp [hfind] at hwinner
  | some w => rfl

lemma winner_concat_of_lt (hb : highest (amounts bids) < b.2) :
    winner (bids ++ [b]) = some b.1 := by
  unfold winner
  rw [amounts_concat, highest_cons, max_eq_left hb.le, List.find?_append]
  have hnone : bids.find? (fun b' => decide (b'.2 = b.2)) = none := by
    refine List.find?_eq_none.2 fun b' hb' heq => ?_
    exact absurd (of_decide_eq_true heq) ((le_highest (mem_amounts hb')).trans_lt hb).ne
  rw [hnone]
  simp

lemma tally_concat (hpos : ∀ b' ∈ bids ++ [b], 0 ≤ b'.2) :
    tally (bids ++ [b]) = (tally bids).bid b := by
  have hold : ∀ b' ∈ bids, 0 ≤ b'.2 := fun b' hb' => hpos b' (List.mem_append_left _ hb')
  unfold Tally.bid tally
  by_cases hnil : bids = []
  · subst hnil
    have hb : 0 ≤ b.2 := hpos b (by simp)
    have hone : highest ({b.2} : Multiset V) = b.2 := (highest_cons b.2 0).trans (max_eq_left hb)
    simp [winner, second, amounts, hone]
  · have hwinner : winner bids ≠ none := winner_ne_none hold hnil
    by_cases hlt : highest (amounts bids) < b.2
    · rw [if_pos (.inr hlt), winner_concat_of_lt hlt, second, amounts_concat, highest_cons,
        max_eq_left hlt.le, erase_cons_head]
    · have hle := not_lt.1 hlt
      rw [if_neg (not_or.2 ⟨hwinner, hlt⟩), winner_concat_of_le hwinner hle, amounts_concat,
        highest_cons, second_cons (highest_amounts_mem hnil hold) hle, max_eq_right hle]
      split_ifs with hsecond
      · rw [max_eq_left hsecond.le]
      · rw [max_eq_right (not_lt.1 hsecond)]

end SecondPrice
