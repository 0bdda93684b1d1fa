import HandshakeNode.Lib.Ledger
import Mathlib.Algebra.BigOperators.Finprod
import Mathlib.Tactic.Linarith

/-!
# What a ledger holds in all

The values of a ledger weigh something, and its total is the weight of all it holds. A step takes
the weight of its inputs out, as long as it names each of them once, and puts in at most the weight
of its outputs: a binding that replaces another takes that one out as well.
-/

namespace Ledger

open List Function

variable {K V : Type*} [DecidableEq K] {w : V → ℤ} {m : K → Option V}

def weight (w : V → ℤ) (v : Option V) : ℤ := v.elim 0 w

@[simp] lemma weight_none : weight w none = 0 := rfl

@[simp] lemma weight_some (v : V) : weight w (some v) = w v := rfl

def Finitary (m : K → Option V) : Prop := {k | m k ≠ none}.Finite

noncomputable def total (w : V → ℤ) (m : K → Option V) : ℤ := ∑ᶠ k, weight w (m k)

omit [DecidableEq K] in
lemma total_eq_sum (h : ∀ k, m k ≠ none → k ∈ s) : total w m = ∑ k ∈ s, weight w (m k) := by
  refine finsum_eq_sum_of_support_subset _ fun k hk => ?_
  refine h k fun hm => ?_
  rw [mem_support, hm] at hk
  exact hk rfl

lemma Finitary.update (h : Finitary m) (k : K) (v : Option V) : Finitary (update m k v) := by
  refine (h.insert k).subset fun k' hk' => ?_
  by_cases hkk : k' = k
  · exact .inl hkk
  · rw [Set.mem_ofPred_eq, update_of_ne hkk] at hk'
    exact .inr hk'

lemma total_update (h : Finitary m) (k : K) (v : Option V) :
    total w (update m k v) = total w m - weight w (m k) + weight w v := by
  have hs : ∀ k', m k' ≠ none → k' ∈ insert k h.toFinset := fun k' hk' =>
    Finset.mem_insert_of_mem (h.mem_toFinset.2 hk')
  have hs' : ∀ k', update m k v k' ≠ none → k' ∈ insert k h.toFinset := by
    intro k' hk'
    by_cases hkk : k' = k
    · exact hkk ▸ Finset.mem_insert_self _ _
    · rw [update_of_ne hkk] at hk'
      exact hs k' hk'
  rw [total_eq_sum hs, total_eq_sum hs', ← Finset.add_sum_erase _ _ (Finset.mem_insert_self k _),
    ← Finset.add_sum_erase (insert k h.toFinset) (fun k' => weight w (m k'))
      (Finset.mem_insert_self k _)]
  have hrest : ∀ k' ∈ (insert k h.toFinset).erase k,
      weight w (update m k v k') = weight w (m k') := fun k' hk' => by
    rw [update_of_ne (Finset.ne_of_mem_erase hk')]
  rw [Finset.sum_congr rfl hrest, update_self]
  ring

lemma Finitary.remove (ks : List K) (h : Finitary m) : Finitary (remove m ks) := by
  induction ks generalizing m with
  | nil => rwa [remove_nil]
  | cons k ks ih =>
    rw [remove_cons]
    exact ih (h.update k none)

lemma Finitary.apply (h : Finitary m) (s : Step K V) : Finitary (s.apply m) := by
  refine (h.union s.created.finite_toSet).subset fun k hk => ?_
  by_contra hnot
  rw [Set.mem_union, not_or] at hnot
  exact hk (Step.apply_eq_none (not_not.1 hnot.1) hnot.2)

lemma total_remove (h : Finitary m) (hks : ks.Nodup) :
    total w (remove m ks) = total w m - ((ks.filterMap m).map w).sum := by
  induction ks generalizing m with
  | nil => simp [remove_nil]
  | cons k ks ih =>
    rw [nodup_cons] at hks
    have hsame : ks.filterMap (update m k none) = ks.filterMap m :=
      filterMap_congr fun k' hk' =>
        update_of_ne (fun hkk : k' = k => hks.1 (hkk ▸ hk')) _ _
    rw [remove_cons, ih (h.update k none) hks.2, total_update h, hsame, weight_none]
    cases hk : m k with
    | none =>
      rw [filterMap_cons_none hk, weight_none]
      ring
    | some v =>
      rw [filterMap_cons_some hk, weight_some, map_cons, sum_cons]
      ring

lemma total_add_le (h : Finitary m) (hm : Holding (0 ≤ w ·) m) (hkvs : ∀ kv ∈ kvs, 0 ≤ w kv.2) :
    total w (add m kvs) ≤ total w m + (kvs.map (w ·.2)).sum := by
  induction kvs generalizing m with
  | nil => simp [add]
  | cons kv kvs ih =>
    obtain ⟨hkv, hkvs⟩ := forall_mem_cons.1 hkvs
    have hheld : 0 ≤ weight w (m kv.1) := by
      cases hk : m kv.1 with
      | none => exact le_rfl
      | some v => exact hm kv.1 v hk
    have hm' : Holding (0 ≤ w ·) (update m kv.1 (some kv.2)) :=
      hm.add (forall_mem_singleton.2 hkv)
    have hrest := ih (h.update kv.1 (some kv.2)) hm' hkvs
    rw [total_update h, weight_some] at hrest
    rw [add_cons, map_cons, sum_cons]
    linarith

lemma total_apply_le (h : Finitary m) {s : Step K V} (hinputs : s.inputs.Nodup)
    (hm : Holding (0 ≤ w ·) m) (houtputs : ∀ kv ∈ s.outputs, 0 ≤ w kv.2) :
    total w (s.apply m) ≤ total w m - ((s.journal m).map w).sum + (s.outputs.map (w ·.2)).sum := by
  have hrest : Holding (0 ≤ w ·) (remove m s.inputs) := by
    intro k v hk
    unfold remove at hk
    split_ifs at hk
    exact hm k v hk
  have hle := total_add_le (h.remove s.inputs) hrest houtputs
  rw [total_remove h hinputs] at hle
  exact hle

end Ledger
