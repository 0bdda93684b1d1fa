import Mathlib.Algebra.GroupWithZero.Nat
import Mathlib.Data.List.Basic
import Mathlib.Logic.Function.Basic
import Mathlib.Data.Set.Basic

/-!
# Ledgers with an undo journal

A ledger maps keys to the values they hold. A step takes a list of keys out and then puts new
bindings in; its journal is what it took. Taking a run of steps back, last step first, with the
journals laid end to end gives the ledger before the run, as soon as every key a step took was
held and no key that a step bound was held before the run. A key may be bound, taken and bound
again within the run.
-/

namespace Ledger

open List Function

variable {K V : Type*} [DecidableEq K] {kvs : List (K × V)} {m : K → Option V} {k : K}
  {P : V → Prop}

def remove (m : K → Option V) (ks : List K) : K → Option V := fun k => if k ∈ ks then none else m k

def add (m : K → Option V) (kvs : List (K × V)) : K → Option V :=
  kvs.foldl (fun m kv => update m kv.1 (some kv.2)) m

structure Step (K V : Type*) where
  inputs : List K
  outputs : List (K × V)

namespace Step

def created (s : Step K V) : List K := s.outputs.map Prod.fst

variable (s : Step K V) (m : K → Option V)

def apply : K → Option V := add (remove m s.inputs) s.outputs

def journal : List V := s.inputs.filterMap m

/-- Take a step back: drop what it bound and bind its inputs to the journal, last input first. -/
def revert (journal : List V) : K → Option V :=
  add (remove m s.created) (s.inputs.zip journal).reverse

end Step

def applyAll (steps : List (Step K V)) (m : K → Option V) : K → Option V :=
  steps.foldl (fun m s => s.apply m) m

def journalAll : List (Step K V) → (K → Option V) → List V
  | [], _ => []
  | s :: ss, m => s.journal m ++ journalAll ss (s.apply m)

def revertAll : List (Step K V) → (K → Option V) → List V → K → Option V
  | [], m, _ => m
  | s :: ss, m, j =>
    s.revert (revertAll ss m (j.drop s.inputs.length)) (j.take s.inputs.length)

def InputsHeld : List (Step K V) → (K → Option V) → Prop
  | [], _ => True
  | s :: ss, m => (∀ k ∈ s.inputs, (m k).isSome) ∧ InputsHeld ss (s.apply m)

instance decidableInputsHeld : ∀ (ss : List (Step K V)) (m : K → Option V),
    Decidable (InputsHeld ss m)
  | [], _ => .isTrue trivial
  | s :: ss, m =>
    haveI := decidableInputsHeld ss (s.apply m)
    inferInstanceAs (Decidable ((∀ k ∈ s.inputs, (m k).isSome) ∧ InputsHeld ss (s.apply m)))

lemma add_cons (m : K → Option V) (kv : K × V) (kvs : List (K × V)) :
    add m (kv :: kvs) = add (update m kv.1 (some kv.2)) kvs := rfl

lemma add_of_notMem (hk : k ∉ kvs.map Prod.fst) : add m kvs k = m k := by
  induction kvs generalizing m with
  | nil => rfl
  | cons kv kvs ih =>
    rw [map_cons, mem_cons, not_or] at hk
    rw [add_cons, ih hk.2, update_of_ne hk.1]

lemma add_of_mem {f : K → Option V} (hf : ∀ kv ∈ kvs, f kv.1 = some kv.2)
    (hk : k ∈ kvs.map Prod.fst) : add m kvs k = f k := by
  induction kvs generalizing m with
  | nil => simp at hk
  | cons kv kvs ih =>
    rw [add_cons]
    by_cases hmem : k ∈ kvs.map Prod.fst
    · exact ih (fun kv' h => hf kv' (mem_cons_of_mem _ h)) hmem
    · rw [map_cons, mem_cons] at hk
      rcases hk with rfl | hk
      · rw [add_of_notMem hmem, update_self, hf kv mem_cons_self]
      · exact absurd hk hmem

lemma add_eq_some (h : add m kvs k = some v) :
    (k, v) ∈ kvs ∨ m k = some v ∧ k ∉ kvs.map Prod.fst := by
  induction kvs generalizing m with
  | nil => exact .inr ⟨h, by simp⟩
  | cons kv kvs ih =>
    rw [add_cons] at h
    rcases ih h with hmem | ⟨hm, hnot⟩
    · exact .inl (mem_cons_of_mem _ hmem)
    · by_cases hk : k = kv.1
      · subst hk
        rw [update_self, Option.some.injEq] at hm
        subst hm
        exact .inl mem_cons_self
      · rw [update_of_ne hk] at hm
        exact .inr ⟨hm, by simpa [hk] using hnot⟩

lemma remove_of_mem (hk : k ∈ ks) :
    remove m ks k = none := if_pos hk

lemma remove_of_notMem (hk : k ∉ ks) :
    remove m ks k = m k := if_neg hk

lemma remove_nil (m : K → Option V) : remove m [] = m := by
  funext k
  simp [remove]

lemma remove_cons (m : K → Option V) (k : K) (ks : List K) :
    remove m (k :: ks) = remove (update m k none) ks := by
  funext k'
  by_cases hk : k' = k
  · subst hk
    simp [remove]
  · simp [remove, hk]

/-! ## Taking a run back -/

omit [DecidableEq K] in
lemma zip_journal {s : Step K V} (h : ∀ k ∈ s.inputs, (m k).isSome) :
    (∀ kv ∈ s.inputs.zip (s.journal m), m kv.1 = some kv.2) ∧
      (s.inputs.zip (s.journal m)).map Prod.fst = s.inputs ∧
      (s.journal m).length = s.inputs.length := by
  obtain ⟨inputs, outputs⟩ := s
  simp only [Step.journal] at h ⊢
  induction inputs with
  | nil => simp
  | cons k ks ih =>
    obtain ⟨v, hv⟩ := Option.isSome_iff_exists.1 (h k mem_cons_self)
    obtain ⟨hval, hkeys, hlen⟩ := ih fun k' hk' => h k' (mem_cons_of_mem _ hk')
    rw [filterMap_cons_some hv]
    refine ⟨?_, by simp [hkeys], by simp [hlen]⟩
    rw [zip_cons_cons, forall_mem_cons]
    exact ⟨hv, hval⟩

omit [DecidableEq K] in
lemma Step.length_journal {s : Step K V} (h : ∀ k ∈ s.inputs, (m k).isSome) :
    (s.journal m).length = s.inputs.length :=
  (zip_journal h).2.2

lemma Step.apply_of_notMem {s : Step K V} (hin : k ∉ s.inputs) (hout : k ∉ s.created) :
    s.apply m k = m k := by
  rw [Step.apply, add_of_notMem hout, remove_of_notMem hin]

lemma Step.apply_eq_some {s : Step K V} (h : s.apply m k = some v) :
    (k, v) ∈ s.outputs ∨ m k = some v ∧ k ∉ s.inputs := by
  rcases add_eq_some h with hmem | ⟨hm, -⟩
  · exact .inl hmem
  · refine .inr ?_
    unfold remove at hm
    split_ifs at hm with hk
    exact ⟨hm, hk⟩

lemma Step.apply_eq_none {s : Step K V} (hk : m k = none) (hout : k ∉ s.created) :
    s.apply m k = none := by
  rw [Step.apply, add_of_notMem hout]
  by_cases hin : k ∈ s.inputs
  · exact remove_of_mem hin
  · rw [remove_of_notMem hin, hk]

lemma Step.revert_of_mem {s : Step K V} (h : ∀ k ∈ s.inputs, (m k).isSome) (hk : k ∈ s.inputs) :
    s.revert w (s.journal m) k = m k := by
  obtain ⟨hval, hkeys, -⟩ := zip_journal h
  refine add_of_mem (fun kv hkv => hval kv (mem_reverse.1 hkv)) ?_
  rw [map_reverse, mem_reverse, hkeys]
  exact hk

lemma Step.revert_of_notMem {s : Step K V} (h : ∀ k ∈ s.inputs, (m k).isSome) (hk : k ∉ s.inputs) :
    s.revert w (s.journal m) k = remove w s.created k := by
  obtain ⟨-, hkeys, -⟩ := zip_journal h
  refine add_of_notMem ?_
  rw [map_reverse, mem_reverse, hkeys]
  exact hk

/-- The step lemma. Off the keys `C` that earlier steps may bind, taking a step back gives the
ledger before it. -/
theorem Step.revert_apply {s : Step K V} {C : Set K}
    (h : ∀ k ∈ s.inputs, (m k).isSome) (hnew : ∀ k ∈ s.created, k ∉ C → m k = none)
    (hw : ∀ k, k ∉ C → k ∉ s.created → w k = s.apply m k) :
    ∀ k, k ∉ C → s.revert w (s.journal m) k = m k := by
  intro k hC
  by_cases hin : k ∈ s.inputs
  · exact revert_of_mem h hin
  · rw [revert_of_notMem h hin]
    by_cases hout : k ∈ s.created
    · rw [remove_of_mem hout, hnew k hout hC]
    · rw [remove_of_notMem hout, hw k hC hout, apply_of_notMem hin hout]

variable {ss : List (Step K V)}

lemma revertAll_off : ∀ {m w : K → Option V} {C : Set K},
    InputsHeld ss m → (∀ s ∈ ss, ∀ k ∈ s.created, k ∉ C → m k = none) →
    (∀ k, k ∉ C → (∀ s ∈ ss, k ∉ s.created) → w k = applyAll ss m k) →
    ∀ k, k ∉ C → revertAll ss w (journalAll ss m) k = m k := by
  induction ss with
  | nil =>
    intro m w C _ _ hw k hC
    exact hw k hC (by simp)
  | cons s ss ih =>
    intro m w C hheld hnew hw
    -- The later steps come back first, off the keys of `C` and those this step binds.
    have hrest : ∀ k, k ∉ C → k ∉ s.created →
        revertAll ss w (journalAll ss (s.apply m)) k = s.apply m k := by
      intro k hC hk
      refine ih (C := C ∪ {k | k ∈ s.created}) hheld.2 ?_ ?_ k (by simp [hC, hk])
      · intro s' hs' k' hk' hC'
        simp only [Set.mem_union, not_or] at hC'
        exact Step.apply_eq_none (hnew s' (mem_cons_of_mem _ hs') k' hk' hC'.1) hC'.2
      · intro k' hC' hk'
        simp only [Set.mem_union, not_or] at hC'
        exact hw k' hC'.1 (forall_mem_cons.2 ⟨hC'.2, hk'⟩)
    have hlen := Step.length_journal hheld.1
    simp only [revertAll, journalAll]
    rw [drop_left' hlen, take_left' hlen]
    exact Step.revert_apply hheld.1 (fun k hk => hnew s mem_cons_self k hk) hrest

lemma revertAll_applyAll (hheld : InputsHeld ss m) (hnew : ∀ s ∈ ss, ∀ k ∈ s.created, m k = none) :
    revertAll ss (applyAll ss m) (journalAll ss m) = m := by
  funext k
  exact revertAll_off (C := ∅) hheld (fun s hs k hk _ => hnew s hs k hk) (fun _ _ _ => rfl) k
    (Set.notMem_empty k)

lemma revertAll_concat (hj' : j'.length = s.inputs.length) : ∀ {ss : List (Step K V)} {j : List V},
    j.length = (ss.map fun s => s.inputs.length).sum →
      revertAll (ss ++ [s]) m (j ++ j') = revertAll ss (s.revert m j') j := by
  intro ss
  induction ss with
  | nil =>
    intro j hj
    obtain rfl := length_eq_zero_iff.1 (by simpa using hj)
    simp only [nil_append, revertAll]
    rw [← hj', take_length]
  | cons t ss ih =>
    intro j hj
    rw [map_cons, sum_cons] at hj
    simp only [cons_append, revertAll]
    rw [drop_append_of_le_length (by omega), take_append_of_le_length (by omega),
      ih (by rw [length_drop]; omega)]

lemma length_journalAll : ∀ {m : K → Option V},
    InputsHeld ss m → (journalAll ss m).length = (ss.map fun s => s.inputs.length).sum := by
  induction ss with
  | nil => intro m _; rfl
  | cons s ss ih =>
    intro m h
    rw [journalAll, length_append, Step.length_journal h.1, ih h.2, map_cons, sum_cons]

/-! ## Two ledgers that a run cannot tell apart -/

/-- Each step of the run finds the same at its inputs in both ledgers. -/
def Reads : List (Step K V) → (K → Option V) → (K → Option V) → Prop
  | [], _, _ => True
  | s :: ss, m, m' => (∀ k ∈ s.inputs, m k = m' k) ∧ Reads ss (s.apply m) (s.apply m')

lemma Reads.refl : ∀ (ss : List (Step K V)) (m : K → Option V), Reads ss m m
  | [], _ => trivial
  | s :: ss, m => ⟨fun _ _ => rfl, Reads.refl ss (s.apply m)⟩

lemma add_congr {m' : K → Option V} (h : m k = m' k ∨ k ∈ kvs.map Prod.fst) :
    add m kvs k = add m' kvs k := by
  induction kvs generalizing m m' with
  | nil => exact h.resolve_right (by simp)
  | cons kv kvs ih =>
    rw [add_cons, add_cons]
    by_cases hk : k = kv.1
    · exact ih (.inl (by rw [hk, update_self, update_self]))
    · rw [map_cons, mem_cons, or_iff_right hk] at h
      exact ih (h.imp_left fun h => by rw [update_of_ne hk, update_of_ne hk, h])

lemma Step.apply_congr {s : Step K V} {m' : K → Option V} (h : m k = m' k ∨ k ∈ s.created) :
    s.apply m k = s.apply m' k :=
  add_congr (h.imp_left fun h => by rw [remove, remove, h])

/-- It is enough that the two agree at the inputs that no earlier step has bound. -/
theorem reads_of_agree : ∀ {ss : List (Step K V)} {m m' : K → Option V},
    (∀ (j : ℕ) (s : Step K V), ss[j]? = some s → ∀ k ∈ s.inputs, m k = m' k ∨
      ∃ i < j, ∃ t : Step K V, ss[i]? = some t ∧ k ∈ t.created) → Reads ss m m'
  | [], _, _, _ => trivial
  | s :: ss, m, m', h => by
    refine ⟨fun k hk => (h 0 s rfl k hk).resolve_right (by simp),
      reads_of_agree fun j s' hj k hk => ?_⟩
    rcases h (j + 1) s' hj k hk with heq | ⟨i, hi, t, ht, hkt⟩
    · exact .inl (Step.apply_congr (.inl heq))
    · cases i with
      | zero =>
        cases ht
        exact .inl (Step.apply_congr (.inr hkt))
      | succ i => exact .inr ⟨i, Nat.lt_of_succ_lt_succ hi, t, ht, hkt⟩

/-! ## What every held value satisfies -/

def Holding (P : V → Prop) (m : K → Option V) : Prop := ∀ k v, m k = some v → P v

lemma Holding.add (hm : Holding P m) (hkvs : ∀ kv ∈ kvs, P kv.2) : Holding P (add m kvs) := by
  induction kvs generalizing m with
  | nil => exact hm
  | cons kv kvs ih =>
    rw [add_cons]
    refine ih (fun k v hv => ?_) fun kv' h => hkvs kv' (mem_cons_of_mem _ h)
    by_cases hk : k = kv.1
    · subst hk
      rw [update_self, Option.some.injEq] at hv
      exact hv ▸ hkvs kv mem_cons_self
    · rw [update_of_ne hk] at hv
      exact hm k v hv

lemma Holding.apply {s : Step K V} (hm : Holding P m) (hs : ∀ kv ∈ s.outputs, P kv.2) :
    Holding P (s.apply m) := by
  refine Holding.add (fun k v hv => ?_) hs
  unfold remove at hv
  split_ifs at hv
  exact hm k v hv

lemma Holding.applyAll : ∀ {ss : List (Step K V)} {m : K → Option V},
    Holding P m → (∀ s ∈ ss, ∀ kv ∈ s.outputs, P kv.2) → Holding P (applyAll ss m)
  | [], _, hm, _ => hm
  | s :: ss, m, hm, hss => by
    obtain ⟨hs, hss⟩ := forall_mem_cons.1 hss
    exact (hm.apply hs).applyAll hss

lemma Holding.journalAll : ∀ {m : K → Option V},
    Holding P m → (∀ s ∈ ss, ∀ kv ∈ s.outputs, P kv.2) → ∀ v ∈ journalAll ss m, P v := by
  induction ss with
  | nil =>
    intro m _ _ v hv
    simp [Ledger.journalAll] at hv
  | cons s ss ih =>
    intro m hm hss v hv
    rw [forall_mem_cons] at hss
    rw [Ledger.journalAll, mem_append] at hv
    rcases hv with hv | hv
    · obtain ⟨k, -, hk⟩ := mem_filterMap.1 hv
      exact hm k v hk
    · exact ih (hm.apply hss.1) hss.2 v hv

end Ledger
