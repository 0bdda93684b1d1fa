import HandshakeNode.ChainInvalidate
import HandshakeNode.Proofs.Chain
import Mathlib.Data.Finset.Max
import Mathlib.Data.List.MinMax

/-!
# Marks and tips

`InvalidateBlock` marks lists of blocks (`Marked`), finds the descendants of a block through the
leaves of the index (`Wf.exists_leaf`) and chooses the first leaf of the most work, which is
`List.argmax` (`bestTip_eq_argmax`).
-/

namespace HandshakeNode

open BlockStatus Trees List

namespace BlockStatus

variable (st : BlockStatus)

@[simp] lemma knownInvalid_unset_valid : (st.unset statusValid).knownInvalid = st.knownInvalid := by
  simp [unset, knownInvalid, statusValid]

@[simp] lemma haveData_unset_valid : (st.unset statusValid).haveData = st.haveData := by
  simp [unset, haveData, statusValid]

end BlockStatus

namespace ChainState

variable {s : ChainState}

structure Marked (V S : Set Hash) (s s' : ChainState) : Prop extends SameTree s s' where
  bestChain : s'.bestChain = s.bestChain
  haveData : ∀ x, (s'.status x).haveData = (s.status x).haveData
  knownInvalid : ∀ x, s'.knownInvalid x = true ↔ x ∈ S ∨ s.knownInvalid x = true
  failed : ∀ x ∉ V, (s'.status x).validateFailed = (s.status x).validateFailed
  knownValid : ∀ x, (s'.status x).knownValid = true → (s.status x).knownValid = true
  off : ∀ x ∉ S, s'.status x = s.status x

namespace Marked

lemma trans (h : Marked V S s s1) (h' : Marked V S' s1 s2) : Marked V (S ∪ S') s s2 where
  toSameTree := h.toSameTree.trans h'.toSameTree
  bestChain := h'.bestChain.trans h.bestChain
  haveData x := (h'.haveData x).trans (h.haveData x)
  knownInvalid x := by
    rw [h'.knownInvalid, h.knownInvalid, Set.mem_union, or_left_comm, or_assoc]
  failed x hx := (h'.failed x hx).trans (h.failed x hx)
  knownValid x hx := h.knownValid x (h'.knownValid x hx)
  off x hx := by
    rw [Set.mem_union, not_or] at hx
    exact (h'.off x hx.2).trans (h.off x hx.1)

section

variable (h : Marked V S s s')
include h

lemma congr (hS : ∀ x, x ∈ S ↔ x ∈ S') : Marked V S' s s' :=
  Set.ext hS ▸ h

lemma knownInvalid_false : s'.knownInvalid x = false ↔ x ∉ S ∧ s.knownInvalid x = false := by
  rw [← Bool.not_eq_true, h.knownInvalid, not_or, Bool.not_eq_true]

lemma branch (x : Hash) : s'.branch x = s.branch x := branch_congr h.nodes x

lemma wf (w : s.Wf t) : s'.Wf t := w.congr h.nodes h.bestChain h.bestHeader

lemma live_iff : s'.Live x ↔ s.Live x ∧ ∀ y ∈ s.branch x, y ∉ S := by
  simp only [Live, h.branch, h.knownInvalid_false]
  exact ⟨fun hx => ⟨fun y hy => (hx y hy).2, fun y hy => (hx y hy).1⟩,
    fun hx y hy => ⟨hx.2 y hy, hx.1 y hy⟩⟩

end

end Marked

lemma Marked.refl (h : ∀ x ∈ S, s.knownInvalid x = true) : Marked V S s s :=
  ⟨⟨rfl, rfl, rfl, rfl⟩, rfl, fun _ => rfl, fun x => ⟨.inr, fun hx => hx.elim (h x) id⟩,
    fun _ _ => rfl, fun _ => id, fun _ _ => rfl⟩

lemma marked_setAll (s : ChainState) (l : List Hash) :
    Marked ∅ { x | x ∈ l } s (s.setAll l statusInvalidAncestor) := by
  have hflags := FlagsSet.setAll s l statusInvalidAncestor rfl
  refine ⟨sameTree_setAll s l _, setAll_bestChain s _ l, hflags.haveData, fun x => ?_, fun x _ => ?_,
    fun x => ?_, fun x hx => hflags.off x hx⟩
  · rw [knownInvalid, status_setAll]
    by_cases hx : x ∈ l <;> simp [hx, knownInvalid]
  · rw [status_setAll]
    by_cases hx : x ∈ l <;> simp [hx, BlockStatus.set, statusInvalidAncestor]
  · rw [status_setAll]
    by_cases hx : x ∈ l <;> simp [hx, BlockStatus.set, BlockStatus.knownValid, statusInvalidAncestor]

lemma marked_flag (s : ChainState) (x : Hash) (flag : BlockStatus)
    (hdata : flag.dataStored = false) (hflag : flag.knownInvalid = true)
    (hfailed : flag.validateFailed = true → x ∈ V) :
    Marked V {x} s ((s.setStatusFlags x flag).unsetStatusFlags x statusValid) ∧
      (((s.setStatusFlags x flag).unsetStatusFlags x statusValid).status x).knownValid = false := by
  have hinv (st : BlockStatus) : (st.set flag).knownInvalid = true := by
    rw [BlockStatus.knownInvalid, Bool.or_eq_true] at hflag
    rcases hflag with hf | hf <;> simp [BlockStatus.knownInvalid, BlockStatus.set, hf]
  have hself : ((s.setStatusFlags x flag).unsetStatusFlags x statusValid).status x =
      ((s.status x).set flag).unset statusValid := by
    simp [setStatusFlags, unsetStatusFlags]
  have hoff {y : Hash} (hy : y ≠ x) :
      ((s.setStatusFlags x flag).unsetStatusFlags x statusValid).status y = s.status y := by
    simp [setStatusFlags, unsetStatusFlags, hy]
  have hunset : (((s.status x).set flag).unset statusValid).knownValid = false := by
    simp [BlockStatus.knownValid, BlockStatus.unset, statusValid]
  refine ⟨⟨⟨rfl, rfl, rfl, rfl⟩, rfl, fun y => ?_, fun y => ?_, fun y hy => ?_, fun y => ?_,
    fun y hy => hoff hy⟩, hself ▸ hunset⟩
  · by_cases hy : y = x
    · rw [hy, hself, haveData_unset_valid, haveData_set _ hdata]
    · rw [hoff hy]
  · by_cases hy : y = x
    · simp [knownInvalid, hy, hself, hinv]
    · simp [knownInvalid, hy, hoff hy]
  · by_cases hyx : y = x
    · subst hyx
      have hnot : flag.validateFailed = false := by simpa using fun h => hy (hfailed h)
      rw [hself]
      simp [BlockStatus.set, BlockStatus.unset, statusValid, hnot]
    · rw [hoff hyx]
  · by_cases hy : y = x
    · rw [hy, hself, hunset]
      exact fun h => absurd h Bool.false_ne_true
    · rw [hoff hy]
      exact id

lemma marked_markInvalidAncestor (s : ChainState) (x : Hash) :
    Marked V {x} s (s.markInvalidAncestor x) := by
  unfold markInvalidAncestor
  split_ifs with hx
  · exact .refl fun y hy => hy ▸ hx
  · exact (marked_flag s x _ rfl rfl fun h => absurd h Bool.false_ne_true).1

lemma marked_foldl {A : ι → Set Hash} : ∀ (l : List ι) {s : ChainState},
      (∀ s' i, s'.nodes = s.nodes → Marked V (A i) s' (f s' i)) →
      Marked V { x | ∃ i ∈ l, x ∈ A i } s (l.foldl f s)
  | [], _, _ => .refl (by simp)
  | i :: l, s, hf => by
    have hi := hf s i rfl
    have hl := marked_foldl l fun s' j hs' => hf s' j (hs'.trans hi.nodes)
    exact (hi.trans hl).congr (by simp)

lemma marked_markAll (s : ChainState) (l : List Hash) :
    Marked V { x | x ∈ l } s (l.foldl markInvalidAncestor s) :=
  (marked_foldl l fun s' x _ => marked_markInvalidAncestor s' x).congr (by simp)

section

variable (w : s.Wf t) (hx : x ∈ s.nodes)
include w hx

lemma Wf.branch_antisymm (hy : y ∈ s.branch x) (hxy : x ∈ s.branch y) : x = y := by
  obtain ⟨p, hp⟩ := w.branch_append hx hy
  obtain ⟨q, hq⟩ := w.branch_append (w.closed x hx y hy) hxy
  have hsuffix : s.branch y <:+ s.branch x := ⟨p, hp.symm⟩
  exact (head_eq_of_cons_eq (hsuffix.eq_of_length_le (hq ▸ by simp))).symm

lemma Wf.above_append (hy : y ∈ s.branch x) :
    above (some y) (s.branch x) ++ s.branch y = s.branch x ∧
      ∀ z ∈ above (some y) (s.branch x), z ≠ y := by
  obtain ⟨p, hp⟩ := w.branch_append hx hy
  have hnodup := (w.branch x hx).nodup
  have hbranch : s.branch y = y :: (s.nodes.lookup y).getD [] := rfl
  have hnot : ∀ n ∈ p, n ≠ y := by
    rw [hp, nodup_append] at hnodup
    exact fun n hn => hnodup.2.2 n hn y (mem_branch_self s y)
  have habove : above (some y) (s.branch x) = p := by
    rw [above, hp, takeWhile_append_of_pos (by simpa using hnot), hbranch,
      takeWhile_cons_of_neg (by simp), append_nil]
  rw [habove]
  exact ⟨hp.symm, hnot⟩

lemma Wf.mem_above (hy : y ∈ s.branch x) :
    z ∈ above (some y) (s.branch x) ↔ z ∈ s.branch x ∧ y ∈ s.branch z ∧ z ≠ y := by
  obtain ⟨happend, hnot⟩ := w.above_append hx hy
  refine ⟨fun hz => ⟨happend ▸ mem_append_left _ hz, ?_, hnot z hz⟩, fun ⟨hz, hyz, hne⟩ => ?_⟩
  · exact w.mem_branch_of_append hx happend.symm hz (mem_branch_self s y)
  · rw [← happend, mem_append] at hz
    refine hz.resolve_right fun hz => hne ?_
    exact (w.branch_antisymm (w.closed x hx y hy) hz hyz).symm

lemma Wf.notMem_branch_prev (hne : x ≠ t.genesis) : x ∉ s.branch (t.prevBlock x) := by
  have hnodup := (w.branch x hx).nodup
  rw [(w.branch_of_ne hx hne).1] at hnodup
  exact (nodup_cons.1 hnodup).1

lemma Wf.mem_undecided : y ∈ s.undecided x ↔
    y ∈ s.branch x ∧ ∀ z ∈ s.branch x, y ∈ s.branch z → s.knownInvalid z = false := by
  rw [undecided]
  constructor
  · intro hy
    have hyb := (takeWhile_sublist _).subset hy
    refine ⟨hyb, fun z hz hyz => ?_⟩
    by_contra hinv
    -- a block that is left out has only such blocks below it
    have hdrop : z ∈ (s.branch x).dropWhile fun y => !s.knownInvalid y := by
      rw [← takeWhile_append_dropWhile (p := fun y => !s.knownInvalid y) (l := s.branch x),
        mem_append] at hz
      exact hz.resolve_left fun hz => hinv (by simpa using mem_takeWhile_imp hz)
    have hzy := w.mem_branch_of_append hx takeWhile_append_dropWhile.symm hy hdrop
    rw [w.branch_antisymm (w.closed x hx y hyb) hzy hyz] at hy
    exact hinv (by simpa using mem_takeWhile_imp hy)
  · rintro ⟨hy, hvalid⟩
    obtain ⟨p, hp⟩ := w.branch_append hx hy
    have hall : ∀ z ∈ p, (!s.knownInvalid z) = true := by
      intro z hz
      rw [hvalid z (hp ▸ mem_append_left _ hz)
        (w.mem_branch_of_append hx hp hz (mem_branch_self s y))]
      rfl
    rw [hp, takeWhile_append_of_pos hall, ChainState.branch,
      takeWhile_cons_of_pos (by rw [hvalid y hy (mem_branch_self s y)]; rfl)]
    simp

end

lemma mem_inactiveTips : x ∈ s.inactiveTips t order view ↔
      x ∈ s.nodes ∧ x ∉ view ∧ ∀ n ∈ s.nodes, n ∉ view → t.prevBlock n ≠ x := by
  simp [inactiveTips, order.mem_iff, Finmap.mem_keys, and_assoc]

lemma Wf.exists_leaf (w : s.Wf t) (hview : t.genesis ∈ view)
    (hclosed : ∀ x ∈ s.nodes, x ∈ view → s.branch x ⊆ view) (order : RangeOrder Hash)
    (hx : x ∈ s.nodes) (hout : x ∉ view) :
    ∃ tip ∈ s.inactiveTips t order view, x ∈ s.branch tip := by
  -- a longest branch through the node
  obtain ⟨tip, htip, hmax⟩ := Finset.exists_max_image
    (s.nodes.keys.filter fun y => x ∈ s.branch y) (fun y => (s.branch y).length)
    ⟨x, by simp [Finmap.mem_keys, hx]⟩
  simp only [Finset.mem_filter] at htip hmax
  refine ⟨tip, mem_inactiveTips.2 ⟨htip.1, fun hmem => hout (hclosed tip htip.1 hmem htip.2), ?_⟩,
    htip.2⟩
  rintro n hn hnout rfl
  have hbranch := (w.branch_of_ne hn fun hg => hnout (hg ▸ hview)).1
  have hle := hmax n ⟨hn, by rw [hbranch]; exact mem_cons_of_mem _ htip.2⟩
  rw [hbranch, length_cons] at hle
  omega

/-- The ways from the leaves down to a block off the best chain pass all its descendants. -/
theorem Wf.mem_above_leaf (w : s.Wf t) (hx : x ∈ s.nodes) (hout : x ∉ s.bestChain)
    (order : RangeOrder Hash) :
    (∃ tip ∈ s.inactiveTips t order s.bestChain, (tip ≠ x ∧ x ∈ s.branch tip) ∧
        y ∈ above (some x) (s.branch tip)) ↔ y ∈ s.nodes ∧ x ∈ s.branch y ∧ y ≠ x := by
  constructor
  · rintro ⟨tip, htips, ⟨htip, hxtip⟩, hy⟩
    have hmem := (mem_inactiveTips.1 htips).1
    obtain ⟨hyb, hxy, hne⟩ := (w.mem_above hmem hxtip).1 hy
    exact ⟨w.closed tip hmem y hyb, hxy, hne⟩
  · rintro ⟨hy, hxy, hne⟩
    have hyout : y ∉ s.bestChain := fun hbest => hout (w.best_subset hbest hxy)
    obtain ⟨tip, htips, hytip⟩ := w.exists_leaf w.best.root_mem (fun z _ hz => w.best_subset hz)
      order hy hyout
    have hmem := (mem_inactiveTips.1 htips).1
    have hxtip := w.branch_subset hmem hytip hxy
    refine ⟨tip, htips, ⟨?_, hxtip⟩, (w.mem_above hmem hxtip).2 ⟨hytip, hxy, hne⟩⟩
    rintro rfl
    exact hne (w.branch_antisymm hmem hytip hxy).symm

lemma bestTip_eq_argmax (tips : List Hash) :
    s.bestTip t tips =
      (tips.filter fun x => !s.knownInvalid x).argmax fun x => t.workSum (s.branch x) := by
  unfold bestTip List.argmax
  generalize (none : Option Hash) = best
  induction tips generalizing best with
  | nil => rfl
  | cons x tips ih =>
    rw [foldl_cons, ih]
    cases hx : s.knownInvalid x with
    | true => simp [hx]
    | false =>
      rw [filter_cons_of_pos (by simp [hx])]
      cases best <;> rfl

end ChainState

end HandshakeNode
