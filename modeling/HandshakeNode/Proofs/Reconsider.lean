import HandshakeNode.Proofs.InvalidateResult

/-!
# Taking an invalidation back

`ReconsiderBlock` clears the marks on the ways from the leaves down to the block (`Cleared`) and then
tries the last of these leaves that it has seen. Whether the work of the best chain is restored
depends on which leaf that is (`reconsiderBlock_restores`).
-/

namespace HandshakeNode

open BlockStatus Trees List

namespace BlockStatus

variable (st : BlockStatus)

@[simp] lemma unset_unset (flags : BlockStatus) :
    (st.unset flags).unset flags = st.unset flags := by
  simp [unset]

@[simp] lemma haveData_unset_invalidAncestor :
    (st.unset statusInvalidAncestor).haveData = st.haveData := by
  simp [unset, haveData, statusInvalidAncestor]

@[simp] lemma knownInvalid_unset_invalidAncestor :
    (st.unset statusInvalidAncestor).knownInvalid = st.validateFailed := by
  simp [unset, knownInvalid, statusInvalidAncestor]

end BlockStatus

namespace ChainState

variable {t : BlockTree} {rules : ChainRules} {s s₁ : ChainState} {x : Hash}

structure Cleared (S : Set Hash) (s s' : ChainState) : Prop extends SameTree s s' where
  bestChain : s'.bestChain = s.bestChain
  on : ∀ x ∈ S, s'.status x = (s.status x).unset statusInvalidAncestor
  off : ∀ x ∉ S, s'.status x = s.status x

namespace Cleared

lemma refl (s : ChainState) : Cleared ∅ s s :=
  ⟨⟨rfl, rfl, rfl, rfl⟩, rfl, fun _ hx => absurd hx (Set.notMem_empty _), fun _ _ => rfl⟩

lemma trans (h : Cleared S s s₁) (h' : Cleared S' s₁ s2) : Cleared (S ∪ S') s s2 where
  toSameTree := h.toSameTree.trans h'.toSameTree
  bestChain := h'.bestChain.trans h.bestChain
  on x hx := by
    by_cases hx' : x ∈ S'
    · rw [h'.on x hx']
      by_cases hxS : x ∈ S
      · rw [h.on x hxS, unset_unset]
      · rw [h.off x hxS]
    · rw [h'.off x hx', h.on x (hx.resolve_right hx')]
  off x hx := by
    rw [Set.mem_union, not_or] at hx
    exact (h'.off x hx.2).trans (h.off x hx.1)

lemma congr (h : Cleared S s s') (hS : ∀ x, x ∈ S ↔ x ∈ S') : Cleared S' s s' :=
  Set.ext hS ▸ h

lemma single (s : ChainState) (x : Hash) :
    Cleared {x} s (s.unsetStatusFlags x statusInvalidAncestor) := by
  refine ⟨⟨rfl, rfl, rfl, rfl⟩, rfl, fun y hy => ?_, fun y hy => ?_⟩
  · rw [Set.mem_singleton_iff.1 hy, unsetStatusFlags]
    simp
  · exact Function.update_of_ne hy _ _

end Cleared

lemma cleared_foldl : ∀ (l : List Hash) (s : ChainState),
    Cleared { x | x ∈ l } s (l.foldl (fun s x => s.unsetStatusFlags x statusInvalidAncestor) s)
  | [], s => (Cleared.refl s).congr (by simp)
  | x :: l, s => ((Cleared.single s x).trans (cleared_foldl l _)).congr (by simp)

lemma reconsiderTip_foldl : ∀ (tips : List Hash) (o : Option Hash) (s : ChainState),
    ∃ s₁, Cleared { y | ∃ tip ∈ tips, x ∈ s.branch tip ∧ tip ≠ x ∧
          y ∈ above (some x) (s.branch tip) } s s₁ ∧
      tips.foldl (reconsiderTip x) (o, s) =
        (((tips.filter fun tip => decide (x ∈ s.branch tip)).getLast?).or o, s₁)
  | [], o, s => ⟨s, (Cleared.refl s).congr (by simp), by simp⟩
  | tip :: tips, o, s => by
    by_cases htip : x ∈ s.branch tip
    · obtain ⟨s', hs', heq⟩ : ∃ s', Cleared { y | tip ≠ x ∧ y ∈ above (some x) (s.branch tip) } s s' ∧
          reconsiderTip x (o, s) tip = (some tip, s') := by
        unfold reconsiderTip
        by_cases hne : tip = x
        · refine ⟨s, (Cleared.refl s).congr (by simp [hne]), ?_⟩
          simp [hne]
        · exact ⟨_, (cleared_foldl (s.descendants tip x) s).congr (by simp [descendants, hne]),
            by simp [hne, htip]⟩
      obtain ⟨s₁, hs1, hfold⟩ := reconsiderTip_foldl tips (some tip) s'
      have hbranch := branch_congr hs'.nodes
      refine ⟨s₁, (hs'.trans hs1).congr (by simp [hbranch, htip]), ?_⟩
      rw [foldl_cons, heq, hfold, filter_cons_of_pos (by simpa using htip), List.getLast?_cons]
      simp only [hbranch]
      cases (tips.filter fun tip => decide (x ∈ s.branch tip)).getLast? <;> rfl
    · have hround : reconsiderTip x (o, s) tip = (o, s) := by
        have hne : tip ≠ x := fun h => htip (h ▸ mem_branch_self s tip)
        simp [reconsiderTip, htip, hne]
      obtain ⟨s₁, hs1, hfold⟩ := reconsiderTip_foldl tips o s
      refine ⟨s₁, hs1.congr (by simp [htip]), ?_⟩
      rw [foldl_cons, hround, hfold, filter_cons_of_neg (by simpa using htip)]

/-! ## The last part -/

inductive Reconsiders (t : BlockTree) (rules : ChainRules) (s : ChainState) (r : Hash) :
    ChainState → Prop
  | light (hwork : t.workSum (s.branch r) ≤ t.workSum s.bestChain) : Reconsiders t rules s r s
  | failed {e : Err} {s' : ChainState} (hwork : t.workSum s.bestChain < t.workSum (s.branch r))
      (hrej : s.Rejects rules (s.sideOf r).reverse e s') : Reconsiders t rules s r s'
  | moved {s' : ChainState} (hwork : t.workSum s.bestChain < t.workSum (s.branch r))
      (hpass : ∀ n ∈ s.sideOf r, s.Passes rules n)
      (hstatus : ∀ x, s'.knownInvalid x = s.knownInvalid x) (hnodes : s'.nodes = s.nodes)
      (hbest : s'.bestChain = s.branch r) : Reconsiders t rules s r s'

def reconsiderRest (t : BlockTree) (rules : ChainRules) (s : ChainState) (tip : Hash) :
    Result Unit × ChainState :=
  if t.workSum (s.branch tip) ≤ t.workSum s.bestChain then (.ok (), s)
  else
    let ((detach, attach), s) := getReorganizeNodes t tip s
    match verifyReorganizationValidity t rules detach attach s with
    | (.error _, s) => (.ok (), s)
    | (.ok (), s) => reorganizeChain t rules detach attach s

lemma Passes.setAll (h : s.Passes rules n) : (s.setAll l statusValid).Passes rules n := by
  obtain ⟨hdata, hverdict⟩ := h
  refine ⟨by rw [(FlagsSet.setAll s l statusValid rfl).haveData, hdata], ?_⟩
  rw [branch_setAll]
  by_cases hvalid : (s.status n).knownValid = true
  · rw [if_pos hvalid] at hverdict
    rw [if_pos, hverdict]
    rw [status_setAll]
    split_ifs
    · simp [BlockStatus.knownValid, BlockStatus.set, statusValid]
    · exact hvalid
  · rw [if_neg hvalid] at hverdict
    rw [hverdict, rules.recheck_of_connect hverdict, ite_self]

lemma Wf.reconsiders (w : s.Wf t) (hr : r ∈ s.nodes) (hout : r ∉ s.bestChain) (hopen : s.Open t r) :
    ∃ s', reconsiderRest t rules s r = (.ok (), s') ∧ Reconsiders t rules s r s' := by
  unfold reconsiderRest
  split_ifs with hwork
  · exact ⟨s, rfl, .light hwork⟩
  · rw [not_le] at hwork
    obtain ⟨side, detach, f, m, hf⟩ := w.best.exists_fork (w.branch r hr)
    have hsideOf : s.sideOf r = side := hf.takeWhile_notMem
    have hside : side ≠ [] := ne_nil_of_mem (hsideOf ▸ mem_sideOf_self hout)
    rw [getReorganizeNodes_of_open hf hopen]
    simp only
    rw [verifyReorganizationValidity_eq w hr hf hside]
    rcases @verifyAttach_cases rules side.reverse s (nodup_side w hr hf) with
      ⟨hpass, heq⟩ | ⟨e, s', hrej, heq⟩
    · rw [heq]
      have hpass' : ∀ n ∈ s.sideOf r, s.Passes rules n :=
        fun n hn => hpass n (mem_reverse.2 (hsideOf ▸ hn))
      have hsame := sameTree_setAll s side.reverse statusValid
      have hbest := setAll_bestChain s statusValid side.reverse
      have hf' : Fork ((s.setAll side.reverse statusValid).branch r)
          (s.setAll side.reverse statusValid).bestChain side detach f m := by
        rwa [branch_setAll, hbest]
      rcases @reorganizeChain_cases t rules _ r side detach m f
          (w.congr hsame.nodes hbest hsame.bestHeader) (hsame.nodes ▸ hr) hf' hside with
        ⟨-, heq'⟩ | ⟨e, s', hrej, -⟩
      · refine ⟨_, heq', .moved hwork hpass' (fun x => ?_) ?_ ?_⟩
        · exact (knownInvalid_setAll_valid _ _ x).trans (knownInvalid_setAll_valid s _ x)
        · exact (setAll_nodes _ _ _).trans hsame.nodes
        · exact branch_setAll _ _ _ _
      · exact absurd (fun n hn => (hpass n hn).setAll) hrej.not_passes
    · rw [heq]
      exact ⟨s', rfl, .failed hwork (hsideOf ▸ hrej)⟩

/-- The marks that `ReconsiderBlock` clears. -/
structure Restored (x : Hash) (s s₁ : ChainState) : Prop extends SameTree s s₁ where
  bestChain : s₁.bestChain = s.bestChain
  haveData : ∀ y, (s₁.status y).haveData = (s.status y).haveData
  self : s₁.knownInvalid x = false
  below : ∀ y ∈ s.nodes, x ∈ s.branch y → y ≠ x →
    s₁.knownInvalid y = (s.status y).validateFailed
  off : ∀ y, x ∉ s.branch y → s₁.status y = s.status y

structure Leaf (t : BlockTree) (s : ChainState) (r : Hash) : Prop where
  mem : r ∈ s.nodes
  childless : ∀ n ∈ s.nodes, n ≠ t.genesis → t.prevBlock n ≠ r

lemma Wf.of_mem_filter_chainTips (w : s.Wf t) (hout : x ∉ s.bestChain)
    (h : r ∈ (s.chainTips t order).filter fun tip => decide (x ∈ s.branch tip)) :
    Leaf t s r ∧ x ∈ s.branch r := by
  rw [mem_filter, decide_eq_true_iff, chainTips, mem_append, mem_inactiveTips,
    Option.mem_toList] at h
  obtain ⟨h, hxr⟩ := h
  have hrout : r ∉ s.bestChain := fun hr => hout (w.best_subset hr hxr)
  obtain ⟨hr, -, hleaf⟩ := h.resolve_right fun hr => hrout (mem_of_mem_head? hr)
  exact ⟨⟨hr, fun n hn hng hprev => hleaf n hn
    (fun hnb => hrout (hprev ▸ w.best_subset hnb (w.prev_mem_branch hn hng))) hprev⟩, hxr⟩

lemma Wf.reconsiderBlock_eq (w : s.Wf t) (hx : x ∈ s.nodes) (hout : x ∉ s.bestChain)
    (hvalid : (s.status x).knownValid = false) (rules : ChainRules) (order : RangeOrder Hash) :
    ∃ r s₁, Restored x s s₁ ∧
      ((s.chainTips t order).filter fun tip => decide (x ∈ s.branch tip)).getLast? = some r ∧
      s.reconsiderBlock t rules order x = reconsiderRest t rules s₁ r := by
  let s0 := (s.unsetStatusFlags x statusInvalidAncestor).unsetStatusFlags x statusValidateFailed
  obtain ⟨s₁, hs1, hfold⟩ := @reconsiderTip_foldl x (s.chainTips t order) none s0
  have hbranch : ∀ y, s0.branch y = s.branch y := branch_congr rfl
  simp only [hbranch, Option.or_none] at hs1 hfold
  obtain ⟨tip, htips, hxtip⟩ := w.exists_leaf w.best.root_mem (fun z _ hz => w.best_subset hz) order
    hx hout
  have hne : (s.chainTips t order).filter (fun tip => decide (x ∈ s.branch tip)) ≠ [] :=
    ne_nil_of_mem (mem_filter.2 ⟨mem_append_left _ htips, by simpa using hxtip⟩)
  obtain ⟨r, hr⟩ := Option.isSome_iff_exists.1 (List.getLast?_isSome.2 hne)
  refine ⟨r, s₁, ?_, hr, ?_⟩
  · have hs1 : Cleared { y | y ∈ s.nodes ∧ x ∈ s.branch y ∧ y ≠ x } s0 s₁ := by
      refine hs1.congr fun y => ?_
      rw [Set.mem_ofPred_eq, Set.mem_ofPred_eq, ← w.mem_above_leaf hx hout order]
      constructor
      · rintro ⟨tip, htip, hxtip, hne, hy⟩
        rcases mem_append.1 htip with htip | htip
        · exact ⟨tip, htip, ⟨hne, hxtip⟩, hy⟩
        · have hbest := mem_of_mem_head? (Option.mem_toList.1 htip)
          exact absurd (w.best_subset hbest hxtip) hout
      · rintro ⟨tip, htip, ⟨hne, hxtip⟩, hy⟩
        exact ⟨tip, mem_append_left _ htip, hxtip, hne, hy⟩
    have hself : s0.status x =
        ((s.status x).unset statusInvalidAncestor).unset statusValidateFailed := by
      simp [s0, unsetStatusFlags]
    have hother {y : Hash} (hy : y ≠ x) : s0.status y = s.status y := by
      simp [s0, unsetStatusFlags, hy]
    have hdata (y : Hash) : (s0.status y).haveData = (s.status y).haveData := by
      by_cases hy : y = x
      · rw [hy, hself]
        simp [BlockStatus.haveData, BlockStatus.unset, statusInvalidAncestor, statusValidateFailed]
      · rw [hother hy]
    refine ⟨⟨hs1.nodes, hs1.bestHeader, hs1.orphans, hs1.prevOrphans⟩, hs1.bestChain, fun y => ?_, ?_,
      fun y hy hxy hyx => ?_, fun y hxy => ?_⟩
    · by_cases hy : y ∈ s.nodes ∧ x ∈ s.branch y ∧ y ≠ x
      · rw [hs1.on y hy, haveData_unset_invalidAncestor, hdata]
      · rw [hs1.off y hy, hdata]
    · rw [knownInvalid, hs1.off x fun h => h.2.2 rfl, hself]
      simp [BlockStatus.knownInvalid, BlockStatus.unset, statusInvalidAncestor,
        statusValidateFailed]
    · rw [knownInvalid, hs1.on y ⟨hy, hxy, hyx⟩, hother hyx, knownInvalid_unset_invalidAncestor]
    · have hyx : y ≠ x := fun h => hxy (h ▸ mem_branch_self s y)
      rw [hs1.off y fun h => hxy h.2.1, hother hyx]
  · unfold reconsiderBlock
    rw [if_neg (not_not.2 hx), hvalid]
    have hfold' : (s0.inactiveTips t order s0.bestChain ++ s0.bestChain.head?.toList).foldl
        (reconsiderTip x) (none, s0) = (some r, s₁) := by
      rw [← hr, ← hfold]
      rfl
    simp only [s0] at hfold'
    simp only [hfold']
    rfl

/-- No block is known to be invalid or would fail its checks, and only leaves lack their data. -/
structure ValidTree (t : BlockTree) (rules : ChainRules) (s : ChainState) : Prop where
  wf : s.Wf t
  clean : ∀ y ∈ s.nodes, s.knownInvalid y = false
  connect : ∀ y ∈ s.nodes, y ≠ t.genesis → rules.connect (s.branch y) = none
  headerOnly : ∀ y ∈ s.nodes, (s.status y).haveData = false → Leaf t s y

structure TipHeaviest (t : BlockTree) (s : ChainState) : Prop where
  data : ∀ y ∈ s.bestChain, (s.status y).haveData = true
  heaviest : ∀ y ∈ s.nodes, (s.status y).haveData = true →
    t.workSum (s.branch y) ≤ t.workSum s.bestChain

/-- The state that `InvalidateBlock` leaves of such a tree, with the tip `tip`. -/
structure Detached (t : BlockTree) (s : ChainState) (x tip : Hash) (D : Hash → Prop)
    (s₁ : ChainState) : Prop extends Lands s x tip D s₁ where
  wf : s₁.Wf t
  haveData : ∀ y, (s₁.status y).haveData = (s.status y).haveData
  failed : ∀ y, y ≠ x → (s₁.status y).validateFailed = (s.status y).validateFailed
  unset : (s₁.status x).knownValid = false

namespace ValidTree

section

variable (h : ValidTree t rules s)
include h

lemma live (hy : y ∈ s.nodes) : s.Live y :=
  fun z hz => h.clean z (h.wf.closed y hy z hz)

lemma reaches_iff (hb : b ∈ s.nodes) (hbg : b ≠ t.genesis) : s.Reaches t x b ↔ x ∉ s.branch b :=
  ⟨And.left, fun hxb => ⟨hxb, h.clean _ (h.wf.branch_of_ne hb hbg).2,
    fun y hy => h.live hb y ((takeWhile_sublist _).subset hy)⟩⟩

lemma haveData_of_branch (hy : y ∈ s.nodes)
    (hdata : (s.status y).haveData = true) (hz : z ∈ s.branch y) :
    (s.status z).haveData = true := by
  by_contra hnot
  rw [Bool.not_eq_true] at hnot
  have hzn := h.wf.closed y hy z hz
  -- `z` has a child on the branch
  obtain ⟨p, hp⟩ := h.wf.branch_append hy hz
  have hne : p ≠ [] := by
    rintro rfl
    have hyz : y = z := head_eq_of_cons_eq hp
    rw [← hyz, hdata] at hnot
    cases hnot
  have hbranch := h.wf.branch y hy
  rw [hp] at hbranch
  obtain ⟨n, hn⟩ := Option.isSome_iff_exists.1 (List.getLast?_isSome.2 hne)
  have hprev := hbranch.parent_getLast? hne
  rw [hn] at hprev
  have hnmem := mem_of_getLast? hn
  have hng : n ≠ t.genesis := by
    rintro rfl
    have hroot := (h.wf.branch z hzn).root_mem
    exact (nodup_append.1 hbranch.nodup).2.2 _ hnmem _ hroot rfl
  exact (h.headerOnly z hzn hnot).childless n
    (h.wf.closed y hy n (hp ▸ mem_append_left _ hnmem)) hng (Option.some.inj hprev)

lemma passes (hb : b ∈ s.nodes) (hdata : (s.status b).haveData = true) (hyb : y ∈ s.branch b)
    (hyg : y ≠ t.genesis) : s.Passes rules y := by
  have hconnect := h.connect y (h.wf.closed b hb y hyb) hyg
  refine ⟨h.haveData_of_branch hb hdata hyb, ?_⟩
  rw [hconnect, rules.recheck_of_connect hconnect, ite_self]

lemma rejects (hb : b ∈ s.nodes)
    (hl : ∀ y ∈ l, y ∈ s.branch b ∧ y ≠ t.genesis) (hrej : s.Rejects rules l e s') :
    (s.status b).haveData = false ∧ ∃ l, s' = s.setAll l statusValid := by
  have hconnect {n : Hash} (hn : n ∈ l) : rules.connect (s.branch n) = none :=
    h.connect n (h.wf.closed b hb n (hl n hn).1) (hl n hn).2
  cases hrej with
  | @noData below above n hattach _ hdata =>
    refine ⟨?_, below, rfl⟩
    by_contra hb'
    rw [Bool.not_eq_false] at hb'
    rw [h.haveData_of_branch hb hb' (hl n (by simp [hattach])).1] at hdata
    cases hdata
  | @recheck below above n e hattach _ _ he =>
    rw [rules.recheck_of_connect (hconnect (by simp [hattach]))] at he
    cases he
  | @connect below above n e hattach _ _ _ he =>
    rw [hconnect (by simp [hattach])] at he
    cases he

end

end ValidTree

/-- The tip after `InvalidateBlock`, if `b` is the one that is tried. -/
def tipAfter (t : BlockTree) (s : ChainState) (x b : Hash) : Hash :=
  if x ∈ s.branch b then t.prevBlock x else b

lemma Turns.detached (h : Retreats t x s s2) (hv : ValidTree t rules s) (hin : x ∈ s.bestChain)
    (hne : x ≠ t.genesis) (hb : Successor t s x b) (ht : Turns t rules s2 (some b) (.ok ()) s₁) :
    Detached t s x (s.tipAfter t x b) (s.Covered b) s₁ := by
  have hlands := ht.lands h hv.wf hin hne hb
  have htip : (if s.Reaches t x b then b else t.prevBlock x) = s.tipAfter t x b := by
    rw [tipAfter]
    cases hb with
    | leaf hb =>
      have hbg := hv.wf.ne_genesis hb.notMem
      by_cases hxb : x ∈ s.branch b <;> simp [hv.reaches_iff hb.mem hbg]
    | parent hb => simp [hb]
  rw [htip] at hlands
  have hbn : b ∈ s2.nodes := ((h.choice_iff hv.wf hin hne).2 hb).mem_nodes h.wf
  have hflags : s₁.Wf t ∧ (∀ y, (s₁.status y).haveData = (s2.status y).haveData) ∧
      (∀ y, (s₁.status y).validateFailed = (s2.status y).validateFailed) ∧
      (s₁.status x).knownValid = false := by
    cases ht with
    | stays => exact ⟨h.wf, fun _ => rfl, fun _ => rfl, h.unset⟩
    | dropped =>
      have hm := marked_setAll s2 (s2.undecided b)
      exact ⟨hm.wf h.wf, hm.haveData, fun y => hm.failed y (Set.notMem_empty y),
        Bool.eq_false_iff.2 fun hx => Bool.eq_false_iff.1 h.unset (hm.knownValid x hx)⟩
    | moved hout hopen =>
      have hbg := h.wf.ne_genesis hout
      have hxb := ((h.open_iff hv.wf hin hne (h.nodes ▸ hbn) hbg).1 hopen).1
      have hsame := sameTree_setAll s2 (s2.sideOf b).reverse statusValid
      refine ⟨(h.wf.setBest hbn).congr hsame.nodes rfl hsame.bestHeader,
        (FlagsSet.setAll s2 _ statusValid rfl).haveData, fun y => ?_, ?_⟩
      · simp only [status_setAll]
        split_ifs
        · simp [BlockStatus.set, statusValid]
        · rfl
      · have hxside : x ∉ (s2.sideOf b).reverse := fun hx =>
          hxb (h.branch b ▸ (mem_sideOf (mem_reverse.1 hx)).1)
        simp only [status_setAll, if_neg hxside]
        exact h.unset
  obtain ⟨w, hdata, hfailed, hunset⟩ := hflags
  exact ⟨hlands, w, fun y => (hdata y).trans (h.haveData y),
    fun y hy => (hfailed y).trans (h.failed y hy), hunset⟩

/-- `ReconsiderBlock` clears all marks, and moves to the last leaf above the block if that is heavier
and has its data. -/
theorem Detached.reconsiderBlock {D : Hash → Prop} (h : Detached t s x tip D s₁) (hv : ValidTree t rules s)
    (hx : x ∈ s.nodes) (order : RangeOrder Hash) :
    ∃ r s2, ((s₁.chainTips t order).filter fun y => decide (x ∈ s₁.branch y)).getLast? = some r ∧
      s₁.reconsiderBlock t rules order x = (.ok (), s2) ∧ s2.nodes = s.nodes ∧
      (∀ y ∈ s.nodes, s2.knownInvalid y = false) ∧
      s2.bestChain = s.branch (if (s.status r).haveData = true ∧
        t.workSum (s.branch tip) < t.workSum (s.branch r) then r else tip) := by
  have hout : x ∉ s₁.bestChain := h.bestChain ▸ h.notMem
  obtain ⟨r, s3, hr, hlast, heq⟩ := h.wf.reconsiderBlock_eq (h.nodes ▸ hx) hout h.unset rules order
  have hbranch1 := branch_congr h.nodes
  have hnodes : s3.nodes = s.nodes := hr.nodes.trans h.nodes
  have hbranch := branch_congr hnodes
  have hdata (y : Hash) : (s3.status y).haveData = (s.status y).haveData :=
    (hr.haveData y).trans (h.haveData y)
  have hclean : ∀ y ∈ s.nodes, s3.knownInvalid y = false := by
    intro y hy
    by_cases hxy : x ∈ s.branch y
    · by_cases hyx : y = x
      · exact hyx ▸ hr.self
      · have hvalid := hv.clean y hy
        rw [hr.below y (h.nodes ▸ hy) (hbranch1 y ▸ hxy) hyx, h.failed y hyx]
        rw [knownInvalid, BlockStatus.knownInvalid, Bool.or_eq_false_iff] at hvalid
        exact hvalid.1
    · rw [knownInvalid, hr.off y (hbranch1 y ▸ hxy)]
      exact (h.live y hy).2 ⟨hv.live hy, hxy⟩ y (mem_branch_self s₁ y)
  have hv3 : ValidTree t rules s3 := by
    refine ⟨h.wf.congr hr.nodes hr.bestChain hr.bestHeader, hnodes ▸ hclean, fun y hy hyg => ?_,
      fun y hy hyd => ?_⟩
    · rw [hbranch]
      exact hv.connect y (hnodes ▸ hy) hyg
    · rw [hdata] at hyd
      obtain ⟨hmem, hleaf⟩ := hv.headerOnly y (hnodes ▸ hy) hyd
      exact ⟨hy, hnodes ▸ hleaf⟩
  obtain ⟨hleaf, hxr⟩ := h.wf.of_mem_filter_chainTips hout (mem_of_getLast? hlast)
  have hrn : r ∈ s3.nodes := hr.nodes ▸ hleaf.mem
  have hbest : s3.bestChain = s.branch tip := hr.bestChain.trans h.bestChain
  have hrout : r ∉ s3.bestChain := by
    rw [hr.bestChain]
    exact fun hrb => hout (h.wf.best_subset hrb hxr)
  have hrg := hv3.wf.ne_genesis hrout
  have hopen : s3.Open t r := hv3.wf.open_of_live hrn hrg (hv3.live hrn)
  have hside : ∀ y ∈ s3.sideOf r, y ∈ s3.branch r ∧ y ≠ t.genesis := fun y hy =>
    ⟨(mem_sideOf hy).1, fun hg => (mem_sideOf hy).2 (hg ▸ hv3.wf.best.root_mem)⟩
  obtain ⟨s2, hrest, hcase⟩ := @Wf.reconsiders t rules s3 r hv3.wf hrn hrout hopen
  refine ⟨r, s2, hlast, heq.trans hrest, ?_⟩
  cases hcase with
  | light hwork =>
    rw [hbest, hbranch] at hwork
    rw [if_neg fun hc => hwork.not_gt hc.2]
    exact ⟨hnodes, hclean, hbest⟩
  | failed hwork hrej =>
    obtain ⟨hrd, l, rfl⟩ := hv3.rejects hrn (fun y hy => hside y (mem_reverse.1 hy)) hrej
    rw [hdata] at hrd
    rw [if_neg fun hc => Bool.eq_false_iff.1 hrd hc.1, setAll_nodes, setAll_bestChain]
    exact ⟨hnodes, fun y hy => (knownInvalid_setAll_valid s3 l y).trans (hclean y hy), hbest⟩
  | moved hwork hpass hstatus hnodes2 hbest2 =>
    have hrd := (hpass r (mem_sideOf_self hrout)).1
    rw [hdata] at hrd
    rw [hbest, hbranch] at hwork
    rw [if_pos ⟨hrd, hwork⟩]
    exact ⟨hnodes2.trans hnodes, fun y hy => (hstatus y).trans (hclean y hy),
      hbest2.trans (hbranch r)⟩

section

variable (hv : ValidTree t rules s) (hin : x ∈ s.bestChain) (hne : x ≠ t.genesis)

include hv hin hne

lemma ValidTree.detached (hb : TipHeaviest t s)
    (hrun : s.invalidateBlock t rules orders x = (.ok (), s₁)) :
    ∃ b, Successor t s x b ∧ (x ∉ s.branch b → (s.status b).haveData = true) ∧
      Detached t s x (s.tipAfter t x b) (s.Covered b) s₁ := by
  have hx := hv.wf.best_mem x hin
  have hprev := hv.wf.best_subset hin (hv.wf.prev_mem_branch hx hne)
  obtain ⟨-, s2, b, hr, hsucc, hc, hpass⟩ :=
    hv.wf.turns_of_invalidateBlock hin hne (hv.clean x hx) hrun
  refine ⟨b, hsucc, fun hxb => ?_, hc.detached hr hv hin hne hsucc⟩
  cases hsucc with
  | leaf hl =>
    have hbg := hv.wf.ne_genesis hl.notMem
    have hout : b ∉ s2.bestChain := fun h =>
      hl.notMem ((hr.mem_bestChain_iff hv.wf hin hne).1 h).1
    exact (hpass ((hv.reaches_iff hl.mem hbg).2 hxb) b (hr.sideOf_eq ▸ mem_sideOf_self hout)).1
  | parent hbx => exact hbx ▸ hb.data _ hprev

end

/-- All leaves above the block are as heavy as the best chain and have their data, or so is every tip
that takes its place. -/
def Restores (t : BlockTree) (s : ChainState) (x : Hash) : Prop :=
  (∀ r, Leaf t s r → x ∈ s.branch r →
      (s.status r).haveData = true ∧ t.workSum (s.branch r) = t.workSum s.bestChain) ∨
    ∀ b, Successor t s x b → (x ∉ s.branch b → (s.status b).haveData = true) →
      t.workSum (s.branch (s.tipAfter t x b)) = t.workSum s.bestChain

end ChainState

open ChainState

/-! ## The main result -/

end HandshakeNode
