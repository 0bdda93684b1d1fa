import HandshakeNode.Proofs.Marking

/-!
# What `InvalidateBlock` does

A block off the best chain is marked with all its descendants. A block of the best chain is marked
with what follows it there, the chain goes back to its parent, and then to the tip of the most work
that is not known to be invalid, if the branch of that tip is open and passes its checks
(`Invalidates`).
-/

namespace HandshakeNode

open BlockStatus Trees List

def RangeOrder.startingWith {K : Type} [DecidableEq K] (order : RangeOrder K) (k : K) :
    RangeOrder K where
  list s := if k ∈ s then k :: (order.list s).erase k else order.list s
  nodup s := by
    split_ifs with hk
    · exact nodup_cons.2 ⟨(order.nodup s).not_mem_erase, (order.nodup s).erase k⟩
    · exact order.nodup s
  mem_iff s x := by
    split_ifs with hk
    · rw [mem_cons, (order.nodup s).mem_erase_iff, order.mem_iff]
      constructor
      · rintro (rfl | ⟨-, hx⟩)
        · exact hk
        · exact hx
      · intro hx
        by_cases hxk : x = k
        · exact .inl hxk
        · exact .inr ⟨hxk, hx⟩
    · exact order.mem_iff s x

namespace ChainState

variable {t : BlockTree} {rules : ChainRules}

/-! ## The best header -/

inductive HeaderMoves (t : BlockTree) (s : ChainState) : ChainState → Prop
  | kept (htip : ∀ tip, s.bestHeader.head? = some tip → s.knownInvalid tip = false) :
      HeaderMoves t s s
  | lost (hall : ∀ x ∈ s.bestHeader, s.knownInvalid x = true) : HeaderMoves t s s
  | moved {b : Hash} (hb : b ∈ s.nodes) (hvalid : s.knownInvalid b = false)
      (htip : ∀ tip, s.bestHeader.head? = some tip → s.knownInvalid tip = true) :
      HeaderMoves t s { s with bestHeader := s.branch b }

lemma Wf.headerMoves (w : s.Wf t) (order : RangeOrder Hash) :
    HeaderMoves t s (s.updateBestHeaderForInvalidation t order) := by
  unfold updateBestHeaderForInvalidation
  cases hheader : s.bestHeader with
  | nil => exact absurd hheader w.header.ne_nil
  | cons tip l =>
    have hhead : ∀ x, s.bestHeader.head? = some x → x = tip := by simp [hheader, eq_comm]
    cases htip : s.knownInvalid tip with
    | false =>
      simp only [htip]
      exact .kept fun x hx => hhead x hx ▸ htip
    | true =>
      simp only [htip, Bool.not_true, Bool.false_eq_true, if_false, bestTip_eq_argmax, ← hheader]
      split
      · next hnone =>
        refine .lost fun x hx => ?_
        by_contra hvalid
        rw [argmax_eq_none, filter_eq_nil_iff] at hnone
        obtain ⟨y, hy⟩ := Option.isSome_iff_exists.1
          (List.find?_isSome (p := fun n => !s.knownInvalid n).2 ⟨x, hx, by simpa using hvalid⟩)
        exact hnone y (mem_append_right _ (by simp [hy])) (by simpa using find?_some hy)
      · next b hb =>
        have hmem := mem_filter.1 (argmax_mem hb)
        refine .moved ?_ (by simpa using hmem.2) fun x hx => hhead x hx ▸ htip
        rcases mem_append.1 hmem.1 with hb | hb
        · exact (mem_inactiveTips.1 hb).1
        · rw [Option.mem_toList] at hb
          exact w.header_mem b (mem_of_find?_eq_some hb)

lemma HeaderMoves.fields (h : HeaderMoves t s s') :
    s'.nodes = s.nodes ∧ s'.status = s.status ∧ s'.bestChain = s.bestChain ∧
      s'.orphans = s.orphans ∧ s'.prevOrphans = s.prevOrphans := by
  cases h <;> exact ⟨rfl, rfl, rfl, rfl, rfl⟩

lemma HeaderMoves.wf (h : HeaderMoves t s s') (w : s.Wf t) : s'.Wf t := by
  cases h with
  | kept | lost => exact w
  | moved hb => exact { w with header := w.branch _ hb, header_mem := w.closed _ hb }

/-! ## The best tip -/

/-- The tips of the index, that of the best chain last. -/
def chainTips (t : BlockTree) (order : RangeOrder Hash) (s : ChainState) : List Hash :=
  s.inactiveTips t order s.bestChain ++ s.bestChain.head?.toList

structure FreeLeaf (t : BlockTree) (s : ChainState) (x : Hash) : Prop where
  mem : x ∈ s.nodes
  notMem : x ∉ s.bestChain
  leaf : ∀ n ∈ s.nodes, n ∉ s.bestChain → t.prevBlock n ≠ x
  valid : s.knownInvalid x = false

inductive Choice (t : BlockTree) (s : ChainState) (b : Hash) : Prop
  | leaf (hb : FreeLeaf t s b)
      (hmax : ∀ c, FreeLeaf t s c → t.workSum (s.branch c) ≤ t.workSum (s.branch b))
      (htip : ∀ tip, s.bestChain.head? = some tip → s.knownInvalid tip = false →
        t.workSum (s.branch tip) ≤ t.workSum (s.branch b))
  | tip (hb : s.bestChain.head? = some b) (hvalid : s.knownInvalid b = false)
      (hmax : ∀ c, FreeLeaf t s c → t.workSum (s.branch c) < t.workSum (s.branch b))

lemma mem_chainTips : x ∈ (s.chainTips t order).filter (fun x => !s.knownInvalid x) ↔
      FreeLeaf t s x ∨ s.bestChain.head? = some x ∧ s.knownInvalid x = false := by
  rw [mem_filter, chainTips, mem_append, mem_inactiveTips, Option.mem_toList, Bool.not_eq_true']
  constructor
  · rintro ⟨⟨hmem, hout, hleaf⟩ | hx, hvalid⟩
    · exact .inl ⟨hmem, hout, hleaf, hvalid⟩
    · exact .inr ⟨hx, hvalid⟩
  · rintro (h | ⟨hx, hvalid⟩)
    · exact ⟨.inl ⟨h.mem, h.notMem, h.leaf⟩, h.valid⟩
    · exact ⟨.inr hx, hvalid⟩

lemma choice_of_bestTip (h : s.bestTip t (s.chainTips t order) = some b) : Choice t s b := by
  rw [bestTip_eq_argmax] at h
  obtain ⟨hmem, hmax, hfirst⟩ := mem_argmax_iff.1 h
  rcases mem_chainTips.1 hmem with hb | ⟨hb, hvalid⟩
  · exact .leaf hb (fun c hc => hmax c (mem_chainTips.2 (.inl hc)))
      fun tip htip hv => hmax tip (mem_chainTips.2 (.inr ⟨htip, hv⟩))
  · refine .tip hb hvalid fun c hc => lt_of_not_ge fun hle => ?_
    -- the tip of the best chain comes last
    have hidx := hfirst c (mem_chainTips.2 (.inl hc)) hle
    have hcl : c ∈ (s.inactiveTips t order s.bestChain).filter fun x => !s.knownInvalid x :=
      mem_filter.2 ⟨mem_inactiveTips.2 ⟨hc.mem, hc.notMem, hc.leaf⟩, by simp [hc.valid]⟩
    have hbl : b ∉ (s.inactiveTips t order s.bestChain).filter fun x => !s.knownInvalid x :=
      fun hbl => (mem_inactiveTips.1 (mem_filter.1 hbl).1).2.1 (mem_of_mem_head? hb)
    rw [chainTips, filter_append, idxOf_append_of_mem hcl, idxOf_append_of_notMem hbl] at hidx
    exact absurd (idxOf_lt_length_of_mem hcl) (by omega)

lemma Choice.bestTip_startingWith (h : Choice t s b) (order : RangeOrder Hash) :
    s.bestTip t (s.chainTips t (order.startingWith b)) = some b := by
  rw [bestTip_eq_argmax]
  cases h with
  | leaf hb hmax htip =>
    refine mem_argmax_iff.2 ⟨mem_chainTips.2 (.inl hb), ?_, ?_⟩
    · intro c hc
      rcases mem_chainTips.1 hc with hc | ⟨hc, hvalid⟩
      · exact hmax c hc
      · exact htip c hc hvalid
    · have hfirst : ∃ l, (s.chainTips t (order.startingWith b)).filter (fun x => !s.knownInvalid x) =
          b :: l := by
        have hin : b ∈ s.nodes.keys.filter (· ∉ s.bestChain) :=
          Finset.mem_filter.2 ⟨Finmap.mem_keys.2 hb.mem, hb.notMem⟩
        have hleaf : ∀ n ∈ s.nodes.keys.filter (· ∉ s.bestChain), t.prevBlock n ≠ b := fun n hn =>
          hb.leaf n (Finmap.mem_keys.1 (Finset.mem_filter.1 hn).1) (Finset.mem_filter.1 hn).2
        rw [chainTips, inactiveTips, RangeOrder.startingWith]
        simp only [if_pos hin]
        rw [filter_cons_of_pos (by simpa using hleaf), cons_append,
          filter_cons_of_pos (by simp [hb.valid])]
        exact ⟨_, rfl⟩
      obtain ⟨l, hl⟩ := hfirst
      simp [hl]
  | tip hb hvalid hmax =>
    refine mem_argmax_iff.2 ⟨mem_chainTips.2 (.inr ⟨hb, hvalid⟩), ?_, ?_⟩
    · intro c hc
      rcases mem_chainTips.1 hc with hc | ⟨hc, -⟩
      · exact (hmax c hc).le
      · rw [Option.some.inj (hc.symm.trans hb)]
    · intro c hc hle
      rcases mem_chainTips.1 hc with hc | ⟨hc, -⟩
      · exact absurd (hmax c hc) hle.not_gt
      · rw [Option.some.inj (hc.symm.trans hb)]

inductive Turns (t : BlockTree) (rules : ChainRules) (s : ChainState) :
    Option Hash → Result Unit → ChainState → Prop
  | none (e : Err) : Turns t rules s none (.error e) s
  | stays {b : Hash} (htip : s.bestChain.head? = some b) : Turns t rules s (some b) (.ok ()) s
  | dropped {b : Hash} (hout : b ∉ s.bestChain) (hopen : ¬ s.Open t b) :
      Turns t rules s (some b) (.ok ()) (s.setAll (s.undecided b) statusInvalidAncestor)
  | failed {b : Hash} {e : Err} {s' : ChainState} (hout : b ∉ s.bestChain) (hopen : s.Open t b)
      (hrej : s.Rejects rules (s.sideOf b).reverse e s') : Turns t rules s (some b) (.error e) s'
  | moved {b : Hash} (hout : b ∉ s.bestChain) (hopen : s.Open t b)
      (hpass : ∀ n ∈ s.sideOf b, s.Passes rules n) :
      Turns t rules s (some b) (.ok ())
        { s.setAll (s.sideOf b).reverse statusValid with bestChain := s.branch b }

lemma Choice.mem_nodes (h : Choice t s b) (w : s.Wf t) : b ∈ s.nodes := by
  cases h with
  | leaf hb => exact hb.mem
  | tip hb => exact w.best_mem b (mem_of_mem_head? hb)

lemma Choice.valid (h : Choice t s b) : s.knownInvalid b = false := by
  cases h with
  | leaf hb => exact hb.valid
  | tip _ hvalid => exact hvalid

lemma Wf.turns (w : s.Wf t) (rules : ChainRules) (order : RangeOrder Hash) :
    Turns t rules s (s.bestTip t (s.chainTips t order)) (chooseBestTip t rules order s).1
      (chooseBestTip t rules order s).2 := by
  unfold chooseBestTip
  rw [← chainTips]
  dsimp only
  cases hbest : s.bestTip t (s.chainTips t order) with
  | none => exact .none _
  | some b =>
    have hchoice := choice_of_bestTip hbest
    have hmem := hchoice.mem_nodes w
    simp only
    split_ifs with htip
    · exact .stays htip
    · have hout : b ∉ s.bestChain := by
        cases hchoice with
        | leaf hb => exact hb.notMem
        | tip hb => exact absurd hb htip
      have hne := w.ne_genesis hout
      obtain ⟨side, detach, f, m, hf⟩ := w.best.exists_fork (w.branch b hmem)
      by_cases hopen : s.Open t b
      · have hsideOf : s.sideOf b = side := hf.takeWhile_notMem
        have hside : side ≠ [] := ne_nil_of_mem (hsideOf ▸ mem_sideOf_self hout)
        rw [getReorganizeNodes_of_open hf hopen]
        rcases @reorganizeChain_cases t rules s b side detach m f w hmem hf hside with
          ⟨hpass, heq⟩ | ⟨e, s', hrej, heq⟩
        · simp only [heq]
          rw [← hsideOf] at hpass ⊢
          exact .moved hout hopen hpass
        · simp only [heq]
          exact .failed hout hopen (hsideOf ▸ hrej)
      · rw [getReorganizeNodes_of_not_open hf hopen (.inl hchoice.valid) (w.branch_of_ne hmem hne).1]
        exact .dropped hout hopen

/-! ## A block off the best chain -/

lemma Wf.invalidateSide_marks (w : s.Wf t) (hx : x ∈ s.nodes) (hout : x ∉ s.bestChain)
    (orders : TipOrders) :
    ∃ s1, Marked {x} { y | y ∈ s.nodes ∧ x ∈ s.branch y ∧ y ≠ x } s s1 ∧
      invalidateSide t orders x s = s1.updateBestHeaderForInvalidation t orders.header := by
  refine ⟨_, ?_, rfl⟩
  have hround (s' : ChainState) (tip : Hash) (hs' : s'.nodes = s.nodes) :
      Marked {x} { y | (tip ≠ x ∧ x ∈ s.branch tip) ∧ y ∈ above (some x) (s.branch tip) } s'
        (if tip ≠ x ∧ x ∈ s'.branch tip then (s'.descendants tip x).foldl markInvalidAncestor s'
        else s') := by
    rw [descendants, branch_congr hs']
    split_ifs with htip
    · exact (marked_markAll s' _).congr fun y => (and_iff_right htip).symm
    · exact .refl fun y hy => absurd hy.1 htip
  exact (marked_foldl _ hround).congr fun y => w.mem_above_leaf hx hout orders.mark

/-! ## A block of the best chain -/

lemma runAll_disconnectBlock_filter :
    ∀ l {s : ChainState}, s.bestChain = l ++ x :: r → (l ++ x :: r).Nodup → (∃ y ∈ l, p y = false) →
      ∃ e s', runAll disconnectBlock (l.filter p ++ [x]) s = (.error e, s')
  | [], _, _, _, hskip => by simp at hskip
  | a :: l, s, hchain, hnodup, hskip => by
    obtain ⟨hnotMem, hnodup⟩ := nodup_cons.1 hnodup
    cases ha : p a with
    | true =>
      obtain ⟨y, hy, hpy⟩ := hskip
      have hyl : y ∈ l := by
        refine (mem_cons.1 hy).resolve_left fun hya => ?_
        rw [hya, ha] at hpy
        cases hpy
      obtain ⟨e, s', hrun⟩ := runAll_disconnectBlock_filter l
        (s := { s with bestChain := s.bestChain.tail }) (by rw [hchain]; rfl) hnodup ⟨y, hyl, hpy⟩
      refine ⟨e, s', ?_⟩
      rw [filter_cons_of_pos ha, cons_append, runAll, disconnectBlock, if_pos (by rw [hchain]; rfl)]
      exact hrun
    | false =>
      rw [filter_cons_of_neg (by simp [ha])]
      cases hl : l.filter p ++ [x] with
      | nil => simp at hl
      | cons c m =>
        have hca : s.bestChain.head? ≠ some c := by
          rw [hchain]
          rintro hac
          have hmem : c ∈ l.filter p ++ [x] := hl ▸ mem_cons_self
          refine hnotMem (Option.some.inj hac ▸ ?_)
          rcases mem_append.1 hmem with hc | hc
          · exact mem_append_left _ (mem_filter.1 hc).1
          · exact mem_append_right _ (mem_singleton.1 hc ▸ mem_cons_self)
        rw [runAll, disconnectBlock, if_neg hca]
        exact ⟨_, _, rfl⟩

lemma reorganizeChain_detach (hdetach : detach ≠ []) (hchain : s.bestChain = detach ++ r) :
    reorganizeChain t rules detach [] s = (.ok (), { s with bestChain := r }) := by
  have hhead : detach.head? = s.bestChain.head? := by
    rw [hchain, List.head?_append_of_ne_nil _ hdetach]
  simp [reorganizeChain, verifyReorganizationValidity, hhead, verifyAttach,
    runAll_disconnectBlock detach hchain, runAll]

lemma reorganizeChain_stuck (hdetach : detach ≠ [])
    (hrun : runAll disconnectBlock detach s = (.error e, s1)) :
    ∃ e s', reorganizeChain t rules detach [] s = (.error e, s') := by
  unfold reorganizeChain verifyReorganizationValidity
  rw [if_neg (by simp [hdetach])]
  split_ifs with hhead hnil
  · exact ⟨_, _, rfl⟩
  · exact absurd rfl hnil.1
  · simp only [verifyAttach, hrun]
    exact ⟨_, _, rfl⟩

/-- The chain goes back to the parent of the block, unless a block on the way is skipped. -/
theorem Wf.invalidateBest_cases (w : s.Wf t) (hx : x ∈ s.bestChain) (hne : x ≠ t.genesis)
    (rules : ChainRules) (orders : TipOrders) :
    ((∃ y ∈ s.bestChain, (x ∈ s.branch y ∧ y ≠ x) ∧ s.knownInvalid y = true) ∧
      ∃ e s', invalidateBest t rules orders x s = (.error e, s')) ∨
    ((∀ y ∈ s.bestChain, x ∈ s.branch y ∧ y ≠ x → s.knownInvalid y = false) ∧
      ∃ s1, Marked {x} { y | y ∈ s.bestChain ∧ x ∈ s.branch y ∧ y ≠ x } s s1 ∧
        invalidateBest t rules orders x s = chooseBestTip t rules orders.best
          (updateBestHeaderForInvalidation t orders.header
            { s1 with bestChain := s.branch (t.prevBlock x) })) := by
  obtain ⟨tip, htip⟩ : ∃ tip, s.bestChain.head? = some tip :=
    Option.isSome_iff_exists.1 (by simpa using w.best.ne_nil)
  obtain ⟨htipn, hbest⟩ := w.best_tip htip
  have hxtip : x ∈ s.branch tip := hbest ▸ hx
  have happend := (w.above_append htipn hxtip).1
  have hmem (y : Hash) : y ∈ above (some x) s.bestChain ↔
      y ∈ s.bestChain ∧ x ∈ s.branch y ∧ y ≠ x := by
    rw [← hbest]
    exact w.mem_above htipn hxtip
  rw [hbest, (w.branch_of_ne (w.best_mem x hx) hne).1] at happend
  have hm : Marked {x} _ s _ := (marked_markAll s (above (some x) s.bestChain)).congr hmem
  have hchain : ((above (some x) s.bestChain).foldl markInvalidAncestor s).bestChain =
      above (some x) s.bestChain ++ x :: s.branch (t.prevBlock x) := by
    rw [hm.bestChain, happend]
  unfold invalidateBest
  by_cases hskip : ∃ y ∈ s.bestChain, (x ∈ s.branch y ∧ y ≠ x) ∧ s.knownInvalid y = true
  · refine .inl ⟨hskip, ?_⟩
    obtain ⟨y, hy, hxy, hinv⟩ := hskip
    obtain ⟨e, s', hrun⟩ := runAll_disconnectBlock_filter (p := fun n => !s.knownInvalid n) _ hchain
      (happend.symm ▸ w.best.nodup) ⟨y, (hmem y).2 ⟨hy, hxy⟩, by simp [hinv]⟩
    obtain ⟨e', s'', hreorg⟩ := @reorganizeChain_stuck t rules _ _ _ _ (by simp) hrun
    simp only [hreorg]
    exact ⟨_, _, rfl⟩
  · have hclean : ∀ y ∈ s.bestChain, x ∈ s.branch y ∧ y ≠ x → s.knownInvalid y = false := by
      simpa using hskip
    refine .inr ⟨hclean, _, hm, ?_⟩
    have hfilter : (above (some x) s.bestChain).filter (fun n => !s.knownInvalid n) =
        above (some x) s.bestChain := by
      refine filter_eq_self.2 fun y hy => ?_
      obtain ⟨hyb, hxy⟩ := (hmem y).1 hy
      simp [hclean y hyb hxy]
    simp only [hfilter]
    rw [reorganizeChain_detach (r := s.branch (t.prevBlock x)) (by simp) (by rw [hchain]; simp)]

inductive Invalidates (t : BlockTree) (rules : ChainRules) (orders : TipOrders) (x : Hash)
    (s : ChainState) : Result Unit → ChainState → Prop
  | side {s₁ s' : ChainState} (hout : x ∉ s.bestChain)
      (hm : Marked {x} { y | y ∈ s.nodes ∧ x ∈ s.branch y } s s₁) (hh : HeaderMoves t s₁ s') :
      Invalidates t rules orders x s (.ok ()) s'
  | stuck {e : Err} {s' : ChainState} (hin : x ∈ s.bestChain)
      (hskip : ∃ y ∈ s.bestChain, x ∈ s.branch y ∧ s.knownInvalid y = true) :
      Invalidates t rules orders x s (.error e) s'
  | best {s₁ s₂ s' : ChainState} {r : Result Unit} (hin : x ∈ s.bestChain)
      (hclean : ∀ y ∈ s.bestChain, x ∈ s.branch y → s.knownInvalid y = false)
      (hm : Marked {x} { y | y ∈ s.bestChain ∧ x ∈ s.branch y } s s₁)
      (hunset : (s₁.status x).knownValid = false)
      (hh : HeaderMoves t { s₁ with bestChain := s.branch (t.prevBlock x) } s₂)
      (hc : Turns t rules s₂ (s₂.bestTip t (s₂.chainTips t orders.best)) r s') :
      Invalidates t rules orders x s r s'

lemma Wf.invalidates (w : s.Wf t) (hx : x ∈ s.nodes) (hne : x ≠ t.genesis)
    (hvalid : s.knownInvalid x = false) (rules : ChainRules) (orders : TipOrders) :
    Invalidates t rules orders x s (invalidateBlock t rules orders x s).1
      (invalidateBlock t rules orders x s).2 := by
  obtain ⟨hfirst, hunset⟩ := marked_flag s x statusValidateFailed rfl rfl
    fun _ => Set.mem_singleton x
  have hlookup : ∃ y l, s.nodes.lookup x = some (y :: l) := by
    obtain ⟨l, hl⟩ := Finmap.mem_iff.1 hx
    have hbranch := (w.branch_of_ne hx hne).1
    rw [ChainState.branch, hl] at hbranch
    exact ⟨_, _, hl.trans (congrArg some (tail_eq_of_cons_eq hbranch))⟩
  obtain ⟨y, l, hl⟩ := hlookup
  have w1 := hfirst.wf w
  unfold invalidateBlock
  simp only [hl, hvalid]
  have hunion {P : Hash → Prop} (hP : P x) (y : Hash) : y ∈ ({x} : Set Hash) ∪ { y | P y ∧ y ≠ x } ↔
      y ∈ { y | P y } := by
    refine ⟨fun hy => hy.elim (fun hyx => hyx ▸ hP) And.left, fun hy => ?_⟩
    by_cases hyx : y = x
    · exact .inl hyx
    · exact .inr ⟨hy, hyx⟩
  by_cases hin : x ∈ s.bestChain
  · rw [if_neg (not_not.2 hin)]
    rcases w1.invalidateBest_cases (hfirst.bestChain ▸ hin) hne rules orders with
      ⟨⟨y, hy, ⟨hxy, hyx⟩, hinv⟩, e, s', heq⟩ | ⟨hclean, s1, hm, heq⟩
    · rw [heq]
      exact .stuck hin ⟨y, hfirst.bestChain ▸ hy, hxy,
        ((hfirst.knownInvalid y).1 hinv).resolve_left hyx⟩
    · rw [heq]
      simp only [hfirst.bestChain, hfirst.branch] at hclean hm
      have hm1 : Marked {x} { y | y ∈ s.bestChain ∧ x ∈ s.branch y } s s1 := by
        refine (hfirst.trans hm).congr fun y => ?_
        simpa only [and_assoc] using hunion (P := fun y => y ∈ s.bestChain ∧ x ∈ s.branch y)
          ⟨hin, mem_branch_self s x⟩ y
      have hprev := (w.branch_of_ne hx hne).2
      have w2 := (hm1.wf w).setBest (hm1.nodes ▸ hprev)
      rw [hm1.branch] at w2
      refine .best hin (fun y hy hxy => ?_) hm1 ?_ (w2.headerMoves _)
        (((w2.headerMoves _).wf w2).turns ..)
      · by_cases hyx : y = x
        · exact hyx ▸ hvalid
        · exact (hfirst.knownInvalid_false.1 (hclean y hy ⟨hxy, hyx⟩)).2
      · exact Bool.eq_false_iff.2 fun hv => Bool.eq_false_iff.1 hunset (hm.knownValid x hv)
  · rw [if_pos hin]
    obtain ⟨s1, hm, heq⟩ := w1.invalidateSide_marks (hfirst.nodes ▸ hx) (hfirst.bestChain ▸ hin) orders
    rw [heq]
    simp only [hfirst.nodes, hfirst.branch] at hm
    refine .side hin ((hfirst.trans hm).congr fun y => ?_) ((hm.wf w1).headerMoves _)
    simpa only [and_assoc] using hunion (P := fun y => y ∈ s.nodes ∧ x ∈ s.branch y)
      ⟨hx, mem_branch_self s x⟩ y

end ChainState

end HandshakeNode
