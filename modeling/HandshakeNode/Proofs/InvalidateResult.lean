import HandshakeNode.Proofs.Invalidate
import HandshakeNode.Proofs.ProcessReport

/-!
# Where the chain falls back to

After `InvalidateBlock` the block and its descendants should be known to be invalid and the chain
should end in the best block that is left (`Invalidated`). The code marks only what follows the block
on the best chain, and looks for the next tip among the leaves only; when that is enough is said by
`FallsBack`.
-/

namespace HandshakeNode

open BlockStatus Trees

namespace ChainState

variable {t : BlockTree} {rules : ChainRules} {s s₂ s' : ChainState} {x b : Hash}

/-- The block is gone with its descendants, and the best chain is the best that is left. -/
structure Invalidated (t : BlockTree) (x : Hash) (s : ChainState) : Prop where
  descendants : ∀ y ∈ s.nodes, x ∈ s.branch y → s.knownInvalid y = true
  notMem : x ∉ s.bestChain
  clean : ∀ y ∈ s.bestChain, s.knownInvalid y = false
  heaviest : ∀ y ∈ s.nodes, s.Live y → t.workSum (s.branch y) ≤ t.workSum s.bestChain

/-- A tip to which the chain may turn when `x` is taken off it: the heaviest leaf off the best chain
that is not known to be invalid, or the parent of `x` if that is heavier than all of them. -/
inductive Successor (t : BlockTree) (s : ChainState) (x b : Hash) : Prop
  | leaf (hb : FreeLeaf t s b)
      (hmax : ∀ c, FreeLeaf t s c → t.workSum (s.branch c) ≤ t.workSum (s.branch b))
      (hparent : s.knownInvalid (t.prevBlock x) = false →
        t.workSum (s.branch (t.prevBlock x)) ≤ t.workSum (s.branch b))
  | parent (hb : b = t.prevBlock x) (hvalid : s.knownInvalid b = false)
      (hmax : ∀ c, FreeLeaf t s c → t.workSum (s.branch c) < t.workSum (s.branch b))

lemma Successor.mem_nodes (h : Successor t s x b) (hprev : t.prevBlock x ∈ s.nodes) :
    b ∈ s.nodes := by
  cases h with
  | leaf hb => exact hb.mem
  | parent hb => exact hb ▸ hprev

def newBlocks (t : BlockTree) (s : ChainState) (x b : Hash) : List Hash :=
  (s.branch b).takeWhile fun y => decide (y ∉ s.branch (t.prevBlock x))

/-- The way from the parent of `x` to `b` has neither `x` nor a block that is known to be invalid. -/
def Reaches (t : BlockTree) (s : ChainState) (x b : Hash) : Prop :=
  x ∉ s.branch b ∧ s.knownInvalid (t.prevBlock b) = false ∧
    ∀ y ∈ s.newBlocks t x b, s.knownInvalid y = false

instance : Decidable (s.Reaches t x b) := inferInstanceAs (Decidable (_ ∧ _ ∧ _))

/-- With `tip` as the new tip: the descendants of `x` that were not on the best chain are known to
be invalid or have a way to `b` on which nothing is, and of the blocks that remain none is better
than `tip`. -/
structure Recovers (t : BlockTree) (s : ChainState) (x b tip : Hash) : Prop where
  covers : ∀ y ∈ s.nodes, x ∈ s.branch y →
    y ∈ s.bestChain ∨ s.knownInvalid y = true ∨ y ∈ s.undecided b
  clean : s.Live tip
  heaviest : ∀ y ∈ s.nodes, s.Live y → x ∉ s.branch y →
    t.workSum (s.branch y) ≤ t.workSum (s.branch tip)

/-- When `InvalidateBlock` does what it is for. -/
structure FallsBack (t : BlockTree) (rules : ChainRules) (s : ChainState) (x : Hash) : Prop where
  side : x ∉ s.bestChain → (∀ y ∈ s.bestChain, s.knownInvalid y = false) ∧
    ∀ y ∈ s.nodes, s.Live y → x ∉ s.branch y → t.workSum (s.branch y) ≤ t.workSum s.bestChain
  best : x ∈ s.bestChain → (∀ y ∈ s.bestChain, x ∈ s.branch y → s.knownInvalid y = false) →
    ∀ b, Successor t s x b →
      (s.Reaches t x b → ∀ y ∈ s.newBlocks t x b, s.Passes rules y) →
      Recovers t s x b (if s.Reaches t x b then b else t.prevBlock x)

/-! ## The chain goes back -/

structure Retreats (t : BlockTree) (x : Hash) (s s₂ : ChainState) : Prop where
  wf : s₂.Wf t
  nodes : s₂.nodes = s.nodes
  bestChain : s₂.bestChain = s.branch (t.prevBlock x)
  knownInvalid : ∀ y, s₂.knownInvalid y = true ↔
    (y ∈ s.bestChain ∧ x ∈ s.branch y) ∨ s.knownInvalid y = true
  off : ∀ y, x ∉ s.branch y → s₂.status y = s.status y
  haveData : ∀ y, (s₂.status y).haveData = (s.status y).haveData
  failed : ∀ y, y ≠ x → (s₂.status y).validateFailed = (s.status y).validateFailed
  unset : (s₂.status x).knownValid = false

lemma Marked.retreats (w : s.Wf t) (hx : x ∈ s.nodes) (hne : x ≠ t.genesis)
    (hm : Marked {x} { y | y ∈ s.bestChain ∧ x ∈ s.branch y } s s1)
    (hunset : (s1.status x).knownValid = false)
    (hh : HeaderMoves t { s1 with bestChain := s.branch (t.prevBlock x) } s₂) :
    Retreats t x s s₂ := by
  obtain ⟨hnodes, hstatus, hbest, -, -⟩ := hh.fields
  have hprev := (w.branch_of_ne hx hne).2
  have w1 := (hm.wf w).setBest (hm.nodes ▸ hprev)
  rw [hm.branch] at w1
  refine ⟨hh.wf w1, hnodes.trans hm.nodes, hbest, ?_, ?_, ?_, ?_, ?_⟩ <;>
    simp only [ChainState.knownInvalid, hstatus]
  · exact hm.knownInvalid
  · exact fun y hy => hm.off y fun h => hy h.2
  · exact hm.haveData
  · exact hm.failed
  · exact hunset

namespace Retreats

variable (h : Retreats t x s s₂)

include h

lemma branch (y : Hash) : s₂.branch y = s.branch y := branch_congr h.nodes y

lemma knownInvalid_false : s₂.knownInvalid y = false ↔
    ¬ (y ∈ s.bestChain ∧ x ∈ s.branch y) ∧ s.knownInvalid y = false := by
  rw [← Bool.not_eq_true, h.knownInvalid, not_or, Bool.not_eq_true]

lemma knownInvalid_of_notMem (hy : x ∉ s.branch y) : s₂.knownInvalid y = s.knownInvalid y := by
  rw [ChainState.knownInvalid, h.off y hy, ChainState.knownInvalid]

lemma live_iff (w : s.Wf t) (hin : x ∈ s.bestChain) (hy : y ∈ s.nodes) :
    s₂.Live y ↔ s.Live y ∧ x ∉ s.branch y := by
  simp only [Live, h.branch, h.knownInvalid_false]
  constructor
  · intro hlive
    exact ⟨fun z hz => (hlive z hz).2, fun hxy => (hlive x hxy).1 ⟨hin, mem_branch_self s x⟩⟩
  · rintro ⟨hlive, hxy⟩ z hz
    exact ⟨fun hzx => hxy (w.branch_subset hy hz hzx.2), hlive z hz⟩

section

variable (w : s.Wf t) (hin : x ∈ s.bestChain) (hne : x ≠ t.genesis)
include w hin hne

lemma mem_bestChain_iff : y ∈ s₂.bestChain ↔ y ∈ s.bestChain ∧ x ∉ s.branch y := by
  have hx := w.best_mem x hin
  obtain ⟨hbranch, hprev⟩ := w.branch_of_ne hx hne
  rw [h.bestChain]
  constructor
  · intro hy
    refine ⟨w.best_subset hin (hbranch ▸ List.mem_cons_of_mem _ hy), fun hxy => ?_⟩
    exact w.notMem_branch_prev hx hne (w.branch_subset hprev hy hxy)
  · rintro ⟨hy, hxy⟩
    obtain ⟨p, hp⟩ := w.exists_append w.best hin hx
    rw [hp, List.mem_append, hbranch, List.mem_cons] at hy
    rcases hy with hy | rfl | hy
    · obtain ⟨tip, htip⟩ : ∃ tip, s.bestChain.head? = some tip :=
        Option.isSome_iff_exists.1 (by simpa using w.best.ne_nil)
      obtain ⟨htipn, hbest⟩ := w.best_tip htip
      exact absurd (w.mem_branch_of_append htipn (hbest.trans hp) hy (mem_branch_self s x)) hxy
    · exact absurd (mem_branch_self s y) hxy
    · exact hy

lemma freeLeaf_iff : FreeLeaf t s₂ c ↔ FreeLeaf t s c := by
  have hmem {y : Hash} := h.mem_bestChain_iff w hin hne (y := y)
  constructor
  · rintro ⟨hc, hout, hleaf, hvalid⟩
    rw [h.nodes] at hc hleaf
    obtain ⟨hnot, hvalid⟩ := h.knownInvalid_false.1 hvalid
    have hcout : c ∉ s.bestChain := by
      intro hcb
      by_cases hxc : x ∈ s.branch c
      · exact hnot ⟨hcb, hxc⟩
      · exact hout (hmem.2 ⟨hcb, hxc⟩)
    exact ⟨hc, hcout, fun n hn hnout => hleaf n hn fun hn2 => hnout (hmem.1 hn2).1, hvalid⟩
  · rintro ⟨hc, hout, hleaf, hvalid⟩
    refine ⟨h.nodes ▸ hc, fun hc2 => hout (hmem.1 hc2).1, fun n hn hnout hprev => ?_,
      h.knownInvalid_false.2 ⟨fun hcb => hout hcb.1, hvalid⟩⟩
    rw [h.nodes] at hn
    -- a child on the old best chain would have its parent there
    have hnb : n ∈ s.bestChain := by
      by_contra hnb
      exact hleaf n hn hnb hprev
    have hng := h.wf.ne_genesis hnout
    exact hout (hprev ▸ w.best_subset hnb (w.prev_mem_branch hn hng))

lemma choice_iff : Choice t s₂ b ↔ Successor t s x b := by
  have hx := w.best_mem x hin
  have hleaf {c : Hash} := h.freeLeaf_iff w hin hne (c := c)
  have htip : s₂.bestChain.head? = some (t.prevBlock x) := by
    rw [h.bestChain]
    rfl
  have hparent : s₂.knownInvalid (t.prevBlock x) = s.knownInvalid (t.prevBlock x) :=
    h.knownInvalid_of_notMem (w.notMem_branch_prev hx hne)
  constructor
  · rintro (⟨hb, hmax, hprev⟩ | ⟨hb, hvalid, hmax⟩)
    · simp only [h.branch] at hmax hprev
      exact .leaf (hleaf.1 hb) (fun c hc => hmax c (hleaf.2 hc))
        fun hv => hprev _ htip (hparent.trans hv)
    · obtain rfl : t.prevBlock x = b := Option.some.inj (htip.symm.trans hb)
      simp only [h.branch] at hmax
      exact .parent rfl (hparent.symm.trans hvalid) fun c hc => hmax c (hleaf.2 hc)
  · rintro (⟨hb, hmax, hprev⟩ | ⟨rfl, hvalid, hmax⟩)
    · refine .leaf (hleaf.2 hb) (fun c hc => ?_) fun tip htip' hv => ?_
      · rw [h.branch, h.branch]
        exact hmax c (hleaf.1 hc)
      · obtain rfl : t.prevBlock x = tip := Option.some.inj (htip.symm.trans htip')
        rw [h.branch, h.branch]
        exact hprev (hparent.symm.trans hv)
    · refine .tip htip (hparent.trans hvalid) fun c hc => ?_
      rw [h.branch, h.branch]
      exact hmax c (hleaf.1 hc)

end

lemma sideOf_eq : s₂.sideOf b = s.newBlocks t x b := by
  rw [sideOf, newBlocks, h.branch, h.bestChain]

lemma open_iff (w : s.Wf t) (hin : x ∈ s.bestChain) (hne : x ≠ t.genesis) (hb : b ∈ s.nodes)
    (hbg : b ≠ t.genesis) : s₂.Open t b ↔ s.Reaches t x b := by
  rw [Open, h.sideOf_eq]
  constructor
  · rintro ⟨hprev, hside⟩
    refine ⟨fun hxb => ?_, (h.knownInvalid_false.1 hprev).2,
      fun y hy => (h.knownInvalid_false.1 (hside y hy)).2⟩
    -- `x` itself would be one of the new blocks
    have hxs : x ∈ s₂.sideOf b := by
      refine (h.wf.mem_sideOf_or (h.nodes ▸ hb) (h.branch b ▸ hxb)).resolve_right fun hx2 => ?_
      exact ((h.mem_bestChain_iff w hin hne).1 hx2).2 (mem_branch_self s x)
    rw [h.sideOf_eq] at hxs
    exact (h.knownInvalid_false.1 (hside x hxs)).1 ⟨hin, mem_branch_self s x⟩
  · rintro ⟨hxb, hprev, hside⟩
    have hout {y : Hash} (hy : y ∈ s.branch b) : x ∉ s.branch y :=
      fun hxy => hxb (w.branch_subset hb hy hxy)
    refine ⟨?_, fun y hy => ?_⟩
    · rw [h.knownInvalid_of_notMem (hout (w.prev_mem_branch hb hbg))]
      exact hprev
    · rw [h.knownInvalid_of_notMem (hout ((List.takeWhile_sublist _).subset hy))]
      exact hside y hy

end Retreats

/-! ## Where it lands -/

/-- The descendants of `x` that are known to be invalid when `b` was tried. -/
def Covered (s : ChainState) (b y : Hash) : Prop :=
  y ∈ s.bestChain ∨ s.knownInvalid y = true ∨ y ∈ s.undecided b

/-- The chain ends in `tip`, and of the descendants of `x` those in `D` are marked. -/
structure Lands (s : ChainState) (x tip : Hash) (D : Hash → Prop) (s' : ChainState) : Prop where
  nodes : s'.nodes = s.nodes
  bestChain : s'.bestChain = s.branch tip
  tip_mem : tip ∈ s.nodes
  notMem : x ∉ s.branch tip
  below : ∀ y ∈ s.nodes, x ∈ s.branch y → (s'.knownInvalid y = true ↔ D y)
  chain : ∀ y ∈ s.branch tip, s'.knownInvalid y = s.knownInvalid y
  live : ∀ y ∈ s.nodes, s'.Live y ↔ s.Live y ∧ x ∉ s.branch y

lemma Lands.invalidated_iff {D : Hash → Prop} (h : Lands s x tip D s') :
    Invalidated t x s' ↔ (∀ y ∈ s.nodes, x ∈ s.branch y → D y) ∧ s.Live tip ∧
      ∀ y ∈ s.nodes, s.Live y → x ∉ s.branch y →
        t.workSum (s.branch y) ≤ t.workSum (s.branch tip) := by
  have hbranch := branch_congr h.nodes
  constructor
  · rintro ⟨hdesc, -, hclean, hheavy⟩
    simp only [h.nodes, hbranch, h.bestChain] at hdesc hclean hheavy
    exact ⟨fun y hy hxy => (h.below y hy hxy).1 (hdesc y hy hxy),
      fun y hy => h.chain y hy ▸ hclean y hy,
      fun y hy hlive hxy => hheavy y hy ((h.live y hy).2 ⟨hlive, hxy⟩)⟩
  · rintro ⟨hcovers, hclean, hheavy⟩
    refine ⟨?_, h.bestChain ▸ h.notMem, ?_, ?_⟩ <;> simp only [h.nodes, hbranch, h.bestChain]
    · exact fun y hy hxy => (h.below y hy hxy).2 (hcovers y hy hxy)
    · exact fun y hy => (h.chain y hy).trans (hclean y hy)
    · intro y hy hlive
      obtain ⟨hlive, hxy⟩ := (h.live y hy).1 hlive
      exact hheavy y hy hlive hxy

lemma Lands.recovers_iff (h : Lands s x tip (s.Covered b) s') :
    Invalidated t x s' ↔ Recovers t s x b tip :=
  h.invalidated_iff.trans ⟨fun ⟨hc, hl, hm⟩ => ⟨hc, hl, hm⟩, fun ⟨hc, hl, hm⟩ => ⟨hc, hl, hm⟩⟩

section

variable (h : Retreats t x s s₂) (w : s.Wf t) (hin : x ∈ s.bestChain) (hne : x ≠ t.genesis)

include h w hin hne

lemma Retreats.lands_parent : Lands s x (t.prevBlock x) (s.Covered (t.prevBlock x)) s₂ := by
  have hx := w.best_mem x hin
  have hprev := (w.branch_of_ne hx hne).2
  have hnot := w.notMem_branch_prev hx hne
  refine ⟨h.nodes, h.bestChain, hprev, hnot, fun y hy hxy => ?_, fun y hy => ?_,
    fun y hy => h.live_iff w hin hy⟩
  · have hund : y ∉ s.undecided (t.prevBlock x) := fun hu =>
      hnot (w.branch_subset hprev ((List.takeWhile_sublist _).subset hu) hxy)
    rw [h.knownInvalid, and_iff_left hxy, Covered, or_iff_left hund]
  · exact h.knownInvalid_of_notMem fun hxy => hnot (w.branch_subset hprev hy hxy)

lemma Retreats.lands_dropped (hb : b ∈ s.nodes) (hout : b ∉ s₂.bestChain) (hopen : ¬ s₂.Open t b) :
    Lands s x (t.prevBlock x) (s.Covered b) (s₂.setAll (s₂.undecided b) statusInvalidAncestor) := by
  have hx := w.best_mem x hin
  have hprev := (w.branch_of_ne hx hne).2
  have hnot := w.notMem_branch_prev hx hne
  have hb2 : b ∈ s₂.nodes := h.nodes ▸ hb
  have hbg := h.wf.ne_genesis hout
  have hm := marked_setAll s₂ (s₂.undecided b)
  have hdead : ¬ s₂.Live b := mt (h.wf.open_of_live hb2 hbg) hopen
  refine ⟨hm.nodes.trans h.nodes, hm.bestChain.trans h.bestChain, hprev, hnot, fun y hy hxy => ?_,
    fun y hy => ?_, fun y hy => ?_⟩
  · rw [hm.knownInvalid, h.knownInvalid, and_iff_left hxy, Set.mem_ofPred_eq, h.wf.mem_undecided hb2,
      Covered, w.mem_undecided hb]
    simp only [h.branch, h.knownInvalid_false]
    constructor
    · rintro (⟨hyb, hall⟩ | hy | hy)
      · exact .inr (.inr ⟨hyb, fun z hz hyz => (hall z hz hyz).2⟩)
      · exact .inl hy
      · exact .inr (.inl hy)
    · rintro (hy | hy | ⟨hyb, hall⟩)
      · exact .inr (.inl hy)
      · exact .inr (.inr hy)
      · by_cases hbest : y ∈ s.bestChain
        · exact .inr (.inl hbest)
        · exact .inl ⟨hyb, fun z hz hyz =>
            ⟨fun hzb => hbest (w.best_subset hzb.1 hyz), hall z hz hyz⟩⟩
  · have hund : y ∉ s₂.undecided b := fun hu =>
      (mem_sideOf (h.wf.undecided_subset hb2 hout hopen hu)).2 (h.bestChain ▸ hy)
    rw [ChainState.knownInvalid, hm.off y hund]
    exact h.knownInvalid_of_notMem fun hxy => hnot (w.branch_subset hprev hy hxy)
  · rw [hm.live_iff, h.live_iff w hin hy, and_iff_left_of_imp]
    -- what is marked had an invalid ancestor before
    intro hlive z hz hu
    obtain ⟨z', hz', -, hinv⟩ := h.wf.exists_knownInvalid_of_undecided hb2 hdead hu
    have hz'y := h.wf.branch_subset (h.nodes ▸ hy) hz hz'
    rw [(h.live_iff w hin hy).2 hlive z' hz'y] at hinv
    cases hinv

lemma Retreats.lands_moved (hb : b ∈ s.nodes) (hout : b ∉ s₂.bestChain) (hopen : s₂.Open t b) :
    Lands s x b (s.Covered b)
      { s₂.setAll (s₂.sideOf b).reverse statusValid with bestChain := s₂.branch b } := by
  have hbg := h.wf.ne_genesis hout
  have hxb := ((h.open_iff w hin hne hb hbg).1 hopen).1
  have hinv := knownInvalid_setAll_valid s₂ (s₂.sideOf b).reverse
  refine ⟨(setAll_nodes s₂ _ _).trans h.nodes, h.branch b, hb, hxb, fun y hy hxy => ?_, fun y hy => ?_,
    fun y hy => ?_⟩
  · have hund : y ∉ s.undecided b := fun hu =>
      hxb (w.branch_subset hb ((List.takeWhile_sublist _).subset hu) hxy)
    have heq := hinv y
    simp only [ChainState.knownInvalid] at heq ⊢
    rw [heq]
    exact (h.knownInvalid y).trans (by rw [and_iff_left hxy, Covered, or_iff_left hund])
  · exact (hinv y).trans (h.knownInvalid_of_notMem fun hxy => hxb (w.branch_subset hb hy hxy))
  · rw [← h.live_iff w hin hy]
    have hlive (z : Hash) : (s₂.setAll (s₂.sideOf b).reverse statusValid).Live z ↔ s₂.Live z := by
      simp [Live]
    exact hlive y

lemma Turns.lands (hb : Successor t s x b) (ht : Turns t rules s₂ (some b) (.ok ()) s') :
    Lands s x (if s.Reaches t x b then b else t.prevBlock x) (s.Covered b) s' := by
  have hbn := hb.mem_nodes (w.branch_of_ne (w.best_mem x hin) hne).2
  cases ht with
  | stays htip =>
    obtain rfl : t.prevBlock x = b := by
      rw [h.bestChain] at htip
      exact Option.some.inj htip
    rw [ite_self]
    exact h.lands_parent w hin hne
  | dropped hout hopen =>
    have hbg := h.wf.ne_genesis hout
    rw [if_neg fun hr => hopen ((h.open_iff w hin hne hbn hbg).2 hr)]
    exact h.lands_dropped w hin hne hbn hout hopen
  | moved hout hopen =>
    have hbg := h.wf.ne_genesis hout
    rw [if_pos ((h.open_iff w hin hne hbn hbg).1 hopen)]
    exact h.lands_moved w hin hne hbn hout hopen

end

lemma Marked.lands (w : s.Wf t) (hx : x ∈ s.nodes) (hout : x ∉ s.bestChain)
    (hm : Marked {x} { y | y ∈ s.nodes ∧ x ∈ s.branch y } s s1) (hh : HeaderMoves t s1 s')
    (htip : tip ∈ s.nodes ∧ s.branch tip = s.bestChain) :
    Lands s x tip (fun _ => True) s' := by
  obtain ⟨hnodes, hstatus, hbest, -, -⟩ := hh.fields
  have hinv (y : Hash) : s'.knownInvalid y = s1.knownInvalid y := by
    rw [ChainState.knownInvalid, hstatus, ChainState.knownInvalid]
  have hbranch := branch_congr (hnodes.trans hm.nodes)
  refine ⟨hnodes.trans hm.nodes, (hbest.trans hm.bestChain).trans htip.2.symm, htip.1,
    htip.2 ▸ hout, fun y hy hxy => ?_, fun y hy => ?_, fun y hy => ?_⟩
  · rw [hinv, hm.knownInvalid]
    exact iff_of_true (.inl ⟨hy, hxy⟩) trivial
  · rw [htip.2] at hy
    rw [hinv, ChainState.knownInvalid, hm.off y fun h => hout (w.best_subset hy h.2),
      ChainState.knownInvalid]
  · have hlive : s'.Live y ↔ s1.Live y := by simp [Live, hbranch, hm.branch, hinv]
    rw [hlive, hm.live_iff]
    refine and_congr_right fun _ => ⟨fun h hxy => h x hxy ⟨hx, mem_branch_self s x⟩, ?_⟩
    exact fun hxy z hz hzx => hxy (w.branch_subset hy hz hzx.2)

/-- On a side branch the block is marked with all its descendants, and the best chain stays. -/
theorem Wf.invalidateBlock_side (w : s.Wf t) (hx : x ∈ s.nodes) (hne : x ≠ t.genesis)
    (hvalid : s.knownInvalid x = false) (hout : x ∉ s.bestChain) (orders : TipOrders) :
    ∃ s', s.invalidateBlock t rules orders x = (.ok (), s') ∧ (Invalidated t x s' ↔
      (∀ y ∈ s.bestChain, s.knownInvalid y = false) ∧ ∀ y ∈ s.nodes, s.Live y → x ∉ s.branch y →
        t.workSum (s.branch y) ≤ t.workSum s.bestChain) := by
  obtain ⟨tip, hhead⟩ : ∃ tip, s.bestChain.head? = some tip :=
    Option.isSome_iff_exists.1 (by simpa using w.best.ne_nil)
  have htip := w.best_tip hhead
  have hi := w.invalidates hx hne hvalid rules orders
  rcases hrun : s.invalidateBlock t rules orders x with ⟨r, s'⟩
  rw [hrun] at hi
  cases hi with
  | side _ hm hh =>
    refine ⟨s', rfl, ?_⟩
    rw [(hm.lands w hx hout hh htip).invalidated_iff, Live, htip.2]
    exact and_iff_right fun _ _ _ => trivial
  | stuck hin | best hin => exact absurd hin hout

lemma Rejects.not_passes (h : s.Rejects rules attach e s') : ¬ ∀ n ∈ attach, s.Passes rules n := by
  intro hpass
  cases h with
  | @noData b a n hattach _ hdata =>
    have hn := (hpass n (by simp [hattach])).1
    rw [hdata] at hn
    cases hn
  | @recheck b a n e hattach _ hvalid he =>
    have hn := (hpass n (by simp [hattach])).2
    rw [if_pos hvalid, he] at hn
    cases hn
  | @connect b a n e hattach _ _ hvalid he =>
    have hn := (hpass n (by simp [hattach])).2
    rw [hvalid, he] at hn
    cases hn

/-- The new blocks of an open branch are checked as they would have been before. -/
theorem Retreats.passes_iff (h : Retreats t x s s₂) (w : s.Wf t) (hin : x ∈ s.bestChain)
    (hne : x ≠ t.genesis) (hb : b ∈ s.nodes) (hout : b ∉ s₂.bestChain) (hopen : s₂.Open t b) :
    (∀ n ∈ s₂.sideOf b, s₂.Passes rules n) ↔ ∀ n ∈ s.newBlocks t x b, s.Passes rules n := by
  have hbg := h.wf.ne_genesis hout
  have hxb := ((h.open_iff w hin hne hb hbg).1 hopen).1
  rw [h.sideOf_eq]
  refine forall₂_congr fun n hn => ?_
  have hxn : x ∉ s.branch n :=
    fun hxn => hxb (w.branch_subset hb ((List.takeWhile_sublist _).subset hn) hxn)
  rw [Passes, Passes, h.off n hxn, h.branch]

section

variable (w : s.Wf t) (hin : x ∈ s.bestChain) (hne : x ≠ t.genesis)

include w hin hne

/-- A call that succeeds takes the chain back behind the block and then turns to a successor. -/
theorem Wf.turns_of_invalidateBlock (hvalid : s.knownInvalid x = false)
    (hrun : s.invalidateBlock t rules orders x = (.ok (), s')) :
    (∀ y ∈ s.bestChain, x ∈ s.branch y → s.knownInvalid y = false) ∧ ∃ s₂ b,
      Retreats t x s s₂ ∧ Successor t s x b ∧ Turns t rules s₂ (some b) (.ok ()) s' ∧
      (s.Reaches t x b → ∀ y ∈ s.newBlocks t x b, s.Passes rules y) := by
  have hx := w.best_mem x hin
  have hi := w.invalidates hx hne hvalid rules orders
  rw [hrun] at hi
  cases hi with
  | side hout => exact absurd hin hout
  | @best _ s₂ _ _ _ hclean hm hunset hh hc =>
    have hr := hm.retreats w hx hne hunset hh
    cases hbest : s₂.bestTip t (s₂.chainTips t orders.best) with
    | none =>
      rw [hbest] at hc
      cases hc
    | some b =>
      rw [hbest] at hc
      have hchoice := choice_of_bestTip hbest
      have hbn : b ∈ s.nodes := hr.nodes ▸ hchoice.mem_nodes hr.wf
      refine ⟨hclean, s₂, b, hr, (hr.choice_iff w hin hne).1 hchoice, hc, fun hreach => ?_⟩
      cases hc with
      | stays htip =>
        rw [hr.bestChain] at htip
        rw [← Option.some.inj htip, newBlocks, ChainState.branch]
        simp
      | dropped hout hopen =>
        have hbg := hr.wf.ne_genesis hout
        exact absurd ((hr.open_iff w hin hne hbn hbg).2 hreach) hopen
      | moved hout hopen hpass => exact (hr.passes_iff w hin hne hbn hout hopen).1 hpass

/-- Every successor whose new blocks pass is turned to in some order of the tips. -/
theorem Wf.exists_turns
    (hclean : ∀ y ∈ s.bestChain, x ∈ s.branch y → s.knownInvalid y = false)
    (hb : Successor t s x b)
    (hpass : s.Reaches t x b → ∀ y ∈ s.newBlocks t x b, s.Passes rules y) :
    ∃ orders s' s₂, s.invalidateBlock t rules orders x = (.ok (), s') ∧ Retreats t x s s₂ ∧
      Turns t rules s₂ (some b) (.ok ()) s' := by
  have hx := w.best_mem x hin
  have hi := w.invalidates hx hne (hclean x hin (mem_branch_self s x)) rules
    ⟨byteOrder, byteOrder, byteOrder.startingWith b⟩
  rcases hrun : s.invalidateBlock t rules ⟨byteOrder, byteOrder, byteOrder.startingWith b⟩ x with
    ⟨r, s'⟩
  rw [hrun] at hi
  cases hi with
  | side hout => exact absurd hin hout
  | stuck _ hskip =>
    obtain ⟨y, hy, hxy, hinv⟩ := hskip
    rw [hclean y hy hxy] at hinv
    cases hinv
  | @best _ s₂ _ _ _ _ hm hunset hh hc =>
    have hr := hm.retreats w hx hne hunset hh
    have hchoice := (hr.choice_iff w hin hne).2 hb
    rw [hchoice.bestTip_startingWith] at hc
    cases r with
    | ok u => exact ⟨_, s', s₂, hrun, hr, hc⟩
    | error e =>
      cases hc with
      | failed hout hopen hrej =>
        have hbn : b ∈ s.nodes := hr.nodes ▸ hchoice.mem_nodes hr.wf
        have hbg := hr.wf.ne_genesis hout
        have hall := (hr.passes_iff w hin hne hbn hout hopen).2
          (hpass ((hr.open_iff w hin hne hbn hbg).1 hopen))
        exact absurd (fun n hn => hall n (List.mem_reverse.1 hn)) hrej.not_passes

end

end ChainState

open ChainState

variable {t : BlockTree} {rules : ChainRules} {s : ChainState} {x : Hash}

/-! ## The main result -/

def threeTree : BlockTree := sampleTree [(1, 0, 1), (2, 1, 2), (3, 1, 1), (4, 1, 1)]

def threeRun : ChainState :=
  processBlocks threeTree (sampleRules []) [(false, 1), (false, 2), (false, 3), (false, 4)]
    (.initial threeTree)

/-- One of the two side branches of block 1 is not marked with it. -/
theorem side_branch_of_invalidated_block_is_left :
    (threeRun.Wf threeTree ∧ (∀ y ∈ threeRun.nodes, (threeRun.status y).haveData = true) ∧
      sampleHash 1 ∈ threeRun.nodes ∧ sampleHash 1 ≠ threeTree.genesis ∧
      threeRun.knownInvalid (sampleHash 1) = false) ∧
    ∃ orders s', threeRun.invalidateBlock threeTree (sampleRules []) orders (sampleHash 1) =
        (.ok (), s') ∧ ¬ Invalidated threeTree (sampleHash 1) s' := by
  have hrun : ChainTrace threeTree (sampleRules []) (fun _ call => call.IsBlock fun _ => True)
      threeRun := chainTrace_processBlocks _ (fun _ _ _ => trivial) .start
  obtain ⟨hs, hdata⟩ := sound_and_haveData_of_run hrun
  refine ⟨⟨hs.wf, hdata, by decide +kernel, by decide +kernel, by decide +kernel⟩,
    ⟨byteOrder, byteOrder, byteOrder⟩, _, Prod.ext ?_ rfl, ?_⟩
  · decide +kernel
  · intro h
    have h4 := h.descendants (sampleHash 4) (by decide +kernel) (by decide +kernel)
    revert h4
    decide +kernel

/-- `InvalidateBlock`, in whatever order it visits the tips, marks the block and all its descendants
and leaves the best chain that remains, exactly if the state falls back. -/
theorem invalidateBlock_invalidates (w : s.Wf t) (hx : x ∈ s.nodes) (hne : x ≠ t.genesis)
    (hvalid : s.knownInvalid x = false) :
    (∀ orders s', s.invalidateBlock t rules orders x = (.ok (), s') → Invalidated t x s') ↔
      FallsBack t rules s x := by
  constructor
  · intro h
    refine ⟨fun hout => ?_, fun hin hclean b hb hpass => ?_⟩
    · obtain ⟨s', hrun, hiff⟩ := w.invalidateBlock_side hx hne hvalid hout
        ⟨byteOrder, byteOrder, byteOrder⟩
      exact hiff.1 (h _ _ hrun)
    · obtain ⟨orders, s', s₂, hrun, hr, hc⟩ := w.exists_turns hin hne hclean hb hpass
      exact (hc.lands hr w hin hne hb).recovers_iff.1 (h _ _ hrun)
  · intro hf orders s' hrun
    by_cases hin : x ∈ s.bestChain
    · obtain ⟨hclean, s₂, b, hr, hb, hc, hpass⟩ := w.turns_of_invalidateBlock hin hne hvalid hrun
      exact (hc.lands hr w hin hne hb).recovers_iff.2 (hf.best hin hclean b hb hpass)
    · obtain ⟨s₁, hrun', hiff⟩ := w.invalidateBlock_side hx hne hvalid hin orders
      obtain rfl : s₁ = s' := congrArg Prod.snd (hrun'.symm.trans hrun)
      exact hiff.2 (hf.side hin)

theorem invalidateBlock_invalidates_forkRun : sampleHash 3 ∈ forkRun.bestChain ∧
      ((∀ orders s', forkRun.invalidateBlock forkTree (sampleRules [4]) orders (sampleHash 3) =
          (.ok (), s') → Invalidated forkTree (sampleHash 3) s') ↔
        FallsBack forkTree (sampleRules [4]) forkRun (sampleHash 3)) := by
  have hrun : ChainTrace forkTree (sampleRules [4]) (fun _ call => call.IsBlock (· = false)) forkRun :=
    chainTrace_processBlocks _ (by simp [ChainCall.IsBlock]) .start
  exact ⟨by decide +kernel, invalidateBlock_invalidates (sound_and_chosen_of_run hrun).1.wf
    (by decide +kernel) (by decide +kernel) (by decide +kernel)⟩

end HandshakeNode
