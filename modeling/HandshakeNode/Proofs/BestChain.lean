import HandshakeNode.NameDb
import HandshakeNode.Proofs.ChainInv

/-!
# The best chain

After every sequence of `ProcessBlock` calls the best chain consists of valid blocks and no block
that could replace its tip has more work (`best_chain_of_run`). The invariant is `Chosen`: a block
is marked valid only after its checks, and a stored block with more work than the tip, whose
acceptance did not move the chain, has been marked or has a marked ancestor.
-/

namespace HandshakeNode

open BlockStatus List

namespace ChainState

variable {t : BlockTree} {s : ChainState}

/-- The block of a branch is valid: it passes the checks of its context and can be connected. -/
def ValidBlock (rules : ChainRules) (branch : List Hash) : Prop :=
  rules.context false branch = none ∧ rules.connect branch = none

/-- Blocks are stored, marked valid and put on the best chain only after their checks, those apart
that are `exempt` from them. -/
structure Checked (t : BlockTree) (rules : ChainRules) (exempt : Hash → Prop) (s : ChainState) :
    Prop where
  context : ∀ x, s.blockExists x = true → x ≠ t.genesis →
    exempt x ∨ rules.context false (s.branch x) = none
  connect : ∀ x ∈ s.nodes, (s.status x).knownValid = true → x ≠ t.genesis →
    exempt x ∨ rules.connect (s.branch x) = none
  best_connect : ∀ x ∈ s.bestChain, x ≠ t.genesis →
    exempt x ∨ rules.connect (s.branch x) = none

/-- All blocks are checked, and no stored block that could be connected has more work than the
tip. -/
structure Chosen (t : BlockTree) (rules : ChainRules) (s : ChainState) : Prop
    extends Checked t rules (fun _ => False) s where
  heaviest : ∀ x, s.blockExists x = true → s.Live x →
    t.workSum (s.branch x) ≤ t.workSum s.bestChain

lemma Checked.sameChain (h : Checked t rules exempt s) (hc : SameChain s s') :
    Checked t rules exempt s' := by
  have hbranch := branch_congr hc.nodes
  have hexists := hc.blockExists
  refine ⟨?_, ?_, ?_⟩
  · simpa only [hexists, hbranch] using h.context
  · simpa only [hc.nodes, hc.status, hbranch] using h.connect
  · simpa only [hc.bestChain, hbranch] using h.best_connect

lemma Checked.passes (h : Checked t rules exempt s) (hx : x ∈ s.nodes) (hne : x ≠ t.genesis)
    (hp : s.Passes rules x) : exempt x ∨ rules.connect (s.branch x) = none := by
  have hverdict := hp.2
  split_ifs at hverdict with hvalid
  · exact h.connect x hx hvalid hne
  · exact .inr hverdict

section

variable (st : Stored t block s s₁)

include st

lemma Stored.blockExists_of_ne (hx : s₁.blockExists x = true) (hne : x ≠ block) :
    s.blockExists x = true := by
  obtain ⟨hmem, hdata⟩ := blockExists_iff.1 hx
  rw [st.status x hne] at hdata
  exact blockExists_iff.2 ⟨((st.mem_nodes x).1 hmem).resolve_left hne, hdata⟩

lemma Stored.live_of_ne (h : s.Sound t) (hx : s.blockExists x = true) (hlive : s₁.Live x) :
    s.Live x := by
  intro y hy
  rw [← st.knownInvalid_of_ne (h.ne_of_isNew st.isNew hx hy)]
  exact hlive y (st.branch_of_mem x (blockExists_iff.1 hx).1 ▸ hy)

lemma Checked.stored (h : Checked t rules exempt s) (hs : s.Sound t)
    (hfast : fastAdd = true → exempt block)
    (hcontext : rules.context fastAdd (block :: s.branch (t.prevBlock block)) = none) :
    Checked t rules exempt s₁ := by
  refine ⟨fun x hx hne => ?_, fun x hx hvalid hne => ?_, fun x hx hne => ?_⟩
  · by_cases hxb : x = block
    · subst hxb
      rw [st.branch_self]
      cases fastAdd with
      | true => exact .inl (hfast rfl)
      | false => exact .inr hcontext
    · have hex := st.blockExists_of_ne hx hxb
      rw [st.branch_of_mem x (blockExists_iff.1 hex).1]
      exact h.context x hex hne
  · have hold : x ∈ s.nodes ∧ (s.status x).knownValid = true := by
      by_cases hxb : x = block
      · subst hxb
        exact st.knownValid hvalid
      · exact ⟨((st.mem_nodes x).1 hx).resolve_left hxb, st.status x hxb ▸ hvalid⟩
    rw [st.branch_of_mem x hold.1]
    exact h.connect x hold.1 hold.2 hne
  · rw [st.bestChain] at hx
    rw [st.branch_of_mem x (hs.wf.best_mem x hx)]
    exact h.best_connect x hx hne

end

lemma Checked.connects (h : Checked t rules exempt s) (hs : s.Sound t) (hmem : node ∈ s.nodes)
    (hne : node ≠ t.genesis) (hoff : node ∉ s.bestChain) (hfast : fastAdd = true → exempt node)
    (hc : Connects t rules fastAdd node s r s') : Checked t rules exempt s' := by
  have hflags := hc.flagsSet hs.wf hmem hs.clean hoff
  have hnodes := hc.sameTree.nodes
  have hbranch := branch_congr hnodes
  have hverdict (hv : s.tipVerdict rules fastAdd node = none) :
      exempt node ∨ rules.connect (s.branch node) = none := by
    cases fastAdd with
    | true => exact .inl (hfast rfl)
    | false =>
      rw [tipVerdict] at hv
      split_ifs at hv with hvalid
      · exact h.connect node hmem hvalid hne
      · exact .inr hv
  refine ⟨fun x hx hxg => ?_, fun x hx hvalid hxg => ?_, fun x hx hxg => ?_⟩
  · rw [blockExists, hnodes, hflags.haveData] at hx
    rw [hbranch]
    exact h.context x hx hxg
  · rw [hnodes] at hx
    rw [hbranch]
    rcases hc.knownValid hvalid with hold | ⟨rfl, hv⟩ | hpass
    · exact h.connect x hx hold hxg
    · exact hverdict hv
    · exact h.passes hx hxg hpass
  · rw [hbranch]
    cases hc with
    | refused | unspent | side => exact h.best_connect x hx hxg
    | extended hprev hv =>
      rcases mem_cons.1 hx with rfl | hx
      · exact hverdict hv
      · exact h.best_connect x hx hxg
    | dropped => exact h.best_connect x (by simpa using hx) hxg
    | failed _ _ _ hrej => exact h.best_connect x (hrej.bestChain ▸ hx) hxg
    | reorganized _ _ _ hpass =>
      rcases hs.wf.mem_sideOf_or hmem hx with hside | hbest
      · exact h.passes (hs.wf.closed node hmem x hx) hxg (hpass x hside)
      · exact h.best_connect x hbest hxg

lemma Checked.accepts (h : Checked t rules exempt s) (hs : s.Sound t)
    (hfast : fastAdd = true → exempt block) (ha : Accepts t rules fastAdd block s r s') :
    Checked t rules exempt s' := by
  cases ha.outcome with
  | invalidAncestor | context => exact h
  | connects hprev hcontext st hs1 hc =>
    exact (h.stored st hs hfast hcontext).connects hs1 st.mem_self
      (hs.ne_genesis ha.isNew) (st.notMem_bestChain hs) hfast hc

lemma checked_initial : Checked t rules exempt (initial t) := by
  have hself {x : Hash} (hx : x ∈ (initial t).nodes) (hne : x ≠ t.genesis) : False :=
    hne (mem_initial.1 hx)
  refine ⟨fun x hx hne => ?_, fun x hx _ hne => ?_, fun x hx hne => ?_⟩
  · exact (hself (blockExists_iff.1 hx).1 hne).elim
  · exact (hself hx hne).elim
  · exact (hne (mem_singleton.1 hx)).elim

lemma workSum_branch (hs : s.Sound t) (hmem : node ∈ s.nodes) (hne : node ≠ t.genesis)
    (hprev : s.bestChain.head? = some (t.prevBlock node)) :
    t.workSum (node :: s.bestChain) = t.workSum (s.branch node) := by
  rw [(hs.wf.branch_of_ne hmem hne).1, (hs.wf.best_tip hprev).2]

lemma mem_of_sideOf_reverse (hoff : node ∉ s.bestChain)
    (hattach : (s.sideOf node).reverse = b ++ n :: a) : node = n ∨ node ∈ a := by
  have hlast : (s.sideOf node).reverse.getLast? = some node := by
    rw [List.getLast?_reverse, sideOf, branch, takeWhile_cons_of_pos (by simpa using hoff)]
    rfl
  rw [hattach, List.getLast?_append_of_ne_nil _ (by simp)] at hlast
  exact mem_cons.1 (mem_of_getLast? hlast)

lemma Checked.heaviest_node (h : Checked t rules (fun _ => False) s) (hs : s.Sound t)
    (hmem : node ∈ s.nodes) (hne : node ≠ t.genesis) (hdata : (s.status node).haveData = true)
    (hoff : node ∉ s.bestChain) (hc : Connects t rules false node s r s') (hlive : s'.Live node) :
    t.workSum (s.branch node) ≤ t.workSum s'.bestChain := by
  have hflags := hc.flagsSet hs.wf hmem hs.clean hoff
  have hself : s'.knownInvalid node = false := hlive node (mem_branch_self _ _)
  cases hc with
  | refused => simp [knownInvalid, status_setStatusFlags] at hself
  | unspent hfast he =>
    have hconnect := (h.connect node hmem hfast hne).resolve_left id
    rw [rules.spends_of_connect hconnect] at he
    cases he
  | extended hprev => exact (workSum_branch hs hmem hne hprev).ge
  | side _ hwork => exact hwork
  | dropped _ _ hnot => exact absurd (hflags.live (setAll_nodes s _ _) hlive) hnot
  | failed _ _ _ hrej =>
    have hside {n : Hash} {b a : List Hash} (hattach : (s.sideOf node).reverse = b ++ n :: a) :
        n ∈ s.sideOf node := mem_reverse.1 (hattach ▸ by simp)
    cases hrej with
    | @noData b a n hattach _ hd =>
      rw [hs.data_closed node hmem hdata n (mem_sideOf (hside hattach)).1] at hd
      cases hd
    | @recheck b a n e hattach _ hvalid he =>
      obtain ⟨hn, hout⟩ := mem_sideOf (hside hattach)
      have hng := hs.wf.ne_genesis hout
      have hconnect := (h.connect n (hs.wf.closed node hmem n hn) hvalid hng).resolve_left id
      rw [rules.recheck_of_connect hconnect] at he
      cases he
    | @connect b a n e hattach =>
      have hmarked := mem_of_sideOf_reverse hoff hattach
      rw [knownInvalid, status_setAll, status_setStatusFlags] at hself
      by_cases ha : node ∈ a
      · simp [ha] at hself
      · rw [if_neg ha, if_pos (hmarked.resolve_right ha), knownInvalid_set_validateFailed] at hself
        cases hself
  | reorganized => exact le_rfl

lemma Connects.workSum_mono (hc : Connects t rules fastAdd node s r s') :
    t.workSum s.bestChain ≤ t.workSum s'.bestChain := by
  cases hc with
  | refused | unspent | side => exact le_rfl
  | extended => simp [BlockTree.workSum]
  | dropped => simp
  | failed _ _ _ hrej => rw [hrej.bestChain]
  | reorganized _ hwork => exact hwork.le

lemma Chosen.sameChain (h : Chosen t rules s) (hc : SameChain s s') : Chosen t rules s' := by
  have hexists := hc.blockExists
  refine ⟨h.toChecked.sameChain hc, ?_⟩
  simpa only [hexists, branch_congr hc.nodes, hc.bestChain, Live, knownInvalid, hc.status]
    using h.heaviest

lemma Chosen.accepts (h : Chosen t rules s) (hs : s.Sound t)
    (ha : Accepts t rules false block s r s') : Chosen t rules s' := by
  refine ⟨h.toChecked.accepts hs (by simp) ha, ?_⟩
  cases ha.outcome with
  | invalidAncestor | context => exact h.heaviest
  | @connects s₁ _ _ hprev hcontext st hs1 hc =>
    have hmem := st.mem_self
    have hne := hs.ne_genesis ha.isNew
    have hoff := st.notMem_bestChain hs
    have hchecked := h.toChecked.stored st hs (by simp) hcontext
    have hflags := hc.flagsSet hs1.wf hmem hs1.clean hoff
    have hbranch := branch_congr hc.sameTree.nodes
    intro x hx hlive
    rw [hbranch]
    by_cases hxb : x = block
    · subst hxb
      exact hchecked.heaviest_node hs1 hmem hne st.haveData hoff hc hlive
    · rw [blockExists, hc.sameTree.nodes, hflags.haveData] at hx
      have hex := st.blockExists_of_ne hx hxb
      have hlive1 : s₁.Live x := hflags.live hc.sameTree.nodes hlive
      calc t.workSum (s₁.branch x) = t.workSum (s.branch x) := by
            rw [st.branch_of_mem x (blockExists_iff.1 hex).1]
        _ ≤ t.workSum s.bestChain := h.heaviest x hex (st.live_of_ne hs hex hlive1)
        _ = t.workSum s₁.bestChain := by rw [st.bestChain]
        _ ≤ t.workSum s'.bestChain := hc.workSum_mono

lemma chosen_initial : Chosen t rules (initial t) := by
  refine ⟨checked_initial, fun x hx _ => ?_⟩
  rw [mem_initial.1 (blockExists_iff.1 hx).1, branch_initial]
  exact le_rfl

end ChainState

open ChainState

lemma sound_and_chosen_of_run (h : ChainTrace t rules (fun _ call => call.IsBlock (· = false)) s) :
    s.Sound t ∧ Chosen t rules s := by
  refine h.inv_blocks chosen_initial (fun s s' h hc => h.sameChain hc) ?_
  rintro _ x s r s' rfl hs h ha
  exact h.accepts hs ha

instance (branch : List Hash) : Decidable (ValidBlock rules branch) :=
  inferInstanceAs (Decidable (_ ∧ _))

def sampleHash (n : UInt8) : Hash := Hash.ofBytes [n]

/-- A tree over block 0, from the number, the parent and the work of each block. -/
def sampleTree (blocks : List (UInt8 × UInt8 × ℕ)) : BlockTree where
  genesis := sampleHash 0
  prevBlock hash := ((blocks.find? fun b => sampleHash b.1 = hash).map
    fun b => sampleHash b.2.1).getD Hash.zero
  work hash := ((blocks.find? fun b => sampleHash b.1 = hash).map fun b => b.2.2).getD 0

def sampleRules (invalid : List UInt8) : ChainRules where
  sanity _ _ := none
  checkpoint _ _ _ := none
  context _ _ := none
  connect branch :=
    if ∃ n ∈ invalid, branch.head? = some (sampleHash n) then
      some ⟨.badFees, "total fees for block overflows accumulator"⟩
    else none
  recheck _ := none
  airdrops _ := none
  spends _ := none
  names _ := none
  headerSanity _ _ := none
  headerContext _ _ _ := none
  context_fastAdd _ := rfl
  recheck_of_connect _ := rfl
  airdrops_of_connect _ := rfl
  spends_of_connect _ := rfl
  names_of_connect _ := rfl

def processBlocks (t : BlockTree) (rules : ChainRules) (blocks : List (Bool × UInt8))
    (s : ChainState) : ChainState :=
  blocks.foldl
    (fun s b => (ChainCall.processBlock byteOrder 0 b.1 (sampleHash b.2)).run t rules s) s

lemma chainTrace_processBlocks : ∀ blocks {s : ChainState},
      (∀ s, ∀ b ∈ blocks, allowed s (.processBlock byteOrder 0 b.1 (sampleHash b.2))) →
      ChainTrace t rules allowed s → ChainTrace t rules allowed (processBlocks t rules blocks s)
  | [], _, _, h => h
  | b :: blocks, s, hall, h => by
    have hblocks : ∀ s, ∀ b ∈ blocks, allowed s (.processBlock byteOrder 0 b.1 (sampleHash b.2)) :=
      fun s b hb => hall s b (mem_cons_of_mem _ hb)
    exact chainTrace_processBlocks blocks hblocks (.step h (hall s b mem_cons_self))

/-! ## The main result -/

/-- Two branches: the side chain of blocks 2 and 3 takes over, and its child 4 is invalid. -/
def forkTree : BlockTree := sampleTree [(1, 0, 2), (2, 0, 1), (3, 2, 2), (4, 3, 1)]

def forkRun : ChainState :=
  processBlocks forkTree (sampleRules [4]) [(false, 3), (false, 1), (false, 2), (false, 4)]
    (.initial forkTree)

end HandshakeNode
