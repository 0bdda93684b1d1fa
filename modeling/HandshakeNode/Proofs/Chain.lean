import HandshakeNode.Proofs.BlockIndex

/-!
# What the calls of the chain do

One inversion lemma per call. A block that is accepted into the index extends the tip, stays on a
side chain, is dropped with its branch, or makes the chain reorganize (`Connects`); the loop over the
orphans repeats that for the orphans below the block.
-/

namespace HandshakeNode

open BlockStatus Trees List

namespace ChainState

variable {t : BlockTree} {rules : ChainRules} {s s' : ChainState} {node f n : Hash} {e : Err}
  {fastAdd : Bool} {attach : List Hash} {r : Result Bool}

def Live (s : ChainState) (x : Hash) : Prop := ∀ y ∈ s.branch x, s.knownInvalid y = false

instance (x : Hash) : Decidable (s.Live x) := List.decidableBAll _ _

/-- The nodes above the first one that is known to be invalid. -/
def undecided (s : ChainState) (x : Hash) : List Hash :=
  (s.branch x).takeWhile fun y => !s.knownInvalid y

def sideOf (s : ChainState) (x : Hash) : List Hash :=
  (s.branch x).takeWhile fun y => decide (y ∉ s.bestChain)

lemma mem_sideOf (hy : y ∈ s.sideOf x) : y ∈ s.branch x ∧ y ∉ s.bestChain :=
  ⟨(takeWhile_sublist _).subset hy, by simpa using mem_takeWhile_imp hy⟩

def Open (t : BlockTree) (s : ChainState) (x : Hash) : Prop :=
  s.knownInvalid (t.prevBlock x) = false ∧ ∀ y ∈ s.sideOf x, s.knownInvalid y = false

lemma getReorganizeNodes_of_open (hf : Fork (s.branch node) s.bestChain side detach f m)
    (hopen : s.Open t node) : getReorganizeNodes t node s = ((detach, side.reverse), s) := by
  have hside : side.takeWhile (fun n => !s.knownInvalid n) = side := by
    refine takeWhile_eq_self_iff.2 fun x hx => ?_
    have hsideOf : s.sideOf node = side := hf.takeWhile_notMem
    rw [hopen.2 x (hsideOf ▸ hx)]
    rfl
  rw [getReorganizeNodes, if_neg (by simp [hopen.1])]
  simp [findFork_eq hf, above_branch hf, above_bestChain hf, hside]

lemma getReorganizeNodes_of_not_open (hf : Fork (s.branch node) s.bestChain side detach f m)
    (hopen : ¬ s.Open t node)
    (hnode : s.knownInvalid node = false ∨ s.knownInvalid (t.prevBlock node) = false)
    (hbranch : s.branch node = node :: s.branch (t.prevBlock node)) :
    getReorganizeNodes t node s =
      (([], []), s.setAll (s.undecided node) statusInvalidAncestor) := by
  unfold getReorganizeNodes
  by_cases hprev : s.knownInvalid (t.prevBlock node) = true
  · have hself : s.knownInvalid node = false := by simpa [hprev] using hnode
    have hund : s.undecided node = [node] := by
      rw [undecided, hbranch, branch]
      simp [hself, hprev]
    simp [hprev, hund, setAll]
  · have hcut : (side.takeWhile fun n => !s.knownInvalid n).length < side.length := by
      refine lt_of_le_of_ne (takeWhile_sublist _).length_le fun hlen => hopen ?_
      have hall := takeWhile_eq_self_iff.1
        ((takeWhile_sublist fun n => !s.knownInvalid n).eq_of_length hlen)
      refine ⟨by simpa using hprev, fun x hx => ?_⟩
      rw [sideOf, hf.takeWhile_notMem] at hx
      simpa using hall x hx
    have hund : s.undecided node = side.takeWhile fun n => !s.knownInvalid n := by
      rw [undecided, hf.left, takeWhile_append, if_neg hcut.ne]
    simp [hprev, findFork_eq hf, above_branch hf, hcut, hund]

def Passes (rules : ChainRules) (s : ChainState) (n : Hash) : Prop :=
  (s.status n).haveData = true ∧
    (if (s.status n).knownValid then rules.recheck (s.branch n) else rules.connect (s.branch n)) =
      none

lemma setStatusFlags_valid_of_valid (hn : (s.status n).knownValid = true) :
    s.setStatusFlags n statusValid = s := by
  rw [setStatusFlags, set_valid_of_valid _ hn, Function.update_eq_self]

lemma verifyAttach_cons_of_passes (hn : s.Passes rules n) :
    verifyAttach rules (n :: later) s = verifyAttach rules later (s.setStatusFlags n statusValid) := by
  obtain ⟨hdata, hverdict⟩ := hn
  rw [verifyAttach, if_neg (by simp [hdata])]
  by_cases hvalid : (s.status n).knownValid = true
  · rw [if_pos hvalid] at hverdict
    simp [hvalid, hverdict, setStatusFlags_valid_of_valid]
  · rw [if_neg hvalid] at hverdict
    simp [hvalid, hverdict]

lemma passes_setStatusFlags (hne : n ≠ x) (flags : BlockStatus) :
    (s.setStatusFlags x flags).Passes rules n ↔ s.Passes rules n := by
  simp [Passes, status_setStatusFlags, hne]

/-- The state that a failed check leaves: the nodes below the failing one are valid, and that one
is marked with those above it if it was checked for the first time. -/
inductive Rejects (rules : ChainRules) (s : ChainState) (attach : List Hash) : Err → ChainState → Prop
  | noData {b a : List Hash} {n : Hash} (hattach : attach = b ++ n :: a)
      (hbelow : ∀ x ∈ b, s.Passes rules x) (hdata : (s.status n).haveData = false) :
      Rejects rules s attach (.blockNotFound ("block " ++ toString n ++ " does not exist"))
        (s.setAll b statusValid)
  | recheck {b a : List Hash} {n : Hash} {e : RuleError}
      (hattach : attach = b ++ n :: a) (hbelow : ∀ x ∈ b, s.Passes rules x)
      (hvalid : (s.status n).knownValid = true) (he : rules.recheck (s.branch n) = some e) :
      Rejects rules s attach e.err (s.setAll b statusValid)
  | connect {b a : List Hash} {n : Hash} {e : RuleError}
      (hattach : attach = b ++ n :: a) (hbelow : ∀ x ∈ b, s.Passes rules x)
      (hdata : (s.status n).haveData = true) (hvalid : (s.status n).knownValid = false)
      (he : rules.connect (s.branch n) = some e) :
      Rejects rules s attach e.err
        (((s.setAll b statusValid).setStatusFlags n statusValidateFailed).setAll a
          statusInvalidAncestor)

lemma Rejects.marks (hrej : s.Rejects rules attach e s') (hold : s.knownInvalid x = false)
    (hnew : s'.knownInvalid x = true) : ∃ b n a, attach = b ++ n :: a ∧ x ∈ n :: a ∧
      (s.status n).haveData = true ∧ rules.connect (s.branch n) ≠ none ∧
        ∀ y ∈ n :: a, s'.knownInvalid y = true := by
  have hvalid (xs : List Hash) : ¬ (s.setAll xs statusValid).knownInvalid x = true := by
    rw [knownInvalid_setAll_valid, hold]
    exact Bool.false_ne_true
  cases hrej with
  | noData | recheck => exact absurd hnew (hvalid _)
  | @connect b a n e hattach _ hdata _ he =>
    refine ⟨b, n, a, hattach, ?_, hdata, by simp [he], fun y hy => ?_⟩
    · by_contra hnot
      rw [mem_cons, not_or] at hnot
      rw [knownInvalid, status_setAll, if_neg hnot.2, status_setStatusFlags, if_neg hnot.1] at hnew
      exact hvalid b hnew
    · rw [knownInvalid, status_setAll]
      split_ifs with ha
      · exact knownInvalid_set_invalidAncestor _
      · rw [status_setStatusFlags, if_pos ((mem_cons.1 hy).resolve_right ha)]
        exact knownInvalid_set_validateFailed _

lemma sideOf_of_reverse (h : (s.sideOf node).reverse = b ++ n :: a) :
    s.sideOf node = a.reverse ++ n :: b.reverse ∧ ∃ l, s.branch node = a.reverse ++ n :: l := by
  have hrev : s.sideOf node = a.reverse ++ n :: b.reverse := by
    rw [← reverse_reverse (s.sideOf node), h]
    simp
  have hl : s.branch node = s.sideOf node ++ _ := takeWhile_append_dropWhile.symm
  rw [hrev, append_assoc] at hl
  exact ⟨hrev, _, hl⟩

lemma Rejects.cons (hn : s.Passes rules n) (hnotMem : n ∉ later)
    (h : (s.setStatusFlags n statusValid).Rejects rules later e s') :
    s.Rejects rules (n :: later) e s' := by
  have hbelow {below : List Hash} (hsub : ∀ x ∈ below, x ∈ later)
      (hpass : ∀ x ∈ below, (s.setStatusFlags n statusValid).Passes rules x) :
      ∀ x ∈ n :: below, s.Passes rules x := by
    refine forall_mem_cons.2 ⟨hn, fun x hx => ?_⟩
    have hne : x ≠ n := fun h => hnotMem (h ▸ hsub x hx)
    exact (passes_setStatusFlags hne _).1 (hpass x hx)
  have hstatus {x : Hash} (hx : x ∈ later) :
      (s.setStatusFlags n statusValid).status x = s.status x := by
    rw [status_setStatusFlags, if_neg fun hxn : x = n => hnotMem (hxn ▸ hx)]
  cases h with
  | noData hattach hpass hdata =>
    subst hattach
    rw [hstatus (by simp)] at hdata
    exact .noData (b := n :: _) rfl (hbelow (by simp +contextual) hpass) hdata
  | recheck hattach hpass hvalid he =>
    subst hattach
    rw [hstatus (by simp)] at hvalid
    exact .recheck (b := n :: _) rfl (hbelow (by simp +contextual) hpass) hvalid he
  | connect hattach hpass hdata hvalid he =>
    subst hattach
    rw [hstatus (by simp)] at hvalid hdata
    exact .connect (b := n :: _) rfl (hbelow (by simp +contextual) hpass) hdata hvalid he

lemma verifyAttach_cases : ∀ attach {s : ChainState}, attach.Nodup →
    (∀ n ∈ attach, s.Passes rules n) ∧
        verifyAttach rules attach s = (.ok (), s.setAll attach statusValid) ∨
      ∃ e s', s.Rejects rules attach e s' ∧ verifyAttach rules attach s = (.error e, s')
  | [], _, _ => .inl ⟨by simp, rfl⟩
  | n :: later, s, hnodup => by
    obtain ⟨hnotMem, hnodup⟩ := nodup_cons.1 hnodup
    by_cases hn : s.Passes rules n
    · rw [verifyAttach_cons_of_passes hn]
      rcases verifyAttach_cases later hnodup (s := s.setStatusFlags n statusValid) with
        ⟨hpass, heq⟩ | ⟨e, s', hrej, heq⟩
      · refine .inl ⟨forall_mem_cons.2 ⟨hn, fun x hx => ?_⟩, heq⟩
        have hne : x ≠ n := fun h => hnotMem (h ▸ hx)
        exact (passes_setStatusFlags hne _).1 (hpass x hx)
      · exact .inr ⟨e, s', .cons hn hnotMem hrej, heq⟩
    · refine .inr ?_
      rw [Passes, not_and] at hn
      rw [verifyAttach]
      cases hdata : (s.status n).haveData with
      | false => exact ⟨_, _, .noData (b := []) rfl (by simp) hdata, rfl⟩
      | true =>
        have hverdict := hn hdata
        cases hvalid : (s.status n).knownValid with
        | true =>
          rw [hvalid, if_pos rfl] at hverdict
          obtain ⟨e, he⟩ := Option.ne_none_iff_exists'.1 hverdict
          exact ⟨e.err, _, .recheck (b := []) rfl (by simp) hvalid he, by simp [he, setAll]⟩
        | false =>
          rw [hvalid, if_neg Bool.false_ne_true] at hverdict
          obtain ⟨e, he⟩ := Option.ne_none_iff_exists'.1 hverdict
          exact ⟨e.err, _, .connect (b := []) rfl (by simp) hdata hvalid he, by simp [he, setAll]⟩

lemma runAll_append {f : ι → σ → Result Unit × σ} : ∀ {is} {s s'}, runAll f is s = (.ok (), s') →
      ∀ js, runAll f (is ++ js) s = runAll f js s'
  | [], _, _, h, _ => by
    cases h
    rfl
  | i :: is, s, s', h, js => by
    rw [cons_append, runAll]
    rw [runAll] at h
    rcases hi : f i s with ⟨r, s1⟩
    rw [hi] at h
    cases r with
    | error e => cases h
    | ok u => exact runAll_append h js

lemma runAll_disconnectBlock : ∀ detach {r : List Hash} {s : ChainState},
    s.bestChain = detach ++ r →
    runAll disconnectBlock detach s = (.ok (), { s with bestChain := r })
  | [], r, s, h => by
    rw [nil_append] at h
    rw [runAll, ← h]
  | n :: detach, r, s, h => by
    rw [runAll, disconnectBlock, if_pos (by rw [h]; rfl)]
    simp only
    rw [runAll_disconnectBlock detach (r := r) (by rw [h]; rfl)]

lemma runAll_connectBlock : ∀ side {s : ChainState},
    s.bestChain = f :: m → t.Branch (side ++ f :: m) →
    runAll (connectBlock t) side.reverse s = (.ok (), { s with bestChain := side ++ f :: m })
  | [], s, h, _ => by
    rw [reverse_nil, runAll, nil_append, ← h]
  | n :: side, s, h, hb => by
    have hlow := runAll_connectBlock side h (by cases side <;> exact hb.tail.2.2)
    have hparent : (side ++ f :: m).head? = some (t.prevBlock n) := by
      cases side <;> exact congrArg some hb.tail.2.1
    rw [reverse_cons, runAll_append hlow, runAll, connectBlock, if_pos hparent]
    rfl

section

variable {side detach m : List Hash} {f : Hash} (w : s.Wf t) (hnode : node ∈ s.nodes)
  (hf : Fork (s.branch node) s.bestChain side detach f m)

include w hnode hf

lemma verifyReorganizationValidity_eq (hside : side ≠ []) :
    verifyReorganizationValidity t rules detach side.reverse s =
      verifyAttach rules side.reverse s := by
  have hbranch : t.Branch (side ++ f :: m) := hf.left ▸ w.branch node hnode
  have hbest : t.Branch (detach ++ f :: m) := hf.right ▸ w.best
  rw [verifyReorganizationValidity, if_neg (by simp [hside]), if_neg, if_neg]
  · rintro ⟨-, hdetach, hne⟩
    rw [List.head?_reverse, hbranch.parent_getLast? hside, hbest.parent_getLast? hdetach] at hne
    exact hne rfl
  · rintro ⟨hdetach, hne⟩
    rw [hf.right, List.head?_append_of_ne_nil _ hdetach] at hne
    exact hne rfl

lemma nodup_side : side.reverse.Nodup := by
  have hnodup := (w.branch node hnode).nodup
  rw [hf.left] at hnodup
  exact nodup_reverse.2 (nodup_append.1 hnodup).1

/-- A reorganization to the branch of a node either checks all blocks that are new on the chain and
moves to it, or fails at the first that does not pass and leaves the chain. -/
theorem reorganizeChain_cases (hside : side ≠ []) :
    (∀ n ∈ side, s.Passes rules n) ∧ reorganizeChain t rules detach side.reverse s =
        (.ok (), { s.setAll side.reverse statusValid with bestChain := s.branch node }) ∨
      ∃ e s', s.Rejects rules side.reverse e s' ∧
        reorganizeChain t rules detach side.reverse s = (.error e, s') := by
  have hbranch : t.Branch (side ++ f :: m) := hf.left ▸ w.branch node hnode
  rw [reorganizeChain, verifyReorganizationValidity_eq w hnode hf hside]
  rcases @verifyAttach_cases rules side.reverse s (nodup_side w hnode hf) with
    ⟨hpass, heq⟩ | ⟨e, s', hrej, heq⟩
  · refine .inl ⟨fun n hn => hpass n (mem_reverse.2 hn), ?_⟩
    rw [heq]
    simp only
    rw [runAll_disconnectBlock detach (r := f :: m) (by rw [setAll_bestChain, hf.right])]
    simp only
    rw [runAll_connectBlock side rfl hbranch, hf.left]
  · exact .inr ⟨e, s', hrej, by rw [heq]⟩

end

lemma Wf.mem_sideOf_or (w : s.Wf t) (hx : x ∈ s.nodes) (hy : y ∈ s.branch x) :
    y ∈ s.sideOf x ∨ y ∈ s.bestChain := by
  obtain ⟨side, detach, f, m, hf⟩ := w.best.exists_fork (w.branch x hx)
  rw [sideOf, hf.takeWhile_notMem]
  rw [hf.left, mem_append] at hy
  exact hy.imp_right fun hy => hf.right ▸ mem_append_right _ hy

lemma Wf.open_of_live (w : s.Wf t) (hx : x ∈ s.nodes) (hne : x ≠ t.genesis) (hlive : s.Live x) :
    s.Open t x :=
  ⟨hlive _ (w.prev_mem_branch hx hne), fun y hy => hlive y (mem_sideOf hy).1⟩

/-- If the best chain is clean, an invalid ancestor is above the fork. -/
theorem Wf.open_iff_live (w : s.Wf t) (hnode : node ∈ s.nodes) (hne : node ≠ t.genesis)
    (hclean : ∀ x ∈ s.bestChain, s.knownInvalid x = false) : s.Open t node ↔ s.Live node := by
  refine ⟨fun hopen y hy => ?_, w.open_of_live hnode hne⟩
  exact (w.mem_sideOf_or hnode hy).elim (hopen.2 y) (hclean y)

/-- The rule that a block on the tip breaks: only some are checked of a block that is added fast or
known to be valid. -/
def tipVerdict (rules : ChainRules) (fastAdd : Bool) (s : ChainState) (node : Hash) :
    Option RuleError :=
  if fastAdd || (s.status node).knownValid then
    (rules.airdrops (s.branch node)).or (rules.names (s.branch node))
  else rules.connect (s.branch node)

inductive Connects (t : BlockTree) (rules : ChainRules) (fastAdd : Bool) (node : Hash)
    (s : ChainState) : Result Bool → ChainState → Prop
  | refused {e : RuleError} (hprev : s.bestChain.head? = some (t.prevBlock node))
      (he : s.tipVerdict rules fastAdd node = some e) :
      Connects t rules fastAdd node s (.error e.err) (s.setStatusFlags node statusValidateFailed)
  | unspent {e : Err} (hfast : (fastAdd || (s.status node).knownValid) = true)
      (he : rules.spends (s.branch node) = some e) : Connects t rules fastAdd node s (.error e) s
  | extended (hprev : s.bestChain.head? = some (t.prevBlock node))
      (hverdict : s.tipVerdict rules fastAdd node = none) :
      Connects t rules fastAdd node s (.ok true)
        { s.setStatusFlags node statusValid with bestChain := node :: s.bestChain }
  | side (hprev : s.bestChain.head? ≠ some (t.prevBlock node))
      (hwork : t.workSum (s.branch node) ≤ t.workSum s.bestChain) :
      Connects t rules fastAdd node s (.ok false) s
  | dropped (hprev : s.bestChain.head? ≠ some (t.prevBlock node))
      (hwork : t.workSum s.bestChain < t.workSum (s.branch node)) (hlive : ¬ s.Live node) :
      Connects t rules fastAdd node s (.ok true)
        (s.setAll (s.undecided node) statusInvalidAncestor)
  | failed {e : Err} {s' : ChainState} (hprev : s.bestChain.head? ≠ some (t.prevBlock node))
      (hwork : t.workSum s.bestChain < t.workSum (s.branch node)) (hlive : s.Live node)
      (hrej : s.Rejects rules (s.sideOf node).reverse e s') :
      Connects t rules fastAdd node s (.error e) s'
  | reorganized (hprev : s.bestChain.head? ≠ some (t.prevBlock node))
      (hwork : t.workSum s.bestChain < t.workSum (s.branch node)) (hlive : s.Live node)
      (hpass : ∀ n ∈ s.sideOf node, s.Passes rules n) :
      Connects t rules fastAdd node s (.ok true)
        { s.setAll (s.sideOf node).reverse statusValid with bestChain := s.branch node }

lemma connectTip_connects (hprev : s.bestChain.head? = some (t.prevBlock node)) :
    Connects t rules fastAdd node s (connectTip t rules fastAdd node s).1
      (connectTip t rules fastAdd node s).2 := by
  unfold connectTip
  by_cases hfast : (fastAdd || (s.status node).knownValid) = true
  · have hv : s.tipVerdict rules fastAdd node = _ := if_pos hfast
    simp only [hfast, if_true]
    cases ha : rules.airdrops (s.branch node) with
    | some e => exact .refused hprev (by rw [hv, ha, Option.some_or])
    | none =>
      rw [ha, Option.none_or] at hv
      cases hs : rules.spends (s.branch node) with
      | some e => exact .unspent hfast hs
      | none =>
        cases hn : rules.names (s.branch node) with
        | some e => exact .refused hprev (hv.trans hn)
        | none =>
          simp only [connectBlock, if_pos hprev]
          exact .extended hprev (hv.trans hn)
  · have hv : s.tipVerdict rules fastAdd node = _ := if_neg hfast
    simp only [hfast]
    cases hc : rules.connect (s.branch node) with
    | some e => exact .refused hprev (hv.trans hc)
    | none =>
      simp only [rules.spends_of_connect hc, rules.names_of_connect hc, connectBlock]
      convert Connects.extended hprev (hv.trans hc) using 1 <;>
        simp [setStatusFlags, hprev]

lemma connectBestChain_connects (rules : ChainRules) (w : s.Wf t) (hnode : node ∈ s.nodes)
    (hne : node ≠ t.genesis) (hclean : ∀ x ∈ s.bestChain, s.knownInvalid x = false)
    (hself : s.knownInvalid node = false) (fastAdd : Bool) :
    Connects t rules fastAdd node s (connectBestChain t rules fastAdd node s).1
      (connectBestChain t rules fastAdd node s).2 := by
  rw [connectBestChain]
  split_ifs with hprev hwork
  · exact connectTip_connects hprev
  · exact .side hprev hwork
  · rw [not_le] at hwork
    have hbranch := (w.branch_of_ne hnode hne).1
    obtain ⟨side, detach, f, m, hf⟩ := w.best.exists_fork (w.branch node hnode)
    by_cases hlive : s.Live node
    · have hsideOf : s.sideOf node = side := hf.takeWhile_notMem
      have hside : side ≠ [] := by
        rintro rfl
        refine hwork.not_ge ?_
        rw [hf.left, hf.right, nil_append, BlockTree.workSum, BlockTree.workSum,
          map_append, sum_append]
        omega
      rw [getReorganizeNodes_of_open hf ((w.open_iff_live hnode hne hclean).2 hlive)]
      rcases @reorganizeChain_cases t rules s node side detach m f w hnode hf hside with
        ⟨hpass, heq⟩ | ⟨e, s', hrej, heq⟩
      · simp only [heq]
        rw [← hsideOf] at hpass ⊢
        exact .reorganized hprev hwork hlive hpass
      · simp only [heq]
        exact .failed hprev hwork hlive (hsideOf ▸ hrej)
    · have hopen : ¬ s.Open t node := fun h => hlive ((w.open_iff_live hnode hne hclean).1 h)
      rw [getReorganizeNodes_of_not_open hf hopen (.inl hself) hbranch]
      exact .dropped hprev hwork hlive

structure SameTree (s s' : ChainState) : Prop where
  nodes : s'.nodes = s.nodes
  bestHeader : s'.bestHeader = s.bestHeader
  orphans : s'.orphans = s.orphans
  prevOrphans : s'.prevOrphans = s.prevOrphans

lemma SameTree.trans (h : SameTree s s₁) (h' : SameTree s₁ s') : SameTree s s' where
  nodes := h'.nodes.trans h.nodes
  bestHeader := h'.bestHeader.trans h.bestHeader
  orphans := h'.orphans.trans h.orphans
  prevOrphans := h'.prevOrphans.trans h.prevOrphans

lemma sameTree_setAll (s : ChainState) (xs : List Hash) (flags : BlockStatus) :
    SameTree s (s.setAll xs flags) := by
  rw [setAll_eq]
  exact ⟨rfl, rfl, rfl, rfl⟩

lemma Rejects.sameTree (h : s.Rejects rules attach e s') : SameTree s s' := by
  cases h with
  | noData | recheck => exact sameTree_setAll s _ _
  | connect =>
    rw [setAll_eq, setAll_eq]
    exact ⟨rfl, rfl, rfl, rfl⟩

lemma Rejects.bestChain (h : s.Rejects rules attach e s') : s'.bestChain = s.bestChain := by
  cases h <;> simp

lemma Connects.sameTree (h : Connects t rules fastAdd node s r s') : SameTree s s' := by
  cases h with
  | refused | unspent | extended | side => exact ⟨rfl, rfl, rfl, rfl⟩
  | dropped => exact sameTree_setAll s _ _
  | failed _ _ _ hrej => exact hrej.sameTree
  | reorganized =>
    rw [setAll_eq]
    exact ⟨rfl, rfl, rfl, rfl⟩

/-- Flags are set on some of the nodes only, and none is taken back that makes a node invalid. -/
structure FlagsSet (marked : List Hash) (s s' : ChainState) : Prop where
  haveData : ∀ x, (s'.status x).haveData = (s.status x).haveData
  knownInvalid : ∀ x, s.knownInvalid x = true → s'.knownInvalid x = true
  off : ∀ x ∉ marked, s'.status x = s.status x

namespace FlagsSet

lemma refl (marked : List Hash) (s : ChainState) : FlagsSet marked s s :=
  ⟨fun _ => rfl, fun _ => id, fun _ _ => rfl⟩

lemma trans (h : FlagsSet marked s s1) (h' : FlagsSet marked s1 s2) : FlagsSet marked s s2 where
  haveData x := (h'.haveData x).trans (h.haveData x)
  knownInvalid x hx := h'.knownInvalid x (h.knownInvalid x hx)
  off x hx := (h'.off x hx).trans (h.off x hx)

lemma mono (h : FlagsSet marked s s') (hsub : marked ⊆ marked') : FlagsSet marked' s s' :=
  { h with off := fun x hx => h.off x fun hmem => hx (hsub hmem) }

lemma live (h : FlagsSet marked s s') (hnodes : s'.nodes = s.nodes) (hlive : s'.Live x) :
    s.Live x := by
  intro y hy
  by_contra hinv
  rw [Bool.not_eq_false] at hinv
  have hfalse := hlive y (branch_congr hnodes x ▸ hy)
  rw [h.knownInvalid y hinv] at hfalse
  cases hfalse

lemma setAll (s : ChainState) (xs : List Hash) (flags : BlockStatus)
    (hflags : flags.dataStored = false) : FlagsSet xs s (s.setAll xs flags) := by
  refine ⟨fun x => ?_, fun x hx => ?_, fun x hx => ?_⟩
  · rw [status_setAll]
    split_ifs
    · exact haveData_set _ hflags
    · rfl
  · rw [ChainState.knownInvalid, status_setAll]
    split_ifs
    · exact knownInvalid_set _ _ hx
    · exact hx
  · rw [status_setAll, if_neg hx]

lemma setStatusFlags (s : ChainState) (x : Hash) (flags : BlockStatus)
    (hflags : flags.dataStored = false) : FlagsSet [x] s (s.setStatusFlags x flags) :=
  setAll s [x] flags hflags

end FlagsSet

lemma Rejects.flagsSet (h : s.Rejects rules attach e s') : FlagsSet attach s s' := by
  cases h with
  | noData hattach | recheck hattach =>
    exact (FlagsSet.setAll s _ _ rfl).mono (hattach ▸ subset_append_left _ _)
  | @connect b a n _ hattach =>
    subst hattach
    have hbelow : FlagsSet (b ++ n :: a) s (s.setAll b statusValid) :=
      (FlagsSet.setAll s b _ rfl).mono (subset_append_left _ _)
    have hself : FlagsSet (b ++ n :: a) (s.setAll b statusValid)
        ((s.setAll b statusValid).setStatusFlags n statusValidateFailed) :=
      (FlagsSet.setStatusFlags _ n _ rfl).mono (by simp)
    refine (hbelow.trans hself).trans ((FlagsSet.setAll _ a _ rfl).mono ?_)
    exact fun x hx => mem_append_right _ (mem_cons_of_mem _ hx)

lemma mem_sideOf_self (hnode : node ∉ s.bestChain) : node ∈ s.sideOf node := by
  rw [sideOf, branch, takeWhile_cons_of_pos (by simpa using hnode)]
  exact mem_cons_self

lemma Wf.undecided_subset (w : s.Wf t) (hnode : node ∈ s.nodes) (hoff : node ∉ s.bestChain)
    (hopen : ¬ s.Open t node) : s.undecided node ⊆ s.sideOf node := by
  have hne := w.ne_genesis hoff
  by_cases hprev : s.knownInvalid (t.prevBlock node) = true
  · intro y hy
    rw [undecided, (w.branch_of_ne hnode hne).1, ChainState.branch] at hy
    have hyn : y = node := by
      cases hself : s.knownInvalid node <;> simp_all
    rw [hyn]
    exact mem_sideOf_self hoff
  · obtain ⟨side, detach, f, m, hf⟩ := w.best.exists_fork (w.branch node hnode)
    have hsideOf : s.sideOf node = side := hf.takeWhile_notMem
    rw [hsideOf, undecided, hf.left, takeWhile_append]
    split_ifs with hlen
    · have hall := takeWhile_eq_self_iff.1 ((takeWhile_sublist _).eq_of_length hlen)
      exact absurd ⟨by simpa using hprev, fun x hx => by simpa using hall x (hsideOf ▸ hx)⟩ hopen
    · exact (takeWhile_sublist _).subset

lemma Wf.exists_knownInvalid_of_undecided (w : s.Wf t) (hx : x ∈ s.nodes) (hlive : ¬ s.Live x)
    (hy : y ∈ s.undecided x) : ∃ z ∈ s.branch y, z ∈ s.nodes ∧ s.knownInvalid z = true := by
  have hsplit : s.branch x = s.undecided x ++ (s.branch x).dropWhile fun z => !s.knownInvalid z :=
    takeWhile_append_dropWhile.symm
  cases hdrop : (s.branch x).dropWhile fun z => !s.knownInvalid z with
  | nil =>
    refine absurd (fun z hz => ?_) hlive
    simpa using dropWhile_eq_nil_iff.1 hdrop z hz
  | cons z l =>
    rw [hdrop] at hsplit
    refine ⟨z, w.mem_branch_of_append hx hsplit hy mem_cons_self,
      w.closed x hx z (by simp [hsplit]), ?_⟩
    have hhead := List.head?_dropWhile_not (fun z => !s.knownInvalid z) (s.branch x)
    rw [hdrop] at hhead
    simpa using hhead

lemma Connects.flagsSet (w : s.Wf t) (hmem : node ∈ s.nodes)
    (hclean : ∀ x ∈ s.bestChain, s.knownInvalid x = false) (hnode : node ∉ s.bestChain)
    (h : Connects t rules fastAdd node s r s') : FlagsSet (s.sideOf node) s s' := by
  have hself : [node] ⊆ s.sideOf node := cons_subset.2 ⟨mem_sideOf_self hnode, by simp⟩
  cases h with
  | refused => exact (FlagsSet.setStatusFlags s node _ rfl).mono hself
  | extended =>
    have h := (FlagsSet.setStatusFlags s node statusValid rfl).mono hself
    exact ⟨h.haveData, h.knownInvalid, h.off⟩
  | unspent | side => exact .refl _ s
  | dropped _ _ hlive =>
    have hne := w.ne_genesis hnode
    exact (FlagsSet.setAll s _ _ rfl).mono (w.undecided_subset hmem hnode
      fun h => hlive ((w.open_iff_live hmem hne hclean).1 h))
  | failed _ _ _ hrej => exact hrej.flagsSet.mono fun x hx => mem_reverse.1 hx
  | reorganized =>
    have h : FlagsSet (s.sideOf node) s _ :=
      (FlagsSet.setAll s (s.sideOf node).reverse statusValid rfl).mono fun x hx =>
        mem_reverse.1 hx
    exact ⟨h.haveData, h.knownInvalid, h.off⟩

lemma Connects.bestChain (w : s.Wf t) (hmem : node ∈ s.nodes) (hne : node ≠ t.genesis)
    (h : Connects t rules fastAdd node s r s') :
    s'.bestChain = s.bestChain ∨ s'.bestChain = s.branch node := by
  cases h with
  | refused | unspent | side => exact .inl rfl
  | extended hprev =>
    refine .inr ?_
    rw [(w.branch_of_ne hmem hne).1, (w.best_tip hprev).2]
  | dropped => exact .inl (setAll_bestChain s _ _)
  | failed _ _ _ hrej => exact .inl hrej.bestChain
  | reorganized => exact .inr rfl

end ChainState

end HandshakeNode
