import HandshakeNode.Chain

/-!
# The block index as a tree

In a well-formed index the branch of every node is the branch of the tree, and every block on it has
a node (`ChainState.Wf`). Flags leave the tree alone, so what changes a state is said by its flags,
its best chain and its pool.
-/

namespace HandshakeNode

open BlockStatus Trees List

namespace BlockStatus

variable (st : BlockStatus)

@[simp] lemma knownInvalid_set_dataStored :
    (st.set statusDataStored).knownInvalid = st.knownInvalid := by
  simp [set, knownInvalid, statusDataStored]

@[simp] lemma knownInvalid_set_valid : (st.set statusValid).knownInvalid = st.knownInvalid := by
  simp [set, knownInvalid, statusValid]

@[simp] lemma knownInvalid_set_validateFailed :
    (st.set statusValidateFailed).knownInvalid = true := by
  simp [set, knownInvalid, statusValidateFailed]

@[simp] lemma knownInvalid_set_invalidAncestor :
    (st.set statusInvalidAncestor).knownInvalid = true := by
  simp [set, knownInvalid, statusInvalidAncestor]

@[simp] lemma set_set (flags : BlockStatus) : (st.set flags).set flags = st.set flags := by
  simp [set]

lemma knownInvalid_set (flags : BlockStatus) (h : st.knownInvalid = true) :
    (st.set flags).knownInvalid = true := by
  rw [knownInvalid, Bool.or_eq_true] at h
  rcases h with h | h <;> simp [knownInvalid, set, h]

lemma haveData_set (h : flags.dataStored = false) : (st.set flags).haveData = st.haveData := by
  simp [haveData, set, h]

lemma set_valid_of_valid (h : st.valid = true) : st.set statusValid = st := by
  cases st
  simp_all [set, statusValid]

end BlockStatus

namespace ChainState

variable {t : BlockTree} {s : ChainState}

section

variable (s) (x : Hash) (flags : BlockStatus)

@[simp] lemma setStatusFlags_bestChain :
    (s.setStatusFlags x flags).bestChain = s.bestChain := rfl

@[simp] lemma branch_setStatusFlags (y : Hash) :
    (s.setStatusFlags x flags).branch y = s.branch y := rfl

lemma status_setStatusFlags (y : Hash) :
    (s.setStatusFlags x flags).status y =
      if y = x then (s.status y).set flags else s.status y := by
  unfold setStatusFlags
  by_cases hy : y = x
  · subst hy
    simp
  · simp [hy]

variable (xs : List Hash)

lemma setAll_eq : s.setAll xs flags = { s with status := (s.setAll xs flags).status } := by
  induction xs generalizing s with
  | nil => rfl
  | cons x xs ih => exact ih (s.setStatusFlags x flags)

@[simp] lemma setAll_nodes : (s.setAll xs flags).nodes = s.nodes := by
  rw [setAll_eq]

@[simp] lemma setAll_bestChain : (s.setAll xs flags).bestChain = s.bestChain := by
  rw [setAll_eq]

@[simp] lemma branch_setAll (y : Hash) : (s.setAll xs flags).branch y = s.branch y := by
  simp [branch]

lemma status_setAll (y : Hash) :
    (s.setAll xs flags).status y =
      if y ∈ xs then (s.status y).set flags else s.status y := by
  induction xs generalizing s with
  | nil => simp [setAll]
  | cons x xs ih =>
    have hstep : s.setAll (x :: xs) flags = (s.setStatusFlags x flags).setAll xs flags := rfl
    rw [hstep, ih, status_setStatusFlags]
    by_cases hy : y = x
    · by_cases hmem : y ∈ xs <;> simp [hy]
    · simp [hy]

@[simp] lemma knownInvalid_setAll_valid (y : Hash) :
    (s.setAll xs statusValid).knownInvalid y = s.knownInvalid y := by
  rw [knownInvalid, status_setAll]
  split_ifs
  · exact knownInvalid_set_valid _
  · rfl

end

lemma knownValid_of_setAll {l : List Hash} (h : ((s.setAll l flags).status y).knownValid = true)
    (hflags : flags.valid = false) : (s.status y).knownValid = true := by
  rw [status_setAll] at h
  split_ifs at h
  · simpa [BlockStatus.knownValid, BlockStatus.set, hflags] using h
  · exact h

structure Wf (t : BlockTree) (s : ChainState) : Prop where
  genesis : t.genesis ∈ s.nodes
  branch : ∀ x ∈ s.nodes, t.Branch (s.branch x)
  closed : ∀ x ∈ s.nodes, ∀ y ∈ s.branch x, y ∈ s.nodes
  best : t.Branch s.bestChain
  best_mem : ∀ x ∈ s.bestChain, x ∈ s.nodes
  header : t.Branch s.bestHeader
  header_mem : ∀ x ∈ s.bestHeader, x ∈ s.nodes

@[simp] lemma mem_branch_self (s : ChainState) (x : Hash) : x ∈ s.branch x :=
  mem_cons_self

lemma branch_congr {s' : ChainState} (hnodes : s'.nodes = s.nodes) (x : Hash) :
    s'.branch x = s.branch x := by
  rw [branch, branch, hnodes]

lemma branch_addNode (hx : x ∉ s.nodes) (l : List Hash) (st : BlockStatus) (hy : y ∈ s.nodes) :
    (s.addNode x l st).branch y = s.branch y := by
  have hne : y ≠ x := fun h => hx (h ▸ hy)
  simp [branch, addNode, Finmap.lookup_insert_of_ne _ hne]

lemma branch_addNode_self (s : ChainState) (x : Hash) (l : List Hash) (st : BlockStatus) :
    (s.addNode x l st).branch x = x :: l := by
  simp [branch, addNode]

lemma mem_addNode : y ∈ (s.addNode x l st).nodes ↔ y = x ∨ y ∈ s.nodes := by
  simp [addNode]

namespace Wf

section

variable (w : s.Wf t)
include w

lemma ne_genesis (h : x ∉ s.bestChain) : x ≠ t.genesis := fun hg => h (hg ▸ w.best.root_mem)

lemma branch_eq (hx : x ∈ s.nodes) (hl : t.Branch (x :: l)) : s.branch x = x :: l :=
  congrArg (x :: ·) ((w.branch x hx).unique hl)

lemma exists_append (hl : t.Branch l) (hx : x ∈ l) (hmem : x ∈ s.nodes) :
    ∃ p, l = p ++ s.branch x := by
  obtain ⟨p, m, rfl, hm⟩ := hl.exists_append hx
  exact ⟨p, by rw [w.branch_eq hmem hm]⟩

lemma branch_append (hx : x ∈ s.nodes) (hy : y ∈ s.branch x) : ∃ p, s.branch x = p ++ s.branch y :=
  w.exists_append (w.branch x hx) hy (w.closed x hx y hy)

lemma branch_subset (hx : x ∈ s.nodes) (hy : y ∈ s.branch x) : s.branch y ⊆ s.branch x := by
  obtain ⟨p, hp⟩ := w.branch_append hx hy
  rw [hp]
  exact subset_append_right p _

lemma best_subset (hy : y ∈ s.bestChain) : s.branch y ⊆ s.bestChain := by
  obtain ⟨p, hp⟩ := w.exists_append w.best hy (w.best_mem y hy)
  rw [hp]
  exact subset_append_right p _

lemma branch_of_ne (hx : x ∈ s.nodes) (hne : x ≠ t.genesis) :
    s.branch x = x :: s.branch (t.prevBlock x) ∧ t.prevBlock x ∈ s.nodes := by
  have hb := w.branch x hx
  rw [ChainState.branch] at hb
  cases hl : (s.nodes.lookup x).getD [] with
  | nil =>
    rw [hl] at hb
    cases hb
    exact absurd rfl hne
  | cons y l =>
    rw [hl] at hb
    obtain ⟨-, rfl, htail⟩ := hb.tail
    have hmem : t.prevBlock x ∈ s.nodes := by
      refine w.closed x hx _ ?_
      simp [ChainState.branch, hl]
    exact ⟨by rw [w.branch_eq hmem htail, ChainState.branch, hl], hmem⟩

lemma prev_mem_branch (hx : x ∈ s.nodes) (hne : x ≠ t.genesis) : t.prevBlock x ∈ s.branch x := by
  rw [(w.branch_of_ne hx hne).1]
  exact mem_cons_of_mem _ (mem_branch_self _ _)

lemma best_tip (htip : s.bestChain.head? = some tip) :
    tip ∈ s.nodes ∧ s.branch tip = s.bestChain := by
  obtain ⟨l, hl⟩ := List.head?_eq_some_iff.1 htip
  have hmem : tip ∈ s.nodes := w.best_mem tip (hl ▸ mem_cons_self)
  exact ⟨hmem, by rw [hl, w.branch_eq hmem (hl ▸ w.best)]⟩

end

lemma congr {s' : ChainState} (w : s.Wf t) (hnodes : s'.nodes = s.nodes)
    (hbest : s'.bestChain = s.bestChain) (hheader : s'.bestHeader = s.bestHeader) : s'.Wf t where
  genesis := hnodes ▸ w.genesis
  branch x hx := branch_congr hnodes x ▸ w.branch x (hnodes ▸ hx)
  closed x hx y hy := hnodes ▸ w.closed x (hnodes ▸ hx) y (branch_congr hnodes x ▸ hy)
  best := hbest ▸ w.best
  best_mem x hx := hnodes ▸ w.best_mem x (hbest ▸ hx)
  header := hheader ▸ w.header
  header_mem x hx := hnodes ▸ w.header_mem x (hheader ▸ hx)

lemma setBest (w : s.Wf t) (hx : x ∈ s.nodes) : Wf t { s with bestChain := s.branch x } :=
  { w with best := w.branch x hx, best_mem := w.closed x hx }

/-- Above a block of a branch there are only blocks that have it among their ancestors. -/
theorem mem_branch_of_append (w : s.Wf t) (hx : x ∈ s.nodes)
    (hbranch : s.branch x = p ++ l) (hy : y ∈ p) (hz : z ∈ l) : z ∈ s.branch y := by
  obtain ⟨q, r, rfl⟩ := append_of_mem hy
  have hyb : t.Branch (y :: (r ++ l)) := by
    have hb := w.branch x hx
    rw [hbranch, append_assoc] at hb
    exact hb.of_append
  have hmem : y ∈ s.nodes := w.closed x hx y (by simp [hbranch])
  rw [w.branch_eq hmem hyb]
  exact mem_cons_of_mem _ (mem_append_right _ hz)

end Wf

structure Grown (t : BlockTree) (x : Hash) (s s₁ : ChainState) : Prop where
  mem_nodes : ∀ y, y ∈ s₁.nodes ↔ y = x ∨ y ∈ s.nodes
  branch_self : s₁.branch x = x :: s.branch (t.prevBlock x)
  branch_of_mem : ∀ y ∈ s.nodes, s₁.branch y = s.branch y
  bestChain : s₁.bestChain = s.bestChain
  bestHeader : s₁.bestHeader = s.bestHeader
  orphans : s₁.orphans = s.orphans
  prevOrphans : s₁.prevOrphans = s.prevOrphans

lemma Grown.mem_self (g : Grown t x s s₁) : x ∈ s₁.nodes := (g.mem_nodes x).2 (.inl rfl)

lemma grown_addNode (hx : x ∉ s.nodes) (st : BlockStatus) :
    Grown t x s (s.addNode x (s.branch (t.prevBlock x)) st) :=
  ⟨fun _ => mem_addNode, branch_addNode_self _ _ _ _, fun _ hy => branch_addNode hx _ _ hy, rfl, rfl,
    rfl, rfl⟩

lemma Wf.grown_self (w : s.Wf t) (hx : x ∈ s.nodes) (hne : x ≠ t.genesis) : Grown t x s s :=
  ⟨fun _ => ⟨.inr, fun hy => hy.elim (fun hy => hy ▸ hx) id⟩, (w.branch_of_ne hx hne).1,
    fun _ _ => rfl, rfl, rfl, rfl, rfl⟩

lemma Grown.wf (g : Grown t x s s1) (w : s.Wf t) (hne : x ≠ t.genesis)
    (hprev : t.prevBlock x ∈ s.nodes) : s1.Wf t := by
  refine ⟨(g.mem_nodes _).2 (.inr w.genesis), fun y hy => ?_, fun y hy z hz => ?_,
    g.bestChain ▸ w.best, fun y hy => (g.mem_nodes y).2 (.inr (w.best_mem y ?_)),
    g.bestHeader ▸ w.header, fun y hy => (g.mem_nodes y).2 (.inr (w.header_mem y ?_))⟩
  · rcases (g.mem_nodes y).1 hy with rfl | hy
    · rw [g.branch_self]
      exact .cons hne (w.branch _ hprev)
    · rw [g.branch_of_mem y hy]
      exact w.branch y hy
  · rw [g.mem_nodes]
    rcases (g.mem_nodes y).1 hy with rfl | hy
    · rw [g.branch_self] at hz
      exact (mem_cons.1 hz).imp_right (w.closed _ hprev z)
    · rw [g.branch_of_mem y hy] at hz
      exact .inr (w.closed y hy z hz)
  · exact g.bestChain ▸ hy
  · exact g.bestHeader ▸ hy

section

variable (hf : Fork (s.branch x) s.bestChain side detach f m)
include hf

lemma findFork_eq : findFork s.bestChain (s.branch x) = some f := by
  rw [findFork, hf.dropWhile]
  rfl

lemma above_branch : above (some f) (s.branch x) = side := by
  simpa [above] using hf.takeWhile_left

lemma above_bestChain : above (some f) s.bestChain = detach := by
  simpa [above] using hf.takeWhile_right

end

end ChainState

end HandshakeNode
