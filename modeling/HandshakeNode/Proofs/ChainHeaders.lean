import HandshakeNode.Proofs.BestChain

/-!
# Headers

A header that is accepted gets a node without data, unless it has one (`Headed`), and may become the
tip of the best header chain (`Heads`). Nothing that is said about stored blocks changes.
-/

namespace HandshakeNode

open BlockStatus

namespace ChainState

variable {t : BlockTree} {s s₁ : ChainState} {hash : Hash}

structure Headed (t : BlockTree) (hash : Hash) (s s₁ : ChainState) : Prop
    extends Grown t hash s s₁ where
  status_of_mem : ∀ x ∈ s.nodes, s₁.status x = s.status x
  status_new : hash ∉ s.nodes → s₁.status hash = statusHeaderStored

inductive Heads (t : BlockTree) (hash : Hash) (s : ChainState) : Result Bool → ChainState → Prop
  | refused (e : Err) : Heads t hash s (.error e) s
  | known (hprev : s.knownInvalid (t.prevBlock hash) = false) (hself : s.knownInvalid hash = false)
      (hmem : hash ∈ s.bestHeader) : Heads t hash s (.ok true) s
  | side {s₁ : ChainState} (hparent : t.prevBlock hash ∈ s.nodes)
      (hprev : s.knownInvalid (t.prevBlock hash) = false)
      (hself : hash ∈ s.nodes → s.knownInvalid hash = false) (hne : hash ≠ t.genesis)
      (hh : Headed t hash s s₁) : Heads t hash s (.ok false) s₁
  | best {s₁ : ChainState} (hparent : t.prevBlock hash ∈ s.nodes)
      (hprev : s.knownInvalid (t.prevBlock hash) = false)
      (hself : hash ∈ s.nodes → s.knownInvalid hash = false) (hne : hash ≠ t.genesis)
      (hh : Headed t hash s s₁) :
      Heads t hash s (.ok true) { s₁ with bestHeader := s₁.branch hash }

lemma Wf.headed (w : s.Wf t) (hne : hash ≠ t.genesis) :
    Headed t hash s (if hash ∈ s.nodes then s
      else s.addNode hash (s.branch (t.prevBlock hash)) statusHeaderStored) := by
  split_ifs with hmem
  · exact ⟨w.grown_self hmem hne, fun _ _ => rfl, fun h => absurd hmem h⟩
  · refine ⟨grown_addNode hmem _, fun x hx => ?_, fun _ => Function.update_self _ _ _⟩
    have hxh : x ≠ hash := fun hxh => hmem (hxh ▸ hx)
    exact Function.update_of_ne hxh _ _

lemma Wf.heads (w : s.Wf t) (rules : ChainRules) (now : ℤ) (fastAdd skipCheckpoint : Bool)
    (hash : Hash) :
    Heads t hash s (processBlockHeader t rules now fastAdd skipCheckpoint hash s).1
      (processBlockHeader t rules now fastAdd skipCheckpoint hash s).2 := by
  rcases hrun : processBlockHeader t rules now fastAdd skipCheckpoint hash s with ⟨r, s'⟩
  unfold processBlockHeader at hrun
  dsimp only at hrun
  split at hrun
  · cases hrun
    exact .refused _
  split at hrun
  · cases hrun
    exact .refused _
  split at hrun
  · cases hrun
    exact .refused _
  split at hrun
  · cases hrun
    exact .refused _
  rename_i hparent hprev hfailed hancestor
  rw [not_not] at hparent
  rw [Bool.not_eq_true] at hprev
  have hself (hmem : hash ∈ s.nodes) : s.knownInvalid hash = false := by
    rw [not_and, Bool.not_eq_true] at hfailed hancestor
    rw [knownInvalid, BlockStatus.knownInvalid, hfailed hmem, hancestor hmem]
    rfl
  by_cases hbest : hash ∈ s.bestHeader
  · rw [if_pos hbest] at hrun
    cases hrun
    exact .known hprev (hself (w.header_mem _ hbest)) hbest
  rw [if_neg hbest] at hrun
  have hne : hash ≠ t.genesis := fun hg => hbest (hg ▸ w.header.root_mem)
  split at hrun
  · cases hrun
    exact .refused _
  · have hh := w.headed hne
    unfold acceptHeaderNode at hrun
    split_ifs at hrun hh <;> cases hrun
    all_goals first
      | exact .best hparent hprev hself hne hh
      | exact .side hparent hprev hself hne hh

namespace Headed

variable (hh : Headed t hash s s₁)

include hh

lemma blockExists (x : Hash) : s₁.blockExists x = s.blockExists x := by
  rw [Bool.eq_iff_iff, blockExists_iff, blockExists_iff, hh.mem_nodes]
  constructor
  · rintro ⟨hx, hdata⟩
    by_cases hmem : x ∈ s.nodes
    · exact ⟨hmem, hh.status_of_mem x hmem ▸ hdata⟩
    · obtain rfl := hx.resolve_right hmem
      rw [hh.status_new hmem] at hdata
      cases hdata
  · rintro ⟨hmem, hdata⟩
    exact ⟨.inr hmem, (hh.status_of_mem x hmem).symm ▸ hdata⟩

lemma knownInvalid_of_mem (hx : x ∈ s.nodes) : s₁.knownInvalid x = s.knownInvalid x := by
  rw [knownInvalid, hh.status_of_mem x hx, knownInvalid]

lemma knownInvalid_self (hself : hash ∈ s.nodes → s.knownInvalid hash = false) :
    s₁.knownInvalid hash = false := by
  by_cases hmem : hash ∈ s.nodes
  · rw [hh.knownInvalid_of_mem hmem]
    exact hself hmem
  · rw [knownInvalid, hh.status_new hmem]
    rfl

lemma sound (h : s.Sound t) (hparent : t.prevBlock hash ∈ s.nodes) (hne : hash ≠ t.genesis)
    (hself : hash ∈ s.nodes → s.knownInvalid hash = false) : s₁.Sound t := by
  have hmem {x : Hash} (hx : s₁.blockExists x = true) :
      x ∈ s.nodes ∧ (s.status x).haveData = true :=
    blockExists_iff.1 (hh.blockExists x ▸ hx)
  refine ⟨hh.wf h.wf hne hparent, h.pool.congr hh.orphans hh.prevOrphans, fun x hx => ?_,
    fun x hx => ?_, fun x hx hdata y hy => ?_, fun x hx hdata hinv => ?_, fun x hx => ?_⟩
  · rw [hh.bestChain] at hx
    rw [hh.knownInvalid_of_mem (h.wf.best_mem x hx)]
    exact h.clean x hx
  · rw [hh.bestChain] at hx
    rw [hh.status_of_mem x (h.wf.best_mem x hx)]
    exact h.best_data x hx
  · obtain ⟨hxn, hxd⟩ := hmem (blockExists_iff.2 ⟨hx, hdata⟩)
    rw [hh.branch_of_mem x hxn] at hy
    rw [hh.status_of_mem y (h.wf.closed x hxn y hy)]
    exact h.data_closed x hxn hxd y hy
  · have hxn : x ∈ s.nodes := by
      refine ((hh.mem_nodes x).1 hx).elim (fun hxh => ?_) id
      subst hxh
      rw [hh.knownInvalid_self hself] at hinv
      cases hinv
    rw [hh.status_of_mem x hxn] at hdata
    rw [hh.knownInvalid_of_mem hxn] at hinv
    have hxg : x ≠ t.genesis := h.ne_genesis (by simp [ChainState.blockExists, hdata])
    rw [hh.knownInvalid_of_mem (h.wf.branch_of_ne hxn hxg).2]
    exact h.headerOnly x hxn hdata hinv
  · rw [hh.blockExists]
    exact h.pool_data x (hh.orphans ▸ hx)

lemma checked (h : Checked t rules exempt s) (hs : s.Sound t) : Checked t rules exempt s₁ := by
  refine ⟨fun x hx hne => ?_, fun x hx hvalid hne => ?_, fun x hx hne => ?_⟩
  · rw [hh.blockExists] at hx
    rw [hh.branch_of_mem x (blockExists_iff.1 hx).1]
    exact h.context x hx hne
  · have hxn : x ∈ s.nodes := by
      by_contra hnot
      obtain rfl := ((hh.mem_nodes x).1 hx).resolve_right hnot
      rw [hh.status_new hnot] at hvalid
      cases hvalid
    rw [hh.status_of_mem x hxn] at hvalid
    rw [hh.branch_of_mem x hxn]
    exact h.connect x hxn hvalid hne
  · rw [hh.bestChain] at hx
    rw [hh.branch_of_mem x (hs.wf.best_mem x hx)]
    exact h.best_connect x hx hne

end Headed

lemma Sound.setHeader (h : s.Sound t) (hx : x ∈ s.nodes) :
    Sound t { s with bestHeader := s.branch x } :=
  { h with
    wf := { h.wf with header := h.wf.branch x hx, header_mem := h.wf.closed x hx }
    pool := h.pool.congr rfl rfl }

lemma Heads.sound (h : s.Sound t) (hh : Heads t hash s r s') : s'.Sound t := by
  cases hh with
  | refused | known => exact h
  | side hparent _ hself hne hh => exact hh.sound h hparent hne hself
  | best hparent _ hself hne hh =>
    exact (hh.sound h hparent hne hself).setHeader hh.mem_self

lemma Heads.checked (h : Checked t rules exempt s) (hs : s.Sound t)
    (hh : Heads t hash s r s') : Checked t rules exempt s' := by
  cases hh with
  | refused | known => exact h
  | side _ _ _ _ hh => exact hh.checked h hs
  | best _ _ _ _ hh =>
    have h1 := hh.checked h hs
    exact ⟨h1.context, h1.connect, h1.best_connect⟩

end ChainState

end HandshakeNode
