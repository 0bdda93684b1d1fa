import HandshakeNode.Proofs.OrphanRun

/-!
# What `ProcessBlock` reports

The flag for the main chain is computed before the orphans are processed, and a branch that is
dropped counts as connected. `ChainState.ReportsTruly` says when the flag is right on return all the
same (`processBlock_reports_main_chain`). The orphans of a call are descendants of its block, so
once the block is on the best chain it stays there; if an ancestor is known to be invalid it never
gets there; and otherwise it gets there with the first orphan that has more work than the tip.
-/

namespace HandshakeNode

open BlockStatus List

namespace ChainState

/-- The block extends the best chain, or it makes the chain leave for a branch without invalid
blocks, or it stays on a side chain together with the orphans that wait for it. -/
def ReportsTruly (t : BlockTree) (s : ChainState) (block : Hash) : Prop :=
  s.bestChain.head? = some (t.prevBlock block) ∨
    if t.workSum (block :: s.branch (t.prevBlock block)) ≤ t.workSum s.bestChain then
      s.Live (t.prevBlock block) → ∀ x, WaitsFor t s block x →
        ∀ l, t.Branch (x :: l) → t.workSum (x :: l) ≤ t.workSum s.bestChain
    else s.Live (t.prevBlock block)

lemma Accepts.branch_of_mem (ha : Accepts t rules fastAdd block s r s') (hx : x ∈ s.nodes) :
    x ∈ s'.nodes ∧ s'.branch x = s.branch x := by
  cases ha.outcome with
  | invalidAncestor | context => exact ⟨hx, rfl⟩
  | connects _ _ st _ hc =>
    rw [hc.sameTree.nodes, branch_congr hc.sameTree.nodes, st.branch_of_mem x hx, st.mem_nodes]
    exact ⟨.inr hx, rfl⟩

lemma Accepts.branch_self (ha : Accepts t rules fastAdd block s (.ok isMainChain) s') :
    block ∈ s'.nodes ∧ s'.branch block = block :: s.branch (t.prevBlock block) := by
  cases ha.outcome with
  | connects _ _ st _ hc =>
    rw [hc.sameTree.nodes, branch_congr hc.sameTree.nodes, st.branch_self, st.mem_nodes]
    exact ⟨.inl rfl, rfl⟩

lemma Accepts.bestChain (hs : s.Sound t) (ha : Accepts t rules fastAdd block s r s') :
    s'.bestChain = s.bestChain ∨ s'.bestChain = s'.branch block := by
  cases ha.outcome with
  | invalidAncestor | context => exact .inl rfl
  | connects _ _ st hs1 hc =>
    rw [branch_congr hc.sameTree.nodes, ← st.bestChain]
    exact hc.bestChain hs1.wf st.mem_self (hs.ne_genesis ha.isNew)

lemma WaitsFor.mem (h : WaitsFor t s block y) : y ∈ s.orphans := by
  cases h with
  | child hmem | later _ hmem => exact hmem

def Below (block : Hash) (q : List Hash) (s : ChainState) : Prop :=
  ∀ x ∈ q, x ∈ s.nodes ∧ block ∈ s.branch x

section

variable (h : Below block (x :: q) s) (hs : s.Sound t)
include h hs

lemma Below.accept (ho : o ∈ s.waiting x)
    (ha : Accepts t rules fastAdd o.hash (s.removeOrphanBlock t o) (.ok isMainChain) s') :
    Below block (x :: q ++ [o.hash]) s' := by
  intro y hy
  rcases mem_append.1 hy with hy | hy
  · obtain ⟨hmem, hblock⟩ := h y hy
    obtain ⟨hmem', hbranch⟩ := ha.branch_of_mem hmem
    exact ⟨hmem', hbranch ▸ hblock⟩
  · rw [mem_singleton.1 hy]
    refine ⟨ha.branch_self.1, ?_⟩
    rw [ha.branch_self.2, (hs.waiting ho).2.1]
    exact mem_cons_of_mem _ (h x mem_cons_self).2

lemma Below.mem_bestChain (ho : o ∈ s.waiting x) (hbest : block ∈ s.bestChain)
    (ha : Accepts t rules fastAdd o.hash (s.removeOrphanBlock t o) (.ok isMainChain) s') :
    block ∈ s'.bestChain := by
  rcases ha.bestChain (hs.removeOrphanBlock o) with hsame | hmoved
  · rw [hsame]
    exact hbest
  · rw [hmoved]
    exact (h.accept hs ho ha o.hash (by simp)).2

lemma Below.tip_ne (hoff : block ∉ s.bestChain) : s.bestChain.head? ≠ some x := by
  intro htip
  have hx : x ∈ s.bestChain := mem_of_head? htip
  exact hoff (hs.wf.best_subset hx (h x mem_cons_self).2)

end

/-! ## Below an invalid block -/

/-- The block has an invalid ancestor and the best chain stays away from it. -/
structure Dead (block : Hash) (chain q : List Hash) (s : ChainState) : Prop where
  below : Below block q s
  stored : s.blockExists block = true
  bestChain : s.bestChain = chain
  invalid : ∃ z ∈ s.branch block, s.knownInvalid z = true

lemma Dead.accept (hoff : block ∉ chain) (h : Dead block chain (x :: q) s)
    (hs : s.Sound t) (ho : o ∈ s.waiting x)
    (ha : Accepts t rules fastAdd o.hash (s.removeOrphanBlock t o) (.ok isMainChain) s') :
    Dead block chain (x :: q ++ [o.hash]) s' := by
  have hs2 := hs.removeOrphanBlock o
  have hoprev := (hs.waiting ho).2.1
  obtain ⟨z, hz, hinv⟩ := h.invalid
  have hbranch := (ha.branch_of_mem (blockExists_iff.1 h.stored).1).2
  have hbelow := h.below.accept hs ho ha
  have hstored := ha.blockExists_mono hs2 h.stored
  cases ha.outcome with
  | @connects s1 _ _ hprev hcontext st hs1 hc =>
    have hinv1 : s1.knownInvalid z = true := by
      rw [st.knownInvalid_of_ne (hs.ne_of_isNew (hs.waiting ho).1 h.stored hz)]
      exact hinv
    have hflags := st.flagsSet hs2 hs1 hc
    have hout : block ∉ s.bestChain := h.bestChain ▸ hoff
    refine ⟨hbelow, hstored, ?_, z, hbranch ▸ hz, hflags.knownInvalid z hinv1⟩
    have hchain1 : s1.bestChain = chain := st.bestChain.trans h.bestChain
    cases hc with
    | extended htip =>
      rw [hoprev, st.bestChain] at htip
      exact absurd htip (h.below.tip_ne hs hout)
    | side => exact hchain1
    | dropped => rw [setAll_bestChain, hchain1]
    | reorganized _ _ hlive =>
      have hzx : z ∈ s.branch x :=
        hs.wf.branch_subset (h.below x mem_cons_self).1 (h.below x mem_cons_self).2 hz
      rw [hlive z (st.branch_self ▸ mem_cons_of_mem _ (hoprev ▸ hzx))] at hinv1
      cases hinv1

/-! ## On a side chain -/

lemma Connects.knownInvalid_of_live (hlive : s.Live node)
    (hc : Connects t rules fastAdd node s (.ok isMainChain) s') (x : Hash) :
    s'.knownInvalid x = s.knownInvalid x := by
  cases hc with
  | extended => exact knownInvalid_setAll_valid s [node] x
  | side => rfl
  | dropped _ _ hnot => exact absurd hlive hnot
  | reorganized => exact knownInvalid_setAll_valid s _ x

/-- The state between two rounds while the orphans below a block of a side chain are accepted:
either the best chain has not moved, and no orphan accepted so far has more work than its tip, or it
has moved to a branch through the block. -/
structure Growing (t : BlockTree) (s₀ : ChainState) (block : Hash) (q : List Hash)
    (s : ChainState) : Prop where
  off : block ∉ s₀.bestChain
  below : Below block q s
  live : ∀ x ∈ s.nodes, block ∈ s.branch x → s.Live x
  queue : ∀ x ∈ q, x = block ∨ WaitsFor t s₀ block x
  subset : ∀ x ∈ s.orphans, x ∈ s₀.orphans
  pending : ∀ x ∈ s.orphans, t.prevBlock x = block ∨ WaitsFor t s₀ block (t.prevBlock x) →
    t.prevBlock x ∈ s.orphans ∨ t.prevBlock x ∈ q
  done : ∀ x ∈ s₀.orphans, x ∈ s.orphans ∨ x ∈ s.nodes ∧
    (block ∉ s.bestChain → t.workSum (s.branch x) ≤ t.workSum s₀.bestChain)
  chain : s.bestChain = s₀.bestChain ∨ block ∈ s.bestChain ∧
    ∃ x, WaitsFor t s₀ block x ∧ x ∈ s.nodes ∧ t.workSum s₀.bestChain < t.workSum (s.branch x)

namespace Growing

lemma pop (h : Growing t s₀ block (x :: q) s) (hs : s.Sound t) (hw : s.waiting x = []) :
    Growing t s₀ block q s := by
  refine { h with
    below := (forall_mem_cons.1 h.below).2
    queue := (forall_mem_cons.1 h.queue).2
    pending := fun y hy hprev => (h.pending y hy hprev).imp_right fun hmem => ?_ }
  refine (mem_cons.1 hmem).resolve_left fun hyx => ?_
  obtain ⟨o, ho, -⟩ := hs.mem_waiting_of_orphan hy
  rw [hyx, hw] at ho
  cases ho

section

variable (h : Growing t s₀ block (x :: q) s) (hs : s.Sound t) (ho : o ∈ s.waiting x)
  (ha : Accepts t rules fastAdd o.hash (s.removeOrphanBlock t o) (.ok isMainChain) s')
include h hs ho ha

lemma accept_chain (hout : block ∉ s.bestChain) :
    s'.bestChain = s.bestChain ∧ t.workSum (s'.branch o.hash) ≤ t.workSum s.bestChain ∨
      s'.bestChain = s'.branch o.hash ∧ t.workSum s.bestChain < t.workSum (s'.branch o.hash) := by
  cases ha.outcome with
  | @connects s1 _ _ hprev hcontext st hs1 hc =>
    have hoprev := (hs.waiting ho).2.1
    have hchain1 : s1.bestChain = s.bestChain := st.bestChain
    rw [branch_congr hc.sameTree.nodes]
    cases hc with
    | extended htip =>
      rw [hoprev, hchain1] at htip
      exact absurd htip (h.below.tip_ne hs hout)
    | side _ hwork => exact .inl ⟨hchain1, hchain1 ▸ hwork⟩
    | dropped _ _ hnot =>
      -- the branch of the orphan continues one that is alive
      have hx := h.below x mem_cons_self
      refine absurd (fun y hy => ?_) hnot
      by_cases hyo : y = o.hash
      · rw [hyo, st.notInvalid]
      · rw [st.branch_self] at hy
        rw [st.knownInvalid_of_ne hyo]
        exact h.live x hx.1 hx.2 y (hoprev ▸ (mem_cons.1 hy).resolve_left hyo)
    | reorganized _ hwork => exact .inr ⟨rfl, hchain1 ▸ hwork⟩

lemma accept_live : ∀ y ∈ s'.nodes, block ∈ s'.branch y → s'.Live y := by
  have hx := h.below x mem_cons_self
  cases ha.outcome with
  | @connects s1 _ _ hprev hcontext st hs1 hc =>
    have hoprev := (hs.waiting ho).2.1
    have hlive1 : ∀ y ∈ s1.nodes, block ∈ s1.branch y → s1.Live y := by
      intro y hy hyb z hz
      by_cases hzo : z = o.hash
      · rw [hzo, st.notInvalid]
      rw [st.knownInvalid_of_ne hzo]
      by_cases hyo : y = o.hash
      · rw [hyo, st.branch_self] at hz
        exact h.live x hx.1 hx.2 z (hoprev ▸ (mem_cons.1 hz).resolve_left hzo)
      · have hyn := ((st.mem_nodes y).1 hy).resolve_left hyo
        rw [st.branch_of_mem y hyn] at hyb hz
        exact h.live y hyn hyb z hz
    have hself : s1.Live o.hash := by
      refine hlive1 _ st.mem_self ?_
      rw [st.branch_self, hoprev]
      exact mem_cons_of_mem _ hx.2
    intro y hy hyb z hz
    rw [hc.sameTree.nodes] at hy
    rw [branch_congr hc.sameTree.nodes] at hyb hz
    rw [hc.knownInvalid_of_live hself]
    exact hlive1 y hy hyb z hz

lemma accept : Growing t s₀ block (x :: q ++ [o.hash]) s' := by
  have hwaits := hs.waitsFor h.subset (h.queue x mem_cons_self) ho
  have hbelow := h.below.accept hs ho ha
  have hself := hbelow o.hash (by simp)
  have hkeep (hbest : block ∈ s.bestChain) : block ∈ s'.bestChain :=
    h.below.mem_bestChain hs ho hbest ha
  have horphans {y : Hash} : y ∈ s'.orphans ↔ y ≠ o.hash ∧ y ∈ s.orphans := by
    rw [ha.orphans.1, mem_removeOrphanBlock]
  refine ⟨h.off, hbelow, h.accept_live hs ho ha, fun y hy => ?_,
    fun y hy => h.subset y (horphans.1 hy).2, fun y hy hprev => ?_, fun y hy => ?_, ?_⟩
  · rcases mem_append.1 hy with hy | hy
    · exact h.queue y hy
    · exact mem_singleton.1 hy ▸ .inr hwaits
  · rcases h.pending y (horphans.1 hy).2 hprev with hmem | hmem
    · by_cases hyo : t.prevBlock y = o.hash
      · exact .inr (by simp [hyo])
      · exact .inl (horphans.2 ⟨hyo, hmem⟩)
    · exact .inr (mem_append_left _ hmem)
  · by_cases hyo : y = o.hash
    · subst hyo
      refine .inr ⟨hself.1, fun hout' => ?_⟩
      have hout : block ∉ s.bestChain := fun hbest => hout' (hkeep hbest)
      have hchain := h.chain.resolve_right fun hch => hout hch.1
      rcases h.accept_chain hs ho ha hout with ⟨-, hwork⟩ | ⟨hmoved, -⟩
      · exact hchain ▸ hwork
      · exact absurd (hmoved ▸ hself.2) hout'
    · rcases h.done y hy with hmem | ⟨hmem, hwork⟩
      · exact .inl (horphans.2 ⟨hyo, hmem⟩)
      · obtain ⟨hmem', hbranch⟩ := ha.branch_of_mem (x := y) hmem
        exact .inr ⟨hmem', fun hout' => hbranch ▸ hwork fun hbest => hout' (hkeep hbest)⟩
  · by_cases hbest : block ∈ s.bestChain
    · refine .inr ⟨hkeep hbest, ?_⟩
      obtain ⟨-, y, hy, hmem, hwork⟩ := h.chain.resolve_left fun hch => h.off (hch ▸ hbest)
      obtain ⟨hmem', hbranch⟩ := ha.branch_of_mem (x := y) hmem
      exact ⟨y, hy, hmem', hbranch ▸ hwork⟩
    · have hchain := h.chain.resolve_right fun hch => hbest hch.1
      rcases h.accept_chain hs ho ha hbest with ⟨hsame, -⟩ | ⟨hmoved, hwork⟩
      · exact .inl (hsame.trans hchain)
      · exact .inr ⟨hmoved ▸ hself.2, o.hash, hwaits, hself.1, hchain ▸ hwork⟩

end

lemma waitsFor_notMem (h : Growing t s₀ block [] s) (hblock : block ∉ s.orphans)
    (hy : WaitsFor t s₀ block y) : y ∉ s.orphans := by
  induction hy with
  | child hmem hprev =>
    intro hy
    rcases h.pending _ hy (.inl hprev) with hp | hp
    · exact hblock (hprev ▸ hp)
    · cases hp
  | later hz hmem hprev ih =>
    intro hy
    rcases h.pending _ hy (.inr (hprev ▸ hz)) with hp | hp
    · exact ih (hprev ▸ hp)
    · cases hp

/-- The chain has moved to the block if and only if an orphan that waited for it has more work than
the tip had. -/
theorem mem_bestChain_iff (h : Growing t s₀ block [] s) (hs : s.Sound t)
    (hblock : block ∉ s.orphans) :
    block ∈ s.bestChain ↔ ¬ ∀ y, WaitsFor t s₀ block y → ∀ l, t.Branch (y :: l) →
      t.workSum (y :: l) ≤ t.workSum s₀.bestChain := by
  constructor
  · intro hbest hall
    obtain ⟨-, y, hy, hmem, hwork⟩ := h.chain.resolve_left fun hch => h.off (hch ▸ hbest)
    exact (hall y hy _ (hs.wf.branch y hmem)).not_gt hwork
  · intro hnot
    by_contra hout
    refine hnot fun y hy l hl => ?_
    obtain ⟨hmem, hwork⟩ := (h.done y hy.mem).resolve_left (h.waitsFor_notMem hblock hy)
    rw [← hs.wf.branch_eq hmem hl]
    exact hwork hout

end Growing

section

variable (hs : s.Sound t) (hstored : s.blockExists block = true)
  (hfuel : 2 * s.orphans.keys.card + 1 < fuel)
  (hloop : processOrphans t rules fastAdd fuel [block] s = (.ok (), s'))

include hs hstored hfuel hloop

lemma loop_inv {I : List Hash → ChainState → Prop}
    (hpop : ∀ x q s, I (x :: q) s → s.Sound t → s.waiting x = [] → I q s)
    (haccept : ∀ x q s o, I (x :: q) s → s.Sound t → o ∈ s.waiting x → ∀ b s',
      Accepts t rules fastAdd o.hash (s.removeOrphanBlock t o) (.ok b) s' →
        I (x :: q ++ [o.hash]) s')
    (hI : I [block] s) :
    s'.Sound t ∧ I [] s' := by
  have hrun := hs.processOrphans (I := I) (E := fun _ _ => True) hpop ?_ (q := [block])
    (by simpa using hstored) hI hfuel hloop
  · exact ⟨hrun.1, hrun.2.2 rfl⟩
  · intro x q s o hI hs _ ho r s' ha
    refine ⟨fun _ _ => trivial, ?_⟩
    rintro b rfl
    exact haccept x q s o hI hs ho b s' ha

lemma loop_stored : s'.Sound t ∧ block ∉ s'.orphans := by
  obtain ⟨hs', hex⟩ := loop_inv hs hstored hfuel hloop (I := fun _ s => s.blockExists block = true)
    (fun _ _ _ h _ _ => h) (fun x q s o h hs ho b s' ha =>
      ha.blockExists_mono (hs.removeOrphanBlock o) h) hstored
  refine ⟨hs', fun hmem => ?_⟩
  rw [hs'.pool_data block hmem] at hex
  cases hex

lemma loop_onChain (hbest : block ∈ s.bestChain) : block ∈ s'.bestChain := by
  have hmem := (blockExists_iff.1 hstored).1
  refine (loop_inv hs hstored hfuel hloop (I := fun q s => Below block q s ∧ block ∈ s.bestChain)
    (fun x q s h _ _ => ⟨(forall_mem_cons.1 h.1).2, h.2⟩)
    (fun x q s o h hs ho b s' ha => ⟨h.1.accept hs ho ha, h.1.mem_bestChain hs ho h.2 ha⟩)
    ⟨?_, hbest⟩).2.2
  simpa [Below] using hmem

lemma loop_dead (hout : block ∉ s.bestChain) (hlive : ¬ s.Live block) : block ∉ s'.bestChain := by
  have hinv : ∃ z ∈ s.branch block, s.knownInvalid z = true := by
    simpa [Live] using hlive
  have hdead : Dead block s.bestChain [block] s :=
    ⟨by simpa [Below] using (blockExists_iff.1 hstored).1, hstored, rfl, hinv⟩
  have h := (loop_inv hs hstored hfuel hloop (I := Dead block s.bestChain)
    (fun x q s h _ _ => { h with below := (forall_mem_cons.1 h.below).2 })
    (fun x q s o h hs ho b s' ha => h.accept hout hs ho ha) hdead).2
  rw [h.bestChain]
  exact hout

end

lemma Stored.live_iff (st : Stored t block s s1) (hs : s.Sound t)
    (hprev : s.blockExists (t.prevBlock block) = true) :
    s1.Live block ↔ s.Live (t.prevBlock block) := by
  rw [Live, st.branch_self, forall_mem_cons, and_iff_right st.notInvalid]
  refine forall₂_congr fun y hy => ?_
  rw [st.knownInvalid_of_ne (hs.ne_of_isNew st.isNew hprev hy)]

lemma Stored.growing (st : Stored t block s s1) (hs : s.Sound t)
    (hdata : ∀ x ∈ s.nodes, (s.status x).haveData = true) (hlive : s1.Live block) :
    Growing t s block [block] s1 := by
  have hmem := st.mem_self
  refine ⟨st.bestChain ▸ st.notMem_bestChain hs, by simpa [Below] using hmem,
    fun x hx hxb => ?_, by simp, fun x hx => st.orphans ▸ hx, fun x hx hprev => ?_,
    fun x hx => .inl (st.orphans.symm ▸ hx), .inl st.bestChain⟩
  · by_cases hxe : x = block
    · rw [hxe]
      exact hlive
    · have hxn := ((st.mem_nodes x).1 hx).resolve_left hxe
      rw [st.branch_of_mem x hxn] at hxb
      exact absurd rfl (hs.ne_of_isNew st.isNew (blockExists_iff.2 ⟨hxn, hdata x hxn⟩) hxb)
  · rcases hprev with hprev | hprev
    · exact .inr (by simp [hprev])
    · exact .inl (st.orphans.symm ▸ hprev.mem)

lemma loop_growing {s₀ : ChainState} (hs : s.Sound t)
    (hstored : s.blockExists block = true) (hfuel : 2 * s.orphans.keys.card + 1 < fuel)
    (hloop : processOrphans t rules fastAdd fuel [block] s = (.ok (), s'))
    (h : Growing t s₀ block [block] s) :
    block ∈ s'.bestChain ↔ ¬ ∀ y, WaitsFor t s₀ block y → ∀ l, t.Branch (y :: l) →
      t.workSum (y :: l) ≤ t.workSum s₀.bestChain := by
  obtain ⟨hs', hgrow⟩ := loop_inv hs hstored hfuel hloop (fun x q s h hs hw => h.pop hs hw)
    (fun x q s o h hs ho b s' ha => h.accept hs ho ha) h
  exact hgrow.mem_bestChain_iff hs' (loop_stored hs hstored hfuel hloop).2

lemma Accepts.reportsTruly (hs : s.Sound t) (hdata : ∀ x ∈ s.nodes, (s.status x).haveData = true)
    (ha : Accepts t rules fastAdd block s (.ok isMainChain) s1)
    (hfuel : 2 * s1.orphans.keys.card + 1 < fuel)
    (hloop : processOrphans t rules fastAdd fuel [block] s1 = (.ok (), s')) :
    (isMainChain = true ↔ block ∈ s'.bestChain) ↔ ReportsTruly t s block := by
  have hs1 := ha.sound hs
  have hstored := ha.blockExists_self hs
  cases ha.outcome with
  | @connects s2 _ _ hinv hcontext st hs2 hc =>
    have hout := st.notMem_bestChain hs
    rw [ReportsTruly, ← st.branch_self, ← st.bestChain, ← st.live_iff hs ha.parent]
    cases hc with
    | extended htip =>
      have hon := loop_onChain hs1 hstored hfuel hloop mem_cons_self
      simp [hon, htip]
    | side htip hwork =>
      by_cases hlive : s1.Live block
      · have hgrow := loop_growing hs1 hstored hfuel hloop (st.growing hs hdata hlive)
        rw [← st.bestChain] at hgrow
        simp [hgrow, htip, hwork, hlive]
      · have hoff := loop_dead hs1 hstored hfuel hloop hout hlive
        simp [hoff, hwork, hlive]
    | dropped htip hwork hlive =>
      have hflags := FlagsSet.setAll s2 (s2.undecided block) statusInvalidAncestor rfl
      have hoff := loop_dead hs1 hstored hfuel hloop (by simpa using hout)
        fun h => hlive (hflags.live (setAll_nodes s2 _ _) h)
      simp [hoff, htip, hwork.not_ge, hlive]
    | reorganized htip hwork hlive =>
      have hon := loop_onChain hs1 hstored hfuel hloop (mem_branch_self _ _)
      simp [hon, hwork.not_ge, hlive]

lemma Accepts.haveData (hs : s.Sound t)
    (ha : Accepts t rules fastAdd block s r s') (h : ∀ x ∈ s.nodes, (s.status x).haveData = true) :
    ∀ x ∈ s'.nodes, (s'.status x).haveData = true := by
  cases ha.outcome with
  | invalidAncestor | context => exact h
  | connects _ _ st hs1 hc =>
    intro x hx
    rw [hc.sameTree.nodes, st.mem_nodes] at hx
    rw [(st.flagsSet hs hs1 hc).haveData]
    by_cases hxb : x = block
    · exact hxb ▸ st.haveData
    · rw [st.status x hxb]
      exact h x (hx.resolve_left hxb)

end ChainState

open ChainState

lemma sound_and_haveData_of_run
    (h : ChainTrace t rules (fun _ call => call.IsBlock fun _ => True) s) :
    s.Sound t ∧ ∀ x ∈ s.nodes, (s.status x).haveData = true := by
  refine h.inv_blocks (P := fun s => ∀ x ∈ s.nodes, (s.status x).haveData = true)
    (fun x hx => ?_) (fun s s' h hc => ?_) fun _ x s r s' _ hs h ha => ha.haveData hs h
  · rw [mem_initial.1 hx, status_initial]
    rfl
  · rw [hc.nodes, hc.status]
    exact h

def droppedTree : BlockTree :=
  sampleTree [(1, 0, 3), (2, 0, 1), (3, 2, 1), (4, 3, 2), (5, 3, 1), (6, 5, 5)]

def droppedRun : ChainState :=
  processBlocks droppedTree (sampleRules [3])
    [(false, 1), (false, 2), (false, 3), (false, 5), (false, 4)] (.initial droppedTree)

def waitingTree : BlockTree := sampleTree [(1, 0, 1), (2, 0, 1), (3, 2, 2)]

def waitingRun : ChainState :=
  processBlocks waitingTree (sampleRules []) [(false, 1), (false, 3)] (.initial waitingTree)

/-- A block whose branch is dropped is reported on the main chain, and a block that an orphan takes
there is reported off it. -/
theorem processBlock_misreports :
    (ChainTrace droppedTree (sampleRules [3]) (fun _ call => call.IsBlock fun _ => True) droppedRun ∧
      ∃ s', droppedRun.processBlock droppedTree (sampleRules [3]) byteOrder 0 false (sampleHash 6) =
        (.ok (true, false), s') ∧ sampleHash 6 ∉ s'.bestChain) ∧
    ChainTrace waitingTree (sampleRules []) (fun _ call => call.IsBlock fun _ => True) waitingRun ∧
      ∃ s', waitingRun.processBlock waitingTree (sampleRules []) byteOrder 0 false (sampleHash 2) =
        (.ok (false, false), s') ∧ sampleHash 2 ∈ s'.bestChain := by
  refine ⟨⟨chainTrace_processBlocks _ (fun _ _ _ => trivial) .start, _, Prod.ext ?_ rfl, ?_⟩,
    chainTrace_processBlocks _ (fun _ _ _ => trivial) .start, _, Prod.ext ?_ rfl, ?_⟩
  · decide +kernel
  · decide +kernel
  · decide +kernel
  · decide +kernel

/-- A call without an error returns `true` as its second value just if the block is an orphan on
return, and otherwise its first value is right about the best chain on return if and only if
`ReportsTruly` held before. -/
theorem processBlock_reports_main_chain
    (h : ChainTrace t rules (fun _ call => call.IsBlock fun _ => True) s) {order : RangeOrder Hash}
    {now : ℤ} {fastAdd isMainChain isOrphan : Bool} {block : Hash}
    (hrun : s.processBlock t rules order now fastAdd block = (.ok (isMainChain, isOrphan), s')) :
    (isOrphan = true ↔ block ∈ s'.orphans) ∧ (isOrphan = false →
        ((isMainChain = true ↔ block ∈ s'.bestChain) ↔ ReportsTruly t s block)) := by
  obtain ⟨hs, hdata⟩ := sound_and_haveData_of_run h
  generalize hr : (Except.ok (isMainChain, isOrphan) : Result (Bool × Bool)) = r at hrun
  cases hs.processes hrun with
  | refused => cases hr
  | orphan hnew hpool hprev =>
    cases hr
    obtain ⟨s1, -, heq⟩ := addOrphanBlock_cases (t := t) (s := s) order now block
    rw [heq, insertOrphan]
    simp
  | rejected => cases hr
  | @accepted main s1 _ r1 hpool ha hloop =>
    cases r1 with
    | error e => cases hr
    | ok u =>
      cases hr
      obtain ⟨-, hout⟩ := loop_stored (ha.sound hs) (ha.blockExists_self hs) (by omega) hloop
      refine ⟨by simpa using hout, fun _ => ?_⟩
      exact ha.reportsTruly hs hdata (by omega) hloop

theorem processBlock_reports_main_chain_waitingRun :
    ∃ s', waitingRun.processBlock waitingTree (sampleRules []) byteOrder 0 false (sampleHash 2) =
        (.ok (false, false), s') ∧
      (false = true ↔ sampleHash 2 ∈ s'.orphans) ∧
      (false = false → ((false = true ↔ sampleHash 2 ∈ s'.bestChain) ↔
        ReportsTruly waitingTree waitingRun (sampleHash 2))) := by
  have hrun : waitingRun.processBlock waitingTree (sampleRules []) byteOrder 0 false (sampleHash 2) =
      (.ok (false, false),
        (waitingRun.processBlock waitingTree (sampleRules []) byteOrder 0 false (sampleHash 2)).2) :=
    Prod.ext (by decide +kernel) rfl
  exact ⟨_, hrun, processBlock_reports_main_chain
    (chainTrace_processBlocks _ (fun _ _ _ => trivial) .start) hrun⟩

end HandshakeNode
