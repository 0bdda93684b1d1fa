import HandshakeNode.Proofs.ChainHeaders
import HandshakeNode.Proofs.OrphanRun

/-!
# Fast-added blocks are checkpointed

A block to which `checkHeadersList` gives `BFFastAdd` is an ancestor of a checkpoint
(`Checkpoints.covers_of_checkHeadersList`). The flag is passed on to the orphans that wait for the
block, so the best chain has unchecked blocks above the checkpoints unless those orphans are
checkpointed as well (`best_chain_checked_or_checkpointed`).
-/

namespace HandshakeNode

open BlockStatus List

open ChainState

variable {t : BlockTree} {rules : ChainRules} {s : ChainState}

namespace Checkpoints

def Covers (cps : Checkpoints t) (x : Hash) : Prop :=
  ∃ c ∈ cps.list, ∃ l, t.Branch (c.hash :: l) ∧ x ∈ c.hash :: l

end Checkpoints

lemma findNextHeaderCheckpoint_spec (h : findNextHeaderCheckpoint list height = some c) :
    c ∈ list ∧ height < c.height := by
  have hmem := mem_of_getLast? h
  have hlist := (takeWhile_sublist _).subset hmem
  exact ⟨mem_reverse.1 hlist, by simpa using mem_takeWhile_imp hmem⟩

namespace ChainState

lemma isValidHeader_iff : s.isValidHeader x = true ↔
    x ∈ s.nodes ∧ x ∈ s.bestHeader ∧ s.knownInvalid x = false := by
  simp [isValidHeader, and_assoc]

lemma checkHeadersList_fastAdd (h : (s.checkHeadersList list ibdMode block).2 = true) :
    ∃ c ∈ list, block ∈ s.bestHeader ∧ c.hash ∈ s.bestHeader ∧
      ((s.branch block).length : ℤ) ≤ c.height + 1 := by
  unfold checkHeadersList at h
  split_ifs at h with hmode hvalid
  rw [Bool.not_eq_true, Bool.not_eq_false', isValidHeader_iff] at hvalid
  rw [headerHeight, if_pos ⟨hvalid.1, hvalid.2.1⟩] at h
  simp only at h
  split at h
  · cases h
  · next c hnext =>
    split_ifs at h with hcp
    rw [Bool.not_eq_true, Bool.not_eq_false', isValidHeader_iff] at hcp
    obtain ⟨hc, hheight⟩ := findNextHeaderCheckpoint_spec hnext
    exact ⟨c, hc, hvalid.2.1, hcp.2.1, by omega⟩

end ChainState

variable (cps : Checkpoints t)

/-- Two blocks of the best header chain: the lower one is an ancestor of the higher one. -/
theorem Checkpoints.covers_of_checkHeadersList (w : s.Wf t)
    (h : (s.checkHeadersList cps.list ibdMode block).2 = true) : cps.Covers block := by
  obtain ⟨c, hc, hblock, hcp, hheight⟩ := checkHeadersList_fastAdd h
  have hcn := w.header_mem _ hcp
  obtain ⟨p, hp⟩ := w.exists_append w.header hblock (w.header_mem _ hblock)
  obtain ⟨q, hq⟩ := w.exists_append w.header hcp hcn
  have hbranch := w.branch _ hcn
  have hlen := cps.height_eq c hc _ hbranch
  have hsuffix : s.branch block <:+ s.branch c.hash := by
    refine suffix_of_suffix_length_le ⟨p, hp.symm⟩ ⟨q, hq.symm⟩ ?_
    have hlength : (s.branch c.hash).length = ((s.nodes.lookup c.hash).getD []).length + 1 := rfl
    omega
  exact ⟨c, hc, _, hbranch, hsuffix.subset (mem_branch_self s block)⟩

/-- The orphans to which the call passes `BFFastAdd` on are checkpointed. -/
def ChainCall.AddsCovered (s : ChainState) : ChainCall → Prop
  | processBlock _ _ fastAdd block => fastAdd = true → ∀ x, WaitsFor t s block x → cps.Covers x
  | _ => True

lemma sound_and_checked_of_run
    (h : ChainTrace t rules (fun s call => call.IsSync cps.list s ∧ call.AddsCovered cps s) s) :
    s.Sound t ∧ Checked t rules cps.Covers s := by
  refine h.inv (P := fun s => s.Sound t ∧ Checked t rules cps.Covers s)
    ⟨sound_initial, checked_initial⟩ ?_
  rintro s call ⟨hs, hch⟩ ⟨hsync, hcover⟩
  cases call with
  | processBlock order now fastAdd block =>
    refine (hs.processes rfl).inv_waitsFor hs hch (fun s s' h hc => h.sameChain hc) ?_
    intro x hx s1 r s2 hs1 h1 ha
    refine h1.accepts hs1 (fun hfast => ?_) ha
    rcases hx with rfl | hx
    · obtain ⟨ibdMode, hlist⟩ := hsync hfast
      exact cps.covers_of_checkHeadersList hs.wf hlist
    · exact hcover hfast x hx
  | processBlockHeader now fastAdd skipCheckpoint hash =>
    have hh := hs.wf.heads rules now fastAdd skipCheckpoint hash
    exact ⟨hh.sound hs, hh.checked hch hs⟩
  | invalidateBlock => exact hsync.elim

instance (list : List Checkpoint) : (call : ChainCall) → Decidable (call.IsSync list s)
  | .processBlock _ _ fastAdd block => inferInstanceAs
      (Decidable (fastAdd = true → ∃ ibdMode, (s.checkHeadersList list ibdMode block).2 = true))
  | .processBlockHeader .. => .isTrue trivial
  | .invalidateBlock .. => .isFalse id

def runCalls (t : BlockTree) (rules : ChainRules) (calls : List ChainCall) (s : ChainState) :
    ChainState :=
  calls.foldl (fun s call => call.run t rules s) s

def CallsAllowed (t : BlockTree) (rules : ChainRules) (allowed : ChainState → ChainCall → Prop) :
    List ChainCall → ChainState → Prop
  | [], _ => True
  | call :: calls, s => allowed s call ∧ CallsAllowed t rules allowed calls (call.run t rules s)

lemma ChainTrace.runCalls : ∀ {calls} {s}, ChainTrace t rules allowed s →
      CallsAllowed t rules allowed calls s → ChainTrace t rules allowed (runCalls t rules calls s)
  | [], _, h, _ => h
  | _ :: _, _, h, hcalls => (h.step hcalls.1).runCalls hcalls.2

lemma not_waitsFor (h : s.orphans = ∅) : ¬ WaitsFor t s block x := by
  intro hx
  cases hx with
  | child hx | later _ hx => exact Finmap.notMem_empty (h ▸ hx)

def checkpointTree : BlockTree := sampleTree [(1, 0, 1), (2, 1, 1)]

lemma branch_checkpoint (h : checkpointTree.Branch (sampleHash 1 :: l)) : l = [sampleHash 0] := by
  have hroot : checkpointTree.Branch (sampleHash 1 :: [sampleHash 0]) :=
    .cons (by decide +kernel) .root
  exact h.unique hroot

def sampleCheckpoints : Checkpoints checkpointTree where
  list := [⟨1, sampleHash 1⟩]
  height_eq c hc l hl := by
    obtain rfl := mem_singleton.1 hc
    rw [branch_checkpoint hl]
    rfl

def orphanCalls : List ChainCall :=
  [.processBlockHeader 0 false false (sampleHash 1),
    .processBlock byteOrder 0 false (sampleHash 2), .processBlock byteOrder 0 true (sampleHash 1)]

/-- An orphan that waits for a fast-added block is added without its checks. -/
theorem orphan_of_fast_added_block_is_not_checked : ∃ s, ChainTrace checkpointTree (sampleRules [2])
        (fun s call => call.IsSync sampleCheckpoints.list s) s ∧
      ∃ x ∈ s.bestChain, x ≠ checkpointTree.genesis ∧
        ¬ ValidBlock (sampleRules [2]) (s.branch x) ∧ ¬ sampleCheckpoints.Covers x := by
  refine ⟨runCalls checkpointTree (sampleRules [2]) orphanCalls (.initial _),
    ChainTrace.start.runCalls ?_, sampleHash 2, by decide +kernel, by decide +kernel,
    by decide +kernel, ?_⟩
  · exact ⟨trivial, by decide +kernel, by decide +kernel, trivial⟩
  · rintro ⟨c, hc, l, hl, hmem⟩
    obtain rfl := mem_singleton.1 hc
    rw [branch_checkpoint hl] at hmem
    exact absurd hmem (by decide +kernel)

/-- A run of header and block calls in which `BFFastAdd` is given only as `checkHeadersList` gives
it, and in which the orphans that wait for a fast-added block are checkpointed: every block that got
on the best chain, even if it has left it since, is valid on its ancestors, or is a checkpoint or an
ancestor of one. -/
theorem best_chain_checked_or_checkpointed
    (h : ChainTrace t rules (fun s call => call.IsSync cps.list s ∧ call.AddsCovered cps s) s) :
    ∀ x, x ≠ t.genesis → x ∈ s.bestChain ∨ s.blockExists x = true ∧ (s.status x).knownValid = true →
      ValidBlock rules (s.branch x) ∨ cps.Covers x := by
  intro x hne hx
  obtain ⟨hs, hch⟩ := sound_and_checked_of_run cps h
  have hexists : s.blockExists x = true := hx.elim hs.best_exists And.left
  have hconnect : cps.Covers x ∨ rules.connect (s.branch x) = none := by
    rcases hx with hx | ⟨hx, hvalid⟩
    · exact hch.best_connect x hx hne
    · exact hch.connect x (blockExists_iff.1 hx).1 hvalid hne
  rcases hch.context x hexists hne with hcover | hcontext
  · exact .inr hcover
  · exact hconnect.symm.imp_left fun hconnect => ⟨hcontext, hconnect⟩

def coveredCalls : List ChainCall :=
  [.processBlockHeader 0 false false (sampleHash 1),
    .processBlock byteOrder 0 true (sampleHash 1), .processBlock byteOrder 0 false (sampleHash 2)]

def coveredRun : ChainState :=
  runCalls checkpointTree (sampleRules [1]) coveredCalls (.initial checkpointTree)

theorem best_chain_checked_or_checkpointed_coveredRun :
    coveredRun.bestChain = [sampleHash 2, sampleHash 1, sampleHash 0] ∧
      ∀ x, x ≠ checkpointTree.genesis → x ∈ coveredRun.bestChain ∨
          coveredRun.blockExists x = true ∧ (coveredRun.status x).knownValid = true →
        ValidBlock (sampleRules [1]) (coveredRun.branch x) ∨ sampleCheckpoints.Covers x := by
  refine ⟨by decide +kernel,
    best_chain_checked_or_checkpointed sampleCheckpoints (ChainTrace.start.runCalls ?_)⟩
  refine ⟨⟨trivial, trivial⟩, ⟨by decide +kernel, fun _ x hx => ?_⟩,
    ⟨by decide +kernel, by simp [ChainCall.AddsCovered]⟩, trivial⟩
  exact absurd hx (not_waitsFor (by decide +kernel))

end HandshakeNode
