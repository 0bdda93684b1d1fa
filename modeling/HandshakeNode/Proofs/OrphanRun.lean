import HandshakeNode.Proofs.BestChain

/-!
# Orphans and the blocks they wait for

`processOrphans` gives up at the first orphan that is refused, and leaves the others in the pool
although their parent is stored. Where every orphan that waits for a block is valid with all its
ancestors, none is left behind (`no_orphan_left_behind`): a block is marked invalid only if it or
one of its ancestors cannot be connected (`Blamed`), so that none of them is refused.
-/

namespace HandshakeNode

open BlockStatus List Finmap

namespace ChainState

variable {t : BlockTree} {rules : ChainRules} {s : ChainState}

def ValidBranch (t : BlockTree) (rules : ChainRules) : List Hash → Prop
  | [] => True
  | x :: l => (x ≠ t.genesis → ValidBlock rules (x :: l)) ∧ ValidBranch t rules l

def GoodBlock (t : BlockTree) (rules : ChainRules) (x : Hash) : Prop :=
  ∀ l, t.Branch (x :: l) → ValidBranch t rules (x :: l)

/-- A block is known to be invalid only because of a block that cannot be connected. -/
def Blamed (t : BlockTree) (rules : ChainRules) (s : ChainState) : Prop :=
  ∀ x ∈ s.nodes, s.knownInvalid x = true →
    ∃ y ∈ s.branch x, y ≠ t.genesis ∧ rules.connect (s.branch y) ≠ none

/-! ## What is marked -/

lemma tipVerdict_blame (he : s.tipVerdict rules fastAdd node = some e) :
    rules.connect (s.branch node) ≠ none := by
  intro hconnect
  simp [tipVerdict, hconnect, rules.airdrops_of_connect hconnect,
    rules.names_of_connect hconnect] at he

lemma Rejects.blame (w : s.Wf t) (hmem : node ∈ s.nodes)
    (hrej : s.Rejects rules (s.sideOf node).reverse e s') (hold : s.knownInvalid x = false)
    (hnew : s'.knownInvalid x = true) :
    x ∈ s.sideOf node ∧
      ∃ y ∈ s.branch x, y ∈ s.sideOf node ∧ rules.connect (s.branch y) ≠ none := by
  obtain ⟨b, n, a, hattach, hx, -, hcon, -⟩ := hrej.marks hold hnew
  obtain ⟨hrev, l, hl⟩ := sideOf_of_reverse hattach
  refine ⟨hrev ▸ mem_append.2 ?_, n, ?_, by simp [hrev], hcon⟩
  · exact (mem_cons.1 hx).symm.imp mem_reverse.2 (by rintro rfl; exact mem_cons_self)
  · rcases mem_cons.1 hx with rfl | hxa
    · exact mem_branch_self _ _
    · exact w.mem_branch_of_append hmem hl (mem_reverse.2 hxa) (by simp)

lemma Connects.blame (hs : s.Sound t) (hmem : node ∈ s.nodes) (hoff : node ∉ s.bestChain)
    (hc : Connects t rules fastAdd node s r s') (hold : s.knownInvalid x = false)
    (hnew : s'.knownInvalid x = true) :
    x ∈ s.sideOf node ∧ ∃ y ∈ s.branch x, y ∈ s.sideOf node ∧
      (s.knownInvalid y = true ∨ rules.connect (s.branch y) ≠ none) := by
  have hmarked : s'.status x ≠ s.status x := by
    intro hst
    rw [knownInvalid, hst, ← knownInvalid, hold] at hnew
    cases hnew
  have hside : x ∈ s.sideOf node := by
    by_contra hnot
    exact hmarked ((hc.flagsSet hs.wf hmem hs.clean hoff).off x hnot)
  refine ⟨hside, ?_⟩
  have hvalid (xs : List Hash) : (s.setAll xs statusValid).knownInvalid x = false :=
    (knownInvalid_setAll_valid s xs x).trans hold
  cases hc with
  | refused hprev he =>
    obtain rfl : x = node := by
      by_contra hxn
      exact hmarked (by rw [status_setStatusFlags, if_neg hxn])
    exact ⟨x, mem_branch_self _ _, hside, .inr (tipVerdict_blame he)⟩
  | extended => exact absurd hnew (Bool.eq_false_iff.1 (hvalid [node]))
  | unspent | side => exact absurd hnew (by simp [hold])
  | dropped _ _ hlive =>
    have hund : x ∈ s.undecided node := by
      by_contra hnot
      exact hmarked (by rw [status_setAll, if_neg hnot])
    obtain ⟨z, hz, hzn, hinv⟩ := hs.wf.exists_knownInvalid_of_undecided hmem hlive hund
    refine ⟨z, hz, ?_, .inl hinv⟩
    have hzb := hs.wf.branch_subset hmem (mem_sideOf hside).1 hz
    refine (hs.wf.mem_sideOf_or hmem hzb).resolve_right fun hbest => ?_
    rw [hs.clean z hbest] at hinv
    cases hinv
  | failed _ _ _ hrej =>
    obtain ⟨-, y, hy, hyside, hcon⟩ := hrej.blame hs.wf hmem hold hnew
    exact ⟨y, hy, hyside, .inr hcon⟩
  | reorganized => exact absurd hnew (Bool.eq_false_iff.1 (hvalid _))

lemma Blamed.accepts (h : Blamed t rules s) (hs : s.Sound t)
    (ha : Accepts t rules fastAdd block s r s') : Blamed t rules s' := by
  cases ha.outcome with
  | invalidAncestor | context => exact h
  | @connects s1 _ _ hprev hcontext st hs1 hc =>
    have hmem := st.mem_self
    have hoff := st.notMem_bestChain hs
    have hbranch := branch_congr hc.sameTree.nodes
    have hblamed : Blamed t rules s1 := by
      intro x hx hinv
      have hxb : x ≠ block := by
        rintro rfl
        rw [st.notInvalid] at hinv
        cases hinv
      have hxn := ((st.mem_nodes x).1 hx).resolve_left hxb
      rw [st.knownInvalid_of_ne hxb] at hinv
      obtain ⟨y, hy, hyg, hcon⟩ := h x hxn hinv
      have hyn := hs.wf.closed x hxn y hy
      refine ⟨y, st.branch_of_mem x hxn ▸ hy, hyg, st.branch_of_mem y hyn ▸ hcon⟩
    intro x hx hinv
    rw [hc.sameTree.nodes] at hx
    simp only [hbranch]
    cases hold : s1.knownInvalid x with
    | true => exact hblamed x hx hold
    | false =>
      obtain ⟨-, y, hy, hyside, hcase⟩ := hc.blame hs1 hmem hoff hold hinv
      obtain ⟨hyb, hyout⟩ := mem_sideOf hyside
      rcases hcase with hyinv | hycon
      · obtain ⟨z, hz, hzg, hcon⟩ := hblamed y (hs1.wf.closed block hmem y hyb) hyinv
        exact ⟨z, hs1.wf.branch_subset hx hy hz, hzg, hcon⟩
      · exact ⟨y, hy, fun hyg => hyout (hyg ▸ hs1.genesis_mem), hycon⟩

lemma Blamed.sameChain (h : Blamed t rules s) (hc : SameChain s s') : Blamed t rules s' := by
  simp only [Blamed, hc.nodes, branch_congr hc.nodes, knownInvalid, hc.status] at h ⊢
  exact h

/-! ## Valid orphans are accepted -/

lemma ValidBranch.of_append : ∀ {p l}, ValidBranch t rules (p ++ l) →
    ValidBranch t rules l
  | [], _, h => h
  | _ :: _, _, h => of_append h.2

lemma GoodBlock.of_branch (h : GoodBlock t rules x)
    (hx : t.Branch (x :: p ++ y :: l)) : GoodBlock t rules y := by
  intro m hm
  rw [hm.unique hx.of_append]
  exact (h _ hx).of_append (p := x :: p)

lemma GoodBlock.valid (h : GoodBlock t rules block) (w : s.Wf t) (hmem : block ∈ s.nodes)
    (hy : y ∈ s.branch block) (hne : y ≠ t.genesis) : ValidBlock rules (s.branch y) := by
  obtain ⟨p, hp⟩ := w.branch_append hmem hy
  have hvalid := h _ (w.branch block hmem)
  rw [← branch, hp] at hvalid
  exact hvalid.of_append.1 hne

lemma GoodBlock.of_mem (h : GoodBlock t rules block) (w : s.Wf t) (hmem : block ∈ s.nodes)
    (hy : y ∈ s.branch block) : GoodBlock t rules y := by
  obtain ⟨p, hp⟩ := w.branch_append hmem hy
  cases p with
  | nil => exact head_eq_of_cons_eq hp ▸ h
  | cons z p =>
    have hz : block = z := head_eq_of_cons_eq hp
    have hb := w.branch block hmem
    rw [hp, ← hz] at hb
    exact h.of_branch hb

lemma Accepts.branch_cons (h : s.Sound t) (ha : Accepts t rules fastAdd block s r s') :
    block ≠ t.genesis ∧ t.Branch (block :: s.branch (t.prevBlock block)) := by
  have hne := h.ne_genesis ha.isNew
  exact ⟨hne, .cons hne (h.wf.branch _ (blockExists_iff.1 ha.parent).1)⟩

lemma GoodBlock.not_knownInvalid (h : GoodBlock t rules block) (hb : Blamed t rules s)
    (w : s.Wf t) (hmem : block ∈ s.nodes) : s.knownInvalid block = false := by
  by_contra hinv
  rw [Bool.not_eq_false] at hinv
  obtain ⟨y, hy, hyg, hcon⟩ := hb block hmem hinv
  exact hcon (h.valid w hmem hy hyg).2

lemma GoodBlock.accepts (hg : GoodBlock t rules block) (hs : s.Sound t) (hb : Blamed t rules s)
    (ha : Accepts t rules fastAdd block s r s') : ∃ isMainChain, r = .ok isMainChain := by
  obtain ⟨hne, hbranch⟩ := ha.branch_cons hs
  cases ha.outcome with
  | invalidAncestor hinv e =>
    have hgood : GoodBlock t rules (t.prevBlock block) := hg.of_branch (p := []) hbranch
    rw [hgood.not_knownInvalid hb hs.wf (blockExists_iff.1 ha.parent).1] at hinv
    cases hinv
  | context he =>
    have hnone := ((hg _ hbranch).1 hne).1
    cases fastAdd with
    | false =>
      rw [hnone] at he
      cases he
    | true =>
      rw [rules.context_fastAdd hnone] at he
      cases he
  | @connects s1 _ _ hinv hcontext st hs1 hc =>
    have hmem := st.mem_self
    have hvalid {n : Hash} (hn : n ∈ s1.sideOf block) : rules.connect (s1.branch n) = none := by
      obtain ⟨hnb, hout⟩ := mem_sideOf hn
      exact (hg.valid hs1.wf hmem hnb (hs1.wf.ne_genesis hout)).2
    cases hc with
    | refused _ he =>
      exact absurd (hvalid (mem_sideOf_self (st.notMem_bestChain hs))) (tipVerdict_blame he)
    | unspent _ he =>
      rw [rules.spends_of_connect
        (hvalid (mem_sideOf_self (st.notMem_bestChain hs)))] at he
      cases he
    | extended | dropped | reorganized => exact ⟨true, rfl⟩
    | side => exact ⟨false, rfl⟩
    | failed _ _ _ hrej =>
      have hmem' {n : Hash} {b a : List Hash} (hattach : (s1.sideOf block).reverse = b ++ n :: a) :
          n ∈ s1.sideOf block := mem_reverse.1 (hattach ▸ by simp)
      cases hrej with
      | @noData b a n hattach _ hdata =>
        rw [hs1.data_closed block hmem st.haveData n (mem_sideOf (hmem' hattach)).1] at hdata
        cases hdata
      | recheck hattach _ _ he =>
        rw [rules.recheck_of_connect (hvalid (hmem' hattach))] at he
        cases he
      | connect hattach _ _ _ he =>
        rw [hvalid (hmem' hattach)] at he
        cases he

/-! ## None is left behind -/

lemma Accepts.blockExists_of (hs : s.Sound t) (ha : Accepts t rules fastAdd block s r s')
    (hx : s'.blockExists x = true) : s.blockExists x = true ∨ x = block := by
  cases ha.outcome with
  | invalidAncestor | context => exact .inl hx
  | connects _ _ st hs1 hc =>
    rw [blockExists, hc.sameTree.nodes, (st.flagsSet hs hs1 hc).haveData] at hx
    by_cases hxb : x = block
    · exact .inr hxb
    · exact .inl (st.blockExists_of_ne hx hxb)

def NoneLeft (t : BlockTree) (s : ChainState) : Prop :=
  ∀ x ∈ s.orphans, s.blockExists (t.prevBlock x) = false

structure Draining (t : BlockTree) (rules : ChainRules) (s₀ : ChainState) (block : Hash)
    (q : List Hash) (s : ChainState) : Prop where
  blamed : Blamed t rules s
  subset : ∀ x ∈ s.orphans, x ∈ s₀.orphans
  queue : ∀ x ∈ q, x = block ∨ WaitsFor t s₀ block x
  queued : ∀ x ∈ s.orphans, s.blockExists (t.prevBlock x) = true → t.prevBlock x ∈ q

lemma Sound.mem_waiting_of_orphan (hs : s.Sound t) (hx : x ∈ s.orphans) :
    ∃ o ∈ s.waiting (t.prevBlock x), o.hash = x := by
  obtain ⟨o, ho⟩ := mem_iff.1 hx
  have hox := hs.pool.hash_eq x o ho
  exact ⟨o, (hs.pool.mem_waiting _ o).2 ⟨hox ▸ ho, by rw [hox]⟩, hox⟩

lemma Draining.pop (h : Draining t rules s0 block (x :: q) s) (hs : s.Sound t)
    (hw : s.waiting x = []) : Draining t rules s0 block q s := by
  refine ⟨h.blamed, h.subset, (forall_mem_cons.1 h.queue).2, fun y hy hex => ?_⟩
  refine (mem_cons.1 (h.queued y hy hex)).resolve_left fun hyx => ?_
  obtain ⟨o, ho, -⟩ := hs.mem_waiting_of_orphan hy
  rw [hyx, hw] at ho
  cases ho

lemma Draining.accept (h : Draining t rules s0 block (x :: q) s) (hs : s.Sound t)
    (ho : o ∈ s.waiting x)
    (ha : Accepts t rules fastAdd o.hash (s.removeOrphanBlock t o) (.ok isMainChain) s') :
    Draining t rules s0 block (x :: q ++ [o.hash]) s' := by
  have hs1 := hs.removeOrphanBlock o
  refine ⟨(h.blamed.sameChain (sameChain_removeOrphanBlock o)).accepts hs1 ha,
    fun y hy => ?_, fun y hy => ?_, fun y hy hex => ?_⟩
  · rw [ha.orphans.1, mem_removeOrphanBlock] at hy
    exact h.subset y hy.2
  · rcases mem_append.1 hy with hy | hy
    · exact h.queue y hy
    · exact mem_singleton.1 hy ▸ .inr (hs.waitsFor h.subset (h.queue x mem_cons_self) ho)
  · rw [ha.orphans.1, mem_removeOrphanBlock] at hy
    rcases ha.blockExists_of hs1 hex with hex | hex
    · exact mem_append_left _ (h.queued y hy.2 hex)
    · exact mem_append_right _ (mem_singleton.2 hex)

/-- A call after which no orphan's parent is stored: the orphans that wait for the block are all
accepted after it, and if it is refused itself, there are none. -/
theorem NoneLeft.processes {r : Result (Bool × Bool)} (h : NoneLeft t s) (hs : s.Sound t)
    (hb : Blamed t rules s) (hgood : ∀ x, WaitsFor t s block x → GoodBlock t rules x)
    (hp : Processes t rules order now fastAdd block s r s') : NoneLeft t s' := by
  cases hp with
  | refused => exact h
  | orphan hnew hout hprev =>
    obtain ⟨s1, hf, heq⟩ := addOrphanBlock_cases (t := t) (s := s) order now block
    intro x hx
    rw [(sameChain_addOrphanBlock order now block).blockExists]
    rw [heq] at hx
    rcases mem_insert.1 hx with rfl | hx
    · exact hprev
    · obtain ⟨o, ho⟩ := mem_iff.1 hx
      exact h x (mem_of_lookup_eq_some (hf.orphans x o ho))
  | rejected hout ha =>
    intro x hx
    rw [ha.orphans.1] at hx
    by_contra hex
    rw [Bool.not_eq_false] at hex
    rcases ha.blockExists_of hs hex with hold | hxb
    · rw [h x hx] at hold
      cases hold
    · -- an orphan that waits for the block is valid, and so is the block
      have hxg := hs.ne_genesis (hs.pool_data x hx)
      have hbranch : t.Branch (x :: block :: s.branch (t.prevBlock block)) :=
        hxb ▸ .cons hxg (hxb ▸ (ha.branch_cons hs).2)
      have hgb := (hgood x (.child hx hxb)).of_branch (p := []) hbranch
      obtain ⟨b, hr⟩ := hgb.accepts hs hb ha
      cases hr
  | @accepted isMainChain s1 _ r hout ha hloop =>
    have hdrain : Draining t rules s block [block] s1 := by
      refine ⟨hb.accepts hs ha, fun x hx => ha.orphans.1 ▸ hx, by simp, fun x hx hex => ?_⟩
      rcases ha.blockExists_of hs hex with hold | hxb
      · rw [h x (ha.orphans.1 ▸ hx)] at hold
        cases hold
      · exact mem_singleton.2 hxb
    have hrun := (ha.sound hs).processOrphans (I := Draining t rules s block)
      (E := fun _ _ => False) (fun x q s hI hs hw => hI.pop hs hw) ?_ (q := [block])
      (by simpa using ha.blockExists_self hs) hdrain (by simp) hloop
    · cases r with
      | error e => exact (hrun.2.1 e rfl).elim
      | ok u =>
        intro x hx
        by_contra hex
        rw [Bool.not_eq_false] at hex
        exact not_mem_nil ((hrun.2.2 rfl).queued x hx hex)
    · intro x q s2 o hI hs2 hx ho r2 s3 ha2
      have hwaits := hs2.waitsFor hI.subset (hI.queue x mem_cons_self) ho
      obtain ⟨b, rfl⟩ := (hgood _ hwaits).accepts (hs2.removeOrphanBlock o)
        (hI.blamed.sameChain (sameChain_removeOrphanBlock o)) ha2
      exact ⟨by simp, fun _ _ => hI.accept hs2 ho ha2⟩

end ChainState

open ChainState

/-- A call of `ProcessBlock` whose waiting orphans are all valid with all their ancestors. -/
def ChainCall.DrainsValid (t : BlockTree) (rules : ChainRules) (s : ChainState) : ChainCall → Prop
  | processBlock _ _ _ block => ∀ x, WaitsFor t s block x → GoodBlock t rules x
  | _ => False

lemma ChainCall.DrainsValid.isBlock {call : ChainCall} (h : call.DrainsValid t rules s) :
    call.IsBlock fun _ => True := by
  cases call with
  | processBlock => exact trivial
  | processBlockHeader | invalidateBlock => exact h

lemma ChainTrace.mono (h : ChainTrace t rules allowed s)
    (hall : ∀ s call, allowed s call → allowed' s call) : ChainTrace t rules allowed' s := by
  induction h with
  | start => exact .start
  | step _ hcall ih => exact .step ih (hall _ _ hcall)

end HandshakeNode
