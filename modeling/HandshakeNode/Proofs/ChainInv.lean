import HandshakeNode.ChainTrace
import HandshakeNode.Proofs.Orphans

/-!
# What every call keeps

The best chain has no block that is known to be invalid, blocks are stored after their parents, and
no block of the pool is stored (`ChainState.Sound`). A block that is accepted gets a node
(`Stored`) which is then connected (`Connects`).
-/

namespace HandshakeNode

open BlockStatus List Finmap

namespace ChainState

variable {t : BlockTree} {s : ChainState}

structure Sound (t : BlockTree) (s : ChainState) : Prop where
  wf : s.Wf t
  pool : s.PoolOk t
  clean : ∀ x ∈ s.bestChain, s.knownInvalid x = false
  best_data : ∀ x ∈ s.bestChain, (s.status x).haveData = true
  data_closed : ∀ x ∈ s.nodes, (s.status x).haveData = true →
    ∀ y ∈ s.branch x, (s.status y).haveData = true
  /-- A header whose block was never checked is invalid only because of an ancestor. -/
  headerOnly : ∀ x ∈ s.nodes, (s.status x).haveData = false → s.knownInvalid x = true →
    s.knownInvalid (t.prevBlock x) = true
  pool_data : ∀ x ∈ s.orphans, s.blockExists x = false

lemma blockExists_iff : s.blockExists x = true ↔ x ∈ s.nodes ∧ (s.status x).haveData = true := by
  simp [blockExists]

lemma Sound.genesis_mem (h : s.Sound t) : t.genesis ∈ s.bestChain := h.wf.best.root_mem

lemma Sound.best_exists (h : s.Sound t) (hx : x ∈ s.bestChain) : s.blockExists x = true :=
  blockExists_iff.2 ⟨h.wf.best_mem x hx, h.best_data x hx⟩

lemma Sound.ne_of_isNew (h : s.Sound t) (hblock : s.blockExists block = false)
    (hx : s.blockExists x = true) (hy : y ∈ s.branch x) : y ≠ block := by
  rintro rfl
  obtain ⟨hmem, hdata⟩ := blockExists_iff.1 hx
  have hexists := blockExists_iff.2 ⟨h.wf.closed x hmem y hy, h.data_closed x hmem hdata y hy⟩
  cases hexists.symm.trans hblock

lemma Sound.ne_genesis (h : s.Sound t) (hblock : s.blockExists block = false) :
    block ≠ t.genesis :=
  (h.ne_of_isNew hblock (h.best_exists h.genesis_mem) (mem_branch_self _ _)).symm

structure Stored (t : BlockTree) (block : Hash) (s s₁ : ChainState) : Prop
    extends Grown t block s s₁ where
  status : ∀ x, x ≠ block → s₁.status x = s.status x
  haveData : (s₁.status block).haveData = true
  knownValid : (s₁.status block).knownValid = true →
    block ∈ s.nodes ∧ (s.status block).knownValid = true
  notInvalid : s₁.knownInvalid block = false
  isNew : s.blockExists block = false

lemma Sound.stored (h : s.Sound t) (hblock : s.blockExists block = false)
    (hvalid : s.knownInvalid (t.prevBlock block) = false) :
    Stored t block s (s.storeNode t block) := by
  have hne := h.ne_genesis hblock
  unfold storeNode
  split_ifs with hmem
  · have hdata : (s.status block).haveData = false := by simpa [blockExists, hmem] using hblock
    have hself (st : BlockStatus) :
        (s.setStatusFlags block st).status block = (s.status block).set st := by
      rw [status_setStatusFlags, if_pos rfl]
    have hgrown := h.wf.grown_self hmem hne
    refine ⟨⟨hgrown.mem_nodes, hgrown.branch_self, fun _ _ => rfl, rfl, rfl, rfl, rfl⟩,
      fun x hx => ?_, ?_, fun hv => ⟨hmem, ?_⟩, ?_, hblock⟩
    · rw [status_setStatusFlags, if_neg hx]
    · rw [hself]
      simp [BlockStatus.haveData, BlockStatus.set, statusDataStored]
    · exact knownValid_of_setAll (l := [block]) hv rfl
    · rw [knownInvalid, hself]
      by_contra hinv
      rw [h.headerOnly block hmem hdata (by simpa [knownInvalid] using hinv)] at hvalid
      cases hvalid
  · have hself (l : List Hash) (st : BlockStatus) :
        (s.addNode block l st).status block = st := by simp [addNode]
    refine ⟨grown_addNode hmem _, fun x hx => ?_, ?_, fun hv => ?_, ?_, hblock⟩
    · simp [addNode, hx]
    · rw [hself]
      rfl
    · rw [hself] at hv
      cases hv
    · rw [knownInvalid, hself]
      rfl

namespace Stored

variable (st : Stored t block s s₁)

include st

lemma knownInvalid_of_ne (hx : x ≠ block) : s₁.knownInvalid x = s.knownInvalid x := by
  rw [knownInvalid, st.status x hx, knownInvalid]

lemma notMem_bestChain (h : s.Sound t) : block ∉ s₁.bestChain := by
  intro hmem
  cases (h.best_exists (st.bestChain ▸ hmem)).symm.trans st.isNew

lemma flagsSet (h : s.Sound t) (hs : s₁.Sound t) (hc : Connects t rules fastAdd block s₁ r s') :
    FlagsSet (s₁.sideOf block) s₁ s' :=
  hc.flagsSet hs.wf st.mem_self hs.clean (st.notMem_bestChain h)

lemma sound (h : s.Sound t) (hprev : s.blockExists (t.prevBlock block) = true)
    (hvalid : s.knownInvalid (t.prevBlock block) = false) (horphan : block ∉ s.orphans) :
    s₁.Sound t := by
  obtain ⟨hmem, hdata⟩ := blockExists_iff.1 hprev
  have hhave {y : Hash} (hy : (s.status y).haveData = true) : (s₁.status y).haveData = true := by
    by_cases hyb : y = block
    · exact hyb ▸ st.haveData
    · rw [st.status y hyb]
      exact hy
  refine ⟨st.wf h.wf (h.ne_genesis st.isNew) hmem, h.pool.congr st.orphans st.prevOrphans, fun x hx => ?_,
    fun x hx => ?_, fun x hx hxd y hy => ?_, fun x hx hxd hinv => ?_, fun x hx => ?_⟩
  · have hne : x ≠ block := fun hxb => st.notMem_bestChain h (hxb ▸ hx)
    rw [st.knownInvalid_of_ne hne]
    exact h.clean x (st.bestChain ▸ hx)
  · exact hhave (h.best_data x (st.bestChain ▸ hx))
  · by_cases hxb : x = block
    · subst hxb
      rw [st.branch_self] at hy
      rcases mem_cons.1 hy with rfl | hy
      · exact st.haveData
      · exact hhave (h.data_closed _ hmem hdata y hy)
    · have hxn : x ∈ s.nodes := ((st.mem_nodes x).1 hx).resolve_left hxb
      rw [st.status x hxb] at hxd
      rw [st.branch_of_mem x hxn] at hy
      exact hhave (h.data_closed x hxn hxd y hy)
  · by_cases hxb : x = block
    · subst hxb
      rw [st.notInvalid] at hinv
      cases hinv
    · have hxn : x ∈ s.nodes := ((st.mem_nodes x).1 hx).resolve_left hxb
      rw [st.status x hxb] at hxd
      rw [st.knownInvalid_of_ne hxb] at hinv
      have hp := h.headerOnly x hxn hxd hinv
      -- `block` itself was not known to be invalid, since its parent is not
      have hpb : t.prevBlock x ≠ block := by
        rintro rfl
        have hpn := (h.wf.branch_of_ne hxn (h.ne_genesis (by simp [blockExists, hxd]))).2
        rw [h.headerOnly _ hpn (by simpa [blockExists, hpn] using st.isNew) hp] at hvalid
        cases hvalid
      rw [st.knownInvalid_of_ne hpb]
      exact hp
  · rw [st.orphans] at hx
    have hxb : x ≠ block := fun hxb => horphan (hxb ▸ hx)
    have hnot := h.pool_data x hx
    rw [← Bool.not_eq_true, blockExists_iff, not_and] at hnot ⊢
    intro hxn hxd
    rw [st.status x hxb] at hxd
    exact hnot (((st.mem_nodes x).1 hxn).resolve_left hxb) hxd

end Stored

lemma Connects.clean (h : s.Sound t) (hmem : node ∈ s.nodes) (hoff : node ∉ s.bestChain)
    (hself : s.knownInvalid node = false) (hc : Connects t rules fastAdd node s r s') :
    ∀ x ∈ s'.bestChain, s'.knownInvalid x = false := by
  have hflags := hc.flagsSet h.wf hmem h.clean hoff
  have hold {x : Hash} (hx : x ∈ s.bestChain) : s'.knownInvalid x = false := by
    rw [knownInvalid, hflags.off x fun hside => (mem_sideOf hside).2 hx]
    exact h.clean x hx
  intro x hx
  cases hc with
  | refused | unspent | side => exact hold hx
  | extended =>
    rcases mem_cons.1 hx with rfl | hx
    · simpa [knownInvalid, status_setStatusFlags] using hself
    · exact hold hx
  | dropped => exact hold (by simpa using hx)
  | failed _ _ _ hrej => exact hold (hrej.bestChain ▸ hx)
  | reorganized _ _ hlive =>
    exact (knownInvalid_setAll_valid s _ x).trans (hlive x hx)

lemma Sound.connects (h : s.Sound t) (hmem : node ∈ s.nodes) (hne : node ≠ t.genesis)
    (hdata : (s.status node).haveData = true) (hoff : node ∉ s.bestChain)
    (hself : s.knownInvalid node = false) (hc : Connects t rules fastAdd node s r s') :
    s'.Sound t := by
  have hflags := hc.flagsSet h.wf hmem h.clean hoff
  have hsame := hc.sameTree
  have hbest := hc.bestChain h.wf hmem hne
  have hbranch := branch_congr hsame.nodes
  have hexists (x : Hash) : s'.blockExists x = s.blockExists x := by
    rw [blockExists, blockExists, hsame.nodes, hflags.haveData]
  refine ⟨?_, h.pool.congr hsame.orphans hsame.prevOrphans, hc.clean h hmem hoff hself, ?_, ?_, ?_, ?_⟩
  · rcases hbest with hbest | hbest
    · exact h.wf.congr hsame.nodes hbest hsame.bestHeader
    · exact (h.wf.setBest hmem).congr hsame.nodes hbest hsame.bestHeader
  · intro x hx
    rw [hflags.haveData]
    rcases hbest with hbest | hbest
    · exact h.best_data x (hbest ▸ hx)
    · exact h.data_closed node hmem hdata x (hbest ▸ hx)
  · intro x hx hxd y hy
    rw [hflags.haveData] at hxd ⊢
    exact h.data_closed x (hsame.nodes ▸ hx) hxd y (hbranch x ▸ hy)
  · intro x hx hxd hinv
    rw [hflags.haveData] at hxd
    -- only blocks with their data are marked
    have hout : x ∉ s.sideOf node := fun hside => by
      rw [h.data_closed node hmem hdata x (mem_sideOf hside).1] at hxd
      cases hxd
    rw [knownInvalid, hflags.off x hout] at hinv
    exact hflags.knownInvalid _ (h.headerOnly x (hsame.nodes ▸ hx) hxd hinv)
  · intro x hx
    rw [hexists]
    exact h.pool_data x (hsame.orphans ▸ hx)

lemma Connects.knownValid (hc : Connects t rules fastAdd node s r s')
    (hx : (s'.status x).knownValid = true) :
    (s.status x).knownValid = true ∨ (x = node ∧ s.tipVerdict rules fastAdd node = none) ∨
      s.Passes rules x := by
  have hset {l : List Hash} {f : BlockStatus}
      (hv : ((s.setAll l f).status x).knownValid = true) :
      (s.status x).knownValid = true ∨ x ∈ l := by
    rw [status_setAll] at hv
    split_ifs at hv with hmem
    · exact .inr hmem
    · exact .inl hv
  cases hc with
  | refused => exact .inl (knownValid_of_setAll (l := [node]) hx rfl)
  | extended hprev hverdict =>
    exact (hset (l := [node]) hx).imp_right fun hxn => .inl ⟨mem_singleton.1 hxn, hverdict⟩
  | unspent | side => exact .inl hx
  | dropped => exact .inl (knownValid_of_setAll hx rfl)
  | failed _ _ _ hrej =>
    cases hrej with
    | noData hattach hbelow | recheck hattach hbelow =>
      exact (hset hx).imp_right fun hmem => .inr (hbelow x hmem)
    | @connect b a n e hattach hbelow =>
      have hn := knownValid_of_setAll (l := [n]) (knownValid_of_setAll hx rfl) rfl
      exact (hset hn).imp_right fun hmem => .inr (hbelow x hmem)
  | reorganized _ _ _ hpass =>
    exact (hset hx).imp_right fun hmem => .inr (hpass x (mem_reverse.1 hmem))

/-- A block is refused for its parent or for its own context, or else it is stored and connected. -/
inductive Acceptance (t : BlockTree) (rules : ChainRules) (fastAdd : Bool) (block : Hash)
    (s : ChainState) : Result Bool → ChainState → Prop
  | invalidAncestor (hprev : s.knownInvalid (t.prevBlock block) = true) (e : Err) :
      Acceptance t rules fastAdd block s (.error e) s
  | context {e : RuleError}
      (he : rules.context fastAdd (block :: s.branch (t.prevBlock block)) = some e) :
      Acceptance t rules fastAdd block s (.error e.err) s
  | connects {s₁ s' : ChainState} {r : Result Bool}
      (hprev : s.knownInvalid (t.prevBlock block) = false)
      (hcontext : rules.context fastAdd (block :: s.branch (t.prevBlock block)) = none)
      (hstored : Stored t block s s₁) (hsound : s₁.Sound t)
      (hc : Connects t rules fastAdd block s₁ r s') : Acceptance t rules fastAdd block s r s'

/-- What becomes of a block that is not stored, of a parent that is. -/
structure Accepts (t : BlockTree) (rules : ChainRules) (fastAdd : Bool) (block : Hash)
    (s : ChainState) (r : Result Bool) (s' : ChainState) : Prop where
  isNew : s.blockExists block = false
  parent : s.blockExists (t.prevBlock block) = true
  outcome : Acceptance t rules fastAdd block s r s'

lemma Sound.accepts (h : s.Sound t) (hblock : s.blockExists block = false)
    (hprev : s.blockExists (t.prevBlock block) = true) (horphan : block ∉ s.orphans)
    {r : Result Bool} (hrun : maybeAcceptBlock t rules fastAdd block s = (r, s')) :
    Accepts t rules fastAdd block s r s' := by
  refine ⟨hblock, hprev, ?_⟩
  obtain ⟨hmem, -⟩ := blockExists_iff.1 hprev
  unfold maybeAcceptBlock at hrun
  simp only at hrun
  split_ifs at hrun with hinv
  · cases hrun
    exact .invalidAncestor hinv _
  · rw [Bool.not_eq_true] at hinv
    cases hctx : rules.context fastAdd (block :: s.branch (t.prevBlock block)) with
    | some e =>
      rw [hctx] at hrun
      cases hrun
      exact .context hctx
    | none =>
      simp only [hctx] at hrun
      have st := h.stored hblock hinv
      have hs := st.sound h hprev hinv horphan
      refine .connects hinv hctx st hs ?_
      have hc := connectBestChain_connects rules hs.wf st.mem_self
        (h.ne_genesis hblock) hs.clean st.notInvalid fastAdd
      rw [hrun] at hc
      exact hc

lemma Accepts.sound {r : Result Bool} (h : s.Sound t) (ha : Accepts t rules fastAdd block s r s') :
    s'.Sound t := by
  cases ha.outcome with
  | invalidAncestor | context => exact h
  | connects hprev hcontext st hs hc =>
    exact hs.connects st.mem_self (h.ne_genesis ha.isNew) st.haveData (st.notMem_bestChain h)
      st.notInvalid hc

lemma Accepts.blockExists_mono {r : Result Bool} (h : s.Sound t)
    (ha : Accepts t rules fastAdd block s r s') (hx : s.blockExists x = true) :
    s'.blockExists x = true := by
  cases ha.outcome with
  | invalidAncestor | context => exact hx
  | connects hprev hcontext st hs hc =>
    have hflags := st.flagsSet h hs hc
    obtain ⟨hmem, hdata⟩ := blockExists_iff.1 hx
    rw [blockExists_iff, hc.sameTree.nodes, hflags.haveData, st.mem_nodes]
    refine ⟨.inr hmem, ?_⟩
    by_cases hxb : x = block
    · exact hxb ▸ st.haveData
    · rw [st.status x hxb]
      exact hdata

lemma Accepts.blockExists_self (h : s.Sound t)
    (ha : Accepts t rules fastAdd block s (.ok isMainChain) s') : s'.blockExists block = true := by
  cases ha.outcome with
  | connects hprev hcontext st hs hc =>
    rw [blockExists_iff, hc.sameTree.nodes, (st.flagsSet h hs hc).haveData, st.mem_nodes]
    exact ⟨.inl rfl, st.haveData⟩

lemma Accepts.orphans {r : Result Bool} (ha : Accepts t rules fastAdd block s r s') :
    s'.orphans = s.orphans ∧ s'.prevOrphans = s.prevOrphans := by
  cases ha.outcome with
  | invalidAncestor | context => exact ⟨rfl, rfl⟩
  | connects _ _ st _ hc =>
    exact ⟨hc.sameTree.orphans.trans st.orphans, hc.sameTree.prevOrphans.trans st.prevOrphans⟩

lemma Sound.forgets (h : s.Sound t) (hf : Forgets t s s') : s'.Sound t := by
  have hbranch := branch_congr hf.nodes
  refine ⟨h.wf.congr hf.nodes hf.bestChain hf.bestHeader, hf.pool h.pool, ?_, ?_, ?_, ?_, ?_⟩
  · rw [hf.bestChain]
    exact fun x hx => by rw [knownInvalid, hf.status]; exact h.clean x hx
  · rw [hf.bestChain, hf.status]
    exact h.best_data
  · rw [hf.nodes, hf.status]
    exact fun x hx hxd y hy => h.data_closed x hx hxd y (hbranch x ▸ hy)
  · simp only [hf.nodes, knownInvalid, hf.status]
    exact h.headerOnly
  · intro x hx
    obtain ⟨o, ho⟩ := mem_iff.1 hx
    rw [blockExists, hf.nodes, hf.status]
    exact h.pool_data x (mem_of_lookup_eq_some (hf.orphans x o ho))

lemma Sound.removeOrphanBlock (h : s.Sound t) (o : OrphanBlock) :
    (s.removeOrphanBlock t o).Sound t := h.forgets (forgets_removeOrphanBlock o)

lemma Sound.insertOrphan (h : s.Sound t) (hpool : o.hash ∉ s.orphans)
    (hnew : s.blockExists o.hash = false) : (s.insertOrphan t o).Sound t := by
  refine ⟨h.wf.congr rfl rfl rfl, h.pool.insertOrphan hpool, h.clean, h.best_data, h.data_closed,
    h.headerOnly, fun x hx => ?_⟩
  rcases mem_insert.1 hx with rfl | hx
  · exact hnew
  · exact h.pool_data x hx

lemma Sound.waiting (h : s.Sound t) (ho : o ∈ s.waiting x) :
    s.blockExists o.hash = false ∧ t.prevBlock o.hash = x ∧
      o.hash ∉ (s.removeOrphanBlock t o).orphans := by
  obtain ⟨hmem, hprev⟩ := (h.pool.mem_waiting x o).1 ho
  refine ⟨h.pool_data _ (mem_of_lookup_eq_some hmem), hprev, ?_⟩
  rw [← lookup_eq_none, lookup_removeOrphanBlock, if_pos rfl]

lemma Sound.processOrphans {I : List Hash → ChainState → Prop} {E : Err → ChainState → Prop}
    (hpop : ∀ x q s, I (x :: q) s → s.Sound t → s.waiting x = [] → I q s)
    (haccept : ∀ x q s o, I (x :: q) s → s.Sound t → s.blockExists x = true → o ∈ s.waiting x →
      ∀ r s', Accepts t rules fastAdd o.hash (s.removeOrphanBlock t o) r s' →
        (∀ e, r = .error e → E e s') ∧ ∀ b, r = .ok b → I (x :: q ++ [o.hash]) s') (h : s.Sound t)
    (hq : ∀ x ∈ q, s.blockExists x = true) (hI : I q s)
    (hfuel : 2 * s.orphans.keys.card + q.length < fuel) {r : Result Unit}
    (hrun : processOrphans t rules fastAdd fuel q s = (r, s')) :
    s'.Sound t ∧ (∀ e, r = .error e → E e s') ∧ (r = .ok () → I [] s') := by
  have hrule := processOrphans_rule (t := t) (P := fun q s => s.Sound t ∧
    (∀ x ∈ q, s.blockExists x = true) ∧ I q s) (E := fun e s => s.Sound t ∧ E e s)
    (fun q s hP => hP.1.pool) ?_ ?_ fuel q s ⟨h, hq, hI⟩ hfuel r s' hrun
  · cases r with
    | error e =>
      obtain ⟨hs, hE⟩ := hrule.1 e rfl
      exact ⟨hs, fun e' he => by cases he; exact hE, by simp⟩
    | ok u =>
      obtain ⟨hs, -, hI⟩ := hrule.2 rfl
      exact ⟨hs, by simp, fun _ => hI⟩
  · rintro x q s ⟨hs, hq, hI⟩ hw
    exact ⟨hs, (forall_mem_cons.1 hq).2, hpop x q s hI hs hw⟩
  · rintro x q s o rest ⟨hs, hq, hI⟩ hw r s' hacc
    have ho : o ∈ s.waiting x := hw ▸ mem_cons_self
    have hx := hq x mem_cons_self
    obtain ⟨hnew, hprev, hout⟩ := hs.waiting ho
    have hs1 := hs.removeOrphanBlock o
    have hkeep (y : Hash) : (s.removeOrphanBlock t o).blockExists y = s.blockExists y := rfl
    have ha := hs1.accepts (hkeep _ ▸ hnew) (hprev ▸ hx) hout hacc
    obtain ⟨hE, hok⟩ := haccept x q s o hI hs hx ho r s' ha
    refine ⟨ha.orphans.1, fun e he => ⟨ha.sound hs1, hE e he⟩,
      fun b hb => ⟨ha.sound hs1, ?_, hok b hb⟩⟩
    subst hb
    intro y hy
    rcases mem_append.1 hy with hy | hy
    · exact ha.blockExists_mono hs1 (hq y hy)
    · rw [mem_singleton.1 hy]
      exact ha.blockExists_self hs1

/-! ## Processing a block -/

/-- What `ProcessBlock` does: nothing, or it keeps the block as an orphan, or it tries to accept the
block and then the orphans below it. -/
inductive Processes (t : BlockTree) (rules : ChainRules) (order : RangeOrder Hash) (now : ℤ)
    (fastAdd : Bool) (block : Hash) (s : ChainState) : Result (Bool × Bool) → ChainState → Prop
  | refused (e : Err) : Processes t rules order now fastAdd block s (.error e) s
  | orphan (hnew : s.blockExists block = false) (hpool : block ∉ s.orphans)
      (hprev : s.blockExists (t.prevBlock block) = false) :
      Processes t rules order now fastAdd block s (.ok (false, true))
        (s.addOrphanBlock t order now block)
  | rejected {e : Err} {s' : ChainState} (hpool : block ∉ s.orphans)
      (ha : Accepts t rules fastAdd block s (.error e) s') :
      Processes t rules order now fastAdd block s (.error e) s'
  | accepted {isMainChain : Bool} {s₁ s' : ChainState} {r : Result Unit}
      (hpool : block ∉ s.orphans) (ha : Accepts t rules fastAdd block s (.ok isMainChain) s₁)
      (hloop : processOrphans t rules fastAdd (2 * s₁.orphans.keys.card + 2) [block] s₁ = (r, s')) :
      Processes t rules order now fastAdd block s (r.map fun _ => (isMainChain, false)) s'

lemma Sound.processes (h : s.Sound t)
    (hrun : processBlock t rules order now fastAdd block s = (r, s')) :
    Processes t rules order now fastAdd block s r s' := by
  unfold processBlock at hrun
  split at hrun
  · cases hrun
    exact .refused _
  split at hrun
  · cases hrun
    exact .refused _
  rename_i hnew hpool
  rw [Bool.not_eq_true] at hnew
  split at hrun
  · cases hrun
    exact .refused _
  split at hrun
  · cases hrun
    exact .refused _
  cases hprev : s.blockExists (t.prevBlock block) with
  | false =>
    rw [hprev] at hrun
    cases hrun
    exact .orphan hnew hpool hprev
  | true =>
    rw [hprev] at hrun
    rcases hacc : maybeAcceptBlock t rules fastAdd block s with ⟨r1, s₁⟩
    have ha := h.accepts hnew hprev hpool hacc
    rw [hacc] at hrun
    cases r1 with
    | error e =>
      cases hrun
      exact .rejected hpool ha
    | ok isMainChain =>
      simp only at hrun
      rcases hloop : ChainState.processOrphans t rules fastAdd (2 * s₁.orphans.keys.card + 2) [block]
        s₁ with ⟨r2, s2⟩
      rw [hloop] at hrun
      cases r2 with
      | error e | ok u =>
        cases hrun
        exact .accepted hpool ha hloop

lemma Sound.addOrphanBlock (h : s.Sound t) (order : RangeOrder Hash) (now : ℤ)
    (hnew : s.blockExists block = false) (hpool : block ∉ s.orphans) :
    (s.addOrphanBlock t order now block).Sound t := by
  obtain ⟨s₁, hf, heq⟩ := addOrphanBlock_cases (t := t) (s := s) order now block
  rw [heq]
  refine (h.forgets hf).insertOrphan (fun hmem => ?_) ?_
  · obtain ⟨o, ho⟩ := mem_iff.1 hmem
    exact hpool (mem_of_lookup_eq_some (hf.orphans _ o ho))
  · rw [blockExists, hf.nodes, hf.status]
    exact hnew

lemma SameChain.blockExists (h : SameChain s s') (x : Hash) :
    s'.blockExists x = s.blockExists x := by
  rw [ChainState.blockExists, ChainState.blockExists, h.nodes, h.status]

lemma sameChain_removeOrphanBlock (o : OrphanBlock) : SameChain s (s.removeOrphanBlock t o) :=
  (forgets_removeOrphanBlock o).toSameChain

lemma sameChain_addOrphanBlock (order : RangeOrder Hash) (now : ℤ) (block : Hash) :
    SameChain s (s.addOrphanBlock t order now block) := by
  obtain ⟨s₁, hf, heq⟩ := addOrphanBlock_cases (t := t) (s := s) order now block
  rw [heq]
  exact { hf with }

/-- The orphan waits for the block, itself or through other orphans. -/
inductive WaitsFor (t : BlockTree) (s : ChainState) (block : Hash) : Hash → Prop
  | child {x : Hash} (hx : x ∈ s.orphans) (hprev : t.prevBlock x = block) : WaitsFor t s block x
  | later {x y : Hash} (hy : WaitsFor t s block y) (hx : x ∈ s.orphans) (hprev : t.prevBlock x = y) :
      WaitsFor t s block x

lemma Sound.waitsFor (hs : s.Sound t) (hsub : ∀ x ∈ s.orphans, x ∈ s0.orphans)
    (hx : x = block ∨ WaitsFor t s0 block x) (ho : o ∈ s.waiting x) :
    WaitsFor t s0 block o.hash := by
  obtain ⟨hlookup, hprev⟩ := (hs.pool.mem_waiting x o).1 ho
  have hmem := hsub _ (mem_of_lookup_eq_some hlookup)
  rcases hx with rfl | hx
  · exact .child hmem hprev
  · exact .later hx hmem hprev

lemma mem_removeOrphanBlock :
    x ∈ (s.removeOrphanBlock t o).orphans ↔ x ≠ o.hash ∧ x ∈ s.orphans := by
  simp [removeOrphanBlock]

/-- An invariant of the whole call, from what it does to the block and to the orphans that wait for
it. -/
theorem Processes.inv_waitsFor {P : ChainState → Prop} (h : s.Sound t) (hP : P s)
    (hpool : ∀ s s', P s → SameChain s s' → P s')
    (haccept : ∀ x, x = block ∨ WaitsFor t s block x → ∀ s r s', s.Sound t → P s →
      Accepts t rules fastAdd x s r s' → P s')
    (hp : Processes t rules order now fastAdd block s r s') : s'.Sound t ∧ P s' := by
  cases hp with
  | refused => exact ⟨h, hP⟩
  | orphan hnew hout hprev =>
    exact ⟨h.addOrphanBlock order now hnew hout, hpool s _ hP (sameChain_addOrphanBlock order now _)⟩
  | rejected hout ha => exact ⟨ha.sound h, haccept _ (.inl rfl) s _ _ h hP ha⟩
  | @accepted isMainChain s₁ _ r hout ha hloop =>
    -- the orphans that are left were there before, and all blocks of the queue were waited for
    have hloop := (ha.sound h).processOrphans
      (I := fun q s' => P s' ∧ (∀ x ∈ s'.orphans, x ∈ s.orphans) ∧
        ∀ x ∈ q, x = block ∨ WaitsFor t s block x)
      (E := fun _ s' => P s') (fun x q s' hI _ _ => ⟨hI.1, hI.2.1, (forall_mem_cons.1 hI.2.2).2⟩)
      ?_ (q := [block]) ?_ ⟨haccept _ (.inl rfl) s _ _ h hP ha, ?_, by simp⟩ (by simp) hloop
    · refine ⟨hloop.1, ?_⟩
      cases r with
      | error e => exact hloop.2.1 e rfl
      | ok u => exact (hloop.2.2 rfl).1
    · rintro x q s2 o ⟨hP2, hsub, hq⟩ hs hx ho r s3 ha2
      have hwaits := hs.waitsFor hsub (hq x mem_cons_self) ho
      have hP3 := haccept _ (.inr hwaits) _ r s3 (hs.removeOrphanBlock o)
        (hpool s2 _ hP2 (sameChain_removeOrphanBlock o)) ha2
      refine ⟨fun _ _ => hP3, fun _ _ => ⟨hP3, fun y hy => ?_, fun y hy => ?_⟩⟩
      · rw [ha2.orphans.1, mem_removeOrphanBlock] at hy
        exact hsub y hy.2
      · rcases mem_append.1 hy with hy | hy
        · exact hq y hy
        · exact mem_singleton.1 hy ▸ .inr hwaits
    · simpa using ha.blockExists_self h
    · exact fun x hx => ha.orphans.1 ▸ hx

lemma Processes.inv {P : ChainState → Prop} (h : s.Sound t) (hP : P s)
    (hpool : ∀ s s', P s → SameChain s s' → P s')
    (haccept : ∀ x s r s', s.Sound t → P s → Accepts t rules fastAdd x s r s' → P s')
    (hp : Processes t rules order now fastAdd block s r s') : s'.Sound t ∧ P s' :=
  hp.inv_waitsFor h hP hpool fun x _ => haccept x

/-! ## The first state -/

lemma mem_initial : x ∈ (initial t).nodes ↔ x = t.genesis := by
  simp [initial]

lemma branch_initial : (initial t).branch t.genesis = [t.genesis] := by
  simp [branch, initial]

lemma status_initial : (initial t).status t.genesis = statusDataStored.set statusValid := by
  simp [initial]

lemma sound_initial : (initial t).Sound t := by
  refine ⟨⟨mem_initial.2 rfl, ?_, ?_, .root, ?_, .root, ?_⟩, ⟨?_, ?_, ?_⟩, ?_, ?_, ?_, ?_, ?_⟩
  · intro x hx
    rw [mem_initial.1 hx, branch_initial]
    exact .root
  · intro x hx y hy
    rw [mem_initial.1 hx, branch_initial] at hy
    exact mem_initial.2 (mem_singleton.1 hy)
  · exact fun x hx => mem_initial.2 (mem_singleton.1 hx)
  · exact fun x hx => mem_initial.2 (mem_singleton.1 hx)
  · simp [initial, waiting]
  · simp [initial, waiting]
  · simp [initial]
  · intro x hx
    rw [mem_singleton.1 hx, knownInvalid, status_initial]
    rfl
  · intro x hx
    rw [mem_singleton.1 hx, status_initial]
    rfl
  · intro x hx _ y hy
    rw [mem_initial.1 hx, branch_initial] at hy
    rw [mem_singleton.1 hy, status_initial]
    rfl
  · intro x hx hdata
    rw [mem_initial.1 hx, status_initial] at hdata
    cases hdata
  · exact fun x hx => absurd hx notMem_empty

end ChainState

open ChainState

lemma ChainTrace.inv_blocks {t : BlockTree} {P : ChainState → Prop}
    (h : ChainTrace t rules (fun _ call => call.IsBlock allowed) s) (hstart : P (.initial t))
    (hpool : ∀ s s', P s → SameChain s s' → P s')
    (haccept : ∀ fastAdd x s r s', allowed fastAdd → s.Sound t → P s →
      Accepts t rules fastAdd x s r s' → P s') :
    s.Sound t ∧ P s := by
  refine h.inv (P := fun s => s.Sound t ∧ P s) ⟨sound_initial, hstart⟩ ?_
  rintro s call ⟨hs, hP⟩ hcall
  cases call with
  | processBlock order now fastAdd block =>
    refine (hs.processes rfl).inv hs hP hpool fun x s r s' hs h ha => ?_
    exact haccept fastAdd x s r s' hcall hs h ha
  | processBlockHeader | invalidateBlock => exact hcall.elim

end HandshakeNode
