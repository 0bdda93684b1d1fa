import HandshakeNode.Proofs.FastAdd
import HandshakeNode.Proofs.InvalidateResult

/-!
# The best header chain and known invalid blocks

A header is refused if its parent is known to be invalid, but a block that fails its checks leaves
the headers above it as they were. If headers come only for valid branches, and blocks are
invalidated by hand only where all their descendants are found, then marks reach every descendant of
a valid block that is marked (`HeadersOk`), no header of a marked branch is accepted and the best
header chain stays clean (`headers_stay_valid`).
-/

namespace HandshakeNode

open BlockStatus List

namespace ChainState

variable {t : BlockTree} {s s₁ s' : ChainState}

lemma Sound.reflag (h : s.Sound t) (w : s'.Wf t) (hnodes : s'.nodes = s.nodes)
    (horphans : s'.orphans = s.orphans) (hprev : s'.prevOrphans = s.prevOrphans)
    (hdata : ∀ y, (s'.status y).haveData = (s.status y).haveData)
    (hmono : ∀ y, s.knownInvalid y = true → s'.knownInvalid y = true)
    (hnew : ∀ y ∈ s.nodes, (s.status y).haveData = false → s.knownInvalid y = false →
      s'.knownInvalid y = true → s'.knownInvalid (t.prevBlock y) = true)
    (hclean : ∀ y ∈ s'.bestChain, s'.knownInvalid y = false)
    (hbest : ∀ y ∈ s'.bestChain, (s.status y).haveData = true) : s'.Sound t := by
  have hexists (y : Hash) : s'.blockExists y = s.blockExists y := by
    rw [blockExists, blockExists, hnodes, hdata]
  refine ⟨w, h.pool.congr horphans hprev, hclean, fun y hy => (hdata y).trans (hbest y hy), ?_, ?_, ?_⟩
  · intro y hy hyd z hz
    rw [hdata] at hyd ⊢
    exact h.data_closed y (hnodes ▸ hy) hyd z (branch_congr hnodes y ▸ hz)
  · intro y hy hyd hinv
    rw [hdata] at hyd
    cases hold : s.knownInvalid y with
    | true => exact hmono _ (h.headerOnly y (hnodes ▸ hy) hyd hold)
    | false => exact hnew y (hnodes ▸ hy) hyd hold hinv
  · intro y hy
    rw [hexists]
    exact h.pool_data y (horphans ▸ hy)

/-- A block that is valid with its ancestors is known to be invalid only together with all its
descendants. -/
def MarksDown (t : BlockTree) (rules : ChainRules) (s : ChainState) : Prop :=
  ∀ y ∈ s.nodes, ∀ a ∈ s.branch y, s.knownInvalid a = true → GoodBlock t rules a →
    s.knownInvalid y = true

structure HeadersOk (t : BlockTree) (rules : ChainRules) (s : ChainState) : Prop where
  marksDown : MarksDown t rules s
  good : ∀ y ∈ s.bestHeader, GoodBlock t rules y
  clean : ∀ y ∈ s.bestHeader, s.knownInvalid y = false

lemma MarksDown.not_good (h : MarksDown t rules s) (hy : y ∈ s.nodes)
    (ha : a ∈ s.branch y) (hinv : s.knownInvalid a = true) (hvalid : s.knownInvalid y = false) :
    ¬ GoodBlock t rules a := by
  intro hgood
  rw [h y hy a ha hinv hgood] at hvalid
  cases hvalid

lemma MarksDown.setHeader (h : MarksDown t rules s) (w : s.Wf t) (hb : b ∈ s.nodes)
    (hvalid : s.knownInvalid b = false) (hgood : GoodBlock t rules b) :
    HeadersOk t rules { s with bestHeader := s.branch b } := by
  refine ⟨h, fun y hy => hgood.of_mem w hb hy, fun y hy => ?_⟩
  by_contra hinv
  rw [Bool.not_eq_false] at hinv
  exact h.not_good hb hy hinv hvalid (hgood.of_mem w hb hy)

namespace HeadersOk

lemma sameChain (h : HeadersOk t rules s) (hc : SameChain s s') : HeadersOk t rules s' := by
  refine ⟨?_, hc.bestHeader ▸ h.good, ?_⟩
  · simpa only [MarksDown, hc.nodes, branch_congr hc.nodes, ChainState.knownInvalid, hc.status]
      using h.marksDown
  · simpa only [hc.bestHeader, ChainState.knownInvalid, hc.status] using h.clean

lemma reflag (h : HeadersOk t rules s) (w : s.Wf t) (hnodes : s'.nodes = s.nodes)
    (hheader : s'.bestHeader = s.bestHeader)
    (hmono : ∀ y, s.knownInvalid y = true → s'.knownInvalid y = true)
    (hnew : ∀ y ∈ s.nodes, s.knownInvalid y = false → s'.knownInvalid y = true →
      ¬ GoodBlock t rules y) : HeadersOk t rules s' := by
  refine ⟨fun y hy a ha hinv hgood => ?_, hheader ▸ h.good, fun y hy => ?_⟩
  · rw [hnodes] at hy
    rw [branch_congr hnodes] at ha
    cases hold : s.knownInvalid a with
    | true => exact hmono y (h.marksDown y hy a ha hold hgood)
    | false => exact absurd hgood (hnew a (w.closed y hy a ha) hold hinv)
  · rw [hheader] at hy
    by_contra hinv
    rw [Bool.not_eq_false] at hinv
    exact hnew y (w.header_mem y hy) (h.clean y hy) hinv (h.good y hy)

end HeadersOk

lemma not_good_of_connect (w : s.Wf t) (hy : y ∈ s.nodes) (ha : a ∈ s.branch y)
    (hne : a ≠ t.genesis) (hcon : rules.connect (s.branch a) ≠ none) : ¬ GoodBlock t rules y :=
  fun hgood => hcon (hgood.valid w hy ha hne).2

/-! ## Blocks and headers -/

lemma HeadersOk.accepts (h : HeadersOk t rules s) (hs : s.Sound t)
    (ha : Accepts t rules fastAdd block s r s') : HeadersOk t rules s' := by
  cases ha.outcome with
  | invalidAncestor | context => exact h
  | @connects s₁ _ _ hvalid _ st hs1 hc =>
    have hmem := st.mem_self
    have hoff := st.notMem_bestChain hs
    have hpn := (blockExists_iff.1 ha.parent).1
    have hinv1 {y : Hash} (hy : s₁.knownInvalid y = true) :
        y ≠ block ∧ s.knownInvalid y = true := by
      have hyb : y ≠ block := by
        rintro rfl
        rw [st.notInvalid] at hy
        cases hy
      exact ⟨hyb, st.knownInvalid_of_ne hyb ▸ hy⟩
    have h1 : HeadersOk t rules s₁ := by
      refine ⟨fun y hy a hay hinv hgood => ?_, st.bestHeader ▸ h.good, fun y hy => ?_⟩
      · obtain ⟨hab, hinv⟩ := hinv1 hinv
        by_cases hyb : y = block
        · subst hyb
          rw [st.branch_self] at hay
          exact absurd hgood
            (h.marksDown.not_good hpn ((mem_cons.1 hay).resolve_left hab) hinv hvalid)
        · have hyn := ((st.mem_nodes y).1 hy).resolve_left hyb
          rw [st.knownInvalid_of_ne hyb]
          exact h.marksDown y hyn a (st.branch_of_mem y hyn ▸ hay) hinv hgood
      · by_contra hinv
        rw [Bool.not_eq_false] at hinv
        have hclean := h.clean y (st.bestHeader ▸ hy)
        rw [(hinv1 hinv).2] at hclean
        cases hclean
    refine h1.reflag hs1.wf hc.sameTree.nodes hc.sameTree.bestHeader
      (st.flagsSet hs hs1 hc).knownInvalid ?_
    intro y hy hold hinv
    obtain ⟨-, z, hz, hzside, hcase⟩ := hc.blame hs1 hmem hoff hold hinv
    obtain ⟨hzb, hzout⟩ := mem_sideOf hzside
    rcases hcase with hzinv | hcon
    · exact fun hgood =>
        h1.marksDown.not_good hmem hzb hzinv st.notInvalid (hgood.of_mem hs1.wf hy hz)
    · exact not_good_of_connect hs1.wf hy hz (hs1.wf.ne_genesis hzout) hcon

lemma HeadersOk.headed (h : HeadersOk t rules s) (w : s.Wf t) (hparent : t.prevBlock x ∈ s.nodes)
    (hprev : s.knownInvalid (t.prevBlock x) = false)
    (hself : x ∈ s.nodes → s.knownInvalid x = false) (hh : Headed t x s s₁) :
    HeadersOk t rules s₁ := by
  refine ⟨fun y hy a ha hinv hgood => ?_, hh.bestHeader ▸ h.good, fun y hy => ?_⟩
  · by_cases hyx : y = x
    · subst hyx
      rw [hh.branch_self] at ha
      rcases mem_cons.1 ha with rfl | ha
      · exact hinv
      · rw [hh.knownInvalid_of_mem (w.closed _ hparent a ha)] at hinv
        exact absurd hgood (h.marksDown.not_good hparent ha hinv hprev)
    · have hyn := ((hh.mem_nodes y).1 hy).resolve_left hyx
      rw [hh.branch_of_mem y hyn] at ha
      rw [hh.knownInvalid_of_mem (w.closed y hyn a ha)] at hinv
      rw [hh.knownInvalid_of_mem hyn]
      exact h.marksDown y hyn a ha hinv hgood
  · rw [hh.bestHeader] at hy
    rw [hh.knownInvalid_of_mem (w.header_mem y hy)]
    exact h.clean y hy

lemma HeadersOk.heads (h : HeadersOk t rules s) (w : s.Wf t)
    (hgood : s.knownInvalid (t.prevBlock x) = false → GoodBlock t rules x) (hh : Heads t x s r s') :
    HeadersOk t rules s' := by
  cases hh with
  | refused | known => exact h
  | side hparent hprev hself hne hh => exact h.headed w hparent hprev hself hh
  | best hparent hprev hself hne hh =>
    exact (h.headed w hparent hprev hself hh).marksDown.setHeader (hh.wf w hne hparent)
      hh.mem_self (hh.knownInvalid_self hself) (hgood hprev)

lemma HeadersOk.turns (h : HeadersOk t rules s) (w : s.Wf t)
    (hb : ∀ b, o = some b → b ∈ s.nodes ∧ s.knownInvalid b = false)
    (ht : Turns t rules s o r s') : HeadersOk t rules s' := by
  cases ht with
  | none | stays => exact h
  | @dropped b hout hopen =>
    obtain ⟨hbn, hvalid⟩ := hb b rfl
    have hbg := w.ne_genesis hout
    have hm := marked_setAll s (s.undecided b)
    refine h.reflag w hm.nodes hm.bestHeader (fun y hy => (hm.knownInvalid y).2 (.inr hy)) ?_
    intro y hy hold hinv hgood
    have hund := ((hm.knownInvalid y).1 hinv).resolve_right (Bool.eq_false_iff.1 hold)
    obtain ⟨z, hz, -, hzinv⟩ := w.exists_knownInvalid_of_undecided hbn
      (mt (w.open_of_live hbn hbg) hopen) hund
    have hyb := (takeWhile_sublist _).subset hund
    exact h.marksDown.not_good hbn (w.branch_subset hbn hyb hz) hzinv hvalid (hgood.of_mem w hy hz)
  | @failed b e _ hout hopen hrej =>
    obtain ⟨hbn, -⟩ := hb b rfl
    refine h.reflag w hrej.sameTree.nodes hrej.sameTree.bestHeader hrej.flagsSet.knownInvalid ?_
    intro y hy hold hinv
    obtain ⟨-, z, hz, hzside, hcon⟩ := hrej.blame w hbn hold hinv
    exact not_good_of_connect w hy hz (fun hg => (mem_sideOf hzside).2 (hg ▸ w.best.root_mem)) hcon
  | @moved b hout hopen hpass =>
    have hinv := knownInvalid_setAll_valid s (s.sideOf b).reverse
    have hsame := sameTree_setAll s (s.sideOf b).reverse statusValid
    refine h.reflag w hsame.nodes hsame.bestHeader (fun y hy => (hinv y).trans hy) ?_
    intro y _ hold hnew
    rw [← hinv y] at hold
    exact absurd hnew (Bool.eq_false_iff.1 hold)

lemma Wf.knownInvalid_prev_of_undecided (w : s.Wf t) (hb : b ∈ s.nodes) (hy : y ∈ s.undecided b)
    (hyg : y ≠ t.genesis) :
    s.knownInvalid (t.prevBlock y) = true ∨ t.prevBlock y ∈ s.undecided b := by
  obtain ⟨hyb, hall⟩ := (w.mem_undecided hb).1 hy
  have hyn := w.closed b hb y hyb
  obtain ⟨hbranch, hprev⟩ := w.branch_of_ne hyn hyg
  obtain ⟨p, hp⟩ := w.branch_append hb hyb
  cases hinv : s.knownInvalid (t.prevBlock y) with
  | true => exact .inl rfl
  | false =>
    refine .inr ((w.mem_undecided hb).2 ⟨?_, fun z hz hyz => ?_⟩)
    · exact w.branch_subset hb hyb (w.prev_mem_branch hyn hyg)
    · rw [hp, mem_append, hbranch, mem_cons] at hz
      rcases hz with hz | rfl | hz
      · exact hall z (hp ▸ mem_append_left _ hz)
          (w.mem_branch_of_append hb hp hz (mem_branch_self s y))
      · exact hall z hyb (mem_branch_self s z)
      · rw [w.branch_antisymm hprev hz hyz] at hinv
        exact hinv

lemma Rejects.knownInvalid_prev (w : s.Wf t) (hb : b ∈ s.nodes)
    (hrej : s.Rejects rules (s.sideOf b).reverse e s') (hdata : (s.status y).haveData = false)
    (hold : s.knownInvalid y = false) (hnew : s'.knownInvalid y = true) :
    s'.knownInvalid (t.prevBlock y) = true := by
  obtain ⟨below, n, a, hattach, hy, hn, -, hmarked⟩ := hrej.marks hold hnew
  have hya : y ∈ a := by
    refine (mem_cons.1 hy).resolve_left ?_
    rintro rfl
    rw [hdata] at hn
    cases hn
  -- above the failing block each block's parent is marked too
  refine hmarked _ ?_
  obtain ⟨-, l, hl⟩ := sideOf_of_reverse hattach
  obtain ⟨p, q, hpq⟩ := append_of_mem (mem_reverse.2 hya)
  have hbranch := w.branch b hb
  rw [hl, hpq, append_assoc] at hbranch
  have htail := hbranch.of_append
  cases q with
  | nil => exact htail.tail.2.1 ▸ mem_cons_self
  | cons z q =>
    refine mem_cons_of_mem _ (mem_reverse.1 ?_)
    rw [hpq, show t.prevBlock y = z from htail.tail.2.1.symm]
    simp

lemma Sound.turns (h : s.Sound t) (hb : ∀ b, o = some b → b ∈ s.nodes)
    (ht : Turns t rules s o r s') : s'.Sound t := by
  cases ht with
  | none | stays => exact h
  | @dropped b hout hopen =>
    have hbn := hb b rfl
    have hm := marked_setAll s (s.undecided b)
    have hside := h.wf.undecided_subset hbn hout hopen
    refine h.reflag (hm.wf h.wf) hm.nodes hm.orphans hm.prevOrphans hm.haveData
      (fun y hy => (hm.knownInvalid y).2 (.inr hy)) ?_ ?_ (hm.bestChain ▸ h.best_data)
    · intro y hy _ hold hinv
      have hund := ((hm.knownInvalid y).1 hinv).resolve_right (Bool.eq_false_iff.1 hold)
      have hyg : y ≠ t.genesis := fun hg => (mem_sideOf (hside hund)).2 (hg ▸ h.genesis_mem)
      exact (hm.knownInvalid _).2 (h.wf.knownInvalid_prev_of_undecided hbn hund hyg).symm
    · intro y hy
      rw [hm.bestChain] at hy
      exact hm.knownInvalid_false.2 ⟨fun hund => (mem_sideOf (hside hund)).2 hy, h.clean y hy⟩
  | @failed b e _ hout hopen hrej =>
    have hbn := hb b rfl
    have hsame := hrej.sameTree
    have hflags := hrej.flagsSet
    refine h.reflag (h.wf.congr hsame.nodes hrej.bestChain hsame.bestHeader) hsame.nodes hsame.orphans
      hsame.prevOrphans hflags.haveData hflags.knownInvalid ?_ ?_ (hrej.bestChain ▸ h.best_data)
    · exact fun y _ hdata hold hinv => hrej.knownInvalid_prev h.wf hbn hdata hold hinv
    · intro y hy
      rw [hrej.bestChain] at hy
      have hoff : y ∉ (s.sideOf b).reverse := fun hside =>
        (mem_sideOf (mem_reverse.1 hside)).2 hy
      rw [knownInvalid, hflags.off y hoff]
      exact h.clean y hy
  | @moved b hout hopen hpass =>
    have hbn := hb b rfl
    have hinv := knownInvalid_setAll_valid s (s.sideOf b).reverse
    have hsame := sameTree_setAll s (s.sideOf b).reverse statusValid
    refine h.reflag ((h.wf.setBest hbn).congr hsame.nodes rfl hsame.bestHeader) hsame.nodes
      hsame.orphans hsame.prevOrphans (FlagsSet.setAll s _ statusValid rfl).haveData
      (fun y hy => (hinv y).trans hy) ?_ ?_ ?_
    · intro y _ _ hold hnew
      rw [← hinv y] at hold
      exact absurd hnew (Bool.eq_false_iff.1 hold)
    · intro y hy
      refine (hinv y).trans ?_
      exact (h.wf.mem_sideOf_or hbn hy).elim (hopen.2 y) (h.clean y)
    · exact fun y hy => (h.wf.mem_sideOf_or hbn hy).elim (fun hy => (hpass y hy).1) (h.best_data y)

section

variable (hnodes : s₁.nodes = s.nodes)
  (hinv : ∀ y ∈ s.nodes, s₁.knownInvalid y = true ↔ x ∈ s.branch y ∨ s.knownInvalid y = true)

include hnodes hinv

/-- A block is marked with all its descendants, and the best header moves away from it. -/
theorem HeadersOk.marked (h : HeadersOk t rules s) (w : s.Wf t) (w1 : s₁.Wf t)
    (hne : x ≠ t.genesis) (hheader : s₁.bestHeader = s.bestHeader)
    (hgood : x ∈ s.bestHeader → ∀ y ∈ s.nodes, s.knownInvalid y = false → GoodBlock t rules y)
    (hh : HeaderMoves t s₁ s') : HeadersOk t rules s' := by
  have hbranch := branch_congr hnodes
  have hdown : MarksDown t rules s₁ := by
    intro y hy a ha hainv hagood
    rw [hnodes] at hy
    rw [hbranch] at ha
    rcases (hinv a (w.closed y hy a ha)).1 hainv with hxa | hold
    · exact (hinv y hy).2 (.inl (w.branch_subset hy ha hxa))
    · exact (hinv y hy).2 (.inr (h.marksDown y hy a ha hold hagood))
  have hnew {y : Hash} (hy : y ∈ s.bestHeader) (hyinv : s₁.knownInvalid y = true) :
      x ∈ s.branch y := by
    refine ((hinv y (w.header_mem y hy)).1 hyinv).resolve_right fun hold => ?_
    rw [h.clean y hy] at hold
    cases hold
  obtain ⟨tip, l, htip⟩ := exists_cons_of_ne_nil w.header.ne_nil
  have htipn : tip ∈ s.nodes := w.header_mem tip (htip ▸ mem_cons_self)
  have htipb : s.branch tip = s.bestHeader := by
    rw [htip]
    exact w.branch_eq htipn (htip ▸ w.header)
  have hhead : s₁.bestHeader.head? = some tip := by rw [hheader, htip, List.head?_cons]
  cases hh with
  | kept hkept =>
    refine ⟨hdown, hheader ▸ h.good, fun y hy => ?_⟩
    rw [hheader] at hy
    by_contra hyinv
    rw [Bool.not_eq_false] at hyinv
    have hxt := w.branch_subset htipn (htipb ▸ hy) (hnew hy hyinv)
    have hfalse := hkept tip hhead
    rw [(hinv tip htipn).2 (.inl hxt)] at hfalse
    cases hfalse
  | lost hall =>
    have hg := hnew w.header.root_mem (hall _ (hheader ▸ w.header.root_mem))
    have hb := (w.branch _ w.genesis).unique .root
    rw [branch, hb, mem_singleton] at hg
    exact absurd hg hne
  | @moved b hb hvalid hlost =>
    have hxh : x ∈ s.bestHeader :=
      htipb ▸ hnew (htip ▸ mem_cons_self) (hlost tip hhead)
    have hbn : b ∈ s.nodes := hnodes ▸ hb
    have hbold : s.knownInvalid b = false := by
      by_contra hold
      rw [Bool.not_eq_false] at hold
      rw [(hinv b hbn).2 (.inr hold)] at hvalid
      cases hvalid
    exact hdown.setHeader w1 hb hvalid (hgood hxh b hbn hbold)

lemma Sound.marked (h : s.Sound t) (w1 : s₁.Wf t) (horphans : s₁.orphans = s.orphans)
    (hprev : s₁.prevOrphans = s.prevOrphans)
    (hdata : ∀ y, (s₁.status y).haveData = (s.status y).haveData)
    (hmono : ∀ y, s.knownInvalid y = true → s₁.knownInvalid y = true)
    (hxdata : (s.status x).haveData = true)
    (hbest : ∀ y ∈ s₁.bestChain, y ∈ s.bestChain ∧ x ∉ s.branch y) : s₁.Sound t := by
  refine h.reflag w1 hnodes horphans hprev hdata hmono ?_ ?_ fun y hy => h.best_data y (hbest y hy).1
  · intro y hy hyd hold hnew
    have hxy := ((hinv y hy).1 hnew).resolve_right (Bool.eq_false_iff.1 hold)
    have hyx : y ≠ x := by
      rintro rfl
      rw [hxdata] at hyd
      cases hyd
    obtain ⟨hbranch, hpn⟩ := h.wf.branch_of_ne hy (h.ne_genesis (by simp [blockExists, hyd]))
    rw [hbranch] at hxy
    exact (hinv _ hpn).2 (.inl ((mem_cons.1 hxy).resolve_left hyx.symm))
  · intro y hy
    obtain ⟨hyb, hxy⟩ := hbest y hy
    by_contra hyinv
    rw [Bool.not_eq_false] at hyinv
    rcases (hinv y (h.wf.best_mem y hyb)).1 hyinv with hxy' | hold
    · exact hxy hxy'
    · rw [h.clean y hyb] at hold
      cases hold

end

/-- The call marks the block with all its descendants: the block has its data, its descendants are
found, and the best header does not move to a block that is not valid. -/
structure MarksAll (t : BlockTree) (rules : ChainRules) (s : ChainState) (x : Hash) : Prop where
  data : (s.status x).haveData = true
  onChain : x ∈ s.bestChain → ∀ y ∈ s.nodes, x ∈ s.branch y → y ∈ s.bestChain
  header : x ∈ s.bestHeader → ∀ y ∈ s.nodes, s.knownInvalid y = false → GoodBlock t rules y

lemma HeadersOk.invalidates (h : HeadersOk t rules s) (hs : s.Sound t) (hx : x ∈ s.nodes)
    (hne : x ≠ t.genesis) (ha : MarksAll t rules s x) (hi : Invalidates t rules orders x s r s') :
    s'.Sound t ∧ HeadersOk t rules s' := by
  cases hi with
  | @side s₁ _ hout hm hh =>
    have hinv (y : Hash) (hy : y ∈ s.nodes) : s₁.knownInvalid y = true ↔
        x ∈ s.branch y ∨ s.knownInvalid y = true :=
      (hm.knownInvalid y).trans (or_congr_left (and_iff_right hy))
    have hs1 := hs.marked hm.nodes hinv (hm.wf hs.wf) hm.orphans hm.prevOrphans hm.haveData
      (fun y hy => (hm.knownInvalid y).2 (.inr hy)) ha.data fun y hy => by
        rw [hm.bestChain] at hy
        exact ⟨hy, fun hxy => hout (hs.wf.best_subset hy hxy)⟩
    refine ⟨?_, h.marked hm.nodes hinv hs.wf (hm.wf hs.wf) hne hm.bestHeader ha.header hh⟩
    cases hh with
    | kept | lost => exact hs1
    | moved hb => exact hs1.setHeader hb
  | stuck _ hskip =>
    obtain ⟨y, hy, -, hyinv⟩ := hskip
    rw [hs.clean y hy] at hyinv
    cases hyinv
  | @best s₁ s2 _ _ hin hclean hm hunset hh hc =>
    have hr := hm.retreats hs.wf hx hne hunset hh
    have hinv (y : Hash) (hy : y ∈ s.nodes) : s₁.knownInvalid y = true ↔
        x ∈ s.branch y ∨ s.knownInvalid y = true := by
      refine (hm.knownInvalid y).trans (or_congr_left ⟨And.right, fun hxy => ⟨?_, hxy⟩⟩)
      exact ha.onChain hin y hy hxy
    have hprev := (hs.wf.branch_of_ne hx hne).2
    have w1 := (hm.wf hs.wf).setBest (hm.nodes ▸ hprev)
    rw [hm.branch] at w1
    have hs1 : Sound t { s₁ with bestChain := s.branch (t.prevBlock x) } :=
      hs.marked hm.nodes hinv w1 hm.orphans hm.prevOrphans hm.haveData
        (fun y hy => (hm.knownInvalid y).2 (.inr hy)) ha.data fun y hy =>
          (hr.mem_bestChain_iff hs.wf hin hne).1 (hr.bestChain ▸ hy)
    have hs2 : s2.Sound t := by
      cases hh with
      | kept | lost => exact hs1
      | moved hb => exact hs1.setHeader hb
    have hnodes : ({ s₁ with bestChain := s.branch (t.prevBlock x) } : ChainState).nodes = s.nodes :=
      hm.nodes
    have h2 : HeadersOk t rules s2 := h.marked hnodes hinv hs.wf w1 hne hm.bestHeader ha.header hh
    have hchosen (b : Hash) (hb : s2.bestTip t (s2.chainTips t orders.best) = some b) :
        b ∈ s2.nodes ∧ s2.knownInvalid b = false :=
      ⟨(choice_of_bestTip hb).mem_nodes hs2.wf, (choice_of_bestTip hb).valid⟩
    exact ⟨hs2.turns (fun b hb => (hchosen b hb).1) hc, h2.turns hs2.wf hchosen hc⟩

end ChainState

open ChainState

end HandshakeNode
