import HandshakeNode.Proofs.NameView

/-!
# The undo list of a block

A view records what every changed name was before the block. The list is written whatever its
length, and read back only up to `maxNameUndoEntries`: so it reads back exactly when the block
changes no more names than that. A revealed bid changes its name and is counted by no limit, so a
block can change more.
-/

namespace HandshakeNode

open LittleEndian Simulation List NameRun UInt32

namespace NameBlockView

variable {ctx : NameContext} {dbTx : Option NameDb} {view view' : NameBlockView} {names : NameMap}
  {r : NameRun} {txs : List NameTx}

lemma writable_undoEntries (hr : names.Readable) (order : List Hash) :
    ∀ e ∈ order.map (undoEntry names), e.Writable := by
  intro e he _
  obtain ⟨nameHash, -, rfl⟩ := mem_map.1 he
  exact ⟨names nameHash, rfl, hr.encodable nameHash, hr.named nameHash⟩

lemma Tracks.writable_undo (hr : names.Readable) (h : Tracks dbTx names view r) :
    ∀ e ∈ view.undo, e.Writable := by
  obtain ⟨order, -, -, hundo⟩ := h.undo
  rw [hundo]
  exact writable_undoEntries hr order

lemma Tracks.length_undo (h : Tracks dbTx names view r) : view.undo.length = r.changed.card := by
  obtain ⟨order, hnodup, horder, hundo⟩ := h.undo
  rw [hundo, length_map, ← horder, toFinset_card_of_nodup hnodup]

lemma Fresh.applyTxs_ok (hr : names.Readable) (hfresh : view.Fresh dbTx names)
    (h : view.applyTxs ctx dbTx txs = .ok view') :
    ∃ r, (start names).applyTxs ctx txs = .ok r ∧ Tracks dbTx names view' r ∧
      changedNames ctx names txs = r.changed := by
  obtain ⟨r, hrun, htracks⟩ := ((hfresh.tracks hr).applyTxs hr txs).of_ok_left h
  exact ⟨r, hrun, htracks, by simp [changedNames, hrun]⟩

lemma Tracks.readsBack_iff (hr : names.Readable) (h : Tracks dbTx names view r) :
    ReadsBack view.undo ↔ r.changed.card ≤ maxNameUndoEntries := by
  rw [HandshakeNode.readsBack_iff (h.writable_undo hr), h.length_undo]

/-- The undo list that a view has recorded for the transactions of a block reads back exactly when
their covenants change no more names than the reader allows. -/
theorem readsBack_undo_iff (hr : names.Readable) (hfresh : view.Fresh dbTx names)
    (h : view.applyTxs ctx dbTx txs = .ok view') :
    ReadsBack view'.undo ↔ (changedNames ctx names txs).card ≤ maxNameUndoEntries := by
  obtain ⟨r, -, htracks, hchanged⟩ := hfresh.applyTxs_ok hr h
  rw [htracks.readsBack_iff hr, hchanged]

lemma fresh_newLazyNameBlockView : Fresh (some newNameDb) newNameState newLazyNameBlockView where
  peek _ := rfl
  dirty := rfl
  undo := rfl
  seen := rfl

lemma fresh_newNameBlockViewFromStates (dbTx : Option NameDb) (states : GoMap Hash NameState) :
    Fresh dbTx (fun nameHash => (states.lookup nameHash).getD (newNameState nameHash))
      (newNameBlockViewFromStates states) where
  peek nameHash := by
    unfold peek newNameBlockViewFromStates
    cases states.lookup nameHash <;> rfl
  dirty := rfl
  undo := rfl
  seen := rfl

end NameBlockView

def openedName : Bytes := asciiBytes "qa45"

def openedHash : Hash :=
  ⟨[87, 164, 160, 1, 147, 46, 65, 44, 44, 192, 190, 47, 233, 148, 127, 132, 28, 97, 199, 89, 70, 146,
    73, 139, 158, 222, 148, 115, 135, 89, 9, 24], by decide⟩

def regtest : NameContext where
  params := regressionNetParams
  sha3 name := if name = openedName then openedHash else Hash.zero
  blake2b := blake2bSum256
  reserved _ := false
  locked _ := none
  ownership :=
    { parses := fun _ => false
      isSane := fun _ => false
      name := fun _ => []
      isWeak := fun _ => false
      verifyTimes := fun _ _ => false
      verifySignatures := fun _ => false
      claimData := fun _ => .ok none }
  airdrop :=
    { parses := fun _ => false
      isSane := fun _ => false }

def plainEnv (height : UInt32) : NameEnv where
  height := height
  prevTime := 0
  deploymentFlags := ⟨false, false⟩
  mainChainHeight _ := .ok (-1)
  ownerCoinValue _ := .ok none

def bidAddress : Address := ⟨0, replicate 20 1⟩

def openTx : Tx where
  hash := Hash.ofBytes [7]
  txIn := [⟨⟨Hash.ofBytes [6], 0⟩, []⟩]
  txOut := [⟨0, bidAddress, ⟨.open, [openedHash.bytes, leBytes 4 0, openedName]⟩⟩]

def openCall : NameTx where
  env := plainEnv 1
  tx := openTx
  prevOutputs := [⟨⟨Hash.ofBytes [6], 0⟩, 5, bidAddress, ⟨.none, []⟩⟩]

theorem readsBack_undo_open : ∃ view', newLazyNameBlockView.applyTxs regtest (some newNameDb)
    [openCall] = .ok view' ∧ ReadsBack view'.undo := by
  have hok : (newLazyNameBlockView.applyTxs regtest (some newNameDb) [openCall]).isOk = true := by
    decide +kernel
  obtain ⟨view', hview⟩ := exists_ok_of_isOk hok
  exact ⟨view', hview, (NameBlockView.readsBack_undo_iff readable_newNameState
    NameBlockView.fresh_newLazyNameBlockView hview).2 (by decide +kernel)⟩

section

variable (ctx : NameContext) (env : NameEnv)

lemma applyOutputs_changed (name : CovenantOutput → Hash) : ∀ (outs : List CovenantOutput)
    {r : NameRun}, (∀ out ∈ outs, covenantHash out.covenant 0 = some (name out)) →
    (outs.map name).Nodup →
    (∀ out ∈ outs, ∃ ns, applyCovenant ctx env (name out) out (r.names (name out)) = .ok ns ∧
      ns ≠ r.names (name out)) →
    ∃ r', outs.foldlM (applyOutput ctx env) r = .ok r' ∧
      r'.changed = r.changed ∪ (outs.map name).toFinset
  | [], r, _, _, _ => ⟨r, rfl, by simp⟩
  | out :: outs, r, hhash, hnodup, hchange => by
    obtain ⟨hout, hhash⟩ := forall_mem_cons.1 hhash
    obtain ⟨⟨ns, hns, hne⟩, hchange⟩ := forall_mem_cons.1 hchange
    obtain ⟨hnot, hnodup⟩ := nodup_cons.1 hnodup
    obtain ⟨r', hrun, hchanged⟩ := applyOutputs_changed name outs
      (r := r.setState (name out) ns) hhash hnodup (by
        intro o ho
        have hno : name o ≠ name out := fun e => hnot (e ▸ mem_map_of_mem ho)
        rw [names_setState, if_neg hno]
        exact hchange o ho)
    refine ⟨r', ?_, ?_⟩
    · rw [foldlM_cons]
      simp only [applyOutput, hout, hns]
      exact hrun
    · rw [hchanged]
      ext k
      simp only [Finset.mem_union, mem_changed_setState, mem_toFinset, map_cons, mem_cons]
      tauto

end

def bidName (i : ℕ) : Hash := Hash.ofBytes (leBytes 4 i)

def bidHeight (i : ℕ) : ℕ := 1 + i / 300

def bidState (i : ℕ) : NameState :=
  (newNameState (bidName i)).set (leBytes 4 i) (ofNat (bidHeight i))

def bidCoin (i : ℕ) : NamePrevOutput where
  outpoint := ⟨Hash.ofBytes [1], ofNat i⟩
  amount := 1
  address := bidAddress
  covenant := ⟨.bid, [(bidName i).bytes, leBytes 4 (bidHeight i), leBytes 4 i,
    (blindBid regtest 1 Hash.zero).bytes]⟩

def revealOut (i : ℕ) : TxOut :=
  ⟨1, bidAddress, ⟨.reveal, [(bidName i).bytes, leBytes 4 (bidHeight i), Hash.zero.bytes]⟩⟩

def revealTx (n : ℕ) : Tx where
  hash := Hash.ofBytes [2]
  txIn := (range n).map fun i => ⟨(bidCoin i).outpoint, []⟩
  txOut := (range n).map revealOut

def revealBlock (n : ℕ) : Block where
  hash := Hash.ofBytes [3]
  prevBlock := Hash.zero
  nameRoot := Hash.zero
  height := 17
  transactions := [revealTx n]

def revealCall (n : ℕ) : NameTx := ⟨plainEnv 17, revealTx n, (range n).map bidCoin⟩

def bidStates (n : ℕ) : GoMap Hash NameState :=
  (range n).foldl (fun states i => states.insert (bidName i) (bidState i)) ∅

lemma bidName_inj (hi : i < 2 ^ 32) (hj : j < 2 ^ 32) (h : bidName i = bidName j) : i = j := by
  have htake : ∀ k, (bidName k).bytes.take 4 = leBytes 4 k := by
    intro k
    exact take_left' (by simp)
  have hbytes := htake i
  rw [h, htake j] at hbytes
  have hnat := congrArg leNat hbytes
  rwa [leNat_leBytes_of_lt (by omega), leNat_leBytes_of_lt (by omega), eq_comm] at hnat

lemma lookup_bidStates (hn : n ≤ 2 ^ 32) (hi : i < n) :
    (bidStates n).lookup (bidName i) = some (bidState i) := by
  induction n with
  | zero => omega
  | succ n ih =>
    rw [bidStates, range_succ, foldl_append]
    simp only [foldl_cons, foldl_nil]
    by_cases hin : i = n
    · rw [hin, Finmap.lookup_insert]
    · rw [Finmap.lookup_insert_of_ne _ fun e => hin (bidName_inj (by omega) (by omega) e)]
      exact ih (by omega) (by omega)

lemma encodable_bidState (i : ℕ) : (bidState i).Encodable := by
  constructor <;> simp [bidState, NameState.set, NameState.reset, maxNameSize]

lemma readable_bidStates (n : ℕ) :
    NameMap.Readable fun k => ((bidStates n).lookup k).getD (newNameState k) := by
  have hstates : ∀ k ns, (bidStates n).lookup k = some ns → ns.nameHash = k ∧ ns.Encodable := by
    induction n with
    | zero => simp [bidStates]
    | succ n ih =>
      intro k ns
      rw [bidStates, range_succ, foldl_append]
      simp only [foldl_cons, foldl_nil]
      by_cases hk : k = bidName n
      · rw [hk, Finmap.lookup_insert, Option.some.injEq]
        rintro rfl
        exact ⟨rfl, encodable_bidState n⟩
      · rw [Finmap.lookup_insert_of_ne _ hk]
        exact ih k ns
  refine ⟨fun k => ?_, fun k => ?_⟩ <;> cases hk : (bidStates n).lookup k with
  | none => first | rfl | exact NameState.encodable_newNameState k
  | some ns => first | exact (hstates k ns hk).1 | exact (hstates k ns hk).2

lemma covenantHash_bidName (type : CovenantType) (i : ℕ) (items : List Bytes) :
    covenantHash ⟨type, (bidName i).bytes :: items⟩ 0 = some (bidName i) := by
  simp [covenantHash, covenantItem]

lemma covenantU32_bidHeight (type : CovenantType) (i : ℕ) (first : Bytes) (items : List Bytes) :
    covenantU32 ⟨type, first :: leBytes 4 (bidHeight i) :: items⟩ 1 =
      some (ofNat (leNat (leBytes 4 (bidHeight i)))) := by
  simp [covenantU32, covenantItem]

/-- At height 17, the names opened in the first six blocks are all in their reveal phase. -/
theorem state_bidState (hi : i < 1800) : (bidState i).state 17 regressionNetParams = .reveal := by
  have hopened : ∀ k < 6, ((newNameState Hash.zero).set [] (ofNat (1 + k))).state 17
      regressionNetParams = .reveal := by decide
  rw [← hopened (i / 300) (by omega)]
  exact NameState.state_congr rfl rfl rfl _ _

lemma applyCovenant_revealOut (hi : i < n) (hn : n ≤ 1800) :
    ∃ ns, applyCovenant regtest (plainEnv 17) (bidName i)
      ⟨revealTx n, i, revealOut i, (range n).map bidCoin⟩ (bidState i) = .ok ns ∧
        ns ≠ bidState i := by
  have hheight : (UInt32.ofNat (bidHeight i)).toNat = bidHeight i := by
    rw [UInt32.toNat_ofNat', Nat.mod_eq_of_lt (by unfold bidHeight; omega)]
  have hne : (bidState i).height ≠ 0 := by
    intro h
    rw [← UInt32.toNat_inj] at h
    have := hheight.symm.trans h
    unfold bidHeight at this
    simp at this
  refine ⟨_, applyCovenant_reveal rfl ?_ rfl ?_ (state_bidState (hi.trans_le hn))
    (show _ = some (bidCoin i) from ?_), ?_⟩
  · simp [NameState.isNull, hne]
  · simp only [CovenantOutput.start, CovenantOutput.covenant, revealOut, covenantU32_bidHeight]
    rw [leNat_leBytes_of_lt (by unfold bidHeight; omega)]
    rfl
  · simp [CovenantOutput.linked, hi]
  · intro h
    have := congrArg NameState.highest h
    simp [NameState.reveal, bidState, NameState.set, NameState.reset, revealOut] at this

lemma zipIdx_map_range (f : ℕ → α) (n : ℕ) :
    ((range n).map f).zipIdx = (range n).map fun i => (f i, i) := by
  apply ext_getElem <;> simp

lemma covenantOutputs_revealTx (n : ℕ) (prevOutputs : List NamePrevOutput) :
    (revealTx n).covenantOutputs prevOutputs =
      (range n).map fun i => ⟨revealTx n, i, revealOut i, prevOutputs⟩ := by
  have hall : (range n).filter ((fun p => isNameCovenant p.1.covenant.type) ∘
      fun i => (revealOut i, i)) = range n := filter_eq_self.2 fun _ _ => rfl
  rw [Tx.covenantOutputs, show (revealTx n).txOut = (range n).map revealOut from rfl,
    zipIdx_map_range, filter_map, hall, map_map]
  rfl

lemma checkSpends_revealTx (hn : 0 < n) :
    checkSpends regtest (revealTx n) ((range n).map bidCoin) = .ok () := by
  have hcoinbase : (revealTx n).isCoinBase = false := by
    obtain ⟨n, rfl⟩ := Nat.exists_eq_succ_of_ne_zero hn.ne'
    simp [Tx.isCoinBase, revealTx, range_succ_eq_map, isNullOutpoint, bidCoin]
  unfold checkSpends verifyCovenantSpends
  rw [hcoinbase, if_neg (by decide), failIf_of_not (by simp [revealTx]), ok_bind,
    verifySpends_eq_ok, zipIdx_map_range]
  intro p hp
  obtain ⟨i, hi, rfl⟩ := mem_map.1 hp
  have hout : (revealTx n).txOut[i]? = some (revealOut i) := by
    rw [revealTx, getElem?_map, getElem?_range (mem_range.1 hi)]
    rfl
  have hnonce : covenantHashMust (revealOut i).covenant 2 = Hash.zero :=
    covenantHashMust_of_item rfl
  have hblind : covenantHashMust (bidCoin i).covenant 3 = blindBid regtest 1 Hash.zero :=
    covenantHashMust_of_item rfl
  have hsame : sameNameAndHeight (bidCoin i).covenant (revealOut i).covenant = true := by
    simp [sameNameAndHeight, bidCoin, revealOut, covenantHash_bidName, covenantU32_bidHeight]
  rw [hout]
  change verifyBidSpend regtest (bidCoin i) (revealOut i) = .ok ()
  unfold verifyBidSpend
  rw [failIf_of_not (by simp [revealOut]), hsame, failIf_of_not (by decide), hnonce, hblind,
    failIf_of_not (by simp [revealOut])]
  rfl

lemma checkBlockNameLimits_revealBlock (n : ℕ) : checkBlockNameLimits (revealBlock n) = .ok () := by
  have hnone : ∀ p, p .reveal = false →
      countCovenants p [revealTx n] = 0 := by
    intro p hp
    simp [countCovenants, revealTx, revealOut, hp]
  have hnames : mutableNames (revealTx n) = [] := by
    simp [mutableNames, revealTx, revealOut, isMutableNameCovenant]
  unfold checkBlockNameLimits checkNameLimits
  simp only [revealBlock, checkDistinctNames, hasSeenMutableName, hnames,
    hnone (fun type => decide (type = .open)) rfl, hnone isNameUpdateCovenant rfl,
    hnone isRenewalNameCovenant rfl]
  rfl

lemma applyTxs_revealCall (hn : 0 < n) (hmax : n ≤ 1800) (names : NameMap)
    (hnames : ∀ i < n, names (bidName i) = bidState i) :
    ∃ r, (start names).applyTxs regtest [revealCall n] = .ok r ∧ r.changed.card = n := by
  have houts := covenantOutputs_revealTx n ((range n).map bidCoin)
  have hmap : ((revealTx n).covenantOutputs ((range n).map bidCoin)).map
      (fun out => bidName out.outputIndex) = (range n).map bidName := by
    rw [houts, map_map]
    rfl
  have hnodup : ((range n).map bidName).Nodup := by
    refine (nodup_map_iff_inj_on nodup_range).2 fun i hi j hj h => ?_
    rw [mem_range] at hi hj
    exact bidName_inj (by omega) (by omega) h
  obtain ⟨r, hrun, hchanged⟩ := applyOutputs_changed regtest (plainEnv 17)
    (fun out => bidName out.outputIndex)
    ((revealTx n).covenantOutputs ((range n).map bidCoin)) (r := .start names)
    (by
      rw [houts]
      intro out hout
      obtain ⟨i, -, rfl⟩ := mem_map.1 hout
      exact covenantHash_bidName _ _ _)
    (hmap ▸ hnodup)
    (by
      rw [houts]
      intro out hout
      obtain ⟨i, hi, rfl⟩ := mem_map.1 hout
      rw [mem_range] at hi
      change ∃ ns, applyCovenant regtest (plainEnv 17) (bidName i) _ (names (bidName i)) = _ ∧
        ns ≠ names (bidName i)
      rw [hnames i hi]
      exact applyCovenant_revealOut hi hmax)
  refine ⟨r, ?_, ?_⟩
  · simp only [applyTxs, foldlM_cons, applyTx, revealCall,
      checkSpends_revealTx hn, hrun]
    rfl
  · rw [hchanged, hmap, start, Finset.empty_union, toFinset_card_of_nodup hnodup,
      length_map, length_range]

/-- A block of 1501 revealed bids passes the limits and is accepted, and its undo list cannot be
read back. -/
theorem not_readsBack_reveals : checkBlockNameLimits (revealBlock 1501) = .ok () ∧
    ∃ view', (newNameBlockViewFromStates (bidStates 1501)).applyTxs regtest none
      [revealCall 1501] = .ok view' ∧ ¬ ReadsBack view'.undo := by
  refine ⟨checkBlockNameLimits_revealBlock 1501, ?_⟩
  have hr := readable_bidStates 1501
  obtain ⟨r, hrun, hcard⟩ := applyTxs_revealCall (show 0 < 1501 by decide) (by decide)
    (fun k => ((bidStates 1501).lookup k).getD (newNameState k)) fun i hi => by
      rw [lookup_bidStates (by decide) hi]
      rfl
  obtain ⟨view', hview', htracks⟩ :=
    (((NameBlockView.fresh_newNameBlockViewFromStates none (bidStates 1501)).tracks hr).applyTxs hr
      [revealCall 1501]).of_ok_right hrun
  refine ⟨view', hview', ?_⟩
  rw [htracks.readsBack_iff hr, hcard]
  decide

end HandshakeNode
