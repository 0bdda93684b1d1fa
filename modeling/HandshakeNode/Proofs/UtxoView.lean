import HandshakeNode.Utxo

/-!
# Connecting and disconnecting through a view

A view refines the plain UTXO set: connecting transactions is a run of ledger steps and the stxos
it collects are the run's journal, and disconnecting them takes the run back. Stale entries of a
view, nil or spent, do not matter.
-/

namespace HandshakeNode

open Ledger List Function UtxoEntry Tx

namespace UtxoViewpoint

variable (view : UtxoViewpoint)

lemma lookupEntry_setEntry (o o' : OutPoint) (e : UtxoEntry) :
    (view.setEntry o e).lookupEntry o' = if o' = o then some e else view.lookupEntry o' := by
  unfold lookupEntry setEntry
  split_ifs with h
  · subst h
    simp
  · simp [Finmap.lookup_insert_of_ne _ h]

lemma coins_setEntry (o : OutPoint) (e : UtxoEntry) :
    (view.setEntry o e).coins = update view.coins o (unspent (some e)) := by
  funext o'
  unfold coins
  rw [lookupEntry_setEntry]
  by_cases h : o' = o
  · subst h
    simp
  · simp [h]

variable {tx : Tx} {height : Int32}

lemma coins_foldl_addTxOut : ∀ (l : List (TxOut × ℕ)) (view : UtxoViewpoint),
    (l.foldl (fun view p => view.addTxOut (txOutpoint tx p.2) p.1 tx.isCoinBase height)
      view).coins = add view.coins (l.filterMap (tx.coinOf height))
  | [], view => rfl
  | p :: l, view => by
    rw [foldl_cons, coins_foldl_addTxOut l, addTxOut]
    by_cases h : txOutIsUnspendable p.1
    · rw [if_pos h, filterMap_cons_none (coinOf_unspendable h _ _)]
    · rw [if_neg h, filterMap_cons_some (coinOf_spendable h _ _), add_cons, coins_setEntry,
        unspent_ofTxOut]

lemma coins_addTxOuts (tx : Tx) (height : Int32) :
    (view.addTxOuts tx height).coins = add view.coins (tx.newCoins height) :=
  coins_foldl_addTxOut _ view

lemma spendTxIns_ok : ∀ {txIns} {view : UtxoViewpoint} (stxos : List SpentTxOut),
    (∀ i ∈ txIns, ∃ e, view.lookupEntry i.previousOutPoint = some e ∧
      f i.previousOutPoint = some e.stxo) →
    ∃ view', view.spendTxIns txIns stxos =
        .ok (view', stxos ++ (txIns.map (·.previousOutPoint)).filterMap f) ∧
      view'.coins = remove view.coins (txIns.map (·.previousOutPoint))
  | [], view, stxos, _ => ⟨view, by simp [spendTxIns], by simp [remove_nil]⟩
  | i :: txIns, view, stxos, h => by
    obtain ⟨e, he, hf⟩ := h i mem_cons_self
    have hrest : ∀ i' ∈ txIns, ∃ e', (view.setEntry i.previousOutPoint e.spend).lookupEntry
        i'.previousOutPoint = some e' ∧ f i'.previousOutPoint = some e'.stxo := by
      intro i' hi'
      obtain ⟨e', he', hf'⟩ := h i' (mem_cons_of_mem _ hi')
      rw [lookupEntry_setEntry]
      split_ifs with heq
      · exact ⟨e.spend, rfl, by rw [heq, hf, stxo_spend]⟩
      · exact ⟨e', he', hf'⟩
    obtain ⟨view', hok, hcoins⟩ := spendTxIns_ok (stxos ++ [e.stxo]) hrest
    refine ⟨view', ?_, ?_⟩
    · rw [spendTxIns, he]
      simp only
      rw [hok, map_cons, filterMap_cons_some hf, append_assoc, singleton_append]
    · rw [hcoins, coins_setEntry, unspent_spend, map_cons, remove_cons]

variable {view : UtxoViewpoint}

lemma connectTransaction_ok (stxos : List SpentTxOut)
    (h : ∀ o ∈ (tx.step height).inputs, (view.coins o).isSome) :
    ∃ view', view.connectTransaction tx height stxos =
        .ok (view', stxos ++ (tx.step height).journal view.coins) ∧
      view'.coins = (tx.step height).apply view.coins := by
  unfold connectTransaction
  unfold Step.journal Step.apply
  by_cases hcb : tx.isCoinBase
  · simp only [step, hcb, if_true, filterMap_nil, append_nil]
    exact ⟨_, rfl, coins_addTxOuts view tx height⟩
  · simp only [step, hcb] at h ⊢
    have hfound : ∀ i ∈ tx.txIn, ∃ e, view.lookupEntry i.previousOutPoint = some e ∧
        view.coins i.previousOutPoint = some e.stxo := by
      intro i hi
      obtain ⟨c, hc⟩ := Option.isSome_iff_exists.1 (h _ (mem_map_of_mem hi))
      obtain ⟨e, he, -, rfl⟩ := unspent_eq_some.1 hc
      exact ⟨e, he, hc⟩
    obtain ⟨view', hok, hcoins⟩ := spendTxIns_ok stxos hfound
    rw [hok]
    exact ⟨_, rfl, by rw [coins_addTxOuts, hcoins]; rfl⟩

lemma connectTxs_ok : ∀ {txs} {view : UtxoViewpoint}
    (stxos : List SpentTxOut), InputsHeld (txs.map (·.step height)) view.coins →
    ∃ view', view.connectTxs txs height stxos =
        .ok (view', stxos ++ journalAll (txs.map (·.step height)) view.coins) ∧
      view'.coins = applyAll (txs.map (·.step height)) view.coins
  | [], view, stxos, _ => ⟨view, by simp [connectTxs, journalAll], rfl⟩
  | tx :: txs, view, stxos, h => by
    obtain ⟨view1, hok1, hcoins1⟩ := connectTransaction_ok stxos h.1
    have h2 := h.2
    rw [← hcoins1] at h2
    obtain ⟨view2, hok2, hcoins2⟩ := connectTxs_ok
      (stxos ++ (tx.step height).journal view.coins) h2
    refine ⟨view2, ?_, ?_⟩
    · rw [connectTxs, hok1]
      simp only [ok_bind]
      rw [hok2, hcoins1, append_assoc]
      rfl
    · rw [hcoins2, hcoins1]
      rfl

variable {block : Block}

lemma connectTransactions_ok (stxos : List SpentTxOut) (h : InputsHeld block.steps view.coins) :
    ∃ view', view.connectTransactions block stxos =
        .ok (view', stxos ++ journalAll block.steps view.coins) ∧
      view'.coins = applyAll block.steps view.coins := by
  obtain ⟨view', hok, hcoins⟩ := connectTxs_ok stxos h
  refine ⟨{ view' with bestHash := block.hash }, ?_, hcoins⟩
  rw [connectTransactions, hok]
  rfl

lemma coins_disconnectTxOuts (tx : Tx) (isCoinBase : Bool)
    (height : Int32) : (view.disconnectTxOuts tx isCoinBase height).coins =
      remove view.coins (tx.step height).created := by
  unfold disconnectTxOuts Step.created step newCoins
  generalize tx.txOut.zipIdx = l
  induction l generalizing view with
  | nil => simp [remove_nil]
  | cons p l ih =>
    rw [foldl_cons, ih]
    by_cases h : txOutIsUnspendable p.1
    · rw [if_pos h, filterMap_cons_none (coinOf_unspendable h _ _)]
    · rw [if_neg h, filterMap_cons_some (coinOf_spendable h _ _), coins_setEntry,
        unspent_spend, map_cons, remove_cons]

lemma coins_ensureEntry_setEntry (o : OutPoint) (e : UtxoEntry) :
    ((view.ensureEntry o).setEntry o e).coins = update view.coins o (unspent (some e)) := by
  unfold ensureEntry
  split
  · exact coins_setEntry view o e
  · rw [coins_setEntry, coins_setEntry, update_idem]

/-- The journal keeps all of an entry that restoring it needs. -/
def Restores (c : SpentTxOut) : Prop := 0 < c.height ∧ (restoredEntry c).stxo = c

lemma restoredEntry_stxo (e : UtxoEntry) : (restoredEntry e.stxo).stxo = e.stxo := by
  have hscript : (restoredEntry e.stxo).pkScriptOf = e.pkScriptOf := by
    unfold pkScriptOf restoredEntry stxo pkScriptOf
    split_ifs <;> simp_all
  exact congrArg (fun script => { e.stxo with pkScript := script }) hscript

lemma holding_restores (h : ∀ o c, view.coins o = some c → 0 < c.height) :
    Holding Restores view.coins := by
  intro o c hc
  obtain ⟨e, -, -, rfl⟩ := unspent_eq_some.1 hc
  exact ⟨h o _ hc, restoredEntry_stxo e⟩

lemma restores_newCoins (h : 0 < height) : ∀ kv ∈ (tx.step height).outputs, Restores kv.2 := by
  intro kv hkv
  obtain ⟨p, -, -, rfl⟩ := mem_newCoins hkv
  exact ⟨h, restoredEntry_stxo _⟩

variable (db : Hash → Result (Option UtxoEntry)) {cb : Tx} {txs : List Tx}

lemma unspendTxIns_ok (txHash : Hash) (rest : List SpentTxOut) : ∀ view
    {txIns : List TxIn} {js : List SpentTxOut}, js.length = txIns.length →
    (∀ j ∈ js, Restores j) →
    ∃ view', unspendTxIns db txHash view txIns (js ++ rest) = .ok (view', rest) ∧
      view'.coins = add view.coins ((txIns.map (·.previousOutPoint)).zip js)
  | view, [], [], _, _ => ⟨view, rfl, rfl⟩
  | view, i :: txIns, j :: js, hlen, hjs => by
    obtain ⟨hj, hjs⟩ := forall_mem_cons.1 hjs
    have hheight : j.height ≠ 0 := by
      intro h
      have := hj.1
      rw [h] at this
      exact absurd this (by decide)
    obtain ⟨view', hok, hcoins⟩ := unspendTxIns_ok txHash rest
      ((view.ensureEntry i.previousOutPoint).setEntry i.previousOutPoint (restoredEntry j))
      (by simpa using hlen) hjs
    refine ⟨view', ?_, ?_⟩
    · simp only [cons_append, unspendTxIns, legacyStxo, if_neg hheight]
      exact hok
    · have hunspent : unspent (some (restoredEntry j)) = some j := congrArg some hj.2
      rw [hcoins, coins_ensureEntry_setEntry, hunspent, map_cons, zip_cons_cons, add_cons]

lemma sum_inputs (hcb : cb.isCoinBase) (htxs : ∀ tx ∈ txs, ¬ tx.isCoinBase) :
    (((cb :: txs).map (·.step height)).map fun s => s.inputs.length).sum =
      (txs.map fun tx => tx.txIn.length).sum := by
  have hmap : txs.map (fun tx => (tx.step height).inputs.length) =
      txs.map fun tx => tx.txIn.length := by
    refine map_congr_left fun tx htx => ?_
    simp [step, htxs tx htx]
  rw [← hmap]
  simp [step, hcb, comp_def]

lemma disconnectTxs_ok (height : Int32) (hcb : cb.isCoinBase) :
    ∀ view {txs : List Tx} {js : List SpentTxOut}, (∀ tx ∈ txs, ¬ tx.isCoinBase) →
    js.length = (txs.map fun tx => tx.txIn.length).sum → (∀ j ∈ js, Restores j) →
    ∃ view', disconnectTxs db height view (txs ++ [cb]) js = .ok view' ∧
      view'.coins = revertAll ((cb :: txs.reverse).map (·.step height)) view.coins js.reverse
  | view, [], js, _, hlen, _ => by
    refine ⟨_, rfl, ?_⟩
    rw [coins_disconnectTxOuts]
    simp [revertAll, Step.revert, add, step, hcb]
  | view, tx :: txs, js, hcoinbase, hlen, hjs => by
    obtain ⟨htx, hcoinbase⟩ := forall_mem_cons.1 hcoinbase
    rw [map_cons, sum_cons] at hlen
    -- The head of the reversed journal is this transaction's part.
    obtain ⟨own, rest, rfl, hown⟩ : ∃ own rest, js = own ++ rest ∧ own.length = tx.txIn.length :=
      ⟨js.take tx.txIn.length, js.drop tx.txIn.length, (take_append_drop _ _).symm,
        by rw [length_take]; omega⟩
    rw [length_append] at hlen
    obtain ⟨view1, hok1, hcoins1⟩ := unspendTxIns_ok db tx.hash rest
      (view.disconnectTxOuts tx false height) (hown.trans length_reverse.symm)
      fun j hj => hjs j (mem_append_left _ hj)
    obtain ⟨view2, hok2, hcoins2⟩ := disconnectTxs_ok height hcb view1 hcoinbase
      (show rest.length = _ by omega) fun j hj => hjs j (mem_append_right _ hj)
    refine ⟨view2, ?_, ?_⟩
    · rw [cons_append, disconnectTxs, if_neg (by simp), hok1]
      exact hok2
    · have hinputs : (tx.step height).inputs = tx.txIn.map (·.previousOutPoint) := if_neg htx
      have hrevert : view1.coins = (tx.step height).revert view.coins own.reverse := by
        rw [hcoins1, coins_disconnectTxOuts, Step.revert, hinputs, List.zip,
          reverse_zipWith (by simpa using hown.symm), reverse_reverse, map_reverse]
      rw [hcoins2, hrevert, reverse_append, reverse_cons, ← cons_append,
        map_append, map_singleton, revertAll_concat (by simp [hinputs, hown])]
      rw [length_reverse, sum_inputs hcb (by simpa using hcoinbase), map_reverse, sum_reverse]
      omega

lemma disconnectTransactions_ok (hblock : block.transactions = cb :: txs) (hcb : cb.isCoinBase)
    (htxs : ∀ tx ∈ txs, ¬ tx.isCoinBase)
    (hcount : js.length = (txs.map fun tx => tx.txIn.length).sum) (hjs : ∀ j ∈ js, Restores j)
    (view : UtxoViewpoint) :
    ∃ view', disconnectTxs db block.height view (txs.reverse ++ [cb]) js.reverse = .ok view' ∧
      view.disconnectTransactions db block js = .ok { view' with bestHash := block.prevBlock } ∧
      view'.coins = revertAll block.steps view.coins js := by
  have hrevtxs : ∀ tx ∈ txs.reverse, ¬ tx.isCoinBase := by simpa using htxs
  have hrevcount : js.reverse.length = (txs.reverse.map fun tx => tx.txIn.length).sum := by
    rw [length_reverse, hcount, map_reverse, sum_reverse]
  obtain ⟨view', hok, hcoins⟩ := disconnectTxs_ok db block.height hcb view hrevtxs hrevcount
    (by simpa using hjs)
  refine ⟨view', hok, ?_, ?_⟩
  · unfold disconnectTransactions countSpentOutputs
    rw [hblock]
    simp only [ok_bind, failIf_of_not (not_not.2 hcount), reverse_cons]
    rw [hok]
    rfl
  · rw [hcoins, reverse_reverse, reverse_reverse, ← hblock]
    rfl

lemma length_journalAll_steps (hblock : block.transactions = cb :: txs)
    (hcb : cb.isCoinBase) (htxs : ∀ tx ∈ txs, ¬ tx.isCoinBase) (hheld : InputsHeld block.steps m) :
    (journalAll block.steps m).length = (txs.map fun tx => tx.txIn.length).sum := by
  rw [length_journalAll hheld, Block.steps, hblock, sum_inputs hcb htxs]

/-- Connecting a block and disconnecting it with the stxos that were collected gives back the
unspent outputs. -/
theorem disconnectTransactions_connectTransactions {view : UtxoViewpoint} {block : Block} {cb : Tx}
    {txs : List Tx} (hblock : block.transactions = cb :: txs) (hcb : cb.isCoinBase)
    (htxs : ∀ tx ∈ txs, ¬ tx.isCoinBase) (hunspent : InputsHeld block.steps view.coins)
    (hnew : ∀ s ∈ block.steps, ∀ o ∈ s.created, view.coins o = none) (hheight : 0 < block.height)
    (hheights : ∀ o c, view.coins o = some c → 0 < c.height) :
    ∃ view₁ stxos view₂, view.connectTransactions block [] = .ok (view₁, stxos) ∧
      view₁.disconnectTransactions db block stxos = .ok view₂ ∧ view₂.coins = view.coins := by
  obtain ⟨view₁, hconnect, hcoins1⟩ := connectTransactions_ok [] hunspent
  have hjournal : ∀ j ∈ journalAll block.steps view.coins, Restores j := by
    refine (holding_restores hheights).journalAll fun s hs => ?_
    obtain ⟨tx, -, rfl⟩ := mem_map.1 hs
    exact restores_newCoins hheight
  obtain ⟨view₂, -, hok, hcoins2⟩ := disconnectTransactions_ok db hblock hcb htxs
    (length_journalAll_steps hblock hcb htxs hunspent) hjournal view₁
  refine ⟨view₁, journalAll block.steps view.coins, _, hconnect, hok, ?_⟩
  change view₂.coins = view.coins
  rw [hcoins2, hcoins1]
  exact revertAll_applyAll hunspent hnew

def plainOut : TxOut := ⟨5, ⟨0, List.replicate 20 1⟩, ⟨.none, []⟩⟩

def plainTx (n : UInt8) (o : OutPoint) : Tx := ⟨Hash.ofBytes [n], [⟨o, []⟩], [plainOut]⟩

def chainedBlock : Block where
  hash := Hash.ofBytes [9]
  prevBlock := Hash.ofBytes [8]
  nameRoot := Hash.zero
  height := 2
  transactions := [plainTx 2 ⟨Hash.zero, 0xffffffff⟩, plainTx 3 ⟨Hash.ofBytes [1], 0⟩,
    plainTx 4 ⟨Hash.ofBytes [3], 0⟩]

def oneCoinView : UtxoViewpoint :=
  setEntry ⟨∅, Hash.ofBytes [8]⟩ ⟨Hash.ofBytes [1], 0⟩ (.ofTxOut plainOut true 1)

theorem disconnectTransactions_connectTransactions_chained :
    ∃ view₁ stxos view₂, oneCoinView.connectTransactions chainedBlock [] = .ok (view₁, stxos) ∧
      view₁.disconnectTransactions (fun _ => .ok none) chainedBlock stxos = .ok view₂ ∧
      view₂.coins = oneCoinView.coins := by
  refine disconnectTransactions_connectTransactions (fun _ => .ok none) rfl (by decide +kernel)
    (by decide +kernel) (by decide +kernel) (by decide +kernel) (by decide) fun o c hc => ?_
  unfold oneCoinView at hc
  rw [coins_setEntry, update_apply] at hc
  split_ifs at hc
  · cases hc
    decide
  · cases hc

end UtxoViewpoint

end HandshakeNode
