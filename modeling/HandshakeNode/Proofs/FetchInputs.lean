import HandshakeNode.Proofs.UtxoDetach

/-!
# What a block reads through its view

`fetchInputUtxos` puts into a new view the outputs of transactions of the block that come before a
transaction that spends them, and fetches every other input. So the block reads there what it would
read in the UTXO set, which is `reads_fetchInputUtxos`.
-/

namespace HandshakeNode

open Ledger List Finmap

namespace UtxoViewpoint

variable {block : Block} {p : UtxoViewpoint × List OutPoint}

lemma mem_entries_addTxOuts (tx : Tx) (height : Int32) (view : UtxoViewpoint)
    (h : o ∈ (view.addTxOuts tx height).entries) :
    o ∈ view.entries ∨ o ∈ (tx.step height).created := by
  unfold addTxOuts at h
  unfold Step.created Tx.step Tx.newCoins
  generalize tx.txOut.zipIdx = l at *
  induction l generalizing view with
  | nil => exact .inl h
  | cons q l ih =>
    rcases ih _ h with h | h
    · dsimp only [addTxOut] at h
      split_ifs at h with hun
      · exact .inl h
      · rw [filterMap_cons_some (Tx.coinOf_spendable hun _ _)]
        rcases Finmap.mem_insert.1 h with rfl | h
        · exact .inr mem_cons_self
        · exact .inl h
    · exact .inr ((((sublist_cons_self q l).filterMap _).map _).subset h)

/-- The output is one of a transaction at position `n` or before. -/
def InFlight (block : Block) (n : ℕ) (o : OutPoint) : Prop :=
  ∃ k ≤ n, txInFlight block.transactions o.hash = some k ∧
    ∃ tx, block.transactions[k]? = some tx ∧ o ∈ (tx.step block.height).created

lemma hash_of_txInFlight {transactions : List Tx} {hash : Hash}
    (h : txInFlight transactions hash = some k) (htx : transactions[k]? = some tx) : tx.hash = hash := by
  obtain ⟨q, hq, rfl⟩ := Option.map_eq_some_iff.1 h
  have hmem := mk_mem_zipIdx_iff_getElem?.1 (mem_reverse.1 (mem_of_find?_eq_some hq))
  rw [htx, Option.some.injEq] at hmem
  simpa [hmem] using find?_some hq

lemma findInput_inFlight (h : ∀ o ∈ p.1.entries, InFlight block n o) (txIn : TxIn) :
    (∀ o ∈ (findInput block n p txIn).1.entries, InFlight block n o) ∧
      p.2 ⊆ (findInput block n p txIn).2 ∧
      (txIn.previousOutPoint ∈ (findInput block n p txIn).2 ∨
        ∃ k ≤ n, txInFlight block.transactions txIn.previousOutPoint.hash = some k) := by
  unfold findInput
  dsimp only
  split
  · rename_i tx horigin
    obtain ⟨k, hk, horigin⟩ := Option.bind_eq_some_iff.1 horigin
    split_ifs at horigin with hle
    refine ⟨fun o ho => ?_, Subset.refl _, .inr ⟨k, hle, hk⟩⟩
    refine (mem_entries_addTxOuts tx _ _ ho).elim (h o) fun ho => ?_
    obtain ⟨kv, hkv, rfl⟩ := mem_map.1 ho
    obtain ⟨q, -, -, rfl⟩ := Tx.mem_newCoins hkv
    refine ⟨k, hle, ?_, tx, horigin, ho⟩
    exact (congrArg _ (hash_of_txInFlight hk horigin)).trans hk
  · split_ifs with hmem
    · obtain ⟨k, hle, hk, -⟩ := h _ hmem
      exact ⟨h, Subset.refl _, .inr ⟨k, hle, hk⟩⟩
    · exact ⟨h, subset_append_left _ _, .inl (by simp)⟩

lemma findInputs_inFlight (block : Block) (n : ℕ) : ∀ (txIns : List TxIn)
    {p : UtxoViewpoint × List OutPoint}, (∀ o ∈ p.1.entries, InFlight block n o) →
    (∀ o ∈ (txIns.foldl (findInput block n) p).1.entries, InFlight block n o) ∧
      p.2 ⊆ (txIns.foldl (findInput block n) p).2 ∧
      ∀ txIn ∈ txIns, txIn.previousOutPoint ∈ (txIns.foldl (findInput block n) p).2 ∨
        ∃ k ≤ n, txInFlight block.transactions txIn.previousOutPoint.hash = some k
  | [], _, h => ⟨h, Subset.refl _, by simp⟩
  | txIn :: txIns, p, h => by
    obtain ⟨h1, hsub, htxIn⟩ := findInput_inFlight h txIn
    obtain ⟨h2, hsub2, htxIns⟩ := findInputs_inFlight block n txIns h1
    exact ⟨h2, Subset.trans hsub hsub2, forall_mem_cons.2 ⟨htxIn.imp_left fun ho => hsub2 ho, htxIns⟩⟩

/-- Every input is to be fetched unless a transaction before it in the block has its hash. -/
theorem findInputsToFetch_inFlight (block : Block) : ∀ (txs : List Tx) (n : ℕ)
    {p : UtxoViewpoint × List OutPoint}, (∀ o ∈ p.1.entries, InFlight block n o) →
    let q := (txs.zipIdx n).foldl (fun p tx => tx.1.txIn.foldl (findInput block tx.2) p) p
    (∃ m, ∀ o ∈ q.1.entries, InFlight block m o) ∧ p.2 ⊆ q.2 ∧
      ∀ j tx, txs[j]? = some tx → ∀ txIn ∈ tx.txIn, txIn.previousOutPoint ∈ q.2 ∨
        ∃ k ≤ n + j, txInFlight block.transactions txIn.previousOutPoint.hash = some k
  | [], n, _, h => ⟨⟨n, h⟩, Subset.refl _, by simp⟩
  | tx :: txs, n, p, h => by
    obtain ⟨h1, hsub, htx⟩ := findInputs_inFlight block n tx.txIn h
    have hnext : ∀ o ∈ (tx.txIn.foldl (findInput block n) p).1.entries,
        InFlight block (n + 1) o := fun o ho =>
      let ⟨k, hk, hflight⟩ := h1 o ho
      ⟨k, hk.trans n.le_succ, hflight⟩
    obtain ⟨h2, hsub2, htxs⟩ := findInputsToFetch_inFlight block txs (n + 1) hnext
    refine ⟨h2, Subset.trans hsub hsub2, fun j tx' hj txIn htxIn => ?_⟩
    cases j with
    | zero =>
      cases hj
      exact (htx txIn htxIn).imp_left fun ho => hsub2 ho
    | succ j =>
      refine (htxs j tx' hj txIn htxIn).imp_right fun ⟨k, hk, hflight⟩ => ⟨k, ?_, hflight⟩
      omega

/-- A block whose inputs are all in the view that is fetched for it reads there what it would read
in the set. -/
theorem reads_fetchInputUtxos (mem : Memory) (hash : Hash) (hcache : cache.Refines db U)
    (hblock : block.transactions = cb :: txs) (hcb : cb.isCoinBase = true)
    (hheld : ∀ tx ∈ txs, ∀ txIn ∈ tx.txIn,
      ((fetchInputUtxos mem cache db ⟨∅, hash⟩ block).1.coins txIn.previousOutPoint).isSome) :
    Reads block.steps (fetchInputUtxos mem cache db ⟨∅, hash⟩ block).1.coins U := by
  have hempty : ∀ o ∈ (⟨∅, hash⟩ : UtxoViewpoint).entries, InFlight block 0 o := fun o ho =>
    absurd ho (Finmap.notMem_empty)
  obtain ⟨⟨m, hflight⟩, -, hfound⟩ :=
    findInputsToFetch_inFlight block block.transactions.tail 0 (p := (⟨∅, hash⟩, [])) hempty
  refine reads_of_agree fun j t hj o ho => ?_
  rw [Block.steps, getElem?_map] at hj
  obtain ⟨tx, htx, rfl⟩ := Option.map_eq_some_iff.1 hj
  unfold Tx.step at ho
  cases j with
  | zero =>
    rw [hblock] at htx
    cases htx
    simp [hcb] at ho
  | succ j =>
    split_ifs at ho
    · cases ho
    obtain ⟨txIn, htxIn, rfl⟩ := mem_map.1 ho
    rw [hblock] at htx
    have hsome := hheld tx (mem_of_getElem? htx) txIn htxIn
    simp only [coins, lookupEntry_fetchInputUtxos] at hsome ⊢
    split_ifs at hsome ⊢ with hneed
    · exact .inl (hcache.fetched _).1
    obtain ⟨k, hk, hkflight⟩ := (hfound j tx (by rw [hblock]; exact htx) txIn htxIn).resolve_left
      hneed
    have hmem : txIn.previousOutPoint ∈
        ((⟨∅, hash⟩ : UtxoViewpoint).findInputsToFetch block).1.entries := by
      by_contra hnot
      simp [lookupEntry, lookup_eq_none.2 hnot] at hsome
    obtain ⟨k', -, hk', tx', htx', hcreated⟩ := hflight _ hmem
    rw [hkflight, Option.some.injEq] at hk'
    subst hk'
    exact .inr ⟨k, by omega, _, by rw [Block.steps, getElem?_map, htx']; rfl, hcreated⟩

end UtxoViewpoint

end HandshakeNode
