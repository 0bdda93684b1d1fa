import HandshakeNode.Lib.LedgerTotal
import HandshakeNode.NameHistory
import HandshakeNode.Proofs.FetchInputs
import HandshakeNode.Proofs.NameUndo
import HandshakeNode.Proofs.Validate

/-!
# No block creates money

The value of the UTXO set, and how a block changes it: a transaction takes out at least its fee, and
the coinbase puts in what it pays. A second coinbase is refused when signature operations are
counted, for its input is no output. So a block adds at most the subsidy and what the coinbase
conjures.
-/

namespace HandshakeNode

open Ledger Overflow Loops List UtxoViewpoint SpentTxOut

def SpentTxOut.value (coin : SpentTxOut) : ℤ := coin.amount.toInt

def UtxoViewpoint.totalValue (view : UtxoViewpoint) : ℤ :=
  ∑ o ∈ view.entries.keys, weight value (view.coins o)

lemma UtxoViewpoint.mem_keys_of_coins {view : UtxoViewpoint} (h : view.coins o ≠ none) :
    o ∈ view.entries.keys := by
  by_contra hmem
  have hlookup : view.entries.lookup o = none :=
    Finmap.lookup_eq_none.2 fun ho => hmem (Finmap.mem_keys.2 ho)
  exact h (by simp [coins, lookupEntry, hlookup])

lemma UtxoViewpoint.totalValue_eq (view : UtxoViewpoint) :
    view.totalValue = total value view.coins :=
  (total_eq_sum fun _ => mem_keys_of_coins).symm

lemma UtxoViewpoint.finitary_coins (view : UtxoViewpoint) : Finitary view.coins :=
  view.entries.keys.finite_toSet.subset fun _ => mem_keys_of_coins

variable {ctx : CoinContext} {dbTx : Option NameDb} {env : ConnectEnv} {tx : Tx} {height : Int32}
  {s s' : ConnectState} {U : UtxoSet}

lemma value_newCoins_le (h : tx.Sane) (height : Int32) :
    ((tx.newCoins height).map (·.2.value)).sum ≤ tx.valueOut := by
  have hlist : ∀ l : List (TxOut × ℕ), (∀ p ∈ l, 0 ≤ p.1.value.toInt) →
      ((l.filterMap (tx.coinOf height)).map (·.2.value)).sum ≤ valueOf (l.map (·.1)) := by
    intro l
    induction l with
    | nil => simp [valueOf]
    | cons p l ih =>
      intro hl
      obtain ⟨hp, hl⟩ := forall_mem_cons.1 hl
      have hcons : valueOf ((p :: l).map (·.1)) = p.1.value.toInt + valueOf (l.map (·.1)) := rfl
      by_cases hun : txOutIsUnspendable p.1
      · rw [filterMap_cons_none (Tx.coinOf_unspendable hun _ _)]
        linarith [ih hl]
      · rw [filterMap_cons_some (Tx.coinOf_spendable hun _ _)]
        exact add_le_add le_rfl (ih hl)
  have hall := hlist tx.txOut.zipIdx fun p hp => h.nonneg p.1 (fst_mem_of_mem_zipIdx hp)
  rwa [zipIdx_map_fst] at hall

lemma Tx.Sane.value_newCoins (h : tx.Sane) :
    ∀ kv ∈ (tx.step height).outputs, MoneyRange kv.2.value := by
  intro kv hkv
  obtain ⟨p, hp, -, rfl⟩ := Tx.mem_newCoins hkv
  have hmem := fst_mem_of_mem_zipIdx hp
  refine ⟨h.nonneg p.1 hmem, le_trans ?_ h.valueOut_le⟩
  exact single_le_sum (by simpa using h.nonneg) _
    (mem_map_of_mem (f := fun txOut => txOut.value.toInt) hmem)

lemma checkTransactionInputs_held (h : tx.Sane)
    (hok : checkTransactionInputs ar ctx tx height view = .ok fee) :
    (∀ o ∈ (tx.step height).inputs, (view.coins o).isSome) ∧
      fee.toInt + (if tx.isCoinBase then 0 else tx.valueOut) =
        coinValue ((tx.step height).journal view.coins) := by
  unfold Step.journal Tx.step
  cases hcb : tx.isCoinBase with
  | true =>
    rw [checkTransactionInputs, if_pos hcb, Except.ok.injEq] at hok
    simp [← hok, coinValue]
  | false =>
    obtain ⟨totalIn, hloop, -, hfee⟩ := (checkTransactionInputs_eq_ok h hcb).1 hok
    obtain ⟨hheld, -, hsum⟩ := checkTransactionInputLoop_ok moneyRange_zero hloop
    have hmap : tx.txIn.zipIdx.map (fun p => p.1.previousOutPoint) =
        tx.txIn.map (·.previousOutPoint) := by
      rw [← Function.comp_def, ← map_map, zipIdx_map_fst]
    rw [hmap, Int64.toInt_zero, zero_add] at hsum
    simp only [Bool.false_eq_true, if_false]
    refine ⟨fun o ho => ?_, by rw [← hsum, hfee]; ring⟩
    rw [← hmap] at ho
    obtain ⟨p, hp, rfl⟩ := mem_map.1 ho
    exact hheld p hp

/-- The set is worth less by the fee of a transaction, or more by what a coinbase pays, whatever else
the view has at what the transaction does not spend. -/
theorem connectTx_value (h : tx.Sane) (hfees : 0 ≤ s.totalFees.toInt) (hfin : Finitary U)
    (hrange : Holding (MoneyRange ·.value) U)
    (hreads : ∀ o ∈ (tx.step env.height).inputs, s.view.coins o = U o)
    (hok : connectTx ar ctx dbTx env s tx = .ok s') :
    s'.view.coins = (tx.step env.height).apply s.view.coins ∧
      total value ((tx.step env.height).apply U) + s'.totalFees.toInt ≤
        total value U + s.totalFees.toInt + if tx.isCoinBase then tx.valueOut else 0 := by
  obtain ⟨fee, hfee, hsum, -, hview⟩ := (connectTx_eq_ok h hfees).1 hok
  obtain ⟨hheld, hjournal⟩ := checkTransactionInputs_held h hfee
  obtain ⟨view', hview', hcoins⟩ := connectTransaction_ok s.stxos hheld
  obtain ⟨rfl, -⟩ : s'.view = view' ∧ _ := by
    rw [hview, Except.ok.injEq, Prod.mk.injEq] at hview'
    exact hview'
  refine ⟨hcoins, ?_⟩
  have hnodup : (tx.step env.height).inputs.Nodup := by
    cases hcb : tx.isCoinBase with
    | true => simp [Tx.step, hcb]
    | false => simpa [Tx.step, hcb] using h.nodup hcb
  have hle := total_apply_le (w := value) hfin hnodup
    (fun o c hc => (hrange o c hc).1) fun kv hkv => (h.value_newCoins kv hkv).1
  have hnew := value_newCoins_le h env.height
  have hsame : (tx.step env.height).journal s.view.coins = (tx.step env.height).journal U :=
    filterMap_congr hreads
  change fee.toInt + _ = ((Step.journal _ _).map value).sum at hjournal
  change _ ≤ _ + ((tx.newCoins env.height).map (·.2.value)).sum at hle
  rw [← hsame, ← hjournal] at hle
  split_ifs at hle ⊢ <;> linarith

/-- No transaction but a coinbase adds to what the set and the fees are worth together. -/
theorem connectTxs_value : ∀ {txs : List Tx} {s : ConnectState} {U : UtxoSet},
    (∀ tx ∈ txs, tx.Sane) → (∀ tx ∈ txs, tx.isCoinBase = false) → 0 ≤ s.totalFees.toInt →
    Finitary U → Holding (MoneyRange ·.value) U →
    Reads (txs.map (·.step env.height)) s.view.coins U →
    txs.foldlM (connectTx ar ctx dbTx env) s = .ok s' →
    0 ≤ s'.totalFees.toInt ∧
      s'.view.coins = applyAll (txs.map (·.step env.height)) s.view.coins ∧
      total value (applyAll (txs.map (·.step env.height)) U) + s'.totalFees.toInt ≤
        total value U + s.totalFees.toInt
  | [], s, U, _, _, hfees, _, _, _, hok => by
    cases hok
    exact ⟨hfees, rfl, le_rfl⟩
  | tx :: txs, s, U, hsane, hplain, hfees, hfin, hrange, hreads, hok => by
    obtain ⟨htx, hsane⟩ := forall_mem_cons.1 hsane
    obtain ⟨hcb, hplain⟩ := forall_mem_cons.1 hplain
    obtain ⟨s1, hround, hrest⟩ := foldlM_cons_ok hok
    obtain ⟨hcoins, hle⟩ := connectTx_value htx hfees hfin hrange hreads.1 hround
    obtain ⟨hfees', hcoins', hle'⟩ := connectTxs_value hsane hplain
      (connectTx_fees htx hfees hround) (hfin.apply _) (hrange.apply htx.value_newCoins)
      (hcoins ▸ hreads.2) hrest
    rw [hcb, if_neg (by simp), add_zero] at hle
    exact ⟨hfees', by rw [hcoins', hcoins]; rfl, hle'.trans hle⟩

/-- A block whose first transaction alone may be a coinbase, which pays no more than it may. -/
theorem checkConnectTxs_value {transactions : List Tx} (hsane : ∀ tx ∈ transactions, tx.Sane)
    (hfirst : ∀ tx ∈ transactions.tail, tx.isCoinBase = false) (hfees : s.totalFees = 0)
    (hok : checkConnectTxs ar ctx dbTx env s transactions = .ok s') :
    ∃ tx conjured, transactions.head? = some tx ∧ blockConjuredValue ar ctx env tx = .ok conjured ∧
      ∀ U, Finitary U → Holding (MoneyRange ·.value) U →
        Reads (transactions.map (·.step env.height)) s.view.coins U →
        s'.view.coins = applyAll (transactions.map (·.step env.height)) s.view.coins ∧
        total value (applyAll (transactions.map (·.step env.height)) U) ≤ total value U +
          (calcBlockSubsidy ctx.coins env.height).toInt + conjured.toNat := by
  obtain ⟨tx, txs, rfl, -, hloop, hvalue⟩ := checkConnectTxs_eq_ok.1 hok
  obtain ⟨htx, htxs⟩ := forall_mem_cons.1 hsane
  have hzero : s.totalFees.toInt = 0 := by rw [hfees, Int64.toInt_zero]
  obtain ⟨s1, hround, hrest⟩ := foldlM_cons_ok hloop
  have hfees1 := connectTx_fees htx hzero.ge hround
  have hfees' : 0 ≤ s'.totalFees.toInt := foldlM_inv (P := fun s => 0 ≤ s.totalFees.toInt) _
    (fun tx htx s s' hs => connectTx_fees (htxs tx htx) hs) hfees1 hrest
  obtain ⟨conjured, hconjured, -, hpay⟩ := (checkCoinbaseValue_eq_ok htx hfees').1 hvalue
  refine ⟨tx, conjured, rfl, hconjured, fun U hfin hrange hreads => ?_⟩
  obtain ⟨hcoins, hle1⟩ := connectTx_value htx hzero.ge hfin hrange hreads.1 hround
  obtain ⟨-, hcoins', hle'⟩ := connectTxs_value htxs hfirst hfees1 (hfin.apply _)
    (hrange.apply htx.value_newCoins) (hcoins ▸ hreads.2) hrest
  have hnonneg := htx.valueOut_nonneg
  refine ⟨by rw [hcoins', hcoins]; rfl, ?_⟩
  change total value (applyAll (txs.map _) ((tx.step env.height).apply U)) ≤ _
  split_ifs at hle1 <;> linarith

lemma sumInputs_held (h : sumInputs tx view f = .ok n) :
    ∀ txIn ∈ tx.txIn, (view.coins txIn.previousOutPoint).isSome := by
  intro txIn htxIn
  obtain ⟨i, hi, rfl⟩ := getElem_of_mem htxIn
  obtain ⟨n1, n2, hround⟩ := foldlM_each _ h (tx.txIn[i], i)
    (mk_mem_zipIdx_iff_getElem?.2 (List.getElem?_eq_getElem hi))
  split at hround
  · cases hround
  · rename_i utxo hutxo
    obtain ⟨u, hspent, -⟩ := bind_eq_ok.1 hround
    exact Option.isSome_iff_exists.2
      ⟨_, unspent_eq_some.2 ⟨utxo, hutxo, by simpa using failIf_eq_ok.1 hspent, rfl⟩⟩

/-- Counting the signature operations needs every input of every transaction but the first. -/
theorem addSigOpCosts_held {transactions : List Tx}
    (h : transactions.zipIdx.foldlM (addSigOpCost view) 0 = .ok cost) :
    ∀ tx ∈ transactions.tail, ∀ txIn ∈ tx.txIn, (view.coins txIn.previousOutPoint).isSome := by
  intro tx htx
  obtain ⟨i, hi, rfl⟩ := getElem_of_mem htx
  obtain ⟨n1, n2, hround⟩ := foldlM_each _ h (transactions.tail[i], i + 1)
    (mk_mem_zipIdx_iff_getElem?.2 (by rw [getElem_tail]; exact List.getElem?_eq_getElem _))
  obtain ⟨cost, hcost, -⟩ := bind_eq_ok.1 hround
  obtain ⟨n, hn, -⟩ := bind_eq_ok.1 hcost
  exact sumInputs_held (by simpa [countP2SHSigOps] using hn)

/-- The view has been made for the block from a cache that stands for the set `U`. -/
def FetchedFrom (U : UtxoSet) (block : Block) (view : UtxoViewpoint) : Prop :=
  ∃ mem cache db hash, UtxoCache.Refines cache db U ∧
    view = (fetchInputUtxos mem cache db ⟨∅, hash⟩ block).1

/-- A block whose transactions are sane adds no more to the view, and none that starts with a
coinbase adds more to the UTXO set, than the subsidy and the proofs of the coinbase. Nothing wraps:
with checked arithmetic the same calls succeed with the same results. Every proof of the coinbase is
a different one and is counted once. -/
theorem block_creates_no_money {block : Block} (hheight : block.height = env.height)
    (hset : ∀ o coin, s.view.coins o = some coin →
      MoneyRange coin.value ∧ isNullOutpoint o = false)
    (hfees : s.totalFees = 0)
    (hsane : ∀ tx ∈ block.transactions, checkTransactionSanity goArith ctx tx = .ok ())
    (hok : checkConnectTxs goArith ctx dbTx env s block.transactions = .ok s') :
    (∃ tx conjured, block.transactions.head? = some tx ∧
      blockConjuredValue goArith ctx env tx = .ok conjured ∧
      s'.view.totalValue ≤ s.view.totalValue + (calcBlockSubsidy ctx.coins env.height).toInt +
        conjured.toNat ∧
      (tx.isCoinBase = true → ∀ U, FetchedFrom U block s.view → Finitary U →
        (∀ o coin, U o = some coin → MoneyRange coin.value) →
        total value (applyAll block.steps U) ≤ total value U +
          (calcBlockSubsidy ctx.coins env.height).toInt + conjured.toNat) ∧
      ∀ prevTime, env.parentTime = some prevTime → tx.isCoinBase = true →
        (tx.txIn.tail.map (·.witness)).Nodup ∧
          ∃ values, List.Forall₂ (ProofWorth ctx env.airstopActive (env.proofEnv prevTime) tx)
              tx.txIn.zipIdx.tail values ∧
            conjured.toNat = (values.map UInt64.toNat).sum) ∧
    (∀ tx ∈ block.transactions, checkTransactionSanity checkedArith ctx tx = .ok ()) ∧
    checkConnectTxs checkedArith ctx dbTx env s block.transactions = .ok s' := by
  have hsane' : ∀ tx ∈ block.transactions, tx.Sane := fun tx htx =>
    sane_of_checkTransactionSanity (hsane tx htx)
  have hzero : 0 ≤ s.totalFees.toInt := by rw [hfees, Int64.toInt_zero]
  refine ⟨?_, fun tx htx => checkTransactionSanity_congr checkedArith (hsane tx htx),
    checkConnectTxs_congr checkedArith hsane' hzero hok⟩
  obtain ⟨cb, txs, hblock, ⟨cost, hcost⟩, -⟩ := checkConnectTxs_eq_ok.1 hok
  have hheld := addSigOpCosts_held hcost
  -- A coinbase spends the null outpoint first, which the view does not have.
  have hfirst : ∀ tx ∈ block.transactions.tail, tx.isCoinBase = false := by
    rw [hblock]
    intro tx htx
    unfold Tx.isCoinBase
    split
    · rfl
    · rename_i txIn txIns htxIn
      obtain ⟨coin, hcoin⟩ := Option.isSome_iff_exists.1 (hheld tx htx txIn (by simp [htxIn]))
      exact (hset _ coin hcoin).2
  obtain ⟨tx, conjured, hhead, hconjured, hvalue⟩ :=
    checkConnectTxs_value hsane' hfirst hfees hok
  refine ⟨tx, conjured, hhead, hconjured, ?_, fun hcb U hfetched hfin hrange => ?_,
    fun prevTime hparent hcb => ?_⟩
  · obtain ⟨hcoins, hle⟩ := hvalue _ s.view.finitary_coins (fun o c hc => (hset o c hc).1)
      (.refl _ _)
    rwa [totalValue_eq, totalValue_eq, hcoins]
  · obtain ⟨mem, cache, db, hash, hcache, hview⟩ := hfetched
    rw [hblock] at hhead
    cases hhead
    rw [Block.steps, hheight]
    refine (hvalue U hfin hrange ?_).2
    rw [hview] at hheld ⊢
    rw [← hheight]
    exact reads_fetchInputUtxos mem hash hcache hblock hcb hheld
  · rw [blockConjuredValue, hparent] at hconjured
    exact coinbaseConjuredValue_ok hcb (hsane' tx (mem_of_head? hhead)) hconjured

def regtestCoins : CoinContext where
  names := regtest
  coins := ⟨2, 2500, 0xffffffff⟩
  schemes := ⟨blake2bSum256, fun _ _ _ => false⟩
  amountString _ := ""

def thirdBlockEnv : ConnectEnv where
  height := 3
  parentTime := some 0
  deploymentFlags := ⟨false, false⟩
  airstopActive := false
  mainChainHeight _ := .ok (-1)
  ownerCoinValue view owner := nameOwnerCoinLookup view owner

/-- A block that spends a coin of the set for a fee of two, and in it the output of that. -/
def payingBlock : Block :=
  { chainedBlock with
    height := 3
    transactions := [{ plainTx 2 ⟨Hash.zero, 0xffffffff⟩ with
        txOut := [{ plainOut with value := 2000000002 }] },
      { plainTx 3 ⟨Hash.ofBytes [1], 0⟩ with txOut := [{ plainOut with value := 3 }] },
      { plainTx 4 ⟨Hash.ofBytes [3], 0⟩ with txOut := [{ plainOut with value := 3 }] }] }

open UtxoCache in
def payingStart : ConnectState :=
  ⟨(fetchInputUtxos unitMemory (newUtxoCache unitMemory 1000) oneCoinDb ⟨∅, Hash.zero⟩
    payingBlock).1, some newLazyNameBlockView, [], 0⟩

open UtxoCache in
theorem block_creates_no_money_payingBlock : ∃ s',
    checkConnectTxs goArith regtestCoins (some newNameDb) thirdBlockEnv payingStart
      payingBlock.transactions = .ok s' ∧
    (∃ conjured : UInt64, total value (applyAll payingBlock.steps oneCoinDb.coins) ≤
      total value oneCoinDb.coins + 2000000000 + conjured.toNat) ∧
    checkConnectTxs checkedArith regtestCoins (some newNameDb) thirdBlockEnv payingStart
      payingBlock.transactions = .ok s' := by
  have hok : ((checkConnectTxs goArith regtestCoins (some newNameDb) thirdBlockEnv payingStart
      payingBlock.transactions).toOption.any fun _ => true) = true := by
    decide +kernel
  obtain ⟨s', hs', -⟩ := exists_ok_of_any hok
  have hkeys : ∀ o ∈ payingStart.view.entries.keys, ∀ coin ∈ payingStart.view.coins o,
      MoneyRange coin.value ∧ isNullOutpoint o = false := by
    decide +kernel
  have hcoins : ∀ o coin, oneCoinDb.coins o = some coin →
      o = ⟨Hash.ofBytes [1], 0⟩ ∧ MoneyRange coin.value := by
    intro o coin hcoin
    rw [UtxoDb.coins, UtxoDb.dbFetchUtxoEntry, oneCoinDb] at hcoin
    by_cases ho : o = ⟨Hash.ofBytes [1], 0⟩
    · subst ho
      rw [Finmap.lookup_insert] at hcoin
      cases hcoin
      exact ⟨rfl, by decide⟩
    · rw [Finmap.lookup_insert_of_ne _ ho] at hcoin
      cases hcoin
  have hsubsidy : (calcBlockSubsidy regtestCoins.coins thirdBlockEnv.height).toInt = 2000000000 := by
    decide +kernel
  obtain ⟨⟨tx, conjured, hhead, -, -, hset, -⟩, -, hchecked⟩ :=
    block_creates_no_money (show payingBlock.height = thirdBlockEnv.height from rfl)
      (fun o coin h => hkeys o (mem_keys_of_coins (by simp [h])) coin h) rfl (by decide +kernel) hs'
  refine ⟨s', hs', ⟨conjured, ?_⟩, hchecked⟩
  cases hhead
  rw [← hsubsidy]
  refine hset (by decide) _ ⟨unitMemory, _, _, _, refines_of_empty rfl oneCoinDb, rfl⟩ ?_
    fun o coin h => (hcoins o coin h).2
  refine (Set.finite_singleton ⟨Hash.ofBytes [1], 0⟩).subset fun o ho => ?_
  obtain ⟨coin, hcoin⟩ := Option.ne_none_iff_exists'.1 ho
  exact (hcoins o coin hcoin).1

end HandshakeNode
