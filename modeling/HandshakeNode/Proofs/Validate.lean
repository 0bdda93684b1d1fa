import HandshakeNode.Lib.Loops
import HandshakeNode.Validate
import Mathlib.Algebra.Order.BigOperators.Group.List

/-!
# What the checks of amounts accept

For each check, what it accepts and returns, in integers. Neither depends on the arithmetic: where a
check accepts, every sum and difference it took was exact.
-/

namespace HandshakeNode

open Overflow Loops List Int64 Unique

variable {tx : Tx}

lemma maxDoo_lt : (maxDoo : ℤ) < 2 ^ 62 := by decide

def MoneyRange (n : ℤ) : Prop := 0 ≤ n ∧ n ≤ maxDoo

instance (n : ℤ) : Decidable (MoneyRange n) := inferInstanceAs (Decidable (_ ∧ _))

def valueOf (txOuts : List TxOut) : ℤ := (txOuts.map (·.value.toInt)).sum

lemma valueOf_nonneg (h : ∀ txOut ∈ txOuts, 0 ≤ txOut.value.toInt) : 0 ≤ valueOf txOuts :=
  sum_nonneg (forall_mem_map.2 h)

def Tx.valueOut (tx : Tx) : ℤ := valueOf tx.txOut

lemma checkTxOutValue_eq_ok (ht : MoneyRange t.toInt) : checkTxOutValue ar t txOut = .ok t' ↔
      0 ≤ txOut.value.toInt ∧ t.toInt + txOut.value.toInt ≤ maxDoo ∧
        t'.toInt = t.toInt + txOut.value.toInt ∧ badOutput "address" txOut.address.encode = .ok () ∧
        badOutput "covenant" txOut.covenant.encode = .ok () := by
  obtain ⟨hlow, hhigh⟩ := ht
  have hmax := maxDoo_lt
  simp only [checkTxOutValue, bind_eq_ok, failIf_eq_ok, exists_iff,
    pure_eq_ok, lt_iff_toInt_lt, toInt_zero, not_lt]
  constructor
  · rintro ⟨hneg, hdoo, t'', hadd, -, hle, haddr, hcov, rfl⟩
    obtain rfl := ar.int64.add_eq hadd
    have hexact := int64_add_exact (a := t) (b := txOut.value) (by omega) (by omega)
    exact ⟨hneg, by omega, hexact, haddr, hcov⟩
  · rintro ⟨hneg, hle, hval, haddr, hcov⟩
    have hexact := int64_add_exact (a := t) (b := txOut.value) (by omega) (by omega)
    obtain rfl : t' = t + txOut.value := toInt_inj.1 (hval.trans hexact.symm)
    exact ⟨hneg, by omega, _, ar.int64.add_exact hexact, by omega, by omega, haddr, hcov, rfl⟩

lemma checkTxOutValues_eq_ok : ∀ {txOuts} {t t' : Int64}, MoneyRange t.toInt →
    txOuts.foldlM (checkTxOutValue ar) t = .ok t' →
    (∀ txOut ∈ txOuts, 0 ≤ txOut.value.toInt) ∧ t'.toInt = t.toInt + valueOf txOuts ∧
      t'.toInt ≤ maxDoo
  | [], t, t', ht, h => by
    cases h
    exact ⟨by simp, by simp [valueOf], ht.2⟩
  | txOut :: txOuts, t, t', ht, h => by
    obtain ⟨t1, hround, hrest⟩ := foldlM_cons_ok h
    obtain ⟨hneg, hle, hval, -⟩ := (checkTxOutValue_eq_ok ht).1 hround
    have hval' : MoneyRange t1.toInt := ⟨by have := ht.1; omega, by omega⟩
    obtain ⟨hall, hsum, hmax⟩ := checkTxOutValues_eq_ok hval'
      hrest
    refine ⟨forall_mem_cons.2 ⟨hneg, hall⟩, ?_, hmax⟩
    rw [hsum, hval, valueOf, valueOf, map_cons, sum_cons, add_assoc]

structure Tx.Sane (tx : Tx) : Prop where
  nonneg : ∀ txOut ∈ tx.txOut, 0 ≤ txOut.value.toInt
  valueOut_le : tx.valueOut ≤ maxDoo
  nodup : tx.isCoinBase = false → (tx.txIn.map (·.previousOutPoint)).Nodup
  proofs : tx.isCoinBase = true → ∀ txIn ∈ tx.txIn.tail, ∃ proof, txIn.witness = [proof]

lemma Tx.Sane.valueOut_nonneg (h : tx.Sane) : 0 ≤ tx.valueOut := valueOf_nonneg h.nonneg

lemma Tx.Sane.exists_total (h : tx.Sane) : ∃ total : Int64, total.toInt = tx.valueOut := by
  have hmax := maxDoo_lt
  have hle := h.valueOut_le
  have hnonneg := h.valueOut_nonneg
  exact ⟨.ofInt tx.valueOut, toInt_ofInt_of_le (by omega) (by omega)⟩

lemma moneyRange_zero : MoneyRange (0 : Int64).toInt := by decide

lemma checkDuplicateInputs_ok : ∀ {txIns} {existing} {u},
    checkDuplicateInputs txIns existing = .ok u →
    (txIns.map (·.previousOutPoint)).Nodup ∧ ∀ txIn ∈ txIns, txIn.previousOutPoint ∉ existing
  | [], _, _, _ => by simp
  | txIn :: txIns, existing, u, h => by
    simp only [checkDuplicateInputs, bind_eq_ok, failIf_eq_ok, exists_const] at h
    obtain ⟨hnew, hrest⟩ := h
    obtain ⟨hnodup, hfresh⟩ := checkDuplicateInputs_ok hrest
    rw [map_cons, nodup_cons, mem_map, forall_mem_cons]
    refine ⟨⟨?_, hnodup⟩, hnew, fun i hi hmem => hfresh i hi (Finset.mem_insert_of_mem hmem)⟩
    rintro ⟨i, hi, heq⟩
    exact hfresh i hi (heq ▸ Finset.mem_insert_self _ _)

lemma checkCoinbaseInput_ok (hp : p.2 ≠ 0)
    (h : checkCoinbaseInput tx p = .ok u) : ∃ proof, p.1.witness = [proof] := by
  simp only [checkCoinbaseInput, bind_eq_ok, if_neg hp] at h
  obtain ⟨-, -, h⟩ := h
  split at h
  · exact ⟨_, ‹_›⟩
  · cases h

lemma checkTransactionSanity_eq_ok : checkTransactionSanity ar ctx tx = .ok () ↔
    tx.txIn.length ≠ 0 ∧ tx.txOut.length ≠ 0 ∧ tx.serializeSizeStripped ≤ maxBlockBaseSize ∧
      (∃ t, tx.txOut.foldlM (checkTxOutValue ar) 0 = .ok t) ∧
      checkCovenantSanity ctx.names tx = .ok () ∧
      (if tx.isCoinBase then checkCoinbaseInputs tx
        else checkDuplicateInputs tx.txIn ∅ >>= fun _ => tx.txIn.forM checkInputNotNull) = .ok () := by
  simp [checkTransactionSanity, bind_eq_ok, exists_iff]

lemma checkTransactionSanity_congr (ar' : Arith) (h : checkTransactionSanity ar ctx tx = .ok ()) :
    checkTransactionSanity ar' ctx tx = .ok () := by
  obtain ⟨hin, hout, hsize, ⟨t, ht⟩, hrest⟩ := checkTransactionSanity_eq_ok.1 h
  refine checkTransactionSanity_eq_ok.2 ⟨hin, hout, hsize, ⟨t, ?_⟩, hrest⟩
  refine foldlM_congr_ok (P := fun t => MoneyRange t.toInt) _ (fun txOut _ t t' ht hround => ?_)
    moneyRange_zero ht
  have hspec := (checkTxOutValue_eq_ok ht).1 hround
  exact ⟨(checkTxOutValue_eq_ok ht).2 hspec, by have := ht.1; omega, by omega⟩

lemma sane_of_checkTransactionSanity (h : checkTransactionSanity ar ctx tx = .ok ()) : tx.Sane := by
  obtain ⟨-, -, -, ⟨t, ht⟩, -, hinputs⟩ := checkTransactionSanity_eq_ok.1 h
  obtain ⟨hnonneg, hsum, hmax⟩ := checkTxOutValues_eq_ok moneyRange_zero ht
  rw [toInt_zero, zero_add] at hsum
  refine ⟨hnonneg, hsum.symm.trans_le hmax, fun hcb => ?_, fun hcb txIn htxIn => ?_⟩
  · rw [hcb, if_neg (by simp), bind_eq_ok] at hinputs
    obtain ⟨u, hdup, -⟩ := hinputs
    exact (checkDuplicateInputs_ok hdup).1
  · simp only [hcb, if_true, checkCoinbaseInputs, bind_eq_ok] at hinputs
    obtain ⟨u, hall, -⟩ := hinputs
    obtain ⟨i, hi, rfl⟩ := getElem_of_mem htxIn
    rw [length_tail] at hi
    rw [getElem_tail]
    refine checkCoinbaseInput_ok (Nat.succ_ne_zero i) (forM_each _ hall (_, i + 1) ?_)
    exact mk_mem_zipIdx_iff_getElem?.2 (List.getElem?_eq_getElem (by omega))

/-! ## Inputs and fees -/

def coinValue (coins : List SpentTxOut) : ℤ := (coins.map (·.amount.toInt)).sum

lemma checkTransactionInput_eq_ok (ht : MoneyRange t.toInt) :
    checkTransactionInput ar ctx tx height view t p = .ok t' ↔
      ∃ utxo, view.lookupEntry p.1.previousOutPoint = some utxo ∧ utxo.isSpent = false ∧
        ¬ (utxo.isCoinBase ∧
          height - utxo.blockHeight < ctx.coins.coinbaseMaturity.toUInt32.toInt32) ∧
        0 ≤ utxo.amount.toInt ∧ t.toInt + utxo.amount.toInt ≤ maxDoo ∧
        t'.toInt = t.toInt + utxo.amount.toInt := by
  obtain ⟨hlow, hhigh⟩ := ht
  have hmax := maxDoo_lt
  unfold checkTransactionInput
  cases hutxo : view.lookupEntry p.1.previousOutPoint with
  | none => simp
  | some utxo =>
    simp only [bind_eq_ok, failIf_eq_ok, exists_iff, pure_eq_ok, Option.some.injEq,
      exists_eq_left', Bool.not_eq_true, not_or]
    simp only [lt_iff_toInt_lt, toInt_zero]
    constructor
    · rintro ⟨hspent, hmature, hneg, hle, t'', hadd, ⟨-, hsum⟩, rfl⟩
      obtain rfl := ar.int64.add_eq hadd
      have hexact := int64_add_exact (a := t) (b := utxo.amount) (by omega) (by omega)
      exact ⟨hspent, hmature, by omega, by omega, hexact⟩
    · rintro ⟨hspent, hmature, hneg, hle, hval⟩
      have hexact := int64_add_exact (a := t) (b := utxo.amount) (by omega) (by omega)
      obtain rfl : t' = t + utxo.amount := toInt_inj.1 (hval.trans hexact.symm)
      exact ⟨hspent, hmature, by omega, by omega, _, ar.int64.add_exact hexact,
        ⟨by omega, by omega⟩, rfl⟩

lemma moneyRange_checkTransactionInput (ht : MoneyRange t.toInt)
    (h : checkTransactionInput ar ctx tx height view t p = .ok t') : MoneyRange t'.toInt := by
  obtain ⟨utxo, -, -, -, hneg, hle, hval⟩ := (checkTransactionInput_eq_ok ht).1 h
  exact ⟨by have := ht.1; omega, by omega⟩

lemma checkTransactionInputLoop_ok : ∀ {ps : List (TxIn × ℕ)} {t t' : Int64},
    MoneyRange t.toInt → ps.foldlM (checkTransactionInput ar ctx tx height view) t = .ok t' →
    (∀ p ∈ ps, (view.coins p.1.previousOutPoint).isSome) ∧ MoneyRange t'.toInt ∧
      t'.toInt = t.toInt + coinValue ((ps.map fun p => p.1.previousOutPoint).filterMap view.coins)
  | [], t, t', ht, h => by
    cases h
    exact ⟨by simp, ht, by simp [coinValue]⟩
  | p :: ps, t, t', ht, h => by
    obtain ⟨t1, hround, hrest⟩ := foldlM_cons_ok h
    obtain ⟨utxo, hutxo, hspent, -, -, -, hval⟩ := (checkTransactionInput_eq_ok ht).1 hround
    have hcoin : view.coins p.1.previousOutPoint = some utxo.stxo :=
      unspent_eq_some.2 ⟨utxo, hutxo, hspent, rfl⟩
    obtain ⟨hall, hrange, hsum⟩ :=
      checkTransactionInputLoop_ok (moneyRange_checkTransactionInput ht hround) hrest
    refine ⟨forall_mem_cons.2 ⟨by rw [hcoin]; rfl, hall⟩, hrange, ?_⟩
    rw [hsum, hval, map_cons, filterMap_cons_some hcoin, add_assoc]
    rfl

lemma sumOutputs_eq_ok (h : tx.Sane) :
    sumOutputs ar tx = .ok total ↔ total.toInt = tx.valueOut := by
  have hloop : ∀ txOuts (t : Int64), (∀ txOut ∈ txOuts, 0 ≤ txOut.value.toInt) →
      0 ≤ t.toInt → t.toInt + valueOf txOuts ≤ maxDoo →
      (txOuts.foldlM (fun total txOut => ar.int64.add total txOut.value) t = .ok total ↔
        total.toInt = t.toInt + valueOf txOuts) := by
    intro txOuts
    induction txOuts with
    | nil =>
      intro t _ _ _
      rw [foldlM_nil, pure_eq_ok, valueOf, map_nil, sum_nil, add_zero, ← toInt_inj, eq_comm]
    | cons txOut txOuts ih =>
      intro t hnonneg ht hle
      obtain ⟨hneg, hnonneg⟩ := forall_mem_cons.1 hnonneg
      have hrest := valueOf_nonneg hnonneg
      have hcons : valueOf (txOut :: txOuts) = txOut.value.toInt + valueOf txOuts := rfl
      have hmax := maxDoo_lt
      have hexact := int64_add_exact (a := t) (b := txOut.value) (by omega) (by omega)
      rw [foldlM_cons, ar.int64.add_exact hexact, ok_bind,
        ih _ hnonneg (by omega) (by omega), hexact, hcons, add_assoc]
  have h0 := hloop tx.txOut 0 h.nonneg (by simp)
    (by rw [toInt_zero, zero_add]; exact h.valueOut_le)
  rwa [toInt_zero, zero_add] at h0

lemma checkTransactionInputs_eq_ok (h : tx.Sane) (hcb : tx.isCoinBase = false) :
    checkTransactionInputs ar ctx tx height view = .ok fee ↔
      ∃ totalIn, tx.txIn.zipIdx.foldlM (checkTransactionInput ar ctx tx height view) 0 =
          .ok totalIn ∧ tx.valueOut ≤ totalIn.toInt ∧ fee.toInt = totalIn.toInt - tx.valueOut := by
  have hnonneg := h.valueOut_nonneg
  have hmax := maxDoo_lt
  simp only [checkTransactionInputs, hcb, Bool.false_eq_true, if_false, bind_eq_ok, failIf_eq_ok,
    exists_iff, sumOutputs_eq_ok h, lt_iff_toInt_lt, not_lt]
  refine exists_congr fun totalIn => and_congr_right fun hloop => ?_
  obtain ⟨-, hrange, -⟩ := checkTransactionInputLoop_ok moneyRange_zero hloop
  have hle := hrange.2
  have hexact : ∀ out : Int64, out.toInt = tx.valueOut → out.toInt ≤ totalIn.toInt →
      (totalIn - out).toInt = totalIn.toInt - out.toInt := fun out hout hspend =>
    int64_sub_exact (by omega) (by omega)
  constructor
  · rintro ⟨out, hout, hspend, hsub⟩
    obtain rfl := ar.int64.sub_eq hsub
    exact ⟨hout ▸ hspend, by rw [hexact out hout hspend, hout]⟩
  · rintro ⟨hspend, hfee⟩
    obtain ⟨out, hout⟩ := h.exists_total
    have hsub := hexact out hout (hout ▸ hspend)
    obtain rfl : fee = totalIn - out := toInt_inj.1 (by rw [hfee, hsub, hout])
    exact ⟨out, hout, hout ▸ hspend, ar.int64.sub_exact hsub⟩

lemma checkTransactionInputs_congr (ar' : Arith) (h : tx.Sane)
    (hok : checkTransactionInputs ar ctx tx height view = .ok fee) :
    checkTransactionInputs ar' ctx tx height view = .ok fee := by
  cases hcb : tx.isCoinBase with
  | true => simpa [checkTransactionInputs, hcb] using hok
  | false =>
    obtain ⟨totalIn, hloop, hrest⟩ := (checkTransactionInputs_eq_ok h hcb).1 hok
    refine (checkTransactionInputs_eq_ok h hcb).2 ⟨totalIn, ?_, hrest⟩
    refine foldlM_congr_ok (P := fun t => MoneyRange t.toInt) _ (fun p _ t t' ht hround => ?_)
      moneyRange_zero hloop
    exact ⟨(checkTransactionInput_eq_ok ht).2 ((checkTransactionInput_eq_ok ht).1 hround),
      moneyRange_checkTransactionInput ht hround⟩

lemma checkTransactionInputs_range (h : tx.Sane)
    (hok : checkTransactionInputs ar ctx tx height view = .ok fee) : MoneyRange fee.toInt := by
  cases hcb : tx.isCoinBase with
  | true =>
    rw [checkTransactionInputs, if_pos hcb, Except.ok.injEq] at hok
    exact hok ▸ moneyRange_zero
  | false =>
    obtain ⟨totalIn, hloop, hspend, hfee⟩ := (checkTransactionInputs_eq_ok h hcb).1 hok
    obtain ⟨-, ⟨-, hle⟩, -⟩ := checkTransactionInputLoop_ok moneyRange_zero hloop
    have hnonneg := h.valueOut_nonneg
    exact ⟨by omega, by omega⟩

lemma verifyCoinbaseAirdropProofData_congr (ar ar' : Arith) :
    verifyCoinbaseAirdropProofData ar ctx txOut env proof =
      verifyCoinbaseAirdropProofData ar' ctx txOut env proof := by
  refine bind_congr fun _ => bind_congr fun _ => bind_congr fun _ => bind_congr fun _ =>
    bind_congr fun _ => bind_congr fun _ => ?_
  by_cases hfee : proof.value < proof.fee
  · rw [failIf, if_pos hfee]
    rfl
  have hexact : (((proof.value - proof.fee).toNat : ℕ) : ℤ) =
      proof.value.toNat - proof.fee.toNat := by
    have hle : proof.fee.toNat ≤ proof.value.toNat := not_lt.1 hfee
    rw [uint64_sub_exact hle, Nat.cast_sub hle]
  rw [failIf_of_not hfee, ok_bind, ok_bind, ar.uint64.sub_exact hexact, ar'.uint64.sub_exact hexact]

lemma coinbaseProofValue_congr (ar ar' : Arith) :
    coinbaseProofValue ar ctx airstop env tx txOut i =
      coinbaseProofValue ar' ctx airstop env tx txOut i := by
  unfold coinbaseProofValue verifyCoinbaseAirdropProof
  simp [verifyCoinbaseAirdropProofData_congr ar ar']

lemma addCoinbaseConjured_eq_ok : addCoinbaseConjured ar conjured value = .ok r ↔
      conjured.toNat + value.toNat ≤ maxDoo ∧ r.toNat = conjured.toNat + value.toNat := by
  have hmax : maxDoo < 2 ^ 64 := by decide
  have htop : (UInt64.ofNat maxDoo).toNat = maxDoo := UInt64.toNat_ofNat_of_lt' hmax
  have hroom : conjured.toNat ≤ maxDoo →
      (UInt64.ofNat maxDoo - conjured).toNat = maxDoo - conjured.toNat := fun hle => by
    rw [uint64_sub_exact (htop.symm ▸ hle), htop]
  have hroom' : conjured.toNat ≤ maxDoo → ar.uint64.sub (UInt64.ofNat maxDoo) conjured =
      .ok (UInt64.ofNat maxDoo - conjured) := fun hle => ar.uint64.sub_exact (by
    rw [hroom hle, htop, Nat.cast_sub hle])
  simp only [addCoinbaseConjured, bind_eq_ok, failIf_eq_ok, exists_iff, UInt64.lt_iff_toNat_lt]
  constructor
  · rintro ⟨hle, room, hsub, hvalue, hadd⟩
    obtain rfl := ar.uint64.sub_eq hsub
    obtain rfl := ar.uint64.add_eq hadd
    exact ⟨by omega, uint64_add_exact (by omega)⟩
  · rintro ⟨hle, hr⟩
    have hexact : (conjured + value).toNat = conjured.toNat + value.toNat :=
      uint64_add_exact (by omega)
    obtain rfl : r = conjured + value := UInt64.toNat_inj.1 (hr.trans hexact.symm)
    refine ⟨by omega, _, hroom' (by omega), ?_, ar.uint64.add_exact (by rw [hexact]; simp)⟩
    omega

def ProofWorth (ctx : CoinContext) (airstop : Bool) (env : NameEnv) (tx : Tx) (p : TxIn × ℕ)
    (value : UInt64) : Prop :=
  ∃ txOut, tx.txOut[p.2]? = some txOut ∧
    coinbaseProofValue goArith ctx airstop env tx txOut p.2 = .ok value

lemma conjureProof_eq_ok : conjureProof ar ctx airstop env tx s p = .ok s' ↔
      ∃ value, ProofWorth ctx airstop env tx p value ∧ s.1.toNat + value.toNat ≤ maxDoo ∧
        s'.1.toNat = s.1.toNat + value.toNat ∧ addSeenProof ctx s.2 p.1.witness = .ok s'.2 := by
  obtain ⟨conjured, seen⟩ := s'
  unfold conjureProof ProofWorth
  cases tx.txOut[p.2]? with
  | none => simp
  | some txOut =>
    simp only [bind_eq_ok, pure_eq_ok, Prod.mk.injEq, addCoinbaseConjured_eq_ok,
      coinbaseProofValue_congr ar goArith, Option.some.injEq, exists_eq_left']
    constructor
    · rintro ⟨seen', hseen, value, hvalue, conjured', ⟨hle, hsum⟩, rfl, rfl⟩
      exact ⟨value, hvalue, hle, hsum, hseen⟩
    · rintro ⟨value, hvalue, hle, hsum, hseen⟩
      exact ⟨seen, hseen, value, hvalue, conjured, ⟨hle, hsum⟩, rfl, rfl⟩

lemma conjureProofs_ok : ∀ {ps} {s s'},
    s.1.toNat ≤ maxDoo → ps.foldlM (conjureProof ar ctx airstop env tx) s = .ok s' →
    ∃ values, List.Forall₂ (ProofWorth ctx airstop env tx) ps values ∧
      s'.1.toNat = s.1.toNat + (values.map UInt64.toNat).sum ∧ s'.1.toNat ≤ maxDoo
  | [], s, s', hs, h => by
    cases h
    exact ⟨[], .nil, by simp, hs⟩
  | p :: ps, s, s', hs, h => by
    obtain ⟨s1, hround, hrest⟩ := foldlM_cons_ok h
    obtain ⟨value, hworth, hle, hsum, -⟩ := conjureProof_eq_ok.1 hround
    obtain ⟨values, hall, hsums, hmax⟩ := conjureProofs_ok (hsum ▸ hle) hrest
    refine ⟨value :: values, .cons hworth hall, ?_, hmax⟩
    rw [hsums, hsum, map_cons, sum_cons, add_assoc]

lemma conjureProofs_nodup : ∀ {ps : List (TxIn × ℕ)} {s s' : UInt64 × Finset Hash},
    (∀ p ∈ ps, ∃ proof, p.1.witness = [proof]) →
    ps.foldlM (conjureProof ar ctx airstop env tx) s = .ok s' →
    (ps.map (·.1.witness)).Nodup ∧
      ∀ p ∈ ps, ∀ proof, p.1.witness = [proof] → ctx.schemes.sha256 proof ∉ s.2
  | [], _, _, _, _ => by simp
  | p :: ps, s, s', hone, h => by
    obtain ⟨⟨proof, hproof⟩, hone⟩ := forall_mem_cons.1 hone
    obtain ⟨s1, hround, hrest⟩ := foldlM_cons_ok h
    obtain ⟨-, -, -, -, hseen⟩ := conjureProof_eq_ok.1 hround
    obtain ⟨hnodup, hfresh⟩ := conjureProofs_nodup hone hrest
    simp only [hproof, addSeenProof, bind_eq_ok, failIf_eq_ok, exists_const, pure_eq_ok] at hseen
    obtain ⟨hnew, hseen⟩ := hseen
    have hhead : ctx.schemes.sha256 proof ∈ s1.2 := hseen ▸ Finset.mem_insert_self _ _
    rw [map_cons, nodup_cons, mem_map, forall_mem_cons]
    refine ⟨⟨?_, hnodup⟩, fun proof' hproof' => ?_, fun q hq proof' hproof' hmem => ?_⟩
    · rintro ⟨q, hq, heq⟩
      exact hfresh q hq proof (heq.trans hproof) hhead
    · obtain rfl : proof = proof' := by simpa [hproof] using hproof'
      exact hnew
    · exact hfresh q hq proof' hproof' (hseen ▸ Finset.mem_insert_of_mem hmem)

/-- What a coinbase conjures is what its proofs are worth, each of them counted once. -/
theorem coinbaseConjuredValue_ok (hcb : tx.isCoinBase = true) (hsane : tx.Sane)
    (h : coinbaseConjuredValue ar ctx airstop env tx = .ok conjured) :
    (tx.txIn.tail.map (·.witness)).Nodup ∧
      ∃ values, List.Forall₂ (ProofWorth ctx airstop env tx) tx.txIn.zipIdx.tail values ∧
        conjured.toNat = (values.map UInt64.toNat).sum := by
  rw [coinbaseConjuredValue, if_pos hcb] at h
  simp only [bind_eq_ok, pure_eq_ok, Prod.exists] at h
  obtain ⟨conjured', seen, hloop, rfl⟩ := h
  have htail : tx.txIn.zipIdx.tail.map Prod.fst = tx.txIn.tail := by
    rw [map_tail, zipIdx_map_fst]
  have hone : ∀ p ∈ tx.txIn.zipIdx.tail, ∃ proof, p.1.witness = [proof] := fun p hp =>
    hsane.proofs hcb p.1 (htail ▸ mem_map_of_mem hp)
  obtain ⟨hnodup, -⟩ := conjureProofs_nodup hone hloop
  obtain ⟨values, hall, hsum, -⟩ := conjureProofs_ok (Nat.zero_le _) hloop
  refine ⟨?_, values, hall, by simpa using hsum⟩
  rwa [← htail, map_map]

lemma blockConjuredValue_congr (ar' : Arith) {env : ConnectEnv}
    (h : blockConjuredValue ar ctx env tx = .ok conjured) :
    blockConjuredValue ar' ctx env tx = .ok conjured := by
  unfold blockConjuredValue coinbaseConjuredValue at h ⊢
  split at h
  · exact h
  · split_ifs at h ⊢
    · obtain ⟨s, hloop, hs⟩ := bind_eq_ok.1 h
      refine bind_eq_ok.2 ⟨s, ?_, hs⟩
      exact foldlM_congr_ok (P := fun _ => True) _ (fun p _ s s' _ hround =>
        ⟨conjureProof_eq_ok.2 (conjureProof_eq_ok.1 hround), trivial⟩) trivial hloop
    · exact h

lemma calcBlockSubsidy_range (params : CoinParams) (height : Int32) :
    MoneyRange (calcBlockSubsidy params height).toInt := by
  have hbase : (baseSubsidy : ℤ) ≤ maxDoo := by decide
  have hmax := maxDoo_lt
  have hrange : ∀ n ≤ baseSubsidy, MoneyRange (ofNat n).toInt := fun n hn => by
    rw [toInt_ofNat_of_lt (by omega)]
    exact ⟨by omega, by omega⟩
  unfold calcBlockSubsidy
  split_ifs
  · exact hrange _ le_rfl
  · refine hrange _ ?_
    rw [Nat.shiftRight_eq_div_pow]
    exact Nat.div_le_self _ _

lemma checkCoinbaseValue_eq_ok (h : tx.Sane) (hfees : 0 ≤ totalFees.toInt) :
    checkCoinbaseValue ar ctx env totalFees tx = .ok () ↔
      ∃ conjured, blockConjuredValue ar ctx env tx = .ok conjured ∧
        (calcBlockSubsidy ctx.coins env.height).toInt + totalFees.toInt + conjured.toNat ≤ maxDoo ∧
        tx.valueOut ≤
          (calcBlockSubsidy ctx.coins env.height).toInt + totalFees.toInt + conjured.toNat := by
  have hmax := maxDoo_lt
  obtain ⟨hsub, hsuble⟩ := calcBlockSubsidy_range ctx.coins env.height
  have hnonneg := h.valueOut_nonneg
  have htop : (ofNat maxDoo).toInt = maxDoo := toInt_ofNat_of_lt (by decide)
  have hfeesmax := totalFees.toInt_lt
  simp only [checkCoinbaseValue, bind_eq_ok, failIf_eq_ok, exists_iff, sumOutputs_eq_ok h,
    gt_iff_lt, lt_iff_toInt_lt, not_lt]
  generalize calcBlockSubsidy ctx.coins env.height = subsidy at *
  refine exists_congr fun conjured => and_congr_right fun _ => ?_
  have hroom : conjured.toNat ≤ maxDoo →
      (ofNat maxDoo - conjured.toInt64).toInt = maxDoo - conjured.toNat := fun hle => by
    rw [int64_sub_exact, htop, toInt_toInt64 (by omega)] <;> rw [htop, toInt_toInt64] <;> omega
  constructor
  · rintro ⟨out, hout, expected, hadd, hle, room, hsub, hlow, expected', hadd', hpay⟩
    obtain rfl := ar.int64.add_eq hadd
    obtain rfl := ar.int64.sub_eq hsub
    obtain rfl := ar.int64.add_eq hadd'
    have hconj := toInt_toInt64 (n := conjured) (by omega)
    rw [hroom hle] at hlow
    -- A sum of subsidy and fees that wrapped is so low that no coinbase may pay anything.
    have hexact : (subsidy + totalFees).toInt = subsidy.toInt + totalFees.toInt := by
      refine int64_add_exact (by omega) (not_le.1 fun hwrap => ?_)
      have hover := int64_add_overflow hwrap
      have hexact := int64_add_exact (a := subsidy + totalFees) (b := conjured.toInt64)
        (by omega) (by omega)
      omega
    have hexact' := int64_add_exact (a := subsidy + totalFees) (b := conjured.toInt64)
      (by omega) (by omega)
    exact ⟨by omega, by omega⟩
  · rintro ⟨hle, hpay⟩
    have hconj := toInt_toInt64 (n := conjured) (by omega)
    have hroom := hroom (by omega)
    have hexact := int64_add_exact (a := subsidy) (b := totalFees) (by omega) (by omega)
    have hexact' := int64_add_exact (a := subsidy + totalFees) (b := conjured.toInt64)
      (by omega) (by omega)
    obtain ⟨out, hout⟩ := h.exists_total
    refine ⟨out, hout, _, ar.int64.add_exact hexact, by omega, _, ar.int64.sub_exact ?_, by omega, _,
      ar.int64.add_exact hexact', by omega⟩
    rw [hroom, htop, hconj]

lemma checkCoinbaseValue_congr (ar' : Arith) (h : tx.Sane) (hfees : 0 ≤ totalFees.toInt)
    (hok : checkCoinbaseValue ar ctx env totalFees tx = .ok ()) :
    checkCoinbaseValue ar' ctx env totalFees tx = .ok () := by
  obtain ⟨conjured, hconjured, hrest⟩ := (checkCoinbaseValue_eq_ok h hfees).1 hok
  exact (checkCoinbaseValue_eq_ok h hfees).2
    ⟨conjured, blockConjuredValue_congr ar' hconjured, hrest⟩

lemma connectTx_eq_ok (h : tx.Sane) (hfees : 0 ≤ s.totalFees.toInt) :
    connectTx ar ctx dbTx env s tx = .ok s' ↔
      ∃ fee, checkTransactionInputs ar ctx tx env.height s.view = .ok fee ∧
        s'.totalFees.toInt = s.totalFees.toInt + fee.toInt ∧
        connectTxNames ctx dbTx env s tx = .ok s'.names ∧
        s.view.connectTransaction tx env.height s.stxos = .ok (s'.view, s'.stxos) := by
  obtain ⟨view', names', stxos', totalFees'⟩ := s'
  simp only [connectTx, bind_eq_ok, failIf_eq_ok, exists_iff, pure_eq_ok, Prod.exists,
    ConnectState.mk.injEq, lt_iff_toInt_lt, not_lt]
  refine exists_congr fun fee => and_congr_right fun hfee => ?_
  obtain ⟨hnonneg, -⟩ := checkTransactionInputs_range h hfee
  constructor
  · rintro ⟨total, hadd, hgrows, names, hnames, view, stxos, hview, rfl, rfl, rfl, rfl⟩
    obtain rfl := ar.int64.add_eq hadd
    refine ⟨int64_add_exact (by omega) (not_le.1 fun hwrap => ?_), hnames, hview⟩
    have hover := int64_add_overflow hwrap
    have hlt := fee.toInt_lt
    omega
  · rintro ⟨hsum, hnames, hview⟩
    have hlt := totalFees'.toInt_lt
    have hexact := int64_add_exact (a := s.totalFees) (b := fee) (by omega) (by omega)
    obtain rfl : totalFees' = s.totalFees + fee := toInt_inj.1 (hsum.trans hexact.symm)
    exact ⟨_, ar.int64.add_exact hexact, by omega, _, hnames, _, _, hview, rfl, rfl, rfl, rfl⟩

lemma connectTx_fees (h : tx.Sane) (hfees : 0 ≤ s.totalFees.toInt)
    (hok : connectTx ar ctx dbTx env s tx = .ok s') : 0 ≤ s'.totalFees.toInt := by
  obtain ⟨fee, hfee, hsum, -⟩ := (connectTx_eq_ok h hfees).1 hok
  obtain ⟨hnonneg, -⟩ := checkTransactionInputs_range h hfee
  omega

lemma connectTx_congr (ar' : Arith) (h : tx.Sane) (hfees : 0 ≤ s.totalFees.toInt)
    (hok : connectTx ar ctx dbTx env s tx = .ok s') : connectTx ar' ctx dbTx env s tx = .ok s' := by
  obtain ⟨fee, hfee, hrest⟩ := (connectTx_eq_ok h hfees).1 hok
  exact (connectTx_eq_ok h hfees).2 ⟨fee, checkTransactionInputs_congr ar' h hfee, hrest⟩

lemma checkConnectTxs_eq_ok : checkConnectTxs ar ctx dbTx env s transactions = .ok s' ↔
    ∃ tx txs, transactions = tx :: txs ∧
      (∃ cost, (tx :: txs).zipIdx.foldlM (addSigOpCost s.view) 0 = .ok cost) ∧
      (tx :: txs).foldlM (connectTx ar ctx dbTx env) s = .ok s' ∧
      checkCoinbaseValue ar ctx env s'.totalFees tx = .ok () := by
  cases transactions with
  | nil => simp [checkConnectTxs, bind_eq_ok]
  | cons tx txs =>
    simp only [checkConnectTxs, bind_eq_ok]
    constructor
    · rintro ⟨cost, hcost, s1, hloop, u, hvalue, hs⟩
      obtain rfl := pure_eq_ok.1 hs
      exact ⟨tx, txs, rfl, ⟨cost, hcost⟩, hloop, hvalue⟩
    · rintro ⟨_, _, h, ⟨cost, hcost⟩, hloop, hvalue⟩
      cases h
      exact ⟨cost, hcost, s', hloop, (), hvalue, rfl⟩

/-- A block of sane transactions that is accepted is accepted by every arithmetic, with the same
result. -/
theorem checkConnectTxs_congr (ar' : Arith) (hsane : ∀ tx ∈ transactions, tx.Sane)
    (hfees : 0 ≤ s.totalFees.toInt)
    (hok : checkConnectTxs ar ctx dbTx env s transactions = .ok s') :
    checkConnectTxs ar' ctx dbTx env s transactions = .ok s' := by
  obtain ⟨tx, txs, rfl, hcost, hloop, hvalue⟩ := checkConnectTxs_eq_ok.1 hok
  refine checkConnectTxs_eq_ok.2 ⟨tx, txs, rfl, hcost, ?_, ?_⟩
  · exact foldlM_congr_ok (P := fun s => 0 ≤ s.totalFees.toInt) _
      (fun tx htx s s' hs hround => ⟨connectTx_congr ar' (hsane tx htx) hs hround,
        connectTx_fees (hsane tx htx) hs hround⟩) hfees hloop
  · have hfees1 : 0 ≤ s'.totalFees.toInt := foldlM_inv (P := fun s => 0 ≤ s.totalFees.toInt) _
      (fun tx htx s s' hs => connectTx_fees (hsane tx htx) hs) hfees hloop
    exact checkCoinbaseValue_congr ar' (hsane tx mem_cons_self) hfees1 hvalue

end HandshakeNode
