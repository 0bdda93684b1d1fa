import HandshakeNode.Lib.Loops
import HandshakeNode.NameHistory
import HandshakeNode.Proofs.NameView
import HandshakeNode.Proofs.UtxoView

/-!
# The books of a chain

What a chain has created and spent accounts for the coins that it holds, and a view of its names is a
map of names that the covenants move one output at a time.
-/

namespace HandshakeNode

open List (append_assoc map_append map_map mem_append mem_append_left mem_map take_add_one)

open Ledger Loops Simulation

section

variable {tx : Tx} {txOut : TxOut}

lemma Tx.getElem?_outputs (h : tx.txOut[n]? = some txOut) :
    tx.outputs[n]? = some (txOutpoint tx n, txOut) := by
  simp [Tx.outputs, h]

lemma Tx.length_outputs (tx : Tx) : tx.outputs.length = tx.txOut.length := by
  simp [Tx.outputs]

lemma Tx.mem_outputs : p ∈ tx.outputs ↔ ∃ i, tx.txOut[i]? = some p.2 ∧ p.1 = txOutpoint tx i := by
  simp only [Tx.outputs, mem_map, Prod.exists, List.mem_zipIdx_iff_getElem?]
  constructor
  · rintro ⟨txOut, i, hi, rfl⟩
    exact ⟨i, hi, rfl⟩
  · rintro ⟨i, hi, hp⟩
    exact ⟨p.2, i, hi, by rw [← hp]⟩

lemma txOutpoint_inj (hi : i < 2 ^ 32) (hj : j < 2 ^ 32)
    (h : txOutpoint tx i = txOutpoint tx j) : i = j := by
  have hindex : UInt32.ofNat i = UInt32.ofNat j := congrArg OutPoint.index h
  rw [← UInt32.toNat_inj, UInt32.toNat_ofNat_of_lt' hi, UInt32.toNat_ofNat_of_lt' hj] at hindex
  exact hindex

lemma Tx.nodup_outputs (h : tx.txOut.length < 2 ^ 32) : (tx.outputs.map Prod.fst).Nodup := by
  have heq : tx.outputs.map Prod.fst = (List.range tx.txOut.length).map (txOutpoint tx) := by
    simp only [Tx.outputs, map_map]
    rw [show Prod.fst ∘ (fun p => (txOutpoint tx p.2, p.1)) = txOutpoint tx ∘ Prod.snd
      from rfl, ← map_map, List.zipIdx_map_snd, ← List.range_eq_range']
  rw [heq]
  refine List.Nodup.map_on (fun i hi j hj hij => ?_) List.nodup_range
  rw [List.mem_range] at hi hj
  exact txOutpoint_inj (hi.trans h) (hj.trans h) hij

lemma createdOutputs_concat (txs : List Tx) (tx : Tx) :
    createdOutputs (txs ++ [tx]) = createdOutputs txs ++ tx.outputs := by
  simp [createdOutputs]

lemma spentOutpoints_concat (txs : List Tx) (tx : Tx) :
    spentOutpoints (txs ++ [tx]) = spentOutpoints txs ++ tx.spends := by
  simp [spentOutpoints]

lemma hash_of_mem_createdOutputs (h : p ∈ createdOutputs txs) : p.1.hash ∈ txs.map Tx.hash := by
  obtain ⟨tx, htx, hp⟩ := List.mem_flatMap.1 h
  obtain ⟨i, -, hi⟩ := Tx.mem_outputs.1 hp
  rw [hi]
  exact List.mem_map_of_mem htx

lemma nodup_createdOutputs (hids : (txs.map Tx.hash).Nodup)
    (hroom : ∀ tx ∈ txs, tx.txOut.length < 2 ^ 32) : ((createdOutputs txs).map Prod.fst).Nodup := by
  induction txs using List.reverseRecOn with
  | nil => exact List.nodup_nil
  | append_singleton txs tx ih =>
    rw [map_append, List.nodup_append] at hids
    rw [createdOutputs_concat, map_append, List.nodup_append]
    refine ⟨ih hids.1 fun t ht => hroom t (mem_append_left _ ht),
      Tx.nodup_outputs (hroom tx (by simp)), ?_⟩
    rintro o ho _ ho' rfl
    obtain ⟨p, hp, rfl⟩ := mem_map.1 ho
    obtain ⟨q, hq, hpq⟩ := mem_map.1 ho'
    obtain ⟨i, -, hi⟩ := Tx.mem_outputs.1 hq
    refine hids.2.2 _ (hash_of_mem_createdOutputs hp) _ (List.mem_singleton.2 rfl) ?_
    rw [← hpq, hi]
    rfl

end

structure Pays (txOut : TxOut) (amount : Int64) (address : Address) (covenant : Covenant) : Prop where
  amount : amount = txOut.value
  address : address = txOut.address
  covenant : covenant = txOut.covenant

structure Books (txs : List Tx) (coins : UtxoSet) : Prop where
  held : ∀ o c, coins o = some c → o ∉ spentOutpoints txs ∧
    ∃ txOut, (o, txOut) ∈ createdOutputs txs ∧ Pays txOut c.amount c.address c.covenant
  spent : ∀ o ∈ spentOutpoints txs, o ∈ (createdOutputs txs).map Prod.fst
  room : ∀ tx ∈ txs, tx.txOut.length < 2 ^ 32

lemma books_new : Books [] newUtxoViewpoint.coins := by
  refine ⟨fun o c h => ?_, by simp [spentOutpoints], by simp⟩
  cases h

lemma prevOutputFromView_ok (h : prevOutputFromView tx coins p = .ok prev) :
    prev.outpoint = p.1.previousOutPoint ∧ ∃ c, coins.coins prev.outpoint = some c ∧
      prev.amount = c.amount ∧ prev.address = c.address ∧ prev.covenant = c.covenant := by
  unfold prevOutputFromView at h
  split at h
  · cases h
  · rename_i entry hentry
    split_ifs at h with hspent
    cases h
    refine ⟨rfl, entry.stxo, ?_, rfl, rfl, rfl⟩
    exact unspent_eq_some.2 ⟨entry, hentry, by simpa using hspent, rfl⟩

lemma prevOutputsFromView_ok (h : prevOutputsFromView tx coins = .ok prevs) :
    prevs.map (·.outpoint) = tx.spends ∧ ∀ p ∈ prevs, ∃ c, coins.coins p.outpoint = some c ∧
      p.amount = c.amount ∧ p.address = c.address ∧ p.covenant = c.covenant := by
  unfold prevOutputsFromView at h
  unfold Tx.spends
  split_ifs at h ⊢
  · cases h
    simp
  · refine ⟨?_, fun p hp => ?_⟩
    · rw [mapM_map (a := fun x => x.1.previousOutPoint) h fun x y hx => (prevOutputFromView_ok hx).1,
        show (fun x => x.1.previousOutPoint) = TxIn.previousOutPoint ∘ Prod.fst from rfl,
        ← map_map, List.zipIdx_map_fst]
    · obtain ⟨x, -, hx⟩ := mapM_mem h hp
      exact (prevOutputFromView_ok hx).2

lemma Books.prevOutputs (hb : Books txs coins.coins)
    (h : prevOutputsFromView tx coins = .ok prevs) : ∀ p ∈ prevs,
    ∃ txOut, (p.outpoint, txOut) ∈ createdOutputs txs ∧ Pays txOut p.amount p.address p.covenant := by
  intro p hp
  obtain ⟨c, hc, hamount, haddress, hcovenant⟩ := (prevOutputsFromView_ok h).2 p hp
  obtain ⟨-, txOut, hcreated, hpays⟩ := hb.held _ c hc
  exact ⟨txOut, hcreated, hamount.trans hpays.amount, haddress.trans hpays.address,
    hcovenant.trans hpays.covenant⟩

lemma Books.hash_of_spent (hb : Books txs coins.coins)
    (h : prevOutputsFromView tx coins = .ok prevs) :
    ∀ o ∈ spentOutpoints txs ++ tx.spends, o.hash ∈ txs.map Tx.hash := by
  intro o ho
  rw [mem_append, ← (prevOutputsFromView_ok h).1] at ho
  rcases ho with ho | ho
  · obtain ⟨p, hp, rfl⟩ := mem_map.1 (hb.spent o ho)
    exact hash_of_mem_createdOutputs hp
  · obtain ⟨p, hp, rfl⟩ := mem_map.1 ho
    obtain ⟨txOut, hcreated, -⟩ := hb.prevOutputs h p hp
    exact hash_of_mem_createdOutputs hcreated

lemma Books.concat (hb : Books txs coins.coins) (hfresh : tx.hash ∉ txs.map Tx.hash)
    (hroom : tx.txOut.length < 2 ^ 32) (h : prevOutputsFromView tx coins = .ok prevs) :
    Books (txs ++ [tx]) ((tx.step height).apply coins.coins) := by
  refine ⟨fun o c hc => ?_, fun o ho => ?_, fun t ht => ?_⟩
  · rw [createdOutputs_concat, spentOutpoints_concat]
    rcases Step.apply_eq_some hc with hnew | ⟨hold, hinput⟩
    · obtain ⟨p, hp, -, hkv⟩ := Tx.mem_newCoins hnew
      obtain ⟨rfl, rfl⟩ := hkv
      refine ⟨fun hspent => hfresh (hb.hash_of_spent h _ hspent), p.1, ?_, rfl, rfl, rfl⟩
      exact List.mem_append_right _
        (Tx.mem_outputs.2 ⟨p.2, List.mem_zipIdx_iff_getElem?.1 hp, rfl⟩)
    · obtain ⟨hspent, txOut, hcreated, hpays⟩ := hb.held o c hold
      refine ⟨?_, txOut, mem_append_left _ hcreated, hpays⟩
      rw [mem_append, not_or]
      exact ⟨hspent, hinput⟩
  · rw [createdOutputs_concat, map_append]
    rw [spentOutpoints_concat, mem_append, ← (prevOutputsFromView_ok h).1] at ho
    rcases ho with ho | ho
    · exact mem_append_left _ (hb.spent o ho)
    · obtain ⟨p, hp, rfl⟩ := mem_map.1 ho
      obtain ⟨txOut, hcreated, -⟩ := hb.prevOutputs h p hp
      exact mem_append_left _ (List.mem_map_of_mem hcreated)
  · rcases mem_append.1 ht with ht | ht
    · exact hb.room t ht
    · rwa [List.mem_singleton.1 ht]

lemma checkConnectTx_ok
    (h : checkConnectTx ctx env height (coins, names) tx = .ok (coins', names')) :
    ∃ prevs, prevOutputsFromView tx coins = .ok prevs ∧
      names.applyTx ctx none env tx prevs = .ok names' ∧
      coins'.coins = (tx.step height).apply coins.coins := by
  simp only [checkConnectTx, bind_eq_ok, Prod.exists] at h
  obtain ⟨prevs, hprevs, _, happly, _, _, hconnect, rfl, rfl⟩ := h
  refine ⟨prevs, hprevs, happly, ?_⟩
  obtain ⟨hspends, hcoins⟩ := prevOutputsFromView_ok hprevs
  have hinputs : ∀ o ∈ (tx.step height).inputs, (coins.coins o).isSome := by
    intro o ho
    replace ho : o ∈ tx.spends := ho
    rw [← hspends] at ho
    obtain ⟨p, hp, rfl⟩ := mem_map.1 ho
    obtain ⟨c, hc, -⟩ := hcoins p hp
    rw [hc]
    rfl
  obtain ⟨view', hok, hview'⟩ := UtxoViewpoint.connectTransaction_ok [] hinputs
  rw [hconnect, Except.ok.injEq, Prod.mk.injEq] at hok
  rw [hok.1, hview']

section

variable {view : NameBlockView} {r : NameRun}

def NameBlockView.Shows (dbTx : Option NameDb) (view : NameBlockView) (names : NameMap) : Prop :=
  ∀ nameHash, view.peek dbTx nameHash = .ok (names nameHash)

lemma NameBlockView.Shows.applyCovenantOutput (out : CovenantOutput) (h : view.Shows dbTx r.names) :
    Sim (fun view r => NameBlockView.Shows dbTx view r.names)
      (view.applyCovenantOutput ctx dbTx env out) (r.applyOutput ctx env out) := by
  unfold NameBlockView.applyCovenantOutput NameRun.applyOutput
  cases hname : covenantHash out.covenant 0 with
  | none => exact .error _
  | some nameHash =>
    obtain ⟨view', hget, hbut, -⟩ := get_ok (h nameHash)
    simp only [hget]
    refine Sim.bind_same fun after _ => .ok fun k => ?_
    rw [(hbut.setState_recordChange after).peek_eq, NameRun.names_setState]
    split_ifs
    · rfl
    · exact h k

lemma NameBlockView.Shows.applyTx (t : NameTx) (h : view.Shows dbTx r.names) :
    Sim (fun view r => NameBlockView.Shows dbTx view r.names)
      (view.applyTx ctx dbTx t.env t.tx t.prevOutputs) (r.applyTx ctx t) :=
  Sim.bind_same fun _ _ => Sim.foldlM _ h fun out _ _ _ h => h.applyCovenantOutput out

inductive OutputStep (ctx : NameContext) (env : NameEnv) (out : CovenantOutput) (names : NameMap) :
    NameMap → Prop
  | skip (other : isNameCovenant out.covenant.type = false) : OutputStep ctx env out names names
  | apply {nameHash : Hash} {ns : NameState} (name : isNameCovenant out.covenant.type = true)
      (hash : covenantHash out.covenant 0 = some nameHash)
      (ok : applyCovenant ctx env nameHash out (names nameHash) = .ok ns) :
      OutputStep ctx env out names (Function.update names nameHash ns)

/-- The rounds of a transaction over its outputs: what holds before the output at an index and is
kept by it, holds behind the last output. -/
theorem NameRun.applyTx_rounds {Q : ℕ → NameMap → Prop}
    (h : r.applyTx ctx ⟨env, tx, prevs⟩ = .ok r') (hstart : Q 0 r.names)
    (hstep : ∀ n txOut names names', tx.txOut[n]? = some txOut →
      OutputStep ctx env ⟨tx, n, txOut, prevs⟩ names names' → Q n names → Q (n + 1) names') :
    Q tx.txOut.length r'.names := by
  simp only [NameRun.applyTx, bind_eq_ok] at h
  obtain ⟨_, -, hloop⟩ := h
  unfold Tx.covenantOutputs at hloop
  rw [foldlM_map_filter] at hloop
  have hrounds := foldlM_rounds (Q := fun past r => Q past.length r.names) ?_ hstart hloop
  · rwa [List.length_zipIdx] at hrounds
  · rintro past ⟨txOut, i⟩ rest hxs r r' hQ hround
    have hi : tx.txOut.zipIdx[past.length]? = some (txOut, i) := by simp [hxs]
    rw [List.getElem?_zipIdx] at hi
    obtain ⟨txOut', htxOut, heq⟩ := Option.map_eq_some_iff.1 hi
    simp only [Nat.zero_add] at heq
    obtain ⟨rfl, rfl⟩ := heq
    rw [List.length_append]
    refine hstep _ _ _ _ htxOut ?_ hQ
    split_ifs at hround with hname
    · unfold NameRun.applyOutput at hround
      split at hround
      · cases hround
      · rename_i nameHash hhash
        simp only [bind_eq_ok, pure_eq_ok] at hround
        obtain ⟨ns, hns, rfl⟩ := hround
        exact .apply hname hhash hns
    · cases hround
      exact .skip (Bool.eq_false_iff.2 hname)

end

section

variable {n : ℕ}

lemma checkNameHashHeight_ok (h : checkNameHashHeight covenant count = .ok u) :
    covenantU32 covenant 1 ≠ none := by
  simp only [checkNameHashHeight, bind_eq_ok, failIf_eq_ok, exists_const] at h
  exact h.2.2

lemma checkNamedCovenant_ok (h : checkNamedCovenant ctx covenant count = .ok u) :
    covenantU32 covenant 1 ≠ none := by
  simp only [checkNamedCovenant, bind_eq_ok] at h
  obtain ⟨_, h, -⟩ := h
  exact checkNameHashHeight_ok h

lemma checkCoinbaseOutput_ok (hname : isNameCovenant covenant.type = true)
    (h : checkCoinbaseOutput ctx tx n covenant = .ok u) : covenantU32 covenant 1 ≠ none := by
  unfold checkCoinbaseOutput at h
  split at h
  · simp_all [isNameCovenant]
  · simp only [bind_eq_ok, checkClaimCovenant] at h
    obtain ⟨_, -, _, ⟨_, h, -⟩, -⟩ := h
    exact checkNamedCovenant_ok h
  · cases h

lemma checkOutputCovenant_ok (hname : isNameCovenant covenant.type = true)
    (h : checkOutputCovenant ctx tx n covenant = .ok u) : covenantU32 covenant 1 ≠ none := by
  unfold checkOutputCovenant at h
  split at h
  case h_1 | h_13 => simp_all [isNameCovenant]
  case h_2 => cases h
  case h_3 | h_4 =>
    rw [bind_eq_ok] at h
    obtain ⟨_, h, -⟩ := h
    exact checkNamedCovenant_ok h
  case h_6 | h_12 =>
    rw [bind_eq_ok] at h
    obtain ⟨_, -, h⟩ := h
    exact checkNameHashHeight_ok h
  all_goals
    simp only [bind_eq_ok] at h
    obtain ⟨_, -, _, h, -⟩ := h
    exact checkNameHashHeight_ok h

lemma checkOutputs_ok : ∀ {outputs}, checkOutputs check outputs = .ok u →
      ∀ p ∈ outputs, check p.2 p.1.covenant = .ok ()
  | [], _ => by simp
  | p :: outputs, h => by
    simp only [checkOutputs, bind_eq_ok] at h
    obtain ⟨_, hp, h⟩ := h
    exact List.forall_mem_cons.2 ⟨hp, checkOutputs_ok h⟩

lemma checkCovenantSanity_height (h : checkCovenantSanity ctx tx = .ok u)
    (hn : tx.txOut[n]? = some txOut) (hname : isNameCovenant txOut.covenant.type = true) :
    covenantU32 txOut.covenant 1 ≠ none := by
  have hmem : (txOut, n) ∈ tx.txOut.zipIdx := List.mem_zipIdx_iff_getElem?.2 hn
  simp only [checkCovenantSanity, bind_eq_ok] at h
  obtain ⟨_, -, h⟩ := h
  split_ifs at h
  · rw [bind_eq_ok] at h
    obtain ⟨_, -, h⟩ := h
    exact checkCoinbaseOutput_ok hname (checkOutputs_ok h _ hmem)
  · exact checkOutputCovenant_ok hname (checkOutputs_ok h _ hmem)

end

/-! ## Runs of outputs -/

/-- The outpoint that the input at the index of an output spends. -/
def CovenantOutput.spent (out : CovenantOutput) : List OutPoint :=
  out.linked.toList.map (·.outpoint)

structure PaidBy (outs : List (OutPoint × TxOut)) (p : NamePrevOutput) (txOut : TxOut) : Prop where
  created : (p.outpoint, txOut) ∈ outs
  pays : Pays txOut p.amount p.address p.covenant

/-- What `J` says once the output is part of the chain. -/
abbrev CovenantOutput.After (out : CovenantOutput) (J : List (OutPoint × TxOut) → List OutPoint → α)
    (outs : List (OutPoint × TxOut)) (spent : List OutPoint) : α :=
  J (outs ++ [(out.outpoint, out.txOut)]) (spent ++ out.spent)

/-- What an output finds on a chain that has created `outs` and spent `spent` before it. -/
structure Round (ctx : NameContext) (height : ℕ) (outs : List (OutPoint × TxOut))
    (spent : List OutPoint) (env : NameEnv) (out : CovenantOutput) : Prop where
  height_eq : env.height.toNat = height
  height_pos : 0 < height
  height_lt : height < 2 ^ 31
  txOut : out.tx.txOut[out.outputIndex]? = some out.txOut
  unique : ((outs ++ [(out.outpoint, out.txOut)]).map Prod.fst).Nodup
  unspent : out.outpoint ∉ spent ++ out.spent
  owner : isNullNameOwner out.outpoint = false
  start : isNameCovenant out.covenant.type = true → covenantU32 out.covenant 1 = some out.start
  linked : ∀ p, out.linked = some p → isNullNameOwner p.outpoint = false ∧
    verifyCovenantSpend ctx p (some out.txOut) = .ok () ∧ ∃ txOut, PaidBy outs p txOut

section

variable {n : ℕ} {names : NameBlockView}

lemma isNullNameOwner_txOutpoint (hn : n + 1 < 2 ^ 32) :
    isNullNameOwner (txOutpoint tx n) = false := by
  have hindex : (UInt32.ofNat n).toNat = n := UInt32.toNat_ofNat_of_lt' (Nat.lt_of_succ_lt hn)
  have hne : UInt32.ofNat n ≠ 0xffffffff := by
    intro h
    rw [h] at hindex
    have hmax : (0xffffffff : UInt32).toNat = 2 ^ 32 - 1 := rfl
    omega
  simp [isNullNameOwner, txOutpoint, hne]

lemma isNullNameOwner_of_created (hroom : ∀ tx ∈ txs, tx.txOut.length < 2 ^ 32)
    (h : p ∈ createdOutputs txs) : isNullNameOwner p.1 = false := by
  obtain ⟨tx, htx, hp⟩ := List.mem_flatMap.1 h
  obtain ⟨i, hi, hpi⟩ := Tx.mem_outputs.1 hp
  have hlt := (List.getElem?_eq_some_iff.1 hi).1
  have := hroom tx htx
  rw [hpi]
  exact isNullNameOwner_txOutpoint (by omega)

lemma checkSpends_ok (hspends : checkSpends ctx tx prevs = .ok ())
    (hprevs : prevs.map (·.outpoint) = tx.spends) (hp : prevs[n]? = some p) :
    verifyCovenantSpend ctx p tx.txOut[n]? = .ok () := by
  unfold checkSpends at hspends
  split_ifs at hspends with hcoinbase
  · rw [Tx.spends, if_pos hcoinbase, List.map_eq_nil_iff] at hprevs
    simp [hprevs] at hp
  · simp only [verifyCovenantSpends, bind_eq_ok, verifySpends_eq_ok] at hspends
    obtain ⟨_, -, h⟩ := hspends
    exact h (p, n) (List.mem_zipIdx_iff_getElem?.2 hp)

structure Accepted (ctx : NameContext) (txs : List Tx) (coins : UtxoSet) (tx : Tx)
    (prevs : List NamePrevOutput) : Prop where
  books : Books txs coins
  ids : ((txs ++ [tx]).map Tx.hash).Nodup
  sane : checkCovenantSanity ctx tx = .ok ()
  room : tx.txOut.length < 2 ^ 32
  spends : checkSpends ctx tx prevs = .ok ()
  inputs : prevs.map (·.outpoint) = tx.spends
  paid : ∀ p ∈ prevs, ∃ txOut, PaidBy (createdOutputs txs) p txOut

namespace Accepted

section

variable (h : Accepted ctx txs coins tx prevs)
include h

lemma fresh : tx.hash ∉ txs.map Tx.hash := by
  have hids := h.ids
  rw [map_append, List.nodup_append] at hids
  exact fun hmem => hids.2.2 _ hmem _ (by simp) rfl

lemma nodup_created : ((createdOutputs (txs ++ [tx])).map Prod.fst).Nodup := by
  refine nodup_createdOutputs h.ids fun t ht => ?_
  rcases mem_append.1 ht with ht | ht
  · exact h.books.room t ht
  · rw [List.mem_singleton.1 ht]
    exact h.room

lemma round (height_eq : env.height.toNat = height)
    (height_pos : 0 < height) (height_lt : height < 2 ^ 31) (hn : tx.txOut[n]? = some txOut) :
    Round ctx height (createdOutputs txs ++ tx.outputs.take n)
      (spentOutpoints txs ++ (prevs.take n).map (·.outpoint)) env ⟨tx, n, txOut, prevs⟩ where
  height_eq := height_eq
  height_pos := height_pos
  height_lt := height_lt
  txOut := hn
  unique := by
    refine List.Nodup.sublist (List.Sublist.map _ ?_) h.nodup_created
    rw [createdOutputs_concat, append_assoc, List.append_sublist_append_left]
    have htake := take_add_one (l := tx.outputs) (i := n)
    rw [Tx.getElem?_outputs hn] at htake
    exact htake ▸ List.take_sublist _ _
  unspent := by
    intro hmem
    refine h.fresh ?_
    have hold : ∀ o ∈ prevs.map (·.outpoint), o.hash ∈ txs.map Tx.hash := by
      intro o ho
      obtain ⟨p, hp, rfl⟩ := mem_map.1 ho
      obtain ⟨txOut, hpaid⟩ := h.paid p hp
      exact hash_of_mem_createdOutputs hpaid.created
    rw [mem_append, mem_append] at hmem
    rcases hmem with (hmem | hmem) | hmem
    · obtain ⟨p, hp, heq⟩ := mem_map.1 (h.books.spent _ hmem)
      have := hash_of_mem_createdOutputs hp
      rwa [heq] at this
    · exact hold _ (List.map_subset _ (List.take_subset _ _) hmem)
    · obtain ⟨p, hp, heq⟩ := mem_map.1 hmem
      have hmem : p ∈ prevs := List.mem_of_getElem? (Option.mem_toList.1 hp)
      have := hold _ (List.mem_map_of_mem hmem)
      rwa [heq] at this
  owner := by
    have hlt := (List.getElem?_eq_some_iff.1 hn).1
    have hroom := h.room
    have hn' : n + 1 < 2 ^ 32 := by omega
    exact isNullNameOwner_txOutpoint hn'
  start := by
    intro hname
    obtain ⟨start, hstart⟩ := Option.ne_none_iff_exists'.1 (checkCovenantSanity_height h.sane hn hname)
    simp [CovenantOutput.start, CovenantOutput.covenant, hstart]
  linked := by
    intro p hp
    obtain ⟨txOut', hpaid⟩ := h.paid p (List.mem_of_getElem? hp)
    refine ⟨isNullNameOwner_of_created h.books.room hpaid.created, ?_, txOut',
      mem_append_left _ hpaid.created, hpaid.pays⟩
    rw [← hn]
    exact checkSpends_ok h.spends h.inputs hp

end

end Accepted

lemma checkConnectTx_accepted (hb : Books txs coins.coins)
    (hids : ((txs ++ [tx]).map Tx.hash).Nodup) (hsane : checkCovenantSanity ctx tx = .ok ())
    (hroom : tx.txOut.length < 2 ^ 32)
    (h : checkConnectTx ctx env blockHeight (coins, names) tx = .ok (coins', names')) :
    ∃ prevs, Accepted ctx txs coins.coins tx prevs ∧
      names.applyTx ctx none env tx prevs = .ok names' ∧ Books (txs ++ [tx]) coins'.coins := by
  obtain ⟨prevs, hprevs, happly, hcoins⟩ := checkConnectTx_ok h
  have hspends : checkSpends ctx tx prevs = .ok () := by
    simp only [NameBlockView.applyTx, bind_eq_ok] at happly
    exact happly.choose_spec.1
  have haccepted : Accepted ctx txs coins.coins tx prevs := by
    refine ⟨hb, hids, hsane, hroom, hspends, (prevOutputsFromView_ok hprevs).1, fun p hp => ?_⟩
    obtain ⟨txOut, hcreated, hpays⟩ := hb.prevOutputs hprevs p hp
    exact ⟨txOut, hcreated, hpays⟩
  refine ⟨prevs, haccepted, happly, ?_⟩
  rw [hcoins]
  exact hb.concat haccepted.fresh hroom hprevs

/-- What is kept by every output and by every input behind the last output holds after every run of a
chain. The invariant sees the outputs that were created, the outpoints that were spent, the height
and the names. -/
theorem ChainRun.invariant {I : List (OutPoint × TxOut) → List OutPoint → ℕ → NameMap → Prop}
    (hnew : I [] [] 0 newNameState)
    (hblock : ∀ outs spent height m, I outs spent height m → I outs spent (height + 1) m)
    (hout : ∀ outs spent height m m' env out, Round ctx height outs spent env out →
      OutputStep ctx env out m m' → I outs spent height m →
      out.After I outs spent height m')
    (hrest : ∀ outs spent height m p txOut, (outs.map Prod.fst).Nodup → PaidBy outs p txOut →
      verifyMissingSpend p = .ok () → I outs spent height m → I outs (spent ++ [p.outpoint]) height m)
    (hids : (txs.map Tx.hash).Nodup) (run : ChainRun ctx txs height coins names) :
    height < 2 ^ 31 ∧ Books txs coins.coins ∧
      ∃ m, names.Shows none m ∧ I (createdOutputs txs) (spentOutpoints txs) height m := by
  induction run with
  | genesis => exact ⟨by decide, books_new, newNameState, fun _ => rfl, hnew⟩
  | block run room ih =>
    obtain ⟨-, hb, m, hshows, hI⟩ := ih hids
    exact ⟨room, hb, m, hshows, hblock _ _ _ _ hI⟩
  | @tx txs height coins coins' names names' env _ tx run height_pos height_eq sane room ok ih =>
    obtain ⟨height_lt, hb, m, hshows, hI⟩ := ih (hids.sublist ((List.sublist_append_left _ _).map _))
    obtain ⟨prevs, haccepted, happly, hb'⟩ := checkConnectTx_accepted hb hids sane room ok
    obtain ⟨r', hr', hshows'⟩ := Sim.of_ok_left
      (NameBlockView.Shows.applyTx (r := NameRun.start m) ⟨env, tx, prevs⟩ hshows) happly
    refine ⟨height_lt, hb', r'.names, hshows', ?_⟩
    rw [createdOutputs_concat, spentOutpoints_concat, ← haccepted.inputs]
    -- the rounds over the outputs
    have houts := NameRun.applyTx_rounds (Q := fun n m => I (createdOutputs txs ++ tx.outputs.take n)
      (spentOutpoints txs ++ (prevs.take n).map (·.outpoint)) height m) hr'
      (by simpa [NameRun.start] using hI) ?_
    · rw [List.take_of_length_le (by rw [Tx.length_outputs])] at houts
      -- the inputs that no output stands at
      have hins : ∀ j, I (createdOutputs txs ++ tx.outputs) (spentOutpoints txs ++
          (prevs.take (tx.txOut.length + j)).map (·.outpoint)) height r'.names := by
        intro j
        induction j with
        | zero => exact houts
        | succ j ihj =>
          rw [← Nat.add_assoc, take_add_one, map_append, ← append_assoc]
          cases hp : prevs[tx.txOut.length + j]? with
          | none => simpa using ihj
          | some p =>
            obtain ⟨txOut, hpaid⟩ := haccepted.paid p (List.mem_of_getElem? hp)
            have hmissing := checkSpends_ok haccepted.spends haccepted.inputs hp
            rw [List.getElem?_eq_none (Nat.le_add_right _ _)] at hmissing
            refine hrest _ _ _ _ p txOut ?_ ⟨mem_append_left _ hpaid.created, hpaid.pays⟩
              hmissing ihj
            rw [← createdOutputs_concat]
            exact haccepted.nodup_created
      simpa [List.take_of_length_le] using hins prevs.length
    · intro n txOut m m' hn hstep hQ
      have hround := hout _ _ _ _ _ _ _
        (haccepted.round height_eq height_pos height_lt hn) hstep hQ
      have htake := take_add_one (l := tx.outputs) (i := n)
      rw [Tx.getElem?_outputs hn] at htake
      rw [CovenantOutput.After, append_assoc, append_assoc] at hround
      rw [htake, take_add_one, map_append]
      exact hround

/-- What every output keeps of the name that it is about and of the other names holds of every name
after every run of a chain. -/
theorem ChainRun.each_name
    {J : List (OutPoint × TxOut) → List OutPoint → ℕ → Hash → NameState → Prop}
    (hnew : ∀ k, J [] [] 0 k (newNameState k))
    (hblock : ∀ outs spent height k ns, J outs spent height k ns → J outs spent (height + 1) k ns)
    (hother : ∀ outs spent height k ns env out, Round ctx height outs spent env out →
      (isNameCovenant out.covenant.type = true → covenantHash out.covenant 0 ≠ some k) →
      J outs spent height k ns → out.After J outs spent height k ns)
    (happly : ∀ outs spent height k ns ns' env out, Round ctx height outs spent env out →
      isNameCovenant out.covenant.type = true → covenantHash out.covenant 0 = some k →
      applyCovenant ctx env k out ns = .ok ns' → J outs spent height k ns →
      out.After J outs spent height k ns')
    (hrest : ∀ outs spent height k ns p txOut, (outs.map Prod.fst).Nodup → PaidBy outs p txOut →
      verifyMissingSpend p = .ok () → J outs spent height k ns →
      J outs (spent ++ [p.outpoint]) height k ns)
    (hids : (txs.map Tx.hash).Nodup) (run : ChainRun ctx txs height coins names) :
    Books txs coins.coins ∧ ∃ m, names.Shows none m ∧
      ∀ k, J (createdOutputs txs) (spentOutpoints txs) height k (m k) := by
  refine (ChainRun.invariant (I := fun outs spent height m => ∀ k, J outs spent height k (m k))
    hnew (fun _ _ _ _ h k => hblock _ _ _ _ _ (h k)) ?_
    (fun _ _ _ _ p txOut hn hp hm h k => hrest _ _ _ _ _ p txOut hn hp hm (h k)) hids run).2
  intro outs spent height m m' env out hr hstep h k
  cases hstep with
  | skip other => exact hother _ _ _ _ _ _ _ hr (by simp [other]) (h k)
  | @apply nameHash ns name hash ok =>
    by_cases hk : k = nameHash
    · subst hk
      rw [Function.update_self]
      exact happly _ _ _ _ _ _ _ _ hr name hash ok (h k)
    · rw [Function.update_of_ne hk]
      refine hother _ _ _ _ _ _ _ hr (fun _ hhash => hk ?_) (h k)
      rw [hash, Option.some.injEq] at hhash
      exact hhash.symm

lemma NameBlockView.Shows.eq_of_lookup (h : names.Shows none m)
    (hns : names.states.lookup nameHash = some ns) : m nameHash = ns := by
  have hpeek := h nameHash
  rw [NameBlockView.peek, hns, Except.ok.injEq] at hpeek
  exact hpeek.symm

end

end HandshakeNode
