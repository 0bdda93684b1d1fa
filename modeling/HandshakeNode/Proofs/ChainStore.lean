import HandshakeNode.ChainStore
import Mathlib.Data.List.Sort

/-!
# What connecting and disconnecting a block writes

The transactions of `connectBlock` and `disconnectBlock` taken apart: for each step and each call,
what a success says about the cache and the database before and after.
-/

namespace HandshakeNode

open LittleEndian List

namespace UpdateM

lemma bind_eq_ok {f : α → UpdateM β} :
    (x >>= f) σ = (.ok b, σ') ↔ ∃ a σ1, x σ = (.ok a, σ1) ∧ f a σ1 = (.ok b, σ') := by
  simp only [Bind.bind]
  rcases x σ with ⟨e | a, σ1⟩
  · simp
  · constructor
    · exact fun h => ⟨a, σ1, rfl, h⟩
    · rintro ⟨a', σ2, h1, h⟩
      cases h1
      exact h

lemma get_eq_ok : UpdateM.get σ = (.ok a, σ') ↔ σ = a ∧ σ = σ' := by
  change (Except.ok σ, σ) = (Except.ok a, σ') ↔ _
  simp

lemma attempt_eq_ok (h : attempt env step change σ = (.ok u, σ')) : (σ.1, change σ.2) = σ' := by
  unfold attempt at h
  split at h <;> cases h
  rfl

lemma attempt_bind_ok {step : DbStep} (h : (attempt env step change >>= f) σ = (.ok b, σ')) :
    f () (σ.1, change σ.2) = (.ok b, σ') := by
  obtain ⟨⟨⟩, σ1, h1, h⟩ := bind_eq_ok.1 h
  cases attempt_eq_ok h1
  exact h

end UpdateM

namespace UtxoCache

lemma lastFlushHash_fetchEntries (mem : Memory) (db : UtxoDb) (s : UtxoCache)
    (ops : List OutPoint) : (s.fetchEntries mem db ops).2.lastFlushHash = s.lastFlushHash := by
  unfold fetchEntries
  generalize ops.filter _ = missing
  induction missing generalizing s with
  | nil => rfl
  | cons op missing ih => exact ih (s.putEntry mem op _)

lemma lastFlushHash_addTxOuts (s : UtxoCache) (tx : Tx) (height : Int32) :
    (s.addTxOuts mem tx height).lastFlushHash = s.lastFlushHash := by
  unfold addTxOuts
  generalize tx.txOut.zipIdx = l
  induction l generalizing s with
  | nil => rfl
  | cons p l ih =>
    rw [foldl_cons, ih, addTxOut]
    split_ifs <;> rfl

lemma lastFlushHash_addTxIn {s : UtxoCache} (h : s.addTxIn mem db txIn js = .ok (s', js')) :
    s'.lastFlushHash = s.lastFlushHash := by
  have hfetch := lastFlushHash_fetchEntries mem db s [txIn.previousOutPoint]
  unfold addTxIn at h
  split at h
  · rename_i entry s1 hs1
    rw [hs1] at hfetch
    cases h
    rw [← hfetch, spendEntry]
    split_ifs <;> rfl
  · cases h

lemma lastFlushHash_addTxIns : ∀ {txIns} {s s' : UtxoCache}
    {js js' : List SpentTxOut}, s.addTxIns mem db txIns js = .ok (s', js') →
      s'.lastFlushHash = s.lastFlushHash
  | [], _, _, _, _, h => by
    cases h
    rfl
  | txIn :: txIns, s, s', js, js', h => by
    obtain ⟨⟨s1, js1⟩, h1, h⟩ := bind_eq_ok.1 h
    rw [lastFlushHash_addTxIns h, lastFlushHash_addTxIn h1]

lemma lastFlushHash_connectTxs : ∀ {txs} {s s' : UtxoCache}
    {js js' : List SpentTxOut}, s.connectTxs mem db txs height js = .ok (s', js') →
    s'.lastFlushHash = s.lastFlushHash
  | [], _, _, _, _, h => by
    cases h
    rfl
  | tx :: txs, s, s', js, js', h => by
    obtain ⟨⟨s1, js1⟩, h1, h⟩ := bind_eq_ok.1 h
    obtain ⟨⟨s2, js2⟩, h2, h1⟩ := bind_eq_ok.1 h1
    cases h1
    rw [lastFlushHash_connectTxs h, lastFlushHash_addTxOuts, lastFlushHash_addTxIns h2]

end UtxoCache

lemma flushUtxo_eq_ok
    (h : flushUtxo mem order env step mode bestHash (cache, db) = (.ok u, (cache', db'))) :
    ∃ utxo, cache.flush mem db.utxo order mode bestHash env.now = .ok (cache', utxo) ∧
      db' = { db with utxo := utxo } := by
  unfold flushUtxo at h
  dsimp only at h
  split at h
  · cases h
  · split at h <;> cases h
    exact ⟨_, ‹_›, rfl⟩

def ChainDb.pruned (db : ChainDb) (deleted : List Hash) : ChainDb :=
  { db with
    blocks := db.blocks \ deleted.toFinset
    spendJournal := deleted.foldl (fun journal h => journal.erase h) db.spendJournal }

lemma ChainDb.pruned_nil (db : ChainDb) : db.pruned [] = db := by
  simp [ChainDb.pruned]

lemma pruneUpdate_eq_ok (h : pruneUpdate mem order env node (cache, db) = (.ok u, (cache', db'))) :
    (cache' = cache ∧ db' = db.pruned (env.deleted.getD []) ∧ (env.deleted.getD [] ≠ [] →
      flushNeededAfterPrune db cache.lastFlushHash (env.deleted.getD []) = false)) ∨
    ∃ utxo, cache.flush mem db.utxo order .required node env.now = .ok (cache', utxo) ∧
      db' = { db.pruned (env.deleted.getD []) with utxo := utxo } := by
  unfold pruneUpdate at h
  rcases hdeleted : env.deleted with - | deleted <;> rw [hdeleted] at h
  · cases h
    exact .inl ⟨rfl, db.pruned_nil.symm, fun h => absurd rfl h⟩
  replace h := UpdateM.attempt_bind_ok h
  split_ifs at h with hdel
  · replace h := UpdateM.attempt_bind_ok h
    obtain ⟨_, σ3, h3, h⟩ := UpdateM.bind_eq_ok.1 h
    obtain ⟨rfl, rfl⟩ := UpdateM.get_eq_ok.1 h3
    dsimp only at h
    split_ifs at h with hneed
    · obtain ⟨utxo, hflush, rfl⟩ := flushUtxo_eq_ok h
      exact .inr ⟨utxo, hflush, rfl⟩
    · cases h
      exact .inl ⟨rfl, rfl, fun _ => Bool.eq_false_iff.2 hneed⟩
  · cases h
    rw [not_not] at hdel
    subst hdel
    exact .inl ⟨rfl, by simp [ChainDb.pruned], fun h => absurd rfl h⟩

lemma connectUpdate_eq_ok {stxos : List SpentTxOut}
    (h : connectUpdate mem order env block state stxos (cache, db) = (.ok u, (cache', db'))) :
    ∃ db1, pruneUpdate mem order env block.hash (cache, db) = (.ok (), (cache', db1)) ∧
      db' = { db1 with
        bestState := some (serializeBestChainState state)
        spendJournal := db1.spendJournal.insert block.hash stxos } := by
  obtain ⟨⟨⟩, ⟨cache1, db1⟩, h1, h⟩ := UpdateM.bind_eq_ok.1 h
  iterate 5 replace h := UpdateM.attempt_bind_ok h
  cases UpdateM.attempt_eq_ok h
  exact ⟨db1, h1, rfl⟩

lemma putUtxoView_eq_ok (h : putUtxoView order env view (cache, db) = (.ok u, (cache', db'))) :
    cache' = cache ∧ ∃ utxo, dbPutUtxoView order db.utxo view = .ok utxo ∧
      db' = { db with utxo := utxo } := by
  unfold putUtxoView at h
  dsimp only at h
  split at h
  · cases h
  · split at h <;> cases h
    exact ⟨rfl, _, ‹_›, rfl⟩

lemma fetchSpendJournal_eq_ok (h : fetchSpendJournal block (cache, db) = (.ok u, (cache', db'))) :
    cache' = cache ∧ db' = db ∧ ∃ stxos, db.dbFetchSpendJournalEntry block = .ok stxos := by
  unfold fetchSpendJournal at h
  rw [Prod.mk.injEq] at h
  obtain ⟨hfetch, rfl, rfl⟩ := h
  rcases hr : db.dbFetchSpendJournalEntry block with e | stxos
  · rw [hr] at hfetch
    cases hfetch
  · exact ⟨rfl, rfl, stxos, rfl⟩

lemma disconnectUpdate_eq_ok {view : UtxoViewpoint}
    (h : disconnectUpdate mem order env block state view (cache, db) = (.ok u, (cache', db'))) :
    ∃ flushed utxo, cache.flush mem db.utxo order .required state.hash env.now =
        .ok (cache', flushed) ∧ dbPutUtxoView order flushed view = .ok utxo ∧
      (∃ stxos, db.dbFetchSpendJournalEntry block = .ok stxos) ∧
      db' = { db with
        bestState := some (serializeBestChainState state)
        spendJournal := db.spendJournal.erase block.hash
        utxo := utxo } := by
  replace h := UpdateM.attempt_bind_ok h
  replace h := UpdateM.attempt_bind_ok h
  obtain ⟨_, ⟨cache3, db3⟩, h3, h⟩ := UpdateM.bind_eq_ok.1 h
  obtain ⟨flushed, hflush, rfl⟩ := flushUtxo_eq_ok h3
  obtain ⟨_, ⟨cache4, db4⟩, h4, h⟩ := UpdateM.bind_eq_ok.1 h
  obtain ⟨rfl, utxo, hput, rfl⟩ := putUtxoView_eq_ok h4
  replace h := UpdateM.attempt_bind_ok h
  replace h := UpdateM.attempt_bind_ok h
  obtain ⟨_, ⟨cache7, db7⟩, h7, h⟩ := UpdateM.bind_eq_ok.1 h
  obtain ⟨rfl, rfl, stxos, hstxos⟩ := fetchSpendJournal_eq_ok h7
  replace h := UpdateM.attempt_bind_ok h
  cases UpdateM.attempt_eq_ok h
  exact ⟨flushed, utxo, hflush, hput, ⟨stxos, hstxos⟩, rfl⟩

namespace ChainStore

variable {s : ChainStore} {block : Block}

lemma update_eq_ok (h : s.update env last body = (.ok u, s')) : ∃ cache db,
    body (s.utxoCache, s.db) = (.ok (), (cache, db)) ∧
      s' = { s with utxoCache := cache, db := db } := by
  unfold update at h
  split at h
  · cases h
  · split at h <;> cases h
    exact ⟨_, _, ‹_›, rfl⟩

lemma flushUtxoCache_eq_ok (h : s.flushUtxoCache mem order env mode bestHash = (.ok u, s')) :
    ∃ cache utxo, s.utxoCache.flush mem s.db.utxo order mode bestHash env.now = .ok (cache, utxo) ∧
      s' = { s with utxoCache := cache, db := { s.db with utxo := utxo } } := by
  obtain ⟨cache, db, hbody, rfl⟩ := update_eq_ok h
  obtain ⟨utxo, hflush, rfl⟩ := flushUtxo_eq_ok hbody
  exact ⟨cache, utxo, hflush, rfl⟩

def totalWith (s : ChainStore) (block : Block) : UInt64 :=
  s.totalTxns + UInt64.ofNat block.transactions.length

lemma connectCommit_eq_ok (h : connectCommit w mem order env block stxos s = (.ok u, s')) :
    s.bestChain.head? = some block.prevBlock ∧ countSpentOutputs block = .ok stxos.length ∧
    ∃ cache db, connectUpdate mem order env block (newBestState (s.db.branch block.hash)
        (s.totalWith block) (w.workSum (s.db.branch block.hash))) stxos (s.utxoCache, s.db) =
        (.ok (), (cache, db)) ∧
      s' = ⟨db, s.db.branch block.hash, s.totalWith block, cache⟩ := by
  unfold connectCommit at h
  split_ifs at h with hhead
  · cases h
  rw [not_not] at hhead
  refine ⟨hhead, ?_⟩
  rcases hcount : countSpentOutputs block with e | numSpent <;> rw [hcount] at h
  · cases h
  dsimp only at h
  split_ifs at h with hlen
  · cases h
  rw [not_not] at hlen
  refine ⟨by rw [hlen], ?_⟩
  split at h
  · cases h
  · cases h
  split at h <;> cases h
  obtain ⟨cache, db, hbody, rfl⟩ := update_eq_ok ‹_›
  exact ⟨cache, db, hbody, rfl⟩

lemma connectBlock_eq_ok (h : connectBlock w mem order env block stxos s = (.ok u, s')) :
    ∃ s1, connectCommit w mem order env block stxos s = (.ok (), s1) ∧
      s1.flushUtxoCache mem order env .ifNeeded block.hash = (.ok (), s') := by
  unfold connectBlock at h
  rcases hc : connectCommit w mem order env block stxos s with ⟨e | ⟨⟩, s1⟩ <;> rw [hc] at h
  · cases h
  · exact ⟨s1, rfl, h⟩

lemma disconnectBlock_eq_ok (h : disconnectBlock w mem order env block view s = (.ok u, s')) :
    s.bestChain.head? = some block.hash ∧ ∃ p rest, (s.db.branch block.hash).tail = p :: rest ∧
    p ∈ s.db.blocks ∧ ∃ cache db, disconnectUpdate mem order env block
        (newBestState (p :: rest) (s.totalTxns - UInt64.ofNat block.transactions.length)
          (w.workSum (s.db.branch block.hash))) view (s.utxoCache, s.db) = (.ok (), (cache, db)) ∧
      s' = ⟨db, p :: rest, s.totalTxns - UInt64.ofNat block.transactions.length, cache⟩ := by
  unfold disconnectBlock at h
  split_ifs at h with hhead
  · cases h
  rw [not_not] at hhead
  refine ⟨hhead, ?_⟩
  rcases hprev : (s.db.branch block.hash).tail with - | ⟨p, rest⟩ <;> rw [hprev] at h
  · cases h
  refine ⟨p, rest, rfl, ?_⟩
  dsimp only at h
  unfold ChainDb.dbFetchBlockByNode at h
  split_ifs at h with hp
  swap
  · cases h
  refine ⟨hp, ?_⟩
  dsimp only at h
  split at h
  · cases h
  split at h <;> cases h
  obtain ⟨cache, db, hbody, rfl⟩ := update_eq_ok ‹_›
  exact ⟨cache, db, hbody, rfl⟩

lemma eq_ok_of_isOk {r : Result Unit × ChainStore} (h : r.1.isOk = true) : r = (.ok (), r.2) := by
  obtain ⟨e | ⟨⟩, s⟩ := r
  · cases h
  · rfl

end ChainStore

section

variable {K : Type} {f : K → ℕ}

local instance total_le : Std.Total (fun a b : K => f a ≤ f b) := ⟨fun a b => Nat.le_total (f a) (f b)⟩

local instance trans_le : IsTrans K (fun a b : K => f a ≤ f b) := ⟨fun _ _ _ => Nat.le_trans⟩

lemma insertionSort_eq_of_perm (hf : Function.Injective f) {l1 : List K} (h : l1.Perm l2) :
    l1.insertionSort (f · ≤ f ·) = l2.insertionSort (f · ≤ f ·) := by
  refine List.Perm.eq_of_pairwise (fun a b _ _ hab hba => hf (Nat.le_antisymm hab hba))
    (pairwise_insertionSort _ _) (pairwise_insertionSort _ _) ?_
  exact (perm_insertionSort _ _).trans (h.trans (perm_insertionSort _ _).symm)

variable (hf : Function.Injective f)

def numberedKeys (s : Finset K) : List K :=
  Quot.liftOn s.val (insertionSort (f · ≤ f ·)) fun _ _ => insertionSort_eq_of_perm hf

lemma coe_numberedKeys (s : Finset K) : (numberedKeys hf s : Multiset K) = s.val := by
  unfold numberedKeys
  induction hs : s.val using Quot.inductionOn with
  | h l => exact Quot.sound (perm_insertionSort _ _)

def numberedOrder : RangeOrder K where
  list := numberedKeys hf
  nodup s := by
    rw [← Multiset.coe_nodup, coe_numberedKeys]
    exact s.nodup
  mem_iff s k := by
    rw [← Multiset.mem_coe, coe_numberedKeys]
    rfl

end

def OutPoint.number (o : OutPoint) : ℕ := leNat o.hash.bytes * 2 ^ 32 + o.index.toNat

lemma OutPoint.number_injective : Function.Injective OutPoint.number := by
  rintro ⟨⟨b, hb⟩, i⟩ ⟨⟨b', hb'⟩, i'⟩ h
  have hi := i.toNat_lt
  have hi' := i'.toNat_lt
  simp only [OutPoint.number] at h
  have hhash : leNat b = leNat b' := by omega
  have hindex : i.toNat = i'.toNat := by omega
  have hbytes := congrArg (leBytes 32) hhash
  rw [← hb, leBytes_leNat, hb, ← hb', leBytes_leNat] at hbytes
  subst hbytes
  rw [UInt32.toNat_inj.1 hindex]

def outPointOrder : RangeOrder OutPoint := numberedOrder OutPoint.number_injective

end HandshakeNode
