import HandshakeNode.TxIndex

/-!
# The numbers of indexed blocks

A rolled back transaction takes its writes back but not the number that the call in it has left in
memory, so that later blocks skip a number (`index_skips_id`). If the node is restarted after every
transaction that is rolled back behind such a call, the numbers stay `1` to `n` in every run
(`index_ids_of_run`).
-/

namespace HandshakeNode

open List Finmap Option IndexedBlock

namespace TxIndexDb

variable {id : UInt32}

lemma addTxIndexEntries_ok : ∀ {txs} {i} {txLocs} {db},
    addTxIndexEntries faults id i txs txLocs db = .ok db' →
    db'.idByHash = db.idByHash ∧ db'.hashByID = db.hashByID ∧
      ∀ txHash e, db'.txs.lookup txHash = some e →
        (txHash ∈ txs ∧ e.blockID = id) ∨ db.txs.lookup txHash = some e
  | [], _, _, _, h => by
    cases h
    exact ⟨rfl, rfl, fun _ _ he => .inr he⟩
  | _ :: _, _, [], _, h => nomatch h
  | txHash :: txs, _, loc :: _, db, h => by
    rw [addTxIndexEntries, bind_eq_ok] at h
    obtain ⟨u, -, h⟩ := h
    obtain ⟨hid, hhash, htxs⟩ := addTxIndexEntries_ok h
    refine ⟨hid, hhash, fun x e he => ?_⟩
    rcases htxs x e he with ⟨hmem, hblock⟩ | hold
    · exact .inl ⟨mem_cons_of_mem _ hmem, hblock⟩
    · by_cases hx : x = txHash
      · subst hx
        rw [lookup_insert, some.injEq] at hold
        exact .inl ⟨mem_cons_self, hold ▸ rfl⟩
      · rw [lookup_insert_of_ne _ hx] at hold
        exact .inr hold

lemma removeTxIndexEntries_ok : ∀ {txs} {i} {db}, removeTxIndexEntries faults i txs db = .ok db' →
    db'.idByHash = db.idByHash ∧ db'.hashByID = db.hashByID ∧
      ∀ txHash e, db'.txs.lookup txHash = some e →
        txHash ∉ txs ∧ db.txs.lookup txHash = some e
  | [], _, _, h => by
    cases h
    exact ⟨rfl, rfl, fun _ _ he => ⟨not_mem_nil, he⟩⟩
  | txHash :: txs, _, db, h => by
    simp only [removeTxIndexEntries, bind_eq_ok] at h
    obtain ⟨u, -, v, -, h⟩ := h
    obtain ⟨hid, hhash, htxs⟩ := removeTxIndexEntries_ok h
    refine ⟨hid, hhash, fun x e he => ?_⟩
    obtain ⟨hmem, hold⟩ := htxs x e he
    by_cases hx : x = txHash
    · subst hx
      simp at hold
    · rw [lookup_erase_ne hx] at hold
      exact ⟨by simp [hx, hmem], hold⟩

end TxIndexDb

namespace TxIndex

open TxIndexDb

variable {db : TxIndexDb}

lemma connectBlock_cases (faults : WriteFaults) (db : TxIndexDb) (block : IndexedBlock)
    (idx : TxIndex) :
    (∃ e, idx.connectBlock faults db block = (.error e, idx)) ∨
    ∃ db', idx.connectBlock faults db block = (.ok db', ⟨idx.curBlockID + 1⟩) ∧
      db'.idByHash = db.idByHash.insert block.hash (idx.curBlockID + 1) ∧
      db'.hashByID = db.hashByID.insert (idx.curBlockID + 1) block.hash ∧
      ∀ txHash e, db'.txs.lookup txHash = some e →
        (txHash ∈ block.txs ∧ e.blockID = idx.curBlockID + 1) ∨ db.txs.lookup txHash = some e := by
  dsimp only [connectBlock]
  split
  · exact .inl ⟨_, rfl⟩
  · next db2 h =>
    simp only [dbAddTxIndexEntries, dbPutBlockIDIndexEntry, bind_eq_ok, pure_eq_ok] at h
    obtain ⟨db1, ⟨txLocs, -, hadd⟩, u, -, v, -, rfl⟩ := h
    obtain ⟨hid, hhash, htxs⟩ := addTxIndexEntries_ok hadd
    exact .inr ⟨_, rfl, by rw [hid], by rw [hhash], htxs⟩

lemma disconnectBlock_cases (faults : WriteFaults) (db : TxIndexDb) (block : IndexedBlock)
    (idx : TxIndex) :
    (∃ e, idx.disconnectBlock faults db block = (.error e, idx)) ∨
    ∃ db', idx.disconnectBlock faults db block = (.ok db', ⟨idx.curBlockID - 1⟩) ∧
      (∀ id, db.idByHash.lookup block.hash = some id →
        db'.idByHash = db.idByHash.erase block.hash ∧ db'.hashByID = db.hashByID.erase id) ∧
      ∀ txHash e, db'.txs.lookup txHash = some e →
        txHash ∉ block.txs ∧ db.txs.lookup txHash = some e := by
  dsimp only [disconnectBlock]
  split
  · exact .inl ⟨_, rfl⟩
  · next db2 h =>
    rw [bind_eq_ok] at h
    obtain ⟨db1, hremove, h⟩ := h
    obtain ⟨hid, hhash, htxs⟩ := removeTxIndexEntries_ok hremove
    rw [dbRemoveBlockIDIndexEntry, hid, hhash] at h
    refine .inr ⟨_, rfl, fun id hlookup => ?_, ?_⟩
    · simp only [hlookup, bind_eq_ok, pure_eq_ok] at h
      obtain ⟨u, -, v, -, rfl⟩ := h
      exact ⟨rfl, rfl⟩
    · split at h
      · cases h
        exact htxs
      · simp only [bind_eq_ok, pure_eq_ok] at h
        obtain ⟨u, -, v, -, rfl⟩ := h
        exact htxs

section

variable (hids : ∀ id, id ∈ db.hashByID ↔ 1 ≤ id.toNat ∧ id.toNat ≤ n)
  (hn : 2 * n + 100000 < 2 ^ 32)

include hids hn

lemma forwardScan_ok : ∀ fuel (h t : UInt32), h.toNat ≤ n → h.toNat < t.toNat →
    t.toNat ≤ h.toNat + 100000 → (h = 0 → t = 1) → n < h.toNat + fuel →
    ∃ h' t', forwardScan db fuel h t = some (h', t') ∧ h'.toNat ≤ n ∧ n < t'.toNat ∧
      t'.toNat ≤ h'.toNat + 100000 ∧ (h' = 0 → t' = 1)
  | 0, h, t, hle, hlt, hgap, hone, hfuel => by omega
  | fuel + 1, h, t, hle, hlt, hgap, hone, hfuel => by
    by_cases hknown : t ∈ db.hashByID
    · have htn := ((hids t).1 hknown).2
      have hnext : (t + 100000).toNat = t.toNat + 100000 := by
        rw [UInt32.toNat_add]
        exact Nat.mod_eq_of_lt (by simp; omega)
      have hpos : t ≠ 0 := fun h0 => by simp [h0] at hlt
      rw [forwardScan, if_pos hknown]
      exact forwardScan_ok fuel t (t + 100000) htn (by omega) (by omega) (fun h0 => absurd h0 hpos)
        (by omega)
    · rw [forwardScan, if_neg hknown]
      rw [hids] at hknown
      exact ⟨h, t, rfl, hle, by omega, hgap, hone⟩

lemma binaryScan_ok : ∀ fuel (h u : UInt32), 1 ≤ h.toNat → h.toNat ≤ n → n < u.toNat →
    u.toNat ≤ h.toNat + 100000 → u.toNat ≤ h.toNat + fuel →
    ∃ id, binaryScan db fuel h u = some id ∧ id.toNat = n
  | 0, h, u, hpos, hle, hlt, hgap, hfuel => by omega
  | fuel + 1, h, u, hpos, hle, hlt, hgap, hfuel => by
    have htest : ((h + u) / 2).toNat = (h.toNat + u.toNat) / 2 := by
      rw [UInt32.toNat_div, UInt32.toNat_add, Nat.mod_eq_of_lt (by omega)]
      rfl
    have hsucc (x : UInt32) (hx : x.toNat ≤ n) : (x + 1).toNat = x.toNat + 1 := by
      exact Nat.mod_eq_of_lt (by simp; omega)
    rw [binaryScan]
    by_cases hknown : (h + u) / 2 ∈ db.hashByID
    · have hk := (hids _).1 hknown
      simp only [hknown, if_true]
      split_ifs with hend
      · refine ⟨_, rfl, ?_⟩
        rw [← UInt32.toNat_inj, hsucc _ (by omega)] at hend
        omega
      · rw [← UInt32.toNat_inj, hsucc _ (by omega)] at hend
        exact binaryScan_ok fuel _ _ (by omega) (by omega) hlt (by omega) (by omega)
    · have hk := mt (hids _).2 hknown
      simp only [hknown, if_false]
      split_ifs with hend
      · refine ⟨_, rfl, ?_⟩
        rw [← UInt32.toNat_inj, hsucc _ hle] at hend
        omega
      · exact binaryScan_ok fuel _ _ hpos hle (by omega) (by omega) (by omega)

lemma init_ok : ∃ idx, init db = some idx ∧ idx.curBlockID.toNat = n := by
  obtain ⟨h, t, hscan, hle, hlt, hgap, hone⟩ := forwardScan_ok hids hn (2 ^ 32) 0 1 (by simp)
    (by decide) (by decide) (fun _ => rfl) (by simp; omega)
  by_cases ht : t = 1
  · subst ht
    refine ⟨⟨0⟩, by rw [init, hscan]; rfl, ?_⟩
    exact (Nat.lt_one_iff.1 hlt).symm
  · have hpos : h.toNat ≠ 0 := fun h0 => ht (hone (UInt32.toNat_inj.1 h0))
    obtain ⟨id, hid, hidn⟩ := binaryScan_ok hids hn (2 ^ 32) h t (by omega) hle hlt hgap (by omega)
    refine ⟨⟨id⟩, ?_, hidn⟩
    rw [init, hscan]
    simp only [bind_eq_bind, bind_some, if_neg ht]
    rw [hid]
    rfl

end

end TxIndex

def blockAt (chain : List IndexedBlock) (id : UInt32) : Option IndexedBlock :=
  if id = 0 then none else chain.reverse[id.toNat - 1]?

section

variable {id : UInt32}

lemma blockAt_isSome : (blockAt chain id).isSome ↔ 1 ≤ id.toNat ∧ id.toNat ≤ chain.length := by
  have hzero : id = 0 ↔ id.toNat = 0 := by rw [← UInt32.toNat_inj]; rfl
  unfold blockAt
  split_ifs with h
  · simp [hzero.1 h]
  · rw [hzero] at h
    simp only [isSome_iff_ne_none, ne_eq, List.getElem?_eq_none_iff, length_reverse]
    omega

lemma blockAt_cons (hk : k.toNat = chain.length + 1) :
    blockAt (block :: chain) id = if id = k then some block else blockAt chain id := by
  have hzero : id = 0 ↔ id.toNat = 0 := by rw [← UInt32.toNat_inj]; rfl
  unfold blockAt
  rw [reverse_cons]
  by_cases hid : id = k
  · subst hid
    rw [if_pos rfl, if_neg (mt hzero.1 (by omega)), hk, Nat.add_sub_cancel, ← length_reverse,
      List.getElem?_concat_length]
  · rw [if_neg hid]
    rw [← UInt32.toNat_inj] at hid
    split_ifs with h0
    · rfl
    · rw [hzero] at h0
      rcases lt_or_ge (id.toNat - 1) chain.length with hlt | hge
      · rw [List.getElem?_append_left (by simpa using hlt)]
      · rw [List.getElem?_eq_none (by simp; omega), List.getElem?_eq_none (by simpa using hge)]

lemma mem_of_blockAt (h : blockAt chain id = some block) : block ∈ chain := by
  unfold blockAt at h
  split_ifs at h
  exact mem_reverse.1 (mem_of_getElem? h)

end

structure TxIndexDb.Indexes (db : TxIndexDb) (chain : List IndexedBlock) : Prop where
  nodup : (chain.map hash).Nodup
  hashByID : ∀ id, db.hashByID.lookup id = (blockAt chain id).map hash
  idByHash : ∀ id hash, db.idByHash.lookup hash = some id ↔ db.hashByID.lookup id = some hash
  txs : ∀ txHash e, db.txs.lookup txHash = some e →
    ∃ block, blockAt chain e.blockID = some block ∧ txHash ∈ block.txs

namespace TxIndexDb.Indexes

variable {db db' : TxIndexDb} {chain : List IndexedBlock} {k : UInt32}

lemma mem_iff (h : db.Indexes chain) (id : UInt32) :
    id ∈ db.hashByID ↔ 1 ≤ id.toNat ∧ id.toNat ≤ chain.length := by
  rw [← blockAt_isSome, ← lookup_isSome, h.hashByID, isSome_map]

lemma connectBlock (h : db.Indexes chain) (hnew : block.hash ∉ chain.map hash)
    (hk : k.toNat = chain.length + 1) (hid : db'.idByHash = db.idByHash.insert block.hash k)
    (hhash : db'.hashByID = db.hashByID.insert k block.hash)
    (htxs : ∀ txHash e, db'.txs.lookup txHash = some e →
      (txHash ∈ block.txs ∧ e.blockID = k) ∨ db.txs.lookup txHash = some e) :
    db'.Indexes (block :: chain) := by
  have hfree : db.hashByID.lookup k = none := by
    rw [lookup_eq_none, h.mem_iff]
    omega
  have hunused (id : UInt32) : db.hashByID.lookup id ≠ some block.hash := by
    rw [h.hashByID]
    intro heq
    obtain ⟨b, hb, hbh⟩ := map_eq_some_iff.1 heq
    exact hnew (hbh ▸ mem_map_of_mem (mem_of_blockAt hb))
  refine ⟨nodup_cons.2 ⟨hnew, h.nodup⟩, fun id => ?_, fun id hash => ?_, fun txHash e he => ?_⟩
  · rw [hhash, blockAt_cons hk]
    split_ifs with heq
    · rw [heq, lookup_insert, map_some]
    · rw [lookup_insert_of_ne _ heq, h.hashByID]
  · rw [hid, hhash]
    by_cases hhb : hash = block.hash <;> by_cases heq : id = k
    · rw [hhb, heq]
      simp
    · rw [hhb, lookup_insert, lookup_insert_of_ne _ heq, some.injEq]
      exact ⟨fun h => absurd h.symm heq, fun h => absurd h (hunused id)⟩
    · rw [heq, lookup_insert, lookup_insert_of_ne _ hhb, h.idByHash, hfree, some.injEq]
      exact ⟨fun h => (nomatch h), fun h => absurd h.symm hhb⟩
    · rw [lookup_insert_of_ne _ heq, lookup_insert_of_ne _ hhb, h.idByHash]
  · rw [blockAt_cons hk]
    rcases htxs txHash e he with ⟨hmem, heq⟩ | hold
    · exact ⟨block, if_pos heq, hmem⟩
    · obtain ⟨b, hb, hmem⟩ := h.txs txHash e hold
      refine ⟨b, ?_, hmem⟩
      rw [if_neg, hb]
      intro heq
      have := h.hashByID k
      rw [hfree, ← heq, hb] at this
      cases this

lemma disconnectBlock (h : db.Indexes (block :: chain)) (hsmall : chain.length + 1 < 2 ^ 32)
    (hids : ∀ id, db.idByHash.lookup block.hash = some id →
      db'.idByHash = db.idByHash.erase block.hash ∧ db'.hashByID = db.hashByID.erase id)
    (htxs : ∀ txHash e, db'.txs.lookup txHash = some e →
      txHash ∉ block.txs ∧ db.txs.lookup txHash = some e) : db'.Indexes chain := by
  obtain ⟨k, hk⟩ : ∃ k : UInt32, k.toNat = chain.length + 1 :=
    ⟨.ofNat (chain.length + 1), UInt32.toNat_ofNat_of_lt' hsmall⟩
  have hlast : db.idByHash.lookup block.hash = some k := by
    rw [h.idByHash, h.hashByID, blockAt_cons hk, if_pos rfl, map_some]
  obtain ⟨hid, hhash⟩ := hids k hlast
  have hnone : blockAt chain k = none := by
    rw [← not_isSome_iff_eq_none, blockAt_isSome]
    omega
  refine ⟨(nodup_cons.1 h.nodup).2, fun id => ?_, fun id hash => ?_, fun txHash e he => ?_⟩
  · rw [hhash]
    by_cases heq : id = k
    · rw [heq, lookup_erase, hnone, map_none]
    · rw [lookup_erase_ne heq, h.hashByID, blockAt_cons hk, if_neg heq]
  · rw [hid, hhash]
    by_cases hhb : hash = block.hash <;> by_cases heq : id = k
    · rw [hhb, heq]
      simp
    · rw [hhb, lookup_erase, lookup_erase_ne heq, ← h.idByHash, hlast, some.injEq]
      exact ⟨fun h => (nomatch h), fun h => absurd h.symm heq⟩
    · rw [h.idByHash] at hlast
      rw [heq, lookup_erase, lookup_erase_ne hhb, h.idByHash, hlast, some.injEq]
      exact ⟨fun h => absurd h.symm hhb, fun h => (nomatch h)⟩
    · rw [lookup_erase_ne heq, lookup_erase_ne hhb, h.idByHash]
  · obtain ⟨hnot, hold⟩ := htxs txHash e he
    obtain ⟨b, hb, hmem⟩ := h.txs txHash e hold
    rw [blockAt_cons hk] at hb
    split_ifs at hb
    · cases hb
      exact absurd hmem hnot
    · exact ⟨b, hb, hmem⟩

end TxIndexDb.Indexes

namespace IndexState

variable {s : IndexState} {block : IndexedBlock}

/-- Unless a transaction was rolled back, the number in memory is that of the tip. -/
structure Inv (s : IndexState) : Prop where
  indexes : s.db.Indexes s.chain
  small : 2 * s.chain.length + 100000 < 2 ^ 32
  cur : s.rolledBack = false → s.idx.curBlockID.toNat = s.chain.length

lemma inv_initial : initial.Inv where
  indexes := ⟨nodup_nil, fun id => by simp [initial, blockAt], fun id hash => by simp [initial],
    fun txHash e he => by simp [initial] at he⟩
  small := by decide
  cur _ := rfl

lemma Inv.connectBlock (h : s.Inv) (hcur : s.rolledBack = false)
    (hsmall : 2 * (s.chain.length + 1) + 100000 < 2 ^ 32)
    (hnew : block.hash ∉ s.chain.map hash) :
    (s.connectBlock faults block commits).Inv := by
  have hk : (s.idx.curBlockID + 1).toNat = s.chain.length + 1 := by
    rw [UInt32.toNat_add, h.cur hcur]
    exact Nat.mod_eq_of_lt (by simp; omega)
  rw [IndexState.connectBlock]
  rcases s.idx.connectBlock_cases faults s.db block with ⟨e, he⟩ | ⟨db', he, hid, hhash, htxs⟩
  · rw [he]
    exact h
  · rw [he]
    cases commits with
    | true => exact ⟨h.indexes.connectBlock hnew hk hid hhash htxs, hsmall, fun _ => hk⟩
    | false => exact ⟨h.indexes, h.small, fun h => (nomatch h)⟩

lemma Inv.disconnectBlock (h : s.Inv) (hcur : s.rolledBack = false)
    (htip : s.chain.head? = some block) : (s.disconnectBlock faults block commits).Inv := by
  obtain ⟨rest, hrest⟩ : ∃ rest, s.chain = block :: rest := List.head?_eq_some_iff.1 htip
  have hsmall := h.small
  have hk := h.cur hcur
  have hindexes := h.indexes
  rw [hrest, length_cons] at hsmall hk
  rw [hrest] at hindexes
  have hpred : (s.idx.curBlockID - 1).toNat = rest.length := by
    rw [UInt32.toNat_sub_of_le _ _ (by rw [UInt32.le_iff_toNat_le, hk]; simp), hk]
    rfl
  rw [IndexState.disconnectBlock]
  rcases s.idx.disconnectBlock_cases faults s.db block with ⟨e, he⟩ | ⟨db', he, hids, htxs⟩
  · rw [he]
    exact h
  · rw [he]
    cases commits with
    | true =>
      have hsmall' : 2 * rest.length + 100000 < 2 ^ 32 := by omega
      rw [hrest]
      exact ⟨hindexes.disconnectBlock (by omega) hids htxs, hsmall', fun _ => hpred⟩
    | false => exact ⟨h.indexes, h.small, fun h => (nomatch h)⟩

end IndexState

/-- No call is made between a transaction that is rolled back behind a call without an error and the
next restart, and the numbers that `Init` adds up stay in 32 bits. -/
def IndexAction.KeepsIDs (s : IndexState) : IndexAction → Prop
  | .connectBlock .. =>
    s.rolledBack = false ∧ 2 * (s.chain.length + 1) + 100000 < 2 ^ 32
  | .disconnectBlock .. => s.rolledBack = false
  | .restart => True

lemma IndexRun.inv (hkeeps : ∀ s a, allowed s a → IndexAction.KeepsIDs s a)
    (h : IndexRun allowed s) : s.Inv := by
  induction h with
  | start => exact IndexState.inv_initial
  | connect _ _ _ run new call ih =>
    obtain ⟨hcur, hsmall⟩ := hkeeps _ _ call
    exact ih.connectBlock hcur hsmall new
  | disconnect run tip call ih => exact ih.disconnectBlock (hkeeps _ _ call) tip
  | restart _ run hinit call ih =>
    obtain ⟨idx, hidx, hcur⟩ := TxIndex.init_ok ih.indexes.mem_iff ih.small
    rw [hinit, some.injEq] at hidx
    exact ⟨ih.indexes, ih.small, fun _ => hidx ▸ hcur⟩

def sampleBlock (n : UInt8) : IndexedBlock := ⟨Hash.ofBytes [n], [Hash.ofBytes [n]], .ok [⟨0, 0⟩]⟩

/-- The second block is connected in a transaction that is rolled back, and then once more. It gets
the number 3, and number 2 is not used. -/
theorem index_skips_id :
    ∃ s, IndexRun (fun _ _ => True) s ∧ s.chain = [sampleBlock 2, sampleBlock 1] ∧
      s.db.idByHash.lookup (sampleBlock 2).hash = some 3 ∧ s.db.hashByID.lookup 2 = none := by
  refine ⟨_, .connect (fun _ => none) (sampleBlock 2) true
    (.connect (fun _ => none) (sampleBlock 2) false
      (.connect (fun _ => none) (sampleBlock 1) true .start ?_ trivial) ?_ trivial) ?_ trivial, ?_⟩ <;>
    decide +kernel

/-- If the node is restarted after every transaction that is rolled back behind a call without an
error, the index numbers the blocks of the chain from 1 on in their order in every state of a run,
every transaction has the number of a block that contains it, and `Init` finds the last number. -/
theorem index_ids_of_run {s : IndexState} (h : IndexRun IndexAction.KeepsIDs s) :
    s.db.Indexes s.chain ∧ s.chain.length < 2 ^ 32 ∧
      ∃ idx, TxIndex.init s.db = some idx ∧ idx.curBlockID.toNat = s.chain.length := by
  have hinv := h.inv fun _ _ h => h
  have hsmall := hinv.small
  exact ⟨hinv.indexes, by omega, TxIndex.init_ok hinv.indexes.mem_iff hsmall⟩

theorem index_ids_of_run_restart :
    ∃ s, IndexRun IndexAction.KeepsIDs s ∧ s.chain = [sampleBlock 2, sampleBlock 1] ∧
      s.db.Indexes s.chain := by
  have hrun : IndexRun IndexAction.KeepsIDs _ :=
    .connect (fun _ => none) (sampleBlock 2) true
      (.restart ⟨1⟩
        (.connect (fun _ => none) (sampleBlock 2) false
          (.connect (fun _ => none) (sampleBlock 1) true .start
            (by decide +kernel) (And.intro (by decide +kernel) (by decide +kernel)))
          (by decide +kernel) (And.intro (by decide +kernel) (by decide +kernel)))
        (by decide +kernel) trivial)
      (by decide +kernel) (And.intro (by decide +kernel) (by decide +kernel))
  exact ⟨_, hrun, by decide +kernel, (index_ids_of_run hrun).1⟩

end HandshakeNode
