import HandshakeNode.Proofs.MetaDb

/-!
# Runs of the metadata store

A run is a sequence of write transactions, each committed or rolled back. The tree of nested maps
that the committed ones leave is what the next transaction reads. The main results are
`MetaDb.reads_follow_nested_maps` and `MetaDb.writeloc_put_is_overwritten`.
-/

namespace HandshakeNode

open List Function NestedMap

namespace Ffldb

open SortedMaps

structure WriteTx where
  ops : List Op
  commit : Option MetaDb.CommitEnv

def WriteTx.onTree (t : NestedMap Bytes Bytes) (w : WriteTx) : NestedMap Bytes Bytes :=
  if w.commit.isSome then w.ops.foldl Op.onTree t else t

def WriteTx.created (t : NestedMap Bytes Bytes) : List WriteTx → ℕ
  | [] => 0
  | w :: ws => (if w.commit.isSome then Op.created t w.ops else 0) + created (w.onTree t) ws

def initialTree (writeRow : Bytes) : NestedMap Bytes Bytes :=
  .node (fun k => if k = writeLocKeyName then some writeRow else none)
    fun n => if n = blockIdxBucketName then some .empty else none

namespace MetaDb

variable (crc : Bytes → ℕ)

def runTx (db : MetaDb) (w : WriteTx) : MetaDb :=
  match db.begin true, w.commit with
  | .ok tx, some env => (db.commit crc env (w.ops.foldl Op.apply tx)).toOption.getD db
  | _, _ => db

end MetaDb

/-! ### The snapshot of a transaction stays -/

lemma Transaction.snapshot_deleteLoop (reached : Bytes → Bool) : ∀ fuel (ids : List Bytes)
    (tx : Transaction), (tx.deleteLoop reached fuel ids).2.snapshot = tx.snapshot
  | 0, _, _ => rfl
  | _ + 1, [], _ => rfl
  | fuel + 1, id :: ids, tx => by
    have hfold (l : List (Bytes × Bytes)) (tx : Transaction) :
        (l.foldl (fun tx x => tx.deleteKey x.1) tx).snapshot = tx.snapshot :=
      foldlRecOn (motive := (snapshot · = tx.snapshot)) l _ rfl fun _ h _ _ => h
    rw [Transaction.deleteLoop, snapshot_deleteLoop, hfold, hfold]

lemma Op.snapshot_perform {id : ℕ} {op : Op}
    (h : op.perform tx id = .ok tx') : tx'.snapshot = tx.snapshot := by
  cases op with
  | put path key value =>
    obtain ⟨-, h⟩ := dbFailIf_ok h
    obtain ⟨-, h⟩ := dbFailIf_ok h
    cases h
    rfl
  | delete path key =>
    obtain ⟨-, h⟩ := dbFailIf_ok h
    split_ifs at h <;> cases h <;> rfl
  | createBucket path key =>
    rcases hr : tx.createBucket id key with e | ⟨child, tx''⟩
    · rw [Op.perform, hr] at h
      cases h
    rw [Op.perform, hr] at h
    cases h
    obtain ⟨-, hr⟩ := dbFailIf_ok hr
    obtain ⟨-, hr⟩ := dbFailIf_ok hr
    obtain ⟨-, hr⟩ := dbFailIf_ok hr
    split_ifs at hr
    · cases hr
      rfl
    · obtain ⟨next, hnext, hr⟩ := dbBind_ok hr
      obtain ⟨num, -, hnext⟩ := dbBind_ok hnext
      cases hnext
      cases hr
      rfl
  | deleteBucket path key reached =>
    obtain ⟨-, h⟩ := dbFailIf_ok h
    dsimp only at h
    rcases hrow : tx.fetchKey (bucketIndexKey id key) with - | childID
    · rw [hrow] at h
      cases h
    · rw [hrow] at h
      cases h
      exact Transaction.snapshot_deleteLoop reached _ _ tx

lemma Op.snapshot_apply (tx : Transaction) (op : Op) : (op.apply tx).snapshot = tx.snapshot := by
  unfold Op.apply
  rcases tx.openBucket metadataBucketID op.path with - | id
  · rfl
  · change ((op.perform tx id).toOption.getD tx).snapshot = tx.snapshot
    rcases h : op.perform tx id with e | tx'
    · rfl
    · exact Op.snapshot_perform h

lemma Op.snapshot_foldl : ∀ (ops : List Op) (tx : Transaction),
    (ops.foldl Op.apply tx).snapshot = tx.snapshot
  | [], _ => rfl
  | op :: ops, tx => (snapshot_foldl ops _).trans (op.snapshot_apply tx)

/-! ### What a commit keeps -/

structure DbOk (db : MetaDb) (t : NestedMap Bytes Bytes) (c : ℕ) : Prop where
  recovered : db.recoveryRequired = false
  wellFormed : WellFormed db.cache.contents c
  models : Models db.cache.contents t
  ldb : db.cache.ldb.get pruneStateKey = none
  cached : db.cache.cached.keys.get pruneStateKey = none

lemma Models.congr_own (h : Models m t) (hfind : ∀ p, (t.find? p).isSome = (t'.find? p).isSome)
    (hentry : ∀ p k, ¬ OwnKey p k → t.entry p k = t'.entry p k) : Models m t' where
  bucket p := (h.bucket p).trans (hfind p)
  entry p i hp k hk hown := (h.entry p i hp k hk hown).trans (hentry p k hown)

lemma TxOk.putWriteRow (h : TxOk tx t c)
    (hok : tx.put metadataBucketID writeLocKeyName row = .ok tx') : TxOk tx' t c := by
  have hp : resolve tx.fetchKey 0 [] = some metadataBucketID := rfl
  have hput := h.put hp (by rintro ⟨-, hk⟩; exact absurd hk (by decide)) hok
  obtain ⟨t', ht'⟩ := h.models.modify_eq hp (.setValue writeLocKeyName (some row))
  have htree : Op.onTree t (.put [] writeLocKeyName row) = t' := by
    rw [Op.onTree, if_neg (by decide), ht', Option.getD_some]
  rw [htree] at hput
  refine ⟨hput.writable, hput.wellFormed, hput.models.congr_own (fun p => ?_) (fun p k hown => ?_),
    hput.noPrune⟩
  · exact (modify_setValue ht' p).1
  · rw [(modify_setValue ht' p).2]
    exact if_neg hown

lemma Treaps.apply_eq_none {treaps : Treaps} (h : treaps.keys.get k = none) (hb : base k = none) :
    treaps.apply base k = none := by
  rw [Treaps.apply, h, hb]
  split_ifs <;> rfl

lemma DbCache.commitTx_absent {cache : DbCache} {tx : Treaps} (needsFlush : Bool)
    (hl : cache.ldb.get k = none) (hc : cache.cached.keys.get k = none) (ht : tx.keys.get k = none) :
    (cache.commitTx needsFlush tx).ldb.get k = none ∧
      (cache.commitTx needsFlush tx).cached.keys.get k = none := by
  unfold commitTx
  split_ifs with hn
  · rw [commitTreaps, get_writeBatch]
    unfold flush
    split_ifs
    · exact ⟨Treaps.apply_eq_none ht hl, hc⟩
    · refine ⟨Treaps.apply_eq_none ht ?_, rfl⟩
      rw [clearTreaps, commitTreaps, get_writeBatch]
      exact Treaps.apply_eq_none hc hl
  · refine ⟨hl, ?_⟩
    rw [swapTreaps, mergeTreaps, SortedMap.get_eraseAll, SortedMap.get_insertAll, ht, hc]
    split_ifs <;> rfl

lemma DbOk.commit (crc : Bytes → ℕ) (hdb : DbOk db t c) (h : TxOk tx t' c')
    (hsnap : tx.snapshot = db.cache.snapshot) (env : MetaDb.CommitEnv) :
    ∃ db', db.commit crc env tx = .ok db' ∧ DbOk db' t' c' := by
  obtain ⟨tx', htx'⟩ : ∃ tx', tx.put metadataBucketID writeLocKeyName env.writeRow = .ok tx' := by
    rw [Transaction.put, dbFailIf, if_neg (by simp [h.writable])]
    exact ⟨_, rfl⟩
  have h' := h.putWriteRow htx'
  have hsnap' : tx'.snapshot = db.cache.snapshot := by
    rw [← hsnap]
    have hop : Op.perform tx metadataBucketID (.put [] writeLocKeyName env.writeRow) = .ok tx' := htx'
    exact Op.snapshot_perform hop
  have hcontents : (db.cache.commitTx env.needsFlush tx'.pending).contents = tx'.fetchKey := by
    rw [DbCache.contents_commitTx, Transaction.fetchKey_eq h'.writable, hsnap']
    rfl
  obtain ⟨hldb, hcached⟩ :=
    DbCache.commitTx_absent env.needsFlush hdb.ldb hdb.cached h'.noPrune
  have hfinish : (MetaDb.mk (db.cache.commitTx env.needsFlush tx'.pending)
      db.recoveryRequired).finishPendingPrune crc =
        ⟨db.cache.commitTx env.needsFlush tx'.pending, db.recoveryRequired⟩ := by
    rw [MetaDb.finishPendingPrune, hldb]
  refine ⟨⟨db.cache.commitTx env.needsFlush tx'.pending, db.recoveryRequired⟩, ?_, ?_⟩
  · rw [MetaDb.commit, htx']
    change Except.ok (if env.pruneLocked = true then _ else _) = _
    rw [hfinish, ite_self]
  · refine ⟨hdb.recovered, ?_, ?_, hldb, hcached⟩
    · rw [hcontents]
      exact h'.wellFormed
    · rw [hcontents]
      exact h'.models

lemma DbOk.begin (hdb : DbOk db t c) (writable : Bool) :
    db.begin writable = .ok ⟨writable, db.cache.snapshot, .empty⟩ := by
  rw [MetaDb.begin, hdb.recovered]
  rfl

lemma fetchKey_begin (cache : DbCache) (writable : Bool) :
    (Transaction.mk writable cache.snapshot .empty).fetchKey = cache.contents := by
  cases writable <;> rfl

lemma get_view_begin (cache : DbCache) (writable : Bool) (k : Bytes) :
    (Transaction.mk writable cache.snapshot .empty).view.get k = cache.contents k := by
  have hwritable : (Transaction.mk true cache.snapshot .empty).writable = true := rfl
  exact Transaction.get_view hwritable k

namespace MetaDb

variable (crc : Bytes → ℕ)

lemma runTx_ok (h : DbOk db t c) (hown : ∀ op ∈ w.ops, op.LeavesOwn)
    (hc : c + (if w.commit.isSome then Op.created t w.ops else 0) < firstClash) :
    ∃ c' ≤ c + (if w.commit.isSome then Op.created t w.ops else 0),
      DbOk (db.runTx crc w) (w.onTree t) c' := by
  rw [runTx, h.begin, WriteTx.onTree]
  rcases hw : w.commit with - | env
  · exact ⟨c, by simp, h⟩
  rw [hw] at hc
  have hbegin : TxOk ⟨true, db.cache.snapshot, .empty⟩ t c :=
    ⟨rfl, fetchKey_begin db.cache true ▸ h.wellFormed, fetchKey_begin db.cache true ▸ h.models, rfl⟩
  obtain ⟨c', hc', htx⟩ := hbegin.foldl_apply w.ops hown hc
  obtain ⟨db', hcommit, hdb'⟩ := h.commit crc htx (Op.snapshot_foldl w.ops _) env
  refine ⟨c', hc', ?_⟩
  dsimp only
  rw [hcommit]
  exact hdb'

lemma foldl_runTx_ok : ∀ ws {db : MetaDb} {t : NestedMap Bytes Bytes} {c : ℕ},
    DbOk db t c → (∀ w ∈ ws, ∀ op ∈ w.ops, op.LeavesOwn) → c + WriteTx.created t ws < firstClash →
      ∃ c', DbOk (ws.foldl (runTx crc) db) (ws.foldl WriteTx.onTree t) c'
  | [], _, _, c, h, _, _ => ⟨c, h⟩
  | w :: ws, db, t, c, h, hown, hc => by
    rw [WriteTx.created] at hc
    obtain ⟨hw, hws⟩ := forall_mem_cons.1 hown
    obtain ⟨c1, hc1, h1⟩ := runTx_ok crc h hw (by omega)
    exact foldl_runTx_ok ws h1 hws (by omega)

/-! ### The new database -/

/-- A store with nothing but the counter of buckets. -/
def blankContents : Contents := update (fun _ => none) curBucketIDKeyName (some (idBytes 0))

lemma wellFormed_blank : WellFormed blankContents 0 := by
  have hrow : ∀ i n, i < firstClash → blankContents (bucketIndexKey i n) = none := fun i n hi =>
    update_of_ne (bucketIndexKey_ne_curBucketID hi) _ _
  constructor
  · decide
  · exact update_self ..
  · intro i n b hi hb
    rw [hrow i n (lt_of_le_of_lt hi (by decide))] at hb
    cases hb
  · intro i n i' n' b hi _ hb
    rw [hrow i n (lt_of_le_of_lt hi (by decide))] at hb
    cases hb
  · exact fun i n _ hi => hrow i n hi
  · exact fun i k _ hi => update_of_ne (bucketizedKey_ne_curBucketID hi) _ _

lemma models_blank : Models blankContents .empty := by
  constructor
  · rintro (- | ⟨n, p⟩)
    · rfl
    · rfl
  · intro p i hp k _ _
    have hi := wellFormed_blank.resolve_lt hp
    rw [blankContents, update_of_ne (bucketizedKey_ne_curBucketID hi)]
    rcases p with - | ⟨n, p⟩ <;> rfl

lemma contents_initDB (writeRow : Bytes) : (initDB writeRow).cache.contents = update
    (withBucket blankContents 0 metadataBucketID blockIdxBucketName)
    (bucketizedKey metadataBucketID writeLocKeyName) (some writeRow) := by
  have hrow : bucketizedKey metadataBucketID writeLocKeyName ≠
      bucketIndexKey metadataBucketID blockIdxBucketName :=
    bucketizedKey_ne_bucketIndexKey (by decide)
  have hcounter : bucketizedKey metadataBucketID writeLocKeyName ≠ curBucketIDKeyName :=
    bucketizedKey_ne_curBucketID (by decide)
  funext k
  rw [DbCache.contents_eq, initDB, Treaps.apply_empty, SortedMap.get_insert, SortedMap.get_insert,
    SortedMap.get_insert, SortedMap.get_empty, withBucket, blankContents, update_apply,
    update_apply, update_apply, update_apply]
  by_cases hk : k = bucketizedKey metadataBucketID writeLocKeyName
  · rw [hk, if_neg hcounter, if_neg hrow, if_pos rfl, if_pos rfl]
  · rw [if_neg hk, if_neg hk]
    by_cases hc : k = curBucketIDKeyName
    · rw [if_pos hc, if_pos hc]
      exact (ite_self _).symm
    · rw [if_neg hc, if_neg hc, if_neg hc]
      by_cases hr : k = bucketIndexKey metadataBucketID blockIdxBucketName
      · rw [if_pos hr, if_pos hr]
        rfl
      · rw [if_neg hr, if_neg hr]

lemma initDB_ok (writeRow : Bytes) : DbOk (initDB writeRow) (initialTree writeRow) 1 := by
  have hnone : blankContents (bucketIndexKey metadataBucketID blockIdxBucketName) = none :=
    update_of_ne (bucketIndexKey_ne_curBucketID (by decide)) _ _
  have hw := wellFormed_blank.withBucket (by decide) le_rfl hnone
  have hm := models_blank.withBucket wellFormed_blank (p := []) (by decide) rfl hnone rfl
  have ht : modify (setValue writeLocKeyName (some writeRow)) []
      (setChild blockIdxBucketName (some .empty) .empty) = some (initialTree writeRow) := by
    have hvalue : update (fun _ => none) writeLocKeyName (some writeRow) =
        fun k => if k = writeLocKeyName then some writeRow else none :=
      funext fun k => update_apply ..
    have hchild : update (fun _ => none) blockIdxBucketName (some empty) =
        fun n => if n = blockIdxBucketName then some (empty : NestedMap Bytes Bytes)
          else none := funext fun n => update_apply ..
    rw [initialTree, ← hvalue, ← hchild]
    rfl
  refine ⟨rfl, ?_, ?_, ?_, rfl⟩
  · rw [contents_initDB]
    exact hw.updateKey (Nat.zero_le 1) _ _
  · rw [contents_initDB]
    exact hm.updateKey hw rfl _ _ ht
  · rw [initDB, SortedMap.get_insert_of_ne (by decide), SortedMap.get_insert_of_ne (by decide),
      SortedMap.get_insert_of_ne (by decide), SortedMap.get_empty]

section

variable {tx : Transaction} {m : Contents}

lemma mem_forEach (hview : ∀ k, tx.view.get k = m k) :
    (k, v) ∈ tx.forEach i ↔ m (bucketizedKey i k) = some v := by
  rw [Transaction.forEach, mem_map]
  constructor
  · rintro ⟨⟨key, value⟩, hmem, heq⟩
    obtain ⟨hmem, hrange⟩ := SortedMap.mem_filter.1 hmem
    obtain ⟨l, rfl⟩ := Transaction.hasPrefix_iff.1 hrange
    obtain ⟨rfl, rfl⟩ := heq
    exact hview _ ▸ SortedMap.get_eq_some.2 hmem
  · intro h
    refine ⟨(bucketizedKey i k, v), SortedMap.mem_filter.2 ⟨?_, Transaction.hasPrefix_iff.2 ⟨k, rfl⟩⟩, ?_⟩
    · exact SortedMap.get_eq_some.1 ((hview _).trans h)
    · rw [bucketizedKey, drop_left' (length_idBytes i)]

lemma mem_forEachBucket (hview : ∀ k, tx.view.get k = m k) :
    n ∈ tx.forEachBucket i ↔ (m (bucketIndexKey i n)).isSome = true := by
  have hlen : (bucketIndexPrefix ++ idBytes i).length = 8 := by
    rfl
  rw [Transaction.forEachBucket, mem_map, Option.isSome_iff_exists]
  constructor
  · rintro ⟨⟨key, value⟩, hmem, rfl⟩
    obtain ⟨hmem, hrange⟩ := SortedMap.mem_filter.1 hmem
    obtain ⟨l, rfl⟩ := Transaction.hasPrefix_iff.1 hrange
    exact ⟨value, hview _ ▸ SortedMap.get_eq_some.2 hmem⟩
  · rintro ⟨b, hb⟩
    refine ⟨(bucketIndexKey i n, b),
      SortedMap.mem_filter.2 ⟨?_, Transaction.hasPrefix_iff.2 ⟨n, rfl⟩⟩, ?_⟩
    · exact SortedMap.get_eq_some.1 ((hview _).trans hb)
    · rw [bucketIndexKey, drop_left' hlen]

end

/-- The transaction reads the buckets, the keys and the listings of the tree, and no two of its
buckets have a key in common, nor has one with the index of buckets or the counter. -/
structure ReadsTree (tx : Transaction) (t : NestedMap Bytes Bytes) : Prop where
  openBucket : ∀ p, (tx.openBucket metadataBucketID p).isSome = (t.find? p).isSome
  get : ∀ p i, tx.openBucket metadataBucketID p = some i → ∀ k, ¬ OwnKey p k →
    tx.get i k = if k = [] then none else t.entry p k
  forEach : ∀ p i, tx.openBucket metadataBucketID p = some i → ∀ k v, k ≠ [] → ¬ OwnKey p k →
    ((k, v) ∈ tx.forEach i ↔ t.entry p k = some v)
  forEachBucket : ∀ p i, tx.openBucket metadataBucketID p = some i → ∀ n,
    (n ∈ tx.forEachBucket i ↔ (t.find? (p ++ [n])).isSome = true)
  disjoint : ∀ p i q j, tx.openBucket metadataBucketID p = some i →
    tx.openBucket metadataBucketID q = some j → p ≠ q → ∀ k l,
      bucketizedKey i k ≠ bucketizedKey j l ∧ bucketIndexKey i k ≠ bucketIndexKey j l
  apart : ∀ p i q j, tx.openBucket metadataBucketID p = some i →
    tx.openBucket metadataBucketID q = some j → ∀ k l,
      bucketizedKey i k ≠ bucketIndexKey j l ∧ bucketizedKey i k ≠ curBucketIDKeyName ∧
        bucketIndexKey j l ≠ curBucketIDKeyName

lemma readsTree_begin (h : DbOk db t c) (writable : Bool) :
    ReadsTree ⟨writable, db.cache.snapshot, .empty⟩ t := by
  have hfetch := fetchKey_begin db.cache writable
  have hview := get_view_begin db.cache writable
  set tx : Transaction := ⟨writable, db.cache.snapshot, .empty⟩
  have hopen (p : List Bytes) :
      tx.openBucket metadataBucketID p = resolve db.cache.contents 0 p := by
    rw [Transaction.openBucket_eq, hfetch]
    rfl
  constructor
  · intro p
    rw [hopen, h.models.bucket]
  · intro p i hp k hown
    rw [hopen] at hp
    rw [Transaction.get, hfetch]
    refine ite_congr rfl (fun _ => rfl) fun hk => h.models.entry p i hp k hk hown
  · intro p i hp k v hk hown
    rw [hopen] at hp
    rw [mem_forEach hview, h.models.entry p i hp k hk hown]
  · intro p i hp n
    rw [hopen] at hp
    rw [mem_forEachBucket hview, ← h.models.bucket, resolve_concat, hp, Option.bind_some,
      Option.isSome_map]
  · intro p i q j hp hq hne k l
    rw [hopen] at hp hq
    have hi := h.wellFormed.resolve_lt hp
    have hj := h.wellFormed.resolve_lt hq
    have hij : i ≠ j := by
      rintro rfl
      exact hne (h.wellFormed.resolve_inj hp hq)
    exact ⟨fun he => hij (bucketizedKey_inj hi hj he).1, fun he => hij (bucketIndexKey_inj hi hj he).1⟩
  · intro p i q j hp hq k l
    rw [hopen] at hp hq
    have hi := h.wellFormed.resolve_lt hp
    exact ⟨bucketizedKey_ne_bucketIndexKey hi, bucketizedKey_ne_curBucketID hi,
      bucketIndexKey_ne_curBucketID (h.wellFormed.resolve_lt hq)⟩

/-- A put under `ffldb-writeloc` is overwritten by its own commit, and the index of the bucket with
number `0x2d636269` has the key of the counter. -/
theorem writeloc_put_is_overwritten :
    let row := serializeWriteRow fun _ => 0
    let w : WriteTx := ⟨[.put [] writeLocKeyName [7]], some ⟨row 0 80, false, false⟩⟩
    (((initDB (row 0 0)).runTx (fun _ => 0) w).begin false).toOption.bind
        (·.get metadataBucketID writeLocKeyName) = some (row 0 80) ∧
      (w.onTree (initialTree (row 0 0))).entry [] writeLocKeyName = some [7] ∧
      bucketIndexKey firstClash [0x64] = curBucketIDKeyName ∧ firstClash < 2 ^ 32 := by
  decide +kernel

/-- After any run the next transaction reads the tree that the committed transactions leave. -/
theorem reads_follow_nested_maps (writeRow : Bytes) (ws : List WriteTx)
    (hown : ∀ w ∈ ws, ∀ op ∈ w.ops, op.LeavesOwn)
    (hcreated : 1 + WriteTx.created (initialTree writeRow) ws < firstClash) (writable : Bool) :
    ∃ tx, (ws.foldl (runTx crc) (initDB writeRow)).begin writable = .ok tx ∧
      ReadsTree tx (ws.foldl WriteTx.onTree (initialTree writeRow)) := by
  obtain ⟨c, h⟩ := foldl_runTx_ok crc ws (initDB_ok writeRow) hown hcreated
  exact ⟨_, h.begin writable, readsTree_begin h writable⟩

def sampleRow : UInt32 → Bytes := serializeWriteRow (fun _ => 0) 0

def sampleRun : List WriteTx :=
  [⟨[.createBucket [] [1], .put [[1]] [2] [3], .put [] [4] [5]], some ⟨sampleRow 80, true, false⟩⟩,
    ⟨[.delete [] [4]], none⟩,
    ⟨[.createBucket [[1]] [6], .deleteBucket [] [1] fun _ => true],
      some ⟨sampleRow 160, false, false⟩⟩]

theorem reads_follow_nested_maps_sample :
    ∃ tx, (sampleRun.foldl (runTx fun _ => 0) (initDB (sampleRow 0))).begin true = .ok tx ∧
      ReadsTree tx (sampleRun.foldl WriteTx.onTree (initialTree (sampleRow 0))) := by
  refine reads_follow_nested_maps (fun _ => 0) (sampleRow 0) sampleRun ?_ ?_ true
  · simp [sampleRun, Op.LeavesOwn, blockIdxBucketName, pruneStateKeyName]
  · decide +kernel

end MetaDb

end Ffldb

end HandshakeNode
