import HandshakeNode.DbCache
import Mathlib.Data.List.Dedup
import Mathlib.Data.List.Sort

/-!
# The metadata store

Buckets are numbered, and the keys of all buckets lie in one space of keys: a key of a bucket after
the number of the bucket, and the number of a nested bucket under `bidx`, the number of its parent
and its name. A write transaction collects its changes in treaps over a snapshot, and `Commit`
hands them to the cache. A pruning commit stores the numbers of the block files it is going to
delete, with a version, a count and a checksum, and the record stays until every file is gone.
-/

namespace HandshakeNode.Ffldb

open SortedMaps LittleEndian

inductive DbErr where
  | dbNotOpen
  | txClosed
  | txNotWritable (description : String)
  | bucketNameRequired (description : String)
  | bucketExists (description : String)
  /-- `bucket %q does not exist`. -/
  | bucketNotFound (key : Bytes)
  | keyRequired (description : String)
  | blockExists
  | blockNotFound
  | corruption (description : String)
  | driverSpecific (description : String)
  | plain (description : String)
  | panic (text : String)
deriving DecidableEq, Repr

abbrev DbResult := Except DbErr

def dbFailIf (c : Prop) [Decidable c] (e : DbErr) : DbResult Unit :=
  if c then .error e else .ok ()

lemma dbFailIf_ok [Decidable c] (h : (dbFailIf c e >>= f) = .ok a) : ¬ c ∧ f () = .ok a := by
  unfold dbFailIf at h
  split_ifs at h with hc
  · cases h
  · exact ⟨hc, h⟩

lemma dbBind_ok {α β : Type} {x : DbResult α} {f : α → DbResult β} {b : β}
    (h : (x >>= f) = .ok b) : ∃ a, x = .ok a ∧ f a = .ok b := by
  cases x with
  | error e => cases h
  | ok a => exact ⟨a, rfl, h⟩

def pruneStateVersion : ℕ := 1

/-- `byteOrder.Uint32(s[i:])`. -/
def uint32At (s : Bytes) (i : ℕ) : ℕ := leNat ((s.drop i).take 4)

variable (crc : Bytes → ℕ)

def serializeWriteRow (curBlockFileNum curFileOffset : UInt32) : Bytes :=
  let serializedRow := leBytes 4 curBlockFileNum.toNat ++ leBytes 4 curFileOffset.toNat
  serializedRow ++ leBytes 4 (crc serializedRow)

def readFileNums (serialized : Bytes) : ℕ → ℕ → Option ℕ → DbResult (List ℕ)
  | 0, _, _ => .ok []
  | n + 1, i, prev => do
    let fileNum := uint32At serialized (8 + i * 4)
    dbFailIf (prev.any (fileNum ≤ ·) = true)
      (.corruption "pending prune record file numbers are not strictly increasing")
    let rest ← readFileNums serialized n (i + 1) (some fileNum)
    return fileNum :: rest

def deserializePruneState (serialized : Bytes) : DbResult (List ℕ) := do
  dbFailIf (serialized.length < 12)
    (.corruption ("pending prune record has invalid length " ++ toString serialized.length))
  let version := uint32At serialized 0
  dbFailIf (version ≠ pruneStateVersion)
    (.corruption ("pending prune record has unsupported version " ++ toString version))
  let count := uint32At serialized 4
  dbFailIf (count = 0) (.corruption "pending prune record contains no files")
  dbFailIf (12 + count * 4 ≠ serialized.length)
    (.corruption ("pending prune record has invalid length " ++ toString serialized.length ++
      " for " ++ toString count ++ " files"))
  let checksumOffset := serialized.length - 4
  let gotChecksum := crc (serialized.take checksumOffset)
  let wantChecksum := uint32At serialized checksumOffset
  dbFailIf (gotChecksum ≠ wantChecksum)
    (.corruption ("pending prune record checksum mismatch - got " ++ toString gotChecksum ++
      ", want " ++ toString wantChecksum))
  readFileNums serialized count 0 none

def idBytes (id : ℕ) : Bytes := (leBytes 4 id).reverse

/-- `binary.BigEndian.Uint32`, which panics on fewer than four bytes. -/
def bigEndianUint32 (b : Bytes) : DbResult ℕ :=
  if b.length < 4 then .error (.panic "index out of range") else .ok (leNat (b.take 4).reverse)

/-- `copy(id[:], b)` for a zero `id`. -/
def copyID (b : Bytes) : ℕ := leNat ((b ++ [0, 0, 0, 0]).take 4).reverse

def metadataBucketID : ℕ := 0

def blockIdxBucketID : ℕ := 1

/-- `bidx-cbid`. -/
def curBucketIDKeyName : Bytes := bucketIndexPrefix ++ [0x2d, 0x63, 0x62, 0x69, 0x64]

/-- `ffldb-blockidx`. -/
def blockIdxBucketName : Bytes :=
  [0x66, 0x66, 0x6c, 0x64, 0x62, 0x2d, 0x62, 0x6c, 0x6f, 0x63, 0x6b, 0x69, 0x64, 0x78]

/-- `ffldb-writeloc`. -/
def writeLocKeyName : Bytes :=
  [0x66, 0x66, 0x6c, 0x64, 0x62, 0x2d, 0x77, 0x72, 0x69, 0x74, 0x65, 0x6c, 0x6f, 0x63]

/-- `ffldb-prune-state`. -/
def pruneStateKeyName : Bytes :=
  [0x66, 0x66, 0x6c, 0x64, 0x62, 0x2d, 0x70, 0x72, 0x75, 0x6e, 0x65, 0x2d, 0x73, 0x74, 0x61, 0x74,
    0x65]

def bucketIndexKey (parentID : ℕ) (key : Bytes) : Bytes :=
  bucketIndexPrefix ++ idBytes parentID ++ key

def bucketizedKey (bucketID : ℕ) (key : Bytes) : Bytes := idBytes bucketID ++ key

def pruneStateKey : Bytes := bucketizedKey metadataBucketID pruneStateKeyName

structure Transaction where
  writable : Bool
  snapshot : DbCacheSnapshot
  pending : Treaps

namespace Transaction

variable (tx : Transaction) (key : Bytes)

def hasKey : Bool :=
  if tx.writable && tx.pending.remove.has key then false
  else if tx.writable && tx.pending.keys.has key then true
  else tx.snapshot.has key

def fetchKey : Option Bytes :=
  if tx.writable && tx.pending.remove.has key then none
  else
    match (if tx.writable then tx.pending.keys.get key else none) with
    | some value => some value
    | none => tx.snapshot.get key

def putKey (key value : Bytes) : Transaction :=
  { tx with pending := tx.pending.putKey key value }

def deleteKey : Transaction :=
  { tx with pending := tx.pending.deleteKey key }

def nextBucketID : DbResult (ℕ × Transaction) := do
  let curBucketNum ← bigEndianUint32 ((tx.fetchKey curBucketIDKeyName).getD [])
  let nextBucketID := (curBucketNum + 1) % 2 ^ 32
  return (nextBucketID, tx.putKey curBucketIDKeyName (idBytes nextBucketID))

def view : SortedMap Bytes Bytes :=
  SortedMap.overlay tx.pending.keys
    (SortedMap.overlay tx.snapshot.pending.keys tx.snapshot.dbSnapshot
      tx.snapshot.pending.remove.has)
    tx.pending.remove.has

/-- The pairs a cursor visits when it is walked from `First` with `Next` while each key it stands at
is deleted. The iterator over the pending keys is not told of the deletions, so that it goes on from
a node that rotations of the treap have moved; which of the pending keys it still reaches depends on
the random priorities of the treap and is left open. -/
def visited (inRange reached : Bytes → Bool) : List (Bytes × Bytes) :=
  (tx.view.filter fun k => inRange k && (reached k || !tx.pending.keys.has k)).items

variable (id : ℕ)

def bucket (key : Bytes) : Option ℕ := (tx.fetchKey (bucketIndexKey id key)).map copyID

def createBucket (key : Bytes) : DbResult (ℕ × Transaction) := do
  dbFailIf (tx.writable = false)
    (.txNotWritable "create bucket requires a writable database transaction")
  dbFailIf (key = []) (.bucketNameRequired "create bucket requires a key")
  let bidxKey := bucketIndexKey id key
  dbFailIf (tx.hasKey bidxKey = true) (.bucketExists "bucket already exists")
  let (childID, tx) ← if id = metadataBucketID ∧ key = blockIdxBucketName then
      .ok (blockIdxBucketID, tx)
    else
      tx.nextBucketID
  return (childID, tx.putKey bidxKey (idBytes childID))

/-- The loop of `DeleteBucket` over the buckets still to be emptied, the next one first, bounded by a
number of rounds. -/
def deleteLoop (reached : Bytes → Bool) : ℕ → List Bytes → Transaction → List Bytes × Transaction
  | 0, childIDs, tx => (childIDs, tx)
  | _ + 1, [], tx => ([], tx)
  | n + 1, childID :: childIDs, tx =>
    let tx := (tx.visited (hasPrefix childID) reached).foldl (fun tx x => tx.deleteKey x.1) tx
    let nested := tx.visited (hasPrefix (nestedPrefix childID)) reached
    deleteLoop reached n ((nested.map Prod.snd).reverse ++ childIDs)
      (nested.foldl (fun tx x => tx.deleteKey x.1) tx)

/-- `DeleteBucket`. Every bucket that is put on the stack is taken out of the index, so that there
are no more rounds than keys, and one for the bucket itself. -/
def deleteBucket (reached : Bytes → Bool) (key : Bytes) : DbResult Transaction := do
  dbFailIf (tx.writable = false)
    (.txNotWritable "delete bucket requires a writable database transaction")
  let bidxKey := bucketIndexKey id key
  match tx.fetchKey bidxKey with
  | none => .error (.bucketNotFound key)
  | some childID =>
    .ok ((deleteLoop reached (tx.view.items.length + 1) [childID] tx).2.deleteKey bidxKey)

def put (key value : Bytes) : DbResult Transaction := do
  dbFailIf (tx.writable = false)
    (.txNotWritable "setting a key requires a writable database transaction")
  dbFailIf (key = []) (.keyRequired "put requires a key")
  return tx.putKey (bucketizedKey id key) value

def get (key : Bytes) : Option Bytes :=
  if key = [] then none else tx.fetchKey (bucketizedKey id key)

def delete (key : Bytes) : DbResult Transaction := do
  dbFailIf (tx.writable = false)
    (.txNotWritable "deleting a value requires a writable database transaction")
  if key = [] then return tx else return tx.deleteKey (bucketizedKey id key)

/-- What `ForEach` calls its function with: the pairs under the number of the bucket, without it. -/
def forEach : List (Bytes × Bytes) :=
  (tx.view.filter (hasPrefix (idBytes id))).items.map fun x => (x.1.drop 4, x.2)

def forEachBucket : List Bytes :=
  (tx.view.filter (hasPrefix (bucketIndexPrefix ++ idBytes id))).items.map fun x => x.1.drop 8

end Transaction

structure MetaDb where
  cache : DbCache
  recoveryRequired : Bool

namespace MetaDb

/-- `initDB`, with the row of a write cursor at the start of the first file. -/
def initDB (writeRow : Bytes) : MetaDb where
  cache :=
    { ldb := ((SortedMap.empty.insert (bucketizedKey metadataBucketID writeLocKeyName) writeRow).insert
        (bucketIndexKey metadataBucketID blockIdxBucketName) (idBytes blockIdxBucketID)).insert
        curBucketIDKeyName (idBytes blockIdxBucketID)
      cached := .empty }
  recoveryRequired := false

def begin (db : MetaDb) (writable : Bool) : DbResult Transaction := do
  dbFailIf (db.recoveryRequired = true)
    (.driverSpecific "database requires reopen after an ambiguous metadata commit")
  return ⟨writable, db.cache.snapshot, .empty⟩

variable (crc : Bytes → ℕ)

/-- `tryFinishPendingPrune` as far as the metadata goes, when no reader holds the prune lock and the
files can be deleted: the record is cleared, and one that cannot be read closes the database. -/
def finishPendingPrune (db : MetaDb) : MetaDb :=
  match db.cache.ldb.get pruneStateKey with
  | none => db
  | some serialized =>
    match deserializePruneState crc serialized with
    | .error _ => { db with recoveryRequired := true }
    | .ok _ => { db with cache := { db.cache with ldb := db.cache.ldb.erase pruneStateKey } }

/-- What `Commit` depends on besides the transaction: the row of the write cursor, the clock and
sizes that decide about a flush, and whether a reader holds the prune lock. -/
structure CommitEnv where
  writeRow : Bytes
  needsFlush : Bool
  pruneLocked : Bool

/-- `Commit` of a transaction without blocks and without pruning. -/
def commit (env : CommitEnv) (db : MetaDb) (tx : Transaction) : DbResult MetaDb := do
  let tx ← tx.put metadataBucketID writeLocKeyName env.writeRow
  let db := { db with cache := db.cache.commitTx env.needsFlush tx.pending }
  return if env.pruneLocked then db else db.finishPendingPrune crc

end MetaDb

end HandshakeNode.Ffldb
