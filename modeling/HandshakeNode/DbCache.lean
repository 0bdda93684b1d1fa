import HandshakeNode.DbCursor

/-!
# The database cache

`dbCache` holds the keys that have been committed but not yet written to LevelDB, as a treap of
keys to store and a treap of keys to remove. A commit either merges the treaps of a transaction
into those of the cache or, when a flush is due, writes the cache to LevelDB and then the
transaction straight after it. Treaps and LevelDB are sorted maps here.

There is one writer, which holds the write lock, and any number of readers, which hold no lock that
spans a whole `Snapshot`. `commitTx` and `Snapshot` are split at the points where others can come in
between: LevelDB takes a batch and a snapshot each at once, and the roots of the treaps are read and
replaced under the cache lock.
-/

namespace HandshakeNode.Ffldb

open SortedMaps SortedMap

structure Treaps where
  keys : SortedMap Bytes Bytes
  remove : SortedMap Bytes Bytes
  disjoint : ∀ k, keys.has k = true → remove.has k = false

namespace Treaps

def empty : Treaps := ⟨.empty, .empty, fun _ _ => rfl⟩

def isEmpty (t : Treaps) : Bool := t.keys.items.isEmpty && t.remove.items.isEmpty

def putKey (t : Treaps) (key value : Bytes) : Treaps where
  keys := t.keys.insert key value
  remove := t.remove.erase key
  disjoint k h := by
    rw [Bool.eq_false_iff, Ne, has_erase]
    rintro ⟨hne, hr⟩
    have hk := (has_insert.1 h).resolve_left hne
    rw [t.disjoint k hk] at hr
    cases hr

def deleteKey (t : Treaps) (key : Bytes) : Treaps where
  keys := t.keys.erase key
  remove := t.remove.insert key []
  disjoint k h := by
    obtain ⟨hne, hk⟩ := has_erase.1 h
    rw [Bool.eq_false_iff, Ne, has_insert]
    rintro (he | hr)
    · exact hne he
    · rw [t.disjoint k hk] at hr
      cases hr

end Treaps

structure DbCacheSnapshot where
  dbSnapshot : SortedMap Bytes Bytes
  pending : Treaps

namespace DbCacheSnapshot

def has (snap : DbCacheSnapshot) (key : Bytes) : Bool :=
  if snap.pending.remove.has key then false
  else if snap.pending.keys.has key then true
  else snap.dbSnapshot.has key

def get (snap : DbCacheSnapshot) (key : Bytes) : Option Bytes :=
  if snap.pending.remove.has key then none
  else
    match snap.pending.keys.get key with
    | some value => some value
    | none => snap.dbSnapshot.get key

end DbCacheSnapshot

inductive BatchRecord where
  | value (key value : Bytes)
  | delete (key : Bytes)
deriving DecidableEq, Repr

/-- `treapsToBatch`: the keys to store, then the keys to remove. -/
def treapsToBatch (t : Treaps) : List BatchRecord :=
  t.keys.items.map (fun x => .value x.1 x.2) ++ t.remove.items.map fun x => .delete x.1

/-- LevelDB applies the records of a batch in order, all or none. -/
def writeBatch (ldb : SortedMap Bytes Bytes) (batch : List BatchRecord) : SortedMap Bytes Bytes :=
  batch.foldl (fun ldb r => match r with
    | .value key value => ldb.insert key value
    | .delete key => ldb.erase key) ldb

structure DbCache where
  ldb : SortedMap Bytes Bytes
  cached : Treaps

namespace DbCache

variable (c : DbCache)

def snapshot : DbCacheSnapshot := ⟨c.ldb, c.cached⟩

def commitTreaps (t : Treaps) : DbCache :=
  { c with ldb := writeBatch c.ldb (treapsToBatch t) }

def clearTreaps : DbCache := { c with cached := .empty }

/-- `flushWithPruneWriter`, without the block store. -/
def flush : DbCache :=
  if c.cached.isEmpty then c else (c.commitTreaps c.cached).clearTreaps

def mergeTreaps (cached tx : Treaps) : Treaps where
  keys := (cached.keys.insertAll tx.keys).eraseAll tx.remove
  remove := (cached.remove.eraseAll tx.keys).insertAll tx.remove
  disjoint k h := by
    rw [has_eraseAll, has_insertAll] at h
    rw [has_insertAll, has_eraseAll]
    have hc := cached.disjoint k
    revert h hc
    cases tx.remove.has k <;> cases tx.keys.has k <;> cases cached.keys.has k <;> simp

def swapTreaps (tx : Treaps) : DbCache :=
  { c with cached := mergeTreaps c.cached tx }

/-- `commitTx`; whether a flush is needed depends on the clock and on sizes. -/
def commitTx (needsFlush : Bool) (tx : Treaps) : DbCache :=
  if needsFlush then c.flush.commitTreaps tx else c.swapTreaps tx

end DbCache

inductive WriterAt where
  | idle
  | writeCached (tx : Treaps)
  | clearCached (tx : Treaps)
  | writeTx (tx : Treaps)
  | swap (tx : Treaps)
  | ret

/-- How far a reader has come in `Snapshot`. The number is that of the commits that had returned
when it began, and the flag says whether LevelDB has been written to since it took its snapshot. -/
inductive ReaderAt where
  | idle
  | tookDb (dbSnapshot : SortedMap Bytes Bytes) (since : ℕ) (wrote : Bool)
  | done (snap : DbCacheSnapshot) (since : ℕ)

def ReaderAt.noteWrite : ReaderAt → ReaderAt
  | tookDb dbSnapshot since _ => tookDb dbSnapshot since true
  | r => r

structure Database where
  cache : DbCache
  writer : WriterAt
  readers : ℕ → ReaderAt
  /-- The transactions whose change has been made, in order. -/
  committed : List Treaps
  returned : ℕ

namespace Database

def opened (ldb : SortedMap Bytes Bytes) : Database := ⟨⟨ldb, .empty⟩, .idle, fun _ => .idle, [], 0⟩

/-- `commitTx` begins; whether it flushes depends on the clock and on sizes. -/
def beginCommit (s : Database) (tx : Treaps) (needsFlush : Bool) : Option Database :=
  match s.writer with
  | .idle =>
    some { s with
      writer :=
        if needsFlush then (if s.cache.cached.isEmpty then .writeTx tx else .writeCached tx)
        else .swap tx }
  | _ => none

def stepWriter (s : Database) : Option Database :=
  match s.writer with
  | .idle => none
  | .writeCached tx =>
    some { s with
      cache := s.cache.commitTreaps s.cache.cached
      writer := .clearCached tx
      readers := fun r => (s.readers r).noteWrite }
  | .clearCached tx => some { s with cache := s.cache.clearTreaps, writer := .writeTx tx }
  | .writeTx tx =>
    some { s with
      cache := s.cache.commitTreaps tx
      writer := .ret
      readers := fun r => (s.readers r).noteWrite
      committed := s.committed ++ [tx] }
  | .swap tx =>
    some { s with
      cache := s.cache.swapTreaps tx
      writer := .ret
      committed := s.committed ++ [tx] }
  | .ret => some { s with writer := .idle, returned := s.returned + 1 }

/-- The first half of `Snapshot`: `c.ldb.GetSnapshot()`. -/
def getSnapshot (s : Database) (r : ℕ) : Option Database :=
  match s.readers r with
  | .idle =>
    some { s with readers := Function.update s.readers r (.tookDb s.cache.ldb s.returned false) }
  | _ => none

def readRoots (s : Database) (r : ℕ) : Option Database :=
  match s.readers r with
  | .tookDb dbSnapshot since _ =>
    some { s with
      readers := Function.update s.readers r
        (.done ⟨dbSnapshot, s.cache.cached⟩ since) }
  | _ => none

end Database

inductive Action where
  | beginCommit (tx : Treaps) (needsFlush : Bool)
  | stepWriter
  | getSnapshot (r : ℕ)
  | readRoots (r : ℕ)

def Database.step (s : Database) : Action → Option Database
  | .beginCommit tx needsFlush => s.beginCommit tx needsFlush
  | .stepWriter => s.stepWriter
  | .getSnapshot r => s.getSnapshot r
  | .readRoots r => s.readRoots r

def Database.run (s : Database) : List Action → Option Database
  | [] => some s
  | a :: as => (s.step a).bind (·.run as)

end HandshakeNode.Ffldb
