import HandshakeNode.Utxo

/-!
# The UTXO cache and its database

The cache keeps entries in a slice of maps over the UTXO bucket of the database. The bucket is a
map from outpoints to what the stored format keeps of an entry, and its reads and writes do not
fail. How much memory entries and maps take is a parameter: it depends on the capacity of slices
and only decides in which map an entry is kept and when the cache is flushed.
-/

namespace HandshakeNode

structure StoredUtxo where
  amount : Int64
  address : Address
  covenant : Covenant
  blockHeight : Int32
  isCoinBase : Bool
deriving DecidableEq

structure UtxoDb where
  utxoSet : GoMap OutPoint StoredUtxo
  consistency : Option Hash

/-- `deserializeUtxoEntry`, which derives the script from the address. -/
def StoredUtxo.entry (s : StoredUtxo) : UtxoEntry where
  amount := s.amount
  address := s.address
  covenant := s.covenant
  pkScript := txOutPkScript ⟨s.amount, s.address, s.covenant⟩
  blockHeight := s.blockHeight
  packedFlags := { coinBase := s.isCoinBase }

def UtxoEntry.stored (entry : UtxoEntry) : StoredUtxo where
  amount := entry.amount
  address := entry.address
  covenant := entry.covenant
  blockHeight := entry.blockHeight
  isCoinBase := entry.isCoinBase

namespace UtxoDb

variable (db : UtxoDb) (outpoint : OutPoint)

def dbFetchUtxoEntry : Option UtxoEntry :=
  (db.utxoSet.lookup outpoint).map StoredUtxo.entry

def dbDeleteUtxoEntry : UtxoDb :=
  { db with utxoSet := db.utxoSet.erase outpoint }

def dbPutUtxoEntry (entry : UtxoEntry) : Result UtxoDb := do
  failIf (entry.isSpent = true) (.assert "trying to store nil or spent entry")
  return { db with utxoSet := db.utxoSet.insert outpoint entry.stored }

def dbPutUtxoStateConsistency (hash : Hash) : UtxoDb :=
  { db with consistency := some hash }

end UtxoDb

/-- What the cache assumes about memory: `memoryUsage` of an entry, `calculateRoughMapSize` of a map
and `calculateMinEntries` of a number of bytes. -/
structure Memory where
  entryUsage : UtxoEntry → UInt64
  roughMapSize : ℤ → ℤ
  minEntries : ℤ → ℤ

/-- `memoryUsage`, zero for a nil entry. -/
def Memory.usage (mem : Memory) : Option UtxoEntry → UInt64
  | none => 0
  | some entry => mem.entryUsage entry

/-- A map of the slice with the number of entries it was made for; the slices `maps` and
`maxEntries` grow and shrink together. -/
structure SizedMap where
  entries : GoMap OutPoint (Option UtxoEntry)
  maxEntries : ℤ

structure MapSlice where
  maps : List SizedMap
  maxTotalMemoryUsage : UInt64

def putFirst (p : SizedMap → Prop) [DecidablePred p] (op : OutPoint) (entry : Option UtxoEntry) :
    List SizedMap → Option (List SizedMap)
  | [] => none
  | m :: maps =>
    if p m then some ({ m with entries := m.entries.insert op entry } :: maps)
    else (putFirst p op entry maps).map (m :: ·)

namespace MapSlice

variable (mem : Memory)

def size (ms : MapSlice) : ℤ := (ms.maps.map fun m => mem.roughMapSize m.maxEntries).sum

variable (ms : MapSlice) (op : OutPoint)

/-- The entry and whether it was found; an entry that is found may be nil. -/
def get : Option (Option UtxoEntry) :=
  ms.maps.findSome? fun m => m.entries.lookup op

def newMapSize (totalEntryMemory : UInt64) : ℤ :=
  let memSize := ms.maps.foldl
    (fun memSize m => memSize - UInt64.ofInt (mem.roughMapSize m.maxEntries))
    (ms.maxTotalMemoryUsage - totalEntryMemory)
  mem.minEntries memSize.toInt64.toInt - 1

def put (entry : Option UtxoEntry) (totalEntryMemory : UInt64) : MapSlice :=
  match putFirst (fun m => op ∈ m.entries) op entry ms.maps with
  | some maps => { ms with maps := maps }
  | none =>
    match putFirst (fun m => (m.entries.keys.card : ℤ) < m.maxEntries) op entry ms.maps with
    | some maps => { ms with maps := maps }
    | none =>
      let m : SizedMap := ⟨(∅ : GoMap OutPoint (Option UtxoEntry)).insert op entry,
        newMapSize mem ms totalEntryMemory⟩
      { ms with maps := ms.maps ++ [m] }

def mutate (entry : UtxoEntry) : MapSlice :=
  { ms with maps := (putFirst (fun m => op ∈ m.entries) op (some entry) ms.maps).getD ms.maps }

def delete : MapSlice :=
  { ms with maps := ms.maps.map fun m => { m with entries := m.entries.erase op } }

def deleteMaps : Result MapSlice :=
  match ms.maps with
  | [] => .error (.panic "index out of range")
  | m :: _ => .ok { ms with maps := [m] }

end MapSlice

/-- Times are in nanoseconds. -/
structure UtxoCache where
  maxTotalMemoryUsage : UInt64
  cachedEntries : MapSlice
  totalEntryMemory : UInt64
  lastFlushHash : Hash
  lastFlushTime : ℤ

inductive FlushMode where
  | required
  | periodic
  | ifNeeded
deriving DecidableEq

def utxoFlushPeriodicInterval : ℤ := 5 * 60 * 1000000000

def newUtxoCache (mem : Memory) (maxTotalMemoryUsage : UInt64) : UtxoCache where
  maxTotalMemoryUsage := maxTotalMemoryUsage
  cachedEntries :=
    { maps := [⟨∅, mem.minEntries maxTotalMemoryUsage.toInt64.toInt - 1⟩]
      maxTotalMemoryUsage := maxTotalMemoryUsage }
  totalEntryMemory := 0
  lastFlushHash := Hash.zero
  lastFlushTime := 0

namespace UtxoCache

variable (mem : Memory) (db : UtxoDb)

variable (s : UtxoCache)

def totalMemoryUsage : UInt64 :=
  UInt64.ofInt (s.cachedEntries.size mem) + s.totalEntryMemory

def putEntry (op : OutPoint) (entry : Option UtxoEntry) : UtxoCache :=
  { s with
    cachedEntries := s.cachedEntries.put mem op entry s.totalEntryMemory
    totalEntryMemory := s.totalEntryMemory + mem.usage entry }

/-- The entries of the outpoints; those that are not cached are read and cached, nil included. -/
def fetchEntries (outpoints : List OutPoint) : List (Option UtxoEntry) × UtxoCache :=
  let missingOps := outpoints.filter fun op => (s.cachedEntries.get op).isNone
  (outpoints.map fun op => (s.cachedEntries.get op).getD (db.dbFetchUtxoEntry op),
    missingOps.foldl (fun s op => s.putEntry mem op (db.dbFetchUtxoEntry op)) s)

def addTxOut (outpoint : OutPoint) (txOut : TxOut) (isCoinBase : Bool)
    (blockHeight : Int32) : UtxoCache :=
  if txOutIsUnspendable txOut then s
  else s.putEntry mem outpoint (some (.ofTxOut txOut isCoinBase blockHeight))

def addTxOuts (tx : Tx) (blockHeight : Int32) : UtxoCache :=
  tx.txOut.zipIdx.foldl
    (fun s p => s.addTxOut mem (txOutpoint tx p.2) p.1 tx.isCoinBase blockHeight) s

/-- Spend a cached entry: a fresh one is dropped, any other stays so that the database entry gets
deleted. -/
def spendEntry (op : OutPoint) (entry : UtxoEntry) : UtxoCache :=
  if entry.isFresh then
    { s with
      cachedEntries := s.cachedEntries.delete op
      totalEntryMemory := s.totalEntryMemory - mem.usage (some entry) }
  else
    { s with
      cachedEntries := s.cachedEntries.mutate op entry.spend
      totalEntryMemory := s.totalEntryMemory - mem.usage none }

def addTxIn (txIn : TxIn) (stxos : List SpentTxOut) : Result (UtxoCache × List SpentTxOut) :=
  match s.fetchEntries mem db [txIn.previousOutPoint] with
  | ([some entry], s) =>
    .ok (s.spendEntry mem txIn.previousOutPoint entry, stxos ++ [entry.stxo])
  | _ => .error (.assert ("missing input " ++ toString txIn.previousOutPoint))

def addTxIns : UtxoCache → List TxIn → List SpentTxOut → Result (UtxoCache × List SpentTxOut)
  | s, [], stxos => .ok (s, stxos)
  | s, txIn :: txIns, stxos => do
    let (s, stxos) ← s.addTxIn mem db txIn stxos
    addTxIns s txIns stxos

def connectTransaction (tx : Tx) (blockHeight : Int32) (stxos : List SpentTxOut) :
    Result (UtxoCache × List SpentTxOut) := do
  let (s, stxos) ← s.addTxIns mem db (if tx.isCoinBase then [] else tx.txIn) stxos
  return (s.addTxOuts mem tx blockHeight, stxos)

def connectTxs : UtxoCache → List Tx → Int32 → List SpentTxOut →
    Result (UtxoCache × List SpentTxOut)
  | s, [], _, stxos => .ok (s, stxos)
  | s, tx :: txs, blockHeight, stxos => do
    let (s, stxos) ← s.connectTransaction mem db tx blockHeight stxos
    connectTxs s txs blockHeight stxos

def connectTransactions (block : Block) (stxos : List SpentTxOut) :
    Result (UtxoCache × List SpentTxOut) :=
  s.connectTxs mem db block.transactions block.height stxos

def writeEntry (db : UtxoDb) (outpoint : OutPoint) : Option UtxoEntry → Result UtxoDb
  | none => .ok (db.dbDeleteUtxoEntry outpoint)
  | some entry =>
    if entry.isSpent then .ok (db.dbDeleteUtxoEntry outpoint)
    else if entry.isModified then db.dbPutUtxoEntry outpoint entry
    else .ok db

variable (order : RangeOrder OutPoint)

def writeMap (db : UtxoDb) (m : SizedMap) : Result UtxoDb :=
  (order.list m.entries.keys).foldlM
    (fun db op => writeEntry db op (m.entries.lookup op).join) db

/-- Every entry is deleted from its map when it has been written. -/
def writeCache (s : UtxoCache) (bestHash : Hash) (now : ℤ) :
    Result (UtxoCache × UtxoDb) := do
  let db ← s.cachedEntries.maps.foldlM (writeMap order) db
  let cachedEntries ← MapSlice.deleteMaps
    { s.cachedEntries with maps := s.cachedEntries.maps.map fun m => { m with entries := ∅ } }
  let s' : UtxoCache :=
    { s with
      cachedEntries := cachedEntries
      totalEntryMemory := 0
      lastFlushHash := bestHash
      lastFlushTime := now }
  return (s', db.dbPutUtxoStateConsistency bestHash)

/-- The memory usage at which a flush writes; none when there is nothing to do. -/
def flushThreshold (mode : FlushMode) (bestHash : Hash) (now : ℤ) : Option UInt64 :=
  match mode with
  | .required => some 0
  | .ifNeeded => if bestHash = s.lastFlushHash then none else some s.maxTotalMemoryUsage
  | .periodic =>
    if now - s.lastFlushTime > utxoFlushPeriodicInterval then some 0
    else some s.maxTotalMemoryUsage

def flush (s : UtxoCache) (mode : FlushMode) (bestHash : Hash)
    (now : ℤ) : Result (UtxoCache × UtxoDb) :=
  match s.flushThreshold mode bestHash now with
  | none => .ok (s, db)
  | some threshold =>
    if s.totalMemoryUsage mem ≥ threshold then s.writeCache db order bestHash now
    else .ok (s, db)

end UtxoCache

end HandshakeNode
