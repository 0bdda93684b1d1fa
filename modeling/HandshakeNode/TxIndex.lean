import HandshakeNode.MsgBlock

/-!
# The transaction index

The index numbers the blocks of the main chain in the order in which they are connected. The last
number is kept in memory and changed inside a database transaction that may still be rolled back;
after a restart `Init` searches the stored numbers for it.
-/

namespace HandshakeNode

structure TxIndexEntry where
  blockID : UInt32
  offset : UInt32
  len : UInt32
deriving DecidableEq

/-- The buckets `idByHashIndexBucketName`, `hashByIDIndexBucketName` and `txIndexKey`. -/
structure TxIndexDb where
  idByHash : GoMap Hash UInt32
  hashByID : GoMap UInt32 Hash
  txs : GoMap Hash TxIndexEntry
deriving DecidableEq

/-- A block with the hashes of its transactions and what `TxLoc` returns for it. -/
structure IndexedBlock where
  hash : Hash
  txs : List Hash
  txLocs : Result (List TxLoc)
deriving DecidableEq

/-- The writes to the buckets in one call, those of the transactions by their position. -/
inductive IndexWrite
  | tx (i : ℕ)
  | idByHash
  | hashByID

/-- The error with which the database refuses a write, if it does. -/
abbrev WriteFaults := IndexWrite → Option Err

def WriteFaults.check (faults : WriteFaults) (write : IndexWrite) : Result Unit :=
  match faults write with
  | some e => .error e
  | none => .ok ()

namespace TxIndexDb

variable (faults : WriteFaults) (db : TxIndexDb)

def dbPutBlockIDIndexEntry (hash : Hash) (id : UInt32) :
    Result TxIndexDb := do
  faults.check .idByHash
  faults.check .hashByID
  pure { db with
    idByHash := db.idByHash.insert hash id
    hashByID := db.hashByID.insert id hash }

def dbRemoveBlockIDIndexEntry (hash : Hash) : Result TxIndexDb :=
  match db.idByHash.lookup hash with
  | none => pure db
  | some id => do
    faults.check .idByHash
    faults.check .hashByID
    pure { db with idByHash := db.idByHash.erase hash, hashByID := db.hashByID.erase id }

/-- The loop of `dbAddTxIndexEntries` over the transactions from position `i` on. -/
def addTxIndexEntries (faults : WriteFaults) (blockID : UInt32) :
    ℕ → List Hash → List TxLoc → TxIndexDb → Result TxIndexDb
  | _, [], _, db => pure db
  | _, _ :: _, [], _ => .error (.panic "index out of range")
  | i, txHash :: txs, loc :: txLocs, db => do
    faults.check (.tx i)
    let entry := ⟨blockID, .ofNat loc.txStart, .ofNat loc.txLen⟩
    addTxIndexEntries faults blockID (i + 1) txs txLocs
      { db with txs := db.txs.insert txHash entry }

def dbAddTxIndexEntries (block : IndexedBlock)
    (blockID : UInt32) : Result TxIndexDb := do
  let txLocs ← block.txLocs
  addTxIndexEntries faults blockID 0 block.txs txLocs db

/-- The loop of `dbRemoveTxIndexEntries`. -/
def removeTxIndexEntries (faults : WriteFaults) : ℕ → List Hash → TxIndexDb → Result TxIndexDb
  | _, [], db => pure db
  | i, txHash :: txs, db => do
    failIf (txHash ∉ db.txs) (.plain ("can't remove non-existent transaction " ++
      toString txHash ++ " from the transaction index"))
    faults.check (.tx i)
    removeTxIndexEntries faults (i + 1) txs { db with txs := db.txs.erase txHash }

end TxIndexDb

structure TxIndex where
  curBlockID : UInt32
deriving DecidableEq

namespace TxIndex

open TxIndexDb

/-- What becomes of the buckets in the transaction, and the index in memory. -/
def connectBlock (faults : WriteFaults) (db : TxIndexDb) (block : IndexedBlock) (idx : TxIndex) :
    Result TxIndexDb × TxIndex :=
  let newBlockID := idx.curBlockID + 1
  match do
    let db ← dbAddTxIndexEntries faults db block newBlockID
    db.dbPutBlockIDIndexEntry faults block.hash newBlockID
  with
  | .error e => (.error e, idx)
  | .ok db => (.ok db, ⟨newBlockID⟩)

def disconnectBlock (faults : WriteFaults) (db : TxIndexDb) (block : IndexedBlock) (idx : TxIndex) :
    Result TxIndexDb × TxIndex :=
  match do
    let db ← removeTxIndexEntries faults 0 block.txs db
    db.dbRemoveBlockIDIndexEntry faults block.hash
  with
  | .error e => (.error e, idx)
  | .ok db => (.ok db, ⟨idx.curBlockID - 1⟩)

/-- The first loop of `Init`: the highest number found, and one that is not there. Numbers repeat
after `2 ^ 32` rounds, so that without a result there is none. -/
def forwardScan (db : TxIndexDb) : ℕ → UInt32 → UInt32 → Option (UInt32 × UInt32)
  | 0, _, _ => none
  | fuel + 1, highestKnown, testBlockID =>
    if testBlockID ∈ db.hashByID then forwardScan db fuel testBlockID (testBlockID + 100000)
    else some (highestKnown, testBlockID)

/-- The second loop of `Init`. -/
def binaryScan (db : TxIndexDb) : ℕ → UInt32 → UInt32 → Option UInt32
  | 0, _, _ => none
  | fuel + 1, highestKnown, nextUnknown =>
    let testBlockID := (highestKnown + nextUnknown) / 2
    let (highestKnown, nextUnknown) :=
      if testBlockID ∈ db.hashByID then (testBlockID, nextUnknown) else (highestKnown, testBlockID)
    if highestKnown + 1 = nextUnknown then some highestKnown
    else binaryScan db fuel highestKnown nextUnknown

/-- `Init` of a new index; none if it does not return. -/
def init (db : TxIndexDb) : Option TxIndex := do
  let (highestKnown, nextUnknown) ← forwardScan db (2 ^ 32) 0 1
  if nextUnknown = 1 then pure ⟨0⟩
  else pure ⟨← binaryScan db (2 ^ 32) highestKnown nextUnknown⟩

end TxIndex

/-- The committed buckets, the index in memory and the blocks that are indexed, the tip first.
`rolledBack` says that a transaction was rolled back after the call in it had returned no error and
that there was no restart since. -/
structure IndexState where
  idx : TxIndex
  db : TxIndexDb
  chain : List IndexedBlock
  rolledBack : Bool
deriving DecidableEq

/-- A call in a transaction, which `commits` unless the call fails or something else does, or a
restart. -/
inductive IndexAction
  | connectBlock (faults : WriteFaults) (block : IndexedBlock) (commits : Bool)
  | disconnectBlock (faults : WriteFaults) (block : IndexedBlock) (commits : Bool)
  | restart

namespace IndexState

def initial : IndexState := ⟨⟨0⟩, ⟨∅, ∅, ∅⟩, [], false⟩

def finish (s : IndexState) (chain : List IndexedBlock) (commits : Bool)
    (r : Result TxIndexDb × TxIndex) : IndexState :=
  match r with
  | (.error _, idx) => { s with idx := idx }
  | (.ok db, idx) => if commits then ⟨idx, db, chain, s.rolledBack⟩
    else { s with idx := idx, rolledBack := true }

def connectBlock (faults : WriteFaults) (block : IndexedBlock) (commits : Bool) (s : IndexState) :
    IndexState :=
  s.finish (block :: s.chain) commits (s.idx.connectBlock faults s.db block)

def disconnectBlock (faults : WriteFaults) (block : IndexedBlock) (commits : Bool)
    (s : IndexState) : IndexState :=
  s.finish s.chain.tail commits (s.idx.disconnectBlock faults s.db block)

end IndexState

/-- A block that is connected is not in the chain, and the one that is disconnected is its tip. -/
inductive IndexRun (allowed : IndexState → IndexAction → Prop) : IndexState → Prop
  | start : IndexRun allowed .initial
  | connect {s} (faults : WriteFaults) (block : IndexedBlock) (commits : Bool)
      (run : IndexRun allowed s)
      (new : block.hash ∉ s.chain.map IndexedBlock.hash)
      (call : allowed s (.connectBlock faults block commits)) :
      IndexRun allowed (s.connectBlock faults block commits)
  | disconnect {s faults block commits} (run : IndexRun allowed s)
      (tip : s.chain.head? = some block)
      (call : allowed s (.disconnectBlock faults block commits)) :
      IndexRun allowed (s.disconnectBlock faults block commits)
  | restart {s} (idx : TxIndex) (run : IndexRun allowed s) (init : TxIndex.init s.db = some idx)
      (call : allowed s .restart) : IndexRun allowed { s with idx := idx, rolledBack := false }

end HandshakeNode
