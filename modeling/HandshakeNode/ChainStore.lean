import HandshakeNode.BestState
import HandshakeNode.BlockIndex
import HandshakeNode.UtxoCache

/-!
# Connecting and disconnecting blocks

`connectBlock` and `disconnectBlock` write the best state, the spend journal and the UTXO set in
database transactions that are atomic, and change the UTXO cache in memory on the way; opening the
chain rebuilds what was lost in memory. Airdrops, names and optional indexes are there as steps that
may fail. A block is given by its hash, and the index in memory is the one in the database: nodes
are written when they are added.
-/

namespace HandshakeNode

structure BlockData extends BlockTree where
  nameRoot : Hash → Hash
  transactions : Hash → List Tx

def BlockData.block (w : BlockData) (hash : Hash) (height : ℕ) : Block :=
  ⟨hash, w.prevBlock hash, w.nameRoot hash, Int32.ofNat height, w.transactions hash⟩

structure ChainDb where
  bestState : Option Bytes
  /-- The block index; a row stands for a node and gives its ancestors, the parent first. -/
  nodes : GoMap Hash (List Hash)
  blocks : Finset Hash
  spendJournal : GoMap Hash (List SpentTxOut)
  utxo : UtxoDb

structure ChainStore where
  db : ChainDb
  /-- The nodes of the best chain, the tip first. -/
  bestChain : List Hash
  /-- `stateSnapshot.TotalTxns`. -/
  totalTxns : UInt64
  utxoCache : UtxoCache

namespace ChainDb

def branch (db : ChainDb) (node : Hash) : List Hash := node :: (db.nodes.lookup node).getD []

/-- `LookupNode(hash).height`. -/
def nodeHeight (db : ChainDb) (hash : Hash) : Option ℕ := (db.nodes.lookup hash).map List.length

def dbFetchBlockByNode (w : BlockData) (db : ChainDb) (node : Hash) : Result Block :=
  if node ∈ db.blocks then .ok (w.block node (db.branch node).tail.length)
  else .error (.blockNotFound ("block " ++ toString node ++ " does not exist"))

/-- `dbFetchSpendJournalEntry`; without an entry only a block that spends nothing can be read. -/
def dbFetchSpendJournalEntry (db : ChainDb) (block : Block) : Result (List SpentTxOut) := do
  let numStxos ← countSpentOutputs block
  match db.spendJournal.lookup block.hash with
  | some stxos => return stxos
  | none =>
    failIf (numStxos ≠ 0) (.corruption ("corrupt spend information for " ++ toString block.hash ++
      ": mismatched spend journal serialization - no serialization for expected " ++
      toString numStxos ++ " stxos"))
    return []

def dbPutBestState (db : ChainDb) (state : BestChainState) : ChainDb :=
  { db with bestState := some (serializeBestChainState state) }

end ChainDb

def UtxoViewpoint.writeEntry (db : UtxoDb) (outpoint : OutPoint) :
    Option UtxoEntry → Result UtxoDb
  | none => .ok db
  | some entry =>
    if !entry.isModified then .ok db
    else if entry.isSpent then .ok (db.dbDeleteUtxoEntry outpoint)
    else db.dbPutUtxoEntry outpoint entry

def dbPutUtxoView (order : RangeOrder OutPoint) (db : UtxoDb) (view : UtxoViewpoint) :
    Result UtxoDb :=
  (order.list view.entries.keys).foldlM
    (fun db op => UtxoViewpoint.writeEntry db op (view.lookupEntry op)) db

inductive DbStep where
  | warnUnknownRules
  | flushIndex
  | pruneBlocks
  | pruneSpendJournal
  | flushUtxo
  | coinbaseAirdrops
  | putBestState
  | blockIndex
  | putUtxoView
  | names
  | spendJournal
  | indexManager
  | commit
  | flushIfNeeded
  | commitFlush
deriving DecidableEq

structure CallEnv where
  /-- The error a step ends with, if it fails. -/
  fails : DbStep → Option Err
  /-- The number of entries that a flush which fails had written. -/
  written : ℕ
  /-- The hashes that `PruneBlocks` deletes, none when there is no prune target. -/
  deleted : Option (List Hash)
  now : ℤ

/-- The body of a database transaction. It also changes the cache, and when it ends with an error
the cache stays changed. -/
def UpdateM (α : Type) : Type := UtxoCache × ChainDb → Result α × (UtxoCache × ChainDb)

instance : Monad UpdateM where
  pure a := fun σ => (.ok a, σ)
  bind x f := fun σ =>
    match x σ with
    | (.ok a, σ) => f a σ
    | (.error e, σ) => (.error e, σ)

def UpdateM.get : UpdateM (UtxoCache × ChainDb) := fun σ => (.ok σ, σ)

def attempt (env : CallEnv) (step : DbStep) (change : ChainDb → ChainDb) : UpdateM Unit := fun σ =>
  match env.fails step with
  | some e => (.error e, σ)
  | none => (.ok (), (σ.1, change σ.2))

def ChainStore.update (env : CallEnv) (last : DbStep) (body : UpdateM Unit) (s : ChainStore) :
    Result Unit × ChainStore :=
  match body (s.utxoCache, s.db) with
  | (.error e, (cache, _)) => (.error e, { s with utxoCache := cache })
  | (.ok (), (cache, db)) =>
    match env.fails last with
    | some e => (.error e, { s with utxoCache := cache })
    | none => (.ok (), { s with utxoCache := cache, db := db })

section

variable (mem : Memory) (order : RangeOrder OutPoint) (env : CallEnv)

/-- The cache after `writeCache` failed at an entry: those before it have been deleted. -/
def UtxoCache.dropWritten (s : UtxoCache) (written : ℕ) : UtxoCache :=
  { s with
    cachedEntries := ((s.cachedEntries.maps.flatMap fun m => order.list m.entries.keys).take
      written).foldl MapSlice.delete s.cachedEntries }

def flushUtxo (step : DbStep) (mode : FlushMode) (bestHash : Hash) : UpdateM Unit :=
  fun (cache, db) =>
  match env.fails step with
  | some e => (.error e, (cache.dropWritten order env.written, db))
  | none =>
    match cache.flush mem db.utxo order mode bestHash env.now with
    | .error e => (.error e, (cache, db))
    | .ok (cache, utxo) => (.ok (), (cache, { db with utxo := utxo }))

def flushNeededAfterPrune (db : ChainDb) (lastFlushHash : Hash) (deleted : List Hash) : Bool :=
  match db.nodeHeight lastFlushHash with
  | none => true
  | some lastFlushHeight =>
    let highestDeletedHeight := deleted.foldl (fun (highest : ℤ) hash =>
      match db.nodeHeight hash with
      | none => highest
      | some height => if (height : ℤ) > highest then height else highest) (-1)
    highestDeletedHeight ≥ lastFlushHeight

def pruneUpdate (node : Hash) : UpdateM Unit :=
  match env.deleted with
  | none => pure ()
  | some deleted => do
    attempt env .pruneBlocks fun db => { db with blocks := db.blocks \ deleted.toFinset }
    if deleted ≠ [] then
      attempt env .pruneSpendJournal fun db =>
        { db with spendJournal := deleted.foldl (fun journal h => journal.erase h) db.spendJournal }
      let (cache, db) ← UpdateM.get
      if flushNeededAfterPrune db cache.lastFlushHash deleted then
        flushUtxo mem order env .flushUtxo .required node

def connectUpdate (block : Block) (state : BestChainState) (stxos : List SpentTxOut) :
    UpdateM Unit := do
  pruneUpdate mem order env block.hash
  attempt env .coinbaseAirdrops id
  attempt env .putBestState (·.dbPutBestState state)
  attempt env .blockIndex id
  attempt env .spendJournal fun db =>
    { db with spendJournal := db.spendJournal.insert block.hash stxos }
  attempt env .names id
  attempt env .indexManager id

def putUtxoView (view : UtxoViewpoint) : UpdateM Unit := fun (cache, db) =>
  match env.fails .putUtxoView with
  | some e => (.error e, (cache, db))
  | none =>
    match dbPutUtxoView order db.utxo view with
    | .error e => (.error e, (cache, db))
    | .ok utxo => (.ok (), (cache, { db with utxo := utxo }))

/-- The journal entry is read for the optional indexes. -/
def fetchSpendJournal (block : Block) : UpdateM Unit := fun (cache, db) =>
  ((db.dbFetchSpendJournalEntry block).map fun _ => (), (cache, db))

def disconnectUpdate (block : Block) (state : BestChainState) (view : UtxoViewpoint) :
    UpdateM Unit := do
  attempt env .putBestState (·.dbPutBestState state)
  attempt env .blockIndex id
  flushUtxo mem order env .flushUtxo .required state.hash
  putUtxoView order env view
  attempt env .coinbaseAirdrops id
  attempt env .names id
  fetchSpendJournal block
  attempt env .spendJournal fun db =>
    { db with spendJournal := db.spendJournal.erase block.hash }
  attempt env .indexManager id

end

namespace ChainStore

variable (w : BlockData) (mem : Memory) (order : RangeOrder OutPoint) (env : CallEnv)

def newBestState (branch : List Hash) (totalTxns : UInt64) (workSum : ℕ) : BestChainState :=
  ⟨branch.headD default, UInt32.ofNat branch.tail.length, totalTxns, workSum⟩

/-- `db.Update` around `utxoCache.flush`, as `FlushUtxoCache` and the end of `connectBlock` do. -/
def flushUtxoCache (mode : FlushMode) (bestHash : Hash) (s : ChainStore) :
    Result Unit × ChainStore :=
  s.update env .commitFlush (flushUtxo mem order env .flushIfNeeded mode bestHash)

def connectCommit (block : Block) (stxos : List SpentTxOut) (s : ChainStore) :
    Result Unit × ChainStore :=
  let branch := s.db.branch block.hash
  let totalTxns := s.totalTxns + UInt64.ofNat block.transactions.length
  let state := newBestState branch totalTxns (w.workSum branch)
  if s.bestChain.head? ≠ some block.prevBlock then
    (.error (.assert "connectBlock must be called with a block that extends the main chain"), s)
  else
    match countSpentOutputs block with
    | .error e => (.error e, s)
    | .ok numSpent =>
      if stxos.length ≠ numSpent then
        (.error (.assert "connectBlock called with inconsistent spent transaction out information"),
          s)
      else
        match env.fails .warnUnknownRules, env.fails .flushIndex with
        | some e, _ | none, some e => (.error e, s)
        | none, none =>
          match s.update env .commit (connectUpdate mem order env block state stxos) with
          | (.error e, s) => (.error e, s)
          | (.ok (), s) => (.ok (), { s with bestChain := branch, totalTxns := totalTxns })

def connectBlock (block : Block) (stxos : List SpentTxOut) (s : ChainStore) :
    Result Unit × ChainStore :=
  match connectCommit w mem order env block stxos s with
  | (.error e, s) => (.error e, s)
  | (.ok (), s) => s.flushUtxoCache mem order env .ifNeeded block.hash

def disconnectBlock (block : Block) (view : UtxoViewpoint) (s : ChainStore) :
    Result Unit × ChainStore :=
  if s.bestChain.head? ≠ some block.hash then
    (.error (.assert "disconnectBlock must be called with the block at the end of the main chain"),
      s)
  else
    match (s.db.branch block.hash).tail with
    | [] => (.error (.panic "invalid memory address or nil pointer dereference"), s)
    | prev =>
      match s.db.dbFetchBlockByNode w (prev.headD default) with
      | .error e => (.error e, s)
      | .ok _ =>
        match env.fails .flushIndex with
        | some e => (.error e, s)
        | none =>
          let totalTxns := s.totalTxns - UInt64.ofNat block.transactions.length
          -- the work sum is the one of the block that is disconnected
          let state := newBestState prev totalTxns (w.workSum (s.db.branch block.hash))
          match s.update env .commit (disconnectUpdate mem order env block state view) with
          | (.error e, s) => (.error e, s)
          | (.ok (), s) => (.ok (), { s with bestChain := prev, totalTxns := totalTxns })

/-- `createChainState`, on a database that has not been initialized. The outputs of the genesis
block are not put into the UTXO set. -/
def createChainState (max : UInt64) (db : ChainDb) : ChainStore where
  db :=
    { db with
      bestState := some (serializeBestChainState (newBestState [w.genesis]
        (UInt64.ofNat (w.transactions w.genesis).length) (w.workSum [w.genesis])))
      nodes := db.nodes.insert w.genesis []
      blocks := insert w.genesis db.blocks }
  bestChain := [w.genesis]
  totalTxns := UInt64.ofNat (w.transactions w.genesis).length
  utxoCache := newUtxoCache mem max

end ChainStore

end HandshakeNode
