import HandshakeNode.ChainStore

/-!
# Opening a chain

`initChainState` reads the best state and the block index, and `InitConsistentState` brings the UTXO
set up to it by connecting the blocks since the last flush again. The machine at the end takes one
database transaction a step, so that a crash may come between any two of them.
-/

namespace HandshakeNode

namespace UtxoViewpoint

def txInFlight (transactions : List Tx) (hash : Hash) : Option ℕ :=
  (transactions.zipIdx.reverse.find? fun p => p.1.hash = hash).map Prod.snd

/-- What `findInputsToFetch` does with an input of the transaction behind position `i`: the outputs
of a transaction that comes before it in the block are added to the view, another input that the
view does not have is to be fetched. -/
def findInput (block : Block) (i : ℕ) (p : UtxoViewpoint × List OutPoint) (txIn : TxIn) :
    UtxoViewpoint × List OutPoint :=
  let inFlight := txInFlight block.transactions txIn.previousOutPoint.hash
  let originTx := inFlight.bind fun inFlightIndex =>
    if i ≥ inFlightIndex then block.transactions[inFlightIndex]? else none
  match originTx with
  | some originTx => (p.1.addTxOuts originTx block.height, p.2)
  | none =>
    if txIn.previousOutPoint ∈ p.1.entries then p else (p.1, p.2 ++ [txIn.previousOutPoint])

def findInputsToFetch (view : UtxoViewpoint) (block : Block) : UtxoViewpoint × List OutPoint :=
  block.transactions.tail.zipIdx.foldl (fun p tx => tx.1.txIn.foldl (findInput block tx.2) p)
    (view, [])

/-- `fetchInputUtxos`; entries that are missing become nil entries of the view. -/
def fetchInputUtxos (mem : Memory) (cache : UtxoCache) (db : UtxoDb) (view : UtxoViewpoint)
    (block : Block) : UtxoViewpoint × UtxoCache :=
  let (view, needed) := view.findInputsToFetch block
  let (entries, cache) := cache.fetchEntries mem db needed
  ((needed.zip entries).foldl (fun view p => { view with entries := view.entries.insert p.1 p.2 })
    view, cache)

/-- What `commit` makes of an entry: the flag of a modification is flipped, not cleared. -/
def commitEntry : Option UtxoEntry → Option UtxoEntry
  | none => none
  | some entry =>
    if entry.isModified && entry.isSpent then none
    else some { entry with packedFlags :=
      { entry.packedFlags with modified := !entry.packedFlags.modified } }

def commit (order : RangeOrder OutPoint) (view : UtxoViewpoint) : UtxoViewpoint :=
  { view with
    entries := (order.list view.entries.keys).foldl
      (fun entries op => match commitEntry (view.lookupEntry op) with
        | none => entries.erase op
        | some entry => entries.insert op (some entry)) view.entries }

end UtxoViewpoint

namespace ChainStore

variable (w : BlockData) (mem : Memory) (order : RangeOrder OutPoint) (max : UInt64)

def initChainState (db : ChainDb) : Result ChainStore :=
  match db.bestState with
  | none => .ok (createChainState w mem max db)
  | some serializedData => do
    let state ← deserializeBestChainState serializedData
    match db.nodes.lookup state.hash with
    | none => .error (.assert ("initChainState: cannot find chain tip " ++ toString state.hash ++
        " in block index"))
    | some ancestors =>
      let _ ← db.dbFetchBlockByNode w state.hash
      return ⟨db, state.hash :: ancestors, state.totalTxns, newUtxoCache mem max⟩

def flushedAt (s : ChainStore) (hash : Hash) (now : ℤ) : ChainStore :=
  { s with utxoCache := { s.utxoCache with lastFlushHash := hash, lastFlushTime := now } }

variable (now : ℤ) (s : ChainStore)

/-- `InitConsistentState` up to its loop: the blocks to connect again, none if the UTXO set is
consistent with the tip. -/
def startReplay : Result (ChainStore × Option (List Hash)) :=
  let tip := s.bestChain.headD default
  match s.db.utxo.consistency with
  | none =>
    let s := { s with db := { s.db with utxo := s.db.utxo.dbPutUtxoStateConsistency tip } }
    .ok (s.flushedAt tip now, none)
  | some statusHash =>
    if statusHash = tip then .ok (s.flushedAt tip now, none)
    else if statusHash ∉ s.db.nodes then
      .error (.panic "invalid memory address or nil pointer dereference")
    else
      match ChainState.findFork s.bestChain (s.db.branch statusHash) with
      | none => .error (.assert
          ("last utxo consistency status contains hash that is not in best chain: " ++
            toString statusHash))
      | some fork => .ok (s, some (ChainState.above (some fork) s.bestChain).reverse)

def replayBlock (node : Hash) : Result ChainStore := do
  let block ← s.db.dbFetchBlockByNode w node
  let (cache, _) ← s.utxoCache.connectTransactions mem s.db.utxo block []
  let (cache, utxo) ← cache.flush mem s.db.utxo order .ifNeeded node now
  return { s with utxoCache := cache, db := { s.db with utxo := utxo } }

def initConsistentState : Result ChainStore := do
  let (s, attachNodes) ← startReplay now s
  match attachNodes with
  | none => return s
  | some attachNodes =>
    let s ← attachNodes.foldlM (replayBlock w mem order now) s
    return s.flushedAt (s.bestChain.headD default) now

def reopen (db : ChainDb) : Result ChainStore := do
  let s ← initChainState w mem max db
  initConsistentState w mem order now s

def attachBlock (env : CallEnv) (node : Hash) (s : ChainStore) : Result ChainStore := do
  let block := w.block node (s.db.branch node).tail.length
  let (cache, stxos) ← s.utxoCache.connectTransactions mem s.db.utxo block []
  match connectCommit w mem order env block stxos { s with utxoCache := cache } with
  | (.error e, _) => .error e
  | (.ok (), s) => .ok s

/-- The tip is detached with a view; `byHash` is `dbFetchUtxoEntryByHash`. -/
def detachBlock (byHash : UtxoDb → Hash → Result (Option UtxoEntry)) (env : CallEnv)
    (view : UtxoViewpoint) (s : ChainStore) : Result (ChainStore × UtxoViewpoint) := do
  let block ← s.db.dbFetchBlockByNode w (s.bestChain.headD default)
  let stxos ← s.db.dbFetchSpendJournalEntry block
  let (view, cache) := view.fetchInputUtxos mem s.utxoCache s.db.utxo block
  let view ← view.disconnectTransactions (byHash s.db.utxo) block stxos
  match disconnectBlock w mem order env block view { s with utxoCache := cache } with
  | (.error e, _) => .error e
  | (.ok (), s) => .ok (s, view.commit order)

end ChainStore

/-- What the node is doing: nothing, with its memory lost; opening, before `InitConsistentState` and
in its loop; or running, with the view that the last disconnect left. -/
inductive Phase where
  | closed
  | opened
  | replaying (pending : List Hash)
  | running (view : UtxoViewpoint)

structure ChainMachine where
  store : ChainStore
  phase : Phase

/-- A step commits one database transaction at most. -/
inductive ChainAction where
  | crash
  | openDb
  | start (now : ℤ)
  | replay (now : ℤ)
  | finish (now : ℤ)
  | storeBlock (hash : Hash)
  | addNode (hash : Hash)
  | connect (hash : Hash) (env : CallEnv)
  | flush (mode : FlushMode) (env : CallEnv)
  | disconnect (newView : Bool) (env : CallEnv)

namespace ChainMachine

open ChainStore

variable (w : BlockData) (mem : Memory) (order : RangeOrder OutPoint) (max : UInt64)
  (byHash : UtxoDb → Hash → Result (Option UtxoEntry))

def newView (s : ChainStore) : UtxoViewpoint := ⟨∅, s.bestChain.headD default⟩

def blank : ChainMachine where
  store := ⟨⟨none, ∅, ∅, ∅, ⟨∅, none⟩⟩, [], 0, newUtxoCache mem max⟩
  phase := .closed

def step (c : ChainMachine) : ChainAction → Option ChainMachine
  | .crash => some { c with phase := .closed }
  | .openDb =>
    match c.phase with
    | .closed => (initChainState w mem max c.store.db).toOption.map fun s => ⟨s, .opened⟩
    | _ => none
  | .start now =>
    match c.phase with
    | .opened => (startReplay now c.store).toOption.map fun (s, attachNodes) =>
        ⟨s, match attachNodes with
          | none => .running (newView s)
          | some attachNodes => .replaying attachNodes⟩
    | _ => none
  | .replay now =>
    match c.phase with
    | .replaying (node :: pending) =>
      (replayBlock w mem order now c.store node).toOption.map fun s => ⟨s, .replaying pending⟩
    | _ => none
  | .finish now =>
    match c.phase with
    | .replaying [] =>
      let s := c.store.flushedAt (c.store.bestChain.headD default) now
      some ⟨s, .running (newView s)⟩
    | _ => none
  | .storeBlock hash =>
    match c.phase with
    | .running _ => some { c with store :=
        { c.store with db := { c.store.db with blocks := insert hash c.store.db.blocks } } }
    | _ => none
  | .addNode hash =>
    match c.phase, c.store.db.nodes.lookup (w.prevBlock hash) with
    | .running _, some ancestors =>
      if hash ∈ c.store.db.nodes then none
      else some { c with store :=
        { c.store with
          db :=
            { c.store.db with
              nodes := c.store.db.nodes.insert hash (w.prevBlock hash :: ancestors) } } }
    | _, _ => none
  | .connect hash env =>
    match c.phase with
    | .running _ => (attachBlock w mem order env hash c.store).toOption.map fun s =>
        ⟨s, .running (newView s)⟩
    | _ => none
  | .flush mode env =>
    match c.phase with
    | .running view =>
      match c.store.flushUtxoCache mem order env mode (c.store.bestChain.headD default) with
      | (.ok (), s) => some ⟨s, .running view⟩
      | (.error _, _) => none
    | _ => none
  | .disconnect new env =>
    match c.phase with
    | .running view =>
      (detachBlock w mem order byHash env (if new then newView c.store else view)
        c.store).toOption.map fun (s, view) => ⟨s, .running view⟩
    | _ => none

def run (c : ChainMachine) : List ChainAction → Option ChainMachine
  | [] => some c
  | a :: as => (c.step w mem order max byHash a).bind fun c => run c as

end ChainMachine

end HandshakeNode
