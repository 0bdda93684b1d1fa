import HandshakeNode.NameView
import HandshakeNode.UrkelRoot

/-!
# Connecting and disconnecting names

`connectNames` applies a block to the name database and `disconnectNames` takes it back with the
undo list it left. At every multiple of the tree interval the root of the live states is committed.
A cache keeps that root up to date while blocks come and go.
-/

namespace HandshakeNode

structure NameRootCache where
  rootTree : UrkelRootTree
  rootDirty : Bool

/-- The orders in which the two `range` statements over the dirty names of a view visit them. -/
structure NameOrders where
  put : RangeOrder Hash
  apply : RangeOrder Hash

section

variable (blake2b : Bytes → Hash)

def newNameRootCache (db : NameDb) : Result NameRootCache := do
  let rootTree ← UrkelRootTree.empty.rebuild blake2b db.dbFetchNameLeaves
  return ⟨rootTree, false⟩

namespace NameRootCache

variable (c : NameRootCache)

def put (nameHash : Hash) (serialized : Bytes) : Result NameRootCache :=
  if c.rootDirty then .ok c
  else do
    let rootTree ← c.rootTree.put blake2b nameHash serialized
    return { c with rootTree }

def applyState (view : NameBlockView) (c : NameRootCache) (nameHash : Hash) :
    Result NameRootCache :=
  match view.states.lookup nameHash with
  | none => .ok { c with rootDirty := true }
  | some ns =>
    if ns.isNull then .ok { c with rootDirty := true }
    else do
      let serialized ← ns.encode
      c.put blake2b nameHash serialized

def applyView (view : NameBlockView) (order : RangeOrder Hash) : Result NameRootCache :=
  (order.list view.dirty).foldlM (applyState blake2b view) c

def applyUndoEntry (entry : NameUndoEntry) : Result NameRootCache :=
  if !entry.existed then .ok { c with rootDirty := true }
  else
    match entry.state with
    | none => .error (.panic "nil pointer dereference")
    | some ns => do
      let serialized ← ns.encode
      c.put blake2b entry.nameHash serialized

def applyUndo (entries : List NameUndoEntry) : Result NameRootCache :=
  entries.foldlM (applyUndoEntry blake2b) c

def rebuildRoot (db : NameDb) : Result NameRootCache := do
  let rootTree ← c.rootTree.rebuild blake2b db.dbFetchNameLeaves
  return ⟨rootTree, false⟩

def clean (db : NameDb) : Result NameRootCache :=
  if c.rootDirty then c.rebuildRoot blake2b db else .ok c

def root (db : NameDb) : Result (Hash × NameRootCache) := do
  let c ← c.clean blake2b db
  let root ← c.rootTree.rootHash
  return (root, c)

end NameRootCache

end

structure NameChain where
  db : NameDb
  nameRootCache : Option NameRootCache

def newNameChain : NameChain := ⟨newNameDb, none⟩

/-- `if b.nameRootCache != nil`. -/
def updateCache (update : NameRootCache → Result NameRootCache) :
    Option NameRootCache → Result (Option NameRootCache)
  | none => .ok none
  | some cache => do
    let cache ← update cache
    return some cache

variable (blake2b : Bytes → Hash) (b : NameChain)

def ensureCache : Result NameRootCache :=
  match b.nameRootCache with
  | none => newNameRootCache blake2b b.db
  | some cache => .ok cache

def cachedNameRoot : Result (Hash × NameChain) := do
  let cache ← ensureCache blake2b b
  let (root, cache) ← cache.root blake2b b.db
  return (root, { b with nameRootCache := some cache })

def dbPutCachedNameRoot : Result NameChain := do
  let (root, b) ← cachedNameRoot blake2b b
  return { b with db := b.db.dbPutNameRoot root }

def checkNameRootAgainst (root : Hash) (block : Block) : Result Unit :=
  failIf (block.nameRoot ≠ root) (.rule .badNameRoot
    ("block name root is invalid - block header indicates " ++ toString block.nameRoot ++
      ", but current committed root is " ++ toString root))

def checkNameRoot (db : NameDb) (block : Block) : Result Unit := do
  let root ← db.dbFetchNameRoot
  checkNameRootAgainst root block

/-- `NameTreeInterval != 0 && uint32(node.height)%NameTreeInterval == 0`. -/
def atTreeInterval (params : Params) (height : UInt32) : Bool :=
  params.nameTreeInterval ≠ 0 && height % params.nameTreeInterval = 0

section

variable (ctx : NameContext)

def applyBlockTxs (dbTx : Option NameDb) (env : NameEnv) :
    NameBlockView → List Tx → List SpentTxOut → Result (NameBlockView × List SpentTxOut)
  | view, [], stxos => .ok (view, stxos)
  | view, tx :: txs, stxos => do
    let (prevOutputs, stxos) ← prevOutputsFromStxos tx stxos
    let view ← view.applyTx ctx dbTx env tx prevOutputs
    applyBlockTxs dbTx env view txs stxos

def putDirtyState (view : NameBlockView) (db : NameDb) (nameHash : Hash) : Result NameDb :=
  match view.states.lookup nameHash with
  | none => .error (.panic "nil pointer dereference")
  | some ns => db.dbPutNameState ns

/-- `connectNames` up to the commit of the root; `env` has the height of the block and what its
parent says. -/
def connectNameStates (orders : NameOrders) (env : NameEnv) (block : Block)
    (stxos : List SpentTxOut) (b : NameChain) : Result NameChain := do
  checkNameRoot b.db block
  let (view, rest) ← applyBlockTxs ctx (some b.db) env newLazyNameBlockView block.transactions stxos
  failIf (rest.length ≠ 0) (.assert "unused spent txouts during name validation")
  let db ← (orders.put.list view.dirty).foldlM (putDirtyState view) b.db
  let db ← db.dbPutNameUndo block.hash view.undo
  let nameRootCache ← updateCache (·.applyView ctx.blake2b view orders.apply) b.nameRootCache
  return ⟨db, nameRootCache⟩

def connectNames (orders : NameOrders) (env : NameEnv) (block : Block) (stxos : List SpentTxOut)
    (b : NameChain) : Result NameChain := do
  let b ← connectNameStates ctx orders env block stxos b
  if atTreeInterval ctx.params env.height then dbPutCachedNameRoot ctx.blake2b b else .ok b

def restoreNameState (db : NameDb) (entry : NameUndoEntry) : Result NameDb :=
  if entry.existed then
    match entry.state with
    | none => .error (.panic "nil pointer dereference")
    | some ns => db.dbPutNameState ns
  else .ok (db.deleteNameState entry.nameHash)

def restoreNameRoot (block : Block) (b : NameChain) : Result NameChain := do
  let (root, b) ← cachedNameRoot ctx.blake2b b
  failIf (root ≠ block.nameRoot) (.assert ("name root after disconnect is " ++ toString root ++
    ", want " ++ toString block.nameRoot))
  return { b with db := b.db.dbPutNameRoot block.nameRoot }

/-- `disconnectNames` before it compares the roots. -/
def disconnectNameStates (block : Block) (b : NameChain) : Result NameChain := do
  let undo ← b.db.dbFetchNameUndo block.hash
  let db ← undo.foldlM restoreNameState b.db
  let db := db.dbRemoveNameUndo block.hash
  let nameRootCache ← updateCache (·.applyUndo ctx.blake2b undo) b.nameRootCache
  return ⟨db, nameRootCache⟩

def disconnectNames (height : UInt32) (block : Block) (b : NameChain) : Result NameChain := do
  let b ← disconnectNameStates ctx block b
  if atTreeInterval ctx.params height then restoreNameRoot ctx block b else .ok b

end

end HandshakeNode
