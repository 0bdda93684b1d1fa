import HandshakeNode.NameCovenant
import HandshakeNode.NameDb
import HandshakeNode.Utxo

/-!
# Views of name states

`nameBlockView`, through which the transactions of a block are applied to the name states. A view
that was made from a map of states knows them all; a lazy view reads a state from the database when
it is first asked for.
-/

namespace HandshakeNode

/-- `nameBlockView`. The view is lazy when there is a set of loaded names. -/
structure NameBlockView where
  states : GoMap Hash NameState
  loaded : Option (Finset Hash)
  dirty : Finset Hash
  undo : List NameUndoEntry
  seen : Finset Hash

def newNameBlockViewFromStates (states : GoMap Hash NameState) : NameBlockView where
  states := states
  loaded := none
  dirty := ∅
  undo := []
  seen := ∅

def newLazyNameBlockView : NameBlockView where
  states := ∅
  loaded := some ∅
  dirty := ∅
  undo := []
  seen := ∅

namespace NameBlockView

variable (view : NameBlockView)

/-- The state of a name that is not in the view, and the loaded names after reading it. -/
def fetch (dbTx : Option NameDb) (nameHash : Hash) : Result (NameState × Option (Finset Hash)) :=
  match view.loaded, dbTx with
  | none, _ => .ok (newNameState nameHash, none)
  | some _, none => .error (.assert "lazy name block view requires a database transaction")
  | some loaded, some db => do
    let ns ← db.dbFetchNameState nameHash
    return (ns.getD (newNameState nameHash), some (insert nameHash loaded))

def get (dbTx : Option NameDb) (nameHash : Hash) : Result (NameState × NameBlockView) :=
  match view.states.lookup nameHash with
  | some ns => .ok (ns, view)
  | none => do
    let (ns, loaded) ← view.fetch dbTx nameHash
    return (ns, { view with states := view.states.insert nameHash ns, loaded })

def recordChange (before after : NameState) : NameBlockView :=
  if nameStatesEqual before after then view
  else
    let nameHash := after.nameHash
    let view :=
      if nameHash ∈ view.seen then view
      else { view with
        undo := view.undo ++ [⟨nameHash, !before.isNull, some before⟩]
        seen := insert nameHash view.seen }
    { view with dirty := insert nameHash view.dirty }

def setState (nameHash : Hash) (ns : NameState) : NameBlockView :=
  { view with states := view.states.insert nameHash ns }

variable (ctx : NameContext)

def applyCovenantOutput (dbTx : Option NameDb) (env : NameEnv) (view : NameBlockView)
    (out : CovenantOutput) : Result NameBlockView :=
  match covenantHash out.covenant 0 with
  | none => .error (badCovenant "missing covenant name hash")
  | some nameHash => do
    let (before, view) ← view.get dbTx nameHash
    let after ← applyCovenant ctx env nameHash out before
    return (view.setState nameHash after).recordChange before after

end NameBlockView

def Tx.covenantOutputs (tx : Tx) (prevOutputs : List NamePrevOutput) : List CovenantOutput :=
  (tx.txOut.zipIdx.filter fun p => isNameCovenant p.1.covenant.type).map fun p =>
    ⟨tx, p.2, p.1, prevOutputs⟩

namespace NameBlockView

variable (ctx : NameContext)

def applyTx (dbTx : Option NameDb) (env : NameEnv) (view : NameBlockView) (tx : Tx)
    (prevOutputs : List NamePrevOutput) : Result NameBlockView := do
  checkSpends ctx tx prevOutputs
  (tx.covenantOutputs prevOutputs).foldlM (applyCovenantOutput ctx dbTx env) view

end NameBlockView

def prevOutputFromStxo (txIn : TxIn) (stxo : SpentTxOut) : NamePrevOutput where
  outpoint := txIn.previousOutPoint
  amount := stxo.amount
  address := stxo.address
  covenant := stxo.covenant

/-- The loop of `prevOutputsFromStxos`; the stxos that are left over are for the transactions that
follow. -/
def readStxos : List TxIn → List SpentTxOut → Result (List NamePrevOutput × List SpentTxOut)
  | [], stxos => .ok ([], stxos)
  | _ :: _, [] => .error (.assert "missing spent txout for name validation")
  | txIn :: txIns, stxo :: stxos => do
    let (prevOutputs, stxos) ← readStxos txIns stxos
    return (prevOutputFromStxo txIn stxo :: prevOutputs, stxos)

def prevOutputsFromStxos (tx : Tx) (stxos : List SpentTxOut) :
    Result (List NamePrevOutput × List SpentTxOut) :=
  if tx.isCoinBase then .ok ([], stxos) else readStxos tx.txIn stxos

def prevOutputFromView (tx : Tx) (view : UtxoViewpoint) (p : TxIn × ℕ) : Result NamePrevOutput :=
  match view.lookupEntry p.1.previousOutPoint with
  | none => .error (missing p)
  | some entry =>
    if entry.isSpent then .error (missing p)
    else .ok ⟨p.1.previousOutPoint, entry.amount, entry.address, entry.covenant⟩
where
  missing (p : TxIn × ℕ) : Err :=
    .rule .missingTxOut ("output " ++ toString p.1.previousOutPoint ++
      " referenced from transaction " ++ toString tx.hash ++ ":" ++ toString p.2 ++
      " either does not exist or has already been spent")

def prevOutputsFromView (tx : Tx) (view : UtxoViewpoint) : Result (List NamePrevOutput) :=
  if tx.isCoinBase then .ok [] else tx.txIn.zipIdx.mapM (prevOutputFromView tx view)

end HandshakeNode
