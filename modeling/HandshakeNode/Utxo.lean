import HandshakeNode.Lib.Ledger
import HandshakeNode.Wire

/-!
# Unspent outputs and views of them

The entries of the UTXO set and `UtxoViewpoint`, the view through which blocks are connected and
disconnected. The bit mask of an entry's flags is a record of the four flags. Views, the cache and
the database stand for a map from outpoints to the outputs that are unspent, and connecting a
transaction is one step of a ledger.
-/

namespace HandshakeNode

open LittleEndian

def opReturn : UInt8 := 0x6a

def maxScriptSize : ℕ := 10000

def maxPubKeysPerMultiSig : ℕ := 20

/-- The bytes that an `OP_PUSHDATA` with a length of `k` bytes takes, none when the length itself is
cut off. -/
def pushDataSize (k : ℕ) (script : Bytes) : Option ℕ :=
  if script.length < k then none else some (k + leNat (script.take k))

def opcodeDataSize (op : UInt8) (script : Bytes) : Option ℕ :=
  if 1 ≤ op ∧ op ≤ 75 then some op.toNat
  else if op = 76 then pushDataSize 1 script
  else if op = 77 then pushDataSize 2 script
  else if op = 78 then pushDataSize 4 script
  else some 0

/-- The tokenizer's loop; each round takes a byte at least, so the length bounds the rounds. -/
def scriptParses : ℕ → Bytes → Bool
  | _, [] => true
  | 0, _ :: _ => false
  | fuel + 1, op :: script =>
    match opcodeDataSize op script with
    | none => false
    | some size => size ≤ script.length && scriptParses fuel (script.drop size)

/-- `checkScriptParses` returns no error. -/
def checkScriptParses (script : Bytes) : Bool := scriptParses script.length script

def isUnspendableScript (pkScript : Bytes) : Bool :=
  pkScript.head? = some opReturn || pkScript.length > maxScriptSize || !checkScriptParses pkScript

def txOutPkScript (txOut : TxOut) : Bytes :=
  if txOut.address.isNulldata then
    opReturn :: (if txOut.address.hash = [] then []
      else UInt8.ofNat txOut.address.hash.length :: txOut.address.hash)
  else txOut.address.witnessProgram

def txOutIsUnspendable (txOut : TxOut) : Bool :=
  txOut.address.isUnspendable || txOut.covenant.isUnspendable ||
    isUnspendableScript (txOutPkScript txOut)

/-- `SpentTxOut`: an output with the height and the kind of the transaction that made it. -/
structure SpentTxOut where
  amount : Int64
  address : Address
  covenant : Covenant
  pkScript : Bytes
  height : Int32
  isCoinBase : Bool
deriving DecidableEq

/-- The flags `tfCoinBase`, `tfSpent`, `tfModified` and `tfFresh`. -/
structure TxoFlags where
  coinBase : Bool := false
  spent : Bool := false
  modified : Bool := false
  fresh : Bool := false
deriving DecidableEq

structure UtxoEntry where
  amount : Int64
  address : Address
  covenant : Covenant
  pkScript : Bytes
  blockHeight : Int32
  packedFlags : TxoFlags
deriving DecidableEq

namespace UtxoEntry

variable (entry : UtxoEntry)

def isModified : Bool := entry.packedFlags.modified

def isFresh : Bool := entry.packedFlags.fresh

def isCoinBase : Bool := entry.packedFlags.coinBase

def isSpent : Bool := entry.packedFlags.spent

def spend : UtxoEntry :=
  if entry.isSpent then entry
  else { entry with packedFlags := { entry.packedFlags with spent := true, modified := true } }

/-- `PkScript`, which falls back to the witness program of the address. -/
def pkScriptOf : Bytes :=
  if entry.pkScript.length = 0 ∧ entry.address.hash.length > 0 then entry.address.witnessProgram
  else entry.pkScript

def stxo : SpentTxOut where
  amount := entry.amount
  address := entry.address
  covenant := entry.covenant
  pkScript := entry.pkScriptOf
  height := entry.blockHeight
  isCoinBase := entry.isCoinBase

def ofTxOut (txOut : TxOut) (isCoinBase : Bool) (blockHeight : Int32) : UtxoEntry where
  amount := txOut.value
  address := txOut.address
  covenant := txOut.covenant
  pkScript := txOutPkScript txOut
  blockHeight := blockHeight
  packedFlags := { coinBase := isCoinBase, modified := true, fresh := true }

end UtxoEntry

/-- `UtxoViewpoint`. An entry that is there and nil stands for an output known not to exist. -/
structure UtxoViewpoint where
  entries : GoMap OutPoint (Option UtxoEntry)
  bestHash : Hash

namespace UtxoViewpoint

variable (view : UtxoViewpoint) (outpoint : OutPoint)

def lookupEntry : Option UtxoEntry :=
  (view.entries.lookup outpoint).join

/-- `view.entries[outpoint] = entry`. -/
def setEntry (entry : UtxoEntry) : UtxoViewpoint :=
  { view with entries := view.entries.insert outpoint (some entry) }

/-- Every field of an entry that is there is replaced, so it is as if the entry were new. -/
def addTxOut (txOut : TxOut) (isCoinBase : Bool) (blockHeight : Int32) : UtxoViewpoint :=
  if txOutIsUnspendable txOut then view
  else view.setEntry outpoint (.ofTxOut txOut isCoinBase blockHeight)

def addTxOuts (tx : Tx) (blockHeight : Int32) : UtxoViewpoint :=
  tx.txOut.zipIdx.foldl
    (fun view p => view.addTxOut (txOutpoint tx p.2) p.1 tx.isCoinBase blockHeight) view

def spendTxIns : UtxoViewpoint → List TxIn → List SpentTxOut →
    Result (UtxoViewpoint × List SpentTxOut)
  | view, [], stxos => .ok (view, stxos)
  | view, txIn :: txIns, stxos =>
    match view.lookupEntry txIn.previousOutPoint with
    | none => .error (.assert ("view missing input " ++ toString txIn.previousOutPoint))
    | some entry =>
      spendTxIns (view.setEntry txIn.previousOutPoint entry.spend) txIns (stxos ++ [entry.stxo])

def connectTransaction (tx : Tx) (blockHeight : Int32)
    (stxos : List SpentTxOut) : Result (UtxoViewpoint × List SpentTxOut) :=
  if tx.isCoinBase then .ok (view.addTxOuts tx blockHeight, stxos)
  else do
    let (view, stxos) ← view.spendTxIns tx.txIn stxos
    return (view.addTxOuts tx blockHeight, stxos)

def connectTxs : UtxoViewpoint → List Tx → Int32 → List SpentTxOut →
    Result (UtxoViewpoint × List SpentTxOut)
  | view, [], _, stxos => .ok (view, stxos)
  | view, tx :: txs, blockHeight, stxos => do
    let (view, stxos) ← view.connectTransaction tx blockHeight stxos
    connectTxs view txs blockHeight stxos

def connectTransactions (block : Block) (stxos : List SpentTxOut) :
    Result (UtxoViewpoint × List SpentTxOut) := do
  let (view, stxos) ← view.connectTxs block.transactions block.height stxos
  return ({ view with bestHash := block.hash }, stxos)

def maxOutputsPerBlock : ℕ := 4000000 / (4 * 12)

/-- `fetchEntryByHash`; `db` is `dbFetchUtxoEntryByHash` on the database. -/
def fetchEntryByHash (db : Hash → Result (Option UtxoEntry)) (view : UtxoViewpoint) (hash : Hash) :
    Result (Option UtxoEntry) :=
  match (List.range maxOutputsPerBlock).findSome? fun idx =>
      view.lookupEntry ⟨hash, UInt32.ofNat idx⟩ with
  | some entry => .ok (some entry)
  | none => db hash

/-- Mark the outputs of a transaction as spent, making the entries that are missing. -/
def disconnectTxOuts (tx : Tx) (isCoinBase : Bool) (blockHeight : Int32) : UtxoViewpoint :=
  tx.txOut.zipIdx.foldl
    (fun view p =>
      if txOutIsUnspendable p.1 then view
      else
        let entry := (view.lookupEntry (txOutpoint tx p.2)).getD
          { amount := p.1.value
            address := p.1.address
            covenant := p.1.covenant
            pkScript := txOutPkScript p.1
            blockHeight := blockHeight
            packedFlags := { coinBase := isCoinBase } }
        view.setEntry (txOutpoint tx p.2) entry.spend) view

/-- A journal entry of the legacy format lacks the height and the coinbase flag; they are taken
from any output of the transaction. -/
def legacyStxo (db : Hash → Result (Option UtxoEntry)) (view : UtxoViewpoint) (txHash : Hash)
    (originOut : OutPoint) (stxo : SpentTxOut) : Result SpentTxOut :=
  if stxo.height = 0 then do
    match ← fetchEntryByHash db view txHash with
    | none => .error (.assert ("unable to resurrect legacy stxo " ++ toString originOut))
    | some utxo =>
      return { stxo with height := utxo.blockHeight, isCoinBase := utxo.isCoinBase }
  else .ok stxo

def restoredEntry (stxo : SpentTxOut) : UtxoEntry where
  amount := stxo.amount
  address := stxo.address
  covenant := stxo.covenant
  pkScript := stxo.pkScript
  blockHeight := stxo.height
  packedFlags := { coinBase := stxo.isCoinBase, modified := true }

/-- `view.entries[outpoint] = new(UtxoEntry)` unless there is an entry. -/
def ensureEntry : UtxoViewpoint :=
  match view.lookupEntry outpoint with
  | some _ => view
  | none => view.setEntry outpoint
    { amount := 0
      address := ⟨0, []⟩
      covenant := ⟨.none, []⟩
      pkScript := []
      blockHeight := 0
      packedFlags := {} }

/-- Unspend the inputs of a transaction. The inputs and the journal are in reverse order; the
entries of the journal that are left over belong to earlier transactions. -/
def unspendTxIns (db : Hash → Result (Option UtxoEntry)) (txHash : Hash) :
    UtxoViewpoint → List TxIn → List SpentTxOut → Result (UtxoViewpoint × List SpentTxOut)
  | view, [], stxos => .ok (view, stxos)
  | _, _ :: _, [] => .error (.panic "index out of range")
  | view, txIn :: txIns, stxo :: stxos => do
    let view := view.ensureEntry txIn.previousOutPoint
    let stxo ← legacyStxo db view txHash txIn.previousOutPoint stxo
    unspendTxIns db txHash (view.setEntry txIn.previousOutPoint (restoredEntry stxo)) txIns stxos

/-- The loop of `disconnectTransactions`, over the transactions and the journal in reverse order.
The first transaction of the block comes last. -/
def disconnectTxs (db : Hash → Result (Option UtxoEntry)) (blockHeight : Int32) :
    UtxoViewpoint → List Tx → List SpentTxOut → Result UtxoViewpoint
  | view, [], _ => .ok view
  | view, tx :: txs, stxos =>
    if txs.isEmpty then disconnectTxs db blockHeight (view.disconnectTxOuts tx true blockHeight) txs
      stxos
    else do
      let (view, stxos) ← unspendTxIns db tx.hash (view.disconnectTxOuts tx false blockHeight)
        tx.txIn.reverse stxos
      disconnectTxs db blockHeight view txs stxos

end UtxoViewpoint

/-- The coinbase, which spends nothing, is left out; a block without transactions panics. -/
def countSpentOutputs (block : Block) : Result ℕ :=
  match block.transactions with
  | [] => .error (.panic "slice bounds out of range")
  | _ :: txs => .ok (txs.map fun tx => tx.txIn.length).sum

def UtxoViewpoint.disconnectTransactions (db : Hash → Result (Option UtxoEntry))
    (view : UtxoViewpoint) (block : Block) (stxos : List SpentTxOut) : Result UtxoViewpoint := do
  let numSpent ← countSpentOutputs block
  failIf (stxos.length ≠ numSpent)
    (.assert "disconnectTransactions called with bad spent transaction out information")
  let view ← disconnectTxs db block.height view block.transactions.reverse stxos.reverse
  return { view with bestHash := block.prevBlock }

open UtxoEntry

abbrev UtxoSet := OutPoint → Option SpentTxOut

/-- What an entry contributes to the set; a nil or spent entry is an output that does not exist. -/
def unspent (entry : Option UtxoEntry) : Option SpentTxOut :=
  entry.bind fun e => if e.isSpent then none else some e.stxo

def UtxoViewpoint.coins (view : UtxoViewpoint) : UtxoSet := fun o => unspent (view.lookupEntry o)

/-- What an output of a transaction adds to the set, nothing when it is unspendable. -/
def Tx.coinOf (tx : Tx) (height : Int32) (p : TxOut × ℕ) : Option (OutPoint × SpentTxOut) :=
  if txOutIsUnspendable p.1 then none
  else some (txOutpoint tx p.2, (ofTxOut p.1 tx.isCoinBase height).stxo)

def Tx.newCoins (tx : Tx) (height : Int32) : List (OutPoint × SpentTxOut) :=
  tx.txOut.zipIdx.filterMap (tx.coinOf height)

/-- A transaction as a step of the ledger; a coinbase has no inputs to spend. -/
def Tx.step (tx : Tx) (height : Int32) : Ledger.Step OutPoint SpentTxOut where
  inputs := if tx.isCoinBase then [] else tx.txIn.map (·.previousOutPoint)
  outputs := tx.newCoins height

def Block.steps (block : Block) : List (Ledger.Step OutPoint SpentTxOut) :=
  block.transactions.map fun tx => tx.step block.height

lemma Tx.inputs_step (tx : Tx) : (tx.step height).inputs =
    (if tx.isCoinBase then [] else tx.txIn).map (·.previousOutPoint) := by
  unfold step
  split_ifs <;> rfl

@[simp] lemma unspent_none : unspent none = none := rfl

@[simp] lemma UtxoEntry.stxo_spend (e : UtxoEntry) : e.spend.stxo = e.stxo := by
  unfold spend
  split_ifs <;> rfl

@[simp] lemma UtxoEntry.isSpent_spend (e : UtxoEntry) : e.spend.isSpent = true := by
  unfold spend
  split_ifs with h
  · exact h
  · rfl

@[simp] lemma unspent_spend (e : UtxoEntry) : unspent (some e.spend) = none := by
  simp [unspent]

@[simp] lemma unspent_ofTxOut (txOut : TxOut) (isCoinBase : Bool) (height : Int32) :
    unspent (some (.ofTxOut txOut isCoinBase height)) =
      some (ofTxOut txOut isCoinBase height).stxo := rfl

lemma unspent_eq_some :
    unspent entry = some c ↔ ∃ e, entry = some e ∧ e.isSpent = false ∧ e.stxo = c := by
  cases entry with
  | none => simp
  | some e => cases he : e.isSpent <;> simp [unspent]

lemma Tx.coinOf_unspendable (h : txOutIsUnspendable p.1) (tx : Tx)
    (height : Int32) : tx.coinOf height p = none := if_pos h

lemma Tx.coinOf_spendable (h : ¬ txOutIsUnspendable p.1) (tx : Tx)
    (height : Int32) : tx.coinOf height p =
      some (txOutpoint tx p.2, (ofTxOut p.1 tx.isCoinBase height).stxo) := if_neg h

lemma Tx.mem_newCoins (h : kv ∈ tx.newCoins height) : ∃ p ∈ tx.txOut.zipIdx, txOutIsUnspendable p.1 = false ∧
      kv = (txOutpoint tx p.2, (ofTxOut p.1 tx.isCoinBase height).stxo) := by
  obtain ⟨p, hp, hkv⟩ := List.mem_filterMap.1 h
  unfold Tx.coinOf at hkv
  split_ifs at hkv with hun
  rw [Option.some.injEq] at hkv
  exact ⟨p, hp, by simpa using hun, hkv.symm⟩

end HandshakeNode
