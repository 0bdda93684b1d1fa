import HandshakeNode.NameConnect

/-!
# Chains of transactions

A chain starts with nothing and takes transactions at growing heights. What it has created and spent
is read off its transactions.
-/

namespace HandshakeNode

def Tx.outputs (tx : Tx) : List (OutPoint × TxOut) :=
  tx.txOut.zipIdx.map fun p => (txOutpoint tx p.2, p.1)

def Tx.spends (tx : Tx) : List OutPoint :=
  if tx.isCoinBase then [] else tx.txIn.map (·.previousOutPoint)

def createdOutputs (txs : List Tx) : List (OutPoint × TxOut) := txs.flatMap Tx.outputs

def spentOutpoints (txs : List Tx) : List OutPoint := txs.flatMap Tx.spends

def revealOf (nameHash : Hash) (start : UInt32) (p : OutPoint × TxOut) : Option (OutPoint × ℤ) :=
  if p.2.covenant.type = .reveal ∧ covenantHash p.2.covenant 0 = some nameHash ∧
      covenantU32 p.2.covenant 1 = some start then some (p.1, p.2.value.toInt)
  else none

def reveals (nameHash : Hash) (start : UInt32) (outs : List (OutPoint × TxOut)) :
    List (OutPoint × ℤ) := outs.filterMap (revealOf nameHash start)

/-- A round of the loop of `checkConnectBlockWithNameView`, as far as coins and names are
concerned. -/
def checkConnectTx (ctx : NameContext) (env : NameEnv) (height : Int32)
    (s : UtxoViewpoint × NameBlockView) (tx : Tx) : Result (UtxoViewpoint × NameBlockView) := do
  let prevOutputs ← prevOutputsFromView tx s.1
  let nameView ← s.2.applyTx ctx none env tx prevOutputs
  let (coins, _) ← s.1.connectTransaction tx height []
  return (coins, nameView)

def newUtxoViewpoint : UtxoViewpoint := ⟨∅, Hash.zero⟩

/-- The chain has `txs` and its last block, which may still grow, is at `height`. Every transaction
is sane and its covenants are accepted; the limits on the covenants of a block are not needed. -/
inductive ChainRun (ctx : NameContext) : List Tx → ℕ → UtxoViewpoint → NameBlockView → Prop
  | genesis : ChainRun ctx [] 0 newUtxoViewpoint (newNameBlockViewFromStates ∅)
  | block {txs : List Tx} {height : ℕ} {coins : UtxoViewpoint} {names : NameBlockView}
      (run : ChainRun ctx txs height coins names) (room : height + 1 < 2 ^ 31) :
      ChainRun ctx txs (height + 1) coins { names with undo := [], dirty := ∅, seen := ∅ }
  | tx {txs : List Tx} {height : ℕ} {coins coins' : UtxoViewpoint} {names names' : NameBlockView}
      {env : NameEnv} {blockHeight : Int32} {tx : Tx} (run : ChainRun ctx txs height coins names)
      (height_pos : 0 < height) (height_eq : env.height.toNat = height)
      (sane : checkCovenantSanity ctx tx = .ok ()) (room : tx.txOut.length < 2 ^ 32)
      (ok : checkConnectTx ctx env blockHeight (coins, names) tx = .ok (coins', names')) :
      ChainRun ctx (txs ++ [tx]) height coins' names'

end HandshakeNode
