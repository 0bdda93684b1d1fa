import HandshakeNode.Airdrop
import HandshakeNode.Lib.Overflow
import HandshakeNode.MsgBlock
import HandshakeNode.SigOps

/-!
# The value of transactions

`CheckTransactionSanity`, `CheckTransactionInputs` and the part of `checkConnectBlock` that follows
the coins of a block: the cost of its signature operations, the loop over its transactions with the
fees it adds up, and the check of the coinbase against subsidy, fees and proofs. Every addition and
subtraction of amounts goes through an `Arith`, so that the same functions run with wrapping and
with checked arithmetic.
-/

namespace HandshakeNode

open Overflow

structure Arith where
  int64 : Ops Err Int64 Int64.toInt
  uint64 : Ops Err UInt64 fun n => (n.toNat : ℤ)

def goArith : Arith := ⟨wrapping _, wrapping _⟩

def checkedArith : Arith :=
  ⟨checked _ (.panic "integer overflow"), checked _ (.panic "integer overflow")⟩

structure CoinParams where
  coinbaseMaturity : UInt16
  subsidyReductionInterval : Int32
  airdropGooSigStop : UInt32

structure CoinContext where
  names : NameContext
  coins : CoinParams
  schemes : AirdropSchemes
  /-- `hnsutil.Amount.String`, which goes through floating-point numbers. -/
  amountString : Int64 → String

/-- `nameOwnerCoinLookup`, nothing for a coin that is spent or unknown. -/
def nameOwnerCoinLookup (coins : UtxoViewpoint) (owner : OutPoint) : Result (Option Int64) :=
  match coins.lookupEntry owner with
  | none => .ok none
  | some entry => .ok (if entry.isSpent then none else some entry.amount)

structure ConnectEnv where
  height : Int32
  parentTime : Option Int64
  deploymentFlags : DeploymentFlags
  airstopActive : Bool
  mainChainHeight : Hash → Result Int32
  /-- `nameOwnerCoinLookup` of a view. -/
  ownerCoinValue : UtxoViewpoint → OutPoint → Result (Option Int64)

namespace ConnectEnv

def proofEnv (env : ConnectEnv) (prevTime : Int64) : NameEnv where
  height := env.height.toUInt32
  prevTime := prevTime
  deploymentFlags := env.deploymentFlags
  mainChainHeight := env.mainChainHeight
  ownerCoinValue _ := .ok none

def nameEnv (env : ConnectEnv) (prevTime : Int64) (view : UtxoViewpoint) : NameEnv :=
  { env.proofEnv prevTime with ownerCoinValue := env.ownerCoinValue view }

end ConnectEnv

def maxBlockBaseSize : ℕ := 1000000

def maxCoinbaseWitnessSize : ℕ := 1000

def baseSubsidy : ℕ := 2000 * dooPerHNS

/-- `MaxDoo` is an untyped floating-point constant, and so it is printed. -/
def maxDooText : String := "2.04e+15"

def calcBlockSubsidy (params : CoinParams) (height : Int32) : Int64 :=
  if params.subsidyReductionInterval = 0 then Int64.ofNat baseSubsidy
  else
    let halvings := (height / params.subsidyReductionInterval).toInt64.toUInt64
    Int64.ofNat (baseSubsidy >>> halvings.toNat)

def Tx.serializeSizeStripped (tx : Tx) : ℕ :=
  8 + varIntSerializeSize tx.txIn.length + varIntSerializeSize tx.txOut.length +
    40 * tx.txIn.length + (tx.txOut.map TxOut.serializeSize).sum

def coinbaseWitnessSize (witness : List Bytes) : ℕ :=
  (witness.map fun item => varIntSerializeSize item.length + item.length).sum

def badOutput (what : String) : Result Bytes → Result Unit
  | .ok _ => .ok ()
  | .error e => .error (.rule .badTxOutValue ("transaction output has invalid " ++ what ++ ": " ++
      e.text))

section

variable (ar : Arith) (ctx : CoinContext)

def checkTxOutValue (totalDoo : Int64) (txOut : TxOut) : Result Int64 := do
  let doo := txOut.value
  failIf (doo < 0)
    (.rule .badTxOutValue ("transaction output has negative value of " ++ toString doo))
  failIf (doo.toInt > maxDoo) (.rule .badTxOutValue
    ("transaction output value is higher than max allowed value: " ++ toString doo ++ " > " ++
      maxDooText ++ " "))
  let totalDoo ← ar.int64.add totalDoo doo
  failIf (totalDoo < 0) (.rule .badTxOutValue
    ("total value of all transaction outputs exceeds max allowed value of " ++ maxDooText))
  failIf (totalDoo.toInt > maxDoo) (.rule .badTxOutValue
    ("total value of all transaction outputs is " ++ toString totalDoo ++
      " which is higher than max allowed value of " ++ maxDooText))
  badOutput "address" txOut.address.encode
  badOutput "covenant" txOut.covenant.encode
  return totalDoo

def checkDuplicateInputs : List TxIn → Finset OutPoint → Result Unit
  | [], _ => .ok ()
  | txIn :: txIns, existing => do
    failIf (txIn.previousOutPoint ∈ existing)
      (.rule .duplicateTxInputs "transaction contains duplicate inputs")
    checkDuplicateInputs txIns (insert txIn.previousOutPoint existing)

def checkCoinbaseInput (tx : Tx) (p : TxIn × ℕ) : Result Unit := do
  failIf (isNullOutpoint p.1.previousOutPoint = false)
    (.rule .badTxInput "coinbase input has non-null previous output")
  if p.2 = 0 then .ok ()
  else
    match p.1.witness with
    | [proof] => do
      failIf (proof.length > 10000) (.rule .badCoinbaseScriptLen
        ("coinbase claim witness length of " ++ toString proof.length ++
          " is out of range (max: 10000)"))
      match tx.txOut[p.2]? with
      | none => .error (badCovenant "coinbase claim input is missing linked output")
      | some txOut =>
        failIf (txOut.covenant.type ≠ .claim ∧ txOut.covenant.type ≠ .none)
          (badCovenant "coinbase claim input is linked to invalid covenant")
    | _ => .error (.rule .badTxInput "coinbase claim input must have one witness item")

def checkCoinbaseInputs (tx : Tx) : Result Unit := do
  tx.txIn.zipIdx.forM (checkCoinbaseInput tx)
  let witnessSize := coinbaseWitnessSize ((tx.txIn.head?.map (·.witness)).getD [])
  failIf (witnessSize > maxCoinbaseWitnessSize) (.rule .badCoinbaseScriptLen
    ("coinbase transaction witness size of " ++ toString witnessSize ++ " exceeds max " ++
      toString maxCoinbaseWitnessSize))

def checkInputNotNull (txIn : TxIn) : Result Unit :=
  failIf (isNullOutpoint txIn.previousOutPoint)
    (.rule .badTxInput "transaction input refers to previous output that is null")

def checkTransactionSanity (tx : Tx) : Result Unit := do
  failIf (tx.txIn.length = 0) (.rule .noTxInputs "transaction has no inputs")
  failIf (tx.txOut.length = 0) (.rule .noTxOutputs "transaction has no outputs")
  failIf (tx.serializeSizeStripped > maxBlockBaseSize) (.rule .txTooBig
    ("serialized transaction is too big - got " ++ toString tx.serializeSizeStripped ++ ", max " ++
      toString maxBlockBaseSize))
  let _ ← tx.txOut.foldlM (checkTxOutValue ar) 0
  checkCovenantSanity ctx.names tx
  if tx.isCoinBase then checkCoinbaseInputs tx
  else do
    checkDuplicateInputs tx.txIn ∅
    tx.txIn.forM checkInputNotNull

end

section

variable (ar : Arith) (ctx : CoinContext)

/-- A round of the loop over the inputs; `totalDooIn` is what the inputs before it are worth. -/
def checkTransactionInput (tx : Tx) (txHeight : Int32) (view : UtxoViewpoint) (totalDooIn : Int64)
    (p : TxIn × ℕ) : Result Int64 :=
  match view.lookupEntry p.1.previousOutPoint with
  | none => .error (prevOutputFromView.missing tx p)
  | some utxo => do
    failIf utxo.isSpent (prevOutputFromView.missing tx p)
    let maturity := ctx.coins.coinbaseMaturity.toUInt32.toInt32
    failIf (utxo.isCoinBase ∧ txHeight - utxo.blockHeight < maturity) (.rule .immatureSpend
      ("tried to spend coinbase transaction output " ++ toString p.1.previousOutPoint ++
        " from height " ++ toString utxo.blockHeight ++ " at height " ++ toString txHeight ++
        " before required maturity of " ++ toString maturity ++ " blocks"))
    let originTxDoo := utxo.amount
    failIf (originTxDoo < 0) (.rule .badTxOutValue
      ("transaction output has negative value of " ++ ctx.amountString originTxDoo))
    failIf (originTxDoo.toInt > maxDoo) (.rule .badTxOutValue
      ("transaction output value is higher than max allowed value: " ++
        ctx.amountString originTxDoo ++ " > " ++ maxDooText ++ " "))
    let total ← ar.int64.add totalDooIn originTxDoo
    failIf (total < totalDooIn ∨ total.toInt > maxDoo) (.rule .badTxOutValue
      ("total value of all transaction inputs is " ++ toString total ++
        " which is higher than max allowed value of " ++ maxDooText))
    return total

def sumOutputs (tx : Tx) : Result Int64 :=
  tx.txOut.foldlM (fun total txOut => ar.int64.add total txOut.value) 0

def checkTransactionInputs (tx : Tx) (txHeight : Int32) (view : UtxoViewpoint) : Result Int64 :=
  if tx.isCoinBase then .ok 0
  else do
    let totalDooIn ← tx.txIn.zipIdx.foldlM (checkTransactionInput ar ctx tx txHeight view) 0
    let totalDooOut ← sumOutputs ar tx
    failIf (totalDooIn < totalDooOut) (.rule .spendTooHigh
      ("total value of all transaction inputs for transaction " ++ toString tx.hash ++ " is " ++
        toString totalDooIn ++ " which is less than the amount spent of " ++
        toString totalDooOut))
    ar.int64.sub totalDooIn totalDooOut

end

section

variable (ar : Arith) (ctx : CoinContext)

def checkGooSig (height : UInt32) (proof : AirdropProof) : Result Unit :=
  if height ≥ ctx.coins.airdropGooSigStop then
    match parseAirdropKey proof.key with
    | .error _ => .error (badCovenant "airdrop proof is invalid")
    | .ok (.goo _) => .error (badCovenant "GooSig airdrop proof is disabled")
    | .ok _ => .ok ()
  else .ok ()

def verifyCoinbaseAirdropProofData (txOut : TxOut) (env : NameEnv) (proof : AirdropProof) :
    Result UInt64 := do
  failIf (proof.isSane = false) (badCovenant "airdrop proof is not sane")
  failIf (txOut.covenant.type ≠ .none) (badCovenant "coinbase airdrop output is invalid")
  checkGooSig ctx env.height proof
  failIf (env.deploymentFlags.hardeningActive ∧ proof.isWeak)
    (badCovenant "airdrop proof uses weak algorithm")
  failIf (proof.verifyMerkle ctx.names.blake2b = false)
    (badCovenant "airdrop proof merkle root mismatch")
  failIf (proof.verifySignature ctx.schemes = false)
    (badCovenant "airdrop proof signature invalid")
  failIf (proof.value < proof.fee) (badCovenant "airdrop fee exceeds value")
  let outputValue ← ar.uint64.sub proof.value proof.fee
  failIf (outputValue.toNat > maxDoo ∨ txOut.value ≠ outputValue.toInt64)
    (badCovenant "airdrop output value mismatch")
  failIf (txOut.address.version ≠ proof.version ∨ txOut.address.hash ≠ proof.address)
    (badCovenant "airdrop output address mismatch")
  return proof.value

def verifyCoinbaseAirdropProof (tx : Tx) (outputIndex : ℕ) (env : NameEnv) : Result UInt64 :=
  match tx.txIn[outputIndex]?, tx.txOut[outputIndex]? with
  | some txIn, some txOut =>
    match txIn.witness with
    | [witness] =>
      match parseAirdropProof witness with
      | .error _ => .error (badCovenant "airdrop proof is invalid")
      | .ok proof => verifyCoinbaseAirdropProofData ar ctx txOut env proof
    | _ => .error (badCovenant "coinbase airdrop witness is invalid")
  | _, _ => .error (badCovenant "coinbase airdrop proof is unlinked")

variable (airstopActive : Bool) (env : NameEnv) (tx : Tx)

/-- The value that the proof at an input mints; the covenant of the output says what it proves. -/
def coinbaseProofValue (txOut : TxOut) (i : ℕ) : Result UInt64 :=
  if txOut.covenant.type ≠ .claim then do
    failIf airstopActive (badCovenant "airdrop proofs are disabled")
    verifyCoinbaseAirdropProof ar ctx tx i env
  else verifyCoinbaseClaimProof ctx.names tx i env

def addCoinbaseConjured (conjured value : UInt64) : Result UInt64 := do
  failIf (conjured.toNat > maxDoo)
    (.rule .badCoinbaseValue "coinbase proof value exceeds max money")
  let room ← ar.uint64.sub (UInt64.ofNat maxDoo) conjured
  failIf (value > room) (.rule .badCoinbaseValue "coinbase proof value exceeds max money")
  ar.uint64.add conjured value

def addSeenProof (seenProofs : Finset Hash) : List Bytes → Result (Finset Hash)
  | [proof] => do
    failIf (ctx.schemes.sha256 proof ∈ seenProofs) (badCovenant "duplicate coinbase proof")
    return insert (ctx.schemes.sha256 proof) seenProofs
  | _ => .ok seenProofs

def conjureProof (s : UInt64 × Finset Hash) (p : TxIn × ℕ) : Result (UInt64 × Finset Hash) :=
  match tx.txOut[p.2]? with
  | none => .error (badCovenant "coinbase proof input is unlinked")
  | some txOut => do
    let seenProofs ← addSeenProof ctx s.2 p.1.witness
    let value ← coinbaseProofValue ar ctx airstopActive env tx txOut p.2
    let conjured ← addCoinbaseConjured ar s.1 value
    return (conjured, seenProofs)

def coinbaseConjuredValue : Result UInt64 :=
  if tx.isCoinBase then do
    let (conjured, _) ← tx.txIn.zipIdx.tail.foldlM (conjureProof ar ctx airstopActive env tx) (0, ∅)
    return conjured
  else .ok 0

def blockConjuredValue (env : ConnectEnv) (tx : Tx) : Result UInt64 :=
  match env.parentTime with
  | none => .ok 0
  | some prevTime => coinbaseConjuredValue ar ctx env.airstopActive (env.proofEnv prevTime) tx

def checkCoinbaseValue (env : ConnectEnv) (totalFees : Int64) (tx : Tx) : Result Unit := do
  let coinbaseConjured ← blockConjuredValue ar ctx env tx
  let totalOut ← sumOutputs ar tx
  let expected ← ar.int64.add (calcBlockSubsidy ctx.coins env.height) totalFees
  failIf (coinbaseConjured.toNat > maxDoo)
    (.rule .badCoinbaseValue "coinbase expected value overflows max money")
  let room ← ar.int64.sub (Int64.ofNat maxDoo) coinbaseConjured.toInt64
  failIf (expected > room)
    (.rule .badCoinbaseValue "coinbase expected value overflows max money")
  let expected ← ar.int64.add expected coinbaseConjured.toInt64
  failIf (totalOut > expected) (.rule .badCoinbaseValue
    ("coinbase transaction for block pays " ++ toString totalOut ++
      " which is more than expected value of " ++ toString expected))

end

/-! ## The transactions of a block -/

/-- What the loop over the transactions of a block carries; there is no view of names for a block
that does not extend the best chain. -/
structure ConnectState where
  view : UtxoViewpoint
  names : Option NameBlockView
  stxos : List SpentTxOut
  totalFees : Int64

section

variable (ar : Arith) (ctx : CoinContext) (dbTx : Option NameDb) (env : ConnectEnv)

def connectTxNames (s : ConnectState) (tx : Tx) : Result (Option NameBlockView) :=
  match s.names with
  | none => .ok none
  | some names => do
    let prevOutputs ← prevOutputsFromView tx s.view
    match env.parentTime with
    | none => .error (.panic "nil pointer dereference")
    | some prevTime => do
      let names ← names.applyTx ctx.names dbTx (env.nameEnv prevTime s.view) tx prevOutputs
      return some names

def connectTx (s : ConnectState) (tx : Tx) : Result ConnectState := do
  let txFee ← checkTransactionInputs ar ctx tx env.height s.view
  let totalFees ← ar.int64.add s.totalFees txFee
  failIf (totalFees < s.totalFees)
    (.rule .badFees "total fees for block overflows accumulator")
  let names ← connectTxNames ctx dbTx env s tx
  let (view, stxos) ← s.view.connectTransaction tx env.height s.stxos
  return ⟨view, names, stxos, totalFees⟩

/-- The part of `checkConnectBlockWithNameView` from the loop that adds up the cost of signature
operations to the check of the coinbase. -/
def checkConnectTxs (s : ConnectState) (transactions : List Tx) : Result ConnectState := do
  let _ ← transactions.zipIdx.foldlM (addSigOpCost s.view) 0
  let s ← transactions.foldlM (connectTx ar ctx dbTx env) s
  match transactions with
  | [] => .error (.panic "index out of range")
  | coinbase :: _ => do
    checkCoinbaseValue ar ctx env s.totalFees coinbase
    return s

end

end HandshakeNode
