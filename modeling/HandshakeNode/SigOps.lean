import HandshakeNode.NameView

/-!
# The cost of signature operations

`GetSigOpCost` and the loop of `checkConnectBlockWithNameView` that adds up the cost of a block
before any of its transactions is connected. Scripts are counted up to the first parse failure. The
counts are natural numbers: no script that fits in memory makes an `int` of them wrap, so the checks
for that are left out.
-/

namespace HandshakeNode

/-- `ScriptTokenizer.Next`: an opcode with its data and what follows it, nothing at the end of the
script or after a parse failure. -/
def tokenizerNext : Bytes → Option (UInt8 × Bytes × Bytes)
  | [] => none
  | op :: script =>
    match opcodeDataSize op script with
    | none => none
    | some size =>
      let lengthSize := if op = 76 then 1 else if op = 77 then 2 else if op = 78 then 4 else 0
      if size ≤ script.length then some (op, (script.take size).drop lengthSize, script.drop size)
      else none

def isSmallInt (op : UInt8) : Bool := op = 0x00 || (0x51 ≤ op && op ≤ 0x60)

def asSmallInt (op : UInt8) : ℕ := if op = 0x00 then 0 else (op - 0x50).toNat

/-- What an opcode counts for after `prevOp`. -/
def sigOpsOf (precise : Bool) (prevOp op : UInt8) : ℕ :=
  if op = 0xac ∨ op = 0xad then 1
  else if op = 0xae ∨ op = 0xaf then
    if precise ∧ 0x51 ≤ prevOp ∧ prevOp ≤ 0x60 then asSmallInt prevOp else maxPubKeysPerMultiSig
  else 0

/-- The loop of `countSigOpsV0`; each round takes a byte at least. -/
def countSigOpsLoop (precise : Bool) : ℕ → UInt8 → Bytes → ℕ
  | 0, _, _ => 0
  | fuel + 1, prevOp, script =>
    match tokenizerNext script with
    | none => 0
    | some (op, _, script) => sigOpsOf precise prevOp op + countSigOpsLoop precise fuel op script

/-- The signature operations of a script; `prevOp` starts as `OP_INVALIDOPCODE`. -/
def countSigOpsV0 (script : Bytes) (precise : Bool) : ℕ :=
  countSigOpsLoop precise script.length 0xff script

def getSigOpCount (script : Bytes) : ℕ := countSigOpsV0 script false

def isScriptHashScript (script : Bytes) : Bool :=
  script.length = 23 && script[0]? = some 0xa9 && script[1]? = some 0x14 && script[22]? = some 0x87

/-- The count for an empty signature script, which is what Handshake has. -/
def getPreciseSigOpCount (scriptPubKey : Bytes) : ℕ :=
  if isScriptHashScript scriptPubKey then 0 else countSigOpsV0 scriptPubKey true

def isCanonicalPush (opcode : UInt8) (data : Bytes) : Bool :=
  opcode > 0x60 ||
    !((opcode < 76 && opcode > 0 && data.length = 1 && data.headD 0 ≤ 16) ||
      (opcode = 76 && data.length < 76) || (opcode = 77 && data.length ≤ 0xff) ||
      (opcode = 78 && data.length ≤ 0xffff))

/-- The version and the program of a script that is a witness program. -/
def extractWitnessProgramInfo (script : Bytes) : Option (ℕ × Bytes) :=
  if script.length < 4 ∨ script.length > 42 then none
  else
    match tokenizerNext script with
    | none => none
    | some (version, _, script) =>
      if isSmallInt version then
        match tokenizerNext script with
        | some (op, program, []) =>
          if isCanonicalPush op program then some (asSmallInt version, program) else none
        | _ => none
      else none

def getWitnessSigOps (pkScript : Bytes) (witness : List Bytes) : ℕ :=
  match extractWitnessProgramInfo pkScript with
  | some (0, program) =>
    if program.length = 20 then 1
    else if program.length = 32 then
      (witness.getLast?.map fun witnessScript => countSigOpsV0 witnessScript true).getD 0
    else 0
  | _ => 0

/-- The count for an empty signature script: only a program in the output itself counts. -/
def getWitnessSigOpCount (pkScript : Bytes) (witness : List Bytes) : ℕ :=
  if (extractWitnessProgramInfo pkScript).isSome then getWitnessSigOps pkScript witness else 0

def witnessScaleFactor : ℕ := 4

def maxBlockSigOpsCost : ℕ := 80000

def countSigOps (tx : Tx) : ℕ :=
  (tx.txOut.map fun txOut => getSigOpCount txOut.address.witnessProgram).sum

variable (tx : Tx) (isCoinBaseTx : Bool) (view : UtxoViewpoint)

/-- A loop over the inputs that adds up a count for each output they spend. -/
def sumInputs (count : TxIn → UtxoEntry → ℕ) : Result ℕ :=
  tx.txIn.zipIdx.foldlM (fun total p =>
    match view.lookupEntry p.1.previousOutPoint with
    | none => .error (prevOutputFromView.missing tx p)
    | some utxo => do
      failIf utxo.isSpent (prevOutputFromView.missing tx p)
      return total + count p.1 utxo) 0

def countP2SHSigOps : Result ℕ :=
  if isCoinBaseTx then .ok 0
  else sumInputs tx view fun _ utxo =>
    if isScriptHashScript utxo.pkScriptOf then getPreciseSigOpCount utxo.pkScriptOf else 0

/-- `GetSigOpCost` with both rules enforced. -/
def getSigOpCost : Result ℕ := do
  let numP2SHSigOps ← countP2SHSigOps tx isCoinBaseTx view
  let numWitnessSigOps ← if isCoinBaseTx then .ok 0
    else sumInputs tx view fun txIn utxo => getWitnessSigOpCount utxo.pkScriptOf txIn.witness
  return countSigOps tx * witnessScaleFactor + numP2SHSigOps * witnessScaleFactor + numWitnessSigOps

/-- A round of the loop over the transactions; the first one counts as the coinbase. -/
def addSigOpCost (totalSigOpCost : ℕ) (p : Tx × ℕ) : Result ℕ := do
  let sigOpCost ← getSigOpCost p.1 (p.2 = 0) view
  let total := totalSigOpCost + sigOpCost
  failIf (total > maxBlockSigOpsCost) (.rule .tooManySigOps
    ("block contains too many signature operations - got " ++ toString total ++ ", max " ++
      toString maxBlockSigOpsCost))
  return total

end HandshakeNode
