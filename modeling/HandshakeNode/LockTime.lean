import HandshakeNode.MsgBlock
import HandshakeNode.ScriptStack
import HandshakeNode.ThresholdState
import HandshakeNode.Utxo

/-!
# Lock times of transactions

When a transaction may be in a block: its own lock time, and the relative locks that the sequence
numbers of its inputs put on the outputs they spend. Heights are `int32` and times are seconds in an
`int64`. Of the script engine there is what the two lock time opcodes read; they leave its state
alone.
-/

namespace HandshakeNode

structure Engine where
  dstack : Stack
  flags : ScriptFlags
  tx : MsgTx
  txIdx : ℕ

variable (vm : Engine)

def Engine.hasFlag (flag : ScriptFlags) : Bool := vm.flags.has flag

def lockTimeFlag : ℕ := 2 ^ 31

def lockTimeMask : ℕ := 2 ^ 31 - 1

def lockTimeGranularity : ℕ := 9

def lockTimeMultiplier : ℕ := 2 ^ lockTimeGranularity

def maxTxInSequenceNum : UInt32 := 0xffffffff

def sequenceLockTimeDisabled : ℕ := 2 ^ 31

def sequenceLockTimeIsSeconds : ℕ := 2 ^ 22

def sequenceLockTimeMask : ℕ := 0xffff

def sequenceLockTimeGranularity : ℕ := 9

/-- `verifyLockTime`. Neither lock time is negative. -/
def verifyLockTime (txLockTime typeFlag valueMask lockTime : ℕ) : Result Unit :=
  if txLockTime &&& typeFlag ≠ lockTime &&& typeFlag then
    scriptError .unsatisfiedLockTime ("mismatched locktime types -- tx locktime " ++
      toString txLockTime ++ ", stack locktime " ++ toString lockTime)
  else if lockTime &&& valueMask > txLockTime &&& valueMask then
    scriptError .unsatisfiedLockTime ("locktime requirement not satisfied -- locktime is " ++
      "greater than the transaction locktime: " ++ toString lockTime ++ " > " ++
      toString txLockTime)
  else .ok ()

def lockTimeOperand : Result ScriptNum := do
  let so ← vm.dstack.peekByteArray 0
  makeScriptNum so vm.dstack.verifyMinimalData 5

def inputSequence : Result UInt32 :=
  match vm.tx.txIn[vm.txIdx]? with
  | none => .error (.panic "index out of range")
  | some txIn => .ok txIn.sequence

/-- An opcode that was a no-op before its flag. -/
def reservedNop (flag : ScriptFlags) (nop : String) (f : Engine → Result Unit) (vm : Engine) :
    Result Unit :=
  if !vm.hasFlag flag then
    failIf (vm.hasFlag ScriptFlags.discourageUpgradableNops)
      (.script .discourageUpgradableNOPs (nop ++ " reserved for soft-fork upgrades"))
  else f vm

def checkLockTime : Result Unit := do
  let lockTime ← lockTimeOperand vm
  failIf (lockTime < 0)
    (.script .negativeLockTime ("negative lock time: " ++ toString lockTime))
  verifyLockTime vm.tx.lockTime.toNat lockTimeFlag lockTimeMask lockTime.toNat
  let sequence ← inputSequence vm
  failIf (sequence = maxTxInSequenceNum)
    (.script .unsatisfiedLockTime "transaction input is finalized")

def opcodeCheckLockTimeVerify : Engine → Result Unit :=
  reservedNop ScriptFlags.verifyCheckLockTimeVerify "OP_NOP2" checkLockTime

def checkInputSequence (sequence : ℕ) : Result Unit := do
  let txSequence ← inputSequence vm
  failIf (txSequence.toNat &&& sequenceLockTimeDisabled ≠ 0)
    (.script .unsatisfiedLockTime ("transaction sequence has sequence locktime disabled bit " ++
      "set: 0x" ++ hexString txSequence.toNat))
  let mask := sequenceLockTimeIsSeconds ||| sequenceLockTimeMask
  verifyLockTime (txSequence.toNat &&& mask) sequenceLockTimeIsSeconds sequenceLockTimeMask
    (sequence &&& mask)

def checkSequence : Result Unit := do
  let stackSequence ← lockTimeOperand vm
  failIf (stackSequence < 0)
    (.script .negativeLockTime ("negative sequence: " ++ toString stackSequence))
  let sequence := stackSequence.toNat
  if sequence &&& sequenceLockTimeDisabled ≠ 0 then return ()
  else checkInputSequence vm sequence

def opcodeCheckSequenceVerify : Engine → Result Unit :=
  reservedNop ScriptFlags.verifyCheckSequenceVerify "OP_NOP3" checkSequence

def MsgTx.isCoinBase (tx : MsgTx) : Bool :=
  match tx.txIn with
  | [] => false
  | txIn :: _ => isNullOutpoint txIn.previousOutPoint

def isFinalizedTransaction (tx : MsgTx) (blockHeight : Int32) (blockTime : Int64) : Bool :=
  if tx.isCoinBase then true
  else if tx.lockTime = 0 then true
  else
    let lockTime := tx.lockTime.toNat
    let isTime := lockTime &&& lockTimeFlag ≠ 0
    let blockTimeOrHeight := if isTime then blockTime.toInt else blockHeight.toInt
    let lockTimeValue := (lockTime &&& lockTimeMask) * if isTime then lockTimeMultiplier else 1
    if lockTimeValue < blockTimeOrHeight then true
    else tx.txIn.all fun txIn => txIn.sequence = 0xffffffff

structure SequenceLock where
  seconds : Int64 := -1
  blockHeight : Int32 := -1
deriving DecidableEq

def sequenceLockActive (sequenceLock : SequenceLock) (blockHeight : Int32)
    (medianTimePast : Int64) : Bool :=
  !(sequenceLock.seconds ≥ medianTimePast || sequenceLock.blockHeight ≥ blockHeight)

def mempoolHeight : Int32 := 0x7fffffff

/-- The height of a spent output; that of one in the mempool is the next one. -/
def inputHeight (node : BranchNode) (utxo : UtxoEntry) : Int32 :=
  if utxo.blockHeight = mempoolHeight then Int32.ofInt (node.height + 1) else utxo.blockHeight

section

variable (t : HeaderTree) (node : BranchNode)

/-- The median time of the block before the one at this height, in seconds. -/
def medianTimeBefore (height : Int32) : Result Int64 :=
  match node.ancestor (max (height - 1) 0).toInt with
  | [] => .error (.panic "invalid memory address or nil pointer dereference")
  | b :: parent => .ok (Int64.ofInt (t.calcPastMedianTime (b :: parent)))

def addInputLock (height : Int32) (sequence : UInt32) (sequenceLock : SequenceLock) :
    Result SequenceLock :=
  let sequenceNum := sequence.toNat
  let relativeLock := sequenceNum &&& sequenceLockTimeMask
  if sequenceNum &&& sequenceLockTimeDisabled ≠ 0 then .ok sequenceLock
  else if sequenceNum &&& sequenceLockTimeIsSeconds ≠ 0 then do
    let medianTime ← medianTimeBefore t node height
    let timeLockSeconds := Int64.ofNat (relativeLock * 2 ^ sequenceLockTimeGranularity) - 1
    let timeLock := medianTime + timeLockSeconds
    return if timeLock > sequenceLock.seconds then { sequenceLock with seconds := timeLock }
      else sequenceLock
  else
    let blockHeight := height + (Int32.ofNat relativeLock - 1)
    return if blockHeight > sequenceLock.blockHeight then
        { sequenceLock with blockHeight := blockHeight }
      else sequenceLock

def calcSequenceLockLoop (txHash : Hash) (utxoView : UtxoViewpoint) :
    ℕ → List MsgTxIn → SequenceLock → Result SequenceLock
  | _, [], sequenceLock => .ok sequenceLock
  | txInIndex, txIn :: txIns, sequenceLock =>
    match utxoView.lookupEntry txIn.previousOutPoint with
    | none =>
      .error (.rule .missingTxOut ("output " ++ toString txIn.previousOutPoint ++
        " referenced from transaction " ++ toString txHash ++ ":" ++ toString txInIndex ++
        " either does not exist or has already been spent"))
    | some utxo => do
      let sequenceLock ← addInputLock t node (inputHeight node utxo) txIn.sequence sequenceLock
      calcSequenceLockLoop txHash utxoView (txInIndex + 1) txIns sequenceLock

def calcSequenceLock (txHash : Hash) (tx : MsgTx) (utxoView : UtxoViewpoint) :
    Result SequenceLock :=
  if tx.isCoinBase then .ok {}
  else calcSequenceLockLoop t node txHash utxoView 0 tx.txIn {}

end

end HandshakeNode
