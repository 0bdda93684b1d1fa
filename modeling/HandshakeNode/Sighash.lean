import HandshakeNode.MsgBlock

/-!
# Signature hashes

The digest that a signature of an input commits to, and the hashes over all inputs and outputs of a
transaction that the inputs share. The hash function is a parameter `blake2b`.
-/

namespace HandshakeNode

open LittleEndian

abbrev SigHashType := UInt32

def sigHashNone : SigHashType := 0x2

def sigHashSingle : SigHashType := 0x3

def sigHashSingleReverse : SigHashType := 0x4

def sigHashNoInput : SigHashType := 0x40

def sigHashAnyOneCanPay : SigHashType := 0x80

def sigHashMask : SigHashType := 0x1f

/-- Handshake has no taproot outputs. -/
def isPayToTaproot (_script : Bytes) : Bool := false

def witnessV0PubKeyHashLen : ℕ := 22

/-- `OP_0 OP_DATA_20 <20-byte-hash>`; nil otherwise. -/
def extractWitnessPubKeyHash (script : Bytes) : Option Bytes :=
  if script.length = witnessV0PubKeyHashLen ∧ script[0]? = some 0x00 ∧ script[1]? = some 0x14 then
    some (script.drop 2)
  else none

def isWitnessPubKeyHashScript (script : Bytes) : Bool := (extractWitnessPubKeyHash script).isSome

/-- `FetchPrevOutput`, which gives nil for an output that it does not know. -/
abbrev PrevOutputFetcher := OutPoint → Option TxOut

structure TxSigHashes where
  hashPrevOutsV0 : Hash := Hash.zero
  hashSequenceV0 : Hash := Hash.zero
  hashOutputsV0 : Hash := Hash.zero
  hashPrevOutsV1 : Hash := Hash.zero
  hashSequenceV1 : Hash := Hash.zero
  hashOutputsV1 : Hash := Hash.zero
  hashInputScriptsV1 : Hash := Hash.zero
  hashInputAmountsV1 : Hash := Hash.zero
deriving DecidableEq

/-- A field of what `FetchPrevOutput` returned is read. -/
def derefPrevOut (o : Option TxOut) : Result TxOut :=
  match o with
  | none => .error (.panic "invalid memory address or nil pointer dereference")
  | some out => .ok out

def writeTxOuts : List TxOut → Result Bytes
  | [] => .ok []
  | out :: outs => do
    let b ← writeTxOut out
    let bs ← writeTxOuts outs
    return b ++ bs

section

variable (blake2b : Bytes → Hash)

def calcHashPrevOuts (tx : MsgTx) : Hash :=
  blake2b ((tx.txIn.map fun txIn => writeOutPoint txIn.previousOutPoint).flatten)

def calcHashSequence (tx : MsgTx) : Hash :=
  blake2b ((tx.txIn.map fun txIn => putUint32 txIn.sequence).flatten)

def calcHashOutputs (tx : MsgTx) : Result Hash := do
  let b ← orPanic "calcHashOutputs: " (writeTxOuts tx.txOut)
  return blake2b b

def inputAmounts (fetch : PrevOutputFetcher) : List MsgTxIn → Result Bytes
  | [] => .ok []
  | txIn :: txIns => do
    let prevOut ← derefPrevOut (fetch txIn.previousOutPoint)
    let rest ← inputAmounts fetch txIns
    return putUint64 prevOut.value.toUInt64 ++ rest

variable (tx : MsgTx) (fetch : PrevOutputFetcher)

def calcHashInputAmounts : Result Hash := do
  let b ← inputAmounts fetch tx.txIn
  return blake2b b

def inputScripts (fetch : PrevOutputFetcher) : List MsgTxIn → Result Bytes
  | [] => .ok []
  | txIn :: txIns => do
    let prevOut ← derefPrevOut (fetch txIn.previousOutPoint)
    let rest ← inputScripts fetch txIns
    return writeVarBytes prevOut.address.witnessProgram ++ rest

def calcHashInputScripts : Result Hash := do
  let b ← inputScripts fetch tx.txIn
  return blake2b b

def inputVersions (fetch : PrevOutputFetcher) : List MsgTxIn → Bool → Bool → Result (Bool × Bool)
  | [], hasV0Inputs, hasV1Inputs => .ok (hasV0Inputs, hasV1Inputs)
  | txIn :: txIns, hasV0Inputs, hasV1Inputs =>
    let outpoint := txIn.previousOutPoint
    if outpoint.index = 0xffffffff ∧ outpoint.hash = Hash.zero then
      inputVersions fetch txIns true hasV1Inputs
    else do
      let prevOut ← derefPrevOut (fetch outpoint)
      let taproot := isPayToTaproot prevOut.address.witnessProgram
      let hasV0Inputs := hasV0Inputs || !taproot
      let hasV1Inputs := hasV1Inputs || taproot
      if hasV0Inputs && hasV1Inputs then return (hasV0Inputs, hasV1Inputs)
      else inputVersions fetch txIns hasV0Inputs hasV1Inputs

def newTxSigHashes : Result TxSigHashes := do
  let (hasV0Inputs, hasV1Inputs) ← inputVersions fetch tx.txIn false false
  let hashPrevOuts := calcHashPrevOuts blake2b tx
  let hashSequence := calcHashSequence blake2b tx
  let hashOutputs ← calcHashOutputs blake2b tx
  let sigHashes : TxSigHashes :=
    { hashPrevOutsV1 := hashPrevOuts, hashSequenceV1 := hashSequence, hashOutputsV1 := hashOutputs }
  let sigHashes := if hasV0Inputs then
      { sigHashes with
        hashPrevOutsV0 := hashPrevOuts
        hashSequenceV0 := hashSequence
        hashOutputsV0 := hashOutputs }
    else sigHashes
  if hasV1Inputs then
    let amounts ← calcHashInputAmounts blake2b tx fetch
    let scripts ← calcHashInputScripts blake2b tx fetch
    return { sigHashes with hashInputAmountsV1 := amounts, hashInputScriptsV1 := scripts }
  else return sigHashes

end

/-- The base type leaves the other outputs and the sequences of the other inputs open. -/
def signsAllOutputs (hashType : SigHashType) : Bool :=
  hashType &&& sigHashMask ≠ sigHashSingle ∧ hashType &&& sigHashMask ≠ sigHashSingleReverse ∧
    hashType &&& sigHashMask ≠ sigHashNone

/-- The script code. That of a key hash program is the script of a payment to the key hash:
`OP_DUP OP_BLAKE160 OP_DATA_20 <hash> OP_EQUALVERIFY OP_CHECKSIG` after its length. -/
def scriptCode (subScript : Bytes) : Bytes :=
  match extractWitnessPubKeyHash subScript with
  | some hash => [0x19, 0x76, 0xc0, 0x14] ++ hash ++ [0x88, 0xac]
  | none => writeVarBytes subScript

def hashOutputs (blake2b : Bytes → Hash) (sigHashes : TxSigHashes) (hashType : SigHashType)
    (tx : MsgTx) (idx : ℕ) : Result Hash :=
  if signsAllOutputs hashType then .ok sigHashes.hashOutputsV0
  else
    match tx.txOut[idx]? with
    | none => .ok Hash.zero
    | some out =>
      if hashType &&& sigHashMask = sigHashSingle then do
        let b ← orPanic "hnsHashRaw: " (writeTxOut out)
        return blake2b b
      else if hashType &&& sigHashMask = sigHashSingleReverse then
        match tx.txOut[tx.txOut.length - 1 - idx]? with
        | none => .error (.panic "index out of range")
        | some out => do
          let b ← orPanic "hnsHashRaw: " (writeTxOut out)
          return blake2b b
      else .ok Hash.zero

def calcWitnessSignatureHashRaw (blake2b : Bytes → Hash) (subScript : Bytes)
    (sigHashes : TxSigHashes) (hashType : SigHashType) (tx : MsgTx) (idx : ℕ) (amt : Int64) :
    Result Hash :=
  match tx.txIn[idx]? with
  | none =>
    .error (.plain ("idx " ++ toString idx ++ " but " ++ toString tx.txIn.length ++ " txins"))
  | some txIn => do
    let anyOneCanPay : Bool := hashType &&& sigHashAnyOneCanPay ≠ 0
    let prevOuts := if anyOneCanPay then Hash.zero else sigHashes.hashPrevOutsV0
    let sequences := if !anyOneCanPay && signsAllOutputs hashType then sigHashes.hashSequenceV0
      else Hash.zero
    let (outpoint, sequence) := if hashType &&& sigHashNoInput ≠ 0 then (⟨Hash.zero, 0⟩, 0)
      else (txIn.previousOutPoint, txIn.sequence)
    let outputs ← hashOutputs blake2b sigHashes hashType tx idx
    return blake2b [putUint32 tx.version, prevOuts.bytes, sequences.bytes, writeOutPoint outpoint,
      scriptCode subScript, putUint64 amt.toUInt64, putUint32 sequence, outputs.bytes,
      putUint32 tx.lockTime, putUint32 hashType].flatten

end HandshakeNode
