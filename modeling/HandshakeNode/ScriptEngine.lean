import HandshakeNode.LockTime
import HandshakeNode.ScriptCaches

/-!
# The script engine: multiple signatures

`OP_CHECKMULTISIG`. The parsers of signatures and keys and the digests are left open.
-/

namespace HandshakeNode

namespace ScriptFlags

def strictMultiSig : ScriptFlags := 0x2
def verifyNullFail : ScriptFlags := 0x200
def verifyConstScriptCode : ScriptFlags := 0x100000

end ScriptFlags

def maxOpsPerScript : ℕ := 201

/-- `scriptNum.Int32`. -/
def ScriptNum.int32 (n : ScriptNum) : ℤ := max (min n (2 ^ 31 - 1)) (-2 ^ 31)

def fromBool (v : Bool) : Bytes := if v then [1] else []

namespace Stack

def popByteArray (s : Stack) : Result (Bytes × Stack) :=
  match s.stk with
  | [] => s.errIndex 0
  | so :: stk => .ok (so, { s with stk })

/-- `PopByteArray` in a loop. -/
def popByteArrays : ℕ → Stack → Result (List Bytes × Stack)
  | 0, s => .ok ([], s)
  | n + 1, s => do
    let (so, s) ← s.popByteArray
    let (sos, s) ← popByteArrays n s
    return (so :: sos, s)

def popInt (s : Stack) : Result (ScriptNum × Stack) := do
  let (so, s) ← s.popByteArray
  let n ← makeScriptNum so s.verifyMinimalData 4
  return (n, s)

def pushBool (s : Stack) (v : Bool) : Stack := { s with stk := fromBool v :: s.stk }

end Stack

structure ScriptEngine extends Engine where
  numOps : ℕ
  /-- `taprootCtx` is set. -/
  tapscript : Bool
  witnessVersion : Option ℕ
  subScript : Bytes

def ScriptEngine.isWitnessVersionActive (vm : ScriptEngine) (version : ℕ) : Bool :=
  vm.witnessVersion = some version

/-- What the engine asks about signatures and keys beside the curve. -/
structure SigChecks where
  removeOpcodeByData : Bytes → Bytes → Bytes × Bool
  checkHashTypeEncoding : UInt8 → Result Unit
  /-- False for an error that is no script error. -/
  parseSignature : Bytes → Result Bool
  checkPubKeyEncoding : Bytes → Result Unit
  parsePubKey : Bytes → Bool
  sigHash : Bytes → UInt8 → Result Hash

structure ParsedSigInfo where
  signature : Bytes
  parsed : Bool := false
  /-- `parsedSignature` is set. -/
  parsedSignature : Bool := false

def sigHashType (rawSig : Bytes) : UInt8 := rawSig.getLastD 0

section

variable (c : SigChecks)

def ParsedSigInfo.parse (sigInfo : ParsedSigInfo) : Result ParsedSigInfo :=
  if sigInfo.parsed then return sigInfo
  else do
    c.checkHashTypeEncoding (sigHashType sigInfo.signature)
    let parsedSignature ← c.parseSignature sigInfo.signature.dropLast
    return { sigInfo with parsed := true, parsedSignature }

/-- One round of the loop: whether the signature is valid for the key. -/
def checkSigOfKey (script : Bytes) (sigInfo : ParsedSigInfo) (pubKey : Bytes) :
    Exec (ParsedSigInfo × Bool) := do
  if sigInfo.signature = [] then return (sigInfo, false)
  let sigInfo ← sigInfo.parse c
  if !sigInfo.parsedSignature then return (sigInfo, false)
  c.checkPubKeyEncoding pubKey
  if !c.parsePubKey pubKey then return (sigInfo, false)
  let hash ← c.sigHash script (sigHashType sigInfo.signature)
  let valid ← .ask ⟨hash, sigInfo.signature.dropLast, pubKey⟩ .ok
  return (sigInfo, valid)

/-- The loop over the signatures and keys that are left. -/
def checkSigs (script : Bytes) : List ParsedSigInfo → List Bytes → Exec Bool
  | [], _ => return true
  | _ :: _, [] => return false
  | sigInfo :: signatures, pubKey :: pubKeys => do
    if signatures.length > pubKeys.length then return false
    let (sigInfo, valid) ← checkSigOfKey c script sigInfo pubKey
    if valid then checkSigs script signatures pubKeys
    else checkSigs script (sigInfo :: signatures) pubKeys

/-- A byte string under `%v`. -/
def bytesText (b : Bytes) : String := "[" ++ " ".intercalate (b.map toString) ++ "]"

def multiSigScript (vm : ScriptEngine) (signatures : List Bytes) : Result Bytes :=
  if vm.isWitnessVersionActive 0 then return vm.subScript
  else signatures.foldlM (fun script signature => do
    let (script, found) := c.removeOpcodeByData script signature
    failIf (vm.hasFlag ScriptFlags.verifyConstScriptCode && found) (.script .nonConstScriptCode
      ("got match of " ++ bytesText signature ++ " in " ++ bytesText script))
    return script) vm.subScript

def opcodeCheckMultiSig (vm : ScriptEngine) : Exec ScriptEngine := do
  failIf vm.tapscript (.script .tapscriptCheckMultisig
    "OP_CHECKMULTISIG and OP_CHECKMULTISIGVERIFY are disabled during tapscript execution")
  let (numKeys, dstack) ← vm.dstack.popInt
  let numPubKeys := numKeys.int32
  failIf (numPubKeys < 0) (.script .invalidPubKeyCount
    ("number of pubkeys " ++ toString numPubKeys ++ " is negative"))
  failIf (numPubKeys > maxPubKeysPerMultiSig) (.script .invalidPubKeyCount
    ("too many pubkeys: " ++ toString numPubKeys ++ " > " ++ toString maxPubKeysPerMultiSig))
  let numOps := vm.numOps + numPubKeys.toNat
  failIf (numOps > maxOpsPerScript) (.script .tooManyOperations
    ("exceeded max operation limit of " ++ toString maxOpsPerScript))
  let (pubKeys, dstack) ← dstack.popByteArrays numPubKeys.toNat
  let (numSigs, dstack) ← dstack.popInt
  let numSignatures := numSigs.int32
  failIf (numSignatures < 0) (.script .invalidSignatureCount
    ("number of signatures " ++ toString numSignatures ++ " is negative"))
  failIf (numSignatures > numPubKeys) (.script .invalidSignatureCount
    ("more signatures than pubkeys: " ++ toString numSignatures ++ " > " ++ toString numPubKeys))
  let (signatures, dstack) ← dstack.popByteArrays numSignatures.toNat
  let (dummy, dstack) ← dstack.popByteArray
  failIf (vm.hasFlag ScriptFlags.strictMultiSig ∧ dummy.length ≠ 0) (.script .sigNullDummy
    ("multisig dummy argument has length " ++ toString dummy.length ++ " instead of 0"))
  let script ← multiSigScript c vm signatures
  let success ← checkSigs c script (signatures.map fun signature => { signature }) pubKeys
  failIf (!success && vm.hasFlag ScriptFlags.verifyNullFail && signatures.any (0 < ·.length))
    (.script .nullFail "not all signatures empty on failed checkmultisig")
  return { vm with numOps, dstack := dstack.pushBool success }

end

end HandshakeNode
