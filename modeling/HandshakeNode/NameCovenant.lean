import HandshakeNode.Names

/-!
# The rules of covenants

What a covenant does to the state of its name, and which covenants may spend which. The lookups
that the rules make outside the names are in `NameEnv`: the height of a block hash on the main
chain and the value of an owner's coin.
-/

namespace HandshakeNode

open LittleEndian

def dooPerHNS : ℕ := 1000000

def maxDoo : ℕ := 2040000000 * dooPerHNS

structure NamePrevOutput where
  outpoint : OutPoint
  amount : Int64
  address : Address
  covenant : Covenant
deriving DecidableEq

structure DeploymentFlags where
  hardeningActive : Bool
  icannLockupActive : Bool

/-- What the rules read of the block that is applied and of the chain below it. -/
structure NameEnv where
  height : UInt32
  prevTime : Int64
  deploymentFlags : DeploymentFlags
  /-- `mainChainHeightForHash`, negative for a hash that is not on the main chain. -/
  mainChainHeight : Hash → Result Int32
  /-- `nameOwnerCoinValue`, nothing for a coin that is spent or unknown. -/
  ownerCoinValue : OutPoint → Result (Option Int64)

/-- An output with a covenant, in its transaction and with the coins that the transaction spends. -/
structure CovenantOutput where
  tx : Tx
  outputIndex : ℕ
  txOut : TxOut
  prevOutputs : List NamePrevOutput

namespace CovenantOutput

def covenant (out : CovenantOutput) : Covenant := out.txOut.covenant

def outpoint (out : CovenantOutput) : OutPoint := txOutpoint out.tx out.outputIndex

/-- `start, _ := covenantU32(covenant, 1)`. -/
def start (out : CovenantOutput) : UInt32 := (covenantU32 out.covenant 1).getD 0

end CovenantOutput

/-! ## Reserved names and the rollout -/

def modNameHash (nameHash : Hash) (mod : UInt32) : UInt32 :=
  let p := 256 % mod
  nameHash.bytes.foldl (fun acc b => (p * acc + b.toUInt32) % mod) 0

section

variable (ctx : NameContext)

def isReservedNameHash (nameHash : Hash) (height : UInt32) : Bool :=
  if ctx.params.nameNoReserved then false
  else if height ≥ ctx.params.nameClaimPeriod then false
  else ctx.reserved nameHash

def isLockedUpNameHash (nameHash : Hash) (height : UInt32) : Bool :=
  if ctx.params.nameNoReserved then false
  else if height < ctx.params.nameClaimPeriod then false
  else
    match ctx.locked nameHash with
    | none => false
    | some root => if root then true else height < ctx.params.nameAlexaLockup

def hasNameRollout (nameHash : Hash) (height : UInt32) : Bool :=
  if ctx.params.nameNoRollout then true
  else
    let week := modNameHash nameHash 52
    let start := ctx.params.nameAuctionStart + week * ctx.params.nameRolloutInterval
    height ≥ start

/-! ## Proofs of claims -/

def verifyCoinbaseClaimProofData (txOut : TxOut) (covenant : Covenant) (height : UInt32)
    (data : ClaimProofData) : Result UInt64 := do
  failIf (data.version = 31) (badCovenant "CLAIM nulldata address is invalid")
  failIf (txOut.address.version ≠ data.version ∨ txOut.address.hash ≠ data.hash)
    (badCovenant "CLAIM ownership proof address mismatch")
  failIf (covenantHashMust covenant 4 ≠ data.commitHash)
    (badCovenant "CLAIM ownership proof commit mismatch")
  failIf ((covenantU32 covenant 5).getD 0 ≠ data.commitHeight ∨ data.commitHeight = 0)
    (badCovenant "CLAIM ownership proof height mismatch")
  failIf (data.value < data.fee) (badCovenant "CLAIM ownership proof fee exceeds value")
  let outputValue := data.value - data.fee
  failIf (outputValue.toNat > maxDoo ∨ txOut.value ≠ outputValue.toInt64)
    (badCovenant "CLAIM output value mismatch")
  if height ≥ ctx.params.nameDeflationHeight then
    if data.commitHeight = 1 then do
      failIf (data.fee.toNat > 1000 * dooPerHNS) (badCovenant "CLAIM fee exceeds deflation cap")
      return data.value
    else return outputValue
  else return data.value

def verifyOwnershipProof (proof : Bytes) (txOut : TxOut) (env : NameEnv) : Result UInt64 := do
  failIf (ctx.ownership.parses proof = false) (badCovenant "CLAIM ownership proof is invalid")
  failIf (ctx.ownership.isSane proof = false) (badCovenant "CLAIM ownership proof is not sane")
  failIf (ctx.ownership.verifyTimes proof env.prevTime = false)
    (badCovenant "CLAIM ownership proof time is invalid")
  failIf (ctx.ownership.verifySignatures proof = false)
    (badCovenant "CLAIM ownership proof signature is invalid")
  match ← ctx.ownership.claimData proof with
  | none => .error (badCovenant "CLAIM ownership proof data is invalid")
  | some data => do
    failIf (env.deploymentFlags.hardeningActive = true ∧ data.weak = true)
      (badCovenant "CLAIM ownership proof uses weak algorithm")
    verifyCoinbaseClaimProofData ctx txOut txOut.covenant env.height data

def verifyCoinbaseClaimProof (tx : Tx) (outputIndex : ℕ) (env : NameEnv) : Result UInt64 :=
  match tx.txIn[outputIndex]?, tx.txOut[outputIndex]? with
  | some txIn, some txOut =>
    match txIn.witness with
    | [proof] => do
      failIf (txOut.covenant.type ≠ .claim) (badCovenant "coinbase proof is not a CLAIM")
      failIf (covenantU32 txOut.covenant 1 ≠ some env.height)
        (badCovenant "CLAIM covenant has nonlocal height")
      verifyOwnershipProof ctx proof txOut env
    | _ => .error (badCovenant "coinbase CLAIM witness is invalid")
  | _, _ => .error (badCovenant "coinbase CLAIM proof is unlinked")

/-! ## The coins behind a covenant -/

def linkedPrevOutput (prevOutputs : List NamePrevOutput) (outputIndex : ℕ) (covenant : String) :
    Result NamePrevOutput :=
  match prevOutputs[outputIndex]? with
  | none => .error (badCovenant (covenant ++ " covenant is not linked"))
  | some prevOutput => .ok prevOutput

def requireCurrentNameOwner (out : CovenantOutput) (ns : NameState) (covenant : String) :
    Result Unit := do
  let prevOutput ← linkedPrevOutput out.prevOutputs out.outputIndex covenant
  failIf (prevOutput.outpoint ≠ ns.owner)
    (badCovenant (covenant ++ " covenant does not spend current owner"))

def verifyNameRenewalHash (env : NameEnv) (hash : Hash) : Result Bool :=
  if env.height < ctx.params.nameRenewalMaturity then .ok true
  else do
    let blockHeight ← env.mainChainHeight hash
    let maxHeight : ℤ := env.height.toNat - ctx.params.nameRenewalMaturity.toNat
    let minHeight : ℤ := max (env.height.toNat - ctx.params.nameRenewalPeriod.toNat) 0
    return decide (0 ≤ blockHeight.toInt ∧ blockHeight.toInt ≤ maxHeight ∧
      minHeight ≤ blockHeight.toInt)

def checkRenewalHash (env : NameEnv) (out : CovenantOutput) (item : ℕ) (covenant : String) :
    Result Unit := do
  let ok ← verifyNameRenewalHash ctx env (covenantHashMust out.covenant item)
  failIf (ok = false) (badCovenant (covenant ++ " covenant has invalid renewal hash"))

def checkStart (out : CovenantOutput) (ns : NameState) (covenant : String) : Result Unit :=
  failIf (out.start ≠ ns.height) (badCovenant (covenant ++ " covenant has nonlocal height"))

def checkClosed (state : NameStateKind) (covenant : String) : Result Unit :=
  failIf (state ≠ .closed) (badCovenant (covenant ++ " covenant before close"))

/-- `if len(data) > 0 { ns.data = append(ns.data[:0], data...) }`. -/
def NameState.setData (ns : NameState) (data : Bytes) : NameState :=
  if data.length > 0 then { ns with data := data } else ns

/-- From the deflation height on, the first claim commits to block 1 and a later one keeps the
value of the coin that it replaces. -/
def checkClaimDeflation (env : NameEnv) (ns : NameState) (claimed : Int32) (value : Int64) :
    Result Unit :=
  if env.height ≥ ctx.params.nameDeflationHeight then
    if isNullNameOwner ns.owner then
      failIf (claimed ≠ 1) (badCovenant "initial CLAIM must commit to height 1")
    else do
      failIf (env.height < ns.height + ctx.params.nameClaimFrequency)
        (badCovenant "CLAIM covenant before frequency")
      let coinValue ← env.ownerCoinValue ns.owner
      failIf (coinValue ≠ some value)
        (badCovenant "CLAIM covenant has invalid replacement value")
  else .ok ()

variable (env : NameEnv) (out : CovenantOutput) (state : NameStateKind) (ns : NameState)

def applyClaim :
    Result NameState := do
  failIf (¬ (state = .opening ∨ state = .locked ∨ (state = .closed ∧ ns.registered = false)))
    (badCovenant "CLAIM covenant in invalid name state")
  failIf (ns.expired = true ∨ isReservedNameHash ctx ns.nameHash env.height = false)
    (badCovenant "CLAIM covenant for unreserved name")
  let _ ← verifyCoinbaseClaimProof ctx out.tx out.outputIndex env
  let weak := covenantWeak out.covenant
  failIf (env.deploymentFlags.hardeningActive = true ∧ weak = true)
    (badCovenant "CLAIM ownership proof uses weak algorithm")
  let claimed ← env.mainChainHeight (covenantHashMust out.covenant 4)
  failIf (claimed < 0 ∨ claimed.toUInt32 ≠ (covenantU32 out.covenant 5).getD 0)
    (badCovenant "CLAIM covenant commit height mismatch")
  failIf (claimed.toUInt32 ≤ ns.claimed) (badCovenant "CLAIM covenant commit is not newer")
  checkClaimDeflation ctx env ns claimed out.txOut.value
  return { ns with
    height := env.height
    renewal := env.height
    claimed := claimed.toUInt32
    value := 0
    owner := out.outpoint
    highest := 0
    weak := weak }

def applyOpen (nameHash : Hash) (state : NameStateKind) (ns : NameState) :
    Result NameState := do
  failIf (state ≠ .opening) (badCovenant "OPEN covenant in invalid name state")
  failIf (ns.height ≠ env.height) (badCovenant "duplicate OPEN covenant")
  failIf (ctx.params.nameNoReserved = false ∧ isReservedNameHash ctx nameHash env.height = true)
    (badCovenant "OPEN covenant for reserved name")
  failIf (env.deploymentFlags.icannLockupActive = true ∧
      isLockedUpNameHash ctx nameHash env.height = true)
    (badCovenant "OPEN covenant for locked name")
  failIf (hasNameRollout ctx nameHash env.height = false)
    (badCovenant "OPEN covenant before rollout")
  return ns

/-- The `BID` case, which checks the phase first. -/
def applyBid :
    Result NameState := do
  failIf (state ≠ .bidding) (badCovenant "BID covenant in invalid name state")
  checkStart out ns "BID"
  return ns

/-- The second-price update of a revealed bid. -/
def NameState.reveal (outpoint : OutPoint) (value : Int64) : NameState :=
  if isNullNameOwner ns.owner ∨ value > ns.highest then
    { ns with value := ns.highest, owner := outpoint, highest := value }
  else if value > ns.value then { ns with value := value }
  else ns

def applyReveal :
    Result NameState := do
  checkStart out ns "REVEAL"
  failIf (state ≠ .reveal) (badCovenant "REVEAL covenant in invalid name state")
  let _ ← linkedPrevOutput out.prevOutputs out.outputIndex "REVEAL"
  return ns.reveal out.outpoint out.txOut.value

def applyRedeem :
    Result NameState := do
  checkStart out ns "REDEEM"
  failIf (state.code < NameStateKind.closed.code) (badCovenant "REDEEM covenant before close")
  let prevOutput ← linkedPrevOutput out.prevOutputs out.outputIndex "REDEEM"
  failIf (prevOutput.outpoint = ns.owner) (badCovenant "winning REVEAL cannot be redeemed")
  return ns

def applyRegister : Result NameState := do
  checkStart out ns "REGISTER"
  checkClosed state "REGISTER"
  checkRenewalHash ctx env out 3 "REGISTER"
  let prevOutput ← linkedPrevOutput out.prevOutputs out.outputIndex "REGISTER"
  failIf (prevOutput.outpoint ≠ ns.owner) (badCovenant "REGISTER covenant does not spend winner")
  failIf (out.txOut.value ≠ ns.value) (badCovenant "REGISTER covenant has invalid value")
  failIf (ns.isClaimable env.height ctx.params = true ∧
      env.deploymentFlags.hardeningActive = true ∧ ns.weak = true)
    (badCovenant "REGISTER covenant in invalid name state")
  let ns := { ns with registered := true, owner := out.outpoint }
  return { ns.setData (covenantItem out.covenant 2) with renewal := env.height }

def applyUpdate :
    Result NameState := do
  checkStart out ns "UPDATE"
  checkClosed state "UPDATE"
  requireCurrentNameOwner out ns "UPDATE"
  let ns := { ns with owner := out.outpoint }
  return { ns.setData (covenantItem out.covenant 2) with transfer := 0 }

/-- The end of `applyRenew` and `applyFinalize`. -/
def NameState.renew (outpoint : OutPoint) (height : UInt32) : NameState :=
  { ns with owner := outpoint, transfer := 0, renewal := height, renewals := ns.renewals + 1 }

def applyRenew :
    Result NameState := do
  checkStart out ns "RENEW"
  checkClosed state "RENEW"
  failIf (env.height < ns.renewal + ctx.params.nameTreeInterval)
    (badCovenant "RENEW covenant is premature")
  checkRenewalHash ctx env out 2 "RENEW"
  requireCurrentNameOwner out ns "RENEW"
  return ns.renew out.outpoint env.height

def applyTransfer : Result NameState := do
  checkStart out ns "TRANSFER"
  checkClosed state "TRANSFER"
  failIf (ns.transfer ≠ 0) (badCovenant "name is already transferring")
  requireCurrentNameOwner out ns "TRANSFER"
  return { ns with owner := out.outpoint, transfer := env.height }

def applyFinalize : Result NameState := do
  checkStart out ns "FINALIZE"
  checkClosed state "FINALIZE"
  failIf (ns.transfer = 0) (badCovenant "FINALIZE covenant without transfer")
  failIf (env.height < ns.transfer + ctx.params.nameTransferLockup)
    (badCovenant "FINALIZE covenant before transfer maturity")
  failIf (covenantWeak out.covenant ≠ ns.weak ∨ (covenantU32 out.covenant 4).getD 0 ≠ ns.claimed ∨
      (covenantU32 out.covenant 5).getD 0 ≠ ns.renewals)
    (badCovenant "FINALIZE covenant state transfer mismatch")
  checkRenewalHash ctx env out 6 "FINALIZE"
  requireCurrentNameOwner out ns "FINALIZE"
  return ns.renew out.outpoint env.height

def applyRevoke :
    Result NameState := do
  checkStart out ns "REVOKE"
  checkClosed state "REVOKE"
  failIf (ns.revoked ≠ 0) (badCovenant "name is already revoked")
  requireCurrentNameOwner out ns "REVOKE"
  return { ns with revoked := env.height, transfer := 0, data := [] }

/-- A name without a state starts with an `OPEN` or a `CLAIM`; one that has expired starts over. -/
def prepareNameState (covenant : Covenant) (ns : NameState) : Result NameState := do
  failIf (ns.isNull = true ∧ covenant.type ≠ .claim ∧ covenant.type ≠ .open)
    (.rule .invalidCovenant "name state is missing for covenant")
  let ns := if ns.isNull then ns.set (covenantItem covenant 2) env.height else ns
  return ns.maybeExpire env.height ctx.params

/-- The state of a name after a covenant output: the part of `applyCovenantOutput` between reading
the state and recording the change. -/
def applyCovenant (nameHash : Hash) (out : CovenantOutput) (ns : NameState) :
    Result NameState := do
  let ns ← prepareNameState ctx env out.covenant ns
  let state := ns.state env.height ctx.params
  match out.covenant.type with
  | .claim => applyClaim ctx env out state ns
  | .open => applyOpen ctx env nameHash state ns
  | .bid => applyBid out state ns
  | .reveal => applyReveal out state ns
  | .redeem => applyRedeem out state ns
  | .register => applyRegister ctx env out state ns
  | .update => applyUpdate out state ns
  | .renew => applyRenew ctx env out state ns
  | .transfer => applyTransfer env out state ns
  | .finalize => applyFinalize ctx env out state ns
  | .revoke => applyRevoke env out state ns
  | _ => .error (badCovenant "unknown name covenant")

def sameNameAndHeight (a b : Covenant) : Bool :=
  match covenantHash a 0, covenantHash b 0, covenantU32 a 1, covenantU32 b 1 with
  | some aHash, some bHash, some aHeight, some bHeight => aHash = bHash && aHeight = bHeight
  | _, _, _, _ => false

def equalAddress (a b : Address) : Bool := a.version = b.version && a.hash = b.hash

def blindBid (value : Int64) (nonce : Hash) : Hash :=
  ctx.blake2b (leBytes 8 value.toUInt64.toNat ++ nonce.bytes)

/-- `NONE`, `OPEN` and `REDEEM` coins are free. -/
def verifyFreeSpend (covenant : Covenant) : Result Unit :=
  match covenant.type with
  | .none | .open | .bid => .ok ()
  | _ => .error (badCovenant "invalid covenant after NONE/OPEN/REDEEM")

variable (prev : NamePrevOutput) (output : TxOut)

def verifyBidSpend : Result Unit := do
  failIf (output.covenant.type ≠ .reveal) (badCovenant "BID must spend to REVEAL")
  failIf (sameNameAndHeight prev.covenant output.covenant = false)
    (badCovenant "REVEAL does not match BID")
  failIf (blindBid ctx output.value (covenantHashMust output.covenant 2) ≠
      covenantHashMust prev.covenant 3)
    (badCovenant "REVEAL value does not match BID blind")
  failIf (prev.amount < output.value) (badCovenant "REVEAL value exceeds BID coin")

def verifyRevealSpend : Result Unit :=
  match output.covenant.type with
  | .register => do
    failIf (sameNameAndHeight prev.covenant output.covenant = false)
      (badCovenant "REGISTER does not match REVEAL")
    failIf (equalAddress output.address prev.address = false)
      (badCovenant "REGISTER address changed")
  | .redeem => do
    failIf (prev.covenant.type = .claim) (badCovenant "CLAIM cannot spend to REDEEM")
    failIf (sameNameAndHeight prev.covenant output.covenant = false)
      (badCovenant "REDEEM does not match REVEAL")
  | _ => .error (badCovenant "invalid covenant after CLAIM/REVEAL")

def verifyOwnerSpend : Result Unit := do
  failIf (output.value ≠ prev.amount) (badCovenant "name value changed")
  failIf (equalAddress output.address prev.address = false) (badCovenant "name address changed")
  match output.covenant.type with
  | .update | .renew | .transfer | .revoke =>
    failIf (sameNameAndHeight prev.covenant output.covenant = false)
      (badCovenant "name covenant is nonlocal")
  | _ => .error (badCovenant "invalid covenant after name owner")

def verifyTransferSpend : Result Unit := do
  failIf (output.value ≠ prev.amount) (badCovenant "transfer value changed")
  match output.covenant.type with
  | .update | .renew | .revoke => do
    failIf (sameNameAndHeight prev.covenant output.covenant = false)
      (badCovenant "transfer covenant is nonlocal")
    failIf (equalAddress output.address prev.address = false)
      (badCovenant "transfer address changed")
  | .finalize => do
    failIf (sameNameAndHeight prev.covenant output.covenant = false)
      (badCovenant "FINALIZE covenant is nonlocal")
    failIf (output.address.version ≠ (covenantU8 prev.covenant 2).getD 0 ∨
        output.address.hash ≠ covenantItem prev.covenant 3)
      (badCovenant "FINALIZE address mismatch")
  | _ => .error (badCovenant "invalid covenant after TRANSFER")

def verifyMissingSpend : Result Unit :=
  match prev.covenant.type with
  | .none | .open | .redeem => .ok ()
  | _ => .error (badCovenant "linked covenant missing output")

def verifyCovenantSpend : Option TxOut → Result Unit
  | none => verifyMissingSpend prev
  | some output =>
    match prev.covenant.type with
    | .none | .open | .redeem => verifyFreeSpend output.covenant
    | .bid => verifyBidSpend ctx prev output
    | .claim | .reveal => verifyRevealSpend prev output
    | .register | .update | .renew | .finalize => verifyOwnerSpend prev output
    | .transfer => verifyTransferSpend prev output
    | .revoke => .error (badCovenant "REVOKE covenant is unspendable")
    | .unknown _ _ => failIf (isNameCovenant output.covenant.type = true)
      (badCovenant "unknown covenant spends to name covenant")

def verifySpends (tx : Tx) : List (NamePrevOutput × ℕ) → Result Unit
  | [] => .ok ()
  | p :: prevs => do
    verifyCovenantSpend ctx p.1 tx.txOut[p.2]?
    verifySpends tx prevs

def verifyCovenantSpends (tx : Tx) (prevOutputs : List NamePrevOutput) : Result Unit := do
  failIf (prevOutputs.length ≠ tx.txIn.length) (.assert "missing covenant previous outputs")
  verifySpends ctx tx prevOutputs.zipIdx

/-- `if !IsCoinBase(tx)`, the spends are verified. -/
def checkSpends (tx : Tx) (prevOutputs : List NamePrevOutput) : Result Unit :=
  if tx.isCoinBase then .ok () else verifyCovenantSpends ctx tx prevOutputs

end

end HandshakeNode
