import HandshakeNode.Params
import HandshakeNode.Wire

/-!
# Names and their states

The state of a name with its phases and its expiry, the covenants that move it, and the checks of
covenants that need no state. What other packages compute is collected in `NameContext`: the two
hash functions, the tables of reserved and locked names and the functions of ownership and airdrop
proofs on their serialized form.
-/

namespace HandshakeNode

open LittleEndian

def maxNameSize : ℕ := 63

def maxResourceSize : ℕ := 512

def maxCovenantSize : ℕ := 1 + 32 + 1 + 4 + 2 + maxResourceSize + 1 + 32

def maxBlockNameOpens : ℕ := 300

def maxBlockNameUpdates : ℕ := 600

def maxBlockNameRenewals : ℕ := 600

inductive NameStateKind where
  | opening
  | locked
  | bidding
  | reveal
  | closed
  | revoked
deriving DecidableEq

def NameStateKind.code : NameStateKind → ℕ
  | .opening => 0
  | .locked => 1
  | .bidding => 2
  | .reveal => 3
  | .closed => 4
  | .revoked => 5

structure NameState where
  nameHash : Hash
  name : Bytes
  height : UInt32
  renewal : UInt32
  owner : OutPoint
  value : Int64
  highest : Int64
  data : Bytes
  transfer : UInt32
  revoked : UInt32
  claimed : UInt32
  renewals : UInt32
  registered : Bool
  expired : Bool
  weak : Bool
deriving DecidableEq

def nullNameOwner : OutPoint := ⟨Hash.zero, 0xffffffff⟩

def isNullNameOwner (owner : OutPoint) : Bool :=
  owner.hash = Hash.zero && owner.index = 0xffffffff

def newNameState (nameHash : Hash) : NameState where
  nameHash := nameHash
  name := []
  height := 0
  renewal := 0
  owner := nullNameOwner
  value := 0
  highest := 0
  data := []
  transfer := 0
  revoked := 0
  claimed := 0
  renewals := 0
  registered := false
  expired := false
  weak := false

namespace NameState

def isNull (ns : NameState) : Bool :=
  ns.height = 0 && ns.renewal = 0 && isNullNameOwner ns.owner && ns.value = 0 && ns.highest = 0 &&
    ns.data.length = 0 && ns.transfer = 0 && ns.revoked = 0 && ns.claimed = 0 && ns.renewals = 0 &&
    !ns.registered && !ns.expired && !ns.weak

/-- Start over at a height; the name and its hash stay. -/
def reset (ns : NameState) (height : UInt32) : NameState where
  nameHash := ns.nameHash
  name := ns.name
  height := height
  renewal := height
  owner := nullNameOwner
  value := 0
  highest := 0
  data := []
  transfer := 0
  revoked := 0
  claimed := 0
  renewals := 0
  registered := false
  expired := false
  weak := false

def set (ns : NameState) (name : Bytes) (height : UInt32) : NameState :=
  { ns with name := name }.reset height

variable (ns : NameState) (height : UInt32) (params : Params)

def state : NameStateKind :=
  let openPeriod := params.nameTreeInterval + 1
  if ns.revoked ≠ 0 then .revoked
  else if ns.claimed ≠ 0 then
    if height < ns.height + params.nameLockupPeriod then .locked else .closed
  else if height < ns.height + openPeriod then .opening
  else if height < ns.height + openPeriod + params.nameBiddingPeriod then .bidding
  else if height < ns.height + openPeriod + params.nameBiddingPeriod + params.nameRevealPeriod then
    .reveal
  else .closed

def isClosed : Bool :=
  ns.state height params = .closed

def isClaimable : Bool :=
  ns.claimed ≠ 0 && !params.nameNoReserved && height < params.nameClaimPeriod

def isExpired : Bool :=
  if ns.revoked ≠ 0 then height ≥ ns.revoked + params.nameAuctionMaturity
  else if !ns.isClosed height params then false
  else if ns.isClaimable height params then false
  else if height ≥ ns.renewal + params.nameRenewalWindow then true
  else isNullNameOwner ns.owner

/-- An expired name starts over and keeps its data. -/
def maybeExpire : NameState :=
  if ns.isExpired height params then { ns.reset height with expired := true, data := ns.data }
  else ns

end NameState

def isNameCovenant : CovenantType → Bool
  | .none => false
  | .unknown _ _ => false
  | _ => true

def isMutableNameCovenant : CovenantType → Bool
  | .claim | .open | .update | .transfer | .revoke => true
  | .register | .renew | .finalize => true
  | _ => false

def isNameUpdateCovenant : CovenantType → Bool
  | .claim | .open | .update | .transfer | .revoke => true
  | _ => false

def isRenewalNameCovenant : CovenantType → Bool
  | .register | .renew | .finalize => true
  | _ => false

variable (covenant : Covenant) (index : ℕ)

/-- An item of a covenant, nil when there is none. -/
def covenantItem : Bytes := covenant.items.getD index []

def covenantHash : Option Hash :=
  if h : (covenantItem covenant index).length = 32 then some ⟨covenantItem covenant index, h⟩
  else none

def covenantU32 : Option UInt32 :=
  if (covenantItem covenant index).length = 4 then
    some (UInt32.ofNat (leNat (covenantItem covenant index)))
  else none

def covenantU8 : Option UInt8 :=
  match covenantItem covenant index with
  | [b] => some b
  | _ => none

/-- `covenantHash` where the result is used whether or not there is a hash. -/
def covenantHashMust : Hash :=
  (covenantHash covenant index).getD Hash.zero

def badCovenant (reason : String) : Err := .rule .invalidCovenant reason

/-! ## What other packages compute -/

structure ClaimProofData where
  version : UInt8
  hash : Bytes
  fee : UInt64
  value : UInt64
  commitHash : Hash
  commitHeight : UInt32
  weak : Bool
deriving DecidableEq

structure OwnershipProofs where
  /-- `parseOwnershipProof` returns no error. -/
  parses : Bytes → Bool
  isSane : Bytes → Bool
  name : Bytes → Bytes
  isWeak : Bytes → Bool
  verifyTimes : Bytes → Int64 → Bool
  verifySignatures : Bytes → Bool
  claimData : Bytes → Result (Option ClaimProofData)

structure AirdropProofs where
  parses : Bytes → Bool
  isSane : Bytes → Bool

structure NameContext where
  params : Params
  sha3 : Bytes → Hash
  blake2b : Bytes → Hash
  /-- `reservedNameDB.has` -/
  reserved : Hash → Bool
  /-- `lockedNameDB.get`, the flag of an entry -/
  locked : Hash → Option Bool
  ownership : OwnershipProofs
  airdrop : AirdropProofs

def NameContext.hashName (ctx : NameContext) (name : Bytes) : Hash := ctx.sha3 name

def asciiBytes (s : String) : Bytes := s.toList.map fun c => UInt8.ofNat c.toNat

def nameBlacklist : List Bytes :=
  ["example", "invalid", "local", "localhost", "test"].map asciiBytes

/-- A digit, a lower-case letter, or a hyphen or underscore that is neither first nor last. -/
def validNameChar (length : ℕ) (p : UInt8 × ℕ) : Bool :=
  (0x30 ≤ p.1 && p.1 ≤ 0x39) || (0x61 ≤ p.1 && p.1 ≤ 0x7a) ||
    ((p.1 = 0x2d || p.1 = 0x5f) && p.2 ≠ 0 && p.2 + 1 ≠ length)

def verifyName (name : Bytes) : Bool :=
  name.length ≠ 0 && name.length ≤ maxNameSize &&
    name.zipIdx.all (validNameChar name.length) && !nameBlacklist.contains name

section

variable (ctx : NameContext)

variable (covenant : Covenant)

def checkNameHashHeight (count : ℕ) : Result Unit := do
  failIf (covenant.items.length ≠ count)
    (badCovenant ("covenant has " ++ toString covenant.items.length ++ " items, want " ++
      toString count))
  failIf (covenantHash covenant 0 = none) (badCovenant "covenant name hash is invalid")
  failIf (covenantU32 covenant 1 = none) (badCovenant "covenant height is invalid")

def checkNamedCovenant (count : ℕ) : Result Unit := do
  checkNameHashHeight covenant count
  let name := covenantItem covenant 2
  failIf (verifyName name = false ∨ ctx.hashName name ≠ covenantHashMust covenant 0)
    (badCovenant "covenant name does not match hash")

def checkClaimCovenant : Result Unit := do
  checkNamedCovenant ctx covenant 6
  failIf (covenantU8 covenant 3 = none) (badCovenant "CLAIM flags are invalid")
  failIf (covenantHash covenant 4 = none) (badCovenant "CLAIM commit hash is invalid")
  failIf (covenantU32 covenant 5 = none) (badCovenant "CLAIM commit height is invalid")
  failIf (ctx.reserved (covenantHashMust covenant 0) = false)
    (badCovenant "CLAIM name is not reserved")

/-- `flags&1 != 0` of the flags in item 3. -/
def covenantWeak : Bool := (covenantU8 covenant 3).getD 0 &&& 1 ≠ 0

variable (tx : Tx)

def proofWitness (index : ℕ) : Option Bytes :=
  match tx.txIn[index]? with
  | some txIn =>
    match txIn.witness with
    | [proof] => some proof
    | _ => none
  | none => none

def checkCoinbaseClaimProofSanity (outputIndex : ℕ) (covenant : Covenant) : Result Unit :=
  match proofWitness tx outputIndex with
  | none => .error (badCovenant "coinbase CLAIM witness is missing")
  | some proof => do
    failIf (ctx.ownership.parses proof = false) (badCovenant "CLAIM ownership proof is invalid")
    failIf (ctx.ownership.isSane proof = false) (badCovenant "CLAIM ownership proof is not sane")
    failIf (ctx.ownership.name proof ≠ covenantItem covenant 2)
      (badCovenant "CLAIM ownership proof name mismatch")
    failIf (ctx.ownership.isWeak proof ≠ covenantWeak covenant)
      (badCovenant "CLAIM ownership proof weakness mismatch")

def checkCoinbaseAirdropProofSanity (outputIndex : ℕ) : Result Unit :=
  match proofWitness tx outputIndex with
  | none => .error (badCovenant "coinbase airdrop witness is missing")
  | some proof => do
    failIf (ctx.airdrop.parses proof = false) (badCovenant "airdrop proof is invalid")
    failIf (ctx.airdrop.isSane proof = false) (badCovenant "airdrop proof is not sane")

def checkUnknownCovenant : Result Unit := do
  failIf (covenant.items.length > maxCovenantItems)
    (badCovenant "unknown covenant has too many items")
  failIf (covenant.serializeSize > maxCovenantSize) (badCovenant "unknown covenant is too large")

def countCovenants (p : CovenantType → Bool) (txs : List Tx) : ℕ :=
  (txs.map fun tx => tx.txOut.countP fun txOut => p txOut.covenant.type).sum

def checkNameLimits (what : String) (txs : List Tx) : Result Unit := do
  let opens := countCovenants (· = .open) txs
  let updates := countCovenants isNameUpdateCovenant txs
  let renewals := countCovenants isRenewalNameCovenant txs
  failIf (opens > maxBlockNameOpens) (badCovenant (what ++ " contains too many name opens - got " ++
    toString opens ++ ", max " ++ toString maxBlockNameOpens))
  failIf (updates > maxBlockNameUpdates) (badCovenant (what ++
    " contains too many name updates - got " ++ toString updates ++ ", max " ++
    toString maxBlockNameUpdates))
  failIf (renewals > maxBlockNameRenewals) (badCovenant (what ++
    " contains too many name renewals - got " ++ toString renewals ++ ", max " ++
    toString maxBlockNameRenewals))

def checkTransactionNameLimits : Result Unit := checkNameLimits "transaction" [tx]

def checkCoinbaseOutput (i : ℕ) (covenant : Covenant) : Result Unit :=
  match covenant.type with
  | .none => do
    failIf (covenant.items.length ≠ 0) (badCovenant "NONE covenant has items")
    if 0 < i ∧ i < tx.txIn.length then checkCoinbaseAirdropProofSanity ctx tx i else .ok ()
  | .claim => do
    failIf (i = 0 ∨ i ≥ tx.txIn.length) (badCovenant "coinbase CLAIM is not linked")
    checkClaimCovenant ctx covenant
    checkCoinbaseClaimProofSanity ctx tx i covenant
  | _ => .error (badCovenant "coinbase creates non-claim covenant")

/-- A covenant that must stand at the index of an input. -/
def checkLinked (i : ℕ) (what : String) : Result Unit :=
  failIf (i ≥ tx.txIn.length) (badCovenant (what ++ " covenant is not linked"))

def checkOutputCovenant (i : ℕ) (covenant : Covenant) : Result Unit :=
  match covenant.type with
  | .none => failIf (covenant.items.length ≠ 0) (badCovenant "NONE covenant has items")
  | .claim => .error (badCovenant "non-coinbase CLAIM covenant")
  | .open => do
    checkNamedCovenant ctx covenant 3
    failIf ((covenantU32 covenant 1).getD 0 ≠ 0) (badCovenant "OPEN covenant has non-zero height")
  | .bid => do
    checkNamedCovenant ctx covenant 4
    failIf (covenantHash covenant 3 = none) (badCovenant "BID covenant blind is not a hash")
  | .reveal => do
    checkLinked tx i "REVEAL"
    checkNameHashHeight covenant 3
    failIf (covenantHash covenant 2 = none) (badCovenant "REVEAL covenant nonce is not a hash")
  | .redeem => do
    checkLinked tx i "REDEEM"
    checkNameHashHeight covenant 2
  | .register => do
    checkLinked tx i "REGISTER"
    checkNameHashHeight covenant 4
    failIf ((covenantItem covenant 2).length > maxResourceSize)
      (badCovenant "REGISTER resource is too large")
    failIf (covenantHash covenant 3 = none) (badCovenant "REGISTER renewal is not a hash")
  | .update => do
    checkLinked tx i "UPDATE"
    checkNameHashHeight covenant 3
    failIf ((covenantItem covenant 2).length > maxResourceSize)
      (badCovenant "UPDATE resource is too large")
  | .renew => do
    checkLinked tx i "RENEW"
    checkNameHashHeight covenant 3
    failIf (covenantHash covenant 2 = none) (badCovenant "RENEW renewal is not a hash")
  | .transfer => do
    checkLinked tx i "TRANSFER"
    checkNameHashHeight covenant 4
    failIf (covenantU8 covenant 2 = none ∨ (covenantU8 covenant 2).getD 0 > 31)
      (badCovenant "TRANSFER address version is invalid")
    failIf ((covenantItem covenant 3).length < 2 ∨ (covenantItem covenant 3).length > 40)
      (badCovenant "TRANSFER address hash is invalid")
  | .finalize => do
    checkLinked tx i "FINALIZE"
    checkNameHashHeight covenant 7
    failIf (verifyName (covenantItem covenant 2) = false ∨
        ctx.hashName (covenantItem covenant 2) ≠ covenantHashMust covenant 0)
      (badCovenant "FINALIZE name is invalid")
    failIf (covenantU8 covenant 3 = none) (badCovenant "FINALIZE flags are invalid")
    failIf (covenantU32 covenant 4 = none) (badCovenant "FINALIZE claim height is invalid")
    failIf (covenantU32 covenant 5 = none) (badCovenant "FINALIZE renewal count is invalid")
    failIf (covenantHash covenant 6 = none) (badCovenant "FINALIZE renewal is not a hash")
  | .revoke => do
    checkLinked tx i "REVOKE"
    checkNameHashHeight covenant 2
  | .unknown _ _ => checkUnknownCovenant covenant

def checkOutputs (check : ℕ → Covenant → Result Unit) : List (TxOut × ℕ) → Result Unit
  | [] => .ok ()
  | p :: outputs => do
    check p.2 p.1.covenant
    checkOutputs check outputs

def checkCovenantSanity : Result Unit := do
  checkTransactionNameLimits tx
  if tx.isCoinBase then do
    failIf (1 < tx.txIn.length ∧ tx.txOut.length < tx.txIn.length)
      (badCovenant "coinbase proof input is unlinked")
    checkOutputs (checkCoinbaseOutput ctx tx) tx.txOut.zipIdx
  else checkOutputs (checkOutputCovenant ctx tx) tx.txOut.zipIdx

end

/-! ## The limits of a block -/

def mutableNames (tx : Tx) : List Hash :=
  tx.txOut.filterMap fun txOut =>
    if isMutableNameCovenant txOut.covenant.type then covenantHash txOut.covenant 0 else none

def hasSeenMutableName (tx : Tx) (seen : Finset Hash) : Bool := (mutableNames tx).any (· ∈ seen)

def addMutableNames (tx : Tx) (seen : Finset Hash) : Finset Hash :=
  (mutableNames tx).foldl (fun seen nameHash => insert nameHash seen) seen

def checkDistinctNames : List Tx → Finset Hash → Result Unit
  | [], _ => .ok ()
  | tx :: txs, seen => do
    failIf (hasSeenMutableName tx seen = true)
      (badCovenant "block contains duplicate covenant name action across transactions")
    checkDistinctNames txs (addMutableNames tx seen)

def checkBlockNameLimits (block : Block) : Result Unit := do
  checkDistinctNames block.transactions ∅
  checkNameLimits "block" block.transactions

end HandshakeNode
