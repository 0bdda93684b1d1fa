import HandshakeNode.Airdrop

/-!
# Spent airdrops

One bit for every leaf of the airdrop and the faucet tree. A block sets the bits of the proofs in its
coinbase and clears them when it is disconnected. A field is changed in place: when a proof of a
block is refused, the bits of the proofs before it stay set in the field at hand, and only a field
that took the whole block is written to the database.
-/

namespace HandshakeNode

def airdropSpentFieldSize : ℕ := (airdropTreeLeaves.toNat + 7) / 8

structure AirdropSpentField where
  bits : Bytes
deriving DecidableEq

structure AirdropDb where
  airdropSpent : Option Bytes
deriving DecidableEq

def newAirdropSpentField : AirdropSpentField := ⟨List.replicate airdropSpentFieldSize 0⟩

namespace AirdropDb

def dbFetchAirdropSpentField (db : AirdropDb) : Result AirdropSpentField :=
  match db.airdropSpent with
  | none => .ok newAirdropSpentField
  | some serialized => do
    failIf (serialized.length ≠ airdropSpentFieldSize)
      (.corruption ("corrupt airdrop spent field length " ++ toString serialized.length))
    return ⟨serialized⟩

def dbPutAirdropSpentField (_ : AirdropDb) (field : AirdropSpentField) : AirdropDb :=
  ⟨some field.bits⟩

end AirdropDb

namespace AirdropSpentField

def mask (position : UInt32) : UInt8 := 1 <<< (7 - (position &&& 7)).toUInt8

variable (f : AirdropSpentField) (position : UInt32)

/-- `f.bits[position>>3]`, which is there for a field of the right size. -/
def byteAt : UInt8 :=
  f.bits.getD (position >>> 3).toNat 0

def isSpent : Bool :=
  if position ≥ airdropTreeLeaves then true else f.byteAt position &&& mask position ≠ 0

def setSpent (spent : Bool) : AirdropSpentField :=
  if position ≥ airdropTreeLeaves then f
  else if spent then
    ⟨f.bits.set (position >>> 3).toNat (f.byteAt position ||| mask position)⟩
  else ⟨f.bits.set (position >>> 3).toNat (f.byteAt position &&& ~~~mask position)⟩

end AirdropSpentField

/-- The proof at an input of a coinbase, nothing where the output is not a plain one. -/
def coinbaseAirdropProof (tx : Tx) (i : ℕ) : Result (Option AirdropProof) :=
  match tx.txIn[i]?, tx.txOut[i]? with
  | some txIn, some txOut =>
    if txOut.covenant.type ≠ .none then .ok none
    else
      match txIn.witness with
      | [witness] =>
        match parseAirdropProof witness with
        | .error _ => .error (badCovenant "airdrop proof is invalid")
        | .ok proof => do
          failIf (proof.isSane = false) (badCovenant "airdrop proof is not sane")
          return some proof
      | _ => .error (badCovenant "coinbase airdrop witness is invalid")
  | _, _ => .error (badCovenant "coinbase proof input is unlinked")

section

variable {σ : Type} (fn : σ → AirdropProof → Result Unit × σ)

/-- The loop of `forEachCoinbaseAirdropProof` over indices; `fn` may change what it works on and
then fail. -/
def forEachAirdropProof (tx : Tx) : List ℕ → σ → Result Unit × σ
  | [], s => (.ok (), s)
  | i :: is, s =>
    match coinbaseAirdropProof tx i with
    | .error e => (.error e, s)
    | .ok none => forEachAirdropProof tx is s
    | .ok (some proof) =>
      match fn s proof with
      | (.error e, s) => (.error e, s)
      | (.ok (), s) => forEachAirdropProof tx is s

def forEachCoinbaseAirdropProof (tx : Tx) (s : σ) : Result Unit × σ :=
  if tx.isCoinBase then forEachAirdropProof fn tx (List.range' 1 (tx.txIn.length - 1)) s
  else (.ok (), s)

/-- `forEachCoinbaseAirdropProof(block.Transactions()[0], fn)`, unless there is no transaction. -/
def forEachBlockAirdropProof (block : Block) (s : σ) : Result Unit × σ :=
  match block.transactions with
  | [] => (.ok (), s)
  | tx :: _ => forEachCoinbaseAirdropProof fn tx s

end

namespace AirdropSpentField

variable (f : AirdropSpentField)

def spendProof (proof : AirdropProof) : Result Unit × AirdropSpentField :=
  match proof.position with
  | .error _ => (.error (badCovenant "airdrop proof position is invalid"), f)
  | .ok position =>
    if f.isSpent position then (.error (badCovenant "airdrop proof already spent"), f)
    else (.ok (), f.setSpent position true)

def unspendProof (proof : AirdropProof) : Result Unit × AirdropSpentField :=
  match proof.position with
  | .error _ => (.error (badCovenant "airdrop proof position is invalid"), f)
  | .ok position => (.ok (), f.setSpent position false)

def spendBlock (block : Block) : Result Unit × AirdropSpentField :=
  forEachBlockAirdropProof spendProof block f

def unspendBlock (block : Block) : Result Unit × AirdropSpentField :=
  forEachBlockAirdropProof unspendProof block f

end AirdropSpentField

def updateAirdrops (change : AirdropSpentField → Result Unit × AirdropSpentField) (db : AirdropDb) :
    Result Unit × AirdropDb :=
  match db.dbFetchAirdropSpentField with
  | .error e => (.error e, db)
  | .ok field =>
    match change field with
    | (.error e, _) => (.error e, db)
    | (.ok (), field) => (.ok (), db.dbPutAirdropSpentField field)

def spendCoinbaseAirdrops (db : AirdropDb) (block : Block) : Result Unit × AirdropDb :=
  updateAirdrops (·.spendBlock block) db

def unspendCoinbaseAirdrops (db : AirdropDb) (block : Block) : Result Unit × AirdropDb :=
  updateAirdrops (·.unspendBlock block) db

section

variable {σ : Type}

def forBlocks (step : σ → Block → Result Unit × σ) : List Block → σ → Result Unit × σ
  | [], s => (.ok (), s)
  | block :: blocks, s =>
    match step s block with
    | (.error e, s) => (.error e, s)
    | (.ok (), s) => forBlocks step blocks s

def reorganize (undo apply : σ → Block → Result Unit × σ) (detached attached : List Block) (s : σ) :
    Result Unit × σ :=
  match forBlocks undo detached s with
  | (.error e, s) => (.error e, s)
  | (.ok (), s) => forBlocks apply attached s

end

def preflightAirdrops (detached attached : List Block) (field : AirdropSpentField) :
    Result Unit × AirdropSpentField :=
  reorganize AirdropSpentField.unspendBlock AirdropSpentField.spendBlock detached attached field

def reorganizeAirdrops (detached attached : List Block) (db : AirdropDb) :
    Result Unit × AirdropDb :=
  reorganize unspendCoinbaseAirdrops spendCoinbaseAirdrops detached attached db

end HandshakeNode
