import HandshakeNode.Lib.Codec
import HandshakeNode.Wire

/-!
# The encoding of transactions and blocks

`MsgTx` and `MsgBlock` as the wire package writes and reads them, with the limits that the decoders
check. A reader is a byte buffer, so what is left of it is known. The slab that witness items are
copied to is the number of its bytes that are free.
-/

namespace HandshakeNode

open LittleEndian Codec

/-! ## Numbers and fixed-size fields -/

variable (r : Bytes)

def readUint8 : Result (UInt8 × Bytes) := do
  let (buf, r) ← readFull r 1
  return (UInt8.ofNat (leNat buf), r)

def readUint32 : Result (UInt32 × Bytes) := do
  let (buf, r) ← readFull r 4
  return (UInt32.ofNat (leNat buf), r)

def readUint64 : Result (UInt64 × Bytes) := do
  let (buf, r) ← readFull r 8
  return (UInt64.ofNat (leNat buf), r)

def putUint8 (n : UInt8) : Bytes := leBytes 1 n.toNat

def putUint32 (n : UInt32) : Bytes := leBytes 4 n.toNat

def putUint64 (n : UInt64) : Bytes := leBytes 8 n.toNat

/-- `[n]byte`. -/
abbrev FixedBytes (n : ℕ) := { bs : Bytes // bs.length = n }

def readFixed (n : ℕ) (r : Bytes) : Result (FixedBytes n × Bytes) := do
  let (buf, r) ← readFull r n
  if h : buf.length = n then return (⟨buf, h⟩, r) else .error .unexpectedEOF

def readChainHash : Result (Hash × Bytes) := do
  let (buf, r) ← readFull r 32
  return (Hash.ofBytes buf, r)

def ensureElementCountFitsRemaining (count minElementSize : ℕ)
    (fieldName funcName : String) : Result Unit :=
  failIf (minElementSize ≠ 0 ∧ ¬ count ≤ r.length / minElementSize)
    (.message funcName (fieldName ++ " count exceeds remaining payload [count " ++ toString count ++
      ", min element size " ++ toString minElementSize ++ ", remaining " ++ toString r.length ++
      "]"))

/-- A count above the default allocation has to fit in what is left. -/
def checkAllocation (alloc count minElementSize : ℕ) (fieldName funcName : String) : Result Unit :=
  if count > alloc then ensureElementCountFitsRemaining r count minElementSize fieldName funcName
  else .ok ()

def maxAddressVersion : UInt8 := 31

def minAddressHashLen : ℕ := 2

def maxAddressHashLen : ℕ := 40

def validateAddressFields (version : UInt8) (hashLen : ℕ) (op : String) : Result Unit :=
  if version = 0 ∧ hashLen = 0 then .ok ()
  else do
    failIf (version > maxAddressVersion) (.message op ("address version " ++ toString version ++
      " exceeds max " ++ toString maxAddressVersion))
    failIf (hashLen < minAddressHashLen ∨ hashLen > maxAddressHashLen)
      (.message op ("address hash length " ++ toString hashLen ++ " outside valid range [" ++
        toString minAddressHashLen ++ ", " ++ toString maxAddressHashLen ++ "]"))
    failIf (version = 0 ∧ hashLen ≠ 20 ∧ hashLen ≠ 32)
      (.message op ("version 0 address requires hash length 20 or 32, got " ++ toString hashLen))

namespace Address

def encoded (a : Address) : Bytes :=
  [putUint8 a.version, putUint8 (UInt8.ofNat a.hash.length), a.hash].flatten

def encode (a : Address) : Result Bytes := do
  validateAddressFields a.version a.hash.length "Address.Encode"
  return a.encoded

def decode : Result (Address × Bytes) := do
  let (version, r) ← readUint8 r
  let (hashLen, r) ← readUint8 r
  validateAddressFields version hashLen.toNat "Address.Decode"
  let (hash, r) ← readFull r hashLen.toNat
  return (⟨version, hash⟩, r)

def serializeSize (a : Address) : ℕ := 2 + a.hash.length

end Address

def maxCovenantItemSize : ℕ := 585

namespace CovenantType

def toUInt8 : CovenantType → UInt8
  | none => 0
  | claim => 1
  | .open => 2
  | bid => 3
  | reveal => 4
  | redeem => 5
  | register => 6
  | update => 7
  | renew => 8
  | transfer => 9
  | finalize => 10
  | revoke => 11
  | unknown t _ => t

def ofUInt8 (t : UInt8) : CovenantType :=
  if h : 11 < t then unknown t h
  else if t = 0 then none
  else if t = 1 then claim
  else if t = 2 then .open
  else if t = 3 then bid
  else if t = 4 then reveal
  else if t = 5 then redeem
  else if t = 6 then register
  else if t = 7 then update
  else if t = 8 then renew
  else if t = 9 then transfer
  else if t = 10 then finalize
  else revoke

end CovenantType

def validateCovenantItems (op : String) : ℕ → List Bytes → Result Unit
  | _, [] => .ok ()
  | i, item :: items => do
    failIf (item.length > maxCovenantItemSize)
      (.message op ("covenant item " ++ toString i ++ " is too large [size " ++
        toString item.length ++ ", max " ++ toString maxCovenantItemSize ++ "]"))
    validateCovenantItems op (i + 1) items

def errCovenantItemCount (op : String) (itemCount : ℕ) : Err :=
  .message op ("covenant item count is too large [count " ++ toString itemCount ++ ", max " ++
    toString maxCovenantItems ++ "]")

def validateCovenantFields (itemCount : ℕ) (items : List Bytes) (op : String) : Result Unit := do
  failIf (itemCount > maxCovenantItems) (errCovenantItemCount op itemCount)
  validateCovenantItems op 0 items

namespace Covenant

def encoded (c : Covenant) : Bytes :=
  [putUint8 c.type.toUInt8, writeVarInt c.items.length, (c.items.map writeVarBytes).flatten].flatten

def encode (c : Covenant) : Result Bytes := do
  validateCovenantFields c.items.length c.items "Covenant.Encode"
  return c.encoded

def decode : Result (Covenant × Bytes) := do
  let (typ, r) ← readUint8 r
  let (itemCount, r) ← readVarInt r
  failIf (itemCount > maxCovenantItems) (errCovenantItemCount "Covenant.Decode" itemCount)
  let (items, r) ← readN (readVarBytes · maxCovenantItemSize "covenant item") itemCount r
  return (⟨.ofUInt8 typ, items⟩, r)

end Covenant

inductive MessageEncoding where
  | base
  | witness
deriving DecidableEq

structure MsgTxIn extends TxIn where
  sequence : UInt32
deriving DecidableEq

structure MsgTx where
  version : UInt32
  txIn : List MsgTxIn
  txOut : List TxOut
  lockTime : UInt32
deriving DecidableEq

def maxBlockPayload : ℕ := 4000000

def defaultTxInOutAlloc : ℕ := 15

def minTxInPayload : ℕ := 40

def maxTxInPerMessage : ℕ := maxBlockPayload / minTxInPayload + 1

def minTxOutPayload : ℕ := 12

def maxTxOutPerMessage : ℕ := maxBlockPayload / minTxOutPayload + 1

def maxWitnessItemsPerInput : ℕ := 1000

def maxWitnessItemSize : ℕ := 4000000

def scriptSlabSize : ℕ := 2 ^ 22

def writeOutPoint (o : OutPoint) : Bytes := [o.hash.bytes, putUint32 o.index].flatten

def readOutPoint : Result (OutPoint × Bytes) := do
  let (hash, r) ← readChainHash r
  let (index, r) ← readUint32 r
  return (⟨hash, index⟩, r)

def writeTxIn (ti : MsgTxIn) : Bytes :=
  [writeOutPoint ti.previousOutPoint, putUint32 ti.sequence].flatten

/-- `readTxInBuf`, which leaves the witness empty. -/
def readTxIn : Result (MsgTxIn × Bytes) := do
  let (previousOutPoint, r) ← readOutPoint r
  let (sequence, r) ← readUint32 r
  return (⟨⟨previousOutPoint, []⟩, sequence⟩, r)

def TxOut.encoded (txOut : TxOut) : Bytes :=
  [putUint64 txOut.value.toUInt64, txOut.address.encoded, txOut.covenant.encoded].flatten

def writeTxOut (txOut : TxOut) : Result Bytes := do
  let address ← txOut.address.encode
  let covenant ← txOut.covenant.encode
  return [putUint64 txOut.value.toUInt64, address, covenant].flatten

def readTxOut : Result (TxOut × Bytes) := do
  let (value, r) ← readUint64 r
  let (address, r) ← Address.decode r
  let (covenant, r) ← Covenant.decode r
  return (⟨value.toInt64, address, covenant⟩, r)

def TxOut.serializeSize (txOut : TxOut) : ℕ :=
  8 + txOut.address.serializeSize + txOut.covenant.serializeSize

/-- `readScriptBuf` into the `bufLen` bytes of a buffer. -/
def readScript (bufLen slabRemaining : ℕ) (fieldName : String) :
    Result (Bytes × Bytes) := do
  let (count, r) ← readVarInt r
  failIf (count > slabRemaining) (.message "readScript" (fieldName ++ " size " ++ toString count ++
    " exceeds remaining slab size " ++ toString slabRemaining))
  failIf (count > maxWitnessItemSize) (.message "readScript" (fieldName ++
    " is larger than the max allowed size [count " ++ toString count ++ ", max " ++
    toString maxWitnessItemSize ++ "]"))
  failIf (count > r.length) (if r.length = 0 then .eof else .unexpectedEOF)
  failIf (count > bufLen) (.message "readScript" (fieldName ++
    " exceeds remaining buffer capacity [count " ++ toString count ++ ", remaining " ++
    toString bufLen ++ "]"))
  readFull r count

/-- The witness items of one input, each taken off the slab; what is left of the slab is returned
with them. -/
def readWitnessItems : ℕ → ℕ → Bytes → Result ((List Bytes × ℕ) × Bytes)
  | 0, slab, r => .ok (([], slab), r)
  | n + 1, slab, r => do
    let (item, r) ← readScript r slab slab "script witness item"
    let ((items, slab), r) ← readWitnessItems n (slab - item.length) r
    return ((item :: items, slab), r)

def readTxWitness (slab : ℕ) (r : Bytes) : Result ((List Bytes × ℕ) × Bytes) := do
  let (witCount, r) ← readVarInt r
  failIf (witCount > maxWitnessItemsPerInput) (.message "MsgTx.BtcDecode"
    ("too many witness items to fit into max message size [count " ++ toString witCount ++
      ", max " ++ toString maxWitnessItemsPerInput ++ "]"))
  failIf (slab < witCount) (.message "MsgTx.BtcDecode" ("witness item count " ++
    toString witCount ++ " exceeds slab size " ++ toString slab))
  readWitnessItems witCount slab r

def readTxWitnesses : List MsgTxIn → ℕ → Bytes → Result (List MsgTxIn × Bytes)
  | [], _, r => .ok ([], r)
  | ti :: txIn, slab, r => do
    let ((witness, slab), r) ← readTxWitness slab r
    let (txIn, r) ← readTxWitnesses txIn slab r
    return ({ ti with witness := witness } :: txIn, r)

def writeTxWitness (wit : List Bytes) : Bytes :=
  [writeVarInt wit.length, (wit.map writeVarBytes).flatten].flatten

def witnessSerializeSize (wit : List Bytes) : ℕ :=
  varIntSerializeSize wit.length +
    (wit.map fun item => varIntSerializeSize item.length + item.length).sum

namespace MsgTx

def decodeWitness (enc : MessageEncoding) (txIn : List MsgTxIn) (slab : ℕ) (r : Bytes) :
    Result (List MsgTxIn × Bytes) :=
  match enc with
  | .base => .ok (txIn, r)
  | .witness => readTxWitnesses txIn slab r

/-- `btcDecode` with a slab of the given size. -/
def btcDecode (enc : MessageEncoding) (slab : ℕ) (r : Bytes) : Result (MsgTx × Bytes) := do
  let (version, r) ← readUint32 r
  let (count, r) ← readVarInt r
  failIf (count > maxTxInPerMessage) (.message "MsgTx.BtcDecode"
    ("too many input transactions to fit into max message size [count " ++ toString count ++
      ", max " ++ toString maxTxInPerMessage ++ "]"))
  checkAllocation r defaultTxInOutAlloc count minTxInPayload "transaction input" "MsgTx.BtcDecode"
  let (txIn, r) ← readN readTxIn count r
  let (count, r) ← readVarInt r
  failIf (count > maxTxOutPerMessage) (.message "MsgTx.BtcDecode"
    ("too many output transactions to fit into max message size [count " ++ toString count ++
      ", max " ++ toString maxTxOutPerMessage ++ "]"))
  checkAllocation r defaultTxInOutAlloc count minTxOutPayload "transaction output" "MsgTx.BtcDecode"
  let (txOut, r) ← readN readTxOut count r
  let (lockTime, r) ← readUint32 r
  let (txIn, r) ← decodeWitness enc txIn slab r
  return (⟨version, txIn, txOut, lockTime⟩, r)

def deserialize : Result (MsgTx × Bytes) := btcDecode .witness scriptSlabSize r

def parts (tx : MsgTx) (txOut : List Bytes) : List Bytes :=
  [putUint32 tx.version, writeVarInt tx.txIn.length, (tx.txIn.map writeTxIn).flatten,
    writeVarInt tx.txOut.length, txOut.flatten, putUint32 tx.lockTime]

def btcEncode (enc : MessageEncoding) (tx : MsgTx) : Result Bytes := do
  let txOut ← tx.txOut.mapM writeTxOut
  return (tx.parts txOut).flatten ++
    match enc with
    | .base => []
    | .witness => (tx.txIn.map fun ti => writeTxWitness ti.witness).flatten

def serialize (tx : MsgTx) : Result Bytes := btcEncode .witness tx

def baseSize (tx : MsgTx) : ℕ :=
  8 + varIntSerializeSize tx.txIn.length + varIntSerializeSize tx.txOut.length +
    40 * tx.txIn.length + (tx.txOut.map TxOut.serializeSize).sum

def serializeSize (tx : MsgTx) : ℕ :=
  tx.baseSize + (tx.txIn.map fun ti => witnessSerializeSize ti.witness).sum

end MsgTx

/-- The header; its time in seconds since the epoch. -/
structure BlockHeader where
  version : Int32
  prevBlock : Hash
  merkleRoot : Hash
  timestamp : Int64
  bits : UInt32
  nonce : UInt32
  nameRoot : Hash
  extraNonce : FixedBytes 24
  reservedRoot : Hash
  witnessRoot : Hash
  mask : Hash
deriving DecidableEq

def blockHeaderLen : ℕ := 236

def readBlockHeader : Result (BlockHeader × Bytes) := do
  let (nonce, r) ← readUint32 r
  let (timestamp, r) ← readUint64 r
  let (prevBlock, r) ← readChainHash r
  let (nameRoot, r) ← readChainHash r
  let (extraNonce, r) ← readFixed 24 r
  let (reservedRoot, r) ← readChainHash r
  let (witnessRoot, r) ← readChainHash r
  let (merkleRoot, r) ← readChainHash r
  let (version, r) ← readUint32 r
  let (bits, r) ← readUint32 r
  let (mask, r) ← readChainHash r
  return (⟨version.toInt32, prevBlock, merkleRoot, timestamp.toInt64, bits, nonce, nameRoot,
    extraNonce, reservedRoot, witnessRoot, mask⟩, r)

def writeBlockHeader (bh : BlockHeader) : Bytes :=
  [putUint32 bh.nonce, putUint64 bh.timestamp.toUInt64, bh.prevBlock.bytes, bh.nameRoot.bytes,
    bh.extraNonce.1, bh.reservedRoot.bytes, bh.witnessRoot.bytes, bh.merkleRoot.bytes,
    putUint32 bh.version.toUInt32, putUint32 bh.bits, bh.mask.bytes].flatten

structure MsgBlock where
  header : BlockHeader
  transactions : List MsgTx
deriving DecidableEq

/-- `TxLoc`: where the bytes of a transaction start, and how many they are. -/
structure TxLoc where
  txStart : ℕ
  txLen : ℕ
deriving DecidableEq

def minTxPayload : ℕ := 10

def defaultTransactionAlloc : ℕ := 2048

def maxTxPerBlock : ℕ := maxBlockPayload / minTxPayload + 1

namespace MsgBlock

def checkTxCount (funcName : String) (txCount : ℕ) (r : Bytes) : Result Unit := do
  failIf (txCount > maxTxPerBlock) (.message funcName
    ("too many transactions to fit into a block [count " ++ toString txCount ++ ", max " ++
      toString maxTxPerBlock ++ "]"))
  checkAllocation r defaultTransactionAlloc txCount minTxPayload "block transaction" funcName

def btcDecode (enc : MessageEncoding) (r : Bytes) : Result (MsgBlock × Bytes) := do
  let (header, r) ← readBlockHeader r
  let (txCount, r) ← readVarInt r
  checkTxCount "MsgBlock.BtcDecode" txCount r
  let (transactions, r) ← readN (MsgTx.btcDecode enc scriptSlabSize) txCount r
  return (⟨header, transactions⟩, r)

def deserialize : Result (MsgBlock × Bytes) := btcDecode .witness r

def readTxLocs (fullLen : ℕ) : ℕ → Bytes → Result ((List MsgTx × List TxLoc) × Bytes)
  | 0, r => .ok (([], []), r)
  | n + 1, r => do
    let txStart := fullLen - r.length
    let (tx, r) ← MsgTx.btcDecode .witness scriptSlabSize r
    let txLen := fullLen - r.length - txStart
    let ((txs, locs), r) ← readTxLocs fullLen n r
    return ((tx :: txs, ⟨txStart, txLen⟩ :: locs), r)

def deserializeTxLoc : Result ((MsgBlock × List TxLoc) × Bytes) := do
  let fullLen := r.length
  let (header, r) ← readBlockHeader r
  let (txCount, r) ← readVarInt r
  checkTxCount "MsgBlock.DeserializeTxLoc" txCount r
  let ((transactions, txLocs), r) ← readTxLocs fullLen txCount r
  return ((⟨header, transactions⟩, txLocs), r)

def btcEncode (enc : MessageEncoding) (msg : MsgBlock) : Result Bytes := do
  let transactions ← msg.transactions.mapM (MsgTx.btcEncode enc)
  return [writeBlockHeader msg.header, writeVarInt msg.transactions.length,
    transactions.flatten].flatten

def serialize (msg : MsgBlock) : Result Bytes := btcEncode .witness msg

def serializeSize (msg : MsgBlock) : ℕ :=
  blockHeaderLen + varIntSerializeSize msg.transactions.length +
    (msg.transactions.map MsgTx.serializeSize).sum

end MsgBlock

end HandshakeNode
