import HandshakeNode.MsgBlock
import HandshakeNode.Utxo

/-!
# The stored form of coins

How entries of the UTXO set and of the spend journal are turned into bytes and back. A decoder gives
what is left of its input where the source counts the bytes it has read. A function that writes into
a slice gives the bytes it writes.
-/

namespace HandshakeNode

def sizeVLQ : ℕ → UInt64 → ℕ
  | 0, _ => 1
  | fuel + 1, n => if n > 0x7f then sizeVLQ fuel ((n >>> 7) - 1) + 1 else 1

/-- A quantity of 64 bits takes ten bytes at most. -/
def serializeSizeVLQ (n : UInt64) : ℕ := sizeVLQ 10 n

def vlqLoop : ℕ → UInt8 → UInt64 → Bytes
  | 0, _, _ => []
  | fuel + 1, highBitMask, n =>
    ((n &&& 0x7f).toUInt8 ||| highBitMask) ::
      if n ≤ 0x7f then [] else vlqLoop fuel 0x80 ((n >>> 7) - 1)

def putVLQ (n : UInt64) : Bytes := (vlqLoop 10 0x00 n).reverse

def readVLQ : UInt64 → ℕ → Bytes → UInt64 × ℕ
  | n, size, [] => (n, size)
  | n, size, val :: serialized =>
    let n := (n <<< 7) ||| (val &&& 0x7f).toUInt64
    if val &&& 0x80 ≠ 0x80 then (n, size + 1) else readVLQ (n + 1) (size + 1) serialized

variable (serialized : Bytes)

def deserializeVLQ : UInt64 × ℕ := readVLQ 0 0 serialized

def outpointKey (outpoint : OutPoint) : Bytes :=
  outpoint.hash.bytes ++ putVLQ outpoint.index.toUInt64

def stripZeros : ℕ → UInt64 → UInt64 → UInt64 × UInt64
  | 0, amount, exponent => (amount, exponent)
  | k + 1, amount, exponent =>
    if amount % 10 = 0 then stripZeros k (amount / 10) (exponent + 1) else (amount, exponent)

def compressTxOutAmount (amount : UInt64) : UInt64 :=
  if amount = 0 then 0
  else
    let (amount, exponent) := stripZeros 9 amount 0
    if exponent < 9 then
      let lastDigit := amount % 10
      1 + 10 * (9 * (amount / 10) + lastDigit - 1) + exponent
    else 10 + 10 * (amount - 1)

def applyExponent : ℕ → UInt64 → UInt64
  | 0, n => n
  | exponent + 1, n => applyExponent exponent (n * 10)

def decompressTxOutAmount (amount : UInt64) : UInt64 :=
  if amount = 0 then 0
  else
    let amount := amount - 1
    let exponent := amount % 10
    let amount := amount / 10
    let n :=
      if exponent < 9 then
        let lastDigit := amount % 9 + 1
        amount / 9 * 10 + lastDigit
      else amount + 1
    applyExponent exponent.toNat n

def fillSlice (size : ℕ) (written : Bytes) : Result Bytes := do
  failIf (size < written.length) (.panic "index out of range")
  return written ++ List.replicate (size - written.length) 0

/-- `errDeserialize(context + err.Error())` when the call returns an error. -/
def orDeserialize {α : Type} (context : String) (r : Result α) : Result α :=
  r.mapError fun e => .deserialize (context ++ e.text)

def compressedHnsTxOutSize (amount : UInt64) (address : Address) (covenant : Covenant) : ℕ :=
  serializeSizeVLQ (compressTxOutAmount amount) + address.serializeSize + covenant.serializeSize

def putCompressedHnsTxOut (amount : UInt64) (address : Address) (covenant : Covenant) :
    Result Bytes := do
  let a ← orPanic "putCompressedHnsTxOut: invalid address: " address.encode
  let c ← orPanic "putCompressedHnsTxOut: invalid covenant: " covenant.encode
  let written := (a ++ c).length
  let expected := address.serializeSize + covenant.serializeSize
  failIf (written ≠ expected) (.panic ("putCompressedHnsTxOut: wrote " ++ toString written ++
    " bytes, want " ++ toString expected))
  return putVLQ (compressTxOutAmount amount) ++ (a ++ c)

def decodeCompressedHnsTxOut :
    Result ((UInt64 × Address × Covenant) × Bytes) := do
  let (compressedAmount, bytesRead) := deserializeVLQ serialized
  failIf (bytesRead ≥ serialized.length)
    (.deserialize "unexpected end of data after compressed amount")
  let (address, r) ← orDeserialize "unable to decode address: "
    (Address.decode (serialized.drop bytesRead))
  let (covenant, r) ← orDeserialize "unable to decode covenant: " (Covenant.decode r)
  return ((decompressTxOutAmount compressedAmount, address, covenant), r)

def headerCode (height : Int32) (isCoinBase : Bool) : UInt64 :=
  let headerCode := height.toInt64.toUInt64 <<< 1
  if isCoinBase then headerCode ||| 0x01 else headerCode

def headerIsCoinBase (code : UInt64) : Bool := code &&& 0x01 ≠ 0

def headerHeight (code : UInt64) : Int32 := (code >>> 1).toUInt32.toInt32

def utxoEntryHeaderCode (entry : UtxoEntry) : Result UInt64 := do
  failIf (entry.isSpent = true) (.assert "attempt to serialize spent utxo header")
  return headerCode entry.blockHeight entry.isCoinBase

/-- Nil for a spent entry. -/
def serializeUtxoEntry (entry : UtxoEntry) : Result (Option Bytes) :=
  if entry.isSpent then .ok none
  else do
    let headerCode ← utxoEntryHeaderCode entry
    let amount := entry.amount.toUInt64
    let size := serializeSizeVLQ headerCode +
      compressedHnsTxOutSize amount entry.address entry.covenant
    let txOut ← putCompressedHnsTxOut amount entry.address entry.covenant
    let serialized ← fillSlice size (putVLQ headerCode ++ txOut)
    return some serialized

def deserializeUtxoEntry : Result UtxoEntry := do
  let (code, offset) := deserializeVLQ serialized
  failIf (offset ≥ serialized.length) (.deserialize "unexpected end of data after header")
  let ((amount, address, covenant), _) ← orDeserialize "unable to decode utxo: "
    (decodeCompressedHnsTxOut (serialized.drop offset))
  return {
    amount := amount.toInt64
    address := address
    covenant := covenant
    pkScript := txOutPkScript ⟨amount.toInt64, address, covenant⟩
    blockHeight := headerHeight code
    packedFlags := { coinBase := headerIsCoinBase code } }

def spentTxOutHeaderCode (stxo : SpentTxOut) : UInt64 := headerCode stxo.height stxo.isCoinBase

def spentTxOutSerializeSize (stxo : SpentTxOut) : ℕ :=
  serializeSizeVLQ (spentTxOutHeaderCode stxo) +
    (if stxo.height > 0 then serializeSizeVLQ 0 else 0) +
    compressedHnsTxOutSize stxo.amount.toUInt64 stxo.address stxo.covenant

/-- A height above zero is followed by a reserved byte. -/
def putSpentTxOut (stxo : SpentTxOut) : Result Bytes := do
  let reserved := if stxo.height > 0 then putVLQ 0 else []
  let txOut ← putCompressedHnsTxOut stxo.amount.toUInt64 stxo.address stxo.covenant
  return putVLQ (spentTxOutHeaderCode stxo) ++ (reserved ++ txOut)

def decodeSpentTxOutTail (code : UInt64) (serialized : Bytes) : Result (SpentTxOut × Bytes) := do
  let ((amount, address, covenant), r) ← orDeserialize "unable to decode txout: "
    (decodeCompressedHnsTxOut serialized)
  let stxo : SpentTxOut :=
    { amount := amount.toInt64
      address := address
      covenant := covenant
      pkScript := txOutPkScript ⟨amount.toInt64, address, covenant⟩
      height := headerHeight code
      isCoinBase := headerIsCoinBase code }
  return (stxo, r)

def decodeSpentTxOutHns : Result (SpentTxOut × Bytes) := do
  failIf (serialized.length = 0) (.deserialize "no serialized bytes")
  let (code, offset) := deserializeVLQ serialized
  failIf (offset ≥ serialized.length) (.deserialize "unexpected end of data after header code")
  if headerHeight code > 0 then
    let offset := offset + (deserializeVLQ (serialized.drop offset)).2
    failIf (offset ≥ serialized.length) (.deserialize "unexpected end of data after reserved")
    decodeSpentTxOutTail code (serialized.drop offset)
  else decodeSpentTxOutTail code (serialized.drop offset)

def decodeStxos : List TxIn → List SpentTxOut → Bytes → Result (List SpentTxOut × Bytes)
  | [], stxos, r => .ok (stxos, r)
  | txIn :: txIns, stxos, r => do
    let (stxo, r) ← orDeserialize ("unable to decode stxo for " ++
      toString txIn.previousOutPoint ++ ": ") (decodeSpentTxOutHns r)
    decodeStxos txIns (stxo :: stxos) r

def decodeTxStxos : List Tx → List SpentTxOut → Bytes → Result (List SpentTxOut × Bytes)
  | [], stxos, r => .ok (stxos, r)
  | tx :: txns, stxos, r => do
    let (stxos, r) ← decodeStxos tx.txIn.reverse stxos r
    decodeTxStxos txns stxos r

def deserializeSpendJournalEntry (txns : List Tx) :
    Result (List SpentTxOut) := do
  let numStxos := (txns.map fun tx => tx.txIn.length).sum
  if serialized.length = 0 then
    failIf (numStxos ≠ 0) (.assert ("mismatched spend journal serialization - no serialization " ++
      "for expected " ++ toString numStxos ++ " stxos"))
    return []
  else
    let (stxos, r) ← decodeTxStxos txns.reverse [] serialized
    failIf (r.length ≠ 0) (.deserialize ("mismatched spend journal serialization - decoded " ++
      toString (serialized.length - r.length) ++ " bytes, but serialized entry is " ++
      toString serialized.length ++ " bytes"))
    return stxos

def putSpentTxOuts : List SpentTxOut → Result Bytes
  | [] => .ok []
  | stxo :: stxos => do
    let b ← putSpentTxOut stxo
    let bs ← putSpentTxOuts stxos
    return b ++ bs

def serializeSpendJournalEntry (stxos : List SpentTxOut) : Result Bytes :=
  if stxos.length = 0 then .ok []
  else do
    let size := (stxos.map spentTxOutSerializeSize).sum
    let written ← putSpentTxOuts stxos.reverse
    fillSlice size written

end HandshakeNode
