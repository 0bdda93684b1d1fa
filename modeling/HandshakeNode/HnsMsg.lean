import HandshakeNode.MsgBlock

/-!
# The Handshake messages between peers

The messages with their payloads, the envelope around a payload, and the two ways to read one: out
of a byte string that holds it (`DecodeHnsMessage`) and off a stream (`ReadHnsMessageN`). A payload
is read off its front; a slice beyond its end is a panic. A Go string is its bytes.
-/

namespace HandshakeNode

open LittleEndian Codec

inductive HnsMsgType where
  | version
  | verack
  | ping
  | pong
  | getAddr
  | addr
  | inv
  | getData
  | notFound
  | getBlocks
  | getHeaders
  | headers
  | sendHeaders
  | block
  | tx
  | reject
  | mempool
  | filterLoad
  | filterAdd
  | filterClear
  | merkleBlock
  | feeFilter
  | sendCmpct
  | cmpctBlock
  | getBlockTxn
  | blockTxn
  | getProof
  | proof
  | claim
  | airDrop
  | unknown
  | unsupported (t : UInt8) (h : 30 < t)
deriving DecidableEq

namespace HnsMsgType

/-- The types with a number up to `HnsMsgTypeUnknown`, in the order of their numbers. -/
def supported : List HnsMsgType :=
  [version, verack, ping, pong, getAddr, addr, inv, getData, notFound, getBlocks, getHeaders,
    headers, sendHeaders, block, tx, reject, mempool, filterLoad, filterAdd, filterClear,
    merkleBlock, feeFilter, sendCmpct, cmpctBlock, getBlockTxn, blockTxn, getProof, proof, claim,
    airDrop, unknown]

def toUInt8 : HnsMsgType → UInt8
  | unsupported t _ => t
  | t => UInt8.ofNat (supported.idxOf t)

def ofUInt8 (t : UInt8) : HnsMsgType :=
  if h : 30 < t then unsupported t h else supported.getD t.toNat unknown

def names : List String :=
  ["version", "verack", "ping", "pong", "getaddr", "addr", "inv", "getdata", "notfound",
    "getblocks", "getheaders", "headers", "sendheaders", "block", "tx", "reject", "mempool",
    "filterload", "filteradd", "filterclear", "merkleblock", "feefilter", "sendcmpct",
    "cmpctblock", "getblocktxn", "blocktxn", "getproof", "proof", "claim", "airdrop", "unknown"]

instance : ToString HnsMsgType where
  toString
    | unsupported t _ => "unknown (" ++ toString t ++ ")"
    | t => names.getD (supported.idxOf t) ""

/-- The Go type of the messages of a type, as `%T` prints it. -/
def goType (t : HnsMsgType) : String :=
  "*wire.HnsMsg" ++ ["Version", "Verack", "Ping", "Pong", "GetAddr", "Addr", "Inv", "GetData",
    "NotFound", "GetBlocks", "GetHeaders", "Headers", "SendHeaders", "Block", "Tx", "Reject",
    "MemPool", "FilterLoad", "FilterAdd", "FilterClear", "MerkleBlock", "FeeFilter", "SendCmpct",
    "CmpctBlock", "GetBlockTxn", "BlockTxn", "GetProof", "Proof", "Claim", "AirDrop",
    "Unknown"].getD (supported.idxOf t) ""

end HnsMsgType

/-! ## Slices of a payload -/

variable (data : Bytes)

def takeUint8 : Result (UInt8 × Bytes) := do
  let (b, data) ← sliceAt data 1
  return (UInt8.ofNat (leNat b), data)

def takeUint16 : Result (UInt16 × Bytes) := do
  let (b, data) ← sliceAt data 2
  return (UInt16.ofNat (leNat b), data)

def takeUint32 : Result (UInt32 × Bytes) := do
  let (b, data) ← sliceAt data 4
  return (UInt32.ofNat (leNat b), data)

def takeUint64 : Result (UInt64 × Bytes) := do
  let (b, data) ← sliceAt data 8
  return (UInt64.ofNat (leNat b), data)

def takeBigUint16 : Result (UInt16 × Bytes) := do
  let (b, data) ← sliceAt data 2
  return (UInt16.ofNat (leNat b.reverse), data)

def takeHash : Result (Hash × Bytes) := do
  let (b, data) ← sliceAt data 32
  return (Hash.ofBytes b, data)

def takeFixed (n : ℕ) (data : Bytes) : Result (FixedBytes n × Bytes) := do
  let (b, data) ← sliceAt data n
  if h : b.length = n then return (⟨b, h⟩, data) else .error (.panic "slice bounds out of range")

def putUint16 (n : UInt16) : Bytes := leBytes 2 n.toNat

def putBigUint16 (n : UInt16) : Bytes := (leBytes 2 n.toNat).reverse

/-- The `k`-byte number after a discriminant. -/
def hnsReadUvarintTail (what : String) (discriminant k min : ℕ) (data : Bytes) :
    Result (ℕ × Bytes) := do
  failIf (data.length < k) (.plain ("invalid length for " ++ what))
  let val := leNat (data.take k)
  failIf (val < min) (.plain ("non-canonical varint " ++ hexString val ++ " - discriminant " ++
    hexString discriminant ++ " must encode a value greater than " ++ hexString min))
  return (val, data.drop k)

/-- `hnsReadUvarint`; it returns what is left of the data in place of the number of bytes read. -/
def hnsReadUvarint : Bytes → Result (ℕ × Bytes)
  | [] => .error (.plain "data is empty")
  | b :: data =>
    if b = 0xff then hnsReadUvarintTail "uint64" 0xff 8 0x100000000 data
    else if b = 0xfe then hnsReadUvarintTail "uint32" 0xfe 4 0x10000 data
    else if b = 0xfd then hnsReadUvarintTail "uint16" 0xfd 2 0xfd data
    else .ok (b.toNat, data)

def hnsWriteUvarint (val : ℕ) : Bytes :=
  if val < 0xfd then [UInt8.ofNat val]
  else if val ≤ 0xffff then 0xfd :: leBytes 2 val
  else if val ≤ 0xffffffff then 0xfe :: leBytes 4 val
  else 0xff :: leBytes 8 val

/-- `net.IP.To4`. -/
def ipTo4 (ip : Bytes) : Option Bytes :=
  if ip.length = 4 then some ip
  else if ip.length = 16 ∧ ip.take 12 = List.replicate 10 0 ++ [0xff, 0xff] then some (ip.drop 12)
  else none

/-- `net.IP.To16` of an address that is not an IPv4 one. -/
def ipTo16 (ip : Bytes) : Option Bytes := if ip.length = 16 then some ip else none

def hnsIPv4MappedPrefixBytes : Bytes := List.replicate 10 0 ++ [0xff, 0xff]

def isHnsIPv4Mapped (ip : Bytes) : Bool :=
  ip.length = 16 && ip.take 12 = hnsIPv4MappedPrefixBytes

structure HnsNetAddress where
  time : UInt64
  services : UInt64
  host : Bytes
  reserved : FixedBytes 20
  port : UInt16
  key : FixedBytes 33
deriving DecidableEq

def hnsNetAddressSize : ℕ := 88

namespace HnsNetAddress

def encodeHost (host : Bytes) : Bytes :=
  match ipTo4 host with
  | some v4 => hnsIPv4MappedPrefixBytes ++ v4
  | none =>
    match ipTo16 host with
    | some v6 => v6
    | none => List.replicate 16 0

def encode (n : HnsNetAddress) : Bytes :=
  [putUint64 n.time, putUint64 n.services, [0], encodeHost n.host, n.reserved.1,
    putBigUint16 n.port, n.key.1].flatten

/-- The host that sixteen bytes stand for; `To4` of a mapped one is its last four bytes. -/
def decodeHost (host : Bytes) : Bytes := if isHnsIPv4Mapped host then host.drop 12 else host

def take : Result (HnsNetAddress × Bytes) := do
  let (time, data) ← takeUint64 data
  let (services, data) ← takeUint64 data
  let (addrType, data) ← takeUint8 data
  failIf (addrType ≠ 0) (.plain ("handshake netaddress: unsupported address type " ++
    toString addrType))
  let (host, data) ← sliceAt data 16
  let (reserved, data) ← takeFixed 20 data
  let (port, data) ← takeBigUint16 data
  let (key, data) ← takeFixed 33 data
  return (⟨time, services, decodeHost host, reserved, port, key⟩, data)

def decode : Result HnsNetAddress := do
  failIf (data.length ≠ hnsNetAddressSize) (.plain ("handshake netaddress: expected " ++
    toString hnsNetAddressSize ++ " bytes, got " ++ toString data.length))
  let (n, _) ← take data
  return n

end HnsNetAddress

/-! ## Lists of items of one size -/

def takeItem {α : Type} (context : String) (size : ℕ) (dec : Bytes → Result α) (data : Bytes) :
    Result (α × Bytes) := do
  let (item, data) ← sliceAt data size
  let a ← wrapErr context (dec item)
  return (a, data)

def decodeItems {α : Type} (context : String) (size : ℕ) (dec : Bytes → Result α) :
    ℕ → ℕ → Bytes → Result (List α × Bytes)
  | _, 0, data => .ok ([], data)
  | i, n + 1, data => do
    let (a, data) ← takeItem (context ++ " " ++ toString i) size dec data
    let (as, data) ← decodeItems context size dec (i + 1) n data
    return (a :: as, data)

/-- A count and as many items, to the end of the payload: the peers of an `addr`, the items of an
inventory and the headers of a `headers` message. -/
def decodeCounted {α : Type} (msgName noun plural : String) (size : ℕ) (dec : Bytes → Result α)
    (data : Bytes) : Result (List α) := do
  let (count, data) ← wrapErr (msgName ++ ": " ++ noun ++ " count") (hnsReadUvarint data)
  failIf (count > data.length / size) (.plain (msgName ++ ": " ++ noun ++ " count " ++
    toString count ++ " exceeds payload length " ++ toString data.length))
  failIf (data.length ≠ count * size) (.plain (msgName ++ ": invalid payload length for " ++
    toString count ++ " " ++ plural ++ ": got " ++ toString data.length ++ ", want " ++
    toString (count * size)))
  let (items, _) ← decodeItems (msgName ++ ": " ++ noun) size dec 0 count data
  return items

def encodeCounted {α : Type} (enc : α → Bytes) (items : List α) : Bytes :=
  hnsWriteUvarint items.length ++ (items.map enc).flatten

structure HnsInvItem where
  type : UInt32
  hash : Hash
deriving DecidableEq

def hnsInvItemSize : ℕ := 36

namespace HnsInvItem

def encode (i : HnsInvItem) : Bytes := [putUint32 i.type, i.hash.bytes].flatten

def take : Result (HnsInvItem × Bytes) := do
  let (type, data) ← takeUint32 data
  let (hash, data) ← takeHash data
  return (⟨type, hash⟩, data)

def decode : Result HnsInvItem := do
  failIf (data.length ≠ hnsInvItemSize) (.plain ("handshake inventory item: expected " ++
    toString hnsInvItemSize ++ " bytes, got " ++ toString data.length))
  let (i, _) ← take data
  return i

end HnsInvItem

def hnsEncodeInvItems (inventory : List HnsInvItem) : Bytes :=
  encodeCounted HnsInvItem.encode inventory

def hnsDecodeInvItems (msgName : String) (data : Bytes) : Result (List HnsInvItem) :=
  decodeCounted msgName "inventory" "inventory items" hnsInvItemSize HnsInvItem.decode data

def decodeHeader : Result BlockHeader := do
  let (header, _) ← readBlockHeader data
  return header

def maxInvPerMsg : ℕ := 50000

def maxBlockLocatorsPerMsg : ℕ := maxInvPerMsg

structure HnsLocator where
  locator : List Hash
  stopHash : Hash
deriving DecidableEq

namespace HnsLocator

def encode (m : HnsLocator) : Bytes :=
  [hnsWriteUvarint m.locator.length, (m.locator.map Hash.bytes).flatten, m.stopHash.bytes].flatten

def take (count : ℕ) (data : Bytes) : Result (HnsLocator × Bytes) := do
  let (locator, data) ← readN takeHash count data
  let (stopHash, data) ← takeHash data
  return (⟨locator, stopHash⟩, data)

def decode (msgName : String) (data : Bytes) : Result HnsLocator := do
  let (count, data) ← wrapErr (msgName ++ ": locator count") (hnsReadUvarint data)
  failIf (count > maxBlockLocatorsPerMsg) (.plain (msgName ++ ": locator count " ++
    toString count ++ " exceeds maximum " ++ toString maxBlockLocatorsPerMsg))
  failIf (data.length < 32) (.plain (msgName ++ ": payload missing stop hash"))
  failIf (count > (data.length - 32) / 32) (.plain (msgName ++ ": locator count " ++
    toString count ++ " exceeds payload length " ++ toString data.length))
  failIf (data.length ≠ count * 32 + 32) (.plain (msgName ++ ": invalid payload length for " ++
    toString count ++ " locators: got " ++ toString data.length ++ ", want " ++
    toString (count * 32 + 32)))
  let (m, _) ← take count data
  return m

end HnsLocator

structure HnsMsgVersion where
  version : UInt32
  services : UInt64
  time : UInt64
  remote : HnsNetAddress
  nonce : FixedBytes 8
  agent : Bytes
  height : UInt32
  noRelay : Bool
deriving DecidableEq

def hnsMsgVersionFixedSize : ℕ := 4 + 8 + 8 + hnsNetAddressSize + 8 + 1

def hnsMaxUserAgentLen : ℕ := 255

def takeNoRelay : Result (Bool × Bytes) := do
  let (b, data) ← takeUint8 data
  if b = 0 then .ok (false, data)
  else if b = 1 then .ok (true, data)
  else .error (.plain ("version: invalid no-relay byte " ++ toString b))

namespace HnsMsgVersion

def encode (m : HnsMsgVersion) : Bytes :=
  let agent := m.agent.take hnsMaxUserAgentLen
  [putUint32 m.version, putUint64 m.services, putUint64 m.time, m.remote.encode, m.nonce.1,
    putUint8 (UInt8.ofNat agent.length), agent, putUint32 m.height,
    putUint8 (if m.noRelay then 1 else 0)].flatten

def decode : Result HnsMsgVersion := do
  failIf (data.length < hnsMsgVersionFixedSize) (.plain
    ("version: payload shorter than fixed header (" ++ toString data.length ++ " < " ++
      toString hnsMsgVersionFixedSize ++ ")"))
  let (version, data) ← takeUint32 data
  let (services, data) ← takeUint64 data
  let (time, data) ← takeUint64 data
  let (remote, data) ←
    takeItem "version: remote address" hnsNetAddressSize HnsNetAddress.decode data
  let (nonce, data) ← takeFixed 8 data
  let (agentLen, data) ← takeUint8 data
  failIf (data.length < agentLen.toNat + 4 + 1) (.plain
    ("version: payload too short for agent length " ++ toString agentLen ++ " (have " ++
      toString data.length ++ " bytes after header)"))
  let (agent, data) ← sliceAt data agentLen.toNat
  let (height, data) ← takeUint32 data
  let (noRelay, data) ← takeNoRelay data
  failIf (data.length ≠ 0) (.plain ("version: " ++ toString data.length ++
    " trailing bytes after payload"))
  return ⟨version, services, time, remote, nonce, agent, height, noRelay⟩

end HnsMsgVersion

/-! ## Blocks and transactions

The error of a serializer is dropped, so the payload is what it wrote before it failed. -/

/-- Writes in turn up to and including the first one that fails: the bytes, and whether all
succeeded. -/
def writeInTurn {α : Type} (write : α → Bytes × Bool) : List α → Bytes × Bool
  | [] => ([], true)
  | a :: as =>
    match write a with
    | (s, false) => (s, false)
    | (s, true) => (s ++ (writeInTurn write as).1, (writeInTurn write as).2)

def TxOut.written (txOut : TxOut) : Bytes × Bool :=
  match txOut.address.encode, txOut.covenant.encode with
  | .ok address, .ok covenant => ([putUint64 txOut.value.toUInt64, address, covenant].flatten, true)
  | .ok address, .error _ => ([putUint64 txOut.value.toUInt64, address].flatten, false)
  | .error _, _ => (putUint64 txOut.value.toUInt64, false)

def MsgTx.written (tx : MsgTx) : Bytes × Bool :=
  let front := [putUint32 tx.version, writeVarInt tx.txIn.length, (tx.txIn.map writeTxIn).flatten,
    writeVarInt tx.txOut.length].flatten
  match writeInTurn TxOut.written tx.txOut with
  | (s, false) => (front ++ s, false)
  | (s, true) => ([front, s, putUint32 tx.lockTime,
      (tx.txIn.map fun ti => writeTxWitness ti.witness).flatten].flatten, true)

def MsgBlock.written (msg : MsgBlock) : Bytes × Bool :=
  let front := writeBlockHeader msg.header ++ writeVarInt msg.transactions.length
  match writeInTurn MsgTx.written msg.transactions with
  | (s, ok) => (front ++ s, ok)

def decodeSerialized {α : Type} (msgName : String) (dec : Bytes → Result (α × Bytes))
    (data : Bytes) : Result α := do
  failIf (data.length = 0) (.plain (msgName ++ ": empty payload"))
  let (a, r) ← wrapErr msgName (dec data)
  failIf (r.length ≠ 0) (.plain (msgName ++ ": unexpected trailing payload bytes: " ++
    toString r.length))
  return a

structure MsgMerkleBlock where
  header : BlockHeader
  transactions : UInt32
  hashes : List Hash
  flags : Bytes
deriving DecidableEq

def maxFlagsPerMerkleBlock : ℕ := maxTxPerBlock / 8

namespace MsgMerkleBlock

/-- `BtcDecode` at the current protocol version. -/
def btcDecode (r : Bytes) : Result (MsgMerkleBlock × Bytes) := do
  let (header, r) ← readBlockHeader r
  let (transactions, r) ← readUint32 r
  let (count, r) ← readVarInt r
  failIf (count > maxTxPerBlock) (.message "MsgMerkleBlock.BtcDecode"
    ("too many transaction hashes for message [count " ++ toString count ++ ", max " ++
      toString maxTxPerBlock ++ "]"))
  checkAllocation r defaultTransactionAlloc count 32 "merkle block hash" "MsgMerkleBlock.BtcDecode"
  let (hashes, r) ← readN readChainHash count r
  let (flags, r) ← readVarBytes r maxFlagsPerMerkleBlock "merkle block flags size"
  return (⟨header, transactions, hashes, flags⟩, r)

def written (m : MsgMerkleBlock) : Bytes :=
  if m.hashes.length > maxTxPerBlock ∨ m.flags.length > maxFlagsPerMerkleBlock then []
  else [writeBlockHeader m.header, putUint32 m.transactions, writeVarInt m.hashes.length,
    (m.hashes.map Hash.bytes).flatten, writeVarBytes m.flags].flatten

end MsgMerkleBlock

/-! ## The other messages -/

def hnsRejectMessageRequiresHash : HnsMsgType → Bool
  | .block | .tx | .claim | .airDrop => true
  | _ => false

structure HnsMsgReject where
  message : HnsMsgType
  code : UInt8
  reason : Bytes
  hash : Hash
deriving DecidableEq

namespace HnsMsgReject

def encode (m : HnsMsgReject) : Bytes :=
  let reason := m.reason.take 255
  [putUint8 m.message.toUInt8, putUint8 m.code, putUint8 (UInt8.ofNat reason.length), reason,
    if hnsRejectMessageRequiresHash m.message then m.hash.bytes else []].flatten

def decodeHash (message : HnsMsgType) (data : Bytes) : Result Hash :=
  if hnsRejectMessageRequiresHash message then do
    failIf (data.length ≠ 32) (.plain ("reject: expected 32-byte hash, got " ++
      toString data.length))
    return Hash.ofBytes data
  else do
    failIf (data.length ≠ 0) (.plain ("reject: unexpected trailing payload bytes: " ++
      toString data.length))
    return Hash.zero

def decode : Result HnsMsgReject := do
  failIf (data.length < 3) (.plain ("reject: expected at least 3 bytes, got " ++
    toString data.length))
  let (message, data) ← takeUint8 data
  let (code, data) ← takeUint8 data
  let (reasonLen, data) ← takeUint8 data
  failIf (data.length < reasonLen.toNat) (.plain ("reject: reason length " ++ toString reasonLen ++
    " exceeds payload length " ++ toString data.length))
  let (reason, data) ← sliceAt data reasonLen.toNat
  let hash ← decodeHash (.ofUInt8 message) data
  return ⟨.ofUInt8 message, code, reason, hash⟩

end HnsMsgReject

structure HnsMsgFilterLoad where
  filter : Bytes
  hashFuncs : UInt32
  tweak : UInt32
  flags : UInt8
deriving DecidableEq

def maxFilterLoadFilterSize : ℕ := 36000

def maxFilterLoadHashFuncs : UInt32 := 50

def bloomUpdateP2PubkeyOnly : UInt8 := 2

namespace HnsMsgFilterLoad

def encode (m : HnsMsgFilterLoad) : Bytes :=
  [hnsWriteUvarint m.filter.length, m.filter, putUint32 m.hashFuncs, putUint32 m.tweak,
    putUint8 m.flags].flatten

def take (filterLen : ℕ) (data : Bytes) : Result (HnsMsgFilterLoad × Bytes) := do
  let (filter, data) ← sliceAt data filterLen
  let (hashFuncs, data) ← takeUint32 data
  failIf (hashFuncs > maxFilterLoadHashFuncs) (.plain ("filterload: hash function count " ++
    toString hashFuncs ++ " exceeds maximum " ++ toString maxFilterLoadHashFuncs))
  let (tweak, data) ← takeUint32 data
  let (flags, data) ← takeUint8 data
  failIf (flags > bloomUpdateP2PubkeyOnly) (.plain ("filterload: invalid update flag: " ++
    toString flags))
  return (⟨filter, hashFuncs, tweak, flags⟩, data)

def decode : Result HnsMsgFilterLoad := do
  let (filterLen, data) ← wrapErr "filterload: filter length" (hnsReadUvarint data)
  failIf (filterLen > data.length) (.plain ("filterload: filter length " ++ toString filterLen ++
    " exceeds payload length " ++ toString data.length))
  failIf (filterLen > maxFilterLoadFilterSize) (.plain ("filterload: filter length " ++
    toString filterLen ++ " exceeds maximum " ++ toString maxFilterLoadFilterSize))
  failIf (data.length ≠ filterLen + 9) (.plain ("filterload: invalid payload length: got " ++
    toString data.length ++ ", want " ++ toString (filterLen + 9)))
  let (m, _) ← take filterLen data
  return m

end HnsMsgFilterLoad

def maxFilterAddDataSize : ℕ := 520

def decodeFilterAdd : Result Bytes := do
  let (count, data) ← wrapErr "filteradd: data length" (hnsReadUvarint data)
  failIf (count > data.length) (.plain ("filteradd: data length " ++ toString count ++
    " exceeds payload length " ++ toString data.length))
  failIf (count > maxFilterAddDataSize) (.plain ("filteradd: data length " ++ toString count ++
    " exceeds maximum " ++ toString maxFilterAddDataSize))
  failIf (data.length ≠ count) (.plain ("filteradd: invalid payload length: got " ++
    toString data.length ++ ", want " ++ toString count))
  return data

def decodeFixedSize {α : Type} (msgName : String) (size : ℕ) (take : Bytes → Result (α × Bytes))
    (data : Bytes) : Result α := do
  failIf (data.length ≠ size) (.plain (msgName ++ ": expected " ++ toString size ++
    "-byte payload, got " ++ toString data.length))
  let (a, _) ← take data
  return a

def takeSendCmpct : Result ((UInt8 × UInt64) × Bytes) := do
  let (mode, data) ← takeUint8 data
  let (version, data) ← takeUint64 data
  return ((mode, version), data)

def takeRootKey : Result ((Hash × Hash) × Bytes) := do
  let (root, data) ← takeHash data
  let (key, data) ← takeHash data
  return ((root, key), data)

def decodeProof : Result (Hash × Hash × Bytes) := do
  failIf (data.length < 64) (.plain ("proof: expected at least 64 bytes, got " ++
    toString data.length))
  let (root, data) ← takeHash data
  let (key, proof) ← takeHash data
  return (root, key, proof)

def encodeClaim (claim : Bytes) : Bytes :=
  let claim := claim.take 0xffff
  [putUint16 (UInt16.ofNat claim.length), claim].flatten

def decodeClaim : Result Bytes := do
  failIf (data.length < 2) (.plain ("claim: expected at least 2 bytes, got " ++
    toString data.length))
  let (claimLen, data) ← takeUint16 data
  failIf (data.length ≠ claimLen.toNat) (.plain ("claim: invalid payload length: got " ++
    toString data.length ++ ", want " ++ toString claimLen.toNat))
  return data

inductive HandshakeMessage where
  | version (m : HnsMsgVersion)
  | verack
  | ping (nonce : FixedBytes 8)
  | pong (nonce : FixedBytes 8)
  | getAddr
  | addr (peers : List HnsNetAddress)
  | inv (inventory : List HnsInvItem)
  | getData (inventory : List HnsInvItem)
  | notFound (inventory : List HnsInvItem)
  | getBlocks (m : HnsLocator)
  | getHeaders (m : HnsLocator)
  | headers (headers : List BlockHeader)
  | sendHeaders
  | block (block : MsgBlock)
  | tx (tx : MsgTx)
  | reject (m : HnsMsgReject)
  | mempool
  | filterLoad (m : HnsMsgFilterLoad)
  | filterAdd (data : Bytes)
  | filterClear
  | merkleBlock (m : MsgMerkleBlock)
  | feeFilter (rate : Int64)
  | sendCmpct (mode : UInt8) (version : UInt64)
  | cmpctBlock (payload : Bytes)
  | getBlockTxn (payload : Bytes)
  | blockTxn (payload : Bytes)
  | getProof (root key : Hash)
  | proof (root key : Hash) (proof : Bytes)
  | claim (claim : Bytes)
  | airDrop (payload : Bytes)
  | unknown (payload : Bytes)
deriving DecidableEq

namespace HandshakeMessage

def type : HandshakeMessage → HnsMsgType
  | version _ => .version
  | verack => .verack
  | ping _ => .ping
  | pong _ => .pong
  | getAddr => .getAddr
  | addr _ => .addr
  | inv _ => .inv
  | getData _ => .getData
  | notFound _ => .notFound
  | getBlocks _ => .getBlocks
  | getHeaders _ => .getHeaders
  | headers _ => .headers
  | sendHeaders => .sendHeaders
  | block _ => .block
  | tx _ => .tx
  | reject _ => .reject
  | mempool => .mempool
  | filterLoad _ => .filterLoad
  | filterAdd _ => .filterAdd
  | filterClear => .filterClear
  | merkleBlock _ => .merkleBlock
  | feeFilter _ => .feeFilter
  | sendCmpct _ _ => .sendCmpct
  | cmpctBlock _ => .cmpctBlock
  | getBlockTxn _ => .getBlockTxn
  | blockTxn _ => .blockTxn
  | getProof _ _ => .getProof
  | proof _ _ _ => .proof
  | claim _ => .claim
  | airDrop _ => .airDrop
  | unknown _ => .unknown

def encode : HandshakeMessage → Bytes
  | version m => m.encode
  | verack | getAddr | sendHeaders | mempool | filterClear => []
  | ping nonce | pong nonce => nonce.1
  | addr peers => encodeCounted HnsNetAddress.encode peers
  | inv inventory | getData inventory | notFound inventory => hnsEncodeInvItems inventory
  | getBlocks m | getHeaders m => m.encode
  | headers hs => encodeCounted writeBlockHeader hs
  | block b => b.written.1
  | tx t => t.written.1
  | reject m => m.encode
  | filterLoad m => m.encode
  | filterAdd data => [hnsWriteUvarint data.length, data].flatten
  | merkleBlock m => m.written
  | feeFilter rate => putUint64 rate.toUInt64
  | sendCmpct mode v => [putUint8 mode, putUint64 v].flatten
  | cmpctBlock payload | getBlockTxn payload | blockTxn payload | airDrop payload
  | unknown payload => payload
  | getProof root key => [root.bytes, key.bytes].flatten
  | proof root key p => [root.bytes, key.bytes, p].flatten
  | claim c => encodeClaim c

def decodeEmpty (msgName : String) (m : HandshakeMessage) (data : Bytes) :
    Result HandshakeMessage := do
  failIf (data.length ≠ 0) (.plain (msgName ++ ": expected empty payload, got " ++
    toString data.length ++ " bytes"))
  return m

def decode : HnsMsgType → Bytes → Result HandshakeMessage
  | .version, data => do return version (← HnsMsgVersion.decode data)
  | .verack, data => decodeEmpty "verack" verack data
  | .ping, data => do return ping (← decodeFixedSize "ping" 8 (takeFixed 8) data)
  | .pong, data => do return pong (← decodeFixedSize "pong" 8 (takeFixed 8) data)
  | .getAddr, data => decodeEmpty "getaddr" getAddr data
  | .addr, data => do
    return addr (← decodeCounted "addr" "peer" "peers" hnsNetAddressSize HnsNetAddress.decode data)
  | .inv, data => do return inv (← hnsDecodeInvItems "inv" data)
  | .getData, data => do return getData (← hnsDecodeInvItems "getdata" data)
  | .notFound, data => do return notFound (← hnsDecodeInvItems "notfound" data)
  | .getBlocks, data => do return getBlocks (← HnsLocator.decode "getblocks" data)
  | .getHeaders, data => do return getHeaders (← HnsLocator.decode "getheaders" data)
  | .headers, data => do
    return headers (← decodeCounted "headers" "header" "headers" blockHeaderLen decodeHeader data)
  | .sendHeaders, data => decodeEmpty "sendheaders" sendHeaders data
  | .block, data => do return block (← decodeSerialized "block" MsgBlock.deserialize data)
  | .tx, data => do return tx (← decodeSerialized "tx" MsgTx.deserialize data)
  | .reject, data => do return reject (← HnsMsgReject.decode data)
  | .mempool, data => decodeEmpty "mempool" mempool data
  | .filterLoad, data => do return filterLoad (← HnsMsgFilterLoad.decode data)
  | .filterAdd, data => do return filterAdd (← decodeFilterAdd data)
  | .filterClear, data => decodeEmpty "filterclear" filterClear data
  | .merkleBlock, data => do
    return merkleBlock (← decodeSerialized "merkleblock" MsgMerkleBlock.btcDecode data)
  | .feeFilter, data => do
    let rate ← decodeFixedSize "feefilter" 8 takeUint64 data
    return feeFilter rate.toInt64
  | .sendCmpct, data => do
    let x ← decodeFixedSize "sendcmpct" 9 takeSendCmpct data
    return sendCmpct x.1 x.2
  | .cmpctBlock, data => .ok (cmpctBlock data)
  | .getBlockTxn, data => .ok (getBlockTxn data)
  | .blockTxn, data => .ok (blockTxn data)
  | .getProof, data => do
    let x ← decodeFixedSize "getproof" 64 takeRootKey data
    return getProof x.1 x.2
  | .proof, data => do
    let x ← decodeProof data
    return proof x.1 x.2.1 x.2.2
  | .claim, data => do return claim (← decodeClaim data)
  | .airDrop, data => .ok (airDrop data)
  | .unknown, data => .ok (unknown data)
  | .unsupported t _, _ => .error (.unsupportedHnsMsgType t)

end HandshakeMessage

def hnsMessageHeaderSize : ℕ := 9

def hnsMaxMessagePayload : ℕ := 8 * 1000 * 1000

def hnsMaxClaimProofSize : ℕ := 10000

def hnsMaxClaimPayload : ℕ := 2 + hnsMaxClaimProofSize

def hnsMaxAirdropProofSize : ℕ := 3400

def maxVarIntPayload : ℕ := 9

def maxAddrPerMsg : ℕ := 1000

def maxBlockHeadersPerMsg : ℕ := 2000

def maxHnsPayloadLength : HnsMsgType → ℕ
  | .version => hnsMsgVersionFixedSize + hnsMaxUserAgentLen + 4 + 1
  | .verack | .getAddr | .sendHeaders | .mempool | .filterClear => 0
  | .ping | .pong | .feeFilter => 8
  | .addr => maxVarIntPayload + maxAddrPerMsg * hnsNetAddressSize
  | .inv | .getData | .notFound => maxVarIntPayload + maxInvPerMsg * hnsInvItemSize
  | .getBlocks | .getHeaders => maxVarIntPayload + maxBlockLocatorsPerMsg * 32 + 32
  | .headers => maxVarIntPayload + maxBlockHeadersPerMsg * blockHeaderLen
  | .block | .tx | .merkleBlock => maxBlockPayload
  | .reject => 3 + hnsMaxUserAgentLen + 32
  | .filterLoad => maxVarIntPayload + maxFilterLoadFilterSize + 9
  | .filterAdd => maxVarIntPayload + maxFilterAddDataSize
  | .sendCmpct => 9
  | .getProof => 32 * 2
  | .claim => hnsMaxClaimPayload
  | .airDrop => hnsMaxAirdropProofSize
  | _ => hnsMaxMessagePayload

structure HnsMsgHeader where
  networkMagic : UInt32
  messageType : HnsMsgType
  payloadLength : UInt32
deriving DecidableEq

namespace HnsMsgHeader

def encode (h : HnsMsgHeader) : Bytes :=
  [putUint32 h.networkMagic, putUint8 h.messageType.toUInt8, putUint32 h.payloadLength].flatten

def take : Result (HnsMsgHeader × Bytes) := do
  let (networkMagic, data) ← takeUint32 data
  let (messageType, data) ← takeUint8 data
  let (payloadLength, data) ← takeUint32 data
  return (⟨networkMagic, .ofUInt8 messageType, payloadLength⟩, data)

def decode : Result HnsMsgHeader := do
  failIf (data.length ≠ hnsMessageHeaderSize) (.plain ("handshake message header: expected " ++
    toString hnsMessageHeaderSize ++ " bytes, got " ++ toString data.length))
  let (h, _) ← take data
  return h

end HnsMsgHeader

def encodeHnsMessage (msg : HandshakeMessage) (networkMagic : UInt32) : Result Bytes := do
  let payload := msg.encode
  failIf (payload.length > hnsMaxMessagePayload) (.plain ("handshake message payload too large: " ++
    toString payload.length ++ " > " ++ toString hnsMaxMessagePayload))
  failIf (payload.length > maxHnsPayloadLength msg.type) (.plain ("handshake " ++
    toString msg.type ++ " payload too large: " ++ toString payload.length ++ " > " ++
    toString (maxHnsPayloadLength msg.type)))
  let header : HnsMsgHeader := ⟨networkMagic, msg.type, UInt32.ofNat payload.length⟩
  return header.encode ++ payload

/-- `newEmptyHnsMessage` and `Decode` of what it made. -/
def decodeHnsPayload : HnsMsgType → Bytes → Result HandshakeMessage
  | .unsupported t _, _ => .error (.unsupportedHnsMsgType t)
  | t, payload => wrapErr ("decode " ++ t.goType) (HandshakeMessage.decode t payload)

def decodeHnsMessage : Result (HandshakeMessage × UInt32) := do
  failIf (data.length < hnsMessageHeaderSize)
    (.plain "handshake message: data shorter than header")
  let (headerBytes, payload) ← sliceAt data hnsMessageHeaderSize
  let header ← HnsMsgHeader.decode headerBytes
  let payloadLength := header.payloadLength.toNat
  failIf (payloadLength > hnsMaxMessagePayload) (.plain ("handshake message payload too large: " ++
    toString payloadLength ++ " > " ++ toString hnsMaxMessagePayload))
  failIf (payloadLength > maxHnsPayloadLength header.messageType) (.plain ("handshake " ++
    toString header.messageType ++ " payload too large: " ++ toString payloadLength ++ " > " ++
    toString (maxHnsPayloadLength header.messageType)))
  failIf (data.length ≠ hnsMessageHeaderSize + payloadLength) (.plain
    ("handshake message: expected " ++ toString (hnsMessageHeaderSize + payloadLength) ++
      " bytes total, got " ++ toString data.length))
  let msg ← decodeHnsPayload header.messageType payload
  return (msg, header.networkMagic)

/-! ## Reading off a stream -/

def netString (net : UInt32) : String :=
  if net = 0x5B6EF2D3 then "MainNet"
  else if net = 0xAE3895CF then "RegTest"
  else "Unknown BitcoinNet (" ++ toString net ++ ")"

structure HnsRead where
  totalBytes : ℕ
  result : Result (HandshakeMessage × Bytes)
  rest : Bytes
deriving DecidableEq

/-- `io.ReadFull` of `n` bytes with the number of bytes it took off the stream. -/
def readFullN (r : Bytes) (n : ℕ) : Result Bytes × ℕ × Bytes :=
  if r.length < n then (.error (if r.isEmpty then .eof else .unexpectedEOF), r.length, [])
  else (.ok (r.take n), n, r.drop n)

def discardHnsPayload (r : Bytes) (n : ℕ) : ℕ := min n r.length

def HnsRead.refused (totalBytes : ℕ) (r : Bytes) (discarded : ℕ) (e : Err) : HnsRead :=
  ⟨totalBytes + discarded, .error e, r.drop discarded⟩

/-- `ReadHnsMessageN` from `newEmptyHnsMessage` on. -/
def readHnsPayloadN (totalBytes payloadLength : ℕ) (r : Bytes) : HnsMsgType → HnsRead
  | .unsupported t _ =>
    .refused totalBytes r (discardHnsPayload r payloadLength) (.unsupportedHnsMsgType t)
  | messageType =>
    if payloadLength > maxHnsPayloadLength messageType then
      .refused totalBytes r (discardHnsPayload r payloadLength) (.message "ReadHnsMessage"
        ("payload exceeds max length - header indicates " ++ toString payloadLength ++
          " bytes, but max payload size for messages of type [" ++ toString messageType ++
          "] is " ++ toString (maxHnsPayloadLength messageType) ++ "."))
    else
      match readFullN r payloadLength with
      | (.error e, n, rest) => ⟨totalBytes + n, .error e, rest⟩
      | (.ok payload, n, rest) =>
        ⟨totalBytes + n, (decodeHnsPayload messageType payload).map (·, payload), rest⟩

/-- `ReadHnsMessageN` once the header is read. -/
def readHnsBodyN (hnsnet : UInt32) (totalBytes : ℕ) (hdr : HnsMsgHeader) (r : Bytes) : HnsRead :=
  if hdr.payloadLength.toNat > hnsMaxMessagePayload then
    .refused totalBytes r 0 (.message "ReadHnsMessage"
      ("message payload is too large - header indicates " ++ toString hdr.payloadLength ++
        " bytes, but max message payload is " ++ toString hnsMaxMessagePayload ++ " bytes."))
  else if hdr.networkMagic ≠ hnsnet then
    .refused totalBytes r 0 (.message "ReadHnsMessage" ("message from other network [" ++
      netString hdr.networkMagic ++ "]"))
  else readHnsPayloadN totalBytes hdr.payloadLength.toNat r hdr.messageType

def readHnsMessageN (r : Bytes) (hnsnet : UInt32) : HnsRead :=
  match readFullN r hnsMessageHeaderSize with
  | (.error e, n, rest) => ⟨n, .error e, rest⟩
  | (.ok headerBytes, n, rest) =>
    match HnsMsgHeader.decode headerBytes with
    | .error e => ⟨n, .error e, rest⟩
    | .ok hdr => readHnsBodyN hnsnet n hdr rest

/-- The loop of `inHandler` without timers and regression tests, for a bound on its rounds: the
messages it handles and the error it ends with, if any. -/
def inHandler (hnsnet : UInt32) : ℕ → Bytes → List HandshakeMessage × Option Err
  | 0, _ => ([], none)
  | n + 1, r =>
    match readHnsMessageN r hnsnet with
    | ⟨_, .ok (m, _), rest⟩ =>
      -- a second version or verack is refused
      if m.type ∈ [.version, .verack] then ([], none)
      else (inHandler hnsnet n rest).map (m :: ·) id
    | ⟨_, .error (.unsupportedHnsMsgType _), rest⟩ => inHandler hnsnet n rest
    | ⟨_, .error e, _⟩ => ([], some e)

end HandshakeNode
