import HandshakeNode.NameCovenant

/-!
# Airdrop proofs

The serialized form of an airdrop proof, the checks that need nothing else, the position of its leaf
and the value that it may mint in a coinbase. SHA-256 and the signature schemes are parameters.
-/

namespace HandshakeNode

open LittleEndian

def airdropReward : UInt64 := 4246994314

def airdropSponsorFee : UInt64 := 500000000

def airdropRecipientFee : UInt64 := 100000000

def maxAirdropProof : ℕ := 3400

def airdropDepth : ℕ := 18

def airdropSubDepth : ℕ := 3

def airdropLeaves : UInt32 := 216199

def airdropSubLeaves : UInt8 := 8

def faucetDepth : ℕ := 11

def faucetLeaves : UInt32 := 1358

def airdropTreeLeaves : UInt32 := airdropLeaves + faucetLeaves

def airdropKeyAddress : UInt8 := 4

def airdropGooKeySize : ℕ := 256

def strongRSAKeyBits : ℕ := 2041

def airdropRoot : Hash := Hash.ofBytes
  [0x10, 0xd7, 0x48, 0xed, 0xa1, 0xb9, 0xc6, 0x7b, 0x94, 0xd3, 0x24, 0x4e, 0x02, 0x11, 0x67, 0x76,
    0x18, 0xa9, 0xb4, 0xb3, 0x29, 0xe8, 0x96, 0xad, 0x90, 0x43, 0x1f, 0x9f, 0x48, 0x03, 0x4b, 0xad]

def faucetRoot : Hash := Hash.ofBytes
  [0xe2, 0xc0, 0x29, 0x9a, 0x1e, 0x46, 0x67, 0x73, 0x51, 0x66, 0x55, 0xf0, 0x9a, 0x64, 0xb1, 0xe1,
    0x6b, 0x25, 0x79, 0x53, 0x0d, 0xe6, 0xc4, 0xa5, 0x9c, 0xe5, 0x65, 0x4d, 0xea, 0x45, 0x18, 0x0f]

def airdropSignatureContext : Hash := Hash.ofBytes
  [0x5b, 0x21, 0xff, 0x4a, 0x0f, 0xcf, 0x78, 0x12, 0x39, 0x15, 0xea, 0xa0, 0x00, 0x3d, 0x2a, 0x3e,
    0x18, 0x55, 0xa9, 0xb1, 0x5e, 0x34, 0x41, 0xda, 0x2e, 0xf5, 0xa4, 0xc0, 0x1e, 0xaf, 0x4f, 0xf3]

structure AirdropProof where
  index : UInt32
  proof : List Hash
  subindex : UInt8
  subproof : List Hash
  key : Bytes
  version : UInt8
  address : Bytes
  fee : UInt64
  signature : Bytes
  size : ℕ
deriving DecidableEq

inductive AirdropKey where
  | rsa (n e nonce : Bytes)
  | goo (c1 : Bytes)
  | p256 (point nonce : Bytes)
  | ed25519 (point nonce : Bytes)
  | address (version : UInt8) (address : Bytes) (value : UInt64) (sponsor : Bool)

def readByte : Bytes → Result (UInt8 × Bytes)
  | [] => .error .eof
  | b :: r => .ok (b, r)

variable (r : Bytes)

def readAirdropU16 : Result (ℕ × Bytes) := do
  let (raw, r) ← readFull r 2
  return (leNat raw, r)

def readAirdropU32 : Result (UInt32 × Bytes) := do
  let (raw, r) ← readFull r 4
  return (UInt32.ofNat (leNat raw), r)

def readAirdropU64 : Result (UInt64 × Bytes) := do
  let (raw, r) ← readFull r 8
  return (UInt64.ofNat (leNat raw), r)

def readAirdropHashes : ℕ → Bytes → Result (List Hash × Bytes)
  | 0, r => .ok ([], r)
  | count + 1, r => do
    let (hash, r) ← readFull r 32
    let (hashes, r) ← readAirdropHashes count r
    return (Hash.ofBytes hash :: hashes, r)

def readAirdropVarBytes : Result (Bytes × Bytes) := do
  let (size, r) ← readVarInt r
  failIf (size > r.length) (.plain "truncated var bytes")
  readFull r size

def readAirdropPaths : Result ((List Hash × UInt8 × List Hash) × Bytes) := do
  let (count, r) ← readByte r
  failIf (count.toNat > airdropDepth) (.plain "airdrop proof path is too deep")
  let (proof, r) ← readAirdropHashes count.toNat r
  let (subindex, r) ← readByte r
  failIf (subindex ≥ airdropSubLeaves) (.plain "airdrop subindex is invalid")
  let (total, r) ← readByte r
  failIf (total.toNat > airdropSubDepth) (.plain "airdrop subproof path is too deep")
  let (subproof, r) ← readAirdropHashes total.toNat r
  return ((proof, subindex, subproof), r)

def readAirdropAddress : Result ((UInt8 × Bytes) × Bytes) := do
  let (version, r) ← readByte r
  failIf (version > 31) (.plain "airdrop address version is invalid")
  let (addressSize, r) ← readByte r
  failIf (addressSize < 2 ∨ addressSize > 40) (.plain "airdrop address size is invalid")
  let (address, r) ← readFull r addressSize.toNat
  return ((version, address), r)

def parseAirdropProof (serialized : Bytes) : Result AirdropProof := do
  failIf (serialized.length > maxAirdropProof) (.plain "airdrop proof too large")
  let (index, r) ← readAirdropU32 serialized
  failIf (index ≥ airdropLeaves) (.plain "airdrop proof index is invalid")
  let ((proof, subindex, subproof), r) ← readAirdropPaths r
  let (key, r) ← readAirdropVarBytes r
  failIf (key.length = 0) (.plain "airdrop key is empty")
  let ((version, address), r) ← readAirdropAddress r
  let (fee, r) ← readVarInt r
  let (signature, r) ← readAirdropVarBytes r
  failIf (r.length ≠ 0) (.plain "trailing airdrop proof data")
  return ⟨index, proof, subindex, subproof, key, version, address, UInt64.ofNat fee, signature,
    serialized.length⟩

def readAirdropKey (keyType : UInt8) (r : Bytes) : Result (AirdropKey × Bytes) :=
  match keyType with
  | 0 => do
    let (size, r) ← readAirdropU16 r
    let (n, r) ← readFull r size
    let (expSize, r) ← readByte r
    let (e, r) ← readFull r expSize.toNat
    let (nonce, r) ← readFull r 32
    return (.rsa n e nonce, r)
  | 1 => do
    let (c1, r) ← readFull r airdropGooKeySize
    return (.goo c1, r)
  | 2 => do
    let (point, r) ← readFull r 33
    let (nonce, r) ← readFull r 32
    return (.p256 point nonce, r)
  | 3 => do
    let (point, r) ← readFull r 32
    let (nonce, r) ← readFull r 32
    return (.ed25519 point nonce, r)
  | 4 => do
    let (version, r) ← readByte r
    let (addressSize, r) ← readByte r
    let (address, r) ← readFull r addressSize.toNat
    let (value, r) ← readAirdropU64 r
    let (sponsor, r) ← readByte r
    return (.address version address value (sponsor = 1), r)
  | _ => .error (.plain "unsupported airdrop key type")

def parseAirdropKey : Bytes → Result AirdropKey
  | [] => .error (.plain "empty airdrop key")
  | keyType :: r => do
    let (key, r) ← readAirdropKey keyType r
    failIf (r.length ≠ 0) (.plain "trailing airdrop key data")
    return key

def beNat (bs : Bytes) : ℕ := leNat bs.reverse

def AirdropKey.isWeak : AirdropKey → Bool
  | .rsa n _ _ => (beNat n).size < strongRSAKeyBits
  | _ => false

namespace AirdropProof

variable (p : AirdropProof)

def isAddress : Bool := p.key.head? = some airdropKeyAddress

def value : UInt64 :=
  if !p.isAddress then airdropReward
  else
    match parseAirdropKey p.key with
    | .ok (.address _ _ value _) => value
    | _ => 0

def isSane : Bool :=
  if p.key.length = 0 then false
  else if p.version > 31 ∨ p.address.length < 2 ∨ p.address.length > 40 then false
  else if p.value.toNat > maxDoo ∨ p.fee > p.value then false
  else if p.isAddress then
    if p.subproof.length ≠ 0 ∨ p.subindex ≠ 0 then false
    else if p.proof.length > faucetDepth ∨ p.index ≥ faucetLeaves then false
    else true
  else if p.subproof.length > airdropSubDepth ∨ p.subindex ≥ airdropSubLeaves ∨
      p.proof.length > airdropDepth ∨ p.index ≥ airdropLeaves ∨ p.size > maxAirdropProof then false
  else true

def isWeak : Bool :=
  match parseAirdropKey p.key with
  | .ok key => key.isWeak
  | .error _ => false

/-- The faucet leaves come after the airdrop leaves. -/
def position : Result UInt32 :=
  if p.isAddress then do
    failIf (p.index ≥ faucetLeaves) (.plain "airdrop faucet index is invalid")
    failIf (p.index + airdropLeaves ≥ airdropTreeLeaves) (.plain "airdrop position is invalid")
    return p.index + airdropLeaves
  else do
    failIf (p.index ≥ airdropLeaves) (.plain "airdrop index is invalid")
    failIf (p.index ≥ airdropTreeLeaves) (.plain "airdrop position is invalid")
    return p.index

end AirdropProof

section

/-- SHA-256 and the signature schemes; the key gives the scheme. -/
structure AirdropSchemes where
  sha256 : Bytes → Hash
  verify : AirdropKey → Hash → Bytes → Bool

variable (blake2b : Bytes → Hash) (schemes : AirdropSchemes)

def airdropHashLeaf (data : Hash) : Hash := blake2b (0x00 :: data.bytes)

def airdropHashInternal (left right : Hash) : Hash := blake2b (0x01 :: (left.bytes ++ right.bytes))

def deriveAirdropMerklePath : Hash → List Hash → UInt32 → Hash
  | root, [], index => if index ≠ 0 then Hash.zero else root
  | root, hash :: path, index =>
    if index &&& 1 = 1 ∧ hash = blake2b [] then Hash.zero
    else if index &&& 1 = 1 then
      deriveAirdropMerklePath (airdropHashInternal blake2b hash root) path (index >>> 1)
    else deriveAirdropMerklePath (airdropHashInternal blake2b root hash) path (index >>> 1)

def deriveAirdropMerkleRoot (leaf : Hash) (path : List Hash) (index : UInt32) : Hash :=
  deriveAirdropMerklePath blake2b (airdropHashLeaf blake2b leaf) path index

namespace AirdropProof

def verifyMerkle (p : AirdropProof) : Bool :=
  let leaf := blake2b p.key
  if p.isAddress then deriveAirdropMerkleRoot blake2b leaf p.proof p.index = faucetRoot
  else
    let subroot := deriveAirdropMerkleRoot blake2b leaf p.subproof p.subindex.toUInt32
    deriveAirdropMerkleRoot blake2b subroot p.proof p.index = airdropRoot

def signatureData (p : AirdropProof) : Bytes :=
  airdropSignatureContext.bytes ++ leBytes 4 p.index.toNat ++
    UInt8.ofNat p.proof.length :: p.proof.flatMap (·.bytes) ++
    p.subindex :: UInt8.ofNat p.subproof.length :: p.subproof.flatMap (·.bytes) ++
    writeVarBytes p.key ++
    p.version :: UInt8.ofNat p.address.length :: p.address ++
    writeVarInt p.fee.toNat

def verifySignature (p : AirdropProof) : Bool :=
  match parseAirdropKey p.key with
  | .error _ => false
  | .ok (.address version address _ sponsor) =>
    let fee := if sponsor then airdropSponsorFee else airdropRecipientFee
    p.version = version && p.fee = fee && p.signature.length = 0 && p.address = address
  | .ok key => schemes.verify key (schemes.sha256 p.signatureData) p.signature

end AirdropProof

end

end HandshakeNode
