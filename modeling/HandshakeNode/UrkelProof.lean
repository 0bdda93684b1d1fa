import HandshakeNode.Urkel

/-!
# Urkel proofs

Inclusion and exclusion proofs of the name tree: how one is made from the reference tree, its
serialised form, and its verification against a root.
-/

namespace HandshakeNode

open LittleEndian

def maxUrkelProofValue : ℕ := 0xffff

inductive UrkelProofType where
  | deadend
  | short
  | collision
  | existing
  | unknown
deriving DecidableEq

namespace UrkelProofType

def code : UrkelProofType → ℕ
  | deadend => 0
  | short => 1
  | collision => 2
  | existing => 3
  | unknown => 4

def ofCode : ℕ → UrkelProofType
  | 0 => deadend
  | 1 => short
  | 2 => collision
  | 3 => existing
  | _ => unknown

end UrkelProofType

structure UrkelProofNode where
  pre : UrkelBits
  node : Hash
deriving DecidableEq

/-- A proof; a value of `none` is a nil slice. -/
structure UrkelProof where
  typ : UrkelProofType := .deadend
  depth : ℕ := 0
  nodes : List UrkelProofNode := []
  pre : UrkelBits := .empty
  left : Hash := Hash.zero
  right : Hash := Hash.zero
  key : Hash := Hash.zero
  valueHash : Hash := Hash.zero
  value : Option Bytes := none
deriving DecidableEq

section

variable (blake2b : Bytes → Hash)

def proveUrkelFrom (key : Hash) : UrkelNode → ℕ → List UrkelProofNode → Result UrkelProof
  | .internal pre left right _, depth, nodes => do
    let has ← pre.has key.bytes depth
    if !has then .ok { typ := .short, depth, nodes, pre, left := left.hash, right := right.hash }
    else do
      let depth := depth + pre.size
      let bit ← urkelHasBit key.bytes depth
      if bit then proveUrkelFrom key right (depth + 1) (nodes ++ [⟨pre, left.hash⟩])
      else proveUrkelFrom key left (depth + 1) (nodes ++ [⟨pre, right.hash⟩])
  | .leaf key' value _, depth, nodes =>
    if key' = key then .ok { typ := .existing, depth, nodes, value := appendNil value }
    else .ok { typ := .collision, depth, nodes, key := key', valueHash := blake2b value }

def proveUrkel (root : Option UrkelNode) (key : Hash) : Result UrkelProof :=
  match root with
  | none => .ok { typ := .deadend, depth := 0 }
  | some node => proveUrkelFrom blake2b key node 0 []

end

/-- `binary.LittleEndian.Uint16`, which panics on fewer than two bytes. -/
def getUint16 (s : Bytes) : Result (ℕ × Bytes) := do
  let (field, rest) ← sliceAt s 2
  return (leNat field, rest)

/-- The length of a prefix: one byte, or two when the top bit of the first is set. -/
def readUrkelProofBitsSize (s : Bytes) : Result (ℕ × Bytes) := do
  failIf (s.length < 1) (.plain "urkel prefix length is truncated")
  let (head, s) ← sliceAt s 1
  let size := leNat head
  if size &&& 0x80 ≠ 0 then do
    failIf (s.length < 1) (.plain "urkel prefix length is truncated")
    let (low, s) ← sliceAt s 1
    return (((size &&& 0x7f) <<< 8) ||| leNat low, s)
  else .ok (size, s)

def readUrkelProofBits (s : Bytes) : Result (UrkelBits × Bytes) := do
  let (size, s) ← readUrkelProofBitsSize s
  failIf (size > urkelKeyBits) (.plain "urkel prefix is too large")
  let byteSize := (size + 7) / 8
  failIf (s.length < byteSize) (.plain "urkel prefix data is truncated")
  let (data, s) ← sliceAt s byteSize
  return (⟨size, Hash.ofBytes data⟩, s)

def readHash (s : Bytes) : Result (Hash × Bytes) := do
  let (bytes, s) ← sliceAt s 32
  return (Hash.ofBytes bytes, s)

def readUrkelProofNodePrefix (hasPrefix : Bool) (s : Bytes) : Result (UrkelBits × Bytes) :=
  if hasPrefix then do
    let (pre, s) ← readUrkelProofBits s
    failIf (pre.size = 0) (.plain "urkel proof node prefix is empty")
    return (pre, s)
  else .ok (.empty, s)

def readUrkelProofNodes (bitMap : Bytes) : ℕ → ℕ → Bytes → Result (List UrkelProofNode × Bytes)
  | 0, _, s => .ok ([], s)
  | left + 1, i, s => do
    let hasPrefix ← urkelHasBit bitMap i
    let (pre, s) ← readUrkelProofNodePrefix hasPrefix s
    failIf (s.length < 32) (.plain "urkel proof node hash is truncated")
    let (node, s) ← readHash s
    let (nodes, s) ← readUrkelProofNodes bitMap left (i + 1) s
    return (⟨pre, node⟩ :: nodes, s)

namespace UrkelProof

def isSane (p : UrkelProof) : Bool :=
  p.depth ≤ urkelKeyBits && p.nodes.length ≤ urkelKeyBits &&
    p.nodes.all (fun node => node.pre.size ≤ urkelKeyBits) &&
    match p.typ with
    | .deadend => true
    | .short => 0 < p.pre.size && p.pre.size ≤ urkelKeyBits
    | .collision => true
    | .existing =>
      match p.value with
      | none => false
      | some value => value.length ≤ maxUrkelProofValue
    | .unknown => false

def readTail (p : UrkelProof) (s : Bytes) : Result (UrkelProof × Bytes) :=
  match p.typ with
  | .deadend => .ok (p, s)
  | .short => do
    let (pre, s) ← readUrkelProofBits s
    failIf (pre.size = 0) (.plain "urkel short proof prefix is empty")
    failIf (s.length < 64) (.plain "urkel short proof is truncated")
    let (left, s) ← readHash s
    let (right, s) ← readHash s
    return ({ p with pre, left, right }, s)
  | .collision => do
    failIf (s.length < 64) (.plain "urkel collision proof is truncated")
    let (key, s) ← readHash s
    let (valueHash, s) ← readHash s
    return ({ p with key, valueHash }, s)
  | .existing => do
    failIf (s.length < 2) (.plain "urkel exists proof value length is truncated")
    let (valueSize, s) ← getUint16 s
    failIf (s.length < valueSize) (.plain "urkel exists proof value is truncated")
    let (value, s) ← sliceAt s valueSize
    return ({ p with value := appendNil value }, s)
  | .unknown => .error (.plain "unknown urkel proof type")

end UrkelProof

def decodeUrkelProof (serialized : Bytes) : Result UrkelProof := do
  failIf (serialized.length < 4) (.plain "urkel proof is truncated")
  let (field, s) ← getUint16 serialized
  let typ := UrkelProofType.ofCode (field >>> 14)
  let depth := field % 2 ^ 14
  failIf (depth > urkelKeyBits) (.plain "urkel proof depth is too large")
  let (count, s) ← getUint16 s
  failIf (count > urkelKeyBits) (.plain "urkel proof node count is too large")
  let bitMapSize := (count + 7) / 8
  failIf (s.length < bitMapSize) (.plain "urkel proof node bitmap is truncated")
  let (bitMap, s) ← sliceAt s bitMapSize
  let (nodes, s) ← readUrkelProofNodes bitMap count 0 s
  let (proof, s) ← UrkelProof.readTail { typ, depth, nodes } s
  failIf (s.length ≠ 0) (.plain "trailing urkel proof data")
  failIf (!proof.isSane) (.plain "urkel proof is not sane")
  return proof

def appendUrkelProofBits (bits : UrkelBits) : Result Bytes := do
  let long := if bits.size ≥ 0x80 then [(0x80 : UInt8) ||| UInt8.ofNat (bits.size >>> 8)] else []
  let (data, _) ← sliceAt bits.data.bytes bits.byteSize
  return long ++ UInt8.ofNat bits.size :: data

def urkelProofBitsSize (bits : UrkelBits) : ℕ :=
  1 + bits.byteSize + if bits.size ≥ 0x80 then 1 else 0

def writeUrkelProofNodePrefix (pre : UrkelBits) (i : ℕ) (bitMap : Bytes) : Result (Bytes × Bytes) :=
  if pre.size ≠ 0 then do return (← urkelSetBit bitMap i, ← appendUrkelProofBits pre)
  else .ok (bitMap, [])

def writeUrkelProofNodes : List UrkelProofNode → ℕ → Bytes → Result (Bytes × Bytes)
  | [], _, bitMap => .ok (bitMap, [])
  | node :: nodes, i, bitMap => do
    let (bitMap, pre) ← writeUrkelProofNodePrefix node.pre i bitMap
    let (bitMap, rest) ← writeUrkelProofNodes nodes (i + 1) bitMap
    return (bitMap, pre ++ node.node.bytes ++ rest)

namespace UrkelProof

def tailSize (p : UrkelProof) : ℕ :=
  match p.typ with
  | .short => urkelProofBitsSize p.pre + 64
  | .collision => 64
  | .existing => 2 + (p.value.getD []).length
  | _ => 0

def serializedSize (p : UrkelProof) : ℕ :=
  4 + (p.nodes.length + 7) / 8 +
    (p.nodes.map fun node =>
      (if node.pre.size ≠ 0 then urkelProofBitsSize node.pre else 0) + 32).sum + p.tailSize

def writeTail (p : UrkelProof) : Result Bytes :=
  match p.typ with
  | .deadend => .ok []
  | .short => do return (← appendUrkelProofBits p.pre) ++ p.left.bytes ++ p.right.bytes
  | .collision => .ok (p.key.bytes ++ p.valueHash.bytes)
  | .existing =>
    let value := p.value.getD []
    .ok (leBytes 2 value.length ++ value)
  | .unknown => .ok []

def encode (p : UrkelProof) : Result Bytes := do
  failIf (!p.isSane) (.plain "urkel proof is not sane")
  let size := p.serializedSize
  let field := (p.typ.code <<< 14) ||| p.depth
  let (bitMap, nodes) ←
    writeUrkelProofNodes p.nodes 0 (List.replicate ((p.nodes.length + 7) / 8) 0)
  let tail ← p.writeTail
  let out := leBytes 2 field ++ leBytes 2 p.nodes.length ++ bitMap ++ nodes ++ tail
  failIf (out.length ≠ size) (.assert "urkel proof size mismatch")
  return out

section

variable (blake2b : Bytes → Hash)

def verifyNodes (key : Hash) : List UrkelProofNode → ℕ → Hash → Result (ℕ × Hash)
  | [], depth, next => .ok (depth, next)
  | node :: nodes, depth, next => do
    failIf (depth < node.pre.size + 1) (.plain "urkel proof depth underflow")
    let depth := depth - 1
    let bit ← urkelHasBit key.bytes depth
    let next ← hashUrkelInternal blake2b node.pre (if bit then node.node else next)
      (if bit then next else node.node)
    let depth := depth - node.pre.size
    let has ← node.pre.has key.bytes depth
    failIf (!has) (.plain "urkel proof path mismatch")
    verifyNodes key nodes depth next

def startHash (p : UrkelProof) (key : Hash) : Result Hash :=
  match p.typ with
  | .deadend => .ok Hash.zero
  | .short => do
    let has ← p.pre.has key.bytes p.depth
    failIf has (.plain "urkel proof follows same path")
    hashUrkelInternal blake2b p.pre p.left p.right
  | .collision => do
    failIf (p.key = key) (.plain "urkel proof has same key")
    return hashUrkelLeaf blake2b p.key p.valueHash
  | .existing => .ok (hashUrkelValue blake2b key (p.value.getD []))
  | .unknown => .error (.plain "unknown urkel proof type")

/-- The value and whether the key is included; `none` is a nil slice. -/
def verify (p : UrkelProof) (root key : Hash) : Result (Option Bytes × Bool) := do
  failIf (!p.isSane) (.plain "urkel proof is not sane")
  let next ← p.startHash blake2b key
  let (depth, next) ← verifyNodes blake2b key p.nodes.reverse p.depth next
  failIf (depth ≠ 0) (.plain "urkel proof is too deep")
  failIf (next ≠ root) (.plain ("urkel proof root mismatch: got " ++ toString next ++ ", want " ++
    toString root))
  if p.typ ≠ .existing then .ok (none, false) else .ok (appendNil (p.value.getD []), true)

end

end UrkelProof

def verifyUrkelProof (blake2b : Bytes → Hash) (root key : Hash) (serialized : Bytes) :
    Result (Option Bytes × Bool) := do
  let proof ← decodeUrkelProof serialized
  proof.verify blake2b root key

end HandshakeNode
