import HandshakeNode.Lib.Blake2b
import HandshakeNode.Wire
import Mathlib.Data.List.Sort

/-!
# The Urkel tree of names

The reference tree of the name store: an immutable path-compressed trie whose nodes carry their
hashes. The hash function is a parameter `blake2b`; `blake2bSum256` is the one the node uses.
-/

namespace HandshakeNode

open LittleEndian

def blake2bSum256 (s : Bytes) : Hash := Hash.ofBytes (Blake2b.sum256 s)

def urkelKeyBits : ℕ := 256

structure UrkelLeaf where
  key : Hash
  value : Bytes
deriving DecidableEq

/-- A bit string: its length and the bytes that hold it, the first bit on top. -/
structure UrkelBits where
  size : ℕ
  data : Hash
deriving DecidableEq

def UrkelBits.empty : UrkelBits := ⟨0, Hash.zero⟩

inductive UrkelNode where
  | leaf (key : Hash) (value : Bytes) (hashValue : Hash)
  | internal (pre : UrkelBits) (left right : UrkelNode) (hashValue : Hash)
deriving DecidableEq

def indexOutOfRange : Err := .panic "index out of range"

def urkelHasBit (key : Bytes) (index : ℕ) : Result Bool :=
  match key[index / 8]? with
  | none => .error indexOutOfRange
  | some oct => .ok (ByteBits.bitOf oct (index % 8))

def urkelSetBit (key : Bytes) (index : ℕ) : Result Bytes :=
  if index / 8 < key.length then .ok (ByteBits.setBit key index) else .error indexOutOfRange

namespace UrkelBits

def fromKey (key : Hash) : UrkelBits := ⟨urkelKeyBits, key⟩

variable (b : UrkelBits) (index : ℕ)

def get : Result Bool := urkelHasBit b.data.bytes index

def byteSize : ℕ := (b.size + 7) / 8

def matchFrom (b : UrkelBits) (index : ℕ) (key : Bytes) (depth : ℕ) : ℕ → ℕ → Result ℕ
  | 0, matched => .ok matched
  | left + 1, matched => do
    let x ← b.get (index + matched)
    let y ← urkelHasBit key (depth + matched)
    if x ≠ y then .ok matched else b.matchFrom index key depth left (matched + 1)

variable (key : Bytes) (depth : ℕ)

def count : Result ℕ :=
  b.matchFrom 0 key depth (min (key.length * 8 - depth) b.size) 0

def countFrom : Result ℕ :=
  b.matchFrom index key depth (min (key.length * 8 - depth) (b.size - index)) 0

def has : Result Bool := do
  return (← b.count key depth) = b.size

/-- The loop of `slice`: bit `i` is set when bit `start + i` is. -/
def copyBits (b : UrkelBits) (start : ℕ) : ℕ → Result Bytes
  | 0 => .ok Hash.zero.bytes
  | i + 1 => do
    let out ← b.copyBits start i
    if ← b.get (start + i) then urkelSetBit out i else return out

def slice (start stop : ℕ) : Result UrkelBits :=
  let size := stop - start
  if size = 0 then .ok empty
  else do return ⟨size, Hash.ofBytes (← b.copyBits start size)⟩

def collide : Result UrkelBits := do
  let size ← b.countFrom depth key depth
  b.slice depth (depth + size)

def split : Result (UrkelBits × UrkelBits) := do
  return (← b.slice 0 index, ← b.slice (index + 1) b.size)

end UrkelBits

section

variable (blake2b : Bytes → Hash)

def hashUrkelLeaf (key valueHash : Hash) : Hash := blake2b (0x00 :: (key.bytes ++ valueHash.bytes))

def hashUrkelValue (key : Hash) (value : Bytes) : Hash := hashUrkelLeaf blake2b key (blake2b value)

def hashUrkelInternal (pre : UrkelBits) (left right : Hash) : Result Hash :=
  if pre.size = 0 then .ok (blake2b (0x01 :: (left.bytes ++ right.bytes)))
  else do
    let (prefixBytes, _) ← sliceAt pre.data.bytes pre.byteSize
    return blake2b (0x02 :: (leBytes 2 pre.size ++ prefixBytes ++ left.bytes ++ right.bytes))

end

namespace UrkelNode

def hash : UrkelNode → Hash
  | leaf _ _ hashValue | internal _ _ _ hashValue => hashValue

end UrkelNode

section

variable (blake2b : Bytes → Hash)

def newUrkelLeaf (key : Hash) (value : Bytes) : UrkelNode :=
  .leaf key value (hashUrkelValue blake2b key value)

def newUrkelInternalDirect (pre : UrkelBits) (left right : UrkelNode) : Result UrkelNode := do
  return .internal pre left right (← hashUrkelInternal blake2b pre left.hash right.hash)

def newUrkelInternal (pre : UrkelBits) (x y : UrkelNode) (bit : Bool) : Result UrkelNode :=
  if bit then newUrkelInternalDirect blake2b pre y x else newUrkelInternalDirect blake2b pre x y

/-- `insertUrkel` at a node that is not nil; the children of a node never are. -/
def insertUrkelAt (key : Hash) (value : Bytes) : UrkelNode → ℕ → Result UrkelNode
  | .internal pre left right _, depth => do
    let bits ← pre.count key.bytes depth
    let nextDepth := depth + bits
    let bit ← urkelHasBit key.bytes nextDepth
    if bits ≠ pre.size then
      let leaf := newUrkelLeaf blake2b key value
      let (front, back) ← pre.split bits
      let child ← newUrkelInternalDirect blake2b back left right
      newUrkelInternal blake2b front leaf child bit
    else if bit then
      newUrkelInternalDirect blake2b pre left (← insertUrkelAt key value right (nextDepth + 1))
    else
      newUrkelInternalDirect blake2b pre (← insertUrkelAt key value left (nextDepth + 1)) right
  | .leaf key' value' hashValue, depth =>
    if key' = key then .ok (newUrkelLeaf blake2b key value)
    else do
      let pre ← (UrkelBits.fromKey key').collide key.bytes depth
      let nextDepth := depth + pre.size
      let leaf := newUrkelLeaf blake2b key value
      let bit ← urkelHasBit key.bytes nextDepth
      newUrkelInternal blake2b pre leaf (.leaf key' value' hashValue) bit

def insertUrkel (node : Option UrkelNode) (key : Hash) (value : Bytes) (depth : ℕ) :
    Result UrkelNode :=
  match node with
  | none => .ok (newUrkelLeaf blake2b key value)
  | some node => insertUrkelAt blake2b key value node depth

def bytesCompare : Bytes → Bytes → Ordering
  | [], [] => .eq
  | [], _ :: _ => .lt
  | _ :: _, [] => .gt
  | a :: as, b :: bs => if a < b then .lt else if b < a then .gt else bytesCompare as bs

/-- `sort.Slice` by key. -/
def sortByKey (leaves : List UrkelLeaf) : List UrkelLeaf :=
  leaves.insertionSort fun a b => bytesCompare b.key.bytes a.key.bytes ≠ .lt

def buildUrkelTree (leaves : List UrkelLeaf) : Result (Option UrkelNode) :=
  (sortByKey leaves).foldlM
    (fun root leaf => do return some (← insertUrkel blake2b root leaf.key leaf.value 0)) none

def calcUrkelRoot (leaves : List UrkelLeaf) : Result Hash := do
  match ← buildUrkelTree blake2b leaves with
  | none => return Hash.zero
  | some root => return root.hash

end

end HandshakeNode
