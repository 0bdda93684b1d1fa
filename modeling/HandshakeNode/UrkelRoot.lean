import HandshakeNode.Urkel

/-!
# The compact tree of the current name root

The mutable tree that keeps only the hashes: leaves and internal nodes lie in two stores and refer
to each other by index. An internal node keeps the length of its prefix and one leaf below it, from
whose key the prefix bits are read at the node's depth. The chunked stores are lists.
-/

namespace HandshakeNode

/-- A reference: zero is nil, else an index plus one, with the top bit set for a leaf. -/
abbrev UrkelRootRef := UInt32

def urkelRootLeafFlag : UrkelRootRef := 0x80000000

def urkelRootIndexMask : UrkelRootRef := urkelRootLeafFlag - 1

structure UrkelRootLeaf where
  key : Hash
  hash : Hash
deriving DecidableEq

structure UrkelRootInternal where
  hash : Hash
  left : UrkelRootRef
  right : UrkelRootRef
  representativeLeaf : UrkelRootRef
  prefixBits : UInt16
deriving DecidableEq

structure UrkelRootTree where
  root : UrkelRootRef
  leaves : List UrkelRootLeaf
  internals : List UrkelRootInternal
deriving DecidableEq

namespace UrkelRootStore

variable {T : Type}

def get (s : List T) (index : ℤ) : Result T :=
  if index < 0 then .error indexOutOfRange
  else
    match s[index.toNat]? with
    | none => .error indexOutOfRange
    | some value => .ok value

def set (s : List T) (index : ℤ) (value : T) : Result (List T) :=
  if index < 0 ∨ s.length ≤ index.toNat then .error indexOutOfRange
  else .ok (s.set index.toNat value)

end UrkelRootStore

namespace UrkelRootRef

def isLeaf (r : UrkelRootRef) : Bool := r &&& urkelRootLeafFlag ≠ 0

def index (r : UrkelRootRef) : ℤ := (r &&& urkelRootIndexMask).toNat - 1

end UrkelRootRef

def makeUrkelRootRef (index : ℕ) (leaf : Bool) : Result UrkelRootRef :=
  if index ≥ urkelRootIndexMask.toNat then
    .error (.plain ("compact Urkel node index " ++ toString index ++ " exceeds limit"))
  else
    let ref := UInt32.ofNat (index + 1)
    .ok (if leaf then ref ||| urkelRootLeafFlag else ref)

namespace UrkelRootTree

def empty : UrkelRootTree := ⟨0, [], []⟩

def leaf (t : UrkelRootTree) (ref : UrkelRootRef) : Result UrkelRootLeaf :=
  UrkelRootStore.get t.leaves (UrkelRootRef.index ref)

def internal (t : UrkelRootTree) (ref : UrkelRootRef) : Result UrkelRootInternal :=
  UrkelRootStore.get t.internals (UrkelRootRef.index ref)

def nodeHash (t : UrkelRootTree) (ref : UrkelRootRef) : Result Hash :=
  if ref = 0 then .ok Hash.zero
  else if UrkelRootRef.isLeaf ref then do return (← t.leaf ref).hash
  else do return (← t.internal ref).hash

def representativeLeaf (t : UrkelRootTree) (ref : UrkelRootRef) : Result UrkelRootRef :=
  if UrkelRootRef.isLeaf ref then .ok ref
  else do return (← t.internal ref).representativeLeaf

def internalPrefix (t : UrkelRootTree) (node : UrkelRootInternal) (depth : ℕ) :
    Result UrkelBits := do
  let key := (← t.leaf node.representativeLeaf).key
  (UrkelBits.fromKey key).slice depth (depth + node.prefixBits.toNat)

section

variable (blake2b : Bytes → Hash)

def addLeaf (t : UrkelRootTree) (key : Hash) (value : Bytes) :
    Result (UrkelRootRef × UrkelRootTree) := do
  let ref ← makeUrkelRootRef t.leaves.length true
  return (ref, { t with leaves := t.leaves ++ [⟨key, hashUrkelValue blake2b key value⟩] })

def addInternal (t : UrkelRootTree) (pre : UrkelBits) (left right : UrkelRootRef) :
    Result (UrkelRootRef × UrkelRootTree) := do
  failIf (left = 0 ∨ right = 0) (.assert "compact Urkel internal has nil child")
  failIf (pre.size ≥ urkelKeyBits)
    (.assert ("compact Urkel prefix length " ++ toString pre.size ++ " is invalid"))
  let ref ← makeUrkelRootRef t.internals.length false
  let hash ← hashUrkelInternal blake2b pre (← t.nodeHash left) (← t.nodeHash right)
  let representativeLeaf ← t.representativeLeaf left
  let node := ⟨hash, left, right, representativeLeaf, UInt16.ofNat pre.size⟩
  return (ref, { t with internals := t.internals ++ [node] })

def addBranch (t : UrkelRootTree) (pre : UrkelBits) (x y : UrkelRootRef) (bit : Bool) :
    Result (UrkelRootRef × UrkelRootTree) :=
  if bit then t.addInternal blake2b pre y x else t.addInternal blake2b pre x y

/-- `putAt`; the recursion goes down at least one bit at a time, so a key runs out of bits before
the fuel does. -/
def putAt (key : Hash) (value : Bytes) :
    ℕ → UrkelRootTree → UrkelRootRef → ℕ → Result (UrkelRootRef × UrkelRootTree)
  | 0, _, _, _ => .error (.panic "stack overflow")
  | fuel + 1, t, ref, depth =>
    if ref = 0 then t.addLeaf blake2b key value
    else if UrkelRootRef.isLeaf ref then do
      let index := UrkelRootRef.index ref
      let leaf ← UrkelRootStore.get t.leaves index
      if leaf.key = key then do
        let leaf := { leaf with hash := hashUrkelValue blake2b key value }
        let leaves ← UrkelRootStore.set t.leaves index leaf
        return (ref, { t with leaves })
      else do
        let pre ← (UrkelBits.fromKey leaf.key).collide key.bytes depth
        let nextDepth := depth + pre.size
        let (newLeaf, t) ← t.addLeaf blake2b key value
        t.addBranch blake2b pre newLeaf ref (← urkelHasBit key.bytes nextDepth)
    else do
      let index := UrkelRootRef.index ref
      let node ← UrkelRootStore.get t.internals index
      let pre ← t.internalPrefix node depth
      let bits ← pre.count key.bytes depth
      let nextDepth := depth + bits
      let bit ← urkelHasBit key.bytes nextDepth
      if bits ≠ pre.size then
        let (front, back) ← pre.split bits
        let hash ← hashUrkelInternal blake2b back (← t.nodeHash node.left)
          (← t.nodeHash node.right)
        let node := { node with prefixBits := UInt16.ofNat back.size, hash }
        let internals ← UrkelRootStore.set t.internals index node
        let (newLeaf, t) ← addLeaf blake2b { t with internals } key value
        t.addBranch blake2b front newLeaf ref bit
      else if bit then
        let (right, t) ← putAt key value fuel t node.right (nextDepth + 1)
        let hash ← hashUrkelInternal blake2b pre (← t.nodeHash node.left) (← t.nodeHash right)
        let internals ← UrkelRootStore.set t.internals index { node with right, hash }
        return (ref, { t with internals })
      else
        let (left, t) ← putAt key value fuel t node.left (nextDepth + 1)
        let hash ← hashUrkelInternal blake2b pre (← t.nodeHash left) (← t.nodeHash node.right)
        let internals ← UrkelRootStore.set t.internals index { node with left, hash }
        return (ref, { t with internals })

def put (t : UrkelRootTree) (key : Hash) (value : Bytes) : Result UrkelRootTree := do
  let (root, t) ← putAt blake2b key value (urkelKeyBits + 1) t t.root 0
  return { t with root }

def putAll (t : UrkelRootTree) (leaves : List UrkelLeaf) : Result UrkelRootTree :=
  leaves.foldlM (fun t leaf => t.put blake2b leaf.key leaf.value) t

def rebuild (t : UrkelRootTree) (leaves : List UrkelLeaf) : Result UrkelRootTree :=
  putAll blake2b { t with root := 0, leaves := [], internals := [] } leaves

end

def rootHash (t : UrkelRootTree) : Result Hash := t.nodeHash t.root

end UrkelRootTree

end HandshakeNode
