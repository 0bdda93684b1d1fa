import HandshakeNode.Urkel

/-!
# The merkle root of a block

The nodes of the tree over the transaction hashes, level by level in one array whose last element is
the root. Leaves, branches and the sentinel for what is missing are hashed with different prefixes.
-/

namespace HandshakeNode

section

variable (blake2b : Bytes → Hash)

def hashMerkleEmpty : Hash := blake2b []

def hashMerkleLeaf (hash : Hash) : Hash := blake2b (0x00 :: hash.bytes)

def hashMerkleBranches (left right : Hash) : Hash := blake2b (0x01 :: (left.bytes ++ right.bytes))

def merkleAt (merkles : List Hash) (i : ℕ) : Result Hash :=
  match merkles[i]? with
  | some hash => .ok hash
  | none => .error (.panic "index out of range")

/-- The right child at `i`, the sentinel behind the end of the level. -/
def merkleRight (offset size : ℕ) (merkles : List Hash) (i : ℕ) : Result Hash :=
  if i + 1 < size then merkleAt merkles (offset + (i + 1)) else .ok (hashMerkleEmpty blake2b)

/-- The body of the inner loop at `i = 2 * j`. -/
def appendBranch (offset size : ℕ) (merkles : List Hash) (j : ℕ) : Result (List Hash) := do
  let left ← merkleAt merkles (offset + 2 * j)
  let right ← merkleRight blake2b offset size merkles (2 * j)
  return merkles ++ [hashMerkleBranches blake2b left right]

/-- `for i := 0; i < size; i += 2`. -/
def appendLevel (merkles : List Hash) (offset size : ℕ) : Result (List Hash) :=
  (List.range ((size + 1) / 2)).foldlM (appendBranch blake2b offset size) merkles

/-- `for size > 1`; the number of rounds is bounded by the size. -/
def appendLevels : ℕ → List Hash → ℕ → ℕ → Result (List Hash)
  | 0, merkles, _, size =>
    if size > 1 then .error (.panic "the size does not shrink") else .ok merkles
  | rounds + 1, merkles, offset, size =>
    if size > 1 then do
      let merkles ← appendLevel blake2b merkles offset size
      appendLevels rounds merkles (offset + size) ((size + 1) / 2)
    else .ok merkles

def buildMerkleTreeStore (hashes : List Hash) : Result (List Hash) :=
  if hashes.length = 0 then .ok [hashMerkleEmpty blake2b]
  else appendLevels blake2b hashes.length (hashes.map (hashMerkleLeaf blake2b)) 0 hashes.length

def calcMerkleRoot (hashes : List Hash) : Result Hash := do
  let merkles ← buildMerkleTreeStore blake2b hashes
  merkleAt merkles (merkles.length - 1)

end

end HandshakeNode
