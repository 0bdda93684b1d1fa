import HandshakeNode.NameConnect

/-!
# Trees for name proofs

Proofs are made against the committed root, which lags behind the live states. `dbBuildNameProofTree`
takes the live leaves back through the undo lists of the blocks since the last commitment.
-/

namespace HandshakeNode

def rollbackEntry (leavesByKey : GoMap Hash Bytes) (entry : NameUndoEntry) :
    Result (GoMap Hash Bytes) :=
  if !entry.existed then .ok (leavesByKey.erase entry.nameHash)
  else
    match entry.state with
    | none => .error (.panic "nil pointer dereference")
    | some ns => do
      let serialized ← ns.encode
      return leavesByKey.insert entry.nameHash serialized

def rollbackBlock (db : NameDb) (leavesByKey : GoMap Hash Bytes) (blockHash : Hash) :
    Result (GoMap Hash Bytes) := do
  let entries ← db.dbFetchNameUndo blockHash
  entries.foldlM rollbackEntry leavesByKey

/-- The leaves of the committed root, for which there is no snapshot. -/
def rollbackLeaves (order : RangeOrder Hash) (db : NameDb) (root : Hash)
    (rollbackHashes : List Hash) : Result (List UrkelLeaf) := do
  let committedRoot ← db.dbFetchNameRoot
  failIf (committedRoot ≠ root) (.plain ("name root snapshot " ++ toString root ++ " not found"))
  let leavesByKey := db.dbFetchNameLeaves.foldl (fun m leaf => m.insert leaf.key leaf.value) ∅
  let leavesByKey ← rollbackHashes.foldlM (rollbackBlock db) leavesByKey
  return (order.list leavesByKey.keys).map fun key => ⟨key, (leavesByKey.lookup key).getD []⟩

/-- `snapshot` is what `dbFetchNameSnapshot` returns for the root. -/
def nameProofLeaves (order : RangeOrder Hash) (snapshot : Option (List UrkelLeaf)) (db : NameDb)
    (root : Hash) (rollbackHashes : List Hash) : Result (List UrkelLeaf) :=
  match snapshot with
  | some leaves => .ok leaves
  | none => rollbackLeaves order db root rollbackHashes

def dbBuildNameProofTree (blake2b : Bytes → Hash) (order : RangeOrder Hash)
    (dbFetchNameSnapshot : Hash → Result (Option (List UrkelLeaf))) (db : NameDb) (root : Hash)
    (rollbackHashes : List Hash) : Result (Option UrkelNode) := do
  let snapshot ← dbFetchNameSnapshot root
  let leaves ← nameProofLeaves order snapshot db root rollbackHashes
  let tree ← buildUrkelTree blake2b leaves
  let treeRoot := (tree.map UrkelNode.hash).getD Hash.zero
  failIf (treeRoot ≠ root) (.corruption ("committed name root mismatch: got " ++
    toString treeRoot ++ ", want " ++ toString root))
  return tree

/-- The loop of `nameProofRollbackHashes` over the blocks above the genesis block, the tip first. -/
def hashesAbove (commitHeight : ℤ) : List Hash → List Hash
  | [] => []
  | hash :: parents =>
    if commitHeight < parents.length + 1 then hash :: hashesAbove commitHeight parents else []

def nameProofRollbackHashes (params : Params) (chain : List Hash) : List Hash :=
  let interval := params.nameTreeInterval.toInt32.toInt
  if interval ≤ 0 then []
  else hashesAbove (chain.length - (chain.length : ℤ) % interval) chain

def UrkelNode.leaves : UrkelNode → List UrkelLeaf
  | leaf key value _ => [⟨key, value⟩]
  | internal _ left right _ => left.leaves ++ right.leaves

end HandshakeNode
