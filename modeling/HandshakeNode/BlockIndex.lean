import HandshakeNode.Lib.Branch
import HandshakeNode.Wire

/-!
# The block index and the chain views

A block is known by its hash, and its header says which block comes before it and how much work it
stands for. The index has a node for each header the node accepted, with its status; a chain view is
the list of the nodes from a tip down to the genesis block.
-/

namespace HandshakeNode

structure BlockTree where
  genesis : Hash
  prevBlock : Hash → Hash
  work : Hash → ℕ

namespace BlockTree

def workSum (t : BlockTree) (branch : List Hash) : ℕ := (branch.map t.work).sum

/-- The list has a block, its parent and so on down to the genesis block. -/
abbrev Branch (t : BlockTree) : List Hash → Prop := Trees.Branch t.prevBlock t.genesis

end BlockTree

structure BlockStatus where
  dataStored : Bool := false
  valid : Bool := false
  validateFailed : Bool := false
  invalidAncestor : Bool := false
  headerStored : Bool := false
deriving DecidableEq, Repr

namespace BlockStatus

def statusDataStored : BlockStatus := { dataStored := true }
def statusValid : BlockStatus := { valid := true }
def statusValidateFailed : BlockStatus := { validateFailed := true }
def statusInvalidAncestor : BlockStatus := { invalidAncestor := true }
def statusHeaderStored : BlockStatus := { headerStored := true }

def haveData (status : BlockStatus) : Bool := status.dataStored

def knownValid (status : BlockStatus) : Bool := status.valid

def knownInvalid (status : BlockStatus) : Bool := status.validateFailed || status.invalidAncestor

def set (status flags : BlockStatus) : BlockStatus where
  dataStored := status.dataStored || flags.dataStored
  valid := status.valid || flags.valid
  validateFailed := status.validateFailed || flags.validateFailed
  invalidAncestor := status.invalidAncestor || flags.invalidAncestor
  headerStored := status.headerStored || flags.headerStored

def unset (status flags : BlockStatus) : BlockStatus where
  dataStored := status.dataStored && !flags.dataStored
  valid := status.valid && !flags.valid
  validateFailed := status.validateFailed && !flags.validateFailed
  invalidAncestor := status.invalidAncestor && !flags.invalidAncestor
  headerStored := status.headerStored && !flags.headerStored

end BlockStatus

/-- An orphan and the time, in nanoseconds, at which it may be dropped. -/
structure OrphanBlock where
  hash : Hash
  expiration : ℤ
deriving DecidableEq

/-- The part of `BlockChain` that chooses the chain. Nodes are looked up by their hashes: `nodes`
has the ancestors of each node, its parent first, and `status` the flags. -/
structure ChainState where
  nodes : GoMap Hash (List Hash)
  status : Hash → BlockStatus
  bestChain : List Hash
  bestHeader : List Hash
  orphans : GoMap Hash OrphanBlock
  prevOrphans : GoMap Hash (List OrphanBlock)
  oldestOrphan : Option OrphanBlock

namespace ChainState

variable (s : ChainState) (hash : Hash)

def branch : List Hash := hash :: (s.nodes.lookup hash).getD []

def knownInvalid : Bool := (s.status hash).knownInvalid

/-- `HaveBlock` of the index. The database is asked only for blocks of the main chain, which the
index has with their data. -/
def blockExists : Bool :=
  decide (hash ∈ s.nodes) && (s.status hash).haveData

def addNode (ancestors : List Hash) (status : BlockStatus) : ChainState :=
  { s with
    nodes := s.nodes.insert hash ancestors
    status := Function.update s.status hash status }

def setStatusFlags (flags : BlockStatus) : ChainState :=
  { s with status := Function.update s.status hash ((s.status hash).set flags) }

def unsetStatusFlags (flags : BlockStatus) : ChainState :=
  { s with status := Function.update s.status hash ((s.status hash).unset flags) }

def setAll (hashes : List Hash) (flags : BlockStatus) : ChainState :=
  hashes.foldl (fun s hash => s.setStatusFlags hash flags) s

def findFork (view branch : List Hash) : Option Hash :=
  (branch.dropWhile fun n => decide (n ∉ view)).head?

def above (node : Option Hash) (branch : List Hash) : List Hash :=
  branch.takeWhile fun n => decide (some n ≠ node)

/-- The nodes that are not in the view and not the parent of one that is not, in the order in which
the second loop of `InactiveTips` visits them. -/
def inactiveTips (t : BlockTree) (order : RangeOrder Hash) (view : List Hash) (s : ChainState) :
    List Hash :=
  let inactive := s.nodes.keys.filter (· ∉ view)
  (order.list inactive).filter fun tip => decide (∀ n ∈ inactive, t.prevBlock n ≠ tip)

/-- The loop over the tips of `InvalidateBlock` and `updateBestHeaderForInvalidation`: the first tip
of the most work that is not known to be invalid. -/
def bestTip (t : BlockTree) (s : ChainState) (tips : List Hash) : Option Hash :=
  tips.foldl
    (fun best tip =>
      if s.knownInvalid tip then best
      else match best with
        | none => some tip
        | some b => if t.workSum (s.branch tip) > t.workSum (s.branch b) then some tip else best)
    none

end ChainState

end HandshakeNode
