import HandshakeNode.ThresholdState

/-!
# The flat view of a chain

`chainView` keeps the nodes of a branch in a slice, by their heights. `setTip` cuts or extends the
slice and walks down from the new tip until it meets an entry that is right already; what earlier
tips have left in the array is used again.
-/

namespace HandshakeNode

/-- `node.parent`. -/
def BranchNode.parent (node : BranchNode) : BranchNode := node.tail

/-- `chainView`: the array behind the slice `nodes`, and the length of the slice. -/
structure ChainView where
  array : List BranchNode
  length : ℕ

namespace ChainView

open BranchNode

def approxNodesPerWeek : ℕ := 6 * 24 * 7

/-- The slice `nodes`. -/
def nodes (c : ChainView) : List BranchNode := c.array.take c.length

/-- The slice gets the length `needed`, in a new array when the old one is too short, else with nil
in the entries that come in. -/
def resize (c : ChainView) (needed : ℕ) : ChainView where
  array :=
    if c.array.length < needed then
      (List.range (needed + approxNodesPerWeek)).map fun i => c.nodes.getD i []
    else c.array.mapIdx fun i node => if c.length ≤ i ∧ i < needed then [] else node
  length := needed

/-- The loop of `setTip`. -/
def fill : List BranchNode → BranchNode → List BranchNode
  | array, [] => array
  | array, n :: parent =>
    if array.getD parent.length [] = n :: parent then array
    else fill (array.set parent.length (n :: parent)) parent

variable (c : ChainView) (node : BranchNode)

def setTip : ChainView :=
  if node = [] then { c with length := 0 }
  else
    let c := c.resize node.length
    { c with array := fill c.array node }

def new : ChainView := ⟨[], 0⟩

def height : ℤ := c.nodes.length - 1

def nodeByHeight (height : ℤ) : BranchNode :=
  if height < 0 ∨ height ≥ c.nodes.length then [] else c.nodes.getD height.toNat []

def contains : Bool :=
  c.nodeByHeight (BranchNode.height node) = node

/-- The loop of `findFork`. -/
def findForkLoop (c : ChainView) : BranchNode → BranchNode
  | [] => []
  | n :: parent => if c.contains (n :: parent) then n :: parent else c.findForkLoop parent

def findFork : BranchNode :=
  if node = [] then []
  else c.findForkLoop (if BranchNode.height node > c.height then ancestor node c.height else node)

end ChainView

end HandshakeNode
