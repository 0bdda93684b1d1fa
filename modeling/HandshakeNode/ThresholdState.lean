import HandshakeNode.BlockIndex
import Mathlib.Data.List.Sort

/-!
# The threshold states of the rule changes

A rule change is voted on in windows of blocks. `thresholdState` says where it stands for the block
after a node: it looks for the last window whose state is in the cache, or that lies before the
start, and goes through the later windows one by one with `thresholdStateTransition`.
-/

namespace HandshakeNode

/-- A `*blockNode`, by its branch: the block, its parent and so on down to the genesis block; nil is
the empty list. -/
abbrev BranchNode := List Hash

namespace BranchNode

def height (node : BranchNode) : ℤ := node.length - 1

def invertLowestOne (n : ℕ) : ℕ := n &&& (n - 1)

def getAncestorHeight (height : ℕ) : ℕ := invertLowestOne (invertLowestOne height)

/-- The loop of `Ancestor`. The pointer `n.ancestor` is what `buildAncestor` has set it to when the
node was made. The loop visits lower and lower nodes, so the length of the branch is enough fuel. -/
def ancestorLoop : ℕ → BranchNode → ℤ → BranchNode
  | 0, _, _ => []
  | _ + 1, [], _ => []
  | fuel + 1, n :: parent, height =>
    if (parent.length : ℤ) = height then n :: parent
    else
      let skipHeight := getAncestorHeight parent.length
      let skip :=
        if (skipHeight : ℤ) > BranchNode.height parent then []
        else ancestorLoop fuel parent skipHeight
      if skip ≠ [] ∧ (skipHeight : ℤ) ≥ height then ancestorLoop fuel skip height
      else ancestorLoop fuel parent height

def ancestor (node : BranchNode) (height : ℤ) : BranchNode :=
  if height < 0 ∨ height > BranchNode.height node then []
  else ancestorLoop node.length node height

def relativeAncestor (node : BranchNode) (distance : ℤ) : BranchNode :=
  ancestor node (height node - distance)

end BranchNode

inductive ThresholdState where
  | defined
  | started
  | lockedIn
  | active
  | failed
deriving DecidableEq, Repr

structure ThresholdConditionChecker where
  hasStarted : BranchNode → Bool
  hasEnded : BranchNode → Bool
  ruleChangeActivationThreshold : UInt32
  minerConfirmationWindow : UInt32
  eligibleToActivate : BranchNode → Bool
  isSpeedy : Bool
  condition : BranchNode → Result Bool
  forceActive : BranchNode → Bool

abbrev ThresholdStateCache := GoMap Hash ThresholdState

section
variable (checker : ThresholdConditionChecker)

def countVotes : ℕ → BranchNode → Result ℕ
  | 0, _ => .ok 0
  | n + 1, countNode => do
    let condition ← checker.condition countNode
    let count ← countVotes n countNode.tail
    return if condition then count + 1 else count

def thresholdStateTransition (state : ThresholdState) (prevNode : BranchNode)
    (confirmationWindow : ℤ) : Result ThresholdState :=
  match state with
  | .defined =>
    if !checker.isSpeedy && checker.hasEnded prevNode then .ok .failed
    else if checker.hasStarted prevNode then .ok .started
    else .ok .defined
  | .started =>
    if !checker.isSpeedy && checker.hasEnded prevNode then .ok .failed
    else do
      let count ← countVotes checker confirmationWindow.toNat prevNode
      if count ≥ checker.ruleChangeActivationThreshold.toNat then .ok .lockedIn
      else if checker.isSpeedy && checker.hasEnded prevNode then .ok .failed
      else .ok .started
  | .lockedIn => if !checker.eligibleToActivate prevNode then .ok .lockedIn else .ok .active
  | .active => .ok .active
  | .failed => .ok .failed

/-- The walk back from the end of a window to the last one that is cached or has not started: the
nodes whose states are needed, the node it stops at and the cache. -/
def findCached (confirmationWindow : ℤ) :
    ℕ → BranchNode → ThresholdStateCache → List BranchNode × BranchNode × ThresholdStateCache
  | 0, _, cache | _ + 1, [], cache => ([], [], cache)
  | fuel + 1, node :: parent, cache =>
    if (cache.lookup node).isSome then ([], node :: parent, cache)
    else if !checker.hasStarted (node :: parent) then
      ([], node :: parent, cache.insert node .defined)
    else
      let rest := findCached confirmationWindow fuel
        (BranchNode.relativeAncestor (node :: parent) confirmationWindow) cache
      ((node :: parent) :: rest.1, rest.2)

def startingState (cache : ThresholdStateCache) : BranchNode → Result ThresholdState
  | [] => .ok .defined
  | node :: _ =>
    match cache.lookup node with
    | some state => .ok state
    | none => .error (.assert ("thresholdState: cache lookup failed for " ++ toString node))

def updateStates (confirmationWindow : ℤ) : List BranchNode → ThresholdState → ThresholdStateCache →
      Result ThresholdState × ThresholdStateCache
  | [], state, cache => (.ok state, cache)
  | [] :: _, _, cache => (.error (.panic "nil pointer dereference"), cache)
  | (node :: parent) :: rest, state, cache =>
    match thresholdStateTransition checker state (node :: parent) confirmationWindow with
    | .error e => (.error e, cache)
    | .ok state => updateStates confirmationWindow rest state (cache.insert node state)

def thresholdState (prevNode : BranchNode) (cache : ThresholdStateCache) :
    Result ThresholdState × ThresholdStateCache :=
  if checker.forceActive prevNode then (.ok .active, cache)
  else
    -- the window is converted to an int32, so that a large one becomes negative
    let confirmationWindow : ℤ := checker.minerConfirmationWindow.toInt32.toInt
    if prevNode = [] ∨ prevNode.height + 1 < confirmationWindow then (.ok .defined, cache)
    else if confirmationWindow = 0 then (.error (.panic "integer divide by zero"), cache)
    else
      let prevNode := BranchNode.ancestor prevNode
        (prevNode.height - (prevNode.height + 1).tmod confirmationWindow)
      let walk := findCached checker confirmationWindow (prevNode.length + 1) prevNode cache
      match startingState walk.2.2 walk.2.1 with
      | .error e => (.error e, walk.2.2)
      | .ok state => updateStates checker confirmationWindow walk.1.reverse state walk.2.2

def thresholdStates : List BranchNode → ThresholdStateCache →
    List (Result ThresholdState) × ThresholdStateCache
  | [], cache => ([], cache)
  | node :: nodes, cache =>
    let first := thresholdState checker node cache
    let rest := thresholdStates nodes first.2
    (first.1 :: rest.1, rest.2)

end

structure HeaderTree extends BlockTree where
  /-- `uint32(node.version)`. -/
  version : Hash → BitVec 32
  timestamp : Hash → ℤ

namespace HeaderTree
variable (t : HeaderTree)

def medianTimeBlocks : ℕ := 11

def calcPastMedianTime (node : BranchNode) : ℤ :=
  let timestamps := ((node.take medianTimeBlocks).map t.timestamp).insertionSort (· ≤ ·)
  timestamps.getD (timestamps.length / 2) 0

/-- `PastMedianTime`, an error when the block has no previous node. -/
def pastMedianTime : BranchNode → Option ℤ
  | [] => none
  | [_] => none
  | node => some (t.calcPastMedianTime node)

/-- A `MedianTimeDeploymentStarter` with this start, or always started when the time is zero. -/
def starterHasStarted (startTime : Option ℤ) (node : BranchNode) : Bool :=
  match startTime with
  | none => true
  | some start => (t.pastMedianTime node).any (start ≤ ·)

/-- A `MedianTimeDeploymentEnder` with this end, or one that never ends when the time is zero. -/
def enderHasEnded (endTime : Option ℤ) (node : BranchNode) : Bool :=
  match endTime with
  | none => false
  | some finish => (t.pastMedianTime node).any (finish ≤ ·)

end HeaderTree

/-- `DeploymentStarter` and `DeploymentEnder` may be nil, and a time may be zero. -/
structure ConsensusDeployment where
  bitNumber : UInt8
  minActivationHeight : UInt32
  customActivationThreshold : UInt32
  alwaysActiveHeight : UInt32
  deploymentStarter : Option (Option ℤ)
  deploymentEnder : Option (Option ℤ)

def ConsensusDeployment.effectiveAlwaysActiveHeight (d : ConsensusDeployment) : ℕ :=
  if d.alwaysActiveHeight = 0 then 2 ^ 32 - 1 else d.alwaysActiveHeight.toNat

structure VoteParams where
  ruleChangeActivationThreshold : UInt32
  minerConfirmationWindow : UInt32

def deploymentChecker (t : HeaderTree) (params : VoteParams) (d : ConsensusDeployment) :
    ThresholdConditionChecker where
  hasStarted node := d.deploymentStarter.any (t.starterHasStarted · node)
  hasEnded node := d.deploymentEnder.any (t.enderHasEnded · node)
  ruleChangeActivationThreshold :=
    if d.customActivationThreshold ≠ 0 then d.customActivationThreshold
    else params.ruleChangeActivationThreshold
  minerConfirmationWindow := params.minerConfirmationWindow
  eligibleToActivate node :=
    d.minActivationHeight = 0 || d.minActivationHeight.toNat ≤ node.length
  isSpeedy := d.minActivationHeight ≠ 0 || d.customActivationThreshold ≠ 0
  condition
    | [] => .error (.panic "nil pointer dereference")
    | node :: _ => .ok (t.version node &&& (1#32 <<< d.bitNumber.toNat) ≠ 0)
  forceActive node := node ≠ [] && d.effectiveAlwaysActiveHeight ≤ node.length

end HandshakeNode
