import HandshakeNode.ChainInvalidate

/-!
# Runs of the chain

The states that sequences of calls lead to, from a chain that has the genesis block alone.
`checkHeadersList` gives `BFFastAdd` to a block of the best header chain that is no higher than the
next checkpoint, once that checkpoint is on the best header chain too.
-/

namespace HandshakeNode

open BlockStatus

inductive ChainCall where
  | processBlock (order : RangeOrder Hash) (now : ℤ) (fastAdd : Bool) (block : Hash)
  | processBlockHeader (now : ℤ) (fastAdd skipCheckpoint : Bool) (hash : Hash)
  | invalidateBlock (orders : TipOrders) (hash : Hash)

def ChainCall.run (t : BlockTree) (rules : ChainRules) : ChainCall → ChainState → ChainState
  | processBlock order now fastAdd block, s => (s.processBlock t rules order now fastAdd block).2
  | processBlockHeader now fastAdd skipCheckpoint hash, s =>
    (s.processBlockHeader t rules now fastAdd skipCheckpoint hash).2
  | invalidateBlock orders hash, s => (s.invalidateBlock t rules orders hash).2

def ChainCall.IsBlock (allowed : Bool → Prop) : ChainCall → Prop
  | processBlock _ _ fastAdd _ => allowed fastAdd
  | _ => False

/-- `createChainState`. -/
def ChainState.initial (t : BlockTree) : ChainState where
  nodes := Finmap.singleton t.genesis []
  status := Function.update (fun _ => {}) t.genesis (statusDataStored.set statusValid)
  bestChain := [t.genesis]
  bestHeader := [t.genesis]
  orphans := ∅
  prevOrphans := ∅
  oldestOrphan := none

/-- The states of the runs whose calls are all `allowed` in the state in which they are made. -/
inductive ChainTrace (t : BlockTree) (rules : ChainRules)
    (allowed : ChainState → ChainCall → Prop) : ChainState → Prop
  | start : ChainTrace t rules allowed (.initial t)
  | step {s : ChainState} {call : ChainCall} (h : ChainTrace t rules allowed s)
      (hcall : allowed s call) : ChainTrace t rules allowed (call.run t rules s)

namespace ChainTrace

variable {t : BlockTree} {rules : ChainRules} {allowed : ChainState → ChainCall → Prop}

lemma inv {P : ChainState → Prop} (hstart : P (.initial t))
    (hstep : ∀ s call, P s → allowed s call → P (call.run t rules s)) {s : ChainState}
    (h : ChainTrace t rules allowed s) : P s := by
  induction h with
  | start => exact hstart
  | step _ hcall ih => exact hstep _ _ ih hcall

end ChainTrace

structure Checkpoint where
  height : ℤ
  hash : Hash
deriving DecidableEq

/-- The checkpoints of a network, in the order of their heights; each names the height of its
block. -/
structure Checkpoints (t : BlockTree) where
  list : List Checkpoint
  height_eq : ∀ c ∈ list, ∀ l, t.Branch (c.hash :: l) → (l.length : ℤ) = c.height

def findNextHeaderCheckpoint (checkpoints : List Checkpoint) (height : ℤ) : Option Checkpoint :=
  (checkpoints.reverse.takeWhile fun c => decide (height < c.height)).getLast?

namespace ChainState

variable (s : ChainState)

def isValidHeader (hash : Hash) : Bool :=
  decide (hash ∈ s.nodes) && decide (hash ∈ s.bestHeader) && !s.knownInvalid hash

def headerHeight (hash : Hash) : Option ℤ :=
  if hash ∈ s.nodes ∧ hash ∈ s.bestHeader then some ((s.branch hash).length - 1) else none

/-- Whether the block is a checkpoint, and whether it gets `BFFastAdd`. -/
def checkHeadersList (checkpoints : List Checkpoint) (ibdMode : Bool) (blockHash : Hash) :
    Bool × Bool :=
  if !ibdMode then (false, false)
  else if !s.isValidHeader blockHash then (false, false)
  else
    match s.headerHeight blockHash with
    | none => (false, false)
    | some height =>
      match findNextHeaderCheckpoint checkpoints (height - 1) with
      | none => (false, false)
      | some checkpoint =>
        if !s.isValidHeader checkpoint.hash then (false, false)
        else (decide (blockHash = checkpoint.hash), true)

end ChainState

/-- Header calls, and `ProcessBlock` calls in which `BFFastAdd` is given only as `checkHeadersList`
gives it. -/
def ChainCall.IsSync (checkpoints : List Checkpoint) (s : ChainState) : ChainCall → Prop
  | processBlock _ _ fastAdd block =>
    fastAdd = true → ∃ ibdMode, (s.checkHeadersList checkpoints ibdMode block).2 = true
  | processBlockHeader .. => True
  | invalidateBlock .. => False

end HandshakeNode
