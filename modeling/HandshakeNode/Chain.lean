import HandshakeNode.BlockIndex

/-!
# Choosing the best chain

`ProcessBlock` and what it calls: acceptance into the block index, connection to the tip or
reorganization, and the pool of orphans. Whether a block is valid is given by `ChainRules`: verdicts
that depend on the block and its ancestors only. The database does not fail, so that a call that
connects or disconnects a block fails only if it is not made at the tip. A call returns its result
together with the state it leaves, since a failed call may have changed flags.
-/

namespace HandshakeNode

open BlockStatus

structure RuleError where
  code : ErrorCode
  description : String
deriving DecidableEq

def RuleError.err (e : RuleError) : Err := .rule e.code e.description

/-- What the validation functions answer; a branch stands for its first block. -/
structure ChainRules where
  sanity : (now : ℤ) → Hash → Option RuleError
  /-- The comparison of `ProcessBlock` with the last checkpoint of the best chain. -/
  checkpoint : (bestChain : List Hash) → (fastAdd : Bool) → Hash → Option Err
  context : (fastAdd : Bool) → (branch : List Hash) → Option RuleError
  /-- `checkConnectBlock`, and what `verifyReorganizationValidity` checks of a new block. -/
  connect : (branch : List Hash) → Option RuleError
  /-- What `verifyReorganizationValidity` checks of a block that is known to be valid. -/
  recheck : (branch : List Hash) → Option RuleError
  /-- `checkCoinbaseAirdropsAvailable`. -/
  airdrops : (branch : List Hash) → Option RuleError
  /-- `utxoCache.connectTransactions`: its failure leaves the status of the block as it is. -/
  spends : (branch : List Hash) → Option Err
  /-- `connectNames`, as `connectBlock` calls it. -/
  names : (branch : List Hash) → Option RuleError
  headerSanity : (now : ℤ) → Hash → Option RuleError
  headerContext : (fastAdd skipCheckpoint : Bool) → (branch : List Hash) → Option RuleError
  /-- `BFFastAdd` only leaves checks out. -/
  context_fastAdd : ∀ {branch}, context false branch = none → context true branch = none
  /-- The later checks repeat a part of `checkConnectBlock`. -/
  recheck_of_connect : ∀ {branch}, connect branch = none → recheck branch = none
  airdrops_of_connect : ∀ {branch}, connect branch = none → airdrops branch = none
  spends_of_connect : ∀ {branch}, connect branch = none → spends branch = none
  names_of_connect : ∀ {branch}, connect branch = none → names branch = none

def runAll {σ ι : Type} (f : ι → σ → Result Unit × σ) : List ι → σ → Result Unit × σ
  | [], s => (.ok (), s)
  | i :: is, s =>
    match f i s with
    | (.error e, s) => (.error e, s)
    | (.ok (), s) => runAll f is s

namespace ChainState

variable (t : BlockTree) (rules : ChainRules)

variable (node : Hash) (s : ChainState)

def connectBlock : Result Unit × ChainState :=
  if s.bestChain.head? = some (t.prevBlock node) then
    (.ok (), { s with bestChain := node :: s.bestChain })
  else
    (.error (.assert "connectBlock must be called with a block that extends the main chain"), s)

def disconnectBlock : Result Unit × ChainState :=
  if s.bestChain.head? = some node then (.ok (), { s with bestChain := s.bestChain.tail })
  else
    (.error (.assert
      "disconnectBlock must be called with the block at the end of the main chain"), s)

/-- The nodes to detach, the tip first, and those to attach, the lowest first. None if the branch
has a block that is known to be invalid; the nodes above it are then marked. -/
def getReorganizeNodes : (List Hash × List Hash) × ChainState :=
  if s.knownInvalid (t.prevBlock node) then (([], []), s.setStatusFlags node statusInvalidAncestor)
  else
    let fork := findFork s.bestChain (s.branch node)
    let side := above fork (s.branch node)
    let attach := side.takeWhile fun n => !s.knownInvalid n
    if attach.length < side.length then (([], []), s.setAll attach statusInvalidAncestor)
    else ((above fork s.bestChain, attach.reverse), s)

def verifyAttach : List Hash → ChainState → Result Unit × ChainState
  | [], s => (.ok (), s)
  | n :: later, s =>
    -- `dbFetchBlockByNode`, for a node of which only the header is stored
    if !(s.status n).haveData then
      (.error (.blockNotFound ("block " ++ toString n ++ " does not exist")), s)
    else if (s.status n).knownValid then
      match rules.recheck (s.branch n) with
      | some e => (.error e.err, s)
      | none => verifyAttach later s
    else
      match rules.connect (s.branch n) with
      | some e =>
        (.error e.err, (s.setStatusFlags n statusValidateFailed).setAll later statusInvalidAncestor)
      | none => verifyAttach later (s.setStatusFlags n statusValid)

def verifyReorganizationValidity (detach attach : List Hash) (s : ChainState) :
    Result Unit × ChainState :=
  if detach = [] ∧ attach = [] then (.ok (), s)
  else if detach ≠ [] ∧ detach.head? ≠ s.bestChain.head? then
    (.error (.assert ("reorganize nodes to detach are not for the current best chain -- first " ++
      "detach node " ++ toString (detach.headD default) ++ ", current chain " ++
      toString (s.bestChain.headD default))), s)
  else if attach ≠ [] ∧ detach ≠ [] ∧
      attach.head?.map t.prevBlock ≠ detach.getLast?.map t.prevBlock then
    (.error (.assert ("reorganize nodes do not have the same fork point -- first attach parent " ++
      toString (t.prevBlock (attach.headD default)) ++ ", last detach parent " ++
      toString (t.prevBlock (detach.getLastD default)))), s)
  else verifyAttach rules attach s

def reorganizeChain (detach attach : List Hash) (s : ChainState) : Result Unit × ChainState :=
  match verifyReorganizationValidity t rules detach attach s with
  | (.error e, s) => (.error e, s)
  | (.ok (), s) =>
    match runAll disconnectBlock detach s with
    | (.error e, s) => (.error e, s)
    | (.ok (), s) => runAll (connectBlock t) attach s

/-- `connectBestChain` for a block on the tip. The names are connected in `connectBlock`, which
refuses nothing else of a block that extends the best chain. -/
def connectTip (fastAdd : Bool) (node : Hash) (s : ChainState) : Result Bool × ChainState :=
  let fastAdd := fastAdd || (s.status node).knownValid
  let branch := s.branch node
  match if fastAdd then rules.airdrops branch else rules.connect branch with
  | some e => (.error e.err, s.setStatusFlags node statusValidateFailed)
  | none =>
    let s := if fastAdd then s else s.setStatusFlags node statusValid
    match rules.spends branch, rules.names branch with
    | some e, _ => (.error e, s)
    | none, some e => (.error e.err, s.setStatusFlags node statusValidateFailed)
    | none, none =>
      match connectBlock t node s with
      | (.error e, s) => (.error e, s)
      | (.ok (), s) => (.ok true, s.setStatusFlags node statusValid)

def connectBestChain (fastAdd : Bool) (node : Hash) (s : ChainState) : Result Bool × ChainState :=
  if s.bestChain.head? = some (t.prevBlock node) then connectTip t rules fastAdd node s
  else if t.workSum (s.branch node) ≤ t.workSum s.bestChain then (.ok false, s)
  else
    let ((detach, attach), s) := getReorganizeNodes t node s
    match reorganizeChain t rules detach attach s with
    | (.error e, s) => (.error e, s)
    | (.ok (), s) => (.ok true, s)

/-- The node of a block that passed its contextual checks: its header may have been stored before. -/
def storeNode (block : Hash) (s : ChainState) : ChainState :=
  if block ∈ s.nodes then s.setStatusFlags block statusDataStored
  else s.addNode block (s.branch (t.prevBlock block)) (statusDataStored.set statusHeaderStored)

def maybeAcceptBlock (fastAdd : Bool) (block : Hash) (s : ChainState) : Result Bool × ChainState :=
  let prevHash := t.prevBlock block
  if prevHash ∉ s.nodes then
    (.error (.rule .previousBlockUnknown
      ("previous block " ++ toString prevHash ++ " is unknown")), s)
  else if s.knownInvalid prevHash then
    (.error (.rule .invalidAncestorBlock
      ("previous block " ++ toString prevHash ++ " is known to be invalid")), s)
  else
    match rules.context fastAdd (block :: s.branch prevHash) with
    | some e => (.error e.err, s)
    | none => connectBestChain t rules fastAdd block (s.storeNode t block)

def orphanLifetime : ℤ := 3600000000000

def maxOrphanBlocks : ℕ := 100

/-- `b.prevOrphans[hash]`. -/
def waiting (hash : Hash) : List OrphanBlock := (s.prevOrphans.lookup hash).getD []

def removeOrphanBlock (orphan : OrphanBlock) (s : ChainState) : ChainState :=
  let prevHash := t.prevBlock orphan.hash
  let orphans := (s.waiting prevHash).filter fun o => o.hash ≠ orphan.hash
  { s with
    orphans := s.orphans.erase orphan.hash
    prevOrphans :=
      if orphans = [] then s.prevOrphans.erase prevHash else s.prevOrphans.insert prevHash orphans }

/-- A round of the first loop of `addOrphanBlock`. -/
def expireOrphan (now : ℤ) (s : ChainState) (hash : Hash) : ChainState :=
  match s.orphans.lookup hash with
  | none => s
  | some orphan =>
    if orphan.expiration < now then s.removeOrphanBlock t orphan
    else if s.oldestOrphan.all (fun oldest => orphan.expiration < oldest.expiration) then
      { s with oldestOrphan := some orphan }
    else s

/-- Makes room for one orphan. The pointer is set whenever the pool has an orphan; what it points to
may have left the pool. -/
def evictOrphan : ChainState :=
  match s.oldestOrphan with
  | none => s
  | some oldest => { s.removeOrphanBlock t oldest with oldestOrphan := none }

def insertOrphan (orphan : OrphanBlock) (s : ChainState) : ChainState :=
  let prevHash := t.prevBlock orphan.hash
  { s with
    orphans := s.orphans.insert orphan.hash orphan
    prevOrphans := s.prevOrphans.insert prevHash (s.waiting prevHash ++ [orphan]) }

def addOrphanBlock (order : RangeOrder Hash) (now : ℤ) (block : Hash) (s : ChainState) :
    ChainState :=
  let s := (order.list s.orphans.keys).foldl (expireOrphan t now) s
  let s := if s.orphans.keys.card + 1 > maxOrphanBlocks then s.evictOrphan t else s
  s.insertOrphan t ⟨block, now + orphanLifetime⟩

/-- The two loops of `processOrphans`, with the hashes still to process. Each round takes an orphan
out of the pool or a hash out of the queue, so `fuel` is enough if it exceeds the length of the queue
and twice the size of the pool. -/
def processOrphans (fastAdd : Bool) : ℕ → List Hash → ChainState → Result Unit × ChainState
  | 0, _, s => (.error (.panic "processOrphans: out of fuel"), s)
  | _ + 1, [], s => (.ok (), s)
  | fuel + 1, processHash :: processHashes, s =>
    match s.waiting processHash with
    | [] => processOrphans fastAdd fuel processHashes s
    | orphan :: _ =>
      match maybeAcceptBlock t rules fastAdd orphan.hash (s.removeOrphanBlock t orphan) with
      | (.error e, s) => (.error e, s)
      | (.ok _, s) =>
        processOrphans fastAdd fuel (processHash :: processHashes ++ [orphan.hash]) s

/-- Whether the block is on the main chain, and whether it is an orphan. -/
def processBlock (order : RangeOrder Hash) (now : ℤ) (fastAdd : Bool) (block : Hash)
    (s : ChainState) : Result (Bool × Bool) × ChainState :=
  if s.blockExists block then
    (.error (.rule .duplicateBlock ("already have block " ++ toString block)), s)
  else if block ∈ s.orphans then
    (.error (.rule .duplicateBlock ("already have block (orphan) " ++ toString block)), s)
  else
    match rules.sanity now block with
    | some e => (.error e.err, s)
    | none =>
      match rules.checkpoint s.bestChain fastAdd block with
      | some e => (.error e, s)
      | none =>
        if !s.blockExists (t.prevBlock block) then
          (.ok (false, true), s.addOrphanBlock t order now block)
        else
          match maybeAcceptBlock t rules fastAdd block s with
          | (.error e, s) => (.error e, s)
          | (.ok isMainChain, s) =>
            match processOrphans t rules fastAdd (2 * s.orphans.keys.card + 2) [block] s with
            | (.error e, s) => (.error e, s)
            | (.ok (), s) => (.ok (isMainChain, false), s)

end ChainState

end HandshakeNode
