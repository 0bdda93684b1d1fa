import HandshakeNode.Chain

/-!
# Headers, and blocks that are marked by hand

`ProcessBlockHeader` puts headers into the index before their blocks and keeps the best chain of
headers. `InvalidateBlock` marks a block and what descends from it, and `ReconsiderBlock` takes the
marks back. The loops over the tips follow the order of a map.
-/

namespace HandshakeNode

open BlockStatus

structure TipOrders where
  mark : RangeOrder Hash
  header : RangeOrder Hash
  best : RangeOrder Hash

namespace ChainState

variable (t : BlockTree) (rules : ChainRules)

def acceptHeaderNode (node : Hash) (s : ChainState) : Result Bool × ChainState :=
  if s.bestHeader.head? = some (t.prevBlock node) then
    (.ok true, { s with bestHeader := s.branch node })
  else if t.workSum (s.branch node) ≤ t.workSum s.bestHeader then (.ok false, s)
  else (.ok true, { s with bestHeader := s.branch node })

def checkHeader (now : ℤ) (fastAdd skipCheckpoint : Bool) (hash : Hash) (s : ChainState) :
    Result Unit :=
  match rules.headerSanity now hash with
  | some e => .error e.err
  | none =>
    match rules.headerContext fastAdd skipCheckpoint (hash :: s.branch (t.prevBlock hash)) with
    | some e => .error e.err
    | none => .ok ()

/-- `maybeAcceptBlockHeader`; the flag says whether the header is on the best header chain. -/
def processBlockHeader (now : ℤ) (fastAdd skipCheckpoint : Bool) (hash : Hash) (s : ChainState) :
    Result Bool × ChainState :=
  let prevHash := t.prevBlock hash
  if prevHash ∉ s.nodes then
    (.error (.rule .previousBlockUnknown
      ("previous block " ++ toString prevHash ++ " is not known")), s)
  else if s.knownInvalid prevHash then
    (.error (.rule .invalidAncestorBlock
      ("previous block " ++ toString prevHash ++ " is known to be invalid")), s)
  else if hash ∈ s.nodes ∧ (s.status hash).validateFailed then
    (.error (.rule .knownInvalidBlock ("block " ++ toString hash ++ " is known to be invalid")), s)
  else if hash ∈ s.nodes ∧ (s.status hash).invalidAncestor then
    (.error (.rule .invalidAncestorBlock
      ("block " ++ toString hash ++ " has an invalid ancestor")), s)
  else if hash ∈ s.bestHeader then (.ok true, s)
  else
    match checkHeader t rules now fastAdd skipCheckpoint hash s with
    | .error e => (.error e, s)
    | .ok () =>
      acceptHeaderNode t hash
        (if hash ∈ s.nodes then s else s.addNode hash (s.branch prevHash) statusHeaderStored)

def updateBestHeaderForInvalidation (order : RangeOrder Hash) (s : ChainState) : ChainState :=
  match s.bestHeader with
  | [] => s
  | tip :: _ =>
    if !s.knownInvalid tip then s
    else
      let candidates := s.inactiveTips t order s.bestHeader ++
        (s.bestHeader.find? fun n => !s.knownInvalid n).toList
      match s.bestTip t candidates with
      | none => s
      | some best => { s with bestHeader := s.branch best }

def markInvalidAncestor (s : ChainState) (n : Hash) : ChainState :=
  if s.knownInvalid n then s
  else (s.setStatusFlags n statusInvalidAncestor).unsetStatusFlags n statusValid

def descendants (s : ChainState) (tip node : Hash) : List Hash := above (some node) (s.branch tip)

def invalidateSide (orders : TipOrders) (node : Hash) (s : ChainState) : ChainState :=
  let s := (s.inactiveTips t orders.mark s.bestChain).foldl
    (fun s tip =>
      if tip ≠ node ∧ node ∈ s.branch tip then (s.descendants tip node).foldl markInvalidAncestor s
      else s) s
  s.updateBestHeaderForInvalidation t orders.header

def chooseBestTip (order : RangeOrder Hash) (s : ChainState) : Result Unit × ChainState :=
  let tips := s.inactiveTips t order s.bestChain ++ s.bestChain.head?.toList
  match s.bestTip t tips with
  | none => (.error (.panic "nil pointer dereference"), s)
  | some tip =>
    if s.bestChain.head? = some tip then (.ok (), s)
    else
      let ((detach, attach), s) := getReorganizeNodes t tip s
      reorganizeChain t rules detach attach s

def invalidateBest (orders : TipOrders) (node : Hash) (s : ChainState) : Result Unit × ChainState :=
  let later := above (some node) s.bestChain
  let detach := later.filter (fun n => !s.knownInvalid n) ++ [node]
  match reorganizeChain t rules detach [] (later.foldl markInvalidAncestor s) with
  | (.error e, s) => (.error e, s)
  | (.ok (), s) => chooseBestTip t rules orders.best (s.updateBestHeaderForInvalidation t orders.header)

def invalidateBlock (orders : TipOrders) (hash : Hash) (s : ChainState) :
    Result Unit × ChainState :=
  match s.nodes.lookup hash with
  | none =>
    (.error (.plain ("Requested block hash of " ++ toString hash ++
      " is not found and thus cannot be invalidated.")), s)
  | some [] =>
    (.error (.plain ("Requested block hash of " ++ toString hash ++
      " is a at height 0 and is thus a genesis block and cannot be invalidated.")), s)
  | some _ =>
    if s.knownInvalid hash then (.ok (), s)
    else
      let marked := (s.setStatusFlags hash statusValidateFailed).unsetStatusFlags hash statusValid
      if hash ∉ s.bestChain then (.ok (), invalidateSide t orders hash marked)
      else invalidateBest t rules orders hash marked

def reconsiderTip (node : Hash) (st : Option Hash × ChainState) (tip : Hash) :
    Option Hash × ChainState :=
  if tip ≠ node ∧ node ∈ st.2.branch tip then
    (some tip, (st.2.descendants tip node).foldl
      (fun s n => s.unsetStatusFlags n statusInvalidAncestor) st.2)
  else if tip = node then (some node, st.2)
  else st

def reconsiderBlock (order : RangeOrder Hash) (hash : Hash) (s : ChainState) :
    Result Unit × ChainState :=
  if hash ∉ s.nodes then
    (.error (.plain ("requested block hash of " ++ toString hash ++
      " is not found and thus cannot be reconsidered")), s)
  else if (s.status hash).knownValid then (.ok (), s)
  else
    let s := (s.unsetStatusFlags hash statusInvalidAncestor).unsetStatusFlags hash
      statusValidateFailed
    let tips := s.inactiveTips t order s.bestChain ++ s.bestChain.head?.toList
    match tips.foldl (reconsiderTip hash) (none, s) with
    | (none, s) => (.error (.panic "nil pointer dereference"), s)
    | (some tip, s) =>
      if t.workSum (s.branch tip) ≤ t.workSum s.bestChain then (.ok (), s)
      else
        let ((detach, attach), s) := getReorganizeNodes t tip s
        match verifyReorganizationValidity t rules detach attach s with
        | (.error _, s) => (.ok (), s)
        | (.ok (), s) => reorganizeChain t rules detach attach s

end ChainState

end HandshakeNode
