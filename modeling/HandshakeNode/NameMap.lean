import HandshakeNode.NameConnect

/-!
# Names as a map

What a view and the database stand for: a map that has a state for every name, a null state for a
name nobody has opened or claimed. The calls of a block run over such a map and over the set of the
names they have changed so far.
-/

namespace HandshakeNode

abbrev NameMap := Hash → NameState

structure NameTx where
  env : NameEnv
  tx : Tx
  prevOutputs : List NamePrevOutput

def NameBlockView.applyTxs (ctx : NameContext) (dbTx : Option NameDb) (view : NameBlockView)
    (txs : List NameTx) : Result NameBlockView :=
  txs.foldlM (fun view t => view.applyTx ctx dbTx t.env t.tx t.prevOutputs) view

structure NameRun where
  names : NameMap
  changed : Finset Hash

namespace NameRun

def start (names : NameMap) : NameRun := ⟨names, ∅⟩

def setState (r : NameRun) (nameHash : Hash) (ns : NameState) : NameRun where
  names := Function.update r.names nameHash ns
  changed := if ns = r.names nameHash then r.changed else insert nameHash r.changed

lemma names_setState (r : NameRun) (nameHash : Hash) (ns : NameState) (k : Hash) :
    (r.setState nameHash ns).names k = if k = nameHash then ns else r.names k :=
  Function.update_apply _ _ _ _

lemma mem_changed_setState {r : NameRun} {nameHash : Hash} {ns : NameState} {k : Hash} :
    k ∈ (r.setState nameHash ns).changed ↔
      k ∈ r.changed ∨ k = nameHash ∧ ns ≠ r.names nameHash := by
  unfold setState
  split_ifs with h
  · simp [h]
  · simp [h, or_comm]

variable (ctx : NameContext)

def applyOutput (env : NameEnv) (r : NameRun) (out : CovenantOutput) : Result NameRun :=
  match covenantHash out.covenant 0 with
  | none => .error (badCovenant "missing covenant name hash")
  | some nameHash => do
    let ns ← applyCovenant ctx env nameHash out (r.names nameHash)
    return r.setState nameHash ns

def applyTx (r : NameRun) (t : NameTx) : Result NameRun := do
  checkSpends ctx t.tx t.prevOutputs
  (t.tx.covenantOutputs t.prevOutputs).foldlM (applyOutput ctx t.env) r

def applyTxs (r : NameRun) (txs : List NameTx) : Result NameRun := txs.foldlM (applyTx ctx) r

end NameRun

/-- The calls of `applyTx` that `connectNames` makes for the transactions of a block, and the stxos
that are left over. -/
def blockCalls (env : NameEnv) : List Tx → List SpentTxOut → Result (List NameTx × List SpentTxOut)
  | [], stxos => .ok ([], stxos)
  | tx :: txs, stxos => do
    let (prevOutputs, stxos) ← prevOutputsFromStxos tx stxos
    let (calls, stxos) ← blockCalls env txs stxos
    return (⟨env, tx, prevOutputs⟩ :: calls, stxos)

def changedNames (ctx : NameContext) (names : NameMap) (txs : List NameTx) : Finset Hash :=
  match (NameRun.start names).applyTxs ctx txs with
  | .ok r => r.changed
  | .error _ => ∅

def blockChanges (ctx : NameContext) (env : NameEnv) (block : Block) (stxos : List SpentTxOut)
    (names : NameMap) : Finset Hash :=
  match blockCalls env block.transactions stxos with
  | .ok (calls, _) => changedNames ctx names calls
  | .error _ => ∅

def NameDb.names (db : NameDb) : NameMap := fun nameHash =>
  match db.dbFetchNameState nameHash with
  | .ok (some ns) => ns
  | _ => newNameState nameHash

end HandshakeNode
