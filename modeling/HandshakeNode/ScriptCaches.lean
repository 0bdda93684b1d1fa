import HandshakeNode.Lib.Asking
import HandshakeNode.ScriptVal
import HandshakeNode.Sighash

/-!
# The signature cache and the sighash cache

Verifications of scripts, in the mempool and of blocks, share one `SigCache` and one `HashCache`.
Each call that takes a cache's lock is one step here and the steps of all verifications come in any
order. `checkBlockScripts` looks up the hashes of its transactions one after the other and then
checks all inputs, which is one of these orders.

A check of a signature is a question that a run of the script engine asks: the cache is asked first
and then the curve. What else the engine does is left open.
-/

namespace HandshakeNode

structure SigQuery where
  sigHash : Hash
  sig : Bytes
  pubKey : Bytes
deriving DecidableEq

abbrev Exec := Ask SigQuery Err

structure ScriptSystem where
  blake2b : Bytes → Hash
  Vm : Type
  /-- `NewEngine`, given the output script, the transaction, the index of the input, the flags, the
  hashes, the amount and the spent outputs. -/
  newEngine : Bytes → MsgTx → ℕ → ScriptFlags → Option TxSigHashes → Int64 → PrevOutputFetcher →
    Result Vm
  execute : Vm → Exec Unit

structure SigCache where
  validSigs : GoMap Hash (Bytes × Bytes)
  maxEntries : ℕ

namespace SigCache

def has (s : SigCache) (q : SigQuery) : Bool :=
  match s.validSigs.lookup q.sigHash with
  | none => false
  | some (sig, pubKey) => pubKey = q.pubKey && sig = q.sig

/-- `Add`; `victim` is the entry that the `range` statement comes to first. -/
def add (s : SigCache) (victim : Hash) (q : SigQuery) : SigCache :=
  if s.maxEntries = 0 then s
  else
    let validSigs := if s.validSigs.keys.card + 1 > s.maxEntries then s.validSigs.erase victim
      else s.validSigs
    { s with validSigs := validSigs.insert q.sigHash (q.sig, q.pubKey) }

end SigCache

/-- `HashCache`. The map and the linked list through its entries are one list, the oldest first. -/
structure HashCache where
  entries : List (Hash × TxSigHashes)
  maxEntries : ℕ

namespace HashCache

variable (h : HashCache) (txid : Hash)

def lookup : Option TxSigHashes :=
  (h.entries.find? (·.1 = txid)).map Prod.snd

def addEntry (sigHashes : TxSigHashes) : HashCache :=
  if h.maxEntries = 0 then h
  else if (h.lookup txid).isSome then
    { h with entries := h.entries.map fun e => if e.1 = txid then (txid, sigHashes) else e }
  else
    let entries := if h.entries.length ≥ h.maxEntries then h.entries.tail else h.entries
    { h with entries := entries ++ [(txid, sigHashes)] }

def purgeSigHashes : HashCache :=
  { h with entries := h.entries.filter (·.1 ≠ txid) }

end HashCache

def MsgTx.hasWitness (tx : MsgTx) : Bool := tx.txIn.any (!·.witness.isEmpty)

def MsgTx.txHash (blake2b : Bytes → Hash) (tx : MsgTx) : Result Hash := do
  let b ← orPanic "MsgTx.TxHash: SerializeNoWitness failed: " (tx.btcEncode .base)
  return blake2b b

def UtxoViewpoint.fetchPrevOutput (view : UtxoViewpoint) : PrevOutputFetcher := fun op =>
  (view.lookupEntry op).map fun entry => ⟨entry.amount, entry.address, entry.covenant⟩

/-- The scripts of one transaction are to be verified: `ValidateTransactionScripts`, or the share of
the transaction in `checkBlockScripts`. -/
structure ScriptRequest where
  tx : MsgTx
  hash : Hash
  view : UtxoViewpoint
  flags : ScriptFlags

namespace ScriptRequest

/-- Hashes over the whole transaction are made before its inputs are looked at. -/
def usesHashes (r : ScriptRequest) : Bool :=
  r.flags.has ScriptFlags.verifyWitness && r.tx.hasWitness

end ScriptRequest

section

variable (sys : ScriptSystem)

variable (r : ScriptRequest)

def validateInput (txInIndex : ℕ) (txIn : MsgTxIn) (sigHashes : Option TxSigHashes) : Exec Unit :=
  match r.view.lookupEntry txIn.previousOutPoint with
  | none =>
    .fail (.rule .missingTxOut ("unable to find unspent output " ++
      toString txIn.previousOutPoint ++ " referenced from transaction " ++ toString r.hash ++ ":" ++
      toString txInIndex))
  | some utxo =>
    let pkScript := utxo.pkScriptOf
    let failed := fun (code : ErrorCode) (what : String) (e : Err) => match e with
      | .panic text => .panic text
      | e => .rule code (what ++ toString r.hash ++ ":" ++ toString txInIndex ++
          " which references output " ++ toString txIn.previousOutPoint ++ " - " ++ e.text ++
          " (input witness " ++ hexList txIn.witness ++
          ", input script bytes , prev output script bytes " ++ hexOf pkScript ++ ")")
    match sys.newEngine pkScript r.tx txInIndex r.flags sigHashes utxo.amount
        r.view.fetchPrevOutput with
    | .error e => .fail (failed .scriptMalformed "failed to parse input " e)
    | .ok vm => (sys.execute vm).mapError (failed .scriptValidation "failed to validate input ")

def requestHashes : Result (Option TxSigHashes) :=
  if r.usesHashes then do
    let sigHashes ← newTxSigHashes sys.blake2b r.tx r.view.fetchPrevOutput
    return some sigHashes
  else return none

variable (verify : SigQuery → Bool)

/-- What is verified of an input without caches. A panic of `NewTxSigHashes` is no result. -/
def uncachedResult (r : ScriptRequest) (txInIndex : ℕ)
    (txIn : MsgTxIn) : Result (Result Unit) := do
  let sigHashes ← requestHashes sys r
  return (validateInput sys r txInIndex txIn sigHashes).run verify

inductive VerifyThread where
  | lookup (r : ScriptRequest)
  | store (r : ScriptRequest) (sigHashes : TxSigHashes)
  | input (r : ScriptRequest) (txInIndex : ℕ) (txIn : MsgTxIn) (run : Exec Unit)
  /-- `Verify` has accepted a signature and `Add` comes next. -/
  | adding (r : ScriptRequest) (txInIndex : ℕ) (txIn : MsgTxIn) (q : SigQuery) (run : Exec Unit)
  | finished (r : ScriptRequest) (txInIndex : ℕ) (txIn : MsgTxIn) (result : Result Unit)
  | crashed (r : ScriptRequest) (err : Err)

structure Caches where
  sigCache : SigCache
  hashCache : HashCache

def inputThreads (sigHashes : Option TxSigHashes) : List VerifyThread :=
  (r.tx.txIn.zipIdx.filter (·.1.previousOutPoint.index ≠ 0xffffffff)).map fun p =>
    .input r p.2 p.1 (validateInput sys r p.2 p.1 sigHashes)

/-- `GetOrAddSigHashes` up to the lock. -/
def lookupHashes (c : Caches) : List VerifyThread :=
  if r.usesHashes then
    match r.tx.txHash sys.blake2b with
    | .error e => [.crashed r e]
    | .ok txid =>
      match c.hashCache.lookup txid with
      | some sigHashes => inputThreads sys r (some sigHashes)
      | none =>
        match newTxSigHashes sys.blake2b r.tx r.view.fetchPrevOutput with
        | .error e => [.crashed r e]
        | .ok sigHashes => [.store r sigHashes]
  else inputThreads sys r none

/-- `GetOrAddSigHashes` under the lock. -/
def storeHashes (sigHashes : TxSigHashes) (c : Caches) : List VerifyThread × Caches :=
  match r.tx.txHash sys.blake2b with
  | .error e => ([.crashed r e], c)
  | .ok txid =>
    match c.hashCache.lookup txid with
    | some cached => (inputThreads sys r (some cached), c)
    | none => (inputThreads sys r (some sigHashes),
        { c with hashCache := c.hashCache.addEntry txid sigHashes })

/-- An input up to its next question, which the cache or the curve answers. -/
def runInput (r : ScriptRequest) (txInIndex : ℕ) (txIn : MsgTxIn)
    (c : Caches) : Exec Unit → VerifyThread
  | .ok _ => .finished r txInIndex txIn (.ok ())
  | .fail e => .finished r txInIndex txIn (.error e)
  | .ask q k =>
    if c.sigCache.has q then .input r txInIndex txIn (k true)
    else if verify q then .adding r txInIndex txIn q (k true)
    else .input r txInIndex txIn (k false)

/-- The next step of a goroutine; `victim` is the entry that is evicted when one has to be. -/
def VerifyThread.next (victim : Hash) (c : Caches) :
    VerifyThread → List VerifyThread × Caches
  | lookup r => (lookupHashes sys r c, c)
  | store r sigHashes => storeHashes sys r sigHashes c
  | input r txInIndex txIn run => ([runInput verify r txInIndex txIn c run], c)
  | adding r txInIndex txIn q run =>
    ([.input r txInIndex txIn run], { c with sigCache := c.sigCache.add victim q })
  | finished r txInIndex txIn result => ([.finished r txInIndex txIn result], c)
  | crashed r err => ([.crashed r err], c)

structure VerifyState where
  caches : Caches
  threads : List VerifyThread

/-- The states that requests out of `S` lead to, from empty caches of any sizes. -/
inductive Verifies (verify : SigQuery → Bool) (S : Set ScriptRequest) : VerifyState → Prop
  | start (sigs hashes : ℕ) :
    Verifies verify S ⟨⟨⟨∅, sigs⟩, ⟨[], hashes⟩⟩, []⟩
  | submit {s : VerifyState} (h : Verifies verify S s) (r : ScriptRequest) (hr : r ∈ S) :
    Verifies verify S { s with threads := .lookup r :: s.threads }
  | step {c : Caches} {before after : List VerifyThread} {th : VerifyThread}
    (h : Verifies verify S ⟨c, before ++ th :: after⟩) (victim : Hash) :
    Verifies verify S ⟨(th.next sys verify victim c).2,
      before ++ (th.next sys verify victim c).1 ++ after⟩
  | purge {s : VerifyState} (h : Verifies verify S s) (txid : Hash) :
    Verifies verify S { s with
      caches := { s.caches with hashCache := s.caches.hashCache.purgeSigHashes txid } }

end

end HandshakeNode
