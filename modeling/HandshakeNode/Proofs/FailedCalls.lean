import HandshakeNode.Proofs.ChainOpen

/-!
# What a failed connect or disconnect leaves behind

A database transaction that fails is rolled back, and the cache is not. The block's transactions are
in the cache before the transaction begins, and a flush in it empties the cache for good. The main
results are `ChainStore.failed_call_unchanged_iff` and `ChainStore.failed_connect_keeps_coins`.
-/

namespace HandshakeNode

open Ledger UtxoCache UpdateM CallEnv

namespace UtxoCache

variable {s : UtxoCache}

lemma Refines.of_fetchEntries (h : s.Refines db U)
    (hok : s.fetchEntries mem db [op] = ([some entry], s')) :
    s'.Refines db U ∧ s'.cachedEntries.get op = some (some entry) := by
  have hrefines : (s.fetchEntries mem db [op]).2.Refines db U := (h.fetchEntries [op]).1
  rw [hok] at hrefines
  refine ⟨hrefines, ?_⟩
  rcases hop : s.cachedEntries.get op with - | e
  · obtain ⟨hentry, rfl⟩ : db.dbFetchUtxoEntry op = some entry ∧
        s.putEntry mem op (db.dbFetchUtxoEntry op) = s' := by
      simpa [UtxoCache.fetchEntries, hop] using hok
    rw [hentry]
    exact (congrFun (h.wf.put mem op (some entry) s.totalEntryMemory).2 op).trans
      (Function.update_self ..)
  · obtain ⟨rfl, rfl⟩ : e = some entry ∧ s = s' := by
      simpa [UtxoCache.fetchEntries, hop] using hok
    exact hop

lemma Refines.of_addTxIn (h : s.Refines db U) (hok : s.addTxIn mem db txIn js = .ok (s', js')) :
    s'.Refines db (Function.update U txIn.previousOutPoint none) := by
  unfold UtxoCache.addTxIn at hok
  split at hok
  · rename_i entry s1 hfetch
    cases hok
    obtain ⟨h1, hget⟩ := h.of_fetchEntries hfetch
    exact h1.spendEntry hget
  · cases hok

lemma Refines.of_addTxIns : ∀ {txIns} {s s' : UtxoCache} {U : UtxoSet}
    {js js' : List SpentTxOut}, s.Refines db U → s.addTxIns mem db txIns js = .ok (s', js') →
    s'.Refines db (remove U (txIns.map (·.previousOutPoint)))
  | [], s, s', U, js, js', h, hok => by
    cases hok
    exact h
  | txIn :: txIns, s, s', U, js, js', h, hok => by
    obtain ⟨⟨s1, js1⟩, hok1, hok⟩ := bind_eq_ok.1 hok
    rw [List.map_cons, remove_cons]
    exact (h.of_addTxIn hok1).of_addTxIns hok

lemma Refines.of_connectTxs : ∀ {txs} {s s' : UtxoCache} {U : UtxoSet}
    {js js' : List SpentTxOut}, s.Refines db U →
    (∀ tx ∈ txs, ∀ o ∈ (tx.step height).created, db.coins o = none) →
    s.connectTxs mem db txs height js = .ok (s', js') →
    s'.Refines db (applyAll (txs.map (·.step height)) U)
  | [], s, s', U, js, js', h, _, hok => by
    cases hok
    exact h
  | tx :: txs, s, s', U, js, js', h, hnew, hok => by
    obtain ⟨hnew1, hnew⟩ := List.forall_mem_cons.1 hnew
    obtain ⟨⟨s1, js1⟩, hok1, hok⟩ := bind_eq_ok.1 hok
    obtain ⟨⟨s2, js2⟩, hok2, hok1⟩ := bind_eq_ok.1 hok1
    cases hok1
    have h2 := h.of_addTxIns hok2
    have h1 : (s2.addTxOuts mem tx height).Refines db ((tx.step height).apply U) := by
      rw [Step.apply, tx.inputs_step]
      exact h2.addTxOuts hnew1
    exact h1.of_connectTxs hnew hok

def writtenOps (order : RangeOrder OutPoint) (s : UtxoCache) (written : ℕ) : List OutPoint :=
  (s.cachedEntries.maps.flatMap fun m => order.list m.entries.keys).take written

lemma get_foldl_delete : ∀ (ops : List OutPoint) {ms : MapSlice}, ms.Wf → ∀ o,
    (ops.foldl MapSlice.delete ms).get o = if o ∈ ops then none else ms.get o
  | [], ms, _, o => by simp
  | op :: ops, ms, h, o => by
    obtain ⟨hwf, hget⟩ := h.delete op
    rw [List.foldl_cons, get_foldl_delete ops hwf, hget]
    by_cases ho : o = op
    · subst ho
      simp
    · simp [ho]

lemma effectiveSet_dropWritten (h : s.Refines db U) (order : RangeOrder OutPoint) (written : ℕ)
    (o : OutPoint) : (s.dropWritten order written).effectiveSet db o =
      if o ∈ s.writtenOps order written then db.coins o else U o := by
  have hget : (s.dropWritten order written).cachedEntries.get o =
      if o ∈ s.writtenOps order written then none else s.cachedEntries.get o :=
    get_foldl_delete _ h.wf o
  rw [← h.effective]
  unfold effectiveSet WriteBack.effective
  rw [hget]
  split_ifs <;> rfl

lemma effectiveSet_of_empty (h : s.cachedEntries.maps = [⟨∅, n⟩]) (db : UtxoDb) :
    s.effectiveSet db = db.coins := (refines_of_empty h db).effective

end UtxoCache

/-! ### Bodies of transactions that fail -/

/-- One of the steps fails. -/
def CallEnv.failsAt (env : CallEnv) (steps : List DbStep) : Bool :=
  steps.any fun step => (env.fails step).isSome

namespace UpdateM

variable {α : Type} {env : CallEnv}

lemma bind_apply (x : UpdateM α) (f : α → UpdateM β) : (x >>= f) σ = match x σ with
    | (.ok a, σ1) => f a σ1
    | (.error e, σ1) => (.error e, σ1) := rfl

lemma bind_of_ok (h : x σ = (.ok a, σ1)) (f : α → UpdateM β) : (x >>= f) σ = f a σ1 := by
  rw [bind_apply, h]

lemma bind_of_error (h : x σ = (.error e, σ1)) (f : α → UpdateM β) :
    (x >>= f) σ = (.error e, σ1) := by
  rw [bind_apply, h]

lemma attempt_of_none (h : env.fails step = none) :
    attempt env step change σ = (.ok (), (σ.1, change σ.2)) := by
  rw [attempt, h]

lemma attempt_of_some (h : env.fails step = some e) :
    attempt env step change σ = (.error e, σ) := by
  rw [attempt, h]

/-- A body ends, with an error when `failed` is set, in a cache with the property `P`. -/
structure Halts (failed : Bool) (P : UtxoCache → Prop) (r : Result α × (UtxoCache × ChainDb)) :
    Prop where
  isOk : r.1.isOk = !failed
  cache : P r.2.1

/-- The body leaves the cache alone and fails when one of its steps does. -/
def Quiet (env : CallEnv) (steps : List DbStep) (body : UpdateM α) : Prop :=
  ∀ σ, Halts (env.failsAt steps) (· = σ.1) (body σ)

/-- The body leaves the cache alone. -/
def KeepsCache (body : UpdateM α) : Prop := ∀ σ, (body σ).2.1 = σ.1

lemma KeepsCache.bind (hx : KeepsCache x) (hf : ∀ a, KeepsCache (f a)) : KeepsCache (x >>= f) := by
  intro σ
  have hcache := hx σ
  rcases hr : x σ with ⟨e | a, σ1⟩ <;> rw [hr] at hcache
  · rw [bind_of_error hr]
    exact hcache
  · rw [bind_of_ok hr]
    exact (hf a σ1).trans hcache

lemma keepsCache_putUtxoView (order : RangeOrder OutPoint) (env : CallEnv)
    (view : UtxoViewpoint) : KeepsCache (putUtxoView order env view) := by
  rintro ⟨cache, db⟩
  unfold putUtxoView
  rcases env.fails .putUtxoView with - | e
  · rcases hput : dbPutUtxoView order db.utxo view with e | utxo <;> simp [hput]
  · rfl

lemma Halts.failed_eq (h : Halts failed P r) (hr : r.1 = .error e) : failed = true := by
  simpa [hr, Except.toBool] using h.isOk

lemma Halts.failed_eq_false (h : Halts failed P r) (hr : r.1 = .ok a) : failed = false := by
  simpa [hr, Except.toBool] using h.isOk

lemma Halts.bind {x : UpdateM α} {f : α → UpdateM β} (h : Halts failed P (x σ))
    (hf : ∀ a, Quiet env steps (f a)) : Halts (failed || env.failsAt steps) P ((x >>= f) σ) := by
  rcases hr : x σ with ⟨e | a, σ1⟩ <;> rw [hr] at h
  · rw [bind_of_error hr, h.failed_eq rfl]
    exact ⟨rfl, h.cache⟩
  · rw [bind_of_ok hr, h.failed_eq_false rfl]
    obtain ⟨hok, hcache⟩ := hf a σ1
    exact ⟨hok, hcache ▸ h.cache⟩

lemma quiet_attempt (env : CallEnv) (step : DbStep) (change : ChainDb → ChainDb) :
    Quiet env [step] (attempt env step change) := by
  intro σ
  unfold attempt failsAt
  rcases hf : env.fails step with - | e <;> constructor <;> simp [hf, Except.toBool]

lemma keepsCache_attempt (env : CallEnv) (step : DbStep) (change : ChainDb → ChainDb) :
    KeepsCache (attempt env step change) := fun σ => (quiet_attempt env step change σ).cache

lemma Quiet.bind (hx : Quiet env s1 x) (hf : ∀ a, Quiet env s2 (f a)) :
    Quiet env (s1 ++ s2) (x >>= f) := by
  intro σ
  rw [failsAt, List.any_append]
  exact (hx σ).bind hf

end UpdateM

/-- What a failed call has lost of the cache: nothing, the entries that a flush had written, or all
of them, with a new flush hash. -/
inductive CacheLoss where
  | none
  | written
  | all

/-- The cache after a loss; `hash` is the one the flush was for. -/
def CacheLoss.Leaves (order : RangeOrder OutPoint) (env : CallEnv) (hash : Hash)
    (cache cache' : UtxoCache) : CacheLoss → Prop
  | none => cache' = cache
  | written => cache' = cache.dropWritten order env.written
  | all => (∃ n, cache'.cachedEntries.maps = [⟨∅, n⟩]) ∧ cache'.lastFlushHash = hash

lemma UpdateM.KeepsCache.leaves {loss : CacheLoss} (h : KeepsCache body)
    (hloss : loss.Leaves order env x cache σ.1) : loss.Leaves order env x cache (body σ).2.1 :=
  (h σ).symm ▸ hloss

/-- The steps of pruning. -/
def pruneSteps (env : CallEnv) : List DbStep :=
  match env.deleted with
  | none => []
  | some [] => [.pruneBlocks]
  | some (_ :: _) => [.pruneBlocks, .pruneSpendJournal]

/-- The transaction flushes the cache because of what it deletes. -/
def flushes (env : CallEnv) (db : ChainDb) (lastFlushHash : Hash) : Bool :=
  decide (env.deleted.getD [] ≠ []) && flushNeededAfterPrune db lastFlushHash (env.deleted.getD [])

/-- What a flush that is required loses. -/
def flushLoss (env : CallEnv) : CacheLoss := if env.failsAt [.flushUtxo] then .written else .all

/-- What pruning loses. -/
def pruneLoss (env : CallEnv) (flushed : Bool) : CacheLoss :=
  if flushed && !env.failsAt (pruneSteps env) then flushLoss env else .none

section

variable (mem : Memory) (order : RangeOrder OutPoint) (env : CallEnv)

lemma flushUtxo_required (h : cache.Refines db.utxo U) (hash : Hash) :
    Halts (env.failsAt [.flushUtxo]) (fun c => (flushLoss env).Leaves order env hash cache c)
      (flushUtxo mem order env .flushUtxo .required hash (cache, db)) := by
  unfold flushUtxo flushLoss failsAt
  rcases hf : env.fails .flushUtxo with - | e
  · obtain ⟨cache', utxo, hflush, ⟨-, hreq⟩ | hdone⟩ :=
      h.flush_cases mem order .required hash env.now
    · exact absurd rfl hreq
    simp only [List.any_cons, hf, hflush]
    exact ⟨rfl, hdone.empty, hdone.lastFlushHash⟩
  · simp only [List.any_cons, hf]
    exact ⟨rfl, rfl⟩

lemma pruneUpdate_ends (h : cache.Refines db.utxo U) (hash : Hash) :
    Halts (env.failsAt (pruneSteps env) ||
        flushes env db cache.lastFlushHash && env.failsAt [.flushUtxo])
      (fun c => (pruneLoss env (flushes env db cache.lastFlushHash)).Leaves order env hash cache c)
      (pruneUpdate mem order env hash (cache, db)) := by
  unfold pruneUpdate pruneLoss pruneSteps flushes
  rcases env.deleted with - | deleted
  · exact ⟨rfl, rfl⟩
  dsimp only
  rcases hblocks : env.fails .pruneBlocks with - | e
  · rw [bind_of_ok (attempt_of_none hblocks)]
    rcases deleted with - | ⟨d, ds⟩
    · constructor <;> simp [failsAt, hblocks, CacheLoss.Leaves, pure, Except.toBool]
    rw [if_pos (List.cons_ne_nil d ds)]
    rcases hjournal : env.fails .pruneSpendJournal with - | e
    · have hnone : env.failsAt [.pruneBlocks, .pruneSpendJournal] = false := by
        simp [failsAt, hblocks, hjournal]
      rw [bind_of_ok (attempt_of_none hjournal)]
      -- pruning deletes no block node, so it does not change whether the flush is needed
      change Halts _ _ ((if flushNeededAfterPrune db cache.lastFlushHash (d :: ds) then
        flushUtxo mem order env .flushUtxo .required hash else pure ()) (cache, db.pruned (d :: ds)))
      rcases hneed : flushNeededAfterPrune db cache.lastFlushHash (d :: ds)
      · simp only [hnone, Option.getD_some, hneed]
        exact ⟨rfl, rfl⟩
      · simp only [hnone, Option.getD_some, hneed]
        exact flushUtxo_required mem order env (show cache.Refines (db.pruned _).utxo U from h) hash
    · rw [bind_of_error (attempt_of_some hjournal)]
      constructor <;> simp [failsAt, hjournal, CacheLoss.Leaves, Except.toBool]
  · rw [bind_of_error (attempt_of_some hblocks)]
    rcases deleted with - | ⟨d, ds⟩ <;> constructor <;>
      simp [failsAt, hblocks, CacheLoss.Leaves, Except.toBool]

end

namespace ChainStore

variable {order : RangeOrder OutPoint} {env : CallEnv}
  {s s' : ChainStore} {block : Block} {stxos : List SpentTxOut}
  {cache : UtxoCache} {db : ChainDb}

/-- The steps of a connect after pruning. -/
def lateSteps : List DbStep :=
  [.coinbaseAirdrops, .putBestState, .blockIndex, .spendJournal, .names, .indexManager]

/-- What a failed `connectBlock` loses; there is no such loss once the block is the tip. -/
def connectLoss (env : CallEnv) (flushed : Bool) : Option CacheLoss :=
  if env.failsAt ([.warnUnknownRules, .flushIndex] ++ pruneSteps env) then some .none
  else if flushed && env.failsAt [.flushUtxo] then some .written
  else if env.failsAt (lateSteps ++ [.commit]) then some (if flushed then .all else .none)
  else none

/-- What a failed `disconnectBlock` loses. -/
def disconnectLoss (env : CallEnv) : CacheLoss :=
  if env.failsAt [.flushIndex, .putBestState, .blockIndex] then .none
  else if env.failsAt [.flushUtxo] then .written
  else .all

/-- A call has failed: only the cache has changed, by the loss. -/
structure Failed (order : RangeOrder OutPoint) (env : CallEnv) (hash : Hash) (s s' : ChainStore)
    (loss : CacheLoss) : Prop where
  db : s'.db = s.db
  bestChain : s'.bestChain = s.bestChain
  leaves : loss.Leaves order env hash s.utxoCache s'.utxoCache

lemma update_ends {body : UpdateM Unit} (h : Halts failed P (body (s.utxoCache, s.db)))
    (last : DbStep) : (failed || env.failsAt [last]) = true ∧ (∃ e cache, P cache ∧
      s.update env last body = (.error e, { s with utxoCache := cache })) ∨
    (failed || env.failsAt [last]) = false ∧ ∃ s', s.update env last body = (.ok (), s') := by
  unfold update
  rcases hr : body (s.utxoCache, s.db) with ⟨e | ⟨⟩, cache, db⟩ <;> rw [hr] at h
  · exact .inl ⟨by rw [h.failed_eq rfl, Bool.true_or], e, cache, h.cache, rfl⟩
  rw [h.failed_eq_false rfl]
  rcases hf : env.fails last with - | e
  · exact .inr ⟨by simp [failsAt, hf], _, rfl⟩
  · exact .inl ⟨by simp [failsAt, hf], e, cache, h.cache, rfl⟩

lemma update_error (h : s.update env last body = (.error e, s')) :
    s' = { s with utxoCache := (body (s.utxoCache, s.db)).2.1 } := by
  unfold update at h
  rcases hr : body (s.utxoCache, s.db) with ⟨e | ⟨⟩, cache, db⟩ <;> rw [hr] at h
  · cases h
    rfl
  · rcases hf : env.fails last with - | e <;> rw [hf] at h <;> cases h
    rfl

lemma connectLoss_eq (hfirst : env.failsAt [.warnUnknownRules, .flushIndex] = false)
    (flushed : Bool) : connectLoss env flushed =
      if (env.failsAt (pruneSteps env) || flushed && env.failsAt [.flushUtxo] ||
        env.failsAt lateSteps || env.failsAt [.commit]) = true then some (pruneLoss env flushed)
      else none := by
  have happend : ∀ steps steps', env.failsAt (steps ++ steps') =
      (env.failsAt steps || env.failsAt steps') := fun _ _ => List.any_append
  unfold connectLoss pruneLoss flushLoss
  rw [happend, happend, hfirst]
  cases flushed <;> cases env.failsAt (pruneSteps env) <;> cases env.failsAt [.flushUtxo] <;>
    cases env.failsAt lateSteps <;> rfl

section

variable (w : BlockData) (mem : Memory) (order : RangeOrder OutPoint) (env : CallEnv)

lemma connectUpdate_ends (href : cache.Refines db.utxo U) (block : Block)
    (stxos : List SpentTxOut) (state : BestChainState) :
    Halts (env.failsAt (pruneSteps env) ||
        flushes env db cache.lastFlushHash && env.failsAt [.flushUtxo] || env.failsAt lateSteps)
      (fun c => (pruneLoss env (flushes env db cache.lastFlushHash)).Leaves order env block.hash
        cache c)
      (connectUpdate mem order env block state stxos (cache, db)) :=
  (pruneUpdate_ends mem order env href block.hash).bind fun _ =>
    (quiet_attempt env .coinbaseAirdrops id).bind fun _ =>
    (quiet_attempt env .putBestState _).bind fun _ =>
    (quiet_attempt env .blockIndex id).bind fun _ =>
    (quiet_attempt env .spendJournal _).bind fun _ =>
    (quiet_attempt env .names id).bind fun _ =>
    quiet_attempt env .indexManager id

lemma connectCommit_outcome (href : s.utxoCache.Refines s.db.utxo U)
    (hhead : s.bestChain.head? = some block.prevBlock)
    (hcount : countSpentOutputs block = .ok stxos.length) :
    (∃ loss e s', connectLoss env (flushes env s.db s.utxoCache.lastFlushHash) = some loss ∧
      connectCommit w mem order env block stxos s = (.error e, s') ∧
      Failed order env block.hash s s' loss) ∨
    (connectLoss env (flushes env s.db s.utxoCache.lastFlushHash) = none ∧
      ∃ s', connectCommit w mem order env block stxos s = (.ok (), s') ∧
        s'.bestChain = s.db.branch block.hash) := by
  unfold connectCommit
  simp only [hhead, hcount, ne_eq, not_true_eq_false, if_false]
  rcases hwarn : env.fails .warnUnknownRules with - | e
  · rcases hindex : env.fails .flushIndex with - | e
    · rw [connectLoss_eq (by simp [failsAt, hwarn, hindex])]
      have hends := connectUpdate_ends mem order env href block stxos
        (newBestState (s.db.branch block.hash)
          (s.totalTxns + UInt64.ofNat block.transactions.length)
          (w.workSum (s.db.branch block.hash)))
      rcases update_ends hends .commit with ⟨hf, e, cache, hleaves, hup⟩ | ⟨hf, s', hup⟩
      · rw [if_pos hf, hup]
        exact .inl ⟨_, e, _, rfl, rfl, rfl, rfl, hleaves⟩
      · rw [hf, hup]
        exact .inr ⟨rfl, _, rfl, rfl⟩
    · refine .inl ⟨.none, e, s, ?_, rfl, rfl, rfl, rfl⟩
      simp [connectLoss, failsAt, hindex]
  · refine .inl ⟨.none, e, s, ?_, rfl, rfl, rfl, rfl⟩
    simp [connectLoss, failsAt, hwarn]

lemma disconnectUpdate_leaves (block : Block) (view : UtxoViewpoint)
    (href : cache.Refines db.utxo U) (hindex : env.fails .flushIndex = none) :
    (disconnectLoss env).Leaves order env state.hash cache
      (disconnectUpdate mem order env block state view (cache, db)).2.1 := by
  unfold disconnectUpdate disconnectLoss
  rcases hbest : env.fails .putBestState with - | e
  · rw [bind_of_ok (attempt_of_none hbest)]
    rcases hblock : env.fails .blockIndex with - | e
    · rw [bind_of_ok (attempt_of_none hblock), if_neg (by simp [failsAt, hindex, hbest, hblock])]
      have hflush := (flushUtxo_required mem order env
        (show cache.Refines (db.dbPutBestState state).utxo U from href) state.hash).cache
      dsimp only [id]
      rcases hres : flushUtxo mem order env .flushUtxo .required state.hash
        (cache, db.dbPutBestState state) with ⟨e | ⟨⟩, cache', db'⟩ <;> rw [hres] at hflush
      · rw [bind_of_error hres]
        exact hflush
      · rw [bind_of_ok hres]
        exact ((keepsCache_putUtxoView order env view).bind fun _ =>
          (keepsCache_attempt env .coinbaseAirdrops id).bind fun _ =>
          (keepsCache_attempt env .names id).bind fun _ =>
          UpdateM.KeepsCache.bind (fun _ => rfl) fun _ =>
          (keepsCache_attempt env .spendJournal _).bind fun _ =>
          keepsCache_attempt env .indexManager id).leaves hflush
    · rw [bind_of_error (attempt_of_some hblock), if_pos (by simp [failsAt, hblock])]
      rfl
  · rw [bind_of_error (attempt_of_some hbest), if_pos (by simp [failsAt, hbest])]
    rfl

end

lemma disconnectBlock_outcome (href : s.utxoCache.Refines s.db.utxo U)
    (hhead : s.bestChain.head? = some block.hash)
    (htail : (s.db.branch block.hash).tail = p :: rest) (hp : p ∈ s.db.blocks)
    (h : disconnectBlock w mem order env block view s = (.error e, s')) :
    Failed order env p s s' (disconnectLoss env) := by
  unfold disconnectBlock at h
  simp only [hhead, ne_eq, htail, List.headD_cons,
    ChainDb.dbFetchBlockByNode, hp] at h
  rcases hindex : env.fails .flushIndex with - | e1 <;> rw [hindex] at h
  · generalize hup : s.update env .commit _ = r at h
    obtain ⟨e2 | ⟨⟩, s2⟩ := r
    · cases h
      rw [update_error hup]
      exact ⟨rfl, rfl, disconnectUpdate_leaves mem order env block view href hindex⟩
    · cases h
  · cases h
    refine ⟨rfl, rfl, ?_⟩
    rw [disconnectLoss, if_pos (by simp [failsAt, hindex])]
    rfl

/-! ### Unchanged or not -/

structure Unchanged (s s' : ChainStore) : Prop where
  effective : s'.utxoCache.effectiveSet s'.db.utxo = s.utxoCache.effectiveSet s.db.utxo
  lastFlushHash : s'.utxoCache.lastFlushHash = s.utxoCache.lastFlushHash
  bestChain : s'.bestChain = s.bestChain

/-- When a loss does not show, in a cache that stands for the set `after`: nothing was lost of a set
that is the one before; the entries that were written are stored as they were; or the whole set is
stored and the flush was for the hash of the last one. -/
def KeepsSet (order : RangeOrder OutPoint) (env : CallEnv) (hash : Hash) (s : ChainStore)
    (cache : UtxoCache) (after : UtxoSet) : CacheLoss → Prop
  | .none => after = s.utxoCache.effectiveSet s.db.utxo
  | .written => ∀ o, (if o ∈ cache.writtenOps order env.written then s.db.utxo.coins o
      else after o) = s.utxoCache.effectiveSet s.db.utxo o
  | .all => s.db.utxo.coins = s.utxoCache.effectiveSet s.db.utxo ∧ hash = s.utxoCache.lastFlushHash

lemma Failed.unchanged_of_loss_iff {hash : Hash}
    (h : Failed order env hash { s0 with utxoCache := cache } s' loss)
    (href : cache.Refines s0.db.utxo after)
    (hlast : cache.lastFlushHash = s0.utxoCache.lastFlushHash) :
    Unchanged s0 s' ↔ KeepsSet order env hash s0 cache after loss := by
  have hdb : s'.db = s0.db := h.db
  have hchain : s'.bestChain = s0.bestChain := h.bestChain
  have hleaves := h.leaves
  constructor
  · intro hu
    have heff := hu.effective
    rw [hdb] at heff
    rcases loss with - | - | -
    · have hcache : s'.utxoCache = cache := hleaves
      rw [hcache] at heff
      exact href.effective.symm.trans heff
    · have hcache : s'.utxoCache = cache.dropWritten order env.written := hleaves
      intro o
      rw [← effectiveSet_dropWritten href, ← hcache, heff]
    · obtain ⟨⟨n, hempty⟩, hhash⟩ := hleaves
      exact ⟨(effectiveSet_of_empty hempty _).symm.trans heff, hhash.symm.trans hu.lastFlushHash⟩
  · intro hk
    rcases loss with - | - | -
    · have hcache : s'.utxoCache = cache := hleaves
      refine ⟨?_, by rw [hcache, hlast], hchain⟩
      rw [hdb, hcache]
      exact href.effective.trans hk
    · have hcache : s'.utxoCache = cache.dropWritten order env.written := hleaves
      refine ⟨?_, by rw [hcache]; exact hlast, hchain⟩
      rw [hdb, hcache]
      funext o
      rw [effectiveSet_dropWritten href]
      exact hk o
    · obtain ⟨⟨n, hempty⟩, hhash⟩ := hleaves
      refine ⟨?_, hhash.trans hk.2, hchain⟩
      rw [hdb, effectiveSet_of_empty hempty]
      exact hk.1

structure ExtendsTip (s : ChainStore) (block : Block) (stxos : List SpentTxOut) : Prop where
  node : s.db.branch block.hash = block.hash :: s.bestChain
  prev : s.bestChain.head? = some block.prevBlock
  count : countSpentOutputs block = .ok stxos.length

structure IsTip (s : ChainStore) (block : Block) (parent : Hash) : Prop where
  head : s.bestChain.head? = some block.hash
  prev : (s.db.branch block.hash).tail.head? = some parent
  stored : parent ∈ s.db.blocks

lemma bestChain_flushUtxoCache (mem : Memory) (order : RangeOrder OutPoint) (env : CallEnv)
    (s : ChainStore) (mode : FlushMode) (hash : Hash) :
    (s.flushUtxoCache mem order env mode hash).2.bestChain = s.bestChain := by
  unfold flushUtxoCache update
  rcases flushUtxo mem order env .flushIfNeeded mode hash (s.utxoCache, s.db) with ⟨e | ⟨⟩, c, d⟩
  · rfl
  · rcases env.fails .commitFlush with - | e <;> rfl

/-- When a failed connect or disconnect leaves everything as it was. -/
theorem failed_call_unchanged_iff (w : BlockData) (mem : Memory) (order : RangeOrder OutPoint)
    (env : CallEnv) {s : ChainStore} {U : UtxoSet} (href : s.utxoCache.Refines s.db.utxo U) :
    (∀ block cache stxos e s', NotStored U s.db.utxo block →
      s.utxoCache.connectTransactions mem s.db.utxo block [] = .ok (cache, stxos) →
      ExtendsTip s block stxos →
      connectBlock w mem order env block stxos { s with utxoCache := cache } = (.error e, s') →
      (Unchanged s s' ↔
        ∃ loss, connectLoss env (flushes env s.db s.utxoCache.lastFlushHash) = some loss ∧
          KeepsSet order env block.hash s cache (applyAll block.steps U) loss)) ∧
    (∀ block view parent e s', IsTip s block parent →
      disconnectBlock w mem order env block view s = (.error e, s') →
      (Unchanged s s' ↔ KeepsSet order env parent s s.utxoCache U (disconnectLoss env))) := by
  constructor
  · intro block cache stxos e s' hnew hconnect hext hok
    have hcache : cache.Refines s.db.utxo (applyAll block.steps U) := by
      refine href.of_connectTxs (fun tx htx o ho => ?_) hconnect
      rw [UtxoDb.coins_eq, hnew _ (List.mem_map_of_mem htx) o ho]
      rfl
    have hlast := lastFlushHash_connectTxs hconnect
    rw [← hlast]
    rcases connectCommit_outcome (s := { s with utxoCache := cache }) w mem order env hcache
      hext.prev
      hext.count with ⟨loss, e', s1, hloss, hcommit, hfailed⟩ | ⟨hloss, s1, hcommit, hchain⟩
    · rw [connectBlock, hcommit] at hok
      cases hok
      rw [hfailed.unchanged_of_loss_iff hcache hlast]
      constructor
      · exact fun hk => ⟨loss, hloss, hk⟩
      · rintro ⟨loss', hloss', hk⟩
        cases hloss.symm.trans hloss'
        exact hk
    · -- the block is the tip already, so the chain has changed
      rw [connectBlock, hcommit] at hok
      have htip : s'.bestChain = block.hash :: s.bestChain := by
        have hlater := bestChain_flushUtxoCache mem order env s1 .ifNeeded block.hash
        rw [show s1.flushUtxoCache mem order env .ifNeeded block.hash = _ from hok] at hlater
        exact hlater.trans (hchain.trans hext.node)
      constructor
      · intro hu
        have hlen := congrArg List.length (htip.symm.trans hu.bestChain)
        simp at hlen
      · rintro ⟨loss, hloss', -⟩
        cases hloss.symm.trans hloss'
  · intro block view parent e s' htip hok
    obtain ⟨rest, hrest⟩ := List.head?_eq_some_iff.1 htip.prev
    exact (disconnectBlock_outcome href htip.head hrest htip.stored hok).unchanged_of_loss_iff
      href rfl

/-! ### A connect that fails late -/

open ChainMachine (numberedData)

def twoNodes : ChainStore :=
  let s := createChainState numberedData sampleMemory 1000 blankDb
  { s with db := { s.db with nodes := s.db.nodes.insert (Hash.ofBytes [2]) [Hash.ofBytes [1]] } }

def secondBlock : Block := numberedData.block (Hash.ofBytes [2]) 1

def secondConnected : UtxoCache × List SpentTxOut :=
  (twoNodes.utxoCache.connectTransactions sampleMemory twoNodes.db.utxo
    secondBlock []).toOption.getD
    (twoNodes.utxoCache, [])

def namesFail : CallEnv :=
  { sampleEnv with fails := fun step => if step = .names then some (.assert "names") else none }

def secondFailed : Result Unit × ChainStore :=
  connectBlock numberedData sampleMemory outPointOrder namesFail secondBlock secondConnected.2
    { twoNodes with utxoCache := secondConnected.1 }

lemma connect_secondBlock : twoNodes.utxoCache.connectTransactions sampleMemory twoNodes.db.utxo
    secondBlock [] = .ok secondConnected := by
  have hok : (twoNodes.utxoCache.connectTransactions sampleMemory twoNodes.db.utxo secondBlock
      []).isOk = true := by decide +kernel
  obtain ⟨p, hp⟩ := exists_ok_of_isOk hok
  rw [secondConnected, hp]
  rfl

lemma error_secondFailed : ∃ e, secondFailed = (.error e, secondFailed.2) := by
  have hfails : secondFailed.1.isOk = false := by decide +kernel
  rcases hr : secondFailed with ⟨e | ⟨⟩, s⟩
  · exact ⟨e, rfl⟩
  · rw [hr] at hfails
    cases hfails

/-- The transaction fails at the names, and the coinbase output stays in the set. -/
theorem failed_connect_keeps_coins :
    twoNodes.utxoCache.connectTransactions sampleMemory twoNodes.db.utxo secondBlock [] =
      .ok secondConnected ∧
    (∃ e, connectBlock numberedData sampleMemory outPointOrder namesFail secondBlock
      secondConnected.2 { twoNodes with utxoCache := secondConnected.1 } =
        (.error e, secondFailed.2)) ∧
    secondFailed.2.bestChain = [Hash.ofBytes [1]] ∧
    twoNodes.utxoCache.effectiveSet twoNodes.db.utxo ⟨Hash.ofBytes [2], 0⟩ = none ∧
    (secondFailed.2.utxoCache.effectiveSet secondFailed.2.db.utxo
      ⟨Hash.ofBytes [2], 0⟩).isSome = true ∧
    ¬ Unchanged twoNodes secondFailed.2 := by
  have hbefore : twoNodes.utxoCache.effectiveSet twoNodes.db.utxo ⟨Hash.ofBytes [2], 0⟩ = none := by
    decide +kernel
  have hafter : (secondFailed.2.utxoCache.effectiveSet secondFailed.2.db.utxo
      ⟨Hash.ofBytes [2], 0⟩).isSome = true := by decide +kernel
  refine ⟨connect_secondBlock, error_secondFailed, by decide +kernel, hbefore, hafter, fun hu => ?_⟩
  rw [hu.effective] at hafter
  cases hafter

theorem failed_call_unchanged_iff_secondBlock : Unchanged twoNodes secondFailed.2 ↔
    ∃ loss, connectLoss namesFail (flushes namesFail twoNodes.db twoNodes.utxoCache.lastFlushHash) =
      some loss ∧ KeepsSet outPointOrder namesFail secondBlock.hash twoNodes secondConnected.1
        (applyAll secondBlock.steps twoNodes.db.utxo.coins) loss := by
  have href : twoNodes.utxoCache.Refines twoNodes.db.utxo twoNodes.db.utxo.coins :=
    refines_of_empty rfl _
  obtain ⟨e, hfailed⟩ := error_secondFailed
  refine (failed_call_unchanged_iff numberedData sampleMemory outPointOrder namesFail href).1
    secondBlock
    secondConnected.1 secondConnected.2 e secondFailed.2 ?_ connect_secondBlock ⟨?_, ?_, ?_⟩ hfailed
  · intro t _ o _
    exact Finmap.lookup_empty o
  · decide +kernel
  · decide +kernel
  · rfl

end ChainStore

end HandshakeNode
