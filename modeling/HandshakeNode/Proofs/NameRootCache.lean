import HandshakeNode.Proofs.NameConnect

/-!
# The cached root

Blocks are connected and disconnected in any order, and the transaction of any call may fail. Every
undo list in the database that can be read restores storable states, so what the database stores
stays a map of names, and the cache, where there is one, stays dirty or stands for that map.
-/

namespace HandshakeNode

open Loops Finmap

def NameDb.Undoable (db : NameDb) : Prop :=
  ∀ blockHash entries, db.dbFetchNameUndo blockHash = .ok entries →
    ∃ (names : NameMap) (order : List Hash), names.Storable ∧
      entries = order.map fun k => (undoEntry names k).written

lemma undoable_newNameDb : newNameDb.Undoable := by
  intro blockHash entries h
  cases h
  exact ⟨newNameState, [], storable_newNameState, rfl⟩

lemma NameDb.Undoable.of_nameUndo {db db' : NameDb} (h : db.Undoable)
    (heq : db'.nameUndo = db.nameUndo) : db'.Undoable := by
  intro blockHash entries hfetch
  rw [dbFetchNameUndo, heq] at hfetch
  exact h blockHash entries hfetch

lemma NameDb.Undoable.dbRemoveNameUndo {db : NameDb} (h : db.Undoable) (blockHash : Hash) :
    (db.dbRemoveNameUndo blockHash).Undoable := by
  intro hash entries hfetch
  rw [NameDb.dbFetchNameUndo, NameDb.dbRemoveNameUndo] at hfetch
  by_cases hhash : hash = blockHash
  · rw [hhash, lookup_erase] at hfetch
    cases hfetch
    exact ⟨newNameState, [], storable_newNameState, rfl⟩
  · rw [lookup_erase_ne hhash] at hfetch
    exact h hash entries hfetch

def NameMap.restore (names old : NameMap) (order : List Hash) : NameMap :=
  fun k => if k ∈ order then old k else names k

lemma NameMap.Storable.restore {names : NameMap} (h : names.Storable) (hold : old.Storable)
    (order : List Hash) : (names.restore old order).Storable := by
  have hcases : ∀ k, names.restore old order k = old k ∨ names.restore old order k = names k := by
    intro k
    unfold NameMap.restore
    split_ifs
    · exact .inl rfl
    · exact .inr rfl
  refine ⟨⟨fun k => ?_, fun k => ?_⟩, fun k => ?_⟩
  · rcases hcases k with hk | hk
    · rw [hk, hold.named]
    · rw [hk, h.named]
  · rcases hcases k with hk | hk
    · rw [hk]
      exact hold.encodable k
    · rw [hk]
      exact h.encodable k
  · rcases hcases k with hk | hk
    · rw [hk]
      exact hold.born k
    · rw [hk]
      exact h.born k

lemma StatesConnected.undoable (hnames : names.Storable) (hb : b.db.Undoable)
    (h : StatesConnected ctx block b names b' r) : b'.db.Undoable := by
  intro hash entries hfetch
  obtain ⟨order, -, -, hundo⟩ := h.undo
  unfold NameDb.dbFetchNameUndo at hfetch
  by_cases hhash : hash = block.hash
  · rcases hundo with ⟨-, hbucket⟩ | ⟨bytes, hbytes, hbucket⟩
    · rw [hbucket, hhash, lookup_erase] at hfetch
      cases hfetch
      exact ⟨newNameState, [], storable_newNameState, rfl⟩
    · rw [hbucket, hhash, lookup_insert] at hfetch
      dsimp only at hfetch
      refine ⟨names, order, hnames, ?_⟩
      by_cases hlen : (order.map (undoEntry names)).length ≤ maxNameUndoEntries
      · obtain ⟨bytes', hbytes', hread⟩ := dbDeserializeNameUndo_serialize
          (NameBlockView.writable_undoEntries hnames.toReadable order) hlen
        rw [hbytes, Except.ok.injEq] at hbytes'
        rw [hbytes', hread, List.map_map] at hfetch
        exact (Except.ok.inj hfetch).symm
      · obtain ⟨e, he⟩ := dbDeserializeNameUndo_long (not_le.1 hlen) hbytes
        rw [he] at hfetch
        cases hfetch
  · rw [hundo.lookup_of_ne hhash] at hfetch
    exact hb hash entries hfetch

lemma disconnectNameStates_ok (hs : b.Sound ctx.blake2b names) (hb : b.db.Undoable)
    (h : disconnectNameStates ctx block b = .ok b') :
    ∃ names', b'.Sound ctx.blake2b names' ∧ b'.db.Undoable := by
  simp only [disconnectNameStates, bind_eq_ok, pure_eq_ok] at h
  obtain ⟨undo, hfetch, db1, hrestore, cache, hcache, rfl⟩ := h
  obtain ⟨old, order, hold, rfl⟩ := hb block.hash undo hfetch
  obtain ⟨db2, hrestore2, hwrote⟩ :=
    restoreNameStates_ok hold.toReadable order b.db
  rw [hrestore, Except.ok.injEq] at hrestore2
  subst hrestore2
  have hstores : (db1.dbRemoveNameUndo block.hash).Stores (names.restore old order) := by
    intro k
    change db1.nameStates.lookup k = _
    rw [hwrote.nameStates, NameMap.restore]
    split_ifs
    · rfl
    · rw [hs.stores]
  refine ⟨names.restore old order, ⟨hs.storable.restore hold order, hstores, ?_, fun c' hc' => ?_⟩,
    (hb.of_nameUndo hwrote.nameUndo).dbRemoveNameUndo block.hash⟩
  · obtain ⟨root, hr⟩ := hs.root
    exact ⟨root, hwrote.nameRoot.trans hr⟩
  · obtain ⟨c, hc, happly⟩ := updateCache_ok hcache c' hc'
    obtain ⟨m, hm, hwrites⟩ :=
      NameRootCache.Follows.applyUndo hold.toReadable order (hs.cache c hc) happly
    have heq : m = db1.nameStates :=
      ext_lookup fun k => (hwrites k).trans (hwrote.nameStates k).symm
    rw [heq] at hm
    exact hm

lemma restoreNameRoot_ok (hs : b.Sound ctx.blake2b names)
    (h : restoreNameRoot ctx block b = .ok b') :
    b'.Sound ctx.blake2b names ∧ b'.db.nameUndo = b.db.nameUndo := by
  simp only [restoreNameRoot, bind_eq_ok, exists_failIf_ok, pure_eq_ok, Prod.exists] at h
  obtain ⟨root, b1, hcached, -, rfl⟩ := h
  obtain ⟨hdb, ⟨c, hc, hmirrors⟩, -⟩ := cachedNameRoot_ok hs.cache hcached
  have hstates : (b1.db.dbPutNameRoot block.nameRoot).nameStates = b.db.nameStates := by
    rw [hdb]
    rfl
  refine ⟨⟨hs.storable, fun k => ?_, ⟨block.nameRoot, rfl⟩, fun c' hc' => ?_⟩, by rw [hdb]; rfl⟩
  · rw [hstates, hs.stores]
  · rw [hc, Option.some.injEq] at hc'
    rw [NameRootCache.Usable, hstates, ← hc']
    exact .inr hmirrors

/-- The state between calls. A call that fails is rolled back and the cache is dropped. -/
inductive CallRun (ctx : NameContext) : NameChain → Prop
  | new : CallRun ctx newNameChain
  | connect {b b' : NameChain} {orders : NameOrders} {env : NameEnv} {block : Block}
      {stxos : List SpentTxOut} (run : CallRun ctx b) (height : env.height ≠ 0)
      (ok : connectNames ctx orders env block stxos b = .ok b') : CallRun ctx b'
  | disconnect {b b' : NameChain} {height : UInt32} {block : Block} (run : CallRun ctx b)
      (ok : disconnectNames ctx height block b = .ok b') : CallRun ctx b'
  | fail {b : NameChain} (run : CallRun ctx b) : CallRun ctx { b with nameRootCache := none }

/-- The state inside a transaction, at its start or where a call may read the root. -/
inductive InTransaction (ctx : NameContext) : NameChain → Prop
  | start {b : NameChain} (run : CallRun ctx b) : InTransaction ctx b
  | connecting {b b' : NameChain} {orders : NameOrders} {env : NameEnv} {block : Block}
      {stxos : List SpentTxOut} (run : CallRun ctx b) (height : env.height ≠ 0)
      (ok : connectNameStates ctx orders env block stxos b = .ok b') : InTransaction ctx b'
  | disconnecting {b b' : NameChain} {block : Block} (run : CallRun ctx b)
      (ok : disconnectNameStates ctx block b = .ok b') : InTransaction ctx b'

lemma CallRun.sound (h : CallRun ctx b) : ∃ names, b.Sound ctx.blake2b names ∧ b.db.Undoable := by
  induction h with
  | new => exact ⟨newNameState, sound_newNameChain ctx.blake2b, undoable_newNameDb⟩
  | connect run height ok ih =>
    obtain ⟨names, hs, hundo⟩ := ih
    obtain ⟨b1, hstates, hfinal⟩ := bind_eq_ok.1 ok
    obtain ⟨calls, r, -, -, hconnected, -⟩ := connectNameStates_ok hs height hstates
    obtain ⟨hsound, hsame, -, -⟩ := commitNameRoot_ok hconnected.sound hfinal
    exact ⟨r.names, hsound, (hconnected.undoable hs.storable hundo).of_nameUndo hsame⟩
  | disconnect run ok ih =>
    obtain ⟨names, hs, hundo⟩ := ih
    obtain ⟨b1, hstates, hfinal⟩ := bind_eq_ok.1 ok
    obtain ⟨names', hs', hundo'⟩ := disconnectNameStates_ok hs hundo hstates
    split_ifs at hfinal
    · obtain ⟨hsound, hsame⟩ := restoreNameRoot_ok hs' hfinal
      exact ⟨names', hsound, hundo'.of_nameUndo hsame⟩
    · cases hfinal
      exact ⟨names', hs', hundo'⟩
  | fail run ih =>
    obtain ⟨names, hs, hundo⟩ := ih
    exact ⟨names, ⟨hs.storable, hs.stores, hs.root, by simp⟩, hundo⟩

lemma InTransaction.sound (h : InTransaction ctx b) : ∃ names, b.Sound ctx.blake2b names := by
  cases h with
  | start run =>
    obtain ⟨names, hs, -⟩ := run.sound
    exact ⟨names, hs⟩
  | connecting run height ok =>
    obtain ⟨names, hs, -⟩ := run.sound
    obtain ⟨calls, r, -, -, hconnected, -⟩ := connectNameStates_ok hs height ok
    exact ⟨r.names, hconnected.sound⟩
  | disconnecting run ok =>
    obtain ⟨names, hs, hundo⟩ := run.sound
    obtain ⟨names', hs', -⟩ := disconnectNameStates_ok hs hundo ok
    exact ⟨names', hs'⟩

/-- Inside every transaction the cached root is the root of the leaves that are stored there. It is
there unless more names are stored than a compact tree can hold. -/
theorem cachedNameRoot_eq_calcUrkelRoot (h : InTransaction ctx b) :
    (∀ root b', cachedNameRoot ctx.blake2b b = .ok (root, b') →
      calcUrkelRoot ctx.blake2b b.db.dbFetchNameLeaves = .ok root) ∧
    (b.db.nameStates.keys.card ≤ nodeLimit →
      ∃ root b', cachedNameRoot ctx.blake2b b = .ok (root, b')) := by
  obtain ⟨names, hs⟩ := h.sound
  refine ⟨fun root b' hcached => ?_, exists_cachedNameRoot hs.cache⟩
  obtain ⟨-, -, hroot⟩ := cachedNameRoot_ok hs.cache hcached
  exact hroot

lemma ConnectRun.callRun (h : ConnectRun ctx hashes b) : CallRun ctx b := by
  induction h with
  | new => exact .new
  | connect _ height ok ih => exact .connect ih (height_ne_zero height) ok
  | drop _ ih => exact .fail ih

/-- The root of the open name was cached at the tree interval, five blocks after the genesis
block. -/
theorem cachedNameRoot_opened : ∃ b root b', InTransaction regtest b ∧
    b.nameRootCache.isSome = true ∧ cachedNameRoot regtest.blake2b b = .ok (root, b') ∧
    calcUrkelRoot regtest.blake2b b.db.dbFetchNameLeaves = .ok root := by
  have hok : (openChain 5).toOption.any (fun b => b.nameRootCache.isSome &&
      b.db.nameStates.keys.card = 1) = true := by decide +kernel
  obtain ⟨b, hchain, hb⟩ := exists_ok_of_any hok
  simp only [Bool.and_eq_true, decide_eq_true_eq] at hb
  have hrun : InTransaction regtest b := .start (connectRun_openChain (by decide) hchain).callRun
  obtain ⟨hroot, hexists⟩ := cachedNameRoot_eq_calcUrkelRoot hrun
  obtain ⟨root, b', hcached⟩ := hexists (hb.2.trans_le (by decide))
  exact ⟨b, root, b', hrun, hb.1, hcached, hroot root b' hcached⟩

end HandshakeNode
