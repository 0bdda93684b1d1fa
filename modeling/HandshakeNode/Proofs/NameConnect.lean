import HandshakeNode.Lib.Loops
import HandshakeNode.Proofs.NameUndo
import HandshakeNode.Proofs.UrkelRootTree

/-!
# Connecting a block and taking it back

The database stores a map of names, and the cache, if there is one, stands for the bucket of states.
Connecting a block moves the map as the covenants of the block do; disconnecting it restores the
map from the undo list.
-/

namespace HandshakeNode

open Simulation Loops UrkelRootTree LittleEndian List NameRootCache NameDb NameRun Except

namespace NameRun

lemma applyTxs_inv {P : NameRun → Prop}
    (hstep : ∀ t ∈ txs, ∀ out ∈ t.tx.covenantOutputs t.prevOutputs, ∀ r nameHash ns, P r →
      covenantHash out.covenant 0 = some nameHash →
      applyCovenant ctx t.env nameHash out (r.names nameHash) = .ok ns → P (r.setState nameHash ns))
    (hr : P r) (h : r.applyTxs ctx txs = .ok r') : P r' := by
  refine foldlM_inv txs (fun t ht r1 r2 hr1 htx => ?_) hr h
  simp only [applyTx, bind_eq_ok] at htx
  obtain ⟨_, -, htx⟩ := htx
  refine foldlM_inv _ (fun out hout r1 r2 hr1 happly => ?_) hr1 htx
  unfold applyOutput at happly
  split at happly
  · cases happly
  · rename_i nameHash hname
    simp only [bind_eq_ok, pure_eq_ok] at happly
    obtain ⟨ns, hns, rfl⟩ := happly
    exact hstep t ht out hout r1 nameHash ns hr1 hname hns

end NameRun

/-- A name nobody has is new, and the state of any other has a height. -/
structure NameMap.Storable (names : NameMap) : Prop extends names.Readable where
  born : ∀ nameHash, names nameHash = newNameState nameHash ∨ (names nameHash).height ≠ 0

lemma NameState.isNull_of_height {ns : NameState} (h : ns.height ≠ 0) : ns.isNull = false := by
  simp [isNull, h]

lemma storable_newNameState : NameMap.Storable newNameState :=
  ⟨readable_newNameState, fun _ => .inl rfl⟩

lemma NameMap.Storable.isNull_or {names : NameMap} (h : names.Storable) (nameHash : Hash) :
    (names nameHash).isNull = true ∧ names nameHash = newNameState nameHash ∨
      (names nameHash).isNull = false ∧ (names nameHash).height ≠ 0 := by
  rcases h.born nameHash with hn | hn
  · exact .inl ⟨by rw [hn]; rfl, hn⟩
  · exact .inr ⟨NameState.isNull_of_height hn, hn⟩

lemma NameRun.height_ne_zero {ctx : NameContext} {names : NameMap} (hnames : names.Storable)
    (hheight : ∀ t ∈ txs, t.env.height ≠ 0) (h : (start names).applyTxs ctx txs = .ok r) :
    (∀ nameHash, r.names nameHash = newNameState nameHash ∨ (r.names nameHash).height ≠ 0) ∧
      ∀ nameHash ∈ r.changed, (r.names nameHash).height ≠ 0 := by
  refine applyTxs_inv (P := fun r => (∀ nameHash, r.names nameHash = newNameState nameHash ∨
    (r.names nameHash).height ≠ 0) ∧ ∀ nameHash ∈ r.changed, (r.names nameHash).height ≠ 0)
    (fun t ht out _ r nameHash ns hr _ hns => ?_) ⟨hnames.born, by simp [start]⟩ h
  have hne : ns.height ≠ 0 := by
    refine applyCovenant_height_ne_zero (hheight t ht) ?_ hns
    exact (hr.1 nameHash).imp (fun h => by rw [h]; rfl) id
  refine ⟨fun k => ?_, fun k hk => ?_⟩
  · rw [names_setState]
    split_ifs
    · exact .inr hne
    · exact hr.1 k
  · rw [names_setState]
    split_ifs with hkn
    · exact hne
    · rw [mem_changed_setState] at hk
      exact hr.2 k (hk.resolve_right fun hk => hkn hk.1)

/-! ## The bucket of states -/

def storedState (ns : NameState) : Option Bytes := if ns.isNull then none else some ns.encodeBody

/-- The bucket has the states of the names in `order` and is otherwise as before. -/
def Overwrites (names : NameMap) (order : List Hash) (m m' : GoMap Hash Bytes) : Prop :=
  ∀ k, m'.lookup k = if k ∈ order then storedState (names k) else m.lookup k

section

variable {names : NameMap}

lemma overwrites_nil (names : NameMap) (m : GoMap Hash Bytes) : Overwrites names [] m m := by
  simp [Overwrites]

lemma Overwrites.cons (h : Overwrites names [k] m m1) (h' : Overwrites names order m1 m') :
    Overwrites names (k :: order) m m' := by
  intro j
  rw [h', h]
  by_cases hj : j = k <;> simp [hj]

lemma overwrites_erase (hnull : (names k).isNull = true) (m : GoMap Hash Bytes) :
    Overwrites names [k] m (m.erase k) := by
  intro j
  by_cases hj : j = k
  · subst hj
    simp [storedState, hnull]
  · simp [hj]

lemma overwrites_insert (hnull : (names k).isNull = false) (m : GoMap Hash Bytes) :
    Overwrites names [k] m (m.insert k (names k).encodeBody) := by
  intro j
  by_cases hj : j = k
  · subst hj
    simp [storedState, hnull]
  · simp [hj]

end

namespace NameDb

variable {db : NameDb} {names : NameMap}

def Stores (db : NameDb) (names : NameMap) : Prop :=
  ∀ nameHash, db.nameStates.lookup nameHash = storedState (names nameHash)

lemma Stores.mem_keys (h : db.Stores names) (nameHash : Hash) :
    nameHash ∈ db.nameStates.keys ↔ (names nameHash).isNull = false := by
  rw [Finmap.mem_keys, ← Finmap.lookup_isSome, h, storedState]
  cases (names nameHash).isNull <;> simp

section

variable (h : db.Stores names) (hnames : names.Storable)
include h hnames

lemma Stores.dbFetchNameState_eq (nameHash : Hash) : db.dbFetchNameState nameHash =
      .ok (if (names nameHash).isNull then none else some (names nameHash)) := by
  unfold dbFetchNameState
  rw [h, storedState]
  cases hnull : (names nameHash).isNull with
  | true => rfl
  | false =>
    have hdecode := decodeNameState_encodeBody (hnames.encodable nameHash)
    rw [hnames.named] at hdecode
    simp only [Bool.false_eq_true, if_false, hdecode]
    rfl

lemma Stores.names_eq : db.names = names := by
  funext nameHash
  unfold NameDb.names
  rw [h.dbFetchNameState_eq hnames]
  rcases hnames.isNull_or nameHash with ⟨hnull, hnew⟩ | ⟨hnull, -⟩
  · rw [hnew]
    rfl
  · rw [hnull]
    rfl

lemma Stores.fresh :
    newLazyNameBlockView.Fresh (some db) names where
  peek nameHash := by
    change (do let ns ← db.dbFetchNameState nameHash; return ns.getD (newNameState nameHash) :
      Result NameState) = _
    rw [h.dbFetchNameState_eq hnames]
    rcases hnames.isNull_or nameHash with ⟨hnull, hnew⟩ | ⟨hnull, -⟩
    · rw [hnew]
      rfl
    · rw [hnull]
      rfl
  dirty := rfl
  undo := rfl
  seen := rfl

end

/-- The states of the names in `order` were written, and nothing else. -/
structure Wrote (names : NameMap) (order : List Hash) (db db' : NameDb) : Prop where
  nameUndo : db'.nameUndo = db.nameUndo
  nameRoot : db'.nameRoot = db.nameRoot
  nameStates : Overwrites names order db.nameStates db'.nameStates

lemma Wrote.cons (h : Wrote names [k] db db1) (h' : Wrote names order db1 db') :
    Wrote names (k :: order) db db' :=
  ⟨h'.nameUndo.trans h.nameUndo, h'.nameRoot.trans h.nameRoot, h.nameStates.cons h'.nameStates⟩

lemma dbPutNameState_ok (hnamed : (names k).nameHash = k)
    (h : db.dbPutNameState (names k) = .ok db') :
    ((names k).isNull = false → (names k).Encodable) ∧ Wrote names [k] db db' := by
  unfold dbPutNameState at h
  split_ifs at h with hnull
  · cases h
    refine ⟨by simp [hnull], rfl, rfl, ?_⟩
    rw [hnamed]
    exact overwrites_erase hnull _
  · simp only [bind_eq_ok, pure_eq_ok] at h
    obtain ⟨serialized, hencode, rfl⟩ := h
    obtain ⟨hencodable, rfl⟩ := NameState.encode_eq_ok.1 hencode
    refine ⟨fun _ => hencodable, rfl, rfl, ?_⟩
    rw [hnamed]
    exact overwrites_insert (by simpa using hnull) _

lemma exists_dbPutNameState (db : NameDb) (h : ns.Encodable) :
    ∃ db', db.dbPutNameState ns = .ok db' := by
  unfold dbPutNameState
  split_ifs
  · exact ⟨_, rfl⟩
  · rw [NameState.encode_eq_ok.2 ⟨h, rfl⟩]
    exact ⟨_, rfl⟩

end NameDb

/-! ## The cache of the root -/

lemma leavesOf_range (order : RangeOrder Hash) (m : GoMap Hash Bytes) :
    LeavesOf m ((order.list m.keys).map fun key => ⟨key, (m.lookup key).getD []⟩) := by
  refine ⟨?_, fun leaf => ?_⟩
  · simpa [Function.comp_def] using order.nodup m.keys
  · simp only [mem_map, order.mem_iff]
    constructor
    · rintro ⟨nameHash, hmem, rfl⟩
      obtain ⟨bytes, hbytes⟩ := Finmap.mem_iff.1 hmem
      rw [hbytes]
      rfl
    · intro hleaf
      exact ⟨leaf.key, Finmap.mem_of_lookup_eq_some hleaf, by rw [hleaf]; rfl⟩

lemma leavesOf_dbFetchNameLeaves (db : NameDb) :
    LeavesOf db.nameStates db.dbFetchNameLeaves := leavesOf_range byteOrder db.nameStates

section

variable {c : NameRootCache}

structure NameRootCache.Mirrors (blake2b : Bytes → Hash) (c : NameRootCache)
    (m : GoMap Hash Bytes) : Prop where
  clean : c.rootDirty = false
  stands : Stands blake2b c.rootTree m
  room : m.keys.card ≤ nodeLimit

namespace NameRootCache

lemma Mirrors.put (h : c.Mirrors blake2b m) (hput : c.put blake2b nameHash serialized = .ok c') :
    c'.Mirrors blake2b (m.insert nameHash serialized) := by
  simp only [NameRootCache.put, h.clean, Bool.false_eq_true, if_false, bind_eq_ok, pure_eq_ok]
    at hput
  obtain ⟨rootTree, hput, rfl⟩ := hput
  exact ⟨rfl, h.stands.of_put hput, h.stands.card_of_put h.room hput⟩

lemma Mirrors.exists_put (h : c.Mirrors blake2b m) (hmem : nameHash ∈ m.keys)
    (serialized : Bytes) : ∃ c', c.put blake2b nameHash serialized = .ok c' := by
  obtain ⟨rootTree, hput, -⟩ := h.stands.put_ok nameHash serialized (.inr hmem)
  simp only [NameRootCache.put, h.clean, hput]
  exact ⟨_, rfl⟩

variable {names : NameMap}

lemma applyStates_mirrors : ∀ (xs : List Hash) {c c' : NameRootCache} {m : GoMap Hash Bytes},
    (∀ k ∈ xs, view.states.lookup k = some (names k) ∧ (names k).isNull = false) →
    c.Mirrors blake2b m → xs.foldlM (applyState blake2b view) c = .ok c' →
    ∃ m', c'.Mirrors blake2b m' ∧ Overwrites names xs m m'
  | [], c, c', m, _, hc, h => by
    cases h
    exact ⟨m, hc, overwrites_nil names m⟩
  | k :: xs, c, c', m, hxs, hc, h => by
    obtain ⟨⟨hlookup, hnull⟩, hxs⟩ := forall_mem_cons.1 hxs
    obtain ⟨c1, hstep, hrest⟩ := foldlM_cons_ok h
    simp only [applyState, hlookup, hnull, Bool.false_eq_true, if_false, bind_eq_ok] at hstep
    obtain ⟨serialized, hencode, hput⟩ := hstep
    obtain ⟨-, rfl⟩ := NameState.encode_eq_ok.1 hencode
    obtain ⟨m', hm', hwrites⟩ := applyStates_mirrors xs hxs (hc.put hput) hrest
    exact ⟨m', hm', (overwrites_insert hnull m).cons hwrites⟩

lemma applyStates_dirty {xs : List Hash} (hc : c.rootDirty = true)
    (h : xs.foldlM (applyState blake2b view) c = .ok c') : c'.rootDirty = true := by
  refine foldlM_inv (P := fun c => c.rootDirty = true) xs (fun k _ c c' hc hstep => ?_) hc h
  unfold applyState at hstep
  split at hstep
  · cases hstep
    rfl
  · split_ifs at hstep
    · cases hstep
      rfl
    · simp only [bind_eq_ok] at hstep
      obtain ⟨serialized, -, hput⟩ := hstep
      rw [put, if_pos hc, ok.injEq] at hput
      rwa [← hput]

lemma put_dirty (h : c.rootDirty = true) : c.put blake2b nameHash serialized = .ok c := by
  simp [put, h]

lemma applyUndoEntry_new (hnull : (names k).isNull = true) :
    c.applyUndoEntry blake2b (undoEntry names k).written = .ok { c with rootDirty := true } := by
  simp [applyUndoEntry, undoEntry, NameUndoEntry.written, hnull]

lemma applyUndoEntry_existed (hnull : (names k).isNull = false) (hencodable : (names k).Encodable) :
    c.applyUndoEntry blake2b (undoEntry names k).written =
      c.put blake2b k (names k).encodeBody := by
  simp [applyUndoEntry, undoEntry, NameUndoEntry.written, hnull,
    NameState.encode_eq_ok.2 ⟨hencodable, rfl⟩]

def Follows (blake2b : Bytes → Hash) (c : NameRootCache) (m : GoMap Hash Bytes) : Prop :=
  c.rootDirty = true ∨ c.Mirrors blake2b m

/-- A round of `applyUndo`: a name that did not exist makes the cache dirty, since the tree cannot
forget it. -/
theorem Follows.applyUndoEntry (hencodable : (names k).Encodable) (hc : c.Follows blake2b m)
    (h : c.applyUndoEntry blake2b (undoEntry names k).written = .ok c') :
    ∃ m', c'.Follows blake2b m' ∧ Overwrites names [k] m m' := by
  cases hnull : (names k).isNull with
  | true =>
    rw [applyUndoEntry_new hnull] at h
    cases h
    exact ⟨m.erase k, .inl rfl, overwrites_erase hnull m⟩
  | false =>
    rw [applyUndoEntry_existed hnull hencodable] at h
    refine ⟨m.insert k (names k).encodeBody, ?_, overwrites_insert hnull m⟩
    rcases hc with hc | hc
    · rw [put_dirty hc] at h
      cases h
      exact .inl hc
    · exact .inr (hc.put h)

/-- Taking the changes of a block back: the cache becomes dirty, or it stands for the names as they
were. -/
theorem Follows.applyUndo (hr : names.Readable) :
    ∀ (order : List Hash) {c c' : NameRootCache} {m : GoMap Hash Bytes}, c.Follows blake2b m →
    c.applyUndo blake2b (order.map fun k => (undoEntry names k).written) = .ok c' →
    ∃ m', c'.Follows blake2b m' ∧ Overwrites names order m m'
  | [], c, c', m, hc, h => by
    cases h
    exact ⟨m, hc, overwrites_nil names m⟩
  | k :: order, c, c', m, hc, h => by
    obtain ⟨c1, hstep, hrest⟩ := foldlM_cons_ok h
    obtain ⟨m1, hm1, hwrites1⟩ := hc.applyUndoEntry (hr.encodable k) hstep
    obtain ⟨m', hm', hwrites⟩ := Follows.applyUndo hr order hm1 hrest
    exact ⟨m', hm', hwrites1.cons hwrites⟩

lemma exists_applyUndo (hr : names.Readable) :
    ∀ (order : List Hash) {c : NameRootCache} {m : GoMap Hash Bytes},
    (∀ k ∈ order, k ∈ m.keys) → c.Follows blake2b m →
    ∃ c', c.applyUndo blake2b (order.map fun k => (undoEntry names k).written) = .ok c'
  | [], c, m, _, _ => ⟨c, rfl⟩
  | k :: order, c, m, hmem, hc => by
    obtain ⟨hk, hmem⟩ := forall_mem_cons.1 hmem
    unfold applyUndo
    rw [map_cons, foldlM_cons]
    cases hnull : (names k).isNull with
    | true =>
      rw [applyUndoEntry_new hnull]
      exact exists_applyUndo hr order hmem (c := { c with rootDirty := true }) (.inl rfl)
    | false =>
      rw [applyUndoEntry_existed hnull (hr.encodable k)]
      rcases hc with hc | hc
      · rw [put_dirty hc]
        exact exists_applyUndo hr order hmem (.inl hc)
      · obtain ⟨c1, hput⟩ := hc.exists_put hk (names k).encodeBody
        rw [hput]
        refine exists_applyUndo hr order (fun j hj => ?_) (.inr (hc.put hput))
        rw [keys_insert]
        exact Finset.mem_insert_of_mem (hmem j hj)

lemma rebuild_ok (db : NameDb) (base : UrkelRootTree)
    (hroom : db.nameStates.keys.card ≤ nodeLimit) :
    ∃ rootTree, base.rebuild blake2b db.dbFetchNameLeaves = .ok rootTree ∧
      Mirrors blake2b ⟨rootTree, false⟩ db.nameStates := by
  have hleaves := (leavesOf_dbFetchNameLeaves db).putLeaves_eq
  obtain ⟨rootTree, hput, hstands⟩ := (stands_empty blake2b).putAll_ok db.dbFetchNameLeaves
    (by rwa [hleaves])
  rw [hleaves] at hstands
  exact ⟨rootTree, hput, rfl, hstands, hroom⟩

variable {db : NameDb}

lemma of_rebuild {base rootTree : UrkelRootTree}
    (h : base.rebuild blake2b db.dbFetchNameLeaves = .ok rootTree) :
    Mirrors blake2b ⟨rootTree, false⟩ db.nameStates := by
  have hstands := (stands_empty blake2b).of_putAll h
  have hroom := (stands_empty blake2b).card_of_putAll (by simp) h
  rw [(leavesOf_dbFetchNameLeaves db).putLeaves_eq] at hstands hroom
  exact ⟨rfl, hstands, hroom⟩

def Usable (blake2b : Bytes → Hash) (c : NameRootCache) (db : NameDb) : Prop :=
  c.Follows blake2b db.nameStates

lemma Usable.clean (hc : c.Usable blake2b db) (h : c.clean blake2b db = .ok c') :
    c'.Mirrors blake2b db.nameStates := by
  unfold NameRootCache.clean at h
  split_ifs at h with hdirty
  · simp only [rebuildRoot, bind_eq_ok, pure_eq_ok] at h
    obtain ⟨rootTree, hrebuild, rfl⟩ := h
    exact of_rebuild hrebuild
  · cases h
    exact hc.resolve_left hdirty

lemma exists_clean (hroom : db.nameStates.keys.card ≤ nodeLimit) :
    ∃ c', c.clean blake2b db = .ok c' := by
  unfold clean
  split_ifs
  · obtain ⟨rootTree, hrebuild, -⟩ := rebuild_ok db c.rootTree hroom
    exact ⟨_, by rw [rebuildRoot, hrebuild]; rfl⟩
  · exact ⟨c, rfl⟩

lemma Mirrors.rootHash_eq (h : c.Mirrors blake2b db.nameStates) :
    c.rootTree.rootHash = calcUrkelRoot blake2b db.dbFetchNameLeaves :=
  h.stands.rootHash_eq (leavesOf_dbFetchNameLeaves db)

lemma Mirrors.exists_rootHash (h : c.Mirrors blake2b db.nameStates) :
    ∃ root, c.rootTree.rootHash = .ok root := by
  obtain ⟨u, hu⟩ := h.stands.exists_holds
  exact ⟨_, h.stands.rootHash_ok hu⟩

end NameRootCache

variable {root : Hash}

lemma cachedNameRoot_ok (hc : ∀ c, b.nameRootCache = some c → c.Usable blake2b b.db)
    (h : cachedNameRoot blake2b b = .ok (root, b')) : b'.db = b.db ∧
      (∃ c, b'.nameRootCache = some c ∧ c.Mirrors blake2b b.db.nameStates) ∧
      calcUrkelRoot blake2b b.db.dbFetchNameLeaves = .ok root := by
  simp only [cachedNameRoot, NameRootCache.root, bind_eq_ok, pure_eq_ok, Prod.exists,
    Prod.mk.injEq] at h
  obtain ⟨c, hensure, _, _, ⟨c1, hclean, _, hroot, rfl, rfl⟩, rfl, rfl⟩ := h
  have husable : c.Usable blake2b b.db := by
    unfold ensureCache at hensure
    split at hensure
    · simp only [newNameRootCache, bind_eq_ok, pure_eq_ok] at hensure
      obtain ⟨rootTree, hrebuild, rfl⟩ := hensure
      exact .inr (NameRootCache.of_rebuild hrebuild)
    · rename_i c0 hsome
      cases hensure
      exact hc c hsome
  have hmirrors := husable.clean hclean
  exact ⟨rfl, ⟨c1, rfl, hmirrors⟩, hmirrors.rootHash_eq ▸ hroot⟩

lemma exists_cachedNameRoot (hc : ∀ c, b.nameRootCache = some c → c.Usable blake2b b.db)
    (hroom : b.db.nameStates.keys.card ≤ nodeLimit) :
    ∃ root b', cachedNameRoot blake2b b = .ok (root, b') := by
  obtain ⟨c, hensure, husable⟩ : ∃ c, ensureCache blake2b b = .ok c ∧ c.Usable blake2b b.db := by
    unfold ensureCache
    split
    · obtain ⟨rootTree, hrebuild, hmirrors⟩ :=
        NameRootCache.rebuild_ok b.db UrkelRootTree.empty hroom
      exact ⟨_, by rw [newNameRootCache, hrebuild]; rfl, .inr hmirrors⟩
    · rename_i c hsome
      exact ⟨c, rfl, hc c hsome⟩
  obtain ⟨c1, hclean⟩ := NameRootCache.exists_clean (c := c) hroom
  obtain ⟨root, hroot⟩ := (husable.clean hclean).exists_rootHash
  refine ⟨root, { b with nameRootCache := some c1 }, ?_⟩
  simp only [cachedNameRoot, NameRootCache.root, hensure, hclean, hroot, ok_bind]
  rfl

end

section

variable {ctx : NameContext} {names : NameMap}

lemma applyBlockTxs_eq_ok : ∀ {txs} {stxos}
    {view view' : NameBlockView}, applyBlockTxs ctx dbTx env view txs stxos = .ok (view', rest) ↔
      ∃ calls, blockCalls env txs stxos = .ok (calls, rest) ∧
        view.applyTxs ctx dbTx calls = .ok view'
  | [], stxos, view, view' => by
    simp only [applyBlockTxs, blockCalls, ok.injEq, Prod.mk.injEq]
    constructor
    · rintro ⟨rfl, rfl⟩
      exact ⟨[], ⟨rfl, rfl⟩, rfl⟩
    · rintro ⟨_, ⟨rfl, rfl⟩, h⟩
      cases h
      exact ⟨rfl, rfl⟩
  | tx :: txs, stxos, view, view' => by
    simp only [applyBlockTxs, blockCalls, bind_eq_ok, applyBlockTxs_eq_ok, pure_eq_ok, Prod.exists,
      Prod.mk.injEq]
    constructor
    · rintro ⟨prevOutputs, stxos', hprev, view1, happly, calls, hcalls, hrest⟩
      refine ⟨_, ⟨prevOutputs, stxos', hprev, calls, rest, hcalls, rfl, rfl⟩, ?_⟩
      rw [NameBlockView.applyTxs, foldlM_cons, happly]
      exact hrest
    · rintro ⟨_, ⟨prevOutputs, stxos', hprev, calls, _, hcalls, rfl, rfl⟩, happly⟩
      obtain ⟨view1, happly, hrest⟩ := foldlM_cons_ok happly
      exact ⟨prevOutputs, stxos', hprev, view1, happly, calls, hcalls, hrest⟩

lemma env_of_blockCalls : ∀ {txs} {stxos rest} {calls},
    blockCalls env txs stxos = .ok (calls, rest) → ∀ t ∈ calls, t.env = env
  | [], stxos, rest, calls, h => by
    cases h
    simp
  | tx :: txs, stxos, rest, calls, h => by
    simp only [blockCalls, bind_eq_ok, Prod.exists] at h
    obtain ⟨prevOutputs, stxos', -, calls', _, hcalls, rfl, -⟩ := h
    exact forall_mem_cons.2 ⟨rfl, env_of_blockCalls hcalls⟩

structure NameChain.Sound (blake2b : Bytes → Hash) (b : NameChain) (names : NameMap) : Prop where
  storable : names.Storable
  stores : b.db.Stores names
  root : ∃ root : Hash, b.db.nameRoot = some root.bytes
  cache : ∀ c, b.nameRootCache = some c → c.Usable blake2b b.db

lemma sound_newNameChain (blake2b : Bytes → Hash) : newNameChain.Sound blake2b newNameState where
  storable := storable_newNameState
  stores _ := rfl
  root := ⟨Hash.zero, rfl⟩
  cache c hc := by cases hc

lemma putDirtyStates_ok : ∀ {order} {db db' : NameDb},
    (∀ k ∈ order, view.states.lookup k = some (names k) ∧ (names k).nameHash = k) →
    order.foldlM (putDirtyState view) db = .ok db' →
    (∀ k ∈ order, (names k).isNull = false → (names k).Encodable) ∧ Wrote names order db db'
  | [], db, db', _, h => by
    cases h
    exact ⟨by simp, rfl, rfl, overwrites_nil names _⟩
  | k :: order, db, db', hview, h => by
    obtain ⟨⟨hheld, hnamed⟩, hview⟩ := forall_mem_cons.1 hview
    obtain ⟨db1, hput, hrest⟩ := foldlM_cons_ok h
    rw [putDirtyState, hheld] at hput
    obtain ⟨hencodable, hwrote⟩ := dbPutNameState_ok hnamed hput
    obtain ⟨hrestEnc, hrestWrote⟩ := putDirtyStates_ok hview hrest
    exact ⟨forall_mem_cons.2 ⟨hencodable, hrestEnc⟩, hwrote.cons hrestWrote⟩

/-- What `dbPutNameUndo` makes of the bucket of undo lists. -/
def PutsUndo (blockHash : Hash) (entries : List NameUndoEntry) (m m' : GoMap Hash Bytes) : Prop :=
  entries = [] ∧ m' = m.erase blockHash ∨
    ∃ bytes, dbSerializeNameUndo entries = .ok bytes ∧ m' = m.insert blockHash bytes

lemma PutsUndo.lookup_of_ne (h : PutsUndo blockHash entries m m') (hk : k ≠ blockHash) :
    m'.lookup k = m.lookup k := by
  rcases h with ⟨-, rfl⟩ | ⟨bytes, -, rfl⟩
  · rw [Finmap.lookup_erase_ne hk]
  · rw [Finmap.lookup_insert_of_ne _ hk]

/-- What the covenants of a block did to the buckets, when they took the names from `names` to those
of `r`. -/
structure StatesConnected (ctx : NameContext) (block : Block) (b : NameChain) (names : NameMap)
    (b' : NameChain) (r : NameRun) : Prop where
  sound : b'.Sound ctx.blake2b r.names
  header : b.db.dbFetchNameRoot = .ok block.nameRoot
  unchanged : ∀ nameHash, nameHash ∉ r.changed → r.names nameHash = names nameHash
  alive : ∀ nameHash ∈ r.changed, (r.names nameHash).isNull = false
  undo : ∃ order : List Hash, order.Nodup ∧ order.toFinset = r.changed ∧
    PutsUndo block.hash (order.map (undoEntry names)) b.db.nameUndo b'.db.nameUndo

/-- The root of the states is committed, and the cache stands for them. -/
def NameChain.Committed (blake2b : Bytes → Hash) (b : NameChain) : Prop :=
  (∃ c, b.nameRootCache = some c ∧ c.Mirrors blake2b b.db.nameStates) ∧
    ∃ root, calcUrkelRoot blake2b b.db.dbFetchNameLeaves = .ok root ∧
      b.db.nameRoot = some root.bytes

/-- At a tree interval the root was committed as well. -/
structure Connected (ctx : NameContext) (env : NameEnv) (block : Block) (b : NameChain)
    (names : NameMap) (b' : NameChain) (r : NameRun) : Prop
    extends StatesConnected ctx block b names b' r where
  root : atTreeInterval ctx.params env.height = false → b'.db.nameRoot = b.db.nameRoot
  committed : atTreeInterval ctx.params env.height = true → b'.Committed ctx.blake2b

lemma dbPutNameUndo_ok {db : NameDb} (h : db.dbPutNameUndo blockHash entries = .ok db') :
    db'.nameStates = db.nameStates ∧ db'.nameRoot = db.nameRoot ∧
      PutsUndo blockHash entries db.nameUndo db'.nameUndo := by
  unfold dbPutNameUndo at h
  split_ifs at h with hlen
  · cases h
    exact ⟨rfl, rfl, .inl ⟨length_eq_zero_iff.1 hlen, rfl⟩⟩
  · simp only [bind_eq_ok, pure_eq_ok] at h
    obtain ⟨bytes, hbytes, rfl⟩ := h
    exact ⟨rfl, rfl, .inr ⟨bytes, hbytes, rfl⟩⟩

lemma updateCache_ok (h : updateCache update cache = .ok cache') :
    ∀ c', cache' = some c' → ∃ c, cache = some c ∧ update c = .ok c' := by
  cases cache with
  | none =>
    cases h
    simp
  | some c =>
    simp only [updateCache, bind_eq_ok, pure_eq_ok] at h
    obtain ⟨c1, hupdate, rfl⟩ := h
    rintro c' ⟨⟩
    exact ⟨c, rfl, hupdate⟩

lemma commitNameRoot_ok (hs : b.Sound ctx.blake2b names)
    (h : (if atTreeInterval ctx.params height = true then dbPutCachedNameRoot ctx.blake2b b
      else .ok b) = .ok b') :
    b'.Sound ctx.blake2b names ∧ b'.db.nameUndo = b.db.nameUndo ∧
      (atTreeInterval ctx.params height = false → b'.db.nameRoot = b.db.nameRoot) ∧
      (atTreeInterval ctx.params height = true → b'.Committed ctx.blake2b) := by
  split_ifs at h with hat
  · simp only [dbPutCachedNameRoot, bind_eq_ok, pure_eq_ok, Prod.exists] at h
    obtain ⟨root, b1, hcached, rfl⟩ := h
    obtain ⟨hdb, ⟨c, hc, hmirrors⟩, hroot⟩ := cachedNameRoot_ok hs.cache hcached
    have hstates : (b1.db.dbPutNameRoot root).nameStates = b.db.nameStates := by rw [hdb]; rfl
    refine ⟨⟨hs.storable, ?_, ⟨root, rfl⟩, ?_⟩, by rw [hdb]; rfl, by simp [hat], fun _ => ?_⟩
    · intro k
      rw [hstates, hs.stores]
    · rintro c' hc'
      rw [hc, Option.some.injEq] at hc'
      rw [NameRootCache.Usable, hstates, ← hc']
      exact .inr hmirrors
    · refine ⟨⟨c, hc, by rw [hstates]; exact hmirrors⟩, root, ?_, rfl⟩
      rw [← hroot, hdb]
      rfl
  · cases h
    exact ⟨hs, rfl, fun _ => rfl, fun h => absurd h hat⟩

lemma connectNameStates_ok (hs : b.Sound ctx.blake2b names) (hheight : env.height ≠ 0)
    (h : connectNameStates ctx orders env block stxos b = .ok b') :
    ∃ calls r, blockCalls env block.transactions stxos = .ok (calls, []) ∧
      (start names).applyTxs ctx calls = .ok r ∧ StatesConnected ctx block b names b' r ∧
      b'.db.nameRoot = b.db.nameRoot := by
  simp only [connectNameStates, checkNameRoot, checkNameRootAgainst, bind_eq_ok, failIf_eq_ok,
    exists_const, Prod.exists, not_not, applyBlockTxs_eq_ok, pure_eq_ok] at h
  obtain ⟨⟨root, hheader, rfl⟩, view, rest, ⟨calls, hcalls, hview⟩, hrest, db1, hput, db2, hundo,
    cache, hcache, rfl⟩ := h
  obtain rfl := length_eq_zero_iff.1 hrest
  have hr := hs.storable.toReadable
  obtain ⟨r, hrun, htracks, -⟩ := (hs.stores.fresh hs.storable).applyTxs_ok hr hview
  obtain ⟨hborn, halive⟩ := height_ne_zero hs.storable
    (fun t ht => by rwa [env_of_blockCalls hcalls t ht]) hrun
  have hnull : ∀ k ∈ r.changed, (r.names k).isNull = false := fun k hk =>
    NameState.isNull_of_height (halive k hk)
  -- The states that were written are those of the run.
  have hlist : ∀ (order : RangeOrder Hash) k, k ∈ order.list view.dirty ↔ k ∈ r.changed := by
    intro order k
    rw [order.mem_iff, htracks.dirty]
  have hstored : ∀ (order : RangeOrder Hash) k, (if k ∈ order.list view.dirty then
      storedState (r.names k) else b.db.nameStates.lookup k) = storedState (r.names k) := by
    intro order k
    split_ifs with hk
    · rfl
    · rw [hs.stores, htracks.unchanged k fun h => hk ((hlist order k).2 h)]
  obtain ⟨hencodable, hwrote⟩ := putDirtyStates_ok
    (fun k hk => ⟨htracks.held k ((hlist _ k).1 hk), htracks.named k⟩) hput
  obtain ⟨hstates2, hroot2, hundo2⟩ := dbPutNameUndo_ok hundo
  have hstores : db2.Stores r.names := fun k => by
    rw [hstates2, hwrote.nameStates, hstored]
  have hstorable : r.names.Storable := by
    refine ⟨⟨htracks.named, fun k => ?_⟩, hborn⟩
    by_cases hk : k ∈ r.changed
    · exact hencodable k ((hlist _ k).2 hk) (hnull k hk)
    · rw [htracks.unchanged k hk]
      exact hr.encodable k
  -- The cache stands for them, unless it is dirty.
  have husable : ∀ c', cache = some c' → c'.Usable ctx.blake2b db2 := by
    intro c' hc'
    obtain ⟨c, hc, happly⟩ := updateCache_ok hcache c' hc'
    rcases hs.cache c hc with hdirty | hmirrors
    · exact .inl (applyStates_dirty hdirty happly)
    obtain ⟨m, hm, hwrites⟩ := applyStates_mirrors (orders.apply.list view.dirty)
      (fun k hk => ⟨htracks.held k ((hlist _ k).1 hk), hnull k ((hlist _ k).1 hk)⟩) hmirrors happly
    have heq : m = db2.nameStates := Finmap.ext_lookup fun k => by rw [hwrites, hstores, hstored]
    exact .inr (heq ▸ hm)
  have hroot : db2.nameRoot = b.db.nameRoot := hroot2.trans hwrote.nameRoot
  obtain ⟨order, hnodup, horder, hentries⟩ := htracks.undo
  rw [hentries, hwrote.nameUndo] at hundo2
  exact ⟨calls, r, hcalls, hrun, ⟨⟨hstorable, hstores, hroot ▸ hs.root, husable⟩, hheader,
    htracks.unchanged, hnull, order, hnodup, horder, hundo2⟩, hroot⟩

lemma connectNames_ok (hs : b.Sound ctx.blake2b names) (hheight : env.height ≠ 0)
    (h : connectNames ctx orders env block stxos b = .ok b') :
    ∃ calls r, blockCalls env block.transactions stxos = .ok (calls, []) ∧
      (start names).applyTxs ctx calls = .ok r ∧ Connected ctx env block b names b' r := by
  obtain ⟨b1, hstates, hfinal⟩ := bind_eq_ok.1 h
  obtain ⟨calls, r, hcalls, hrun, hconnected, hroot1⟩ := connectNameStates_ok hs hheight hstates
  obtain ⟨hsound, hundo, hroot, hcommitted⟩ := commitNameRoot_ok hconnected.sound hfinal
  refine ⟨calls, r, hcalls, hrun,
    { hconnected with
      sound := hsound
      undo := ?_
      root := fun hat => (hroot hat).trans hroot1
      committed := hcommitted }⟩
  rw [hundo]
  exact hconnected.undo

end

section

variable {b' : NameChain} {names : NameMap}

lemma restoreNameState_ok (hr : names.Readable) (db : NameDb) (k : Hash) :
    ∃ db', restoreNameState db (undoEntry names k).written = .ok db' ∧ Wrote names [k] db db' := by
  cases hnull : (names k).isNull with
  | true =>
    refine ⟨db.deleteNameState k, ?_, rfl, rfl, overwrites_erase hnull _⟩
    simp [restoreNameState, undoEntry, NameUndoEntry.written, hnull]
  | false =>
    obtain ⟨db', hput⟩ := exists_dbPutNameState db (hr.encodable k)
    refine ⟨db', ?_, (dbPutNameState_ok (hr.named k) hput).2⟩
    simpa [restoreNameState, undoEntry, NameUndoEntry.written, hnull] using hput

lemma restoreNameStates_ok (hr : names.Readable) (order : List Hash) (db : NameDb) :
    ∃ db', (order.map fun k => (undoEntry names k).written).foldlM restoreNameState db = .ok db' ∧
      Wrote names order db db' := by
  induction order generalizing db with
  | nil => exact ⟨db, rfl, rfl, rfl, overwrites_nil names _⟩
  | cons k order ih =>
    obtain ⟨db1, hrestore, hwrote1⟩ := restoreNameState_ok hr db k
    obtain ⟨db', hrest, hwrote⟩ := ih db1
    refine ⟨db', ?_, hwrote1.cons hwrote⟩
    rw [map_cons, foldlM_cons, hrestore]
    exact hrest

namespace Connected

variable (h : Connected ctx env block b names b' r)

include h

lemma dbFetchNameUndo (hr : names.Readable) :
    ∃ order : List Hash, order.Nodup ∧ order.toFinset = r.changed ∧
      (r.changed.card ≤ maxNameUndoEntries → b'.db.dbFetchNameUndo block.hash =
        .ok (order.map fun k => (undoEntry names k).written)) ∧
      (¬ r.changed.card ≤ maxNameUndoEntries →
        ∃ e, b'.db.dbFetchNameUndo block.hash = .error e) := by
  obtain ⟨order, hnodup, horder, hundo⟩ := h.undo
  have hlen : r.changed.card = order.length := by
    rw [← horder, toFinset_card_of_nodup hnodup]
  refine ⟨order, hnodup, horder, ?_⟩
  unfold NameDb.dbFetchNameUndo
  rcases hundo with ⟨hnil, hbucket⟩ | ⟨bytes, hbytes, hbucket⟩
  · obtain rfl := map_eq_nil_iff.1 hnil
    rw [hbucket, Finmap.lookup_erase, hlen]
    exact ⟨fun _ => rfl, fun hlong => absurd (Nat.zero_le _) hlong⟩
  · rw [hbucket, Finmap.lookup_insert, hlen]
    constructor
    · intro hshort
      obtain ⟨bytes', hbytes', hread⟩ := dbDeserializeNameUndo_serialize
        (NameBlockView.writable_undoEntries hr order) (by rwa [length_map])
      rw [hbytes, ok.injEq] at hbytes'
      simp only [hbytes', hread, map_map]
      rfl
    · intro hlong
      exact dbDeserializeNameUndo_long (by rw [length_map]; exact not_le.1 hlong) hbytes

lemma nameUndo_erase (hnew : block.hash ∉ b.db.nameUndo) :
    b'.db.nameUndo.erase block.hash = b.db.nameUndo := by
  refine Finmap.ext_lookup fun k => ?_
  obtain ⟨order, -, -, hundo⟩ := h.undo
  by_cases hk : k = block.hash
  · rw [hk, Finmap.lookup_erase, Finmap.lookup_eq_none.2 hnew]
  · rw [Finmap.lookup_erase_ne hk, hundo.lookup_of_ne hk]

variable (hs : b.Sound ctx.blake2b names)

include hs

/-- Up to the root, disconnecting a block with a readable undo list restores the database, and
leaves a cache that can be used. -/
theorem restored (hnew : block.hash ∉ b.db.nameUndo)
    (hshort : r.changed.card ≤ maxNameUndoEntries) :
    ∃ cache, (∀ c, cache = some c → c.Usable ctx.blake2b b.db) ∧
      ∀ height, disconnectNames ctx height block b' =
        if atTreeInterval ctx.params height = true then
          restoreNameRoot ctx block ⟨{ b.db with nameRoot := b'.db.nameRoot }, cache⟩
        else .ok ⟨{ b.db with nameRoot := b'.db.nameRoot }, cache⟩ := by
  have hr := hs.storable.toReadable
  obtain ⟨order, -, horder, hfetch, -⟩ := h.dbFetchNameUndo hr
  have hmem : ∀ k, k ∈ order ↔ k ∈ r.changed := fun k => by rw [← horder, mem_toFinset]
  obtain ⟨db1, hrestore, hwrote⟩ := restoreNameStates_ok hr order b'.db
  have hstored : ∀ k, (if k ∈ order then storedState (names k) else b'.db.nameStates.lookup k) =
      b.db.nameStates.lookup k := by
    intro k
    rw [hs.stores, h.sound.stores]
    split_ifs with hk
    · rfl
    · rw [h.unchanged k fun hc => hk ((hmem k).2 hc)]
  have hdb : db1.dbRemoveNameUndo block.hash = { b.db with nameRoot := b'.db.nameRoot } := by
    have hstates : db1.nameStates = b.db.nameStates :=
      Finmap.ext_lookup fun k => (hwrote.nameStates k).trans (hstored k)
    rw [dbRemoveNameUndo, hwrote.nameUndo, h.nameUndo_erase hnew, hstates, hwrote.nameRoot]
  obtain ⟨cache, hcache, husable⟩ : ∃ cache, updateCache (·.applyUndo ctx.blake2b
      (order.map fun k => (undoEntry names k).written)) b'.nameRootCache = .ok cache ∧
      ∀ c, cache = some c → c.Usable ctx.blake2b b.db := by
    cases hc : b'.nameRootCache with
    | none => exact ⟨none, rfl, by simp⟩
    | some c =>
      have hkeys : ∀ k ∈ order, k ∈ b'.db.nameStates.keys := fun k hk =>
        (h.sound.stores.mem_keys k).2 (h.alive k ((hmem k).1 hk))
      obtain ⟨c', hundo⟩ := exists_applyUndo hr order hkeys (h.sound.cache c hc)
      refine ⟨some c', by simp only [updateCache, hundo]; rfl, ?_⟩
      rintro _ ⟨⟩
      obtain ⟨m, hm, hwrites⟩ := Follows.applyUndo hr order (h.sound.cache c hc) hundo
      rwa [show m = b.db.nameStates from
        Finmap.ext_lookup fun k => (hwrites k).trans (hstored k)] at hm
  refine ⟨cache, husable, fun height => ?_⟩
  simp [disconnectNames, disconnectNameStates, hfetch hshort, hrestore, hcache, hdb]

lemma nameRoot_eq : b.db.nameRoot = some block.nameRoot.bytes := by
  obtain ⟨root, hroot⟩ := hs.root
  have hheader := h.header
  rw [dbFetchNameRoot, hroot] at hheader
  simp only [Hash.length_bytes, dite_true, ok.injEq] at hheader
  rw [hroot, ← hheader]

/-- At a tree interval, the database is restored exactly when the live states before the block had
the root of its header. -/
theorem restoreNameRoot_iff (hat : atTreeInterval ctx.params env.height = true)
    (hcache : ∀ c, cache = some c → c.Usable ctx.blake2b b.db) :
    (∃ b'', restoreNameRoot ctx block ⟨{ b.db with nameRoot := b'.db.nameRoot }, cache⟩ =
      .ok b'' ∧ b''.db = b.db) ↔
      calcUrkelRoot ctx.blake2b b.db.dbFetchNameLeaves = .ok block.nameRoot := by
  obtain ⟨⟨c, -, hmirrors⟩, -⟩ := h.committed hat
  have hroom : b.db.nameStates.keys.card ≤ nodeLimit := by
    refine (Finset.card_le_card fun k hk => ?_).trans hmirrors.room
    rw [h.sound.stores.mem_keys]
    by_cases hk' : k ∈ r.changed
    · exact h.alive k hk'
    · rw [h.unchanged k hk']
      exact (hs.stores.mem_keys k).1 hk
  obtain ⟨root, b1, hcached⟩ := exists_cachedNameRoot
    (b := ⟨{ b.db with nameRoot := b'.db.nameRoot }, cache⟩) hcache hroom
  obtain ⟨hdb, -, hroot⟩ := cachedNameRoot_ok hcache hcached
  have hleaves : calcUrkelRoot ctx.blake2b b.db.dbFetchNameLeaves = .ok root := hroot
  unfold restoreNameRoot
  simp only [hcached, ok_bind, hleaves, ok.injEq]
  constructor
  · rintro ⟨b'', hok, -⟩
    simp only [bind_eq_ok, exists_failIf_ok, not_not] at hok
    exact hok.1
  · intro hheader
    refine ⟨{ b1 with db := b1.db.dbPutNameRoot block.nameRoot }, ?_, ?_⟩
    · rw [failIf_of_not (not_not.2 hheader)]
      rfl
    · rw [hdb, dbPutNameRoot]
      rw [← h.nameRoot_eq hs]

lemma disconnectNames_iff (hnew : block.hash ∉ b.db.nameUndo) :
    (∃ b'', disconnectNames ctx env.height block b' = .ok b'' ∧ b''.db = b.db) ↔
      r.changed.card ≤ maxNameUndoEntries ∧ (atTreeInterval ctx.params env.height = true →
        calcUrkelRoot ctx.blake2b b.db.dbFetchNameLeaves = b.db.dbFetchNameRoot) := by
  rw [h.header]
  by_cases hshort : r.changed.card ≤ maxNameUndoEntries
  · obtain ⟨cache, hcache, hdisconnect⟩ := h.restored hs hnew hshort
    rw [hdisconnect]
    by_cases hat : atTreeInterval ctx.params env.height = true
    · simp only [hshort, hat, true_and, true_imp_iff]
      exact h.restoreNameRoot_iff hs hat hcache
    · rw [if_neg hat]
      refine iff_of_true ⟨_, rfl, ?_⟩ ⟨hshort, fun hat' => absurd hat' hat⟩
      rw [h.root (by simpa using hat)]
  · obtain ⟨order, -, -, -, hfetch⟩ := h.dbFetchNameUndo hs.storable.toReadable
    obtain ⟨e, he⟩ := hfetch hshort
    simp [disconnectNames, disconnectNameStates, he, hshort]

end Connected

end

section

variable {ctx : NameContext} {env : NameEnv} {orders : NameOrders} {block : Block}
  {stxos : List SpentTxOut} {b b' : NameChain} {hashes : List Hash}

/-- Blocks that are connected one after the other, from height 1 on; the cache may be dropped at any
time. The hashes of the blocks come last block first. -/
inductive ConnectRun (ctx : NameContext) : List Hash → NameChain → Prop
  | new : ConnectRun ctx [] newNameChain
  | connect {hashes : List Hash} {b b' : NameChain} {orders : NameOrders} {env : NameEnv}
      {block : Block} {stxos : List SpentTxOut} (run : ConnectRun ctx hashes b)
      (height : env.height.toNat = hashes.length + 1)
      (ok : connectNames ctx orders env block stxos b = .ok b') :
      ConnectRun ctx (block.hash :: hashes) b'
  | drop {hashes : List Hash} {b : NameChain} (run : ConnectRun ctx hashes b) :
      ConnectRun ctx hashes { b with nameRootCache := none }

lemma height_ne_zero (h : env.height.toNat = n + 1) : env.height ≠ 0 := by
  intro h0
  rw [h0] at h
  simp at h

/-- Every chain of a run stores the names it has, and undo lists of its own blocks only. -/
theorem ConnectRun.sound (h : ConnectRun ctx hashes b) :
    ∃ names, b.Sound ctx.blake2b names ∧ ∀ k ∈ b.db.nameUndo, k ∈ hashes := by
  induction h with
  | new =>
    refine ⟨newNameState, sound_newNameChain ctx.blake2b, fun k hk => ?_⟩
    exact (Finmap.notMem_empty hk).elim
  | @connect _ _ _ _ _ block _ run height ok ih =>
    obtain ⟨names, hs, hundo⟩ := ih
    obtain ⟨calls, r, -, -, hconnected⟩ := connectNames_ok hs (height_ne_zero height) ok
    refine ⟨r.names, hconnected.sound, fun k hk => ?_⟩
    obtain ⟨order, -, -, hputs⟩ := hconnected.undo
    by_cases hne : k = block.hash
    · exact hne ▸ mem_cons_self
    · rw [← Finmap.lookup_isSome, hputs.lookup_of_ne hne, Finmap.lookup_isSome] at hk
      exact mem_cons_of_mem _ (hundo k hk)
  | drop run ih =>
    obtain ⟨names, hs, hundo⟩ := ih
    exact ⟨names, ⟨hs.storable, hs.stores, hs.root, by simp⟩, hundo⟩

/-- After any run of connected blocks, disconnecting the block that was just connected succeeds and
gives back the database exactly when the block changes no more names than an undo list may have and,
at a tree interval, the live states before the block have the committed root. -/
theorem disconnectNames_connectNames_iff (hrun : ConnectRun ctx hashes b)
    (hheight : env.height.toNat = hashes.length + 1) (hnew : block.hash ∉ hashes)
    (h : connectNames ctx orders env block stxos b = .ok b') :
    (∃ b'', disconnectNames ctx env.height block b' = .ok b'' ∧ b''.db = b.db) ↔
      (blockChanges ctx env block stxos b.db.names).card ≤ maxNameUndoEntries ∧
        (atTreeInterval ctx.params env.height = true →
          calcUrkelRoot ctx.blake2b b.db.dbFetchNameLeaves = b.db.dbFetchNameRoot) := by
  obtain ⟨names, hs, hundo⟩ := hrun.sound
  obtain ⟨calls, r, hcalls, hnames, hconnected⟩ := connectNames_ok hs (height_ne_zero hheight) h
  rw [hconnected.disconnectNames_iff hs fun hk => hnew (hundo _ hk), blockChanges, hcalls,
    hs.stores.names_eq hs.storable]
  simp [changedNames, hnames]

end

def byteOrders : NameOrders := ⟨byteOrder, byteOrder⟩

def coinbaseTx (height : ℕ) : Tx where
  hash := Hash.ofBytes (leBytes 4 (1000 + height))
  txIn := [⟨⟨Hash.zero, 0xffffffff⟩, []⟩]
  txOut := [⟨2000000000, bidAddress, ⟨.none, []⟩⟩]

/-- The root of the tree with the open name alone. -/
def openedRoot : Hash :=
  ⟨[28, 189, 10, 140, 144, 52, 61, 220, 174, 169, 96, 222, 203, 49, 196, 250, 116, 207, 140, 55, 229,
    126, 188, 180, 16, 162, 162, 121, 112, 148, 72, 170], by decide⟩

def openChainBlock (height : ℕ) : Block where
  hash := Hash.ofBytes (leBytes 4 height)
  prevBlock := Hash.ofBytes (leBytes 4 (height - 1))
  nameRoot := if height ≤ 5 then Hash.zero else openedRoot
  height := Int32.ofNat height
  transactions := coinbaseTx height :: if height = 1 then [openTx] else []

def openChainStxos (height : ℕ) : List SpentTxOut :=
  if height = 1 then [⟨5, bidAddress, ⟨.none, []⟩, [], 0, false⟩] else []

def openChain : ℕ → Result NameChain
  | 0 => .ok newNameChain
  | n + 1 => do
    let b ← openChain n
    connectNames regtest byteOrders (plainEnv (UInt32.ofNat (n + 1))) (openChainBlock (n + 1))
      (openChainStxos (n + 1)) b

def openChainHashes : ℕ → List Hash
  | 0 => []
  | n + 1 => (openChainBlock (n + 1)).hash :: openChainHashes n

lemma length_openChainHashes : ∀ n, (openChainHashes n).length = n
  | 0 => rfl
  | n + 1 => by rw [openChainHashes, length_cons, length_openChainHashes n]

lemma connectRun_openChain : ∀ {n} {b}, n < 2 ^ 32 → openChain n = .ok b →
    ConnectRun regtest (openChainHashes n) b
  | 0, _, _, h => by
    cases h
    exact .new
  | n + 1, b, hn, h => by
    simp only [openChain, bind_eq_ok] at h
    obtain ⟨b0, hb0, h⟩ := h
    refine .connect (connectRun_openChain (by omega) hb0) ?_ h
    rw [length_openChainHashes]
    exact UInt32.toNat_ofNat_of_lt' hn

/-- The block that opens the name can be taken back. -/
theorem disconnectNames_connectNames_open : ∃ b', connectNames regtest byteOrders (plainEnv 1)
    (openChainBlock 1) (openChainStxos 1) newNameChain = .ok b' ∧
    ∃ b'', disconnectNames regtest 1 (openChainBlock 1) b' = .ok b'' ∧
      b''.db = newNameChain.db := by
  have hok : (connectNames regtest byteOrders (plainEnv 1) (openChainBlock 1) (openChainStxos 1)
      newNameChain).isOk = true := by decide +kernel
  obtain ⟨b', hconnect⟩ := exists_ok_of_isOk hok
  exact ⟨b', hconnect, (disconnectNames_connectNames_iff .new rfl not_mem_nil hconnect).2
    ⟨by decide +kernel, fun h => absurd h (by decide)⟩⟩

/-- At height 5, the first tree interval, the last block cannot be taken back: its header has the
root of the empty tree. -/
theorem disconnectNames_openChain : ∃ b b' msg, ConnectRun regtest (openChainHashes 4) b ∧
    (openChainBlock 5).hash ∉ openChainHashes 4 ∧
    connectNames regtest byteOrders (plainEnv 5) (openChainBlock 5) (openChainStxos 5) b = .ok b' ∧
    disconnectNames regtest 5 (openChainBlock 5) b' = .error (.assert msg) := by
  have hfails : (openChain 4).toOption.any (fun b =>
      (connectNames regtest byteOrders (plainEnv 5) (openChainBlock 5) (openChainStxos 5)
        b).toOption.any fun b' =>
        match disconnectNames regtest 5 (openChainBlock 5) b' with
        | .error (.assert _) => true
        | _ => false) = true := by decide +kernel
  obtain ⟨b, hb, hfails⟩ := exists_ok_of_any hfails
  obtain ⟨b', hb', hfails⟩ := exists_ok_of_any hfails
  split at hfails
  · rename_i msg hmsg
    exact ⟨b, b', msg, connectRun_openChain (by decide) hb, by decide, hb', hmsg⟩
  · cases hfails

end HandshakeNode
