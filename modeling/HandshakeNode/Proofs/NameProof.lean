import HandshakeNode.NameProof
import HandshakeNode.Proofs.NameConnect

/-!
# The committed states are there

The undo lists of the blocks since the last commitment take the live leaves back to the states that
were committed, so the tree that is built from them has the committed root.
-/

namespace HandshakeNode

open BitTrie Loops List

/-! ## The leaves of a tree -/

lemma mem_leaves_ofTrie (blake2b : Bytes → Hash) (leaf : UrkelLeaf) : ∀ {t} {p}, t.Fits 256 p →
      (leaf ∈ (UrkelNode.ofTrie blake2b t).leaves ↔ t.Mem leaf.key.bits leaf.value)
  | .leaf k v, p, hf => by
    have hk : k.length = 256 := hf.1
    obtain ⟨key, value⟩ := leaf
    simp only [UrkelNode.ofTrie, newUrkelLeaf, UrkelNode.leaves, mem_singleton,
      UrkelLeaf.mk.injEq]
    constructor
    · rintro ⟨rfl, rfl⟩
      exact ⟨Hash.bits_ofBits hk, rfl⟩
    · rintro ⟨hkey, rfl⟩
      exact ⟨Hash.bits_inj (by rw [hkey, Hash.bits_ofBits hk]), rfl⟩
  | .node pre l r, p, hf => by
    obtain ⟨hl, hr⟩ := hf
    rw [UrkelNode.ofTrie, UrkelNode.leaves, mem_append, mem_leaves_ofTrie blake2b leaf hl,
      mem_leaves_ofTrie blake2b leaf hr, Trie.Mem]

lemma mem_leaves_of_holds (blake2b : Bytes → Hash) (ht : Holds t m) (leaf : UrkelLeaf) :
    (∃ node, t.map (UrkelNode.ofTrie blake2b) = some node ∧ leaf ∈ node.leaves) ↔
      m.lookup leaf.key = some leaf.value := by
  rw [← ht.mem_iff]
  constructor
  · rintro ⟨node, hnode, hmem⟩
    obtain ⟨u, rfl, rfl⟩ := Option.map_eq_some_iff.1 hnode
    exact ⟨u, rfl, (mem_leaves_ofTrie blake2b leaf (ht.fits u rfl)).1 hmem⟩
  · rintro ⟨u, rfl, hmem⟩
    exact ⟨_, rfl, (mem_leaves_ofTrie blake2b leaf (ht.fits u rfl)).2 hmem⟩

/-! ## Taking blocks back -/

variable {names : NameMap}

lemma rollbackEntry_ok (hr : names.Readable) (m : GoMap Hash Bytes) (k : Hash) :
    ∃ m', rollbackEntry m (undoEntry names k).written = .ok m' ∧ Overwrites names [k] m m' := by
  cases hnull : (names k).isNull with
  | true =>
    exact ⟨m.erase k, by simp [rollbackEntry, undoEntry, NameUndoEntry.written, hnull],
      overwrites_erase hnull m⟩
  | false =>
    refine ⟨m.insert k (names k).encodeBody, ?_, overwrites_insert hnull m⟩
    simp [rollbackEntry, undoEntry, NameUndoEntry.written, hnull,
      NameState.encode_eq_ok.2 ⟨hr.encodable k, rfl⟩]

lemma rollbackEntries_ok (hr : names.Readable) : ∀ (order : List Hash) (m : GoMap Hash Bytes),
    ∃ m', (order.map fun k => (undoEntry names k).written).foldlM rollbackEntry m = .ok m' ∧
      Overwrites names order m m'
  | [], m => ⟨m, rfl, overwrites_nil names m⟩
  | k :: order, m => by
    obtain ⟨m1, hentry, hwrites1⟩ := rollbackEntry_ok hr m k
    obtain ⟨m', hrest, hwrites⟩ := rollbackEntries_ok hr order m1
    refine ⟨m', ?_, hwrites1.cons hwrites⟩
    rw [map_cons, foldlM_cons, hentry]
    exact hrest

lemma dbBuildNameProofTree_of_rollback (order : RangeOrder Hash)
    {db0 : NameDb} (hroot : db.dbFetchNameRoot = .ok root)
    (hroll : rollbackHashes.foldlM (rollbackBlock db) db.nameStates = .ok db0.nameStates)
    (hcalc : calcUrkelRoot blake2b db0.dbFetchNameLeaves = .ok root) :
    ∃ tree, dbBuildNameProofTree blake2b order (fun _ => .ok none) db root rollbackHashes =
        .ok tree ∧
      ∀ leaf, (∃ node, tree = some node ∧ leaf ∈ node.leaves) ↔
        db0.nameStates.lookup leaf.key = some leaf.value := by
  have hlive : db.dbFetchNameLeaves.foldl (fun m leaf => m.insert leaf.key leaf.value) ∅ =
      db.nameStates := (leavesOf_dbFetchNameLeaves db).putLeaves_eq
  obtain ⟨t, ht, htree⟩ := buildUrkelTree_ok blake2b (leavesOf_range order db0.nameStates)
  have hhash : ((t.map (UrkelNode.ofTrie blake2b)).map UrkelNode.hash).getD Hash.zero = root := by
    rw [calcUrkelRoot_ok blake2b (leavesOf_dbFetchNameLeaves db0) ht, Except.ok.injEq] at hcalc
    rw [← hcalc]
    cases t <;> rfl
  refine ⟨t.map (UrkelNode.ofTrie blake2b), ?_, mem_leaves_of_holds blake2b ht⟩
  simp only [dbBuildNameProofTree, nameProofLeaves, rollbackLeaves, hroot, hlive, hroll, ok_bind,
    failIf_of_not (not_not.2 rfl), pure_bind, htree, hhash]
  rfl

lemma NameDb.Stores.fetch_iff {db : NameDb} (h : db.Stores names) (hnames : names.Storable)
    (k : Hash) (value : Bytes) :
    db.nameStates.lookup k = some value ↔
      ∃ ns, db.dbFetchNameState k = .ok (some ns) ∧ ns.encode = .ok value := by
  rw [h, storedState, h.dbFetchNameState_eq hnames]
  cases hnull : (names k).isNull with
  | true => simp
  | false => simp [NameState.encode_eq_ok, hnames.encodable k]

lemma Connected.rollbackBlock_ok (hs : b.Sound ctx.blake2b names)
    (h : Connected ctx env block b names b' r)
    (hsame : db.nameUndo.lookup block.hash = b'.db.nameUndo.lookup block.hash)
    (hread : ∃ entries, db.dbFetchNameUndo block.hash = .ok entries) :
    rollbackBlock db b'.db.nameStates block.hash = .ok b.db.nameStates := by
  have hr := hs.storable.toReadable
  obtain ⟨order, -, horder, hfetch, hlong⟩ := h.dbFetchNameUndo hr
  have hdb : db.dbFetchNameUndo block.hash = b'.db.dbFetchNameUndo block.hash := by
    rw [NameDb.dbFetchNameUndo, NameDb.dbFetchNameUndo, hsame]
  have hshort : r.changed.card ≤ maxNameUndoEntries := by
    by_contra hcard
    obtain ⟨entries, hentries⟩ := hread
    obtain ⟨e, he⟩ := hlong hcard
    rw [hdb, he] at hentries
    cases hentries
  obtain ⟨m', hroll, hlookup⟩ := rollbackEntries_ok hr order b'.db.nameStates
  have heq : m' = b.db.nameStates := by
    refine Finmap.ext_lookup fun k => ?_
    rw [hlookup, h.sound.stores, hs.stores]
    split_ifs with hk
    · rfl
    · rw [h.unchanged k fun hc => hk (by rwa [← mem_toFinset, horder])]
  rw [rollbackBlock, hdb, hfetch hshort, ← heq]
  exact hroll

/-- Blocks that are connected on top of a chain at a height, the last one first. -/
inductive ConnectsTo (ctx : NameContext) (height : ℕ) (b₀ : NameChain) :
    List Hash → NameChain → Prop
  | refl : ConnectsTo ctx height b₀ [] b₀
  | connect {hashes : List Hash} {b b' : NameChain} {orders : NameOrders} {env : NameEnv}
      {block : Block} {stxos : List SpentTxOut} (run : ConnectsTo ctx height b₀ hashes b)
      (height_eq : env.height.toNat = height + hashes.length + 1)
      (ok : connectNames ctx orders env block stxos b = .ok b') :
      ConnectsTo ctx height b₀ (block.hash :: hashes) b'
  | drop {hashes : List Hash} {b : NameChain} (run : ConnectsTo ctx height b₀ hashes b) :
      ConnectsTo ctx height b₀ hashes { b with nameRootCache := none }

lemma ConnectRun.split (h : ConnectRun ctx hashes b) : ∀ n ≤ hashes.length,
    ∃ b₀, ConnectRun ctx (hashes.drop n) b₀ ∧
      ConnectsTo ctx (hashes.length - n) b₀ (hashes.take n) b := by
  induction h with
  | new =>
    intro n _
    exact ⟨newNameChain, by simpa using .new, by simpa using .refl⟩
  | @connect hashes b b' orders env block stxos run height ok ih =>
    intro n hn
    cases n with
    | zero => exact ⟨b', .connect run height ok, .refl⟩
    | succ n =>
      rw [length_cons] at hn
      obtain ⟨b₀, hbase, hto⟩ := ih n (by omega)
      refine ⟨b₀, hbase, ?_⟩
      rw [length_cons, Nat.add_sub_add_right]
      refine .connect hto ?_ ok
      rw [length_take]
      omega
  | drop run ih =>
    intro n hn
    obtain ⟨b₀, hbase, hto⟩ := ih n hn
    exact ⟨b₀, hbase, .drop hto⟩

section

variable (hs : ∃ names, b₀.Sound ctx.blake2b names) (h : ConnectsTo ctx height b₀ hashes b)
include hs h

lemma ConnectsTo.sound : ∃ names, b.Sound ctx.blake2b names := by
  induction h with
  | refl => exact hs
  | connect run height_eq ok ih =>
    obtain ⟨names, hs⟩ := ih
    obtain ⟨calls, r, -, -, hconnected⟩ := connectNames_ok hs (height_ne_zero height_eq) ok
    exact ⟨r.names, hconnected.sound⟩
  | drop run ih =>
    obtain ⟨names, hs⟩ := ih
    exact ⟨names, hs.storable, hs.stores, hs.root, by simp⟩

/-- The undo lists of the blocks take the bucket of states back to the chain below them. They may be
read from any database that has those lists. -/
theorem ConnectsTo.rollback (hnodup : hashes.Nodup)
    (hsame : ∀ k ∈ hashes, db.nameUndo.lookup k = b.db.nameUndo.lookup k)
    (hread : ∀ k ∈ hashes, ∃ entries, db.dbFetchNameUndo k = .ok entries) :
    hashes.foldlM (rollbackBlock db) b.db.nameStates = .ok b₀.db.nameStates := by
  induction h with
  | refl => rfl
  | @connect hashes b b' orders env block stxos run height_eq ok ih =>
    obtain ⟨names, hsb⟩ := run.sound hs
    obtain ⟨calls, r, -, -, hconnected⟩ := connectNames_ok hsb (height_ne_zero height_eq) ok
    obtain ⟨hnot, hnodup⟩ := nodup_cons.1 hnodup
    obtain ⟨hsame0, hsame⟩ := forall_mem_cons.1 hsame
    obtain ⟨hread0, hread⟩ := forall_mem_cons.1 hread
    rw [foldlM_cons, hconnected.rollbackBlock_ok hsb hsame0 hread0]
    refine ih hnodup (fun k hk => ?_) hread
    -- Connecting a block touches no undo list but its own.
    have hne : k ≠ block.hash := fun e => hnot (e ▸ hk)
    rw [hsame k hk]
    obtain ⟨order, -, -, hputs⟩ := hconnected.undo
    rw [hputs.lookup_of_ne hne]
  | drop run ih => exact ih hnodup hsame hread

lemma ConnectsTo.nameRoot_eq (hbetween : ∀ n, height < n.toNat → n.toNat ≤ height + hashes.length →
      atTreeInterval ctx.params n = false) : b.db.nameRoot = b₀.db.nameRoot := by
  induction h with
  | refl => rfl
  | @connect hashes b b' orders env block stxos run height_eq ok ih =>
    obtain ⟨names, hsb⟩ := run.sound hs
    obtain ⟨calls, r, -, -, hconnected⟩ := connectNames_ok hsb (height_ne_zero height_eq) ok
    rw [length_cons] at hbetween
    rw [hconnected.root (hbetween env.height (by omega) (by omega))]
    exact ih fun n hlow hhigh => hbetween n hlow (by omega)
  | drop run ih => exact ih hbetween

end

lemma ConnectRun.committed (h : ConnectRun ctx base b₀)
    (hat : ∀ n, n.toNat = base.length → n ≠ 0 → atTreeInterval ctx.params n = true) :
    ∃ root, calcUrkelRoot ctx.blake2b b₀.db.dbFetchNameLeaves = .ok root ∧
      b₀.db.nameRoot = some root.bytes := by
  induction h with
  | new => exact ⟨Hash.zero, rfl, rfl⟩
  | @connect hashes b b' orders env block stxos run height ok =>
    obtain ⟨names, hs, -⟩ := run.sound
    obtain ⟨calls, r, -, -, hconnected⟩ := connectNames_ok hs (height_ne_zero height) ok
    exact (hconnected.committed (hat env.height height (height_ne_zero height))).2
  | drop run ih => exact ih hat

/-! ## The blocks since the last commitment -/

lemma hashesAbove_eq (n : ℕ) : ∀ chain, hashesAbove n chain = chain.take (chain.length - n)
  | [] => by rw [hashesAbove, take_nil]
  | hash :: parents => by
    unfold hashesAbove
    by_cases h : n < parents.length + 1
    · rw [if_pos (by exact_mod_cast h), hashesAbove_eq n parents, length_cons,
        show parents.length + 1 - n = parents.length - n + 1 by omega, take_succ_cons]
    · rw [if_neg (by exact_mod_cast h), length_cons,
        show parents.length + 1 - n = 0 by omega, take_zero]

section

variable {params : Params} (h : 0 < params.nameTreeInterval.toInt32.toInt)
include h

lemma toInt_nameTreeInterval :
    params.nameTreeInterval.toInt32.toInt = params.nameTreeInterval.toNat := by
  have hlt := params.nameTreeInterval.toNat_lt
  have hcases : params.nameTreeInterval.toInt32.toInt = params.nameTreeInterval.toNat ∨
      params.nameTreeInterval.toInt32.toInt = params.nameTreeInterval.toNat - 2 ^ 32 := by
    change params.nameTreeInterval.toBitVec.toInt = _ ∨ params.nameTreeInterval.toBitVec.toInt = _
    rw [BitVec.toInt_eq_toNat_cond]
    split_ifs
    · exact .inl rfl
    · exact .inr rfl
  omega

lemma nameProofRollbackHashes_eq (chain : List Hash) : nameProofRollbackHashes params chain =
      chain.take (chain.length % params.nameTreeInterval.toNat) := by
  unfold nameProofRollbackHashes
  rw [if_neg (by omega), toInt_nameTreeInterval h]
  have hle := Nat.mod_le chain.length params.nameTreeInterval.toNat
  have hcommit : (chain.length : ℤ) - (chain.length : ℤ) % (params.nameTreeInterval.toNat : ℤ) =
      ((chain.length - chain.length % params.nameTreeInterval.toNat : ℕ) : ℤ) := by
    rw [Nat.cast_sub hle, Int.natCast_mod]
  rw [hcommit, hashesAbove_eq, Nat.sub_sub_self hle]

lemma atTreeInterval_iff :
    atTreeInterval params n = true ↔ n.toNat % params.nameTreeInterval.toNat = 0 := by
  have hne : params.nameTreeInterval ≠ 0 := by
    rintro h0
    rw [h0] at h
    exact absurd h (by decide)
  simp only [atTreeInterval, ne_eq, hne, not_false_eq_true, decide_true, Bool.true_and,
    decide_eq_true_eq, ← UInt32.toNat_inj]
  rfl

end

section

variable {ctx : NameContext} {b : NameChain} {hashes : List Hash}

/-- With readable undo lists, the tree for the committed root of any chain is there, and its leaves
are the states as they were after the last block at a multiple of the interval. -/
theorem dbBuildNameProofTree_committed (hrun : ConnectRun ctx hashes b) (hnodup : hashes.Nodup)
    (hinterval : 0 < ctx.params.nameTreeInterval.toInt32.toInt)
    (hread : ∀ k ∈ nameProofRollbackHashes ctx.params hashes,
      ∃ entries, b.db.dbFetchNameUndo k = .ok entries) (order : RangeOrder Hash) :
    ∃ n b₀ root tree, n = hashes.length % ctx.params.nameTreeInterval.toNat ∧
      ConnectRun ctx (hashes.drop n) b₀ ∧
      ConnectsTo ctx (hashes.length - n) b₀ (hashes.take n) b ∧
      b.db.dbFetchNameRoot = .ok root ∧
      dbBuildNameProofTree ctx.blake2b order (fun _ => .ok none) b.db root
        (nameProofRollbackHashes ctx.params hashes) = .ok tree ∧
      ∀ leaf, (∃ node, tree = some node ∧ leaf ∈ node.leaves) ↔
        ∃ ns, b₀.db.dbFetchNameState leaf.key = .ok (some ns) ∧ ns.encode = .ok leaf.value := by
  set interval := ctx.params.nameTreeInterval.toNat with hI
  set n := hashes.length % interval with hn
  have hpos : 0 < interval := by
    have := toInt_nameTreeInterval hinterval
    omega
  have hle : n ≤ hashes.length := Nat.mod_le _ _
  have hlt : n < interval := Nat.mod_lt _ hpos
  obtain ⟨k, hk⟩ : interval ∣ hashes.length - n := Nat.dvd_sub_mod _
  rw [nameProofRollbackHashes_eq hinterval] at hread ⊢
  obtain ⟨b₀, hbase, hto⟩ := hrun.split n hle
  obtain ⟨names, hs, -⟩ := hbase.sound
  -- The root that was committed below is still the committed one.
  obtain ⟨root, hcalc, hroot0⟩ := hbase.committed fun m hm _ => by
    rw [atTreeInterval_iff hinterval, hm, length_drop, hk, Nat.mul_mod_right]
  have hroot : b.db.nameRoot = some root.bytes := by
    rw [hto.nameRoot_eq ⟨names, hs⟩ fun m hlow hhigh => ?_, hroot0]
    rw [← Bool.not_eq_true, atTreeInterval_iff hinterval]
    rw [length_take_of_le hle] at hhigh
    obtain ⟨j, hj⟩ : ∃ j, m.toNat = interval * k + j := ⟨m.toNat - interval * k, by omega⟩
    rw [hj, Nat.mul_add_mod, Nat.mod_eq_of_lt (by omega)]
    omega
  have hfetch : b.db.dbFetchNameRoot = .ok root := by
    rw [NameDb.dbFetchNameRoot, hroot]
    simp
  have hroll := hto.rollback ⟨names, hs⟩ (take_sublist n hashes |>.nodup hnodup)
    (fun _ _ => rfl) hread
  obtain ⟨tree, htree, hleaves⟩ := dbBuildNameProofTree_of_rollback order hfetch hroll hcalc
  refine ⟨n, b₀, root, tree, rfl, hbase, hto, hfetch, htree, fun leaf => ?_⟩
  rw [hleaves, hs.stores.fetch_iff hs.storable]

/-- Two blocks after the tree interval at which a name was committed. -/
theorem dbBuildNameProofTree_openChain : ∃ b root tree, openChain 7 = .ok b ∧
    b.db.dbFetchNameRoot = .ok root ∧ root ≠ Hash.zero ∧
    dbBuildNameProofTree regtest.blake2b byteOrder (fun _ => .ok none) b.db root
      (nameProofRollbackHashes regtest.params (openChainHashes 7)) = .ok tree := by
  have hok : (openChain 7).toOption.any (fun b =>
      b.db.dbFetchNameRoot.toOption.all (· ≠ Hash.zero) &&
      (nameProofRollbackHashes regtest.params (openChainHashes 7)).all fun k =>
        (b.db.dbFetchNameUndo k).isOk) = true := by decide +kernel
  obtain ⟨b, hchain, hb⟩ := exists_ok_of_any hok
  obtain ⟨hne, hall⟩ := Bool.and_eq_true_iff.1 hb
  have hread : ∀ k ∈ nameProofRollbackHashes regtest.params (openChainHashes 7),
      ∃ entries, b.db.dbFetchNameUndo k = .ok entries := by
    intro k hk
    have hfetch := all_eq_true.1 hall k hk
    cases he : b.db.dbFetchNameUndo k with
    | error e =>
      rw [he] at hfetch
      cases hfetch
    | ok entries => exact ⟨entries, rfl⟩
  obtain ⟨n, b₀, root, tree, -, -, -, hroot, htree, -⟩ := dbBuildNameProofTree_committed
    (connectRun_openChain (by decide) hchain) (by decide) (by decide) hread byteOrder
  rw [hroot] at hne
  exact ⟨b, root, tree, hchain, hroot, by simpa [Except.toOption] using hne, htree⟩

end

end HandshakeNode
