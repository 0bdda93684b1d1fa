import HandshakeNode.Proofs.UrkelComplete

/-!
# A proof that verifies tells the truth

The hash is only assumed to tell apart the strings that are actually hashed: those of the tree and
those of the proof at hand (`CollisionFree`). Going down from the root, each node of a verified proof
then has the prefix and the children of the tree's own node, so the end of the proof is the place in
the tree where the key would be.
-/

namespace HandshakeNode

open BitTrie LittleEndian List UrkelBits UrkelNode NoPanic Except

lemma noPanic_readUrkelProofBits (s : Bytes) : NoPanic (readUrkelProofBits s) := by
  refine bind ?_ fun a _ => ?_
  · refine noPanic_failIf_bind fun h => ?_
    rw [sliceAt_of_le (by omega)]
    simp only [ok_bind]
    split_ifs
    · refine noPanic_failIf_bind fun h' => ?_
      rw [sliceAt_of_le (by omega)]
      exact noPanic_ok _
    · exact noPanic_ok _
  · refine noPanic_failIf_bind fun _ => noPanic_failIf_bind fun h => ?_
    rw [sliceAt_of_le (by omega)]
    exact noPanic_ok _

lemma readHash_of_le (h : 32 ≤ s.length) :
    readHash s = .ok (Hash.ofBytes (s.take 32), s.drop 32) := by
  unfold readHash
  rw [sliceAt_of_le h]
  rfl

lemma getUint16_of_le (h : 2 ≤ s.length) : getUint16 s = .ok (leNat (s.take 2), s.drop 2) := by
  unfold getUint16
  rw [sliceAt_of_le h]
  rfl

lemma noPanic_readUrkelProofNodes (bitMap : Bytes) : ∀ left i (s : Bytes),
    i + left ≤ 8 * bitMap.length → NoPanic (readUrkelProofNodes bitMap left i s)
  | 0, _, _, _ => noPanic_ok _
  | left + 1, i, s, hlen => by
    rw [readUrkelProofNodes, urkelHasBit_of_lt (by omega)]
    simp only [ok_bind]
    refine bind ?_ fun a _ => noPanic_failIf_bind fun h => ?_
    · unfold readUrkelProofNodePrefix
      split_ifs
      · exact bind (noPanic_readUrkelProofBits s) fun _ _ =>
          noPanic_failIf_bind fun _ => noPanic_ok _
      · exact noPanic_ok _
    · rw [readHash_of_le (by omega)]
      simp only [ok_bind]
      exact bind (noPanic_readUrkelProofNodes bitMap left (i + 1) _ (by omega))
        fun _ _ => noPanic_ok _

lemma noPanic_readTail (p : UrkelProof) (s : Bytes) : NoPanic (p.readTail s) := by
  unfold UrkelProof.readTail
  split
  · exact noPanic_ok _
  · refine bind (noPanic_readUrkelProofBits s) fun b _ =>
      noPanic_failIf_bind fun _ => noPanic_failIf_bind fun h => ?_
    rw [readHash_of_le (by omega)]
    simp only [ok_bind]
    rw [readHash_of_le (by rw [length_drop]; omega)]
    exact noPanic_ok _
  · refine noPanic_failIf_bind fun h => ?_
    rw [readHash_of_le (by omega)]
    simp only [ok_bind]
    rw [readHash_of_le (by rw [length_drop]; omega)]
    exact noPanic_ok _
  · refine noPanic_failIf_bind fun h => ?_
    rw [getUint16_of_le (by omega)]
    refine noPanic_failIf_bind fun h' => ?_
    rw [sliceAt_of_le (by omega)]
    exact noPanic_ok _
  · exact noPanic_plain _

lemma noPanic_decodeUrkelProof (s : Bytes) : NoPanic (decodeUrkelProof s) := by
  refine noPanic_failIf_bind fun h => ?_
  rw [getUint16_of_le (by omega)]
  refine noPanic_failIf_bind fun _ => ?_
  rw [getUint16_of_le (by rw [length_drop]; omega)]
  refine noPanic_failIf_bind fun _ => noPanic_failIf_bind fun h' => ?_
  rw [sliceAt_of_le (by omega)]
  simp only [ok_bind]
  refine bind (noPanic_readUrkelProofNodes _ _ _ _ ?_) fun a _ => ?_
  · rw [length_take]
    omega
  · exact bind (noPanic_readTail _ _) fun _ _ =>
      noPanic_failIf_bind fun _ => noPanic_failIf_bind fun _ => noPanic_ok _

section

variable (blake2b : Bytes → Hash)

def leafPreimage (key valueHash : Hash) : Bytes := 0x00 :: (key.bytes ++ valueHash.bytes)

def UrkelNode.preimages : UrkelNode → List Bytes
  | .leaf key value _ => [value, leafPreimage key (blake2b value)]
  | .internal pre left right _ =>
    internalPreimage pre left.hash right.hash :: (left.preimages ++ right.preimages)

namespace UrkelProof

def nodePreimages (key : Hash) : List UrkelProofNode → ℕ → Hash → List Bytes
  | [], _, _ => []
  | node :: nodes, depth, next =>
    climbPreimage key node depth next ::
      nodePreimages key nodes (depth - 1 - node.pre.size) (climb blake2b key node depth next)

def startPreimages (p : UrkelProof) (key : Hash) : List Bytes :=
  match p.typ with
  | .short => [internalPreimage p.pre p.left p.right]
  | .collision => [leafPreimage p.key p.valueHash]
  | .existing => [p.value.getD [], leafPreimage key (blake2b (p.value.getD []))]
  | _ => []

def preimages (p : UrkelProof) (key : Hash) : List Bytes :=
  p.startPreimages blake2b key ++
    match p.startHash blake2b key with
    | .ok next => nodePreimages blake2b key p.nodes.reverse p.depth next
    | .error _ => []

end UrkelProof

def hashedStrings (tree : Option UrkelNode) (key : Hash) (serialized : Bytes) : Set Bytes :=
  { x | (∃ node, tree = some node ∧ x ∈ node.preimages blake2b) ∨
    ∃ p, decodeUrkelProof serialized = .ok p ∧ x ∈ p.preimages blake2b key }

/-- Among the given strings the hash has no collision and never gives the zero hash. -/
structure CollisionFree (S : Set Bytes) : Prop where
  injOn : Set.InjOn blake2b S
  ne_zero : ∀ x ∈ S, blake2b x ≠ Hash.zero

end

/-! ## Telling preimages apart -/

lemma Hash.append_inj {c d : Hash} (h : a.bytes ++ b.bytes = c.bytes ++ d.bytes) :
    a = c ∧ b = d := by
  obtain ⟨h1, h2⟩ := List.append_inj h (by simp)
  exact ⟨Hash.ext h1, Hash.ext h2⟩

lemma leafPreimage_inj {v v' : Hash} (h : leafPreimage k v = leafPreimage k' v') :
    k = k' ∧ v = v' := by
  exact Hash.append_inj (List.cons.inj h).2

lemma leafPreimage_ne_internalPreimage (k v : Hash) (pre : UrkelBits) (l r : Hash) :
    leafPreimage k v ≠ internalPreimage pre l r := by
  unfold leafPreimage internalPreimage
  split_ifs <;> simp

lemma toList_congr {a b : UrkelBits} (hsize : a.size = b.size)
    (hdata : a.data.bytes.take a.byteSize = b.data.bytes.take a.byteSize) :
    a.toList = b.toList := by
  unfold toList
  apply ext_getElem
  · simp [hsize]
  · intro i h1 h2
    simp only [length_take] at h1
    have hi : i < 8 * a.byteSize := by
      unfold byteSize
      omega
    have hbit := congrArg (fun s => ByteBits.bit s i) hdata
    simp only [ByteBits.bit_take hi] at hbit
    rw [getElem_take, getElem_take, ← getD_eq_getElem _ false,
      ← getD_eq_getElem _ false, Hash.getD_bits, Hash.getD_bits]
    exact hbit

lemma internalPreimage_inj {a b : UrkelBits} (ha : a.size ≤ 256)
    (hb : b.size ≤ 256) (h : internalPreimage a l r = internalPreimage b l' r') :
    a.toList = b.toList ∧ l = l' ∧ r = r' := by
  unfold internalPreimage at h
  split_ifs at h with h1 h2 h2
  · refine ⟨by simp [toList, h1, h2], ?_⟩
    exact Hash.append_inj (List.cons.inj h).2
  · simp at h
  · simp at h
  · have h' := (List.cons.inj h).2
    simp only [append_assoc] at h'
    obtain ⟨hle, h'⟩ := append_inj h' (by simp)
    have hsize : a.size = b.size := by
      have := congrArg leNat hle
      rwa [leNat_leBytes_of_lt (by omega), leNat_leBytes_of_lt (by omega)] at this
    have hbyte : a.byteSize = b.byteSize := by simp [byteSize, hsize]
    obtain ⟨hdata, h'⟩ := append_inj h' (by simp [hbyte])
    rw [← hbyte] at hdata
    exact ⟨toList_congr hsize hdata, Hash.append_inj h'⟩

section

variable {key : Hash}

def TrieIn (blake2b : Bytes → Hash) (S : Set Bytes) (u : Trie Bytes) : Prop :=
  ∀ x ∈ (ofTrie blake2b u).preimages blake2b, x ∈ S

section

variable (h : TrieIn blake2b S (.node pre l r))
include h

lemma TrieIn.child : ∀ b, TrieIn blake2b S (.child b l r)
  | false => fun x hx => h x (mem_cons_of_mem _ (mem_append_left _ hx))
  | true => fun x hx => h x (mem_cons_of_mem _ (mem_append_right _ hx))

lemma TrieIn.top : internalPreimage (ofList pre) (trieHash blake2b l) (trieHash blake2b r) ∈ S :=
  h _ (by simp [ofTrie, preimages, trieHash])

end

lemma TrieIn.leaf (h : TrieIn blake2b S (.leaf k v)) :
    v ∈ S ∧ leafPreimage (Hash.ofBits k) (blake2b v) ∈ S :=
  ⟨h _ (by simp [ofTrie, newUrkelLeaf, preimages]), h _ (by simp [ofTrie, newUrkelLeaf, preimages])⟩

lemma TrieIn.trieHash_ne_zero (h : TrieIn blake2b S u) (hS : CollisionFree blake2b S) :
    trieHash blake2b u ≠ Hash.zero := by
  cases u with
  | leaf k v => exact hS.ne_zero _ h.leaf.2
  | node pre l r => exact hS.ne_zero _ h.top

lemma node_of_trieHash {pre : UrkelBits} (hS : CollisionFree blake2b S) (hu : TrieIn blake2b S u)
    (hf : u.Fits 256 p) (hsize : pre.size ≤ 256) (hmem : internalPreimage pre left right ∈ S)
    (h : trieHash blake2b u = blake2b (internalPreimage pre left right)) :
    ∃ l r, u = .node pre.toList l r ∧ trieHash blake2b l = left ∧ trieHash blake2b r = right := by
  cases u with
  | leaf k v =>
    exact absurd (hS.injOn hu.leaf.2 hmem h) (leafPreimage_ne_internalPreimage _ _ _ _ _)
  | node pre' l r =>
    have hlen := Trie.length_node_lt hf
    obtain ⟨hpre, hl, hr⟩ := internalPreimage_inj (by simp only [ofList]; omega) hsize
      (hS.injOn hu.top hmem h)
    rw [toList_ofList (by omega)] at hpre
    exact ⟨l, r, by rw [hpre], hl, hr⟩

lemma leaf_of_trieHash (hS : CollisionFree blake2b S)
    (hu : TrieIn blake2b S u) (hf : u.Fits 256 p) (hmem : leafPreimage k valueHash ∈ S)
    (h : trieHash blake2b u = blake2b (leafPreimage k valueHash)) :
    ∃ v, u = .leaf k.bits v ∧ v ∈ S ∧ blake2b v = valueHash := by
  cases u with
  | leaf k' v =>
    obtain ⟨hk, hv⟩ := leafPreimage_inj (hS.injOn hu.leaf.2 hmem h)
    exact ⟨v, by rw [← hk, Hash.bits_ofBits hf.1], hu.leaf.1, hv⟩
  | node pre l r =>
    exact absurd (hS.injOn hu.top hmem h).symm (leafPreimage_ne_internalPreimage _ _ _ _ _)

namespace UrkelProof

lemma verifyNodes_le : ∀ {nodes} {depth d} {next h},
    depth ≤ 256 → (∀ node ∈ nodes, node.pre.size ≤ 256) →
    verifyNodes blake2b key nodes depth next = .ok (d, h) → d ≤ depth
  | [], depth, d, next, h, _, _, hv => by
    cases hv
    exact le_rfl
  | node :: nodes, depth, d, next, h, hdepth, hsize, hv => by
    rw [verifyNodes_cons blake2b _ (hsize node mem_cons_self) hdepth] at hv
    split_ifs at hv
    have := verifyNodes_le (by omega) (fun n hn => hsize n (mem_cons_of_mem _ hn)) hv
    omega

lemma nodePreimages_append (nodes' : List UrkelProofNode) :
    ∀ {nodes} {depth d} {next h}, depth ≤ 256 → (∀ node ∈ nodes, node.pre.size ≤ 256) →
      verifyNodes blake2b key nodes depth next = .ok (d, h) →
      nodePreimages blake2b key (nodes ++ nodes') depth next =
        nodePreimages blake2b key nodes depth next ++ nodePreimages blake2b key nodes' d h
  | [], depth, d, next, h, _, _, hv => by
    cases hv
    rfl
  | node :: nodes, depth, d, next, h, hdepth, hsize, hv => by
    rw [verifyNodes_cons blake2b _ (hsize node mem_cons_self) hdepth] at hv
    split_ifs at hv
    simp only [cons_append, nodePreimages]
    rw [nodePreimages_append nodes' (by omega) (fun n hn => hsize n (mem_cons_of_mem _ hn)) hv]

/-- Where a verified path leads: from a trie with the final hash, down to a trie with the hash at
the path's end, past nothing that could hold the key elsewhere. -/
theorem verifyNodes_sound (hS : CollisionFree blake2b S) :
    ∀ {nodes : List UrkelProofNode} {depth d : ℕ} {start next : Hash} {u : Trie Bytes},
      depth ≤ 256 → (∀ node ∈ nodes, node.pre.size ≤ 256) →
      verifyNodes blake2b key nodes.reverse depth start = .ok (d, next) →
      (∀ x ∈ nodePreimages blake2b key nodes.reverse depth start, x ∈ S) →
      TrieIn blake2b S u → u.Fits 256 (key.bits.take d) → trieHash blake2b u = next →
      ∃ w, TrieIn blake2b S w ∧ w.Fits 256 (key.bits.take depth) ∧ trieHash blake2b w = start ∧
        ∀ v, u.Mem key.bits v ↔ w.Mem key.bits v
  | [], depth, d, start, next, u, _, _, hv, _, hu, hf, hhash => by
    cases hv
    exact ⟨u, hu, hf, hhash, fun _ => Iff.rfl⟩
  | node :: nodes, depth, d, start, next, u, hdepth, hsize, hv, hpre, hu, hf, hhash => by
    have hrest : ∀ n ∈ nodes, n.pre.size ≤ 256 := fun n hn => hsize n (mem_cons_of_mem _ hn)
    have hrev : ∀ n ∈ nodes.reverse, n.pre.size ≤ 256 := fun n hn => hrest n (mem_reverse.1 hn)
    have hnode := hsize node mem_cons_self
    rw [reverse_cons] at hv hpre
    rw [verifyNodes_append blake2b key _ _ _ hdepth hrev, bind_eq_ok] at hv
    obtain ⟨⟨d1, next1⟩, hv1, hv⟩ := hv
    rw [nodePreimages_append [node] hdepth hrev hv1] at hpre
    have hd1 := verifyNodes_le hdepth hrev hv1
    rw [verifyNodes_cons blake2b _ hnode (by omega)] at hv
    split_ifs at hv with hunder hhas
    cases hv
    -- the node of the proof is the node of the tree, and the key goes down the same side
    have hlen1 : node.pre.toList.length = node.pre.size := length_toList hnode
    obtain ⟨l, r, rfl, hl, hr⟩ := node_of_trieHash hS hu hf hnode
      (hpre _ (by simp [nodePreimages, climbPreimage])) hhash
    set d := d1 - 1 - node.pre.size with hd
    have hplen : (key.bits.take d).length = d := by
      rw [length_take, Hash.length_bits]
      omega
    have hmatch : matchLen node.pre.toList (key.bits.drop (key.bits.take d).length) =
        node.pre.toList.length := by
      rw [hplen]
      exact matchLen_eq_length_iff.2 hhas
    have hfront : key.bits.take d <+: key.bits := take_prefix d key.bits
    have hpath := prefix_next hfront hmatch (by rw [Hash.length_bits]; omega)
    rw [hplen, hlen1, show d + node.pre.size = d1 - 1 by omega] at hpath
    have htake : key.bits.take d ++ node.pre.toList ++ [key.bits.getD (d1 - 1) false] =
        key.bits.take d1 := by
      rw [prefix_iff_eq_take.1 hpath]
      congr 1
      simp only [length_append, length_cons, length_nil]
      omega
    generalize key.bits.getD (d1 - 1) false = b at htake hl hr hpath
    have hchild : trieHash blake2b (.child b l r) = next1 := by
      cases b
      · exact hl
      · exact hr
    obtain ⟨w, hw, hwf, hwh, hmem⟩ := verifyNodes_sound hS hdepth hrest hv1
      (fun x hx => hpre x (by simp [hx])) (hu.child b) (htake ▸ hf.child b) hchild
    exact ⟨w, hw, hwf, hwh, fun v => (Trie.mem_node_iff hf hpath v).trans (hmem v)⟩

lemma verifyNodes_hash : ∀ {nodes} {depth d} {start next},
    depth ≤ 256 → (∀ node ∈ nodes, node.pre.size ≤ 256) →
    verifyNodes blake2b key nodes depth start = .ok (d, next) →
    next = start ∨ ∃ x ∈ nodePreimages blake2b key nodes depth start, next = blake2b x
  | [], depth, d, start, next, _, _, hv => by
    cases hv
    exact .inl rfl
  | node :: nodes, depth, d, start, next, hdepth, hsize, hv => by
    rw [verifyNodes_cons blake2b _ (hsize node mem_cons_self) hdepth] at hv
    split_ifs at hv
    right
    rcases verifyNodes_hash (by omega) (fun n hn => hsize n (mem_cons_of_mem _ hn)) hv with
      rfl | ⟨x, hx, rfl⟩
    · exact ⟨_, by simp [nodePreimages], rfl⟩
    · exact ⟨x, by simp [nodePreimages, hx], rfl⟩

variable {p : UrkelProof}

lemma isSane_spec (h : p.isSane = true) : p.depth ≤ 256 ∧ (∀ node ∈ p.nodes, node.pre.size ≤ 256) ∧
      (p.typ = .short → p.pre.size ≤ 256) := by
  unfold isSane urkelKeyBits at h
  simp only [Bool.and_eq_true, decide_eq_true_eq, all_eq_true] at h
  refine ⟨h.1.1.1, h.1.2, fun htyp => ?_⟩
  rw [htyp] at h
  simp only [Bool.and_eq_true, decide_eq_true_eq] at h
  exact h.2.2

lemma verify_eq_ok (h : p.verify blake2b root key = .ok r) :
    p.isSane = true ∧ ∃ start, p.startHash blake2b key = .ok start ∧
      verifyNodes blake2b key p.nodes.reverse p.depth start = .ok (0, root) ∧
      r = if p.typ = .existing then (appendNil (p.value.getD []), true) else (none, false) := by
  unfold verify at h
  simp only [bind_eq_ok, exists_failIf_ok, Bool.not_eq_true', Bool.not_eq_false, not_not] at h
  obtain ⟨hsane, start, hstart, ⟨d, next⟩, hv, hd, hroot, h⟩ := h
  subst hd
  subst hroot
  refine ⟨hsane, start, hstart, hv, ?_⟩
  by_cases htyp : p.typ = .existing
  · rw [if_neg (not_not.2 htyp)] at h
    rw [if_pos htyp, ← ok.inj h]
  · rw [if_pos htyp] at h
    rw [if_neg htyp, ← ok.inj h]

lemma verify_zero (hS : CollisionFree blake2b S) (hp : ∀ x ∈ p.preimages blake2b key, x ∈ S)
    (h : p.verify blake2b Hash.zero key = .ok r) : r = (none, false) := by
  obtain ⟨hsane, start, hstart, hv, rfl⟩ := verify_eq_ok h
  obtain ⟨hdepth, hnodes, hpre⟩ := isSane_spec hsane
  simp only [preimages, hstart, mem_append] at hp
  have hstart0 : start = Hash.zero := by
    rcases verifyNodes_hash hdepth (fun n hn => hnodes n (mem_reverse.1 hn)) hv with
      heq | ⟨x, hx, heq⟩
    · exact heq.symm
    · exact absurd heq.symm (hS.ne_zero x (hp x (.inr hx)))
  rw [if_neg]
  intro htyp
  simp only [startHash, htyp, ok.injEq] at hstart
  refine hS.ne_zero _ (hp (leafPreimage key (blake2b (p.value.getD []))) (.inl ?_))
    (hstart.trans hstart0)
  simp [startPreimages, htyp]

lemma verify_sound (hS : CollisionFree blake2b S)
    (hp : ∀ x ∈ p.preimages blake2b key, x ∈ S) (hu : TrieIn blake2b S u) (hf : u.Fits 256 [])
    (h : p.verify blake2b (trieHash blake2b u) key = .ok r) :
    (∃ v, p.value = some v ∧ r = (appendNil v, true) ∧ u.Mem key.bits v) ∨
      r = (none, false) ∧ ∀ v, ¬ u.Mem key.bits v := by
  obtain ⟨hsane, start, hstart, hv, rfl⟩ := verify_eq_ok h
  obtain ⟨hdepth, hnodes, hpre⟩ := isSane_spec hsane
  simp only [preimages, hstart, mem_append] at hp
  obtain ⟨w, hw, hwf, hwh, hmem⟩ := verifyNodes_sound hS hdepth hnodes hv
    (fun x hx => hp x (.inr hx)) hu (by simpa using hf) rfl
  simp only [hmem]
  cases htyp : p.typ with
  | deadend =>
    simp only [startHash, htyp, ok.injEq] at hstart
    exact absurd (hwh.trans hstart.symm) (hw.trieHash_ne_zero hS)
  | short =>
    refine .inr ⟨by simp, fun v hv => ?_⟩
    have hsize := hpre htyp
    simp only [startHash, htyp, has_ok hsize, ok_bind, hashUrkelInternal_ok blake2b hsize,
      bind_eq_ok, failIf_eq_ok, decide_eq_true_eq, exists_const,
      ok.injEq] at hstart
    obtain ⟨l, r, rfl, -, -⟩ := node_of_trieHash hS hw hwf hsize
      (hp _ (.inl (by simp [startPreimages, htyp]))) (hwh.trans hstart.2.symm)
    have hlen : (key.bits.take p.depth).length = p.depth := by
      rw [length_take, Hash.length_bits]
      omega
    have hfront : key.bits.take p.depth <+: key.bits := take_prefix _ _
    refine Trie.not_mem_of_matchLen_ne hwf hfront ?_ v hv
    rw [hlen, Ne, matchLen_eq_length_iff]
    exact hstart.1
  | collision =>
    refine .inr ⟨by simp, fun v hv => ?_⟩
    simp only [startHash, htyp, bind_eq_ok, exists_failIf_ok] at hstart
    obtain ⟨v', rfl, -, -⟩ := leaf_of_trieHash hS hw hwf
      (hp _ (.inl (by simp [startPreimages, htyp]))) (hwh.trans (ok.inj hstart.2).symm)
    exact hstart.1 (Hash.bits_inj hv.1).symm
  | existing =>
    simp only [startHash, htyp, ok.injEq] at hstart
    have hvalue : ∃ value, p.value = some value := by
      cases hval : p.value with
      | none => simp [isSane, htyp, hval] at hsane
      | some value => exact ⟨value, rfl⟩
    obtain ⟨value, hval⟩ := hvalue
    simp only [startPreimages, htyp, hval] at hp hstart
    obtain ⟨v, rfl, hvS, hvh⟩ := leaf_of_trieHash hS hw hwf (hp _ (.inl (by simp)))
      (hwh.trans hstart.symm)
    obtain rfl := hS.injOn hvS (hp value (.inl (by simp))) hvh
    exact .inl ⟨v, hval, by simp [hval], rfl, rfl⟩
  | unknown => simp [isSane, htyp] at hsane

end UrkelProof

lemma UrkelProof.noPanic_verifyNodes : ∀ {nodes} {depth} {next},
    depth ≤ 256 → (∀ node ∈ nodes, node.pre.size ≤ 256) →
    NoPanic (verifyNodes blake2b key nodes depth next)
  | [], _, _, _, _ => noPanic_ok _
  | node :: nodes, depth, next, hdepth, hsize => by
    rw [verifyNodes_cons blake2b _ (hsize node mem_cons_self) hdepth]
    split_ifs
    · exact noPanic_plain _
    · exact noPanic_verifyNodes (by omega) fun n hn => hsize n (mem_cons_of_mem _ hn)
    · exact noPanic_plain _

lemma UrkelProof.noPanic_verify {p : UrkelProof} (root : Hash) :
    NoPanic (p.verify blake2b root key) := by
  refine noPanic_failIf_bind fun hsane => ?_
  obtain ⟨hdepth, hnodes, hpre⟩ := isSane_spec (by simpa using hsane)
  refine bind ?_ fun start _ => bind ?_ fun r _ =>
    noPanic_failIf_bind fun _ => noPanic_failIf_bind fun _ => ?_
  · unfold startHash
    split
    · exact noPanic_ok _
    · rename_i htyp
      rw [has_ok (hpre htyp), hashUrkelInternal_ok blake2b (hpre htyp)]
      exact noPanic_failIf_bind fun _ => noPanic_ok _
    · exact noPanic_failIf_bind fun _ => noPanic_ok _
    · exact noPanic_ok _
    · exact noPanic_plain _
  · have hrev : ∀ n ∈ p.nodes.reverse, n.pre.size ≤ 256 := fun n hn =>
      hnodes n (mem_reverse.1 hn)
    exact noPanic_verifyNodes hdepth hrev
  · split_ifs <;> exact noPanic_ok _

lemma appendNil_ne_nil (h : appendNil s = some v) : v ≠ [] := by
  unfold appendNil at h
  split_ifs at h with hs
  cases h
  exact hs

lemma UrkelProof.readTail_value {p : UrkelProof} (hp : p.value = none)
    (h : p.readTail s = .ok (q, s')) (hv : q.value = some v) : v ≠ [] := by
  unfold readTail at h
  split at h
  · cases h
    rw [hp] at hv
    cases hv
  · simp only [bind_eq_ok, exists_failIf_ok] at h
    obtain ⟨_, -, -, -, _, -, _, -, rfl, -⟩ := h
    rw [hp] at hv
    cases hv
  · simp only [bind_eq_ok, exists_failIf_ok] at h
    obtain ⟨-, _, -, _, -, rfl, -⟩ := h
    rw [hp] at hv
    cases hv
  · simp only [bind_eq_ok, exists_failIf_ok] at h
    obtain ⟨-, _, -, -, _, -, rfl, -⟩ := h
    exact appendNil_ne_nil hv
  · cases h

lemma decodeUrkelProof_value {s : Bytes} {p : UrkelProof} (h : decodeUrkelProof s = .ok p)
    (hv : p.value = some v) : v ≠ [] := by
  unfold decodeUrkelProof at h
  simp only [bind_eq_ok, exists_failIf_ok] at h
  obtain ⟨-, _, -, -, _, -, -, -, _, -, _, -, ⟨q, s'⟩, htail, -, -, hq⟩ := h
  obtain rfl : q = p := ok.inj hq
  exact UrkelProof.readTail_value rfl htail hv

end

/-- Verification of any bytes against the root of a map's tree never panics. When the hash has no
collision and no zero among the strings that are hashed, a value that is returned is the map's
value for the key, and a proof of exclusion is accepted only for a key that the map lacks. -/
theorem verifyUrkelProof_sound (blake2b : Bytes → Hash) {m : GoMap Hash Bytes}
    {leaves : List UrkelLeaf} (h : LeavesOf m leaves) {tree : Option UrkelNode} {root : Hash}
    (htree : buildUrkelTree blake2b leaves = .ok tree)
    (hroot : calcUrkelRoot blake2b leaves = .ok root) (key : Hash) (serialized : Bytes) :
    NoPanic (verifyUrkelProof blake2b root key serialized) ∧
    (CollisionFree blake2b (hashedStrings blake2b tree key serialized) →
      (∀ v, verifyUrkelProof blake2b root key serialized = .ok (v, true) →
        ∃ value, v = some value ∧ m.lookup key = some value) ∧
      ∀ v, verifyUrkelProof blake2b root key serialized = .ok (v, false) →
        v = none ∧ m.lookup key = none) := by
  constructor
  · exact bind (noPanic_decodeUrkelProof serialized) fun p _ => p.noPanic_verify root
  intro hS
  obtain ⟨t, ht, htree'⟩ := buildUrkelTree_ok blake2b h
  obtain rfl : t.map (ofTrie blake2b) = tree :=
    ok.inj (htree'.symm.trans htree)
  obtain rfl : rootOf blake2b t = root :=
    ok.inj ((calcUrkelRoot_ok blake2b h ht).symm.trans hroot)
  -- both kinds of answer come from one case analysis
  have key_fact : ∀ r, verifyUrkelProof blake2b (rootOf blake2b t) key serialized = .ok r →
      (∃ value, r = (some value, true) ∧ m.lookup key = some value) ∨
        r = (none, false) ∧ m.lookup key = none := by
    intro r hr
    rw [verifyUrkelProof, bind_eq_ok] at hr
    obtain ⟨p, hdec, hr⟩ := hr
    have hp : ∀ x ∈ p.preimages blake2b key,
        x ∈ hashedStrings blake2b (t.map (ofTrie blake2b)) key serialized :=
      fun x hx => .inr ⟨p, hdec, hx⟩
    cases t with
    | none =>
      refine .inr ⟨UrkelProof.verify_zero hS hp hr, ?_⟩
      by_contra hne
      obtain ⟨v, hv⟩ := Option.ne_none_iff_exists'.1 hne
      simpa using (ht.mem_iff key v).2 hv
    | some u =>
      have hu : TrieIn blake2b (hashedStrings blake2b (some (ofTrie blake2b u)) key
          serialized) u := fun x hx => .inl ⟨_, rfl, hx⟩
      have hmem := ht.mem_iff key
      simp only [Option.some.injEq, exists_eq_left'] at hmem
      rcases UrkelProof.verify_sound hS hp hu (ht.fits u rfl) hr with
        ⟨v, hval, rfl, hv⟩ | ⟨rfl, hno⟩
      · refine .inl ⟨v, ?_, (hmem v).1 hv⟩
        rw [appendNil, if_neg (decodeUrkelProof_value hdec hval)]
      · refine .inr ⟨rfl, ?_⟩
        by_contra hne
        obtain ⟨v, hv⟩ := Option.ne_none_iff_exists'.1 hne
        exact hno v ((hmem v).2 hv)
  constructor
  · intro v hv
    rcases key_fact _ hv with ⟨value, heq, hl⟩ | ⟨heq, -⟩
    · exact ⟨value, (Prod.mk.inj heq).1, hl⟩
    · simp at heq
  · intro v hv
    rcases key_fact _ hv with ⟨value, heq, -⟩ | ⟨heq, hl⟩
    · simp at heq
    · exact ⟨(Prod.mk.inj heq).1, hl⟩

lemma collisionFree_hashedStrings (hdec : decodeUrkelProof serialized = .ok p)
    (hnodup : ((node.preimages blake2b).map blake2b).Nodup)
    (hzero : Hash.zero ∉ (node.preimages blake2b).map blake2b)
    (hsub : ∀ x ∈ p.preimages blake2b key, x ∈ node.preimages blake2b) :
    CollisionFree blake2b (hashedStrings blake2b (some node) key serialized) := by
  have hmem : ∀ x ∈ hashedStrings blake2b (some node) key serialized,
      x ∈ node.preimages blake2b := by
    rintro x (⟨node', hnode, hx⟩ | ⟨p', hp, hx⟩)
    · cases hnode
      exact hx
    · rw [hdec] at hp
      cases hp
      exact hsub x hx
  exact ⟨fun x hx y hy => inj_on_of_nodup_map hnodup (hmem x hx) (hmem y hy),
    fun x hx heq => hzero (heq ▸ mem_map_of_mem (hmem x hx))⟩

/-- Two leaves behind a prefix, and one on the other side of the root. -/
def threeLeaves : List UrkelLeaf :=
  [⟨Hash.zero, [7]⟩, ⟨Hash.ofBytes [0x20], [8]⟩, ⟨Hash.ofBytes [0x80], [9]⟩]

/-- Keys whose proofs hold a value, end in the prefix and end in another leaf. -/
def provenKeys : List Hash := [Hash.zero, Hash.ofBytes [0x40], Hash.ofBytes [0xc0]]

def proofBytes (tree : Option UrkelNode) (key : Hash) : Result Bytes := do
  let proof ← proveUrkel blake2bSum256 tree key
  proof.encode

theorem verifyUrkelProof_sound_threeLeaves : ∃ tree root,
    buildUrkelTree blake2bSum256 threeLeaves = .ok tree ∧
    calcUrkelRoot blake2bSum256 threeLeaves = .ok root ∧
    ∀ key ∈ provenKeys, ∃ serialized r, proofBytes tree key = .ok serialized ∧
      verifyUrkelProof blake2bSum256 root key serialized = .ok r ∧
      (putLeaves ∅ threeLeaves).lookup key = r.1 := by
  have hall : (buildUrkelTree blake2bSum256 threeLeaves).toOption.any (fun tree =>
      (calcUrkelRoot blake2bSum256 threeLeaves).toOption.any fun root => tree.any fun node =>
        ((node.preimages blake2bSum256).map blake2bSum256).Nodup ∧
        Hash.zero ∉ (node.preimages blake2bSum256).map blake2bSum256 ∧
        ∀ key ∈ provenKeys, (proofBytes tree key).toOption.any (fun serialized =>
          (verifyUrkelProof blake2bSum256 root key serialized).toOption.any fun _ =>
            (decodeUrkelProof serialized).toOption.any fun p =>
              ∀ x ∈ p.preimages blake2bSum256 key, x ∈ node.preimages blake2bSum256) = true) =
        true := by
    decide +kernel
  obtain ⟨tree, htree, hall⟩ := exists_ok_of_any hall
  obtain ⟨root, hroot, hall⟩ := exists_ok_of_any hall
  obtain ⟨node, rfl, hall⟩ := (Option.any_eq_true ..).1 hall
  refine ⟨_, root, htree, hroot, fun key hkey => ?_⟩
  obtain ⟨hnodup, hzero, hall⟩ := of_decide_eq_true hall
  obtain ⟨serialized, hser, hproof⟩ := exists_ok_of_any (hall key hkey)
  obtain ⟨⟨v, found⟩, hverify, hproof⟩ := exists_ok_of_any hproof
  obtain ⟨p, hdec, hsub⟩ := exists_ok_of_any hproof
  have hsound := (verifyUrkelProof_sound blake2bSum256 (leavesOf_putLeaves threeLeaves (by decide))
    htree hroot key serialized).2
    (collisionFree_hashedStrings hdec hnodup hzero (of_decide_eq_true hsub))
  refine ⟨serialized, _, hser, hverify, ?_⟩
  cases found with
  | true =>
    obtain ⟨value, rfl, hl⟩ := hsound.1 v hverify
    exact hl
  | false =>
    obtain ⟨rfl, hl⟩ := hsound.2 v hverify
    exact hl

end HandshakeNode
