import HandshakeNode.Proofs.UrkelCodec
import HandshakeNode.Proofs.UrkelTree

/-!
# Every proof that is made verifies

The verifier goes up the path that the prover came down, one node at a time (`verifyNodes_cons`),
and each step gives back the hash and the depth of the node that the prover passed.
-/

namespace HandshakeNode

open BitTrie List UrkelBits

namespace UrkelProof

section

variable (blake2b : Bytes → Hash)

def climbPreimage (key : Hash) (node : UrkelProofNode) (depth : ℕ) (next : Hash) : Bytes :=
  let bit := key.bits.getD (depth - 1) false
  internalPreimage node.pre (if bit then node.node else next) (if bit then next else node.node)

def climb (key : Hash) (node : UrkelProofNode) (depth : ℕ) (next : Hash) : Hash :=
  blake2b (climbPreimage key node depth next)

lemma verifyNodes_cons {key next : Hash} {depth : ℕ}
    (nodes : List UrkelProofNode) (hsize : node.pre.size ≤ 256) (hdepth : depth ≤ 256) :
    verifyNodes blake2b key (node :: nodes) depth next =
      if depth < node.pre.size + 1 then .error (.plain "urkel proof depth underflow")
      else if node.pre.toList <+: key.bits.drop (depth - 1 - node.pre.size) then
        verifyNodes blake2b key nodes (depth - 1 - node.pre.size)
          (climb blake2b key node depth next)
      else .error (.plain "urkel proof path mismatch") := by
  rw [verifyNodes]
  by_cases hlt : depth < node.pre.size + 1
  · rw [if_pos hlt, failIf, if_pos hlt]
    rfl
  · have hhas := urkelHasBit_hash key (show depth - 1 < 256 by omega)
    rw [if_neg hlt, failIf_of_not hlt]
    simp only [hhas, ok_bind, hashUrkelInternal_ok blake2b hsize, has_ok hsize]
    by_cases hpre : node.pre.toList <+: key.bits.drop (depth - 1 - node.pre.size)
    · rw [if_pos hpre, failIf_of_not (by simp [hpre])]
      rfl
    · rw [if_neg hpre, failIf, if_pos (by simp [hpre])]
      rfl

lemma verifyNodes_append (key : Hash) (nodes' : List UrkelProofNode) :
    ∀ nodes {depth : ℕ} (next : Hash), depth ≤ 256 → (∀ node ∈ nodes, node.pre.size ≤ 256) →
      verifyNodes blake2b key (nodes ++ nodes') depth next =
        verifyNodes blake2b key nodes depth next >>= fun r =>
          verifyNodes blake2b key nodes' r.1 r.2
  | [], _, _, _, _ => rfl
  | node :: nodes, depth, next, hdepth, hsize => by
    have hnode := hsize node mem_cons_self
    rw [cons_append, verifyNodes_cons blake2b _ hnode hdepth,
      verifyNodes_cons blake2b _ hnode hdepth]
    split_ifs
    · rfl
    · exact verifyNodes_append key nodes' nodes _ (by omega)
        fun n hn => hsize n (mem_cons_of_mem _ hn)
    · rfl

end

section

variable (blake2b : Bytes → Hash)

/-- What `proveUrkel` returns from a trie under the path `p` down: a canonical proof whose nodes
lead from its end back up to the trie's hash, and which says whether the trie holds the key. -/
structure Proves (key : Hash) (t : Trie Bytes) (p : List Bool) (q : UrkelProof) : Prop where
  canonical : q.Canonical
  depth_le : q.depth ≤ 256
  nodes_le : p.length + q.nodes.length ≤ q.depth
  packed : ∀ node ∈ q.nodes, node.Packed
  verifies : ∃ next, q.startHash blake2b key = .ok next ∧
    verifyNodes blake2b key q.nodes.reverse q.depth next = .ok (p.length, trieHash blake2b t)
  included : ∀ v, t.Mem key.bits v → q.typ = .existing ∧ q.value = some v
  excluded : (∀ v, ¬ t.Mem key.bits v) → q.typ ≠ .existing

variable {blake2b}

lemma Proves.cons {key : Hash} {u : Trie Bytes} {p pre : List Bool}
    (h : Proves blake2b key t (p ++ pre ++ [b]) q) (sibling : Hash) (hpath : p ++ pre ++ [b] <+: key.bits)
    (hhash : climb blake2b key ⟨ofList pre, sibling⟩ (p.length + pre.length + 1)
      (trieHash blake2b t) = trieHash blake2b u)
    (hmem : ∀ v, u.Mem key.bits v ↔ t.Mem key.bits v) :
    Proves blake2b key u p { q with nodes := ⟨ofList pre, sibling⟩ :: q.nodes } := by
  have hlen : (p ++ pre ++ [b]).length = p.length + pre.length + 1 := by simp [add_assoc]
  have hle : p.length + pre.length + 1 ≤ 256 := by
    have := hpath.length_le
    rwa [hlen, Hash.length_bits] at this
  have hpre : pre <+: key.bits.drop p.length := by
    obtain ⟨s, hs⟩ := hpath
    rw [← hs, append_assoc, append_assoc, drop_left]
    exact prefix_append _ _
  refine ⟨?_, h.depth_le, ?_, ?_, ?_, ?_, ?_⟩
  · cases h.canonical with
    | deadend => exact .deadend
    | short ne len => exact .short ne len
    | collision => exact .collision
    | existing ne len => exact .existing ne len
  · have := h.nodes_le
    simp only [length_cons]
    omega
  · intro node hnode
    rcases mem_cons.1 hnode with rfl | hnode
    · exact ⟨pre, by omega, rfl⟩
    · exact h.packed node hnode
  · obtain ⟨next, hstart, hverify⟩ := h.verifies
    refine ⟨next, hstart, ?_⟩
    rw [reverse_cons, verifyNodes_append _ _ _ _ _ h.depth_le
      (fun node hnode => (h.packed node (mem_reverse.1 hnode)).size_le), hverify]
    simp only [ok_bind]
    rw [hlen, verifyNodes_cons _ _ (by simp only [ofList]; omega) hle]
    simp only [toList_ofList (show pre.length ≤ 256 by omega),
      show (ofList pre).size = pre.length from rfl, hhash]
    rw [if_neg (by omega), show p.length + pre.length + 1 - 1 - pre.length = p.length by omega,
      if_pos hpre]
    rfl
  · exact fun v hv => h.included v ((hmem v).1 hv)
  · exact fun hno => h.excluded fun v hv => hno v ((hmem v).2 hv)

lemma proveUrkelFrom_ok (blake2b : Bytes → Hash) (key : Hash) {t : Trie Bytes}
    (nodes : List UrkelProofNode) (hf : t.Fits 256 p) (hp : p <+: key.bits)
    (hv : ∀ k v, t.Mem k v → v ≠ [] ∧ v.length ≤ maxUrkelProofValue) :
    ∃ q, proveUrkelFrom blake2b key (UrkelNode.ofTrie blake2b t) p.length nodes =
        .ok { q with nodes := nodes ++ q.nodes } ∧ Proves blake2b key t p q := by
  induction t using Trie.child_induction generalizing p nodes with
  | leaf k v =>
    obtain ⟨hne, hlen⟩ := hv k v ⟨rfl, rfl⟩
    have hplen := Trie.length_of_fits hf
    rw [UrkelNode.ofTrie, newUrkelLeaf, proveUrkelFrom]
    by_cases heq : Hash.ofBits k = key
    · subst heq
      let q : UrkelProof := { typ := .existing, depth := p.length, value := some v }
      refine ⟨q, ?_, .existing hne hlen, hplen, le_rfl, by simp [q], ⟨_, rfl, rfl⟩, ?_, ?_⟩
      · simp [appendNil, hne, q]
      · rintro v' ⟨-, rfl⟩
        exact ⟨rfl, rfl⟩
      · exact fun hno => absurd ⟨Hash.bits_ofBits hf.1, rfl⟩ (hno v)
    · let q : UrkelProof :=
        { typ := .collision, depth := p.length, key := Hash.ofBits k, valueHash := blake2b v }
      refine ⟨q, ?_, .collision, hplen, le_rfl, by simp [q],
        ⟨trieHash blake2b (.leaf k v), ?_, rfl⟩, ?_, by simp⟩
      · rw [if_neg heq]
        simp [q]
      · simp only [q, startHash, failIf_of_not heq]
        rfl
      · rintro v' ⟨hk, -⟩
        rw [← hk, Hash.ofBits_bits] at heq
        exact absurd rfl heq
  | node pre l r ih =>
    have hlen := Trie.length_node_lt hf
    have hplen : (ofList pre).size ≤ 256 := by
      simp only [ofList]
      omega
    rw [UrkelNode.ofTrie, proveUrkelFrom, has_ok hplen, toList_ofList (by omega)]
    by_cases hpre : pre <+: key.bits.drop p.length
    · have hbit := urkelHasBit_hash key hlen
      have hnext := prefix_next hp (matchLen_eq_length_iff.2 hpre) (by simpa using hlen)
      generalize hb : key.bits.getD (p.length + pre.length) false = b at hnext hbit
      simp only [hpre, decide_true, Bool.not_true, Bool.false_eq_true, if_false,
        show (ofList pre).size = pre.length from rfl, hbit, ok_bind]
      obtain ⟨q, hq, hproves⟩ := ih b
        (nodes ++ [⟨ofList pre, trieHash blake2b (.child (!b) l r)⟩]) (hf.child b) hnext
        fun k v hm => hv k v ((Trie.mem_node b).2 (.inl hm))
      rw [show (p ++ pre ++ [b]).length = p.length + pre.length + 1 by simp [add_assoc],
        append_assoc] at hq
      refine ⟨_, ?_, hproves.cons (trieHash blake2b (.child (!b) l r)) hnext ?_
        (Trie.mem_node_iff hf hnext)⟩
      · refine Eq.trans ?_ hq
        cases b <;> rfl
      · simp only [climb, climbPreimage, Nat.add_sub_cancel, hb]
        cases b <;> rfl
    · have hne : pre ≠ [] := fun h => hpre (h ▸ nil_prefix)
      let q : UrkelProof :=
        { typ := .short, depth := p.length, pre := ofList pre,
          left := trieHash blake2b l, right := trieHash blake2b r }
      refine ⟨q, ?_, .short hne (by omega), Trie.length_of_fits hf, le_rfl, by simp [q],
        ⟨trieHash blake2b (.node pre l r), ?_, rfl⟩, ?_, by simp⟩
      · simp [hpre, q, trieHash]
      · simp only [q, startHash, has_ok hplen, toList_ofList
          (show pre.length ≤ 256 by omega), hpre]
        exact hashUrkelInternal_ok blake2b hplen _ _
      · intro v hm
        refine absurd hm (Trie.not_mem_of_matchLen_ne hf hp ?_ v)
        rwa [Ne, matchLen_eq_length_iff]

end

end UrkelProof

/-- The proof of any key from the tree of a map with values of 1 to 65535 bytes encodes and decodes
without error and verifies against the tree's root, with the value exactly when the map has the
key. -/
theorem verifyUrkelProof_proveUrkel (blake2b : Bytes → Hash) {m : GoMap Hash Bytes}
    {leaves : List UrkelLeaf} (h : LeavesOf m leaves)
    (hvalues : ∀ k v, m.lookup k = some v → 1 ≤ v.length ∧ v.length ≤ 65535) (key : Hash) :
    ∃ tree root proof enc, buildUrkelTree blake2b leaves = .ok tree ∧
      calcUrkelRoot blake2b leaves = .ok root ∧ proveUrkel blake2b tree key = .ok proof ∧
      proof.encode = .ok enc ∧ decodeUrkelProof enc = .ok proof ∧
      verifyUrkelProof blake2b root key enc = .ok (match m.lookup key with
          | some v => (some v, true)
          | none => (none, false)) ∧
      (m = ∅ → root = Hash.zero) := by
  obtain ⟨t, ht, htree⟩ := buildUrkelTree_ok blake2b h
  have hroot := calcUrkelRoot_ok blake2b h ht
  have hzero : m = ∅ → rootOf blake2b t = Hash.zero := by
    rintro rfl
    rw [ht.unique Holds.none]
    rfl
  cases t with
  | none =>
    have hnone : m.lookup key = none := by
      by_contra hne
      obtain ⟨v, hv⟩ := Option.ne_none_iff_exists'.1 hne
      simpa using (ht.mem_iff key v).2 hv
    have hcanon : ({ typ := .deadend, depth := 0 } : UrkelProof).Canonical := .deadend
    obtain ⟨enc, henc, hdec⟩ := hcanon.decode_encode (by simp) (by simp) (by simp)
    refine ⟨_, _, _, enc, htree, hroot, rfl, henc, hdec, ?_, hzero⟩
    rw [verifyUrkelProof, hdec, hnone]
    rfl
  | some u =>
    have hmem : ∀ k v, u.Mem k v → v ≠ [] ∧ v.length ≤ maxUrkelProofValue := by
      intro k v hk
      have hlen := (Trie.of_mem (ht.fits u rfl) hk).1
      rw [← Hash.bits_ofBits hlen] at hk
      have hv := hvalues _ v ((ht.mem_iff _ v).1 ⟨u, rfl, hk⟩)
      exact ⟨ne_nil_of_length_pos hv.1, hv.2⟩
    obtain ⟨q, hq, hproves⟩ := UrkelProof.proveUrkelFrom_ok blake2b key []
      (ht.fits u rfl) nil_prefix hmem
    have hnodes := hproves.nodes_le
    have hle := hproves.depth_le
    obtain ⟨enc, henc, hdec⟩ := hproves.canonical.decode_encode hle (by omega) hproves.packed
    refine ⟨_, _, q, enc, htree, hroot, ?_, henc, hdec, ?_, hzero⟩
    · exact hq
    · obtain ⟨next, hstart, hverify⟩ := hproves.verifies
      have hsane := hproves.canonical.isSane hle (by omega) hproves.packed
      rw [verifyUrkelProof, hdec]
      simp only [ok_bind, UrkelProof.verify, hsane, hstart, hverify, rootOf]
      cases hm : m.lookup key with
      | some v =>
        obtain ⟨_, hu, hv⟩ := (ht.mem_iff key v).2 hm
        cases hu
        obtain ⟨htyp, hvalue⟩ := hproves.included v hv
        simp [htyp, hvalue, appendNil, (hmem _ v hv).1]
        rfl
      | none =>
        have hno : ∀ v, ¬ u.Mem key.bits v := by
          intro v hv
          have := (ht.mem_iff key v).1 ⟨u, rfl, hv⟩
          rw [hm] at this
          cases this
        simp [hproves.excluded hno]
        rfl

def twoLeaves : List UrkelLeaf :=
  [⟨Hash.zero, [7]⟩, ⟨Hash.ofBytes (List.replicate 31 0 ++ [1]), [8]⟩]

theorem verifyUrkelProof_proveUrkel_twoLeaves :
    ∃ tree root proof enc, buildUrkelTree blake2bSum256 twoLeaves = .ok tree ∧
      calcUrkelRoot blake2bSum256 twoLeaves = .ok root ∧
      proveUrkel blake2bSum256 tree Hash.zero = .ok proof ∧ proof.encode = .ok enc ∧
      verifyUrkelProof blake2bSum256 root Hash.zero enc = .ok (some [7], true) := by
  have hleaves := leavesOf_putLeaves twoLeaves (by decide)
  have hvalues : ∀ k v, (putLeaves ∅ twoLeaves).lookup k = some v →
      1 ≤ v.length ∧ v.length ≤ 65535 := by
    intro k v hv
    have hmem := (hleaves.mem_iff ⟨k, v⟩).2 hv
    simp only [twoLeaves, mem_cons, not_mem_nil, or_false] at hmem
    rcases hmem with ⟨-, rfl⟩ | ⟨-, rfl⟩ <;> decide
  obtain ⟨tree, root, proof, enc, htree, hroot, hproof, henc, -, hverify, -⟩ :=
    verifyUrkelProof_proveUrkel blake2bSum256 hleaves hvalues Hash.zero
  exact ⟨tree, root, proof, enc, htree, hroot, hproof, henc, hverify⟩

end HandshakeNode
