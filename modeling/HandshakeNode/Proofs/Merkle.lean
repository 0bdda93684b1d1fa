import HandshakeNode.Lib.Loops
import HandshakeNode.Lib.Merkle
import HandshakeNode.Merkle

/-!
# The merkle root binds the transactions

The array of `buildMerkleTreeStore` holds the levels of a merkle tree, so its last element is the
hash of the tree over the transaction hashes. Trees of different lists differ, whatever their
lengths, and without a collision among the strings that were hashed their roots differ as well.
-/

namespace HandshakeNode

open Merkle List

variable (blake2b : Bytes → Hash)

def merklePreimage : Shape Hash Hash → Bytes
  | .empty => []
  | .leaf hash => 0x00 :: hash.bytes
  | .node left right => 0x01 :: (left.bytes ++ right.bytes)

lemma merklePreimage_injective : Function.Injective merklePreimage := by
  rintro (_ | a | ⟨l, r⟩) (_ | b | ⟨l', r'⟩) h
  · rfl
  · simp [merklePreimage] at h
  · simp [merklePreimage] at h
  · simp [merklePreimage] at h
  · rw [Hash.ext (cons.inj h).2]
  · simp [merklePreimage] at h
  · simp [merklePreimage] at h
  · simp [merklePreimage] at h
  · obtain ⟨hl, hr⟩ := append_inj (cons.inj h).2 (by simp)
    rw [Hash.ext hl, Hash.ext hr]

def merkleHash (s : Shape Hash Hash) : Hash := blake2b (merklePreimage s)

def merklePreimages (hashes : List Hash) : List Bytes :=
  ((tree hashes).shapes (merkleHash blake2b)).map merklePreimage

section

variable {blake2b}

lemma merkleAt_of_getElem? {hash : Hash}
    (h : merkles[i]? = some hash) : merkleAt merkles i = .ok hash := by
  rw [merkleAt, h]

lemma appendLevel_eq (below current : List Hash) :
    appendLevel blake2b (below ++ current) below.length current.length =
      .ok (below ++ current ++
        level (hashMerkleBranches blake2b) (hashMerkleEmpty blake2b) current) := by
  -- after `m` rounds, the first `m` nodes of the level are there
  have hrounds : ∀ m ≤ (current.length + 1) / 2, (range m).foldlM
      (appendBranch blake2b below.length current.length) (below ++ current) =
        .ok (below ++ current ++
          (level (hashMerkleBranches blake2b) (hashMerkleEmpty blake2b) current).take m) := by
    intro m hm
    induction m with
    | zero => simp
    | succ m ih =>
      have hm' : 2 * m < current.length := by omega
      rw [range_succ, foldlM_append, ih (by omega), ok_bind, foldlM_cons,
        take_add_one, getElem?_level, getElem?_eq_getElem hm']
      have hleft : merkleAt (below ++ current ++
          (level (hashMerkleBranches blake2b) (hashMerkleEmpty blake2b) current).take m)
          (below.length + 2 * m) = .ok current[2 * m] := by
        refine merkleAt_of_getElem? ?_
        rw [append_assoc, getElem?_append_right (Nat.le_add_right _ _),
          Nat.add_sub_cancel_left, getElem?_append_left hm', getElem?_eq_getElem hm']
      have hright : merkleRight blake2b below.length current.length (below ++ current ++
          (level (hashMerkleBranches blake2b) (hashMerkleEmpty blake2b) current).take m) (2 * m) =
            .ok (current[2 * m + 1]?.getD (hashMerkleEmpty blake2b)) := by
        unfold merkleRight
        split_ifs with h
        · refine merkleAt_of_getElem? ?_
          rw [append_assoc, getElem?_append_right (Nat.le_add_right _ _),
            Nat.add_sub_cancel_left, getElem?_append_left h, getElem?_eq_getElem h]
          rfl
        · rw [getElem?_eq_none (not_lt.1 h)]
          rfl
      simp only [appendBranch, hleft, hright, ← append_assoc]
      rfl
  have hall := hrounds _ le_rfl
  rwa [take_of_length_le (by rw [length_level])] at hall

lemma appendLevels_eq : ∀ rounds (below current : List Hash), current ≠ [] →
    current.length ≤ rounds + 1 →
    ∃ levels, appendLevels blake2b rounds (below ++ current) below.length current.length =
      .ok (levels ++ collapse (hashMerkleBranches blake2b) (hashMerkleEmpty blake2b) rounds current)
  | 0, below, current, _, hle => ⟨below, by
      rw [appendLevels, if_neg (by omega)]
      rfl⟩
  | rounds + 1, below, current, hne, hle => by
    unfold appendLevels collapse
    by_cases h : 1 < current.length
    · have hlen := length_level (hashMerkleBranches blake2b) (hashMerkleEmpty blake2b) current
      obtain ⟨levels, hlevels⟩ := appendLevels_eq rounds (below ++ current)
        (level (hashMerkleBranches blake2b) (hashMerkleEmpty blake2b) current)
        (length_pos_iff.1 (by omega)) (by omega)
      refine ⟨levels, ?_⟩
      rw [if_pos h, if_pos h, appendLevel_eq, ← hlen, ← length_append]
      exact hlevels
    · exact ⟨below, by rw [if_neg h, if_neg h]⟩

lemma calcMerkleRoot_eq (hashes : List Hash) :
    calcMerkleRoot blake2b hashes = .ok ((tree hashes).hash (merkleHash blake2b)) := by
  by_cases hne : hashes = []
  · subst hne
    rfl
  · have hmap : (hashes.map Tree.leaf).map (Tree.hash (merkleHash blake2b)) =
        hashes.map (hashMerkleLeaf blake2b) := by
      rw [map_map]
      rfl
    have hcollapse : collapse (hashMerkleBranches blake2b) (hashMerkleEmpty blake2b) hashes.length
        (hashes.map (hashMerkleLeaf blake2b)) = [(tree hashes).hash (merkleHash blake2b)] := by
      rw [← hmap, ← map_singleton, ← collapse_leaf hne]
      refine Eq.symm (map_collapse _ (fun l r => ?_) _ _)
      rfl
    obtain ⟨levels, hlevels⟩ := @appendLevels_eq blake2b hashes.length []
      (hashes.map (hashMerkleLeaf blake2b)) (by simpa using hne) (by simp)
    rw [hcollapse, nil_append, length_map, length_nil] at hlevels
    rw [calcMerkleRoot, buildMerkleTreeStore, if_neg (by simpa using hne), hlevels]
    exact merkleAt_of_getElem? (by simp)

end

/-- Two lists of transaction hashes with one merkle root are the same list, unless two strings that
were hashed for them collide. -/
theorem calcMerkleRoot_inj {blake2b : Bytes → Hash} {hashes hashes' : List Hash}
    (hinj : Set.InjOn blake2b
      { s | s ∈ merklePreimages blake2b hashes ∨ s ∈ merklePreimages blake2b hashes' }) :
    (∃ root, calcMerkleRoot blake2b hashes = .ok root) ∧
      (calcMerkleRoot blake2b hashes = calcMerkleRoot blake2b hashes' → hashes = hashes') := by
  refine ⟨⟨_, calcMerkleRoot_eq hashes⟩, fun h => ?_⟩
  rw [calcMerkleRoot_eq, calcMerkleRoot_eq, Except.ok.injEq] at h
  have hshapes : Set.InjOn (merkleHash blake2b) { s | s ∈ (tree hashes).shapes (merkleHash blake2b) ∨
      s ∈ (tree hashes').shapes (merkleHash blake2b) } := by
    intro s hs s' hs' heq
    refine merklePreimage_injective (hinj ?_ ?_ heq)
    · exact hs.imp mem_map_of_mem mem_map_of_mem
    · exact hs'.imp mem_map_of_mem mem_map_of_mem
  rw [← leaves_tree hashes, ← leaves_tree hashes',
    Tree.hash_injOn hshapes (fun s hs => .inl hs) (fun s hs => .inr hs) h]

/-- A block with its last transaction repeated has another root. -/
theorem calcMerkleRoot_inj_repeated :
    calcMerkleRoot blake2bSum256 [Hash.ofBytes [1], Hash.ofBytes [2], Hash.ofBytes [3]] ≠
      calcMerkleRoot blake2bSum256
        [Hash.ofBytes [1], Hash.ofBytes [2], Hash.ofBytes [3], Hash.ofBytes [3]] := by
  have hnodup : ((merklePreimages blake2bSum256
        [Hash.ofBytes [1], Hash.ofBytes [2], Hash.ofBytes [3]] ++
      merklePreimages blake2bSum256 [Hash.ofBytes [1], Hash.ofBytes [2], Hash.ofBytes [3],
        Hash.ofBytes [3]]).dedup.map blake2bSum256).Nodup := by decide +kernel
  refine fun h => absurd ((calcMerkleRoot_inj ?_).2 h) (by decide)
  intro s hs s' hs' heq
  refine inj_on_of_nodup_map hnodup ?_ ?_ heq
  · exact mem_dedup.2 (mem_append.2 hs)
  · exact mem_dedup.2 (mem_append.2 hs')

end HandshakeNode
