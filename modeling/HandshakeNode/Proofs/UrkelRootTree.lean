import HandshakeNode.Proofs.UrkelTree
import HandshakeNode.UrkelRoot

/-!
# The compact tree has the root of the reference tree

`Repr t u p ref L I` says that the reference `ref` of the compact tree `t` stands for the trie `u`
under the path `p`, using the leaves `L` and the internal nodes `I` of the stores. A key never
changes once its leaf is stored, so a representative leaf keeps giving its node's prefix even after
splits above it. `putAt` turns the trie into the trie with the key overwritten and leaves what lies
outside `L` and `I` alone.
-/

namespace HandshakeNode

open BitTrie List Finset UrkelBits UrkelRootStore UrkelRootRef UrkelRootTree UInt32

/-- The number of nodes that one store can hold. -/
def nodeLimit : ℕ := 2 ^ 31 - 1

def leafRef (i : ℕ) : UrkelRootRef := ofNat (i + 1) ||| urkelRootLeafFlag

def internalRef (i : ℕ) : UrkelRootRef := ofNat (i + 1)

lemma toNat_internalRef (h : i < nodeLimit) : (internalRef i).toNat = i + 1 := by
  unfold nodeLimit at h
  rw [internalRef, toNat_ofNat', Nat.mod_eq_of_lt (by omega)]

lemma toNat_leafRef (h : i < nodeLimit) : (leafRef i).toNat = 2 ^ 31 + (i + 1) := by
  have hi : i + 1 < 2 ^ 31 := by
    unfold nodeLimit at h
    omega
  have hor := Nat.two_pow_add_eq_or_of_lt hi 1
  rw [leafRef, UInt32.toNat_or, ← internalRef, toNat_internalRef h]
  rw [Nat.mul_one] at hor
  rw [hor, Nat.or_comm]
  rfl

lemma isLeaf_iff (r : UrkelRootRef) : isLeaf r = r.toNat.testBit 31 := by
  unfold isLeaf
  have hand : (r &&& urkelRootLeafFlag).toNat = (r.toNat.testBit 31).toNat * 2 ^ 31 := by
    exact Nat.and_two_pow r.toNat 31
  simp only [ne_eq, ← UInt32.toNat_inj, hand]
  cases r.toNat.testBit 31 <;> simp

lemma index_eq (r : UrkelRootRef) : index r = (r.toNat % 2 ^ 31 : ℕ) - 1 := by
  have hand : (r &&& urkelRootIndexMask).toNat = r.toNat % 2 ^ 31 := by
    exact Nat.and_two_pow_sub_one_eq_mod r.toNat 31
  rw [index, hand]

section

variable (h : i < nodeLimit)
include h

lemma isLeaf_leafRef : isLeaf (leafRef i) = true := by
  rw [isLeaf_iff, toNat_leafRef h, Nat.testBit_two_pow_add_eq, Nat.testBit_lt_two_pow]
  · rfl
  · unfold nodeLimit at h
    omega

lemma isLeaf_internalRef : isLeaf (internalRef i) = false := by
  rw [isLeaf_iff, toNat_internalRef h, Nat.testBit_lt_two_pow]
  unfold nodeLimit at h
  omega

lemma index_leafRef : index (leafRef i) = i := by
  rw [index_eq, toNat_leafRef h]
  unfold nodeLimit at h
  omega

lemma index_internalRef : index (internalRef i) = i := by
  rw [index_eq, toNat_internalRef h]
  unfold nodeLimit at h
  omega

lemma leafRef_ne_zero : leafRef i ≠ 0 := by
  intro he
  have := congrArg toNat he
  rw [toNat_leafRef h] at this
  simp at this

lemma internalRef_ne_zero : internalRef i ≠ 0 := by
  intro he
  have := congrArg toNat he
  rw [toNat_internalRef h] at this
  simp at this

lemma makeUrkelRootRef_ok (leaf : Bool) :
    makeUrkelRootRef i leaf = .ok (if leaf then leafRef i else internalRef i) := by
  have hmask : urkelRootIndexMask.toNat = nodeLimit := rfl
  unfold makeUrkelRootRef
  rw [if_neg (by rw [hmask]; omega)]
  rfl

end

namespace UrkelRootStore

lemma get_ok {i : ℕ} (h : s[i]? = some value) : get s (i : ℤ) = .ok value := by
  simp [get, h]

lemma set_ok {i : ℕ} (h : i < s.length) (value : T) :
    set s (i : ℤ) value = .ok (s.set i value) := by
  simp [set, h]

end UrkelRootStore

namespace UrkelRootTree

section

variable (blake2b : Bytes → Hash)

def RepLeaf (t : UrkelRootTree) (ref : UrkelRootRef) (p : List Bool) : Prop :=
  ∃ i leaf, i < nodeLimit ∧ ref = leafRef i ∧ t.leaves[i]? = some leaf ∧ p <+: leaf.key.bits

/-- The reference stands for the trie under the path, with the leaves `L` and the nodes `I`. -/
inductive Repr (t : UrkelRootTree) :
    Trie Bytes → List Bool → UrkelRootRef → Finset ℕ → Finset ℕ → Prop
  | leaf {k v p i} (lim : i < nodeLimit)
      (get : t.leaves[i]? = some ⟨Hash.ofBits k, trieHash blake2b (.leaf k v)⟩) :
      Repr t (.leaf k v) p (leafRef i) {i} ∅
  | node {pre l r p i node L I L' I'} (lim : i < nodeLimit) (get : t.internals[i]? = some node)
      (hash : node.hash = trieHash blake2b (.node pre l r))
      (bits : node.prefixBits.toNat = pre.length)
      (rep : RepLeaf t node.representativeLeaf (p ++ pre))
      (left : Repr t l (p ++ pre ++ [false]) node.left L I)
      (right : Repr t r (p ++ pre ++ [true]) node.right L' I')
      (hL : Disjoint L L') (hI : Disjoint I I') (hi : i ∉ I) (hi' : i ∉ I') :
      Repr t (.node pre l r) p (internalRef i) (L ∪ L') (insert i (I ∪ I'))

def KeysKept (t t' : UrkelRootTree) : Prop :=
  ∀ (i : ℕ) (leaf : UrkelRootLeaf), t.leaves[i]? = some leaf →
    ∃ hash, t'.leaves[i]? = some ⟨leaf.key, hash⟩

variable {blake2b} {t : UrkelRootTree}

lemma KeysKept.trans (h : KeysKept t t') (h' : KeysKept t' t'') : KeysKept t t'' := by
  intro i leaf hi
  obtain ⟨hash, hi'⟩ := h i leaf hi
  obtain ⟨hash', hi''⟩ := h' i _ hi'
  exact ⟨hash', hi''⟩

lemma keysKept_of_leaves_eq (h : t'.leaves = t.leaves) : KeysKept t t' := by
  intro i leaf hi
  exact ⟨leaf.hash, by rw [h, hi]⟩

lemma RepLeaf.kept (h : t.RepLeaf ref p) (hk : KeysKept t t') : t'.RepLeaf ref p := by
  obtain ⟨i, leaf, lim, rfl, hi, hp⟩ := h
  obtain ⟨hash, hi'⟩ := hk i leaf hi
  exact ⟨i, _, lim, rfl, hi', hp⟩

lemma RepLeaf.mono (h : t.RepLeaf ref p) (hq : q <+: p) : t.RepLeaf ref q := by
  obtain ⟨i, leaf, lim, rfl, hi, hp⟩ := h
  exact ⟨i, leaf, lim, rfl, hi, hq.trans hp⟩

lemma RepLeaf.leaf_ok (h : t.RepLeaf ref p) :
    ∃ leaf, t.leaf ref = .ok leaf ∧ p <+: leaf.key.bits := by
  obtain ⟨i, leaf, lim, rfl, hi, hp⟩ := h
  refine ⟨leaf, ?_, hp⟩
  rw [UrkelRootTree.leaf, index_leafRef lim, get_ok hi]

namespace Repr

section

variable (h : Repr blake2b t u p ref L I)
include h

lemma lt_leaves : ∀ i ∈ L, i < t.leaves.length := by
  induction h with
  | leaf lim get =>
    intro i hi
    rw [Finset.mem_singleton.1 hi]
    exact (List.getElem?_eq_some_iff.1 get).1
  | node _ _ _ _ _ _ _ _ _ _ _ ihl ihr =>
    intro i hi
    rcases Finset.mem_union.1 hi with hi | hi
    · exact ihl i hi
    · exact ihr i hi

lemma lt_internals : ∀ i ∈ I, i < t.internals.length := by
  induction h with
  | leaf => simp
  | node _ get _ _ _ _ _ _ _ _ _ ihl ihr =>
    intro i hi
    rcases mem_insert.1 hi with rfl | hi
    · exact (List.getElem?_eq_some_iff.1 get).1
    · rcases mem_union.1 hi with hi | hi
      · exact ihl i hi
      · exact ihr i hi

lemma frame (hL : ∀ i ∈ L, t'.leaves[i]? = t.leaves[i]?)
    (hI : ∀ i ∈ I, t'.internals[i]? = t.internals[i]?) (hk : KeysKept t t') :
    Repr blake2b t' u p ref L I := by
  induction h with
  | leaf lim get => exact .leaf lim (by rw [hL _ (Finset.mem_singleton_self _), get])
  | node lim get hash bits rep _ _ dL dI hi hi' ihl ihr =>
    refine .node lim (by rw [hI _ (Finset.mem_insert_self _ _), get]) hash bits (rep.kept hk)
      (ihl ?_ ?_) (ihr ?_ ?_) dL dI hi hi'
    · exact fun i h => hL i (Finset.mem_union_left _ h)
    · exact fun i h => hI i (Finset.mem_insert_of_mem (Finset.mem_union_left _ h))
    · exact fun i h => hL i (Finset.mem_union_right _ h)
    · exact fun i h => hI i (Finset.mem_insert_of_mem (Finset.mem_union_right _ h))

lemma ref_ne_zero : ref ≠ 0 := by
  cases h with
  | leaf lim _ => exact leafRef_ne_zero lim
  | node lim => exact internalRef_ne_zero lim

lemma nodeHash_ok : t.nodeHash ref = .ok (trieHash blake2b u) := by
  unfold nodeHash
  rw [if_neg h.ref_ne_zero]
  cases h with
  | leaf lim get =>
    rw [if_pos (isLeaf_leafRef lim), UrkelRootTree.leaf, index_leafRef lim, get_ok get]
    rfl
  | node lim get hash =>
    rw [if_neg (by rw [isLeaf_internalRef lim]; decide), UrkelRootTree.internal,
      index_internalRef lim, get_ok get, ← hash]
    rfl

lemma representativeLeaf_ok (hf : u.Fits 256 p) :
    ∃ rep, t.representativeLeaf ref = .ok rep ∧ t.RepLeaf rep p := by
  unfold representativeLeaf
  cases h with
  | @leaf k v _ i lim get =>
    refine ⟨leafRef i, by rw [if_pos (isLeaf_leafRef lim)], i, _, lim, rfl, get, ?_⟩
    rw [Hash.bits_ofBits hf.1]
    exact hf.2
  | @node pre l r _ i node _ _ _ _ lim get _ _ rep =>
    refine ⟨node.representativeLeaf, ?_, rep.mono (prefix_append _ _)⟩
    rw [if_neg (by rw [isLeaf_internalRef lim]; decide), internal,
      index_internalRef lim, get_ok get]
    rfl

end

lemma setNode {node : UrkelRootInternal} (lim : i < nodeLimit) (hlen : i < t.internals.length)
    (hash : node.hash = trieHash blake2b (.node pre l r))
    (bits : node.prefixBits.toNat = pre.length) (rep : t.RepLeaf node.representativeLeaf (p ++ pre))
    (left : Repr blake2b t l (p ++ pre ++ [false]) node.left L I)
    (right : Repr blake2b t r (p ++ pre ++ [true]) node.right L' I') (hL : Disjoint L L')
    (hI : Disjoint I I') (hi : i ∉ I) (hi' : i ∉ I') :
    Repr blake2b { t with internals := t.internals.set i node } (.node pre l r) p (internalRef i)
      (L ∪ L') (insert i (I ∪ I')) := by
  have hk : KeysKept t { t with internals := t.internals.set i node } := keysKept_of_leaves_eq rfl
  have hset : ∀ J : Finset ℕ, i ∉ J → ∀ j ∈ J,
      (t.internals.set i node)[j]? = t.internals[j]? := by
    intro J hJ j hj
    refine List.getElem?_set_ne fun e => hJ ?_
    rwa [e]
  exact .node lim (by simp [hlen]) hash bits (rep.kept hk)
    (left.frame (fun _ _ => rfl) (hset I hi) hk) (right.frame (fun _ _ => rfl) (hset I' hi') hk)
    hL hI hi hi'

end Repr

lemma internalPrefix_ok (rep : t.RepLeaf node.representativeLeaf (p ++ pre))
    (bits : node.prefixBits.toNat = pre.length) (hlen : p.length + pre.length ≤ 256) :
    t.internalPrefix node p.length = .ok (ofList pre) := by
  obtain ⟨leaf, hleaf, s, hs⟩ := rep.leaf_ok
  unfold internalPrefix
  rw [hleaf]
  simp only [ok_bind]
  rw [bits, slice_ok _ hlen (by omega)]
  simp [fromKey, ← hs]

end

section

variable {blake2b : Bytes → Hash} {t : UrkelRootTree}

lemma addLeaf_ok (key : Hash) (value : Bytes) (h : t.leaves.length < nodeLimit) :
    t.addLeaf blake2b key value = .ok (leafRef t.leaves.length,
      { t with leaves := t.leaves ++ [⟨key, hashUrkelValue blake2b key value⟩] }) := by
  unfold addLeaf
  rw [makeUrkelRootRef_ok h]
  rfl

lemma keysKept_append (t : UrkelRootTree) (leaf : UrkelRootLeaf) :
    KeysKept t { t with leaves := t.leaves ++ [leaf] } := by
  intro i leaf' hi
  refine ⟨leaf'.hash, ?_⟩
  rw [List.getElem?_append_left (List.getElem?_eq_some_iff.1 hi).1, hi]

lemma Repr.addLeaf (h : Repr blake2b t u p ref L I) (leaf : UrkelRootLeaf) :
    Repr blake2b { t with leaves := t.leaves ++ [leaf] } u p ref L I :=
  h.frame (fun i hi => List.getElem?_append_left (h.lt_leaves i hi)) (fun _ _ => rfl)
    (keysKept_append t leaf)

lemma repr_newLeaf (key : Hash) (value : Bytes) (h : t.leaves.length < nodeLimit) :
    Repr blake2b { t with leaves := t.leaves ++ [⟨key, hashUrkelValue blake2b key value⟩] }
      (.leaf key.bits value) p (leafRef t.leaves.length) {t.leaves.length} ∅ := by
  refine .leaf h ?_
  rw [List.getElem?_concat_length, trieHash_leaf, Hash.ofBits_bits]

lemma addInternal_ok (hl : Repr blake2b t l (p ++ pre ++ [false]) left L I)
    (hr : Repr blake2b t r (p ++ pre ++ [true]) right L' I') (hf : (Trie.node pre l r).Fits 256 p)
    (dL : Disjoint L L') (dI : Disjoint I I') (lim : t.internals.length < nodeLimit) :
    ∃ node, t.addInternal blake2b (ofList pre) left right =
        .ok (internalRef t.internals.length, { t with internals := t.internals ++ [node] }) ∧
      Repr blake2b { t with internals := t.internals ++ [node] } (.node pre l r) p
        (internalRef t.internals.length) (L ∪ L') (insert t.internals.length (I ∪ I')) := by
  have hlen := Trie.length_node_lt hf
  obtain ⟨rep, hrep, hkey⟩ := hl.representativeLeaf_ok hf.1
  have hbits : (UInt16.ofNat pre.length).toNat = pre.length := by
    rw [UInt16.toNat_ofNat', Nat.mod_eq_of_lt (by omega)]
  refine ⟨⟨trieHash blake2b (.node pre l r), left, right, rep, UInt16.ofNat pre.length⟩, ?_, ?_⟩
  · unfold addInternal
    rw [failIf_of_not (by simp [hl.ref_ne_zero, hr.ref_ne_zero]),
      failIf_of_not (by simp only [ofList, urkelKeyBits]; omega), makeUrkelRootRef_ok lim,
      hl.nodeHash_ok, hr.nodeHash_ok, hrep]
    simp only [ok_bind]
    rw [hashUrkelInternal_ok blake2b (by simp only [ofList]; omega)]
    rfl
  · have hk : ∀ node, KeysKept t { t with internals := t.internals ++ [node] } :=
      fun _ => keysKept_of_leaves_eq rfl
    refine .node lim List.getElem?_concat_length rfl hbits
      ((hkey.mono (prefix_append _ _)).kept (hk _))
      (hl.frame (fun _ _ => rfl) ?_ (hk _)) (hr.frame (fun _ _ => rfl) ?_ (hk _)) dL dI ?_ ?_
    · exact fun i hi => List.getElem?_append_left (hl.lt_internals i hi)
    · exact fun i hi => List.getElem?_append_left (hr.lt_internals i hi)
    · exact fun hi => (hl.lt_internals _ hi).false
    · exact fun hi => (hr.lt_internals _ hi).false

lemma addBranch_ok (hx : Repr blake2b t x (p ++ pre ++ [b]) refx L I)
    (hy : Repr blake2b t y (p ++ pre ++ [!b]) refy L' I') (hf : (Trie.branch pre b x y).Fits 256 p)
    (dL : Disjoint L L') (dI : Disjoint I I') (lim : t.internals.length < nodeLimit) :
    ∃ node, t.addBranch blake2b (ofList pre) refx refy b =
        .ok (internalRef t.internals.length, { t with internals := t.internals ++ [node] }) ∧
      Repr blake2b { t with internals := t.internals ++ [node] } (.branch pre b x y) p
        (internalRef t.internals.length) (L ∪ L') (insert t.internals.length (I ∪ I')) := by
  cases b with
  | false => exact addInternal_ok hx hy hf dL dI lim
  | true =>
    obtain ⟨node, hnode, hrepr⟩ := addInternal_ok hy hx hf dL.symm dI.symm lim
    refine ⟨node, hnode, ?_⟩
    rwa [union_comm L' L, union_comm I' I] at hrepr

end

section

variable (blake2b : Bytes → Hash)

/-- What `putAt` does to a trie with the leaves `L` and the nodes `I`: the new trie is in place,
what lies outside is as it was, and a leaf and a node are added only for a new key. -/
structure PutAt (key : Hash) (value : Bytes) (t : UrkelRootTree) (u : Trie Bytes) (p : List Bool)
    (L I : Finset ℕ) (ref' : UrkelRootRef) (t' : UrkelRootTree) (L' I' : Finset ℕ) : Prop where
  repr : Repr blake2b t' (u.insert key.bits value p.length) p ref' L' I'
  keys : KeysKept t t'
  leaves_eq : ∀ i < t.leaves.length, i ∉ L → t'.leaves[i]? = t.leaves[i]?
  internals_eq : ∀ i < t.internals.length, i ∉ I → t'.internals[i]? = t.internals[i]?
  leaves_new : ∀ i ∈ L', i ∈ L ∨ t.leaves.length ≤ i
  internals_new : ∀ i ∈ I', i ∈ I ∨ t.internals.length ≤ i
  count : t'.leaves.length = t.leaves.length ∧ t'.internals.length = t.internals.length ∧
      (∃ v, u.Mem key.bits v) ∨
    t'.leaves.length = t.leaves.length + 1 ∧ t'.internals.length = t.internals.length + 1 ∧
      ∀ v, ¬ u.Mem key.bits v

def HasRoom (t : UrkelRootTree) : Prop :=
  t.leaves.length < nodeLimit ∧ t.internals.length < nodeLimit

variable {blake2b} {key : Hash} {value : Bytes} {t : UrkelRootTree} {p : List Bool}

lemma putAt_leafRef {hash : Hash} (fuel : ℕ) (lim : i < nodeLimit)
    (get : t.leaves[i]? = some ⟨Hash.ofBits k, hash⟩) (hk : k.length = 256) (hpk : p <+: k)
    (hp : p <+: key.bits) :
    putAt blake2b key value (fuel + 1) t (leafRef i) p.length =
      if k = key.bits then
        .ok (leafRef i, { t with
          leaves := t.leaves.set i ⟨key, hashUrkelValue blake2b key value⟩ })
      else (do
        let m := matchLen (k.drop p.length) (key.bits.drop p.length)
        let (newLeaf, t) ← t.addLeaf blake2b key value
        t.addBranch blake2b (ofList ((k.drop p.length).take m)) newLeaf (leafRef i)
          (key.bits.getD (p.length + m) false)) := by
  have hplen := hpk.length_le
  rw [putAt, if_neg (leafRef_ne_zero lim), if_pos (isLeaf_leafRef lim), index_leafRef lim]
  simp only [get_ok get, ok_bind]
  by_cases heq : k = key.bits
  · subst heq
    rw [if_pos (Hash.ofBits_bits key), if_pos rfl, set_ok
      (List.getElem?_eq_some_iff.1 get).1, Hash.ofBits_bits]
    rfl
  · have hne : Hash.ofBits k ≠ key := by
      rintro rfl
      exact heq (Hash.bits_ofBits hk).symm
    have hf : (Trie.leaf k value).Fits 256 p := ⟨hk, hpk⟩
    have hlt := Trie.split_leaf (Hash.length_bits key) hp hf heq
    rw [if_neg hne, if_neg heq, collide_ok _ _ (by omega), Hash.bits_ofBits hk]
    set m := matchLen (k.drop p.length) (key.bits.drop p.length)
    rw [length_drop] at hlt
    have hsize : (ofList ((k.drop p.length).take m)).size = m := by
      simp only [ofList, length_take, length_drop]
      omega
    simp [hsize, urkelHasBit_hash key (show p.length + m < 256 by omega)]

lemma putAt_internalRef (fuel : ℕ) (lim : i < nodeLimit) (get : t.internals[i]? = some node)
    (bits : node.prefixBits.toNat = pre.length) (rep : t.RepLeaf node.representativeLeaf (p ++ pre))
    (left : Repr blake2b t l (p ++ pre ++ [false]) node.left L I)
    (right : Repr blake2b t r (p ++ pre ++ [true]) node.right L' I')
    (hlen : p.length + pre.length < 256) :
    putAt blake2b key value (fuel + 1) t (internalRef i) p.length =
      let m := matchLen pre (key.bits.drop p.length)
      let bit := key.bits.getD (p.length + m) false
      if m ≠ pre.length then do
        let node := { node with
          prefixBits := UInt16.ofNat (pre.drop (m + 1)).length
          hash := trieHash blake2b (.node (pre.drop (m + 1)) l r) }
        let (newLeaf, t) ←
          addLeaf blake2b { t with internals := t.internals.set i node } key value
        t.addBranch blake2b (ofList (pre.take m)) newLeaf (internalRef i) bit
      else if bit then do
        let (right, t) ← putAt blake2b key value fuel t node.right (p.length + m + 1)
        let hash ← hashUrkelInternal blake2b (ofList pre) (← t.nodeHash node.left)
          (← t.nodeHash right)
        let internals ← set t.internals i { node with right, hash }
        return (internalRef i, { t with internals })
      else do
        let (left, t) ← putAt blake2b key value fuel t node.left (p.length + m + 1)
        let hash ← hashUrkelInternal blake2b (ofList pre) (← t.nodeHash left)
          (← t.nodeHash node.right)
        let internals ← set t.internals i { node with left, hash }
        return (internalRef i, { t with internals }) := by
  have hle := matchLen_le_left pre (key.bits.drop p.length)
  have hsize : (ofList pre).size ≤ 256 := by
    simp only [ofList]
    omega
  have hback : ∀ n, (ofList (pre.drop n)).size ≤ 256 := by
    simp only [ofList, length_drop]
    omega
  rw [putAt, if_neg (internalRef_ne_zero lim), if_neg (by rw [isLeaf_internalRef lim]; decide),
    index_internalRef lim]
  simp only [get_ok get, ok_bind, internalPrefix_ok rep bits hlen.le,
    count_ok hsize, toList_ofList (show pre.length ≤ 256 by omega)]
  set m := matchLen pre (key.bits.drop p.length)
  rw [urkelHasBit_hash key (by omega)]
  simp only [ok_bind, show (ofList pre).size = pre.length from rfl]
  by_cases hne : m = pre.length
  · rw [if_neg (not_not.2 hne), if_neg (not_not.2 hne)]
  · rw [if_pos hne, if_pos hne, split_ok (by omega) (by omega)]
    simp only [ok_bind, left.nodeHash_ok, right.nodeHash_ok, hashUrkelInternal_ok blake2b (hback _),
      set_ok (List.getElem?_eq_some_iff.1 get).1]
    rfl

lemma putAt_leaf {v : Bytes} (fuel : ℕ)
    (h : Repr blake2b t (.leaf k v) p ref L I) (hf : (Trie.leaf k v).Fits 256 p)
    (hp : p <+: key.bits) (hroom : t.HasRoom ∨ ∃ v', (Trie.leaf k v).Mem key.bits v') :
    ∃ ref' t' L' I', putAt blake2b key value (fuel + 1) t ref p.length = .ok (ref', t') ∧
      PutAt blake2b key value t (.leaf k v) p L I ref' t' L' I' := by
  cases h with
  | @leaf _ _ _ i lim get =>
    have hilt : i < t.leaves.length := (List.getElem?_eq_some_iff.1 get).1
    rw [putAt_leafRef fuel lim get hf.1 hf.2 hp]
    by_cases heq : k = key.bits
    · subst heq
      rw [if_pos rfl]
      refine ⟨leafRef i, _, {i}, ∅, rfl, ?_, ?_, ?_, ?_, ?_, ?_, ?_⟩
      · rw [Trie.insert, if_pos rfl]
        exact .leaf lim (by simp [hilt, trieHash_leaf, Hash.ofBits_bits])
      · intro j leaf hj
        by_cases hji : i = j
        · subst hji
          rw [get] at hj
          cases hj
          exact ⟨hashUrkelValue blake2b key value, by simp [hilt, Hash.ofBits_bits]⟩
        · exact ⟨leaf.hash, by simp [hji, hj]⟩
      · intro j _ hj
        have hji : i ≠ j := fun e => hj (by simp [e])
        simp [hji]
      · exact fun _ _ _ => rfl
      · exact fun j hj => .inl hj
      · simp
      · exact .inl ⟨by simp, rfl, v, rfl, rfl⟩
    · obtain ⟨hl, hi⟩ := hroom.resolve_right (by
        rintro ⟨_, hk, _⟩
        exact heq hk.symm)
      have hins := Trie.fits_insert (v := value) (Hash.length_bits key) hf hp
      rw [Trie.insert, if_neg heq] at hins
      rw [if_neg heq, addLeaf_ok key value hl]
      set m := matchLen (k.drop p.length) (key.bits.drop p.length)
      obtain ⟨node, hnode, hrepr⟩ := addBranch_ok (repr_newLeaf key value hl)
        ((Repr.leaf (p := p ++ (k.drop p.length).take m ++ [!key.bits.getD (p.length + m) false])
          lim get).addLeaf _) hins (by simp; omega) (by simp) hi
      refine ⟨_, _, {t.leaves.length} ∪ {i}, insert t.internals.length (∅ ∪ ∅), hnode, ?_,
        keysKept_append t _, ?_, ?_, ?_, ?_, ?_⟩
      · rw [Trie.insert, if_neg heq]
        exact hrepr
      · exact fun j hj _ => List.getElem?_append_left hj
      · exact fun j hj _ => List.getElem?_append_left hj
      · intro j hj
        simp only [Finset.mem_union, Finset.mem_singleton] at hj ⊢
        omega
      · intro j hj
        simp only [Finset.empty_union, Finset.mem_insert, Finset.notMem_empty, or_false] at hj
        exact .inr hj.ge
      · refine .inr ⟨by simp, by simp, ?_⟩
        rintro v' ⟨rfl, -⟩
        exact heq rfl

/-- A key that leaves the path inside a node's prefix: the node keeps the bits behind, and a new
node above it gets the bits in front. -/
theorem putAt_split (fuel : ℕ) (h : Repr blake2b t (.node pre l r) p ref L I)
    (hf : (Trie.node pre l r).Fits 256 p) (hp : p <+: key.bits)
    (hne : matchLen pre (key.bits.drop p.length) ≠ pre.length) (hroom : t.HasRoom) :
    ∃ ref' t' L' I', putAt blake2b key value (fuel + 1) t ref p.length = .ok (ref', t') ∧
      PutAt blake2b key value t (.node pre l r) p L I ref' t' L' I' := by
  obtain ⟨hl, hi⟩ := hroom
  have hins := Trie.fits_insert (v := value) (Hash.length_bits key) hf hp
  cases h with
  | @node _ _ _ _ i node L1 I1 L2 I2 lim get hash bits rep left right dL dI hi1 hi2 =>
    have hilt : i < t.internals.length := (List.getElem?_eq_some_iff.1 get).1
    have hnot := Trie.not_mem_of_matchLen_ne hf hp hne
    have hpath := Trie.split_path (k := key.bits) (by simpa using hf) hne
    have hlen := Trie.length_node_lt hf
    rw [putAt_internalRef fuel lim get bits rep left right hlen]
    rw [Trie.insert] at hins
    simp only [if_pos hne] at hins ⊢
    set m := matchLen pre (key.bits.drop p.length) with hm
    have hbits : (UInt16.ofNat (pre.drop (m + 1)).length).toNat = (pre.drop (m + 1)).length := by
      rw [UInt16.toNat_ofNat', length_drop, Nat.mod_eq_of_lt (by omega)]
    set b := key.bits.getD (p.length + m) false
    set node' : UrkelRootInternal := { node with
      prefixBits := UInt16.ofNat (pre.drop (m + 1)).length
      hash := trieHash blake2b (.node (pre.drop (m + 1)) l r) }
    have hset : Repr blake2b { t with internals := t.internals.set i node' }
        (.node (pre.drop (m + 1)) l r) (p ++ pre.take m ++ [!b]) (internalRef i) (L1 ∪ L2)
        (insert i (I1 ∪ I2)) := by
      refine Repr.setNode lim hilt rfl hbits ?_ ?_ ?_ dL dI hi1 hi2
      · rw [hpath]
        exact rep
      · rw [hpath]
        exact left
      · rw [hpath]
        exact right
    obtain ⟨top, htop, hrepr⟩ := addBranch_ok
      (repr_newLeaf (t := { t with internals := t.internals.set i node' }) key value hl)
      (hset.addLeaf _) hins
      (by
        rw [Finset.disjoint_singleton_left]
        exact fun hmem => ((Repr.node lim get hash bits rep left right dL dI hi1 hi2).lt_leaves _
          hmem).false)
      (by simp) (by simpa using hi)
    rw [addLeaf_ok (t := { t with internals := t.internals.set i node' }) key value hl]
    simp only [length_set] at htop hrepr
    refine ⟨_, _, {t.leaves.length} ∪ (L1 ∪ L2),
      insert t.internals.length (∅ ∪ insert i (I1 ∪ I2)), htop, ?_, ?_, ?_, ?_, ?_, ?_, ?_⟩
    · rw [Trie.insert, if_pos hne]
      exact hrepr
    · exact (keysKept_of_leaves_eq rfl).trans (keysKept_append _ _)
    · exact fun j hj _ => List.getElem?_append_left hj
    · intro j hj hjI
      have hji : i ≠ j := fun e => hjI (by simp [e])
      rw [List.getElem?_append_left (by simpa using hj), List.getElem?_set_ne hji]
    · intro j hj
      rcases Finset.mem_union.1 hj with hj | hj
      · exact .inr (Finset.mem_singleton.1 hj).ge
      · exact .inl hj
    · intro j hj
      rcases Finset.mem_insert.1 hj with hj | hj
      · exact .inr hj.ge
      · rw [Finset.empty_union] at hj
        exact .inl hj
    · exact .inr ⟨by simp, by simp, hnot⟩

namespace PutAt

lemma disjoint_of_new {L L' L0 : Finset ℕ} {n : ℕ} (hnew : ∀ i ∈ L', i ∈ L ∨ n ≤ i)
    (hlt : ∀ i ∈ L0, i < n) (d : Disjoint L0 L) : Disjoint L0 L' := by
  rw [Finset.disjoint_left] at d ⊢
  intro i hi hi'
  rcases hnew i hi' with hL | hge
  · exact d hi hL
  · exact absurd (hlt i hi) (by omega)

section

variable (h : PutAt blake2b key value t c q L I ref' t' L' I')
include h

lemma sibling (hs : Repr blake2b t s p ref L0 I0) (dL : Disjoint L0 L) (dI : Disjoint I0 I) :
    Repr blake2b t' s p ref L0 I0 :=
  hs.frame (fun i hi => h.leaves_eq i (hs.lt_leaves i hi) (disjoint_left.1 dL hi))
    (fun i hi => h.internals_eq i (hs.lt_internals i hi) (disjoint_left.1 dI hi)) h.keys

lemma disjoint_leaves (hlt : ∀ i ∈ L0, i < t.leaves.length) (dL : Disjoint L0 L) :
    Disjoint L0 L' := disjoint_of_new h.leaves_new hlt dL

lemma disjoint_internals (hlt : ∀ i ∈ I0, i < t.internals.length) (dI : Disjoint I0 I) :
    Disjoint I0 I' := disjoint_of_new h.internals_new hlt dI

lemma lt_internals (hi : i < t.internals.length) : i < t'.internals.length := by
  rcases h.count with ⟨-, hc, -⟩ | ⟨-, hc, -⟩ <;> omega

lemma lift (hrepr : Repr blake2b { t' with internals := t'.internals.set i node }
      (u.insert key.bits value p.length) p ref L1 I1)
    (hL : L ⊆ L0) (hI : I ⊆ I0) (hi : i ∈ I0) (hL1 : L1 ⊆ L0 ∪ L') (hI1 : I1 ⊆ I0 ∪ I')
    (hmem : ∀ v, u.Mem key.bits v ↔ c.Mem key.bits v) :
    PutAt blake2b key value t u p L0 I0 ref { t' with internals := t'.internals.set i node }
      L1 I1 := by
  refine ⟨hrepr, h.keys, ?_, ?_, ?_, ?_, ?_⟩
  · exact fun j hj hjL => h.leaves_eq j hj fun hmem => hjL (hL hmem)
  · intro j hj hjI
    have hne : i ≠ j := fun e => hjI (e ▸ hi)
    rw [List.getElem?_set_ne hne]
    exact h.internals_eq j hj fun hmem => hjI (hI hmem)
  · intro j hj
    rcases mem_union.1 (hL1 hj) with hj | hj
    · exact .inl hj
    · exact (h.leaves_new j hj).imp_left fun hmem => hL hmem
  · intro j hj
    rcases mem_union.1 (hI1 hj) with hj | hj
    · exact .inl hj
    · exact (h.internals_new j hj).imp_left fun hmem => hI hmem
  · simp only [length_set, hmem]
    exact h.count

end

end PutAt

/-- `putAt` overwrites the key in the trie of the reference, and fails only at the node limit. -/
theorem putAt_ok (key : Hash) (value : Bytes) : ∀ {u} {t}
    {p : List Bool} {ref : UrkelRootRef} {L I : Finset ℕ} (fuel : ℕ), Repr blake2b t u p ref L I →
    u.Fits 256 p → p <+: key.bits → (t.HasRoom ∨ ∃ v, u.Mem key.bits v) → 256 < fuel + p.length →
    ∃ ref' t' L' I', putAt blake2b key value fuel t ref p.length = .ok (ref', t') ∧
      PutAt blake2b key value t u p L I ref' t' L' I'
  | .leaf k v, t, p, ref, L, I, 0, _, hf, _, _, hfuel => by
    have := Trie.length_of_fits hf
    omega
  | .leaf k v, t, p, ref, L, I, fuel + 1, h, hf, hp, hroom, _ => putAt_leaf fuel h hf hp hroom
  | .node pre l r, t, p, ref, L, I, 0, _, hf, _, _, hfuel => by
    have := Trie.length_of_fits hf
    omega
  | .node pre l r, t, p, ref, L, I, fuel + 1, h, hf, hp, hroom, hfuel => by
    by_cases hne : matchLen pre (key.bits.drop p.length) = pre.length
    swap
    · exact putAt_split fuel h hf hp hne
        (hroom.resolve_right fun ⟨v, hv⟩ => Trie.not_mem_of_matchLen_ne hf hp hne v hv)
    have hlen := Trie.length_node_lt hf
    have hsize : (ofList pre).size ≤ 256 := by
      simp only [ofList]
      omega
    have hnext := prefix_next hp hne (by simpa using hlen)
    have hdown : ∀ b, (p ++ pre ++ [b]).length = p.length + pre.length + 1 := by
      simp [add_assoc]
    cases h with
    | @node _ _ _ _ i node L1 I1 L2 I2 lim get hash bits rep left right dL dI hi1 hi2 =>
      have hilt : i < t.internals.length := (List.getElem?_eq_some_iff.1 get).1
      rw [putAt_internalRef fuel lim get bits rep left right hlen]
      simp only [hne, ne_eq]
      cases hb : key.bits.getD (p.length + pre.length) false with
      | true =>
        rw [hb] at hnext
        have hmem : ∀ v, _ ↔ r.Mem _ v := Trie.mem_node_iff hf hnext
        simp only [hmem] at hroom
        obtain ⟨ref', t', L', I', hput, hspec⟩ := putAt_ok key value fuel right hf.2 hnext hroom
          (by rw [hdown]; omega)
        have hleft := hspec.sibling left dL dI
        have hright := hspec.repr
        rw [hdown] at hput hright
        have hi' : i ∉ I' := disjoint_singleton_left.1 (hspec.disjoint_internals
          (by simpa using hilt) (disjoint_singleton_left.2 hi2))
        simp only [hput, ok_bind, hleft.nodeHash_ok, hright.nodeHash_ok,
          hashUrkelInternal_ok blake2b hsize, set_ok (hspec.lt_internals hilt)]
        refine ⟨_, _, L1 ∪ L', insert i (I1 ∪ I'), rfl, hspec.lift ?_ subset_union_right ?_
          (mem_insert_self _ _) ?_ ?_ ?_⟩
        · rw [Trie.insert]
          simp only [hne, hb, ne_eq]
          exact .setNode lim (hspec.lt_internals hilt) rfl bits (rep.kept hspec.keys) hleft hright
            (hspec.disjoint_leaves left.lt_leaves dL) (hspec.disjoint_internals left.lt_internals dI)
            hi1 hi'
        · exact subset_union_right.trans (subset_insert _ _)
        · grind
        · grind
        · exact hmem
      | false =>
        rw [hb] at hnext
        have hmem : ∀ v, _ ↔ l.Mem _ v := Trie.mem_node_iff hf hnext
        simp only [hmem] at hroom
        obtain ⟨ref', t', L', I', hput, hspec⟩ := putAt_ok key value fuel left hf.1 hnext hroom
          (by rw [hdown]; omega)
        have hright := hspec.sibling right dL.symm dI.symm
        have hleft := hspec.repr
        rw [hdown] at hput hleft
        have hi' : i ∉ I' := disjoint_singleton_left.1 (hspec.disjoint_internals
          (by simpa using hilt) (disjoint_singleton_left.2 hi1))
        simp only [hput, ok_bind, hleft.nodeHash_ok,
          hright.nodeHash_ok, hashUrkelInternal_ok blake2b hsize, set_ok (hspec.lt_internals hilt)]
        refine ⟨_, _, L' ∪ L2, insert i (I' ∪ I2), rfl, hspec.lift ?_ subset_union_left ?_
          (mem_insert_self _ _) ?_ ?_ ?_⟩
        · rw [Trie.insert]
          simp only [hne, hb, ne_eq]
          exact .setNode lim (hspec.lt_internals hilt) rfl bits (rep.kept hspec.keys) hleft hright
            (hspec.disjoint_leaves right.lt_leaves dL.symm).symm
            (hspec.disjoint_internals right.lt_internals dI.symm).symm hi' hi2
        · exact subset_union_left.trans (subset_insert _ _)
        · grind
        · grind
        · exact hmem

lemma addLeaf_full (key : Hash) (value : Bytes) (h : nodeLimit ≤ t.leaves.length) :
    ∃ e, t.addLeaf blake2b key value = .error e := by
  have hmask : urkelRootIndexMask.toNat = nodeLimit := rfl
  unfold addLeaf makeUrkelRootRef
  rw [if_pos (by rw [hmask]; exact h)]
  exact ⟨_, rfl⟩

lemma putAt_full (key : Hash) (value : Bytes) : ∀ {u} {p}
    {ref : UrkelRootRef} {L I : Finset ℕ} (fuel : ℕ), Repr blake2b t u p ref L I →
    u.Fits 256 p → p <+: key.bits → nodeLimit ≤ t.leaves.length → (∀ v, ¬ u.Mem key.bits v) →
    ∃ e, putAt blake2b key value fuel t ref p.length = .error e
  | u, p, ref, L, I, 0, _, _, _, _, _ => ⟨_, rfl⟩
  | .leaf k v, p, ref, L, I, fuel + 1, h, hf, hp, hfull, hnew => by
    cases h with
    | leaf lim get =>
      obtain ⟨e, he⟩ := addLeaf_full (t := t) key value hfull
      refine ⟨e, ?_⟩
      rw [putAt_leafRef fuel lim get hf.1 hf.2 hp, if_neg fun heq => hnew v ⟨heq.symm, rfl⟩, he]
      rfl
  | .node pre l r, p, ref, L, I, fuel + 1, h, hf, hp, hfull, hnew => by
    have hlen := Trie.length_node_lt hf
    cases h with
    | node lim get hash bits rep left right =>
      rw [putAt_internalRef fuel lim get bits rep left right hlen]
      by_cases hne : matchLen pre (key.bits.drop p.length) = pre.length
      · have hnext := prefix_next hp hne (by simpa using hlen)
        have hdown : ∀ b, (p ++ pre ++ [b]).length = p.length + pre.length + 1 := by
          simp [add_assoc]
        simp only [hne, ne_eq]
        cases hb : key.bits.getD (p.length + pre.length) false with
        | true =>
          rw [hb] at hnext
          obtain ⟨e, he⟩ := putAt_full key value fuel right hf.2 hnext hfull fun v hv =>
            hnew v (.inr hv)
          rw [hdown] at he
          exact ⟨e, by rw [he]; rfl⟩
        | false =>
          rw [hb] at hnext
          obtain ⟨e, he⟩ := putAt_full key value fuel left hf.1 hnext hfull fun v hv =>
            hnew v (.inl hv)
          rw [hdown] at he
          exact ⟨e, by rw [he]; rfl⟩
      · obtain ⟨e, he⟩ := addLeaf_full (t := { t with internals := t.internals.set _ _ }) key value hfull
        simp only [if_pos hne]
        exact ⟨e, by rw [he]; rfl⟩

end

section

variable (blake2b : Bytes → Hash)

inductive Stands (t : UrkelRootTree) : GoMap Hash Bytes → Prop
  | empty (root : t.root = 0) (leaves : t.leaves = []) (internals : t.internals = []) : Stands t ∅
  | tree {u m L I} (holds : Holds (some u) m) (repr : Repr blake2b t u [] t.root L I)
      (internals_lt : t.internals.length < t.leaves.length)
      (leaves_eq : t.leaves.length = m.keys.card) : Stands t m

variable {blake2b} {t : UrkelRootTree} {m : GoMap Hash Bytes} {key : Hash} {value : Bytes}

lemma stands_empty (blake2b : Bytes → Hash) : Stands blake2b empty ∅ := .empty rfl rfl rfl

lemma keys_putLeaves (leaves : List UrkelLeaf) : ∀ m, m.keys ⊆ (putLeaves m leaves).keys := by
  induction leaves with
  | nil => exact fun _ => Finset.Subset.refl _
  | cons leaf leaves ih =>
    intro m
    refine Finset.Subset.trans ?_ (ih (m.insert leaf.key leaf.value))
    rw [keys_insert]
    exact subset_insert _ _

namespace Stands

lemma leaves_length (h : Stands blake2b t m) : t.leaves.length = m.keys.card := by
  cases h with
  | empty _ leaves _ => simp [leaves]
  | tree _ _ _ h => exact h

lemma exists_mem_iff (h : Holds (some u) m) (key : Hash) :
    (∃ v, u.Mem key.bits v) ↔ key ∈ m.keys := by
  have hmem := h.mem_iff key
  simp only [Option.some.injEq, exists_eq_left'] at hmem
  rw [Finmap.mem_keys, Finmap.mem_iff]
  exact exists_congr hmem

/-- A `put` fails only for a new key at the node limit; else it puts the entry into the map. -/
theorem put_ok (h : Stands blake2b t m) (key : Hash) (value : Bytes)
    (hroom : t.leaves.length < nodeLimit ∨ key ∈ m.keys) :
    ∃ t', t.put blake2b key value = .ok t' ∧ Stands blake2b t' (m.insert key value) := by
  unfold put
  cases h with
  | empty root leaves internals =>
    have hl : t.leaves.length < nodeLimit := by simp [leaves, nodeLimit]
    have hput : putAt blake2b key value (urkelKeyBits + 1) t t.root 0 = .ok (leafRef 0,
        { t with leaves := t.leaves ++ [⟨key, hashUrkelValue blake2b key value⟩] }) := by
      rw [putAt, if_pos root, addLeaf_ok key value hl, leaves]
      rfl
    have hrepr := @repr_newLeaf blake2b t [] key value hl
    rw [hput]
    rw [leaves] at hrepr
    refine ⟨_, rfl, .tree (Holds.none.put key value) (hrepr.frame ?_ ?_ ?_) ?_ ?_⟩
    · simp [leaves]
    · simp
    · exact keysKept_of_leaves_eq (by simp [leaves])
    · simp [internals]
    · simp [leaves, keys_insert]
  | @tree u _ L I holds repr hlt heq =>
    obtain ⟨ref', t', L', I', hput, hspec⟩ := putAt_ok key value
      (urkelKeyBits + 1) repr (holds.fits u rfl) nil_prefix
      (hroom.imp (fun hl => ⟨hl, hlt.trans hl⟩) (exists_mem_iff holds key).2)
      (by simp [urkelKeyBits])
    have hcount := hspec.count
    simp only [length_nil] at hput
    rw [hput]
    refine ⟨_, rfl, .tree (holds.put key value)
      (hspec.repr.frame (fun _ _ => rfl) (fun _ _ => rfl) (keysKept_of_leaves_eq rfl)) ?_ ?_⟩
    · rcases hcount with ⟨h1, h2, -⟩ | ⟨h1, h2, -⟩ <;> simp only <;> omega
    · rw [keys_insert]
      rcases hcount with ⟨h1, -, hold⟩ | ⟨h1, -, hnew⟩
      · simp [h1, heq, insert_eq_of_mem ((exists_mem_iff holds key).1 hold)]
      · have hkey : key ∉ m.keys := fun hk =>
          ((exists_mem_iff holds key).2 hk).elim hnew
        simp [h1, heq, card_insert_of_notMem hkey]

variable {t' : UrkelRootTree}

lemma room_of_put (h : Stands blake2b t m) (hput : t.put blake2b key value = .ok t') :
    t.leaves.length < nodeLimit ∨ key ∈ m.keys := by
  by_contra hroom
  push Not at hroom
  cases h with
  | empty _ leaves _ => simp [leaves, nodeLimit] at hroom
  | @tree u _ _ _ holds repr _ _ =>
    obtain ⟨e, he⟩ := putAt_full key value (urkelKeyBits + 1) repr
      (holds.fits u rfl) nil_prefix hroom.1
      (fun v hv => hroom.2 ((exists_mem_iff holds key).1 ⟨v, hv⟩))
    rw [length_nil] at he
    rw [put, he] at hput
    cases hput

lemma of_put (h : Stands blake2b t m) (hput : t.put blake2b key value = .ok t') :
    Stands blake2b t' (m.insert key value) := by
  obtain ⟨t'', hput', h'⟩ := h.put_ok key value (h.room_of_put hput)
  rw [hput] at hput'
  cases hput'
  exact h'

lemma card_of_put (h : Stands blake2b t m) (hcard : m.keys.card ≤ nodeLimit)
    (hput : t.put blake2b key value = .ok t') : (m.insert key value).keys.card ≤ nodeLimit := by
  rw [keys_insert]
  rcases h.room_of_put hput with hlt | hmem
  · rw [h.leaves_length] at hlt
    exact (card_insert_le _ _).trans hlt
  · rwa [insert_eq_of_mem hmem]

variable {leaves : List UrkelLeaf}

lemma of_putAll : ∀ {t t'} {m}, Stands blake2b t m →
      t.putAll blake2b leaves = .ok t' → Stands blake2b t' (putLeaves m leaves) := by
  induction leaves with
  | nil =>
    intro t t' m h hput
    cases hput
    exact h
  | cons leaf leaves ih =>
    intro t t' m h hput
    rw [putAll, foldlM_cons, bind_eq_ok] at hput
    obtain ⟨t1, hput, hrest⟩ := hput
    exact ih (h.of_put hput) hrest

lemma card_of_putAll : ∀ {t t'} {m}, Stands blake2b t m →
      m.keys.card ≤ nodeLimit → t.putAll blake2b leaves = .ok t' →
      (putLeaves m leaves).keys.card ≤ nodeLimit := by
  induction leaves with
  | nil => exact fun _ hcard _ => hcard
  | cons leaf leaves ih =>
    intro t t' m h hcard hput
    rw [putAll, foldlM_cons, bind_eq_ok] at hput
    obtain ⟨t1, hput, hrest⟩ := hput
    exact ih (h.of_put hput) (h.card_of_put hcard hput) hrest

lemma putAll_ok (leaves : List UrkelLeaf) : ∀ {t} {m}, Stands blake2b t m →
      (putLeaves m leaves).keys.card ≤ nodeLimit →
      ∃ t', t.putAll blake2b leaves = .ok t' ∧ Stands blake2b t' (putLeaves m leaves) := by
  induction leaves with
  | nil => exact fun h _ => ⟨_, rfl, h⟩
  | cons leaf leaves ih =>
    intro t m h hcard
    have hroom : t.leaves.length < nodeLimit ∨ leaf.key ∈ m.keys := by
      by_contra hno
      push Not at hno
      have hsub := card_le_card (keys_putLeaves leaves (m.insert leaf.key leaf.value))
      rw [keys_insert, card_insert_of_notMem hno.2, ← h.leaves_length] at hsub
      have := hsub.trans hcard
      omega
    obtain ⟨t1, hput, h1⟩ := h.put_ok leaf.key leaf.value hroom
    obtain ⟨t', hrest, h'⟩ := ih h1 hcard
    refine ⟨t', ?_, h'⟩
    rw [putAll, foldlM_cons, hput]
    exact hrest

lemma rootHash_ok (h : Stands blake2b t m) (hu : Holds u m) :
    t.rootHash = .ok (rootOf blake2b u) := by
  unfold rootHash
  cases h with
  | empty root _ _ =>
    obtain rfl := hu.unique Holds.none
    rw [root]
    rfl
  | tree holds repr _ _ =>
    obtain rfl := hu.unique holds
    exact repr.nodeHash_ok

lemma exists_holds (h : Stands blake2b t m) : ∃ u, Holds u m := by
  cases h with
  | empty => exact ⟨none, Holds.none⟩
  | tree holds => exact ⟨_, holds⟩

lemma rootHash_eq (h : Stands blake2b t m) (hm : LeavesOf m leaves) :
    t.rootHash = calcUrkelRoot blake2b leaves := by
  obtain ⟨u, hu, -⟩ := buildUrkelTree_ok blake2b hm
  rw [h.rootHash_ok hu, calcUrkelRoot_ok blake2b hm hu]

end Stands

lemma stands_run {base : UrkelRootTree} (h0 : base.rebuild blake2b initial = .ok t0)
    (h : t0.putAll blake2b puts = .ok t) : Stands blake2b t (putLeaves ∅ (initial ++ puts)) := by
  have h' := ((stands_empty blake2b).of_putAll h0).of_putAll h
  rwa [putLeaves, putLeaves, ← foldl_append] at h'

/-- From an empty tree (`initial = []`) or a rebuilt one, any run of `put` calls over at most
`2 ^ 31 - 1` keys succeeds, no call fails while there are fewer than `2 ^ 31 - 1` nodes, and the
root is that of the reference tree of the final map, which depends on no order. -/
theorem rootHash_eq_calcUrkelRoot (blake2b : Bytes → Hash) (base : UrkelRootTree)
    (initial puts : List UrkelLeaf) :
    ((putLeaves ∅ (initial ++ puts)).keys.card ≤ 2 ^ 31 - 1 →
      ∃ t₀ t, base.rebuild blake2b initial = .ok t₀ ∧ t₀.putAll blake2b puts = .ok t) ∧
    ∀ t₀ t, base.rebuild blake2b initial = .ok t₀ → t₀.putAll blake2b puts = .ok t →
      (t.leaves.length + t.internals.length < 2 ^ 31 - 1 →
        ∀ key value, ∃ t', t.put blake2b key value = .ok t') ∧
      (∀ leaves, LeavesOf (putLeaves ∅ (initial ++ puts)) leaves →
        ∃ root, t.rootHash = .ok root ∧ calcUrkelRoot blake2b leaves = .ok root) ∧
      ∀ puts' t', putLeaves ∅ puts' = putLeaves ∅ (initial ++ puts) →
        empty.putAll blake2b puts' = .ok t' → t'.rootHash = t.rootHash := by
  constructor
  · intro hcard
    have hcard0 : (putLeaves ∅ initial).keys.card ≤ nodeLimit := by
      refine (card_le_card (keys_putLeaves puts _)).trans ?_
      rwa [putLeaves, putLeaves, ← foldl_append]
    obtain ⟨t₀, h0, hs0⟩ := (stands_empty blake2b).putAll_ok initial hcard0
    obtain ⟨t, h, -⟩ := hs0.putAll_ok puts (by
      rwa [putLeaves, putLeaves, ← foldl_append])
    exact ⟨t₀, t, h0, h⟩
  · intro t₀ t h0 h
    have hs := stands_run h0 h
    refine ⟨fun hnodes key value => ?_, fun leaves hm => ?_, fun puts' t' hm h' => ?_⟩
    · obtain ⟨t', h', -⟩ := hs.put_ok key value (.inl (by unfold nodeLimit; omega))
      exact ⟨t', h'⟩
    · obtain ⟨u, hu, -⟩ := buildUrkelTree_ok blake2b hm
      exact ⟨_, hs.rootHash_ok hu, calcUrkelRoot_ok blake2b hm hu⟩
    · have hs' := (stands_empty blake2b).of_putAll h'
      rw [hm] at hs'
      obtain ⟨u, hu⟩ := hs.exists_holds
      rw [hs.rootHash_ok hu, hs'.rootHash_ok hu]

end

end UrkelRootTree

end HandshakeNode
