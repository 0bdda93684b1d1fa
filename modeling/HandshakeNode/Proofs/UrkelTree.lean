import HandshakeNode.Proofs.UrkelBits

/-!
# The reference tree is the trie of its leaves

`UrkelNode.ofTrie` writes a trie of values as the tree of the code. Inserting into such a tree never
fails and gives the tree of the trie with the key overwritten, so `buildUrkelTree` returns the one
tree that holds exactly the given leaves, whatever their order.
-/

namespace HandshakeNode

open BitTrie LittleEndian List UrkelBits Trie UrkelNode UrkelLeaf

structure LeavesOf (m : GoMap Hash Bytes) (leaves : List UrkelLeaf) : Prop where
  nodup : (leaves.map key).Nodup
  mem_iff : ∀ leaf, leaf ∈ leaves ↔ m.lookup leaf.key = some leaf.value

/-- A trie of 256-bit keys that holds exactly the entries of a map; none for the empty map. -/
structure Holds (t : Option (Trie Bytes)) (m : GoMap Hash Bytes) : Prop where
  fits : ∀ u, t = some u → u.Fits 256 []
  mem_iff : ∀ (k : Hash) v, (∃ u, t = some u ∧ u.Mem k.bits v) ↔ m.lookup k = some v

section

variable (blake2b : Bytes → Hash)

def internalPreimage (pre : UrkelBits) (left right : Hash) : Bytes :=
  if pre.size = 0 then 0x01 :: (left.bytes ++ right.bytes)
  else 0x02 :: (leBytes 2 pre.size ++ pre.data.bytes.take pre.byteSize ++ left.bytes ++ right.bytes)

def internalHash (pre : UrkelBits) (left right : Hash) : Hash :=
  blake2b (internalPreimage pre left right)

lemma hashUrkelInternal_ok (h : pre.size ≤ 256) (left right : Hash) :
    hashUrkelInternal blake2b pre left right = .ok (internalHash blake2b pre left right) := by
  unfold hashUrkelInternal internalHash internalPreimage
  split_ifs
  · rfl
  · rw [sliceAt_of_le (by rw [Hash.length_bytes, byteSize]; omega)]
    rfl

end

section

variable (blake2b : Bytes → Hash)

def UrkelNode.ofTrie : Trie Bytes → UrkelNode
  | .leaf k v => newUrkelLeaf blake2b (Hash.ofBits k) v
  | .node pre l r =>
    .internal (ofList pre) (ofTrie l) (ofTrie r)
      (internalHash blake2b (ofList pre) (ofTrie l).hash (ofTrie r).hash)

def trieHash (t : Trie Bytes) : Hash := (ofTrie blake2b t).hash

def rootOf : Option (Trie Bytes) → Hash
  | none => Hash.zero
  | some t => trieHash blake2b t

lemma trieHash_leaf (k : List Bool) (v : Bytes) :
    trieHash blake2b (.leaf k v) = hashUrkelValue blake2b (Hash.ofBits k) v := rfl

lemma newUrkelInternalDirect_ofTrie (h : pre.length ≤ 256) (l r : Trie Bytes) :
    newUrkelInternalDirect blake2b (ofList pre) (ofTrie blake2b l)
      (ofTrie blake2b r) = .ok (ofTrie blake2b (.node pre l r)) := by
  unfold newUrkelInternalDirect
  rw [hashUrkelInternal_ok blake2b (by exact h)]
  rfl

lemma newUrkelInternal_ofTrie (h : pre.length ≤ 256) (x y : Trie Bytes) (b : Bool) :
    newUrkelInternal blake2b (ofList pre) (ofTrie blake2b x)
      (ofTrie blake2b y) b = .ok (ofTrie blake2b (.branch pre b x y)) := by
  unfold newUrkelInternal Trie.branch
  split_ifs
  · exact newUrkelInternalDirect_ofTrie blake2b h y x
  · exact newUrkelInternalDirect_ofTrie blake2b h x y

lemma ofTrie_leaf_bits (key : Hash) (value : Bytes) :
    ofTrie blake2b (.leaf key.bits value) = newUrkelLeaf blake2b key value := by
  rw [ofTrie, Hash.ofBits_bits]

lemma insertUrkelAt_ofTrie (key : Hash) (value : Bytes) {t : Trie Bytes} (hf : t.Fits 256 p)
    (hp : p <+: key.bits) : insertUrkelAt blake2b key value (ofTrie blake2b t) p.length =
      .ok (ofTrie blake2b (t.insert key.bits value p.length)) := by
  induction t using child_induction generalizing p with
  | leaf k' v' =>
    have hbits : (Hash.ofBits k').bits = k' := Hash.bits_ofBits hf.1
    have hplen : p.length ≤ 256 := length_of_fits hf
    rw [ofTrie, newUrkelLeaf, insertUrkelAt, Trie.insert]
    by_cases heq : k' = key.bits
    · subst heq
      rw [if_pos (Hash.ofBits_bits key), if_pos rfl, ofTrie_leaf_bits]
    · have hlt := split_leaf (Hash.length_bits key) hp hf heq
      set m := matchLen (k'.drop p.length) (key.bits.drop p.length) with hm
      rw [length_drop, hf.1] at hlt
      have hpre : ((k'.drop p.length).take m).length = m := by
        rw [length_take, length_drop, hf.1]
        omega
      have hne : Hash.ofBits k' ≠ key := by
        rintro rfl
        exact heq hbits.symm
      rw [if_neg hne, if_neg heq, collide_ok _ _ hplen, hbits]
      simp only [ok_bind]
      rw [show (ofList ((k'.drop p.length).take m)).size = m from hpre,
        urkelHasBit_hash key (by omega)]
      rw [← ofTrie_leaf_bits]
      exact newUrkelInternal_ofTrie blake2b (hpre.trans_le (by omega)) (.leaf key.bits value)
        (.leaf k' v') _
  | node pre l r ih =>
    have hpre := length_node_lt hf
    have hprelen : pre.length ≤ 256 := by omega
    have hle := matchLen_le_left pre (key.bits.drop p.length)
    rw [ofTrie, insertUrkelAt, count_ok (by exact hprelen), toList_ofList hprelen]
    simp only [ok_bind]
    rw [urkelHasBit_hash key (by omega)]
    simp only [ok_bind, show (ofList pre).size = pre.length from rfl]
    by_cases hm : matchLen pre (key.bits.drop p.length) = pre.length
    · have hnext := prefix_next hp hm (by simpa using hpre)
      generalize hb : key.bits.getD (p.length + pre.length) false = b at hnext
      have ih := ih b (hf.child b) hnext
      rw [show (p ++ pre ++ [b]).length = p.length + pre.length + 1 by simp [add_assoc]] at ih
      rw [insert_node hm hb, hm, if_neg (not_not.2 rfl), hb]
      cases b <;> simp only [child, if_true, Bool.false_eq_true, if_false] at ih ⊢ <;> rw [ih] <;>
        exact newUrkelInternalDirect_ofTrie blake2b hprelen _ _
    · rw [Trie.insert, if_pos hm, if_pos hm, split_ok hprelen (by omega)]
      simp only [ok_bind]
      rw [newUrkelInternalDirect_ofTrie blake2b (by rw [length_drop]; omega), ← ofTrie_leaf_bits]
      exact newUrkelInternal_ofTrie blake2b (by rw [length_take]; omega) _ _ _

def putTrie (t : Option (Trie Bytes)) (key : Hash) (value : Bytes) : Trie Bytes :=
  match t with
  | none => .leaf key.bits value
  | some t => t.insert key.bits value 0

def putLeaves (m : GoMap Hash Bytes) (leaves : List UrkelLeaf) : GoMap Hash Bytes :=
  leaves.foldl (fun m leaf => m.insert leaf.key leaf.value) m

namespace Holds

lemma none : Holds none ∅ := ⟨by simp, by simp⟩

lemma unique (h : Holds t m) (h' : Holds t' m) : t = t' := by
  have hmem : ∀ {s s'} {u}, Holds s m → Holds s' m →
      s = some u → ∀ k v, u.Mem k v → ∃ u', s' = some u' ∧ u'.Mem k v := by
    intro s s' u hs hs' hu k v hk
    have hlen := (of_mem (hs.fits u hu) hk).1
    rw [← Hash.bits_ofBits hlen] at hk ⊢
    exact (hs'.mem_iff _ v).2 ((hs.mem_iff _ v).1 ⟨u, hu, hk⟩)
  cases t with
  | none =>
    cases t' with
    | none => rfl
    | some u' =>
      obtain ⟨k, v, hk⟩ := exists_mem u'
      obtain ⟨u, hu, -⟩ := hmem h' h rfl k v hk
      cases hu
  | some u =>
    obtain ⟨k, v, hk⟩ := exists_mem u
    obtain ⟨u', rfl, -⟩ := hmem h h' rfl k v hk
    congr 1
    apply Trie.ext (h.fits u rfl) (h'.fits u' rfl)
    intro k v
    constructor
    · intro hk
      obtain ⟨_, he, hk'⟩ := hmem h h' rfl k v hk
      cases he
      exact hk'
    · intro hk
      obtain ⟨_, he, hk'⟩ := hmem h' h rfl k v hk
      cases he
      exact hk'

lemma put (h : Holds t m) (key : Hash) (value : Bytes) :
    Holds (some (putTrie t key value)) (m.insert key value) := by
  have hlookup : ∀ k v, (m.insert key value).lookup k = some v ↔
      k = key ∧ v = value ∨ k ≠ key ∧ m.lookup k = some v := by
    intro k v
    by_cases hk : k = key
    · subst hk
      simp [eq_comm]
    · simp [hk]
  have hinj : ∀ k, k.bits = key.bits ↔ k = key :=
    fun k => ⟨Hash.bits_inj, fun e => e ▸ rfl⟩
  cases t with
  | none =>
    refine ⟨fun u hu => ?_, fun k v => ?_⟩
    · cases hu
      exact ⟨Hash.length_bits key, nil_prefix⟩
    · have hempty : m.lookup k ≠ some v := fun hl => by simpa using (h.mem_iff k v).2 hl
      simp [hlookup, putTrie, Trie.Mem, hinj, hempty]
  | some u =>
    have hf := h.fits u rfl
    refine ⟨fun u' hu' => ?_, fun k v => ?_⟩
    · cases hu'
      exact fits_insert (Hash.length_bits key) hf nil_prefix
    · have hins := mem_insert (v := value) (Hash.length_bits key) hf nil_prefix k.bits v
      have hm := h.mem_iff k v
      simp only [Option.some.injEq, exists_eq_left'] at hm
      simp only [length_nil] at hins
      simp [hlookup, putTrie, hins, hm, hinj]

end Holds

lemma lookup_putLeaves (hn : (leaves.map key).Nodup) : ∀ m (leaf : UrkelLeaf),
      (putLeaves m leaves).lookup leaf.key = some leaf.value ↔
        leaf ∈ leaves ∨ leaf.key ∉ leaves.map key ∧ m.lookup leaf.key = some leaf.value := by
  induction leaves with
  | nil => simp [putLeaves]
  | cons l ls ih =>
    intro m leaf
    simp only [map_cons, nodup_cons] at hn
    have ih := ih hn.2 (m.insert l.key l.value) leaf
    simp only [putLeaves, foldl_cons] at ih ⊢
    rw [ih]
    by_cases hk : leaf.key = l.key
    · have hnot : leaf ∉ ls := fun hmem => hn.1 (hk ▸ mem_map_of_mem hmem)
      have heq : leaf = l ↔ l.value = leaf.value := by
        cases leaf
        cases l
        simp_all [eq_comm]
      have hl : (m.insert l.key l.value).lookup leaf.key = some l.value := by
        rw [hk]
        exact Finmap.lookup_insert m
      simp [hl, hk, hnot, hn.1, heq]
    · have hne : leaf ≠ l := fun e => hk (by rw [e])
      simp [hk, hne]

lemma leavesOf_putLeaves (leaves : List UrkelLeaf) (h : (leaves.map key).Nodup) :
    LeavesOf (putLeaves ∅ leaves) leaves := by
  refine ⟨h, fun leaf => ?_⟩
  rw [lookup_putLeaves h]
  simp

lemma LeavesOf.putLeaves_eq (h : LeavesOf m leaves) : putLeaves ∅ leaves = m := by
  apply Finmap.ext_lookup
  intro k
  apply Option.ext
  intro v
  have := lookup_putLeaves h.nodup ∅ ⟨k, v⟩
  simp only [Finmap.lookup_empty, reduceCtorEq, and_false, or_false] at this
  exact this.trans (h.mem_iff ⟨k, v⟩)

lemma LeavesOf.perm (h : LeavesOf m leaves) (hp : leaves'.Perm leaves) : LeavesOf m leaves' :=
  ⟨(hp.map key).nodup_iff.2 h.nodup, fun leaf => hp.mem_iff.trans (h.mem_iff leaf)⟩

lemma insertUrkel_ofTrie (h : Holds t m) (key : Hash) (value : Bytes) :
    insertUrkel blake2b (t.map (ofTrie blake2b)) key value 0 =
      .ok (ofTrie blake2b (putTrie t key value)) := by
  cases t with
  | none => rw [putTrie, ofTrie_leaf_bits]; rfl
  | some u => exact insertUrkelAt_ofTrie blake2b key value (h.fits u rfl) nil_prefix

lemma foldlM_insertUrkel (leaves : List UrkelLeaf) : ∀ {t} {m}, Holds t m →
      ∃ t', Holds t' (putLeaves m leaves) ∧
        leaves.foldlM (fun root leaf => do
          return some (← insertUrkel blake2b root leaf.key leaf.value 0))
            (t.map (ofTrie blake2b)) =
          (.ok (t'.map (ofTrie blake2b)) : Result _) := by
  induction leaves with
  | nil => exact fun h => ⟨_, h, rfl⟩
  | cons leaf leaves ih =>
    intro t m h
    obtain ⟨t', h', heq⟩ := ih (h.put leaf.key leaf.value)
    refine ⟨t', h', ?_⟩
    rw [foldlM_cons, insertUrkel_ofTrie blake2b h]
    exact heq

lemma buildUrkelTree_ok (h : LeavesOf m leaves) : ∃ t, Holds t m ∧
      buildUrkelTree blake2b leaves = .ok (t.map (ofTrie blake2b)) := by
  have hsort : LeavesOf m (sortByKey leaves) := h.perm (perm_insertionSort _ _)
  obtain ⟨t, ht, heq⟩ := foldlM_insertUrkel blake2b (sortByKey leaves) Holds.none
  rw [hsort.putLeaves_eq] at ht
  exact ⟨t, ht, heq⟩

lemma calcUrkelRoot_ok (h : LeavesOf m leaves) (ht : Holds t m) :
    calcUrkelRoot blake2b leaves = .ok (rootOf blake2b t) := by
  obtain ⟨t', ht', heq⟩ := buildUrkelTree_ok blake2b h
  obtain rfl := ht.unique ht'
  unfold calcUrkelRoot
  rw [heq]
  cases t <;> rfl

end

end HandshakeNode
