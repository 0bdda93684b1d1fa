import HandshakeNode.Lib.Trie
import HandshakeNode.Urkel

/-!
# The bit strings of the Urkel tree

`UrkelBits.ofList` packs a list of bits as the code packs a prefix: the bits in front and zeros
behind. Inside a key the loops of `count`, `slice`, `collide` and `split` never read out of range,
and they are `matchLen`, `take` and `drop` on the lists.
-/

namespace HandshakeNode

open BitTrie List ByteBits

/-- The hash whose first bits are `l` and whose other bits are zero. -/
def Hash.ofBits (l : List Bool) : Hash :=
  ⟨setBits Hash.zero.bytes (fun i => l.getD i false) l.length, by simp⟩

def UrkelBits.ofList (l : List Bool) : UrkelBits := ⟨l.length, Hash.ofBits l⟩

def UrkelBits.toList (b : UrkelBits) : List Bool := b.data.bits.take b.size

namespace Hash

lemma getD_bits (h : Hash) (i : ℕ) : h.bits.getD i false = ByteBits.bit h.bytes i :=
  ByteBits.getD_bits h.bytes i

lemma bit_ofBits (hl : l.length ≤ 256) (i : ℕ) : bit (ofBits l).bytes i = l.getD i false := by
  simp only [ofBits]
  rw [bit_setBits (by simpa using hl), zero, bit_replicate_zero]
  by_cases hi : i < l.length
  · simp [hi]
  · simp [hi]

lemma ofBits_bits (h : Hash) : ofBits h.bits = h := by
  apply ext
  apply ext_bit (by simp)
  intro i _
  rw [bit_ofBits (by simp), getD_bits]

lemma take_bits_ofBits (hl : l.length ≤ 256) : (ofBits l).bits.take l.length = l := by
  apply ext_getElem
  · simp only [length_take, length_bits]
    omega
  · intro i h1 h2
    rw [getElem_take, ← getD_eq_getElem _ false, getD_bits, bit_ofBits hl, getD_eq_getElem _ _ h2]

lemma bits_ofBits (hl : l.length = 256) : (ofBits l).bits = l := by
  have := take_bits_ofBits hl.le
  rwa [hl, take_of_length_le (by simp)] at this

end Hash

lemma urkelHasBit_hash (key : Hash) (h : i < 256) :
    urkelHasBit key.bytes i = .ok (key.bits.getD i false) := by
  have hi : i / 8 < key.bytes.length := by
    rw [Hash.length_bytes]
    omega
  rw [Hash.getD_bits]
  unfold urkelHasBit bit
  rw [List.getElem?_eq_getElem hi, getD_eq_getElem _ _ hi]

namespace UrkelBits

variable {l : List Bool}

lemma toList_ofList (hl : l.length ≤ 256) : (ofList l).toList = l :=
  Hash.take_bits_ofBits hl

variable {b : UrkelBits}

lemma length_toList (h : b.size ≤ 256) : b.toList.length = b.size := by
  simp only [toList, length_take, Hash.length_bits]
  omega

lemma get_ok (b : UrkelBits) (h : i < 256) : b.get i = .ok (b.data.bits.getD i false) :=
  urkelHasBit_hash b.data h

lemma drop_eq_cons (h : i < l.length) : l.drop i = l.getD i false :: l.drop (i + 1) := by
  rw [drop_eq_getElem_cons h, getD_eq_getElem _ _ h]

lemma matchFrom_ok (b : UrkelBits) (key : Hash) (index depth : ℕ) :
    ∀ left matched, index + matched + left ≤ 256 → depth + matched + left ≤ 256 →
      b.matchFrom index key.bytes depth left matched =
        .ok (matched + matchLen ((b.data.bits.drop (index + matched)).take left)
          ((key.bits.drop (depth + matched)).take left))
  | 0, matched, _, _ => by simp [matchFrom, matchLen]
  | left + 1, matched, hi, hd => by
    unfold matchFrom
    rw [get_ok b (by omega), urkelHasBit_hash key (by omega)]
    simp only [ok_bind]
    rw [drop_eq_cons (l := b.data.bits) (by simp; omega),
      drop_eq_cons (l := key.bits) (by simp; omega)]
    simp only [take_succ_cons, matchLen]
    by_cases heq : b.data.bits.getD (index + matched) false = key.bits.getD (depth + matched) false
    · rw [if_neg (not_not.2 heq), if_pos heq,
        matchFrom_ok b key index depth left (matched + 1) (by omega) (by omega)]
      simp [← add_assoc, add_right_comm]
    · rw [if_pos heq, if_neg heq]
      rfl

lemma count_ok (hb : b.size ≤ 256) (key : Hash) (depth : ℕ) :
    b.count key.bytes depth = .ok (matchLen b.toList (key.bits.drop depth)) := by
  unfold count
  by_cases hd : depth ≤ 256
  · rw [matchFrom_ok b key 0 depth _ 0 (by omega) (by simp; omega)]
    simp only [zero_add, add_zero, drop_zero, Hash.length_bytes]
    have htake : b.data.bits.take (min (32 * 8 - depth) b.size) =
        b.toList.take (min (32 * 8 - depth) b.size) := by
      simp only [toList, take_take]
      congr 1
      omega
    rw [htake, matchLen_take]
    rw [length_toList hb, length_drop, Hash.length_bits]
    omega
  · have hz : key.bytes.length * 8 - depth = 0 := by
      rw [Hash.length_bytes]
      omega
    rw [hz, drop_of_length_le (by simp; omega), matchLen_comm]
    rfl

lemma has_ok (hb : b.size ≤ 256) (key : Hash) (depth : ℕ) :
    b.has key.bytes depth = .ok (decide (b.toList <+: key.bits.drop depth)) := by
  unfold has
  rw [count_ok hb]
  simp only [← matchLen_eq_length_iff, length_toList hb]
  rfl

lemma copyBits_ok (b : UrkelBits) (start : ℕ) : ∀ {n}, start + n ≤ 256 →
    b.copyBits start n = .ok (setBits Hash.zero.bytes
      (fun i => b.data.bits.getD (start + i) false) n)
  | 0, _ => rfl
  | n + 1, h => by
    unfold copyBits
    rw [copyBits_ok b start (by omega), get_ok b (by omega)]
    simp only [ok_bind, setBits, range_succ, foldl_append, foldl_cons, foldl_nil]
    split_ifs
    · unfold urkelSetBit
      rw [if_pos]
      rw [← setBits, length_setBits, Hash.length_bytes]
      omega
    · rfl

lemma slice_ok (b : UrkelBits) (h : stop ≤ 256) (hs : start ≤ stop) :
    b.slice start stop = .ok (ofList ((b.data.bits.drop start).take (stop - start))) := by
  have hlen : ((b.data.bits.drop start).take (stop - start)).length = stop - start := by
    simp only [length_take, length_drop, Hash.length_bits]
    omega
  unfold slice ofList Hash.ofBits
  simp only []
  split_ifs with hz
  · simp only [hz]
    rfl
  · rw [copyBits_ok b start (by omega)]
    simp only [ok_bind, hlen]
    congr 2
    apply Hash.ext
    simp only [Hash.ofBytes, length_setBits, Hash.length_bytes, Nat.sub_self,
      replicate_zero, append_nil]
    rw [take_of_length_le (by simp)]
    apply setBits_congr
    intro i hi
    simp [List.getElem?_take_of_lt hi]

lemma split_ok (hl : l.length ≤ 256) (hi : index < l.length) :
    (ofList l).split index = .ok (ofList (l.take index), ofList (l.drop (index + 1))) := by
  have htake : ∀ n ≤ l.length, (Hash.ofBits l).bits.take n = l.take n := by
    intro n hn
    have := congrArg (List.take n) (Hash.take_bits_ofBits hl)
    rwa [take_take, min_eq_left hn] at this
  have hdrop : ((Hash.ofBits l).bits.drop (index + 1)).take (l.length - (index + 1)) =
      l.drop (index + 1) := by
    rw [← drop_take, htake l.length le_rfl, take_length]
  have hback : (ofList l).slice (index + 1) (ofList l).size = _ := slice_ok (ofList l) hl hi
  unfold split
  rw [slice_ok (ofList l) (by omega) (Nat.zero_le _), hback]
  simp only [ofList, drop_zero, Nat.sub_zero, htake index hi.le, hdrop]
  rfl

lemma collide_ok (key' key : Hash) (hd : depth ≤ 256) :
    (fromKey key').collide key.bytes depth =
      .ok (ofList ((key'.bits.drop depth).take
        (matchLen (key'.bits.drop depth) (key.bits.drop depth)))) := by
  have hle := matchLen_le_left (key'.bits.drop depth) (key.bits.drop depth)
  rw [length_drop, Hash.length_bits] at hle
  unfold collide countFrom
  rw [matchFrom_ok _ key depth depth _ 0 (by simp; omega)
    (by simp; omega)]
  simp only [ok_bind, zero_add, add_zero, fromKey, Hash.length_bytes, urkelKeyBits]
  rw [matchLen_take (by simp only [length_drop, Hash.length_bits]; omega),
    slice_ok _ (by omega) (by omega), Nat.add_sub_cancel_left]

end UrkelBits

end HandshakeNode
