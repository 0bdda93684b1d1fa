import HandshakeNode.MetaDb
import HandshakeNode.Proofs.DbCache
import Mathlib.Data.List.Induction

/-!
# Bucket numbers and their keys

The keys of a bucket begin with its number and those of the bucket index with `bidx`. The first
number at which the two can meet is that of `-cbi`: the bucket `d` nested in it would have the key
of the counter in the index. Below that number no two buckets share a key, and in a well formed
store every bucket is found by one path only.
-/

namespace HandshakeNode

open List Option

namespace Ffldb

open SortedMaps LittleEndian

/-- The number whose bytes are `-cbi`. -/
def firstClash : ℕ := 0x2d636269

@[simp] lemma length_idBytes (id : ℕ) : (idBytes id).length = 4 := by simp [idBytes]

variable {id : ℕ}

lemma leNat_reverse_idBytes (h : id < 2 ^ 32) : leNat (idBytes id).reverse = id := by
  rw [idBytes, reverse_reverse]
  exact leNat_leBytes_of_lt h

variable {i : ℕ}

lemma idBytes_inj (hi : i < 2 ^ 32) (hj : j < 2 ^ 32) (h : idBytes i = idBytes j) : i = j := by
  rw [← leNat_reverse_idBytes hi, h, leNat_reverse_idBytes hj]

lemma copyID_idBytes (h : id < 2 ^ 32) : copyID (idBytes id) = id := by
  rw [copyID, take_left' (length_idBytes id), leNat_reverse_idBytes h]

lemma bigEndianUint32_idBytes (h : id < 2 ^ 32) : bigEndianUint32 (idBytes id) = .ok id := by
  rw [bigEndianUint32, length_idBytes, if_neg (by omega), take_of_length_le (by simp),
    leNat_reverse_idBytes h]

variable {k : Bytes}

lemma idBytes_append_inj (hi : i < 2 ^ 32) (hj : j < 2 ^ 32)
    (h : idBytes i ++ k = idBytes j ++ l) : i = j ∧ k = l := by
  obtain ⟨hid, hkl⟩ := append_inj h (by simp)
  exact ⟨idBytes_inj hi hj hid, hkl⟩

lemma lt_of_lt_firstClash (h : i < firstClash) : i < 2 ^ 32 := by
  unfold firstClash at h
  omega

section

variable (hi : i < firstClash)
include hi

lemma bucketizedKey_inj (hj : j < firstClash)
    (h : bucketizedKey i k = bucketizedKey j l) : i = j ∧ k = l :=
  idBytes_append_inj (lt_of_lt_firstClash hi) (lt_of_lt_firstClash hj) h

lemma bucketIndexKey_inj (hj : j < firstClash)
    (h : bucketIndexKey i k = bucketIndexKey j l) : i = j ∧ k = l := by
  rw [bucketIndexKey, bucketIndexKey, append_assoc, append_assoc, append_cancel_left_eq] at h
  exact idBytes_append_inj (lt_of_lt_firstClash hi) (lt_of_lt_firstClash hj) h

lemma idBytes_append_ne (hlen : bs.length = 4) (hle : firstClash ≤ leNat bs.reverse) :
    idBytes i ++ k ≠ bs ++ l := by
  intro h
  obtain ⟨hid, -⟩ := append_inj h (by simp [hlen])
  have := leNat_reverse_idBytes (lt_of_lt_firstClash hi)
  rw [hid] at this
  omega

lemma idBytes_append_ne_bidx : idBytes i ++ k ≠ bucketIndexPrefix ++ l :=
  idBytes_append_ne hi rfl (by decide)

lemma bucketizedKey_ne_bucketIndexKey : bucketizedKey i k ≠ bucketIndexKey j l := by
  exact idBytes_append_ne_bidx hi

lemma bucketizedKey_ne_curBucketID :
    bucketizedKey i k ≠ curBucketIDKeyName := idBytes_append_ne_bidx hi

lemma bucketIndexKey_ne_curBucketID : bucketIndexKey i k ≠ curBucketIDKeyName := by
  intro h
  rw [bucketIndexKey, curBucketIDKeyName, append_assoc, append_cancel_left_eq,
    show ([0x2d, 0x63, 0x62, 0x69, 0x64] : Bytes) = [0x2d, 0x63, 0x62, 0x69] ++ [0x64] from rfl] at h
  exact idBytes_append_ne hi rfl (by decide) h

end

def resolve (m : Contents) : ℕ → List Bytes → Option ℕ
  | id, [] => some id
  | id, n :: p => (m (bucketIndexKey id n)).bind fun b => resolve m (copyID b) p

lemma resolve_append : ∀ id (p q : List Bytes),
    resolve m id (p ++ q) = (resolve m id p).bind fun j => resolve m j q
  | _, [], _ => rfl
  | id, n :: p, q => by
    rw [cons_append, resolve, resolve]
    cases m (bucketIndexKey id n) with
    | none => rfl
    | some b => exact resolve_append (copyID b) p q

lemma resolve_concat (id : ℕ) (p : List Bytes) (n : Bytes) :
    resolve m id (p ++ [n]) =
      (resolve m id p).bind fun j => (m (bucketIndexKey j n)).map copyID := by
  rw [resolve_append]
  congr 1
  funext j
  rw [resolve]
  cases m (bucketIndexKey j n) <;> rfl

/-- The rows of the index and the counter fit together: `c` is the greatest number in use. -/
structure WellFormed (m : Contents) (c : ℕ) : Prop where
  lt : c < firstClash
  counter : m curBucketIDKeyName = some (idBytes c)
  row : ∀ i n b, i ≤ c → m (bucketIndexKey i n) = some b → ∃ j, b = idBytes j ∧ i < j ∧ j ≤ c
  inj : ∀ i n i' n' b, i ≤ c → i' ≤ c → m (bucketIndexKey i n) = some b →
    m (bucketIndexKey i' n') = some b → i = i' ∧ n = n'
  freshRow : ∀ i n, c < i → i < firstClash → m (bucketIndexKey i n) = none
  freshKey : ∀ i k, c < i → i < firstClash → m (bucketizedKey i k) = none

namespace WellFormed

lemma copyID_row (h : WellFormed m c) (hi : i ≤ c) (hb : m (bucketIndexKey i n) = some b) :
    b = idBytes (copyID b) ∧ i < copyID b ∧ copyID b ≤ c := by
  obtain ⟨j, rfl, hij, hj⟩ := h.row i n b hi hb
  have := h.lt
  rw [copyID_idBytes (lt_of_lt_firstClash (by omega))]
  exact ⟨rfl, hij, hj⟩

lemma resolve_le (h : WellFormed m c) : ∀ p {i j : ℕ}, i ≤ c →
    resolve m i p = some j → j ≤ c
  | [], i, j, hi, hj => by
    cases hj
    exact hi
  | n :: p, i, j, hi, hj => by
    rw [resolve, bind_eq_some_iff] at hj
    obtain ⟨b, hb, hj⟩ := hj
    exact h.resolve_le p (h.copyID_row hi hb).2.2 hj

lemma resolve_lt (h : WellFormed m c) (hj : resolve m 0 p = some j) :
    j < firstClash := lt_of_le_of_lt (h.resolve_le p (Nat.zero_le c) hj) h.lt

lemma resolve_inj (h : WellFormed m c) (hp : resolve m 0 p = some j)
    (hq : resolve m 0 q = some j) : p = q := by
  induction p using List.reverseRecOn generalizing q j with
  | nil =>
    cases hp
    rcases q.eq_nil_or_concat with rfl | ⟨q, n, rfl⟩
    · rfl
    · rw [concat_eq_append, resolve_concat, bind_eq_some_iff] at hq
      obtain ⟨i, hi, hq⟩ := hq
      obtain ⟨b, hb, hj⟩ := map_eq_some_iff.1 hq
      have := (h.copyID_row (h.resolve_le q (Nat.zero_le c) hi) hb).2.1
      omega
  | append_singleton p n ih =>
    rw [resolve_concat, bind_eq_some_iff] at hp
    obtain ⟨i, hi, hp⟩ := hp
    obtain ⟨b, hb, hj⟩ := map_eq_some_iff.1 hp
    have hic := h.resolve_le p (Nat.zero_le c) hi
    obtain ⟨hbid, hlt, -⟩ := h.copyID_row hic hb
    rcases q.eq_nil_or_concat with rfl | ⟨q, n', rfl⟩
    · cases hq
      omega
    · rw [concat_eq_append, resolve_concat, bind_eq_some_iff] at hq
      obtain ⟨i', hi', hq⟩ := hq
      obtain ⟨b', hb', hj'⟩ := map_eq_some_iff.1 hq
      have hic' := h.resolve_le q (Nat.zero_le c) hi'
      obtain ⟨hbid', -⟩ := h.copyID_row hic' hb'
      have hbb : b' = b := by rw [hbid, hbid', hj, hj']
      obtain ⟨rfl, rfl⟩ := h.inj i n i' n' b hic hic' hb (hbb ▸ hb')
      rw [ih hi hi', concat_eq_append]

end WellFormed

end Ffldb

end HandshakeNode
