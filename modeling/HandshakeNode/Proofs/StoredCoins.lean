import HandshakeNode.NameCovenant
import HandshakeNode.Proofs.MsgBlock
import HandshakeNode.StoredCoins

/-!
# Stored coins and spend journals read back

A quantity of 64 bits is read back with the bytes it took, an amount up to `maxDoo` is decompressed
to itself, and so an entry or a journal is read back from its bytes. The main results are
`quantities_and_amounts_read_back` and `stored_coins_read_back`; `outpointKey_order` says when the
keys of two outputs sort by index.
-/

namespace HandshakeNode

open Address LittleEndian

open UInt64 (le_iff_toNat_le toNat_add toNat_and toNat_div toNat_inj toNat_mod toNat_mul toNat_or
  toNat_sub_of_le)

open List

lemma toNat_low (n : UInt64) : (n &&& 0x7f).toNat = n.toNat % 128 :=
  (toNat_and n 0x7f).trans (Nat.and_two_pow_sub_one_eq_mod n.toNat 7)

lemma toNat_low_byte (n : UInt64) : (n &&& 0x7f).toUInt8.toNat = n.toNat % 128 := by
  rw [UInt64.toNat_toUInt8, toNat_low]
  omega

lemma toNat_shiftRight_seven (n : UInt64) : (n >>> 7).toNat = n.toNat / 128 := by
  rw [UInt64.toNat_shiftRight, Nat.shiftRight_eq_div_pow]
  rfl

/-- The numbers below this one take at most so many bytes. -/
def vlqBound : ℕ → ℕ
  | 0 => 0
  | k + 1 => 128 * (vlqBound k + 1)

lemma lt_vlqBound_ten (n : UInt64) : n.toNat < vlqBound 10 := by
  have := n.toNat_lt
  have hbound : 2 ^ 64 ≤ vlqBound 10 := by decide
  omega

variable {n : UInt64}

lemma toNat_sub_one (h : n.toNat ≠ 0) : (n - 1).toNat = n.toNat - 1 :=
  toNat_sub_of_le _ _ (le_iff_toNat_le.2 (Nat.one_le_iff_ne_zero.2 h))

lemma lt_of_not_le_low (h : ¬ n ≤ 0x7f) : 127 < n.toNat := by
  rw [le_iff_toNat_le, not_le] at h
  exact h

lemma toNat_rest (h : ¬ n ≤ 0x7f) : ((n >>> 7) - 1).toNat = n.toNat / 128 - 1 := by
  have hgt := lt_of_not_le_low h
  rw [toNat_sub_one] <;> rw [toNat_shiftRight_seven]
  omega

lemma toNat_rest_lt (h : ¬ n ≤ 0x7f) (hk : n.toNat < vlqBound (k + 1)) :
    ((n >>> 7) - 1).toNat < vlqBound k := by
  have hgt := lt_of_not_le_low h
  rw [toNat_rest h]
  rw [vlqBound] at hk
  omega

lemma length_vlqLoop : ∀ {k} {mask} {n}, n.toNat < vlqBound k →
    (vlqLoop k mask n).length = sizeVLQ k n
  | 0, _, _, h => absurd h (Nat.not_lt_zero _)
  | k + 1, mask, n, h => by
    rw [vlqLoop, sizeVLQ]
    by_cases hn : n ≤ 0x7f
    · rw [if_pos hn, if_neg (UInt64.not_lt.2 hn)]
      rfl
    · rw [if_neg hn, if_pos (UInt64.not_le.1 hn), length_cons, length_vlqLoop (toNat_rest_lt hn h)]

lemma length_putVLQ (n : UInt64) : (putVLQ n).length = serializeSizeVLQ n := by
  rw [putVLQ, length_reverse, serializeSizeVLQ, length_vlqLoop (lt_vlqBound_ten n)]

/-- The number in the bytes before the last one, without a bound. -/
def continuedVLQ (n : ℕ) (front : Bytes) : ℕ :=
  front.foldl (fun n val => n * 128 + val.toNat % 128 + 1) n

@[simp] lemma continuedVLQ_concat (m : ℕ) (front : Bytes) (val : UInt8) :
    continuedVLQ m (front ++ [val]) = continuedVLQ m front * 128 + val.toNat % 128 + 1 := by
  simp [continuedVLQ]

/-- The number a byte string stands for that ends in its first byte below `0x80`. -/
def exactVLQ (front : Bytes) (last : UInt8) : ℕ := continuedVLQ 0 front * 128 + last.toNat

lemma shiftLeft_or_low (m : ℕ) (val : UInt8) :
    UInt64.ofNat m <<< 7 ||| (val &&& 0x7f).toUInt64 = UInt64.ofNat (m * 128 + val.toNat % 128) := by
  apply toNat_inj.1
  have hor := Nat.two_pow_add_eq_or_of_lt (i := 7) (b := val.toNat % 128) (by omega) (m % 2 ^ 57)
  have hshift : m % 2 ^ 64 * 2 ^ 7 % 2 ^ 64 = 2 ^ 7 * (m % 2 ^ 57) := by omega
  rw [toNat_or, UInt64.toNat_shiftLeft, UInt8.toNat_toUInt64, (byte_bits val).1,
    UInt64.toNat_ofNat', UInt64.toNat_ofNat', Nat.shiftLeft_eq]
  change m % 2 ^ 64 * 2 ^ 7 % 2 ^ 64 ||| _ = _
  rw [hshift]
  omega

lemma readVLQ_front {last : UInt8} (hlast : last.toNat < 128) (r : Bytes) :
    ∀ {front : Bytes} m size, (∀ b ∈ front, 128 ≤ b.toNat) →
      readVLQ (UInt64.ofNat m) size (front ++ last :: r) =
      (UInt64.ofNat (continuedVLQ m front * 128 + last.toNat), size + (front.length + 1))
  | [], m, size, _ => by
    have hend : last &&& 0x80 ≠ 0x80 := mt (byte_bits last).2.2.1.1 (by omega)
    rw [nil_append, readVLQ, shiftLeft_or_low, if_pos hend, Nat.mod_eq_of_lt hlast]
    rfl
  | b :: front, m, size, h => by
    obtain ⟨hb, hfront⟩ := forall_mem_cons.1 h
    have hmore : ¬ b &&& 0x80 ≠ 0x80 := not_not.2 ((byte_bits b).2.2.1.2 hb)
    have hnext : UInt64.ofNat (m * 128 + b.toNat % 128) + 1 =
        UInt64.ofNat (m * 128 + b.toNat % 128 + 1) :=
      (UInt64.ofNat_add _ 1).symm
    rw [cons_append, readVLQ, shiftLeft_or_low, if_neg hmore, hnext,
      readVLQ_front hlast r _ _ hfront]
    exact congrArg (Prod.mk _) (by simp [Nat.add_comm, Nat.add_left_comm])

lemma vlqLoop_eq : ∀ {k} mask {n : UInt64}, n.toNat < vlqBound k →
    ∃ front : Bytes, (vlqLoop k mask n).reverse = front ++ [(n &&& 0x7f).toUInt8 ||| mask] ∧
      (∀ b ∈ front, 128 ≤ b.toNat) ∧ continuedVLQ 0 front = n.toNat / 128
  | 0, _, _, h => absurd h (Nat.not_lt_zero _)
  | k + 1, mask, n, h => by
    rw [vlqLoop]
    by_cases hn : n ≤ 0x7f
    · have hle : n.toNat ≤ 127 := le_iff_toNat_le.1 hn
      exact ⟨[], by rw [if_pos hn]; rfl, by simp, (Nat.div_eq_of_lt (by omega)).symm⟩
    · have hgt := lt_of_not_le_low hn
      obtain ⟨front, hloop, hfront, hval⟩ := vlqLoop_eq 0x80 (toNat_rest_lt hn h)
      have hbyte := (byte_bits (((n >>> 7) - 1 &&& 0x7f).toUInt8)).2.2.2
      rw [toNat_low_byte, toNat_rest hn] at hbyte
      refine ⟨_, by rw [if_neg hn, reverse_cons, hloop], ?_, ?_⟩
      · rw [forall_mem_append, forall_mem_singleton]
        exact ⟨hfront, by omega⟩
      · rw [continuedVLQ_concat, hval, toNat_rest hn]
        omega

lemma putVLQ_eq (n : UInt64) : ∃ (front : Bytes) (last : UInt8), putVLQ n = front ++ [last] ∧
    (∀ b ∈ front, 128 ≤ b.toNat) ∧ last.toNat < 128 ∧ exactVLQ front last = n.toNat := by
  obtain ⟨front, hloop, hfront, hval⟩ := vlqLoop_eq 0x00 (lt_vlqBound_ten n)
  have hlow := toNat_low_byte n
  rw [UInt8.or_zero] at hloop
  exact ⟨front, _, hloop, hfront, by omega, by rw [exactVLQ]; omega⟩

lemma deserializeVLQ_putVLQ (n : UInt64) (r : Bytes) :
    deserializeVLQ (putVLQ n ++ r) = (n, (putVLQ n).length) := by
  obtain ⟨front, last, heq, hfront, hlast, hval⟩ := putVLQ_eq n
  rw [heq, append_assoc]
  refine (readVLQ_front hlast r 0 0 hfront).trans ?_
  rw [exactVLQ] at hval
  rw [hval, UInt64.ofNat_toNat, length_append, Nat.zero_add]
  rfl

lemma continuedVLQ_pos (h : front ≠ []) : 0 < continuedVLQ 0 front := by
  obtain ⟨s, b, rfl⟩ := (eq_nil_or_concat' front).resolve_left h
  rw [continuedVLQ_concat]
  exact Nat.succ_pos _

lemma continuedVLQ_injective {s : Bytes} : ∀ {t : Bytes}, (∀ b ∈ s, 128 ≤ b.toNat) →
    (∀ b ∈ t, 128 ≤ b.toNat) → continuedVLQ 0 s = continuedVLQ 0 t → s = t := by
  induction s using reverseRecOn with
  | nil =>
    intro t _ _ h
    by_contra hne
    exact (continuedVLQ_pos (Ne.symm hne)).ne h
  | append_singleton s b ih =>
    intro t hs ht h
    rcases eq_nil_or_concat' t with rfl | ⟨t, c, rfl⟩
    · exact absurd h (continuedVLQ_pos (by simp)).ne'
    rw [forall_mem_append, forall_mem_singleton] at hs ht
    have hb := b.toNat_lt
    have hc := c.toNat_lt
    rw [continuedVLQ_concat, continuedVLQ_concat] at h
    rw [ih hs.1 ht.1 (by omega), UInt8.toNat_inj.1 (show b.toNat = c.toNat by omega)]

lemma append_lt_append_iff {s t : Bytes} : ∀ {xs ys : Bytes}, xs.length = ys.length →
    (xs ++ s < ys ++ t ↔ xs < ys ∨ xs = ys ∧ s < t)
  | [], [], _ => by simp
  | x :: xs, y :: ys, h => by
    rw [cons_append, cons_append, cons_lt_cons_iff, cons_lt_cons_iff,
      append_lt_append_iff (Nat.succ.inj h), cons.injEq]
    tauto

lemma singleton_lt_singleton {b c : UInt8} : [b] < [c] ↔ b.toNat < c.toNat := by
  simp [cons_lt_cons_iff, UInt8.lt_iff_toNat_lt]

lemma continuedVLQ_lt_iff {s : Bytes} : ∀ {t : Bytes}, (∀ b ∈ s, 128 ≤ b.toNat) →
    (∀ b ∈ t, 128 ≤ b.toNat) → s.length = t.length →
      (s < t ↔ continuedVLQ 0 s < continuedVLQ 0 t) := by
  induction s using reverseRecOn with
  | nil =>
    intro t _ _ h
    rw [length_eq_zero_iff.1 h.symm]
    simp
  | append_singleton s b ih =>
    intro t hs ht hlen
    rcases eq_nil_or_concat' t with rfl | ⟨t, c, rfl⟩
    · simp at hlen
    rw [length_append, length_append] at hlen
    have hlen := Nat.add_right_cancel hlen
    rw [forall_mem_append, forall_mem_singleton] at hs ht
    have hb := b.toNat_lt
    have hc := c.toNat_lt
    have heq : s = t ↔ continuedVLQ 0 s = continuedVLQ 0 t :=
      ⟨congrArg _, continuedVLQ_injective hs.1 ht.1⟩
    rw [append_lt_append_iff hlen, ih hs.1 ht.1 hlen, heq, singleton_lt_singleton,
      continuedVLQ_concat, continuedVLQ_concat]
    omega

/-- The number that the bytes of `n` before its last `k + 1` ones stand for. -/
def leadVLQ (k n : ℕ) : ℕ := (fun x => (x - 1) / 128)^[k] (n / 128)

lemma leadVLQ_append {m : ℕ} (h : continuedVLQ 0 (s ++ t) = m / 128) :
    leadVLQ t.length m = continuedVLQ 0 s := by
  rw [leadVLQ, ← h]
  clear h
  induction t using reverseRecOn with
  | nil => simp
  | append_singleton t b ih =>
    rw [length_append, length_singleton, Function.iterate_succ_apply, ← append_assoc,
      continuedVLQ_concat, ← ih]
    congr 1
    omega

lemma sizeVLQ_mono : ∀ k {n m : UInt64}, n ≤ m → sizeVLQ k n ≤ sizeVLQ k m
  | 0, _, _, _ => le_rfl
  | k + 1, n, m, h => by
    rw [sizeVLQ, sizeVLQ]
    by_cases hn : n ≤ 0x7f
    · rw [if_neg (UInt64.not_lt.2 hn)]
      split_ifs <;> omega
    · have hm : ¬ m ≤ 0x7f := fun hm => hn (UInt64.le_trans h hm)
      rw [if_pos (UInt64.not_le.1 hn), if_pos (UInt64.not_le.1 hm)]
      refine Nat.succ_le_succ (sizeVLQ_mono k ?_)
      rw [le_iff_toNat_le] at h ⊢
      rw [toNat_rest hn, toNat_rest hm]
      omega

/-- Two quantities sort by what stands before the last byte of the smaller one. -/
theorem putVLQ_lt_iff {n m : UInt64} (h : n < m) :
    (putVLQ n < putVLQ m ↔
      n.toNat / 128 ≤ leadVLQ (serializeSizeVLQ m - serializeSizeVLQ n) m.toNat) ∧
    (putVLQ m < putVLQ n ↔
      leadVLQ (serializeSizeVLQ m - serializeSizeVLQ n) m.toNat < n.toNat / 128) := by
  have hsize : (putVLQ n).length ≤ (putVLQ m).length := by
    rw [length_putVLQ, length_putVLQ]
    exact sizeVLQ_mono 10 (UInt64.le_of_lt h)
  rw [UInt64.lt_iff_toNat_lt] at h
  rw [← length_putVLQ, ← length_putVLQ]
  obtain ⟨s, b, hn, hs, hb, hnval⟩ := putVLQ_eq n
  obtain ⟨t, c, hm, ht, hc, hmval⟩ := putVLQ_eq m
  rw [exactVLQ] at hnval hmval
  simp only [hn, hm, length_append, length_singleton] at hsize ⊢
  -- The front of the longer string is cut at the length of the other one.
  obtain ⟨t1, t2, rfl, hlen⟩ : ∃ t1 t2, t = t1 ++ t2 ∧ s.length = t1.length :=
    ⟨t.take s.length, t.drop s.length, (take_append_drop ..).symm, by simp; omega⟩
  obtain ⟨ht1, ht2⟩ := forall_mem_append.1 ht
  have hdiff : (t1 ++ t2).length + 1 - (s.length + 1) = t2.length := by
    rw [length_append]
    omega
  have heq : s = t1 ↔ continuedVLQ 0 s = continuedVLQ 0 t1 :=
    ⟨congrArg _, continuedVLQ_injective hs ht1⟩
  rw [hdiff, leadVLQ_append (s := t1) (by omega), append_assoc, append_lt_append_iff hlen,
    append_lt_append_iff hlen.symm, continuedVLQ_lt_iff hs ht1 hlen,
    continuedVLQ_lt_iff ht1 hs hlen.symm, eq_comm (a := t1), heq]
  cases t2 with
  | nil =>
    rw [append_nil] at hmval
    rw [nil_append, singleton_lt_singleton, singleton_lt_singleton]
    omega
  | cons x t2 =>
    have hx := (forall_mem_cons.1 ht2).1
    simp only [cons_append, cons_lt_cons_iff, UInt8.lt_iff_toNat_lt, ← UInt8.toNat_inj]
    omega

/-- The key of the output with the smaller index comes first. -/
def SortsRight (i j : UInt32) : Prop :=
  i.toNat / 128 ≤ leadVLQ (serializeSizeVLQ j.toUInt64 - serializeSizeVLQ i.toUInt64) j.toNat

theorem outpointKey_inverts_indexes :
    outpointKey ⟨Hash.zero, 16512⟩ < outpointKey ⟨Hash.zero, 16511⟩ := by
  decide +kernel

/-- Keys sort as the outputs do, exactly when for two indexes of one transaction the bytes before
the last one of the smaller index stand for no more than as many bytes of the greater one. -/
theorem outpointKey_order (a b : OutPoint) :
    (outpointKey a = outpointKey b → a = b) ∧
      ((outpointKey a < outpointKey b ↔
          a.hash.bytes < b.hash.bytes ∨ a.hash = b.hash ∧ a.index < b.index) ↔
        (a.hash = b.hash → (a.index < b.index → SortsRight a.index b.index) ∧
          (b.index < a.index → SortsRight b.index a.index))) := by
  obtain ⟨⟨x, hx⟩, i⟩ := a
  obtain ⟨⟨y, hy⟩, j⟩ := b
  have hindex : ∀ {i j : UInt32}, i < j →
      (putVLQ i.toUInt64 < putVLQ j.toUInt64 ↔ SortsRight i j) ∧
        (putVLQ j.toUInt64 < putVLQ i.toUInt64 ↔ ¬ SortsRight i j) := fun {i j} hij => by
    simpa [SortsRight] using putVLQ_lt_iff (n := i.toUInt64) (m := j.toUInt64) (by simpa using hij)
  refine ⟨fun h => ?_, ?_⟩
  · obtain ⟨rfl, h⟩ := append_inj h (hx.trans hy.symm)
    have hread := congrArg (deserializeVLQ <| · ++ []) h
    simp only [deserializeVLQ_putVLQ, Prod.mk.injEq] at hread
    rw [UInt32.toUInt64_inj.1 hread.1]
  rw [outpointKey, outpointKey, append_lt_append_iff (hx.trans hy.symm)]
  by_cases hxy : x = y
  · subst hxy
    have hirrefl : ¬ x < x := List.lt_irrefl x
    rcases Nat.lt_trichotomy i.toNat j.toNat with hij | hij | hij
    · rw [← UInt32.lt_iff_toNat_lt] at hij
      simp [hij, UInt32.lt_asymm hij, (hindex hij).1]
    · obtain rfl := UInt32.toNat_inj.1 hij
      simp
    · rw [← UInt32.lt_iff_toNat_lt] at hij
      simp [hirrefl, hij, UInt32.lt_asymm hij, (hindex hij).2]
  · simp [hxy]

theorem outpointKey_order_threeBytes :
    outpointKey ⟨Hash.zero, 128⟩ < outpointKey ⟨Hash.zero, 32895⟩ :=
  ((outpointKey_order ⟨Hash.zero, 128⟩ ⟨Hash.zero, 32895⟩).2.2 fun _ =>
    ⟨fun _ => by unfold SortsRight; decide +kernel, fun h => absurd h (by decide)⟩).2
    (.inr ⟨rfl, by decide⟩)

lemma stripZeros_ok : ∀ k (amount exponent : UInt64), ∃ (m : UInt64) (j : ℕ),
    stripZeros k amount exponent = (m, exponent + UInt64.ofNat j) ∧ j ≤ k ∧
      amount.toNat = m.toNat * 10 ^ j ∧ (j < k → m.toNat % 10 ≠ 0)
  | 0, amount, exponent =>
    ⟨amount, 0, by simp [stripZeros], le_rfl, by simp, fun h => absurd h (by simp)⟩
  | k + 1, amount, exponent => by
    rw [stripZeros]
    have hmod : amount % 10 = 0 ↔ amount.toNat % 10 = 0 := by
      rw [← toNat_inj]
      rfl
    by_cases hzero : amount % 10 = 0
    · rw [if_pos hzero]
      obtain ⟨m, j, hm, hj, hval, hlast⟩ := stripZeros_ok k (amount / 10) (exponent + 1)
      have hdiv : (amount / 10).toNat = amount.toNat / 10 := toNat_div amount 10
      refine ⟨m, j + 1, ?_, by omega, ?_, fun h => hlast (by omega)⟩
      · rw [hm, UInt64.ofNat_add, UInt64.add_assoc, UInt64.add_comm 1]
        rfl
      · rw [pow_succ, ← mul_assoc]
        have := hmod.1 hzero
        omega
    · exact ⟨amount, 0, by rw [if_neg hzero]; simp, by omega, by simp, fun _ h => hzero (hmod.2 h)⟩

lemma toNat_applyExponent : ∀ k (n : UInt64), n.toNat * 10 ^ k < 2 ^ 64 →
    (applyExponent k n).toNat = n.toNat * 10 ^ k
  | 0, n, _ => by simp [applyExponent]
  | k + 1, n, h => by
    have hpow : n.toNat * 10 ^ (k + 1) = n.toNat * 10 * 10 ^ k := by rw [pow_succ]; ring
    rw [hpow] at h ⊢
    have hten : n.toNat * 10 < 2 ^ 64 :=
      lt_of_le_of_lt (Nat.le_mul_of_pos_right _ (by positivity)) h
    have hmul : (n * 10).toNat = n.toNat * 10 := by
      exact Nat.mod_eq_of_lt hten
    rw [applyExponent, toNat_applyExponent k (n * 10) (by rwa [hmul]), hmul]

lemma toNat_digitCode (hj : j < 9) (hm : m.toNat ≤ maxDoo) (hlast : m.toNat % 10 ≠ 0) :
    (1 + 10 * (9 * (m / 10) + m % 10 - 1) + UInt64.ofNat j).toNat =
      1 + 10 * (9 * (m.toNat / 10) + m.toNat % 10 - 1) + j := by
  have hmax : maxDoo = 2040000000000000 := rfl
  have hsum : (9 * (m / 10) + m % 10).toNat = 9 * (m.toNat / 10) + m.toNat % 10 := by
    change (9 * (m.toNat / 10) % 2 ^ 64 + m.toNat % 10) % 2 ^ 64 = _
    omega
  have hsub : (9 * (m / 10) + m % 10 - 1).toNat = 9 * (m.toNat / 10) + m.toNat % 10 - 1 := by
    rw [toNat_sub_one] <;> rw [hsum]
    omega
  rw [toNat_add, toNat_add, toNat_mul, hsub,
    UInt64.toNat_ofNat_of_lt' (show j < UInt64.size by change j < 2 ^ 64; omega)]
  change ((1 + 10 * (9 * (m.toNat / 10) + m.toNat % 10 - 1) % 2 ^ 64) % 2 ^ 64 + j) % 2 ^ 64 = _
  omega

lemma toNat_roundCode {m : UInt64} (hm : m.toNat ≤ maxDoo) (hpos : m.toNat ≠ 0) :
    (10 + 10 * (m - 1)).toNat = 10 * m.toNat := by
  have hmax : maxDoo = 2040000000000000 := rfl
  rw [toNat_add, toNat_mul, toNat_sub_one hpos]
  change (10 + 10 * (m.toNat - 1) % 2 ^ 64) % 2 ^ 64 = _
  omega

lemma decompressTxOutAmount_of_toNat {m : UInt64} (hj : j ≤ 9)
    (hm : m.toNat * 10 ^ j < 2 ^ 64) (hsmall : m.toNat ≤ maxDoo) (hpos : m.toNat ≠ 0)
    (hcode : code.toNat = if j < 9 then
      1 + 10 * (9 * (m.toNat / 10) + m.toNat % 10 - 1) + j else 10 * m.toNat)
    (hlast : j < 9 → m.toNat % 10 ≠ 0) : (decompressTxOutAmount code).toNat = m.toNat * 10 ^ j := by
  have hmax : maxDoo = 2040000000000000 := rfl
  have hne : code.toNat ≠ 0 := by
    split at hcode <;> omega
  have hsub := toNat_sub_one hne
  have hexp : ((code - 1) % 10).toNat = j := by
    rw [toNat_mod, hsub]
    change (code.toNat - 1) % 10 = j
    split at hcode <;> omega
  have hdiv : ((code - 1) / 10).toNat = (code.toNat - 1) / 10 := by
    rw [toNat_div, hsub]
    rfl
  have hlt : (code - 1) % 10 < 9 ↔ j < 9 := by
    rw [UInt64.lt_iff_toNat_lt, hexp]
    rfl
  rw [decompressTxOutAmount, if_neg fun h => hne (by rw [h]; rfl)]
  dsimp only
  rw [hexp]
  by_cases hj' : j < 9
  · rw [if_pos (hlt.2 hj')]
    rw [if_pos hj'] at hcode
    have hval : ((code - 1) / 10 / 9 * 10 + ((code - 1) / 10 % 9 + 1)).toNat = m.toNat := by
      rw [toNat_add, toNat_mul, toNat_add, toNat_mod, toNat_div, hdiv]
      change ((code.toNat - 1) / 10 / 9 * 10 % 2 ^ 64 + ((code.toNat - 1) / 10 % 9 + 1) % 2 ^ 64) %
        2 ^ 64 = _
      omega
    rw [toNat_applyExponent _ _ (by rwa [hval]), hval]
  · rw [if_neg fun h => hj' (hlt.1 h)]
    rw [if_neg hj'] at hcode
    have hval : ((code - 1) / 10 + 1).toNat = m.toNat := by
      rw [toNat_add, hdiv]
      change ((code.toNat - 1) / 10 + 1) % 2 ^ 64 = _
      omega
    rw [toNat_applyExponent _ _ (by rwa [hval]), hval]

/-- The compressed amount is the number that the formula gives over numbers without a bound. -/
lemma compressTxOutAmount_exact {amount : UInt64} (h : amount.toNat ≤ maxDoo) (hzero : amount ≠ 0) :
    ∃ (m : UInt64) (j : ℕ), j ≤ 9 ∧ amount.toNat = m.toNat * 10 ^ j ∧ m.toNat ≠ 0 ∧
      (j < 9 → m.toNat % 10 ≠ 0) ∧ m.toNat ≤ maxDoo ∧ (compressTxOutAmount amount).toNat = if j < 9 then
        1 + 10 * (9 * (m.toNat / 10) + m.toNat % 10 - 1) + j else 10 * m.toNat := by
  obtain ⟨m, j, hm, hj, hval, hlast⟩ := stripZeros_ok 9 amount 0
  rw [UInt64.zero_add] at hm
  have hpos : m.toNat ≠ 0 := fun h0 =>
    hzero (toNat_inj.1 (by rw [hval, h0, Nat.zero_mul]; rfl))
  have hsmall : m.toNat ≤ maxDoo :=
    (Nat.le_mul_of_pos_right _ (by positivity)).trans (hval ▸ h)
  have hexp : UInt64.ofNat j < 9 ↔ j < 9 := by
    rw [UInt64.lt_iff_toNat_lt, UInt64.toNat_ofNat_of_lt' (by change j < 2 ^ 64; omega)]
    rfl
  refine ⟨m, j, hj, hval, hpos, hlast, hsmall, ?_⟩
  rw [compressTxOutAmount, if_neg hzero, hm]
  dsimp only
  by_cases hj' : j < 9
  · rw [if_pos (hexp.2 hj'), if_pos hj', toNat_digitCode hj' hsmall (hlast hj')]
  · rw [if_neg fun h => hj' (hexp.1 h), if_neg hj', toNat_roundCode hsmall hpos]

lemma decompressTxOutAmount_compressTxOutAmount {amount : UInt64} (h : amount.toNat ≤ maxDoo) :
    decompressTxOutAmount (compressTxOutAmount amount) = amount := by
  by_cases hzero : amount = 0
  · rw [hzero]
    rfl
  have hmax : maxDoo = 2040000000000000 := rfl
  obtain ⟨m, j, hj, hval, hpos, hlast, hsmall, hcode⟩ := compressTxOutAmount_exact h hzero
  apply toNat_inj.1
  rw [hval, decompressTxOutAmount_of_toNat hj (by omega) hsmall hpos hcode hlast]

/-- `putVLQ` is a prefix code for all strings that end in their first byte below `0x80`, and amounts
are compressed by exact arithmetic and read back. -/
theorem quantities_and_amounts_read_back :
    (∀ (n : UInt64) (r : Bytes), deserializeVLQ (putVLQ n ++ r) = (n, serializeSizeVLQ n)) ∧
    (∀ (n m : UInt64) (r : Bytes), putVLQ m = putVLQ n ++ r → r = []) ∧
    (∀ (front : Bytes) (last : UInt8), (∀ b ∈ front, 128 ≤ b.toNat) → last.toNat < 128 →
      exactVLQ front last < 2 ^ 64 →
        (deserializeVLQ (front ++ [last])).1.toNat = exactVLQ front last ∧
        putVLQ (deserializeVLQ (front ++ [last])).1 = front ++ [last]) ∧
    ∀ amount : UInt64, amount.toNat ≤ maxDoo →
      decompressTxOutAmount (compressTxOutAmount amount) = amount ∧ (amount ≠ 0 →
        ∃ m j : ℕ, j ≤ 9 ∧ amount.toNat = m * 10 ^ j ∧ (compressTxOutAmount amount).toNat =
          if j < 9 then 1 + 10 * (9 * (m / 10) + m % 10 - 1) + j else 10 * m) := by
  refine ⟨fun n r => ?_, fun n m r h => ?_, fun front last hfront hlast hfit => ?_, fun amount h =>
    ⟨decompressTxOutAmount_compressTxOutAmount h, fun hzero => ?_⟩⟩
  · rw [deserializeVLQ_putVLQ, length_putVLQ]
  · have hread := deserializeVLQ_putVLQ n r
    rw [← h, ← append_nil (putVLQ m), deserializeVLQ_putVLQ, Prod.mk.injEq, h, length_append] at hread
    exact length_eq_zero_iff.1 (by omega)
  · have hread := readVLQ_front hlast [] 0 0 hfront
    obtain ⟨s, b, hput, hs, hb, hval⟩ := putVLQ_eq (UInt64.ofNat (exactVLQ front last))
    rw [UInt64.toNat_ofNat_of_lt' hfit, exactVLQ, exactVLQ] at hval
    rw [deserializeVLQ, show (0 : UInt64) = UInt64.ofNat 0 from rfl, hread]
    refine ⟨UInt64.toNat_ofNat_of_lt' hfit, hput.trans ?_⟩
    rw [continuedVLQ_injective hs hfront (by omega), UInt8.toNat_inj.1 (show b.toNat = last.toNat by omega)]
  · obtain ⟨m, j, hj, hval, -, -, -, hcode⟩ := compressTxOutAmount_exact h hzero
    exact ⟨m.toNat, j, hj, hval, hcode⟩

theorem quantities_and_amounts_read_back_values :
    putVLQ (deserializeVLQ ([0x81] ++ [0x00])).1 = [0x81] ++ [0x00] ∧
      decompressTxOutAmount (compressTxOutAmount 12345678) = 12345678 :=
  have h := quantities_and_amounts_read_back
  ⟨(h.2.2.1 [0x81] 0x00 (by simp) (by decide) (by decide)).2, (h.2.2.2 _ (by decide)).1⟩

lemma headerHeight_headerCode (height : Int32) (isCoinBase : Bool) :
    headerHeight (headerCode height isCoinBase) = height := by
  apply Int32.toBitVec_inj.1
  apply BitVec.eq_of_getLsbD_eq
  intro i hi
  have h1 : 1 + i < 64 := by omega
  cases isCoinBase <;>
    simp [headerHeight, headerCode, BitVec.getElem_signExtend, hi, h1]

lemma or_one_and_one (n : UInt64) : (n ||| 1) &&& 1 = 1 := by
  apply toNat_inj.1
  change (n.toNat ||| 1) &&& 1 = 1
  rw [Nat.and_or_distrib_right, Nat.and_one_is_mod]
  rcases Nat.mod_two_eq_zero_or_one n.toNat with h | h <;> rw [h] <;> rfl

lemma shiftLeft_one_and_one (n : UInt64) : n <<< 1 &&& 1 = 0 := by
  apply toNat_inj.1
  rw [toNat_and, UInt64.toNat_shiftLeft, Nat.shiftLeft_eq]
  change n.toNat * 2 ^ 1 % 2 ^ 64 &&& 1 = 0
  rw [Nat.and_one_is_mod]
  omega

lemma headerIsCoinBase_headerCode (height : Int32) (isCoinBase : Bool) :
    headerIsCoinBase (headerCode height isCoinBase) = isCoinBase := by
  cases isCoinBase
  · simp [headerIsCoinBase, headerCode, shiftLeft_one_and_one]
  · simp [headerIsCoinBase, headerCode, or_one_and_one]

lemma not_length_le_append {r : Bytes} (hr : 0 < r.length) : ¬ (b.length ≥ (b ++ r).length) := by
  rw [length_append]
  omega

@[mk_iff] structure Storable (amount : Int64) (address : Address) (covenant : Covenant) : Prop where
  nonneg : 0 ≤ amount.toInt
  le_maxDoo : amount.toInt ≤ maxDoo
  address : address.Valid
  covenant : covenant.Valid

def storedTxOut (amount : Int64) (address : Address) (covenant : Covenant) : Bytes :=
  putVLQ (compressTxOutAmount amount.toUInt64) ++ (address.encoded ++ covenant.encoded)

section

variable {address : Address} {covenant : Covenant}

lemma Storable.toNat_le (h : Storable amount address covenant) :
    amount.toUInt64.toNat ≤ maxDoo := by
  have h1 := h.nonneg
  have h2 := h.le_maxDoo
  have hint : amount.toInt = if 2 * amount.toUInt64.toNat < 2 ^ 64 then (amount.toUInt64.toNat : ℤ)
      else amount.toUInt64.toNat - 2 ^ 64 := BitVec.toInt_eq_toNat_cond amount.toBitVec
  have hlt := amount.toUInt64.toNat_lt
  split at hint <;> omega

lemma length_storedTxOut (amount : Int64) (address : Address) (covenant : Covenant) :
    (storedTxOut amount address covenant).length =
      compressedHnsTxOutSize amount.toUInt64 address covenant := by
  rw [storedTxOut, compressedHnsTxOutSize, length_append, length_append, length_putVLQ,
    length_encoded, Covenant.length_encoded, Nat.add_assoc]

lemma putCompressedHnsTxOut_ok (h : Storable amount address covenant) :
    putCompressedHnsTxOut amount.toUInt64 address covenant =
      .ok (storedTxOut amount address covenant) := by
  have hsize : (address.encoded ++ covenant.encoded).length =
      address.serializeSize + covenant.serializeSize := by
    rw [length_append, length_encoded, Covenant.length_encoded]
  rw [putCompressedHnsTxOut, encode_eq_ok.2 ⟨h.address, rfl⟩,
    Covenant.encode_eq_ok.2 ⟨h.covenant, rfl⟩]
  simp [orPanic, Except.mapError, hsize, storedTxOut, failIf, bind, Except.bind]

lemma decodeCompressedHnsTxOut_ok (h : Storable amount address covenant) (r : Bytes) :
    decodeCompressedHnsTxOut (storedTxOut amount address covenant ++ r) =
      .ok ((amount.toUInt64, address, covenant), r) := by
  have hbytes : storedTxOut amount address covenant ++ r =
      putVLQ (compressTxOutAmount amount.toUInt64) ++
        (address.encoded ++ (covenant.encoded ++ r)) := by
    simp [storedTxOut]
  have hpos : 0 < (address.encoded ++ (covenant.encoded ++ r)).length := by
    rw [length_append, length_encoded, serializeSize]
    omega
  rw [hbytes, decodeCompressedHnsTxOut, deserializeVLQ_putVLQ]
  dsimp only
  rw [failIf_of_not (not_length_le_append hpos), drop_left, lawful_decode.dec_enc _ _ h.address]
  simp [orDeserialize, Except.mapError, Covenant.lawful_decode.dec_enc _ _ h.covenant,
    decompressTxOutAmount_compressTxOutAmount h.toNat_le]

end

lemma fillSlice_exact (written : Bytes) : fillSlice written.length written = .ok written := by
  rw [fillSlice, failIf_of_not (Nat.lt_irrefl _), Nat.sub_self, replicate_zero, append_nil]
  rfl

lemma length_storedTxOut_pos (amount : Int64) (address : Address) (covenant : Covenant)
    (r : Bytes) : 0 < (storedTxOut amount address covenant ++ r).length := by
  rw [length_append, length_storedTxOut, compressedHnsTxOutSize, serializeSize]
  omega

/-- The bytes of an unspent entry. -/
def UtxoEntry.bytes (entry : UtxoEntry) : Bytes :=
  putVLQ (headerCode entry.blockHeight entry.isCoinBase) ++
    storedTxOut entry.amount entry.address entry.covenant

section

variable {entry : UtxoEntry} (h : Storable entry.amount entry.address entry.covenant)
include h

lemma serializeUtxoEntry_ok (hspent : entry.isSpent = false) :
    serializeUtxoEntry entry = .ok (some entry.bytes) := by
  have hsize : serializeSizeVLQ (headerCode entry.blockHeight entry.isCoinBase) +
      compressedHnsTxOutSize entry.amount.toUInt64 entry.address entry.covenant =
      entry.bytes.length := by
    rw [UtxoEntry.bytes, length_append, length_putVLQ, length_storedTxOut]
  have hcode : utxoEntryHeaderCode entry = .ok (headerCode entry.blockHeight entry.isCoinBase) := by
    rw [utxoEntryHeaderCode, failIf_of_not (by simp [hspent])]
    rfl
  rw [serializeUtxoEntry, if_neg (by simp [hspent]), hcode]
  dsimp only [bind, Except.bind]
  rw [putCompressedHnsTxOut_ok h]
  dsimp only
  rw [hsize]
  change fillSlice entry.bytes.length entry.bytes >>= _ = _
  rw [fillSlice_exact]
  rfl

lemma deserializeUtxoEntry_ok : deserializeUtxoEntry entry.bytes = .ok
    { entry with
      pkScript := txOutPkScript ⟨entry.amount, entry.address, entry.covenant⟩
      packedFlags := { coinBase := entry.isCoinBase } } := by
  have hpos := length_storedTxOut_pos entry.amount entry.address entry.covenant []
  have hdecode := decodeCompressedHnsTxOut_ok h []
  rw [append_nil] at hpos hdecode
  rw [deserializeUtxoEntry, UtxoEntry.bytes, deserializeVLQ_putVLQ]
  dsimp only
  rw [failIf_of_not (not_length_le_append hpos), drop_left, hdecode]
  simp [orDeserialize, Except.mapError, headerHeight_headerCode, headerIsCoinBase_headerCode]

end

namespace SpentTxOut

def Storable (stxo : SpentTxOut) : Prop :=
  HandshakeNode.Storable stxo.amount stxo.address stxo.covenant

/-- The script of a stored output is not stored: it is derived from the address. -/
def rescripted (stxo : SpentTxOut) : SpentTxOut :=
  { stxo with pkScript := txOutPkScript ⟨stxo.amount, stxo.address, stxo.covenant⟩ }

def stored (stxo : SpentTxOut) : Bytes :=
  putVLQ (spentTxOutHeaderCode stxo) ++
    ((if stxo.height > 0 then putVLQ 0 else []) ++
      storedTxOut stxo.amount stxo.address stxo.covenant)

variable {stxo : SpentTxOut}

lemma length_stored (stxo : SpentTxOut) : stxo.stored.length = spentTxOutSerializeSize stxo := by
  rw [stored, spentTxOutSerializeSize, length_append, length_append, length_putVLQ,
    length_storedTxOut]
  split
  · rw [length_putVLQ, Nat.add_assoc]
  · rw [length_nil, Nat.add_assoc]

lemma length_stored_pos (stxo : SpentTxOut) (r : Bytes) : 0 < (stxo.stored ++ r).length := by
  have := length_storedTxOut_pos stxo.amount stxo.address stxo.covenant []
  simp only [stored, length_append, length_nil] at this ⊢
  omega

lemma putSpentTxOut_ok (h : stxo.Storable) : putSpentTxOut stxo = .ok stxo.stored := by
  rw [putSpentTxOut, putCompressedHnsTxOut_ok h]
  rfl

lemma decodeSpentTxOutTail_ok (h : stxo.Storable) (r : Bytes) :
    decodeSpentTxOutTail (spentTxOutHeaderCode stxo)
      (storedTxOut stxo.amount stxo.address stxo.covenant ++ r) = .ok (stxo.rescripted, r) := by
  rw [decodeSpentTxOutTail, decodeCompressedHnsTxOut_ok h]
  simp [orDeserialize, Except.mapError, spentTxOutHeaderCode, headerHeight_headerCode,
    headerIsCoinBase_headerCode, rescripted]

lemma decodeSpentTxOutHns_ok (h : stxo.Storable) (r : Bytes) :
    decodeSpentTxOutHns (stxo.stored ++ r) = .ok (stxo.rescripted, r) := by
  have hpos := length_storedTxOut_pos stxo.amount stxo.address stxo.covenant r
  have hheight : headerHeight (spentTxOutHeaderCode stxo) = stxo.height :=
    headerHeight_headerCode stxo.height stxo.isCoinBase
  rw [decodeSpentTxOutHns, failIf_of_not (length_stored_pos stxo r).ne', stored, append_assoc,
    append_assoc, deserializeVLQ_putVLQ]
  dsimp only [bind, Except.bind]
  rw [hheight]
  by_cases hh : stxo.height > 0
  · rw [if_pos hh, if_pos hh, drop_left, deserializeVLQ_putVLQ, failIf_of_not, failIf_of_not]
    · rw [← append_assoc, ← length_append, drop_left]
      exact decodeSpentTxOutTail_ok h r
    · rw [← append_assoc, ← length_append]
      exact not_length_le_append hpos
    · refine not_length_le_append ?_
      rw [length_append]
      omega
  · rw [if_neg hh, if_neg hh, nil_append, drop_left, failIf_of_not (not_length_le_append hpos)]
    exact decodeSpentTxOutTail_ok h r

end SpentTxOut

def storedJournal (stxos : List SpentTxOut) : Bytes := (stxos.map SpentTxOut.stored).flatten

section

variable {stxos : List SpentTxOut}

lemma length_storedJournal (stxos : List SpentTxOut) :
    (storedJournal stxos).length = (stxos.map spentTxOutSerializeSize).sum := by
  simp only [storedJournal, length_flatten, map_map, Function.comp_def, SpentTxOut.length_stored]

lemma putSpentTxOuts_ok : ∀ {stxos}, (∀ stxo ∈ stxos, stxo.Storable) →
    putSpentTxOuts stxos = .ok (storedJournal stxos)
  | [], _ => rfl
  | stxo :: stxos, h => by
    rw [putSpentTxOuts, SpentTxOut.putSpentTxOut_ok (h stxo (by simp)),
      putSpentTxOuts_ok fun s hs => h s (by simp [hs])]
    rfl

lemma serializeSpendJournalEntry_ok (h : ∀ stxo ∈ stxos, stxo.Storable) :
    serializeSpendJournalEntry stxos = .ok (storedJournal stxos.reverse) := by
  rw [serializeSpendJournalEntry]
  by_cases hnil : stxos.length = 0
  · rw [length_eq_zero_iff.1 hnil]
    rfl
  · have hsize : (stxos.map spentTxOutSerializeSize).sum =
        (storedJournal stxos.reverse).length := by
      rw [length_storedJournal, map_reverse, sum_reverse]
    rw [if_neg hnil, putSpentTxOuts_ok fun s hs => h s (mem_reverse.1 hs), hsize]
    exact fillSlice_exact _

lemma decodeStxos_append : ∀ txIns txIns' (stxos : List SpentTxOut) (r : Bytes),
    decodeStxos (txIns ++ txIns') stxos r =
      decodeStxos txIns stxos r >>= fun p => decodeStxos txIns' p.1 p.2
  | [], _, _, _ => rfl
  | txIn :: txIns, txIns', stxos, r => by
    rw [cons_append, decodeStxos, decodeStxos, bind_assoc]
    refine bind_congr fun p => ?_
    exact decodeStxos_append txIns txIns' (p.1 :: stxos) p.2

lemma decodeTxStxos_eq : ∀ txns (stxos : List SpentTxOut) (r : Bytes),
    decodeTxStxos txns stxos r = decodeStxos (txns.flatMap fun tx => tx.txIn.reverse) stxos r
  | [], _, _ => rfl
  | tx :: txns, stxos, r => by
    rw [flatMap_cons, decodeStxos_append]
    refine bind_congr fun p => ?_
    exact decodeTxStxos_eq txns p.1 p.2

lemma decodeStxos_ok : ∀ {txIns} {stxos} acc
    (r : Bytes), txIns.length = stxos.length → (∀ stxo ∈ stxos, stxo.Storable) →
    decodeStxos txIns acc (storedJournal stxos ++ r) =
      .ok ((stxos.map SpentTxOut.rescripted).reverse ++ acc, r)
  | [], [], _, _, _, _ => rfl
  | txIn :: txIns, stxo :: stxos, acc, r, hlen, h => by
    have hbytes : storedJournal (stxo :: stxos) ++ r =
        stxo.stored ++ (storedJournal stxos ++ r) := by
      simp [storedJournal]
    rw [hbytes, decodeStxos, SpentTxOut.decodeSpentTxOutHns_ok (h stxo (by simp))]
    dsimp only [orDeserialize, Except.mapError, bind, Except.bind]
    rw [decodeStxos_ok (stxo.rescripted :: acc) r (by simpa using hlen)
      fun s hs => h s (by simp [hs])]
    simp

lemma deserializeSpendJournalEntry_ok
    (hlen : (txns.map fun tx => tx.txIn.length).sum = stxos.length)
    (h : ∀ stxo ∈ stxos, stxo.Storable) :
    deserializeSpendJournalEntry (storedJournal stxos.reverse) txns =
      .ok (stxos.map SpentTxOut.rescripted) := by
  rw [deserializeSpendJournalEntry]
  rw [hlen]
  by_cases hnil : stxos = []
  · subst hnil
    rfl
  · have hpos : (storedJournal stxos.reverse).length ≠ 0 := by
      obtain ⟨stxo, rest, hrev⟩ := exists_cons_of_ne_nil (reverse_ne_nil_iff.2 hnil)
      rw [hrev]
      exact (stxo.length_stored_pos (storedJournal rest)).ne'
    have hinputs : (txns.reverse.flatMap fun tx => tx.txIn.reverse).length =
        stxos.reverse.length := by
      simp only [length_flatMap, length_reverse, map_reverse, sum_reverse, hlen]
    have hread := decodeStxos_ok [] [] hinputs fun s hs => h s (mem_reverse.1 hs)
    rw [append_nil] at hread
    rw [if_neg hpos, decodeTxStxos_eq, hread]
    simp [failIf]

end

/-- An unspent entry of the UTXO set and a spend journal of the length that the block expects are
read back from the bytes they are stored in, whatever the heights and the coinbase flags. The script
of an output is not stored but derived again. -/
theorem stored_coins_read_back : (∀ entry : UtxoEntry, entry.isSpent = false →
      Storable entry.amount entry.address entry.covenant →
      ∃ serialized entry', serializeUtxoEntry entry = .ok (some serialized) ∧
        deserializeUtxoEntry serialized = .ok entry' ∧
        entry'.amount = entry.amount ∧ entry'.address = entry.address ∧
        entry'.covenant = entry.covenant ∧ entry'.blockHeight = entry.blockHeight ∧
        entry'.isCoinBase = entry.isCoinBase ∧ entry'.isSpent = false) ∧
    (∀ (block : Block) (stxos : List SpentTxOut), countSpentOutputs block = .ok stxos.length →
      (∀ stxo ∈ stxos, stxo.Storable) →
      ∃ serialized, serializeSpendJournalEntry stxos = .ok serialized ∧
        deserializeSpendJournalEntry serialized block.transactions.tail =
          .ok (stxos.map SpentTxOut.rescripted) ∧
        ((∀ stxo ∈ stxos, stxo.pkScript =
            txOutPkScript ⟨stxo.amount, stxo.address, stxo.covenant⟩) →
          deserializeSpendJournalEntry serialized block.transactions.tail = .ok stxos)) := by
  constructor
  · intro entry hspent h
    exact ⟨_, _, serializeUtxoEntry_ok h hspent, deserializeUtxoEntry_ok h, rfl, rfl, rfl, rfl, rfl,
      rfl⟩
  · intro block stxos hcount h
    have hlen : (block.transactions.tail.map fun tx => tx.txIn.length).sum = stxos.length := by
      rw [countSpentOutputs] at hcount
      rcases htxs : block.transactions with _ | ⟨coinbase, txs⟩ <;> rw [htxs] at hcount
      · cases hcount
      · exact Except.ok.inj hcount
    have hread := deserializeSpendJournalEntry_ok hlen h
    refine ⟨_, serializeSpendJournalEntry_ok h, hread, fun hscript => ?_⟩
    rw [hread, map_congr_left fun stxo hstxo => show stxo.rescripted = id stxo by
      rw [SpentTxOut.rescripted, ← hscript stxo hstxo, id], map_id]

def mixedStxos : List SpentTxOut :=
  let address : Address := ⟨0, List.replicate 20 7⟩
  let name : Covenant := ⟨.open, [List.replicate 32 1, [0, 0, 0, 0], [97]]⟩
  [⟨123456, address, ⟨.none, []⟩, txOutPkScript ⟨123456, address, ⟨.none, []⟩⟩, 0, false⟩,
    ⟨0, address, name, txOutPkScript ⟨0, address, name⟩, 70000, true⟩]

def mixedBlock : Block where
  hash := Hash.zero
  prevBlock := Hash.zero
  nameRoot := Hash.zero
  height := 70100
  transactions := [⟨Hash.zero, [], []⟩,
    ⟨Hash.zero, [⟨⟨Hash.zero, 0⟩, []⟩, ⟨⟨Hash.zero, 1⟩, []⟩], []⟩]

theorem stored_coins_read_back_mixed : countSpentOutputs mixedBlock = .ok mixedStxos.length ∧
      ∃ serialized, serializeSpendJournalEntry mixedStxos = .ok serialized ∧
        deserializeSpendJournalEntry serialized mixedBlock.transactions.tail = .ok mixedStxos := by
  obtain ⟨serialized, hwrite, -, hread⟩ :=
    stored_coins_read_back.2 mixedBlock mixedStxos rfl (by
      simp only [SpentTxOut.Storable, storable_iff]
      decide)
  exact ⟨rfl, serialized, hwrite, hread (by decide)⟩

end HandshakeNode
