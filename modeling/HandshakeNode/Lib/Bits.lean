import Mathlib.Data.Nat.Bitwise
import Mathlib.Data.List.Basic
import Mathlib.Data.List.GetD

/-!
# The bits of a byte string

Bits are numbered from the most significant bit of the first byte. Two byte strings of one length
with the same bits are equal (`ext_bit`), and setting bits one at a time builds the string with
exactly those bits (`bit_setBits`).
-/

namespace ByteBits

open List

/-- Bit `i` of a byte, the most significant first. -/
def bitOf (b : UInt8) (i : ℕ) : Bool := b.toNat.testBit (7 - i)

/-- Bit `i` of a byte string; false past its end. -/
def bit (bs : List UInt8) (i : ℕ) : Bool := bitOf (bs.getD (i / 8) 0) (i % 8)

def setBit (bs : List UInt8) (i : ℕ) : List UInt8 :=
  bs.modify (i / 8) fun b => b ||| UInt8.ofNat (1 <<< (7 - i % 8))

def setBits (bs : List UInt8) (f : ℕ → Bool) (n : ℕ) : List UInt8 :=
  (range n).foldl (fun bs i => if f i then setBit bs i else bs) bs

def bits (bs : List UInt8) : List Bool := (range (8 * bs.length)).map (bit bs)

lemma ext_bitOf (h : ∀ i < 8, bitOf b i = bitOf c i) : b = c := by
  apply UInt8.toNat_inj.mp
  apply Nat.eq_of_testBit_eq
  intro j
  by_cases hj : j < 8
  · have := h (7 - j) (by omega)
    simpa only [bitOf, show 7 - (7 - j) = j by omega] using this
  · have hb : b.toNat < 2 ^ j := lt_of_lt_of_le b.toNat_lt (Nat.pow_le_pow_right (by omega) (by omega))
    have hc : c.toNat < 2 ^ j := lt_of_lt_of_le c.toNat_lt (Nat.pow_le_pow_right (by omega) (by omega))
    rw [Nat.testBit_lt_two_pow hb, Nat.testBit_lt_two_pow hc]

lemma bitOf_or (hi : i < 8) (hj : j < 8) :
    bitOf (b ||| UInt8.ofNat (1 <<< (7 - i))) j = (decide (i = j) || bitOf b j) := by
  have hlt : 1 <<< (7 - i) < 2 ^ 8 := by
    rw [Nat.one_shiftLeft]
    exact Nat.pow_lt_pow_right (by omega) (by omega)
  have hto : (UInt8.ofNat (1 <<< (7 - i))).toNat = 1 <<< (7 - i) := by
    exact Nat.mod_eq_of_lt hlt
  unfold bitOf
  rw [UInt8.toNat_or, Nat.testBit_or, hto, Nat.one_shiftLeft, Nat.testBit_two_pow, Bool.or_comm]
  congr 1
  simp only [decide_eq_decide]
  omega

@[simp] lemma length_setBit (bs : List UInt8) (i : ℕ) : (setBit bs i).length = bs.length := by
  simp [setBit]

variable {bs : List UInt8}

lemma bit_setBit (hi : i < 8 * bs.length) : bit (setBit bs i) j = (decide (i = j) || bit bs j) := by
  unfold bit setBit
  simp only [getD_eq_getElem?_getD, getElem?_modify]
  by_cases hd : i / 8 = j / 8
  · have hj : j / 8 < bs.length := by omega
    rw [getElem?_eq_getElem hj]
    simp only [hd, if_true, Option.map_eq_map, Option.map_some, Option.getD_some]
    rw [bitOf_or (by omega) (by omega)]
    congr 1
    simp only [decide_eq_decide]
    omega
  · have hne : i ≠ j := fun h => hd (by rw [h])
    simp [hd, hne]

@[simp] lemma length_setBits (bs : List UInt8) (f : ℕ → Bool) (n : ℕ) :
    (setBits bs f n).length = bs.length := by
  induction n with
  | zero => rfl
  | succ n ih =>
    simp only [setBits, range_succ, foldl_append, foldl_cons, foldl_nil]
    split_ifs
    · rw [length_setBit]
      exact ih
    · exact ih

lemma bit_setBits (hn : n ≤ 8 * bs.length) (j : ℕ) :
    bit (setBits bs f n) j = (decide (j < n) && f j || bit bs j) := by
  induction n with
  | zero => simp [setBits]
  | succ n ih =>
    have ih := ih (by omega)
    have hstep : setBits bs f (n + 1) =
        if f n then setBit (setBits bs f n) n else setBits bs f n := by
      simp [setBits, range_succ]
    rw [hstep]
    by_cases hf : f n
    · rw [if_pos hf, bit_setBit (by rw [length_setBits]; omega), ih]
      by_cases hj : n = j
      · subst hj
        simp [hf]
      · have : decide (j < n + 1) = decide (j < n) := by
          simp only [decide_eq_decide]
          omega
        rw [this, decide_eq_false hj, Bool.false_or]
    · rw [if_neg hf, ih]
      by_cases hj : n = j
      · subst hj
        simp [hf]
      · have : decide (j < n + 1) = decide (j < n) := by
          simp only [decide_eq_decide]
          omega
        rw [this]

lemma setBits_congr (h : ∀ i < n, f i = g i) : setBits bs f n = setBits bs g n := by
  apply foldl_ext
  intro bs i hi
  rw [h i (mem_range.1 hi)]

lemma bit_of_length_le (h : 8 * bs.length ≤ i) : bit bs i = false := by
  unfold bit bitOf
  rw [getD_eq_default _ _ (by omega)]
  simp

lemma bit_replicate_zero (n i : ℕ) : bit (replicate n 0) i = false := by
  unfold bit bitOf
  rw [getD_eq_getElem?_getD, getElem?_replicate]
  split_ifs <;> simp

lemma ext_bit (hlen : bs.length = cs.length)
    (h : ∀ i < 8 * bs.length, bit bs i = bit cs i) : bs = cs := by
  apply ext_getElem hlen
  intro j hj hj'
  apply ext_bitOf
  intro i hi
  have := h (8 * j + i) (by omega)
  unfold bit at this
  rw [show (8 * j + i) / 8 = j by omega, show (8 * j + i) % 8 = i by omega] at this
  rwa [getD_eq_getElem _ _ hj, getD_eq_getElem _ _ hj'] at this

@[simp] lemma length_bits (bs : List UInt8) : (bits bs).length = 8 * bs.length := by
  simp [bits]

lemma getElem_bits (bs : List UInt8) (i : ℕ) (h : i < (bits bs).length) :
    (bits bs)[i] = bit bs i := by
  simp [bits]

lemma getD_bits (bs : List UInt8) (i : ℕ) : (bits bs).getD i false = bit bs i := by
  by_cases h : i < (bits bs).length
  · rw [getD_eq_getElem _ _ h, getElem_bits]
  · rw [getD_eq_default _ _ (by omega), bit_of_length_le (by simpa using h)]

lemma bits_inj (hlen : bs.length = cs.length) (h : bits bs = bits cs) : bs = cs := by
  refine ext_bit hlen fun i hi => ?_
  rw [← getElem_bits bs i (by simpa using hi), ← getElem_bits cs i (by simpa [← hlen] using hi)]
  simp [h]

lemma bit_take (h : i < 8 * k) : bit (bs.take k) i = bit bs i := by
  unfold bit
  rw [getD_eq_getElem?_getD, getD_eq_getElem?_getD, getElem?_take_of_lt (by omega)]

lemma bit_append_zeros (bs : List UInt8) (n i : ℕ) : bit (bs ++ replicate n 0) i = bit bs i := by
  unfold bit
  by_cases h : i / 8 < bs.length
  · rw [getD_append _ _ _ _ h]
  · rw [getD_append_right _ _ _ _ (by omega), getD_eq_default bs _ (by omega),
      getD_eq_getElem?_getD, getElem?_replicate]
    split_ifs <;> rfl

end ByteBits
