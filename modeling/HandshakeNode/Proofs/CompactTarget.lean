import HandshakeNode.BestState

/-!
# Compact targets round down

`BigToCompact` keeps the leading bytes of a target, and `CompactToBig` fills the others with zeros.
What is lost is lost once, and the order of the targets stays (`compact_targets_round_down`).
-/

namespace HandshakeNode

open LittleEndian

variable {n m : ℕ}

lemma two_pow_eight_mul (k : ℕ) : 2 ^ (8 * k) = 256 ^ k := by
  rw [pow_mul]
  norm_num

lemma length_bigBytes (h : n ≠ 0) : (bigBytes n).length = n.log2 / 8 + 1 := by
  simp [bigBytes, h]

/-- What the compact form of `n` with an exponent holds of it. -/
def mantissa (n e : ℕ) : ℕ := n / 256 ^ (e - 3) * 256 ^ (3 - e)

lemma mantissa_succ (n e : ℕ) : mantissa n e / 256 = mantissa n (e + 1) := by
  unfold mantissa
  rcases Nat.lt_or_ge e 3 with he | he
  · rw [show 3 - e = 3 - (e + 1) + 1 by omega, show e + 1 - 3 = e - 3 by omega, pow_succ,
      ← mul_assoc, Nat.mul_div_cancel _ (by norm_num)]
  · rw [show 3 - e = 0 by omega, show 3 - (e + 1) = 0 by omega, show e + 1 - 3 = e - 3 + 1 by omega,
      pow_succ, ← Nat.div_div_eq_div_mul]
    simp

lemma mantissa_lt_iff (h : k + 24 = 8 * e + j) : mantissa n e < 2 ^ j ↔ n < 2 ^ k := by
  unfold mantissa
  rcases Nat.le_total e 3 with he | he
  · rw [show j = k + 8 * (3 - e) by omega, pow_add, two_pow_eight_mul, Nat.sub_eq_zero_of_le he,
      pow_zero, Nat.div_one, Nat.mul_lt_mul_right (Nat.pow_pos (by decide))]
  · rw [show k = j + 8 * (e - 3) by omega, pow_add, two_pow_eight_mul, Nat.sub_eq_zero_of_le he,
      pow_zero, mul_one, Nat.div_lt_iff_lt_mul (Nat.pow_pos (by decide))]

lemma and_signBit_ne_zero_iff (c : UInt32) : c &&& 0x00800000 ≠ 0 ↔ c.toNat / 2 ^ 23 % 2 = 1 := by
  rw [ne_eq, ← UInt32.toNat_inj]
  show ¬ c.toNat &&& 2 ^ 23 = 0 ↔ _
  rw [Nat.and_two_pow, Nat.testBit_eq_decide_div_mod_eq]
  simp

lemma compactToBig_eq {c : UInt32} (hc : c.toNat = e * 2 ^ 24 + m) (hm : m < 2 ^ 23) :
    compactToBig c = (m * 256 ^ (e - 3) / 256 ^ (3 - e) : ℕ) := by
  have hsign : ¬ (c &&& 0x00800000 ≠ 0) := by
    rw [and_signBit_ne_zero_iff]
    omega
  have hmantissa : (c &&& 0x007fffff).toNat = m := by
    show c.toNat &&& 2 ^ 23 - 1 = m
    rw [Nat.and_two_pow_sub_one_eq_mod]
    omega
  have hexponent : (c >>> 24).toNat = e := by
    show c.toNat >>> 24 = e
    omega
  unfold compactToBig
  simp only [hmantissa, hexponent]
  split_ifs with h3
  · rw [Nat.shiftRight_eq_div_pow, two_pow_eight_mul, Nat.sub_eq_zero_of_le h3, pow_zero, mul_one]
  · rw [Nat.shiftLeft_eq, two_pow_eight_mul, Nat.sub_eq_zero_of_le (by omega : 3 ≤ e), pow_zero,
      Nat.div_one]

lemma toNat_or_mantissa {m : UInt32} (he : e < 256) (hm : m.toNat < 2 ^ 24) :
    (UInt32.ofNat (e <<< 24) ||| m).toNat = e * 2 ^ 24 + m.toNat := by
  rw [UInt32.toNat_or, UInt32.toNat_ofNat_of_lt' (by rw [UInt32.size]; omega),
    ← Nat.shiftLeft_add_eq_or_of_lt hm, Nat.shiftLeft_eq]

/-- The exponent of the compact form of `n`: its number of bytes, and one more for the sign bit. -/
def compactExponent (n : ℕ) : ℕ := (n.log2 + 1) / 8 + 1

lemma mantissa_compactExponent_lt (hn : n ≠ 0) : mantissa n (compactExponent n) < 2 ^ 23 := by
  rw [compactExponent, mantissa_lt_iff (k := 8 * ((n.log2 + 1) / 8) + 7) (by omega),
    ← Nat.log2_lt hn]
  omega

lemma toNat_bigToCompact (hn : n ≠ 0) (hlt : n < 2 ^ 256) : (bigToCompact n).toNat =
    compactExponent n * 2 ^ 24 + mantissa n (compactExponent n) := by
  have hlog : n.log2 < 256 := (Nat.log2_lt hn).2 hlt
  have hsmall := mantissa_compactExponent_lt hn
  have hfirst : (if n.log2 / 8 + 1 ≤ 3 then n <<< (8 * (3 - (n.log2 / 8 + 1)))
      else ((n : ℤ) >>> (8 * (n.log2 / 8 + 1 - 3))).natAbs) = mantissa n (n.log2 / 8 + 1) := by
    unfold mantissa
    split_ifs with h3
    · rw [Nat.shiftLeft_eq, two_pow_eight_mul, Nat.sub_eq_zero_of_le h3, pow_zero, Nat.div_one]
    · show n >>> _ = _
      rw [Nat.shiftRight_eq_div_pow, two_pow_eight_mul,
        Nat.sub_eq_zero_of_le (by omega : 3 ≤ n.log2 / 8 + 1), pow_zero, mul_one]
  have hlt24 : mantissa n (n.log2 / 8 + 1) < 2 ^ 24 :=
    (mantissa_lt_iff (k := 8 * (n.log2 / 8 + 1)) (by omega)).2 ((Nat.log2_lt hn).1 (by omega))
  have hword : (UInt32.ofNat (mantissa n (n.log2 / 8 + 1))).toNat = mantissa n (n.log2 / 8 + 1) :=
    UInt32.toNat_ofNat_of_lt' (by rw [UInt32.size]; omega)
  have hbit := and_signBit_ne_zero_iff (UInt32.ofNat (mantissa n (n.log2 / 8 + 1)))
  have htop := mantissa_lt_iff (n := n) (e := n.log2 / 8 + 1) (j := 23)
    (k := 8 * (n.log2 / 8) + 7) (by omega)
  rw [← Nat.log2_lt hn] at htop
  unfold bigToCompact
  simp only [Int.natCast_eq_zero, hn, if_false, Int.natAbs_natCast, length_bigBytes hn, hfirst]
  rw [if_neg (by omega)]
  split_ifs with hsign
  · rw [hbit] at hsign
    have hexp : compactExponent n = n.log2 / 8 + 1 + 1 := by
      unfold compactExponent
      omega
    have hshift : (UInt32.ofNat (mantissa n (n.log2 / 8 + 1)) >>> 8).toNat =
        mantissa n (compactExponent n) := by
      rw [UInt32.toNat_shiftRight, hword, hexp, ← mantissa_succ n (n.log2 / 8 + 1)]
      exact Nat.shiftRight_eq_div_pow _ 8
    dsimp only
    rw [toNat_or_mantissa (by omega) (by omega), hshift, hexp]
  · rw [hbit] at hsign
    have hexp : compactExponent n = n.log2 / 8 + 1 := by
      unfold compactExponent
      omega
    dsimp only
    rw [toNat_or_mantissa (by omega) (by omega), hword, hexp]

/-- `n` without its bytes below the mantissa. -/
def roundDown (n : ℕ) : ℕ := n / 256 ^ (compactExponent n - 3) * 256 ^ (compactExponent n - 3)

lemma compactToBig_bigToCompact (hlt : n < 2 ^ 256) :
    compactToBig (bigToCompact n) = roundDown n := by
  rcases eq_or_ne n 0 with rfl | hn
  · decide
  rw [compactToBig_eq (toNat_bigToCompact hn hlt) (mantissa_compactExponent_lt hn), mantissa,
    mul_right_comm, Nat.mul_div_cancel _ (Nat.pow_pos (by decide)), roundDown]

lemma roundDown_le (n : ℕ) : roundDown n ≤ n := Nat.div_mul_le_self _ _

lemma two_pow_log2_le_roundDown (hn : n ≠ 0) : 2 ^ n.log2 ≤ roundDown n := by
  have hpow : 256 ^ (compactExponent n - 3) ∣ 2 ^ n.log2 := by
    rw [← two_pow_eight_mul]
    refine Nat.pow_dvd_pow 2 ?_
    unfold compactExponent
    omega
  rw [← Nat.div_mul_cancel hpow]
  exact Nat.mul_le_mul_right _ (Nat.div_le_div_right (Nat.log2_self_le hn))

lemma log2_roundDown (n : ℕ) : (roundDown n).log2 = n.log2 := by
  rcases eq_or_ne n 0 with rfl | hn
  · rfl
  have hle := two_pow_log2_le_roundDown hn
  have hne : roundDown n ≠ 0 := (lt_of_lt_of_le (Nat.two_pow_pos _) hle).ne'
  rw [Nat.log2_eq_iff hne]
  exact ⟨hle, lt_of_le_of_lt (roundDown_le n) Nat.lt_log2_self⟩

lemma bigToCompact_roundDown (hlt : n < 2 ^ 256) : bigToCompact (roundDown n) = bigToCompact n := by
  rcases eq_or_ne n 0 with rfl | hn
  · rfl
  have hne : roundDown n ≠ 0 :=
    (lt_of_lt_of_le (Nat.two_pow_pos _) (two_pow_log2_le_roundDown hn)).ne'
  have hexp : compactExponent (roundDown n) = compactExponent n := by
    rw [compactExponent, log2_roundDown, compactExponent]
  rw [← UInt32.toNat_inj, toNat_bigToCompact hn hlt,
    toNat_bigToCompact hne (lt_of_le_of_lt (roundDown_le n) hlt), hexp, mantissa, mantissa,
    roundDown, Nat.mul_div_cancel _ (Nat.pow_pos (by decide))]

lemma roundDown_mono (h : n ≤ m) : roundDown n ≤ roundDown m := by
  rcases eq_or_ne n 0 with rfl | hn
  · exact (roundDown_le 0).trans (Nat.zero_le _)
  have hm : m ≠ 0 := by omega
  rcases ((Nat.le_log2 hm).2 ((Nat.log2_self_le hn).trans h)).lt_or_eq with hlog | hlog
  · -- a longer number keeps its top bit
    calc roundDown n ≤ n := roundDown_le n
      _ ≤ 2 ^ m.log2 := (Nat.log2_lt hn).1 hlog |>.le
      _ ≤ roundDown m := two_pow_log2_le_roundDown hm
  · have hexp : compactExponent n = compactExponent m := by
      rw [compactExponent, hlog, compactExponent]
    rw [roundDown, hexp]
    exact Nat.mul_le_mul_right _ (Nat.div_le_div_right h)

/-- `n` with all but its leading `k` bytes cleared. -/
def keepBytes (k n : ℕ) : ℕ :=
  n / 256 ^ ((bigBytes n).length - k) * 256 ^ ((bigBytes n).length - k)

lemma roundDown_eq_keepBytes (n : ℕ) :
    roundDown n = keepBytes (if n.testBit (8 * (bigBytes n).length - 1) then 2 else 3) n := by
  rcases eq_or_ne n 0 with rfl | hn
  · rfl
  have htop : n.testBit (8 * (n.log2 / 8 + 1) - 1) = true ↔ (n.log2 + 1) % 8 = 0 := by
    constructor
    · intro h
      by_contra hlog
      rw [Nat.testBit_lt_two_pow ((Nat.log2_lt hn).1 (by omega))] at h
      cases h
    · intro h
      rw [show 8 * (n.log2 / 8 + 1) - 1 = n.log2 by omega, Nat.testBit_log2 hn]
  unfold keepBytes roundDown compactExponent
  rw [length_bigBytes hn]
  split_ifs with h
  · rw [htop] at h
    rw [show (n.log2 + 1) / 8 + 1 - 3 = n.log2 / 8 + 1 - 2 by omega]
  · rw [htop] at h
    rw [show (n.log2 + 1) / 8 + 1 - 3 = n.log2 / 8 + 1 - 3 by omega]

lemma calcWork_antitone (hpos : 0 < compactToBig bits)
    (h : compactToBig bits ≤ compactToBig easier) : calcWork easier ≤ calcWork bits := by
  unfold calcWork
  rw [if_neg (by omega), if_neg (by omega)]
  exact Nat.div_le_div_left (by omega) (by omega)

/-- The third of the leading bytes stays, whatever its top bit. -/
theorem third_byte_is_kept : Nat.testBit 0x010180 7 = true ∧
    compactToBig (bigToCompact (0x010180 : ℕ)) ≠ keepBytes 2 0x010180 := by
  decide +kernel

/-- Writing a target in compact form rounds it down to its leading bytes, three or, where the top
bit of the first is set, two; it does so once, in the order of the targets, and the work of a block
is in the opposite order. -/
theorem compact_targets_round_down :
    (∀ n : ℕ, n < 2 ^ 256 → compactToBig (bigToCompact n) =
        keepBytes (if n.testBit (8 * (bigBytes n).length - 1) then 2 else 3) n ∧
      compactToBig (bigToCompact n) ≤ n ∧
      bigToCompact (compactToBig (bigToCompact n)) = bigToCompact n) ∧
    (∀ n m : ℕ, n ≤ m → m < 2 ^ 256 →
      compactToBig (bigToCompact n) ≤ compactToBig (bigToCompact m)) ∧
    ∀ bits easier : UInt32, 0 < compactToBig bits → compactToBig bits ≤ compactToBig easier →
      calcWork easier ≤ calcWork bits := by
  refine ⟨fun n hn => ?_, fun n m h hm => ?_, fun _ _ => calcWork_antitone⟩
  · rw [compactToBig_bigToCompact hn, bigToCompact_roundDown hn, ← roundDown_eq_keepBytes]
    exact ⟨rfl, by exact_mod_cast roundDown_le n, rfl⟩
  · rw [compactToBig_bigToCompact (lt_of_le_of_lt h hm), compactToBig_bigToCompact hm]
    exact_mod_cast roundDown_mono h

theorem compact_targets_round_down_fourBytes :
    compactToBig (bigToCompact (0x92345678 : ℕ)) = 0x92340000 ∧
    compactToBig (bigToCompact (0x12345678 : ℕ)) ≤ compactToBig (bigToCompact (0x92345678 : ℕ)) ∧
    calcWork 0x207fffff ≤ calcWork 0x1d00ffff := by
  obtain ⟨hround, hmono, hwork⟩ := compact_targets_round_down
  have hkeep := (hround 0x92345678 (by decide)).1
  refine ⟨hkeep.trans (by decide +kernel), ?_, ?_⟩
  · exact hmono 0x12345678 0x92345678 (by decide) (by decide)
  · exact hwork 0x1d00ffff 0x207fffff (by decide +kernel) (by decide +kernel)

end HandshakeNode
