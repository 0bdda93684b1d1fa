import HandshakeNode.Lib.Overflow
import HandshakeNode.LockTime

/-!
# Time locks in scripts delay spending

The lock time opcodes compare the script with fields of the transaction only. Together with the
rules for those fields they bound when the transaction can be in a block: `lockTime_reached` for
`OP_CHECKLOCKTIMEVERIFY`, `sequence_reached` for `OP_CHECKSEQUENCEVERIFY`, whatever the other inputs
are.
-/

namespace HandshakeNode

open ScriptFlags Int32 Except

/-! ### What the opcodes check -/

lemma and_two_pow_ne_zero (n i : ℕ) : n &&& 2 ^ i ≠ 0 ↔ n.testBit i = true := by
  rw [Nat.and_two_pow]
  rcases n.testBit i <;> simp

section

variable {operand : ℤ}

lemma reservedNop_eq_ok (hflag : vm.hasFlag flag = true) (h : reservedNop flag nop f vm = .ok ()) :
    f vm = .ok () := by
  simpa [reservedNop, hflag] using h

lemma verifyLockTime_eq_ok (h : verifyLockTime txLockTime typeFlag valueMask lockTime = .ok ()) :
    txLockTime &&& typeFlag = lockTime &&& typeFlag ∧
      lockTime &&& valueMask ≤ txLockTime &&& valueMask := by
  unfold verifyLockTime at h
  split_ifs at h with htype hvalue
  · simp [scriptError] at h
  · simp [scriptError] at h
  · exact ⟨not_not.1 htype, not_lt.1 hvalue⟩

lemma inputSequence_eq_ok {sequence : UInt32} (h : inputSequence vm = .ok sequence) :
    ∃ txIn, vm.tx.txIn[vm.txIdx]? = some txIn ∧ txIn.sequence = sequence := by
  unfold inputSequence at h
  rcases htx : vm.tx.txIn[vm.txIdx]? with _ | txIn <;> rw [htx] at h
  · cases h
  · exact ⟨txIn, rfl, ok.inj h⟩

lemma checkLockTime_eq_ok (hop : lockTimeOperand vm = .ok operand) (h : checkLockTime vm = .ok ()) :
    0 ≤ operand ∧ vm.tx.lockTime.toNat &&& lockTimeFlag = operand.toNat &&& lockTimeFlag ∧
      operand.toNat &&& lockTimeMask ≤ vm.tx.lockTime.toNat &&& lockTimeMask ∧
      ∃ txIn ∈ vm.tx.txIn, txIn.sequence ≠ maxTxInSequenceNum := by
  unfold checkLockTime at h
  simp only [hop, ok_bind, bind_eq_ok, failIf_eq_ok] at h
  obtain ⟨_, hneg, _, hlock, sequence, hseq, hmax⟩ := h
  obtain ⟨txIn, htx, rfl⟩ := inputSequence_eq_ok hseq
  exact ⟨not_lt.1 hneg, (verifyLockTime_eq_ok hlock).1, (verifyLockTime_eq_ok hlock).2, txIn,
    List.mem_of_getElem? htx, hmax⟩

lemma checkSequence_eq_ok (hop : lockTimeOperand vm = .ok operand)
    (hbit : operand.toNat.testBit 31 = false) (h : checkSequence vm = .ok ()) :
    ∃ txIn, vm.tx.txIn[vm.txIdx]? = some txIn ∧ txIn.sequence.toNat.testBit 31 = false ∧
      txIn.sequence.toNat.testBit 22 = operand.toNat.testBit 22 ∧
      operand.toNat &&& sequenceLockTimeMask ≤ txIn.sequence.toNat &&& sequenceLockTimeMask := by
  unfold checkSequence at h
  simp only [hop, ok_bind, bind_eq_ok] at h
  obtain ⟨_, _, h⟩ := h
  have hdisabled : ∀ n, n &&& sequenceLockTimeDisabled ≠ 0 ↔ n.testBit 31 = true :=
    fun n => and_two_pow_ne_zero n 31
  rw [if_neg (by rw [hdisabled, hbit]; simp)] at h
  unfold checkInputSequence at h
  simp only [bind_eq_ok, failIf_eq_ok] at h
  obtain ⟨sequence, hseq, _, hno, hlock⟩ := h
  obtain ⟨txIn, htx, rfl⟩ := inputSequence_eq_ok hseq
  obtain ⟨htype, hvalue⟩ := verifyLockTime_eq_ok hlock
  refine ⟨txIn, htx, ?_, ?_, ?_⟩
  · rw [hdisabled] at hno
    simpa using hno
  · have hmask : Nat.testBit (sequenceLockTimeIsSeconds ||| sequenceLockTimeMask) 22 = true := rfl
    have hflag : Nat.testBit sequenceLockTimeIsSeconds 22 = true := rfl
    have := congrArg (Nat.testBit · 22) htype
    simpa only [Nat.testBit_and, hmask, hflag, Bool.and_true] using this
  · simpa [Nat.and_assoc, sequenceLockTimeIsSeconds, sequenceLockTimeMask] using hvalue

lemma lockTime_reached (hflag : vm.hasFlag verifyCheckLockTimeVerify = true)
    (h : opcodeCheckLockTimeVerify vm = .ok ()) (hop : lockTimeOperand vm = .ok operand)
    (hlt : operand < 2 ^ 32) (hcb : vm.tx.isCoinBase = false) (hpos : 0 < height)
    (hfin : isFinalizedTransaction vm.tx height time = true) :
    (operand.toNat.testBit 31 = false → operand < height.toInt) ∧ (operand.toNat.testBit 31 = true →
        ((operand.toNat &&& lockTimeMask) * lockTimeMultiplier : ℕ) < time.toInt) := by
  obtain ⟨hneg, htype, hvalue, txIn, hmem, hseq⟩ :=
    checkLockTime_eq_ok hop (reservedNop_eq_ok hflag h)
  have hpos : 0 < height.toInt := by simpa using lt_iff_toInt_lt.1 hpos
  -- the time flags of operand and transaction agree
  have hbit : vm.tx.lockTime.toNat.testBit 31 = operand.toNat.testBit 31 := by
    have := congrArg (Nat.testBit · 31) htype
    have hflag : Nat.testBit lockTimeFlag 31 = true := rfl
    simpa only [Nat.testBit_and, hflag, Bool.and_true] using this
  have hisTime : vm.tx.lockTime.toNat &&& lockTimeFlag ≠ 0 ↔ operand.toNat.testBit 31 = true := by
    rw [← hbit]
    exact and_two_pow_ne_zero _ 31
  -- a height is all of the operand
  have hheight : operand.toNat.testBit 31 = false →
      operand = ((operand.toNat &&& lockTimeMask : ℕ) : ℤ) := by
    intro hclear
    rw [lockTimeMask, Nat.and_two_pow_sub_one_eq_mod]
    rw [Nat.testBit_eq_decide_div_mod_eq] at hclear
    simp only [decide_eq_false_iff_not] at hclear
    omega
  unfold isFinalizedTransaction at hfin
  rw [if_neg (by simp [hcb])] at hfin
  dsimp only at hfin
  split_ifs at hfin with hzero hisTime' hreached hreached
  · rw [hzero] at hvalue hbit
    have hmask : operand.toNat &&& lockTimeMask = 0 := by simpa using hvalue
    have hclear : operand.toNat.testBit 31 = false := by simpa using hbit.symm
    rw [hheight hclear, hmask]
    simpa using hpos
  · rw [hisTime] at hisTime'
    refine ⟨fun hclear => absurd hisTime' (by simp [hclear]), fun _ => ?_⟩
    refine lt_of_le_of_lt ?_ hreached
    exact_mod_cast Nat.mul_le_mul_right _ hvalue
  · rw [List.all_eq_true] at hfin
    exact absurd (of_decide_eq_true (hfin txIn hmem)) hseq
  · rw [hisTime] at hisTime'
    refine ⟨fun hclear => ?_, fun hset => absurd hset hisTime'⟩
    rw [hheight hclear]
    refine lt_of_le_of_lt ?_ hreached
    exact_mod_cast hvalue.trans (Nat.mul_one _).ge
  · rw [List.all_eq_true] at hfin
    exact absurd (of_decide_eq_true (hfin txIn hmem)) hseq

end

def SequenceLock.Le (a b : SequenceLock) : Prop :=
  a.seconds.toInt ≤ b.seconds.toInt ∧ a.blockHeight.toInt ≤ b.blockHeight.toInt

lemma SequenceLock.Le.trans {a : SequenceLock} (hab : a.Le b) (hbc : b.Le c) : a.Le c :=
  ⟨hab.1.trans hbc.1, hab.2.trans hbc.2⟩

lemma addInputLock_cases {sequence : UInt32}
    (h : addInputLock t node height sequence lock = .ok lock') :
    lock.Le lock' ∧ (sequence.toNat.testBit 31 = false →
      (sequence.toNat.testBit 22 = true → ∃ median, medianTimeBefore t node height = .ok median ∧
        (median + (Int64.ofNat ((sequence.toNat &&& sequenceLockTimeMask) *
          2 ^ sequenceLockTimeGranularity) - 1)).toInt ≤ lock'.seconds.toInt) ∧
      (sequence.toNat.testBit 22 = false →
        (height + (Int32.ofNat (sequence.toNat &&& sequenceLockTimeMask) - 1)).toInt ≤
          lock'.blockHeight.toInt)) := by
  unfold addInputLock at h
  rw [show sequenceLockTimeDisabled = 2 ^ 31 from rfl,
    show sequenceLockTimeIsSeconds = 2 ^ 22 from rfl] at h
  simp only [and_two_pow_ne_zero] at h
  split_ifs at h with hdisabled hseconds hlater
  · obtain rfl := ok.inj h
    exact ⟨⟨le_rfl, le_rfl⟩, fun hno => absurd hdisabled (by simp [hno])⟩
  · obtain ⟨median, hmedian, h⟩ := bind_eq_ok.1 h
    have h := ok.inj h
    refine ⟨?_, fun _ => ⟨fun _ => ⟨median, hmedian, ?_⟩, fun hno => absurd hseconds (by simp [hno])⟩⟩
    · split_ifs at h with hlater <;> subst h
      · exact ⟨(Int64.le_iff_toInt_le.1 (Int64.le_of_lt hlater)), le_rfl⟩
      · exact ⟨le_rfl, le_rfl⟩
    · split_ifs at h with hlater <;> subst h
      · exact le_rfl
      · exact Int64.le_iff_toInt_le.1 (Int64.not_lt.1 hlater)
  all_goals
    obtain rfl := ok.inj h
    have hno : ¬ sequence.toNat.testBit 22 = true := hseconds
  · refine ⟨⟨le_rfl, Int32.le_iff_toInt_le.1 (Int32.le_of_lt hlater)⟩, fun _ =>
      ⟨fun hyes => absurd hyes hno, fun _ => le_rfl⟩⟩
  · exact ⟨⟨le_rfl, le_rfl⟩, fun _ => ⟨fun hyes => absurd hyes hno,
      fun _ => Int32.le_iff_toInt_le.1 (Int32.not_lt.1 hlater)⟩⟩

lemma le_of_calcSequenceLockLoop {txHash : Hash} {view : UtxoViewpoint} :
    ∀ {i} {txIns} {lock lock'}, calcSequenceLockLoop t node txHash view i txIns lock = .ok lock' →
      lock.Le lock' ∧ ∀ txIn ∈ txIns, ∃ utxo lock1 lock2,
        view.lookupEntry txIn.previousOutPoint = some utxo ∧
        addInputLock t node (inputHeight node utxo) txIn.sequence lock1 = .ok lock2 ∧
        lock2.Le lock'
  | _, [], lock, lock', h => by
    obtain rfl := ok.inj h
    exact ⟨⟨le_rfl, le_rfl⟩, by simp⟩
  | i, txIn :: txIns, lock, lock', h => by
    rw [calcSequenceLockLoop] at h
    rcases hentry : view.lookupEntry txIn.previousOutPoint with _ | utxo <;> rw [hentry] at h
    · cases h
    obtain ⟨lock1, hfirst, h⟩ := bind_eq_ok.1 h
    obtain ⟨hle, hrest⟩ := le_of_calcSequenceLockLoop h
    refine ⟨(addInputLock_cases hfirst).1.trans hle, ?_⟩
    intro txIn' hmem
    rcases List.mem_cons.1 hmem with rfl | hmem
    · exact ⟨utxo, lock, lock1, hentry, hfirst, hle⟩
    · exact hrest txIn' hmem

/-- A script with a time lock that runs through cannot be in a block before the lock says. The
transaction is no coinbase, for which no script is run, and the sums of heights and of times do not
wrap. -/
theorem script_locks_delay_spending {vm : Engine} {operand : ℤ}
    (hop : lockTimeOperand vm = .ok operand) (hcb : vm.tx.isCoinBase = false) :
    (vm.hasFlag verifyCheckLockTimeVerify = true →
      opcodeCheckLockTimeVerify vm = .ok () → operand < 2 ^ 32 →
      ∀ (height : Int32) (time : Int64), 0 < height →
        isFinalizedTransaction vm.tx height time = true →
        (operand.toNat.testBit 31 = false → operand < height.toInt) ∧
        (operand.toNat.testBit 31 = true →
          ((operand.toNat &&& lockTimeMask) * lockTimeMultiplier : ℕ) < time.toInt)) ∧
    (vm.hasFlag verifyCheckSequenceVerify = true →
      opcodeCheckSequenceVerify vm = .ok () → operand.toNat.testBit 31 = false →
      ∀ (t : HeaderTree) (node : BranchNode) (txHash : Hash) (view : UtxoViewpoint) (txIn : MsgTxIn)
        (utxo : UtxoEntry) (lock : SequenceLock) (height : Int32) (median : Int64),
        vm.tx.txIn[vm.txIdx]? = some txIn →
        view.lookupEntry txIn.previousOutPoint = some utxo →
        calcSequenceLock t node txHash vm.tx view = .ok lock →
        sequenceLockActive lock height median = true →
        (operand.toNat.testBit 22 = false → 0 ≤ (inputHeight node utxo).toInt →
          (inputHeight node utxo).toInt + 2 ^ 16 ≤ 2 ^ 31 →
            (inputHeight node utxo).toInt + (operand.toNat &&& 0xffff : ℕ) ≤ height.toInt) ∧
        (operand.toNat.testBit 22 = true → ∃ before,
          medianTimeBefore t node (inputHeight node utxo) = .ok before ∧
            (0 ≤ before.toInt → before.toInt + 2 ^ 25 ≤ 2 ^ 63 →
              before.toInt + ((operand.toNat &&& 0xffff) * 512 : ℕ) ≤ median.toInt))) := by
  refine ⟨fun hflag h hlt _ _ hpos hfin => lockTime_reached hflag h hop hlt hcb hpos hfin, ?_⟩
  intro hflag h hbit t node txHash view txIn utxo lock height median htx hutxo hcalc hactive
  obtain ⟨txIn', htx', hdisabled, htype, hvalue⟩ :=
    checkSequence_eq_ok hop hbit (reservedNop_eq_ok hflag h)
  obtain rfl : txIn' = txIn := Option.some.inj (htx'.symm.trans htx)
  rw [calcSequenceLock, if_neg (by simp [hcb])] at hcalc
  obtain ⟨utxo', lock1, lock2, hutxo', hadd, hle⟩ :=
    (le_of_calcSequenceLockLoop hcalc).2 txIn' (List.mem_of_getElem? htx)
  obtain rfl : utxo' = utxo := Option.some.inj (hutxo'.symm.trans hutxo)
  obtain ⟨hseconds, hblocks⟩ := (addInputLock_cases hadd).2 hdisabled
  simp only [sequenceLockActive, Bool.not_eq_true', Bool.or_eq_false_iff,
    decide_eq_false_iff_not, Int64.le_iff_toInt_le, le_iff_toInt_le] at hactive
  set rel := txIn'.sequence.toNat &&& sequenceLockTimeMask with hrel
  have hrel16 : rel < 2 ^ 16 := by
    rw [hrel, sequenceLockTimeMask, show 0xffff = 2 ^ 16 - 1 from rfl,
      Nat.and_two_pow_sub_one_eq_mod]
    exact Nat.mod_lt _ (by decide)
  have hvalue : operand.toNat &&& 0xffff ≤ rel := hvalue
  constructor
  · intro hclear hlow hhigh
    have hoffset : (ofNat rel - 1).toInt = (rel : ℤ) - 1 := by
      rw [toInt_sub, toInt_ofNat_of_lt (by omega)]
      show Int.bmod ((rel : ℤ) - 1) _ = _
      rw [Int.bmod_def]
      omega
    have hsum := hblocks (htype.trans hclear)
    rw [Overflow.int32_add_exact (by omega) (by omega)] at hsum
    have := hle.2
    omega
  · intro hset
    obtain ⟨before, hbefore, hsum⟩ := hseconds (htype.trans hset)
    refine ⟨before, hbefore, fun hlow hhigh => ?_⟩
    have hoffset : (Int64.ofNat (rel * 2 ^ sequenceLockTimeGranularity) - 1).toInt =
        (rel : ℤ) * 512 - 1 := by
      rw [show 2 ^ sequenceLockTimeGranularity = 512 from rfl, Int64.toInt_sub,
        Int64.toInt_ofNat_of_lt (by omega)]
      show Int.bmod (((rel * 512 : ℕ) : ℤ) - 1) _ = _
      rw [Int.bmod_def]
      omega
    rw [Overflow.int64_add_exact (by omega) (by omega)] at hsum
    have := hle.1
    omega

def lockEngine (previousOutPoint : OutPoint) (lockTime sequence : UInt32) (operand : ℤ) :
    Engine where
  dstack := { stk := [ScriptNum.bytes operand] }
  flags := verifyCheckLockTimeVerify ||| verifyCheckSequenceVerify
  tx := { version := 0, txIn := [{ previousOutPoint, witness := [], sequence }], txOut := [],
          lockTime }
  txIdx := 0

/-- A coinbase is final whatever its lock time is. -/
theorem lockTime_not_reached_coinbase :
    let vm := lockEngine ⟨Hash.zero, 0xffffffff⟩ 100 0 100
    opcodeCheckLockTimeVerify vm = .ok () ∧ lockTimeOperand vm = .ok 100 ∧
      isFinalizedTransaction vm.tx 1 0 = true ∧ ¬ ((100 : ℤ) < (1 : Int32).toInt) :=
  ⟨by decide, by decide, by decide, by decide⟩

def lockedOutput : UtxoEntry where
  amount := 1
  address := ⟨0, []⟩
  covenant := ⟨.none, []⟩
  pkScript := []
  blockHeight := 3
  packedFlags := {}

def lockedOutPoint : OutPoint := ⟨Hash.zero, 0⟩

def lockedView : UtxoViewpoint :=
  { entries := Finmap.singleton lockedOutPoint (some lockedOutput), bestHash := Hash.zero }

def lockTree : HeaderTree where
  genesis := Hash.zero
  prevBlock := fun _ => Hash.zero
  work := fun _ => 1
  version := fun _ => 0
  timestamp := fun hash => 600 * (hash.bytes.headD 0).toNat

def lockChain : BranchNode := [5, 4, 3, 2, 1, 0].map fun n => Hash.ofBytes [n]

/-- Locks of ten blocks, and locks of nine times 512 seconds. -/
theorem script_locks_delay_spending_tenBlocks :
    let vm := lockEngine lockedOutPoint 12 10 10
    let timed := lockEngine lockedOutPoint 0x80000009 0x400009
    ((isFinalizedTransaction vm.tx 13 0 = true ∧ (10 : ℤ) < (13 : Int32).toInt) ∧
      calcSequenceLock lockTree lockChain Hash.zero vm.tx lockedView = .ok { blockHeight := 12 } ∧
        (inputHeight lockChain lockedOutput).toInt + (10 &&& 0xffff : ℕ) ≤ (13 : Int32).toInt) ∧
    (isFinalizedTransaction (timed 0x80000009).tx 13 4609 = true ∧
      ((0x80000009 &&& lockTimeMask) * lockTimeMultiplier : ℕ) < (4609 : Int64).toInt) ∧
    calcSequenceLock lockTree lockChain Hash.zero (timed 0x400009).tx lockedView =
        .ok { seconds := 5207 } ∧
      ∃ before, medianTimeBefore lockTree lockChain 3 = .ok before ∧
        before.toInt + ((0x400009 &&& 0xffff) * 512 : ℕ) ≤ (5208 : Int64).toInt := by
  intro vm timed
  have hcalc : calcSequenceLock lockTree lockChain Hash.zero vm.tx lockedView =
      .ok { blockHeight := 12 } := by decide +kernel
  have hcalc' : calcSequenceLock lockTree lockChain Hash.zero (timed 0x400009).tx lockedView =
      .ok { seconds := 5207 } := by decide +kernel
  have hutxo : lockedView.lookupEntry lockedOutPoint = some lockedOutput := by decide +kernel
  have hblocks := @script_locks_delay_spending vm 10 (by decide) (by decide)
  have htime := @script_locks_delay_spending (timed 0x80000009) 0x80000009 (by decide)
    (by decide)
  have hseconds := @script_locks_delay_spending (timed 0x400009) 0x400009 (by decide)
    (by decide)
  obtain ⟨before, hbefore, hle⟩ := (hseconds.2 (by decide) (by decide) (by decide) lockTree
    lockChain Hash.zero lockedView _ lockedOutput _ 13 5208 rfl hutxo hcalc' (by decide)).2
    (by decide)
  refine ⟨⟨⟨by decide, ?_⟩, hcalc, ?_⟩, ⟨by decide, ?_⟩, hcalc', before, hbefore, ?_⟩
  · exact (hblocks.1 (by decide) (by decide) (by decide) 13 0 (by decide) (by decide)).1 (by decide)
  · exact (hblocks.2 (by decide) (by decide) (by decide) lockTree lockChain Hash.zero lockedView _
      lockedOutput _ 13 0 rfl hutxo hcalc (by decide)).1 (by decide) (by decide) (by decide)
  · exact (htime.1 (by decide) (by decide) (by decide) 13 4609 (by decide) (by decide)).2
      (by decide)
  · obtain rfl : before = 600 := Except.ok.inj (hbefore.symm.trans (by decide +kernel))
    exact hle (by decide) (by decide)

end HandshakeNode
