import HandshakeNode.AirdropState

/-!
# No airdrop is paid twice

The bits of the spent field are the positions of the airdrop proofs on the main chain, and every
position is there once.
-/

namespace HandshakeNode

open List AirdropDb

namespace AirdropSpentField

variable {f : AirdropSpentField} {p q : UInt32}

def place (p : UInt32) : ℕ := 7 - p.toNat % 8

lemma place_lt (p : UInt32) : place p < 8 := by
  unfold place
  omega

lemma toNat_place (p : UInt32) : (7 - (p &&& 7)).toUInt8.toNat = place p := by
  have h : (p &&& 7).toNat = p.toNat % 8 := by
    exact Nat.and_two_pow_sub_one_eq_mod p.toNat 3
  have hle : (p &&& 7) ≤ 7 := by
    rw [UInt32.le_iff_toNat_le]
    have : (7 : UInt32).toNat = 7 := rfl
    omega
  rw [UInt32.toNat_toUInt8, UInt32.toNat_sub_of_le _ _ hle]
  have : (7 : UInt32).toNat = 7 := rfl
  unfold place
  omega

lemma toBitVec_mask (p : UInt32) : (mask p).toBitVec = BitVec.twoPow 8 (place p) := by
  have hplace := place_lt p
  have hmod : ((7 - (p &&& 7)).toUInt8.toBitVec % 8).toNat = place p := by
    rw [BitVec.toNat_umod, ← UInt8.toNat, toNat_place]
    exact Nat.mod_eq_of_lt hplace
  unfold mask
  rw [UInt8.toBitVec_shiftLeft, BitVec.shiftLeft_eq', hmod]
  rfl

lemma and_mask (x : UInt8) (p : UInt32) :
    x &&& mask p ≠ 0 ↔ x.toBitVec.getLsbD (place p) = true := by
  have hne : BitVec.twoPow 8 (place p) ≠ 0#8 := by
    intro h
    have hbit := congrArg (BitVec.getLsbD · (place p)) h
    simp [place_lt] at hbit
  rw [Ne, ← UInt8.toBitVec_inj, UInt8.toBitVec_and, toBitVec_mask, BitVec.and_twoPow]
  split_ifs with h
  · simpa [h] using hne
  · exact ⟨fun h0 => absurd rfl h0, fun h1 => absurd h1 h⟩

lemma getLsbD_or_mask (x : UInt8) (p q : UInt32) : (x ||| mask p).toBitVec.getLsbD (place q) =
    (decide (place p = place q) || x.toBitVec.getLsbD (place q)) := by
  rw [UInt8.toBitVec_or, BitVec.getLsbD_or, toBitVec_mask, BitVec.getLsbD_twoPow]
  simp [place_lt, Bool.or_comm]

lemma getLsbD_and_not_mask (x : UInt8) (p q : UInt32) :
    (x &&& ~~~mask p).toBitVec.getLsbD (place q) =
      (!decide (place p = place q) && x.toBitVec.getLsbD (place q)) := by
  rw [UInt8.toBitVec_and, BitVec.getLsbD_and, UInt8.toBitVec_not, BitVec.getLsbD_not, toBitVec_mask,
    BitVec.getLsbD_twoPow]
  simp [place_lt, Bool.and_comm]

lemma place_inj (hbyte : (p >>> 3).toNat = (q >>> 3).toNat) : place p = place q ↔ p = q := by
  rw [UInt32.toNat_shiftRight, UInt32.toNat_shiftRight] at hbyte
  simp only [UInt32.reduceToNat, Nat.reduceMod] at hbyte
  rw [← UInt32.toNat_inj]
  unfold place
  omega

lemma index_lt (hp : p < airdropTreeLeaves) : (p >>> 3).toNat < airdropSpentFieldSize := by
  rw [UInt32.lt_iff_toNat_lt] at hp
  rw [UInt32.toNat_shiftRight]
  simp only [UInt32.reduceToNat, Nat.reduceMod]
  unfold airdropSpentFieldSize
  omega

lemma byteAt_set (hsize : f.bits.length = airdropSpentFieldSize) (hp : p < airdropTreeLeaves)
    (b : UInt8) : byteAt ⟨f.bits.set (p >>> 3).toNat b⟩ q =
      if (p >>> 3).toNat = (q >>> 3).toNat then b else f.byteAt q := by
  have hlt := index_lt hp
  rw [← hsize] at hlt
  simp only [byteAt, getD_eq_getElem?_getD, List.getElem?_set]
  split_ifs with h
  · rfl
  · rfl

lemma isSpent_eq (hq : q < airdropTreeLeaves) :
    f.isSpent q = (f.byteAt q).toBitVec.getLsbD (place q) := by
  rw [isSpent, if_neg (UInt32.not_le.2 hq), Bool.eq_iff_iff, decide_eq_true_iff, and_mask]

lemma isSpent_setSpent (hsize : f.bits.length = airdropSpentFieldSize)
    (hp : p < airdropTreeLeaves) (hq : q < airdropTreeLeaves) (spent : Bool) :
    (f.setSpent p spent).isSpent q = if p = q then spent else f.isSpent q := by
  rw [isSpent_eq hq, isSpent_eq hq, setSpent, if_neg (UInt32.not_le.2 hp)]
  by_cases hbyte : (p >>> 3).toNat = (q >>> 3).toNat
  · have hat : f.byteAt p = f.byteAt q := by simp [byteAt, hbyte]
    cases spent with
    | true =>
      rw [if_pos rfl, byteAt_set hsize hp, if_pos hbyte, hat, getLsbD_or_mask]
      simp only [place_inj hbyte]
      split_ifs with h <;> simp [h]
    | false =>
      rw [if_neg (by decide), byteAt_set hsize hp, if_pos hbyte, hat, getLsbD_and_not_mask]
      simp only [place_inj hbyte]
      split_ifs with h <;> simp [h]
  · have hne : p ≠ q := fun h => hbyte (by rw [h])
    rw [if_neg hne]
    cases spent with
    | true => rw [if_pos rfl, byteAt_set hsize hp, if_neg hbyte]
    | false => rw [if_neg (by decide), byteAt_set hsize hp, if_neg hbyte]

lemma length_setSpent (f : AirdropSpentField) (p : UInt32) (spent : Bool) :
    (f.setSpent p spent).bits.length = f.bits.length := by
  unfold setSpent
  split_ifs <;> simp

end AirdropSpentField

/-! ## The positions of a block -/

def positionsAt (tx : Tx) : List ℕ → Result (List UInt32)
  | [] => .ok []
  | i :: is => do
    match ← coinbaseAirdropProof tx i with
    | none => positionsAt tx is
    | some proof => do
      let position ← proof.position
      let positions ← positionsAt tx is
      return position :: positions

/-- The positions of the airdrop proofs in the coinbase of a block, none if one of the proofs is
invalid. -/
def Block.airdropPositions (block : Block) : List UInt32 :=
  match block.transactions with
  | [] => []
  | tx :: _ =>
    if tx.isCoinBase then
      ((positionsAt tx (List.range' 1 (tx.txIn.length - 1))).toOption).getD []
    else []

def airdropPositions (chain : List Block) : List UInt32 := chain.flatMap Block.airdropPositions

lemma position_lt {proof : AirdropProof} (h : proof.position = .ok p) : p < airdropTreeLeaves := by
  unfold AirdropProof.position at h
  split_ifs at h
  all_goals
    simp only [bind_eq_ok, exists_failIf_ok, pure_eq_ok] at h
    obtain ⟨-, hlt, rfl⟩ := h
    exact UInt32.not_le.1 hlt

namespace AirdropSpentField

variable {f f' : AirdropSpentField}

def Sized (f : AirdropSpentField) : Prop := f.bits.length = airdropSpentFieldSize

def Holds (f : AirdropSpentField) (ps : List UInt32) : Prop :=
  ∀ p, p < airdropTreeLeaves → (f.isSpent p = true ↔ p ∈ ps)

lemma Sized.setSpent (h : f.Sized) (p : UInt32) (spent : Bool) : (f.setSpent p spent).Sized :=
  (length_setSpent f p spent).trans h

lemma spendProof_ok (h : spendProof f proof = (.ok (), f')) :
    ∃ p, proof.position = .ok p ∧ f.isSpent p = false ∧ f' = f.setSpent p true := by
  unfold spendProof at h
  split at h
  · cases h
  · split_ifs at h with hspent <;> cases h
    exact ⟨_, ‹_›, by simpa using hspent, rfl⟩

/-- A loop that goes through leaves what holds of the positions of all its proofs, when a round adds
the position of its proof. -/
theorem forEach_ok {P : AirdropSpentField → List UInt32 → Prop}
    (hfn : ∀ {f f' ps proof}, P f ps → fn f proof = (.ok (), f') →
      ∃ p, proof.position = .ok p ∧ P f' (ps ++ [p])) : ∀ {is f f' old}, P f old →
    forEachAirdropProof fn tx is f = (.ok (), f') →
    ∃ ps, positionsAt tx is = .ok ps ∧ P f' (old ++ ps)
  | [], f, f', old, hP, h => by
    cases h
    exact ⟨[], rfl, by simpa using hP⟩
  | i :: is, f, f', old, hP, h => by
    unfold forEachAirdropProof at h
    split at h
    · cases h
    · rename_i hproof
      obtain ⟨ps, hps, hrest⟩ := forEach_ok hfn hP h
      refine ⟨ps, ?_, hrest⟩
      rw [positionsAt, hproof]
      exact hps
    · rename_i proof hproof
      split at h
      · cases h
      · rename_i hround
        obtain ⟨p, hposition, hP⟩ := hfn hP hround
        obtain ⟨ps, hps, hrest⟩ := forEach_ok hfn hP h
        refine ⟨p :: ps, ?_, by simpa using hrest⟩
        rw [positionsAt, hproof, ok_bind]
        simp only [hposition, hps]
        rfl

lemma forEachBlock_ok {P : AirdropSpentField → List UInt32 → Prop}
    (hfn : ∀ {f f' ps proof}, P f ps → fn f proof = (.ok (), f') →
      ∃ p, proof.position = .ok p ∧ P f' (ps ++ [p])) (hP : P f old)
    (h : forEachBlockAirdropProof fn block f = (.ok (), f')) :
    P f' (old ++ block.airdropPositions) := by
  unfold forEachBlockAirdropProof at h
  unfold Block.airdropPositions
  cases htxs : block.transactions with
  | nil =>
    rw [htxs] at h
    cases h
    simpa using hP
  | cons tx txs =>
    rw [htxs] at h
    dsimp only at h ⊢
    unfold forEachCoinbaseAirdropProof at h
    split_ifs at h ⊢
    · obtain ⟨ps, hps, hrest⟩ := forEach_ok hfn hP h
      rw [hps]
      exact hrest
    · cases h
      simpa using hP

lemma spendBlock_ok (hsized : f.Sized) (hholds : f.Holds old)
    (hnodup : old.Nodup) (h : f.spendBlock block = (.ok (), f')) :
    f'.Sized ∧ f'.Holds (old ++ block.airdropPositions) ∧
      (old ++ block.airdropPositions).Nodup := by
  refine forEachBlock_ok (P := fun f ps => f.Sized ∧ f.Holds ps ∧ ps.Nodup) ?_
    ⟨hsized, hholds, hnodup⟩ h
  rintro f f' ps proof ⟨hsized, hholds, hnodup⟩ h
  obtain ⟨p, hposition, hspent, rfl⟩ := spendProof_ok h
  have hp := position_lt hposition
  have hnew : p ∉ ps := by simp [← hholds p hp, hspent]
  refine ⟨p, hposition, hsized.setSpent p true, fun q hq => ?_,
    concat_eq_append ▸ hnodup.concat hnew⟩
  rw [isSpent_setSpent hsized hp hq, mem_append, ← hholds q hq]
  split_ifs with hpq
  · simp [hpq]
  · simp [Ne.symm hpq]

lemma Sized.spendBlock (hsized : f.Sized) (h : f.spendBlock block = (.ok (), f')) : f'.Sized := by
  refine @forEachBlock_ok f f' _ [] block (fun f _ => f.Sized) (fun hf hproof => ?_) hsized h
  obtain ⟨p, hposition, -, rfl⟩ := spendProof_ok hproof
  exact ⟨p, hposition, hf.setSpent p true⟩

lemma unspendBlock_ok (hsized : f.Sized) (h : f.unspendBlock block = (.ok (), f')) :
    f'.Sized ∧ ∀ q, q < airdropTreeLeaves →
      (f'.isSpent q = true ↔ f.isSpent q = true ∧ q ∉ block.airdropPositions) := by
  rw [← nil_append block.airdropPositions]
  refine forEachBlock_ok (P := fun f' ps => f'.Sized ∧ ∀ q, q < airdropTreeLeaves →
    (f'.isSpent q = true ↔ f.isSpent q = true ∧ q ∉ ps)) ?_ ⟨hsized, by simp⟩ h
  rintro f1 f2 ps proof ⟨hsized, hbits⟩ h
  cases hposition : proof.position with
  | error e => simp [unspendProof, hposition] at h
  | ok p =>
    have hp := position_lt hposition
    simp only [unspendProof, hposition] at h
    cases h
    refine ⟨p, rfl, hsized.setSpent p false, fun q hq => ?_⟩
    rw [isSpent_setSpent hsized hp hq]
    split_ifs with hpq
    · simp [hpq]
    · simp [hbits q hq, Ne.symm hpq]

end AirdropSpentField

/-- The blocks of the main chain and the database after some connects and disconnects of the tip; a
block that is refused leaves what the call has made of the database. -/
inductive AirdropRun : List Block → AirdropDb → Prop
  | new : AirdropRun [] ⟨none⟩
  | connect {chain : List Block} {block : Block} {db db' : AirdropDb} (run : AirdropRun chain db)
      (ok : spendCoinbaseAirdrops db block = (.ok (), db')) : AirdropRun (chain ++ [block]) db'
  | refuse {chain : List Block} {block : Block} {db db' : AirdropDb} {e : Err}
      (run : AirdropRun chain db) (error : spendCoinbaseAirdrops db block = (.error e, db')) :
      AirdropRun chain db'
  | disconnect {chain : List Block} {block : Block} {db db' : AirdropDb}
      (run : AirdropRun (chain ++ [block]) db)
      (ok : unspendCoinbaseAirdrops db block = (.ok (), db')) : AirdropRun chain db'

section

open AirdropSpentField

variable {db : AirdropDb}

lemma fetch_put (db : AirdropDb) (hsized : f.Sized) :
    (db.dbPutAirdropSpentField f).dbFetchAirdropSpentField = .ok f := by
  have hsize : ¬ f.bits.length ≠ airdropSpentFieldSize := not_not.2 hsized
  unfold dbPutAirdropSpentField dbFetchAirdropSpentField
  simp only [failIf_of_not hsize]
  rfl

lemma sized_of_fetch (h : db.dbFetchAirdropSpentField = .ok f) : f.Sized := by
  unfold dbFetchAirdropSpentField at h
  split at h
  · cases h
    simp [Sized, newAirdropSpentField]
  · simp only [bind_eq_ok, exists_failIf_ok, pure_eq_ok, not_not] at h
    obtain ⟨hsize, rfl⟩ := h
    exact hsize

section

variable (hfetch : db.dbFetchAirdropSpentField = .ok f)
include hfetch

lemma updateAirdrops_of_ok (h : change f = (.ok (), f')) :
    updateAirdrops change db = (.ok (), db.dbPutAirdropSpentField f') := by
  simp [updateAirdrops, hfetch, h]

lemma updateAirdrops_of_error (h : change f = (.error e, f')) :
    updateAirdrops change db = (.error e, db) := by
  simp [updateAirdrops, hfetch, h]

lemma updateAirdrops_ok (h : updateAirdrops change db = (.ok (), db')) :
    ∃ f', change f = (.ok (), f') ∧ db' = db.dbPutAirdropSpentField f' := by
  simp only [updateAirdrops, hfetch] at h
  split at h
  · cases h
  · rename_i f' hf'
    cases h
    exact ⟨f', hf', rfl⟩

end

lemma updateAirdrops_error (h : updateAirdrops change db = (.error e, db')) : db' = db := by
  unfold updateAirdrops at h
  split at h
  · cases h
    rfl
  · split at h
    · cases h
      rfl
    · cases h

lemma airdropPositions_concat (chain : List Block) (block : Block) :
    airdropPositions (chain ++ [block]) = airdropPositions chain ++ block.airdropPositions := by
  simp [airdropPositions]

lemma AirdropRun.holds (run : AirdropRun chain db) :
    ∃ f, db.dbFetchAirdropSpentField = .ok f ∧ f.Holds (airdropPositions chain) ∧
      (airdropPositions chain).Nodup := by
  induction run with
  | new =>
    refine ⟨newAirdropSpentField, rfl, fun p hp => ?_, nodup_nil⟩
    rw [isSpent_eq hp]
    simp [byteAt, newAirdropSpentField, airdropPositions]
  | connect run ok ih =>
    obtain ⟨f, hfetch, hholds, hnodup⟩ := ih
    obtain ⟨f', hspend, rfl⟩ := updateAirdrops_ok hfetch ok
    rw [airdropPositions_concat]
    obtain ⟨hsized', hholds', hnodup'⟩ :=
      spendBlock_ok (sized_of_fetch hfetch) hholds hnodup hspend
    exact ⟨f', fetch_put _ hsized', hholds', hnodup'⟩
  | refuse run error ih =>
    rw [updateAirdrops_error error]
    exact ih
  | disconnect run ok ih =>
    obtain ⟨f, hfetch, hholds, hnodup⟩ := ih
    obtain ⟨f', hunspend, rfl⟩ := updateAirdrops_ok hfetch ok
    rw [airdropPositions_concat] at hholds hnodup
    obtain ⟨hsized', hbits⟩ := unspendBlock_ok (sized_of_fetch hfetch) hunspend
    refine ⟨f', fetch_put _ hsized', fun p hp => ?_, (nodup_append.1 hnodup).1⟩
    rw [hbits p hp, hholds p hp, mem_append]
    constructor
    · rintro ⟨h | h, hnot⟩
      · exact h
      · exact absurd h hnot
    · exact fun h => ⟨.inl h, fun hmem => (nodup_append.1 hnodup).2.2 p h p hmem rfl⟩

end

section

variable {σ τ : Type}

/-- Two calls agree: they fail alike, and results of success are related. -/
def Agrees (R : σ → τ → Prop) (x : Result Unit × σ) (y : Result Unit × τ) : Prop :=
  x.1 = y.1 ∧ (x.1 = .ok () → R x.2 y.2)

lemma Agrees.andThen {f : σ → Result Unit × σ} {g : τ → Result Unit × τ}
    (hnext : ∀ s t, R s t → Agrees R (f s) (g t)) : ∀ {x y}, Agrees R x y →
    Agrees R (match x with
      | (.error e, s) => (.error e, s)
      | (.ok (), s) => f s) (match y with
      | (.error e, t) => (.error e, t)
      | (.ok (), t) => g t)
  | (.error _, _), (.error _, _), h => ⟨h.1, by simp⟩
  | (.ok (), s), (.ok (), t), h => hnext s t (h.2 rfl)
  | (.error _, _), (.ok (), _), h | (.ok (), _), (.error _, _), h => nomatch h.1

variable {step : σ → Block → Result Unit × σ} {step' : τ → Block → Result Unit × τ}

lemma agrees_forBlocks (hstep : ∀ s t block, R s t → Agrees R (step s block) (step' t block)) :
    ∀ blocks {s : σ} {t : τ}, R s t → Agrees R (forBlocks step blocks s) (forBlocks step' blocks t)
  | [], _, _, h => ⟨rfl, fun _ => h⟩
  | block :: blocks, s, t, h =>
    Agrees.andThen (fun _ _ => agrees_forBlocks hstep blocks) (hstep s t block h)

lemma agrees_reorganize (hundo : ∀ s t block, R s t → Agrees R (undo s block) (undo' t block))
    (happly : ∀ s t block, R s t → Agrees R (apply s block) (apply' t block))
    (detached attached : List Block) (h : R s t) :
    Agrees R (reorganize undo apply detached attached s)
      (reorganize undo' apply' detached attached t) :=
  Agrees.andThen (fun _ _ => agrees_forBlocks happly attached) (agrees_forBlocks hundo detached h)

lemma agrees_updateAirdrops (hsized : ∀ f f', f.Sized → change f = (.ok (), f') → f'.Sized)
    (h : db.dbFetchAirdropSpentField = .ok f) :
    Agrees (fun f db => dbFetchAirdropSpentField db = .ok f) (change f)
      (updateAirdrops change db) := by
  rcases hchange : change f with ⟨e | ⟨⟩, f'⟩
  · rw [updateAirdrops_of_error h hchange]
    exact ⟨rfl, by simp⟩
  · rw [updateAirdrops_of_ok h hchange]
    exact ⟨rfl, fun _ => fetch_put db (hsized f f' (sized_of_fetch h) hchange)⟩

end

open AirdropSpentField in
/-- After every run, the field in the database is the set of the positions on the main chain, every
position is there once, a block that is refused leaves the field as it was, and the preflight of a
reorganization ends with the field that the reorganization leaves in the database. -/
theorem airdrops_paid_once {chain : List Block} {db : AirdropDb} (run : AirdropRun chain db) :
    (airdropPositions chain).Nodup ∧
    (∀ block e db', spendCoinbaseAirdrops db block = (.error e, db') → db' = db) ∧
    ∃ field, db.dbFetchAirdropSpentField = .ok field ∧
      (∀ p, p < airdropTreeLeaves → (field.isSpent p = true ↔ p ∈ airdropPositions chain)) ∧
      ∀ detached attached : List Block,
        (preflightAirdrops detached attached field).1 =
          (reorganizeAirdrops detached attached db).1 ∧
        ((preflightAirdrops detached attached field).1 = .ok () →
          (reorganizeAirdrops detached attached db).2.dbFetchAirdropSpentField =
            .ok (preflightAirdrops detached attached field).2) := by
  obtain ⟨field, hfetch, hholds, hnodup⟩ := run.holds
  refine ⟨hnodup, fun block e db' => updateAirdrops_error, field, hfetch, hholds, ?_⟩
  intro detached attached
  refine agrees_reorganize (R := fun f db => dbFetchAirdropSpentField db = .ok f)
    (fun f db block h => ?_) (fun f db block h => ?_) detached attached hfetch
  · exact agrees_updateAirdrops (fun f f' hsized hf => (unspendBlock_ok hsized hf).1) h
  · exact agrees_updateAirdrops (fun f f' hsized hf => hsized.spendBlock hf) h

/-- A coinbase that proves the leaf at the position. -/
def airdropCoinbase (position : UInt8) : Tx where
  hash := Hash.ofBytes [position]
  txIn := [⟨⟨Hash.zero, 0xffffffff⟩, []⟩, ⟨⟨Hash.zero, 0xffffffff⟩,
    [[position, 0, 0, 0, 0, 0, 0, 1, 0, 0, 20] ++ List.replicate 20 1 ++ [0, 0]]⟩]
  txOut := List.replicate 2 ⟨0, ⟨0, List.replicate 20 1⟩, ⟨.none, []⟩⟩

def airdropBlock (position : UInt8) : Block where
  hash := Hash.ofBytes [position]
  prevBlock := Hash.zero
  nameRoot := Hash.zero
  height := 1
  transactions := [airdropCoinbase position]

section

open AirdropSpentField

def airdropProofOf (position : UInt8) : AirdropProof :=
  ⟨position.toUInt32, [], 0, [], [0], 0, List.replicate 20 1, 0, [], 33⟩

lemma forEachBlockAirdropProof_airdropBlock (hp : p = 5 ∨ p = 6)
    (fn : σ → AirdropProof → Result Unit × σ) (s : σ) :
    forEachBlockAirdropProof fn (airdropBlock p) s = fn s (airdropProofOf p) := by
  have hproof : coinbaseAirdropProof (airdropCoinbase p) 1 = .ok (some (airdropProofOf p)) := by
    rcases hp with rfl | rfl <;> decide +kernel
  change forEachAirdropProof fn (airdropCoinbase p) [1] s = _
  simp only [forEachAirdropProof, hproof]
  rcases fn s _ with ⟨_ | ⟨⟩, s'⟩ <;> rfl

lemma spendBlock_airdropBlock (hp : p = 5 ∨ p = 6) (f : AirdropSpentField) :
    f.spendBlock (airdropBlock p) = if f.isSpent p.toUInt32 then
      (.error (badCovenant "airdrop proof already spent"), f)
    else (.ok (), f.setSpent p.toUInt32 true) := by
  refine (forEachBlockAirdropProof_airdropBlock hp spendProof f).trans ?_
  rcases hp with rfl | rfl <;> rfl

lemma AirdropRun.spends (run : AirdropRun chain db) (hp : p = 5 ∨ p = 6)
    (hnew : p.toUInt32 ∉ airdropPositions chain) :
    ∃ db', spendCoinbaseAirdrops db (airdropBlock p) = (.ok (), db') := by
  obtain ⟨f, hfetch, hholds, -⟩ := run.holds
  have hfree : ¬ f.isSpent p.toUInt32 = true := by
    rwa [hholds _ (by rcases hp with rfl | rfl <;> decide)]
  exact ⟨_, updateAirdrops_of_ok hfetch ((spendBlock_airdropBlock hp f).trans (if_neg hfree))⟩

/-- Two blocks are connected, one that spends the first leaf again is refused and the second is
taken back. -/
theorem airdrops_paid_once_airdropBlock : ∃ db₁ db₂ db₃ e field,
    spendCoinbaseAirdrops ⟨none⟩ (airdropBlock 5) = (.ok (), db₁) ∧
    spendCoinbaseAirdrops db₁ (airdropBlock 6) = (.ok (), db₂) ∧
    spendCoinbaseAirdrops db₂ (airdropBlock 5) = (.error e, db₂) ∧
    unspendCoinbaseAirdrops db₂ (airdropBlock 6) = (.ok (), db₃) ∧
    db₃.dbFetchAirdropSpentField = .ok field ∧ field.isSpent 5 = true ∧
      field.isSpent 6 = false := by
  have hpositions : airdropPositions [airdropBlock 5] = [5] := by decide +kernel
  have hpositions' : airdropPositions [airdropBlock 5, airdropBlock 6] = [5, 6] := by
    decide +kernel
  obtain ⟨db₁, hfirst⟩ := AirdropRun.new.spends (.inl rfl) (by decide)
  obtain ⟨db₂, hsecond⟩ := (AirdropRun.new.connect hfirst).spends (.inr rfl)
    (by rw [nil_append, hpositions]; decide)
  have hrun : AirdropRun [airdropBlock 5, airdropBlock 6] db₂ :=
    (AirdropRun.new.connect hfirst).connect hsecond
  obtain ⟨f, hfetch, hholds, -⟩ := hrun.holds
  have hrefused : spendCoinbaseAirdrops db₂ (airdropBlock 5) = _ :=
    updateAirdrops_of_error hfetch ((spendBlock_airdropBlock (.inl rfl) f).trans
      (if_pos ((hholds 5 (by decide)).2 (by rw [hpositions']; decide))))
  have hback : unspendCoinbaseAirdrops db₂ (airdropBlock 6) = _ :=
    updateAirdrops_of_ok hfetch (forEachBlockAirdropProof_airdropBlock (.inr rfl) ..)
  obtain ⟨-, -, field, hfetch', hbits, -⟩ := airdrops_paid_once
    (@AirdropRun.disconnect [airdropBlock 5] _ _ _ (hrun.refuse hrefused) hback)
  rw [hpositions] at hbits
  refine ⟨db₁, db₂, _, _, field, hfirst, hsecond, hrefused, hback, hfetch',
    (hbits 5 (by decide)).2 (by simp), ?_⟩
  rw [← Bool.not_eq_true, hbits 6 (by decide)]
  decide

end

end HandshakeNode
