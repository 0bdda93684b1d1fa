import HandshakeNode.Proofs.MsgBlock
import HandshakeNode.Sighash
import HandshakeNode.Urkel

/-!
# What a signature commits to

The digest of an input is the hash of a string whose parts can all be told apart, so that it stands
for exactly the fields in `SigHashInput.committed`. The main result is
`SigHashInput.digest_eq_iff_committed`.
-/

namespace HandshakeNode

open LittleEndian Codec List TxOut Option

/-! ### What is committed to -/

inductive SignedOutputs where
  | all (outs : List TxOut)
  | one (out : TxOut)
  | nothing
deriving DecidableEq

def SignedOutputs.hash (blake2b : Bytes → Hash) : SignedOutputs → Hash
  | .all outs => blake2b (outs.map encoded).flatten
  | .one out => blake2b out.encoded
  | .nothing => Hash.zero

structure Committed where
  version : UInt32
  lockTime : UInt32
  hashType : SigHashType
  amount : Int64
  script : Bytes
  own : Option (OutPoint × UInt32)
  prevOuts : Option (List OutPoint)
  sequences : Option (List UInt32)
  outputs : SignedOutputs
deriving DecidableEq

structure SigHashInput where
  tx : MsgTx
  fetch : PrevOutputFetcher
  idx : ℕ
  amt : Int64
  subScript : Bytes
  hashType : SigHashType

namespace SigHashInput

def baseType (t : SigHashInput) : SigHashType := t.hashType &&& sigHashMask

def anyOneCanPay (t : SigHashInput) : Bool := t.hashType &&& sigHashAnyOneCanPay ≠ 0

def noInput (t : SigHashInput) : Bool := t.hashType &&& sigHashNoInput ≠ 0

/-- The only output of the types that commit to one, if the transaction has it. -/
def singleOutput (t : SigHashInput) : Option TxOut :=
  if t.baseType = sigHashSingle then t.tx.txOut[t.idx]?
  else if t.baseType = sigHashSingleReverse ∧ t.idx < t.tx.txOut.length then
    t.tx.txOut[t.tx.txOut.length - 1 - t.idx]?
  else none

def signedOutputs (t : SigHashInput) : SignedOutputs :=
  if t.baseType = sigHashNone ∨ t.baseType = sigHashSingle ∨ t.baseType = sigHashSingleReverse then
    t.singleOutput.elim .nothing .one
  else .all t.tx.txOut

def committed (t : SigHashInput) : Committed where
  version := t.tx.version
  lockTime := t.tx.lockTime
  hashType := t.hashType
  amount := t.amt
  script := t.subScript
  own := if t.noInput then none
    else t.tx.txIn[t.idx]?.map fun txIn => (txIn.previousOutPoint, txIn.sequence)
  prevOuts := if t.anyOneCanPay then none
    else some (t.tx.txIn.map fun txIn => txIn.previousOutPoint)
  sequences := if t.anyOneCanPay ∨ t.baseType = sigHashNone ∨ t.baseType = sigHashSingle ∨
      t.baseType = sigHashSingleReverse then none
    else some (t.tx.txIn.map MsgTxIn.sequence)
  outputs := t.signedOutputs

variable (blake2b : Bytes → Hash)

/-- `calcWitnessSignatureHashRaw` with the midstates of `NewTxSigHashes`. -/
def digest (t : SigHashInput) : Result Hash := do
  let sigHashes ← newTxSigHashes blake2b t.tx t.fetch
  calcWitnessSignatureHashRaw blake2b t.subScript sigHashes t.hashType t.tx t.idx t.amt

/-! ### What is hashed -/

def prevOutBytes (t : SigHashInput) : Bytes :=
  ((t.tx.txIn.map fun txIn => txIn.previousOutPoint).map writeOutPoint).flatten

def sequenceBytes (t : SigHashInput) : Bytes :=
  ((t.tx.txIn.map MsgTxIn.sequence).map putUint32).flatten

def outputBytes (t : SigHashInput) : Bytes := (t.tx.txOut.map encoded).flatten

def outputsHash (t : SigHashInput) : Hash := t.signedOutputs.hash blake2b

def prevOutsHash (t : SigHashInput) : Hash :=
  if t.anyOneCanPay then Hash.zero else blake2b t.prevOutBytes

def sequencesHash (t : SigHashInput) : Hash :=
  if t.anyOneCanPay ∨ t.baseType = sigHashNone ∨ t.baseType = sigHashSingle ∨
    t.baseType = sigHashSingleReverse then Hash.zero else blake2b t.sequenceBytes

def ownInput (t : SigHashInput) : OutPoint × UInt32 :=
  if t.noInput then (⟨Hash.zero, 0⟩, 0)
  else (t.tx.txIn[t.idx]?.map fun txIn => (txIn.previousOutPoint, txIn.sequence)).getD
    (⟨Hash.zero, 0⟩, 0)

def preimage (t : SigHashInput) : Bytes :=
  [putUint32 t.tx.version, (t.prevOutsHash blake2b).bytes, (t.sequencesHash blake2b).bytes,
    writeOutPoint t.ownInput.1, scriptCode t.subScript, putUint64 t.amt.toUInt64,
    putUint32 t.ownInput.2, (t.outputsHash blake2b).bytes, putUint32 t.tx.lockTime,
    putUint32 t.hashType].flatten

def hashed (t : SigHashInput) : List Bytes :=
  [t.prevOutBytes, t.sequenceBytes, t.outputBytes, t.preimage blake2b] ++
    (t.singleOutput.map encoded).toList

end SigHashInput

/-! ### The digest is the hash of the preimage -/

lemma writeTxOuts_eq_ok : ∀ {outs} {b}, writeTxOuts outs = .ok b ↔
    (∀ out ∈ outs, out.Valid) ∧ b = (outs.map encoded).flatten
  | [], b => by
    rw [writeTxOuts]
    simp
  | out :: outs, b => by
    simp only [writeTxOuts, bind_eq_ok, writeTxOut_eq_ok, writeTxOuts_eq_ok, pure_eq_ok,
      mem_cons]
    constructor
    · rintro ⟨b1, ⟨hout, rfl⟩, b2, ⟨houts, rfl⟩, rfl⟩
      exact ⟨fun o ho => ho.elim (fun h => h ▸ hout) (houts o), rfl⟩
    · rintro ⟨hall, rfl⟩
      exact ⟨_, ⟨hall out (.inl rfl), rfl⟩, _, ⟨fun o ho => hall o (.inr ho), rfl⟩, rfl⟩

lemma inputVersions_eq_ok : ∀ {txIns} {v0}
    {p : Bool × Bool}, inputVersions fetch txIns v0 false = .ok p →
    p = (v0 || !txIns.isEmpty, false)
  | [], v0, p, h => by
    cases h
    simp
  | txIn :: txIns, v0, p, h => by
    rw [inputVersions] at h
    split at h
    · rw [inputVersions_eq_ok h]
      simp
    · obtain ⟨prevOut, -, h⟩ := bind_eq_ok.1 h
      simp only [isPayToTaproot, Bool.not_false, Bool.or_true] at h
      rw [inputVersions_eq_ok h]
      simp

lemma inputVersions_of_known : ∀ {txIns} {v0},
    (∀ txIn ∈ txIns, (fetch txIn.previousOutPoint).isSome) →
    ∃ p, inputVersions fetch txIns v0 false = .ok p
  | [], _, _ => ⟨_, rfl⟩
  | txIn :: txIns, v0, h => by
    have hrest : ∀ x ∈ txIns, (fetch x.previousOutPoint).isSome := fun x hx =>
      h x (mem_cons_of_mem _ hx)
    obtain ⟨out, hout⟩ := isSome_iff_exists.1 (h txIn mem_cons_self)
    rw [inputVersions]
    split
    · exact inputVersions_of_known hrest
    · simp only [hout, isPayToTaproot, Bool.not_false, Bool.or_true]
      exact inputVersions_of_known hrest

def midstates (blake2b : Bytes → Hash) (t : SigHashInput) : TxSigHashes where
  hashPrevOutsV0 := blake2b t.prevOutBytes
  hashSequenceV0 := blake2b t.sequenceBytes
  hashOutputsV0 := blake2b t.outputBytes
  hashPrevOutsV1 := blake2b t.prevOutBytes
  hashSequenceV1 := blake2b t.sequenceBytes
  hashOutputsV1 := blake2b t.outputBytes

section

variable {t : SigHashInput}

lemma calcHashOutputs_eq_ok : calcHashOutputs blake2b tx = .ok h ↔
    (∀ out ∈ tx.txOut, out.Valid) ∧ h = blake2b (tx.txOut.map encoded).flatten := by
  simp only [calcHashOutputs, bind_eq_ok, orPanic_eq_ok, writeTxOuts_eq_ok, pure_eq_ok]
  constructor
  · rintro ⟨b, ⟨hvalid, rfl⟩, rfl⟩
    exact ⟨hvalid, rfl⟩
  · rintro ⟨hvalid, rfl⟩
    exact ⟨_, ⟨hvalid, rfl⟩, rfl⟩

lemma newTxSigHashes_eq_ok (hin : t.tx.txIn ≠ []) : newTxSigHashes blake2b t.tx t.fetch = .ok s ↔
      (∃ p, inputVersions t.fetch t.tx.txIn false false = .ok p) ∧
        (∀ out ∈ t.tx.txOut, out.Valid) ∧ s = midstates blake2b t := by
  have hprev : calcHashPrevOuts blake2b t.tx = blake2b t.prevOutBytes := by
    simp [calcHashPrevOuts, SigHashInput.prevOutBytes, Function.comp_def]
  have hseq : calcHashSequence blake2b t.tx = blake2b t.sequenceBytes := by
    simp [calcHashSequence, SigHashInput.sequenceBytes, Function.comp_def]
  have hversions : ∀ p, inputVersions t.fetch t.tx.txIn false false = .ok p → p = (true, false) := by
    intro p hp
    rw [inputVersions_eq_ok hp]
    simp [hin]
  constructor
  · intro h
    obtain ⟨p, hp, h⟩ := bind_eq_ok.1 h
    obtain rfl := hversions p hp
    obtain ⟨out, hout, h⟩ := bind_eq_ok.1 h
    obtain ⟨hvalid, rfl⟩ := calcHashOutputs_eq_ok.1 hout
    rw [hprev, hseq] at h
    cases h
    exact ⟨⟨_, hp⟩, hvalid, rfl⟩
  · rintro ⟨⟨p, hp⟩, hvalid, rfl⟩
    obtain rfl := hversions p hp
    rw [newTxSigHashes, hp]
    rw [calcHashOutputs_eq_ok.2 ⟨hvalid, rfl⟩, hprev, hseq]
    rfl

lemma signsAllOutputs_eq (t : SigHashInput) : signsAllOutputs t.hashType =
    !decide (t.baseType = sigHashNone ∨ t.baseType = sigHashSingle ∨
      t.baseType = sigHashSingleReverse) := by
  rw [signsAllOutputs, ← decide_not, decide_eq_decide]
  tauto

lemma hashOutputs_ok (hvalid : ∀ out ∈ t.tx.txOut, out.Valid) :
    hashOutputs blake2b (midstates blake2b t) t.hashType t.tx t.idx =
      .ok (t.outputsHash blake2b) := by
  have hwrite : ∀ {i} {out}, t.tx.txOut[i]? = some out →
      writeTxOut out = .ok out.encoded := fun h =>
    writeTxOut_eq_ok.2 ⟨hvalid _ (mem_of_getElem? h), rfl⟩
  rw [hashOutputs, signsAllOutputs_eq, SigHashInput.outputsHash, SigHashInput.signedOutputs]
  by_cases hall : t.baseType = sigHashNone ∨ t.baseType = sigHashSingle ∨
    t.baseType = sigHashSingleReverse
  · rw [if_neg (by simp [hall]), if_pos hall, SigHashInput.singleOutput]
    rcases hout : t.tx.txOut[t.idx]? with _ | out
    · have hlen : ¬ t.idx < t.tx.txOut.length := not_lt.2 (List.getElem?_eq_none_iff.1 hout)
      simp [hlen, SignedOutputs.hash]
    · have hlen := (List.getElem?_eq_some_iff.1 hout).1
      by_cases hsingle : t.baseType = sigHashSingle
      · rw [if_pos hsingle]
        change (if t.baseType = sigHashSingle then _ else _) = _
        rw [if_pos hsingle, hwrite hout]
        rfl
      · rw [if_neg hsingle]
        change (if t.baseType = sigHashSingle then _ else
          if t.baseType = sigHashSingleReverse then _ else _) = _
        rw [if_neg hsingle]
        by_cases hrev : t.baseType = sigHashSingleReverse
        · rw [if_pos hrev, if_pos ⟨hrev, hlen⟩]
          have hlast : t.tx.txOut.length - 1 - t.idx < t.tx.txOut.length := by omega
          rw [List.getElem?_eq_getElem hlast]
          dsimp only
          rw [hwrite (List.getElem?_eq_getElem hlast)]
          rfl
        · rw [if_neg hrev, if_neg fun h => hrev h.1]
          rfl
  · rw [if_pos (by simp [hall]), if_neg hall]
    rfl

lemma calcWitnessSignatureHashRaw_ok (hidx : t.idx < t.tx.txIn.length)
    (hvalid : ∀ out ∈ t.tx.txOut, out.Valid) :
    calcWitnessSignatureHashRaw blake2b t.subScript (midstates blake2b t) t.hashType t.tx t.idx
      t.amt = .ok (blake2b (t.preimage blake2b)) := by
  have hseq : (if (!decide (t.hashType &&& sigHashAnyOneCanPay ≠ 0) &&
      signsAllOutputs t.hashType) = true then (midstates blake2b t).hashSequenceV0
      else Hash.zero) = t.sequencesHash blake2b := by
    rw [signsAllOutputs_eq, SigHashInput.sequencesHash, SigHashInput.anyOneCanPay]
    by_cases hacp : t.hashType &&& sigHashAnyOneCanPay = 0
    · by_cases hbase : t.baseType = sigHashNone ∨ t.baseType = sigHashSingle ∨
        t.baseType = sigHashSingleReverse
      · rw [if_neg (by simp [hbase]), if_pos (.inr hbase)]
      · rw [if_pos (by simp [hacp, hbase]), if_neg (by simpa [hacp] using hbase)]
        rfl
    · rw [if_neg (by simp [hacp]), if_pos (.inl (by simp [hacp]))]
  have hown : (if t.hashType &&& sigHashNoInput ≠ 0 then ((⟨Hash.zero, 0⟩ : OutPoint), (0 : UInt32))
      else (t.tx.txIn[t.idx].previousOutPoint, t.tx.txIn[t.idx].sequence)) = t.ownInput := by
    rw [SigHashInput.ownInput, getElem?_eq_getElem hidx, SigHashInput.noInput]
    simp
  rw [calcWitnessSignatureHashRaw, getElem?_eq_getElem hidx]
  dsimp only
  rw [hown, hashOutputs_ok hvalid, hseq]
  rfl

lemma digest_eq_ok : t.digest blake2b = .ok d ↔
    t.idx < t.tx.txIn.length ∧ (∃ p, inputVersions t.fetch t.tx.txIn false false = .ok p) ∧
      (∀ out ∈ t.tx.txOut, out.Valid) ∧ d = blake2b (t.preimage blake2b) := by
  by_cases hidx : t.idx < t.tx.txIn.length
  · have hin : t.tx.txIn ≠ [] := ne_nil_of_length_pos (Nat.zero_lt_of_lt hidx)
    rw [SigHashInput.digest, bind_eq_ok]
    constructor
    · rintro ⟨s, hs, hd⟩
      obtain ⟨hp, hvalid, rfl⟩ := (newTxSigHashes_eq_ok hin).1 hs
      rw [calcWitnessSignatureHashRaw_ok hidx hvalid] at hd
      cases hd
      exact ⟨hidx, hp, hvalid, rfl⟩
    · rintro ⟨-, hp, hvalid, rfl⟩
      exact ⟨_, (newTxSigHashes_eq_ok hin).2 ⟨hp, hvalid, rfl⟩,
        calcWitnessSignatureHashRaw_ok hidx hvalid⟩
  · refine ⟨fun h => ?_, fun h => absurd h.1 hidx⟩
    obtain ⟨s, -, hd⟩ := bind_eq_ok.1 h
    rw [calcWitnessSignatureHashRaw, getElem?_eq_none (not_lt.1 hidx)] at hd
    cases hd

end

/-! ### The parts of the preimage -/

lemma putUint32_inj (h : putUint32 a = putUint32 b) : a = b :=
  lawful_readUint32.inj trivial trivial h

lemma putUint64_inj (h : putUint64 a = putUint64 b) : a = b :=
  lawful_readUint64.inj trivial trivial h

lemma length_writeOutPoint (o : OutPoint) : (writeOutPoint o).length = 36 := by
  simp [writeOutPoint, putUint32]

lemma writeOutPoint_inj (h : writeOutPoint a = writeOutPoint b) : a = b :=
  lawful_readOutPoint.inj trivial trivial h

lemma TxOut.encoded_inj {b : TxOut} (ha : a.Valid) (hb : b.Valid) (h : a.encoded = b.encoded) :
    a = b :=
  lawful_readTxOut.inj ha hb h

lemma writeVarBytes_inj (h : writeVarBytes a = writeVarBytes b) : a = b := by
  have hlen : a.length = b.length := by
    -- the length of what is written grows with the length of the string
    have htotal := congrArg length h
    simp only [writeVarBytes, length_append, length_writeVarInt, varIntSerializeSize] at htotal
    split_ifs at htotal <;> omega
  rw [writeVarBytes, hlen] at h
  exact append_cancel_left h

lemma scriptCode_of_not_keyHash (h : isWitnessPubKeyHashScript script = false) :
    scriptCode script = writeVarBytes script := by
  rw [isWitnessPubKeyHashScript, isSome_eq_false_iff, isNone_iff_eq_none] at h
  rw [scriptCode, h]

namespace SigHashInput

variable {t t' : SigHashInput}

lemma prevOutsHash_eq (t : SigHashInput) : t.prevOutsHash blake2b =
    t.committed.prevOuts.elim Hash.zero fun l => blake2b (l.map writeOutPoint).flatten := by
  rw [prevOutsHash, committed]
  split <;> rfl

lemma sequencesHash_eq (t : SigHashInput) : t.sequencesHash blake2b =
    t.committed.sequences.elim Hash.zero fun l => blake2b (l.map putUint32).flatten := by
  rw [sequencesHash, committed]
  split <;> rfl

lemma ownInput_eq (t : SigHashInput) : t.ownInput = t.committed.own.getD (⟨Hash.zero, 0⟩, 0) := by
  rw [ownInput, committed]
  split <;> rfl

lemma outputsHash_eq (t : SigHashInput) :
    t.outputsHash blake2b = t.committed.outputs.hash blake2b := rfl

lemma preimage_of_committed (h : t.committed = t'.committed) :
    t.preimage blake2b = t'.preimage blake2b := by
  have hversion : t.tx.version = t'.tx.version := congrArg Committed.version h
  have hlock : t.tx.lockTime = t'.tx.lockTime := congrArg Committed.lockTime h
  have htype : t.hashType = t'.hashType := congrArg Committed.hashType h
  have hamt : t.amt = t'.amt := congrArg Committed.amount h
  have hscript : t.subScript = t'.subScript := congrArg Committed.script h
  rw [preimage, preimage, prevOutsHash_eq, prevOutsHash_eq, sequencesHash_eq, sequencesHash_eq,
    ownInput_eq, ownInput_eq, outputsHash_eq, outputsHash_eq, h, hversion, hlock, htype, hamt,
    hscript]

lemma parts_of_preimage (hs : isWitnessPubKeyHashScript t.subScript = false)
    (hs' : isWitnessPubKeyHashScript t'.subScript = false)
    (h : t.preimage blake2b = t'.preimage blake2b) :
    t.tx.version = t'.tx.version ∧ t.prevOutsHash blake2b = t'.prevOutsHash blake2b ∧
      t.sequencesHash blake2b = t'.sequencesHash blake2b ∧ t.ownInput = t'.ownInput ∧
      t.subScript = t'.subScript ∧ t.amt = t'.amt ∧
      t.outputsHash blake2b = t'.outputsHash blake2b ∧ t.tx.lockTime = t'.tx.lockTime ∧
      t.hashType = t'.hashType := by
  simp only [preimage, scriptCode_of_not_keyHash hs, scriptCode_of_not_keyHash hs'] at h
  obtain ⟨hversion, h⟩ := append_inj h (by simp [putUint32])
  obtain ⟨hprev, h⟩ := append_inj h (by simp)
  obtain ⟨hseq, h⟩ := append_inj h (by simp)
  obtain ⟨hpoint, h⟩ := append_inj h (by simp [length_writeOutPoint])
  -- the script is the only part of no fixed length
  obtain ⟨hscript, h⟩ := append_inj' h (by simp [putUint32, putUint64])
  obtain ⟨hamt, h⟩ := append_inj h (by simp [putUint64])
  obtain ⟨hsequence, h⟩ := append_inj h (by simp [putUint32])
  obtain ⟨hout, h⟩ := append_inj h (by simp)
  obtain ⟨hlock, htype⟩ := append_inj h (by simp [putUint32])
  refine ⟨putUint32_inj hversion, Hash.ext hprev, Hash.ext hseq,
    Prod.ext (writeOutPoint_inj hpoint) (putUint32_inj hsequence), writeVarBytes_inj hscript, ?_,
    Hash.ext hout, putUint32_inj hlock, putUint32_inj htype⟩
  rw [← Int64.toInt64_toUInt64 t.amt, putUint64_inj hamt, Int64.toInt64_toUInt64]

/-! ### The fields behind the hashes -/

/-- `blake2b` has no collision among these strings and hashes none of them to zero. -/
structure Ideal (blake2b : Bytes → Hash) (S : Set Bytes) : Prop where
  injOn : Set.InjOn blake2b S
  ne_zero : ∀ s ∈ S, blake2b s ≠ Hash.zero

lemma singleOutput_mem (h : t.singleOutput = some out) : out ∈ t.tx.txOut := by
  rw [singleOutput] at h
  split_ifs at h
  · exact mem_of_getElem? h
  · exact mem_of_getElem? h

variable (hideal : Ideal blake2b S) (ht : ∀ s ∈ t.hashed blake2b, s ∈ S)
  (ht' : ∀ s ∈ t'.hashed blake2b, s ∈ S)

include hideal ht ht'

lemma prevOuts_of_hash (htype : t.hashType = t'.hashType)
    (h : t.prevOutsHash blake2b = t'.prevOutsHash blake2b) :
    t.committed.prevOuts = t'.committed.prevOuts := by
  have hacp : t.anyOneCanPay = t'.anyOneCanPay := by rw [anyOneCanPay, anyOneCanPay, htype]
  simp only [committed, prevOutsHash, hacp] at h ⊢
  split_ifs at h ⊢
  · rfl
  · have hbytes := hideal.injOn (ht _ (by simp [hashed])) (ht' _ (by simp [hashed])) h
    rw [lawful_readOutPoint.flatten_inj (fun o _ ho => ?_) (fun _ _ => trivial)
      (fun _ _ => trivial) hbytes]
    have := length_writeOutPoint o
    rw [ho] at this
    cases this

lemma sequences_of_hash (htype : t.hashType = t'.hashType)
    (h : t.sequencesHash blake2b = t'.sequencesHash blake2b) :
    t.committed.sequences = t'.committed.sequences := by
  have hacp : t.anyOneCanPay = t'.anyOneCanPay := by rw [anyOneCanPay, anyOneCanPay, htype]
  have hbase : t.baseType = t'.baseType := by rw [baseType, baseType, htype]
  simp only [committed, sequencesHash, hacp, hbase] at h ⊢
  split_ifs at h ⊢
  · rfl
  · have hbytes := hideal.injOn (ht _ (by simp [hashed])) (ht' _ (by simp [hashed])) h
    rw [lawful_readUint32.flatten_inj (fun n _ hn => ?_) (fun _ _ => trivial)
      (fun _ _ => trivial) hbytes]
    have hlen : (putUint32 n).length = 4 := length_leBytes 4 _
    rw [hn] at hlen
    cases hlen

lemma outputs_of_hash (hvalid : ∀ out ∈ t.tx.txOut, out.Valid)
    (hvalid' : ∀ out ∈ t'.tx.txOut, out.Valid) (htype : t.hashType = t'.hashType)
    (h : t.outputsHash blake2b = t'.outputsHash blake2b) : t.signedOutputs = t'.signedOutputs := by
  have hbase : t.baseType = t'.baseType := by rw [baseType, baseType, htype]
  have hmem : ∀ out, t.singleOutput = some out → out.encoded ∈ S := fun out hout =>
    ht _ (by simp [hashed, hout])
  have hmem' : ∀ out, t'.singleOutput = some out → out.encoded ∈ S := fun out hout =>
    ht' _ (by simp [hashed, hout])
  simp only [outputsHash, signedOutputs, hbase] at h ⊢
  split_ifs at h ⊢
  · rcases ho : t.singleOutput with _ | out <;> rcases ho' : t'.singleOutput with _ | out' <;>
      rw [ho, ho'] at h
    · exact absurd h.symm (hideal.ne_zero _ (hmem' _ ho'))
    · exact absurd h (hideal.ne_zero _ (hmem _ ho))
    · have henc := hideal.injOn (hmem _ ho) (hmem' _ ho') h
      rw [encoded_inj (hvalid _ (singleOutput_mem ho)) (hvalid' _ (singleOutput_mem ho')) henc]
  · have hbytes := hideal.injOn (ht t.outputBytes (by simp [hashed]))
      (ht' t'.outputBytes (by simp [hashed])) h
    rw [lawful_readTxOut.flatten_inj (fun out _ hout => ?_) hvalid hvalid' hbytes]
    have := out.length_encoded_ge
    rw [hout] at this
    exact absurd this (by decide)

lemma committed_of_preimage (hidx : t.idx < t.tx.txIn.length) (hidx' : t'.idx < t'.tx.txIn.length)
    (hvalid : ∀ out ∈ t.tx.txOut, out.Valid) (hvalid' : ∀ out ∈ t'.tx.txOut, out.Valid)
    (hs : isWitnessPubKeyHashScript t.subScript = false)
    (hs' : isWitnessPubKeyHashScript t'.subScript = false)
    (h : t.preimage blake2b = t'.preimage blake2b) : t.committed = t'.committed := by
  obtain ⟨hversion, hprev, hseq, hown, hscript, hamt, hout, hlock, htype⟩ :=
    parts_of_preimage hs hs' h
  have hno : t.noInput = t'.noInput := by rw [noInput, noInput, htype]
  have hown' : t.committed.own = t'.committed.own := by
    simp only [ownInput, committed, hno, getElem?_eq_getElem hidx,
      getElem?_eq_getElem hidx', map_some, getD_some] at hown ⊢
    split_ifs at hown ⊢
    · rfl
    · rw [hown]
  have hprev' := prevOuts_of_hash hideal ht ht' htype hprev
  have hseq' := sequences_of_hash hideal ht ht' htype hseq
  have hout' := outputs_of_hash hideal ht ht' hvalid hvalid' htype hout
  rw [Committed.mk.injEq]
  exact ⟨hversion, hlock, htype, hamt, hscript, hown', hprev', hseq', hout'⟩

omit hideal ht ht'

/-- A digest is returned for every input of a transaction whose outputs can be encoded and whose
previous outputs are known. Two digests are the same exactly when the fields that the hash types
name are, unless strings that were hashed for them collide or hash to zero. -/
theorem digest_eq_iff_committed (blake2b : Bytes → Hash) :
    (∀ t : SigHashInput, t.idx < t.tx.txIn.length → (∀ out ∈ t.tx.txOut, out.Valid) →
      (∀ txIn ∈ t.tx.txIn, (t.fetch txIn.previousOutPoint).isSome) →
      ∃ d, t.digest blake2b = .ok d) ∧
    ∀ (t t' : SigHashInput) (d d' : Hash), t.digest blake2b = .ok d → t'.digest blake2b = .ok d' →
      isWitnessPubKeyHashScript t.subScript = false →
      isWitnessPubKeyHashScript t'.subScript = false →
      Ideal blake2b { s | s ∈ t.hashed blake2b ∨ s ∈ t'.hashed blake2b } →
      (d = d' ↔ t.committed = t'.committed) := by
  constructor
  · intro t hidx hvalid hfetch
    exact ⟨_, digest_eq_ok.2 ⟨hidx, inputVersions_of_known hfetch, hvalid, rfl⟩⟩
  · intro t t' d d' hd hd' hs hs' hideal
    obtain ⟨hidx, -, hvalid, rfl⟩ := digest_eq_ok.1 hd
    obtain ⟨hidx', -, hvalid', rfl⟩ := digest_eq_ok.1 hd'
    constructor
    · intro h
      have hpre := hideal.injOn (.inl (by simp [hashed])) (.inr (by simp [hashed])) h
      exact committed_of_preimage hideal (fun _ => .inl) (fun _ => .inr) hidx hidx' hvalid hvalid'
        hs hs' hpre
    · intro h
      rw [preimage_of_committed h]

def signsFirst (outs : List TxOut) : SigHashInput where
  tx := ⟨0, [⟨⟨⟨Hash.zero, 7⟩, []⟩, 9⟩], outs, 0⟩
  fetch _ := some ⟨100, ⟨0, replicate 20 1⟩, ⟨.none, []⟩⟩
  idx := 0
  amt := 100
  subScript := [0x51]
  hashType := sigHashSingle

def payment (value : Int64) : TxOut := ⟨value, ⟨0, replicate 20 2⟩, ⟨.none, []⟩⟩

/-- The second output may change under such a signature. -/
theorem digest_eq_iff_committed_signsFirst :
    ∃ d, (signsFirst [payment 1, payment 2]).digest blake2bSum256 = .ok d ∧
      (signsFirst [payment 1, payment 3]).digest blake2bSum256 = .ok d := by
  have hreturns := (digest_eq_iff_committed blake2bSum256).1
  obtain ⟨d, hd⟩ := hreturns (signsFirst [payment 1, payment 2]) (by decide) (by decide) (by decide)
  obtain ⟨d', hd'⟩ := hreturns (signsFirst [payment 1, payment 3]) (by decide) (by decide)
    (by decide)
  have hnodup : (((signsFirst [payment 1, payment 2]).hashed blake2bSum256 ++
      (signsFirst [payment 1, payment 3]).hashed blake2bSum256).dedup.map blake2bSum256).Nodup ∧
      Hash.zero ∉ ((signsFirst [payment 1, payment 2]).hashed blake2bSum256 ++
        (signsFirst [payment 1, payment 3]).hashed blake2bSum256).map blake2bSum256 := by
    decide +kernel
  have hideal : Ideal blake2bSum256 { s |
      s ∈ (signsFirst [payment 1, payment 2]).hashed blake2bSum256 ∨
      s ∈ (signsFirst [payment 1, payment 3]).hashed blake2bSum256 } := by
    refine ⟨fun s hs s' hs' heq => ?_, fun s hs hzero => hnodup.2 ?_⟩
    · exact inj_on_of_nodup_map hnodup.1 (by simpa using hs) (by simpa using hs') heq
    · exact mem_map.2 ⟨s, mem_append.2 hs, hzero⟩
  have hiff := (digest_eq_iff_committed blake2bSum256).2 _ _ d d' hd hd' (by decide) (by decide)
    hideal
  rw [← hiff.2 (by decide)] at hd'
  exact ⟨d, hd, hd'⟩

end SigHashInput

end HandshakeNode
