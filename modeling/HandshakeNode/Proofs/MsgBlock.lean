import HandshakeNode.Lib.Loops
import HandshakeNode.Proofs.WireCodec

/-!
# The encoding of transactions and blocks is a bijection onto what the decoders accept

The limits of the decoders are predicates on transactions and blocks. On them the decoders are
lawful, part by part in the order of the encoding; the witnesses come last and share one slab.
-/

namespace HandshakeNode

open MsgBlock BlockHeader MsgTxIn Covenant Address

open List (append_assoc append_nil flatten_cons flatten_nil forall_mem_cons length_append length_map
  length_nil map_cons map_map)

open LittleEndian Codec Lawful

/-! ## Inputs and outputs -/

lemma lawful_readOutPoint : Lawful (fun _ => True) writeOutPoint readOutPoint := by
  refine read OutPoint.hash lawful_readChainHash fun hash => ?_
  refine read OutPoint.index lawful_readUint32 fun index => ret fun o => ?_
  cases o
  simp

lemma lawful_readTxIn : Lawful (fun ti => ti.witness = []) writeTxIn readTxIn := by
  refine read (fun ti : MsgTxIn => ti.previousOutPoint) lawful_readOutPoint fun o => ?_
  refine read sequence lawful_readUint32 fun sequence => ret fun ti => ?_
  obtain ⟨⟨o', witness⟩, sequence'⟩ := ti
  simp
  tauto

def TxOut.Valid (txOut : TxOut) : Prop := txOut.address.Valid ∧ txOut.covenant.Valid

instance (txOut : TxOut) : Decidable txOut.Valid := by unfold TxOut.Valid; infer_instance

lemma lawful_readTxOut : Lawful TxOut.Valid TxOut.encoded readTxOut := by
  refine read (fun txOut : TxOut => txOut.value.toUInt64) lawful_readUint64
    fun value => ?_
  refine bind TxOut.address lawful_decode (fun address haddress => ?_)
    fun _ h => h.1.1
  refine bind TxOut.covenant lawful_decode
    (fun covenant hcovenant => ret fun txOut => ?_) fun _ h => h.1.1.2
  constructor
  · rintro ⟨⟨⟨-, rfl⟩, rfl⟩, rfl⟩
    rw [Int64.toInt64_toUInt64]
  · rintro rfl
    exact ⟨⟨⟨⟨haddress, hcovenant⟩, UInt64.toUInt64_toInt64 value⟩, rfl⟩, rfl⟩

lemma writeTxOut_eq_ok : writeTxOut txOut = .ok s ↔ txOut.Valid ∧ s = txOut.encoded := by
  simp only [writeTxOut, bind_eq_ok, pure_eq_ok, Address.encode_eq_ok, Covenant.encode_eq_ok]
  constructor
  · rintro ⟨_, ⟨hva, rfl⟩, _, ⟨hvc, rfl⟩, rfl⟩
    exact ⟨⟨hva, hvc⟩, rfl⟩
  · rintro ⟨⟨hva, hvc⟩, rfl⟩
    exact ⟨_, ⟨hva, rfl⟩, _, ⟨hvc, rfl⟩, rfl⟩

/-- The inputs' witnesses in turn: the items of each one, counted and by size, fit in what the ones
before left of the slab. -/
def WitnessFits : ℕ → List (List Bytes) → Prop
  | _, [] => True
  | slab, wit :: wits =>
    wit.length ≤ slab ∧ wit.flatten.length ≤ slab ∧ WitnessFits (slab - wit.flatten.length) wits

lemma readScript_eq_ok (h : readScript s slab slab fieldName = .ok (b, r)) :
    b.length ≤ slab ∧ b.length ≤ maxWitnessItemSize ∧ s = writeVarBytes b ++ r := by
  simp only [readScript, bind_eq_ok, Prod.exists, exists_failIf_ok] at h
  obtain ⟨count, r', hcount, hslab, hmax, -, -, hb⟩ := h
  obtain ⟨-, rfl⟩ := writeVarInt_of_readVarInt hcount
  obtain ⟨rfl, rfl⟩ := readFull_eq_ok hb
  exact ⟨by omega, by omega, by rw [writeVarBytes, append_assoc]⟩

lemma lawful_readScript (slab : ℕ) (fieldName : String) :
    Lawful (fun b => b.length ≤ slab ∧ b.length ≤ maxWitnessItemSize) writeVarBytes
      (readScript · slab slab fieldName) where
  dec_enc b r h := by
    have hsize : b.length < 2 ^ 64 := h.2.trans_lt (by decide)
    unfold readScript writeVarBytes
    rw [append_assoc, readVarInt_writeVarInt hsize]
    simp only [ok_bind]
    rw [failIf_of_not (by omega), failIf_of_not (by omega), failIf_of_not (by simp),
      failIf_of_not (by omega)]
    exact readFull_append rfl
  enc_dec s b r h := by
    obtain ⟨h1, h2, h3⟩ := readScript_eq_ok h
    exact ⟨⟨h1, h2⟩, h3⟩

lemma lawful_readWitnessItems : ∀ n slab, Lawful (fun x => x.1.length = n ∧
        (∀ item ∈ x.1, item.length ≤ maxWitnessItemSize) ∧ x.1.flatten.length + x.2 = slab)
      (fun x => (x.1.map writeVarBytes).flatten) (readWitnessItems n slab)
  | 0, slab =>
    { dec_enc := by
        rintro ⟨items, left⟩ r ⟨hlen, -, hslab⟩
        obtain rfl := List.length_eq_zero_iff.1 hlen
        obtain rfl : left = slab := by simpa using hslab
        rfl
      enc_dec := by
        intro s x r h
        cases h
        exact ⟨by simp, rfl⟩ }
  | n + 1, slab =>
    { dec_enc := by
        rintro ⟨_ | ⟨item, items⟩, left⟩ r ⟨hlen, hmax, hslab⟩
        · cases hlen
        · obtain ⟨hitem, hitems⟩ := forall_mem_cons.1 hmax
          simp only [flatten_cons, length_append] at hslab
          have hfirst := (lawful_readScript slab "script witness item").dec_enc item
            ((items.map writeVarBytes).flatten ++ r) ⟨by omega, hitem⟩
          have hrest := (lawful_readWitnessItems n (slab - item.length)).dec_enc (items, left) r
            ⟨by simpa using hlen, hitems, by simp only; omega⟩
          simp only [readWitnessItems, map_cons, flatten_cons, append_assoc, hfirst,
            ok_bind, hrest]
          rfl
      enc_dec := by
        intro s x r h
        simp only [readWitnessItems, bind_eq_ok, Prod.exists] at h
        obtain ⟨item, r1, hitem, items, left, r2, hitems, rfl, rfl⟩ := h
        obtain ⟨hslab, hmax, rfl⟩ := readScript_eq_ok hitem
        obtain ⟨⟨hlen, hmaxs, hleft⟩, rfl⟩ := (lawful_readWitnessItems n _).enc_dec _ _ _ hitems
        refine ⟨⟨by simpa using hlen, forall_mem_cons.2 ⟨hmax, hmaxs⟩, ?_⟩, by simp⟩
        simp only [flatten_cons, length_append] at hleft ⊢
        omega }

def WitnessSane (wit : List Bytes) : Prop :=
  wit.length ≤ maxWitnessItemsPerInput ∧ ∀ item ∈ wit, item.length ≤ maxWitnessItemSize

lemma lawful_readTxWitness (slab : ℕ) : Lawful (fun x => WitnessSane x.1 ∧ x.1.length ≤ slab ∧
        x.1.flatten.length + x.2 = slab)
      (fun x => writeTxWitness x.1) (readTxWitness slab) := by
  refine bind (fun x : List Bytes × ℕ => x.1.length) lawful_readVarInt
    (fun witCount _ => ?_) fun x h => h.1.1.trans_lt (by decide)
  refine guard ?_ fun _ hcount => ?_
  · rintro x r ⟨⟨h, -⟩, rfl⟩
    exact failIf_of_not (not_lt.2 h.1) _
  refine guard ?_ fun _ hslab => ?_
  · rintro x r ⟨⟨-, h, -⟩, rfl⟩
    exact failIf_of_not (not_lt.2 h) _
  rw [failIf_eq_ok, not_lt] at hcount hslab
  refine (lawful_readWitnessItems witCount slab).congr (fun x => ?_) fun x _ => append_nil _
  constructor
  · rintro ⟨⟨⟨-, h⟩, -, hleft⟩, hlen⟩
    exact ⟨hlen, h, hleft⟩
  · rintro ⟨rfl, h, hleft⟩
    exact ⟨⟨⟨hcount, h⟩, hslab, hleft⟩, rfl⟩

def MsgTxIn.strip (ti : MsgTxIn) : MsgTxIn := { ti with witness := [] }

lemma map_strip_of_empty : ∀ {ins : List MsgTxIn}, (∀ ti ∈ ins, ti.witness = []) →
    ins.map strip = ins
  | [], _ => rfl
  | ⟨⟨o, wit⟩, seq⟩ :: ins, h => by
    obtain ⟨hwit, hins⟩ := forall_mem_cons.1 h
    obtain rfl : wit = [] := hwit
    rw [map_cons, map_strip_of_empty hins]
    rfl

lemma lawful_readTxWitnesses : ∀ txIn (slab : ℕ),
    Lawful (fun ins => ins.map strip = txIn.map strip ∧
        (∀ ti ∈ ins, WitnessSane ti.witness) ∧ WitnessFits slab (ins.map fun ti => ti.witness))
      (fun ins => (ins.map fun ti => writeTxWitness ti.witness).flatten)
      (readTxWitnesses txIn slab)
  | [], slab =>
    { dec_enc := by
        rintro ins r ⟨hins, -⟩
        obtain rfl := List.map_eq_nil_iff.1 hins
        rfl
      enc_dec := by
        intro s ins r h
        cases h
        exact ⟨⟨rfl, by simp, trivial⟩, rfl⟩ }
  | ti :: txIn, slab =>
    { dec_enc := by
        rintro (_ | ⟨ti', ins⟩) r ⟨hins, hsane, hfits⟩
        · cases hins
        · obtain ⟨hti, hins⟩ := List.cons.inj hins
          obtain ⟨hsane, hsanes⟩ := forall_mem_cons.1 hsane
          obtain ⟨hcount, hsize, hfits⟩ := hfits
          replace hsize : ti'.witness.flatten.length ≤ slab := hsize
          have hfirst := (lawful_readTxWitness slab).dec_enc
            (ti'.witness, slab - ti'.witness.flatten.length)
            ((ins.map fun ti => writeTxWitness ti.witness).flatten ++ r)
            ⟨hsane, hcount, by simp only; omega⟩
          have hrest := (lawful_readTxWitnesses txIn _).dec_enc ins r ⟨hins, hsanes, hfits⟩
          simp only [readTxWitnesses, map_cons, flatten_cons, append_assoc, hfirst,
            ok_bind, hrest]
          have hti' : { ti with witness := ti'.witness } = ti' := by
            obtain ⟨⟨o', wit'⟩, sequence'⟩ := ti'
            simpa [strip] using hti.symm
          rw [hti']
          rfl
      enc_dec := by
        intro s x r h
        simp only [readTxWitnesses, bind_eq_ok, Prod.exists] at h
        obtain ⟨wit, left, r1, hwit, ins, r2, hins, rfl, rfl⟩ := h
        obtain ⟨⟨hsane, hcount, hleft⟩, rfl⟩ := (lawful_readTxWitness slab).enc_dec _ _ _ hwit
        obtain ⟨⟨hstrip, hsanes, hfits⟩, rfl⟩ := (lawful_readTxWitnesses txIn _).enc_dec _ _ _ hins
        obtain rfl : left = slab - wit.flatten.length := by simp only at hleft; omega
        refine ⟨⟨?_, forall_mem_cons.2 ⟨hsane, hsanes⟩, hcount, ?_, hfits⟩, by simp⟩
        · rw [map_cons, hstrip]
          rfl
        · simp only at hleft ⊢
          omega }

namespace MsgTx

structure WithinLimits (tx : MsgTx) : Prop where
  inputs : tx.txIn.length ≤ maxTxInPerMessage
  outputs : tx.txOut.length ≤ maxTxOutPerMessage
  valid : ∀ txOut ∈ tx.txOut, txOut.Valid
  witness : ∀ ti ∈ tx.txIn, WitnessSane ti.witness
  slab : WitnessFits scriptSlabSize (tx.txIn.map fun ti => ti.witness)

def encoded (tx : MsgTx) : Bytes :=
  [putUint32 tx.version, writeVarInt tx.txIn.length, (tx.txIn.map writeTxIn).flatten,
    writeVarInt tx.txOut.length, (tx.txOut.map TxOut.encoded).flatten, putUint32 tx.lockTime,
    (tx.txIn.map fun ti => writeTxWitness ti.witness).flatten].flatten

end MsgTx

lemma checkAllocation_of_le {min : ℕ} (h : count * min ≤ r.length) :
    checkAllocation r alloc count min fieldName funcName = .ok () := by
  unfold checkAllocation ensureElementCountFitsRemaining
  split_ifs
  · refine failIf_of_not ?_ _
    rintro ⟨hmin, hcount⟩
    exact hcount ((Nat.le_div_iff_mul_le (Nat.pos_of_ne_zero hmin)).2 h)
  · rfl

lemma length_flatten_map_ge {f : α → Bytes} : ∀ {l : List α},
    (∀ a ∈ l, n ≤ (f a).length) → l.length * n ≤ ((l.map f).flatten).length
  | [], _ => by simp
  | a :: l, h => by
    obtain ⟨ha, hl⟩ := forall_mem_cons.1 h
    have ih := length_flatten_map_ge hl
    simp only [List.length_cons, map_cons, flatten_cons, length_append, Nat.add_one_mul]
    omega

lemma length_writeTxIn (ti : MsgTxIn) : (writeTxIn ti).length = 40 := by
  simp [writeTxIn, writeOutPoint, putUint32]

lemma length_writeVarInt_pos (n : ℕ) : 0 < (writeVarInt n).length := by
  rw [length_writeVarInt, varIntSerializeSize]
  split_ifs <;> omega

lemma TxOut.length_encoded_ge (txOut : TxOut) : minTxOutPayload ≤ txOut.encoded.length := by
  have h := length_writeVarInt_pos txOut.covenant.items.length
  simp only [encoded, Address.encoded, Covenant.encoded, putUint8, putUint64, flatten_cons,
    length_append, length_leBytes, minTxOutPayload]
  omega

namespace MsgTx

lemma lawful_btcDecode : Lawful WithinLimits encoded (btcDecode .witness scriptSlabSize) := by
  have h : Lawful WithinLimits (fun tx : MsgTx => [putUint32 tx.version,
      writeVarInt tx.txIn.length, ((tx.txIn.map strip).map writeTxIn).flatten,
      writeVarInt tx.txOut.length, (tx.txOut.map TxOut.encoded).flatten, putUint32 tx.lockTime,
      (tx.txIn.map fun ti => writeTxWitness ti.witness).flatten].flatten)
      (btcDecode .witness scriptSlabSize) := by
    refine read version lawful_readUint32 fun version => ?_
    refine bind (fun tx : MsgTx => tx.txIn.length) lawful_readVarInt (fun inCount _ => ?_)
      fun tx h => h.1.inputs.trans_lt (by decide)
    refine guard ?_ fun _ hin => guard ?_ fun _ _ => ?_
    · rintro tx r ⟨⟨h, -⟩, rfl⟩
      exact failIf_of_not (not_lt.2 h.inputs) _
    · rintro tx r ⟨-, rfl⟩
      have hlen : (tx.txIn.map strip).length * minTxInPayload ≤ _ :=
        length_flatten_map_ge fun ti _ => (length_writeTxIn ti).ge
      rw [length_map] at hlen
      exact checkAllocation_of_le (hlen.trans (by simp))
    refine bind (fun tx : MsgTx => tx.txIn.map strip) (lawful_readTxIn.readN inCount)
      (fun ins hins => ?_) ?_
    · refine bind (fun tx : MsgTx => tx.txOut.length) lawful_readVarInt (fun outCount _ => ?_)
        fun tx h => h.1.1.1.outputs.trans_lt (by decide)
      refine guard ?_ fun _ hout => guard ?_ fun _ _ => ?_
      · rintro tx r ⟨⟨⟨⟨h, -⟩, -⟩, -⟩, rfl⟩
        exact failIf_of_not (not_lt.2 h.outputs) _
      · rintro tx r ⟨-, rfl⟩
        have hlen : tx.txOut.length * minTxOutPayload ≤ _ :=
          length_flatten_map_ge fun txOut _ => txOut.length_encoded_ge
        exact checkAllocation_of_le (hlen.trans (by simp))
      refine bind txOut (lawful_readTxOut.readN outCount) (fun outs houts => ?_) ?_
      · refine read lockTime lawful_readUint32 fun lockTime => ?_
        refine bind txIn (lawful_readTxWitnesses ins scriptSlabSize)
          (fun ins' hins' => ret fun tx => ?_) ?_
        · rw [failIf_eq_ok, not_lt] at hin hout
          have hstrip : ins'.map strip = ins := hins'.1.trans (map_strip_of_empty hins.2)
          have hlen : ins'.length = inCount := by rw [← hins.1, ← hstrip, length_map]
          constructor
          · rintro ⟨⟨⟨⟨⟨⟨⟨-, rfl⟩, -⟩, -⟩, -⟩, rfl⟩, rfl⟩, rfl⟩
            rfl
          · rintro rfl
            exact ⟨⟨⟨⟨⟨⟨⟨⟨hlen.trans_le hin, houts.1.trans_le hout, houts.2, hins'.2.1, hins'.2.2⟩,
              rfl⟩, hlen⟩, hstrip⟩, houts.1⟩, rfl⟩, rfl⟩, rfl⟩
        · rintro tx ⟨⟨⟨⟨⟨⟨h, -⟩, -⟩, rfl⟩, -⟩, -⟩, -⟩
          exact ⟨by rw [map_map]; rfl, h.witness, h.slab⟩
      · rintro tx ⟨⟨⟨⟨h, -⟩, -⟩, -⟩, rfl⟩
        exact ⟨rfl, h.valid⟩
    · rintro tx ⟨⟨h, -⟩, rfl⟩
      refine ⟨length_map _, fun ti hti => ?_⟩
      obtain ⟨ti', -, rfl⟩ := List.mem_map.1 hti
      rfl
  exact h.congr (fun _ => Iff.rfl) fun tx _ => by rw [map_map]; rfl

lemma serialize_eq_ok {tx : MsgTx} {s : Bytes} :
    tx.serialize = .ok s ↔ (∀ txOut ∈ tx.txOut, txOut.Valid) ∧ s = tx.encoded := by
  simp only [serialize, btcEncode, bind_eq_ok, pure_eq_ok]
  constructor
  · rintro ⟨outs, houts, rfl⟩
    obtain ⟨hvalid, rfl⟩ := (Loops.mapM_eq_ok_iff fun _ _ => writeTxOut_eq_ok).1 houts
    exact ⟨hvalid, by simp [parts, encoded]⟩
  · rintro ⟨hvalid, rfl⟩
    exact ⟨_, (Loops.mapM_eq_ok_iff fun _ _ => writeTxOut_eq_ok).2 ⟨hvalid, rfl⟩,
      by simp [parts, encoded]⟩

end MsgTx

lemma length_writeVarBytes (b : Bytes) :
    (writeVarBytes b).length = varIntSerializeSize b.length + b.length := by
  rw [writeVarBytes, length_append, length_writeVarInt]

lemma length_flatten_map {f : α → Bytes} (h : ∀ a, (f a).length = n a)
    (l : List α) : ((l.map f).flatten).length = (l.map n).sum := by
  rw [List.length_flatten, map_map]
  exact congrArg List.sum (List.map_congr_left fun a _ => h a)

lemma Covenant.length_encoded (c : Covenant) : c.encoded.length = c.serializeSize := by
  simp only [encoded, putUint8, flatten_cons, flatten_nil, length_append,
    length_nil, length_leBytes, length_writeVarInt, length_flatten_map length_writeVarBytes,
    serializeSize]
  omega

lemma TxOut.length_encoded (txOut : TxOut) : txOut.encoded.length = txOut.serializeSize := by
  simp only [encoded, putUint64, flatten_cons, flatten_nil, length_append,
    length_nil, length_leBytes, Address.length_encoded, Covenant.length_encoded, serializeSize]
  omega

lemma length_writeTxWitness (wit : List Bytes) :
    (writeTxWitness wit).length = witnessSerializeSize wit := by
  simp only [writeTxWitness, flatten_cons, flatten_nil, length_append,
    length_nil, length_writeVarInt, length_flatten_map length_writeVarBytes, witnessSerializeSize]
  omega

lemma MsgTx.length_encoded (tx : MsgTx) : tx.encoded.length = tx.serializeSize := by
  have hins : ((tx.txIn.map writeTxIn).flatten).length = 40 * tx.txIn.length := by
    rw [length_flatten_map length_writeTxIn, List.map_const', List.sum_replicate_nat, Nat.mul_comm]
  simp only [encoded, putUint32, flatten_cons, flatten_nil, length_append,
    length_nil, length_leBytes, length_writeVarInt, length_flatten_map TxOut.length_encoded,
    length_flatten_map fun ti : MsgTxIn => length_writeTxWitness ti.witness, serializeSize,
    baseSize]
  omega

lemma lawful_readBlockHeader : Lawful (fun _ => True) writeBlockHeader readBlockHeader := by
  refine read nonce lawful_readUint32 fun _ => ?_
  refine read (fun bh : BlockHeader => bh.timestamp.toUInt64) lawful_readUint64
    fun _ => ?_
  refine read prevBlock lawful_readChainHash fun _ => ?_
  refine read nameRoot lawful_readChainHash fun _ => ?_
  refine read extraNonce (lawful_readFixed 24) fun _ => ?_
  refine read reservedRoot lawful_readChainHash fun _ => ?_
  refine read witnessRoot lawful_readChainHash fun _ => ?_
  refine read merkleRoot lawful_readChainHash fun _ => ?_
  refine read (fun bh : BlockHeader => bh.version.toUInt32) lawful_readUint32
    fun _ => ?_
  refine read bits lawful_readUint32 fun _ => ?_
  refine read mask lawful_readChainHash fun _ => ret fun bh => ?_
  constructor
  · rintro ⟨⟨⟨⟨⟨⟨⟨⟨⟨⟨⟨-, rfl⟩, rfl⟩, rfl⟩, rfl⟩, rfl⟩, rfl⟩, rfl⟩, rfl⟩, rfl⟩, rfl⟩, rfl⟩
    simp
  · rintro rfl
    simp

lemma length_writeBlockHeader (bh : BlockHeader) : (writeBlockHeader bh).length = 236 := by
  simp [writeBlockHeader, putUint32, putUint64, bh.extraNonce.2]

namespace MsgBlock

structure WithinLimits (msg : MsgBlock) : Prop where
  count : msg.transactions.length ≤ maxTxPerBlock
  each : ∀ tx ∈ msg.transactions, tx.WithinLimits

def encoded (msg : MsgBlock) : Bytes :=
  [writeBlockHeader msg.header, writeVarInt msg.transactions.length,
    (msg.transactions.map MsgTx.encoded).flatten].flatten

end MsgBlock

lemma MsgTx.length_encoded_ge (tx : MsgTx) : minTxPayload ≤ tx.encoded.length := by
  have h1 := length_writeVarInt_pos tx.txIn.length
  have h2 := length_writeVarInt_pos tx.txOut.length
  simp only [encoded, putUint32, flatten_cons, length_append,
    length_leBytes, minTxPayload]
  omega

namespace MsgBlock

lemma checkTxCount_of_le (hcount : txCount ≤ maxTxPerBlock)
    (hr : txCount * minTxPayload ≤ r.length) : checkTxCount funcName txCount r = .ok () := by
  rw [checkTxCount, failIf_of_not (not_lt.2 hcount)]
  exact checkAllocation_of_le hr

lemma checkTxCount_le (h : checkTxCount funcName txCount r = .ok u) : txCount ≤ maxTxPerBlock := by
  simp only [checkTxCount, bind_eq_ok, failIf_eq_ok, exists_const] at h
  exact not_lt.1 h.1

lemma lawful_deserialize : Lawful WithinLimits encoded deserialize := by
  refine read header lawful_readBlockHeader fun header => ?_
  refine bind (fun msg : MsgBlock => msg.transactions.length) lawful_readVarInt
    (fun txCount _ => ?_) fun msg h => h.1.count.trans_lt (by decide)
  refine guard ?_ fun _ hcount => ?_
  · rintro msg r ⟨⟨h, -⟩, rfl⟩
    have hlen : msg.transactions.length * minTxPayload ≤ _ :=
      length_flatten_map_ge fun tx _ => tx.length_encoded_ge
    exact checkTxCount_of_le h.count (hlen.trans (by simp))
  refine bind transactions (MsgTx.lawful_btcDecode.readN txCount)
    (fun txs htxs => ret fun msg => ?_) ?_
  · constructor
    · rintro ⟨⟨⟨-, rfl⟩, -⟩, rfl⟩
      rfl
    · rintro rfl
      exact ⟨⟨⟨⟨htxs.1.trans_le (checkTxCount_le hcount), htxs.2⟩, rfl⟩, htxs.1⟩, rfl⟩
  · rintro msg ⟨⟨h, -⟩, rfl⟩
    exact ⟨rfl, h.each⟩

variable {msg : MsgBlock}

lemma serialize_eq_ok {s : Bytes} : msg.serialize = .ok s ↔
      (∀ tx ∈ msg.transactions, ∀ txOut ∈ tx.txOut, txOut.Valid) ∧ s = msg.encoded := by
  simp only [serialize, btcEncode, bind_eq_ok, pure_eq_ok]
  constructor
  · rintro ⟨txs, htxs, rfl⟩
    obtain ⟨hvalid, rfl⟩ := (Loops.mapM_eq_ok_iff fun _ _ => MsgTx.serialize_eq_ok).1 htxs
    exact ⟨hvalid, rfl⟩
  · rintro ⟨hvalid, rfl⟩
    exact ⟨_, (Loops.mapM_eq_ok_iff fun _ _ => MsgTx.serialize_eq_ok).2 ⟨hvalid, rfl⟩, rfl⟩

lemma length_encoded (msg : MsgBlock) : msg.encoded.length = msg.serializeSize := by
  simp only [encoded, flatten_cons, flatten_nil, length_append, length_nil,
    length_writeVarInt, length_writeBlockHeader, length_flatten_map MsgTx.length_encoded,
    serializeSize, blockHeaderLen]
  omega

def locate : ℕ → List MsgTx → List TxLoc
  | _, [] => []
  | start, tx :: txs => ⟨start, tx.encoded.length⟩ :: locate (start + tx.encoded.length) txs

lemma readTxLocs_eq_ok : ∀ {n} {s r} {txs} {locs : List TxLoc}, s.length ≤ fullLen →
    (readTxLocs fullLen n s = .ok ((txs, locs), r) ↔
      readN (MsgTx.btcDecode .witness scriptSlabSize) n s = .ok (txs, r) ∧
        locs = locate (fullLen - s.length) txs)
  | 0, s, r, txs, locs, hs => by
    simp only [readTxLocs, Codec.readN, Except.ok.injEq, Prod.mk.injEq]
    constructor <;>
    · rintro ⟨⟨rfl, rfl⟩, rfl⟩
      exact ⟨⟨rfl, rfl⟩, rfl⟩
  | n + 1, s, r, txs, locs, hs => by
    simp only [readTxLocs, Codec.readN, bind_eq_ok, Prod.exists, pure_eq_ok, Prod.mk.injEq]
    have hstep : ∀ {tx} {s1},
        MsgTx.btcDecode .witness scriptSlabSize s = .ok (tx, s1) →
        s1.length ≤ fullLen ∧ fullLen - s1.length - (fullLen - s.length) = tx.encoded.length ∧
          fullLen - s1.length = fullLen - s.length + tx.encoded.length := by
      intro tx s1 htx
      obtain ⟨-, rfl⟩ := MsgTx.lawful_btcDecode.enc_dec _ _ _ htx
      rw [length_append] at hs ⊢
      omega
    constructor
    · rintro ⟨tx, s1, htx, txs1, locs1, r1, htxs, ⟨rfl, rfl⟩, rfl⟩
      obtain ⟨hle, hlen, hstart⟩ := hstep htx
      obtain ⟨hread, rfl⟩ := (readTxLocs_eq_ok hle).1 htxs
      exact ⟨⟨tx, s1, htx, txs1, r1, hread, rfl, rfl⟩, by rw [locate, hlen, hstart]⟩
    · rintro ⟨⟨tx, s1, htx, txs1, r1, hread, rfl, rfl⟩, rfl⟩
      obtain ⟨hle, hlen, hstart⟩ := hstep htx
      exact ⟨tx, s1, htx, txs1, _, r1, (readTxLocs_eq_ok hle).2 ⟨hread, rfl⟩,
        ⟨rfl, by rw [locate, hlen, hstart]⟩, rfl⟩

lemma checkTxCount_funcName :
    checkTxCount f txCount r = .ok u ↔ checkTxCount f' txCount r = .ok u := by
  simp only [checkTxCount, checkAllocation, ensureElementCountFitsRemaining, bind_eq_ok]
  split_ifs <;> simp only [failIf_eq_ok]

lemma deserializeTxLoc_eq_ok : deserializeTxLoc s = .ok ((msg, locs), r) ↔
      deserialize s = .ok (msg, r) ∧ locs = locate
        (blockHeaderLen + varIntSerializeSize msg.transactions.length) msg.transactions := by
  -- the header and the count of a block that is read end where its transactions start
  have hstart : ∀ {header} {s1 s2} {txCount},
      readBlockHeader s = .ok (header, s1) → readVarInt s1 = .ok (txCount, s2) →
      s2.length ≤ s.length ∧ s.length - s2.length = blockHeaderLen + varIntSerializeSize txCount := by
    intro header s1 s2 txCount hheader hcount
    obtain ⟨-, rfl⟩ := lawful_readBlockHeader.enc_dec _ _ _ hheader
    obtain ⟨-, rfl⟩ := lawful_readVarInt.enc_dec _ _ _ hcount
    simp only [length_append, length_writeBlockHeader, length_writeVarInt, blockHeaderLen]
    omega
  simp only [deserializeTxLoc, deserialize, btcDecode, bind_eq_ok, Prod.exists, pure_eq_ok,
    Prod.mk.injEq]
  constructor
  · rintro ⟨header, s1, hheader, txCount, s2, hcount, u, hcheck, txs, locs, r, htxs, ⟨rfl, rfl⟩, rfl⟩
    obtain ⟨hle, hstart⟩ := hstart hheader hcount
    obtain ⟨hread, rfl⟩ := (readTxLocs_eq_ok hle).1 htxs
    obtain ⟨⟨rfl, -⟩, -⟩ := (MsgTx.lawful_btcDecode.readN _).enc_dec _ _ _ hread
    refine ⟨⟨header, s1, hheader, _, s2, hcount, u, checkTxCount_funcName.1 hcheck, txs, r,
      hread, rfl, rfl⟩, ?_⟩
    rw [hstart]
  · rintro ⟨⟨header, s1, hheader, txCount, s2, hcount, u, hcheck, txs, r, hread, rfl, rfl⟩, rfl⟩
    obtain ⟨hle, hstart⟩ := hstart hheader hcount
    obtain ⟨⟨rfl, -⟩, -⟩ := (MsgTx.lawful_btcDecode.readN _).enc_dec _ _ _ hread
    exact ⟨header, s1, hheader, _, s2, hcount, u, checkTxCount_funcName.1 hcheck, txs, _, r,
      (readTxLocs_eq_ok hle).2 ⟨hread, rfl⟩, ⟨rfl, by rw [hstart]⟩, rfl⟩

lemma locate_spec : ∀ txs (front back : Bytes),
    List.Forall₂ (fun (tx : MsgTx) loc => loc.txLen = tx.encoded.length ∧
      ((front ++ (txs.map MsgTx.encoded).flatten ++ back).drop loc.txStart).take loc.txLen =
        tx.encoded) txs (locate front.length txs)
  | [], _, _ => .nil
  | tx :: txs, front, back => by
    refine .cons ⟨rfl, by simp⟩ ?_
    have ih := locate_spec txs (front ++ tx.encoded) back
    simpa using ih

lemma WithinLimits.located (h : msg.WithinLimits) (r : Bytes) :
    List.Forall₂ (fun (tx : MsgTx) loc => loc.txLen = tx.serializeSize ∧
      tx.serialize = .ok (((msg.encoded ++ r).drop loc.txStart).take loc.txLen)) msg.transactions
      (locate (blockHeaderLen + varIntSerializeSize msg.transactions.length) msg.transactions) := by
  have hspec := locate_spec msg.transactions
    (writeBlockHeader msg.header ++ writeVarInt msg.transactions.length) r
  rw [length_append, length_writeBlockHeader, length_writeVarInt] at hspec
  refine ((List.forall₂_and_left _ _).2 ⟨h.each, hspec⟩).imp ?_
  rintro tx loc ⟨htx, hlen, hslice⟩
  refine ⟨hlen.trans tx.length_encoded, MsgTx.serialize_eq_ok.2 ⟨htx.valid, ?_⟩⟩
  rw [← hslice]
  simp [encoded]

end MsgBlock

/-! ## The two codecs -/

def fullSlabTx : MsgTx where
  version := 0
  txIn := [⟨⟨⟨Hash.zero, 0⟩, [List.replicate maxWitnessItemSize 0,
    List.replicate (scriptSlabSize - maxWitnessItemSize) 0]⟩, 0⟩, ⟨⟨⟨Hash.zero, 1⟩, [[]]⟩, 0⟩]
  txOut := []
  lockTime := 0

/-- An empty item takes no byte of the slab, but the decoder asks for one. -/
theorem fullSlabTx_not_deserialized : (∀ ti ∈ fullSlabTx.txIn, ti.witness.length ≤ 1000 ∧
      ∀ item ∈ ti.witness, item.length ≤ maxWitnessItemSize) ∧
    (fullSlabTx.txIn.map fun ti => ti.witness.flatten.length).sum ≤ scriptSlabSize ∧
    (∀ txOut ∈ fullSlabTx.txOut, txOut.address.Valid ∧ txOut.covenant.Valid) ∧
    ∃ s, fullSlabTx.serialize = .ok s ∧ ∀ r, MsgTx.deserialize s ≠ .ok (fullSlabTx, r) := by
  refine ⟨?_, ?_, nofun, fullSlabTx.encoded, MsgTx.serialize_eq_ok.2 ⟨nofun, rfl⟩, ?_⟩
  · simp only [fullSlabTx, forall_mem_cons, List.length_replicate]
    decide
  · simp only [fullSlabTx, map_cons, flatten_cons, length_append, List.length_replicate]
    decide
  · intro r hr
    obtain ⟨-, -, hcount, -⟩ := (MsgTx.lawful_btcDecode.enc_dec _ _ _ hr).1.slab
    simp only [flatten_cons, length_append, List.length_replicate] at hcount
    revert hcount
    decide

/-- The transactions within the limits of the decoder are read back from their encoding, and
whatever is read is the encoding of a transaction within them; likewise for blocks, whose
transactions lie where they are located. -/
theorem wire_codec :
    (∀ tx : MsgTx, tx.WithinLimits → ∃ s, tx.serialize = .ok s ∧ s.length = tx.serializeSize ∧
      ∀ r, MsgTx.deserialize (s ++ r) = .ok (tx, r)) ∧
    (∀ s tx, MsgTx.deserialize s = .ok (tx, []) → tx.WithinLimits ∧ tx.serialize = .ok s) ∧
    (∀ msg : MsgBlock, msg.WithinLimits →
      ∃ s, msg.serialize = .ok s ∧ s.length = msg.serializeSize ∧
        ∀ r, deserialize (s ++ r) = .ok (msg, r)) ∧
    (∀ s msg, deserialize s = .ok (msg, []) → msg.WithinLimits ∧ msg.serialize = .ok s) ∧
    (∀ s msg r, deserialize s = .ok (msg, r) → ∃ locs, deserializeTxLoc s = .ok ((msg, locs), r)) ∧
    (∀ s msg locs r, deserializeTxLoc s = .ok ((msg, locs), r) → deserialize s = .ok (msg, r) ∧
        locs = locate (blockHeaderLen + varIntSerializeSize msg.transactions.length)
          msg.transactions ∧
        List.Forall₂ (fun (tx : MsgTx) loc => loc.txLen = tx.serializeSize ∧
          tx.serialize = .ok ((s.drop loc.txStart).take loc.txLen)) msg.transactions locs) := by
  refine ⟨fun tx htx => ?_, fun s tx hs => ?_, fun msg hmsg => ?_, fun s msg hs => ?_,
    fun s msg r hs => ⟨_, deserializeTxLoc_eq_ok.2 ⟨hs, rfl⟩⟩, fun s msg locs r hs => ?_⟩
  · exact ⟨tx.encoded, MsgTx.serialize_eq_ok.2 ⟨htx.valid, rfl⟩, tx.length_encoded,
      fun r => MsgTx.lawful_btcDecode.dec_enc tx r htx⟩
  · obtain ⟨htx, hs⟩ := MsgTx.lawful_btcDecode.enc_dec _ _ _ hs
    exact ⟨htx, MsgTx.serialize_eq_ok.2 ⟨htx.valid, by rw [hs, append_nil]⟩⟩
  · exact ⟨msg.encoded, serialize_eq_ok.2 ⟨fun tx htx => (hmsg.each tx htx).valid, rfl⟩,
      msg.length_encoded, fun r => lawful_deserialize.dec_enc msg r hmsg⟩
  · obtain ⟨hmsg, hs⟩ := lawful_deserialize.enc_dec _ _ _ hs
    exact ⟨hmsg, serialize_eq_ok.2 ⟨fun tx htx => (hmsg.each tx htx).valid, by rw [hs, append_nil]⟩⟩
  · obtain ⟨hmsg, rfl⟩ := deserializeTxLoc_eq_ok.1 hs
    refine ⟨hmsg, rfl, ?_⟩
    obtain ⟨hlimits, rfl⟩ := lawful_deserialize.enc_dec _ _ _ hmsg
    exact hlimits.located r

theorem wire_codec_small :
    let tx : MsgTx := ⟨0, [⟨⟨⟨Hash.zero, 0xffffffff⟩, [[1, 2], []]⟩, 7⟩],
      [⟨5, ⟨0, List.replicate 20 3⟩, ⟨.unknown 12 (by decide), [[9]]⟩⟩], 1⟩
    tx.WithinLimits ∧ ∃ s, tx.serialize = .ok s ∧ s.length = tx.serializeSize ∧
      ∀ r, MsgTx.deserialize (s ++ r) = .ok (tx, r) := by
  intro tx
  have htx : tx.WithinLimits :=
    { inputs := by decide
      outputs := by decide
      valid := by decide
      witness := by simp [tx, WitnessSane, maxWitnessItemsPerInput, maxWitnessItemSize]
      slab := by simp [tx, WitnessFits, scriptSlabSize] }
  exact ⟨htx, wire_codec.1 tx htx⟩

end HandshakeNode
