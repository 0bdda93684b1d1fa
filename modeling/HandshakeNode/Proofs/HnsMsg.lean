import HandshakeNode.HnsMsg
import HandshakeNode.Proofs.MsgBlock

/-!
# Every Handshake message has one encoding

The payload decoder of every message type is lawful for its encoder, and so is the envelope around
it. Reading a message off a stream takes exactly the bytes of one message.
-/

namespace HandshakeNode

open LittleEndian Codec Lawful Whole

lemma lawful_sliceAt (n : ℕ) :
    Lawful (fun b => b.length = n) (fun b => b) (sliceAt · n) where
  dec_enc _ _ ha := sliceAt_append ha
  enc_dec s a r h := by
    unfold sliceAt at h
    split_ifs at h with hn
    cases h
    exact ⟨by simp; omega, by simp⟩

lemma lawful_takeUint8 : Lawful (fun _ => True) putUint8 takeUint8 :=
  (lawful_sliceAt 1).iso (fun b => UInt8.ofNat (leNat b)) putUint8 length_putUint8 uint8_putUint8
    fun _ => putUint8_leNat

lemma lawful_takeUint32 : Lawful (fun _ => True) putUint32 takeUint32 :=
  (lawful_sliceAt 4).iso (fun b => UInt32.ofNat (leNat b)) putUint32 length_putUint32
    uint32_putUint32 fun _ => putUint32_leNat

lemma lawful_takeUint64 : Lawful (fun _ => True) putUint64 takeUint64 :=
  (lawful_sliceAt 8).iso (fun b => UInt64.ofNat (leNat b)) putUint64 length_putUint64
    uint64_putUint64 fun _ => putUint64_leNat

lemma length_putUint16 (n : UInt16) : (putUint16 n).length = 2 := length_leBytes 2 _

lemma uint16_putUint16 (n : UInt16) : UInt16.ofNat (leNat (putUint16 n)) = n := by
  rw [putUint16, leNat_leBytes_of_lt n.toNat_lt, UInt16.ofNat_toNat]

lemma putUint16_leNat (hb : b.length = 2) : putUint16 (UInt16.ofNat (leNat b)) = b := by
  have hlt := leNat_lt b
  rw [hb] at hlt
  rw [putUint16, UInt16.toNat_ofNat_of_lt' hlt, ← hb, leBytes_leNat]

lemma lawful_takeUint16 : Lawful (fun _ => True) putUint16 takeUint16 :=
  (lawful_sliceAt 2).iso (fun b => UInt16.ofNat (leNat b)) putUint16 length_putUint16
    uint16_putUint16 fun _ => putUint16_leNat

lemma lawful_takeBigUint16 : Lawful (fun _ => True) putBigUint16 takeBigUint16 :=
  (lawful_sliceAt 2).iso (fun b => UInt16.ofNat (leNat b.reverse)) putBigUint16
    (fun n => (List.length_reverse).trans (length_putUint16 n))
    (fun n => by rw [putBigUint16]; exact uint16_putUint16 n)
    fun b hb => by
      have h := putUint16_leNat (List.length_reverse.trans hb)
      rw [putUint16] at h
      rw [putBigUint16, h, List.reverse_reverse]

lemma lawful_takeHash : Lawful (fun _ => True) Hash.bytes takeHash :=
  (lawful_sliceAt 32).iso Hash.ofBytes Hash.bytes Hash.length_bytes Hash.ofBytes_bytes
    fun _ => Hash.bytes_ofBytes

lemma lawful_takeFixed (n : ℕ) : Lawful (fun _ => True) (fun x => x.1) (takeFixed n) :=
  (lawful_sliceAt n).subtype _

lemma hnsWriteUvarint_eq (val : ℕ) : hnsWriteUvarint val = writeVarInt val := rfl

lemma hnsReadUvarintTail_eq_ok {min : ℕ} :
    hnsReadUvarintTail what d k min s = .ok x ↔ readVarIntTail d k min s = .ok x := by
  simp only [hnsReadUvarintTail, readVarIntTail, readFull, bind_eq_ok]
  by_cases h : s.length < k <;> simp [h]

lemma hnsReadUvarint_eq_ok {x : ℕ × Bytes} : hnsReadUvarint s = .ok x ↔ readVarInt s = .ok x := by
  cases s with
  | nil => exact ⟨nofun, nofun⟩
  | cons b s =>
    rw [hnsReadUvarint, readVarInt_cons]
    split_ifs <;> simp only [hnsReadUvarintTail_eq_ok]

lemma lawful_hnsReadUvarint : Lawful (· < 2 ^ 64) hnsWriteUvarint hnsReadUvarint where
  dec_enc val r h := hnsReadUvarint_eq_ok.2 (lawful_readVarInt.dec_enc val r h)
  enc_dec s val r h := lawful_readVarInt.enc_dec s val r (hnsReadUvarint_eq_ok.1 h)

section

variable {enc : α → Bytes}

lemma lawful_wrapErr (h : Lawful P enc dec)
    (context : String) : Lawful P enc fun s => wrapErr context (dec s) where
  dec_enc a r ha := wrapErr_eq_ok.2 (h.dec_enc a r ha)
  enc_dec s a r hs := h.enc_dec s a r (wrapErr_eq_ok.1 hs)

lemma lawful_takeItem (h : Sized P enc size dec) (context : String) :
    Lawful P enc (takeItem context size dec) where
  dec_enc a r ha := by
    have hdec : wrapErr context (dec (enc a)) = .ok a := wrapErr_eq_ok.2 (h.dec_enc a ha)
    rw [takeItem, sliceAt_append (h.length a ha)]
    simp only [ok_bind, hdec]
    rfl
  enc_dec s a r hs := by
    simp only [takeItem, bind_eq_ok, Prod.exists, wrapErr_eq_ok] at hs
    obtain ⟨item, r', hitem, a', ha, rfl, rfl⟩ := hs
    obtain ⟨hlen, rfl⟩ := (lawful_sliceAt size).enc_dec _ _ _ hitem
    obtain ⟨hP, rfl⟩ := h.enc_dec _ _ hlen ha
    exact ⟨hP, rfl⟩

/-- The errors of the items are numbered, so this is `readN` but for them. -/
theorem lawful_decodeItems (h : Sized P enc size dec) (context : String) : ∀ i n,
    Lawful (fun l => l.length = n ∧ ∀ a ∈ l, P a) (fun l => (l.map enc).flatten)
      (decodeItems context size dec i n)
  | _, 0 => nil fun _ => rfl
  | i, n + 1 =>
    cons (lawful_takeItem h (context ++ " " ++ toString i))
      (lawful_decodeItems h context (i + 1) n)

lemma length_flatten_map_eq {l : List α} (hlen : ∀ a ∈ l, (enc a).length = size) :
    ((l.map enc).flatten).length = l.length * size := by
  rw [List.length_flatten, List.map_map,
    List.map_congr_left fun a ha => show (List.length ∘ enc) a = size from hlen a ha,
    List.map_const', List.sum_replicate_nat]

lemma whole_decodeCounted (h : Sized P enc size dec) (hsize : 0 < size)
    (msgName noun plural : String) :
    Whole (fun l => l.length < 2 ^ 64 ∧ ∀ a ∈ l, P a) (encodeCounted enc)
      (decodeCounted msgName noun plural size dec) := by
  refine bind List.length (lawful_wrapErr lawful_hnsReadUvarint _) (fun count hcount => ?_)
    fun _ h => h.1
  refine guard ?_ fun _ _ => ?_
  · rintro l ⟨⟨-, hl⟩, rfl⟩
    refine failIf_of_not ?_ _
    rw [length_flatten_map_eq fun a ha => h.length a (hl a ha), Nat.mul_div_cancel _ hsize]
    exact lt_irrefl _
  have hitems : Lawful (fun l => (l.length < 2 ^ 64 ∧ ∀ a ∈ l, P a) ∧ l.length = count)
      (fun l => (l.map enc).flatten) (decodeItems (msgName ++ ": " ++ noun) size dec 0 count) :=
    (lawful_decodeItems h _ 0 count).congr (fun l => ⟨fun ⟨⟨_, hl⟩, hn⟩ => ⟨hn, hl⟩,
      fun ⟨hn, hl⟩ => ⟨⟨hn.trans_lt hcount, hl⟩, hn⟩⟩) fun _ _ => rfl
  refine (hitems.sized (n := count * size) ?_).exact fun s => ?_
  · rintro l ⟨⟨-, hl⟩, rfl⟩
    exact length_flatten_map_eq fun a ha => h.length a (hl a ha)
  · rw [failIf_eq_ok, not_not]

end

def HostCanonical (host : Bytes) : Prop :=
  host.length = 4 ∨ host.length = 16 ∧ isHnsIPv4Mapped host = false

namespace HnsNetAddress

variable {host : Bytes}

lemma ipTo4_of_length_four (h : host.length = 4) : ipTo4 host = some host := by
  simp [ipTo4, h]

lemma ipTo4_eq_none_iff (h : host.length = 16) :
    ipTo4 host = none ↔ isHnsIPv4Mapped host = false := by
  unfold ipTo4 isHnsIPv4Mapped hnsIPv4MappedPrefixBytes
  rw [if_neg (by omega), decide_eq_true h, Bool.true_and, decide_eq_false_iff_not]
  simp only [h, true_and]
  split_ifs with hmapped
  · exact ⟨nofun, fun h => (h hmapped).elim⟩
  · exact ⟨fun _ => hmapped, fun _ => rfl⟩

lemma length_encodeHost (host : Bytes) : (encodeHost host).length = 16 := by
  unfold encodeHost ipTo4 ipTo16 hnsIPv4MappedPrefixBytes
  split
  · rename_i v4 hv4
    split_ifs at hv4 with h4 h16
    · cases hv4
      simp [h4]
    · cases hv4
      simp [h16.1]
  · split
    · rename_i v6 hv6
      split_ifs at hv6 with h16
      cases hv6
      exact h16
    · simp

lemma decodeHost_encodeHost (h : HostCanonical host) : decodeHost (encodeHost host) = host := by
  rcases h with h | ⟨h, hmapped⟩
  · simp [encodeHost, ipTo4_of_length_four h, decodeHost, isHnsIPv4Mapped,
      hnsIPv4MappedPrefixBytes, h]
  · simp [encodeHost, (ipTo4_eq_none_iff h).2 hmapped, ipTo16, h, decodeHost, hmapped]

lemma hostCanonical_decodeHost (h : b.length = 16) : HostCanonical (decodeHost b) := by
  unfold decodeHost
  split_ifs with hmapped
  · exact .inl (by simp [h])
  · exact .inr ⟨h, by simpa using hmapped⟩

lemma encodeHost_decodeHost (h : b.length = 16) : encodeHost (decodeHost b) = b := by
  unfold decodeHost
  split_ifs with hmapped
  · have h4 : (b.drop 12).length = 4 := by simp [h]
    simp only [isHnsIPv4Mapped, Bool.and_eq_true, decide_eq_true_eq] at hmapped
    rw [encodeHost, ipTo4_of_length_four h4]
    simp only
    rw [← hmapped.2, List.take_append_drop]
  · rw [encodeHost, (ipTo4_eq_none_iff h).2 (by simpa using hmapped)]
    simp [ipTo16, h]

lemma lawful_take : Lawful (fun n => HostCanonical n.host) encode take := by
  refine read time lawful_takeUint64 fun time => ?_
  refine read services lawful_takeUint64 fun services => ?_
  refine read (fun _ => (0 : UInt8)) lawful_takeUint8 fun addrType => ?_
  refine guard ?_ fun _ haddrType => ?_
  · rintro n r ⟨-, rfl⟩
    exact failIf_of_not (fun h => h rfl) _
  rw [failIf_eq_ok, not_not] at haddrType
  refine bind (fun n : HnsNetAddress => encodeHost n.host) (lawful_sliceAt 16)
    (fun host hhost => ?_) fun n _ => length_encodeHost n.host
  refine read reserved (lawful_takeFixed 20) fun reserved => ?_
  refine read port lawful_takeBigUint16 fun port => ?_
  refine read key (lawful_takeFixed 33) fun key => ret fun n => ?_
  constructor
  · rintro ⟨⟨⟨⟨⟨⟨⟨h, rfl⟩, rfl⟩, rfl⟩, rfl⟩, rfl⟩, rfl⟩, rfl⟩
    rw [decodeHost_encodeHost h]
  · rintro rfl
    exact ⟨⟨⟨⟨⟨⟨⟨hostCanonical_decodeHost hhost, rfl⟩, rfl⟩, haddrType.symm⟩,
      encodeHost_decodeHost hhost⟩, rfl⟩, rfl⟩, rfl⟩

lemma length_encode (n : HnsNetAddress) : n.encode.length = hnsNetAddressSize := by
  simp [encode, length_putUint64, length_encodeHost, n.reserved.2, n.key.2, putBigUint16,
    hnsNetAddressSize]

lemma whole_decode : Whole (fun n => HostCanonical n.host) encode decode :=
  (lawful_take.sized fun n _ => n.length_encode).exact fun s => by rw [failIf_eq_ok, not_not]

end HnsNetAddress

namespace HnsInvItem

lemma lawful_take : Lawful (fun _ => True) encode take := by
  refine read HnsInvItem.type lawful_takeUint32 fun type => ?_
  refine read HnsInvItem.hash lawful_takeHash fun hash => ret fun i => ?_
  cases i
  simp

lemma length_encode (i : HnsInvItem) : i.encode.length = hnsInvItemSize := by
  simp [encode, length_putUint32, hnsInvItemSize]

lemma whole_decode : Whole (fun _ => True) encode decode :=
  (lawful_take.sized fun i _ => i.length_encode).exact fun s => by rw [failIf_eq_ok, not_not]

end HnsInvItem

lemma whole_hnsDecodeInvItems (msgName : String) :
    Whole (fun inventory => inventory.length < 2 ^ 64) hnsEncodeInvItems
      (hnsDecodeInvItems msgName) :=
  (whole_decodeCounted (HnsInvItem.whole_decode.sized fun i _ => i.length_encode) (by decide)
    _ _ _).congr (fun _ => ⟨fun h => ⟨h, fun _ _ => trivial⟩, And.left⟩) fun _ _ => rfl

lemma sized_decodeHeader : Sized (fun _ => True) writeBlockHeader blockHeaderLen decodeHeader :=
  lawful_readBlockHeader.sized fun bh _ => length_writeBlockHeader bh

namespace HnsLocator

lemma lawful_take (count : ℕ) : Lawful (fun m => m.locator.length = count)
      (fun m => [(m.locator.map Hash.bytes).flatten, m.stopHash.bytes].flatten) (take count) := by
  refine bind HnsLocator.locator (lawful_takeHash.readN count) (fun locator hlocator => ?_)
    fun m h => ⟨h, fun _ _ => trivial⟩
  refine read HnsLocator.stopHash lawful_takeHash fun stopHash => ret fun m => ?_
  constructor
  · rintro ⟨⟨-, rfl⟩, rfl⟩
    rfl
  · rintro rfl
    exact ⟨⟨hlocator.1, rfl⟩, rfl⟩

lemma length_tail (m : HnsLocator) :
    [(m.locator.map Hash.bytes).flatten, m.stopHash.bytes].flatten.length =
      m.locator.length * 32 + 32 := by
  simp [length_flatten_map_eq (l := m.locator) fun h _ => h.len]

lemma whole_decode (msgName : String) :
    Whole (fun m => m.locator.length ≤ maxBlockLocatorsPerMsg) encode (decode msgName) := by
  refine bind (fun m : HnsLocator => m.locator.length)
    (lawful_wrapErr lawful_hnsReadUvarint _) (fun count _ => ?_) fun m h => h.trans_lt (by decide)
  refine guard ?_ fun _ hcount => ?_
  · rintro m ⟨h, rfl⟩
    exact failIf_of_not (not_lt.2 h) _
  rw [failIf_eq_ok, not_lt] at hcount
  refine guard ?_ fun _ _ => guard ?_ fun _ _ => ?_
  · rintro m -
    exact failIf_of_not (by rw [length_tail]; omega) _
  · rintro m ⟨-, rfl⟩
    refine failIf_of_not ?_ _
    rw [length_tail, Nat.add_sub_cancel, Nat.mul_div_cancel _ (by decide)]
    exact lt_irrefl _
  have htake : Lawful (fun m : HnsLocator => m.locator.length ≤ maxBlockLocatorsPerMsg ∧
      m.locator.length = count)
      (fun m => [(m.locator.map Hash.bytes).flatten, m.stopHash.bytes].flatten) (take count) :=
    (lawful_take count).congr (fun m => ⟨And.right, fun h => ⟨h.trans_le hcount, h⟩⟩)
      fun _ _ => rfl
  refine (htake.sized (n := count * 32 + 32) ?_).exact fun s => ?_
  · rintro m ⟨-, rfl⟩
    exact length_tail m
  · rw [failIf_eq_ok, not_not]

end HnsLocator

lemma lawful_takeNoRelay :
    Lawful (fun _ => True) (fun b => putUint8 (if b then 1 else 0)) takeNoRelay where
  dec_enc b r _ := by
    cases b <;> rfl
  enc_dec s b r h := by
    simp only [takeNoRelay, bind_eq_ok, Prod.exists] at h
    obtain ⟨n, r', hn, h⟩ := h
    obtain ⟨-, rfl⟩ := lawful_takeUint8.enc_dec _ _ _ hn
    split_ifs at h with h0 h1
    · cases h
      exact ⟨trivial, by rw [h0]; rfl⟩
    · cases h
      exact ⟨trivial, by rw [h1]; rfl⟩

namespace HnsMsgVersion

/-- The versions that are read: the agent has a length byte, and the host is canonical. -/
def Valid (m : HnsMsgVersion) : Prop :=
  HostCanonical m.remote.host ∧ m.agent.length ≤ hnsMaxUserAgentLen

lemma length_encode (m : HnsMsgVersion) :
    m.encode.length = hnsMsgVersionFixedSize + (m.agent.take hnsMaxUserAgentLen).length + 4 + 1 := by
  simp only [encode, List.flatten_cons, List.flatten_nil, List.length_append, List.length_nil,
    length_putUint8, length_putUint32, length_putUint64, HnsNetAddress.length_encode, m.nonce.2,
    hnsMsgVersionFixedSize]
  omega

lemma whole_decode : Whole Valid encode decode := by
  refine guard (fun m _ => failIf_of_not (by rw [length_encode]; omega) _) fun _ _ => ?_
  refine read version lawful_takeUint32 fun version => ?_
  refine read services lawful_takeUint64 fun services => ?_
  refine read time lawful_takeUint64 fun time => ?_
  refine bind remote (lawful_takeItem (HnsNetAddress.whole_decode.sized
    fun n _ => n.length_encode) _) (fun remote hremote => ?_) fun m h => h.1.1.1.1
  refine read nonce (lawful_takeFixed 8) fun nonce => ?_
  refine read (fun m : HnsMsgVersion => UInt8.ofNat (m.agent.take hnsMaxUserAgentLen).length)
    lawful_takeUint8 fun agentLen => ?_
  have hsize : ∀ m : HnsMsgVersion, (UInt8.ofNat (m.agent.take hnsMaxUserAgentLen).length).toNat =
      (m.agent.take hnsMaxUserAgentLen).length := fun m =>
    UInt8.toNat_ofNat_of_lt' (by
      rw [List.length_take]
      exact (min_le_left _ _).trans_lt (by decide))
  refine guard ?_ fun _ _ => ?_
  · rintro m ⟨-, rfl⟩
    refine failIf_of_not ?_ _
    simp only [hsize, List.flatten_cons, List.length_append, length_putUint32,
      length_putUint8]
    omega
  refine bind (fun m : HnsMsgVersion => m.agent.take hnsMaxUserAgentLen) (lawful_sliceAt _)
    (fun agent hagent => ?_) ?_
  · refine read height lawful_takeUint32 fun height => ?_
    refine read noRelay lawful_takeNoRelay fun noRelay => ?_
    refine end_of_input (fun s => by rw [failIf_eq_ok, not_not, List.length_eq_zero_iff])
      fun m => ?_
    constructor
    · rintro ⟨⟨⟨⟨⟨⟨⟨⟨⟨h, rfl⟩, rfl⟩, rfl⟩, rfl⟩, rfl⟩, -⟩, rfl⟩, rfl⟩, rfl⟩
      rw [List.take_of_length_le h.2]
    · rintro rfl
      have hle : agent.length ≤ hnsMaxUserAgentLen := by
        have := agentLen.toNat_lt
        rw [hnsMaxUserAgentLen]
        omega
      have htake : agent.take hnsMaxUserAgentLen = agent := List.take_of_length_le hle
      exact ⟨⟨⟨⟨⟨⟨⟨⟨⟨⟨hremote, hle⟩, rfl⟩, rfl⟩, rfl⟩, rfl⟩, rfl⟩,
        by simp [htake, hagent]⟩, htake⟩, rfl⟩, rfl⟩
  · rintro m ⟨-, rfl⟩
    exact (hsize m).symm

end HnsMsgVersion

/-! ## Blocks and transactions -/

lemma writeInTurn_of_ok : ∀ {l}, (∀ a ∈ l, write a = (enc a, true)) →
      writeInTurn write l = ((l.map enc).flatten, true)
  | [], _ => rfl
  | a :: l, h => by
    obtain ⟨ha, hl⟩ := List.forall_mem_cons.1 h
    rw [writeInTurn, ha]
    simp only [writeInTurn_of_ok hl]
    rfl

lemma TxOut.Valid.written {txOut : TxOut} (h : txOut.Valid) :
    txOut.written = (txOut.encoded, true) := by
  rw [TxOut.written, Address.encode_eq_ok.2 ⟨h.1, rfl⟩, Covenant.encode_eq_ok.2 ⟨h.2, rfl⟩]
  rfl

lemma MsgTx.written_of_valid {tx : MsgTx} (h : ∀ txOut ∈ tx.txOut, txOut.Valid) :
    tx.written = (tx.encoded, true) := by
  rw [MsgTx.written, writeInTurn_of_ok fun txOut htxOut => (h txOut htxOut).written]
  simp [encoded]

lemma MsgBlock.written_of_valid {msg : MsgBlock}
    (h : ∀ tx ∈ msg.transactions, ∀ txOut ∈ tx.txOut, txOut.Valid) :
    msg.written = (msg.encoded, true) := by
  rw [MsgBlock.written, writeInTurn_of_ok fun tx htx => MsgTx.written_of_valid (h tx htx)]
  simp [encoded]

lemma MsgTx.encoded_ne_nil (tx : MsgTx) : tx.encoded ≠ [] :=
  List.ne_nil_of_length_pos ((by decide : 0 < minTxPayload).trans_le tx.length_encoded_ge)

lemma MsgBlock.encoded_ne_nil (msg : MsgBlock) : msg.encoded ≠ [] := by
  refine List.ne_nil_of_length_pos ?_
  rw [msg.length_encoded, serializeSize, blockHeaderLen]
  omega

lemma whole_decodeSerialized (h : Lawful P enc dec) (hne : ∀ a, P a → enc a ≠ [])
    (msgName : String) :
    Whole P enc (decodeSerialized msgName dec) where
  dec_enc a ha := by
    have hdec := h.dec_enc a [] ha
    rw [List.append_nil] at hdec
    have hwrap : wrapErr msgName (dec (enc a)) = .ok (a, []) := wrapErr_eq_ok.2 hdec
    have hlen : ¬ (enc a).length = 0 := fun hlen => hne a ha (List.length_eq_zero_iff.1 hlen)
    rw [decodeSerialized, failIf_of_not hlen, hwrap]
    rfl
  enc_dec s a hs := by
    simp only [decodeSerialized, bind_eq_ok, failIf_eq_ok, exists_const, Prod.exists,
      wrapErr_eq_ok, pure_eq_ok, not_not] at hs
    obtain ⟨-, a', r, ha, hr, rfl⟩ := hs
    obtain ⟨hP, rfl⟩ := h.enc_dec _ _ _ ha
    obtain rfl := List.length_eq_zero_iff.1 hr
    exact ⟨hP, List.append_nil _⟩

namespace MsgMerkleBlock

def Valid (m : MsgMerkleBlock) : Prop :=
  m.hashes.length ≤ maxTxPerBlock ∧ m.flags.length ≤ maxFlagsPerMerkleBlock

lemma Valid.written_eq {m : MsgMerkleBlock} (h : m.Valid) :
    m.written = [writeBlockHeader m.header, putUint32 m.transactions, writeVarInt m.hashes.length,
      (m.hashes.map Hash.bytes).flatten, writeVarBytes m.flags].flatten :=
  if_neg (by rw [not_or, not_lt, not_lt]; exact h)

lemma Valid.written_ne_nil {m : MsgMerkleBlock} (h : m.Valid) : m.written ≠ [] := by
  refine List.ne_nil_of_length_pos ?_
  rw [h.written_eq, List.flatten_cons, List.length_append, length_writeBlockHeader]
  omega

lemma lawful_btcDecode : Lawful Valid written btcDecode := by
  have h : Lawful Valid (fun m => [writeBlockHeader m.header,
      putUint32 m.transactions, writeVarInt m.hashes.length, (m.hashes.map Hash.bytes).flatten,
      writeVarBytes m.flags].flatten) btcDecode := by
    refine read header lawful_readBlockHeader fun header => ?_
    refine read transactions lawful_readUint32 fun transactions => ?_
    refine bind (fun m : MsgMerkleBlock => m.hashes.length) lawful_readVarInt
      (fun count _ => ?_) fun m h => h.1.1.1.trans_lt (by decide)
    refine guard ?_ fun _ hcount => guard ?_ fun _ _ => ?_
    · rintro m r ⟨⟨⟨h, -⟩, -⟩, rfl⟩
      exact failIf_of_not (not_lt.2 h.1) _
    · rintro m r ⟨-, rfl⟩
      have hlen : m.hashes.length * 32 ≤ _ := length_flatten_map_ge fun h _ => h.len.ge
      exact checkAllocation_of_le (hlen.trans (by simp))
    refine bind hashes (lawful_readChainHash.readN count) (fun hashes hhashes => ?_)
      fun m h => ⟨h.2, fun _ _ => trivial⟩
    refine bind flags (lawful_readVarBytes (by decide) _)
      (fun flags hflags => ret fun m => ?_) fun m h => h.1.1.1.1.2
    rw [failIf_eq_ok, not_lt] at hcount
    constructor
    · rintro ⟨⟨⟨⟨⟨-, rfl⟩, rfl⟩, -⟩, rfl⟩, rfl⟩
      rfl
    · rintro rfl
      exact ⟨⟨⟨⟨⟨⟨hhashes.1.trans_le hcount, hflags⟩, rfl⟩, rfl⟩, hhashes.1⟩, rfl⟩, rfl⟩
  exact h.congr (fun _ => Iff.rfl) fun _ hm => hm.written_eq

end MsgMerkleBlock

namespace HnsMsgType

lemma ofUInt8_toUInt8 (t : HnsMsgType) : ofUInt8 t.toUInt8 = t := by
  cases t with
  | unsupported t h => simp [toUInt8, ofUInt8, h]
  | _ => rfl

lemma toUInt8_ofUInt8 (t : UInt8) : (ofUInt8 t).toUInt8 = t := by
  by_cases h : 30 < t
  · simp [ofUInt8, h, toUInt8]
  · obtain ⟨n, hn, rfl⟩ : ∃ n, n < 31 ∧ t = UInt8.ofNat n := by
      simp only [UInt8.lt_iff_toNat_lt, UInt8.reduceToNat] at h
      exact ⟨t.toNat, by omega, UInt8.ofNat_toNat.symm⟩
    interval_cases n <;> rfl

end HnsMsgType

namespace HnsMsgReject

/-- The rejects that are read: the reason has a length byte, and a reject of a message without a
hash has none. -/
def Valid (m : HnsMsgReject) : Prop :=
  m.reason.length ≤ 255 ∧ (hnsRejectMessageRequiresHash m.message = false → m.hash = Hash.zero)

lemma whole_decodeHash (message : HnsMsgType) :
    Whole (fun hash => hnsRejectMessageRequiresHash message = false → hash = Hash.zero)
      (fun hash => if hnsRejectMessageRequiresHash message then hash.bytes else [])
      (decodeHash message) where
  dec_enc hash h := by
    unfold decodeHash
    split_ifs with hreq
    · rw [failIf_of_not (by rw [hash.len]; exact fun h => h rfl), Hash.ofBytes_bytes]
      rfl
    · rw [h (by simpa using hreq)]
      rfl
  enc_dec s hash h := by
    unfold decodeHash at h
    split_ifs at h ⊢ with hreq
    · simp only [bind_eq_ok, failIf_eq_ok, exists_const, pure_eq_ok, not_not] at h
      obtain ⟨hlen, rfl⟩ := h
      exact ⟨fun hno => absurd hreq (by simp [hno]), (Hash.bytes_ofBytes hlen).symm⟩
    · simp only [bind_eq_ok, failIf_eq_ok, exists_const, pure_eq_ok, not_not] at h
      obtain ⟨hlen, rfl⟩ := h
      exact ⟨fun _ => rfl, List.length_eq_zero_iff.1 hlen⟩

lemma whole_decode : Whole Valid encode decode := by
  refine guard (fun m _ => failIf_of_not ?_ _) fun _ _ => ?_
  · simp only [encode, List.flatten_cons, List.length_append, length_putUint8]
    omega
  refine read (fun m : HnsMsgReject => m.message.toUInt8) lawful_takeUint8
    fun message => ?_
  refine read code lawful_takeUint8 fun code => ?_
  refine read (fun m : HnsMsgReject => UInt8.ofNat (m.reason.take 255).length)
    lawful_takeUint8 fun reasonLen => ?_
  have hsize : ∀ m : HnsMsgReject, (UInt8.ofNat (m.reason.take 255).length).toNat =
      (m.reason.take 255).length := fun m =>
    UInt8.toNat_ofNat_of_lt' (by
      rw [List.length_take]
      exact (min_le_left _ _).trans_lt (by decide))
  refine guard ?_ fun _ _ => ?_
  · rintro m ⟨-, rfl⟩
    refine failIf_of_not ?_ _
    simp only [hsize, List.flatten_cons, List.length_append]
    omega
  refine bind (fun m : HnsMsgReject => m.reason.take 255) (lawful_sliceAt _)
    (fun reason hreason => ?_) ?_
  · have hle : reason.length ≤ 255 := by
      have := reasonLen.toNat_lt
      omega
    have htake : reason.take 255 = reason := List.take_of_length_le hle
    refine (whole_decodeHash (.ofUInt8 message)).map ?_ ?_
    · intro hash hhash
      refine ⟨⟨⟨⟨⟨⟨hle, hhash⟩, HnsMsgType.toUInt8_ofUInt8 message⟩, rfl⟩, ?_⟩, htake⟩, ?_⟩
      · simp [htake, hreason]
      · simp
    · rintro m ⟨⟨⟨⟨⟨hm, hhash⟩, rfl⟩, rfl⟩, -⟩, rfl⟩
      rw [HnsMsgType.ofUInt8_toUInt8, List.take_of_length_le hm]
      exact ⟨m.hash, hhash, rfl⟩
  · rintro m ⟨-, rfl⟩
    exact (hsize m).symm

end HnsMsgReject

namespace HnsMsgFilterLoad

def Valid (m : HnsMsgFilterLoad) : Prop :=
  m.filter.length ≤ maxFilterLoadFilterSize ∧ m.hashFuncs ≤ maxFilterLoadHashFuncs ∧
    m.flags ≤ bloomUpdateP2PubkeyOnly

lemma lawful_take (hlen : filterLen ≤ maxFilterLoadFilterSize) :
    Lawful (fun m => m.Valid ∧ m.filter.length = filterLen)
      (fun m => [m.filter, putUint32 m.hashFuncs, putUint32 m.tweak, putUint8 m.flags].flatten)
      (take filterLen) := by
  refine bind filter (lawful_sliceAt filterLen) (fun filter hfilter => ?_) fun m h => h.2
  refine read hashFuncs lawful_takeUint32 fun hashFuncs => ?_
  refine guard ?_ fun _ hhashFuncs => ?_
  · rintro m r ⟨⟨⟨⟨-, h, -⟩, -⟩, -⟩, rfl⟩
    exact failIf_of_not (UInt32.not_lt.2 h) _
  refine read tweak lawful_takeUint32 fun tweak => ?_
  refine read flags lawful_takeUint8 fun flags => ?_
  refine guard ?_ fun _ hflags => ret fun m => ?_
  · rintro m r ⟨⟨⟨⟨⟨⟨-, -, h⟩, -⟩, -⟩, -⟩, -⟩, rfl⟩
    exact failIf_of_not (UInt8.not_lt.2 h) _
  rw [failIf_eq_ok] at hhashFuncs hflags
  constructor
  · rintro ⟨⟨⟨⟨-, rfl⟩, rfl⟩, rfl⟩, rfl⟩
    rfl
  · rintro rfl
    exact ⟨⟨⟨⟨⟨⟨hfilter.trans_le hlen, UInt32.not_lt.1 hhashFuncs, UInt8.not_lt.1 hflags⟩, hfilter⟩,
      rfl⟩, rfl⟩, rfl⟩, rfl⟩

lemma length_tail (m : HnsMsgFilterLoad) :
    [m.filter, putUint32 m.hashFuncs, putUint32 m.tweak, putUint8 m.flags].flatten.length =
      m.filter.length + 9 := by
  simp [length_putUint32, length_putUint8]

lemma whole_decode : Whole Valid encode decode := by
  refine bind (fun m : HnsMsgFilterLoad => m.filter.length)
    (lawful_wrapErr lawful_hnsReadUvarint _) (fun filterLen _ => ?_)
    fun m h => h.1.trans_lt (by decide)
  refine guard ?_ fun _ _ => guard ?_ fun _ hlen => ?_
  · rintro m ⟨-, rfl⟩
    exact failIf_of_not (by rw [length_tail]; omega) _
  · rintro m ⟨h, rfl⟩
    exact failIf_of_not (not_lt.2 h.1) _
  rw [failIf_eq_ok, not_lt] at hlen
  refine ((lawful_take hlen).sized (n := filterLen + 9) ?_).exact fun s => ?_
  · rintro m ⟨-, rfl⟩
    exact length_tail m
  · rw [failIf_eq_ok, not_not]

end HnsMsgFilterLoad

lemma whole_decodeFilterAdd : Whole (fun data => data.length ≤ maxFilterAddDataSize)
      (fun data => [hnsWriteUvarint data.length, data].flatten) decodeFilterAdd := by
  refine bind List.length (lawful_wrapErr lawful_hnsReadUvarint _) (fun count _ => ?_)
    fun data h => h.trans_lt (by decide)
  refine guard ?_ fun _ _ => guard ?_ fun _ hcount => ?_
  · rintro data ⟨-, rfl⟩
    exact failIf_of_not (by simp) _
  · rintro data ⟨h, rfl⟩
    exact failIf_of_not (not_lt.2 h) _
  rw [failIf_eq_ok, not_lt] at hcount
  refine checked (fun data => ?_) fun data => List.append_nil data
  rw [failIf_eq_ok, not_not]
  exact ⟨fun h => ⟨h.trans_le hcount, h⟩, And.right⟩

lemma whole_decodeFixedSize (h : Lawful P enc take) (hlen : ∀ a, P a → (enc a).length = size)
    (msgName : String) : Whole P enc (decodeFixedSize msgName size take) :=
  (h.sized hlen).exact fun s => by rw [failIf_eq_ok, not_not]

lemma lawful_takeSendCmpct :
    Lawful (fun _ => True) (fun x => [putUint8 x.1, putUint64 x.2].flatten) takeSendCmpct := by
  refine read Prod.fst lawful_takeUint8 fun mode => ?_
  refine read Prod.snd lawful_takeUint64 fun version => ret fun x => ?_
  cases x
  simp

lemma lawful_takeRootKey : Lawful (fun _ => True) (fun x => [x.1.bytes, x.2.bytes].flatten)
      takeRootKey := by
  refine read Prod.fst lawful_takeHash fun root => ?_
  refine read Prod.snd lawful_takeHash fun key => ret fun x => ?_
  cases x
  simp

lemma whole_decodeProof : Whole (fun _ => True) (fun x => [x.1.bytes, x.2.1.bytes, x.2.2].flatten)
      decodeProof := by
  refine guard (fun x _ => failIf_of_not ?_ _) fun _ _ => ?_
  · simp only [List.flatten_cons, List.length_append, Hash.length_bytes]
    omega
  refine read Prod.fst lawful_takeHash fun root => ?_
  refine read (fun x : Hash × Hash × Bytes => x.2.1) lawful_takeHash fun key => ?_
  refine rest (fun x => ?_) fun s => List.append_nil s
  obtain ⟨root', key', proof⟩ := x
  simp

lemma whole_decodeClaim : Whole (fun claim => claim.length ≤ 0xffff) encodeClaim decodeClaim := by
  refine guard (fun claim _ => failIf_of_not ?_ _) fun _ _ => ?_
  · simp only [encodeClaim, List.flatten_cons, List.length_append, length_putUint16]
    omega
  refine read (fun claim : Bytes => UInt16.ofNat (claim.take 0xffff).length)
    lawful_takeUint16 fun claimLen => ?_
  have htail : Whole (fun claim : Bytes => claim.length = claimLen.toNat)
      (fun claim => [claim].flatten) fun data => do
        failIf (data.length ≠ claimLen.toNat) (.plain ("claim: invalid payload length: got " ++
          toString data.length ++ ", want " ++ toString claimLen.toNat))
        return data :=
    checked (fun data => by rw [failIf_eq_ok, not_not]) fun data => List.append_nil data
  have hle : claimLen.toNat ≤ 0xffff := Nat.le_of_lt_succ claimLen.toNat_lt
  refine htail.congr (fun claim => ⟨?_, fun h => ⟨h.trans_le hle, ?_⟩⟩) fun claim h => ?_
  · rintro ⟨h, rfl⟩
    rw [List.take_of_length_le h, UInt16.toNat_ofNat_of_lt' (h.trans_lt (by decide))]
  · rw [List.take_of_length_le (h.trans_le hle), h, UInt16.ofNat_toNat]
  · rw [List.take_of_length_le (h.trans_le hle)]

namespace HandshakeMessage

def Valid : HandshakeMessage → Prop
  | version m => m.Valid
  | addr peers => peers.length < 2 ^ 64 ∧ ∀ n ∈ peers, HostCanonical n.host
  | inv l | getData l | notFound l => l.length < 2 ^ 64
  | getBlocks m | getHeaders m => m.locator.length ≤ maxBlockLocatorsPerMsg
  | headers hs => hs.length < 2 ^ 64
  | block b => b.WithinLimits
  | tx t => t.WithinLimits
  | reject m => m.Valid
  | filterLoad m => m.Valid
  | filterAdd data => data.length ≤ maxFilterAddDataSize
  | merkleBlock m => m.Valid
  | claim c => c.length ≤ 0xffff
  | _ => True

lemma whole_decodeEmpty (msgName : String) (hP : ∀ m', P m' → m' = m) (hPm : P m)
    (hm : m.encode = []) : Whole P encode (decodeEmpty msgName m) :=
  (end_of_input (fun s => by rw [failIf_eq_ok, not_not, List.length_eq_zero_iff])
    fun m' => ⟨hP m', fun h => h ▸ hPm⟩).congr (fun _ => Iff.rfl) fun m' hm' => by rw [hP m' hm', hm]

lemma whole_decodeOpaque {f : Bytes → HandshakeMessage} (hP : ∀ m, P m → ∃ payload, m = f payload)
    (hPf : ∀ payload, P (f payload)) (hf : ∀ payload, (f payload).encode = payload) :
    Whole P encode fun data => (.ok (f data) : Result HandshakeMessage) :=
  rest (fun m => ⟨fun h => by obtain ⟨p, rfl⟩ := hP m h; rw [hf], fun h => h ▸ hPf _⟩) hf

/-- A message type whose messages are the values of one payload decoder. -/
lemma whole_payload {f : α → HandshakeMessage} (h : Whole P enc dec)
    (hf : ∀ a, P a ↔ (f a).type = t ∧ (f a).Valid := by simp [type, Valid])
    (henc : ∀ a, P a → (f a).encode = enc a := by intros; rfl)
    (hall : ∀ m : HandshakeMessage, m.type = t → ∃ a, f a = m := by
      intro m hm; cases m <;> cases hm; simp) :
    Whole (fun m => m.type = t ∧ m.Valid) encode fun s => dec s >>= fun a => .ok (f a) :=
  h.map (fun a ha => ⟨(hf a).1 ha, henc a ha⟩) fun m hm => by
    obtain ⟨a, rfl⟩ := hall m hm.1
    exact ⟨a, (hf a).2 hm, rfl⟩

lemma whole_decode (t : HnsMsgType) : Whole (fun m => m.type = t ∧ m.Valid) encode (decode t) := by
  cases t with
  | version => exact whole_payload HnsMsgVersion.whole_decode
  | verack | getAddr | sendHeaders | mempool | filterClear =>
    exact whole_decodeEmpty _ (fun m hm => by cases m <;> cases hm.1; rfl) ⟨rfl, trivial⟩ rfl
  | ping | pong =>
    exact whole_payload (whole_decodeFixedSize (lawful_takeFixed 8) (fun x _ => x.2) _)
  | addr =>
    exact whole_payload (whole_decodeCounted (HnsNetAddress.whole_decode.sized
      fun n _ => n.length_encode) (by decide) _ _ _)
  | inv | getData | notFound => exact whole_payload (whole_hnsDecodeInvItems _)
  | getBlocks | getHeaders => exact whole_payload (HnsLocator.whole_decode _)
  | headers => exact whole_payload (whole_decodeCounted sized_decodeHeader (by decide) _ _ _)
  | block =>
    exact whole_payload
      (whole_decodeSerialized MsgBlock.lawful_deserialize (fun b _ => b.encoded_ne_nil) _)
      (by simp [type, Valid])
      fun b h => congrArg Prod.fst (MsgBlock.written_of_valid fun tx htx => (h.each tx htx).valid)
  | tx =>
    exact whole_payload
      (whole_decodeSerialized MsgTx.lawful_btcDecode (fun t _ => t.encoded_ne_nil) _)
      (by simp [type, Valid]) fun t h => congrArg Prod.fst (MsgTx.written_of_valid h.valid)
  | reject => exact whole_payload HnsMsgReject.whole_decode
  | filterLoad => exact whole_payload HnsMsgFilterLoad.whole_decode
  | filterAdd => exact whole_payload whole_decodeFilterAdd
  | merkleBlock =>
    exact whole_payload (whole_decodeSerialized MsgMerkleBlock.lawful_btcDecode
      (fun m h => h.written_ne_nil) _)
  | feeFilter =>
    exact (whole_decodeFixedSize lawful_takeUint64 (fun n _ => length_putUint64 n) _).map
      (fun n _ => ⟨⟨rfl, trivial⟩, congrArg putUint64 (UInt64.toUInt64_toInt64 n)⟩)
      fun m hm => by
        cases m <;> cases hm.1
        exact ⟨_, trivial, congrArg feeFilter (Int64.toInt64_toUInt64 _)⟩
  | sendCmpct =>
    exact whole_payload (whole_decodeFixedSize lawful_takeSendCmpct (fun x _ => by
      simp [length_putUint8, length_putUint64]) _)
  | cmpctBlock | getBlockTxn | blockTxn | airDrop | unknown =>
    exact whole_decodeOpaque (fun m hm => by cases m <;> cases hm.1; exact ⟨_, rfl⟩)
      (fun _ => ⟨rfl, trivial⟩) fun _ => rfl
  | getProof =>
    exact whole_payload (whole_decodeFixedSize lawful_takeRootKey (fun x _ => by simp) _)
  | proof => exact whole_payload whole_decodeProof
  | claim => exact whole_payload whole_decodeClaim
  | unsupported t h =>
    refine ⟨fun m hm => ?_, nofun⟩
    cases m <;> cases hm.1

end HandshakeMessage

end HandshakeNode
