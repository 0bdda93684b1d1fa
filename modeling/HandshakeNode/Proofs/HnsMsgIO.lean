import HandshakeNode.Proofs.HnsMsg

/-!
# The envelope of a message, and messages on a stream

A byte string is accepted just when it is the envelope of a valid message that is not too large, so
it is what encoding the message gives. A message that is read off a stream is the one its bytes
decode to, and the number of bytes is exact on every path.
-/

namespace HandshakeNode

open LittleEndian Codec List HandshakeMessage

namespace HnsMsgHeader

lemma lawful_take : Lawful (fun _ => True) encode take := by
  refine Lawful.read networkMagic lawful_takeUint32 fun networkMagic => ?_
  refine Lawful.read (fun h : HnsMsgHeader => h.messageType.toUInt8) lawful_takeUint8
    fun messageType => ?_
  refine Lawful.read payloadLength lawful_takeUint32
    fun payloadLength => Lawful.ret fun h => ?_
  constructor
  · rintro ⟨⟨⟨-, rfl⟩, rfl⟩, rfl⟩
    rw [HnsMsgType.ofUInt8_toUInt8]
  · rintro rfl
    exact ⟨⟨⟨trivial, rfl⟩, HnsMsgType.toUInt8_ofUInt8 messageType⟩, rfl⟩

lemma length_encode (h : HnsMsgHeader) : h.encode.length = hnsMessageHeaderSize := by
  simp [encode, length_putUint32, length_putUint8, hnsMessageHeaderSize]

lemma whole_decode : Whole (fun _ => True) encode decode :=
  (lawful_take.sized fun h _ => h.length_encode).exact fun s => by rw [failIf_eq_ok, not_not]

end HnsMsgHeader

namespace HandshakeMessage

def Small (m : HandshakeMessage) : Prop :=
  m.encode.length ≤ hnsMaxMessagePayload ∧ m.encode.length ≤ maxHnsPayloadLength m.type

def envelope (m : HandshakeMessage) (networkMagic : UInt32) : Bytes :=
  HnsMsgHeader.encode ⟨networkMagic, m.type, UInt32.ofNat m.encode.length⟩ ++ m.encode

lemma Small.toNat_length {m : HandshakeMessage} (h : m.Small) :
    (UInt32.ofNat m.encode.length).toNat = m.encode.length :=
  UInt32.toNat_ofNat_of_lt' (h.1.trans_lt (by decide))

end HandshakeMessage

variable {m : HandshakeMessage}

lemma decodeHnsPayload_eq_ok : decodeHnsPayload t payload = .ok m ↔ decode t payload = .ok m := by
  unfold decodeHnsPayload
  split
  · constructor <;> rintro ⟨⟩
  · exact wrapErr_eq_ok

lemma encodeHnsMessage_eq_ok (h : m.Small) :
    encodeHnsMessage m networkMagic = .ok (m.envelope networkMagic) := by
  rw [encodeHnsMessage, failIf_of_not (not_lt.2 h.1), failIf_of_not (not_lt.2 h.2)]
  rfl

lemma decodeHnsMessage_eq_ok {networkMagic : UInt32} :
    decodeHnsMessage data = .ok (m, networkMagic) ↔
      m.Valid ∧ m.Small ∧ data = m.envelope networkMagic := by
  simp only [decodeHnsMessage, bind_eq_ok, failIf_eq_ok, exists_const, Prod.exists, pure_eq_ok,
    Prod.mk.injEq, not_lt, not_not, decodeHnsPayload_eq_ok]
  constructor
  · rintro ⟨-, headerBytes, payload, hslice, header, hheader, hmax, hmaxType, hlen, m, hm, rfl, rfl⟩
    obtain ⟨-, rfl⟩ := (lawful_sliceAt _).enc_dec _ _ _ hslice
    obtain ⟨-, rfl⟩ := HnsMsgHeader.whole_decode.enc_dec _ _ hheader
    obtain ⟨⟨htype, hvalid⟩, rfl⟩ := (whole_decode _).enc_dec _ _ hm
    rw [length_append, header.length_encode, Nat.add_left_cancel_iff] at hlen
    rw [← hlen] at hmax hmaxType
    rw [← htype] at hmaxType
    refine ⟨hvalid, ⟨hmax, hmaxType⟩, ?_⟩
    rw [envelope, htype, hlen, UInt32.ofNat_toNat]
  · rintro ⟨hvalid, hsmall, rfl⟩
    have hn := hsmall.toNat_length
    refine ⟨?_, _, m.encode, (lawful_sliceAt _).dec_enc _ _ (HnsMsgHeader.length_encode _), _,
      HnsMsgHeader.whole_decode.dec_enc _ trivial, ?_, ?_, ?_, m,
      (whole_decode m.type).dec_enc m ⟨rfl, hvalid⟩, rfl, rfl⟩
    · rw [envelope, length_append, HnsMsgHeader.length_encode]
      omega
    · rw [hn]
      exact hsmall.1
    · rw [hn]
      exact hsmall.2
    · rw [hn, envelope, length_append, HnsMsgHeader.length_encode]

lemma readFullN_of_lt (h : r.length < n) :
    readFullN r n = (.error (if r.isEmpty then .eof else .unexpectedEOF), r.length, []) :=
  if_pos h

lemma readFullN_of_le (h : n ≤ r.length) : readFullN r n = (.ok (r.take n), n, r.drop n) :=
  if_neg (not_lt.2 h)

namespace HnsRead

/-- What a read took and what it left make up the stream. -/
def Accounts (x : HnsRead) (totalBytes : ℕ) (r : Bytes) : Prop :=
  x.totalBytes + x.rest.length = totalBytes + r.length

lemma accounts_refused {totalBytes : ℕ} (h : n ≤ r.length) :
    (refused totalBytes r n e).Accounts totalBytes r := by
  simp only [Accounts, refused, length_drop]
  omega

end HnsRead

lemma readHnsPayloadN_accounts (totalBytes n : ℕ) (r : Bytes) (t : HnsMsgType) :
    (readHnsPayloadN totalBytes n r t).Accounts totalBytes r := by
  unfold readHnsPayloadN
  split
  · exact HnsRead.accounts_refused (min_le_right _ _)
  · split_ifs
    · exact HnsRead.accounts_refused (min_le_right _ _)
    · rcases lt_or_ge r.length n with h | h
      · rw [readFullN_of_lt h]
        simp [HnsRead.Accounts]
      · rw [readFullN_of_le h]
        simp only [HnsRead.Accounts, length_drop]
        omega

lemma readHnsBodyN_accounts (hnsnet : UInt32) (totalBytes : ℕ) (hdr : HnsMsgHeader) (r : Bytes) :
    (readHnsBodyN hnsnet totalBytes hdr r).Accounts totalBytes r := by
  unfold readHnsBodyN
  split_ifs
  · exact HnsRead.accounts_refused (Nat.zero_le _)
  · exact HnsRead.accounts_refused (Nat.zero_le _)
  · exact readHnsPayloadN_accounts _ _ _ _

lemma readHnsMessageN_accounts (r : Bytes) (hnsnet : UInt32) :
    (readHnsMessageN r hnsnet).totalBytes + (readHnsMessageN r hnsnet).rest.length = r.length := by
  unfold readHnsMessageN
  rcases lt_or_ge r.length hnsMessageHeaderSize with h | h
  · rw [readFullN_of_lt h]
    simp
  · rw [readFullN_of_le h]
    simp only
    split
    · simp only [length_drop]
      omega
    · refine (readHnsBodyN_accounts hnsnet _ _ _).trans ?_
      rw [length_drop]
      omega

lemma readHnsPayloadN_eq_ok (h : (readHnsPayloadN totalBytes n r t).result = .ok (m, payload)) :
    n ≤ maxHnsPayloadLength t ∧ n ≤ r.length ∧ decode t (r.take n) = .ok m := by
  unfold readHnsPayloadN at h
  split at h
  · cases h
  · split_ifs at h with hmax
    · cases h
    · refine ⟨not_lt.1 hmax, ?_⟩
      rcases lt_or_ge r.length n with hn | hn
      · rw [readFullN_of_lt hn] at h
        cases h
      · rw [readFullN_of_le hn] at h
        dsimp only at h
        rw [← decodeHnsPayload_eq_ok]
        cases hdec : decodeHnsPayload t (r.take n) <;> rw [hdec] at h <;> cases h
        exact ⟨hn, rfl⟩

lemma readHnsBodyN_eq_ok (h : (readHnsBodyN hnsnet totalBytes hdr r).result = .ok (m, payload)) :
    m.Valid ∧ m.Small ∧ hdr = ⟨hnsnet, m.type, UInt32.ofNat m.encode.length⟩ ∧
      ∃ rest, r = m.encode ++ rest := by
  unfold readHnsBodyN at h
  split_ifs at h with hmax hnet
  · cases h
  · cases h
  obtain ⟨magic, t, n⟩ := hdr
  rw [not_not] at hnet
  rw [not_lt] at hmax
  simp only at h hmax hnet
  obtain ⟨hmaxType, hle, hm⟩ := readHnsPayloadN_eq_ok h
  obtain ⟨⟨rfl, hvalid⟩, hpayload⟩ := (whole_decode t).enc_dec _ _ hm
  have hlen : m.encode.length = n.toNat := by
    rw [← hpayload, length_take, min_eq_left hle]
  refine ⟨hvalid, ⟨hlen.trans_le hmax, hlen.trans_le hmaxType⟩, ?_, r.drop n.toNat, ?_⟩
  · rw [hlen, UInt32.ofNat_toNat, hnet]
  · rw [← hpayload, take_append_drop]

lemma readHnsPayloadN_of_decode (hmax : n ≤ maxHnsPayloadLength t) (hle : n ≤ r.length)
    (hm : decodeHnsPayload t (r.take n) = .ok m) :
    readHnsPayloadN totalBytes n r t = ⟨totalBytes + n, .ok (m, r.take n), r.drop n⟩ := by
  unfold readHnsPayloadN
  split
  · cases hm
  · rw [if_neg (not_lt.2 hmax), readFullN_of_le hle]
    simp only [hm]
    rfl

lemma envelope_of_readHnsMessageN (h : (readHnsMessageN r hnsnet).result = .ok (m, payload)) :
    m.Valid ∧ m.Small ∧ ∃ rest, r = m.envelope hnsnet ++ rest := by
  unfold readHnsMessageN at h
  rcases lt_or_ge r.length hnsMessageHeaderSize with hr | hr
  · rw [readFullN_of_lt hr] at h
    cases h
  rw [readFullN_of_le hr] at h
  simp only at h
  cases hhdr : HnsMsgHeader.decode (r.take hnsMessageHeaderSize) with
  | error e =>
    rw [hhdr] at h
    cases h
  | ok hdr =>
    rw [hhdr] at h
    obtain ⟨hvalid, hsmall, rfl, rest, hrest⟩ := readHnsBodyN_eq_ok h
    obtain ⟨-, hheader⟩ := HnsMsgHeader.whole_decode.enc_dec _ _ hhdr
    refine ⟨hvalid, hsmall, rest, ?_⟩
    rw [envelope, append_assoc, ← hheader, ← hrest, take_append_drop]

lemma readHnsMessageN_envelope (hvalid : m.Valid) (hsmall : m.Small) (hnsnet : UInt32)
    (rest : Bytes) :
    readHnsMessageN (m.envelope hnsnet ++ rest) hnsnet =
      ⟨(m.envelope hnsnet).length, .ok (m, m.encode), rest⟩ := by
  have hlen := HnsMsgHeader.length_encode ⟨hnsnet, m.type, UInt32.ofNat m.encode.length⟩
  have hn := hsmall.toNat_length
  have hheader := HnsMsgHeader.whole_decode.dec_enc
    ⟨hnsnet, m.type, UInt32.ofNat m.encode.length⟩ trivial
  have htake : (m.encode ++ rest).take m.encode.length = m.encode := take_left
  have hm : decodeHnsPayload m.type ((m.encode ++ rest).take m.encode.length) = .ok m := by
    rw [htake, decodeHnsPayload_eq_ok]
    exact (whole_decode m.type).dec_enc m ⟨rfl, hvalid⟩
  have hpayload : readHnsPayloadN hnsMessageHeaderSize m.encode.length (m.encode ++ rest) m.type =
      _ := readHnsPayloadN_of_decode hsmall.2 (by simp) hm
  rw [htake, drop_left] at hpayload
  rw [readHnsMessageN, envelope, append_assoc,
    readFullN_of_le (by rw [length_append]; omega), take_left' hlen, drop_left' hlen]
  simp only [hheader]
  rw [readHnsBodyN, if_neg (by rw [hn]; exact not_lt.2 hsmall.1), if_neg (fun h => h rfl), hn,
    hpayload, length_append, hlen]

/-! ## Messages within their limits -/

/-- The host that an address is read back with: an IPv4 address in four bytes, also a mapped one,
and the unspecified address for what is no address. -/
def normalizeHost (host : Bytes) : Bytes :=
  match ipTo4 host with
  | some v4 => v4
  | none => if host.length = 16 then host else List.replicate 16 0

lemma length_ipTo4 (h : ipTo4 host = some v4) : v4.length = 4 := by
  unfold ipTo4 at h
  split_ifs at h with h4 h16
  · cases h
    exact h4
  · cases h
    simp [h16.1]

lemma hostCanonical_normalizeHost (host : Bytes) : HostCanonical (normalizeHost host) := by
  unfold normalizeHost
  split
  · rename_i v4 hv4
    exact .inl (length_ipTo4 hv4)
  · rename_i hnone
    split_ifs with h16
    · exact .inr ⟨h16, (HnsNetAddress.ipTo4_eq_none_iff h16).1 hnone⟩
    · exact .inr (by decide)

lemma encodeHost_normalizeHost (host : Bytes) :
    HnsNetAddress.encodeHost (normalizeHost host) = HnsNetAddress.encodeHost host := by
  unfold normalizeHost
  split
  · rename_i v4 hv4
    rw [HnsNetAddress.encodeHost, HnsNetAddress.encodeHost, hv4,
      HnsNetAddress.ipTo4_of_length_four (length_ipTo4 hv4)]
  · rename_i hnone
    split_ifs with h16
    · rfl
    · have hzero : HnsNetAddress.encodeHost (List.replicate 16 0) = List.replicate 16 0 := by decide
      rw [hzero, HnsNetAddress.encodeHost, hnone, ipTo16, if_neg h16]

def HnsNetAddress.normalize (n : HnsNetAddress) : HnsNetAddress :=
  { n with host := normalizeHost n.host }

lemma HnsNetAddress.encode_normalize (n : HnsNetAddress) : n.normalize.encode = n.encode := by
  simp [encode, normalize, encodeHost_normalizeHost]

lemma maxHnsPayloadLength_le (t : HnsMsgType) : maxHnsPayloadLength t ≤ hnsMaxMessagePayload := by
  cases t with
  | unsupported t h => exact le_rfl
  | _ => decide

lemma length_hnsWriteUvarint_le (val : ℕ) : (hnsWriteUvarint val).length ≤ maxVarIntPayload := by
  rw [hnsWriteUvarint_eq, length_writeVarInt, varIntSerializeSize, maxVarIntPayload]
  split_ifs <;> omega

lemma length_encodeCounted_le {max : ℕ} (hlen : ∀ a ∈ l, (enc a).length = size)
    (hl : l.length ≤ max) : (encodeCounted enc l).length ≤ maxVarIntPayload + max * size := by
  rw [encodeCounted, length_append, length_flatten_map_eq hlen]
  exact Nat.add_le_add (length_hnsWriteUvarint_le _) (Nat.mul_le_mul_right _ hl)

namespace HandshakeMessage

def normalize : HandshakeMessage → HandshakeMessage
  | version m => version { m with remote := m.remote.normalize }
  | addr peers => addr (peers.map HnsNetAddress.normalize)
  | m => m

def WithinLimits : HandshakeMessage → Prop
  | version m => m.agent.length ≤ hnsMaxUserAgentLen
  | addr peers => peers.length ≤ maxAddrPerMsg
  | inv l | getData l | notFound l => l.length ≤ maxInvPerMsg
  | getBlocks m | getHeaders m => m.locator.length ≤ maxBlockLocatorsPerMsg
  | headers hs => hs.length ≤ maxBlockHeadersPerMsg
  | block b => b.WithinLimits ∧ b.serializeSize ≤ maxBlockPayload
  | tx t => t.WithinLimits ∧ t.serializeSize ≤ maxBlockPayload
  | reject m => m.reason.length ≤ 255 ∧
      (hnsRejectMessageRequiresHash m.message = false → m.hash = Hash.zero)
  | filterLoad m => m.filter.length ≤ maxFilterLoadFilterSize ∧
      m.hashFuncs ≤ maxFilterLoadHashFuncs ∧ m.flags ≤ bloomUpdateP2PubkeyOnly
  | filterAdd data => data.length ≤ maxFilterAddDataSize
  | merkleBlock m => m.hashes.length ≤ maxTxPerBlock ∧ m.flags.length ≤ maxFlagsPerMerkleBlock ∧
      blockHeaderLen + 4 + varIntSerializeSize m.hashes.length + 32 * m.hashes.length +
        varIntSerializeSize m.flags.length + m.flags.length ≤ maxBlockPayload
  | proof _ _ p => 64 + p.length ≤ hnsMaxMessagePayload
  | claim c => c.length ≤ hnsMaxClaimProofSize
  | airDrop payload => payload.length ≤ hnsMaxAirdropProofSize
  | cmpctBlock payload | getBlockTxn payload | blockTxn payload | unknown payload =>
    payload.length ≤ hnsMaxMessagePayload
  | _ => True

lemma encode_normalize (m : HandshakeMessage) : m.normalize.encode = m.encode := by
  cases m with
  | version m =>
    simp [normalize, encode, HnsMsgVersion.encode, HnsNetAddress.encode_normalize]
  | addr peers =>
    simp only [normalize, encode, encodeCounted, length_map, map_map]
    rw [map_congr_left fun n _ =>
      show (HnsNetAddress.encode ∘ HnsNetAddress.normalize) n = n.encode from n.encode_normalize]
  | _ => rfl

lemma type_normalize (m : HandshakeMessage) : m.normalize.type = m.type := by
  cases m <;> rfl

lemma WithinLimits.valid (h : m.WithinLimits) : m.normalize.Valid := by
  cases m with
  | version m => exact ⟨hostCanonical_normalizeHost _, h⟩
  | addr peers =>
    refine ⟨?_, fun n hn => ?_⟩
    · rw [length_map]
      exact lt_of_le_of_lt h (by decide)
    · obtain ⟨n', -, rfl⟩ := mem_map.1 hn
      exact hostCanonical_normalizeHost _
  | inv l | getData l | notFound l | headers hs => exact lt_of_le_of_lt h (by decide)
  | getBlocks m | getHeaders m => exact h
  | block b | tx t => exact h.1
  | reject m => exact h
  | filterLoad m => exact h
  | filterAdd data => exact h
  | merkleBlock m => exact ⟨h.1, h.2.1⟩
  | claim c => exact le_trans h (by decide)
  | _ => trivial

lemma WithinLimits.length_le (h : m.WithinLimits) :
    m.encode.length ≤ maxHnsPayloadLength m.type := by
  cases m with
  | version m =>
    have hle : (m.agent.take hnsMaxUserAgentLen).length ≤ hnsMaxUserAgentLen := by simp
    simp only [encode, type, HnsMsgVersion.length_encode, maxHnsPayloadLength]
    omega
  | verack | getAddr | sendHeaders | mempool | filterClear => exact Nat.zero_le _
  | ping nonce | pong nonce => exact nonce.2.le
  | addr peers => exact length_encodeCounted_le (fun n _ => n.length_encode) h
  | inv l | getData l | notFound l => exact length_encodeCounted_le (fun i _ => i.length_encode) h
  | headers hs => exact length_encodeCounted_le (fun bh _ => length_writeBlockHeader bh) h
  | getBlocks m | getHeaders m =>
    have hcount := length_hnsWriteUvarint_le m.locator.length
    have htail := m.length_tail
    have hlocator : m.locator.length ≤ maxBlockLocatorsPerMsg := h
    simp only [encode, HnsLocator.encode, flatten_cons, length_append, type,
      maxHnsPayloadLength] at htail ⊢
    omega
  | block b =>
    have hw := congrArg Prod.fst (MsgBlock.written_of_valid fun t ht => (h.1.each t ht).valid)
    simp only [encode, hw, b.length_encoded]
    exact h.2
  | tx t =>
    have hw := congrArg Prod.fst (MsgTx.written_of_valid h.1.valid)
    simp only [encode, hw, t.length_encoded]
    exact h.2
  | reject m =>
    have hle : (m.reason.take 255).length ≤ 255 := by simp
    have hhash : (if hnsRejectMessageRequiresHash m.message then m.hash.bytes else []).length ≤
        32 := by split_ifs <;> simp
    simp only [encode, HnsMsgReject.encode, flatten_cons, flatten_nil,
      length_append, length_nil, length_putUint8, type, maxHnsPayloadLength, hnsMaxUserAgentLen]
    omega
  | filterLoad m =>
    have hcount := length_hnsWriteUvarint_le m.filter.length
    have htail := m.length_tail
    have hfilter := h.1
    simp only [encode, HnsMsgFilterLoad.encode, flatten_cons, length_append, type,
      maxHnsPayloadLength] at htail ⊢
    omega
  | filterAdd data =>
    have hcount := length_hnsWriteUvarint_le data.length
    have hdata : data.length ≤ maxFilterAddDataSize := h
    simp only [encode, flatten_cons, flatten_nil, length_append, length_nil,
      type, maxHnsPayloadLength]
    omega
  | merkleBlock m =>
    obtain ⟨hhashes, hflags, hsize⟩ := h
    have hvalid : m.Valid := ⟨hhashes, hflags⟩
    have hlen : ((m.hashes.map Hash.bytes).flatten).length = m.hashes.length * 32 :=
      length_flatten_map_eq fun h _ => h.len
    simp only [encode, hvalid.written_eq, flatten_cons, flatten_nil, length_append,
      length_nil, length_writeBlockHeader, length_putUint32, length_writeVarInt, length_writeVarBytes, type, maxHnsPayloadLength, blockHeaderLen] at hsize ⊢
    omega
  | feeFilter rate => exact (length_putUint64 _).le
  | sendCmpct mode v => simp [encode, type, maxHnsPayloadLength, length_putUint8, length_putUint64]
  | getProof root key => simp [encode, type, maxHnsPayloadLength]
  | proof root key p =>
    have hp : 64 + p.length ≤ hnsMaxMessagePayload := h
    simp only [encode, flatten_cons, flatten_nil, length_append, length_nil,
      Hash.length_bytes, type, maxHnsPayloadLength]
    omega
  | claim c =>
    have hle : (c.take 0xffff).length ≤ c.length := by simp
    have hc : c.length ≤ hnsMaxClaimProofSize := h
    simp only [encode, encodeClaim, flatten_cons, flatten_nil, length_append,
      length_nil, length_putUint16, type, maxHnsPayloadLength, hnsMaxClaimPayload]
    omega
  | airDrop payload | cmpctBlock payload | getBlockTxn payload | blockTxn payload
  | unknown payload => exact h

lemma WithinLimits.small (h : m.WithinLimits) : m.normalize.Small := by
  have hle := h.length_le
  rw [Small, encode_normalize, type_normalize]
  exact ⟨hle.trans (maxHnsPayloadLength_le m.type), hle⟩

end HandshakeMessage

/-! ## One encoding for every message -/

/-- The hash of a reject is not written when the rejected message has none. -/
theorem reject_hash_dropped :
    let hash := Hash.ofBytes [1]
    let m := reject ⟨.version, 0, [], hash⟩
    ∃ data, encodeHnsMessage m 0x5B6EF2D3 = .ok data ∧
      decodeHnsMessage data = .ok (.reject ⟨.version, 0, [], Hash.zero⟩, 0x5B6EF2D3) ∧
      hash ≠ Hash.zero := by
  refine ⟨[0xD3, 0xF2, 0x6E, 0x5B, 15, 3, 0, 0, 0, 0, 0, 0], ?_, ?_, ?_⟩ <;> decide +kernel

/-- What is decoded is encoded to the same bytes; a message within its limits is decoded from its
encoding, but for the form of its hosts; and a message is read off a stream just when its bytes are
decoded, with all bytes accounted for. -/
theorem hns_message_codec : (∀ data m networkMagic, decodeHnsMessage data = .ok (m, networkMagic) →
      encodeHnsMessage m networkMagic = .ok data) ∧
    (∀ (m : HandshakeMessage) networkMagic, m.WithinLimits →
      ∃ data, encodeHnsMessage m networkMagic = .ok data ∧
        decodeHnsMessage data = .ok (m.normalize, networkMagic)) ∧
    (∀ data m hnsnet, decodeHnsMessage data = .ok (m, hnsnet) ↔
      readHnsMessageN data hnsnet = ⟨data.length, .ok (m, data.drop hnsMessageHeaderSize), []⟩) ∧
    (∀ r hnsnet m payload, (readHnsMessageN r hnsnet).result = .ok (m, payload) →
      decodeHnsMessage (r.take (readHnsMessageN r hnsnet).totalBytes) = .ok (m, hnsnet)) ∧
    (∀ r hnsnet, (readHnsMessageN r hnsnet).totalBytes +
      (readHnsMessageN r hnsnet).rest.length = r.length) := by
  refine ⟨fun data m magic h => ?_, fun m magic h => ?_, fun data m hnsnet => ?_,
    fun r hnsnet m payload h => ?_, readHnsMessageN_accounts⟩
  · obtain ⟨-, hsmall, rfl⟩ := decodeHnsMessage_eq_ok.1 h
    exact encodeHnsMessage_eq_ok hsmall
  · refine ⟨m.normalize.envelope magic, ?_, decodeHnsMessage_eq_ok.2 ⟨h.valid, h.small, rfl⟩⟩
    have hsmall := h.small
    rw [HandshakeMessage.Small, encode_normalize, type_normalize] at hsmall
    rw [envelope, encode_normalize, type_normalize]
    exact encodeHnsMessage_eq_ok hsmall
  · constructor
    · intro h
      obtain ⟨hvalid, hsmall, rfl⟩ := decodeHnsMessage_eq_ok.1 h
      have hread := readHnsMessageN_envelope hvalid hsmall hnsnet []
      rw [append_nil] at hread
      rw [hread, envelope, drop_left' (HnsMsgHeader.length_encode _)]
    · intro h
      obtain ⟨hvalid, hsmall, rest, rfl⟩ := envelope_of_readHnsMessageN (congrArg HnsRead.result h)
      rw [readHnsMessageN_envelope hvalid hsmall hnsnet rest] at h
      obtain rfl : rest = [] := congrArg HnsRead.rest h
      exact decodeHnsMessage_eq_ok.2 ⟨hvalid, hsmall, append_nil _⟩
  · obtain ⟨hvalid, hsmall, rest, rfl⟩ := envelope_of_readHnsMessageN h
    rw [readHnsMessageN_envelope hvalid hsmall hnsnet rest, take_left]
    exact decodeHnsMessage_eq_ok.2 ⟨hvalid, hsmall, rfl⟩

/-- The host is the IPv4 address 1.2.3.4 in its mapped form. -/
def mappedAddress : HnsNetAddress where
  time := 5
  services := 1
  host := hnsIPv4MappedPrefixBytes ++ [1, 2, 3, 4]
  reserved := ⟨replicate 20 6, rfl⟩
  port := 14038
  key := ⟨replicate 33 7, rfl⟩

/-- A version with a user agent, two addresses and a reject with its reason and a hash. -/
def sampleMessages : List HandshakeMessage :=
  [.version ⟨3, 1, 9, mappedAddress, ⟨replicate 8 4, rfl⟩, [47, 104, 115, 100, 47], 100, true⟩,
    .addr [mappedAddress, { mappedAddress with host := replicate 16 2 }],
    .reject ⟨.tx, 0x10, [98, 97, 100], Hash.ofBytes [1]⟩]

theorem hns_message_codec_samples : ∀ m ∈ sampleMessages, m.WithinLimits ∧
    ∃ data, encodeHnsMessage m 0x5B6EF2D3 = .ok data ∧
      decodeHnsMessage data = .ok (m.normalize, 0x5B6EF2D3) := by
  have hlimits : ∀ m ∈ sampleMessages, m.WithinLimits := by
    simp [sampleMessages, WithinLimits, hnsRejectMessageRequiresHash, hnsMaxUserAgentLen,
      maxAddrPerMsg]
  exact fun m hm => ⟨hlimits m hm, hns_message_codec.2.1 m _ (hlimits m hm)⟩

/-! ## Frames on a stream -/

/-- So many frames with the messages among them; the others are of types that the node lacks. -/
inductive Frames (hnsnet : UInt32) : ℕ → Bytes → List HandshakeMessage → Prop
  | nil : Frames hnsnet 0 [] []
  | message {m : HandshakeMessage} (hvalid : m.Valid) (hsmall : m.Small)
    (htype : m.type ∉ [.version, .verack]) (h : Frames hnsnet n s ms) :
    Frames hnsnet (n + 1) (m.envelope hnsnet ++ s) (m :: ms)
  | unknown (ht : 30 < t) (hsmall : payload.length ≤ hnsMaxMessagePayload)
    (h : Frames hnsnet n s ms) : Frames hnsnet (n + 1)
      (HnsMsgHeader.encode ⟨hnsnet, .unsupported t ht, UInt32.ofNat payload.length⟩ ++
        (payload ++ s)) ms

/-- The loop keeps in step with the frames: it handles their messages in order, whatever the unknown
ones hold, and does with the rest of the stream what it does with it alone. -/
theorem inHandler_frames (h : Frames hnsnet n s ms) (k : ℕ) (r : Bytes) :
    inHandler hnsnet (n + k) (s ++ r) = (inHandler hnsnet k r).map (ms ++ ·) id := by
  induction h with
  | nil =>
    rw [Nat.zero_add]
    rfl
  | message hvalid hsmall htype _ ih =>
    rw [Nat.add_right_comm, inHandler, append_assoc, readHnsMessageN_envelope hvalid hsmall]
    simp only [if_neg htype, ih]
    rfl
  | @unknown t _ _ _ payload ht hsmall _ ih =>
    have hlen := HnsMsgHeader.length_encode
      ⟨hnsnet, .unsupported t ht, UInt32.ofNat payload.length⟩
    have hp : (UInt32.ofNat payload.length).toNat = payload.length :=
      UInt32.toNat_ofNat_of_lt' (hsmall.trans_lt (by decide))
    rw [Nat.add_right_comm, inHandler, readHnsMessageN, append_assoc, append_assoc,
      readFullN_of_le (by rw [length_append]; omega), take_left' hlen, drop_left' hlen]
    simp only [HnsMsgHeader.whole_decode.dec_enc _ trivial]
    rw [readHnsBodyN, hp, if_neg (not_lt.2 hsmall), if_neg (fun h => h rfl)]
    simp only [readHnsPayloadN, HnsRead.refused, discardHnsPayload, length_append,
      Nat.min_eq_left, Nat.le_add_right, drop_left]
    exact ih

/-- A ping, a frame of an unknown type and a reject, and then the start of a header. -/
theorem inHandler_frames_three :
    let m := ping ⟨[1, 2, 3, 4, 5, 6, 7, 8], rfl⟩
    let m' := reject ⟨.tx, 0x10, [98, 97, 100], Hash.ofBytes [1]⟩
    inHandler 7 4 (m.envelope 7 ++ (HnsMsgHeader.encode ⟨7, .unsupported 200 (by decide), 3⟩ ++
      ([9, 9, 9] ++ (m'.envelope 7 ++ []))) ++ [7, 0]) = ([m, m'], some .unexpectedEOF) := by
  intro m m'
  have htail : Frames 7 1 (m'.envelope 7 ++ []) [m'] :=
    .message ⟨by decide, by decide⟩ ⟨by decide, by decide⟩ (by decide) .nil
  exact inHandler_frames (.message (m := m) trivial ⟨by decide, by decide⟩ (by decide)
    (.unknown (by decide) (show ([9, 9, 9] : Bytes).length ≤ _ by decide) htail)) 1 [7, 0]

end HandshakeNode
