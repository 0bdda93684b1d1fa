import HandshakeNode.MsgBlock
import Mathlib.Tactic.IntervalCases

/-!
# The codecs of the parts of a transaction

Each reader of the wire package is lawful for its writer: numbers, hashes, variable-length integers
and byte strings, addresses, covenants, inputs, outputs and witnesses.
-/

namespace HandshakeNode

open LittleEndian Codec Lawful UInt32

lemma readFull_eq_ok (h : readFull s n = .ok (a, r)) : a.length = n ∧ s = a ++ r := by
  unfold readFull at h
  split_ifs at h with hn
  cases h
  exact ⟨by simp; omega, by simp⟩

lemma lawful_readFull (n : ℕ) :
    Lawful (fun b => b.length = n) (fun b => b) (readFull · n) where
  dec_enc _ _ ha := readFull_append ha
  enc_dec _ _ _ := readFull_eq_ok

lemma length_putUint8 (n : UInt8) : (putUint8 n).length = 1 := length_leBytes 1 _

lemma length_putUint32 (n : UInt32) : (putUint32 n).length = 4 := length_leBytes 4 _

lemma length_putUint64 (n : UInt64) : (putUint64 n).length = 8 := length_leBytes 8 _

lemma uint8_putUint8 (n : UInt8) : UInt8.ofNat (leNat (putUint8 n)) = n := by
  rw [putUint8, leNat_leBytes_of_lt n.toNat_lt, UInt8.ofNat_toNat]

lemma uint32_putUint32 (n : UInt32) : UInt32.ofNat (leNat (putUint32 n)) = n := by
  rw [putUint32, leNat_leBytes_of_lt n.toNat_lt, UInt32.ofNat_toNat]

lemma uint64_putUint64 (n : UInt64) : UInt64.ofNat (leNat (putUint64 n)) = n := by
  rw [putUint64, leNat_leBytes_of_lt n.toNat_lt, UInt64.ofNat_toNat]

lemma putUint8_leNat (hb : b.length = 1) : putUint8 (UInt8.ofNat (leNat b)) = b := by
  have hlt := leNat_lt b
  rw [hb] at hlt
  rw [putUint8, UInt8.toNat_ofNat_of_lt' hlt, ← hb, leBytes_leNat]

lemma putUint32_leNat (hb : b.length = 4) : putUint32 (ofNat (leNat b)) = b := by
  have hlt := leNat_lt b
  rw [hb] at hlt
  rw [putUint32, toNat_ofNat_of_lt' hlt, ← hb, leBytes_leNat]

lemma putUint64_leNat (hb : b.length = 8) : putUint64 (UInt64.ofNat (leNat b)) = b := by
  have hlt := leNat_lt b
  rw [hb] at hlt
  rw [putUint64, UInt64.toNat_ofNat_of_lt' hlt, ← hb, leBytes_leNat]

lemma lawful_readUint8 : Lawful (fun _ => True) putUint8 readUint8 :=
  (lawful_readFull 1).iso (fun b => UInt8.ofNat (leNat b)) putUint8 length_putUint8 uint8_putUint8
    fun _ => putUint8_leNat

lemma lawful_readUint32 : Lawful (fun _ => True) putUint32 readUint32 :=
  (lawful_readFull 4).iso (fun b => ofNat (leNat b)) putUint32 length_putUint32
    uint32_putUint32 fun _ => putUint32_leNat

lemma lawful_readUint64 : Lawful (fun _ => True) putUint64 readUint64 :=
  (lawful_readFull 8).iso (fun b => UInt64.ofNat (leNat b)) putUint64 length_putUint64
    uint64_putUint64 fun _ => putUint64_leNat

lemma Hash.bytes_ofBytes (h : b.length = 32) : (Hash.ofBytes b).bytes = b := by
  simp [Hash.ofBytes, h]

lemma lawful_readChainHash : Lawful (fun _ => True) Hash.bytes readChainHash :=
  (lawful_readFull 32).iso Hash.ofBytes Hash.bytes Hash.length_bytes Hash.ofBytes_bytes
    fun _ => Hash.bytes_ofBytes

lemma lawful_readFixed (n : ℕ) : Lawful (fun _ => True) (fun x => x.1) (readFixed n) :=
  (lawful_readFull n).subtype _

lemma readVarIntTail_eq_ok {min : ℕ} (h : readVarIntTail d k min s = .ok (val, r)) :
    min ≤ val ∧ val < 256 ^ k ∧ s = leBytes k val ++ r := by
  simp only [readVarIntTail, bind_eq_ok, Prod.exists, exists_failIf_ok] at h
  obtain ⟨b, r', hb, hmin, rfl, rfl⟩ := h
  obtain ⟨hlen, rfl⟩ := readFull_eq_ok hb
  exact ⟨by omega, hlen ▸ leNat_lt b, by rw [← hlen, leBytes_leNat]⟩

lemma writeVarInt_of_readVarInt {r : Bytes} (h : readVarInt s = .ok (val, r)) :
    val < 2 ^ 64 ∧ s = writeVarInt val ++ r := by
  rcases s with _ | ⟨b, s⟩
  · cases h
  rw [readVarInt_cons] at h
  unfold writeVarInt
  split_ifs at h with hff hfe hfd
  · subst hff
    obtain ⟨hmin, hlt, rfl⟩ := readVarIntTail_eq_ok h
    refine ⟨by omega, ?_⟩
    rw [if_neg (by omega), if_neg (by omega), if_neg (by omega)]
    rfl
  · subst hfe
    obtain ⟨hmin, hlt, rfl⟩ := readVarIntTail_eq_ok h
    refine ⟨by omega, ?_⟩
    rw [if_neg (by omega), if_neg (by omega), if_pos (by omega)]
    rfl
  · subst hfd
    obtain ⟨hmin, hlt, rfl⟩ := readVarIntTail_eq_ok h
    refine ⟨by omega, ?_⟩
    rw [if_neg (by omega), if_pos (by omega)]
    rfl
  · cases h
    have hb := b.toNat_lt
    have hsmall : b.toNat < 0xfd := by
      simp only [← UInt8.toNat_inj, UInt8.reduceToNat] at hff hfe hfd
      omega
    refine ⟨by omega, ?_⟩
    rw [if_pos hsmall]
    simp [leBytes]

lemma lawful_readVarInt : Lawful (· < 2 ^ 64) writeVarInt readVarInt where
  dec_enc _ r h := readVarInt_writeVarInt h r
  enc_dec _ _ _ := writeVarInt_of_readVarInt

lemma lawful_readVarBytes {max : ℕ} (hmax : max < 2 ^ 64) (fieldName : String) :
    Lawful (fun b => b.length ≤ max) writeVarBytes (readVarBytes · max fieldName) where
  dec_enc _ r h := readVarBytes_writeVarBytes fieldName h hmax r
  enc_dec s b r h := by
    simp only [readVarBytes, bind_eq_ok, Prod.exists, exists_failIf_ok] at h
    obtain ⟨count, r', hcount, hle, -, hb⟩ := h
    obtain ⟨-, rfl⟩ := writeVarInt_of_readVarInt hcount
    obtain ⟨rfl, rfl⟩ := readFull_eq_ok hb
    exact ⟨by omega, by rw [writeVarBytes, List.append_assoc]⟩

lemma length_writeVarInt (val : ℕ) : (writeVarInt val).length = varIntSerializeSize val := by
  unfold writeVarInt varIntSerializeSize
  split_ifs <;> simp

/-- The addresses that can be encoded: the empty one, and those of a known version whose hash has a
length of that version. -/
def Address.Valid (a : Address) : Prop :=
  a.version = 0 ∧ a.hash = [] ∨
    a.version ≤ maxAddressVersion ∧ minAddressHashLen ≤ a.hash.length ∧
      a.hash.length ≤ maxAddressHashLen ∧
      (a.version = 0 → a.hash.length = 20 ∨ a.hash.length = 32)

instance (a : Address) : Decidable a.Valid := by unfold Address.Valid; infer_instance

lemma validateAddressFields_eq_ok : validateAddressFields version hashLen op = .ok u ↔
      version = 0 ∧ hashLen = 0 ∨
        version ≤ maxAddressVersion ∧ minAddressHashLen ≤ hashLen ∧ hashLen ≤ maxAddressHashLen ∧
          (version = 0 → hashLen = 20 ∨ hashLen = 32) := by
  unfold validateAddressFields
  split_ifs with h
  · simp [h]
  · simp only [bind_eq_ok, failIf_eq_ok, exists_const, UInt8.not_lt, not_or, not_lt]
    tauto

namespace Address

variable {a : Address}

lemma valid_iff : a.Valid ↔ validateAddressFields a.version a.hash.length op = .ok () := by
  rw [validateAddressFields_eq_ok, Valid, List.length_eq_zero_iff]

lemma Valid.length_le (h : a.Valid) : a.hash.length ≤ maxAddressHashLen := by
  rcases h with ⟨-, h⟩ | ⟨-, -, h, -⟩
  · simp [h]
  · exact h

lemma lawful_decode : Lawful Valid encoded decode := by
  have hsize : ∀ a : Address, a.Valid → (UInt8.ofNat a.hash.length).toNat = a.hash.length :=
    fun a ha => UInt8.toNat_ofNat_of_lt' (ha.length_le.trans_lt (by decide))
  refine read version lawful_readUint8 fun version => ?_
  refine read (fun a : Address => UInt8.ofNat a.hash.length) lawful_readUint8 fun hashLen => ?_
  refine guard ?_ fun _ hvalid => ?_
  · rintro a r ⟨⟨ha, rfl⟩, rfl⟩
    rw [hsize a ha]
    exact valid_iff.1 ha
  refine bind hash (lawful_readFull _) (fun bs hbs => ret fun a => ?_) ?_
  · constructor
    · rintro ⟨⟨⟨-, rfl⟩, -⟩, rfl⟩
      rfl
    · rintro rfl
      refine ⟨⟨⟨valid_iff.2 (hbs ▸ hvalid), rfl⟩, ?_⟩, rfl⟩
      simp [hbs]
  · rintro a ⟨⟨ha, -⟩, rfl⟩
    exact (hsize a ha).symm

lemma encode_eq_ok : a.encode = .ok s ↔ a.Valid ∧ a.encoded = s := by
  rw [encode, bind_eq_ok, Unique.exists_iff, valid_iff]
  exact and_congr_right fun _ => pure_eq_ok

lemma length_encoded (a : Address) : a.encoded.length = a.serializeSize := by
  simp [encoded, putUint8, serializeSize]
  omega

end Address

namespace CovenantType

lemma ofUInt8_toUInt8 (t : CovenantType) : ofUInt8 t.toUInt8 = t := by
  cases t with
  | unknown t h => simp [toUInt8, ofUInt8, h]
  | _ => rfl

lemma toUInt8_ofUInt8 (t : UInt8) : (ofUInt8 t).toUInt8 = t := by
  by_cases h : 11 < t
  · simp [ofUInt8, h, toUInt8]
  · obtain ⟨n, hn, rfl⟩ : ∃ n, n < 12 ∧ t = UInt8.ofNat n := by
      simp only [UInt8.lt_iff_toNat_lt, UInt8.reduceToNat] at h
      exact ⟨t.toNat, by omega, UInt8.ofNat_toNat.symm⟩
    interval_cases n <;> rfl

end CovenantType

def Covenant.Valid (c : Covenant) : Prop :=
  c.items.length ≤ maxCovenantItems ∧ ∀ item ∈ c.items, item.length ≤ maxCovenantItemSize

instance (c : Covenant) : Decidable c.Valid := by unfold Covenant.Valid; infer_instance

lemma validateCovenantItems_eq_ok : ∀ {i} {items},
    validateCovenantItems op i items = .ok u ↔ ∀ item ∈ items, item.length ≤ maxCovenantItemSize
  | _, [] => by simp [validateCovenantItems]
  | i, item :: items => by
    rw [validateCovenantItems, List.forall_mem_cons]
    simp only [bind_eq_ok, failIf_eq_ok, exists_const, not_lt]
    rw [validateCovenantItems_eq_ok]

namespace Covenant

variable {c : Covenant}

lemma valid_iff :
    c.Valid ↔ validateCovenantFields c.items.length c.items op = .ok () := by
  rw [validateCovenantFields, Valid]
  simp [bind_eq_ok, validateCovenantItems_eq_ok]

lemma lawful_decode : Lawful Valid encoded decode := by
  refine read (fun c : Covenant => c.type.toUInt8) lawful_readUint8 fun typ => ?_
  refine bind (fun c : Covenant => c.items.length) lawful_readVarInt (fun itemCount _ => ?_) ?_
  · refine guard ?_ fun _ hcount => ?_
    · rintro c r ⟨⟨hc, -⟩, rfl⟩
      exact failIf_of_not (not_lt.2 hc.1) _
    refine bind items ((lawful_readVarBytes (by decide) _).readN _)
      (fun items hitems => ret fun c => ?_) ?_
    · constructor
      · rintro ⟨⟨⟨-, rfl⟩, -⟩, rfl⟩
        rw [CovenantType.ofUInt8_toUInt8]
      · rintro rfl
        rw [failIf_eq_ok, not_lt] at hcount
        exact ⟨⟨⟨⟨hitems.1.trans_le hcount, hitems.2⟩, CovenantType.toUInt8_ofUInt8 typ⟩,
          hitems.1⟩, rfl⟩
    · rintro c ⟨⟨hc, -⟩, rfl⟩
      exact ⟨rfl, hc.2⟩
  · rintro c ⟨hc, -⟩
    exact hc.1.trans_lt (by decide)

lemma encode_eq_ok : c.encode = .ok s ↔ c.Valid ∧ c.encoded = s := by
  rw [encode, bind_eq_ok, Unique.exists_iff, valid_iff]
  exact and_congr_right fun _ => pure_eq_ok

end Covenant

end HandshakeNode
