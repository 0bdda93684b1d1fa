import HandshakeNode.NameCodec

/-!
# What is stored reads back

A state that can be written is read back as it is, so states that are written alike are equal, and
an undo list reads back unless it has more entries than the reader allows.
-/

namespace HandshakeNode

open LittleEndian List NoPanic

/-! ## The field of flags -/

lemma testBit_setFlag (field k j : ℕ) (b : Bool) :
    (setFlag field k b).testBit j = (field.testBit j || (b && decide (k = j))) := by
  unfold setFlag
  cases b <;> simp [Nat.one_shiftLeft, Nat.testBit_two_pow]

lemma setFlag_lt (b : Bool) (hf : field < 2 ^ n) (hk : k < n) : setFlag field k b < 2 ^ n := by
  unfold setFlag
  split_ifs
  · rw [Nat.one_shiftLeft]
    exact Nat.or_lt_two_pow hf (Nat.pow_lt_pow_right (by omega) hk)
  · exact hf

namespace NameState

lemma field_lt (ns : NameState) : ns.field < 2 ^ 16 := by
  have h0 : (0 : ℕ) < 2 ^ 16 := by decide
  iterate 10 refine setFlag_lt _ ?_ (by decide)
  exact h0

lemma testBit_field (ns : NameState) :
    ns.field.testBit 0 = !isNullNameOwner ns.owner ∧ ns.field.testBit 1 = decide (ns.value ≠ 0) ∧
    ns.field.testBit 2 = decide (ns.highest ≠ 0) ∧ ns.field.testBit 3 = decide (ns.transfer ≠ 0) ∧
    ns.field.testBit 4 = decide (ns.revoked ≠ 0) ∧ ns.field.testBit 5 = decide (ns.claimed ≠ 0) ∧
    ns.field.testBit 6 = decide (ns.renewals ≠ 0) ∧ ns.field.testBit 7 = ns.registered ∧
    ns.field.testBit 8 = ns.expired ∧ ns.field.testBit 9 = ns.weak := by
  all_goals
    simp only [field, testBit_setFlag]
    simp

structure Encodable (ns : NameState) : Prop where
  name : ns.name.length ≤ maxNameSize
  data : ns.data.length ≤ maxResourceSize
  value : 0 ≤ ns.value
  highest : 0 ≤ ns.highest

lemma encodable_newNameState (nameHash : Hash) : (newNameState nameHash).Encodable := by
  constructor <;> simp [newNameState]

lemma encode_eq_ok {ns : NameState} : ns.encode = .ok b ↔ ns.Encodable ∧ ns.encodeBody = b := by
  unfold encode
  simp only [bind_eq_ok, exists_failIf_ok, pure_eq_ok, not_or, Int64.not_lt, Nat.not_lt]
  constructor
  · rintro ⟨hname, hdata, hvalue, hb⟩
    exact ⟨⟨hname, hdata, hvalue.1, hvalue.2⟩, hb⟩
  · rintro ⟨h, hb⟩
    exact ⟨h.name, h.data, ⟨h.value, h.highest⟩, hb⟩

end NameState

lemma readOptional_append {read : Bytes → Result (α × Bytes)}
    (hread : field.testBit k = true → read (bytes ++ r) = .ok (v, r))
    (hdefault : field.testBit k = false → v = d) :
    readOptional field k d read (NameState.optional field k bytes ++ r) = .ok (v, r) := by
  unfold readOptional NameState.optional
  cases h : field.testBit k with
  | true => simpa using hread h
  | false => simp [hdefault h]

lemma readNameBytes_append (h : s.length = n) : readNameBytes n (s ++ r) = .ok (s, r) := by
  subst h
  unfold readNameBytes
  rw [failIf_of_not (by simp)]
  exact sliceAt_append rfl

lemma ofNat_leNat_leBytes_toNat (n : UInt32) : UInt32.ofNat (leNat (leBytes 4 n.toNat)) = n := by
  rw [leNat_leBytes_of_lt n.toNat_lt, UInt32.ofNat_toNat]

lemma readNameU32_append (n : UInt32) (r : Bytes) :
    readNameU32 (leBytes 4 n.toNat ++ r) = .ok (n, r) := by
  unfold readNameU32
  rw [readNameBytes_append (length_leBytes 4 _)]
  simp only [ok_bind, ofNat_leNat_leBytes_toNat]
  rfl

lemma readNameVarInt_append {max : ℕ} (hval : val ≤ max) (hmax : max < 2 ^ 64) (message : String)
    (r : Bytes) : readNameVarInt max message (writeVarInt val ++ r) = .ok (val, r) := by
  unfold readNameVarInt
  rw [readVarInt_writeVarInt (by omega)]
  simp only [ok_bind]
  rw [failIf_of_not (by omega)]
  rfl

lemma readNameOwner_append (o : OutPoint) (r : Bytes) :
    readNameOwner (o.hash.bytes ++ writeVarInt o.index.toNat ++ r) = .ok (o, r) := by
  have hindex := o.index.toNat_lt
  unfold readNameOwner
  rw [append_assoc, readNameBytes_append o.hash.len]
  simp only [ok_bind]
  rw [readNameVarInt_append (by omega) (by decide)]
  simp only [ok_bind, Hash.ofBytes_bytes, UInt32.ofNat_toNat]
  rfl

lemma toNat_toUInt64_of_nonneg (h : 0 ≤ v) :
    v.toUInt64.toNat ≤ 0x7fffffffffffffff ∧ Int64.ofNat v.toUInt64.toNat = v := by
  constructor
  · have hint : (0 : ℤ) ≤ v.toUInt64.toBitVec.toInt := by simpa [Int64.le_iff_toInt_le] using h
    have hcond := BitVec.toInt_eq_toNat_cond v.toUInt64.toBitVec
    change v.toUInt64.toBitVec.toNat ≤ _
    split_ifs at hcond <;> omega
  · apply Int64.toBitVec_inj.1
    simp

lemma readNameInt64_append {v : Int64} (h : 0 ≤ v) (message : String) (r : Bytes) :
    readNameInt64 message (writeVarInt v.toUInt64.toNat ++ r) = .ok (v, r) := by
  obtain ⟨hle, hv⟩ := toNat_toUInt64_of_nonneg h
  unfold readNameInt64
  rw [readNameVarInt_append hle (by decide)]
  simp only [ok_bind, hv]
  rfl

lemma readNameRenewals_append (n : UInt32) (r : Bytes) :
    readNameRenewals (writeVarInt n.toNat ++ r) = .ok (n, r) := by
  have hn := n.toNat_lt
  unfold readNameRenewals
  rw [readNameVarInt_append (by omega) (by decide)]
  simp only [ok_bind, UInt32.ofNat_toNat]
  rfl

lemma readName_append (h : name.length ≤ maxNameSize) (hr : 2 ≤ r.length) :
    readName (UInt8.ofNat name.length :: (name ++ r)) = .ok (name, r) := by
  have hlen : (UInt8.ofNat name.length).toNat = name.length := by
    unfold maxNameSize at h
    rw [UInt8.toNat_ofNat', Nat.mod_eq_of_lt (by omega)]
  unfold readName
  simp only [hlen]
  rw [failIf_of_not (by rw [length_append]; omega)]
  exact sliceAt_append rfl

lemma readResource_append (h : data.length ≤ maxResourceSize) (hr : 10 ≤ r.length) :
    readResource (leBytes 2 data.length ++ (data ++ r)) = .ok (data, r) := by
  have hlen := length_leBytes 2 data.length
  have hdata : leNat (leBytes 2 data.length) = data.length := by
    unfold maxResourceSize at h
    exact leNat_leBytes_of_lt (by omega)
  unfold readResource
  rw [sliceAt_append hlen]
  simp only [ok_bind, hdata]
  rw [failIf_of_not (by rw [length_append]; omega)]
  exact sliceAt_append rfl

lemma isNullNameOwner_iff : isNullNameOwner o = true ↔ o = nullNameOwner := by
  cases o
  simp [isNullNameOwner, nullNameOwner]

lemma eq_zero_of_flag [DecidableEq α] [Zero α] {field : ℕ} {v : α}
    (hbit : field.testBit k = decide (v ≠ 0)) : field.testBit k = false → v = 0 := by
  simp [hbit]

lemma decodeNameState_encodeBody (h : ns.Encodable) :
    decodeNameState ns.nameHash ns.encodeBody = .ok ns := by
  obtain ⟨b0, b1, b2, b3, b4, b5, b6, b7, b8, b9⟩ := ns.testBit_field
  unfold decodeNameState NameState.encodeBody
  rw [readName_append h.name (by simp)]
  simp only [ok_bind]
  rw [readResource_append h.data (by simp; omega)]
  simp only [ok_bind]
  rw [sliceAt_append (length_leBytes 4 _)]
  simp only [ok_bind]
  rw [sliceAt_append (length_leBytes 4 _)]
  simp only [ok_bind]
  rw [sliceAt_append (length_leBytes 2 _)]
  simp only [ok_bind, ofNat_leNat_leBytes_toNat]
  rw [leNat_leBytes_of_lt (by have := ns.field_lt; omega)]
  -- The optional values, one after the other.
  have howner : ns.field.testBit 0 = false → ns.owner = nullNameOwner := by
    intro hb
    rw [b0, Bool.not_eq_false'] at hb
    exact isNullNameOwner_iff.1 hb
  rw [readOptional_append (fun _ => readNameOwner_append ns.owner _) howner]
  simp only [ok_bind]
  rw [readOptional_append (fun _ => readNameInt64_append h.value _ _) (eq_zero_of_flag b1)]
  simp only [ok_bind]
  rw [readOptional_append (fun _ => readNameInt64_append h.highest _ _) (eq_zero_of_flag b2)]
  simp only [ok_bind]
  rw [readOptional_append (fun _ => readNameU32_append ns.transfer _) (eq_zero_of_flag b3)]
  simp only [ok_bind]
  rw [readOptional_append (fun _ => readNameU32_append ns.revoked _) (eq_zero_of_flag b4)]
  simp only [ok_bind]
  rw [readOptional_append (fun _ => readNameU32_append ns.claimed _) (eq_zero_of_flag b5)]
  simp only [ok_bind]
  rw [← append_nil (NameState.optional ns.field 6 _),
    readOptional_append (fun _ => readNameRenewals_append ns.renewals _) (eq_zero_of_flag b6)]
  simp only [b7, b8, b9]
  rfl

lemma NameState.eq_of_encode {b : NameState} (hash : a.nameHash = b.nameHash)
    (ha : a.encode = .ok bytes) (hb : b.encode = .ok bytes) : a = b := by
  obtain ⟨hea, hba⟩ := encode_eq_ok.1 ha
  obtain ⟨heb, hbb⟩ := encode_eq_ok.1 hb
  have hda := decodeNameState_encodeBody hea
  have hdb := decodeNameState_encodeBody heb
  rw [hba, hash] at hda
  rw [hbb, hda, Except.ok.injEq] at hdb
  exact hdb

lemma nameStatesEqual_iff {b : NameState} (hash : a.nameHash = b.nameHash) :
    nameStatesEqual a b = true ↔ a = b ∧ a.Encodable := by
  unfold nameStatesEqual
  constructor
  · intro h
    split at h
    · rename_i ea eb ha hb
      rw [decide_eq_true_eq] at h
      subst h
      exact ⟨NameState.eq_of_encode hash ha hb, (NameState.encode_eq_ok.1 ha).1⟩
    · cases h
  · rintro ⟨rfl, he⟩
    rw [NameState.encode_eq_ok.2 ⟨he, rfl⟩]
    simp

/-! ## No read out of range -/

lemma noPanic_deserialize (text : String) : NoPanic (.error (.deserialize text) : Result α) := by
  simp [NoPanic]

lemma noPanic_readFull (r : Bytes) (n : ℕ) : NoPanic (readFull r n) := by
  unfold readFull
  split_ifs <;> simp [NoPanic]

lemma noPanic_readVarInt (r : Bytes) : NoPanic (readVarInt r) := by
  have htail (discriminant k min : ℕ) (r : Bytes) : NoPanic (readVarIntTail discriminant k min r) :=
    bind (noPanic_readFull r k) fun _ _ =>
      noPanic_guard_bind (by simp [NoPanic, errNonCanonicalVarInt]) fun _ => noPanic_ok _
  refine bind (noPanic_readFull r 1) fun a _ => ?_
  dsimp only
  split
  · exact htail _ _ _ _
  · exact htail _ _ _ _
  · exact htail _ _ _ _
  · exact noPanic_ok _

lemma noPanic_readNameBytes (n : ℕ) (s : Bytes) : NoPanic (readNameBytes n s) :=
  noPanic_guard_bind (noPanic_deserialize _) fun h => noPanic_sliceAt (by omega)

lemma noPanic_readNameVarInt (max : ℕ) (message : String) (s : Bytes) :
    NoPanic (readNameVarInt max message s) :=
  bind (noPanic_readVarInt s) fun _ _ =>
    noPanic_guard_bind (noPanic_deserialize _) fun _ => noPanic_ok _

lemma noPanic_readOptional {read : Bytes → Result (α × Bytes)} (hread : ∀ s, NoPanic (read s))
    (field k : ℕ) (d : α) (s : Bytes) : NoPanic (readOptional field k d read s) := by
  unfold readOptional
  split_ifs
  · exact hread s
  · exact noPanic_ok _

lemma noPanic_readNameU32 (s : Bytes) : NoPanic (readNameU32 s) :=
  bind (noPanic_readNameBytes 4 s) fun _ _ => noPanic_ok _

lemma noPanic_readNameInt64 (message : String) (s : Bytes) : NoPanic (readNameInt64 message s) :=
  bind (noPanic_readNameVarInt _ _ s) fun _ _ => noPanic_ok _

lemma guarded_sliceAt [Decidable c] (h : ¬ c → n + k ≤ s.length) :
    NoPanic (failIf c (.deserialize message) >>= fun _ => sliceAt s n) ∧
      ∀ a, (failIf c (.deserialize message) >>= fun _ => sliceAt s n) = .ok a → k ≤ a.2.length := by
  refine ⟨noPanic_guard_bind (noPanic_deserialize _) fun hc => noPanic_sliceAt ?_, fun a ha => ?_⟩
  · have := h hc
    omega
  obtain ⟨u, hc, ha⟩ := bind_eq_ok.1 ha
  have hlen := h (failIf_eq_ok.1 hc)
  rw [sliceAt_of_le (by omega)] at ha
  cases ha
  rw [length_drop]
  omega

lemma readName_spec (s : Bytes) :
    NoPanic (readName s) ∧ ∀ a, readName s = .ok a → 2 ≤ a.2.length := by
  unfold readName
  split
  · simp [NoPanic]
  · exact guarded_sliceAt fun h => by omega

lemma readResource_spec (hs : 2 ≤ s.length) :
    NoPanic (readResource s) ∧ ∀ a, readResource s = .ok a → 10 ≤ a.2.length := by
  unfold readResource
  rw [sliceAt_of_le hs]
  exact guarded_sliceAt fun h => by omega

lemma noPanic_decodeNameState (nameHash : Hash) (serialized : Bytes) :
    NoPanic (decodeNameState nameHash serialized) := by
  refine bind (readName_spec serialized).1 fun a ha => ?_
  obtain ⟨hresource, hlen⟩ := readResource_spec ((readName_spec serialized).2 a ha)
  refine bind hresource fun b hb => ?_
  have hten := hlen b hb
  simp only [sliceAt_of_le (show 4 ≤ b.2.length by omega), ok_bind]
  rw [sliceAt_of_le (by rw [length_drop]; omega)]
  simp only [ok_bind]
  rw [sliceAt_of_le (by simp only [length_drop]; omega)]
  simp only [ok_bind]
  refine bind (noPanic_readOptional (fun s => ?_) _ _ _ _) fun _ _ => ?_
  · exact bind (noPanic_readNameBytes 32 s) fun _ _ =>
      bind (noPanic_readNameVarInt _ _ _) fun _ _ => noPanic_ok _
  refine bind (noPanic_readOptional (noPanic_readNameInt64 _) _ _ _ _) fun _ _ => ?_
  refine bind (noPanic_readOptional (noPanic_readNameInt64 _) _ _ _ _) fun _ _ => ?_
  refine bind (noPanic_readOptional noPanic_readNameU32 _ _ _ _) fun _ _ => ?_
  refine bind (noPanic_readOptional noPanic_readNameU32 _ _ _ _) fun _ _ => ?_
  refine bind (noPanic_readOptional noPanic_readNameU32 _ _ _ _) fun _ _ => ?_
  refine bind (noPanic_readOptional (fun s => ?_) _ _ _ _) fun _ _ => ?_
  · exact bind (noPanic_readNameVarInt _ _ s) fun _ _ => noPanic_ok _
  · exact noPanic_guard_bind (noPanic_deserialize _) fun _ => noPanic_ok _

/-- The hash of the name is not part of what is written. -/
theorem nameStatesEqual_of_other_hash :
    nameStatesEqual (newNameState Hash.zero) (newNameState (Hash.ofBytes [1])) = true ∧
      newNameState Hash.zero ≠ newNameState (Hash.ofBytes [1]) := by
  decide +kernel

/-- States that can be written read back in every field. Among states of one name hash, writing is
injective and `nameStatesEqual` is equality, and the decoder panics on no byte string. -/
theorem nameState_codec_lossless : (∀ ns : NameState, ns.Encodable →
      ∃ b, ns.encode = .ok b ∧ decodeNameState ns.nameHash b = .ok ns) ∧
    (∀ a b : NameState, a.Encodable → b.Encodable → a.nameHash = b.nameHash →
      (a.encode = b.encode → a = b) ∧ (nameStatesEqual a b = true ↔ a = b)) ∧
    ∀ nameHash serialized, NoPanic (decodeNameState nameHash serialized) := by
  refine ⟨fun ns h => ?_, fun a b ha hb hash => ⟨fun he => ?_, ?_⟩, noPanic_decodeNameState⟩
  · exact ⟨_, NameState.encode_eq_ok.2 ⟨h, rfl⟩, decodeNameState_encodeBody h⟩
  · have hb := NameState.encode_eq_ok.2 ⟨hb, rfl⟩
    exact NameState.eq_of_encode hash (he.trans hb) hb
  · rw [nameStatesEqual_iff hash]
    exact and_iff_left ha

/-- No field has the value that is left out. -/
def fullNameState : NameState where
  nameHash := Hash.ofBytes [1]
  name := [110, 97, 109, 101]
  height := 2
  renewal := 3
  owner := ⟨Hash.ofBytes [4], 5⟩
  value := 6
  highest := 7
  data := [8, 9]
  transfer := 10
  revoked := 11
  claimed := 12
  renewals := 300
  registered := true
  expired := true
  weak := true

theorem nameState_codec_lossless_full : ∃ b, fullNameState.encode = .ok b ∧
    decodeNameState fullNameState.nameHash b = .ok fullNameState ∧
    nameStatesEqual fullNameState { fullNameState with renewals := 301 } = false := by
  have h : fullNameState.Encodable := ⟨by decide, by decide, by decide, by decide⟩
  obtain ⟨b, hb, hread⟩ := nameState_codec_lossless.1 _ h
  refine ⟨b, hb, hread, Bool.eq_false_iff.2 fun heq => ?_⟩
  have hsame := (nameState_codec_lossless.2.1 fullNameState { fullNameState with renewals := 301 } h
    ⟨by decide, by decide, by decide, by decide⟩ rfl).2.1 heq
  exact absurd hsame (by decide)

lemma length_writeVarInt_le (val : ℕ) : (writeVarInt val).length ≤ 9 := by
  unfold writeVarInt
  split_ifs <;> simp

lemma length_optional_le (field k : ℕ) (h : bytes.length ≤ n) :
    (NameState.optional field k bytes).length ≤ n := by
  unfold NameState.optional
  split_ifs
  · exact h
  · simp

lemma NameState.length_encodeBody_le {ns : NameState} (h : ns.Encodable) :
    ns.encodeBody.length ≤ maxSerializedNameState := by
  have hname := h.name
  have hdata := h.data
  have hvar := length_writeVarInt_le
  have hindex : (ns.owner.hash.bytes ++ writeVarInt ns.owner.index.toNat).length ≤ 41 := by
    rw [length_append, Hash.length_bytes]
    have := hvar ns.owner.index.toNat
    omega
  have howner := length_optional_le ns.field 0 hindex
  have hvalue := length_optional_le ns.field 1 (hvar ns.value.toUInt64.toNat)
  have hhighest := length_optional_le ns.field 2 (hvar ns.highest.toUInt64.toNat)
  have htransfer := length_optional_le ns.field 3 (length_leBytes 4 ns.transfer.toNat).le
  have hrevoked := length_optional_le ns.field 4 (length_leBytes 4 ns.revoked.toNat).le
  have hclaimed := length_optional_le ns.field 5 (length_leBytes 4 ns.claimed.toNat).le
  have hrenewals := length_optional_le ns.field 6 (hvar ns.renewals.toNat)
  simp only [maxNameSize, maxResourceSize] at hname hdata
  simp only [encodeBody, length_cons, length_append, length_leBytes, maxSerializedNameState]
  omega

namespace NameUndoEntry

/-- The entry as it is read back: without a state unless the name existed. -/
def written (entry : NameUndoEntry) : NameUndoEntry :=
  { entry with state := if entry.existed then entry.state else none }

def Writable (entry : NameUndoEntry) : Prop :=
  entry.existed = true →
    ∃ ns, entry.state = some ns ∧ ns.Encodable ∧ ns.nameHash = entry.nameHash

end NameUndoEntry

lemma serializeUndoEntry_ok {entry : NameUndoEntry} (h : entry.Writable) :
    ∃ bytes, serializeUndoEntry entry = .ok bytes ∧
      ∀ r, readUndoEntry (bytes ++ r) = .ok (entry.written, r) := by
  obtain ⟨nameHash, existed, state⟩ := entry
  cases existed with
  | false =>
    refine ⟨nameHash.bytes ++ [0], rfl, fun r => ?_⟩
    unfold readUndoEntry
    rw [append_assoc, readFull_append nameHash.length_bytes]
    simp only [ok_bind, Hash.ofBytes_bytes]
    rfl
  | true =>
    obtain ⟨ns, rfl, hns, rfl⟩ := h rfl
    refine ⟨ns.nameHash.bytes ++ 1 :: writeVarBytes ns.encodeBody, ?_, fun r => ?_⟩
    · simp only [serializeUndoEntry, NameState.encode_eq_ok.2 ⟨hns, rfl⟩]
      rfl
    · unfold readUndoEntry readUndoState
      rw [append_assoc, readFull_append ns.nameHash.length_bytes]
      simp only [ok_bind, cons_append, Hash.ofBytes_bytes]
      rw [readVarBytes_writeVarBytes _ (NameState.length_encodeBody_le hns) (by decide)]
      simp only [ok_bind, decodeNameState_encodeBody hns]
      rfl

lemma serializeUndoEntries_ok : ∀ {entries}, (∀ e ∈ entries, e.Writable) →
    ∃ bytes, serializeUndoEntries entries = .ok bytes ∧
      ∀ r, readUndoEntries entries.length (bytes ++ r) = .ok (entries.map (·.written), r)
  | [], _ => ⟨[], rfl, fun _ => rfl⟩
  | entry :: entries, h => by
    obtain ⟨hentry, hentries⟩ := forall_mem_cons.1 h
    obtain ⟨first, hfirst, hread⟩ := serializeUndoEntry_ok hentry
    obtain ⟨rest, hrest, hreads⟩ := serializeUndoEntries_ok hentries
    refine ⟨first ++ rest, ?_, fun r => ?_⟩
    · rw [serializeUndoEntries, hfirst, hrest]
      rfl
    · rw [length_cons, readUndoEntries, append_assoc, hread]
      simp only [ok_bind]
      rw [hreads]
      rfl

lemma dbDeserializeNameUndo_serialize (h : ∀ e ∈ entries, e.Writable)
    (hlen : entries.length ≤ maxNameUndoEntries) :
    ∃ bytes, dbSerializeNameUndo entries = .ok bytes ∧
      dbDeserializeNameUndo bytes = .ok (entries.map (·.written)) := by
  obtain ⟨body, hbody, hread⟩ := serializeUndoEntries_ok h
  refine ⟨writeVarInt entries.length ++ body, by rw [dbSerializeNameUndo, hbody]; rfl, ?_⟩
  have hmax : maxNameUndoEntries < 2 ^ 64 := by decide
  have hall := hread []
  rw [append_nil] at hall
  unfold dbDeserializeNameUndo
  rw [readVarInt_writeVarInt (hlen.trans_lt hmax)]
  simp only [ok_bind, failIf_of_not (not_lt.2 hlen), hall]
  rfl

lemma lt_of_readVarInt_writeVarInt (hval : 2 ^ 64 ≤ val)
    (h : readVarInt (writeVarInt val ++ r) = .ok (c, r')) : maxNameUndoEntries < c := by
  have hwrite : writeVarInt val = 0xff :: leBytes 8 val := by
    unfold writeVarInt
    rw [if_neg (by omega), if_neg (by omega), if_neg (by omega)]
  rw [hwrite, cons_append, readVarInt_cons, if_pos rfl] at h
  simp only [readVarIntTail, bind_eq_ok, exists_failIf_ok, Prod.exists, not_lt] at h
  obtain ⟨buf, -, -, hmin, rfl, -⟩ := h
  exact lt_of_lt_of_le (by decide) hmin

lemma dbDeserializeNameUndo_long (hlen : maxNameUndoEntries < entries.length)
    (h : dbSerializeNameUndo entries = .ok bytes) :
    ∃ e, dbDeserializeNameUndo bytes = .error e := by
  simp only [dbSerializeNameUndo, bind_eq_ok, pure_eq_ok] at h
  obtain ⟨body, -, rfl⟩ := h
  unfold dbDeserializeNameUndo
  cases hcount : readVarInt (writeVarInt entries.length ++ body) with
  | error e => exact ⟨e, rfl⟩
  | ok p =>
    have hlong : maxNameUndoEntries < p.1 := by
      by_cases hbig : 2 ^ 64 ≤ entries.length
      · exact lt_of_readVarInt_writeVarInt hbig hcount
      · rw [readVarInt_writeVarInt (not_le.1 hbig)] at hcount
        cases hcount
        exact hlen
    exact ⟨_, by simp only [ok_bind, failIf, if_pos hlong]; rfl⟩

/-- What is written of an undo list is read back: the same names in the same order, whether they
existed, and the states of those that did. -/
def ReadsBack (entries : List NameUndoEntry) : Prop :=
  ∃ bytes, dbSerializeNameUndo entries = .ok bytes ∧
    dbDeserializeNameUndo bytes = .ok (entries.map (·.written))

lemma readsBack_iff (h : ∀ e ∈ entries, e.Writable) :
    ReadsBack entries ↔ entries.length ≤ maxNameUndoEntries := by
  constructor
  · rintro ⟨bytes, hbytes, hread⟩
    by_contra hlen
    obtain ⟨e, he⟩ := dbDeserializeNameUndo_long (not_le.1 hlen) hbytes
    rw [hread] at he
    cases he
  · exact dbDeserializeNameUndo_serialize h

end HandshakeNode
