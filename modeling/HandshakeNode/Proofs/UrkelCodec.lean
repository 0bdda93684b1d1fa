import HandshakeNode.Proofs.UrkelBits
import HandshakeNode.UrkelProof

/-!
# Encoded Urkel proofs decode to themselves

A canonical proof is one that `proveUrkel` can return: its prefixes are packed and it carries only
the fields of its type. Such a proof encodes without error, and decoding gives it back.
-/

namespace HandshakeNode

open LittleEndian List ByteBits UrkelBits

namespace Hash

lemma bit_ofBytes (h : s.length ≤ 32) (i : ℕ) : bit (ofBytes s).bytes i = bit s i := by
  simp only [ofBytes, take_of_length_le h]
  exact bit_append_zeros s _ i

lemma ofBytes_take_ofBits (hl : l.length ≤ 256) (hk : l.length ≤ 8 * k)
    (hk' : k ≤ 32) : ofBytes ((ofBits l).bytes.take k) = ofBits l := by
  have hlen : ((ofBits l).bytes.take k).length = k := by
    rw [length_take, length_bytes]
    omega
  apply ext
  apply ext_bit (by simp)
  intro i _
  rw [bit_ofBytes (by omega)]
  by_cases hi : i < 8 * k
  · exact bit_take hi
  · rw [bit_of_length_le (by omega), bit_ofBits hl, getD_eq_default _ _ (by omega)]

end Hash

/-! ## Numbers, hashes and prefixes -/

lemma getUint16_append (h : n < 2 ^ 16) (s : Bytes) :
    getUint16 (leBytes 2 n ++ s) = .ok (n, s) := by
  unfold getUint16
  rw [sliceAt_append (length_leBytes 2 n)]
  simp only [ok_bind, leNat_leBytes_of_lt (show n < 256 ^ 2 by omega)]
  rfl

lemma readHash_append (h : Hash) (s : Bytes) : readHash (h.bytes ++ s) = .ok (h, s) := by
  unfold readHash
  rw [sliceAt_append h.length_bytes]
  simp only [ok_bind, Hash.ofBytes_bytes]
  rfl

lemma longSize (h : n ≤ 256) : ((0x80 : UInt8) ||| UInt8.ofNat (n >>> 8)).toNat &&& 0x80 ≠ 0 ∧
      (((((0x80 : UInt8) ||| UInt8.ofNat (n >>> 8)).toNat &&& 0x7f) <<< 8) |||
        (UInt8.ofNat n).toNat) = n := by
  rcases (show n < 256 ∨ n = 256 by omega) with hlt | rfl
  · have hhigh : n >>> 8 = 0 := by
      omega
    have hlow : (UInt8.ofNat n).toNat = n := by
      rw [UInt8.toNat_ofNat', Nat.mod_eq_of_lt (by omega)]
    rw [hhigh, hlow]
    exact ⟨by decide, Nat.zero_or n⟩
  · decide

lemma shortSize : ∀ n < 128, n &&& 0x80 = 0 := by
  decide

lemma leNat_singleton (b : UInt8) : leNat [b] = b.toNat := by simp [leNat]

lemma sliceAt_cons (b : UInt8) (s : Bytes) : sliceAt (b :: s) 1 = .ok ([b], s) :=
  sliceAt_append (s := [b]) rfl

section

variable {l : List Bool}

lemma appendUrkelProofBits_ok (hl : l.length ≤ 256) :
    appendUrkelProofBits (ofList l) =
      .ok ((if l.length ≥ 0x80 then [(0x80 : UInt8) ||| UInt8.ofNat (l.length >>> 8)] else []) ++
        UInt8.ofNat l.length :: (Hash.ofBits l).bytes.take ((l.length + 7) / 8)) := by
  unfold appendUrkelProofBits
  rw [sliceAt_of_le]
  · rfl
  · simp only [ofList, byteSize, Hash.length_bytes]
    omega

lemma readUrkelProofBitsSize_append (hl : l.length ≤ 256) (s : Bytes) :
    readUrkelProofBitsSize
        ((if l.length ≥ 0x80 then [(0x80 : UInt8) ||| UInt8.ofNat (l.length >>> 8)] else []) ++
          UInt8.ofNat l.length :: s) = .ok (l.length, s) := by
  unfold readUrkelProofBitsSize
  by_cases hlong : l.length ≥ 0x80
  · obtain ⟨hflag, hsize⟩ := longSize hl
    simp only [if_pos hlong, cons_append, nil_append]
    rw [sliceAt_cons]
    simp only [ok_bind, leNat_singleton, if_pos hflag]
    rw [sliceAt_cons]
    simp only [ok_bind, leNat_singleton, hsize]
    rfl
  · have hto : (UInt8.ofNat l.length).toNat = l.length := by
      rw [UInt8.toNat_ofNat', Nat.mod_eq_of_lt (by omega)]
    simp only [if_neg hlong, nil_append]
    rw [failIf_of_not (by simp), sliceAt_cons]
    simp [leNat_singleton, hto, shortSize l.length (by omega)]

lemma readUrkelProofBits_append (hl : l.length ≤ 256) :
    ∃ bits, appendUrkelProofBits (ofList l) = .ok bits ∧
      bits.length = urkelProofBitsSize (ofList l) ∧
      ∀ s, readUrkelProofBits (bits ++ s) = .ok (ofList l, s) := by
  have hdata : ((Hash.ofBits l).bytes.take ((l.length + 7) / 8)).length = (l.length + 7) / 8 := by
    rw [length_take, Hash.length_bytes]
    omega
  refine ⟨_, appendUrkelProofBits_ok hl, ?_, fun s => ?_⟩
  · simp only [urkelProofBitsSize, byteSize, ofList]
    by_cases hlong : 0x80 ≤ l.length
    · simp [hlong]
      omega
    · simp [hlong]
      omega
  · unfold readUrkelProofBits
    rw [append_assoc, cons_append, readUrkelProofBitsSize_append hl]
    simp only [ok_bind]
    rw [failIf_of_not (by unfold urkelKeyBits; omega), failIf_of_not (by simp [hdata]),
      sliceAt_append hdata]
    simp only [ok_bind, Hash.ofBytes_take_ofBits (k := (l.length + 7) / 8) hl (by omega) (by omega)]
    rfl

end

def UrkelProofNode.Packed (node : UrkelProofNode) : Prop :=
  ∃ l : List Bool, l.length ≤ 256 ∧ node.pre = ofList l

lemma UrkelProofNode.Packed.size_le {node : UrkelProofNode} (h : node.Packed) :
    node.pre.size ≤ 256 := by
  obtain ⟨l, hl, hpre⟩ := h
  rw [hpre]
  exact hl

lemma urkelHasBit_of_lt (h : i < 8 * bs.length) : urkelHasBit bs i = .ok (bit bs i) := by
  have hi : i / 8 < bs.length := by omega
  unfold urkelHasBit bit
  rw [List.getElem?_eq_getElem hi, getD_eq_getElem _ _ hi]

lemma readUrkelProofNodePrefix_write {node : UrkelProofNode} (hpacked : node.Packed)
    (hi : i < 8 * bitMap.length) (hclear : bit bitMap i = false) :
    ∃ bitMap' bytes, writeUrkelProofNodePrefix node.pre i bitMap = .ok (bitMap', bytes) ∧
      bitMap'.length = bitMap.length ∧
      bytes.length = (if node.pre.size ≠ 0 then urkelProofBitsSize node.pre else 0) ∧
      (∀ j ≠ i, bit bitMap' j = bit bitMap j) ∧
      ∀ s, readUrkelProofNodePrefix (bit bitMap' i) (bytes ++ s) = .ok (node.pre, s) := by
  obtain ⟨l, hl, hpre⟩ := hpacked
  unfold writeUrkelProofNodePrefix
  by_cases hsize : node.pre.size = 0
  · have hempty : node.pre = .empty := by
      rw [hpre] at hsize ⊢
      rw [length_eq_zero_iff.1 hsize]
      rfl
    refine ⟨bitMap, [], by simp [hsize], rfl, by simp [hsize], fun _ _ => rfl, fun s => ?_⟩
    rw [hclear, hempty]
    rfl
  · obtain ⟨bits, hbits, hlen, hread⟩ := readUrkelProofBits_append hl
    rw [← hpre] at hbits hlen hread
    refine ⟨setBit bitMap i, bits, ?_, by simp, by simp [hsize, hlen], fun j hj => ?_, fun s => ?_⟩
    · rw [if_pos hsize, urkelSetBit, if_pos (by omega), hbits]
      rfl
    · rw [bit_setBit hi]
      simp [hj.symm]
    · rw [bit_setBit hi]
      simp only [readUrkelProofNodePrefix, hread, ok_bind,
        failIf_of_not hsize]
      rfl

lemma readUrkelProofNodes_write : ∀ nodes (i : ℕ) (bitMap : Bytes),
    (∀ node ∈ nodes, node.Packed) → i + nodes.length ≤ 8 * bitMap.length →
    (∀ j, i ≤ j → bit bitMap j = false) →
    ∃ bitMap' body, writeUrkelProofNodes nodes i bitMap = .ok (bitMap', body) ∧
      bitMap'.length = bitMap.length ∧
      body.length = (nodes.map fun node =>
        (if node.pre.size ≠ 0 then urkelProofBitsSize node.pre else 0) + 32).sum ∧
      (∀ j < i, bit bitMap' j = bit bitMap j) ∧
      ∀ s, readUrkelProofNodes bitMap' nodes.length i (body ++ s) = .ok (nodes, s)
  | [], i, bitMap, _, _, _ => ⟨bitMap, [], rfl, rfl, rfl, fun _ _ => rfl, fun _ => rfl⟩
  | node :: nodes, i, bitMap, hpacked, hlen, hclear => by
    rw [length_cons] at hlen
    obtain ⟨bitMap1, bytes, hwrite1, hlen1, hbytes, hother, hread1⟩ :=
      readUrkelProofNodePrefix_write (hpacked node mem_cons_self) (by omega) (hclear i le_rfl)
    obtain ⟨bitMap', body, hwrite, hlen', hbody, hbelow, hread⟩ :=
      readUrkelProofNodes_write nodes (i + 1) bitMap1
        (fun n hn => hpacked n (mem_cons_of_mem _ hn)) (by omega)
        fun j hj => by rw [hother j (by omega), hclear j (by omega)]
    refine ⟨bitMap', bytes ++ node.node.bytes ++ body, ?_, by omega, ?_, ?_, fun s => ?_⟩
    · simp only [writeUrkelProofNodes, hwrite1, hwrite, ok_bind]
      rfl
    · simp [hbytes, hbody]
      omega
    · intro j hj
      rw [hbelow j (by omega), hother j (by omega)]
    · rw [length_cons, readUrkelProofNodes, urkelHasBit_of_lt (by omega), hbelow i (by omega)]
      simp only [ok_bind, append_assoc, hread1]
      rw [failIf_of_not (by simp), readHash_append]
      simp only [ok_bind, hread]
      rfl

namespace UrkelProof

/-- A proof that carries packed prefixes and only the fields of its type. -/
inductive Canonical : UrkelProof → Prop
  | deadend {depth nodes} : Canonical { typ := .deadend, depth, nodes }
  | short {depth nodes l left right} (ne : l ≠ []) (len : l.length ≤ 256) :
      Canonical { typ := .short, depth, nodes, pre := ofList l, left, right }
  | collision {depth nodes key valueHash} :
      Canonical { typ := .collision, depth, nodes, key, valueHash }
  | existing {depth nodes value} (ne : value ≠ []) (len : value.length ≤ maxUrkelProofValue) :
      Canonical { typ := .existing, depth, nodes, value := some value }

variable {p : UrkelProof}

lemma Canonical.readTail_writeTail (h : p.Canonical) :
    ∃ tail, p.writeTail = .ok tail ∧ tail.length = p.tailSize ∧
      readTail { typ := p.typ, depth := p.depth, nodes := p.nodes } tail = .ok (p, []) := by
  cases h with
  | deadend => exact ⟨[], rfl, rfl, rfl⟩
  | @short depth nodes l left right ne len =>
    obtain ⟨bits, hbits, hlen, hread⟩ := readUrkelProofBits_append len
    have hsize : (ofList l).size ≠ 0 := fun h => ne (length_eq_zero_iff.1 h)
    refine ⟨bits ++ left.bytes ++ right.bytes, ?_, ?_, ?_⟩
    · simp only [writeTail, hbits]
      rfl
    · simp [tailSize, hlen]
    · simp only [readTail, append_assoc, hread, ok_bind]
      rw [failIf_of_not hsize, failIf_of_not (by simp)]
      rw [readHash_append]
      simp only [ok_bind]
      rw [← append_nil right.bytes, readHash_append]
      rfl
  | @collision depth nodes key valueHash =>
    refine ⟨_, rfl, by simp [tailSize], ?_⟩
    simp only [readTail]
    rw [failIf_of_not (by simp), readHash_append]
    simp only [ok_bind]
    rw [← append_nil valueHash.bytes, readHash_append]
    rfl
  | @existing depth nodes value ne len =>
    have hsize : value.length < 2 ^ 16 := by
      unfold maxUrkelProofValue at len
      omega
    refine ⟨_, rfl, by simp [tailSize], ?_⟩
    simp only [readTail, Option.getD_some]
    have hlen : ¬ (LittleEndian.leBytes 2 value.length ++ value).length < 2 := by
      rw [length_append, LittleEndian.length_leBytes]
      omega
    rw [failIf_of_not hlen, getUint16_append hsize]
    simp only [ok_bind]
    rw [failIf_of_not (by simp), ← append_nil value, sliceAt_append (by simp)]
    simp [appendNil, ne]

lemma Canonical.isSane (h : p.Canonical) (hdepth : p.depth ≤ 256) (hnodes : p.nodes.length ≤ 256)
    (hpacked : ∀ node ∈ p.nodes, node.Packed) : p.isSane = true := by
  have hall : p.nodes.all (fun node => node.pre.size ≤ urkelKeyBits) = true := by
    rw [all_eq_true]
    intro node hmem
    obtain ⟨l, hl, hpre⟩ := hpacked node hmem
    simp only [hpre, decide_eq_true_eq]
    exact hl
  unfold UrkelProof.isSane
  cases h with
  | deadend | collision | existing ne len => simp_all [urkelKeyBits]
  | short ne len =>
    have := length_pos_iff.2 ne
    simp_all [urkelKeyBits, ofList]

lemma ofCode_field (p : UrkelProof) (hdepth : p.depth ≤ 256) (htyp : p.typ ≠ .unknown) :
    (p.typ.code <<< 14 ||| p.depth) < 2 ^ 16 ∧
      UrkelProofType.ofCode ((p.typ.code <<< 14 ||| p.depth) >>> 14) = p.typ ∧
      (p.typ.code <<< 14 ||| p.depth) % 2 ^ 14 = p.depth := by
  have hor : p.typ.code <<< 14 ||| p.depth = 2 ^ 14 * p.typ.code + p.depth := by
    rw [Nat.two_pow_add_eq_or_of_lt (by omega), Nat.shiftLeft_eq, Nat.mul_comm]
  rw [hor, Nat.shiftRight_eq_div_pow]
  have hdiv : (2 ^ 14 * p.typ.code + p.depth) / 2 ^ 14 = p.typ.code := by omega
  have hmod : (2 ^ 14 * p.typ.code + p.depth) % 2 ^ 14 = p.depth := by omega
  rw [hdiv, hmod]
  cases hcode : p.typ with
  | unknown => exact absurd hcode htyp
  | _ => exact ⟨by simp only [UrkelProofType.code]; omega, rfl, rfl⟩

lemma Canonical.decode_encode (h : p.Canonical) (hdepth : p.depth ≤ 256)
    (hnodes : p.nodes.length ≤ 256) (hpacked : ∀ node ∈ p.nodes, node.Packed) :
    ∃ enc, p.encode = .ok enc ∧ decodeUrkelProof enc = .ok p := by
  have htyp : p.typ ≠ .unknown := by cases h <;> simp
  have hsane := h.isSane hdepth hnodes hpacked
  obtain ⟨hfield, hcode, hmod⟩ := ofCode_field p hdepth htyp
  obtain ⟨tail, hwtail, htaillen, hrtail⟩ := h.readTail_writeTail
  have hmap : p.nodes.length ≤ 8 * ((p.nodes.length + 7) / 8) := by omega
  obtain ⟨bitMap, body, hwrite, hmaplen, hbody, -, hread⟩ := readUrkelProofNodes_write p.nodes 0
    (List.replicate ((p.nodes.length + 7) / 8) 0) hpacked (by simpa using hmap)
    (fun j _ => bit_replicate_zero _ j)
  rw [length_replicate] at hmaplen
  refine ⟨leBytes 2 (p.typ.code <<< 14 ||| p.depth) ++ leBytes 2 p.nodes.length ++ bitMap ++ body
    ++ tail, ?_, ?_⟩
  · have hsize : ¬ (leBytes 2 (p.typ.code <<< 14 ||| p.depth) ++ leBytes 2 p.nodes.length ++ bitMap ++
        body ++ tail).length ≠ p.serializedSize := by
      simp only [length_append, length_leBytes, hmaplen, hbody, htaillen, serializedSize, not_not]
    unfold encode
    rw [failIf_of_not (by simp [hsane])]
    simp only [ok_bind, hwrite, hwtail, failIf_of_not hsize]
    rfl
  · unfold decodeUrkelProof
    simp only [append_assoc]
    rw [failIf_of_not (by simp only [length_append, length_leBytes]; omega),
      getUint16_append hfield]
    simp only [ok_bind, hcode, hmod]
    rw [failIf_of_not (by unfold urkelKeyBits; omega), getUint16_append (by omega)]
    simp only [ok_bind]
    rw [failIf_of_not (by unfold urkelKeyBits; omega), failIf_of_not (by simp [hmaplen])]
    simp only [ok_bind, sliceAt_append hmaplen, hread, hrtail]
    rw [failIf_of_not (by simp), failIf_of_not (by simp [hsane])]
    rfl

end UrkelProof

end HandshakeNode
