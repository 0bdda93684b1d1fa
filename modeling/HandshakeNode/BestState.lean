import HandshakeNode.Wire

/-!
# The record of the best state

`serializeBestChainState` stores the hash and height of the tip, the number of transactions up to it
and the work up to it; the work of a block comes from the bits of its header.
-/

namespace HandshakeNode

open LittleEndian List

/-- `CompactToBig`: a byte of exponent, a sign bit and a mantissa of 23 bits. -/
def compactToBig (compact : UInt32) : ℤ :=
  let mantissa := (compact &&& 0x007fffff).toNat
  let exponent := (compact >>> 24).toNat
  let bn := if exponent ≤ 3 then mantissa >>> (8 * (3 - exponent))
    else mantissa <<< (8 * (exponent - 3))
  if compact &&& 0x00800000 ≠ 0 then -(bn : ℤ) else bn

def calcWork (bits : UInt32) : ℕ :=
  let difficultyNum := compactToBig bits
  if difficultyNum ≤ 0 then 0 else 2 ^ 256 / (difficultyNum + 1).toNat

/-- `big.Int.Bytes`: the most significant byte first, without leading zeros. -/
def bigBytes (n : ℕ) : Bytes := (leBytes (if n = 0 then 0 else n.log2 / 8 + 1) n).reverse

/-- `BigToCompact`: the leading three bytes are the mantissa, two where its sign bit would be set. -/
def bigToCompact (n : ℤ) : UInt32 :=
  if n = 0 then 0 else
  let exponent := (bigBytes n.natAbs).length
  let mantissa := UInt32.ofNat <| if exponent ≤ 3 then n.natAbs <<< (8 * (3 - exponent))
    else (n >>> (8 * (exponent - 3))).natAbs
  let (mantissa, exponent) := if mantissa &&& 0x00800000 ≠ 0 then (mantissa >>> 8, exponent + 1)
    else (mantissa, exponent)
  let compact := UInt32.ofNat (exponent <<< 24) ||| mantissa
  if n < 0 then compact ||| 0x00800000 else compact

def bigOfBytes (b : Bytes) : ℕ := leNat b.reverse

structure BestChainState where
  hash : Hash
  height : UInt32
  totalTxns : UInt64
  workSum : ℕ
deriving DecidableEq

def serializeBestChainState (state : BestChainState) : Bytes :=
  let workSumBytes := bigBytes state.workSum
  state.hash.bytes ++ (leBytes 4 state.height.toNat ++ (leBytes 8 state.totalTxns.toNat ++
    (leBytes 4 workSumBytes.length ++ workSumBytes)))

def deserializeBestChainState (serializedData : Bytes) : Result BestChainState := do
  failIf (serializedData.length < 32 + 16) (.corruption "corrupt best chain state")
  let height := leNat ((serializedData.drop 32).take 4)
  let totalTxns := leNat ((serializedData.drop 36).take 8)
  let workSumBytesLen := leNat ((serializedData.drop 44).take 4)
  failIf ((serializedData.drop 48).length % 2 ^ 32 < workSumBytesLen)
    (.corruption "corrupt best chain state")
  return ⟨Hash.ofBytes (serializedData.take 32), UInt32.ofNat height, UInt64.ofNat totalTxns,
    bigOfBytes ((serializedData.drop 48).take workSumBytesLen)⟩

lemma bigOfBytes_bigBytes (n : ℕ) : bigOfBytes (bigBytes n) = n := by
  rw [bigOfBytes, bigBytes, reverse_reverse]
  apply leNat_leBytes_of_lt
  split_ifs with h
  · omega
  · calc n < 2 ^ (n.log2 + 1) := Nat.lt_log2_self
      _ ≤ 2 ^ (8 * (n.log2 / 8 + 1)) := Nat.pow_le_pow_right (by omega) (by omega)
      _ = 256 ^ (n.log2 / 8 + 1) := by rw [pow_mul]; rfl

lemma length_bigBytes_le {n k : ℕ} (h : n < 256 ^ k) : (bigBytes n).length ≤ k := by
  rw [bigBytes, length_reverse, length_leBytes]
  split_ifs with h0
  · omega
  · have hlog : n.log2 < 8 * k := by
      rw [Nat.log2_lt h0, pow_mul]
      exact h
    omega

lemma deserializeBestChainState_serialize (state : BestChainState)
    (h : (bigBytes state.workSum).length < 2 ^ 32) :
    deserializeBestChainState (serializeBestChainState state) = .ok state := by
  have hwork : leNat (leBytes 4 (bigBytes state.workSum).length) = (bigBytes state.workSum).length :=
    leNat_leBytes_of_lt (by omega)
  have hheight : leNat (leBytes 4 state.height.toNat) = state.height.toNat :=
    leNat_leBytes_of_lt state.height.toNat_lt
  have htotal : leNat (leBytes 8 state.totalTxns.toNat) = state.totalTxns.toNat :=
    leNat_leBytes_of_lt state.totalTxns.toNat_lt
  obtain ⟨hash, height, totalTxns, workSum⟩ := state
  set e := bigBytes workSum with he
  have h32 : (serializeBestChainState ⟨hash, height, totalTxns, workSum⟩).drop 32 =
      leBytes 4 height.toNat ++ (leBytes 8 totalTxns.toNat ++ (leBytes 4 e.length ++ e)) :=
    drop_left' hash.len
  have h36 : (serializeBestChainState ⟨hash, height, totalTxns, workSum⟩).drop 36 =
      leBytes 8 totalTxns.toNat ++ (leBytes 4 e.length ++ e) := by
    rw [show 36 = 32 + 4 from rfl, ← drop_drop, h32]
    exact drop_left' (length_leBytes _ _)
  have h44 : (serializeBestChainState ⟨hash, height, totalTxns, workSum⟩).drop 44 =
      leBytes 4 e.length ++ e := by
    rw [show 44 = 36 + 8 from rfl, ← drop_drop, h36]
    exact drop_left' (length_leBytes _ _)
  have h48 : (serializeBestChainState ⟨hash, height, totalTxns, workSum⟩).drop 48 = e := by
    rw [show 48 = 44 + 4 from rfl, ← drop_drop, h44]
    exact drop_left' (length_leBytes _ _)
  have hlen : ¬ (serializeBestChainState ⟨hash, height, totalTxns, workSum⟩).length < 32 + 16 := by
    simp [serializeBestChainState]
    omega
  rw [deserializeBestChainState, failIf_of_not hlen, h32, h36, h44, h48,
    take_left' (length_leBytes _ _), take_left' (length_leBytes _ _),
    take_left' (length_leBytes _ _), hheight, htotal, hwork, Nat.mod_eq_of_lt h]
  dsimp only
  rw [failIf_of_not (lt_irrefl _), take_length, bigOfBytes_bigBytes,
    serializeBestChainState, take_left' hash.len, Hash.ofBytes_bytes, UInt32.ofNat_toNat,
    UInt64.ofNat_toNat]
  rfl

end HandshakeNode
