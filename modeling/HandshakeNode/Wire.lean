import HandshakeNode.Go
import HandshakeNode.Lib.Bits

/-!
# The types of the wire package

Hashes, outpoints, addresses, covenants, transactions and blocks, with the fields that the modelled
calls read, and the variable-length integers and byte strings of the wire format.
-/

namespace HandshakeNode

open LittleEndian List UInt8

/-- `chainhash.Hash`: thirty-two bytes. -/
structure Hash where
  bytes : Bytes
  len : bytes.length = 32
deriving DecidableEq

namespace Hash

def zero : Hash := ⟨List.replicate 32 0, by simp⟩

instance : Inhabited Hash := ⟨zero⟩

/-- `copy(hash[:], bs)` into a zero hash. -/
def ofBytes (bs : Bytes) : Hash :=
  ⟨bs.take 32 ++ List.replicate (32 - bs.length) 0, by
    simp only [length_append, length_take, length_replicate]
    omega⟩

def hexDigit (n : ℕ) : Char := if n < 10 then Char.ofNat (48 + n) else Char.ofNat (87 + n)

instance : ToString Hash where
  toString h := String.ofList (h.bytes.flatMap fun b =>
    [hexDigit (b.toNat / 16), hexDigit (b.toNat % 16)])

/-- All the bits of a hash, the most significant bit of its first byte first. -/
def bits (h : Hash) : List Bool := ByteBits.bits h.bytes

end Hash

structure OutPoint where
  hash : Hash
  index : UInt32
deriving DecidableEq

instance : ToString OutPoint where
  toString o := toString o.hash ++ ":" ++ toString o.index

structure Address where
  version : UInt8
  hash : Bytes
deriving DecidableEq

/-- The covenant types; a type byte above `CovenantRevoke` is unknown. -/
inductive CovenantType where
  | none
  | claim
  | open
  | bid
  | reveal
  | redeem
  | register
  | update
  | renew
  | transfer
  | finalize
  | revoke
  | unknown (t : UInt8) (h : 11 < t)
deriving DecidableEq

structure Covenant where
  type : CovenantType
  items : List Bytes
deriving DecidableEq

structure TxIn where
  previousOutPoint : OutPoint
  witness : List Bytes
deriving DecidableEq

structure TxOut where
  value : Int64
  address : Address
  covenant : Covenant
deriving DecidableEq

structure Tx where
  hash : Hash
  txIn : List TxIn
  txOut : List TxOut
deriving DecidableEq

/-- `hnsutil.Block`: its hash, the header fields that are read, its height and transactions. -/
structure Block where
  hash : Hash
  prevBlock : Hash
  nameRoot : Hash
  height : Int32
  transactions : List Tx
deriving DecidableEq

def Address.isNulldata (a : Address) : Bool := a.version = 31

def Address.isUnspendable (a : Address) : Bool := a.isNulldata

def Address.witnessProgram (a : Address) : Bytes :=
  if a.version > 16 then []
  else (if a.version = 0 then 0 else 0x50 + a.version) :: ofNat a.hash.length :: a.hash

def Covenant.isUnspendable (c : Covenant) : Bool := c.type = .revoke

def maxCovenantItems : ℕ := 1000

def isNullOutpoint (o : OutPoint) : Bool := o.index = 0xffffffff && o.hash = Hash.zero

def Tx.isCoinBase (tx : Tx) : Bool :=
  match tx.txIn with
  | [] => false
  | txIn :: _ => isNullOutpoint txIn.previousOutPoint

def txOutpoint (tx : Tx) (outputIndex : ℕ) : OutPoint := ⟨tx.hash, UInt32.ofNat outputIndex⟩

/-- `io.ReadFull` of `n` bytes. -/
def readFull (r : Bytes) (n : ℕ) : Result (Bytes × Bytes) :=
  if r.length < n then .error (if r.isEmpty then .eof else .unexpectedEOF)
  else .ok (r.take n, r.drop n)

def hexString (n : ℕ) : String := String.ofList (Nat.toDigits 16 n)

def errNonCanonicalVarInt (rv discriminant min : ℕ) : Err :=
  .message "ReadVarInt" ("non-canonical varint " ++ hexString rv ++ " - discriminant " ++
    hexString discriminant ++ " must encode a value greater than " ++ hexString min)

/-- The `k`-byte number after a discriminant, refused below `min`. -/
def readVarIntTail (discriminant k min : ℕ) (r : Bytes) : Result (ℕ × Bytes) := do
  let (buf, r) ← readFull r k
  let rv := leNat buf
  failIf (rv < min) (errNonCanonicalVarInt rv discriminant min)
  return (rv, r)

def readVarInt (r : Bytes) : Result (ℕ × Bytes) := do
  let (buf, r) ← readFull r 1
  match leNat buf with
  | 0xff => readVarIntTail 0xff 8 0x100000000 r
  | 0xfe => readVarIntTail 0xfe 4 0x10000 r
  | 0xfd => readVarIntTail 0xfd 2 0xfd r
  | discriminant => return (discriminant, r)

def writeVarInt (val : ℕ) : Bytes :=
  if val < 0xfd then leBytes 1 val
  else if val ≤ 0xffff then 0xfd :: leBytes 2 val
  else if val ≤ 0xffffffff then 0xfe :: leBytes 4 val
  else 0xff :: leBytes 8 val

def varIntSerializeSize (val : ℕ) : ℕ :=
  if val < 0xfd then 1 else if val ≤ 0xffff then 3 else if val ≤ 0xffffffff then 5 else 9

def writeVarBytes (bytes : Bytes) : Bytes := writeVarInt bytes.length ++ bytes

def readVarBytes (r : Bytes) (maxAllowed : ℕ) (fieldName : String) : Result (Bytes × Bytes) := do
  let (count, r) ← readVarInt r
  failIf (count > maxAllowed) (.message "ReadVarBytes" (fieldName ++
    " is larger than the max allowed size [count " ++ toString count ++ ", max " ++
    toString maxAllowed ++ "]"))
  failIf (count > r.length) (if r.length = 0 then .eof else .unexpectedEOF)
  readFull r count

def Covenant.serializeSize (c : Covenant) : ℕ :=
  1 + varIntSerializeSize c.items.length +
    (c.items.map fun item => varIntSerializeSize item.length + item.length).sum

namespace Hash

lemma ext {h h' : Hash} (e : h.bytes = h'.bytes) : h = h' := by
  cases h
  cases e
  rfl

@[simp] lemma length_bytes (h : Hash) : h.bytes.length = 32 := h.len

@[simp] lemma length_bits (h : Hash) : h.bits.length = 256 := by simp [bits]

lemma bits_inj {h h' : Hash} (e : h.bits = h'.bits) : h = h' :=
  ext (ByteBits.bits_inj (by simp) e)

lemma ofBytes_bytes (h : Hash) : ofBytes h.bytes = h := by
  apply ext
  simp [ofBytes]

end Hash

lemma readFull_append (h : s.length = n) :
    readFull (s ++ r) n = .ok (s, r) := by
  subst h
  simp [readFull]

lemma readVarIntTail_leBytes {d k min val : ℕ} (hk : val < 256 ^ k) (hm : min ≤ val) (r : Bytes) :
    readVarIntTail d k min (leBytes k val ++ r) = .ok (val, r) := by
  unfold readVarIntTail
  rw [readFull_append (length_leBytes k val)]
  simp only [ok_bind, leNat_leBytes_of_lt hk, failIf_of_not (show ¬ val < min by omega)]
  rfl

lemma readVarInt_cons (b : UInt8) (r : Bytes) :
    readVarInt (b :: r) =
      if b = 0xff then readVarIntTail 0xff 8 0x100000000 r
      else if b = 0xfe then readVarIntTail 0xfe 4 0x10000 r
      else if b = 0xfd then readVarIntTail 0xfd 2 0xfd r
      else .ok (b.toNat, r) := by
  unfold readVarInt
  rw [← singleton_append, readFull_append (by rfl)]
  have hb : leNat [b] = b.toNat := by simp [leNat]
  simp only [ok_bind, hb, ← UInt8.toNat_inj]
  split
  · simp_all
  · simp_all
  · simp_all
  · rw [if_neg ‹_›, if_neg ‹_›, if_neg ‹_›]
    rfl

lemma readVarInt_writeVarInt {val : ℕ} (h : val < 2 ^ 64) (r : Bytes) :
    readVarInt (writeVarInt val ++ r) = .ok (val, r) := by
  unfold writeVarInt
  split_ifs with h1 h2 h3
  · have hto : (ofNat val).toNat = val := by
      rw [toNat_ofNat', Nat.mod_eq_of_lt (by omega)]
    simp only [leBytes, cons_append, nil_append, readVarInt_cons]
    rw [if_neg, if_neg, if_neg, hto]
    all_goals
      intro he
      have := congrArg toNat he
      simp at this
      omega
  · rw [cons_append, readVarInt_cons]
    exact readVarIntTail_leBytes (by omega) (by omega) r
  · rw [cons_append, readVarInt_cons]
    exact readVarIntTail_leBytes (by omega) (by omega) r
  · rw [cons_append, readVarInt_cons]
    exact readVarIntTail_leBytes (by omega) (by omega) r

lemma readVarBytes_writeVarBytes {bytes : Bytes} {max : ℕ} (fieldName : String)
    (h : bytes.length ≤ max) (hmax : max < 2 ^ 64) (r : Bytes) :
    readVarBytes (writeVarBytes bytes ++ r) max fieldName = .ok (bytes, r) := by
  unfold readVarBytes writeVarBytes
  rw [append_assoc, readVarInt_writeVarInt (by omega)]
  simp only [ok_bind]
  rw [failIf_of_not (by omega), failIf_of_not (by simp)]
  exact readFull_append rfl

end HandshakeNode
