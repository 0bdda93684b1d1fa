import HandshakeNode.Names

/-!
# The stored form of names

How the state of a name and the undo list of a block are written and read. A state starts with the
name, the resource, two heights and a field of flags that say which of the other values follow.
-/

namespace HandshakeNode

open LittleEndian UInt32

def maxSerializedNameState : ℕ := 2048

/-- `if b { field |= 1 << k }`. -/
def setFlag (field : ℕ) (k : ℕ) (b : Bool) : ℕ := if b then field ||| 1 <<< k else field

namespace NameState

def field (ns : NameState) : ℕ :=
  let field := setFlag 0 0 (!isNullNameOwner ns.owner)
  let field := setFlag field 1 (ns.value ≠ 0)
  let field := setFlag field 2 (ns.highest ≠ 0)
  let field := setFlag field 3 (ns.transfer ≠ 0)
  let field := setFlag field 4 (ns.revoked ≠ 0)
  let field := setFlag field 5 (ns.claimed ≠ 0)
  let field := setFlag field 6 (ns.renewals ≠ 0)
  let field := setFlag field 7 ns.registered
  let field := setFlag field 8 ns.expired
  setFlag field 9 ns.weak

def optional (field k : ℕ) (bytes : Bytes) : Bytes := if field.testBit k then bytes else []

def encodeBody (ns : NameState) : Bytes :=
  UInt8.ofNat ns.name.length :: (ns.name ++ (leBytes 2 ns.data.length ++ (ns.data ++
    (leBytes 4 ns.height.toNat ++ (leBytes 4 ns.renewal.toNat ++ (leBytes 2 ns.field ++
    (optional ns.field 0 (ns.owner.hash.bytes ++ writeVarInt ns.owner.index.toNat) ++
    (optional ns.field 1 (writeVarInt ns.value.toUInt64.toNat) ++
    (optional ns.field 2 (writeVarInt ns.highest.toUInt64.toNat) ++
    (optional ns.field 3 (leBytes 4 ns.transfer.toNat) ++
    (optional ns.field 4 (leBytes 4 ns.revoked.toNat) ++
    (optional ns.field 5 (leBytes 4 ns.claimed.toNat) ++
    optional ns.field 6 (writeVarInt ns.renewals.toNat)))))))))))))

def encode (ns : NameState) : Result Bytes := do
  failIf (ns.name.length > maxNameSize) (.plain ("name length " ++ toString ns.name.length ++
    " exceeds max " ++ toString maxNameSize))
  failIf (ns.data.length > maxResourceSize) (.plain ("name resource length " ++
    toString ns.data.length ++ " exceeds max " ++ toString maxResourceSize))
  failIf (ns.value < 0 ∨ ns.highest < 0) (.plain "name values must be non-negative")
  return ns.encodeBody

end NameState

/-- Two states are equal when both can be written and are written alike. -/
def nameStatesEqual (a b : NameState) : Bool :=
  match a.encode, b.encode with
  | .ok encodedA, .ok encodedB => encodedA = encodedB
  | _, _ => false

section

variable {α : Type}

def readOptional (field k : ℕ) (default : α) (read : Bytes → Result (α × Bytes)) (s : Bytes) :
    Result (α × Bytes) :=
  if field.testBit k then read s else .ok (default, s)

def readNameBytes (n : ℕ) (s : Bytes) : Result (Bytes × Bytes) := do
  failIf (s.length < n) (.deserialize "truncated name state")
  sliceAt s n

def readNameU32 (s : Bytes) : Result (UInt32 × Bytes) := do
  let (bytes, s) ← readNameBytes 4 s
  return (ofNat (leNat bytes), s)

/-- `readNameVarInt` with the check of its range. -/
def readNameVarInt (max : ℕ) (message : String) (s : Bytes) : Result (ℕ × Bytes) := do
  let (value, s) ← readVarInt s
  failIf (value > max) (.deserialize message)
  return (value, s)

def readNameOwner (s : Bytes) : Result (OutPoint × Bytes) := do
  let (hash, s) ← readNameBytes 32 s
  let (index, s) ← readNameVarInt 0xffffffff "name owner index overflows uint32" s
  return (⟨Hash.ofBytes hash, ofNat index⟩, s)

def readNameInt64 (message : String) (s : Bytes) : Result (Int64 × Bytes) := do
  let (value, s) ← readNameVarInt 0x7fffffffffffffff message s
  return (Int64.ofNat value, s)

def readNameRenewals (s : Bytes) : Result (UInt32 × Bytes) := do
  let (renewals, s) ← readNameVarInt 0xffffffff "name renewals overflow uint32" s
  return (ofNat renewals, s)

def readName (s : Bytes) : Result (Bytes × Bytes) :=
  match s with
  | [] => .error (.deserialize "missing name length")
  | b :: s => do
    failIf (b.toNat > maxNameSize ∨ s.length < b.toNat + 2) (.deserialize "corrupt name state name")
    sliceAt s b.toNat

/-- The resource, which is followed by ten more bytes. -/
def readResource (s : Bytes) : Result (Bytes × Bytes) := do
  let (dataLen, s) ← sliceAt s 2
  failIf (leNat dataLen > maxResourceSize ∨ s.length < leNat dataLen + 10)
    (.deserialize "corrupt name state data")
  sliceAt s (leNat dataLen)

end

def decodeNameState (nameHash : Hash) (serialized : Bytes) : Result NameState := do
  let (name, s) ← readName serialized
  let (data, s) ← readResource s
  let (height, s) ← sliceAt s 4
  let (renewal, s) ← sliceAt s 4
  let (field, s) ← sliceAt s 2
  let field := leNat field
  let (owner, s) ← readOptional field 0 nullNameOwner readNameOwner s
  let (value, s) ← readOptional field 1 0 (readNameInt64 "name value overflows int64") s
  let (highest, s) ← readOptional field 2 0 (readNameInt64 "name highest overflows int64") s
  let (transfer, s) ← readOptional field 3 0 readNameU32 s
  let (revoked, s) ← readOptional field 4 0 readNameU32 s
  let (claimed, s) ← readOptional field 5 0 readNameU32 s
  let (renewals, s) ← readOptional field 6 0 readNameRenewals s
  failIf (s.length ≠ 0) (.deserialize "trailing bytes in name state")
  return { nameHash, name, height := ofNat (leNat height),
           renewal := ofNat (leNat renewal), owner, value, highest, data, transfer, revoked,
           claimed, renewals, registered := field.testBit 7, expired := field.testBit 8,
           weak := field.testBit 9 }

structure NameUndoEntry where
  nameHash : Hash
  existed : Bool
  state : Option NameState
deriving DecidableEq

def serializeUndoEntry (entry : NameUndoEntry) : Result Bytes :=
  if entry.existed then
    match entry.state with
    | none => .error (.panic "nil pointer dereference")
    | some ns => do
      let serialized ← ns.encode
      return entry.nameHash.bytes ++ 1 :: writeVarBytes serialized
  else .ok (entry.nameHash.bytes ++ [0])

def serializeUndoEntries : List NameUndoEntry → Result Bytes
  | [] => .ok []
  | entry :: entries => do
    let first ← serializeUndoEntry entry
    let rest ← serializeUndoEntries entries
    return first ++ rest

def dbSerializeNameUndo (entries : List NameUndoEntry) : Result Bytes := do
  let body ← serializeUndoEntries entries
  return writeVarInt entries.length ++ body

def readUndoState (nameHash : Hash) (r : Bytes) : Result (NameUndoEntry × Bytes) := do
  let (stateBytes, r) ← readVarBytes r maxSerializedNameState "name undo state"
  let ns ← decodeNameState nameHash stateBytes
  return (⟨nameHash, true, some ns⟩, r)

def readUndoEntry (r : Bytes) : Result (NameUndoEntry × Bytes) := do
  let (hash, r) ← readFull r 32
  match r with
  | [] => .error .eof
  | existed :: r =>
    if existed = 0 then .ok (⟨Hash.ofBytes hash, false, none⟩, r)
    else if existed = 1 then readUndoState (Hash.ofBytes hash) r
    else .error (.deserialize "corrupt name undo entry")

def readUndoEntries : ℕ → Bytes → Result (List NameUndoEntry × Bytes)
  | 0, r => .ok ([], r)
  | count + 1, r => do
    let (entry, r) ← readUndoEntry r
    let (entries, r) ← readUndoEntries count r
    return (entry :: entries, r)

def maxNameUndoEntries : ℕ := maxBlockNameUpdates + maxBlockNameRenewals + maxBlockNameOpens

def dbDeserializeNameUndo (serialized : Bytes) : Result (List NameUndoEntry) := do
  let (count, r) ← readVarInt serialized
  failIf (count > maxNameUndoEntries) (.deserialize "too many name undo entries")
  let (entries, r) ← readUndoEntries count r
  failIf (r.length ≠ 0) (.deserialize "trailing bytes in name undo")
  return entries

end HandshakeNode
