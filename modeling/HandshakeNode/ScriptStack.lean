import HandshakeNode.Wire

/-!
# Numbers, stacks and flags of the script engine

A number on the stack is a byte string, little endian, with the sign in the top bit of the last
byte. A stack is the list of its items, the top first, so that an index counted from the top is an
index of the list.
-/

namespace HandshakeNode

open LittleEndian

def scriptError {α : Type} (code : ScriptErrorCode) (description : String) : Result α :=
  .error (.script code description)

/-- A byte string under `%x`. -/
def hexOf (b : Bytes) : String :=
  String.ofList (b.flatMap fun x => [Hash.hexDigit (x.toNat / 16), Hash.hexDigit (x.toNat % 16)])

/-- `scriptNum`, an `int64`. Operands have at most five bytes, so that no sum of two leaves it. -/
abbrev ScriptNum := ℤ

def checkMinimalDataEncoding (v : Bytes) : Result Unit :=
  match v.reverse with
  | [] => .ok ()
  | last :: before =>
    if last &&& 0x7f = 0 ∧ before.head?.all (· &&& 0x80 = 0) then
      scriptError .minimalData ("numeric value encoded as " ++ hexOf v ++
        " is not minimally encoded")
    else .ok ()

namespace ScriptNum

/-- The bytes of the absolute value, at most eight. -/
def magnitude : ℕ → ℕ → Bytes
  | 0, _ => []
  | fuel + 1, n => if n = 0 then [] else UInt8.ofNat n :: magnitude fuel (n / 256)

def bytes (n : ScriptNum) : Bytes :=
  let result := magnitude 8 n.natAbs
  match result.reverse with
  | [] => []
  | last :: before =>
    if last &&& 0x80 ≠ 0 then result ++ [if n < 0 then 0x80 else 0x00]
    else if n < 0 then before.reverse ++ [last ||| 0x80]
    else result

end ScriptNum

def makeScriptNum (v : Bytes) (requireMinimal : Bool) (scriptNumLen : ℕ) : Result ScriptNum := do
  failIf (v.length > scriptNumLen)
    (.script .numberTooBig ("numeric value encoded as " ++ hexOf v ++ " is " ++
      toString v.length ++ " bytes which exceeds the max allowed of " ++ toString scriptNumLen))
  if requireMinimal then checkMinimalDataEncoding v
  match v.getLast? with
  | none => return 0
  | some last =>
    let result : ℤ := leNat v
    if last &&& 0x80 ≠ 0 then return -(result - 0x80 * 256 ^ (v.length - 1)) else return result

structure Stack where
  stk : List Bytes := []
  verifyMinimalData : Bool := false
deriving DecidableEq

namespace Stack

def depth (s : Stack) : ℕ := s.stk.length

def errIndex {α : Type} (s : Stack) (idx : ℤ) : Result α :=
  scriptError .invalidStackOperation ("index " ++ toString idx ++ " is invalid for stack size " ++
    toString s.depth)

def peekByteArray (s : Stack) (idx : ℤ) : Result Bytes :=
  if idx < 0 then s.errIndex idx
  else
    match s.stk[idx.toNat]? with
    | none => s.errIndex idx
    | some so => .ok so

end Stack

abbrev ScriptFlags := UInt32

namespace ScriptFlags

def discourageUpgradableNops : ScriptFlags := 0x4
def verifyCheckLockTimeVerify : ScriptFlags := 0x8
def verifyCheckSequenceVerify : ScriptFlags := 0x10
def verifyWitness : ScriptFlags := 0x1000

def has (flags flag : ScriptFlags) : Bool := flags &&& flag = flag

end ScriptFlags

end HandshakeNode
