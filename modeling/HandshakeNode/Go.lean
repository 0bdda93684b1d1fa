import HandshakeNode.Lib.LittleEndian
import Mathlib.Data.Finmap

/-!
# What a call returns

A call of the node returns a value or one of its errors. A run-time panic (an index or a slice out
of range) is an error of its own, so that a call which never panics can be told from one that
checks before it reads.
-/

namespace HandshakeNode

abbrev Bytes := List UInt8

/-- The codes of `RuleError` that the modelled calls return. -/
inductive ErrorCode where
  | duplicateBlock
  | previousBlockUnknown
  | invalidAncestorBlock
  | knownInvalidBlock
  | noTxInputs
  | noTxOutputs
  | txTooBig
  | badTxOutValue
  | duplicateTxInputs
  | badTxInput
  | badCoinbaseScriptLen
  | missingTxOut
  | immatureSpend
  | spendTooHigh
  | badFees
  | badCoinbaseValue
  | tooManySigOps
  | badNameRoot
  | invalidCovenant
  | scriptMalformed
  | scriptValidation
deriving DecidableEq, Repr

/-- The codes of `txscript.Error` that the modelled calls return. -/
inductive ScriptErrorCode where
  | numberTooBig
  | invalidStackOperation
  | minimalData
  | discourageUpgradableNOPs
  | negativeLockTime
  | unsatisfiedLockTime
  | tapscriptCheckMultisig
  | invalidPubKeyCount
  | invalidSignatureCount
  | tooManyOperations
  | sigNullDummy
  | nonConstScriptCode
  | nullFail
  | evalFalse
deriving DecidableEq, Repr

inductive Err where
  | rule (code : ErrorCode) (description : String)
  | script (code : ScriptErrorCode) (description : String)
  | assert (description : String)
  | deserialize (description : String)
  | message (func description : String)
  /-- A `database.Error` with code `ErrCorruption`. -/
  | corruption (description : String)
  /-- A `database.Error` with code `ErrBlockNotFound`. -/
  | blockNotFound (description : String)
  | unsupportedHnsMsgType (messageType : UInt8)
  | eof
  | unexpectedEOF
  /-- An error made by `errors.New` or `fmt.Errorf`. -/
  | plain (text : String)
  | panic (text : String)
deriving DecidableEq, Repr

/-- What `Error()` returns. -/
def Err.text : Err → String
  | rule _ description => description
  | script _ description => description
  | assert description => "assertion failed: " ++ description
  | deserialize description => description
  | message func description => if func = "" then description else func ++ ": " ++ description
  | corruption description => description
  | blockNotFound description => description
  | unsupportedHnsMsgType t => "unsupported handshake message type: " ++ toString t
  | eof => "EOF"
  | unexpectedEOF => "unexpected EOF"
  | plain text => text
  | panic text => text

abbrev Result := Except Err

/-- `fmt.Errorf("context: %w", err)` around a call; a panic is no error and passes through. -/
def wrapErr {α : Type} (context : String) : Result α → Result α
  | .ok a => .ok a
  | .error (.panic text) => .error (.panic text)
  | .error e => .error (.plain (context ++ ": " ++ e.text))

/-- `panic(context + err.Error())` when the call returns an error. -/
def orPanic {α : Type} (context : String) (r : Result α) : Result α :=
  r.mapError fun e => .panic (context ++ e.text)

def NoPanic {α : Type*} (r : Result α) : Prop := ∀ text, r ≠ .error (.panic text)

/-- `if c { return err }`. -/
def failIf (c : Prop) [Decidable c] (e : Err) : Result Unit := if c then .error e else .ok ()

abbrev GoMap (K V : Type) := Finmap fun _ : K => V

lemma keys_insert [DecidableEq K] (m : GoMap K V) (key : K) (value : V) :
    (m.insert key value).keys = insert key m.keys := by
  ext k
  simp [Finmap.mem_keys]

/-- The order in which a `range` statement visits a set of map keys. Go leaves it open, so every
result holds for all of them. -/
structure RangeOrder (K : Type) where
  list : Finset K → List K
  nodup : ∀ s, (list s).Nodup
  mem_iff : ∀ s k, k ∈ list s ↔ k ∈ s

/-- `s[:n]` and `s[n:]`, which panic when `s` is shorter. -/
def sliceAt (s : Bytes) (n : ℕ) : Result (Bytes × Bytes) :=
  if s.length < n then .error (.panic "slice bounds out of range") else .ok (s.take n, s.drop n)

/-- `append([]byte(nil), s...)`, which is nil when `s` is empty. -/
def appendNil (s : Bytes) : Option Bytes := if s = [] then none else some s

lemma sliceAt_append (h : s.length = n) :
    sliceAt (s ++ r) n = .ok (s, r) := by
  subst h
  simp [sliceAt]

lemma sliceAt_of_le (h : n ≤ s.length) :
    sliceAt s n = .ok (s.take n, s.drop n) := by
  simp [sliceAt, h]

lemma noPanic_sliceAt (h : n ≤ s.length) : NoPanic (sliceAt s n) := by
  simp [sliceAt_of_le h, NoPanic]

section

variable {α β : Type} {x : Result α} {c : Prop}

@[simp] lemma ok_bind (a : α) (f : α → Result β) : ((.ok a : Result α) >>= f) = f a := rfl

@[simp] lemma error_bind (e : Err) (f : α → Result β) :
    ((.error e : Result α) >>= f) = .error e := rfl

lemma bind_eq_ok : (x >>= f) = .ok b ↔ ∃ a, x = .ok a ∧ f a = .ok b := by
  cases x with
  | error e => simp
  | ok a => simp

@[simp] lemma pure_eq_ok : (pure a : Result α) = .ok b ↔ a = b :=
  ⟨Except.ok.inj, fun h => h ▸ rfl⟩

@[simp] lemma failIf_eq_ok [Decidable c] : failIf c e = .ok u ↔ ¬ c := by
  unfold failIf
  split_ifs with h <;> simp [h]

lemma exists_failIf_ok [Decidable c] {e : Err} {p : Unit → Prop} :
    (∃ u, failIf c e = .ok u ∧ p u) ↔ ¬ c ∧ p () := by
  simp [Unique.exists_iff]

lemma failIf_of_not [Decidable c] (h : ¬ c) (e : Err) : failIf c e = .ok () :=
  failIf_eq_ok.2 h

@[simp] lemma wrapErr_eq_ok : wrapErr context x = .ok a ↔ x = .ok a := by
  unfold wrapErr
  split <;> simp

@[simp] lemma orPanic_eq_ok : orPanic context x = .ok a ↔ x = .ok a := by
  cases x <;> simp [orPanic, Except.mapError]

lemma exists_ok_of_any (h : x.toOption.any p = true) :
    ∃ a, x = .ok a ∧ p a = true := by
  cases x with
  | error e => cases h
  | ok a => exact ⟨a, rfl, h⟩

lemma exists_ok_of_isOk (h : x.isOk = true) : ∃ a, x = .ok a := by
  cases x with
  | error e => cases h
  | ok a => exact ⟨a, rfl⟩

lemma noPanic_ok (a : α) : NoPanic (.ok a : Result α) := by simp [NoPanic]

lemma noPanic_plain (text : String) : NoPanic (.error (.plain text) : Result α) := by
  simp [NoPanic]

lemma NoPanic.bind (hx : NoPanic x) (hf : ∀ a, x = .ok a → NoPanic (f a)) :
    NoPanic (x >>= f) := by
  cases x with
  | error e => exact fun text h => hx text (by simpa using h)
  | ok a => exact hf a rfl

/-- A guard with an error of its own never panics, and what follows may rely on it. -/
theorem noPanic_guard_bind [Decidable c] {e : Err} {f : Unit → Result β}
    (he : NoPanic (.error e : Result β)) (hf : ¬ c → NoPanic (f ())) :
    NoPanic (failIf c e >>= f) := by
  unfold failIf
  split_ifs with h
  · exact he
  · exact hf h

lemma noPanic_failIf_bind [Decidable c] {text : String} {f : Unit → Result β}
    (hf : ¬ c → NoPanic (f ())) : NoPanic (failIf c (.plain text) >>= f) :=
  noPanic_guard_bind (noPanic_plain text) hf

end

end HandshakeNode
