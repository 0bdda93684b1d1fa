import HandshakeNode.BestState
import HandshakeNode.MsgBlock
import HandshakeNode.ScriptStack
import Mathlib.Data.List.Sort

/-!
# Jobs and shares of the Stratum server

A step of the server is what one goroutine does between two looks at what it shares with others: the
tip of the chain, and the jobs under their mutex. What follows the record of a share reads nothing
that is shared, so it is in the step that records the share.
-/

namespace HandshakeNode.Stratum

open LittleEndian

def extraNonce1Size : ℕ := 8

def extraNonce2Size : ℕ := 16

def maxJobsPerPrevBlock : ℕ := 8

structure Config where
  blockHash : BlockHeader → Hash
  shareTarget : ℕ
  /-- What `%s` prints of a time. -/
  timeText : Int64 → String
  /-- `ProcessBlock` is set. -/
  hasProcessBlock : Bool

/-- A byte under `%#U`. -/
def runeText (c : UInt8) : String :=
  "U+00" ++ (hexOf [c]).toUpper ++
    if (0x20 ≤ c ∧ c ≤ 0x7e) ∨ (0xa1 ≤ c ∧ c ≠ 0xad) then
      " '" ++ String.singleton (Char.ofNat c.toNat) ++ "'"
    else ""

def hexValue (c : UInt8) : Result UInt8 :=
  if 48 ≤ c ∧ c ≤ 57 then .ok (c - 48)
  else if 97 ≤ c ∧ c ≤ 102 then .ok (c - 87)
  else if 65 ≤ c ∧ c ≤ 70 then .ok (c - 55)
  else .error (.plain ("encoding/hex: invalid byte: " ++ runeText c))

/-- `hex.Decode`. The last digit of an odd number is looked at before the length is refused. -/
def decodeHex : Bytes → Result Bytes
  | [] => .ok []
  | [c] => do
    let _ ← hexValue c
    .error (.plain "encoding/hex: odd length hex string")
  | high :: low :: src => do
    let high ← hexValue high
    let low ← hexValue low
    let dst ← decodeHex src
    return (high * 16 + low) :: dst

/-- `hex.DecodeString`. -/
def decodeString (s : String) : Result Bytes := decodeHex s.toUTF8.data.toList

structure Job where
  seq : UInt64
  block : MsgBlock
deriving DecidableEq

def Job.id (job : Job) : String := hexString job.seq.toNat

def Job.prevBlock (job : Job) : Hash := job.block.header.prevBlock

/-- The fields that a client spells. -/
structure ShareText where
  extraNonce2Hex : String
  ntimeHex : String
  nonceHex : String
deriving DecidableEq

structure Share where
  extraNonce1 : FixedBytes extraNonce1Size
  extraNonce2 : FixedBytes extraNonce2Size
  ntime : UInt64
  nonce : UInt32
deriving DecidableEq

def formatShareKey (share : Share) : String :=
  hexOf share.extraNonce1.1 ++ ":" ++ hexOf share.extraNonce2.1 ++ ":" ++
    hexOf (leBytes 8 share.ntime.toNat).reverse ++ ":" ++
    hexOf (leBytes 4 share.nonce.toNat).reverse

def Share.extraNonce (share : Share) : FixedBytes 24 :=
  ⟨share.extraNonce1.1 ++ share.extraNonce2.1, by
    rw [List.length_append, share.extraNonce1.2, share.extraNonce2.2]
    rfl⟩

/-- A share of a job. -/
structure Work where
  job : Job
  share : Share
deriving DecidableEq

def Work.block (w : Work) : MsgBlock :=
  { w.job.block with
    header := { w.job.block.header with
      extraNonce := w.share.extraNonce
      timestamp := w.share.ntime.toInt64
      nonce := w.share.nonce } }

section

variable (cfg : Config)

def Work.hashNum (w : Work) : ℕ := bigOfBytes (cfg.blockHash w.block.header).bytes

def Work.isBlock (w : Work) : Bool := (w.hashNum cfg : ℤ) ≤ compactToBig w.block.header.bits

/-- The share makes a block and there is a `ProcessBlock` to call. -/
def Work.isProcessed (w : Work) : Bool := w.isBlock cfg && cfg.hasProcessBlock

def parseFixedHex (value : String) (size : ℕ) (name : String) : Result (FixedBytes size) := do
  let decoded ← wrapErr (name ++ " must be hex") (decodeString value)
  if h : decoded.length = size then return ⟨decoded, h⟩
  else .error (.plain (name ++ " must be " ++ toString size ++ " bytes"))

def parseNTime (value : String) : Result UInt64 := do
  let decoded ← wrapErr "ntime must be hex" (decodeString value)
  failIf (decoded.length ≠ 4 ∧ decoded.length ≠ 8) (.plain "ntime must be 4 or 8 bytes")
  return UInt64.ofNat (bigOfBytes decoded)

def parseUint32Hex (value name : String) : Result UInt32 := do
  let decoded ← parseFixedHex value 4 name
  return UInt32.ofNat (bigOfBytes decoded.1)

/-- The seconds that `time.Unix` counts from year 1, which wrap around. -/
def internalSeconds (t : Int64) : Int64 := t + 62135596800

/-- `now` is the time in seconds from year 1. -/
def validateNTime (now : Int64) (job : Job) (ntime : UInt64) : Result Unit := do
  failIf (2 ^ 63 - 1 < ntime.toNat) (.plain "ntime is out of range")
  let timestamp := ntime.toInt64
  failIf (internalSeconds timestamp < internalSeconds job.block.header.timestamp)
    (.plain ("ntime " ++ cfg.timeText timestamp ++ " is before template timestamp " ++
      cfg.timeText job.block.header.timestamp))
  failIf (now + 2 * 60 * 60 < internalSeconds timestamp)
    (.plain ("ntime " ++ cfg.timeText timestamp ++ " is too far in the future"))

/-- `Submit` from its look at the tip to `recordShare`. -/
def check (now : Int64) (tip : Hash) (job : Job) (extraNonce1 : FixedBytes extraNonce1Size)
    (text : ShareText) : Result Work := do
  failIf (job.prevBlock ≠ tip) (.plain "stale job")
  let extraNonce2 ← parseFixedHex text.extraNonce2Hex extraNonce2Size "extranonce2"
  let ntime ← parseNTime text.ntimeHex
  validateNTime cfg now job ntime
  let nonce ← parseUint32Hex text.nonceHex "nonce"
  let w : Work := ⟨job, ⟨extraNonce1, extraNonce2, ntime, nonce⟩⟩
  failIf (w.isBlock cfg = false ∧ cfg.shareTarget < w.hashNum cfg)
    (.plain "share hash does not meet the configured target")
  return w

end

/-- The jobs, each with the shares that were submitted for it. -/
abbrev Jobs := List (Job × List String)

def Jobs.get (jobs : Jobs) (jobID : String) : Option (Job × List String) :=
  jobs.find? fun x => x.1.id = jobID

def pruneJobsLocked (bestHash : Hash) (jobs : Jobs) : Jobs :=
  let sameTipJobs := jobs.filter fun x => x.1.prevBlock = bestHash
  if sameTipJobs.length ≤ maxJobsPerPrevBlock then sameTipJobs
  else (sameTipJobs.insertionSort fun x y => y.1.seq ≤ x.1.seq).take maxJobsPerPrevBlock

/-- `recordShare` under the mutex. -/
def recordShare (jobs : Jobs) (w : Work) : Result Jobs :=
  match jobs.get w.job.id with
  | none => .error (.plain "unknown job")
  | some (job, submitted) => do
    failIf (job.prevBlock ≠ w.job.prevBlock) (.plain "stale job")
    failIf (formatShareKey w.share ∈ submitted) (.plain "duplicate share")
    return jobs.map fun x => if x.1.id = w.job.id then (x.1, formatShareKey w.share :: x.2) else x

/-- Where a call of `Submit` is: it has its job, or it is before or behind the look of `recordShare`
at the tip. -/
inductive Call where
  | found (job : Job) (extraNonce1 : FixedBytes extraNonce1Size) (text : ShareText)
  | checked (w : Work)
  | recording (w : Work)
deriving DecidableEq

structure Server where
  tip : Hash
  jobSeq : UInt64 := 0
  /-- The jobs that have their number and are not stored yet. -/
  pending : List Job := []
  jobs : Jobs := []
  calls : List Call := []
  /-- The jobs that were ever stored. -/
  created : List Job := []
  /-- The shares that were recorded, each with the tip at that time. -/
  recorded : List (Work × Hash) := []
  /-- The blocks that `ProcessBlock` was called with. -/
  processed : List MsgBlock := []
  accepted : List Work := []

inductive Action where
  | setTip (hash : Hash)
  /-- `createJob` up to the mutex, for the block of a template. -/
  | numberJob (block : MsgBlock)
  /-- `createJob` under the mutex, which its callers may reach in another order than the counter of
  jobs. -/
  | createJob (job : Job)
  | submit (jobID : String) (extraNonce1 : Bytes) (text : ShareText)
  /-- A call goes on; `processed` says whether `ProcessBlock` takes its block. -/
  | run (call : Call) (now : Int64) (processed : Bool)

def runCall (cfg : Config) (now : Int64) (processed : Bool) (s : Server) : Call → Server
  | .found job extraNonce1 text =>
    match check cfg now s.tip job extraNonce1 text with
    | .ok w => { s with calls := .checked w :: s.calls }
    | .error _ => s
  | .checked w =>
    if w.job.prevBlock = s.tip then { s with calls := .recording w :: s.calls } else s
  | .recording w =>
    match recordShare s.jobs w with
    | .ok jobs =>
      { s with
        jobs
        recorded := (w, s.tip) :: s.recorded
        processed := if w.isProcessed cfg then w.block :: s.processed else s.processed
        accepted := if w.isBlock cfg && !(w.isProcessed cfg && processed) then s.accepted
          else w :: s.accepted }
    | .error _ => s

def step (cfg : Config) (s : Server) : Action → Server
  | .setTip hash => { s with tip := hash }
  | .numberJob block =>
    { s with jobSeq := s.jobSeq + 1, pending := ⟨s.jobSeq + 1, block⟩ :: s.pending }
  | .createJob job =>
    if job ∈ s.pending then
      { s with
        pending := s.pending.erase job
        created := job :: s.created
        jobs := pruneJobsLocked job.prevBlock
          ((job, []) :: s.jobs.filter fun x => x.1.id ≠ job.id) }
    else s
  | .submit jobID extraNonce1 text =>
    match s.jobs.get jobID with
    | none => s
    | some (job, _) =>
      if h : extraNonce1.length = extraNonce1Size then
        { s with calls := .found job ⟨extraNonce1, h⟩ text :: s.calls }
      else s
  | .run call now processed =>
    if call ∈ s.calls then runCall cfg now processed { s with calls := s.calls.erase call } call
    else s

end HandshakeNode.Stratum
