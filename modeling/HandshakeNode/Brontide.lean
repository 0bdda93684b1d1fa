import HandshakeNode.Go

/-!
# The encrypted connection

A cipher state has a key, a salt and a nonce, and takes a new key from HKDF after a thousand uses. A
frame is two ciphertexts, the length of the payload and the payload. `Conn` writes each payload as a
frame and reads frames into a buffer; after a failure it reads and writes nothing more.

ChaCha20-Poly1305, HKDF and SHA-256 are parameters (`Suite`).
-/

namespace HandshakeNode.Brontide

open LittleEndian

def keySize : ℕ := 32
def tagSize : ℕ := 16
def rotationInterval : ℕ := 1000
def headerSize : ℕ := 4 + tagSize
def maxMessageSize : ℕ := 8 * 1000 * 1000 + 9

abbrev Key := {bs : Bytes // bs.length = keySize}

/-- ChaCha20-Poly1305: `Seal` appends the tag to the ciphertext, `Open` checks it. -/
structure Aead where
  sealBytes (key : Key) (nonce plaintext ad : Bytes) : Bytes
  openBytes (key : Key) (nonce ciphertext ad : Bytes) : Option Bytes

/-- `hkdfExpand` with no info returns two keys. -/
structure Suite where
  aead : Aead
  hkdfExpand (secret salt : Bytes) : Key × Key
  sha256 (data : Bytes) : Key

def errDecrypt : Err := .plain "brontide: decrypt failed"

def errFrameTooLarge (size : ℕ) : Err :=
  .plain ("brontide: frame too large: got " ++ toString size ++ " bytes, max " ++
    toString maxMessageSize)

def errFrameSizeMismatch (size : ℕ) : Err :=
  .plain ("brontide: frame size mismatch: decrypted length is " ++ toString size ++ " bytes")

structure CipherState where
  key : Key
  salt : Key
  nonce : ℕ
deriving DecidableEq

structure Sealing where
  key : Key
  nonce : Bytes
  plaintext : Bytes
  ad : Bytes
deriving DecidableEq

def Sealing.bytes (aead : Aead) (s : Sealing) : Bytes :=
  aead.sealBytes s.key s.nonce s.plaintext s.ad

namespace CipherState

def zeroKey : Key := ⟨List.replicate keySize 0, List.length_replicate⟩

def newCipherState : CipherState := ⟨zeroKey, zeroKey, 0⟩

def initKey (c : CipherState) (key : Key) : CipherState := { c with key, nonce := 0 }

def initSalt (c : CipherState) (key salt : Key) : CipherState := initKey { c with salt } key

/-- The number is written to bytes 4 to 7 of the twelve. -/
def putNonce (c : CipherState) : Bytes :=
  List.replicate 4 0 ++ leBytes 4 c.nonce ++ List.replicate 4 0

variable (suite : Suite)

def rotateKey (c : CipherState) : CipherState :=
  let (salt, next) := suite.hkdfExpand c.key.1 c.salt.1
  { salt, key := next, nonce := 0 }

def advance (c : CipherState) : CipherState :=
  let c := { c with nonce := c.nonce + 1 }
  if c.nonce = rotationInterval then c.rotateKey suite else c

def sealing (c : CipherState) (plaintext ad : Bytes) : Sealing :=
  { key := c.key, nonce := c.putNonce, plaintext, ad }

def encrypt (c : CipherState) (plaintext ad : Bytes) : (Bytes × Bytes) × CipherState :=
  let sealed := (c.sealing plaintext ad).bytes suite.aead
  ((sealed.take plaintext.length, sealed.drop plaintext.length), c.advance suite)

def decrypt (c : CipherState) (ciphertext tag ad : Bytes) : Result Bytes × CipherState :=
  if tag.length ≠ tagSize then
    (.error (.plain ("brontide: decrypt failed: tag is " ++ toString tag.length ++
      " bytes, want " ++ toString tagSize)), c)
  else
    match suite.aead.openBytes c.key c.putNonce (ciphertext ++ tag) ad with
    | none => (.error errDecrypt, c)
    | some plaintext => (.ok plaintext, c.advance suite)

end CipherState

section
variable (suite : Suite)

def writeFrame (send : CipherState) (payload : Bytes) : Result Bytes × CipherState :=
  if payload.length > maxMessageSize then (.error (errFrameTooLarge payload.length), send)
  else
    let ((encLength, lengthTag), send) := send.encrypt suite (leBytes 4 payload.length) []
    let ((encPayload, payloadTag), send) := send.encrypt suite payload []
    (.ok (encLength ++ lengthTag ++ encPayload ++ payloadTag), send)

/-- What a `net.Conn` has for its reader: the bytes that have come in and are not read, and whether
the other end is gone. -/
structure Stream where
  bytes : Bytes := []
  closed : Bool := false

/-- `io.ReadFull`; none as long as it has to wait for more bytes. -/
def Stream.readFull (s : Stream) (n : ℕ) : Option (Result Bytes × Stream) :=
  if n ≤ s.bytes.length then some (.ok (s.bytes.take n), { s with bytes := s.bytes.drop n })
  else if s.closed then
    some (.error (if s.bytes = [] then .eof else .unexpectedEOF), { s with bytes := [] })
  else none

/-- None as long as the frame is not there; the bytes it would have read are then left in the
stream, for the call that goes on once there are more. -/
def readFrame (recv : CipherState) (s : Stream) : Option (Result Bytes × CipherState × Stream) :=
  match s.readFull headerSize with
  | none => none
  | some (.error e, s) => some (.error e, recv, s)
  | some (.ok header, s) =>
    match recv.decrypt suite (header.take 4) (header.drop 4) [] with
    | (.error e, recv) => some (.error e, recv, s)
    | (.ok length, recv) =>
      if length.length ≠ 4 then some (.error (errFrameSizeMismatch length.length), recv, s)
      else if leNat length > maxMessageSize then
        some (.error (errFrameTooLarge (leNat length)), recv, s)
      else
        match s.readFull (leNat length + tagSize) with
        | none => none
        | some (.error e, s) => some (.error e, recv, s)
        | some (.ok body, s) =>
          let (payload, recv) :=
            recv.decrypt suite (body.take (leNat length)) (body.drop (leNat length)) []
          some (payload, recv, s)

end

structure Conn where
  send : CipherState
  recv : CipherState
  failed : Option Err := none
  readBuf : Bytes := []

namespace Conn

def fail (c : Conn) (err : Err) : Conn := { c with failed := some (c.failed.getD err) }

def close (c : Conn) : Conn := c.fail (.plain "use of closed network connection")

variable (suite : Suite)

/-- The loop of `Read`, until the buffer has bytes. A frame has at least 36 bytes, so the length of
the stream is more than enough fuel. -/
def fill : ℕ → Conn → Stream → Option (Result Unit × Conn × Stream)
  | 0, _, _ => none
  | fuel + 1, c, s =>
    if c.readBuf ≠ [] then some (.ok (), c, s)
    else
      match readFrame suite c.recv s with
      | none => none
      | some (.error e, recv, s) => some (.error e, fail { c with recv } e, s)
      | some (.ok payload, recv, s) => fill fuel { c with recv, readBuf := payload } s

/-- The bytes that are copied into a buffer of length `n`; none as long as the call has to wait. -/
def read (n : ℕ) (c : Conn) (s : Stream) : Option (Result Bytes × Conn × Stream) :=
  if n = 0 then some (.ok [], c, s)
  else
    match c.failed with
    | some e => some (.error e, c, s)
    | none =>
      match fill suite (s.bytes.length + 1) c s with
      | none => none
      | some (.error e, c, s) => some (.error e, c, s)
      | some (.ok _, c, s) =>
        some (.ok (c.readBuf.take n), { c with readBuf := c.readBuf.drop n }, s)

/-- What `Write` returns, the connection and the frame that was handed to `writeFull`, which returns
`written`. A payload that is too large is no failure of the connection. -/
def write (p : Bytes) (written : Option Err) (c : Conn) : Result ℕ × Conn × Option Bytes :=
  match c.failed with
  | some e => (.error e, c, none)
  | none =>
    match writeFrame suite c.send p with
    | (.error e, send) => (.error e, { c with send }, none)
    | (.ok frame, send) =>
      match written with
      | some e => (.error e, fail { c with send } e, some frame)
      | none => (.ok p.length, { c with send }, some frame)

end Conn

end HandshakeNode.Brontide
