import HandshakeNode.Brontide
import Mathlib.Logic.Function.Basic

/-!
# Two ends of an encrypted connection

`Link` has the two ends with a network that delivers what is written. In a `World` the network is
the attacker's: what is written goes to the attacker, who delivers any bytes to either end, and the
AEAD is ideal.
-/

namespace HandshakeNode.Brontide

open Function

inductive Side where
  | initiator
  | responder
deriving DecidableEq, Repr

def Side.peer : Side → Side
  | .initiator => .responder
  | .responder => .initiator

structure Link where
  conn : Side → Conn
  inbound : Side → Stream := fun _ => {}
  sent : Side → List Bytes := fun _ => []
  got : Side → Bytes := fun _ => []

inductive Call where
  | write (side : Side) (p : Bytes)
  | read (side : Side) (n : ℕ)

namespace Link
variable (suite : Suite)

def start (initiator responder : Conn) : Link where
  conn
    | .initiator => initiator
    | .responder => responder

def step (l : Link) : Call → Link
  | .write side p =>
    match (l.conn side).write suite p none with
    | (.ok _, c, some frame) =>
      { l with
        conn := update l.conn side c
        inbound := update l.inbound side.peer
          { l.inbound side.peer with bytes := (l.inbound side.peer).bytes ++ frame }
        sent := update l.sent side (l.sent side ++ [p]) }
    | (_, c, _) => { l with conn := update l.conn side c }
  | .read side n =>
    match (l.conn side).read suite n (l.inbound side) with
    -- the call waits and takes place later
    | none => l
    | some (r, c, s) =>
      { l with
        conn := update l.conn side c
        inbound := update l.inbound side s
        got := update l.got side (l.got side ++ r.toOption.getD []) }

def run (l : Link) (calls : List Call) : Link := calls.foldl (step suite) l

end Link

/-- The AEAD that accepts only what was produced by one of these encryptions, under the same key,
nonce and associated data. -/
def Aead.ideal (aead : Aead) (log : List Sealing) : Aead where
  sealBytes := aead.sealBytes
  openBytes key nonce ciphertext ad :=
    if ∃ s ∈ log, s.key = key ∧ s.nonce = nonce ∧ s.ad = ad ∧ s.bytes aead = ciphertext then
      aead.openBytes key nonce ciphertext ad
    else none

def Suite.ideal (suite : Suite) (log : List Sealing) : Suite :=
  { suite with aead := suite.aead.ideal log }

def frameSealings (suite : Suite) (send : CipherState) (payload : Bytes) : List Sealing :=
  [send.sealing (LittleEndian.leBytes 4 payload.length) [], (send.advance suite).sealing payload []]

/-- Two ends, all their encryptions, the payloads that they encrypted and the bytes that their reads
returned: all of them, and those after a read of the same end failed. -/
structure World where
  conn : Side → Conn
  inbound : Side → Stream := fun _ => {}
  log : List Sealing := []
  sent : Side → List Bytes := fun _ => []
  got : Side → Bytes := fun _ => []
  readFailed : Side → Bool := fun _ => false
  late : Side → Bytes := fun _ => []

inductive Event where
  /-- The attacker may make `writeFull` fail. -/
  | write (side : Side) (p : Bytes) (written : Option Err)
  | read (side : Side) (n : ℕ)
  | deliver (side : Side) (bs : Bytes)
  | hangUp (side : Side)
  | close (side : Side)

namespace World
variable (suite : Suite)

def start (initiator responder : Conn) : World where
  conn
    | .initiator => initiator
    | .responder => responder

def step (w : World) : Event → World
  | .write side p written =>
    match (w.conn side).write suite p written with
    | (_, c, some _) =>
      { w with
        conn := update w.conn side c
        log := w.log ++ frameSealings suite (w.conn side).send p
        sent := update w.sent side (w.sent side ++ [p]) }
    | (_, c, none) => { w with conn := update w.conn side c }
  | .read side n =>
    match (w.conn side).read (suite.ideal w.log) n (w.inbound side) with
    | none => w
    | some (r, c, s) =>
      { w with
        conn := update w.conn side c
        inbound := update w.inbound side s
        got := update w.got side (w.got side ++ r.toOption.getD [])
        readFailed := update w.readFailed side (w.readFailed side || !r.isOk)
        late := update w.late side
          (w.late side ++ if w.readFailed side then r.toOption.getD [] else []) }
  | .deliver side bs =>
    { w with
      inbound := update w.inbound side
        { w.inbound side with bytes := (w.inbound side).bytes ++ bs } }
  | .hangUp side =>
    { w with
      inbound := update w.inbound side { w.inbound side with closed := true } }
  | .close side => { w with conn := update w.conn side (w.conn side).close }

def run (w : World) (events : List Event) : World := events.foldl (step suite) w

end World

end HandshakeNode.Brontide
