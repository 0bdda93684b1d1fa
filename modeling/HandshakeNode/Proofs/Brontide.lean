import HandshakeNode.BrontideNet

/-!
# What is written is read

`Flow` says how one direction of a link stands: the receiving cipher is where the first frame that is
not read was written, and the bytes on the way are the frames from there on. Writes and reads keep it
(`Flow.write`, `Flow.fill`), so that no read fails and none waits while there are payload bytes left.
-/

namespace HandshakeNode.Brontide

open LittleEndian List Function

/-- A ciphertext is as long as the plaintext and the tag, and opens to the plaintext. -/
structure Aead.Correct (aead : Aead) : Prop where
  length : ∀ key nonce plaintext ad,
    (aead.sealBytes key nonce plaintext ad).length = plaintext.length + tagSize
  opens : ∀ key nonce plaintext ad,
    aead.openBytes key nonce (aead.sealBytes key nonce plaintext ad) ad = some plaintext

variable {suite : Suite}

namespace Aead.Correct

lemma length_sealing (h : suite.aead.Correct) (s : Sealing) :
    (s.bytes suite.aead).length = s.plaintext.length + tagSize := h.length _ _ _ _

lemma decrypt_sealing (h : suite.aead.Correct) (c : CipherState) (plaintext ad : Bytes) :
    c.decrypt suite (((c.sealing plaintext ad).bytes suite.aead).take plaintext.length)
        (((c.sealing plaintext ad).bytes suite.aead).drop plaintext.length) ad =
      (.ok plaintext, c.advance suite) := by
  have hlen := h.length_sealing (c.sealing plaintext ad)
  have htag : (((c.sealing plaintext ad).bytes suite.aead).drop plaintext.length).length =
      tagSize := by
    rw [length_drop, hlen]
    exact Nat.add_sub_cancel_left _ _
  have hopen : suite.aead.openBytes c.key c.putNonce ((c.sealing plaintext ad).bytes suite.aead) ad =
      some plaintext := h.opens _ _ _ _
  rw [CipherState.decrypt, if_neg (not_not.2 htag), take_append_drop, hopen]

end Aead.Correct

def frame (suite : Suite) (c : CipherState) (payload : Bytes) : Bytes :=
  (c.sealing (leBytes 4 payload.length) []).bytes suite.aead ++
    ((c.advance suite).sealing payload []).bytes suite.aead

def afterFrame (suite : Suite) (c : CipherState) : CipherState := (c.advance suite).advance suite

lemma writeFrame_eq (h : payload.length ≤ maxMessageSize) :
    writeFrame suite c payload = (.ok (frame suite c payload), afterFrame suite c) := by
  simp [writeFrame, if_neg (Nat.not_lt.2 h), CipherState.encrypt, frame, afterFrame]

lemma writeFrame_of_lt (h : maxMessageSize < payload.length) :
    writeFrame suite c payload = (.error (errFrameTooLarge payload.length), c) := by
  rw [writeFrame, if_pos h]

lemma Conn.write_of_lt {c : Conn} (hc : c.failed = none)
    (hp : maxMessageSize < p.length) (written : Option Err) :
    c.write suite p written = (.error (errFrameTooLarge p.length), c, none) := by
  obtain ⟨send, recv, failed, readBuf⟩ := c
  obtain rfl : failed = none := hc
  simp [Conn.write, writeFrame_of_lt hp]

lemma Stream.readFull_append {closed : Bool} (h : bs.length = n) :
    Stream.readFull ⟨bs ++ rest, closed⟩ n = some (.ok bs, ⟨rest, closed⟩) := by
  subst h
  simp [readFull]

lemma readFrame_frame (h : suite.aead.Correct) (hp : payload.length ≤ maxMessageSize) :
    readFrame suite c ⟨frame suite c payload ++ rest, closed⟩ =
      some (.ok payload, afterFrame suite c, ⟨rest, closed⟩) := by
  have hheader : ((c.sealing (leBytes 4 payload.length) []).bytes suite.aead).length =
      headerSize := by
    rw [h.length_sealing, CipherState.sealing, length_leBytes, headerSize]
  have hbody : (((c.advance suite).sealing payload []).bytes suite.aead).length =
      payload.length + tagSize := h.length_sealing _
  have hnum : leNat (leBytes 4 payload.length) = payload.length :=
    leNat_leBytes_of_lt (lt_of_le_of_lt hp (by decide))
  have hdec := h.decrypt_sealing c (leBytes 4 payload.length) []
  rw [length_leBytes] at hdec
  unfold readFrame frame
  rw [append_assoc, Stream.readFull_append hheader]
  dsimp only
  rw [hdec]
  dsimp only
  rw [hnum, if_neg (Nat.not_lt.2 hp),
    Stream.readFull_append hbody]
  dsimp only
  rw [h.decrypt_sealing (c.advance suite) payload []]
  rfl

def frames (suite : Suite) : CipherState → List Bytes → Bytes
  | _, [] => []
  | c, p :: ps => frame suite c p ++ frames suite (afterFrame suite c) ps

def afterFrames (suite : Suite) : CipherState → List Bytes → CipherState
  | c, [] => c
  | c, _ :: ps => afterFrames suite (afterFrame suite c) ps

lemma frames_append : ∀ c (ps qs : List Bytes),
    frames suite c (ps ++ qs) = frames suite c ps ++ frames suite (afterFrames suite c ps) qs
  | _, [], _ => rfl
  | c, p :: ps, qs => by
    rw [cons_append, frames, frames_append, frames, append_assoc, afterFrames]

lemma afterFrames_append : ∀ c (ps qs : List Bytes),
    afterFrames suite c (ps ++ qs) = afterFrames suite (afterFrames suite c ps) qs
  | _, [], _ => rfl
  | c, p :: ps, qs => by rw [cons_append, afterFrames, afterFrames_append, afterFrames]

lemma length_le_frames (h : suite.aead.Correct) : ∀ c (ps : List Bytes),
    ps.length ≤ (frames suite c ps).length
  | _, [] => le_rfl
  | c, p :: ps => by
    have := length_le_frames h (afterFrame suite c) ps
    have hheader := h.length_sealing (c.sealing (leBytes 4 p.length) [])
    rw [frames, length_append, frame, length_append, length_cons]
    have : 0 < tagSize := by decide
    omega

/-- One direction: the payloads in `pending` were sent and their frames are on the way, and the
payloads before them are the bytes in `seen`. -/
structure Flow (suite : Suite) (send recv : CipherState) (bytes : Bytes)
    (sent pending : List Bytes) (seen : Bytes) : Prop where
  sent_eq : ∃ done, sent = done ++ pending ∧ done.flatten = seen
  bytes_eq : bytes = frames suite recv pending
  send_eq : send = afterFrames suite recv pending
  small : ∀ p ∈ pending, p.length ≤ maxMessageSize

namespace Flow
lemma start (c : CipherState) : Flow suite c c [] [] [] [] :=
  ⟨⟨[], rfl, rfl⟩, rfl, rfl, by simp⟩

lemma flatten_sent (h : Flow suite send recv bytes sent pending seen) :
    sent.flatten = seen ++ pending.flatten := by
  obtain ⟨done, rfl, rfl⟩ := h.sent_eq
  exact flatten_append

lemma write (h : Flow suite send recv bytes sent pending seen) (hp : p.length ≤ maxMessageSize) :
    Flow suite (afterFrame suite send) recv (bytes ++ frame suite send p) (sent ++ [p])
      (pending ++ [p]) seen := by
  obtain ⟨done, hsent, hseen⟩ := h.sent_eq
  refine ⟨⟨done, by rw [hsent, append_assoc], hseen⟩, ?_, ?_, ?_⟩
  · rw [frames_append, ← h.bytes_eq, ← h.send_eq, frames, frames, append_nil]
  · rw [afterFrames_append, ← h.send_eq, afterFrames, afterFrames]
  · intro q hq
    rcases mem_append.1 hq with hq | hq
    · exact h.small q hq
    · rwa [mem_singleton.1 hq]

lemma next (h : Flow suite send recv bytes sent (p :: pending) seen) :
    bytes = frame suite recv p ++ frames suite (afterFrame suite recv) pending ∧
      Flow suite send (afterFrame suite recv) (frames suite (afterFrame suite recv) pending) sent
        pending (seen ++ p) := by
  obtain ⟨done, hsent, hseen⟩ := h.sent_eq
  refine ⟨h.bytes_eq, ⟨done ++ [p], ?_, ?_⟩, rfl, h.send_eq, fun q hq => h.small q (by simp [hq])⟩
  · rw [hsent, append_assoc, singleton_append]
  · rw [flatten_append, hseen, flatten_singleton]

lemma fill (hA : suite.aead.Correct) : ∀ {pending} {fuel} {c : Conn}
    {bytes seen : Bytes}, pending.length < fuel → c.readBuf = [] →
    Flow suite send c.recv bytes sent pending seen →
    (c.fill suite fuel ⟨bytes, false⟩ = none ∧ pending.flatten = []) ∨
      ∃ c' bytes' pending', c.fill suite fuel ⟨bytes, false⟩ = some (.ok (), c', ⟨bytes', false⟩) ∧
        c'.readBuf ≠ [] ∧ c'.send = c.send ∧ c'.failed = c.failed ∧
        Flow suite send c'.recv bytes' sent pending' (seen ++ c'.readBuf)
  | [], fuel + 1, c, bytes, seen, _, hbuf, h => by
    have hbytes : bytes = [] := h.bytes_eq
    have hread : readFrame suite c.recv ⟨[], false⟩ = none := rfl
    refine .inl ⟨?_, rfl⟩
    rw [Conn.fill, if_neg (not_not.2 hbuf), hbytes, hread]
  | p :: pending, fuel + 1, c, bytes, seen, hfuel, hbuf, h => by
    obtain ⟨hbytes, hnext⟩ := h.next
    have hstep : c.fill suite (fuel + 1) ⟨bytes, false⟩ =
        Conn.fill suite fuel { c with recv := afterFrame suite c.recv, readBuf := p }
          ⟨frames suite (afterFrame suite c.recv) pending, false⟩ := by
      rw [Conn.fill, if_neg (not_not.2 hbuf), hbytes, readFrame_frame hA (h.small p (by simp))]
    rw [hstep]
    by_cases hp : p = []
    · subst hp
      rw [append_nil] at hnext
      rw [flatten_cons]
      exact Flow.fill hA (c := { c with recv := afterFrame suite c.recv, readBuf := [] })
        (by simpa using hfuel) rfl hnext
    · obtain ⟨fuel, rfl⟩ : ∃ f, fuel = f + 1 := ⟨fuel - 1, by simp at hfuel; omega⟩
      refine .inr ⟨{ c with recv := afterFrame suite c.recv, readBuf := p }, _, pending, ?_, hp, rfl,
        rfl, hnext⟩
      rw [Conn.fill, if_pos hp]

end Flow

structure Receives (suite : Suite) (l : Link) (side : Side) : Prop where
  failed : (l.conn side).failed = none
  closed : (l.inbound side).closed = false
  flow : ∃ pending, Flow suite (l.conn side.peer).send (l.conn side).recv (l.inbound side).bytes
    (l.sent side.peer) pending (l.got side ++ (l.conn side).readBuf)

structure Reads (suite : Suite) (l : Link) (side : Side) (n : ℕ) (bs : Bytes) (c : Conn)
    (s : Stream) : Prop where
  some_of_pos : 0 < n → bs ≠ []
  le : bs.length ≤ n
  send : c.send = (l.conn side).send
  failed : c.failed = none
  closed : s.closed = false
  flow : ∃ pending, Flow suite (l.conn side.peer).send c.recv s.bytes (l.sent side.peer) pending
    (l.got side ++ bs ++ c.readBuf)

namespace Receives
lemma take_append (buf : Bytes)
    (h : ∃ pending, Flow suite send recv bytes sent pending (got ++ buf)) (n : ℕ) :
    ∃ pending, Flow suite send recv bytes sent pending (got ++ buf.take n ++ buf.drop n) := by
  rwa [append_assoc, take_append_drop]

lemma read (hA : suite.aead.Correct) (h : Receives suite l side) (n : ℕ) :
    ((l.conn side).read suite n (l.inbound side) = none ∧ l.got side = (l.sent side.peer).flatten) ∨
      ∃ bs c s, (l.conn side).read suite n (l.inbound side) = some (.ok bs, c, s) ∧
        Reads suite l side n bs c s := by
  obtain ⟨pending, hflow⟩ := h.flow
  obtain ⟨bytes, hstream⟩ : ∃ bytes, l.inbound side = ⟨bytes, false⟩ :=
    ⟨(l.inbound side).bytes, by rw [← h.closed]⟩
  rw [hstream] at hflow ⊢
  unfold Conn.read
  by_cases hn : n = 0
  · rw [if_pos hn]
    refine .inr ⟨[], _, _, rfl, fun hpos => absurd hn hpos.ne', Nat.zero_le n, rfl, h.failed, rfl,
      pending, by rwa [append_nil]⟩
  rw [if_neg hn, h.failed]
  by_cases hbuf : (l.conn side).readBuf = []
  · rw [hbuf, append_nil] at hflow
    have hbytes : bytes = frames suite (l.conn side).recv pending := hflow.bytes_eq
    have hfuel : pending.length < bytes.length + 1 := by
      rw [hbytes]
      exact Nat.lt_succ_of_le (length_le_frames hA _ _)
    rcases Flow.fill hA hfuel hbuf hflow with ⟨hfill, hempty⟩ | hfill
    · refine .inl ⟨by rw [hfill], ?_⟩
      rw [hflow.flatten_sent, hempty, append_nil]
    · obtain ⟨c, bytes', pending', hfill, hne, hsend, hfailed, hflow'⟩ := hfill
      refine .inr ⟨c.readBuf.take n, { c with readBuf := c.readBuf.drop n }, ⟨bytes', false⟩,
        by rw [hfill], fun _ => by simp [hn, hne], length_take_le n _, hsend,
        hfailed.trans h.failed, rfl, take_append _ ⟨pending', hflow'⟩ n⟩
  · have hfill : (l.conn side).fill suite (bytes.length + 1) ⟨bytes, false⟩ =
        some (.ok (), l.conn side, ⟨bytes, false⟩) := by rw [Conn.fill, if_pos hbuf]
    refine .inr ⟨(l.conn side).readBuf.take n,
      { l.conn side with readBuf := (l.conn side).readBuf.drop n }, ⟨bytes, false⟩,
      by rw [hfill], fun _ => by simp [hn, hbuf], length_take_le n _, rfl, h.failed, rfl,
      take_append _ ⟨pending, hflow⟩ n⟩

end Receives

lemma Side.peer_peer : ∀ side : Side, side.peer.peer = side
  | .initiator => rfl
  | .responder => rfl

lemma Side.peer_ne : ∀ side : Side, side.peer ≠ side
  | .initiator | .responder => by decide

lemma Side.eq_or_eq_peer : ∀ side side' : Side, side' = side ∨ side' = side.peer
  | .initiator, .initiator => .inl rfl
  | .initiator, .responder => .inr rfl
  | .responder, .initiator => .inr rfl
  | .responder, .responder => .inl rfl

namespace Link
def Ok (suite : Suite) (l : Link) : Prop := ∀ side, Receives suite l side

end Link

end HandshakeNode.Brontide
