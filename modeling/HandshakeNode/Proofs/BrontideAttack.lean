import HandshakeNode.Proofs.BrontideHandshake

/-!
# An attacker can only cut the stream

The uses of a cipher are numbered from the split on: `cipherAt side i` is the state with which `side`
makes its encryption `i`. When HKDF does not collide, the key and the nonce tell the side and the
number (`cipherAt_inj`), so no pair is used twice, and an ideal AEAD accepts at each number only what
the peer encrypted at that number. The reads then return the payloads of the peer in their order, up
to the first failure.
-/

namespace HandshakeNode.Brontide

open LittleEndian Function Option Conn

section
variable (suite : Suite)

lemma advance_iterate (hc : c.nonce = 0) : ∀ i,
    (CipherState.advance suite)^[i] c =
      { (CipherState.rotateKey suite)^[i / rotationInterval] c with nonce := i % rotationInterval }
  | 0 => by
    obtain ⟨key, salt, nonce⟩ := c
    obtain rfl : nonce = 0 := hc
    rfl
  | i + 1 => by
    have hpos : 0 < rotationInterval := by decide
    have hlt := Nat.mod_lt i hpos
    rw [iterate_succ_apply', advance_iterate hc i, CipherState.advance]
    by_cases hend : i % rotationInterval + 1 = rotationInterval
    · have hdvd : rotationInterval ∣ i + 1 := by
        rw [Nat.dvd_iff_mod_eq_zero, Nat.add_mod,
          Nat.mod_eq_of_lt (show 1 < rotationInterval by decide), hend, Nat.mod_self]
      rw [if_pos hend, Nat.succ_div, if_pos hdvd, iterate_succ_apply', Nat.mod_eq_zero_of_dvd hdvd]
      rfl
    · have hmod : (i + 1) % rotationInterval = i % rotationInterval + 1 := by
        rw [Nat.add_mod, Nat.mod_eq_of_lt (show 1 < rotationInterval by decide)]
        exact Nat.mod_eq_of_lt (by omega)
      have hdvd : ¬ rotationInterval ∣ i + 1 := by
        omega
      rw [if_neg hend, Nat.succ_div, if_neg hdvd, hmod]
      rfl

lemma putNonce_inj {c c' : CipherState} (hc : c.nonce < rotationInterval)
    (hc' : c'.nonce < rotationInterval) (h : c.putNonce = c'.putNonce) : c.nonce = c'.nonce := by
  have hlt : rotationInterval < 256 ^ 4 := by decide
  simp only [CipherState.putNonce, List.append_cancel_left_eq,
    List.append_cancel_right_eq] at h
  rw [← leNat_leBytes_of_lt (hc.trans hlt), h, leNat_leBytes_of_lt (hc'.trans hlt)]

end

section
variable (suite : Suite) (split : SymmetricState)

def sendCipherOf (side : Side) : CipherState := (split.split suite (side = .initiator)).1

def epoch (side : Side) (e : ℕ) : CipherState :=
  (CipherState.rotateKey suite)^[e] (sendCipherOf suite split side)

def cipherAt (side : Side) (i : ℕ) : CipherState :=
  (CipherState.advance suite)^[i] (sendCipherOf suite split side)

/-- What HKDF is called with from the split on, when each side makes this many encryptions. -/
def hkdfCalls (count : Side → ℕ) : Set (Bytes × Bytes) :=
  {x | x = ([], split.chain.1) ∨ ∃ side e, e < count side / rotationInterval ∧
    x = ((epoch suite split side e).key.1, (epoch suite split side e).salt.1)}

/-- The outputs of HKDF do not collide: two different calls have no output in common, and the two
outputs of one call differ. -/
def NoCollision (calls : Set (Bytes × Bytes)) : Prop :=
  ∀ x ∈ calls, ∀ y ∈ calls,
    (suite.hkdfExpand x.1 x.2).1 ≠ (suite.hkdfExpand y.1 y.2).2 ∧
      (x ≠ y → (suite.hkdfExpand x.1 x.2).1 ≠ (suite.hkdfExpand y.1 y.2).1 ∧
        (suite.hkdfExpand x.1 x.2).2 ≠ (suite.hkdfExpand y.1 y.2).2)

variable {suite split}

lemma NoCollision.mono (h : NoCollision suite calls')
    (hsub : calls ⊆ calls') : NoCollision suite calls :=
  fun x hx y hy => h x (hsub hx) y (hsub hy)

lemma hkdfCalls_mono (h : ∀ side, count side ≤ count' side) :
    hkdfCalls suite split count ⊆ hkdfCalls suite split count' := by
  rintro x (hx | ⟨side, e, he, hx⟩)
  · exact .inl hx
  · exact .inr ⟨side, e, he.trans_le (Nat.div_le_div_right (h side)), hx⟩

lemma key_epoch_zero : ∀ side, (epoch suite split side 0).key =
    if side = .initiator then (suite.hkdfExpand [] split.chain.1).1
    else (suite.hkdfExpand [] split.chain.1).2
  | .initiator => rfl
  | .responder => rfl

lemma key_epoch_succ (side : Side) (e : ℕ) : (epoch suite split side (e + 1)).key =
    (suite.hkdfExpand (epoch suite split side e).key.1 (epoch suite split side e).salt.1).2 := by
  rw [epoch, iterate_succ_apply']
  rfl

/-- No first key of a side is a later key of either side: it comes from the call without a secret. -/
theorem NoCollision.key_zero_ne (h : NoCollision suite (hkdfCalls suite split count))
    (he : e < count side' / rotationInterval) :
    (epoch suite split side 0).key ≠ (epoch suite split side' (e + 1)).key := by
  rw [key_epoch_zero, key_epoch_succ]
  have hcall := h _ (.inl rfl) _ (.inr ⟨side', e, he, rfl⟩)
  split_ifs
  · exact hcall.1
  · refine (hcall.2 fun heq => ?_).2
    have hnil : [] = (epoch suite split side' e).key.1 := (Prod.ext_iff.1 heq).1
    have hlen := (epoch suite split side' e).key.2
    rw [← hnil] at hlen
    simp [keySize] at hlen

lemma NoCollision.epoch_inj (h : NoCollision suite (hkdfCalls suite split count)) :
    ∀ {e e'} {side side'}, e ≤ count side / rotationInterval → e' ≤ count side' / rotationInterval →
      (epoch suite split side e).key = (epoch suite split side' e').key → side = side' ∧ e = e'
  | 0, 0, side, side', _, _, hkey => by
    refine ⟨?_, rfl⟩
    have hne := (h _ (.inl rfl) _ (.inl rfl)).1
    cases side <;> cases side'
    · rfl
    · exact absurd hkey hne
    · exact absurd hkey.symm hne
    · rfl
  | 0, e' + 1, _, _, _, he', hkey => absurd hkey (h.key_zero_ne he')
  | e + 1, 0, _, _, he, _, hkey => absurd hkey.symm (h.key_zero_ne he)
  | e + 1, e' + 1, side, side', he, he', hkey => by
    rw [key_epoch_succ, key_epoch_succ] at hkey
    have heq := not_not.1 fun hne =>
      ((h _ (.inr ⟨side, e, he, rfl⟩) _ (.inr ⟨side', e', he', rfl⟩)).2 hne).2 hkey
    obtain ⟨hside, hee⟩ := h.epoch_inj (Nat.le_of_succ_le he) (Nat.le_of_succ_le he')
      (Subtype.ext (Prod.ext_iff.1 heq).1)
    exact ⟨hside, by rw [hee]⟩

lemma cipherAt_eq (side : Side) (i : ℕ) : cipherAt suite split side i =
    { epoch suite split side (i / rotationInterval) with nonce := i % rotationInterval } := by
  refine advance_iterate suite ?_ i
  cases side <;> rfl

lemma cipherAt_succ (side : Side) (i : ℕ) :
    cipherAt suite split side (i + 1) = (cipherAt suite split side i).advance suite :=
  iterate_succ_apply' _ _ _

/-- The key and the nonce tell who uses them, and for which encryption. -/
theorem NoCollision.cipherAt_inj (h : NoCollision suite (hkdfCalls suite split count))
    {side side' : Side} (hi : i ≤ count side) (hi' : i' ≤ count side')
    (hkey : (cipherAt suite split side i).key = (cipherAt suite split side' i').key)
    (hnonce : (cipherAt suite split side i).putNonce = (cipherAt suite split side' i').putNonce) :
    side = side' ∧ i = i' := by
  have hpos : 0 < rotationInterval := by decide
  rw [cipherAt_eq, cipherAt_eq] at hkey hnonce
  obtain ⟨hside, hdiv⟩ := h.epoch_inj (Nat.div_le_div_right hi) (Nat.div_le_div_right hi') hkey
  have hmod : i % rotationInterval = i' % rotationInterval :=
    putNonce_inj (Nat.mod_lt i hpos) (Nat.mod_lt i' hpos) hnonce
  refine ⟨hside, ?_⟩
  rw [← Nat.div_add_mod i rotationInterval, hdiv, hmod, Nat.div_add_mod]

end

section
variable (suite : Suite) (split : SymmetricState)

def contentAt (sent : List Bytes) (i : ℕ) : Bytes :=
  if i % 2 = 0 then leBytes 4 (sent.getD (i / 2) []).length else sent.getD (i / 2) []

def sealingAt (sent : Side → List Bytes) (side : Side) (i : ℕ) : Sealing :=
  (cipherAt suite split side i).sealing (contentAt (sent side) i) []

def Received (peer : Side) (sent : List Bytes) (recv : CipherState) (seen : Bytes) : Prop :=
  ∃ k ≤ sent.length, recv = cipherAt suite split peer (2 * k) ∧ seen = (sent.take k).flatten

structure EndInv (sent : Side → List Bytes) (side : Side) (c : Conn) (got : Bytes)
    (readFailed : Bool) (late : Bytes) : Prop where
  send : c.send = cipherAt suite split side (2 * (sent side).length)
  recv : c.failed = none →
    Received suite split side.peer (sent side.peer) c.recv (got ++ c.readBuf)
  got : got <+: (sent side.peer).flatten
  latch : readFailed = true → c.failed ≠ none
  late : late = []

structure World.Inv (w : World) : Prop where
  ends : ∀ side, EndInv suite split w.sent side (w.conn side) (w.got side) (w.readFailed side)
    (w.late side)
  log : ∀ x ∈ w.log, ∃ side, ∃ i < 2 * (w.sent side).length,
    x = sealingAt suite split w.sent side i
  nodup : (w.log.map fun x => (x.key, x.nonce)).Nodup

def World.count (w : World) (side : Side) : ℕ := 2 * (w.sent side).length

variable {suite split} {w : World} {side : Side} {recv : CipherState} {c : Conn}

lemma contentAt_append (h : i < 2 * sent.length) (p : Bytes) :
    contentAt (sent ++ [p]) i = contentAt sent i := by
  have hlt : i / 2 < sent.length := by omega
  rw [contentAt, contentAt, List.getD_eq_getElem?_getD, List.getElem?_append_left hlt,
    ← List.getD_eq_getElem?_getD]

lemma contentAt_even (sent : List Bytes) (k : ℕ) :
    contentAt sent (2 * k) = leBytes 4 (sent.getD k []).length := by
  simp [contentAt]

lemma contentAt_odd (sent : List Bytes) (k : ℕ) : contentAt sent (2 * k + 1) = sent.getD k [] := by
  have hdiv : (2 * k + 1) / 2 = k := by omega
  have hmod : ¬ (2 * k + 1) % 2 = 0 := by omega
  rw [contentAt, if_neg hmod, hdiv]

lemma Received.append (h : Received suite split peer sent recv seen) (p : Bytes) :
    Received suite split peer (sent ++ [p]) recv seen := by
  obtain ⟨k, hk, hrecv, hseen⟩ := h
  refine ⟨k, by simp; omega, hrecv, ?_⟩
  rw [hseen, List.take_append_of_le_length hk]

lemma Received.isPrefix (h : Received suite split peer sent recv seen) : seen <+: sent.flatten := by
  obtain ⟨k, -, -, rfl⟩ := h
  refine ⟨(sent.drop k).flatten, ?_⟩
  rw [← List.flatten_append, List.take_append_drop]

lemma exists_of_openBytes_ideal (hA : suite.aead.Correct)
    (h : (suite.ideal log).aead.openBytes key nonce ciphertext ad = some plaintext) :
    ∃ x ∈ log, x.key = key ∧ x.nonce = nonce ∧ x.plaintext = plaintext := by
  simp only [Suite.ideal, Aead.ideal] at h
  split_ifs at h with hx
  obtain ⟨x, hmem, rfl, rfl, rfl, rfl⟩ := hx
  refine ⟨x, hmem, rfl, rfl, ?_⟩
  have hopen : suite.aead.openBytes x.key x.nonce (x.bytes suite.aead) x.ad = some x.plaintext :=
    hA.opens _ _ _ _
  rw [hopen] at h
  exact some.inj h

/-- At each number the receiver takes only what the peer encrypted at that number. -/
theorem World.Inv.decrypt (hA : suite.aead.Correct) (hw : w.Inv suite split)
    (hH : NoCollision suite (hkdfCalls suite split w.count)) (hi : i ≤ w.count side)
    {c : CipherState}
    (h : (cipherAt suite split side i).decrypt (suite.ideal w.log) ciphertext tag [] =
      (.ok plaintext, c)) :
    i < w.count side ∧ plaintext = contentAt (w.sent side) i ∧
      c = cipherAt suite split side (i + 1) := by
  unfold CipherState.decrypt at h
  split_ifs at h with htag
  · simp at h
  · split at h
    · simp at h
    · rename_i p hopen
      obtain ⟨hp, hc⟩ := Prod.mk.inj h
      obtain ⟨x, hmem, hkey, hnonce, hplain⟩ := exists_of_openBytes_ideal hA hopen
      obtain ⟨side', i', hi', rfl⟩ := hw.log x hmem
      obtain ⟨rfl, rfl⟩ := hH.cipherAt_inj (Nat.le_of_lt hi') hi hkey hnonce
      refine ⟨hi', ?_, ?_⟩
      · rw [← Except.ok.inj hp, ← hplain]
        rfl
      · rw [← hc, cipherAt_succ]
        rfl

lemma World.Inv.readFrame (hA : suite.aead.Correct) (hw : w.Inv suite split)
    (hH : NoCollision suite (hkdfCalls suite split w.count)) (hk : k ≤ (w.sent side).length)
    (h : readFrame (suite.ideal w.log) (cipherAt suite split side (2 * k)) s =
      some (.ok payload, recv, s')) :
    k < (w.sent side).length ∧ payload = (w.sent side).getD k [] ∧
      recv = cipherAt suite split side (2 * (k + 1)) := by
  unfold Brontide.readFrame at h
  split at h
  · simp at h
  · simp at h
  · split at h
    · simp at h
    · rename_i length recv1 hheader
      obtain ⟨hlt, -, rfl⟩ := hw.decrypt hA hH (Nat.mul_le_mul_left 2 hk) hheader
      split_ifs at h
      · simp at h
      · simp at h
      · split at h
        · simp at h
        · simp at h
        · simp only [some.injEq, Prod.mk.injEq] at h
          obtain ⟨hpayload, hrecv, -⟩ := h
          have hlt' : 2 * k + 1 ≤ w.count side := hlt
          have hbody := hw.decrypt hA hH hlt' (Prod.ext hpayload hrecv)
          refine ⟨by unfold World.count at hlt; omega, ?_, hbody.2.2⟩
          rw [hbody.2.1, contentAt_odd]

lemma World.Inv.fill (hA : suite.aead.Correct) (hw : w.Inv suite split)
    (hH : NoCollision suite (hkdfCalls suite split w.count)) (got : Bytes) :
    ∀ {fuel} {c c' : Conn} {s s' : Stream} {r : Result Unit},
      c.fill (suite.ideal w.log) fuel s = some (r, c', s') → c.failed = none →
      Received suite split side (w.sent side) c.recv (got ++ c.readBuf) →
      c'.send = c.send ∧ ((∃ e, r = .error e ∧ c'.failed ≠ none) ∨ (r = .ok () ∧ c'.failed = none ∧
          Received suite split side (w.sent side) c'.recv (got ++ c'.readBuf)))
  | 0, _, _, _, _, _, h, _, _ => by simp [Conn.fill] at h
  | fuel + 1, c, c', s, s', r, h, hc, hrecv => by
    unfold Conn.fill at h
    split_ifs at h with hbuf
    · obtain ⟨rfl, rfl, rfl⟩ := h
      exact ⟨rfl, .inr ⟨rfl, hc, hrecv⟩⟩
    · split at h
      · simp at h
      · rename_i e recv s1 _
        obtain ⟨rfl, rfl, rfl⟩ := h
        exact ⟨rfl, .inl ⟨e, rfl, by simp [Conn.fail]⟩⟩
      · rename_i payload recv s1 hread
        obtain ⟨k, hk, hat, hseen⟩ := hrecv
        rw [hat] at hread
        obtain ⟨hlt, rfl, rfl⟩ := hw.readFrame hA hH hk hread
        have hrest := World.Inv.fill hA hw hH got h
        refine hrest hc ⟨k + 1, hlt, rfl, ?_⟩
        rw [not_not.1 hbuf, List.append_nil] at hseen
        rw [hseen, List.take_succ_eq_append_getElem hlt, List.flatten_append,
          List.flatten_singleton, List.getD_eq_getElem?_getD, List.getElem?_eq_getElem hlt,
          getD_some]

/-- What a read does: nothing, fail the connection, or return bytes that come next. -/
inductive ReadCase (suite : Suite) (split : SymmetricState) (w : World) (side : Side) :
    Result Bytes → Conn → Prop
  | empty : ReadCase suite split w side (.ok []) (w.conn side)
  | failed {e c} : c.send = (w.conn side).send → c.failed ≠ none →
      ReadCase suite split w side (.error e) c
  | next {bs c} : c.send = (w.conn side).send → (w.conn side).failed = none → c.failed = none →
      Received suite split side.peer (w.sent side.peer) c.recv (w.got side ++ bs ++ c.readBuf) →
      ReadCase suite split w side (.ok bs) c

lemma World.Inv.read (hA : suite.aead.Correct) (hw : w.Inv suite split)
    (hH : NoCollision suite (hkdfCalls suite split w.count))
    (h : (w.conn side).read (suite.ideal w.log) n s = some (r, c, s')) :
    ReadCase suite split w side r c := by
  unfold Conn.read at h
  split_ifs at h with hn
  · obtain ⟨rfl, rfl, rfl⟩ := h
    exact .empty
  · split at h
    · rename_i e hfailed
      obtain ⟨rfl, rfl, rfl⟩ := h
      exact .failed rfl (by rw [hfailed]; simp)
    · rename_i hfailed
      split at h
      · simp at h
      · rename_i e c1 s1 hstep
        obtain ⟨rfl, rfl, rfl⟩ := h
        obtain ⟨hsend, ⟨e', -, hne⟩ | ⟨hok, -⟩⟩ :=
          hw.fill hA hH (w.got side) hstep hfailed ((hw.ends side).recv hfailed)
        · exact .failed hsend hne
        · cases hok
      · rename_i u c1 s1 hstep
        obtain ⟨rfl, rfl, rfl⟩ := h
        obtain ⟨hsend, ⟨e', he, -⟩ | ⟨-, hnone, hreceived⟩⟩ :=
          hw.fill hA hH (w.got side) hstep hfailed ((hw.ends side).recv hfailed)
        · cases he
        · refine .next hsend hfailed hnone ?_
          rwa [List.append_assoc, List.take_append_drop]

lemma Conn.write_cases (c : Conn) (p : Bytes) (written : Option Err) :
    (c.write suite p written).2 = (c, none) ∨
      (c.failed = none ∧ ∃ c', (c.write suite p written).2 =
        (c', some (frame suite c.send p)) ∧ c'.send = afterFrame suite c.send ∧
        c'.recv = c.recv ∧ c'.readBuf = c.readBuf) := by
  rcases hc : c.failed with _ | e
  · rcases Nat.lt_or_ge maxMessageSize p.length with hp | hp
    · exact .inl (by rw [write_of_lt hc hp])
    · refine .inr ⟨rfl, ?_⟩
      obtain ⟨send, recv, failed, readBuf⟩ := c
      obtain rfl : failed = none := hc
      cases written with
      | none =>
        exact ⟨⟨afterFrame suite send, recv, none, readBuf⟩,
          by simp [write, writeFrame_eq hp], rfl, rfl, rfl⟩
      | some e =>
        exact ⟨⟨afterFrame suite send, recv, some e, readBuf⟩,
          by simp [write, writeFrame_eq hp, fail], rfl, rfl, rfl⟩
  · exact .inl (by rw [write, hc])

/-- Both ends right after the handshake. -/
def World.ofSplit (suite : Suite) (split : SymmetricState) : World :=
  World.start ⟨(split.split suite true).1, (split.split suite true).2, none, []⟩
    ⟨(split.split suite false).1, (split.split suite false).2, none, []⟩

lemma World.Inv.start : (World.ofSplit suite split).Inv suite split where
  ends side := by
    refine ⟨?_, fun _ => ⟨0, Nat.zero_le _, ?_, ?_⟩, List.nil_prefix, nofun, rfl⟩ <;>
      cases side <;> rfl
  log x hx := by cases hx
  nodup := List.nodup_nil

/-- What a write leaves that has encrypted `p`. -/
def World.wrote (suite : Suite) (w : World) (side : Side) (c : Conn) (p : Bytes) : World :=
  { w with
    conn := update w.conn side c
    log := w.log ++ frameSealings suite (w.conn side).send p
    sent := update w.sent side (w.sent side ++ [p]) }

lemma sealingAt_wrote (p : Bytes) (hi : i < w.count side') :
    sealingAt suite split (w.wrote suite side c p).sent side' i =
      sealingAt suite split w.sent side' i := by
  dsimp only [World.wrote, sealingAt]
  by_cases hside : side' = side
  · subst hside
    rw [update_self, contentAt_append hi]
  · rw [update_of_ne hside]

lemma World.Inv.frameSealings_eq (hw : w.Inv suite split) (c : Conn) (p : Bytes) :
    frameSealings suite (w.conn side).send p =
      [sealingAt suite split (w.wrote suite side c p).sent side (w.count side),
        sealingAt suite split (w.wrote suite side c p).sent side (w.count side + 1)] := by
  simp [frameSealings, sealingAt, World.wrote, World.count, contentAt_even, contentAt_odd,
    (hw.ends side).send, cipherAt_succ]

lemma World.count_wrote (p : Bytes) (side' : Side) :
    w.count side' ≤ (w.wrote suite side c p).count side' := by
  dsimp only [World.count, World.wrote]
  by_cases hside : side' = side
  · subst hside
    simp
  · rw [update_of_ne hside]

lemma World.count_wrote_self : (w.wrote suite side c p).count side = w.count side + 2 := by
  simp only [World.count, World.wrote, update_self, List.length_append, List.length_singleton]
  omega

lemma World.Inv.nodup_write (hw : w.Inv suite split) (p : Bytes)
    (hH : NoCollision suite (hkdfCalls suite split (w.wrote suite side c p).count)) :
    ((w.wrote suite side c p).log.map fun x => (x.key, x.nonce)).Nodup := by
  -- an encryption with the pair of one of the two has its number
  have hinj : ∀ {side' i j}, i ≤ w.count side' → j ≤ w.count side + 2 →
      ((cipherAt suite split side' i).key, (cipherAt suite split side' i).putNonce) =
        ((cipherAt suite split side j).key, (cipherAt suite split side j).putNonce) →
      side' = side ∧ i = j := fun hi hj heq =>
    hH.cipherAt_inj (hi.trans (World.count_wrote p _)) (World.count_wrote_self ▸ hj)
      (Prod.ext_iff.1 heq).1 (Prod.ext_iff.1 heq).2
  have hold : ∀ j, w.count side ≤ j → j ≤ w.count side + 2 →
      ((cipherAt suite split side j).key, (cipherAt suite split side j).putNonce) ∉
        w.log.map fun x => (x.key, x.nonce) := by
    intro j hle hj hmem
    obtain ⟨x, hx, heq⟩ := List.mem_map.1 hmem
    obtain ⟨side', i, hi, rfl⟩ := hw.log x hx
    obtain ⟨rfl, rfl⟩ := hinj (Nat.le_of_lt hi) hj heq
    exact hle.not_gt hi
  rw [World.wrote, hw.frameSealings_eq c, List.map_append, List.nodup_append]
  refine ⟨hw.nodup, ?_, ?_⟩
  · simp only [List.map_cons, List.map_nil, List.nodup_cons, List.mem_singleton, List.not_mem_nil,
      not_false_eq_true, List.nodup_nil, and_true]
    intro heq
    have := (hinj le_rfl (by omega) heq).2
    omega
  · intro a ha b hb hab
    subst hab
    simp only [List.map_cons, List.map_nil, List.mem_cons, List.not_mem_nil, or_false] at hb
    rcases hb with rfl | rfl
    · exact hold _ le_rfl (by omega) ha
    · exact hold _ (by omega) (by omega) ha

section
variable {got late : Bytes}

lemma EndInv.write (h : EndInv suite split sent side c got readFailed late)
    (hfailed : c.failed = none) (hsend : c'.send = afterFrame suite c.send)
    (hrecv : c'.recv = c.recv) (hbuf : c'.readBuf = c.readBuf) :
    EndInv suite split (update sent side (sent side ++ [p])) side c' got readFailed late := by
  refine ⟨?_, ?_, ?_, fun hread => absurd hfailed (h.latch hread), h.late⟩
  · rw [update_self, hsend, h.send, List.length_append, List.length_singleton, Nat.mul_add,
      afterFrame, ← cipherAt_succ, ← cipherAt_succ]
  · rw [update_of_ne side.peer_ne, hrecv, hbuf]
    exact fun _ => h.recv hfailed
  · rw [update_of_ne side.peer_ne]
    exact h.got

lemma EndInv.peer_write (h : EndInv suite split sent side.peer c got readFailed late) (p : Bytes) :
    EndInv suite split (update sent side (sent side ++ [p])) side.peer c got readFailed late := by
  obtain ⟨hsend, hrecv, hgot, hlatch, hlate⟩ := h
  rw [Side.peer_peer] at hrecv hgot
  refine ⟨?_, ?_, ?_, hlatch, hlate⟩
  · rwa [update_of_ne side.peer_ne]
  · rw [Side.peer_peer, update_self]
    exact fun hfailed => (hrecv hfailed).append p
  · rw [Side.peer_peer, update_self, List.flatten_append]
    exact hgot.trans (List.prefix_append _ _)

lemma EndInv.close (h : EndInv suite split sent side c got readFailed late) :
    EndInv suite split sent side c.close got readFailed late := by
  have hfailed : c.close.failed ≠ none := by simp [Conn.close, Conn.fail]
  exact ⟨h.send, fun hnone => absurd hnone hfailed, h.got, fun _ => hfailed, h.late⟩

/-- What an end has after a read: once a read has failed, a read returns nothing. -/
theorem ReadCase.endInv (hw : w.Inv suite split) (h : ReadCase suite split w side r c) :
    EndInv suite split w.sent side c (w.got side ++ r.toOption.getD [])
      (w.readFailed side || !r.isOk)
      (w.late side ++ if w.readFailed side then r.toOption.getD [] else []) := by
  obtain ⟨hsend, hrecv, hgot, hlatch, hlate⟩ := hw.ends side
  rw [hlate]
  cases h with
  | empty =>
    simp only [Except.toOption, getD_some, List.append_nil, ite_self, Except.toBool, Bool.not_true, Bool.or_false]
    exact ⟨hsend, hrecv, hgot, hlatch, rfl⟩
  | failed hsend' hne =>
    simp only [Except.toOption, getD_none, List.append_nil, ite_self]
    exact ⟨hsend'.trans hsend, fun hnone => absurd hnone hne, hgot, fun _ => hne, rfl⟩
  | next hsend' hnone hnone' hreceived =>
    have hread : w.readFailed side = false := by
      by_contra htrue
      exact hlatch (by simpa using htrue) hnone
    simp only [hread, Except.toBool]
    exact ⟨hsend'.trans hsend, fun _ => hreceived,
      (List.prefix_append _ _).trans hreceived.isPrefix, by simp, rfl⟩

end

lemma World.Inv.write (hw : w.Inv suite split) (hfailed : (w.conn side).failed = none)
    (hsend : c.send = afterFrame suite (w.conn side).send) (hrecv : c.recv = (w.conn side).recv)
    (hbuf : c.readBuf = (w.conn side).readBuf)
    (hH : NoCollision suite (hkdfCalls suite split (w.wrote suite side c p).count)) :
    (w.wrote suite side c p).Inv suite split := by
  refine ⟨?_, ?_, hw.nodup_write p hH⟩
  · intro side'
    dsimp only [World.wrote]
    rcases side.eq_or_eq_peer side' with rfl | rfl
    · rw [update_self]
      exact (hw.ends side').write hfailed hsend hrecv hbuf
    · rw [update_of_ne side.peer_ne]
      exact (hw.ends side.peer).peer_write p
  · intro x hx
    rcases List.mem_append.1 hx with hx | hx
    · obtain ⟨side', i, hi, rfl⟩ := hw.log x hx
      exact ⟨side', i, hi.trans_le (World.count_wrote p side'), (sealingAt_wrote p hi).symm⟩
    · rw [hw.frameSealings_eq c] at hx
      simp only [List.mem_cons, List.not_mem_nil, or_false] at hx
      have hcount := @World.count_wrote_self suite w side c p
      rcases hx with rfl | rfl
      · exact ⟨side, _, by change _ < World.count _ side; omega, rfl⟩
      · exact ⟨side, _, by change _ < World.count _ side; omega, rfl⟩

lemma World.Inv.readCase (hw : w.Inv suite split) (h : ReadCase suite split w side r c) :
    World.Inv suite split { w with
      conn := update w.conn side c
      inbound := update w.inbound side s
      got := update w.got side (w.got side ++ r.toOption.getD [])
      readFailed := update w.readFailed side (w.readFailed side || !r.isOk)
      late := update w.late side
        (w.late side ++ if w.readFailed side then r.toOption.getD [] else []) } := by
  refine ⟨fun side' => ?_, hw.log, hw.nodup⟩
  by_cases hside : side' = side
  · subst hside
    simp only [update_self]
    exact h.endInv hw
  · simp only [update_of_ne hside]
    exact hw.ends side'

lemma World.Inv.close (hw : w.Inv suite split) :
    World.Inv suite split { w with conn := update w.conn side (w.conn side).close } := by
  refine ⟨fun side' => ?_, hw.log, hw.nodup⟩
  by_cases hside : side' = side
  · subst hside
    simp only [update_self]
    exact (hw.ends side').close
  · simp only [update_of_ne hside]
    exact hw.ends side'

lemma World.step_write (w : World) (side : Side) (p : Bytes) (written : Option Err) :
    w.step suite (.write side p written) = w ∨ ((w.conn side).failed = none ∧
        ∃ c, c.send = afterFrame suite (w.conn side).send ∧ c.recv = (w.conn side).recv ∧
          c.readBuf = (w.conn side).readBuf ∧
            w.step suite (.write side p written) = w.wrote suite side c p) := by
  unfold World.step
  dsimp only
  rcases @write_cases suite (w.conn side) p written with
    heq | ⟨hfailed, c, heq, hsend, hrecv, hbuf⟩
  · left
    rcases hwrite : (w.conn side).write suite p written with ⟨r, c, f⟩
    rw [hwrite] at heq
    obtain ⟨rfl, rfl⟩ := Prod.mk.inj heq
    dsimp only
    rw [update_eq_self]
  · refine .inr ⟨hfailed, c, hsend, hrecv, hbuf, ?_⟩
    rcases hwrite : (w.conn side).write suite p written with ⟨r, c', f⟩
    rw [hwrite] at heq
    obtain ⟨rfl, rfl⟩ := Prod.mk.inj heq
    rfl

lemma World.Inv.step (hA : suite.aead.Correct) (hw : w.Inv suite split) (event : Event)
    (hH : NoCollision suite (hkdfCalls suite split (w.step suite event).count)) :
    (w.step suite event).Inv suite split := by
  cases event with
  | write side p written =>
    rcases w.step_write side p written with heq | ⟨hfailed, c, hsend, hrecv, hbuf, heq⟩
    · rw [heq]
      exact hw
    · rw [heq] at hH ⊢
      exact hw.write hfailed hsend hrecv hbuf hH
  | read side n =>
    have hcount : (w.step suite (.read side n)).count = w.count := by
      unfold World.step
      dsimp only
      split <;> rfl
    rw [hcount] at hH
    unfold World.step
    dsimp only
    split
    · exact hw
    · rename_i r c s hread
      exact hw.readCase (hw.read hA hH hread)
  | deliver side bs | hangUp side => exact ⟨hw.ends, hw.log, hw.nodup⟩
  | close side => exact hw.close

lemma World.count_le_step (w : World) (event : Event) (side : Side) :
    w.count side ≤ (w.step suite event).count side := by
  cases event with
  | write side' p written =>
    rcases w.step_write side' p written with heq | ⟨-, c, -, -, -, heq⟩
    · rw [heq]
    · rw [heq]
      exact World.count_wrote p side
  | read side' n =>
    unfold World.step
    dsimp only
    split <;> exact le_rfl
  | deliver | hangUp | close => exact le_rfl

lemma World.count_le_run : ∀ events (w : World) (side : Side),
    w.count side ≤ (w.run suite events).count side
  | [], _, _ => le_rfl
  | event :: events, w, side =>
    (w.count_le_step event side).trans (World.count_le_run events (w.step suite event) side)

lemma World.Inv.run (hA : suite.aead.Correct) : ∀ {w : World} (_ : w.Inv suite split)
    (events : List Event), NoCollision suite (hkdfCalls suite split (w.run suite events).count) →
    (w.run suite events).Inv suite split
  | _, hw, [], _ => hw
  | w, hw, event :: events, hH => by
    have hstep : NoCollision suite (hkdfCalls suite split (w.step suite event).count) :=
      hH.mono (hkdfCalls_mono (World.count_le_run events (w.step suite event)))
    exact (hw.step hA event hstep).run hA events hH

end

/-- Whatever an attacker delivers, no key and nonce are used for two encryptions, each side reads a
prefix of what its peer wrote, and nothing after a read has failed. -/
theorem attacker_can_only_cut {suite : Suite} (hA : suite.aead.Correct) (split : SymmetricState)
    (events : List Event) (w : World) (hrun : (World.ofSplit suite split).run suite events = w)
    (hH : NoCollision suite (hkdfCalls suite split w.count)) :
    (w.log.map fun x => (x.key, x.nonce)).Nodup ∧
      (∀ side : Side, w.got side <+: (w.sent side.peer).flatten) ∧
      ∀ side : Side, w.late side = [] := by
  subst hrun
  have hw := World.Inv.start.run hA events hH
  exact ⟨hw.nodup, fun side => (hw.ends side).got, fun side => (hw.ends side).late⟩

lemma noCollision_of_lt {split : SymmetricState} (h : ∀ side, count side < rotationInterval)
    (hne : (suite.hkdfExpand [] split.chain.1).1 ≠ (suite.hkdfExpand [] split.chain.1).2) :
    NoCollision suite (hkdfCalls suite split count) := by
  have hcalls : ∀ x ∈ hkdfCalls suite split count, x = ([], split.chain.1) := by
    rintro x (rfl | ⟨side, e, he, -⟩)
    · rfl
    · rw [Nat.div_eq_of_lt (h side)] at he
      exact absurd he (Nat.not_lt_zero e)
  intro x hx y hy
  obtain rfl := hcalls x hx
  obtain rfl := hcalls y hy
  exact ⟨hne, fun h => absurd rfl h⟩

def sampleSplit : SymmetricState := SymmetricState.initSymmetric plainSuite prologue

def replayEvents : List Event :=
  let first := frame plainSuite (sendCipherOf plainSuite sampleSplit .initiator) [1, 2, 3]
  [.write .initiator [1, 2, 3] none, .deliver .responder first, .read .responder 2,
    .read .responder 2, .write .initiator [4] none, .deliver .responder first, .read .responder 2,
    .read .responder 2]

def replayWorld : World := (World.ofSplit plainSuite sampleSplit).run plainSuite replayEvents

theorem attacker_can_only_cut_replay :
    (replayWorld.got .responder = [1, 2, 3] ∧ replayWorld.readFailed .responder = true) ∧
      (replayWorld.log.map fun x => (x.key, x.nonce)).Nodup ∧
      (∀ side : Side, replayWorld.got side <+: (replayWorld.sent side.peer).flatten) ∧
      ∀ side : Side, replayWorld.late side = [] := by
  refine ⟨by decide +kernel, attacker_can_only_cut plainAead_correct sampleSplit replayEvents
    replayWorld rfl (noCollision_of_lt ?_ ?_)⟩
  · intro side
    cases side <;> decide +kernel
  · decide +kernel

end HandshakeNode.Brontide
