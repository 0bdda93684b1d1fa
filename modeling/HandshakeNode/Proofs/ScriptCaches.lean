import HandshakeNode.Proofs.ScriptEngine
import HandshakeNode.Proofs.Sighash

/-!
# Caches do not change the verdict on a script

Every entry of the signature cache is a signature that verifies, and every entry of the sighash cache
holds the hashes of each transaction with its key: `CachesOk`, which every step keeps. So what is
left of a run, answered without caches, ends as the whole run would have (`ThreadOk`).
-/

namespace HandshakeNode

open List SigCache VerifyThread HashCache

/-! ### Hashes depend on the transaction without its witnesses -/

def MsgTx.strip (tx : MsgTx) : MsgTx := { tx with txIn := tx.txIn.map MsgTxIn.strip }

/-- Among these requests the hash tells transactions apart, witnesses aside. -/
def HashesInjective (blake2b : Bytes → Hash) (S : Set ScriptRequest) : Prop :=
  ∀ r ∈ S, ∀ r' ∈ S, ∀ txid, r.tx.txHash blake2b = .ok txid → r'.tx.txHash blake2b = .ok txid →
    r.tx.strip = r'.tx.strip

section

variable {tx : MsgTx}

lemma txIn_ne_nil_of_hasWitness (hw : tx.hasWitness = true) : tx.txIn ≠ [] := by
  rintro hnil
  simp [MsgTx.hasWitness, hnil] at hw

/-- `NewTxSigHashes` gives the same for transactions that differ in witnesses only, whatever the
outputs are that it is told of. -/
theorem newTxSigHashes_congr (hne : tx.txIn ≠ []) (hstrip : tx.strip = tx'.strip)
    (hh : newTxSigHashes blake2b tx fetch = .ok h)
    (hh' : newTxSigHashes blake2b tx' fetch' = .ok h') : h = h' := by
  have hins : tx.txIn.map MsgTxIn.strip = tx'.txIn.map MsgTxIn.strip := congrArg MsgTx.txIn hstrip
  have houts : tx.txOut = tx'.txOut := by
    show tx.strip.txOut = tx'.strip.txOut
    rw [hstrip]
  have hprev := congrArg (List.map fun ti => ti.previousOutPoint) hins
  have hseq := congrArg (List.map MsgTxIn.sequence) hins
  have hne' : tx'.txIn ≠ [] := by
    intro hnil
    rw [hnil] at hins
    exact hne (by simpa using hins)
  obtain ⟨-, -, rfl⟩ := (newTxSigHashes_eq_ok (t := ⟨tx, fetch, 0, 0, [], 0⟩) hne).1 hh
  obtain ⟨-, -, rfl⟩ := (newTxSigHashes_eq_ok (t := ⟨tx', fetch', 0, 0, [], 0⟩) hne').1 hh'
  simp only [map_map] at hprev hseq
  simp only [midstates, SigHashInput.prevOutBytes, SigHashInput.sequenceBytes,
    SigHashInput.outputBytes, houts]
  rw [show tx.txIn.map (fun ti => ti.previousOutPoint) = tx'.txIn.map fun ti => ti.previousOutPoint
    from hprev, show tx.txIn.map MsgTxIn.sequence = tx'.txIn.map MsgTxIn.sequence from hseq]

lemma txHash_of_newTxSigHashes (hne : tx.txIn ≠ []) (hh : newTxSigHashes blake2b tx fetch = .ok h) :
    ∃ txid, tx.txHash blake2b = .ok txid := by
  obtain ⟨-, hvalid, -⟩ := (newTxSigHashes_eq_ok (t := ⟨tx, fetch, 0, 0, [], 0⟩) hne).1 hh
  have houts := (Loops.mapM_eq_ok_iff fun _ _ => writeTxOut_eq_ok).2
    ⟨hvalid, (rfl : tx.txOut.map TxOut.encoded = _)⟩
  refine ⟨blake2b ((tx.parts (tx.txOut.map TxOut.encoded)).flatten ++ []), ?_⟩
  simp only [MsgTx.txHash, MsgTx.btcEncode, bind_eq_ok, orPanic_eq_ok]
  exact ⟨_, ⟨_, houts, rfl⟩, rfl⟩

end

section

lemma SigCache.has_iff {s : SigCache} :
    s.has q = true ↔ s.validSigs.lookup q.sigHash = some (q.sig, q.pubKey) := by
  unfold has
  rcases s.validSigs.lookup q.sigHash with _ | ⟨sig, pubKey⟩
  · simp
  · simp [and_comm]

lemma SigCache.has_add {s : SigCache} (h : (s.add victim q).has q' = true) :
    q' = q ∨ s.has q' = true := by
  by_cases hmax : s.maxEntries = 0
  · rw [add, if_pos hmax] at h
    exact .inr h
  rw [has_iff] at h ⊢
  rw [add, if_neg hmax] at h
  by_cases hkey : q'.sigHash = q.sigHash
  · left
    rw [hkey, Finmap.lookup_insert] at h
    rcases q with ⟨sigHash, sig, pubKey⟩
    rcases q' with ⟨sigHash', sig', pubKey'⟩
    simp only [Option.some.injEq, Prod.mk.injEq] at h hkey
    rw [hkey, h.1, h.2]
  · right
    rw [Finmap.lookup_insert_of_ne _ hkey] at h
    split_ifs at h
    · by_cases hvictim : q'.sigHash = victim
      · rw [hvictim, Finmap.lookup_erase] at h
        cases h
      · rwa [Finmap.lookup_erase_ne hvictim] at h
    · exact h

lemma HashCache.mem_of_lookup {c : HashCache} (hlook : c.lookup txid = some h) :
    (txid, h) ∈ c.entries := by
  simp only [lookup, Option.map_eq_some_iff] at hlook
  obtain ⟨⟨txid', h'⟩, hfind, rfl⟩ := hlook
  have hkey := List.find?_some hfind
  simp only [decide_eq_true_eq] at hkey
  subst hkey
  exact mem_of_find?_eq_some hfind

lemma HashCache.mem_addEntry {c : HashCache} (he : e ∈ (c.addEntry txid h).entries) :
    e = (txid, h) ∨ e ∈ c.entries := by
  unfold addEntry at he
  split_ifs at he with hmax hthere hfull
  · exact .inr he
  · obtain ⟨e', he', heq⟩ := mem_map.1 he
    split_ifs at heq
    · exact .inl heq.symm
    · exact .inr (heq ▸ he')
  all_goals
    rcases mem_append.1 he with he | he
    · first
        | exact .inr (mem_of_mem_tail he)
        | exact .inr he
    · exact .inl (mem_singleton.1 he)

variable (sys : ScriptSystem) (verify : SigQuery → Bool) (S : Set ScriptRequest)

structure CachesOk (c : Caches) : Prop where
  sigs : ∀ q, c.sigCache.has q = true → verify q = true
  hashes : ∀ e ∈ c.hashCache.entries, ∃ r ∈ S, r.tx.hasWitness = true ∧
    r.tx.txHash sys.blake2b = .ok e.1 ∧
    newTxSigHashes sys.blake2b r.tx r.view.fetchPrevOutput = .ok e.2

/-- What holds of a goroutine: its run goes to the result without caches, when there is one. -/
def ThreadOk : VerifyThread → Prop
  | .lookup r => r ∈ S
  | .store r sigHashes => r ∈ S ∧ r.usesHashes = true ∧
    newTxSigHashes sys.blake2b r.tx r.view.fetchPrevOutput = .ok sigHashes
  | .input r i txIn run => ∀ result, uncachedResult sys verify r i txIn = .ok result →
    run.run verify = result
  | .adding r i txIn q run => verify q = true ∧
    ∀ result, uncachedResult sys verify r i txIn = .ok result → run.run verify = result
  | .finished r i txIn result => ∀ result', uncachedResult sys verify r i txIn = .ok result' →
    result = result'
  | .crashed r _ => ∀ sigHashes, requestHashes sys r ≠ .ok sigHashes

variable {sys verify S}

lemma requestHashes_eq_ok (huses : r.usesHashes = true) (hreq : requestHashes sys r = .ok o)
    (heq : ∀ h', newTxSigHashes sys.blake2b r.tx r.view.fetchPrevOutput = .ok h' → h' = h) :
    o = some h := by
  rw [requestHashes, if_pos huses] at hreq
  obtain ⟨h', hh', hreq⟩ := bind_eq_ok.1 hreq
  rw [← Except.ok.inj hreq, heq h' hh']

lemma threadOk_crashed (huses : r.usesHashes = true) (hh : r.tx.txHash sys.blake2b = .error e ∨
      newTxSigHashes sys.blake2b r.tx r.view.fetchPrevOutput = .error e) :
    ∀ th ∈ [crashed r e'], ThreadOk sys verify S th := by
  intro th hth
  rw [mem_singleton.1 hth]
  intro sigHashes hreq
  rw [requestHashes, if_pos huses] at hreq
  obtain ⟨h, hnew, -⟩ := bind_eq_ok.1 hreq
  rcases hh with hh | hh
  · simp only [ScriptRequest.usesHashes, Bool.and_eq_true] at huses
    obtain ⟨txid, hid⟩ := txHash_of_newTxSigHashes (txIn_ne_nil_of_hasWitness huses.2) hnew
    rw [hid] at hh
    cases hh
  · rw [hnew] at hh
    cases hh

lemma threadOk_inputThreads (hh : ∀ o, requestHashes sys r = .ok o → o = sigHashes) :
    ∀ th ∈ inputThreads sys r sigHashes, ThreadOk sys verify S th := by
  intro th hth
  obtain ⟨p, -, rfl⟩ := mem_map.1 hth
  intro result hresult
  obtain ⟨o, ho, hresult⟩ := bind_eq_ok.1 hresult
  rw [← hh o ho]
  exact Except.ok.inj hresult

lemma CachesOk.lookup (hinj : HashesInjective sys.blake2b S) (hc : CachesOk sys verify S c)
    (hr : r ∈ S) {h' : TxSigHashes} (hid : r.tx.txHash sys.blake2b = .ok txid)
    (hlook : c.hashCache.lookup txid = some h)
    (hh' : newTxSigHashes sys.blake2b r.tx r.view.fetchPrevOutput = .ok h') : h' = h := by
  obtain ⟨r0, hr0, hw, hid0, hh⟩ := hc.hashes _ (mem_of_lookup hlook)
  exact (newTxSigHashes_congr (txIn_ne_nil_of_hasWitness hw)
    (hinj r0 hr0 r hr txid hid0 hid) hh hh').symm

lemma threadOk_lookupHashes (hinj : HashesInjective sys.blake2b S) (hc : CachesOk sys verify S c)
    (hr : r ∈ S) : ∀ th ∈ lookupHashes sys r c, ThreadOk sys verify S th := by
  unfold lookupHashes
  split_ifs with huses
  · rcases hid : r.tx.txHash sys.blake2b with e | txid <;> dsimp only
    · exact threadOk_crashed huses (.inl hid)
    rcases hlook : c.hashCache.lookup txid with _ | h
    · rcases hh : newTxSigHashes sys.blake2b r.tx r.view.fetchPrevOutput with e | h
      · exact threadOk_crashed huses (.inr hh)
      · intro th hth
        rw [mem_singleton.1 hth]
        exact ⟨hr, huses, hh⟩
    · exact threadOk_inputThreads fun o ho =>
        requestHashes_eq_ok huses ho fun h' hh' => hc.lookup hinj hr hid hlook hh'
  · refine threadOk_inputThreads fun o ho => ?_
    rw [requestHashes, if_neg huses] at ho
    exact (Except.ok.inj ho).symm

def StepOk (sys : ScriptSystem) (verify : SigQuery → Bool) (S : Set ScriptRequest)
    (p : List VerifyThread × Caches) : Prop :=
  CachesOk sys verify S p.2 ∧ ∀ th ∈ p.1, ThreadOk sys verify S th

lemma stepOk_storeHashes (hinj : HashesInjective sys.blake2b S) (hc : CachesOk sys verify S c)
    (hth : ThreadOk sys verify S (.store r h)) : StepOk sys verify S (storeHashes sys r h c) := by
  obtain ⟨hr, huses, hh⟩ := hth
  unfold storeHashes
  rcases hid : r.tx.txHash sys.blake2b with e | txid <;> dsimp only
  · exact ⟨hc, threadOk_crashed huses (.inl hid)⟩
  rcases hlook : c.hashCache.lookup txid with _ | cached
  · refine ⟨⟨hc.sigs, fun e he => ?_⟩, threadOk_inputThreads fun o ho =>
      requestHashes_eq_ok huses ho fun h' hh' => Except.ok.inj (hh'.symm.trans hh)⟩
    rcases mem_addEntry he with rfl | he
    · simp only [ScriptRequest.usesHashes, Bool.and_eq_true] at huses
      exact ⟨r, hr, huses.2, hid, hh⟩
    · exact hc.hashes e he
  · exact ⟨hc, threadOk_inputThreads fun o ho =>
      requestHashes_eq_ok huses ho fun h' hh' => hc.lookup hinj hr hid hlook hh'⟩

lemma threadOk_runInput (hc : CachesOk sys verify S c)
    (hth : ThreadOk sys verify S (.input r i txIn run)) :
    ThreadOk sys verify S (runInput verify r i txIn c run) := by
  rcases run with u | e | ⟨q, k⟩
  · exact hth
  · exact hth
  have hask : (Ask.ask q k).run verify = (k (verify q)).run verify := rfl
  simp only [runInput]
  split_ifs with hhas hverify
  · intro result hresult
    rw [← hth result hresult, hask, hc.sigs q hhas]
  · refine ⟨hverify, fun result hresult => ?_⟩
    rw [← hth result hresult, hask, hverify]
  · intro result hresult
    rw [← hth result hresult, hask, Bool.eq_false_of_not_eq_true hverify]

lemma VerifyThread.next_ok {th : VerifyThread} (victim : Hash)
    (hinj : HashesInjective sys.blake2b S) (hc : CachesOk sys verify S c)
    (hth : ThreadOk sys verify S th) : StepOk sys verify S (th.next sys verify victim c) := by
  have one : ∀ {c' th'}, CachesOk sys verify S c' → ThreadOk sys verify S th' →
      StepOk sys verify S ([th'], c') := fun hc' hth' =>
    ⟨hc', fun th hmem => mem_singleton.1 hmem ▸ hth'⟩
  rcases th with r | ⟨r, h⟩ | ⟨r, i, txIn, run⟩ | ⟨r, i, txIn, q, run⟩ | _ | _
  · exact ⟨hc, threadOk_lookupHashes hinj hc hth⟩
  · exact stepOk_storeHashes hinj hc hth
  · exact one hc (threadOk_runInput hc hth)
  · refine one ⟨fun q' hq' => ?_, hc.hashes⟩ hth.2
    rcases has_add hq' with rfl | hq'
    · exact hth.1
    · exact hc.sigs q' hq'
  · exact one hc hth
  · exact one hc hth

lemma Verifies.ok {s : VerifyState} (hinj : HashesInjective sys.blake2b S)
    (h : Verifies sys verify S s) :
    CachesOk sys verify S s.caches ∧ ∀ th ∈ s.threads, ThreadOk sys verify S th := by
  induction h with
  | start sigs hashes =>
    refine ⟨⟨fun q hq => ?_, fun e he => absurd he not_mem_nil⟩,
      fun th hth => absurd hth not_mem_nil⟩
    rw [has_iff] at hq
    simp at hq
  | submit _ r hr ih =>
    refine ⟨ih.1, fun th hth => ?_⟩
    rcases mem_cons.1 hth with rfl | hth
    · exact hr
    · exact ih.2 th hth
  | step _ victim ih =>
    obtain ⟨hc, hths⟩ := ih
    have hstep := next_ok victim hinj hc
      (hths _ (mem_append_right _ mem_cons_self))
    refine ⟨hstep.1, fun th hth => ?_⟩
    simp only [mem_append] at hth
    rcases hth with (hth | hth) | hth
    · exact hths th (by simp [hth])
    · exact hstep.2 th hth
    · exact hths th (by simp [hth])
  | purge _ txid ih =>
    refine ⟨⟨ih.1.sigs, fun e he => ?_⟩, ih.2⟩
    exact ih.1.hashes e (mem_of_mem_filter he)

/-- A goroutine comes to its end, whatever the caches hold each time it takes a step. -/
inductive Ends (sys : ScriptSystem) (verify : SigQuery → Bool) : VerifyThread → Prop
  | finished (r : ScriptRequest) (i : ℕ) (txIn : MsgTxIn) (result : Result Unit) :
    Ends sys verify (.finished r i txIn result)
  | crashed (r : ScriptRequest) (err : Err) : Ends sys verify (.crashed r err)
  | step {th : VerifyThread}
    (h : ∀ victim c, ∀ th' ∈ (th.next sys verify victim c).1, Ends sys verify th') :
    Ends sys verify th

lemma ends_input (r : ScriptRequest) (i : ℕ) (txIn : MsgTxIn) (run : Exec Unit) :
    Ends sys verify (.input r i txIn run) := by
  -- each step goes on to what the run does with an answer
  induction run with
  | ok u | fail e =>
    refine .step fun victim c th hth => ?_
    rw [mem_singleton.1 hth]
    exact .finished r i txIn _
  | ask q k ih =>
    refine .step fun victim c th hth => ?_
    rw [mem_singleton.1 hth, runInput]
    split_ifs
    · exact ih true
    · refine .step fun victim c th hth => ?_
      rw [mem_singleton.1 hth]
      exact ih true
    · exact ih false

lemma ends_inputThreads : ∀ th ∈ inputThreads sys r o, Ends sys verify th := by
  intro th hth
  obtain ⟨p, -, rfl⟩ := mem_map.1 hth
  exact ends_input _ _ _ _

lemma ends_store (r : ScriptRequest) (h : TxSigHashes) : Ends sys verify (.store r h) := by
  refine .step fun victim c th hth => ?_
  simp only [VerifyThread.next, storeHashes] at hth
  split at hth
  · rw [mem_singleton.1 hth]
    exact .crashed r _
  · split at hth <;> exact ends_inputThreads th hth

lemma ends (th : VerifyThread) : Ends sys verify th := by
  rcases th with r | ⟨r, h⟩ | ⟨r, i, txIn, run⟩ | ⟨r, i, txIn, q, run⟩ | _ | _
  · refine .step fun victim c th hth => ?_
    simp only [VerifyThread.next, lookupHashes] at hth
    split_ifs at hth
    · split at hth
      · rw [mem_singleton.1 hth]
        exact .crashed r _
      · split at hth
        · exact ends_inputThreads th hth
        · split at hth <;> rw [mem_singleton.1 hth]
          · exact .crashed r _
          · exact ends_store r _
    · exact ends_inputThreads th hth
  · exact ends_store r h
  · exact ends_input r i txIn run
  · refine .step fun victim c th hth => ?_
    rw [mem_singleton.1 hth]
    exact ends_input r i txIn run
  · exact .finished ..
  · exact .crashed ..

/-- **Verdicts do not depend on the caches**, in any order of the steps of any verifications whose
transactions the hash tells apart: an input ends as it would without caches, a goroutine goes down
only where it would without caches, and each of them comes to its end. -/
theorem caches_keep_verdict {s : VerifyState} (hinj : HashesInjective sys.blake2b S)
    (h : Verifies sys verify S s) :
    (∀ r i txIn result, .finished r i txIn result ∈ s.threads →
      ∀ result', uncachedResult sys verify r i txIn = .ok result' → result = result') ∧
    (∀ r err, .crashed r err ∈ s.threads → ∀ sigHashes, requestHashes sys r ≠ .ok sigHashes) ∧
    ∀ th ∈ s.threads, Ends sys verify th :=
  ⟨fun _ _ _ _ hth => (h.ok hinj).2 _ hth, fun _ _ hth => (h.ok hinj).2 _ hth, fun th _ => ends th⟩

end

def VerifyState.stepFirst (sys : ScriptSystem) (verify : SigQuery → Bool) (s : VerifyState) :
    VerifyState :=
  match s.threads with
  | [] => s
  | th :: rest =>
    let (ths, c) := th.next sys verify Hash.zero s.caches
    ⟨c, ths ++ rest⟩

lemma Verifies.stepFirst (h : Verifies sys verify S s) :
    Verifies sys verify S (s.stepFirst sys verify) := by
  rcases s with ⟨c, _ | ⟨th, rest⟩⟩
  · exact h
  · exact @Verifies.step _ _ _ c [] rest th h Hash.zero

/-- Programs that are one `OP_CHECKMULTISIG`, with the witness on the stack. -/
def multiSigSystem (c : SigChecks) : ScriptSystem where
  blake2b := blake2bSum256
  Vm := SigChecks × ScriptEngine
  newEngine pkScript tx txIdx flags sigHashes amt _ :=
    .ok ({ c with
      sigHash := fun script hashType => calcWitnessSignatureHashRaw blake2bSum256 script
        (sigHashes.getD {}) hashType.toUInt32 tx txIdx amt },
    { flags, tx, txIdx, numOps := 1, tapscript := false, witnessVersion := some 0
      subScript := pkScript
      dstack := { stk := (tx.txIn[txIdx]?.elim [] (·.witness)).reverse } })
  execute vm := do
    let vm ← opcodeCheckMultiSig vm.1 vm.2
    failIf (vm.dstack.stk ≠ [fromBool true])
      (.script .evalFalse "false stack entry at end of script execution")

/-- One signature for one key. -/
def signedRequest (lockTime : UInt32) : ScriptRequest where
  tx := { version := 0, txOut := [], lockTime,
          txIn := [{ previousOutPoint := ⟨Hash.zero, 0⟩,
                     witness := [[], [3, 1], [1], [2], [1]], sequence := 0 }] }
  hash := Hash.ofBytes (putUint32 lockTime)
  view := (⟨∅, Hash.zero⟩ : UtxoViewpoint).setEntry ⟨Hash.zero, 0⟩
    { amount := 5, address := ⟨0, []⟩, covenant := ⟨.none, []⟩, pkScript := [], blockHeight := 1,
      packedFlags := {} }
  flags := ScriptFlags.verifyWitness

/-- Two transactions are verified and then the first again, which the caches answer. -/
theorem caches_keep_verdict_twice :
    let sys := multiSigSystem plainChecks
    let verify := fun q : SigQuery => q.pubKey = [2]
    let S := {signedRequest 0, signedRequest 1}
    let step := VerifyState.stepFirst sys verify
    let submit := fun r (s : VerifyState) => { s with threads := .lookup r :: s.threads }
    let s := step^[3] (submit (signedRequest 0) (step^[5] (submit (signedRequest 1)
      (step^[5] (submit (signedRequest 0) ⟨⟨⟨∅, 2⟩, ⟨[], 2⟩⟩, []⟩)))))
    Verifies sys verify S s ∧
    (s.threads.map fun | .finished _ _ _ (.ok ()) => true | _ => false) = [true, true, true] ∧
    ∀ r i txIn result, .finished r i txIn result ∈ s.threads →
      ∀ result', uncachedResult sys verify r i txIn = .ok result' → result = result' := by
  intro sys verify S step submit s
  have hsteps : ∀ n s', Verifies sys verify S s' → Verifies sys verify S (step^[n] s') :=
    fun n s' h => Function.Iterate.rec _ h (fun _ h => h.stepFirst) n
  have hfirst := hsteps 5 _ (.submit (.start 2 2) (signedRequest 0) (.inl rfl))
  have hsecond := hsteps 5 _ (.submit hfirst (signedRequest 1) (.inr rfl))
  have hrun : Verifies sys verify S s :=
    hsteps 3 _ (.submit hsecond (signedRequest 0) (.inl rfl))
  have hne : ((signedRequest 0).tx.txHash sys.blake2b).toOption ≠
      ((signedRequest 1).tx.txHash sys.blake2b).toOption := by decide +kernel
  have hinj : HashesInjective sys.blake2b S := by
    rintro r (rfl | rfl) r' (rfl | rfl) txid h h'
    · rfl
    · exact absurd (congrArg Except.toOption (h.trans h'.symm)) hne
    · exact absurd (congrArg Except.toOption (h'.trans h.symm)) hne
    · rfl
  exact ⟨hrun, by decide +kernel, (caches_keep_verdict hinj hrun).1⟩

end HandshakeNode
