import HandshakeNode.Lib.Matching
import HandshakeNode.ScriptEngine

/-!
# Multiple signatures

`OP_CHECKMULTISIG` gives its signatures to its keys from the top of the stack on and never goes
back, and still succeeds whenever there is an order-preserving choice of keys.
The main result is `checkMultiSig_matches`.
-/

namespace HandshakeNode

open Matching Ask

namespace Stack

lemma popByteArray_ok {s s' : Stack} (h : s.popByteArray = .ok (so, s')) :
    s = { s' with stk := so :: s'.stk } := by
  obtain ⟨stk, minimal⟩ := s
  cases stk with
  | nil => cases h
  | cons x stk =>
    cases h
    rfl

lemma popByteArrays_ok : ∀ {n} {s s' : Stack} {sos}, s.popByteArrays n = .ok (sos, s') →
    sos.length = n ∧ s = { s' with stk := sos ++ s'.stk }
  | 0, s, s', sos, h => by
    cases h
    exact ⟨rfl, rfl⟩
  | n + 1, s, s', sos, h => by
    simp only [popByteArrays, bind_eq_ok, Prod.exists] at h
    obtain ⟨so, s1, hso, sos, _, hsos, rfl, rfl⟩ := h
    obtain ⟨rfl, rfl⟩ := popByteArrays_ok hsos
    exact ⟨rfl, popByteArray_ok hso⟩

lemma popInt_ok {s s' : Stack} (h : s.popInt = .ok (n, s')) : ∃ so,
    s = { s' with stk := so :: s'.stk } ∧ makeScriptNum so s'.verifyMinimalData 4 = .ok n := by
  simp only [popInt, bind_eq_ok, Prod.exists] at h
  obtain ⟨so, _, hso, _, hn, rfl, rfl⟩ := h
  exact ⟨so, popByteArray_ok hso, hn⟩

end Stack

/-- A count of the keys or signatures is not clamped. -/
theorem ScriptNum.toNat_int32 {n : ScriptNum} (hneg : 0 ≤ n.int32)
    (hmax : n.int32 ≤ maxPubKeysPerMultiSig) : (n.int32.toNat : ℤ) = n := by
  unfold int32 maxPubKeysPerMultiSig at *
  omega

def SigVerifies (c : SigChecks) (verify : SigQuery → Bool) (script sig pubKey : Bytes) : Prop :=
  sig ≠ [] ∧ c.parseSignature sig.dropLast = .ok true ∧ c.parsePubKey pubKey = true ∧
    ∃ hash, c.sigHash script (sigHashType sig) = .ok hash ∧
      verify ⟨hash, sig.dropLast, pubKey⟩ = true

def ParsedSigInfo.Ok (c : SigChecks) (s : ParsedSigInfo) : Prop :=
  s.parsed = true → c.parseSignature s.signature.dropLast = .ok s.parsedSignature

lemma ParsedSigInfo.Ok.parse {s s' : ParsedSigInfo} (hs : s.Ok c) (h : s.parse c = .ok s') :
    s'.Ok c ∧ s'.signature = s.signature ∧
      c.parseSignature s.signature.dropLast = .ok s'.parsedSignature := by
  unfold ParsedSigInfo.parse at h
  split_ifs at h with hp
  · cases h
    exact ⟨hs, rfl, hs hp⟩
  · simp only [bind_eq_ok, pure_eq_ok] at h
    obtain ⟨_, -, parsed, hparse, rfl⟩ := h
    exact ⟨fun _ => hparse, rfl, hparse⟩

lemma checkSigOfKey_ok {s s' : ParsedSigInfo} (hs : s.Ok c)
    (h : (checkSigOfKey c script s pubKey).run verify = .ok (s', valid)) :
    s'.Ok c ∧ s'.signature = s.signature ∧
      (valid = true ↔ SigVerifies c verify script s.signature pubKey) := by
  unfold checkSigOfKey at h
  by_cases hempty : s.signature = []
  · rw [if_pos hempty] at h
    cases h
    exact ⟨hs, rfl, by simp [SigVerifies, hempty]⟩
  rw [if_neg hempty, run_bind, bind_eq_ok, run_liftM] at h
  obtain ⟨s1, hparse, h⟩ := h
  obtain ⟨hs1, hsig, hparsed⟩ := hs.parse hparse
  cases hsome : s1.parsedSignature with
  | false =>
    simp only [hsome] at h
    cases h
    exact ⟨hs1, hsig, by simp [SigVerifies, hparsed, hsome]⟩
  | true =>
    cases hkey : c.parsePubKey pubKey with
    | false =>
      simp only [hsome, hkey, Bool.not_true, Bool.false_eq_true, if_false, run_bind, bind_eq_ok] at h
      obtain ⟨_, -, h⟩ := h
      cases h
      exact ⟨hs1, hsig, by simp [SigVerifies, hkey]⟩
    | true =>
      simp only [hsome, hkey, Bool.not_true, Bool.false_eq_true, if_false, run_bind, bind_eq_ok,
        run_liftM] at h
      obtain ⟨_, -, hash, hhash, _, hvalid, h⟩ := h
      cases h
      cases hvalid
      rw [hsig] at hhash
      exact ⟨hs1, hsig, by simp [SigVerifies, hempty, hparsed, hsome, hkey, hhash, hsig]⟩

lemma checkSigs_ok : ∀ {pubKeys} {sigs : List ParsedSigInfo}, (∀ s ∈ sigs, s.Ok c) →
    (checkSigs c script sigs pubKeys).run verify = .ok success →
    (success = true ↔ Matches (SigVerifies c verify script) (sigs.map (·.signature)) pubKeys)
  | pubKeys, [], _, h => by
    rw [checkSigs] at h
    cases h
    simp [matches_nil]
  | [], s :: sigs, _, h => by
    cases h
    simp [not_matches_of_length_lt]
  | pubKey :: pubKeys, s :: sigs, hsigs, h => by
    unfold checkSigs at h
    split_ifs at h with hfew
    · cases h
      simp [not_matches_of_length_lt, hfew]
    rw [run_bind, bind_eq_ok] at h
    obtain ⟨⟨s', valid⟩, hround, h⟩ := h
    obtain ⟨hs, hsigs⟩ := List.forall_mem_cons.1 hsigs
    obtain ⟨hs', hsig, hvalid⟩ := checkSigOfKey_ok hs hround
    rw [List.map_cons]
    dsimp only at h
    split_ifs at h with hv
    · rw [checkSigs_ok hsigs h, matches_cons_of_rel (hvalid.1 hv)]
    · rw [checkSigs_ok (List.forall_mem_cons.2 ⟨hs', hsigs⟩) h, List.map_cons, hsig,
        matches_cons_of_not_rel (mt hvalid.2 hv)]

/-- The two counts, the keys, the signatures and the dummy are replaced by true when there is an
order-preserving choice of a key for each signature under which it verifies, and else by false. -/
def ChecksMultiSig (c : SigChecks) (verify : SigQuery → Bool) (vm vm' : ScriptEngine) : Prop :=
  ∃ numKeys pubKeys numSigs signatures dummy rest script success,
    vm.dstack.stk = numKeys :: (pubKeys ++ numSigs :: (signatures ++ dummy :: rest)) ∧
    makeScriptNum numKeys vm.dstack.verifyMinimalData 4 = .ok pubKeys.length ∧
    makeScriptNum numSigs vm.dstack.verifyMinimalData 4 = .ok signatures.length ∧
    multiSigScript c vm signatures = .ok script ∧
    vm'.dstack = { vm.dstack with stk := fromBool success :: rest } ∧
    (success = true ↔ Matches (SigVerifies c verify script) signatures pubKeys)

theorem checkMultiSig_matches {vm vm' : ScriptEngine}
    (h : (opcodeCheckMultiSig c vm).run verify = .ok vm') : ChecksMultiSig c verify vm vm' := by
  simp only [opcodeCheckMultiSig, run_bind, run_liftM, run_pure, bind_eq_ok,
    failIf_eq_ok, Prod.exists, exists_const, Except.ok.injEq] at h
  obtain ⟨-, numKeys, s1, hkeys, hneg, hmax, -, pubKeys, s2, hpubKeys, numSigs, s3, hsigs, hneg',
    hmax', signatures, s4, hsignatures, dummy, s5, hdummy, -, script, hscript, success, hloop, -,
    rfl⟩ := h
  obtain ⟨numKeys', hs, hnumKeys⟩ := Stack.popInt_ok hkeys
  obtain ⟨hlen, rfl⟩ := Stack.popByteArrays_ok hpubKeys
  obtain ⟨numSigs', rfl, hnumSigs⟩ := Stack.popInt_ok hsigs
  obtain ⟨hlen', rfl⟩ := Stack.popByteArrays_ok hsignatures
  obtain rfl := Stack.popByteArray_ok hdummy
  refine ⟨numKeys', pubKeys, numSigs', signatures, dummy, s5.stk, script, success, ?_, ?_, ?_,
    hscript, ?_, ?_⟩
  · rw [hs]
  · rw [hs, hnumKeys, hlen, ScriptNum.toNat_int32 (not_lt.1 hneg) (not_lt.1 hmax)]
  · rw [hs, hnumSigs, hlen', ScriptNum.toNat_int32 (not_lt.1 hneg')
      ((not_lt.1 hmax').trans (not_lt.1 hmax))]
  · rw [hs]
    rfl
  · have hmap : (signatures.map fun signature => ({ signature } : ParsedSigInfo)).map
        (·.signature) = signatures := by
      rw [List.map_map]
      exact List.map_id _
    rw [checkSigs_ok ?_ hloop, hmap]
    simp [ParsedSigInfo.Ok]

def plainChecks : SigChecks where
  removeOpcodeByData script _ := (script, false)
  checkHashTypeEncoding _ := .ok ()
  parseSignature _ := .ok true
  checkPubKeyEncoding _ := .ok ()
  parsePubKey _ := true
  sigHash _ _ := .ok Hash.zero

def threeKeys : ScriptEngine where
  dstack := { stk := [[3], [2], [3], [4], [2], [0x10, 1], [0x20, 1], []] }
  flags := 0
  tx := ⟨0, [], [], 0⟩
  txIdx := 0
  numOps := 1
  tapscript := false
  witnessVersion := some 0
  subScript := []

theorem checkMultiSig_matches_threeKeys :
    ChecksMultiSig plainChecks (fun q => q.pubKey ∈ ([[2], [4]] : List Bytes)) threeKeys
      { threeKeys with numOps := 4, dstack := { stk := [[1]] } } :=
  checkMultiSig_matches rfl

end HandshakeNode
