import HandshakeNode.NameCovenant

/-!
# What a covenant does

`Moves` lists, covenant by covenant, under which conditions a covenant is accepted and what it
makes of the state of its name. Every later fact about the states of names is read off it.
-/

namespace HandshakeNode

def CovenantOutput.linked (out : CovenantOutput) : Option NamePrevOutput :=
  out.prevOutputs[out.outputIndex]?

def CovenantOutput.Spends (out : CovenantOutput) (o : OutPoint) : Prop :=
  ∃ prevOutput, out.linked = some prevOutput ∧ prevOutput.outpoint = o

section

variable {out : CovenantOutput}

lemma linkedPrevOutput_eq_ok :
    linkedPrevOutput out.prevOutputs out.outputIndex covenant = .ok prevOutput ↔
      out.linked = some prevOutput := by
  unfold linkedPrevOutput CovenantOutput.linked
  cases out.prevOutputs[out.outputIndex]? with
  | none => simp
  | some p => simp

lemma requireCurrentNameOwner_eq_ok :
    requireCurrentNameOwner out ns covenant = .ok u ↔ out.Spends ns.owner := by
  simp [requireCurrentNameOwner, bind_eq_ok, linkedPrevOutput_eq_ok, CovenantOutput.Spends]

lemma checkStart_eq_ok : checkStart out ns covenant = .ok u ↔ out.start = ns.height := by
  simp [checkStart]

lemma checkClosed_eq_ok : checkClosed state covenant = .ok u ↔ state = .closed := by
  simp [checkClosed]

lemma checkRenewalHash_eq_ok : checkRenewalHash ctx env out item covenant = .ok u ↔
      verifyNameRenewalHash ctx env (covenantHashMust out.covenant item) = .ok true := by
  simp [checkRenewalHash, bind_eq_ok]

end

variable (ctx : NameContext) (env : NameEnv) (nameHash : Hash) (out : CovenantOutput)

/-- A covenant takes the prepared state `ns` of its name to another state. -/
inductive Moves (ns : NameState) : NameState → Prop
  | claim {minted : UInt64} {claimed : Int32} (type : out.covenant.type = .claim)
      (phase : ns.state env.height ctx.params = .opening ∨
        ns.state env.height ctx.params = .locked ∨
        (ns.state env.height ctx.params = .closed ∧ ns.registered = false))
      (fresh : ns.expired = false)
      (reserved : isReservedNameHash ctx ns.nameHash env.height = true)
      (proof : verifyCoinbaseClaimProof ctx out.tx out.outputIndex env = .ok minted)
      (strong : env.deploymentFlags.hardeningActive = true → covenantWeak out.covenant = false)
      (commit : env.mainChainHeight (covenantHashMust out.covenant 4) = .ok claimed)
      (height : 0 ≤ claimed ∧ claimed.toUInt32 = (covenantU32 out.covenant 5).getD 0)
      (newer : ns.claimed < claimed.toUInt32)
      (deflation : checkClaimDeflation ctx env ns claimed out.txOut.value = .ok ()) :
      Moves ns { ns with
        height := env.height
        renewal := env.height
        claimed := claimed.toUInt32
        value := 0
        owner := out.outpoint
        highest := 0
        weak := covenantWeak out.covenant }
  | open (type : out.covenant.type = .open)
      (phase : ns.state env.height ctx.params = .opening) (height : ns.height = env.height)
      (unreserved : ctx.params.nameNoReserved = false →
        isReservedNameHash ctx nameHash env.height = false)
      (unlocked : env.deploymentFlags.icannLockupActive = true →
        isLockedUpNameHash ctx nameHash env.height = false)
      (rollout : hasNameRollout ctx nameHash env.height = true) : Moves ns ns
  | bid (type : out.covenant.type = .bid) (phase : ns.state env.height ctx.params = .bidding)
      (start : out.start = ns.height) : Moves ns ns
  | reveal {prevOutput : NamePrevOutput} (type : out.covenant.type = .reveal)
      (start : out.start = ns.height) (phase : ns.state env.height ctx.params = .reveal)
      (linked : out.linked = some prevOutput) :
      Moves ns (ns.reveal out.outpoint out.txOut.value)
  | redeem {prevOutput : NamePrevOutput} (type : out.covenant.type = .redeem)
      (start : out.start = ns.height)
      (phase : NameStateKind.closed.code ≤ (ns.state env.height ctx.params).code)
      (linked : out.linked = some prevOutput) (loser : prevOutput.outpoint ≠ ns.owner) : Moves ns ns
  | register (type : out.covenant.type = .register) (start : out.start = ns.height)
      (phase : ns.state env.height ctx.params = .closed)
      (renewal : verifyNameRenewalHash ctx env (covenantHashMust out.covenant 3) = .ok true)
      (spends : out.Spends ns.owner) (value : out.txOut.value = ns.value)
      (strong : ¬ (ns.isClaimable env.height ctx.params = true ∧
        env.deploymentFlags.hardeningActive = true ∧ ns.weak = true)) :
      Moves ns { { ns with registered := true, owner := out.outpoint }.setData
        (covenantItem out.covenant 2) with renewal := env.height }
  | update (type : out.covenant.type = .update) (start : out.start = ns.height)
      (phase : ns.state env.height ctx.params = .closed) (spends : out.Spends ns.owner) :
      Moves ns { { ns with owner := out.outpoint }.setData (covenantItem out.covenant 2) with
        transfer := 0 }
  | renew (type : out.covenant.type = .renew) (start : out.start = ns.height)
      (phase : ns.state env.height ctx.params = .closed)
      (mature : ns.renewal + ctx.params.nameTreeInterval ≤ env.height)
      (renewal : verifyNameRenewalHash ctx env (covenantHashMust out.covenant 2) = .ok true)
      (spends : out.Spends ns.owner) : Moves ns (ns.renew out.outpoint env.height)
  | transfer (type : out.covenant.type = .transfer) (start : out.start = ns.height)
      (phase : ns.state env.height ctx.params = .closed) (still : ns.transfer = 0)
      (spends : out.Spends ns.owner) :
      Moves ns { ns with owner := out.outpoint, transfer := env.height }
  | finalize (type : out.covenant.type = .finalize) (start : out.start = ns.height)
      (phase : ns.state env.height ctx.params = .closed) (transferring : ns.transfer ≠ 0)
      (mature : ns.transfer + ctx.params.nameTransferLockup ≤ env.height)
      (weak : covenantWeak out.covenant = ns.weak)
      (claimed : (covenantU32 out.covenant 4).getD 0 = ns.claimed)
      (renewals : (covenantU32 out.covenant 5).getD 0 = ns.renewals)
      (renewal : verifyNameRenewalHash ctx env (covenantHashMust out.covenant 6) = .ok true)
      (spends : out.Spends ns.owner) : Moves ns (ns.renew out.outpoint env.height)
  | revoke (type : out.covenant.type = .revoke) (start : out.start = ns.height)
      (phase : ns.state env.height ctx.params = .closed) (still : ns.revoked = 0)
      (spends : out.Spends ns.owner) :
      Moves ns { ns with revoked := env.height, transfer := 0, data := [] }

/-- The state that a covenant finds: a new one for a name without a state, and a fresh start for an
expired one. -/
def prepared (covenant : Covenant) (ns : NameState) : NameState :=
  (if ns.isNull then ns.set (covenantItem covenant 2) env.height else ns).maybeExpire env.height
    ctx.params

variable {ctx env nameHash out} {ns ns' : NameState}

lemma prepareNameState_eq_ok : prepareNameState ctx env covenant ns = .ok ns' ↔
      (ns.isNull = true → covenant.type = .claim ∨ covenant.type = .open) ∧
        ns' = prepared ctx env covenant ns := by
  simp only [prepareNameState, bind_eq_ok, exists_failIf_ok, pure_eq_ok,
    not_and_or, not_not, Bool.not_eq_true]
  constructor
  · rintro ⟨h | h, rfl⟩
    · exact ⟨by simp [h], rfl⟩
    · exact ⟨fun _ => h, rfl⟩
  · rintro ⟨h, rfl⟩
    refine ⟨?_, rfl⟩
    cases hnull : ns.isNull with
    | false => exact .inl rfl
    | true => exact .inr (h hnull)

lemma moves_of_claim (type : out.covenant.type = .claim)
    (h : applyClaim ctx env out (ns.state env.height ctx.params) ns = .ok ns') :
    Moves ctx env nameHash out ns ns' := by
  simp only [applyClaim, bind_eq_ok, exists_failIf_ok, pure_eq_ok] at h
  obtain ⟨phase, hfresh, minted, proof, strong, claimed, commit, height, newer, _, deflation, rfl⟩ :=
    h
  rw [not_or, Bool.not_eq_true, Bool.not_eq_false] at hfresh
  rw [not_or, Int32.not_lt, not_not] at height
  rw [UInt32.not_le] at newer
  exact .claim type (not_not.1 phase) hfresh.1 hfresh.2 proof (by simpa using strong) commit height
    newer deflation

lemma moves_of_open (type : out.covenant.type = .open)
    (h : applyOpen ctx env nameHash (ns.state env.height ctx.params) ns = .ok ns') :
    Moves ctx env nameHash out ns ns' := by
  simp only [applyOpen, bind_eq_ok, exists_failIf_ok, pure_eq_ok,
    not_and, not_not, Bool.not_eq_true, Bool.not_eq_false] at h
  obtain ⟨phase, height, unreserved, unlocked, rollout, rfl⟩ := h
  exact .open type phase height unreserved unlocked rollout

lemma moves_of_bid (type : out.covenant.type = .bid)
    (h : applyBid out (ns.state env.height ctx.params) ns = .ok ns') :
    Moves ctx env nameHash out ns ns' := by
  simp only [applyBid, bind_eq_ok, failIf_eq_ok, checkStart_eq_ok, exists_const,
    pure_eq_ok, not_not] at h
  obtain ⟨phase, start, rfl⟩ := h
  exact .bid type phase start

lemma moves_of_reveal (type : out.covenant.type = .reveal)
    (h : applyReveal out (ns.state env.height ctx.params) ns = .ok ns') :
    Moves ctx env nameHash out ns ns' := by
  simp only [applyReveal, bind_eq_ok, failIf_eq_ok, checkStart_eq_ok, linkedPrevOutput_eq_ok,
    exists_const, pure_eq_ok, not_not] at h
  obtain ⟨start, phase, prevOutput, linked, rfl⟩ := h
  exact .reveal type start phase linked

lemma applyRedeem_eq_ok : applyRedeem out state ns = .ok ns' ↔ out.start = ns.height ∧
      NameStateKind.closed.code ≤ state.code ∧
      (∃ prevOutput, out.linked = some prevOutput ∧ prevOutput.outpoint ≠ ns.owner) ∧ ns' = ns := by
  simp only [applyRedeem, bind_eq_ok, failIf_eq_ok, checkStart_eq_ok, linkedPrevOutput_eq_ok,
    exists_const, pure_eq_ok, not_lt, ← exists_and_right, and_assoc, eq_comm (a := ns)]

lemma moves_of_redeem (type : out.covenant.type = .redeem)
    (h : applyRedeem out (ns.state env.height ctx.params) ns = .ok ns') :
    Moves ctx env nameHash out ns ns' := by
  obtain ⟨start, phase, ⟨prevOutput, linked, loser⟩, rfl⟩ := applyRedeem_eq_ok.1 h
  exact .redeem type start phase linked loser

lemma applyRegister_eq_ok :
    applyRegister ctx env out state ns = .ok ns' ↔ out.start = ns.height ∧ state = .closed ∧
      verifyNameRenewalHash ctx env (covenantHashMust out.covenant 3) = .ok true ∧
      out.Spends ns.owner ∧ out.txOut.value = ns.value ∧
      ¬ (ns.isClaimable env.height ctx.params = true ∧
        env.deploymentFlags.hardeningActive = true ∧ ns.weak = true) ∧
      ns' = { { ns with registered := true, owner := out.outpoint }.setData
        (covenantItem out.covenant 2) with renewal := env.height } := by
  simp only [applyRegister, bind_eq_ok, failIf_eq_ok, checkStart_eq_ok, checkClosed_eq_ok,
    checkRenewalHash_eq_ok, linkedPrevOutput_eq_ok, exists_const, pure_eq_ok,
    not_not, CovenantOutput.Spends, ← exists_and_right, and_assoc, eq_comm (b := ns')]

lemma moves_of_register (type : out.covenant.type = .register)
    (h : applyRegister ctx env out (ns.state env.height ctx.params) ns = .ok ns') :
    Moves ctx env nameHash out ns ns' := by
  obtain ⟨start, phase, renewal, spends, value, strong, rfl⟩ := applyRegister_eq_ok.1 h
  exact .register type start phase renewal spends value strong

lemma moves_of_update (type : out.covenant.type = .update)
    (h : applyUpdate out (ns.state env.height ctx.params) ns = .ok ns') :
    Moves ctx env nameHash out ns ns' := by
  simp only [applyUpdate, bind_eq_ok, checkStart_eq_ok, checkClosed_eq_ok,
    requireCurrentNameOwner_eq_ok, exists_const, pure_eq_ok] at h
  obtain ⟨start, phase, spends, rfl⟩ := h
  exact .update type start phase spends

lemma moves_of_renew (type : out.covenant.type = .renew)
    (h : applyRenew ctx env out (ns.state env.height ctx.params) ns = .ok ns') :
    Moves ctx env nameHash out ns ns' := by
  simp only [applyRenew, bind_eq_ok, failIf_eq_ok, checkStart_eq_ok, checkClosed_eq_ok,
    checkRenewalHash_eq_ok, requireCurrentNameOwner_eq_ok, exists_const,
    pure_eq_ok, UInt32.not_lt] at h
  obtain ⟨start, phase, mature, renewal, spends, rfl⟩ := h
  exact .renew type start phase mature renewal spends

lemma moves_of_transfer (type : out.covenant.type = .transfer)
    (h : applyTransfer env out (ns.state env.height ctx.params) ns = .ok ns') :
    Moves ctx env nameHash out ns ns' := by
  simp only [applyTransfer, bind_eq_ok, failIf_eq_ok, checkStart_eq_ok, checkClosed_eq_ok,
    requireCurrentNameOwner_eq_ok, exists_const, pure_eq_ok, not_not] at h
  obtain ⟨start, phase, still, spends, rfl⟩ := h
  exact .transfer type start phase still spends

lemma moves_of_finalize (type : out.covenant.type = .finalize)
    (h : applyFinalize ctx env out (ns.state env.height ctx.params) ns = .ok ns') :
    Moves ctx env nameHash out ns ns' := by
  simp only [applyFinalize, bind_eq_ok, failIf_eq_ok, checkStart_eq_ok, checkClosed_eq_ok,
    checkRenewalHash_eq_ok, requireCurrentNameOwner_eq_ok, exists_const,
    pure_eq_ok, UInt32.not_lt, not_or, not_not] at h
  obtain ⟨start, phase, transferring, mature, ⟨weak, claimed, renewals⟩, renewal, spends, rfl⟩ := h
  exact .finalize type start phase transferring mature weak claimed renewals renewal spends

lemma moves_of_revoke (type : out.covenant.type = .revoke)
    (h : applyRevoke env out (ns.state env.height ctx.params) ns = .ok ns') :
    Moves ctx env nameHash out ns ns' := by
  simp only [applyRevoke, bind_eq_ok, failIf_eq_ok, checkStart_eq_ok, checkClosed_eq_ok,
    requireCurrentNameOwner_eq_ok, exists_const, pure_eq_ok, not_not] at h
  obtain ⟨start, phase, still, spends, rfl⟩ := h
  exact .revoke type start phase still spends

lemma applyCovenant_ok (h : applyCovenant ctx env nameHash out ns = .ok ns') :
    (ns.isNull = true → out.covenant.type = .claim ∨ out.covenant.type = .open) ∧
      Moves ctx env nameHash out (prepared ctx env out.covenant ns) ns' := by
  simp only [applyCovenant, bind_eq_ok, prepareNameState_eq_ok] at h
  obtain ⟨p, ⟨hnull, rfl⟩, h⟩ := h
  refine ⟨hnull, ?_⟩
  split at h
  · exact moves_of_claim ‹_› h
  · exact moves_of_open ‹_› h
  · exact moves_of_bid ‹_› h
  · exact moves_of_reveal ‹_› h
  · exact moves_of_redeem ‹_› h
  · exact moves_of_register ‹_› h
  · exact moves_of_update ‹_› h
  · exact moves_of_renew ‹_› h
  · exact moves_of_transfer ‹_› h
  · exact moves_of_finalize ‹_› h
  · exact moves_of_revoke ‹_› h
  · cases h

lemma covenantHash_of_item (hitem : covenantItem covenant index = h.bytes)
    : covenantHash covenant index = some h := by
  unfold covenantHash
  rw [dif_pos (by rw [hitem, h.length_bytes])]
  exact congrArg some (Hash.ext hitem)

lemma covenantHashMust_of_item (hitem : covenantItem covenant index = h.bytes) :
    covenantHashMust covenant index = h := by
  rw [covenantHashMust, covenantHash_of_item hitem]
  rfl

lemma verifySpends_eq_ok : ∀ {prevs}, verifySpends ctx tx prevs = .ok u ↔
      ∀ p ∈ prevs, verifyCovenantSpend ctx p.1 tx.txOut[p.2]? = .ok ()
  | [] => by simp [verifySpends]
  | p :: prevs => by
    simp [verifySpends, bind_eq_ok, verifySpends_eq_ok,
      Unique.exists_iff]

namespace NameState

lemma state_congr (hheight : ns.height = ns'.height)
    (hrevoked : ns.revoked = ns'.revoked) (hclaimed : ns.claimed = ns'.claimed) (height : UInt32)
    (params : Params) : ns.state height params = ns'.state height params := by
  simp [state, hheight, hrevoked, hclaimed]

@[simp] lemma nameHash_maybeExpire (ns : NameState) (height : UInt32) (params : Params) :
    (ns.maybeExpire height params).nameHash = ns.nameHash := by
  unfold maybeExpire
  split_ifs <;> rfl

lemma setData_eq (ns : NameState) (data : Bytes) :
    ns.setData data = { ns with data := if data.length > 0 then data else ns.data } := by
  unfold setData
  split_ifs <;> rfl

@[simp] lemma nameHash_setData (ns : NameState) (data : Bytes) :
    (ns.setData data).nameHash = ns.nameHash := by
  unfold setData
  split_ifs <;> rfl

@[simp] lemma nameHash_reveal (ns : NameState) (o : OutPoint) (value : Int64) :
    (ns.reveal o value).nameHash = ns.nameHash := by
  unfold reveal
  split_ifs <;> rfl

end NameState

lemma prepared_of_not_expired (hnull : ns.isNull = false)
    (hexpired : ns.isExpired env.height ctx.params = false) (covenant : Covenant) :
    prepared ctx env covenant ns = ns := by
  simp [prepared, hnull, NameState.maybeExpire, hexpired]

lemma NameState.isExpired_of_not_closed {height : UInt32} (hrevoked : ns.revoked = 0)
    (hphase : ns.state height params ≠ .closed) : ns.isExpired height params = false := by
  simp [isExpired, hrevoked, isClosed, hphase]

lemma applyCovenant_reveal {prevOutput : NamePrevOutput} (type : out.covenant.type = .reveal)
    (hnull : ns.isNull = false) (hrevoked : ns.revoked = 0) (start : out.start = ns.height)
    (phase : ns.state env.height ctx.params = .reveal) (linked : out.linked = some prevOutput) :
    applyCovenant ctx env nameHash out ns = .ok (ns.reveal out.outpoint out.txOut.value) := by
  have hprepared : prepareNameState ctx env out.covenant ns = .ok ns := by
    refine prepareNameState_eq_ok.2 ⟨by simp [hnull], ?_⟩
    rw [prepared_of_not_expired hnull (NameState.isExpired_of_not_closed hrevoked (by simp [phase]))]
  have hstart : checkStart out ns "REVEAL" = .ok () := checkStart_eq_ok.2 start
  unfold applyCovenant
  simp only [hprepared, ok_bind, type, applyReveal, hstart, phase,
    linkedPrevOutput_eq_ok.2 linked]
  rfl

@[simp] lemma nameHash_prepared (covenant : Covenant) :
    (prepared ctx env covenant ns).nameHash = ns.nameHash := by
  unfold prepared
  split_ifs <;> simp [NameState.set, NameState.reset]

lemma Moves.nameHash_eq (h : Moves ctx env nameHash out ns ns') : ns'.nameHash = ns.nameHash := by
  cases h <;> simp [NameState.renew]

lemma applyCovenant_nameHash (h : applyCovenant ctx env nameHash out ns = .ok ns') :
    ns'.nameHash = ns.nameHash := by
  rw [(applyCovenant_ok h).2.nameHash_eq, nameHash_prepared]

namespace NameState

@[simp] lemma height_setData (ns : NameState) (data : Bytes) :
    (ns.setData data).height = ns.height := by
  unfold setData
  split_ifs <;> rfl

@[simp] lemma height_reveal (ns : NameState) (o : OutPoint) (value : Int64) :
    (ns.reveal o value).height = ns.height := by
  unfold reveal
  split_ifs <;> rfl

lemma height_maybeExpire (ns : NameState) (height : UInt32) (params : Params) :
    (ns.maybeExpire height params).height = ns.height ∨
      (ns.maybeExpire height params).height = height := by
  unfold maybeExpire
  split_ifs
  · exact .inr rfl
  · exact .inl rfl

end NameState

lemma Moves.height_eq (h : Moves ctx env nameHash out ns ns') :
    ns'.height = ns.height ∨ ns'.height = env.height := by
  cases h with
  | claim => exact .inr rfl
  | _ => exact .inl (by simp [NameState.renew])

lemma height_prepared (covenant : Covenant) : (prepared ctx env covenant ns).height = env.height ∨
      ns.isNull = false ∧ (prepared ctx env covenant ns).height = ns.height := by
  unfold prepared
  cases hnull : ns.isNull with
  | true =>
    rcases (ns.set (covenantItem covenant 2) env.height).height_maybeExpire env.height
      ctx.params with h | h
    · exact .inl h
    · exact .inl h
  | false =>
    rcases ns.height_maybeExpire env.height ctx.params with h | h
    · exact .inr ⟨rfl, h⟩
    · exact .inl h

lemma applyCovenant_height_ne_zero (hheight : env.height ≠ 0)
    (hns : ns.isNull = true ∨ ns.height ≠ 0) (h : applyCovenant ctx env nameHash out ns = .ok ns') :
    ns'.height ≠ 0 := by
  have hprepared : (prepared ctx env out.covenant ns).height ≠ 0 := by
    rcases height_prepared out.covenant with hp | ⟨hnull, hp⟩
    · rwa [hp]
    · rw [hp]
      exact hns.resolve_left (by simp [hnull])
  rcases (applyCovenant_ok h).2.height_eq with h | h
  · rwa [h]
  · rwa [h]

end HandshakeNode
