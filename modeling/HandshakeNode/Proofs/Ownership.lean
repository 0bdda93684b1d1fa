import HandshakeNode.Proofs.NameHistory
import HandshakeNode.Proofs.NameUndo

/-!
# Who owns a name

The owner of a name is an output of the chain that nobody has spent and that agrees with the state
of the name. A covenant moves the owner from the coin that it spends to its own output, and the rules
for spending covenants keep the coin of an owner from going anywhere else.
-/

namespace HandshakeNode

open LittleEndian List Option

namespace NameState

variable {ns : NameState} {height : UInt32}

def closing (ns : NameState) (params : Params) : ℕ :=
  ns.height.toNat +
    if ns.claimed ≠ 0 then params.nameLockupPeriod.toNat
    else params.nameTreeInterval.toNat + 1 + params.nameBiddingPeriod.toNat +
      params.nameRevealPeriod.toNat

lemma closing_congr {ns' : NameState} (hheight : ns'.height = ns.height)
    (hclaimed : ns'.claimed = ns.claimed) : ns'.closing params = ns.closing params := by
  simp [closing, hheight, hclaimed]

lemma state_eq_closed_iff (hparams : params.Bounded) (hns : ns.height.toNat < 2 ^ 31) :
    ns.state height params = .closed ↔ ns.revoked = 0 ∧ ns.closing params ≤ height.toNat := by
  obtain ⟨hauction, hlockup, -, -⟩ := hparams
  unfold state closing
  simp only [UInt32.lt_iff_toNat_lt]
  split_ifs <;> simp_all <;> omega

lemma revoked_eq_zero (h : ns.state height params ≠ .revoked) : ns.revoked = 0 := by
  by_contra hrevoked
  exact h (by simp [state, hrevoked])

end NameState

/-- An output by which a name is held, as far as the state of the name has to agree with it. -/
inductive Deed (ns : NameState) (txOut : TxOut) : Prop
  | claim (type : txOut.covenant.type = .claim) (registered : ns.registered = false)
      (transfer : ns.transfer = 0)
  | reveal (type : txOut.covenant.type = .reveal) (registered : ns.registered = false)
      (transfer : ns.transfer = 0) (value : txOut.value = ns.highest)
  | held (type : txOut.covenant.type ∈ [.register, .update, .renew, .finalize])
      (registered : ns.registered = true) (transfer : ns.transfer = 0)
      (value : txOut.value = ns.value)
  | transfer (type : txOut.covenant.type = .transfer) (registered : ns.registered = true)
      (transfer : ns.transfer ≠ 0) (value : txOut.value = ns.value)

inductive Passes (ns : NameState) (txOut : TxOut) : Prop
  | unregistered (type : txOut.covenant.type = .register ∨ txOut.covenant.type = .redeem)
      (registered : ns.registered = false) (transfer : ns.transfer = 0)
  | registered (type : txOut.covenant.type ∈ [.update, .renew, .transfer, .revoke, .finalize])
      (registered : ns.registered = true) (value : txOut.value = ns.value)

lemma verifyRevealSpend_ok (h : verifyRevealSpend p output = .ok u) :
    sameNameAndHeight p.covenant output.covenant = true ∧
      (output.covenant.type = .register ∨ output.covenant.type = .redeem) := by
  unfold verifyRevealSpend at h
  split at h
  · simp only [bind_eq_ok, exists_failIf_ok, Bool.not_eq_false] at h
    exact ⟨h.1, .inl ‹_›⟩
  · simp only [bind_eq_ok, failIf_eq_ok, exists_const, Bool.not_eq_false] at h
    exact ⟨h.2, .inr ‹_›⟩
  · cases h

lemma verifyOwnerSpend_ok (h : verifyOwnerSpend p output = .ok u) :
    sameNameAndHeight p.covenant output.covenant = true ∧ output.value = p.amount ∧
      output.covenant.type ∈ [.update, .renew, .transfer, .revoke] := by
  simp only [verifyOwnerSpend, bind_eq_ok, exists_failIf_ok, not_not]
    at h
  obtain ⟨hvalue, -, h⟩ := h
  split at h
  case h_5 => cases h
  all_goals
    rw [failIf_eq_ok, Bool.not_eq_false] at h
    exact ⟨h, hvalue, by simp [*]⟩

lemma verifyTransferSpend_ok (h : verifyTransferSpend p output = .ok u) :
    sameNameAndHeight p.covenant output.covenant = true ∧ output.value = p.amount ∧
      output.covenant.type ∈ [.update, .renew, .revoke, .finalize] := by
  simp only [verifyTransferSpend, bind_eq_ok, exists_failIf_ok, not_not]
    at h
  obtain ⟨hvalue, h⟩ := h
  split at h
  case h_5 => cases h
  all_goals
    simp only [bind_eq_ok, exists_failIf_ok, Bool.not_eq_false] at h
    exact ⟨h.1, hvalue, by simp [*]⟩

lemma Deed.spend (hd : Deed ns txOut) (hp : Pays txOut p.amount p.address p.covenant)
    (h : verifyCovenantSpend ctx p (some output) = .ok ()) :
    sameNameAndHeight txOut.covenant output.covenant = true ∧ Passes ns output := by
  obtain ⟨hamount, -, hcovenant⟩ := hp
  unfold verifyCovenantSpend at h
  rw [hcovenant] at h
  cases hd with
  | claim type registered transfer | reveal type registered transfer value =>
    rw [type] at h
    obtain ⟨hsame, htype⟩ := verifyRevealSpend_ok h
    exact ⟨hcovenant ▸ hsame, .unregistered htype registered transfer⟩
  | held type registered transfer value =>
    have h : verifyOwnerSpend p output = .ok () := by
      simp only [mem_cons, not_mem_nil, or_false] at type
      rcases type with type | type | type | type <;> rwa [type] at h
    obtain ⟨hsame, hvalue, htype⟩ := verifyOwnerSpend_ok h
    refine ⟨hcovenant ▸ hsame, .registered ?_ registered (by rw [hvalue, hamount, value])⟩
    simp only [mem_cons] at htype ⊢
    tauto
  | transfer type registered transfer value =>
    rw [type] at h
    obtain ⟨hsame, hvalue, htype⟩ := verifyTransferSpend_ok h
    refine ⟨hcovenant ▸ hsame, .registered ?_ registered (by rw [hvalue, hamount, value])⟩
    simp only [mem_cons] at htype ⊢
    tauto

lemma Deed.missing (hd : Deed ns txOut) (hp : Pays txOut p.amount p.address p.covenant) :
    verifyMissingSpend p ≠ .ok () := by
  intro h
  unfold verifyMissingSpend at h
  rw [hp.covenant] at h
  cases hd with
  | held type =>
    simp only [mem_cons, not_mem_nil, or_false] at type
    rcases type with type | type | type | type <;> simp [type] at h
  | claim type | reveal type | transfer type => simp [type] at h

lemma verifyCoinbaseClaimProof_height (hn : tx.txOut[n]? = some txOut)
    (h : verifyCoinbaseClaimProof ctx tx n env = .ok minted) :
    covenantU32 txOut.covenant 1 = some env.height := by
  unfold verifyCoinbaseClaimProof at h
  rw [hn] at h
  split at h
  · rename_i txIn txOut' _ heq
    cases heq
    split at h
    · simp only [bind_eq_ok, exists_failIf_ok, not_not] at h
      exact h.2.1
    · cases h
  · cases h

lemma sameNameAndHeight_hash (h : sameNameAndHeight a b = true) :
    covenantHash a 0 = covenantHash b 0 := by
  unfold sameNameAndHeight at h
  split at h
  · simp_all
  · cases h

/-- The owner of a name is an unspent output for the name. -/
structure Owned (outs : List (OutPoint × TxOut)) (spent : List OutPoint) (nameHash : Hash)
    (ns : NameState) : Prop where
  unspent : ns.owner ∉ spent
  deed : ∃ txOut, (ns.owner, txOut) ∈ outs ∧ covenantHash txOut.covenant 0 = some nameHash ∧
    covenantU32 txOut.covenant 1 = some ns.height ∧ Deed ns txOut

structure Titled (params : Params) (outs : List (OutPoint × TxOut)) (spent : List OutPoint)
    (height : ℕ) (nameHash : Hash) (ns : NameState) : Prop where
  named : ns.nameHash = nameHash
  height_le : ns.height.toNat ≤ height
  closed : ns.registered = true → ns.closing params ≤ height
  unowned : ns.revoked = 0 → isNullNameOwner ns.owner = true →
    ns.registered = false ∧ ns.transfer = 0
  owned : ns.revoked = 0 → isNullNameOwner ns.owner = false → Owned outs spent nameHash ns

section

variable {env : NameEnv} {out : CovenantOutput} {outs : List (OutPoint × TxOut)}

lemma Titled.transfer_eq_zero (h : Titled params outs spent height nameHash ns)
    (hrevoked : ns.revoked = 0) (hregistered : ns.registered = false) : ns.transfer = 0 := by
  cases howner : isNullNameOwner ns.owner with
  | true => exact (h.unowned hrevoked howner).2
  | false =>
    obtain ⟨txOut, -, -, -, hdeed⟩ := (h.owned hrevoked howner).deed
    cases hdeed with
    | claim _ _ transfer | reveal _ _ transfer _ => exact transfer
    | held _ registered _ _ | transfer _ registered _ _ => simp [hregistered] at registered

lemma Titled.registered_eq_false (hparams : params.Bounded) (hlt : height < 2 ^ 31)
    (h : Titled params outs spent height nameHash ns) (hheight : env.height.toNat = height)
    (hrevoked : ns.revoked = 0) (hphase : ns.state env.height params ≠ .closed) :
    ns.registered = false := by
  by_contra hregistered
  refine hphase ((NameState.state_eq_closed_iff hparams (h.height_le.trans_lt hlt)).2 ⟨hrevoked, ?_⟩)
  rw [hheight]
  exact h.closed (by simpa using hregistered)

lemma isNullNameOwner_null : isNullNameOwner nullNameOwner = true := by decide

lemma titled_of_unowned (hname : ns.nameHash = nameHash) (hheight : ns.height.toNat ≤ height)
    (howner : isNullNameOwner ns.owner = true) (hregistered : ns.registered = false)
    (htransfer : ns.transfer = 0) : Titled params outs spent height nameHash ns where
  named := hname
  height_le := hheight
  closed := by simp [hregistered]
  unowned := fun _ _ => ⟨hregistered, htransfer⟩
  owned := by simp [howner]

lemma Titled.prepared (h : Titled ctx.params outs spent height nameHash ns)
    (hheight : env.height.toNat = height) (covenant : Covenant) :
    Titled ctx.params outs spent height nameHash (prepared ctx env covenant ns) := by
  have hexpire : ∀ ns, Titled ctx.params outs spent height nameHash ns →
      Titled ctx.params outs spent height nameHash (ns.maybeExpire env.height ctx.params) := by
    intro ns h
    unfold NameState.maybeExpire
    split_ifs
    · exact titled_of_unowned h.named hheight.le isNullNameOwner_null rfl rfl
    · exact h
  refine hexpire _ ?_
  split_ifs
  · exact titled_of_unowned h.named hheight.le isNullNameOwner_null rfl rfl
  · exact h

lemma eq_of_created (h : (outs.map Prod.fst).Nodup)
    (ha : (o, a) ∈ outs) (hb : (o, b) ∈ outs) : a = b :=
  congrArg Prod.snd (inj_on_of_nodup_map h ha hb rfl)

lemma Titled.keep (h : Titled params outs spent height nameHash ns)
    (hspent : ∀ p, out.linked = some p → p.outpoint = ns.owner → ns.revoked ≠ 0) :
    out.After (Titled params) outs spent height nameHash ns where
  named := h.named
  height_le := h.height_le
  closed := h.closed
  unowned := h.unowned
  owned := by
    intro hrevoked howner
    obtain ⟨hunspent, txOut, hcreated, hdeed⟩ := h.owned hrevoked howner
    refine ⟨fun hmem => ?_, txOut, mem_append_left _ hcreated, hdeed⟩
    rcases mem_append.1 hmem with hmem | hmem
    · exact hunspent hmem
    · obtain ⟨p, hp, hpo⟩ := mem_map.1 hmem
      exact hspent p (mem_toList.1 hp) hpo hrevoked

namespace Round

variable (hr : Round ctx height outs spent env out)
include hr

lemma nodup : (outs.map Prod.fst).Nodup :=
  hr.unique.sublist ((sublist_append_left _ _).map _)

lemma passes (h : Titled params outs spent height nameHash ns)
    (hrevoked : ns.revoked = 0) (hp : out.linked = some p) (howner : p.outpoint = ns.owner) :
    covenantHash out.covenant 0 = some nameHash ∧ Passes ns out.txOut := by
  obtain ⟨hnull, hspend, txOut, hpaid⟩ := hr.linked p hp
  rw [howner] at hnull
  obtain ⟨txOut', hcreated, hhash, -, hdeed⟩ := (h.owned hrevoked hnull).deed
  have heq : txOut = txOut' := eq_of_created hr.nodup hpaid.created (howner ▸ hcreated)
  subst heq
  obtain ⟨hsame, hpasses⟩ := hdeed.spend hpaid.pays hspend
  exact ⟨(sameNameAndHeight_hash hsame).symm.trans hhash, hpasses⟩

lemma other (h : Titled params outs spent height nameHash ns)
    (hother : isNameCovenant out.covenant.type = true → covenantHash out.covenant 0 ≠ some nameHash) :
    out.After (Titled params) outs spent height nameHash ns := by
  refine h.keep fun p hp howner hrevoked => ?_
  obtain ⟨hhash, hpasses⟩ := hr.passes h hrevoked hp howner
  refine hother ?_ hhash
  unfold CovenantOutput.covenant
  cases hpasses with
  | unregistered type => rcases type with type | type <;> rw [type] <;> rfl
  | registered type =>
    simp only [mem_cons, not_mem_nil, or_false] at type
    rcases type with type | type | type | type | type <;> rw [type] <;> rfl

lemma own (hname : ns.nameHash = nameHash) (hheight : ns.height.toNat ≤ height)
    (hclosed : ns.registered = true → ns.closing params ≤ height) (howner : ns.owner = out.outpoint)
    (hhash : covenantHash out.covenant 0 = some nameHash)
    (hstart : covenantU32 out.covenant 1 = some ns.height) (hdeed : Deed ns out.txOut) :
    out.After (Titled params) outs spent height nameHash ns where
  named := hname
  height_le := hheight
  closed := hclosed
  unowned := by simp [howner, hr.owner]
  owned := fun _ _ => ⟨howner ▸ hr.unspent, out.txOut, by simp [howner], hhash, hstart, hdeed⟩

end Round

variable (hr : Round ctx height outs spent env out) (hparams : ctx.params.Bounded)
  (h : Titled ctx.params outs spent height nameHash ns)
  (hhash : covenantHash out.covenant 0 = some nameHash)
include hr h

lemma Titled.keep_of_type
    (htype : out.covenant.type ∉ [.register, .redeem, .update, .renew, .transfer, .revoke, .finalize]) :
    out.After (Titled ctx.params) outs spent height nameHash ns := by
  refine h.keep fun p hp howner hrevoked => htype ?_
  have hpasses := (hr.passes h hrevoked hp howner).2
  simp only [mem_cons]
  cases hpasses with
  | unregistered type => tauto
  | registered type => tauto

include hparams hhash

lemma Titled.pass (hname : isNameCovenant out.covenant.type = true)
    (hstart : out.start = ns.height) (hphase : ns.state env.height ctx.params = .closed)
    (hspends : out.Spends ns.owner) (hnamed : ns'.nameHash = ns.nameHash)
    (hheight : ns'.height = ns.height) (hclaimed : ns'.claimed = ns.claimed)
    (howner : ns'.owner = out.outpoint) (hdeed : Passes ns out.txOut → Deed ns' out.txOut) :
    out.After (Titled ctx.params) outs spent height nameHash ns' := by
  obtain ⟨p, hp, hpo⟩ := hspends
  obtain ⟨hrevoked, hclosing⟩ := (NameState.state_eq_closed_iff hparams
    (h.height_le.trans_lt hr.height_lt)).1 hphase
  refine hr.own (hnamed.trans h.named) (hheight ▸ h.height_le) (fun _ => ?_) howner hhash ?_
    (hdeed (hr.passes h hrevoked hp hpo).2)
  · rw [NameState.closing_congr hheight hclaimed, ← hr.height_eq]
    exact hclosing
  · rw [hr.start hname, hstart, hheight]

lemma Titled.reveal (type : out.covenant.type = .reveal) (hstart : out.start = ns.height)
    (hphase : ns.state env.height ctx.params = .reveal) :
    out.After (Titled ctx.params) outs spent height nameHash
      (ns.reveal out.outpoint out.txOut.value) := by
  have hrevoked : ns.revoked = 0 := NameState.revoked_eq_zero (by rw [hphase]; decide)
  have hregistered : ns.registered = false :=
    h.registered_eq_false hparams hr.height_lt hr.height_eq hrevoked (by rw [hphase]; decide)
  have hkeep := h.keep_of_type hr (by simp [type])
  unfold NameState.reveal
  split_ifs
  · refine hr.own h.named h.height_le (by simp [hregistered]) rfl hhash ?_ ?_
    · rw [hr.start (by rw [type]; rfl), hstart]
    · exact .reveal type hregistered (h.transfer_eq_zero hrevoked hregistered) rfl
  · refine ⟨hkeep.named, hkeep.height_le, by simp [hregistered], hkeep.unowned, fun _ howner => ?_⟩
    obtain ⟨hunspent, txOut, hcreated, hhash, hstart, hdeed⟩ := hkeep.owned hrevoked howner
    refine ⟨hunspent, txOut, hcreated, hhash, hstart, ?_⟩
    cases hdeed with
    | claim type registered transfer => exact .claim type registered transfer
    | reveal type registered transfer value => exact .reveal type registered transfer value
    | held _ registered | transfer _ registered => simp [hregistered] at registered
  · exact hkeep

lemma Titled.claim (type : out.covenant.type = .claim)
    (hphase : ns.state env.height ctx.params = .opening ∨ ns.state env.height ctx.params = .locked ∨
      (ns.state env.height ctx.params = .closed ∧ ns.registered = false))
    (hproof : verifyCoinbaseClaimProof ctx out.tx out.outputIndex env = .ok minted)
    (hnamed : ns'.nameHash = ns.nameHash) (hheight : ns'.height = env.height)
    (howner : ns'.owner = out.outpoint) (hregistered : ns'.registered = ns.registered)
    (htransfer : ns'.transfer = ns.transfer) :
    out.After (Titled ctx.params) outs spent height nameHash ns' := by
  have hnot : ns.state env.height ctx.params ≠ .revoked := by
    intro hrevoked
    simp [hrevoked] at hphase
  have hrevoked : ns.revoked = 0 := NameState.revoked_eq_zero hnot
  have hunregistered : ns.registered = false := by
    by_cases hclosed : ns.state env.height ctx.params = .closed
    · simpa [hclosed] using hphase
    · exact h.registered_eq_false hparams hr.height_lt hr.height_eq hrevoked hclosed
  refine hr.own (hnamed.trans h.named) (by rw [hheight, hr.height_eq])
    (by simp [hregistered, hunregistered]) howner hhash ?_ ?_
  · rw [hheight]
    exact verifyCoinbaseClaimProof_height hr.txOut hproof
  · exact .claim type (hregistered.trans hunregistered)
      (htransfer.trans (h.transfer_eq_zero hrevoked hunregistered))

lemma Titled.moves (hname : isNameCovenant out.covenant.type = true)
    (hmoves : Moves ctx env nameHash out ns ns') :
    out.After (Titled ctx.params) outs spent height nameHash ns' := by
  have hheight : env.height ≠ 0 := by
    intro hzero
    have := hr.height_eq
    have := hr.height_pos
    simp_all
  have hcovenant : out.txOut.covenant = out.covenant := rfl
  cases hmoves with
  | claim type phase fresh reserved proof =>
    exact h.claim hr hparams hhash type phase proof rfl rfl rfl rfl rfl
  | «open» type | bid type => exact h.keep_of_type hr (by simp [type])
  | reveal type start phase => exact h.reveal hr hparams hhash type start phase
  | redeem type start phase linked loser =>
    refine h.keep fun p hp howner => ?_
    rw [linked, some.injEq] at hp
    exact absurd howner (hp ▸ loser)
  | register type start phase renewal spends value strong =>
    rw [NameState.setData_eq]
    refine h.pass hr hparams hhash hname start phase spends rfl rfl rfl rfl fun hpasses => ?_
    cases hpasses with
    | unregistered _ _ transfer => exact .held (by simp [hcovenant, type]) rfl transfer value
    | registered htype => simp [hcovenant, type] at htype
  | update type start phase spends =>
    rw [NameState.setData_eq]
    refine h.pass hr hparams hhash hname start phase spends rfl rfl rfl rfl fun hpasses => ?_
    cases hpasses with
    | unregistered htype => simp [hcovenant, type] at htype
    | registered _ registered value => exact .held (by simp [hcovenant, type]) registered rfl value
  | renew type start phase mature renewal spends | finalize type start phase _ _ _ _ _ _ spends =>
    refine h.pass hr hparams hhash hname start phase spends rfl rfl rfl rfl fun hpasses => ?_
    cases hpasses with
    | unregistered htype => simp [hcovenant, type] at htype
    | registered _ registered value => exact .held (by simp [hcovenant, type]) registered rfl value
  | transfer type start phase still spends =>
    refine h.pass hr hparams hhash hname start phase spends rfl rfl rfl rfl fun hpasses => ?_
    cases hpasses with
    | unregistered htype => simp [hcovenant, type] at htype
    | registered _ registered value => exact .transfer type registered hheight value
  | revoke type start phase still spends =>
    exact ⟨h.named, h.height_le, h.closed, fun hrevoked => absurd hrevoked hheight,
      fun hrevoked => absurd hrevoked hheight⟩

end

section

variable {ctx : NameContext}

lemma Titled.missing (h : Titled ctx.params outs spent height nameHash ns)
    (hnodup : (outs.map Prod.fst).Nodup) (hpaid : PaidBy outs p txOut)
    (hmissing : verifyMissingSpend p = .ok ()) :
    Titled ctx.params outs (spent ++ [p.outpoint]) height nameHash ns := by
  refine ⟨h.named, h.height_le, h.closed, h.unowned, fun hrevoked howner => ?_⟩
  obtain ⟨hunspent, txOut', hcreated, hhash, hstart, hdeed⟩ := h.owned hrevoked howner
  refine ⟨fun hmem => ?_, txOut', hcreated, hhash, hstart, hdeed⟩
  rcases mem_append.1 hmem with hmem | hmem
  · exact hunspent hmem
  · rw [mem_singleton] at hmem
    have heq : txOut = txOut' := eq_of_created hnodup hpaid.created (hmem ▸ hcreated)
    subst heq
    exact hdeed.missing hpaid.pays hmissing

lemma Titled.next_block (h : Titled ctx.params outs spent height nameHash ns) :
    Titled ctx.params outs spent (height + 1) nameHash ns :=
  ⟨h.named, h.height_le.trans (Nat.le_succ _), fun hr => (h.closed hr).trans (Nat.le_succ _),
    h.unowned, h.owned⟩

lemma ChainRun.titled (hparams : ctx.params.Bounded) (run : ChainRun ctx txs height coins names)
    (hids : (txs.map Tx.hash).Nodup) : Books txs coins.coins ∧ ∃ m, names.Shows none m ∧
      ∀ k, Titled ctx.params (createdOutputs txs) (spentOutpoints txs) height k (m k) := by
  refine ChainRun.each_name (fun k => titled_of_unowned rfl le_rfl isNullNameOwner_null rfl rfl)
    (fun _ _ _ _ _ h => h.next_block) (fun _ _ _ _ _ _ _ hr hother h => hr.other h hother) ?_
    (fun _ _ _ _ _ _ _ hnodup hpaid hmissing h => h.missing hnodup hpaid hmissing) hids run
  intro outs spent height k ns ns' env out hr hname hhash happly h
  exact (h.prepared hr.height_eq out.covenant).moves hr hparams hhash hname (applyCovenant_ok happly).2

/-- An outpoint that some block accepts as the owner of a name. -/
def SpendsAsOwner (ctx : NameContext) (nameHash : Hash) (ns : NameState) (o : OutPoint) : Prop :=
  ∃ env out ns', out.covenant.type ∈ [.register, .update, .renew, .transfer, .finalize, .revoke] ∧
    out.Spends o ∧ applyCovenant ctx env nameHash out ns = .ok ns'

lemma owner_prepared (covenant : Covenant) : (prepared ctx env covenant ns).owner = ns.owner ∨
      (prepared ctx env covenant ns).owner = nullNameOwner := by
  unfold prepared NameState.maybeExpire
  split_ifs
  · exact .inr rfl
  · exact .inr rfl
  · exact .inr rfl
  · exact .inl rfl

lemma SpendsAsOwner.eq_owner (h : SpendsAsOwner ctx nameHash ns o)
    (ho : isNullNameOwner o = false) : o = ns.owner := by
  obtain ⟨env, out, ns', htype, ⟨p, hp, hpo⟩, happly⟩ := h
  have hspends : out.Spends (prepared ctx env out.covenant ns).owner := by
    cases (applyCovenant_ok happly).2 with
    | register _ _ _ _ spends | update _ _ _ spends | renew _ _ _ _ _ spends => exact spends
    | transfer _ _ _ _ spends | finalize _ _ _ _ _ _ _ _ _ spends => exact spends
    | revoke _ _ _ _ spends => exact spends
    | claim type | «open» type | bid type | reveal type | redeem type => simp [type] at htype
  obtain ⟨p', hp', hpo'⟩ := hspends
  rw [hp, some.injEq] at hp'
  subst hp'
  rw [← hpo, hpo']
  refine (owner_prepared out.covenant).resolve_right fun hnull => ?_
  rw [← hpo, hpo', hnull] at ho
  cases ho

/-- On every chain, the owner of a name that is not revoked is an unspent output that agrees with the
state of the name, and no two outputs can be spent as the owner of a name. -/
theorem owner_unspent (hparams : ctx.params.Bounded) (run : ChainRun ctx txs height coins names)
    (hids : (txs.map Tx.hash).Nodup) (hns : names.states.lookup nameHash = some ns) :
    (isNullNameOwner ns.owner = false → ns.revoked = 0 →
      ∃ txOut, (ns.owner, txOut) ∈ createdOutputs txs ∧
        txOut.covenant.type ∈ [.claim, .reveal, .register, .update, .renew, .transfer, .finalize] ∧
        covenantHash txOut.covenant 0 = some ns.nameHash ∧
        covenantU32 txOut.covenant 1 = some ns.height ∧
        ns.owner ∉ spentOutpoints txs ∧
        (txOut.covenant.type = .reveal → txOut.value = ns.highest) ∧
        (ns.registered = true → txOut.value = ns.value) ∧
        (ns.transfer ≠ 0 ↔ txOut.covenant.type = .transfer)) ∧
    ∀ p ∈ createdOutputs txs, ∀ q ∈ createdOutputs txs, SpendsAsOwner ctx nameHash ns p.1 →
      SpendsAsOwner ctx nameHash ns q.1 → p.1 = q.1 := by
  obtain ⟨hbooks, m, hshows, htitled⟩ := run.titled hparams hids
  refine ⟨fun howner hrevoked => ?_, fun p hp q hq hp' hq' => ?_⟩
  · have h := htitled nameHash
    rw [hshows.eq_of_lookup hns] at h
    obtain ⟨hunspent, txOut, hcreated, hhash, hstart, hdeed⟩ := h.owned hrevoked howner
    refine ⟨txOut, hcreated, ?_, h.named ▸ hhash, hstart, hunspent, ?_⟩
    · cases hdeed with
      | claim type | reveal type | transfer type => simp [type]
      | held type =>
        simp only [mem_cons] at type ⊢
        tauto
    · cases hdeed with
      | claim type registered transfer => simp [type, registered, transfer]
      | reveal type registered transfer value => simp [type, registered, transfer, value]
      | held type registered transfer value =>
        simp only [mem_cons, not_mem_nil, or_false] at type
        rcases type with type | type | type | type <;> simp [type, transfer, value]
      | transfer type registered transfer value => simp [type, transfer, value]
  · rw [hp'.eq_owner (isNullNameOwner_of_created hbooks.room hp),
      hq'.eq_owner (isNullNameOwner_of_created hbooks.room hq)]

end

structure ChainTip where
  txs : List Tx
  height : ℕ
  coins : UtxoViewpoint
  names : NameBlockView

def takeTx (tip : ChainTip) (tx : Tx) : Result ChainTip := do
  checkCovenantSanity regtest tx
  let (coins, names) ← checkConnectTx regtest (plainEnv (UInt32.ofNat tip.height))
    (Int32.ofNat tip.height) (tip.coins, tip.names) tx
  return ⟨tip.txs ++ [tx], tip.height, coins, names⟩

def takeBlock (tip : ChainTip) (txs : List Tx) : Result ChainTip :=
  txs.foldlM takeTx { tip with
    height := tip.height + 1
    names := { tip.names with undo := [], dirty := ∅, seen := ∅ } }

def takeBlocks (blocks : List (List Tx)) : Result ChainTip :=
  blocks.foldlM takeBlock ⟨[], 0, newUtxoViewpoint, newNameBlockViewFromStates ∅⟩

def ChainTip.Reached (tip : ChainTip) : Prop :=
  ChainRun regtest tip.txs tip.height tip.coins tip.names

lemma reached_takeTx (h : tip.Reached) (hpos : 0 < tip.height)
    (hlt : tip.height < 2 ^ 31) (hroom : tx.txOut.length < 2 ^ 32) (ht : takeTx tip tx = .ok tip') :
    tip'.Reached ∧ tip'.height = tip.height := by
  simp only [takeTx, bind_eq_ok, pure_eq_ok, Prod.exists] at ht
  obtain ⟨_, hsane, coins, names, hok, rfl⟩ := ht
  refine ⟨h.tx hpos (UInt32.toNat_ofNat_of_lt' ?_) hsane hroom hok, rfl⟩
  exact hlt.trans (by decide)

lemma reached_takeBlock (h : tip.Reached)
    (hlt : tip.height + 1 < 2 ^ 31) (hroom : ∀ tx ∈ txs, tx.txOut.length < 2 ^ 32)
    (ht : takeBlock tip txs = .ok tip') : tip'.Reached ∧ tip'.height = tip.height + 1 := by
  refine Loops.foldlM_inv (P := fun t => t.Reached ∧ t.height = tip.height + 1) txs
    (fun tx htx s s' hs hstep => ?_) (by exact ⟨h.block hlt, rfl⟩) ht
  obtain ⟨hreached, hheight⟩ := reached_takeTx hs.1 (by omega) (by omega) (hroom tx htx) hstep
  exact ⟨hreached, hheight.trans hs.2⟩

lemma reached_takeBlocks (hlt : blocks.length < 2 ^ 31)
    (hroom : ∀ txs ∈ blocks, ∀ tx ∈ txs, tx.txOut.length < 2 ^ 32) (h : takeBlocks blocks = .ok tip)
    : tip.Reached := by
  have hrounds := Loops.foldlM_rounds
    (Q := fun past (t : ChainTip) => t.Reached ∧ t.height = past.length) ?_ (by exact ⟨.genesis, rfl⟩) h
  · exact hrounds.1
  · rintro past txs rest rfl s s' ⟨hs, hheight⟩ hstep
    rw [length_append, length_cons] at hlt
    obtain ⟨hreached, hheight'⟩ := reached_takeBlock hs (by omega) (hroom txs (by simp)) hstep
    exact ⟨hreached, by simp [hheight', hheight]⟩

def fundTx : Tx where
  hash := Hash.ofBytes [6]
  txIn := [⟨⟨Hash.zero, 0xffffffff⟩, []⟩]
  txOut := List.replicate 3 ⟨10, bidAddress, ⟨.none, []⟩⟩

def auctionBid (value : Int64) : TxOut :=
  ⟨10, bidAddress, ⟨.bid, [openedHash.bytes, leBytes 4 1, openedName,
    (blindBid regtest value Hash.zero).bytes]⟩⟩

def auctionReveal (value : Int64) : TxOut :=
  ⟨value, bidAddress, ⟨.reveal, [openedHash.bytes, leBytes 4 1, Hash.zero.bytes]⟩⟩

def auctionBidTx : Tx where
  hash := Hash.ofBytes [8]
  txIn := [⟨⟨Hash.ofBytes [6], 1⟩, []⟩, ⟨⟨Hash.ofBytes [6], 2⟩, []⟩]
  txOut := [auctionBid 3, auctionBid 8]

def auctionRevealTx : Tx where
  hash := Hash.ofBytes [9]
  txIn := [⟨⟨Hash.ofBytes [8], 0⟩, []⟩, ⟨⟨Hash.ofBytes [8], 1⟩, []⟩]
  txOut := [auctionReveal 3, auctionReveal 8]

def auctionBlocks : List (List Tx) :=
  [[fundTx, openTx], [], [], [], [], [], [auctionBidTx], [], [], [], [], [auctionRevealTx]]

def auctionTip : Option ChainTip := (takeBlocks auctionBlocks).toOption

lemma reached_auctionTip (h : auctionTip = some tip) : tip.Reached := by
  unfold auctionTip at h
  cases hblocks : takeBlocks auctionBlocks with
  | error e => simp [hblocks, Except.toOption] at h
  | ok tip' =>
    simp only [hblocks, Except.toOption, some.injEq] at h
    subst h
    exact reached_takeBlocks (by decide) (by decide) hblocks

/-- The second bid owns the name: it is the higher one. -/
theorem owner_unspent_auctionTip : ∃ tip ns, auctionTip = some tip ∧
    tip.names.states.lookup openedHash = some ns ∧ ns.owner = ⟨Hash.ofBytes [9], 1⟩ ∧
    ns.highest = 8 ∧ ∃ txOut, (ns.owner, txOut) ∈ createdOutputs tip.txs ∧
      ns.owner ∉ spentOutpoints tip.txs ∧
      (txOut.covenant.type = .reveal → txOut.value = ns.highest) := by
  have hok : (auctionTip.any fun tip => decide ((tip.txs.map Tx.hash).Nodup) &&
      (tip.names.states.lookup openedHash).any fun ns =>
        decide (ns.owner = ⟨Hash.ofBytes [9], 1⟩ ∧ ns.highest = 8 ∧ ns.revoked = 0)) = true := by
    decide +kernel
  obtain ⟨tip, htip, hok⟩ := (any_eq_true _ _).1 hok
  rw [Bool.and_eq_true, decide_eq_true_iff] at hok
  obtain ⟨hids, hok⟩ := hok
  obtain ⟨ns, hns, hok⟩ := (any_eq_true _ _).1 hok
  obtain ⟨howner, hhighest, hrevoked⟩ := of_decide_eq_true hok
  obtain ⟨txOut, hcreated, -, -, -, hunspent, hvalue, -⟩ :=
    (owner_unspent regressionNetParams_bounded (reached_auctionTip htip) hids hns).1
      (by rw [howner]; decide) hrevoked
  exact ⟨tip, ns, htip, hns, howner, hhighest, txOut, hcreated, hunspent, hvalue⟩

end HandshakeNode
