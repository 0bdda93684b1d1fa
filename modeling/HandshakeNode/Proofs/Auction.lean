import HandshakeNode.Lib.SecondPrice
import HandshakeNode.Proofs.Ownership

/-!
# The outcome of an auction

The reveals of an auction may be spread over outputs, transactions and blocks, with anything else in
between. The state of the name follows the tally of a second-price auction over them; once the name
is closed, the winning output is the only one that can be registered and the others can be redeemed.
-/

namespace HandshakeNode

open LittleEndian SecondPrice List Option NameStateKind

/-! ## The tally of a name -/

def NameState.tally (ns : NameState) : Tally OutPoint ℤ where
  winner := if isNullNameOwner ns.owner then none else some ns.owner
  highest := ns.highest.toInt
  second := ns.value.toInt

namespace NameState

variable (ns : NameState) (o : OutPoint) (value : Int64)

@[simp] lemma claimed_reveal : (ns.reveal o value).claimed = ns.claimed := by
  unfold reveal
  split_ifs <;> rfl

@[simp] lemma registered_reveal : (ns.reveal o value).registered = ns.registered := by
  unfold reveal
  split_ifs <;> rfl

@[simp] lemma revoked_reveal : (ns.reveal o value).revoked = ns.revoked := by
  unfold reveal
  split_ifs <;> rfl

end NameState

lemma NameState.reveal_phase {ns : NameState} {height : UInt32} (hparams : params.Bounded)
    (hns : ns.height.toNat < 2 ^ 31) (h : ns.state height params = .reveal) :
    ns.claimed = 0 ∧ ns.height.toNat < height.toNat := by
  obtain ⟨hauction, -, -, -⟩ := hparams
  unfold state at h
  simp only [UInt32.lt_iff_toNat_lt, UInt32.toNat_add, UInt32.toNat_one] at h
  split_ifs at h
  refine ⟨by simp_all, ?_⟩
  omega

lemma NameState.closed_of_code {ns : NameState} {height : UInt32}
    (hcode : closed.code ≤ (ns.state height params).code) (hrevoked : ns.revoked = 0) :
    ns.state height params = .closed := by
  have hne : ns.state height params ≠ .revoked := by
    unfold state
    rw [if_neg (not_not.2 hrevoked)]
    split_ifs <;> decide
  cases hphase : ns.state height params <;> simp_all [code]

lemma NameState.tally_reveal (ns : NameState) (ho : isNullNameOwner o = false)
    (value : Int64) : (ns.reveal o value).tally = ns.tally.bid (o, value.toInt) := by
  have hnull : ns.tally.winner = none ↔ isNullNameOwner ns.owner = true := by simp [tally]
  unfold NameState.reveal Tally.bid
  simp only [hnull, Int64.lt_iff_toInt_lt]
  unfold tally
  split_ifs <;> simp_all

lemma reveals_concat (outs : List (OutPoint × TxOut)) (p : OutPoint × TxOut) :
    reveals nameHash start (outs ++ [p]) =
      reveals nameHash start outs ++ (revealOf nameHash start p).toList := by
  simp only [reveals]
  cases hp : revealOf nameHash start p <;> simp [hp]

lemma revealOf_of_type (h : p.2.covenant.type ≠ .reveal) : revealOf nameHash start p = none := by
  simp [revealOf, h]

lemma revealOf_of_hash (h : covenantHash p.2.covenant 0 ≠ some nameHash) :
    revealOf nameHash start p = none := by
  simp [revealOf, h]

lemma mem_reveals (h : b ∈ reveals nameHash start outs) :
    ∃ txOut, (b.1, txOut) ∈ outs ∧ txOut.covenant.type = .reveal ∧
      covenantHash txOut.covenant 0 = some nameHash ∧ covenantU32 txOut.covenant 1 = some start := by
  obtain ⟨p, hp, hb⟩ := mem_filterMap.1 h
  unfold revealOf at hb
  split_ifs at hb with hreveal
  cases hb
  exact ⟨p.2, hp, hreveal⟩

/-! ## The auction of a name -/

/-- The state of a name follows the bids of its auction; a name that is claimed has none. -/
structure Follows (bids : List (OutPoint × ℤ)) (spent : List OutPoint) (ns : NameState) :
    Prop where
  claimed : ns.claimed ≠ 0 → bids = []
  prices : ns.claimed = 0 → (∀ b ∈ bids, 0 ≤ b.2) →
    ns.highest.toInt = highest (amounts bids) ∧ ns.value.toInt = second (amounts bids)
  winner : ns.claimed = 0 → ns.registered = false → (∀ b ∈ bids, 0 ≤ b.2) →
    ns.tally.winner = SecondPrice.winner bids
  sold : ns.claimed = 0 → ns.registered = true → (∀ b ∈ bids, 0 ≤ b.2) →
    ∃ o ∈ spent, SecondPrice.winner bids = some o

/-- The state of a name and its auction: `past` has auctions only below the height of the block. -/
structure Auctioned (outs : List (OutPoint × TxOut)) (spent : List OutPoint) (height : ℕ)
    (nameHash : Hash) (ns : NameState) : Prop
    extends Follows (reveals nameHash ns.height outs) spent ns where
  past : ∀ start, reveals nameHash start outs ≠ [] → start ≠ 0 ∧ start.toNat < height
  started : ns.isNull = true ∨ ns.height ≠ 0
  revoked : ns.revoked ≠ 0 → ns.registered = true ∧ ns.owner ∈ spent

lemma Follows.mono (h : Follows bids spent ns) (hspent : spent ⊆ spent') :
    Follows bids spent' ns := by
  refine ⟨h.claimed, h.prices, h.winner, fun hclaimed hregistered hpos => ?_⟩
  obtain ⟨o, ho, hwinner⟩ := h.sold hclaimed hregistered hpos
  exact ⟨o, hspent ho, hwinner⟩

section

variable (h : Auctioned outs spent height nameHash ns)
include h

lemma Auctioned.mono (hreveals : ∀ start, reveals nameHash start outs' = reveals nameHash start outs)
    (hspent : spent ⊆ spent') : Auctioned outs' spent' height nameHash ns := by
  refine ⟨?_, fun start => ?_, h.started, fun hr => ⟨(h.revoked hr).1, hspent (h.revoked hr).2⟩⟩
  all_goals rw [hreveals]
  · exact h.toFollows.mono hspent
  · exact h.past start

lemma Auctioned.reveals_eq_nil (hstart : height ≤ start.toNat) : reveals nameHash start outs = [] := by
  by_contra hne
  exact absurd (h.past start hne).2 (by omega)

lemma Auctioned.restart (hheight : ns'.height.toNat = height) (hpos : 0 < height)
    (howner : ns'.owner = nullNameOwner) (hhighest : ns'.highest = 0) (hvalue : ns'.value = 0)
    (hregistered : ns'.registered = false)
    (hrevoked : ns'.revoked = 0) : Auctioned outs spent height nameHash ns' := by
  have hnil : reveals nameHash ns'.height outs = [] := h.reveals_eq_nil hheight.ge
  refine ⟨⟨fun _ => hnil, ?_, ?_, by simp [hregistered]⟩, h.past, .inr ?_, by simp [hrevoked]⟩
  · rw [hnil, hhighest, hvalue]
    exact fun _ _ => ⟨rfl, rfl⟩
  · rw [hnil]
    simp [NameState.tally, howner, isNullNameOwner_null, SecondPrice.winner]
  · intro hzero
    rw [hzero] at hheight
    exact absurd hheight hpos.ne

lemma Auctioned.prepared (hheight : env.height.toNat = height) (hpos : 0 < height) (covenant : Covenant) :
    Auctioned outs spent height nameHash (prepared ctx env covenant ns) := by
  have hexpire : ∀ ns, Auctioned outs spent height nameHash ns →
      Auctioned outs spent height nameHash (ns.maybeExpire env.height ctx.params) := by
    intro ns h
    unfold NameState.maybeExpire
    split_ifs
    · exact h.restart hheight hpos rfl rfl rfl rfl rfl
    · exact h
  refine hexpire _ ?_
  split_ifs
  · exact h.restart hheight hpos rfl rfl rfl rfl rfl
  · exact h

lemma prepared_height_ne_zero (hheight : env.height ≠ 0) (covenant : Covenant) :
    (prepared ctx env covenant ns).height ≠ 0 := by
  have hprepared : (prepared ctx env covenant ns).height = env.height ∨
      ns.isNull = false ∧ (prepared ctx env covenant ns).height = ns.height :=
    height_prepared covenant
  rcases hprepared with hp | ⟨hnull, hp⟩
  · rwa [hp]
  · rw [hp]
    exact h.started.resolve_left (by simp [hnull])

end

section

variable (hr : Round ctx height outs spent env out) (hparams : ctx.params.Bounded)
  (ht : Titled ctx.params outs spent height nameHash ns)
  (h : Auctioned outs spent height nameHash ns)
  (hhash : covenantHash out.covenant 0 = some nameHash)
include h

lemma Auctioned.keep (htype : out.covenant.type ≠ .reveal) :
    out.After Auctioned outs spent height nameHash ns := by
  refine h.mono (fun start => ?_) (subset_append_left _ _)
  rw [reveals_concat, revealOf_of_type htype, toList_none, append_nil]

lemma Auctioned.register (hne : ns.height ≠ 0) (htype : out.covenant.type ≠ .reveal)
    (hheight : ns'.height = ns.height) (hclaimed : ns'.claimed = ns.claimed)
    (hhighest : ns'.highest = ns.highest) (hvalue : ns'.value = ns.value)
    (hregistered : ns'.registered = true)
    (hrevoked : ns'.revoked ≠ 0 → ns'.owner ∈ spent ++ out.spent)
    (hsold : ns.claimed = 0 → (∀ b ∈ reveals nameHash ns.height outs, 0 ≤ b.2) →
      ∃ o ∈ spent ++ out.spent, SecondPrice.winner (reveals nameHash ns.height outs) = some o) :
    out.After Auctioned outs spent height nameHash ns' := by
  have hkeep := h.keep htype
  have hreveals : reveals nameHash ns.height (outs ++ [(out.outpoint, out.txOut)]) =
      reveals nameHash ns.height outs := by
    rw [reveals_concat, revealOf_of_type htype, toList_none, append_nil]
  refine ⟨⟨?_, ?_, by simp [hregistered], ?_⟩, hkeep.past, .inr (hheight ▸ hne),
    fun hr => ⟨hregistered, hrevoked hr⟩⟩
  · rw [hclaimed, hheight]
    exact hkeep.claimed
  · rw [hclaimed, hheight, hhighest, hvalue]
    exact hkeep.prices
  · rw [hclaimed, hheight, hreveals]
    exact fun hc _ => hsold hc

include hr ht hparams hhash

lemma Auctioned.reveal (hne : ns.height ≠ 0) (type : out.covenant.type = .reveal)
    (hstart : out.start = ns.height) (hphase : ns.state env.height ctx.params = .reveal) :
    out.After Auctioned outs spent height nameHash
      (ns.reveal out.outpoint out.txOut.value) := by
  have hrevoked : ns.revoked = 0 := NameState.revoked_eq_zero (by rw [hphase]; decide)
  have hregistered : ns.registered = false :=
    ht.registered_eq_false hparams hr.height_lt hr.height_eq hrevoked (by rw [hphase]; decide)
  obtain ⟨hclaimed, hlt⟩ :=
    NameState.reveal_phase hparams (ht.height_le.trans_lt hr.height_lt) hphase
  have hitem : covenantU32 out.covenant 1 = some ns.height :=
    (hr.start (by rw [type]; rfl)).trans (congrArg some hstart)
  have hreveal : ∀ start, revealOf nameHash start (out.outpoint, out.txOut) =
      if ns.height = start then some (out.outpoint, out.txOut.value.toInt) else none := by
    have hcovenant : out.txOut.covenant = out.covenant := rfl
    simp [revealOf, hcovenant, type, hhash, hitem]
  have hbids : reveals nameHash ns.height (outs ++ [(out.outpoint, out.txOut)]) =
      reveals nameHash ns.height outs ++ [(out.outpoint, out.txOut.value.toInt)] := by
    rw [reveals_concat, hreveal, if_pos rfl, toList_some]
  have htally : (∀ b ∈ reveals nameHash ns.height (outs ++ [(out.outpoint, out.txOut)]), 0 ≤ b.2) →
      (ns.reveal out.outpoint out.txOut.value).tally =
        tally (reveals nameHash ns.height (outs ++ [(out.outpoint, out.txOut)])) := by
    intro hpos
    rw [hbids] at hpos ⊢
    have hold : ∀ b ∈ reveals nameHash ns.height outs, 0 ≤ b.2 :=
      fun b hb => hpos b (mem_append_left _ hb)
    rw [tally_concat hpos, NameState.tally_reveal ns hr.owner]
    obtain ⟨hhighest, hsecond⟩ := h.prices hclaimed hold
    have hwinner := h.winner hclaimed hregistered hold
    unfold tally
    rw [← hhighest, ← hsecond, ← hwinner]
    rfl
  refine ⟨⟨by simp [hclaimed], ?_, ?_, by simp [hregistered]⟩, fun start hne' => ?_,
    .inr (by simpa using hne), by simp [hrevoked]⟩
  · rw [NameState.height_reveal]
    intro _ hpos
    have := htally hpos
    exact ⟨congrArg Tally.highest this, congrArg Tally.second this⟩
  · rw [NameState.height_reveal]
    intro _ _ hpos
    exact congrArg Tally.winner (htally hpos)
  · by_cases hs : ns.height = start
    · subst hs
      exact ⟨hne, hr.height_eq ▸ hlt⟩
    · rw [reveals_concat, hreveal, if_neg hs, toList_none, append_nil] at hne'
      exact h.past start hne'

lemma Auctioned.moves (hne : ns.height ≠ 0) (hmoves : Moves ctx env nameHash out ns ns') :
    out.After Auctioned outs spent height nameHash ns' := by
  have hcovenant : out.txOut.covenant = out.covenant := rfl
  have hclosed : ns.state env.height ctx.params = .closed → ns.revoked = 0 :=
    fun hphase => NameState.revoked_eq_zero (by rw [hphase]; decide)
  -- the coin of the owner
  have hspends : out.Spends ns.owner → ns.revoked = 0 →
      ns.owner ∈ out.spent ∧ isNullNameOwner ns.owner = false ∧ Passes ns out.txOut := by
    rintro ⟨p, hp, hpo⟩ hrevoked
    refine ⟨?_, hpo ▸ (hr.linked p hp).1, (hr.passes ht hrevoked hp hpo).2⟩
    rw [← hpo, CovenantOutput.spent, hp]
    exact mem_singleton_self _
  have hpass : out.Spends ns.owner → ns.state env.height ctx.params = .closed →
      out.covenant.type ≠ .register → out.covenant.type ≠ .redeem → ns.registered = true := by
    intro hspend hphase hregister hredeem
    cases (hspends hspend (hclosed hphase)).2.2 with
    | unregistered type => exact (type.elim hregister hredeem).elim
    | registered _ registered => exact registered
  have hsold := (h.toFollows.mono (subset_append_left spent out.spent)).sold
  cases hmoves with
  | claim type phase _ _ _ _ _ _ newer =>
    have hnew : out.After Auctioned outs spent height nameHash ns := h.keep (by simp [type])
    have hheight : env.height ≠ 0 := fun hzero => hr.height_pos.ne (by simp [← hr.height_eq, hzero])
    have hphase : ns.state env.height ctx.params ≠ .revoked := by
      intro hrevoked
      simp [hrevoked] at phase
    have hrevoked : ns.revoked = 0 := NameState.revoked_eq_zero hphase
    refine ⟨⟨fun _ => hnew.reveals_eq_nil hr.height_eq.ge, fun hclaimed => ?_, fun hclaimed => ?_,
      fun hclaimed => ?_⟩, hnew.past, .inr hheight, absurd hrevoked⟩
    all_goals
      dsimp only at hclaimed
      rw [hclaimed] at newer
      exact absurd newer (by simp)
  | «open» type | bid type | redeem type => exact h.keep (by simp [type])
  | reveal type start phase => exact h.reveal hr hparams ht hhash hne type start phase
  | register type start phase renewal spends =>
    obtain ⟨hspent, howner, hpasses⟩ := hspends spends (hclosed phase)
    rw [NameState.setData_eq]
    refine h.register hne (by simp [type]) rfl rfl rfl rfl rfl (absurd (hclosed phase)) ?_
    intro hclaimed hpos
    cases hpasses with
    | unregistered _ registered =>
      refine ⟨ns.owner, mem_append_right _ hspent, ?_⟩
      rw [← h.winner hclaimed registered hpos]
      simp [NameState.tally, howner]
    | registered htype => simp [hcovenant, type] at htype
  | update type start phase spends =>
    have hregistered := hpass spends phase (by simp [type]) (by simp [type])
    rw [NameState.setData_eq]
    exact h.register hne (by simp [type]) rfl rfl rfl rfl hregistered (absurd (hclosed phase))
      (hsold · hregistered)
  | renew type start phase _ _ spends | transfer type start phase _ spends
  | finalize type start phase _ _ _ _ _ _ spends =>
    have hregistered := hpass spends phase (by simp [type]) (by simp [type])
    exact h.register hne (by simp [type]) rfl rfl rfl rfl hregistered (absurd (hclosed phase))
      (hsold · hregistered)
  | revoke type start phase still spends =>
    have hregistered := hpass spends phase (by simp [type]) (by simp [type])
    exact h.register hne (by simp [type]) rfl rfl rfl rfl hregistered
      (fun _ => mem_append_right _ (hspends spends still).1) (hsold · hregistered)

end

section

variable {ctx : NameContext} {txs : List Tx} {height : ℕ} {coins : UtxoViewpoint}
  {names : NameBlockView} {nameHash : Hash} {ns : NameState}

lemma ChainRun.auctioned (hparams : ctx.params.Bounded)
    (run : ChainRun ctx txs height coins names) (hids : (txs.map Tx.hash).Nodup) :
    Books txs coins.coins ∧ ∃ m, names.Shows none m ∧
      ∀ k, Titled ctx.params (createdOutputs txs) (spentOutpoints txs) height k (m k) ∧
        Auctioned (createdOutputs txs) (spentOutpoints txs) height k (m k) := by
  refine ChainRun.each_name (J := fun outs spent height k ns =>
    Titled ctx.params outs spent height k ns ∧ Auctioned outs spent height k ns) ?_ ?_ ?_ ?_ ?_
    hids run
  · intro k
    exact ⟨titled_of_unowned rfl le_rfl isNullNameOwner_null rfl rfl,
      ⟨fun _ => rfl, fun _ _ => ⟨rfl, rfl⟩, fun _ _ _ => rfl, by simp [newNameState]⟩,
      by simp [reveals], .inl rfl, by simp [newNameState]⟩
  · rintro outs spent height k ns ⟨ht, h⟩
    refine ⟨ht.next_block, h.toFollows, fun start hne => ?_, h.started, h.revoked⟩
    exact ⟨(h.past start hne).1, (h.past start hne).2.trans (Nat.lt_succ_self _)⟩
  · rintro outs spent height k ns env out hr hother ⟨ht, h⟩
    refine ⟨hr.other ht hother, h.mono (fun start => ?_) (subset_append_left _ _)⟩
    have hnone : revealOf k start (out.outpoint, out.txOut) = none := by
      by_cases htype : out.covenant.type = .reveal
      · exact revealOf_of_hash (hother (by rw [htype]; rfl))
      · exact revealOf_of_type htype
    rw [reveals_concat, hnone, toList_none, append_nil]
  · rintro outs spent height k ns ns' env out hr hname hhash happly ⟨ht, h⟩
    have hheight : env.height ≠ 0 := fun hzero => hr.height_pos.ne (by simp [← hr.height_eq, hzero])
    have ht' := ht.prepared hr.height_eq out.covenant
    have hmoves := (applyCovenant_ok happly).2
    exact ⟨ht'.moves hr hparams hhash hname hmoves,
      (h.prepared hr.height_eq hr.height_pos out.covenant).moves hr hparams ht' hhash
        (prepared_height_ne_zero h hheight out.covenant) hmoves⟩
  · rintro outs spent height k ns p txOut hnodup hpaid hmissing ⟨ht, h⟩
    exact ⟨ht.missing hnodup hpaid hmissing, h.mono (fun _ => rfl) (subset_append_left _ _)⟩

section

variable (h : Follows bids spent ns) (hne : bids ≠ []) (hpos : ∀ b ∈ bids, 0 ≤ b.2)
include h hne

lemma Follows.claimed_eq_zero : ns.claimed = 0 := by
  by_contra hclaimed
  exact hne (h.claimed hclaimed)

include hpos

lemma Follows.winner_eq_owner (hregistered : ns.registered = false) :
    SecondPrice.winner bids = some ns.owner := by
  have hwinner := h.winner (h.claimed_eq_zero hne) hregistered hpos
  rw [← hwinner]
  have hsome : ns.tally.winner ≠ none := by
    rw [hwinner]
    exact winner_ne_none hpos hne
  simp only [NameState.tally] at hsome ⊢
  split_ifs at hsome ⊢
  · exact absurd rfl hsome
  · rfl

lemma Follows.of_winner (ho : o ∉ spent) (hwinner : SecondPrice.winner bids = some o) :
    ns.owner = o ∧ ns.registered = false := by
  have hregistered : ns.registered = false := by
    by_contra hregistered
    obtain ⟨o', ho', hwinner'⟩ :=
      h.sold (h.claimed_eq_zero hne) (by simpa using hregistered) hpos
    rw [hwinner, some.injEq] at hwinner'
    exact ho (hwinner' ▸ ho')
  rw [h.winner_eq_owner hne hpos hregistered, some.injEq] at hwinner
  exact ⟨hwinner, hregistered⟩

end

/-- Among the reveals that nobody has spent, the owner of the name is the winner. -/
theorem Auctioned.winner_iff (hnodup : (outs.map Prod.fst).Nodup)
    (ht : Titled ctx.params outs spent height nameHash ns)
    (h : Auctioned outs spent height nameHash ns) (hne : reveals nameHash ns.height outs ≠ [])
    (hpos : ∀ b ∈ reveals nameHash ns.height outs, 0 ≤ b.2) (ho : o ∉ spent) (hcreated : (o, txOut) ∈ outs)
    (htype : txOut.covenant.type = .reveal) (hnull : isNullNameOwner o = false) :
    SecondPrice.winner (reveals nameHash ns.height outs) = some o ↔ o = ns.owner := by
  constructor
  · intro hwinner
    exact (h.of_winner hne hpos ho hwinner).1.symm
  · rintro rfl
    have hrevoked : ns.revoked = 0 := by
      by_contra hrevoked
      exact ho (h.revoked hrevoked).2
    obtain ⟨-, txOut', hcreated', -, -, hdeed⟩ := ht.owned hrevoked hnull
    have heq : txOut = txOut' := eq_of_created hnodup hcreated hcreated'
    subst heq
    refine h.winner_eq_owner hne hpos ?_
    cases hdeed with
    | claim _ registered | reveal _ registered => exact registered
    | held type | transfer type => simp [htype] at type

/-- The coin may be spent to the output and the covenant of the output is accepted. -/
def Accepts (ctx : NameContext) (env : NameEnv) (nameHash : Hash) (out : CovenantOutput)
    (p : NamePrevOutput) (ns : NameState) : Prop :=
  verifyCovenantSpend ctx p (some out.txOut) = .ok () ∧
    ∃ ns', applyCovenant ctx env nameHash out ns = .ok ns'

section

variable {out : CovenantOutput}

lemma sameNameAndHeight_start (h : sameNameAndHeight a out.covenant = true)
    (ha : covenantU32 a 1 = some ns.height) : out.start = ns.height := by
  unfold sameNameAndHeight at h
  split at h
  · simp_all [CovenantOutput.start]
  · cases h

lemma applyCovenant_of_present (hnull : ns.isNull = false)
    (hexpired : ns.isExpired env.height ctx.params = false) :
    prepareNameState ctx env out.covenant ns = .ok ns :=
  prepareNameState_eq_ok.2 ⟨by simp [hnull], (prepared_of_not_expired hnull hexpired _).symm⟩

lemma accepts_register_iff (htype : out.covenant.type = .register)
    (hp : p.covenant.type = .reveal) (hstart : covenantU32 p.covenant 1 = some ns.height)
    (hnull : ns.isNull = false) (hexpired : ns.isExpired env.height ctx.params = false)
    (hclaimed : ns.claimed = 0) : Accepts ctx env nameHash out p ns ↔
      sameNameAndHeight p.covenant out.covenant = true ∧
      equalAddress out.txOut.address p.address = true ∧ ns.state env.height ctx.params = .closed ∧
      verifyNameRenewalHash ctx env (covenantHashMust out.covenant 3) = .ok true ∧
      out.Spends ns.owner ∧ out.txOut.value = ns.value := by
  have htype' : out.txOut.covenant.type = .register := htype
  have hclaimable : ns.isClaimable env.height ctx.params = false := by
    simp [NameState.isClaimable, hclaimed]
  simp only [Accepts, verifyCovenantSpend, hp, verifyRevealSpend, htype', bind_eq_ok, failIf_eq_ok,
    exists_const, Bool.not_eq_false, applyCovenant,
    applyCovenant_of_present hnull hexpired, ok_bind, htype, applyRegister_eq_ok, hclaimable,
    and_assoc]
  refine and_congr_right fun hsame => and_congr_right fun _ => ?_
  simp [sameNameAndHeight_start hsame hstart]

lemma accepts_redeem_iff (htype : out.covenant.type = .redeem)
    (hp : p.covenant.type = .reveal) (hstart : covenantU32 p.covenant 1 = some ns.height)
    (hnull : ns.isNull = false) (hexpired : ns.isExpired env.height ctx.params = false)
    (hlinked : out.linked = some p) : Accepts ctx env nameHash out p ns ↔
      sameNameAndHeight p.covenant out.covenant = true ∧
      closed.code ≤ (ns.state env.height ctx.params).code ∧
      p.outpoint ≠ ns.owner := by
  have htype' : out.txOut.covenant.type = .redeem := htype
  simp only [Accepts, verifyCovenantSpend, hp, verifyRevealSpend, htype', bind_eq_ok, failIf_eq_ok,
    exists_const, Bool.not_eq_false, applyCovenant,
    applyCovenant_of_present hnull hexpired, htype, applyRedeem_eq_ok, hlinked,
    reduceCtorEq, not_false_eq_true, true_and]
  refine and_congr_right fun hsame => ?_
  simp [sameNameAndHeight_start hsame hstart]

end

/-- The outcome of an auction on every chain. The state of the name has the largest and the second
largest bid, in whichever order they came, and the winner owns it until it is registered. When the
bids are in and before the name expires, a reveal that is still there can be registered exactly if it
is the winner, for the second price, and redeemed exactly if it is not. -/
theorem auction_outcome (hparams : ctx.params.Bounded) (run : ChainRun ctx txs height coins names)
    (hids : (txs.map Tx.hash).Nodup) (hns : names.states.lookup nameHash = some ns)
    (hne : reveals nameHash ns.height (createdOutputs txs) ≠ [])
    (hpos : ∀ b ∈ reveals nameHash ns.height (createdOutputs txs), 0 ≤ b.2) :
    (∀ bids, bids.Perm (reveals nameHash ns.height (createdOutputs txs)) →
      ns.highest.toInt = highest (amounts bids) ∧ ns.value.toInt = second (amounts bids)) ∧
    (ns.registered = false →
      winner (reveals nameHash ns.height (createdOutputs txs)) = some ns.owner) ∧
    ∀ b ∈ reveals nameHash ns.height (createdOutputs txs), b.1 ∉ spentOutpoints txs →
      ∀ (env : NameEnv) (out : CovenantOutput) (p : NamePrevOutput) (txOut : TxOut),
        out.linked = some p → p.outpoint = b.1 → PaidBy (createdOutputs txs) p txOut →
        closed.code ≤ (ns.state env.height ctx.params).code →
        ns.isExpired env.height ctx.params = false →
        (out.covenant.type = .register → (Accepts ctx env nameHash out p ns ↔
          winner (reveals nameHash ns.height (createdOutputs txs)) = some b.1 ∧
          out.txOut.value = ns.value ∧ sameNameAndHeight p.covenant out.covenant = true ∧
          equalAddress out.txOut.address p.address = true ∧
          verifyNameRenewalHash ctx env (covenantHashMust out.covenant 3) = .ok true)) ∧
        (out.covenant.type = .redeem → (Accepts ctx env nameHash out p ns ↔
          winner (reveals nameHash ns.height (createdOutputs txs)) ≠ some b.1 ∧
          sameNameAndHeight p.covenant out.covenant = true)) := by
  obtain ⟨hbooks, m, hshows, hall⟩ := run.auctioned hparams hids
  obtain ⟨ht, h⟩ := hall nameHash
  rw [hshows.eq_of_lookup hns] at ht h
  have hnodup := nodup_createdOutputs hids hbooks.room
  have hclaimed := h.claimed_eq_zero hne
  have hnull : ns.isNull = false := by simp [NameState.isNull, (h.past _ hne).1]
  refine ⟨fun bids hperm => ?_, h.winner_eq_owner hne hpos, ?_⟩
  · rw [amounts, Multiset.coe_eq_coe.2 (hperm.map _)]
    exact h.prices hclaimed hpos
  · intro b hb hunspent env out p txOut hlinked hpb hpaid hphase hexpired
    obtain ⟨txOut', hcreated, htype, -, hstart⟩ := mem_reveals hb
    have heq : txOut = txOut' := eq_of_created hnodup (hpb ▸ hpaid.created) hcreated
    subst heq
    rw [← hpaid.pays.covenant] at hstart
    have hptype : p.covenant.type = .reveal := by rw [hpaid.pays.covenant, htype]
    have hwinner := h.winner_iff hnodup ht hne hpos hunspent hcreated htype
      (isNullNameOwner_of_created hbooks.room hcreated)
    refine ⟨fun hregister => ?_, fun hredeem => ?_⟩
    · rw [accepts_register_iff hregister hptype hstart hnull hexpired hclaimed]
      have hspends : out.Spends ns.owner ↔ b.1 = ns.owner := by
        simp [CovenantOutput.Spends, hlinked, hpb]
      rw [hspends, hwinner]
      constructor
      · rintro ⟨hsame, haddress, -, hrenewal, howner, hvalue⟩
        exact ⟨howner, hvalue, hsame, haddress, hrenewal⟩
      · rintro ⟨howner, hvalue, hsame, haddress, hrenewal⟩
        refine ⟨hsame, haddress, ?_, hrenewal, howner, hvalue⟩
        refine NameState.closed_of_code hphase (by_contra fun hrevoked => ?_)
        have hregistered := (h.of_winner hne hpos hunspent (hwinner.2 howner)).2
        simp [(h.revoked hrevoked).1] at hregistered
    · rw [accepts_redeem_iff hredeem hptype hstart hnull hexpired hlinked, hpb, Ne, Ne, hwinner]
      constructor
      · rintro ⟨hsame, -, hloser⟩
        exact ⟨hloser, hsame⟩
      · rintro ⟨hloser, hsame⟩
        exact ⟨hsame, hphase, hloser⟩

end

def loserCoin : NamePrevOutput :=
  ⟨⟨Hash.ofBytes [9], 0⟩, 3, bidAddress, (auctionReveal 3).covenant⟩

def redeemTx : Tx where
  hash := Hash.ofBytes [10]
  txIn := [⟨⟨Hash.ofBytes [9], 0⟩, []⟩]
  txOut := [⟨3, bidAddress, ⟨.redeem, [openedHash.bytes, leBytes 4 1]⟩⟩]

def redeemOutput : CovenantOutput :=
  ⟨redeemTx, 0, ⟨3, bidAddress, ⟨.redeem, [openedHash.bytes, leBytes 4 1]⟩⟩, [loserCoin]⟩

/-- The price is the lower bid, and the lower bid is redeemed when the name closes. -/
theorem auction_outcome_auctionTip : ∃ tip ns, auctionTip = some tip ∧
    tip.names.states.lookup openedHash = some ns ∧ ns.owner = ⟨Hash.ofBytes [9], 1⟩ ∧
    ns.highest.toInt = 8 ∧ ns.value.toInt = 3 ∧
    Accepts regtest (plainEnv 22) openedHash redeemOutput loserCoin ns := by
  have hok : (auctionTip.any fun tip => decide ((tip.txs.map Tx.hash).Nodup) &&
      (tip.names.states.lookup openedHash).any fun ns =>
        decide (reveals openedHash ns.height (createdOutputs tip.txs) =
          [(⟨Hash.ofBytes [9], 0⟩, 3), (⟨Hash.ofBytes [9], 1⟩, 8)] ∧ ns.registered = false ∧
          (⟨Hash.ofBytes [9], 0⟩ : OutPoint) ∉ spentOutpoints tip.txs ∧
          (⟨Hash.ofBytes [9], 0⟩, auctionReveal 3) ∈ createdOutputs tip.txs ∧
          ns.state 22 regtest.params = .closed ∧
          ns.isExpired 22 regtest.params = false)) = true := by
    decide +kernel
  obtain ⟨tip, htip, hok⟩ := (any_eq_true _ _).1 hok
  rw [Bool.and_eq_true, decide_eq_true_iff] at hok
  obtain ⟨hids, hok⟩ := hok
  obtain ⟨ns, hns, hok⟩ := (any_eq_true _ _).1 hok
  obtain ⟨hbids, hregistered, hunspent, hcreated, hphase, hexpired⟩ := of_decide_eq_true hok
  obtain ⟨hprices, hwinner, haccepts⟩ := auction_outcome regressionNetParams_bounded
    (reached_auctionTip htip) hids hns (by simp [hbids]) (by simp [hbids])
  rw [hbids] at hprices hwinner haccepts
  refine ⟨tip, ns, htip, hns, ?_, (hprices _ (.refl _)).1, (hprices _ (.refl _)).2, ?_⟩
  · exact (some.inj (hwinner hregistered)).symm
  · refine ((haccepts (⟨Hash.ofBytes [9], 0⟩, 3) (by simp) hunspent (plainEnv 22) redeemOutput
      loserCoin (auctionReveal 3) rfl rfl ⟨hcreated, rfl, rfl, rfl⟩ ?_ hexpired).2 rfl).2 ?_
    · rw [show (plainEnv 22).height = 22 from rfl, hphase]
    · decide

end HandshakeNode
