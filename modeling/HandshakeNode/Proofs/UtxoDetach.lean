import HandshakeNode.ChainOpen
import HandshakeNode.Proofs.ChainStore
import HandshakeNode.Proofs.UtxoCache

/-!
# Taking a block back in the database

The view with which a block is disconnected knows some entries of the set and has its touched
outputs set again; writing its modified entries over the flushed set gives the set before the block.
The main results are `UtxoViewpoint.detach_ok` and `UtxoViewpoint.dbPutUtxoView_ok`.
-/

namespace HandshakeNode

open Ledger List Finmap UtxoViewpoint

section

variable {K V : Type*} [DecidableEq K]

def Touched (ss : List (Step K V)) : Set K := {k | ∃ s ∈ ss, k ∈ s.created ∨ k ∈ s.inputs}

lemma applyAll_of_not_touched : ∀ {ss} {m : K → Option V} {k : K},
    k ∉ Touched ss → applyAll ss m k = m k
  | [], _, _, _ => rfl
  | s :: ss, m, k, h => by
    have hss : k ∉ Touched ss := fun ⟨t, ht, hk⟩ => h ⟨t, mem_cons_of_mem _ ht, hk⟩
    have hs : k ∉ s.created ∧ k ∉ s.inputs :=
      not_or.1 fun hk => h ⟨s, mem_cons_self, hk⟩
    change applyAll ss (s.apply m) k = m k
    rw [applyAll_of_not_touched hss, Step.apply_of_notMem hs.2 hs.1]

lemma applyAll_eq_none : ∀ {ss} {m : K → Option V} {k : K}, m k = none →
    (∀ s ∈ ss, k ∉ s.created) → applyAll ss m k = none
  | [], _, _, hm, _ => hm
  | s :: ss, m, k, hm, h => by
    obtain ⟨hs, hss⟩ := forall_mem_cons.1 h
    change applyAll ss (s.apply m) k = none
    exact applyAll_eq_none (Step.apply_eq_none hm hs) hss

lemma applyAll_of_input : ∀ {ss} {m : K → Option V} {k : K},
    (∃ s ∈ ss, k ∈ s.inputs) → (∀ s ∈ ss, k ∉ s.created) → applyAll ss m k = none
  | [], _, _, h, _ => by
    obtain ⟨s, hs, -⟩ := h
    cases hs
  | s :: ss, m, k, h, hnot => by
    obtain ⟨hs, hss⟩ := forall_mem_cons.1 hnot
    change applyAll ss (s.apply m) k = none
    obtain ⟨t, ht, hk⟩ := h
    rcases mem_cons.1 ht with rfl | ht
    · refine applyAll_eq_none ?_ hss
      rw [Step.apply, add_of_notMem hs, remove_of_mem hk]
    · exact applyAll_of_input ⟨t, ht, hk⟩ hss

end

structure SpentTxOut.Sound (c : SpentTxOut) : Prop where
  height : 0 < c.height
  script : c.pkScript = txOutPkScript ⟨c.amount, c.address, c.covenant⟩

lemma SpentTxOut.Sound.scripted (h : c.Sound) :
    (restoredEntry c).Scripted := UtxoEntry.scripted_of_pkScript h.script

lemma SpentTxOut.Sound.restores (h : c.Sound) : UtxoViewpoint.Restores c := by
  refine ⟨h.height, ?_⟩
  have hscript : (restoredEntry c).pkScriptOf = c.pkScript :=
    h.scripted.trans h.script.symm
  exact congrArg (fun script => { c with pkScript := script }) hscript

lemma sound_newCoins {tx : Tx} (h : 0 < height) : ∀ kv ∈ (tx.step height).outputs, kv.2.Sound := by
  intro kv hkv
  obtain ⟨p, -, -, rfl⟩ := Tx.mem_newCoins hkv
  exact ⟨h, scripted_ofTxOut p.1 tx.isCoinBase height⟩

namespace UtxoViewpoint

/-- Off `C` the entries of the view agree with the set, and in `C` those that are not modified. -/
structure ViewOk (C : Set OutPoint) (U : UtxoSet) (view : UtxoViewpoint) : Prop where
  agrees : ∀ o e, view.lookupEntry o = some e → o ∉ C ∨ e.isModified = false →
    unspent (some e) = U o
  scripted : ∀ o e, view.lookupEntry o = some e → e.Scripted

variable {U : UtxoSet} {view view' : UtxoViewpoint}

lemma viewOk_empty (U : UtxoSet) (hash : Hash) : ViewOk ∅ U ⟨∅, hash⟩ := by
  constructor
  · intro o e he
    cases he
  · intro o e he
    cases he

lemma ViewOk.mono (h : ViewOk C U view) (hCD : C ⊆ D) : ViewOk D U view :=
  ⟨fun o e he hor => h.agrees o e he (hor.imp_left fun ho hc => ho (hCD hc)), h.scripted⟩

lemma ViewOk.setEntry_of_same (h : ViewOk C U view) (hs : e.Scripted)
    (hsame : ∀ o', o' ≠ o → view'.lookupEntry o' = view.lookupEntry o')
    (he : (o ∈ C ∧ e.isModified = true) ∨ unspent (some e) = U o) :
    ViewOk C U (view'.setEntry o e) := by
  constructor
  · intro o' e' hlook hor
    rw [lookupEntry_setEntry] at hlook
    split_ifs at hlook with ho
    · cases hlook
      subst ho
      rcases he with ⟨hC, hmod⟩ | he
      · rcases hor with hor | hor
        · exact absurd hC hor
        · rw [hmod] at hor
          cases hor
      · exact he
    · exact h.agrees o' e' (hsame o' ho ▸ hlook) hor
  · intro o' e' hlook
    rw [lookupEntry_setEntry] at hlook
    split_ifs at hlook with ho
    · cases hlook
      exact hs
    · exact h.scripted o' e' (hsame o' ho ▸ hlook)

lemma ViewOk.setEntry (h : ViewOk C U view) (hs : e.Scripted)
    (he : (o ∈ C ∧ e.isModified = true) ∨ unspent (some e) = U o) :
    ViewOk C U (view.setEntry o e) := h.setEntry_of_same hs (fun _ _ => rfl) he

structure Rewrites (T : Set OutPoint) (U : UtxoSet) (view view' : UtxoViewpoint) : Prop where
  same : ∀ o, o ∉ T → view'.lookupEntry o = view.lookupEntry o
  present : ∀ o ∈ T, (view'.lookupEntry o).isSome = true
  viewOk : ∀ C, T ⊆ C → ViewOk C U view → ViewOk C U view'

lemma Rewrites.refl (view : UtxoViewpoint) : Rewrites ∅ U view view :=
  ⟨fun _ _ => rfl, fun _ h => absurd h (Set.notMem_empty _), fun _ _ h => h⟩

lemma Rewrites.trans (h : Rewrites T U view view') (h' : Rewrites T' U view' view'') :
    Rewrites (T ∪ T') U view view'' := by
  refine ⟨fun o ho => ?_, fun o ho => ?_, fun C hC hok => ?_⟩
  · rw [Set.mem_union, not_or] at ho
    rw [h'.same o ho.2, h.same o ho.1]
  · by_cases ho' : o ∈ T'
    · exact h'.present o ho'
    · rw [h'.same o ho']
      exact h.present o (ho.resolve_right ho')
  · exact h'.viewOk C (Set.subset_union_right.trans hC)
      (h.viewOk C (Set.subset_union_left.trans hC) hok)

lemma Rewrites.congr (h : Rewrites T U view view') (hT : T = T') :
    Rewrites T' U view view' := hT ▸ h

lemma Rewrites.setEntry (o : OutPoint) (hs : ∀ C, ViewOk C U view → e.Scripted)
    (he : ∀ C, ViewOk C U view → e.isModified = true ∨ unspent (some e) = U o) :
    Rewrites {o} U view (view.setEntry o e) := by
  refine ⟨fun o' ho' => ?_, fun o' ho' => ?_, fun C hC hok => ?_⟩
  · rw [lookupEntry_setEntry]
    exact if_neg ho'
  · rw [lookupEntry_setEntry, if_pos (Set.mem_singleton_iff.1 ho')]
    rfl
  · exact hok.setEntry (hs C hok) ((he C hok).imp_left fun h => ⟨hC rfl, h⟩)

lemma spend_modified_or_same (h : ViewOk C U view) (ho : view.lookupEntry o = some e) :
    e.spend.isModified = true ∨ unspent (some e.spend) = U o := by
  unfold UtxoEntry.spend
  split_ifs with hspent
  · rcases hmod : e.isModified with - | -
    · exact .inr (h.agrees o e ho (.inr hmod))
    · exact .inl rfl
  · exact .inl rfl

lemma rewrites_disconnectTxOuts (tx : Tx) (isCoinBase : Bool) (height : Int32) :
    ∀ view, Rewrites {o | o ∈ (tx.step height).created} U view
      (view.disconnectTxOuts tx isCoinBase height) := by
  unfold disconnectTxOuts Step.created Tx.step Tx.newCoins
  generalize tx.txOut.zipIdx = l
  induction l with
  | nil => exact fun view => by simpa using Rewrites.refl view
  | cons p l ih =>
    intro view
    rw [foldl_cons]
    by_cases h : txOutIsUnspendable p.1
    · rw [if_pos h, filterMap_cons_none (Tx.coinOf_unspendable h _ _)]
      exact ih view
    · rw [if_neg h, filterMap_cons_some (Tx.coinOf_spendable h _ _)]
      have hset : Rewrites {txOutpoint tx p.2} U view (view.setEntry (txOutpoint tx p.2)
          ((view.lookupEntry (txOutpoint tx p.2)).getD
            { amount := p.1.value
              address := p.1.address
              covenant := p.1.covenant
              pkScript := txOutPkScript p.1
              blockHeight := height
              packedFlags := { coinBase := isCoinBase } }).spend) := by
        rcases hlook : view.lookupEntry (txOutpoint tx p.2) with - | e
        · exact .setEntry _ (fun _ _ => (UtxoEntry.scripted_of_pkScript rfl).spend)
            fun _ _ => .inl rfl
        · exact .setEntry _ (fun _ hok => (hok.scripted _ e hlook).spend)
            fun _ hok => spend_modified_or_same hok hlook
      exact (hset.trans (ih _)).congr (by ext o; simp)

lemma rewrites_ensureEntry (view : UtxoViewpoint) (o : OutPoint) (hs : e.Scripted)
    (hmod : e.isModified = true) : Rewrites {o} U view ((view.ensureEntry o).setEntry o e) := by
  have hset : ∀ view' : UtxoViewpoint, (∀ o', o' ≠ o → view'.lookupEntry o' = view.lookupEntry o') →
      Rewrites {o} U view (view'.setEntry o e) := by
    intro view' hsame
    refine ⟨fun o' ho' => ?_, fun o' ho' => ?_, fun C hC hok => ?_⟩
    · rw [lookupEntry_setEntry, if_neg (by simpa using ho'), hsame o' (by simpa using ho')]
    · rw [lookupEntry_setEntry, if_pos (Set.mem_singleton_iff.1 ho')]
      rfl
    · exact hok.setEntry_of_same hs hsame (.inl ⟨hC rfl, hmod⟩)
  unfold ensureEntry
  rcases view.lookupEntry o with - | e'
  · refine hset _ fun o' ho' => ?_
    rw [lookupEntry_setEntry, if_neg ho']
  · exact hset _ fun _ _ => rfl

lemma legacyStxo_sound (h : legacyStxo byHash view txHash o stxo = .ok stxo')
    (hs : stxo.pkScript = txOutPkScript ⟨stxo.amount, stxo.address, stxo.covenant⟩) :
    stxo'.pkScript = txOutPkScript ⟨stxo'.amount, stxo'.address, stxo'.covenant⟩ := by
  unfold legacyStxo at h
  split_ifs at h
  · obtain ⟨utxo, -, h⟩ := bind_eq_ok.1 h
    rcases utxo with - | utxo
    · cases h
    · cases h
      exact hs
  · cases h
    exact hs

lemma rewrites_unspendTxIns : ∀ {txIns} {view view'}
    {js rest : List SpentTxOut}, unspendTxIns byHash txHash view txIns js = .ok (view', rest) →
    (∀ j ∈ js, j.pkScript = txOutPkScript ⟨j.amount, j.address, j.covenant⟩) →
    Rewrites {o | o ∈ txIns.map (·.previousOutPoint)} U view view' ∧ ∀ j ∈ rest, j ∈ js
  | [], view, view', js, rest, h, _ => by
    cases h
    exact ⟨by simpa using Rewrites.refl view, fun _ hj => hj⟩
  | txIn :: txIns, view, view', [], rest, h, _ => by cases h
  | txIn :: txIns, view, view', j :: js, rest, h, hjs => by
    obtain ⟨hj, hjs⟩ := forall_mem_cons.1 hjs
    obtain ⟨stxo, hstxo, h⟩ := bind_eq_ok.1 h
    have hscript := legacyStxo_sound hstxo hj
    obtain ⟨hrew, hrest⟩ := rewrites_unspendTxIns h hjs
    refine ⟨?_, fun j' hj' => mem_cons_of_mem _ (hrest j' hj')⟩
    have hset := rewrites_ensureEntry (U := U) view txIn.previousOutPoint
      (UtxoEntry.scripted_of_pkScript (e := restoredEntry stxo) hscript) rfl
    exact (hset.trans hrew).congr (by ext o; simp)

lemma rewrites_disconnectTxs (hcb : cb.isCoinBase = true) : ∀ {txs} {view view'} {js},
    (∀ tx ∈ txs, ¬ tx.isCoinBase = true) →
    disconnectTxs byHash height view (txs ++ [cb]) js = .ok view' →
    (∀ j ∈ js, j.pkScript = txOutPkScript ⟨j.amount, j.address, j.covenant⟩) →
    Rewrites (Touched ((txs ++ [cb]).map (·.step height))) U view view'
  | [], view, view', js, _, h, _ => by
    cases h
    refine (rewrites_disconnectTxOuts cb true height view).congr ?_
    simp [Touched, Tx.step, hcb]
  | tx :: txs, view, view', js, htxs, h, hjs => by
    obtain ⟨htx, htxs⟩ := forall_mem_cons.1 htxs
    rw [cons_append, disconnectTxs, if_neg (by simp)] at h
    obtain ⟨⟨view1, rest⟩, h1, h⟩ := bind_eq_ok.1 h
    obtain ⟨hrew1, hrest⟩ := rewrites_unspendTxIns (U := U) h1 hjs
    have hrew := rewrites_disconnectTxs hcb htxs h fun j hj => hjs j (hrest j hj)
    refine (((rewrites_disconnectTxOuts tx false height view).trans hrew1).trans hrew).congr ?_
    have hinputs : (tx.step height).inputs = tx.txIn.map (·.previousOutPoint) := if_neg htx
    ext o
    simp [Touched, hinputs]

/-! ### Fetching the inputs -/

lemma ViewOk.addTxOuts (hC : ∀ o ∈ (tx.step height).created, o ∈ C) :
    ∀ {view}, ViewOk C U view → ViewOk C U (view.addTxOuts tx height) ∧
      ∀ o, o ∉ C → (view.addTxOuts tx height).lookupEntry o = view.lookupEntry o := by
  unfold UtxoViewpoint.addTxOuts
  unfold Step.created Tx.step Tx.newCoins at hC
  generalize tx.txOut.zipIdx = l at hC
  induction l with
  | nil => exact fun h => ⟨h, fun _ _ => rfl⟩
  | cons p l ih =>
    intro view h
    rw [foldl_cons, addTxOut]
    by_cases hun : txOutIsUnspendable p.1
    · rw [if_pos hun]
      rw [filterMap_cons_none (Tx.coinOf_unspendable hun _ _)] at hC
      exact ih hC h
    · rw [if_neg hun]
      rw [filterMap_cons_some (Tx.coinOf_spendable hun _ _), map_cons, forall_mem_cons] at hC
      have hset := h.setEntry (o := txOutpoint tx p.2)
        (scripted_ofTxOut p.1 tx.isCoinBase height) (.inl ⟨hC.1, rfl⟩)
      obtain ⟨hok, hsame⟩ := ih hC.2 hset
      refine ⟨hok, fun o ho => ?_⟩
      rw [hsame o ho, lookupEntry_setEntry, if_neg]
      rintro rfl
      exact ho hC.1

/-- What the search for inputs keeps: the view is right off the outputs of the block, nothing off
them has changed, and only inputs of the block are to be fetched. -/
structure Found (C I : Set OutPoint) (U : UtxoSet) (view : UtxoViewpoint)
    (p : UtxoViewpoint × List OutPoint) : Prop where
  viewOk : ViewOk C U p.1
  same : ∀ o, o ∉ C → p.1.lookupEntry o = view.lookupEntry o
  needed : ∀ o ∈ p.2, o ∈ I

lemma Found.findInput (h : Found C I U view p)
    (hC : ∀ tx ∈ block.transactions, ∀ o ∈ (tx.step block.height).created, o ∈ C)
    (hI : txIn.previousOutPoint ∈ I) : Found C I U view (findInput block i p txIn) := by
  unfold UtxoViewpoint.findInput
  dsimp only
  split
  · rename_i originTx horigin
    obtain ⟨j, -, horigin⟩ := Option.bind_eq_some_iff.1 horigin
    split_ifs at horigin
    have hmem : originTx ∈ block.transactions := mem_of_getElem? horigin
    obtain ⟨hok, hsame⟩ := h.viewOk.addTxOuts (hC originTx hmem)
    exact ⟨hok, fun o ho => (hsame o ho).trans (h.same o ho), h.needed⟩
  · split_ifs
    · exact h
    · refine ⟨h.viewOk, h.same, fun o ho => ?_⟩
      rcases mem_append.1 ho with ho | ho
      · exact h.needed o ho
      · exact mem_singleton.1 ho ▸ hI

lemma found_findInputsToFetch (h : ViewOk C U view)
    (hC : ∀ tx ∈ block.transactions, ∀ o ∈ (tx.step block.height).created, o ∈ C)
    (hI : ∀ tx ∈ block.transactions.tail, ∀ txIn ∈ tx.txIn, txIn.previousOutPoint ∈ I) :
    Found C I U view (view.findInputsToFetch block) := by
  refine foldlRecOn (motive := Found C I U view) _ _ ⟨h, fun _ _ => rfl, by simp⟩
    fun p hp x hx => ?_
  exact foldlRecOn (motive := Found C I U view) _ _ hp fun p hp txIn htxIn =>
    hp.findInput hC (hI x.1 (fst_mem_of_mem_zipIdx hx) txIn htxIn)

end UtxoViewpoint

namespace UtxoCache

variable {s : UtxoCache}

lemma Refines.fetched (h : s.Refines db U) (op : OutPoint) :
    let entry := (s.cachedEntries.get op).getD (db.dbFetchUtxoEntry op)
    unspent entry = U op ∧ ∀ e ∈ entry, e.Scripted := by
  intro entry
  rcases hget : s.cachedEntries.get op with - | e
  · have hentry : entry = db.dbFetchUtxoEntry op := by simp [entry, hget]
    rw [hentry]
    refine ⟨(h.uncached hget).symm, fun e he => ?_⟩
    obtain ⟨u, -, rfl⟩ := Option.map_eq_some_iff.1 he
    exact u.scripted_entry
  · have hentry : entry = e := by simp [entry, hget]
    rw [hentry]
    refine ⟨?_, fun e' he' => h.scripted op e' ?_⟩
    · rw [← h.effective, WriteBack.effective_of_some hget]
      rfl
    · rw [hget, Option.mem_def.1 he']

end UtxoCache

namespace UtxoViewpoint

variable {C I : Set OutPoint} {U U' : UtxoSet} {view : UtxoViewpoint} {mem : Memory} {db : UtxoDb}

lemma lookupEntry_insert (view : UtxoViewpoint) (o : OutPoint) (e : Option UtxoEntry) :
    lookupEntry { view with entries := view.entries.insert o e } =
      Function.update view.lookupEntry o e := by
  funext o'
  unfold lookupEntry
  by_cases h : o' = o
  · subst h
    simp
  · simp [h, lookup_insert_of_ne]

lemma lookupEntry_fetchInputUtxos (mem : Memory) (cache : UtxoCache) (db : UtxoDb)
    (view : UtxoViewpoint) (block : Block) (o : OutPoint) :
    (view.fetchInputUtxos mem cache db block).1.lookupEntry o =
      if o ∈ (view.findInputsToFetch block).2 then
        (cache.cachedEntries.get o).getD (db.dbFetchUtxoEntry o)
      else (view.findInputsToFetch block).1.lookupEntry o := by
  unfold fetchInputUtxos
  dsimp only
  have hentries : ∀ ops, (cache.fetchEntries mem db ops).1 =
      ops.map fun op => (cache.cachedEntries.get op).getD (db.dbFetchUtxoEntry op) := fun _ => rfl
  rw [hentries, ← map_prod_left_eq_zip, foldl_map]
  exact Loops.foldl_write (n := fun op => (cache.cachedEntries.get op).getD _)
    (fun v op => lookupEntry_insert v op _) o _ _

lemma fetchInputUtxos_ok (mem : Memory) (hcache : cache.Refines db U) (h : ViewOk C U view)
    (hC : ∀ tx ∈ block.transactions, ∀ o ∈ (tx.step block.height).created, o ∈ C)
    (hI : ∀ tx ∈ block.transactions.tail, ∀ txIn ∈ tx.txIn, txIn.previousOutPoint ∈ I) :
    ViewOk C U (view.fetchInputUtxos mem cache db block).1 ∧ (∀ o, o ∉ C → o ∉ I →
        (view.fetchInputUtxos mem cache db block).1.lookupEntry o = view.lookupEntry o) ∧
      (view.fetchInputUtxos mem cache db block).2.Refines db U := by
  have hfound := found_findInputsToFetch h hC hI
  refine ⟨⟨fun o e he hor => ?_, fun o e he => ?_⟩, fun o hoC hoI => ?_, (hcache.fetchEntries _).1⟩
  · rw [lookupEntry_fetchInputUtxos] at he
    split_ifs at he
    · exact he ▸ (hcache.fetched o).1
    · exact hfound.viewOk.agrees o e he hor
  · rw [lookupEntry_fetchInputUtxos] at he
    split_ifs at he
    · exact (hcache.fetched o).2 e he
    · exact hfound.viewOk.scripted o e he
  · rw [lookupEntry_fetchInputUtxos, if_neg fun ho => hoI (hfound.needed o ho), hfound.same o hoC]

/-- The view has the set before a block, and where it would write nothing the set after it is the
same. -/
structure Detached (U U' : UtxoSet) (view : UtxoViewpoint) : Prop where
  agrees : ∀ o e, view.lookupEntry o = some e → unspent (some e) = U' o
  unmodified : ∀ o e, view.lookupEntry o = some e → e.isModified = false → U o = U' o
  absent : ∀ o, view.lookupEntry o = none → U o = U' o
  scripted : ∀ o e, view.lookupEntry o = some e → e.Scripted

lemma detach_ok (mem : Memory) (byHash : Hash → Result (Option UtxoEntry)) (block : Block)
    {cb : Tx} (hblock : block.transactions = cb :: txs) (hcb : cb.isCoinBase = true)
    (htxs : ∀ tx ∈ txs, ¬ tx.isCoinBase = true) (hheight : 0 < block.height)
    (hheld : InputsHeld block.steps U') (hnew : ∀ s ∈ block.steps, ∀ o ∈ s.created, U' o = none)
    (hsound : Holding SpentTxOut.Sound U') (hcache : cache.Refines db (applyAll block.steps U'))
    (hview : ViewOk ∅ (applyAll block.steps U') view) :
    (view.fetchInputUtxos mem cache db block).2.Refines db (applyAll block.steps U') ∧
      ∃ view', (view.fetchInputUtxos mem cache db block).1.disconnectTransactions byHash block
          (journalAll block.steps U') = .ok view' ∧
        Detached (applyAll block.steps U') U' view' := by
  set U := applyAll block.steps U'
  set T := Touched block.steps with hT
  set C : Set OutPoint := {o | ∃ s ∈ block.steps, o ∈ s.created} with hCdef
  set I : Set OutPoint := {o | ∃ s ∈ block.steps, o ∈ s.inputs} with hIdef
  have hC : ∀ tx ∈ block.transactions, ∀ o ∈ (tx.step block.height).created, o ∈ C :=
    fun tx htx o ho => ⟨_, mem_map_of_mem htx, ho⟩
  have hI : ∀ tx ∈ block.transactions.tail, ∀ txIn ∈ tx.txIn, txIn.previousOutPoint ∈ I := by
    intro tx htx txIn htxIn
    rw [hblock] at htx
    have hinputs : (tx.step block.height).inputs = tx.txIn.map (·.previousOutPoint) :=
      if_neg (htxs tx htx)
    refine ⟨_, mem_map_of_mem (hblock ▸ mem_cons_of_mem _ htx), ?_⟩
    rw [hinputs]
    exact mem_map_of_mem htxIn
  obtain ⟨hok1, hsame1, hcache1⟩ := fetchInputUtxos_ok mem hcache
    (hview.mono (Set.empty_subset C)) hC hI
  refine ⟨hcache1, ?_⟩
  set view1 := (view.fetchInputUtxos mem cache db block).1
  have hjournal : ∀ j ∈ journalAll block.steps U', j.Sound := by
    refine hsound.journalAll fun s hs => ?_
    obtain ⟨tx, -, rfl⟩ := mem_map.1 hs
    exact sound_newCoins hheight
  obtain ⟨view2, htxs2, hok2, hcoins2⟩ := disconnectTransactions_ok byHash hblock hcb htxs
    (length_journalAll_steps hblock hcb htxs hheld) (fun j hj => (hjournal j hj).restores) view1
  have hrew : Rewrites T U view1 view2 := by
    refine (rewrites_disconnectTxs hcb (by simpa using htxs) htxs2 fun j hj => ?_).congr ?_
    · exact (hjournal j (mem_reverse.1 hj)).script
    · rw [hT, Block.steps, hblock]
      simp [Touched, or_comm]
  have hview2 : ViewOk T U view2 :=
    hrew.viewOk T subset_rfl (hok1.mono (by
      rintro o ⟨s, hs, ho⟩
      exact ⟨s, hs, .inl ho⟩))
  -- a touched output is in the view as it was before the block
  have htouched : ∀ o ∈ T, view2.coins o = U' o := by
    intro o ho
    rw [hcoins2]
    refine revertAll_off (C := {o | o ∉ T}) hheld (fun s hs k hk _ => hnew s hs k hk) ?_ o
      (not_not.2 ho)
    intro k hk hnot
    obtain ⟨s, hs, hcreated | hinput⟩ := not_not.1 hk
    · exact absurd hcreated (hnot s hs)
    have hnone : U k = none := applyAll_of_input ⟨s, hs, hinput⟩ hnot
    change unspent (view1.lookupEntry k) = U k
    rcases hlook : view1.lookupEntry k with - | e
    · rw [hnone]
      rfl
    · refine hok1.agrees k e hlook (.inl ?_)
      rintro ⟨s, hs, hk⟩
      exact hnot s hs hk
  have hoff : ∀ o, o ∉ T → U o = U' o ∧ view2.lookupEntry o = view.lookupEntry o := by
    intro o ho
    refine ⟨applyAll_of_not_touched ho, ?_⟩
    rw [hrew.same o ho]
    refine hsame1 o ?_ ?_ <;> rintro ⟨s, hs, h⟩
    · exact ho ⟨s, hs, .inl h⟩
    · exact ho ⟨s, hs, .inr h⟩
  refine ⟨_, hok2, ?_, ?_, ?_, hview2.scripted⟩
  · intro o e he
    by_cases ho : o ∈ T
    · rw [← htouched o ho]
      exact congrArg unspent he.symm
    · obtain ⟨hU, hlook⟩ := hoff o ho
      rw [← hU]
      exact hview.agrees o e (hlook ▸ he) (.inl (Set.notMem_empty o))
  · intro o e he hmod
    by_cases ho : o ∈ T
    · rw [← htouched o ho, ← hview2.agrees o e he (.inr hmod)]
      exact congrArg unspent he.symm
    · exact (hoff o ho).1
  · intro o he
    by_cases ho : o ∈ T
    · have := hrew.present o ho
      rw [show view2.lookupEntry o = none from he] at this
      cases this
    · exact (hoff o ho).1

/-! ### Writing the view -/

lemma writeEntry_ok (db : UtxoDb) (op : OutPoint)
    (hagrees : ∀ entry ∈ e, unspent (some entry) = v ∧ entry.Scripted)
    (hsame : (∀ entry ∈ e, entry.isModified = false) → db.coins op = v) :
    ∃ db', writeEntry db op e = .ok db' ∧ db'.coins = Function.update db.coins op v ∧
      db'.consistency = db.consistency := by
  rcases e with - | entry
  · refine ⟨db, rfl, ?_, rfl⟩
    rw [← hsame (by simp), Function.update_eq_self]
  obtain ⟨hv, hscript⟩ := hagrees entry rfl
  rw [writeEntry]
  rcases hmod : entry.isModified with - | -
  · refine ⟨db, by simp, ?_, rfl⟩
    rw [← hsame (by simpa using hmod), Function.update_eq_self]
  rcases hspent : entry.isSpent with - | -
  · rw [← hv]
    exact UtxoCache.dbPutUtxoEntry_ok db op hspent hscript
  · refine ⟨_, rfl, ?_, rfl⟩
    rw [UtxoCache.coins_delete, ← hv]
    simp [unspent, hspent]

lemma dbPutUtxoView_ok (h : Detached U U' view) (order : RangeOrder OutPoint)
    (hdb : db.coins = U) : ∃ db', dbPutUtxoView order db view = .ok db' ∧ db'.coins = U' ∧
      db'.consistency = db.consistency := by
  obtain ⟨db', hok, hcoins, hcons⟩ := Loops.foldlM_write (r := UtxoDb.coins) (n := U')
    (f := fun db op => writeEntry db op (view.lookupEntry op)) (Q := fun op v => v = U op)
    (fun db op hop => writeEntry_ok db op
      (fun entry he => ⟨h.agrees op entry he, h.scripted op entry he⟩) fun hmod => by
        rw [hop]
        rcases hlook : view.lookupEntry op with - | entry
        · exact h.absent op hlook
        · exact h.unmodified op entry hlook (hmod entry hlook))
    (order.nodup view.entries.keys) fun o _ => congrFun hdb o
  refine ⟨db', hok, funext fun o => ?_, hcons⟩
  rw [hcoins]
  split_ifs with ho
  · rfl
  · rw [order.mem_iff] at ho
    rw [hdb]
    refine h.absent o ?_
    rw [lookupEntry, Finmap.lookup_eq_none.2 ho]
    rfl

/-- What `commit` does for one key. -/
def commitStep (view : UtxoViewpoint) (entries : GoMap OutPoint (Option UtxoEntry)) (op : OutPoint) :=
  match commitEntry (view.lookupEntry op) with
  | none => entries.erase op
  | some entry => entries.insert op (some entry)

lemma lookup_commit (order : RangeOrder OutPoint) (view : UtxoViewpoint) (o : OutPoint) :
    (view.commit order).entries.lookup o = (commitEntry (view.lookupEntry o)).map some := by
  refine (Loops.foldl_write (r := fun m o => Finmap.lookup o m) (t := commitStep view)
    (n := fun op => (commitEntry (view.lookupEntry op)).map some)
    (fun entries op => funext fun j => ?_) o _ _).trans ?_
  · rw [commitStep]
    by_cases hj : j = op
    · subst hj
      rcases commitEntry (view.lookupEntry j) with - | entry <;> simp
    · rcases commitEntry (view.lookupEntry op) with - | entry <;> simp [hj]
  split_ifs with ho
  · rfl
  · rw [order.mem_iff, Finmap.mem_keys, ← Finmap.lookup_eq_none] at ho
    rw [lookupEntry, ho]
    rfl

lemma lookupEntry_commit (order : RangeOrder OutPoint) (view : UtxoViewpoint) (o : OutPoint) :
    (view.commit order).lookupEntry o = commitEntry (view.lookupEntry o) := by
  rw [lookupEntry, lookup_commit]
  cases commitEntry (view.lookupEntry o) <;> rfl

lemma Detached.commit (h : Detached U U' view) (order : RangeOrder OutPoint) :
    ViewOk ∅ U' (view.commit order) := by
  have hentry : ∀ o e, (view.commit order).lookupEntry o = some e → ∃ e0,
      view.lookupEntry o = some e0 ∧ e = { e0 with packedFlags :=
        { e0.packedFlags with modified := !e0.packedFlags.modified } } := by
    intro o e he
    rw [lookupEntry_commit] at he
    rcases hlook : view.lookupEntry o with - | e0 <;> rw [hlook] at he
    · cases he
    · rw [commitEntry] at he
      split_ifs at he
      cases he
      exact ⟨e0, rfl, rfl⟩
  constructor
  · intro o e he _
    obtain ⟨e0, hlook, rfl⟩ := hentry o e he
    exact h.agrees o e0 hlook
  · intro o e he
    obtain ⟨e0, hlook, rfl⟩ := hentry o e he
    exact h.scripted o e0 hlook

/-! ### What a commit leaves -/

/-- What `commit` is for: every entry that is left is there, unspent and not flagged, and is but for
that flag the entry before. -/
def Cleans (view view' : UtxoViewpoint) : Prop :=
  ∀ o entry, view'.entries.lookup o = some entry → ∃ e, view.lookupEntry o = some e ∧
    e.isSpent = false ∧
      entry = some { e with packedFlags := { e.packedFlags with modified := false } }

/-- A view that is written later changes no coin whose entry is still the one of this view. -/
def WritesOnlyChanges (view : UtxoViewpoint) : Prop :=
  ∀ (order : RangeOrder OutPoint) (db db' : UtxoDb) (later : UtxoViewpoint),
    dbPutUtxoView order db later = .ok db' → ∀ o, later.lookupEntry o = view.lookupEntry o →
      db'.utxoSet.lookup o = db.utxoSet.lookup o

lemma lookup_writeEntry (h : writeEntry db op e = .ok db')
    (ho : o = op → ∀ entry ∈ e, entry.isModified = false) :
    db'.utxoSet.lookup o = db.utxoSet.lookup o := by
  rcases e with - | entry
  · cases h
    rfl
  rw [writeEntry] at h
  split_ifs at h with hmod hspent
  · cases h
    rfl
  all_goals
    have hne : o ≠ op := fun heq => hmod (by simpa using ho heq entry rfl)
  · cases h
    exact lookup_erase_ne hne
  · simp only [UtxoDb.dbPutUtxoEntry, bind_eq_ok, pure_eq_ok] at h
    obtain ⟨-, -, rfl⟩ := h
    exact lookup_insert_of_ne _ hne

/-- An entry that is not flagged is not written. -/
theorem lookup_dbPutUtxoView (h : dbPutUtxoView order db later = .ok db')
    (ho : ∀ entry ∈ later.lookupEntry o, entry.isModified = false) :
    db'.utxoSet.lookup o = db.utxoSet.lookup o := by
  unfold dbPutUtxoView at h
  revert h
  generalize order.list later.entries.keys = ops
  induction ops generalizing db with
  | nil =>
    rintro ⟨⟩
    rfl
  | cons op ops ih =>
    intro h
    rw [foldlM_cons, bind_eq_ok] at h
    obtain ⟨db1, hop, h⟩ := h
    exact (ih h).trans (lookup_writeEntry hop fun heq => heq ▸ ho)

lemma Cleans.writesOnlyChanges (h : Cleans view view') : WritesOnlyChanges view' := by
  intro order db db' later hput o ho
  refine lookup_dbPutUtxoView hput fun entry hentry => ?_
  rw [ho, lookupEntry, Option.mem_def, Option.join_eq_some_iff] at hentry
  obtain ⟨e, -, -, he⟩ := h o _ hentry
  cases he
  rfl

lemma cleans_commit (order : RangeOrder OutPoint)
    (h : ∀ o e, view.lookupEntry o = some e → e.isModified = true) :
    Cleans view (view.commit order) := by
  intro o entry hentry
  rw [lookup_commit] at hentry
  rcases hlook : view.lookupEntry o with - | e <;> rw [hlook, commitEntry] at hentry
  · cases hentry
  have hmod := h o e hlook
  rw [hmod, show e.packedFlags.modified = true from hmod] at hentry
  split_ifs at hentry with hspent
  · cases hentry
  · rw [Option.map_some, Option.some.injEq] at hentry
    exact ⟨e, rfl, by simpa using hspent, hentry.symm⟩

lemma Cleans.isModified (h : Cleans view (view.commit order)) (he : view.lookupEntry o = some e) :
    e.isModified = true := by
  by_contra hmod
  rw [Bool.not_eq_true] at hmod
  have hlook := lookup_commit order view o
  rw [he, commitEntry, hmod, show e.packedFlags.modified = false from hmod] at hlook
  obtain ⟨e', -, -, heq⟩ := h o _ hlook
  cases congrArg (·.map UtxoEntry.isModified) heq

/-- A view after some calls, and what it was after the last of its commits, each of which has found
all entries flagged. -/
inductive ViewRun : UtxoViewpoint → UtxoViewpoint → Prop
  | new (hash : Hash) : ViewRun ⟨∅, hash⟩ ⟨∅, hash⟩
  | connect {base view view' : UtxoViewpoint} {block : Block} {stxos stxos' : List SpentTxOut}
      (run : ViewRun base view)
      (ok : view.connectTransactions block stxos = .ok (view', stxos')) : ViewRun base view'
  | disconnect {base view view' : UtxoViewpoint} {byHash : Hash → Result (Option UtxoEntry)}
      {block : Block} {stxos : List SpentTxOut} (run : ViewRun base view)
      (ok : disconnectTransactions byHash view block stxos = .ok view') : ViewRun base view'
  | fetch {base view : UtxoViewpoint} (run : ViewRun base view) (mem : Memory) (cache : UtxoCache)
      (db : UtxoDb) (block : Block) : ViewRun base (view.fetchInputUtxos mem cache db block).1
  | commit {base view : UtxoViewpoint} (run : ViewRun base view) (order : RangeOrder OutPoint)
      (flagged : ∀ o e, view.lookupEntry o = some e → e.isModified = true) :
      ViewRun (view.commit order) (view.commit order)

/-- Throughout such a run, writing the view touches no coin whose entry has not changed since the
last commit. -/
theorem ViewRun.writesOnlyChanges (run : ViewRun base view) : WritesOnlyChanges base := by
  induction run with
  | new hash =>
    intro order db db' later hput o ho
    refine lookup_dbPutUtxoView hput fun entry hentry => ?_
    rw [ho] at hentry
    cases hentry
  | connect _ _ ih | disconnect _ _ ih | fetch _ _ _ _ _ ih => exact ih
  | commit _ order flagged => exact (cleans_commit order flagged).writesOnlyChanges

/-- A commit leaves nothing but clean entries, and what is written later are the entries that have
changed since, exactly when every entry of the view was flagged. -/
theorem commit_cleans_iff (order : RangeOrder OutPoint) (view : UtxoViewpoint) :
    Cleans view (view.commit order) ∧ WritesOnlyChanges (view.commit order) ↔
      ∀ o e, view.lookupEntry o = some e → e.isModified = true := by
  constructor
  · rintro ⟨h, -⟩ o e he
    exact h.isModified he
  · intro h
    have hclean := cleans_commit order h
    exact ⟨hclean, hclean.writesOnlyChanges⟩

def spendingBlock (n : UInt8) : Block where
  hash := Hash.ofBytes [n + 1]
  prevBlock := Hash.ofBytes [n]
  nameRoot := Hash.zero
  height := 2
  transactions := [plainTx (n + 2) ⟨Hash.zero, 0xffffffff⟩, plainTx (n + 3) ⟨Hash.ofBytes [n], 0⟩]

/-- Two blocks are taken back with one view, which is committed in between. -/
def detachTwo : Result UtxoViewpoint := do
  let stxo := (UtxoEntry.ofTxOut plainOut false 1).stxo
  let view ← disconnectTransactions (fun _ => .ok none) ⟨∅, Hash.zero⟩ (spendingBlock 20) [stxo]
  disconnectTransactions (fun _ => .ok none) (view.commit outPointOrder) (spendingBlock 10) [stxo]

/-- The coin that the first of them had spent is flagged again by the second commit. -/
theorem second_commit_flags_again :
    ∃ view, detachTwo = .ok view ∧ ¬ Cleans view (view.commit outPointOrder) := by
  have hcoin : (detachTwo.toOption.bind (lookupEntry · ⟨Hash.ofBytes [20], 0⟩)).map
      UtxoEntry.isModified = some false := by decide +kernel
  rcases hview : detachTwo with e | view <;> rw [hview] at hcoin
  · cases hcoin
  · obtain ⟨e, he, hmod⟩ := Option.map_eq_some_iff.1 hcoin
    refine ⟨view, rfl, fun h => ?_⟩
    rw [h.isModified he] at hmod
    cases hmod

end UtxoViewpoint

end HandshakeNode
