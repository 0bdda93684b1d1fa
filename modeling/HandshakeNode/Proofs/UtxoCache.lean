import HandshakeNode.Lib.Loops
import HandshakeNode.Lib.WriteBack
import HandshakeNode.Proofs.UtxoView
import HandshakeNode.UtxoCache

/-!
# The UTXO cache refines the plain UTXO set

The cache is a write-back cache over the UTXO bucket. The slice of maps behaves as one map, a
fetch reads through, connecting a block is the run of its steps and a flush that writes leaves the
whole set in the database. All of it rests on an entry marked fresh not being in the database.
`addTxOut` marks every output it adds as fresh, so that holds as long as no block creates an
outpoint that the database still has.
-/

namespace HandshakeNode

open Ledger Finmap Function Option WriteBack UtxoEntry UtxoDb

/-! ## The slice of maps as one map -/

lemma putFirst_eq_none [DecidablePred p] : ∀ {maps},
    putFirst p op entry maps = none → ∀ m ∈ maps, ¬ p m
  | [], _ => by simp
  | m :: maps, h => by
    rw [putFirst] at h
    split_ifs at h with hp
    rw [map_eq_none_iff] at h
    exact List.forall_mem_cons.2 ⟨hp, putFirst_eq_none h⟩

lemma putFirst_eq_some [DecidablePred p] : ∀ {maps maps'},
    putFirst p op entry maps = some maps' → ∃ before m after, maps = before ++ m :: after ∧
      (∀ m' ∈ before, ¬ p m') ∧ p m ∧
      maps' = before ++ { m with entries := m.entries.insert op entry } :: after
  | [], _, h => by simp [putFirst] at h
  | m :: maps, maps', h => by
    rw [putFirst] at h
    split_ifs at h with hp
    · rw [Option.some.injEq] at h
      exact ⟨[], m, maps, rfl, by simp, hp, h.symm⟩
    · rw [map_eq_some_iff] at h
      obtain ⟨maps1, h1, rfl⟩ := h
      obtain ⟨before, m', after, rfl, hbefore, hm', rfl⟩ := putFirst_eq_some h1
      exact ⟨m :: before, m', after, rfl, List.forall_mem_cons.2 ⟨hp, hbefore⟩, hm', rfl⟩

namespace MapSlice

structure Wf (ms : MapSlice) : Prop where
  disjoint : ms.maps.Pairwise fun m m' => ∀ op ∈ m.entries, op ∉ m'.entries
  nonempty : ms.maps ≠ []

variable {op : OutPoint}

lemma findSome_of_notMem : ∀ {maps : List SizedMap},
    (∀ m ∈ maps, op ∉ m.entries) → maps.findSome? (fun m => m.entries.lookup op) = none := by
  intro maps h
  rw [List.findSome?_eq_none_iff]
  exact fun m hm => lookup_eq_none.2 (h m hm)

variable {ms : MapSlice}

lemma get_insert (hms : ms.maps = before ++ m :: after) (hbefore : ∀ m' ∈ before, op ∉ m'.entries) :
    MapSlice.get { ms with maps := before ++ { m with entries := m.entries.insert op entry } :: after }
      = update ms.get op (some entry) := by
  funext o
  unfold get
  rw [hms]
  by_cases ho : o = op
  · subst ho
    rw [update_self, List.findSome?_append, findSome_of_notMem hbefore, none_or,
      List.findSome?_cons, lookup_insert]
  · simp [update_of_ne ho, List.findSome?_cons,
      lookup_insert_of_ne _ ho]

lemma Wf.insert (h : ms.Wf) (hms : ms.maps = before ++ m :: after)
    (hothers : ∀ m' ∈ before ++ after, op ∉ m'.entries) :
    MapSlice.Wf { ms with maps := before ++ { m with entries := m.entries.insert op entry } :: after
      } := by
  have hd := h.disjoint
  rw [hms, List.pairwise_append, List.pairwise_cons] at hd
  obtain ⟨hbefore, ⟨hm, hafter⟩, hcross⟩ := hd
  refine ⟨?_, by simp⟩
  rw [List.pairwise_append, List.pairwise_cons]
  refine ⟨hbefore, ⟨?_, hafter⟩, ?_⟩
  · intro m' hm' o ho
    rcases mem_insert.1 ho with rfl | ho
    · exact hothers m' (List.mem_append_right _ hm')
    · exact hm m' hm' o ho
  · intro m1 hm1 m2 hm2 o ho
    rcases List.mem_cons.1 hm2 with rfl | hm2
    · rw [mem_insert, not_or]
      refine ⟨?_, hcross m1 hm1 m List.mem_cons_self o ho⟩
      rintro rfl
      exact hothers m1 (List.mem_append_left _ hm1) ho
    · exact hcross m1 hm1 m2 (List.mem_cons_of_mem _ hm2) o ho

lemma Wf.overwrite (h : ms.Wf) {maps : List SizedMap}
    (hmaps : putFirst (fun m => op ∈ m.entries) op entry ms.maps = some maps) :
    MapSlice.Wf { ms with maps := maps } ∧
      MapSlice.get { ms with maps := maps } = update ms.get op (some entry) := by
  obtain ⟨before, m, after, hms, hbefore, hm, rfl⟩ := putFirst_eq_some hmaps
  refine ⟨h.insert hms fun m' hm' => ?_, get_insert hms hbefore⟩
  rcases List.mem_append.1 hm' with hm' | hm'
  · exact hbefore m' hm'
  · have hd := h.disjoint
    rw [hms, List.pairwise_append, List.pairwise_cons] at hd
    exact hd.2.1.1 m' hm' op hm

lemma Wf.put (h : ms.Wf) (mem : Memory) (op : OutPoint) (entry : Option UtxoEntry)
    (totalEntryMemory : UInt64) :
    (ms.put mem op entry totalEntryMemory).Wf ∧
      (ms.put mem op entry totalEntryMemory).get = update ms.get op (some entry) := by
  unfold MapSlice.put
  split
  · rename_i maps hmaps
    exact h.overwrite hmaps
  · rename_i hnone
    have hall := putFirst_eq_none hnone
    split
    · rename_i maps hmaps
      obtain ⟨before, m, after, hms, -, -, rfl⟩ := putFirst_eq_some hmaps
      have hothers : ∀ m' ∈ before ++ after, op ∉ m'.entries := by
        intro m' hm'
        refine hall m' ?_
        rw [hms]
        rcases List.mem_append.1 hm' with hm' | hm'
        · exact List.mem_append_left _ hm'
        · exact List.mem_append_right _ (List.mem_cons_of_mem _ hm')
      exact ⟨h.insert hms hothers, get_insert hms fun m' hm' =>
        hothers m' (List.mem_append_left _ hm')⟩
    · -- A new map behaves as an empty one that was there already.
      set size := newMapSize mem ms totalEntryMemory
      have hempty : MapSlice.Wf { ms with maps := ms.maps ++ [⟨∅, size⟩] } := by
        refine ⟨?_, by simp⟩
        rw [List.pairwise_append]
        refine ⟨h.disjoint, List.pairwise_singleton _ _, ?_⟩
        intro m _ m' hm' o _
        obtain rfl := List.mem_singleton.1 hm'
        exact notMem_empty
      have hget : MapSlice.get { ms with maps := ms.maps ++ [⟨∅, size⟩] } = ms.get := by
        funext o
        simp [get]
      have hmaps : MapSlice.maps { ms with maps := ms.maps ++ [⟨∅, size⟩] } =
          ms.maps ++ ⟨∅, size⟩ :: [] := rfl
      rw [← hget]
      exact ⟨hempty.insert hmaps (by simpa using hall), get_insert hmaps hall⟩

lemma Wf.mutate (h : ms.Wf) (hop : ms.get op = some e) (entry : UtxoEntry) :
    (ms.mutate op entry).Wf ∧
      (ms.mutate op entry).get = update ms.get op (some (some entry)) := by
  unfold MapSlice.mutate
  cases hmaps : putFirst (fun m => op ∈ m.entries) op (some entry) ms.maps with
  | some maps => exact h.overwrite hmaps
  | none =>
    rw [get, findSome_of_notMem (putFirst_eq_none hmaps)] at hop
    cases hop

lemma Wf.delete (h : ms.Wf) (op : OutPoint) : (ms.delete op).Wf ∧
    (ms.delete op).get = update ms.get op none := by
  refine ⟨⟨?_, by simpa [MapSlice.delete] using h.nonempty⟩, ?_⟩
  · refine List.Pairwise.map _ ?_ h.disjoint
    intro m m' hmm' o ho ho'
    exact hmm' o (mem_erase.1 ho).2 (mem_erase.1 ho').2
  · funext o
    simp only [MapSlice.delete, get, List.findSome?_map, comp_def]
    by_cases ho : o = op
    · subst ho
      simp
    · simp only [update_of_ne ho, lookup_erase_ne ho]
      rfl

end MapSlice

/-! ## Entries and the database -/

def utxoCells : WriteBack.Cells (Option UtxoEntry) SpentTxOut where
  value := unspent
  dirty e := ∃ entry ∈ e, entry.isModified
  fresh e := ∃ entry ∈ e, entry.isFresh

/-- The script of an entry is the one its address gives, so the stored format loses nothing. -/
def UtxoEntry.Scripted (e : UtxoEntry) : Prop :=
  e.pkScriptOf = txOutPkScript ⟨e.amount, e.address, e.covenant⟩

variable {e : UtxoEntry}

lemma UtxoEntry.scripted_of_pkScript
    (h : e.pkScript = txOutPkScript ⟨e.amount, e.address, e.covenant⟩) : e.Scripted := by
  unfold UtxoEntry.Scripted pkScriptOf
  split_ifs with hlen
  · rw [h] at hlen
    unfold txOutPkScript at hlen ⊢
    by_cases hnull : e.address.isNulldata
    · simp [hnull] at hlen
    · simp [hnull]
  · exact h

lemma scripted_ofTxOut (txOut : TxOut) (isCoinBase : Bool) (height : Int32) :
    (ofTxOut txOut isCoinBase height).Scripted :=
  scripted_of_pkScript rfl

lemma StoredUtxo.scripted_entry (u : StoredUtxo) : u.entry.Scripted :=
  scripted_of_pkScript rfl

lemma UtxoEntry.Scripted.spend (h : e.Scripted) : e.spend.Scripted := by
  unfold UtxoEntry.spend
  split_ifs
  · exact h
  · exact h

lemma UtxoEntry.Scripted.stxo_stored (h : e.Scripted) : e.stored.entry.stxo = e.stxo := by
  have hscript : e.stored.entry.pkScriptOf = e.pkScriptOf := e.stored.scripted_entry.trans h.symm
  exact congrArg (fun script => { e.stxo with pkScript := script }) hscript

def UtxoDb.coins (db : UtxoDb) : UtxoSet := fun o => unspent (db.dbFetchUtxoEntry o)

lemma UtxoDb.coins_eq (db : UtxoDb) (o : OutPoint) :
    db.coins o = (db.utxoSet.lookup o).map fun u => u.entry.stxo := by
  unfold coins dbFetchUtxoEntry
  cases db.utxoSet.lookup o with
  | none => rfl
  | some u => rfl

lemma utxoCells_ok_dbFetch (db : UtxoDb) (o : OutPoint) :
    utxoCells.Ok (db.dbFetchUtxoEntry o) (db.coins o) := by
  refine ⟨fun _ => rfl, ?_⟩
  rintro ⟨entry, hentry, hfresh⟩
  obtain ⟨u, -, rfl⟩ := map_eq_some_iff.1 hentry
  cases hfresh

namespace UtxoCache

/-- The cache over the database stands for the set `U`. -/
structure Refines (s : UtxoCache) (db : UtxoDb) (U : UtxoSet) : Prop where
  wf : s.cachedEntries.Wf
  coherent : WriteBack.Coherent utxoCells s.cachedEntries.get db.coins
  scripted : ∀ o e, s.cachedEntries.get o = some (some e) → e.Scripted
  effective : effective utxoCells s.cachedEntries.get db.coins = U

variable {mem : Memory} {db : UtxoDb} {s : UtxoCache} {U : UtxoSet} {op : OutPoint}
  {e : Option UtxoEntry} {height : Int32}

lemma refines_of_empty (hs : s.cachedEntries.maps = [⟨∅, n⟩]) (db : UtxoDb) :
    s.Refines db db.coins := by
  have hget : ∀ o, s.cachedEntries.get o = none := by
    simp [MapSlice.get, hs]
  refine ⟨⟨by rw [hs]; exact List.pairwise_singleton _ _, by simp [hs]⟩, ?_, ?_, ?_⟩
  · intro o e he
    rw [hget] at he
    cases he
  · intro o e he
    rw [hget] at he
    cases he
  · funext o
    exact effective_of_none (hget o)

lemma Refines.of_get (h : s.Refines db U) {s' : UtxoCache} (hwf : s'.cachedEntries.Wf)
    (hget : s'.cachedEntries.get = update s.cachedEntries.get op (some e))
    (hok : utxoCells.Ok e (db.coins op)) (hscript : ∀ entry ∈ e, entry.Scripted) :
    s'.Refines db (update U op (unspent e)) := by
  refine ⟨hwf, hget ▸ h.coherent.put hok, ?_, ?_⟩
  · intro o entry ho
    rw [hget] at ho
    by_cases hop : o = op
    · subst hop
      rw [update_self, Option.some.injEq] at ho
      exact hscript entry ho
    · rw [update_of_ne hop] at ho
      exact h.scripted o entry ho
  · rw [hget, effective_put, h.effective]
    rfl

lemma Refines.putEntry (h : s.Refines db U) (hok : utxoCells.Ok e (db.coins op))
    (hscript : ∀ entry ∈ e, entry.Scripted) :
    (s.putEntry mem op e).Refines db (update U op (unspent e)) :=
  have hput := h.wf.put mem op e s.totalEntryMemory
  h.of_get hput.1 hput.2 hok hscript

lemma Refines.load (h : s.Refines db U) (hop : U op = db.coins op) :
    (s.putEntry mem op (db.dbFetchUtxoEntry op)).Refines db U := by
  have hscript : ∀ entry ∈ db.dbFetchUtxoEntry op, entry.Scripted := by
    intro entry hentry
    obtain ⟨u, -, rfl⟩ := map_eq_some_iff.1 hentry
    exact u.scripted_entry
  have hsame : update U op (unspent (db.dbFetchUtxoEntry op)) = U := by
    rw [show unspent (db.dbFetchUtxoEntry op) = U op from hop.symm, update_eq_self]
  rw [← hsame]
  exact h.putEntry (utxoCells_ok_dbFetch db op) hscript

lemma Refines.loadAll : ∀ {ops : List OutPoint} {s : UtxoCache}, s.Refines db U →
    (∀ op ∈ ops, U op = db.coins op) →
    (ops.foldl (fun s op => s.putEntry mem op (db.dbFetchUtxoEntry op)) s).Refines db U
  | [], _, h, _ => h
  | op :: ops, s, h, hops => by
    rw [List.forall_mem_cons] at hops
    exact (h.load hops.1).loadAll hops.2

section

variable (h : s.Refines db U)
include h

lemma Refines.uncached (hop : s.cachedEntries.get op = none) : U op = db.coins op := by
  rw [← h.effective, effective_of_none hop]

lemma Refines.fetchEntries (ops : List OutPoint) : (s.fetchEntries mem db ops).2.Refines db U ∧
      (s.fetchEntries mem db ops).1.map unspent = ops.map U := by
  constructor
  · refine h.loadAll fun op hop => h.uncached ?_
    simpa using (List.mem_filter.1 hop).2
  · unfold UtxoCache.fetchEntries
    rw [List.map_map]
    refine List.map_congr_left fun op _ => ?_
    cases hop : s.cachedEntries.get op with
    | none =>
      rw [h.uncached hop]
      simp [hop, coins]
    | some e =>
      rw [← h.effective, effective_of_some hop]
      simp [hop, utxoCells]

lemma Refines.spendEntry (hop : s.cachedEntries.get op = some (some entry)) :
    (s.spendEntry mem op entry).Refines db (update U op none) := by
  unfold UtxoCache.spendEntry
  split_ifs with hfresh
  · obtain ⟨hwf, hget⟩ := h.wf.delete op
    refine ⟨hwf, hget ▸ h.coherent.drop, ?_, ?_⟩
    · intro o e ho
      rw [hget] at ho
      by_cases heq : o = op
      · subst heq
        simp at ho
      · rw [update_of_ne heq] at ho
        exact h.scripted o e ho
    · rw [hget, h.coherent.effective_dropFresh hop ⟨entry, rfl, hfresh⟩, h.effective]
  · obtain ⟨hwf, hget⟩ := h.wf.mutate hop entry.spend
    rw [← unspent_spend entry]
    refine h.of_get hwf hget ⟨?_, ?_⟩ ?_
    · -- an entry that was spent before stays as it is
      intro hclean
      have hsame : entry.spend = entry := by
        rw [spend]
        split_ifs with hspent
        · rfl
        · exact absurd ⟨entry.spend, rfl, by rw [spend, if_neg hspent]; rfl⟩ hclean
      rw [hsame] at hclean ⊢
      exact (h.coherent op _ hop).clean hclean
    · rintro ⟨e, hmem, he⟩
      rw [mem_some_iff] at hmem
      have hsame : entry.spend.isFresh = entry.isFresh := by
        rw [spend]
        split_ifs <;> rfl
      rw [← hmem, hsame] at he
      exact absurd he hfresh
    · intro e hmem
      rw [mem_some_iff] at hmem
      exact hmem ▸ (h.scripted op entry hop).spend

lemma Refines.fetch_one (hc : U op = some c) :
    ∃ entry s', s.fetchEntries mem db [op] = ([some entry], s') ∧
      s'.Refines db U ∧ s'.cachedEntries.get op = some (some entry) ∧ entry.isSpent = false ∧
      entry.stxo = c := by
  cases hop : s.cachedEntries.get op with
  | some e =>
    have hval : unspent e = some c := by
      rw [← hc, ← h.effective, effective_of_some hop]
      rfl
    obtain ⟨entry, rfl, hspent, hstxo⟩ := unspent_eq_some.1 hval
    exact ⟨entry, s, by simp [UtxoCache.fetchEntries, hop], h, hop, hspent, hstxo⟩
  | none =>
    have hval : unspent (db.dbFetchUtxoEntry op) = some c := (h.uncached hop).symm.trans hc
    obtain ⟨entry, hentry, hspent, hstxo⟩ := unspent_eq_some.1 hval
    refine ⟨entry, s.putEntry mem op (some entry), ?_, ?_, ?_, hspent, hstxo⟩
    · simp [UtxoCache.fetchEntries, hop, hentry]
    · rw [← hentry]
      exact h.load (h.uncached hop)
    · exact (congrFun (h.wf.put mem op (some entry) s.totalEntryMemory).2 op).trans
        (update_self ..)

lemma Refines.addTxIn (hc : U txIn.previousOutPoint = some c) (stxos : List SpentTxOut) :
    ∃ s', s.addTxIn mem db txIn stxos = .ok (s', stxos ++ [c]) ∧
      s'.Refines db (update U txIn.previousOutPoint none) := by
  obtain ⟨entry, s1, hfetch, href, hget, hspent, rfl⟩ := h.fetch_one hc
  refine ⟨s1.spendEntry mem txIn.previousOutPoint entry, ?_, href.spendEntry hget⟩
  rw [UtxoCache.addTxIn, hfetch]

end

lemma Refines.addTxIns : ∀ {txIns} {s : UtxoCache} {U : UtxoSet},
    s.Refines db U → (txIns.map (·.previousOutPoint)).Nodup →
    (∀ o ∈ txIns.map (·.previousOutPoint), (U o).isSome) → ∀ stxos,
    ∃ s', s.addTxIns mem db txIns stxos =
        .ok (s', stxos ++ (txIns.map (·.previousOutPoint)).filterMap U) ∧
      s'.Refines db (remove U (txIns.map (·.previousOutPoint)))
  | [], s, U, h, _, _, stxos => ⟨s, by simp [UtxoCache.addTxIns], by simpa [remove_nil] using h⟩
  | i :: txIns, s, U, h, hnodup, hheld, stxos => by
    rw [List.map_cons, List.nodup_cons] at hnodup
    rw [List.map_cons, List.forall_mem_cons] at hheld
    obtain ⟨c, hc⟩ := isSome_iff_exists.1 hheld.1
    obtain ⟨s1, hok1, href1⟩ := h.addTxIn hc stxos
    have hsame : ∀ o ∈ txIns.map (·.previousOutPoint),
        update U i.previousOutPoint none o = U o := by
      intro o ho
      have hne : o ≠ i.previousOutPoint := fun heq => hnodup.1 (heq ▸ ho)
      exact update_of_ne hne ..
    obtain ⟨s2, hok2, href2⟩ := href1.addTxIns hnodup.2
      (fun o ho => by rw [hsame o ho]; exact hheld.2 o ho) (stxos ++ [c])
    refine ⟨s2, ?_, by rw [List.map_cons, remove_cons]; exact href2⟩
    rw [UtxoCache.addTxIns, hok1]
    simp only [ok_bind]
    rw [hok2, List.map_cons, List.filterMap_cons_some hc, List.filterMap_congr hsame,
      List.append_assoc, List.singleton_append]

/-- The step on which all rests: a new output is fresh, so the database must not have it. -/
theorem Refines.addTxOut (h : s.Refines db U) (hop : db.coins op = none) (txOut : TxOut)
    (isCoinBase : Bool) (height : Int32) :
    (s.putEntry mem op (some (.ofTxOut txOut isCoinBase height))).Refines db
      (update U op (some (ofTxOut txOut isCoinBase height).stxo)) := by
  refine h.putEntry ⟨?_, fun _ => hop⟩ ?_
  · intro hclean
    exact absurd ⟨_, rfl, rfl⟩ hclean
  · intro e hmem
    rw [mem_some_iff] at hmem
    exact hmem ▸ scripted_ofTxOut ..

lemma Refines.addTxOuts (h : s.Refines db U)
    (hnew : ∀ o ∈ (tx.newCoins height).map Prod.fst, db.coins o = none) :
    (s.addTxOuts mem tx height).Refines db (add U (tx.newCoins height)) := by
  unfold UtxoCache.addTxOuts
  unfold Tx.newCoins at hnew ⊢
  generalize tx.txOut.zipIdx = l at hnew
  induction l generalizing s U with
  | nil => exact h
  | cons p l ih =>
    rw [List.foldl_cons, UtxoCache.addTxOut]
    by_cases hp : txOutIsUnspendable p.1
    · rw [List.filterMap_cons_none (Tx.coinOf_unspendable hp _ _)] at hnew ⊢
      rw [if_pos hp]
      exact ih h hnew
    · rw [List.filterMap_cons_some (Tx.coinOf_spendable hp _ _)] at hnew ⊢
      rw [List.map_cons, List.forall_mem_cons] at hnew
      rw [if_neg hp]
      exact ih (h.addTxOut hnew.1 _ _ _) hnew.2

lemma Refines.connectTransaction (h : s.Refines db U) (hnodup : (tx.step height).inputs.Nodup)
    (hheld : ∀ o ∈ (tx.step height).inputs, (U o).isSome)
    (hnew : ∀ o ∈ (tx.step height).created, db.coins o = none) (stxos : List SpentTxOut) :
    ∃ s', s.connectTransaction mem db tx height stxos =
        .ok (s', stxos ++ (tx.step height).journal U) ∧
      s'.Refines db ((tx.step height).apply U) := by
  rw [tx.inputs_step] at hnodup hheld
  obtain ⟨s1, hok1, href1⟩ := h.addTxIns hnodup hheld stxos
  refine ⟨s1.addTxOuts mem tx height, ?_, ?_⟩
  · rw [UtxoCache.connectTransaction, hok1, Step.journal, tx.inputs_step]
    rfl
  · rw [Step.apply, tx.inputs_step]
    exact href1.addTxOuts hnew

lemma Refines.connectTxs : ∀ {txs} {s : UtxoCache} {U : UtxoSet},
    s.Refines db U → (∀ tx ∈ txs, (tx.step height).inputs.Nodup) →
    InputsHeld (txs.map (·.step height)) U →
    (∀ tx ∈ txs, ∀ o ∈ (tx.step height).created, db.coins o = none) →
    ∀ stxos, ∃ s', s.connectTxs mem db txs height stxos =
        .ok (s', stxos ++ journalAll (txs.map (·.step height)) U) ∧
      s'.Refines db (applyAll (txs.map (·.step height)) U)
  | [], s, U, h, _, _, _, stxos => ⟨s, by simp [UtxoCache.connectTxs, journalAll], h⟩
  | tx :: txs, s, U, h, hnodup, hheld, hnew, stxos => by
    rw [List.forall_mem_cons] at hnodup hnew
    obtain ⟨s1, hok1, href1⟩ := h.connectTransaction hnodup.1 hheld.1 hnew.1 stxos
    obtain ⟨s2, hok2, href2⟩ := href1.connectTxs hnodup.2 hheld.2 hnew.2
      (stxos ++ (tx.step height).journal U)
    refine ⟨s2, ?_, href2⟩
    rw [UtxoCache.connectTxs, hok1]
    simp only [ok_bind]
    rw [hok2, List.append_assoc]
    rfl

def Writable (e : Option UtxoEntry) (v : Option SpentTxOut) : Prop :=
  utxoCells.Ok e v ∧ ∀ entry ∈ e, entry.Scripted

lemma coins_delete (db : UtxoDb) (op : OutPoint) :
    (db.dbDeleteUtxoEntry op).coins = update db.coins op none := by
  funext o
  rw [coins_eq, dbDeleteUtxoEntry]
  by_cases ho : o = op
  · subst ho
    simp
  · rw [update_of_ne ho, coins_eq, lookup_erase_ne ho]

lemma dbPutUtxoEntry_ok (db : UtxoDb) (op : OutPoint) (hspent : entry.isSpent = false)
    (hscript : entry.Scripted) :
    ∃ db', db.dbPutUtxoEntry op entry = .ok db' ∧
      db'.coins = update db.coins op (unspent (some entry)) ∧
      db'.consistency = db.consistency := by
  refine ⟨{ db with utxoSet := db.utxoSet.insert op entry.stored }, ?_, ?_, rfl⟩
  · simp [dbPutUtxoEntry, failIf_of_not, hspent]
  · funext o
    rw [coins_eq]
    by_cases ho : o = op
    · subst ho
      simp [unspent, hspent, hscript.stxo_stored]
    · rw [update_of_ne ho, coins_eq, lookup_insert_of_ne _ ho]

lemma writeEntry_ok (h : Writable e (db.coins op)) :
    ∃ db', writeEntry db op e = .ok db' ∧ db'.coins = update db.coins op (unspent e) ∧
      db'.consistency = db.consistency := by
  cases e with
  | none => exact ⟨_, rfl, coins_delete db op, rfl⟩
  | some entry =>
    rw [writeEntry]
    cases hspent : entry.isSpent with
    | true => exact ⟨_, rfl, by simp [coins_delete, unspent, hspent], rfl⟩
    | false =>
      cases hmod : entry.isModified with
      | true => exact dbPutUtxoEntry_ok db op hspent (h.2 entry rfl)
      | false =>
        refine ⟨db, by simp, ?_, rfl⟩
        rw [show unspent (some entry) = db.coins op from h.1.clean (by simp [utxoCells, hmod]),
          update_eq_self]

lemma writeMap_ok (order : RangeOrder OutPoint) {m : SizedMap}
    (h : ∀ op e, m.entries.lookup op = some e → Writable e (db.coins op)) :
    ∃ db', writeMap order db m = .ok db' ∧
      db'.coins = effective utxoCells m.entries.lookup db.coins := by
  have hkeys : ∀ op, op ∈ order.list m.entries.keys ↔ ∃ e, m.entries.lookup op = some e := by
    intro op
    rw [order.mem_iff, mem_keys, ← lookup_isSome, isSome_iff_exists]
  have hwritable : ∀ op ∈ order.list m.entries.keys,
      Writable (m.entries.lookup op).join (db.coins op) := by
    intro op hop
    obtain ⟨e, he⟩ := (hkeys op).1 hop
    rw [he]
    exact h op e he
  obtain ⟨db', hok, hcoins, -⟩ := Loops.foldlM_write (r := UtxoDb.coins)
    (c := UtxoDb.consistency) (fun _ _ => writeEntry_ok) (order.nodup m.entries.keys) hwritable
  refine ⟨db', hok, ?_⟩
  funext o
  rw [hcoins]
  cases ho : m.entries.lookup o with
  | some e =>
    rw [if_pos ((hkeys o).2 ⟨e, ho⟩)]
    simp [effective, ho, utxoCells]
  | none =>
    rw [if_neg (by simp [hkeys, ho])]
    simp [effective, ho]

lemma writeMaps_ok (order : RangeOrder OutPoint) : ∀ {maps : List SizedMap} {db : UtxoDb},
    maps.Pairwise (fun m m' => ∀ op ∈ m.entries, op ∉ m'.entries) →
    (∀ m ∈ maps, ∀ op e, m.entries.lookup op = some e → Writable e (db.coins op)) →
    ∃ db', maps.foldlM (writeMap order) db = .ok db' ∧
      db'.coins = effective utxoCells
        (fun op => maps.findSome? fun m => m.entries.lookup op) db.coins
  | [], db, _, _ => ⟨db, rfl, rfl⟩
  | m :: maps, db, hdisj, h => by
    rw [List.pairwise_cons] at hdisj
    rw [List.forall_mem_cons] at h
    obtain ⟨db1, hok1, hcoins1⟩ := writeMap_ok order h.1
    have hrest : ∀ m' ∈ maps, ∀ op e, m'.entries.lookup op = some e →
        Writable e (db1.coins op) := by
      intro m' hm' op e he
      have hnot : op ∉ m.entries := fun hop =>
        hdisj.1 m' hm' op hop (mem_of_lookup_eq_some he)
      simp only [hcoins1, effective, lookup_eq_none.2 hnot]
      exact h.2 m' hm' op e he
    obtain ⟨db2, hok2, hcoins2⟩ := writeMaps_ok order hdisj.2 hrest
    refine ⟨db2, by rw [List.foldlM_cons, hok1]; exact hok2, ?_⟩
    funext o
    rw [hcoins2, hcoins1]
    cases ho : m.entries.lookup o with
    | none => simp [effective, ho]
    | some e =>
      have hnone : maps.findSome? (fun m => m.entries.lookup o) = none :=
        MapSlice.findSome_of_notMem fun m' hm' =>
          hdisj.1 m' hm' o (mem_of_lookup_eq_some ho)
      simp [effective, ho, hnone]

lemma MapSlice.get_eq_of_mem {ms : MapSlice} (h : ms.Wf) (hm : m ∈ ms.maps)
    (he : m.entries.lookup op = some e) : ms.get op = some e := by
  obtain ⟨before, after, hms⟩ := List.append_of_mem hm
  have hd := h.disjoint
  rw [hms, List.pairwise_append] at hd
  have hbefore : ∀ m' ∈ before, op ∉ m'.entries := fun m' hm' hop =>
    hd.2.2 m' hm' m List.mem_cons_self op hop (mem_of_lookup_eq_some he)
  rw [MapSlice.get, hms, List.findSome?_append, MapSlice.findSome_of_notMem hbefore,
    none_or, List.findSome?_cons, he]

structure Flushed (U : UtxoSet) (bestHash : Hash) (s : UtxoCache) (db : UtxoDb) : Prop where
  empty : ∃ n, s.cachedEntries.maps = [⟨∅, n⟩]
  coins : db.coins = U
  consistency : db.consistency = some bestHash
  lastFlushHash : s.lastFlushHash = bestHash

lemma Flushed.refines (h : Flushed U bestHash s db) : s.Refines db U := by
  obtain ⟨n, hn⟩ := h.empty
  rw [← h.coins]
  exact refines_of_empty hn db

lemma Refines.writeCache (h : s.Refines db U) (order : RangeOrder OutPoint) (bestHash : Hash)
    (now : ℤ) : ∃ s' db', s.writeCache db order bestHash now = .ok (s', db') ∧
      Flushed U bestHash s' db' := by
  obtain ⟨m, maps, hmaps⟩ := List.exists_cons_of_ne_nil h.wf.nonempty
  have hwritable : ∀ m ∈ s.cachedEntries.maps, ∀ op e, m.entries.lookup op = some e →
      Writable e (db.coins op) := by
    intro m hm op e he
    have hget := MapSlice.get_eq_of_mem h.wf hm he
    refine ⟨h.coherent op e hget, fun entry hentry => h.scripted op entry ?_⟩
    rw [hget, mem_def.1 hentry]
  obtain ⟨db', hok, hcoins⟩ := writeMaps_ok order h.wf.disjoint hwritable
  let s' : UtxoCache :=
    { s with
      cachedEntries := { s.cachedEntries with maps := [{ m with entries := ∅ }] }
      totalEntryMemory := 0
      lastFlushHash := bestHash
      lastFlushTime := now }
  refine ⟨s', db'.dbPutUtxoStateConsistency bestHash, ?_, ⟨m.maxEntries, rfl⟩,
    hcoins.trans h.effective, rfl, rfl⟩
  rw [UtxoCache.writeCache, hok, hmaps]
  rfl

lemma Refines.flush_cases (h : s.Refines db U) (mem : Memory) (order : RangeOrder OutPoint)
    (mode : FlushMode) (bestHash : Hash) (now : ℤ) :
    ∃ s' db', s.flush mem db order mode bestHash now = .ok (s', db') ∧
      (((s', db') = (s, db) ∧ mode ≠ .required) ∨ Flushed U bestHash s' db') := by
  obtain ⟨s', db', hwrite, hflushed⟩ := h.writeCache order bestHash now
  unfold UtxoCache.flush
  split
  · rename_i hthreshold
    refine ⟨s, db, rfl, .inl ⟨rfl, ?_⟩⟩
    rintro rfl
    simp [flushThreshold] at hthreshold
  · rename_i threshold hthreshold
    split_ifs with hle
    · exact ⟨s', db', hwrite, .inr hflushed⟩
    · refine ⟨s, db, rfl, .inl ⟨rfl, ?_⟩⟩
      rintro rfl
      simp only [flushThreshold, Option.some.injEq] at hthreshold
      subst hthreshold
      exact absurd UInt64.zero_le hle

lemma Refines.flush_required (h : s.Refines db U)
    (hok : s.flush mem db order .required bestHash now = .ok (s', db')) :
    Flushed U bestHash s' db' := by
  obtain ⟨_, _, hflush, hcases⟩ := h.flush_cases mem order .required bestHash now
  cases hflush.symm.trans hok
  exact hcases.resolve_left fun hsame => hsame.2 rfl

lemma Refines.flush (h : s.Refines db U) (order : RangeOrder OutPoint) (mode : FlushMode)
    (bestHash : Hash) (now : ℤ) : ∃ s' db', s.flush mem db order mode bestHash now = .ok (s', db') ∧
      s'.Refines db' U ∧ ((s', db') = (s, db) ∨ db'.coins = U) ∧
      (mode = .required → db'.coins = U) := by
  obtain ⟨s', db', hok, hcases⟩ := h.flush_cases mem order mode bestHash now
  refine ⟨s', db', hok, ?_⟩
  rcases hcases with ⟨hsame, hmode⟩ | hflushed
  · cases hsame
    exact ⟨h, .inl rfl, fun hreq => absurd hreq hmode⟩
  · exact ⟨hflushed.refines, .inr hflushed.coins, fun _ => hflushed.coins⟩

/-- A cached entry if there is one, nil or spent meaning absent, else the database entry. -/
def effectiveSet (s : UtxoCache) (db : UtxoDb) : UtxoSet :=
  effective utxoCells s.cachedEntries.get db.coins

/-- The runs of a cache, beside the plain set with the same operations applied. Blocks spend
unspent outputs, each once, and create outputs as `New` allows. -/
inductive Run (mem : Memory) (New : UtxoSet → UtxoDb → Block → Prop) :
    UtxoCache → UtxoDb → UtxoSet → Prop
  | new (db : UtxoDb) (max : UInt64) : Run mem New (newUtxoCache mem max) db db.coins
  | fetch {s : UtxoCache} {db : UtxoDb} {U : UtxoSet} (h : Run mem New s db U)
      (ops : List OutPoint) : Run mem New (s.fetchEntries mem db ops).2 db U
  | connect {s s' : UtxoCache} {db : UtxoDb} {U : UtxoSet} {stxos : List SpentTxOut}
      (h : Run mem New s db U) (block : Block) (hheld : InputsHeld block.steps U)
      (honce : ∀ t ∈ block.steps, t.inputs.Nodup) (hnew : New U db block)
      (hok : s.connectTransactions mem db block [] = .ok (s', stxos)) :
      Run mem New s' db (applyAll block.steps U)
  | flush {s s' : UtxoCache} {db db' : UtxoDb} {U : UtxoSet} (h : Run mem New s db U)
      (order : RangeOrder OutPoint) (mode : FlushMode) (bestHash : Hash) (now : ℤ)
      (hok : s.flush mem db order mode bestHash now = .ok (s', db')) : Run mem New s' db' U

def NotUnspent (U : UtxoSet) (_ : UtxoDb) (block : Block) : Prop :=
  ∀ t ∈ block.steps, ∀ o ∈ t.created, U o = none

def NotStored (_ : UtxoSet) (db : UtxoDb) (block : Block) : Prop :=
  ∀ t ∈ block.steps, ∀ o ∈ t.created, db.utxoSet.lookup o = none

lemma Refines.connectTransactions (h : s.Refines db U) (hheld : InputsHeld block.steps U)
    (honce : ∀ t ∈ block.steps, t.inputs.Nodup) (hnew : NotStored U db block) :
    ∃ s', s.connectTransactions mem db block [] = .ok (s', journalAll block.steps U) ∧
      s'.Refines db (applyAll block.steps U) := by
  refine h.connectTxs (fun tx htx => honce _ (List.mem_map_of_mem htx)) hheld ?_ []
  intro tx htx o ho
  rw [coins_eq, hnew _ (List.mem_map_of_mem htx) o ho]
  rfl

lemma Run.refines (h : Run mem NotStored s db U) : s.Refines db U := by
  induction h with
  | new db max => exact refines_of_empty rfl db
  | fetch _ ops ih => exact (ih.fetchEntries ops).1
  | connect _ block hheld honce hnew hok ih =>
    obtain ⟨s1, hok1, href⟩ := ih.connectTransactions hheld honce hnew
    rw [hok1] at hok
    cases hok
    exact href
  | flush _ order mode bestHash now hok ih =>
    obtain ⟨s1, db1, hok1, href, -⟩ := ih.flush order mode bestHash now
    rw [hok1] at hok
    cases hok
    exact href

/-- The cache refines the plain set as long as no block creates an output that the database has. -/
theorem effectiveSet_eq {s : UtxoCache} {db : UtxoDb} {U : UtxoSet} (h : Run mem NotStored s db U) :
    s.effectiveSet db = U ∧
    (∀ ops, (s.fetchEntries mem db ops).1.map unspent = ops.map U) ∧
    (∀ block, InputsHeld block.steps U → (∀ t ∈ block.steps, t.inputs.Nodup) →
      NotStored U db block → ∃ s' stxos, s.connectTransactions mem db block [] = .ok (s', stxos) ∧
        ∀ view : UtxoViewpoint, view.coins = U →
          ∃ view', view.connectTransactions block [] = .ok (view', stxos)) ∧
    ∀ order mode bestHash now, ∃ s' db', s.flush mem db order mode bestHash now = .ok (s', db') ∧
      s'.effectiveSet db' = U ∧ ((s', db') = (s, db) ∨ db'.coins = U) ∧
      (mode = .required → db'.coins = U) := by
  have href := h.refines
  refine ⟨href.effective, fun ops => (href.fetchEntries ops).2, ?_, ?_⟩
  · intro block hheld honce hnew
    obtain ⟨s', hok, -⟩ := href.connectTransactions hheld honce hnew
    refine ⟨s', _, hok, ?_⟩
    rintro view rfl
    obtain ⟨view', hview, -⟩ := UtxoViewpoint.connectTransactions_ok [] hheld
    exact ⟨view', hview⟩
  · intro order mode bestHash now
    obtain ⟨s', db', hok, href', hwritten, hrequired⟩ := href.flush order mode bestHash now
    exact ⟨s', db', hok, href'.effective, hwritten, hrequired⟩

open UtxoViewpoint in
def oneCoinDb : UtxoDb where
  utxoSet := Finmap.insert ⟨Hash.ofBytes [1], 0⟩ (ofTxOut plainOut true 1).stored ∅
  consistency := none

def unitMemory : Memory := ⟨fun _ => 1, fun _ => 1, fun _ => 10⟩

open UtxoViewpoint in
theorem effectiveSet_eq_chained : ∃ s,
    Run unitMemory NotStored s oneCoinDb (applyAll chainedBlock.steps oneCoinDb.coins) ∧
      s.effectiveSet oneCoinDb = applyAll chainedBlock.steps oneCoinDb.coins := by
  have hrun : Run unitMemory NotStored (newUtxoCache unitMemory 1000) oneCoinDb oneCoinDb.coins :=
    .new oneCoinDb 1000
  have hheld : InputsHeld chainedBlock.steps oneCoinDb.coins := by decide +kernel
  have honce : ∀ t ∈ chainedBlock.steps, t.inputs.Nodup := by decide +kernel
  have hnew : NotStored oneCoinDb.coins oneCoinDb chainedBlock := by
    unfold NotStored
    decide +kernel
  obtain ⟨s, hok, -⟩ := hrun.refines.connectTransactions hheld honce hnew
  have hrun' := hrun.connect chainedBlock hheld honce hnew hok
  exact ⟨s, hrun', (effectiveSet_eq hrun').1⟩

/-! ### An output made again -/

def coinbaseBlock (n : UInt8) (height : Int32) (txs : List Tx) : Block where
  hash := Hash.ofBytes [n, 1]
  prevBlock := Hash.ofBytes [n, 2]
  nameRoot := Hash.zero
  height := height
  transactions := UtxoViewpoint.plainTx n ⟨Hash.zero, 0xffffffff⟩ :: txs

def spendingBlock (n : UInt8) (height : Int32) : Block :=
  coinbaseBlock n height [UtxoViewpoint.plainTx (n + 1) ⟨Hash.ofBytes [1], 0⟩]

def afterBlock (s : UtxoCache) (block : Block) : UtxoCache :=
  match s.connectTransactions unitMemory oneCoinDb block [] with
  | .ok (s', _) => s'
  | .error _ => s

lemma Run.afterBlock (block : Block) (h : Run unitMemory NotUnspent s oneCoinDb U)
    (hheld : InputsHeld block.steps U) (honce : ∀ t ∈ block.steps, t.inputs.Nodup)
    (hnew : NotUnspent U oneCoinDb block)
    (hok : (s.connectTransactions unitMemory oneCoinDb block []).isOk) :
    Run unitMemory NotUnspent (afterBlock s block) oneCoinDb (applyAll block.steps U) := by
  unfold UtxoCache.afterBlock
  split
  · rename_i s' stxos hs'
    exact h.connect block hheld honce hnew hs'
  · rename_i e he
    rw [he] at hok
    cases hok

/-- The output is spent, made again by a coinbase of the same hash and spent again, and then it is
back: the cache drops its entry as fresh and finds the first one in the database. -/
theorem effectiveSet_ne_recreated : ∃ s U, Run unitMemory NotUnspent s oneCoinDb U ∧
    (s.effectiveSet oneCoinDb ⟨Hash.ofBytes [1], 0⟩).isSome ∧ U ⟨Hash.ofBytes [1], 0⟩ = none := by
  have hrun : Run unitMemory NotUnspent (newUtxoCache unitMemory 1000) oneCoinDb oneCoinDb.coins :=
    .new oneCoinDb 1000
  have hrun1 := Run.afterBlock (spendingBlock 11 2) hrun (by decide +kernel)
    (by decide +kernel) (by unfold NotUnspent; decide +kernel) (by decide +kernel)
  have hrun2 := Run.afterBlock (coinbaseBlock 1 3 []) hrun1 (by decide +kernel)
    (by decide +kernel) (by unfold NotUnspent; decide +kernel) (by decide +kernel)
  have hrun3 := Run.afterBlock (spendingBlock 13 4) hrun2 (by decide +kernel)
    (by decide +kernel) (by unfold NotUnspent; decide +kernel) (by decide +kernel)
  exact ⟨_, _, hrun3, by decide +kernel, by decide +kernel⟩

end UtxoCache

end HandshakeNode
