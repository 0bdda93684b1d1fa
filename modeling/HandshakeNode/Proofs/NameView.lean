import HandshakeNode.Lib.Simulation
import HandshakeNode.NameMap
import HandshakeNode.Proofs.NameCodec
import HandshakeNode.Proofs.NameCovenant

/-!
# Views and the map they stand for

Applying transactions to a view is applying them to the map it stands for: the same calls fail, with
the same errors, and a view knows which names were changed and what they were before. This holds for
a lazy view over a database and for a view of given states alike.
-/

namespace HandshakeNode

open Simulation NameRun

namespace NameBlockView

variable {view : NameBlockView}

def stored (isLazy : Bool) (dbTx : Option NameDb) (nameHash : Hash) : Result NameState :=
  match isLazy, dbTx with
  | false, _ => .ok (newNameState nameHash)
  | true, none => .error (.assert "lazy name block view requires a database transaction")
  | true, some db => do
    let ns ← db.dbFetchNameState nameHash
    return ns.getD (newNameState nameHash)

def peek (view : NameBlockView) (dbTx : Option NameDb) (nameHash : Hash) : Result NameState :=
  match view.states.lookup nameHash with
  | some ns => .ok ns
  | none => stored view.loaded.isSome dbTx nameHash

structure AgreesBut (nameHash : Hash) (ns : NameState) (view view' : NameBlockView) : Prop where
  lookup : ∀ k, view'.states.lookup k = if k = nameHash then some ns else view.states.lookup k
  isLazy : view'.loaded.isSome = view.loaded.isSome

lemma AgreesBut.peek_eq (h : AgreesBut nameHash ns view view') (k : Hash) :
    view'.peek dbTx k = if k = nameHash then .ok ns else view.peek dbTx k := by
  unfold peek
  rw [h.lookup, h.isLazy]
  split_ifs <;> rfl

lemma fetch_ok (h : stored view.loaded.isSome dbTx nameHash = .ok ns) :
    ∃ loaded, view.fetch dbTx nameHash = .ok (ns, loaded) ∧ loaded.isSome = view.loaded.isSome := by
  unfold fetch
  cases hl : view.loaded with
  | none =>
    rw [hl] at h
    cases h
    exact ⟨none, rfl, rfl⟩
  | some loaded =>
    cases dbTx with
    | none =>
      rw [hl] at h
      cases h
    | some db =>
      rw [hl] at h
      simp only [stored, Option.isSome_some, bind_eq_ok, pure_eq_ok] at h
      obtain ⟨found, hfound, rfl⟩ := h
      exact ⟨some (insert nameHash loaded), by simp only [hfound]; rfl, rfl⟩

lemma get_ok (h : view.peek dbTx nameHash = .ok ns) :
    ∃ view', view.get dbTx nameHash = .ok (ns, view') ∧ AgreesBut nameHash ns view view' ∧
      view'.dirty = view.dirty ∧ view'.undo = view.undo ∧ view'.seen = view.seen := by
  unfold peek at h
  unfold get
  cases hl : view.states.lookup nameHash with
  | some ns' =>
    rw [hl] at h
    cases h
    refine ⟨view, rfl, ⟨fun k => ?_, rfl⟩, rfl, rfl, rfl⟩
    split_ifs with hk
    · rw [hk, hl]
    · rfl
  | none =>
    rw [hl] at h
    obtain ⟨loaded, hfetch, hisSome⟩ := fetch_ok h
    refine ⟨{ view with states := view.states.insert nameHash ns, loaded }, ?_,
      ⟨fun k => ?_, hisSome⟩, rfl, rfl, rfl⟩
    · simp only [hfetch]
      rfl
    · split_ifs with hk
      · rw [hk, Finmap.lookup_insert]
      · rw [Finmap.lookup_insert_of_ne _ hk]

@[simp] lemma states_recordChange (before after : NameState) :
    (view.recordChange before after).states = view.states := by
  unfold recordChange
  dsimp only
  split_ifs <;> rfl

@[simp] lemma loaded_recordChange (before after : NameState) :
    (view.recordChange before after).loaded = view.loaded := by
  unfold recordChange
  dsimp only
  split_ifs <;> rfl

lemma AgreesBut.setState_recordChange (h : AgreesBut nameHash before view view')
    (after : NameState) :
    AgreesBut nameHash after view ((view'.setState nameHash after).recordChange before after) := by
  refine ⟨fun k => ?_, ?_⟩
  · rw [states_recordChange]
    unfold setState
    split_ifs with hk
    · rw [hk, Finmap.lookup_insert]
    · rw [Finmap.lookup_insert_of_ne _ hk, h.lookup, if_neg hk]
  · rw [loaded_recordChange]
    exact h.isLazy

end NameBlockView

def undoEntry (names : NameMap) (nameHash : Hash) : NameUndoEntry :=
  ⟨nameHash, !(names nameHash).isNull, some (names nameHash)⟩

structure NameMap.Readable (names : NameMap) : Prop where
  named : ∀ nameHash, (names nameHash).nameHash = nameHash
  encodable : ∀ nameHash, (names nameHash).Encodable

lemma readable_newNameState : NameMap.Readable newNameState :=
  ⟨fun _ => rfl, NameState.encodable_newNameState⟩

namespace NameBlockView

variable {view : NameBlockView} {names : NameMap}

structure Tracks (dbTx : Option NameDb) (names : NameMap) (view : NameBlockView) (r : NameRun) :
    Prop where
  peek : ∀ nameHash, view.peek dbTx nameHash = .ok (r.names nameHash)
  named : ∀ nameHash, (r.names nameHash).nameHash = nameHash
  unchanged : ∀ nameHash, nameHash ∉ r.changed → r.names nameHash = names nameHash
  held : ∀ nameHash ∈ r.changed, view.states.lookup nameHash = some (r.names nameHash)
  dirty : view.dirty = r.changed
  seen : view.seen = r.changed
  undo : ∃ order : List Hash, order.Nodup ∧ order.toFinset = r.changed ∧
    view.undo = order.map (undoEntry names)

structure Fresh (dbTx : Option NameDb) (names : NameMap) (view : NameBlockView) : Prop where
  peek : ∀ nameHash, view.peek dbTx nameHash = .ok (names nameHash)
  dirty : view.dirty = ∅
  undo : view.undo = []
  seen : view.seen = ∅

lemma Fresh.tracks (h : Fresh dbTx names view) (hr : names.Readable) :
    Tracks dbTx names view (.start names) where
  peek := h.peek
  named := hr.named
  unchanged _ _ := rfl
  held nameHash hc := by simp [start] at hc
  dirty := h.dirty
  seen := h.seen
  undo := ⟨[], List.nodup_nil, rfl, h.undo⟩

lemma recordChange_of_equal (h : nameStatesEqual before after = true) :
    view.recordChange before after = view := by
  simp [recordChange, h]

lemma recordChange_of_seen (h : nameStatesEqual before after = false)
    (hseen : after.nameHash ∈ view.seen) :
    view.recordChange before after = { view with dirty := insert after.nameHash view.dirty } := by
  simp [recordChange, h, hseen]

lemma recordChange_of_new (h : nameStatesEqual before after = false)
    (hseen : after.nameHash ∉ view.seen) :
    view.recordChange before after = { view with
      undo := view.undo ++ [⟨after.nameHash, !before.isNull, some before⟩]
      seen := insert after.nameHash view.seen
      dirty := insert after.nameHash view.dirty } := by
  simp [recordChange, h, hseen]

lemma Tracks.set (h : Tracks dbTx names view r) (hbut : AgreesBut nameHash ns view view')
    (hname : ns.nameHash = nameHash) (hdirty : view'.dirty = (r.setState nameHash ns).changed)
    (hseen : view'.seen = (r.setState nameHash ns).changed)
    (hundo : ∃ order : List Hash, order.Nodup ∧ order.toFinset = (r.setState nameHash ns).changed ∧
      view'.undo = order.map (undoEntry names)) : Tracks dbTx names view' (r.setState nameHash ns) := by
  refine ⟨fun k => ?_, fun k => ?_, fun k hk => ?_, fun k hk => ?_, hdirty, hseen, hundo⟩
  · rw [hbut.peek_eq, names_setState]
    split_ifs
    · rfl
    · exact h.peek k
  · rw [names_setState]
    split_ifs with hkn
    · rw [hkn, hname]
    · exact h.named k
  · rw [mem_changed_setState, not_or, not_and_not_right] at hk
    rw [names_setState, ← h.unchanged k hk.1]
    split_ifs with hkn
    · rw [hk.2 hkn, hkn]
    · rfl
  · rw [hbut.lookup, names_setState]
    split_ifs with hkn
    · rfl
    · rw [mem_changed_setState] at hk
      exact h.held k (hk.resolve_right fun hk => hkn hk.1)

lemma Tracks.applyCovenantOutput (hr : names.Readable) (out : CovenantOutput)
    (h : Tracks dbTx names view r) :
    Sim (Tracks dbTx names) (view.applyCovenantOutput ctx dbTx env out)
      (r.applyOutput ctx env out) := by
  unfold NameBlockView.applyCovenantOutput NameRun.applyOutput
  cases hname : covenantHash out.covenant 0 with
  | none => exact .error _
  | some nameHash =>
    obtain ⟨view', hget, hbut, hdirty, hundo, hseen⟩ := get_ok (h.peek nameHash)
    simp only [hget]
    refine Sim.bind_same fun after hafter => .ok ?_
    have hhash : after.nameHash = nameHash :=
      (applyCovenant_nameHash hafter).trans (h.named nameHash)
    have heq := nameStatesEqual_iff ((h.named nameHash).trans hhash.symm)
    have hnew := hbut.setState_recordChange after
    obtain ⟨order, hnodup, horder, hentries⟩ := h.undo
    cases hstates : nameStatesEqual (r.names nameHash) after with
    | true =>
      -- Nothing changed, and nothing is recorded.
      have hchanged : (r.setState nameHash after).changed = r.changed :=
        if_pos (heq.1 hstates).1.symm
      refine h.set hnew hhash ?_ ?_ ?_ <;> rw [recordChange_of_equal hstates, hchanged]
      · exact hdirty.trans h.dirty
      · exact hseen.trans h.seen
      · exact ⟨order, hnodup, horder, hundo.trans hentries⟩
    | false =>
      by_cases hmem : nameHash ∈ r.changed
      · -- The name was changed before: its entry is there.
        have hchanged : (r.setState nameHash after).changed = r.changed := by
          unfold NameRun.setState
          split_ifs
          · rfl
          · exact Finset.insert_eq_of_mem hmem
        have hmem' : after.nameHash ∈ (view'.setState nameHash after).seen := by
          rw [hhash]
          exact (hseen.trans h.seen) ▸ hmem
        refine h.set hnew hhash ?_ ?_ ?_ <;> rw [recordChange_of_seen hstates hmem', hchanged]
        · change insert after.nameHash view'.dirty = r.changed
          rw [hhash, hdirty, h.dirty, Finset.insert_eq_of_mem hmem]
        · exact hseen.trans h.seen
        · exact ⟨order, hnodup, horder, hundo.trans hentries⟩
      · -- The first change: the state is the one from before the run.
        have hsame := h.unchanged nameHash hmem
        have hne : after ≠ r.names nameHash := by
          rintro rfl
          have := heq.2 ⟨rfl, hsame ▸ hr.encodable nameHash⟩
          rw [hstates] at this
          cases this
        have hchanged : (r.setState nameHash after).changed = insert nameHash r.changed :=
          if_neg hne
        have hmem' : after.nameHash ∉ (view'.setState nameHash after).seen := by
          rw [hhash]
          exact (hseen.trans h.seen) ▸ hmem
        refine h.set hnew hhash ?_ ?_ ?_ <;> rw [recordChange_of_new hstates hmem', hchanged]
        · change insert after.nameHash view'.dirty = _
          rw [hhash, hdirty, h.dirty]
        · change insert after.nameHash view'.seen = _
          rw [hhash, hseen, h.seen]
        · refine ⟨order ++ [nameHash], ?_, ?_, ?_⟩
          · rw [← horder, List.mem_toFinset] at hmem
            exact List.nodup_append.2 ⟨hnodup, List.nodup_singleton _, by grind⟩
          · rw [List.toFinset_append, horder]
            simp
          · change view'.undo ++ _ = _
            rw [hundo, hentries, List.map_append, hhash, hsame]
            rfl

lemma Tracks.applyTx (hr : names.Readable) (t : NameTx) (h : Tracks dbTx names view r) :
    Sim (Tracks dbTx names) (view.applyTx ctx dbTx t.env t.tx t.prevOutputs) (r.applyTx ctx t) :=
  Sim.bind_same fun _ _ => Sim.foldlM _ h fun out _ _ _ h => h.applyCovenantOutput hr out

lemma Tracks.applyTxs (hr : names.Readable) (txs : List NameTx) (h : Tracks dbTx names view r) :
    Sim (Tracks dbTx names) (view.applyTxs ctx dbTx txs) (r.applyTxs ctx txs) :=
  Sim.foldlM _ h fun t _ _ _ h => h.applyTx hr t

end NameBlockView

end HandshakeNode
