import HandshakeNode.Proofs.Chain

/-!
# The pool of orphans

The pool and the lists of `prevOrphans` have the same orphans, each under its parent
(`ChainState.PoolOk`), whatever is added, evicted or taken out. Every round of `processOrphans`
shortens the queue or the pool, so that the loop comes to its end (`processOrphans_rule`).
-/

namespace HandshakeNode

open BlockStatus List

namespace ChainState

variable {t : BlockTree} {s s' : ChainState}

/-- The pool and `prevOrphans` list the same orphans, each once and under its parent's hash. -/
structure PoolOk (t : BlockTree) (s : ChainState) : Prop where
  mem_waiting : ∀ p o, o ∈ s.waiting p ↔ s.orphans.lookup o.hash = some o ∧ t.prevBlock o.hash = p
  nodup : ∀ p, ((s.waiting p).map OrphanBlock.hash).Nodup
  hash_eq : ∀ x o, s.orphans.lookup x = some o → o.hash = x

lemma PoolOk.congr (h : s.PoolOk t) (horphans : s'.orphans = s.orphans)
    (hprev : s'.prevOrphans = s.prevOrphans) : s'.PoolOk t := by
  have hwaiting (p : Hash) : s'.waiting p = s.waiting p := by rw [waiting, waiting, hprev]
  exact ⟨fun p o => by rw [hwaiting, horphans, h.mem_waiting], fun p => hwaiting p ▸ h.nodup p,
    horphans ▸ h.hash_eq⟩

lemma waiting_removeOrphanBlock (o : OrphanBlock) (p : Hash) :
    (s.removeOrphanBlock t o).waiting p =
      if p = t.prevBlock o.hash then (s.waiting p).filter (fun x => x.hash ≠ o.hash)
      else s.waiting p := by
  by_cases hp : p = t.prevBlock o.hash
  · subst hp
    rw [if_pos rfl]
    by_cases hnil : (s.waiting (t.prevBlock o.hash)).filter (fun x => x.hash ≠ o.hash) = []
    · rw [removeOrphanBlock, if_pos hnil, hnil, waiting, Finmap.lookup_erase, Option.getD_none]
    · rw [removeOrphanBlock, if_neg hnil, waiting, Finmap.lookup_insert, Option.getD_some]
  · rw [removeOrphanBlock]
    unfold waiting
    split_ifs
    · rw [Finmap.lookup_erase_ne hp]
    · rw [Finmap.lookup_insert_of_ne _ hp]

lemma lookup_removeOrphanBlock (o : OrphanBlock) (x : Hash) :
    (s.removeOrphanBlock t o).orphans.lookup x =
      if x = o.hash then none else s.orphans.lookup x := by
  by_cases hx : x = o.hash
  · subst hx
    simp [removeOrphanBlock]
  · simp [removeOrphanBlock, hx]

lemma PoolOk.removeOrphanBlock (h : s.PoolOk t) (o : OrphanBlock) :
    (s.removeOrphanBlock t o).PoolOk t := by
  refine ⟨fun p x => ?_, fun p => ?_, fun x y hxy => ?_⟩
  · rw [waiting_removeOrphanBlock, lookup_removeOrphanBlock]
    by_cases hx : x.hash = o.hash
    · -- what was removed waits nowhere
      suffices hnot : x ∉ (if p = t.prevBlock o.hash then
          (s.waiting p).filter (fun x => x.hash ≠ o.hash) else s.waiting p) by simpa [hx] using hnot
      split_ifs with hp
      · simp [hx]
      · rw [h.mem_waiting, hx]
        exact fun hmem => hp hmem.2.symm
    · split_ifs with hp
      · simp [hx, h.mem_waiting]
      · exact h.mem_waiting p x
  · rw [waiting_removeOrphanBlock]
    split_ifs
    · exact (h.nodup p).sublist ((filter_sublist).map _)
    · exact h.nodup p
  · rw [lookup_removeOrphanBlock] at hxy
    split_ifs at hxy
    exact h.hash_eq x y hxy

lemma waiting_insertOrphan (o : OrphanBlock) (p : Hash) :
    (s.insertOrphan t o).waiting p =
      if p = t.prevBlock o.hash then s.waiting p ++ [o] else s.waiting p := by
  by_cases hp : p = t.prevBlock o.hash
  · subst hp
    simp [insertOrphan, waiting]
  · simp [insertOrphan, waiting, hp]

lemma lookup_insertOrphan (o : OrphanBlock) (x : Hash) :
    (s.insertOrphan t o).orphans.lookup x = if x = o.hash then some o else s.orphans.lookup x := by
  by_cases hx : x = o.hash
  · subst hx
    simp [insertOrphan]
  · simp [insertOrphan, hx]

lemma PoolOk.insertOrphan (h : s.PoolOk t) (ho : o.hash ∉ s.orphans) :
    (s.insertOrphan t o).PoolOk t := by
  have hnone : s.orphans.lookup o.hash = none := Finmap.lookup_eq_none.2 ho
  refine ⟨fun p x => ?_, fun p => ?_, fun x y hxy => ?_⟩
  · rw [waiting_insertOrphan, lookup_insertOrphan]
    by_cases hx : x.hash = o.hash
    · have hnot : x ∉ s.waiting p := fun hmem => by
        rw [h.mem_waiting, hx, hnone] at hmem
        cases hmem.1
      rw [if_pos hx, Option.some.injEq]
      split_ifs with hp
      · simp only [mem_append, hnot, mem_singleton, false_or]
        exact ⟨fun hxo => ⟨hxo.symm, hxo ▸ hp.symm⟩, fun hxo => hxo.1.symm⟩
      · refine ⟨fun hmem => absurd hmem hnot, fun hmem => absurd ?_ hp⟩
        rw [← hmem.2, hx]
    · have hne : x ≠ o := fun hxo => hx (hxo ▸ rfl)
      rw [if_neg hx, ← h.mem_waiting]
      split_ifs <;> simp [hne]
  · rw [waiting_insertOrphan]
    split_ifs
    · rw [map_append, map_singleton]
      refine (h.nodup p).append (nodup_singleton _) ?_
      rw [disjoint_singleton]
      intro hmem
      obtain ⟨x, hx, hxo⟩ := mem_map.1 hmem
      rw [h.mem_waiting, hxo, hnone] at hx
      cases hx.1
    · exact h.nodup p
  · rw [lookup_insertOrphan] at hxy
    split_ifs at hxy with hx
    · rw [hx, Option.some.inj hxy]
    · exact h.hash_eq x y hxy

structure SameChain (s s' : ChainState) : Prop where
  nodes : s'.nodes = s.nodes
  status : s'.status = s.status
  bestChain : s'.bestChain = s.bestChain
  bestHeader : s'.bestHeader = s.bestHeader

/-- Orphans have left the pool, and nothing else has changed but the pointer to the oldest. -/
structure Forgets (t : BlockTree) (s s' : ChainState) : Prop extends SameChain s s' where
  pool : s.PoolOk t → s'.PoolOk t
  orphans : ∀ x o, s'.orphans.lookup x = some o → s.orphans.lookup x = some o

lemma Forgets.refl (s : ChainState) : Forgets t s s := ⟨⟨rfl, rfl, rfl, rfl⟩, id, fun _ _ h => h⟩

lemma Forgets.trans (h : Forgets t s s1) (h' : Forgets t s1 s2) :
    Forgets t s s2 where
  pool hs := h'.pool (h.pool hs)
  orphans x o hx := h.orphans x o (h'.orphans x o hx)
  nodes := h'.nodes.trans h.nodes
  status := h'.status.trans h.status
  bestChain := h'.bestChain.trans h.bestChain
  bestHeader := h'.bestHeader.trans h.bestHeader

lemma forgets_removeOrphanBlock (o : OrphanBlock) : Forgets t s (s.removeOrphanBlock t o) := by
  refine ⟨⟨rfl, rfl, rfl, rfl⟩, fun h => h.removeOrphanBlock o, fun x o' hx => ?_⟩
  rw [lookup_removeOrphanBlock] at hx
  split_ifs at hx
  exact hx

lemma forgets_oldestOrphan (o : Option OrphanBlock) : Forgets t s { s with oldestOrphan := o } :=
  ⟨⟨rfl, rfl, rfl, rfl⟩, fun h => h.congr rfl rfl, fun _ _ h => h⟩

lemma forgets_expireOrphan (now : ℤ) (x : Hash) : Forgets t s (s.expireOrphan t now x) := by
  unfold expireOrphan
  split
  · exact .refl s
  · split_ifs
    · exact forgets_removeOrphanBlock _
    · exact forgets_oldestOrphan _
    · exact .refl s

lemma forgets_expireOrphans (now : ℤ) : ∀ (xs : List Hash) {s : ChainState},
    Forgets t s (xs.foldl (expireOrphan t now) s)
  | [], s => .refl s
  | x :: xs, _ => (forgets_expireOrphan now x).trans (forgets_expireOrphans now xs)

lemma forgets_evictOrphan : Forgets t s (s.evictOrphan t) := by
  unfold evictOrphan
  split
  · exact .refl s
  · exact (forgets_removeOrphanBlock _).trans (forgets_oldestOrphan none)

lemma addOrphanBlock_cases (order : RangeOrder Hash) (now : ℤ) (block : Hash) :
    ∃ s1, Forgets t s s1 ∧
      s.addOrphanBlock t order now block = s1.insertOrphan t ⟨block, now + orphanLifetime⟩ := by
  refine ⟨_, ?_, rfl⟩
  split_ifs
  · exact (forgets_expireOrphans now _).trans forgets_evictOrphan
  · exact forgets_expireOrphans now _

lemma card_removeOrphanBlock (ho : s.orphans.lookup o.hash = some o) :
    (s.removeOrphanBlock t o).orphans.keys.card + 1 = s.orphans.keys.card := by
  have hmem : o.hash ∈ s.orphans.keys := Finmap.mem_keys.2 (Finmap.mem_of_lookup_eq_some ho)
  rw [removeOrphanBlock, Finmap.keys_erase, Finset.card_erase_of_mem hmem]
  exact Nat.sub_add_cancel (Finset.card_pos.2 ⟨_, hmem⟩)

/-- The loop ends with its invariant `P` and an empty queue, or with the error of an orphan. -/
theorem processOrphans_rule {P : List Hash → ChainState → Prop}
    {E : Err → ChainState → Prop} (hpool : ∀ q s, P q s → s.PoolOk t)
    (hpop : ∀ h q s, P (h :: q) s → s.waiting h = [] → P q s)
    (haccept : ∀ h q s o rest, P (h :: q) s → s.waiting h = o :: rest → ∀ r s',
      maybeAcceptBlock t rules fastAdd o.hash (s.removeOrphanBlock t o) = (r, s') →
        s'.orphans = (s.removeOrphanBlock t o).orphans ∧ (∀ e, r = .error e → E e s') ∧
          ∀ b, r = .ok b → P (h :: q ++ [o.hash]) s') :
    ∀ fuel (q : List Hash) (s : ChainState), P q s →
      2 * s.orphans.keys.card + q.length < fuel → ∀ r s',
      processOrphans t rules fastAdd fuel q s = (r, s') →
        (∀ e, r = .error e → E e s') ∧ (r = .ok () → P [] s')
  | 0, q, s, _, hfuel, _, _, _ => absurd hfuel (by omega)
  | fuel + 1, [], s, hP, _, r, s', hrun => by
    cases hrun
    exact ⟨by simp, fun _ => hP⟩
  | fuel + 1, h :: q, s, hP, hfuel, r, s', hrun => by
    rw [processOrphans] at hrun
    rw [length_cons] at hfuel
    cases hw : s.waiting h with
    | nil =>
      rw [hw] at hrun
      exact processOrphans_rule hpool hpop haccept fuel q s (hpop h q s hP hw) (by omega) r s' hrun
    | cons o rest =>
      rw [hw] at hrun
      have hmem : s.orphans.lookup o.hash = some o :=
        (((hpool _ s hP).mem_waiting h o).1 (hw ▸ mem_cons_self)).1
      have hcard := card_removeOrphanBlock (t := t) hmem
      rcases hacc : maybeAcceptBlock t rules fastAdd o.hash (s.removeOrphanBlock t o) with ⟨r1, s1⟩
      simp only [hacc] at hrun
      obtain ⟨horphans, herror, hok⟩ := haccept h q s o rest hP hw r1 s1 hacc
      cases r1 with
      | error e =>
        cases hrun
        exact ⟨fun e' he => by cases he; exact herror e rfl, by simp⟩
      | ok b =>
        refine processOrphans_rule hpool hpop haccept fuel _ s1 (hok b rfl) ?_ r s' hrun
        rw [horphans, length_append, length_cons, length_singleton]
        omega

end ChainState

end HandshakeNode
