import HandshakeNode.Proofs.BestChain

/-!
# The size of the orphan pool

`addOrphanBlock` makes room by removing the orphan that `oldestOrphan` points to. The pointer is kept
when that orphan leaves the pool in another way, and a full pool then grows
(`pool_outgrows_limit`). As long as the orphan it points to neither expires nor is processed, the
pool stays within its limit and an orphan with the earliest expiration makes room
(`orphan_pool_bounded`).
-/

namespace HandshakeNode

open Finmap

namespace ChainState

variable {t : BlockTree} {s : ChainState} {o : OrphanBlock}

def expireOrphans (t : BlockTree) (order : RangeOrder Hash) (now : ℤ) (s : ChainState) :
    ChainState :=
  (order.list s.orphans.keys).foldl (expireOrphan t now) s

def OldestOk (now : ℤ) (s : ChainState) : Prop :=
  ∀ p, s.oldestOrphan = some p → now ≤ p.expiration ∧ s.orphans.lookup p.hash = some p

lemma expireOrphan_cases (now : ℤ) (hx : s.orphans.lookup x = some o) :
    (o.expiration < now ∧ s.expireOrphan t now x = s.removeOrphanBlock t o) ∨
    (now ≤ o.expiration ∧ (∀ p, s.oldestOrphan = some p → o.expiration < p.expiration) ∧
      s.expireOrphan t now x = { s with oldestOrphan := some o }) ∨
    (now ≤ o.expiration ∧ (∃ p, s.oldestOrphan = some p ∧ p.expiration ≤ o.expiration) ∧
      s.expireOrphan t now x = s) := by
  unfold expireOrphan
  rw [hx]
  dsimp only
  split_ifs with hexp hold
  · exact .inl ⟨hexp, rfl⟩
  · refine .inr (.inl ⟨not_lt.1 hexp, fun p hp => ?_, rfl⟩)
    simpa [hp] using hold
  · refine .inr (.inr ⟨not_lt.1 hexp, ?_, rfl⟩)
    cases hp : s.oldestOrphan with
    | none => simp [hp] at hold
    | some p => exact ⟨p, rfl, by simpa [hp] using hold⟩

lemma expireOrphan_of_none (hx : s.orphans.lookup x = none) : s.expireOrphan t now x = s := by
  simp [expireOrphan, hx]

/-- The pointer only moves to orphans with an earlier expiration. -/
theorem oldest_expireOrphan (hp : s.oldestOrphan = some p) :
    ∃ q, (s.expireOrphan t now x).oldestOrphan = some q ∧ q.expiration ≤ p.expiration := by
  cases hx : s.orphans.lookup x with
  | none => exact ⟨p, by rw [expireOrphan_of_none hx, hp], le_rfl⟩
  | some o =>
    rcases expireOrphan_cases (t := t) now hx with ⟨-, he⟩ | ⟨-, hlt, he⟩ | ⟨-, -, he⟩
    · exact ⟨p, by rw [he]; exact hp, le_rfl⟩
    · exact ⟨o, by rw [he], (hlt p hp).le⟩
    · exact ⟨p, by rw [he, hp], le_rfl⟩

lemma oldest_foldl : ∀ (xs : List Hash) {s : ChainState} {p : OrphanBlock},
    s.oldestOrphan = some p →
    ∃ q, (xs.foldl (expireOrphan t now) s).oldestOrphan = some q ∧ q.expiration ≤ p.expiration
  | [], _, p, hp => ⟨p, hp, le_rfl⟩
  | _ :: xs, _, _, hp => by
    obtain ⟨q, hq, hle⟩ := oldest_expireOrphan hp
    obtain ⟨r, hr, hle'⟩ := oldest_foldl xs hq
    exact ⟨r, hr, hle'.trans hle⟩

/-- The loop leaves the pointer at an orphan that expires no later than any it leaves in the pool. -/
theorem oldest_le_foldl : ∀ (xs : List Hash) {s : ChainState}, s.PoolOk t → ∀ x ∈ xs, ∀ o,
    (xs.foldl (expireOrphan t now) s).orphans.lookup x = some o →
      ∃ p, (xs.foldl (expireOrphan t now) s).oldestOrphan = some p ∧ p.expiration ≤ o.expiration
  | y :: xs, s, hs, x, hx, o, ho => by
    rcases List.mem_cons.1 hx with rfl | hx
    · have ho1 := (forgets_expireOrphans now xs).orphans x o ho
      have ho0 := (forgets_expireOrphan now x).orphans x o ho1
      rcases expireOrphan_cases (t := t) now ho0 with ⟨-, he⟩ | ⟨-, -, he⟩ | ⟨-, ⟨p, hp, hle⟩, he⟩
      · rw [he, lookup_removeOrphanBlock, if_pos (hs.hash_eq x o ho0).symm] at ho1
        cases ho1
      · exact oldest_foldl xs (by rw [he])
      · rw [← he] at hp
        obtain ⟨q, hq, hle'⟩ := oldest_foldl xs hp
        exact ⟨q, hq, hle'.trans hle⟩
    · exact oldest_le_foldl xs ((forgets_expireOrphan now y).pool hs) x hx o ho

lemma OldestOk.expireOrphan (h : s.OldestOk now) (hs : s.PoolOk t) (x : Hash) :
    (s.expireOrphan t now x).OldestOk now := by
  cases hx : s.orphans.lookup x with
  | none => rwa [expireOrphan_of_none hx]
  | some o =>
    rcases expireOrphan_cases (t := t) now hx with ⟨hexp, he⟩ | ⟨hle, -, he⟩ | ⟨-, -, he⟩
    · -- The orphan that goes has expired, so it is not the one that is pointed to.
      rw [he]
      intro p hp
      obtain ⟨hle, hmem⟩ := h p hp
      refine ⟨hle, ?_⟩
      rw [lookup_removeOrphanBlock, if_neg, hmem]
      intro heq
      rw [heq, hs.hash_eq x o hx, hx, Option.some.injEq] at hmem
      rw [hmem] at hexp
      omega
    · rw [he]
      rintro p ⟨⟩
      exact ⟨hle, (hs.hash_eq x o hx).symm ▸ hx⟩
    · rwa [he]

lemma OldestOk.foldl : ∀ (xs : List Hash) {s : ChainState}, s.OldestOk now → s.PoolOk t →
    (xs.foldl (ChainState.expireOrphan t now) s).OldestOk now
  | [], _, h, _ => h
  | x :: xs, _, h, hs => foldl xs (h.expireOrphan hs x) ((forgets_expireOrphan now x).pool hs)

/-- As long as nothing has expired the loop only moves the pointer, and only to an earlier
expiration. -/
theorem foldl_of_le : ∀ (xs : List Hash) {s : ChainState},
    (∀ x o, s.orphans.lookup x = some o → now ≤ o.expiration) →
    ∃ q, xs.foldl (expireOrphan t now) s = { s with oldestOrphan := q } ∧
      ∀ p, s.oldestOrphan = some p →
        (∀ x o, s.orphans.lookup x = some o → p.expiration ≤ o.expiration) → q = some p
  | [], s, _ => ⟨s.oldestOrphan, rfl, fun _ hp _ => hp⟩
  | x :: xs, s, h => by
    rw [List.foldl_cons]
    cases hx : s.orphans.lookup x with
    | none =>
      rw [expireOrphan_of_none hx]
      exact foldl_of_le xs h
    | some o =>
      rcases expireOrphan_cases (t := t) now hx with ⟨hexp, -⟩ | ⟨-, hlt, he⟩ | ⟨-, -, he⟩
      · exact absurd (h x o hx) (not_le.2 hexp)
      · obtain ⟨q, hq, -⟩ := foldl_of_le xs (s := { s with oldestOrphan := some o }) h
        exact ⟨q, he ▸ hq, fun p hp hle => absurd (hlt p hp) (not_lt.2 (hle x o hx))⟩
      · rw [he]
        exact foldl_of_le xs h

lemma exists_oldest (hs : s.PoolOk t)
    (hfull : maxOrphanBlocks ≤ (s.expireOrphans t order now).orphans.keys.card) :
    ∃ p, (s.expireOrphans t order now).oldestOrphan = some p ∧
      ∀ x o, (s.expireOrphans t order now).orphans.lookup x = some o →
        p.expiration ≤ o.expiration := by
  have hle (x : Hash) (o : OrphanBlock)
      (ho : (s.expireOrphans t order now).orphans.lookup x = some o) :
      ∃ p, (s.expireOrphans t order now).oldestOrphan = some p ∧ p.expiration ≤ o.expiration := by
    have hmem := mem_of_lookup_eq_some ((forgets_expireOrphans now _).orphans x o ho)
    exact oldest_le_foldl _ hs x ((order.mem_iff _ x).2 (mem_keys.2 hmem)) o ho
  obtain ⟨x, hx⟩ := Finset.card_pos.1 ((show 0 < maxOrphanBlocks by decide).trans_le hfull)
  obtain ⟨o, ho⟩ := mem_iff.1 (mem_keys.1 hx)
  obtain ⟨p, hp, -⟩ := hle x o ho
  refine ⟨p, hp, fun y o' ho' => ?_⟩
  obtain ⟨q, hq, hqle⟩ := hle y o' ho'
  rw [hp, Option.some.injEq] at hq
  rwa [hq]

lemma card_expireOrphans_le :
    (s.expireOrphans t order now).orphans.keys.card ≤ s.orphans.keys.card := by
  refine Finset.card_le_card fun x hx => mem_keys.2 ?_
  obtain ⟨o, ho⟩ := mem_iff.1 (mem_keys.1 hx)
  exact mem_of_lookup_eq_some ((forgets_expireOrphans now _).orphans x o ho)

lemma addOrphanBlock_of_lt (h : (s.expireOrphans t order now).orphans.keys.card < maxOrphanBlocks) :
    s.addOrphanBlock t order now block =
      (s.expireOrphans t order now).insertOrphan t ⟨block, now + orphanLifetime⟩ := by
  rw [addOrphanBlock]
  exact congrArg _ (if_neg (by rw [expireOrphans] at h; omega))

lemma addOrphanBlock_of_le (h : maxOrphanBlocks ≤ (s.expireOrphans t order now).orphans.keys.card)
    (ho : (s.expireOrphans t order now).oldestOrphan = some o) :
    s.addOrphanBlock t order now block = insertOrphan t ⟨block, now + orphanLifetime⟩
        { (s.expireOrphans t order now).removeOrphanBlock t o with oldestOrphan := none } := by
  have hevict : (s.expireOrphans t order now).evictOrphan t =
      { (s.expireOrphans t order now).removeOrphanBlock t o with oldestOrphan := none } := by
    rw [evictOrphan, ho]
  rw [addOrphanBlock, ← hevict]
  exact congrArg _ (if_pos (Nat.lt_succ_of_le h))

lemma card_insertOrphan (ho : o.hash ∉ s.orphans) :
    (s.insertOrphan t o).orphans.keys.card = s.orphans.keys.card + 1 := by
  rw [insertOrphan, keys_insert, Finset.card_insert_of_notMem (by rwa [mem_keys])]

/-- The pool is within its limit and the pointer, if any, is to one of its orphans. -/
structure Bounded (t : BlockTree) (s : ChainState) : Prop where
  pool : s.PoolOk t
  oldest : ∀ p, s.oldestOrphan = some p → s.orphans.lookup p.hash = some p
  card_le : s.orphans.keys.card ≤ maxOrphanBlocks

lemma OldestOk.insertOrphan (h : s.OldestOk now) (ho : o.hash ∉ s.orphans) :
    ∀ p, (s.insertOrphan t o).oldestOrphan = some p →
      (s.insertOrphan t o).orphans.lookup p.hash = some p := by
  intro p hp
  have hmem := (h p hp).2
  rw [ChainState.insertOrphan, lookup_insert_of_ne _ ?_, hmem]
  intro heq
  exact ho (heq ▸ mem_of_lookup_eq_some hmem)

lemma Bounded.addOrphanBlock (h : s.Bounded t) (hnew : block ∉ s.orphans)
    (hold : ∀ p, s.oldestOrphan = some p → now ≤ p.expiration) :
    (s.addOrphanBlock t order now block).Bounded t := by
  have hf : Forgets t s (s.expireOrphans t order now) := forgets_expireOrphans now _
  have hold1 : (s.expireOrphans t order now).OldestOk now :=
    .foldl _ (fun p hp => ⟨hold p hp, h.oldest p hp⟩) h.pool
  have hnew1 : block ∉ (s.expireOrphans t order now).orphans := fun hmem => by
    obtain ⟨o, ho⟩ := mem_iff.1 hmem
    exact hnew (mem_of_lookup_eq_some (hf.orphans block o ho))
  have hle : (s.expireOrphans t order now).orphans.keys.card ≤ maxOrphanBlocks :=
    card_expireOrphans_le.trans h.card_le
  have hpool := hf.pool h.pool
  rcases lt_or_ge (s.expireOrphans t order now).orphans.keys.card maxOrphanBlocks with hlt | hge
  · rw [addOrphanBlock_of_lt hlt]
    exact ⟨hpool.insertOrphan hnew1, hold1.insertOrphan hnew1, by
      rw [card_insertOrphan hnew1]
      omega⟩
  · obtain ⟨p, hp, -⟩ := exists_oldest h.pool hge
    rw [addOrphanBlock_of_le hge hp]
    have hcard := card_removeOrphanBlock (t := t) (hold1 p hp).2
    have hrest : block ∉ ((s.expireOrphans t order now).removeOrphanBlock t p).orphans := by
      rw [removeOrphanBlock, mem_erase]
      exact fun hmem => hnew1 hmem.2
    refine ⟨((hpool.removeOrphanBlock p).insertOrphan hrest).congr rfl rfl, ?_, ?_⟩
    · have hnone : OldestOk now { (s.expireOrphans t order now).removeOrphanBlock t p with
          oldestOrphan := none } := by
        rintro q ⟨⟩
      exact hnone.insertOrphan hrest
    · have hinsert := card_insertOrphan (t := t) (o := ⟨block, now + orphanLifetime⟩) hrest
      exact hinsert.le.trans (by omega)

lemma Bounded.removeOrphanBlock (h : s.Bounded t) (hmem : o ∈ s.waiting p)
    (hne : s.oldestOrphan ≠ some o) : (s.removeOrphanBlock t o).Bounded t := by
  have ho := ((h.pool.mem_waiting p o).1 hmem).1
  refine ⟨h.pool.removeOrphanBlock o, fun q hq => ?_, ?_⟩
  · have hq' := h.oldest q hq
    rw [lookup_removeOrphanBlock, if_neg, hq']
    intro heq
    rw [heq, ho] at hq'
    exact hne (hq'.symm ▸ hq)
  · have hcard := card_removeOrphanBlock (t := t) ho
    have hle := h.card_le
    omega

/-- The orphans of the pool and the one that is pointed to were added at time 0. -/
structure AddedAtZero (p : OrphanBlock) (s : ChainState) : Prop where
  oldest : s.oldestOrphan = some p
  expiration : p.expiration = orphanLifetime
  all : ∀ x o, s.orphans.lookup x = some o → o.expiration = orphanLifetime

lemma exists_notMem_orphans (p : OrphanBlock) (hcard : s.orphans.keys.card ≤ maxOrphanBlocks) :
    ∃ block, block ≠ p.hash ∧ block ∉ s.orphans := by
  obtain ⟨block, -, hblock⟩ : ∃ block ∈ (Finset.range 102).image fun n => sampleHash (.ofNat n),
      block ∉ insert p.hash s.orphans.keys := by
    refine Finset.exists_mem_notMem_of_card_lt_card ?_
    calc (insert p.hash s.orphans.keys).card ≤ 101 :=
          (Finset.card_insert_le _ _).trans (Nat.succ_le_succ hcard)
      _ < 102 := by decide
      _ = _ := by decide +kernel
  rw [Finset.mem_insert, not_or, mem_keys] at hblock
  exact ⟨block, hblock⟩

lemma AddedAtZero.expireOrphans_eq (h : s.AddedAtZero p) (order : RangeOrder Hash) :
    s.expireOrphans t order 0 = s := by
  obtain ⟨q, hq, hmin⟩ := foldl_of_le (t := t) (order.list s.orphans.keys)
    (fun x o ho => show (0 : ℤ) ≤ o.expiration by rw [h.all x o ho]; decide)
  rw [expireOrphans, hq, hmin p h.oldest (fun x o ho => by rw [h.expiration, h.all x o ho]),
    ← h.oldest]

/-- While there is room a block that is added at time 0 goes into the pool. -/
theorem AddedAtZero.addOrphanBlock (h : s.AddedAtZero p) (order : RangeOrder Hash)
    (hnew : block ≠ p.hash ∧ block ∉ s.orphans) (hcard : s.orphans.keys.card < maxOrphanBlocks) :
    (s.addOrphanBlock t order 0 block).AddedAtZero p ∧
      (s.addOrphanBlock t order 0 block).orphans.keys.card = s.orphans.keys.card + 1 ∧
      (p.hash ∈ (s.addOrphanBlock t order 0 block).orphans ↔ p.hash ∈ s.orphans) := by
  have heq := h.expireOrphans_eq (t := t) order
  rw [addOrphanBlock_of_lt (by rwa [heq]), heq]
  refine ⟨⟨h.oldest, h.expiration, fun x o ho => ?_⟩, card_insertOrphan hnew.2, ?_⟩
  · by_cases hx : x = block
    · subst hx
      rw [insertOrphan, lookup_insert, Option.some.injEq] at ho
      rw [← ho]
      rfl
    · rw [insertOrphan, lookup_insert_of_ne _ hx] at ho
      exact h.all x o ho
  · rw [insertOrphan, mem_insert, or_iff_right hnew.1.symm]

/-- When the orphan that is pointed to has left the pool, nothing makes room in a full pool. -/
theorem AddedAtZero.outgrows (h : s.AddedAtZero p) (order : RangeOrder Hash)
    (hnew : block ∉ s.orphans) (hgone : p.hash ∉ s.orphans)
    (hfull : s.orphans.keys.card = maxOrphanBlocks) :
    (s.addOrphanBlock t order 0 block).orphans.keys.card = maxOrphanBlocks + 1 := by
  have heq := h.expireOrphans_eq (t := t) order
  have hsame : (s.removeOrphanBlock t p).orphans.keys = s.orphans.keys := by
    rw [removeOrphanBlock, keys_erase, Finset.erase_eq_of_notMem (by rwa [mem_keys])]
  rw [addOrphanBlock_of_le (by rw [heq, hfull]) (heq.symm ▸ h.oldest), heq, card_insertOrphan,
    ← hfull, ← hsame]
  rwa [← mem_keys, hsame, mem_keys]

end ChainState

open ChainState

inductive PoolCall
  | addOrphanBlock (order : RangeOrder Hash) (now : ℤ) (block : Hash)
  | removeOrphanBlock (orphan : OrphanBlock)

/-- The calls take place at non-decreasing times. A block that is added is not in the pool, and one
that is removed is an orphan that `processOrphans` found waiting for its parent. -/
inductive PoolRun (t : BlockTree) (allowed : ChainState → PoolCall → Prop) : ℤ → ChainState → Prop
  | start (clock : ℤ) : PoolRun t allowed clock (.initial t)
  | add {clock s now} (order : RangeOrder Hash) (block : Hash) (run : PoolRun t allowed clock s)
      (le : clock ≤ now)
      (new : block ∉ s.orphans) (call : allowed s (.addOrphanBlock order now block)) :
      PoolRun t allowed now (s.addOrphanBlock t order now block)
  | remove {clock s orphan} (parent : Hash) (run : PoolRun t allowed clock s)
      (waiting : orphan ∈ s.waiting parent) (call : allowed s (.removeOrphanBlock orphan)) :
      PoolRun t allowed clock (s.removeOrphanBlock t orphan)

/-- The orphan that is pointed to has not expired and is not the one that is removed. -/
def PoolCall.KeepsOldest (s : ChainState) : PoolCall → Prop
  | .addOrphanBlock _ now _ => ∀ p, s.oldestOrphan = some p → now ≤ p.expiration
  | .removeOrphanBlock orphan => s.oldestOrphan ≠ some orphan

namespace PoolRun

lemma pool (h : PoolRun t allowed clock s) : s.PoolOk t := by
  induction h with
  | start => exact sound_initial.pool
  | @add clock s now order block run le new call ih =>
    obtain ⟨s1, hf, heq⟩ := addOrphanBlock_cases (t := t) (s := s) order now block
    rw [heq]
    refine (hf.pool ih).insertOrphan fun hmem => new ?_
    obtain ⟨o, ho⟩ := mem_iff.1 hmem
    exact mem_of_lookup_eq_some (hf.orphans block o ho)
  | remove parent run waiting call ih => exact ih.removeOrphanBlock _

lemma bounded (hkeeps : ∀ s call, allowed s call → PoolCall.KeepsOldest s call)
    (h : PoolRun t allowed clock s) : s.Bounded t := by
  induction h with
  | start => exact ⟨sound_initial.pool, (fun p hp => nomatch hp), Nat.zero_le _⟩
  | add order block run le new call ih => exact ih.addOrphanBlock new (hkeeps _ _ call)
  | remove parent run waiting call ih => exact ih.removeOrphanBlock waiting (hkeeps _ _ call)

/-- A run that goes on to add blocks at time 0 fills the pool. -/
theorem exists_filled (hrun : PoolRun t allowed 0 s) (hs : s.AddedAtZero p)
    (hcalls : ∀ s block, s.AddedAtZero p → allowed s (.addOrphanBlock byteOrder 0 block)) :
    ∀ n, s.orphans.keys.card + n ≤ maxOrphanBlocks → ∃ s', PoolRun t allowed 0 s' ∧
      s'.AddedAtZero p ∧ s'.orphans.keys.card = s.orphans.keys.card + n ∧
      (p.hash ∈ s'.orphans ↔ p.hash ∈ s.orphans)
  | 0, _ => ⟨s, hrun, hs, rfl, Iff.rfl⟩
  | n + 1, hn => by
    obtain ⟨s', hrun', hs', hcard, hmem⟩ := exists_filled hrun hs hcalls n (by omega)
    obtain ⟨block, hnew⟩ := exists_notMem_orphans (s := s') p (by omega)
    obtain ⟨hs2, hgrow, hmem2⟩ := hs'.addOrphanBlock (t := t) byteOrder hnew (by omega)
    exact ⟨_, hrun'.add _ _ le_rfl hnew.2 (hcalls s' block hs'), hs2, by omega, hmem2.trans hmem⟩

def twoOrphans : ChainState :=
  (ChainState.initial (sampleTree [])).addOrphanBlock (sampleTree []) byteOrder 0 (sampleHash 1)
    |>.addOrphanBlock (sampleTree []) byteOrder 0 (sampleHash 2)

def firstOrphan : OrphanBlock := ⟨sampleHash 1, orphanLifetime⟩

lemma run_twoOrphans (hcall : ∀ s order block, s.oldestOrphan = none →
    allowed s (.addOrphanBlock order 0 block)) : PoolRun (sampleTree []) allowed 0 twoOrphans :=
  .add _ _ (.add _ _ (.start 0) le_rfl (by decide +kernel) (hcall _ _ _ rfl)) le_rfl
    (by decide +kernel) (hcall _ _ _ (by decide +kernel))

lemma addedAtZero_of_keys {s : ChainState} (hs : s.oldestOrphan = some firstOrphan)
    (hall : ∀ x ∈ s.orphans.keys,
      (s.orphans.lookup x).all (fun o => o.expiration = orphanLifetime)) :
    s.AddedAtZero firstOrphan :=
  ⟨hs, rfl, fun x o ho => by simpa [ho] using hall x (mem_keys.2 (mem_of_lookup_eq_some ho))⟩

end PoolRun

open PoolRun

/-- The first orphan is processed while `oldestOrphan` points to it. The pool is then filled, and the
next block finds no room but nothing is removed for it. -/
theorem pool_outgrows_limit :
    ∃ s, PoolRun (sampleTree []) (fun _ _ => True) 0 s ∧ s.orphans.keys.card = 101 ∧
      maxOrphanBlocks = 100 := by
  have hrun : PoolRun (sampleTree []) (fun _ _ => True) 0
      (twoOrphans.removeOrphanBlock (sampleTree []) firstOrphan) :=
    .remove Hash.zero (run_twoOrphans fun _ _ _ _ => trivial) (by decide +kernel) trivial
  obtain ⟨s, hrun', hs, hcard, hmem⟩ := exists_filled hrun
    (addedAtZero_of_keys (by decide +kernel) (by decide +kernel)) (fun _ _ _ => trivial) 99
    (by decide +kernel)
  have hfull : s.orphans.keys.card = maxOrphanBlocks := hcard.trans (by decide +kernel)
  obtain ⟨block, -, hnew⟩ := exists_notMem_orphans (s := s) firstOrphan hfull.le
  exact ⟨_, hrun'.add byteOrder block le_rfl hnew trivial,
    hs.outgrows byteOrder hnew (mt hmem.1 (by decide +kernel)) hfull, rfl⟩

/-- In no run does `addOrphanBlock` come to remove an orphan while `oldestOrphan` is nil. In a run
in which the orphan it points to never expires and is never processed, the pool stays within its
limit, and when it is full and nothing has expired, the block that is evicted is one of the pool
with the earliest expiration. -/
theorem orphan_pool_bounded {t : BlockTree} {allowed : ChainState → PoolCall → Prop} {clock : ℤ}
    {s : ChainState} (h : PoolRun t allowed clock s) :
    (∀ order now, maxOrphanBlocks < (s.expireOrphans t order now).orphans.keys.card + 1 →
      (s.expireOrphans t order now).oldestOrphan ≠ none) ∧
    ((∀ s call, allowed s call → PoolCall.KeepsOldest s call) →
      s.orphans.keys.card ≤ maxOrphanBlocks ∧
      ∀ order now block, allowed s (.addOrphanBlock order now block) →
        s.orphans.keys.card = maxOrphanBlocks →
        (∀ x o, s.orphans.lookup x = some o → now ≤ o.expiration) →
        ∃ p, s.orphans.lookup p.hash = some p ∧
          (∀ x o, s.orphans.lookup x = some o → p.expiration ≤ o.expiration) ∧
          (s.addOrphanBlock t order now block).orphans =
            (s.orphans.erase p.hash).insert block ⟨block, now + orphanLifetime⟩) := by
  refine ⟨fun order now hfull => ?_, fun hkeeps => ⟨(h.bounded hkeeps).card_le, ?_⟩⟩
  · obtain ⟨p, hp, -⟩ := exists_oldest h.pool (Nat.le_of_lt_succ hfull)
    rw [hp]
    exact Option.some_ne_none p
  · intro order now block hcall hfull hexp
    have hb := h.bounded hkeeps
    obtain ⟨q, hq, -⟩ := foldl_of_le (t := t) (order.list s.orphans.keys) hexp
    have hsame : (s.expireOrphans t order now).orphans = s.orphans := by rw [expireOrphans, hq]
    have hge : maxOrphanBlocks ≤ (s.expireOrphans t order now).orphans.keys.card := by
      rw [hsame, hfull]
    obtain ⟨p, hp, hmin⟩ := exists_oldest h.pool hge
    have hold : (s.expireOrphans t order now).OldestOk now :=
      .foldl _ (fun p hp => ⟨hkeeps _ _ hcall p hp, hb.oldest p hp⟩) hb.pool
    rw [hsame] at hmin
    refine ⟨p, hsame ▸ (hold p hp).2, hmin, ?_⟩
    rw [addOrphanBlock_of_le hge hp, insertOrphan, removeOrphanBlock, hsame]

/-- The pool is filled, and the next block takes the place of one of its orphans. -/
theorem orphan_pool_bounded_full : ∃ s, PoolRun (sampleTree []) PoolCall.KeepsOldest 0 s ∧
    s.orphans.keys.card = 100 ∧ ∀ block, ∃ p, s.orphans.lookup p.hash = some p ∧
      (s.addOrphanBlock (sampleTree []) byteOrder 0 block).orphans =
        (s.orphans.erase p.hash).insert block ⟨block, 0 + orphanLifetime⟩ := by
  have hrun0 : PoolRun (sampleTree []) PoolCall.KeepsOldest 0 twoOrphans :=
    run_twoOrphans fun s _ _ hs p hp => by simp [hs] at hp
  obtain ⟨s, hrun, hs, hcard, -⟩ := exists_filled hrun0
    (addedAtZero_of_keys (by decide +kernel) (by decide +kernel))
    (fun s block hs p hp => by rw [hs.oldest] at hp; cases hp; decide) 98 (by decide +kernel)
  have hfull : s.orphans.keys.card = maxOrphanBlocks := hcard.trans (by decide +kernel)
  refine ⟨s, hrun, hfull, fun block => ?_⟩
  obtain ⟨p, hp, -, hevict⟩ := ((orphan_pool_bounded hrun).2 fun _ _ h => h).2 byteOrder 0 block
    (fun p hp => by rw [hs.oldest] at hp; cases hp; decide) hfull
    fun x o ho => by rw [hs.all x o ho]; decide
  exact ⟨p, hp, hevict⟩

end HandshakeNode
