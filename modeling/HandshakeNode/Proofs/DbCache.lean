import HandshakeNode.DbCache

/-!
# What the cache and LevelDB hold together, and what a reader sees

Treaps stand for the change they make to the contents below them. Reading through a snapshot,
writing a batch and merging two pairs of treaps are all that change, so that a commit has the same
effect on the contents whether or not it flushes (`contents_commitTx`).

At every moment the cache and LevelDB hold together what the commits so far have made of the
database. A reader looks at LevelDB first and at the cache second: keys that move from the cache to
LevelDB in between are in neither half of what it sees (`snapshot_misses_flushed_commit`). As long
as the treaps are not replaced after a write to LevelDB between its two looks, it sees the contents
of one moment (`snapshot_is_a_prefix`).
-/

namespace HandshakeNode.Ffldb

open SortedMaps

section

open SortedMap DbCacheSnapshot Treaps

abbrev Contents := Bytes → Option Bytes

/-- The change that treaps make: a key to remove is gone, a key to store has its new value. -/
def Treaps.apply (t : Treaps) (base : Contents) : Contents := fun k =>
  if t.remove.has k then none else (t.keys.get k).or (base k)

namespace Treaps

variable {t : Treaps}

@[simp] lemma apply_empty (base : Contents) : empty.apply base = base := rfl

lemma apply_of_isEmpty (h : t.isEmpty = true) : t.apply base = base := by
  obtain ⟨⟨ks, hks⟩, ⟨rs, hrs⟩, hd⟩ := t
  rw [isEmpty, Bool.and_eq_true, List.isEmpty_iff, List.isEmpty_iff] at h
  obtain ⟨rfl, rfl⟩ := h
  rfl

lemma apply_apply_self (t : Treaps) (base : Contents) : t.apply (t.apply base) = t.apply base := by
  funext k
  unfold apply
  split_ifs
  · rfl
  · rcases t.keys.get k with - | v <;> rfl

lemma apply_putKey (key value : Bytes) :
    (t.putKey key value).apply base = Function.update (t.apply base) key (some value) := by
  funext k
  unfold apply putKey
  rw [has_eq_isSome, get_erase, get_insert]
  by_cases hk : k = key
  · subst hk
    simp
  · rw [if_neg hk, if_neg hk, Function.update_of_ne hk, has_eq_isSome]

lemma apply_deleteKey (key : Bytes) :
    (t.deleteKey key).apply base = Function.update (t.apply base) key none := by
  funext k
  unfold apply deleteKey
  rw [has_eq_isSome, get_erase, get_insert]
  by_cases hk : k = key
  · subst hk
    simp
  · rw [if_neg hk, if_neg hk, Function.update_of_ne hk, has_eq_isSome]

end Treaps

lemma DbCacheSnapshot.get_eq (snap : DbCacheSnapshot) :
    snap.get = snap.pending.apply snap.dbSnapshot.get := by
  funext k
  unfold get apply
  rcases snap.pending.keys.get k with - | v <;> rfl

lemma DbCacheSnapshot.has_eq (snap : DbCacheSnapshot) (k : Bytes) :
    snap.has k = (snap.get k).isSome := by
  unfold has get
  rw [has_eq_isSome (m := snap.pending.keys), has_eq_isSome (m := snap.dbSnapshot)]
  split_ifs with hr hk
  · rfl
  · obtain ⟨v, hv⟩ := Option.isSome_iff_exists.1 hk
    rw [hv]
    rfl
  · rw [Option.not_isSome_iff_eq_none.1 hk]

lemma get_writeBatch (ldb : SortedMap Bytes Bytes) (t : Treaps) :
    (writeBatch ldb (treapsToBatch t)).get = t.apply ldb.get := by
  have hbatch : writeBatch ldb (treapsToBatch t) = (ldb.insertAll t.keys).eraseAll t.remove := by
    rw [treapsToBatch, writeBatch, List.foldl_append, List.foldl_map, List.foldl_map]
    rfl
  funext k
  rw [hbatch, get_eraseAll, get_insertAll, apply]

namespace DbCache

variable {c : DbCache} {tx : Treaps}

def contents (c : DbCache) : Contents := c.snapshot.get

lemma contents_eq (c : DbCache) : c.contents = c.cached.apply c.ldb.get :=
  get_eq _

lemma apply_mergeTreaps (cached tx : Treaps) (base : Contents) :
    (mergeTreaps cached tx).apply base = tx.apply (cached.apply base) := by
  funext k
  have hremove : (mergeTreaps cached tx).remove.has k =
      (tx.remove.has k || !tx.keys.has k && cached.remove.has k) := by
    rw [has_eq_isSome, mergeTreaps, get_insertAll, get_eraseAll,
      has_eq_isSome (m := tx.remove), has_eq_isSome (m := cached.remove)]
    cases tx.keys.has k <;> simp
  have hkeys : (mergeTreaps cached tx).keys.get k =
      if tx.remove.has k then none else (tx.keys.get k).or (cached.keys.get k) := by
    rw [mergeTreaps, get_eraseAll, get_insertAll]
  unfold apply
  rw [hremove, hkeys, has_eq_isSome (m := tx.keys)]
  cases tx.remove.has k
  · rcases tx.keys.get k with - | v
    · cases cached.remove.has k <;> simp
    · simp
  · simp

lemma contents_commitTreaps (h : c.cached.isEmpty = true) :
    (c.commitTreaps tx).contents = tx.apply c.contents := by
  rw [contents_eq, contents_eq, commitTreaps, get_writeBatch, apply_of_isEmpty h,
    apply_of_isEmpty h]

lemma contents_flush : c.flush.contents = c.contents ∧ c.flush.cached.isEmpty = true := by
  unfold flush
  split_ifs with h
  · exact ⟨rfl, h⟩
  · refine ⟨?_, rfl⟩
    rw [contents_eq, contents_eq, clearTreaps, commitTreaps, get_writeBatch, apply_empty]

lemma contents_swapTreaps : (c.swapTreaps tx).contents = tx.apply c.contents := by
  rw [contents_eq, contents_eq, swapTreaps, apply_mergeTreaps]

lemma contents_commitTx (needsFlush : Bool) :
    (c.commitTx needsFlush tx).contents = tx.apply c.contents := by
  unfold commitTx
  split_ifs
  · rw [contents_commitTreaps contents_flush.2, contents_flush.1]
  · exact contents_swapTreaps

end DbCache

end

def applyAll (txs : List Treaps) (base : Contents) : Contents :=
  txs.foldl (fun contents tx => tx.apply contents) base

lemma applyAll_concat (txs : List Treaps) (tx : Treaps) (base : Contents) :
    applyAll (txs ++ [tx]) base = tx.apply (applyAll txs base) := by
  rw [applyAll, List.foldl_append]
  rfl

/-- What is seen is what the first commits made of the contents, at least `since` of them. -/
def SeesPrefix (base : Contents) (committed : List Treaps) (since : ℕ) (seen : Contents) : Prop :=
  ∃ n, since ≤ n ∧ n ≤ committed.length ∧ seen = applyAll (committed.take n) base

lemma SeesPrefix.concat (h : SeesPrefix base committed since seen) (tx : Treaps) :
    SeesPrefix base (committed ++ [tx]) since seen := by
  obtain ⟨n, hs, hn, rfl⟩ := h
  refine ⟨n, hs, ?_, ?_⟩
  · rw [List.length_append]
    omega
  · rw [List.take_append_of_le_length hn]

lemma seesPrefix_all (h : since ≤ committed.length) (hseen : seen = applyAll committed base) :
    SeesPrefix base committed since seen :=
  ⟨committed.length, h, le_rfl, by rw [List.take_length, hseen]⟩

def WriterAt.made : WriterAt → ℕ
  | .ret => 1
  | _ => 0

namespace Database

variable {base : Contents} {s s' : Database} {a : Action}

/-- The treaps are not replaced while a reader that has seen LevelDB written to since its first
look still has to take its second one. -/
def Undisturbed (s : Database) : Action → Prop
  | .stepWriter =>
    match s.writer with
    | .clearCached _ | .swap _ => ∀ r dbSnapshot since, s.readers r ≠ .tookDb dbSnapshot since true
    | _ => True
  | _ => True

inductive Reached (ldb : SortedMap Bytes Bytes) : Database → Prop
  | opened : Reached ldb (opened ldb)
  | step {s s' : Database} {a : Action} (h : Reached ldb s) (hs : s.step a = some s')
      (hq : s.Undisturbed a) : Reached ldb s'

def ReaderOk (base : Contents) (s : Database) : ReaderAt → Prop
  | .idle => True
  | .tookDb dbSnapshot since false =>
    since ≤ s.committed.length ∧ dbSnapshot.get = s.cache.ldb.get
  | .tookDb dbSnapshot since true =>
    SeesPrefix base s.committed since (s.cache.cached.apply dbSnapshot.get)
  | .done snap since => SeesPrefix base s.committed since snap.get

def WriterOk (c : DbCache) : WriterAt → Prop
  | .clearCached _ => c.contents = c.ldb.get
  | .writeTx _ => c.cached.isEmpty = true
  | _ => True

structure Ok (base : Contents) (s : Database) : Prop where
  contents : s.cache.contents = applyAll s.committed base
  returned : s.returned + s.writer.made = s.committed.length
  writer : WriterOk s.cache s.writer
  reader : ∀ r, s.ReaderOk base (s.readers r)

lemma Ok.opened (ldb : SortedMap Bytes Bytes) : Ok ldb.get (opened ldb) where
  contents := DbCache.contents_eq _
  returned := rfl
  writer := trivial
  reader _ := trivial

section

variable (h : s.Ok base)
include h

lemma Ok.returned_le : s.returned ≤ s.committed.length := by
  have := h.returned
  omega

lemma Ok.beginCommit (hs : s.beginCommit tx needsFlush = some s') : s'.Ok base := by
  unfold Database.beginCommit at hs
  split at hs
  · rename_i hw
    cases hs
    have hret := h.returned
    rw [hw] at hret
    cases needsFlush with
    | false => exact ⟨h.contents, hret, trivial, h.reader⟩
    | true =>
      by_cases he : s.cache.cached.isEmpty = true
      · rw [if_pos he]
        exact ⟨h.contents, hret, he, h.reader⟩
      · rw [if_neg he]
        exact ⟨h.contents, hret, trivial, h.reader⟩
  · cases hs

lemma Ok.getSnapshot (hs : s.getSnapshot r = some s') : s'.Ok base := by
  unfold Database.getSnapshot at hs
  split at hs
  · cases hs
    refine ⟨h.contents, h.returned, h.writer, fun r' => ?_⟩
    by_cases hr : r' = r
    · subst hr
      dsimp only
      rw [Function.update_self]
      exact ⟨h.returned_le, rfl⟩
    · dsimp only
      rw [Function.update_of_ne hr]
      exact h.reader r'
  · cases hs

lemma Ok.seesPrefix (hr : s.readers r = .tookDb dbSnapshot since wrote) :
    SeesPrefix base s.committed since (s.cache.cached.apply dbSnapshot.get) := by
  have hok := h.reader r
  rw [hr] at hok
  cases wrote with
  | false =>
    refine seesPrefix_all hok.1 ?_
    rw [hok.2, ← DbCache.contents_eq, h.contents]
  | true => exact hok

lemma Ok.readRoots (hs : s.readRoots r = some s') : s'.Ok base := by
  unfold Database.readRoots at hs
  split at hs
  · rename_i hr
    cases hs
    refine ⟨h.contents, h.returned, h.writer, fun r' => ?_⟩
    by_cases hr' : r' = r
    · subst hr'
      dsimp only
      rw [Function.update_self, ReaderOk, DbCacheSnapshot.get_eq]
      exact h.seesPrefix hr
    · dsimp only
      rw [Function.update_of_ne hr']
      exact h.reader r'
  · cases hs

lemma Ok.readerOk_noteWrite (hc : s'.cache.cached = s.cache.cached)
    (hl : s'.committed = s.committed ∨ ∃ tx, s'.committed = s.committed ++ [tx]) (r : ℕ) :
    s'.ReaderOk base (s.readers r).noteWrite := by
  have hgrow : ∀ {since seen}, SeesPrefix base s.committed since seen →
      SeesPrefix base s'.committed since seen := by
    intro since seen hsee
    rcases hl with hl | ⟨tx, hl⟩
    · rw [hl]
      exact hsee
    · rw [hl]
      exact hsee.concat tx
  have hok := h.reader r
  rcases hr : s.readers r with - | ⟨db, since, wrote⟩ | ⟨snap, since⟩
  · trivial
  · rw [ReaderAt.noteWrite, ReaderOk, hc]
    exact hgrow (h.seesPrefix hr)
  · rw [hr] at hok
    exact hgrow hok

/-- The treaps are replaced when no reader has seen a write between its two looks. -/
theorem Ok.readerOk_replaced (hq : ∀ r dbSnapshot since, s.readers r ≠ .tookDb dbSnapshot since true)
    (hdb : s'.cache.ldb = s.cache.ldb)
    (hl : s'.committed = s.committed ∨ ∃ tx, s'.committed = s.committed ++ [tx]) (r : ℕ) :
    s'.ReaderOk base (s.readers r) := by
  have hok := h.reader r
  rcases hr : s.readers r with - | ⟨db, since, wrote⟩ | ⟨snap, since⟩
  · trivial
  · cases wrote with
    | false =>
      rw [hr] at hok
      refine ⟨hok.1.trans ?_, by rw [hdb]; exact hok.2⟩
      rcases hl with hl | ⟨tx, hl⟩ <;> simp [hl]
    | true => exact absurd hr (hq r db since)
  · rw [hr] at hok
    rcases hl with hl | ⟨tx, hl⟩
    · rw [ReaderOk, hl]
      exact hok
    · rw [ReaderOk, hl]
      exact hok.concat tx

lemma Ok.stepWriter (hq : s.Undisturbed .stepWriter)
    (hs : s.stepWriter = some s') : s'.Ok base := by
  have hret := h.returned
  have hw := h.writer
  unfold Undisturbed at hq
  unfold Database.stepWriter at hs
  split at hs <;> rename_i heq <;> rw [heq] at hret hw hq
  · cases hs
  · cases hs
    have hcontents : (s.cache.commitTreaps s.cache.cached).contents = s.cache.contents := by
      rw [DbCache.contents_eq, DbCache.contents_eq, DbCache.commitTreaps, get_writeBatch,
        Treaps.apply_apply_self]
    refine ⟨hcontents.trans h.contents, hret, ?_, h.readerOk_noteWrite rfl (.inl rfl)⟩
    change DbCache.contents _ = _
    rw [hcontents, DbCache.contents_eq, DbCache.commitTreaps, get_writeBatch]
  · cases hs
    refine ⟨?_, hret, rfl, h.readerOk_replaced hq rfl (.inl rfl)⟩
    rw [← h.contents, hw]
    rfl
  · cases hs
    refine ⟨?_, by simpa [WriterAt.made] using hret, trivial,
      h.readerOk_noteWrite rfl (.inr ⟨_, rfl⟩)⟩
    rw [DbCache.contents_commitTreaps hw, h.contents, applyAll_concat]
  · cases hs
    refine ⟨?_, by simpa [WriterAt.made] using hret, trivial,
      h.readerOk_replaced hq rfl (.inr ⟨_, rfl⟩)⟩
    rw [DbCache.contents_swapTreaps, h.contents, applyAll_concat]
  · cases hs
    exact ⟨h.contents, hret, trivial, h.reader⟩

lemma Ok.step (hq : s.Undisturbed a) (hs : s.step a = some s') : s'.Ok base := by
  cases a with
  | beginCommit tx needsFlush => exact h.beginCommit hs
  | stepWriter => exact h.stepWriter hq hs
  | getSnapshot r => exact h.getSnapshot hs
  | readRoots r => exact h.readRoots hs

end

lemma Reached.ok (h : Reached ldb s) : s.Ok ldb.get := by
  induction h with
  | opened => exact .opened ldb
  | step _ hs hq ih => exact ih.step hq hs

def oneKeyTx (k : UInt8) : Treaps := Treaps.empty.putKey [0, 0, 0, 0, k] [k]

/-- The first transaction is committed to the cache and its commit returns. A reader takes its
LevelDB snapshot; the flush of the next commit moves the key to LevelDB and clears the cache; the
reader reads the roots, and has the key of the first transaction in neither half. -/
theorem snapshot_misses_flushed_commit : ∃ s snap,
    (opened .empty).run [.beginCommit (oneKeyTx 1) false, .stepWriter, .stepWriter, .getSnapshot 0,
      .beginCommit (oneKeyTx 2) true, .stepWriter, .stepWriter, .readRoots 0] = some s ∧
    s.readers 0 = .done snap 1 ∧
    ∀ n, 1 ≤ n → snap.get ≠ applyAll (s.committed.take n) (SortedMap.empty.get) := by
  refine ⟨_, ⟨.empty, .empty⟩, rfl, rfl, fun n hn h => ?_⟩
  obtain ⟨m, rfl⟩ : ∃ m, n = m + 1 := ⟨n - 1, by omega⟩
  have hkey := congrFun h [0, 0, 0, 0, 1]
  revert hkey
  change ¬ (none = applyAll (oneKeyTx 1 :: [].take m) _ _)
  rw [List.take_nil]
  decide +kernel

/-- In every run in which the treaps are never replaced after a write to LevelDB between the two
halves of a `Snapshot`, each reader sees what some first commits made of the database, among them
all those that had returned when its `Snapshot` began. -/
theorem snapshot_is_a_prefix (ldb : SortedMap Bytes Bytes) (s : Database) (h : Reached ldb s)
    (r : ℕ) (snap : DbCacheSnapshot) (since : ℕ) (hr : s.readers r = .done snap since) :
    ∃ n, since ≤ n ∧ n ≤ s.committed.length ∧ snap.get = applyAll (s.committed.take n) ldb.get := by
  have hok := h.ok.reader r
  rw [hr] at hok
  exact hok

/-- Between the two halves of the `Snapshot` the next commit begins its flush. -/
theorem snapshot_is_a_prefix_cached : ∃ s snap, Reached .empty s ∧ s.readers 0 = .done snap 1 ∧
    ∃ n, 1 ≤ n ∧ n ≤ s.committed.length ∧
      snap.get = applyAll (s.committed.take n) (SortedMap.empty.get) := by
  have h0 : Reached .empty (opened .empty) := .opened
  have h1 := h0.step (a := .beginCommit (oneKeyTx 1) false) rfl trivial
  have h2 := h1.step (a := .stepWriter) rfl (fun _ _ _ h => by cases h)
  have h3 := h2.step (a := .stepWriter) rfl trivial
  have h4 := h3.step (a := .getSnapshot 0) rfl trivial
  have h5 := h4.step (a := .beginCommit (oneKeyTx 2) true) rfl trivial
  have h6 := h5.step (a := .stepWriter) rfl trivial
  have h7 := h6.step (a := .readRoots 0) rfl trivial
  exact ⟨_, _, h7, rfl, snapshot_is_a_prefix .empty _ h7 0 _ 1 rfl⟩

end Database

end HandshakeNode.Ffldb
