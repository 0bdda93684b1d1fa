import HandshakeNode.Lib.NestedMap
import HandshakeNode.Proofs.BucketKeys

/-!
# The metadata store as nested maps

The flat keys that can be reached from the metadata bucket through the bucket index form a tree of
nested maps, and the operations of a transaction do to the flat keys what they do to the tree. A
deleted bucket may leave keys behind, which lie under numbers that are never given out again. The
main result is `TxOk.foldl_apply`.
-/

namespace HandshakeNode

open List Function Option NestedMap

namespace Ffldb

open SortedMaps

namespace Transaction

variable {tx : Transaction}

section

variable (h : tx.writable = true)
include h

lemma fetchKey_eq : tx.fetchKey = tx.pending.apply tx.snapshot.get := by
  funext k
  unfold fetchKey Treaps.apply
  rw [h]
  rcases tx.pending.keys.get k with - | v <;> rfl

lemma hasKey_eq (k : Bytes) : tx.hasKey k = (tx.fetchKey k).isSome := by
  unfold hasKey fetchKey
  rw [h, if_pos rfl, DbCacheSnapshot.has_eq,
    SortedMap.has_eq_isSome (m := tx.pending.keys)]
  split_ifs with hr hk
  · rfl
  · obtain ⟨v, hv⟩ := isSome_iff_exists.1 hk
    rw [hv]
    rfl
  · rw [not_isSome_iff_eq_none.1 hk]

lemma fetchKey_putKey (key value : Bytes) :
    (tx.putKey key value).fetchKey = update tx.fetchKey key (some value) := by
  have hput : (tx.putKey key value).writable = true := h
  rw [fetchKey_eq hput, fetchKey_eq h]
  exact Treaps.apply_putKey key value

lemma fetchKey_deleteKey (key : Bytes) :
    (tx.deleteKey key).fetchKey = update tx.fetchKey key none := by
  have hdel : (tx.deleteKey key).writable = true := h
  rw [fetchKey_eq hdel, fetchKey_eq h]
  exact Treaps.apply_deleteKey key

lemma get_view (k : Bytes) : tx.view.get k = tx.fetchKey k := by
  have hd := tx.pending.disjoint k
  have hd' := tx.snapshot.pending.disjoint k
  rw [SortedMap.has_eq_isSome (m := tx.pending.keys)] at hd
  rw [SortedMap.has_eq_isSome (m := tx.snapshot.pending.keys)] at hd'
  rw [fetchKey_eq h, view, SortedMap.get_overlay, SortedMap.get_overlay, Treaps.apply,
    DbCacheSnapshot.get_eq, Treaps.apply]
  rcases hv : tx.pending.keys.get k with - | v
  · rcases hw : tx.snapshot.pending.keys.get k with - | w
    · rfl
    · rw [hd' (by rw [hw]; rfl)]
      rfl
  · rw [hd (by rw [hv]; rfl)]
    rfl

end

def openBucket (tx : Transaction) : ℕ → List Bytes → Option ℕ
  | id, [] => some id
  | id, n :: p => (tx.bucket id n).bind fun child => tx.openBucket child p

lemma openBucket_eq : ∀ id (p : List Bytes), tx.openBucket id p = resolve tx.fetchKey id p
  | _, [] => rfl
  | id, n :: p => by
    rw [openBucket, resolve, bucket]
    cases tx.fetchKey (bucketIndexKey id n) with
    | none => rfl
    | some b => exact openBucket_eq (copyID b) p

end Transaction

/-! ### The tree that flat keys form -/

def OwnKey (p : List Bytes) (k : Bytes) : Prop := p = [] ∧ k = writeLocKeyName

structure Models (m : Contents) (t : NestedMap Bytes Bytes) : Prop where
  bucket : ∀ p, (resolve m 0 p).isSome = (t.find? p).isSome
  entry : ∀ p i, resolve m 0 p = some i → ∀ k, k ≠ [] → ¬ OwnKey p k →
    m (bucketizedKey i k) = t.entry p k

lemma resolve_congr (hm : ∀ j n, j < firstClash → m' (bucketIndexKey j n) = m (bucketIndexKey j n))
    (h : WellFormed m c) : ∀ p {i : ℕ}, i ≤ c → resolve m' i p = resolve m i p
  | [], _, _ => rfl
  | n :: p, i, hi => by
    have := h.lt
    rw [resolve, resolve, hm i n (by omega)]
    rcases hb : m (bucketIndexKey i n) with - | b
    · rfl
    · exact resolve_congr hm h p (h.copyID_row hi hb).2.2

lemma WellFormed.updateKey (h : WellFormed m c) (hi : i ≤ c) (k : Bytes) (v : Option Bytes) :
    WellFormed (update m (bucketizedKey i k) v) c := by
  have hic : i < firstClash := lt_of_le_of_lt hi h.lt
  have hrow : ∀ j n, update m (bucketizedKey i k) v (bucketIndexKey j n) =
      m (bucketIndexKey j n) := fun j n =>
    update_of_ne (bucketizedKey_ne_bucketIndexKey hic).symm _ _
  constructor
  · exact h.lt
  · rw [update_of_ne (bucketizedKey_ne_curBucketID hic).symm]
    exact h.counter
  · intro j n b hj hb
    exact h.row j n b hj (hrow j n ▸ hb)
  · intro j n j' n' b hj hj' hb hb'
    exact h.inj j n j' n' b hj hj' (hrow j n ▸ hb) (hrow j' n' ▸ hb')
  · intro j n hj hj'
    rw [hrow]
    exact h.freshRow j n hj hj'
  · intro j k' hj hj'
    rw [update_of_ne]
    · exact h.freshKey j k' hj hj'
    · intro he
      have := (bucketizedKey_inj hj' hic he).1
      omega

lemma resolve_updateKey (h : WellFormed m c) (hi : i ≤ c) (k : Bytes) (v : Option Bytes)
    (q : List Bytes) : resolve (update m (bucketizedKey i k) v) 0 q = resolve m 0 q :=
  resolve_congr (fun _ _ _ => update_of_ne
    (bucketizedKey_ne_bucketIndexKey (lt_of_le_of_lt hi h.lt)).symm _ _) h q (Nat.zero_le c)

lemma Models.updateKey (h : Models m t) (hw : WellFormed m c) (hp : resolve m 0 p = some i)
    (k : Bytes) (v : Option Bytes) (ht : modify (setValue k v) p t = some t') :
    Models (update m (bucketizedKey i k) v) t' := by
  have hi := hw.resolve_le p (Nat.zero_le c) hp
  have hfind := modify_setValue ht
  constructor
  · intro q
    rw [resolve_updateKey hw hi, h.bucket, (hfind q).1]
  · intro q j hj k' hk' hown
    rw [resolve_updateKey hw hi] at hj
    rw [(hfind q).2, ← h.entry q j hj k' hk' hown]
    split_ifs with he
    · obtain ⟨rfl, rfl⟩ := he
      rw [hp, Option.some.injEq] at hj
      rw [hj, update_self]
    · refine update_of_ne (fun hkey => he ?_) _ _
      obtain ⟨rfl, rfl⟩ := bucketizedKey_inj (hw.resolve_lt hj) (hw.resolve_lt hp) hkey
      exact ⟨hw.resolve_inj hj hp, rfl⟩

lemma resolve_off (hrow : ∀ q j a, resolve m 0 q = some j → ¬ p ++ [n] <+: q ++ [a] →
      m' (bucketIndexKey j a) = m (bucketIndexKey j a)) :
    ∀ q, ¬ p ++ [n] <+: q → resolve m' 0 q = resolve m 0 q := by
  intro q
  induction q using List.reverseRecOn with
  | nil => exact fun _ => rfl
  | append_singleton q a ih =>
    intro hq
    rw [resolve_concat, resolve_concat, ih fun h => hq (h.trans (prefix_append q [a]))]
    rcases hj : resolve m 0 q with - | j
    · rfl
    · rw [bind_some, bind_some, hrow q j a hj hq]

def withBucket (m : Contents) (c i : ℕ) (n : Bytes) : Contents :=
  update (update m curBucketIDKeyName (some (idBytes (c + 1))))
    (bucketIndexKey i n) (some (idBytes (c + 1)))

lemma withBucket_row (hj : j < firstClash) (hi : i < firstClash) :
    withBucket m c i n (bucketIndexKey j a) =
      if j = i ∧ a = n then some (idBytes (c + 1)) else m (bucketIndexKey j a) := by
  unfold withBucket
  split_ifs with he
  · obtain ⟨rfl, rfl⟩ := he
    exact update_self ..
  · rw [update_of_ne fun hk => he (bucketIndexKey_inj hj hi hk),
      update_of_ne (bucketIndexKey_ne_curBucketID hj)]

lemma withBucket_key (hj : j < firstClash) :
    withBucket m c i n (bucketizedKey j k) = m (bucketizedKey j k) := by
  unfold withBucket
  rw [update_of_ne (bucketizedKey_ne_bucketIndexKey hj),
    update_of_ne (bucketizedKey_ne_curBucketID hj)]

lemma WellFormed.withBucket (h : WellFormed m c) (hc : c + 1 < firstClash) (hi : i ≤ c)
    (hnone : m (bucketIndexKey i n) = none) : WellFormed (withBucket m c i n) (c + 1) := by
  have hic : i < firstClash := by omega
  -- a row of the new store is the new one or an old one of a parent in use
  have hold : ∀ j a b, j ≤ c + 1 → Ffldb.withBucket m c i n (bucketIndexKey j a) = some b →
      (j = i ∧ a = n ∧ b = idBytes (c + 1)) ∨ (j ≤ c ∧ m (bucketIndexKey j a) = some b) := by
    intro j a b hj hb
    rw [withBucket_row (by omega) hic] at hb
    split_ifs at hb with he
    · exact .inl ⟨he.1, he.2, (Option.some.inj hb).symm⟩
    · refine .inr ⟨?_, hb⟩
      by_contra hjc
      rw [h.freshRow j a (by omega) (by omega)] at hb
      cases hb
  have hne : ∀ j a, j ≤ c → m (bucketIndexKey j a) ≠ some (idBytes (c + 1)) := by
    intro j a hj hb
    obtain ⟨j', hj', -, hle⟩ := h.row j a _ hj hb
    have := idBytes_inj (lt_of_lt_firstClash hc) (lt_of_lt_firstClash (by omega)) hj'
    omega
  constructor
  · exact hc
  · rw [Ffldb.withBucket, update_of_ne (bucketIndexKey_ne_curBucketID hic).symm, update_self]
  · intro j a b hj hb
    rcases hold j a b hj hb with ⟨rfl, rfl, rfl⟩ | ⟨hjc, hb⟩
    · exact ⟨c + 1, rfl, by omega, le_rfl⟩
    · obtain ⟨j', hj', hlt, hle⟩ := h.row j a b hjc hb
      exact ⟨j', hj', hlt, by omega⟩
  · intro j a j' a' b hj hj' hb hb'
    rcases hold j a b hj hb with ⟨rfl, rfl, rfl⟩ | ⟨hjc, hm⟩ <;>
      rcases hold j' a' _ hj' hb' with ⟨rfl, rfl, he⟩ | ⟨hjc', hm'⟩
    · exact ⟨rfl, rfl⟩
    · exact absurd hm' (hne j' a' hjc')
    · exact absurd (he ▸ hm) (hne j a hjc)
    · exact h.inj j a j' a' b hjc hjc' hm hm'
  · intro j a hj hj'
    rw [withBucket_row hj' hic, if_neg (by omega)]
    exact h.freshRow j a (by omega) hj'
  · intro j k hj hj'
    rw [withBucket_key hj']
    exact h.freshKey j k (by omega) hj'

/-- A bucket is set or removed when nothing else is and what lies below it is as in the tree. -/
theorem Models.setChild (h : Models m t)
    (ht : NestedMap.modify (NestedMap.setChild n b) p t = some t')
    (hoff : ∀ q, ¬ p ++ [n] <+: q → resolve m' 0 q = resolve m 0 q)
    (hkey : ∀ q j k, resolve m 0 q = some j → ¬ p ++ [n] <+: q →
      m' (bucketizedKey j k) = m (bucketizedKey j k))
    (hbelow : ∀ r, (resolve m' 0 (p ++ n :: r)).isSome = (b.bind (·.find? r)).isSome)
    (hentry : ∀ r j k, resolve m' 0 (p ++ n :: r) = some j →
      m' (bucketizedKey j k) = (b.bind (·.find? r)).bind (·.value k)) : Models m' t' := by
  have hsplit : ∀ q, p ++ [n] <+: q → ∃ r, q = p ++ n :: r := by
    rintro q ⟨r, rfl⟩
    exact ⟨r, by simp⟩
  constructor
  · intro q
    by_cases hq : p ++ [n] <+: q
    · obtain ⟨r, rfl⟩ := hsplit q hq
      rw [hbelow, modify_setChild_below ht]
    · rw [hoff q hq, h.bucket, (modify_setChild_off ht hq).1]
  · intro q j hj k hk hown
    by_cases hq : p ++ [n] <+: q
    · obtain ⟨r, rfl⟩ := hsplit q hq
      rw [hentry r j k hj, NestedMap.entry, modify_setChild_below ht]
    · rw [hoff q hq] at hj
      rw [hkey q j k hj hq, h.entry q j hj k hk hown, (modify_setChild_off ht hq).2]

lemma Models.withBucket (h : Models m t) (hw : WellFormed m c) (hc : c + 1 < firstClash)
    (hp : resolve m 0 p = some i) (hnone : m (bucketIndexKey i n) = none)
    (ht : NestedMap.modify (NestedMap.setChild n (some .empty)) p t = some t') :
    Models (withBucket m c i n) t' := by
  have hi := hw.resolve_le p (Nat.zero_le c) hp
  have hic : i < firstClash := by omega
  have hoff : ∀ q, ¬ p ++ [n] <+: q → resolve (Ffldb.withBucket m c i n) 0 q = resolve m 0 q := by
    refine resolve_off fun q j a hj hq => ?_
    rw [withBucket_row (hw.resolve_lt hj) hic, if_neg]
    rintro ⟨rfl, rfl⟩
    rw [hw.resolve_inj hj hp] at hq
    exact hq prefix_rfl
  have hbelow : ∀ r, resolve (Ffldb.withBucket m c i n) 0 (p ++ n :: r) =
      if r = [] then some (c + 1) else none := by
    intro r
    have hpi : resolve (Ffldb.withBucket m c i n) 0 p = some i := by
      rw [hoff p fun h => by simpa using h.length_le, hp]
    rw [resolve_append, hpi, bind_some, resolve, withBucket_row hic hic,
      if_pos ⟨rfl, rfl⟩, bind_some, copyID_idBytes (lt_of_lt_firstClash hc)]
    cases r with
    | nil => rfl
    | cons a r =>
      rw [resolve, withBucket_row hc hic, if_neg (by omega), hw.freshRow (c + 1) a (by omega) hc]
      simp
  refine h.setChild ht hoff (fun q j k hj _ => withBucket_key (hw.resolve_lt hj)) (fun r => ?_)
    fun r j k hj => ?_
  · rw [hbelow]
    cases r <;> rfl
  · rw [hbelow] at hj
    split_ifs at hj with hr
    · subst hr
      obtain rfl := Option.some.inj hj
      rw [withBucket_key hc, hw.freshKey (c + 1) k (by omega) hc]
      rfl

def Below (m : Contents) (p : List Bytes) (n k : Bytes) : Prop :=
  ∃ r j l, resolve m 0 (p ++ n :: r) = some j ∧ (k = bucketizedKey j l ∨ k = bucketIndexKey j l)

/-- Some of what lies below a bucket is gone, and its row. -/
structure Removed (m m' : Contents) (p : List Bytes) (i : ℕ) (n : Bytes) : Prop where
  sub : ∀ k, m' k = m k ∨ m' k = none
  gone : m' (bucketIndexKey i n) = none
  only : ∀ k, m' k ≠ m k → k = bucketIndexKey i n ∨ Below m p n k

lemma eq_some_of_kept (h : a' = a ∨ a' = none) (hb : a' = some b) :
    a = some b := by
  rcases h with rfl | rfl
  · exact hb
  · cases hb

lemma Removed.eq_of (h : Removed m m' p i n) (hk : k ≠ bucketIndexKey i n)
    (hbelow : ¬ Below m p n k) : m' k = m k := by
  by_contra hne
  rcases h.only k hne with he | hb
  · exact hk he
  · exact hbelow hb

lemma WellFormed.removed (h : WellFormed m c) (hr : Removed m m' p i n)
    (hp : resolve m 0 p = some i) : WellFormed m' c := by
  constructor
  · exact h.lt
  · rw [hr.eq_of]
    · exact h.counter
    · exact (bucketIndexKey_ne_curBucketID (h.resolve_lt hp)).symm
    · rintro ⟨r, j, l, hj, hk | hk⟩
      · exact bucketizedKey_ne_curBucketID (h.resolve_lt hj) hk.symm
      · exact bucketIndexKey_ne_curBucketID (h.resolve_lt hj) hk.symm
  · intro j a b hj hb
    exact h.row j a b hj (eq_some_of_kept (hr.sub _) hb)
  · intro j a j' a' b hj hj' hb hb'
    exact h.inj j a j' a' b hj hj' (eq_some_of_kept (hr.sub _) hb) (eq_some_of_kept (hr.sub _) hb')
  · intro j a hj hj'
    exact (hr.sub _).elim (·.trans (h.freshRow j a hj hj')) id
  · intro j k hj hj'
    exact (hr.sub _).elim (·.trans (h.freshKey j k hj hj')) id

lemma Below.prefix_of (h : WellFormed m c) (hb : Below m p n k) (hj : resolve m 0 q = some j)
    (hk : k = bucketizedKey j l ∨ k = bucketIndexKey j l) : p ++ [n] <+: q := by
  obtain ⟨r, j', l', hj', hk'⟩ := hb
  have hjj : j = j' := by
    have hlt := h.resolve_lt hj
    have hlt' := h.resolve_lt hj'
    rcases hk with rfl | rfl <;> rcases hk' with hk' | hk'
    · exact (bucketizedKey_inj hlt hlt' hk').1
    · exact absurd hk' (bucketizedKey_ne_bucketIndexKey hlt)
    · exact absurd hk'.symm (bucketizedKey_ne_bucketIndexKey hlt')
    · exact (bucketIndexKey_inj hlt hlt' hk').1
  rw [h.resolve_inj hj (hjj ▸ hj')]
  exact ⟨r, by simp⟩

lemma Models.removed (h : Models m t) (hw : WellFormed m c) (hr : Removed m m' p i n)
    (hp : resolve m 0 p = some i)
    (ht : NestedMap.modify (NestedMap.setChild n none) p t = some t') : Models m' t' := by
  have hoff : ∀ q, ¬ p ++ [n] <+: q → resolve m' 0 q = resolve m 0 q := by
    refine resolve_off fun q j a hj hq => hr.eq_of (fun hk => ?_) fun hb => ?_
    · obtain ⟨rfl, rfl⟩ := bucketIndexKey_inj (hw.resolve_lt hj) (hw.resolve_lt hp) hk
      rw [hw.resolve_inj hj hp] at hq
      exact hq prefix_rfl
    · exact hq ((hb.prefix_of hw hj (.inr rfl)).trans (prefix_append q [a]))
  have hbelow : ∀ r, resolve m' 0 (p ++ n :: r) = none := by
    intro r
    have hpi : resolve m' 0 p = some i := by
      rw [hoff p fun h => by simpa using h.length_le, hp]
    rw [resolve_append, hpi, bind_some, resolve, hr.gone]
    rfl
  refine h.setChild ht hoff (fun q j k hj hq => hr.eq_of ?_ fun hb => ?_) (fun r => ?_)
    fun r j k hj => ?_
  · exact bucketizedKey_ne_bucketIndexKey (hw.resolve_lt hj)
  · exact hq (hb.prefix_of hw hj (.inl rfl))
  · rw [hbelow]
    rfl
  · rw [hbelow] at hj
    cases hj

namespace Transaction

variable {tx : Transaction}

lemma foldl_deleteKey : ∀ (l : List (Bytes × Bytes)) {tx : Transaction}, tx.writable = true →
    (l.foldl (fun tx x => tx.deleteKey x.1) tx).writable = true ∧
      ∀ k, (l.foldl (fun tx x => tx.deleteKey x.1) tx).fetchKey k =
        if k ∈ l.map Prod.fst then none else tx.fetchKey k
  | [], tx, h => ⟨h, by simp⟩
  | x :: l, tx, h => by
    obtain ⟨hw, hl⟩ := foldl_deleteKey l (show (tx.deleteKey x.1).writable = true from h)
    refine ⟨hw, fun k => ?_⟩
    rw [foldl_cons, hl, fetchKey_deleteKey h, update_apply]
    by_cases hk : k = x.1
    · simp [hk]
    · simp only [map_cons, mem_cons, hk, if_false, false_or]

lemma mem_visited (h : tx.writable = true) (hx : x ∈ tx.visited inRange reached) :
    inRange x.1 = true ∧ tx.fetchKey x.1 = some x.2 := by
  obtain ⟨hx, hp⟩ := SortedMap.mem_filter.1 hx
  rw [Bool.and_eq_true] at hp
  exact ⟨hp.1, get_view h _ ▸ SortedMap.get_eq_some.2 hx⟩

lemma length_view_delete (h : tx.writable = true) (inRange reached : Bytes → Bool) :
    ((tx.visited inRange reached).foldl (fun tx x => tx.deleteKey x.1) tx).view.items.length +
      (tx.visited inRange reached).length ≤ tx.view.items.length := by
  obtain ⟨hw, hfetch⟩ := foldl_deleteKey (tx.visited inRange reached) h
  set P : Bytes → Bool := fun k => inRange k && (reached k || !tx.pending.keys.has k) with hP
  set tx' := (tx.visited inRange reached).foldl (fun tx x => tx.deleteKey x.1) tx with htx'
  have hsub : tx'.view.items ⊆ tx.view.items.filter fun x => !P x.1 := by
    intro x hx
    have hget := SortedMap.get_eq_some.2 hx
    rw [get_view hw, hfetch] at hget
    split_ifs at hget with hnot
    have hmem : x ∈ tx.view.items := SortedMap.get_eq_some.1 ((get_view h x.1).trans hget)
    refine mem_filter.2 ⟨hmem, ?_⟩
    by_contra hp
    exact hnot (mem_map_of_mem (SortedMap.mem_filter.2 ⟨hmem, show P x.1 = true by simpa using hp⟩))
  have hnodup : tx'.view.items.Nodup := tx'.view.sorted.imp fun hlt he => hlt.ne (congrArg _ he)
  have hle := (subperm_of_subset hnodup hsub).length_le
  have hsplit := length_eq_length_filter_add (l := tx.view.items) fun x => P x.1
  rw [show (tx.visited inRange reached).length = (tx.view.items.filter fun x => P x.1).length
    from rfl]
  omega

/-- The stack of `DeleteBucket` is emptied when there are rounds enough. -/
theorem deleteLoop_done (reached : Bytes → Bool) : ∀ n (ids : List Bytes) {tx : Transaction},
    tx.writable = true → ids.length + tx.view.items.length ≤ n →
      (deleteLoop reached n ids tx).1 = []
  | 0, ids, tx, _, hn => eq_nil_of_length_eq_zero (show ids.length = 0 by omega)
  | n + 1, [], tx, _, _ => rfl
  | n + 1, id :: ids, tx, h, hn => by
    rw [deleteLoop]
    set l1 := tx.visited (hasPrefix id) reached
    have hd1 := foldl_deleteKey l1 h
    have hlen1 := length_view_delete h (hasPrefix id) reached
    set tx1 := l1.foldl (fun tx x => tx.deleteKey x.1) tx
    have hd2 := foldl_deleteKey (tx1.visited (hasPrefix (nestedPrefix id)) reached) hd1.1
    have hlen2 := length_view_delete hd1.1 (hasPrefix (nestedPrefix id)) reached
    refine deleteLoop_done reached n _ hd2.1 ?_
    simp only [length_append, length_reverse, length_map, length_cons] at hn ⊢
    omega

/-- A bucket with two buckets in it, one of them with a key. -/
def nestedTx : DbResult Transaction := do
  let tx : Transaction := ⟨true, (MetaDb.initDB []).cache.snapshot, .empty⟩
  let (outer, tx) ← tx.createBucket metadataBucketID [1]
  let (inner, tx) ← tx.createBucket outer [2]
  let (_, tx) ← tx.createBucket outer [3]
  tx.put inner [4] [5]

/-- Both nested buckets are pushed on the stack, and it is emptied. -/
theorem deleteLoop_done_nestedTx : ∃ tx, nestedTx = .ok tx ∧
    (deleteLoop (fun _ => true) 1 [idBytes 2] tx).1 = [idBytes 4, idBytes 3] ∧
    (deleteLoop (fun _ => true) 10 [idBytes 2] tx).1 = [] := by
  obtain ⟨tx, htx, hw, hlen, hpush⟩ : ∃ tx, nestedTx = .ok tx ∧ tx.writable = true ∧
      1 + tx.view.items.length ≤ 10 ∧
      (deleteLoop (fun _ => true) 1 [idBytes 2] tx).1 = [idBytes 4, idBytes 3] :=
    ⟨_, rfl, rfl, by decide +kernel, by decide +kernel⟩
  exact ⟨tx, htx, hpush, deleteLoop_done _ 10 _ hw hlen⟩

/-- What `DeleteBucket` keeps as it empties buckets: it has only deleted keys below the bucket, and
the stack holds numbers of buckets below it. -/
structure Emptying (m : Contents) (p : List Bytes) (n : Bytes) (ids : List Bytes)
    (tx : Transaction) : Prop where
  writable : tx.writable = true
  sub : ∀ k, tx.fetchKey k = m k ∨ tx.fetchKey k = none
  only : ∀ k, tx.fetchKey k ≠ m k → Below m p n k
  stack : ∀ b ∈ ids, ∃ r j, resolve m 0 (p ++ n :: r) = some j ∧ b = idBytes j

lemma hasPrefix_iff : hasPrefix start key = true ↔ ∃ l, key = start ++ l := by
  rw [hasPrefix, isPrefixOf_iff_prefix]
  exact ⟨fun ⟨l, h⟩ => ⟨l, h.symm⟩, fun ⟨l, h⟩ => ⟨l, h.symm⟩⟩

lemma Emptying.delete (h : Emptying m p n ids tx) {l : List (Bytes × Bytes)}
    (hl : ∀ x ∈ l, Below m p n x.1) :
    Emptying m p n ids (l.foldl (fun tx x => tx.deleteKey x.1) tx) := by
  obtain ⟨hw, hfetch⟩ := foldl_deleteKey l h.writable
  refine ⟨hw, fun k => ?_, fun k hk => ?_, h.stack⟩
  · rw [hfetch]
    split_ifs
    · exact .inr rfl
    · exact h.sub k
  · rw [hfetch] at hk
    split_ifs at hk with hkl
    · obtain ⟨x, hx, rfl⟩ := mem_map.1 hkl
      exact hl x hx
    · exact h.only k hk

lemma Emptying.deleteLoop (hm : WellFormed m c) (reached : Bytes → Bool) :
    ∀ fuel {ids : List Bytes} {tx : Transaction}, Emptying m p n ids tx →
      ∃ ids', Emptying m p n ids' (deleteLoop reached fuel ids tx).2
  | 0, ids, tx, h => ⟨ids, h⟩
  | fuel + 1, [], tx, h => ⟨[], h⟩
  | fuel + 1, id :: ids, tx, h => by
    obtain ⟨r, j, hj, rfl⟩ := h.stack id mem_cons_self
    have h1 := h.delete (l := tx.visited (hasPrefix (idBytes j)) reached) fun x hx => by
      obtain ⟨l, hl⟩ := hasPrefix_iff.1 (mem_visited h.writable hx).1
      exact ⟨r, j, l, hj, .inl hl⟩
    set tx1 := (tx.visited (hasPrefix (idBytes j)) reached).foldl (fun tx x => tx.deleteKey x.1) tx
    set nested := tx1.visited (hasPrefix (nestedPrefix (idBytes j))) reached
    have hnested : ∀ x ∈ nested, ∃ l, x.1 = bucketIndexKey j l ∧
        m (bucketIndexKey j l) = some x.2 := by
      intro x hx
      obtain ⟨hrange, hfetch⟩ := mem_visited h1.writable hx
      rw [nestedPrefix, take_left' (length_idBytes j)] at hrange
      obtain ⟨l, hl⟩ := hasPrefix_iff.1 hrange
      refine ⟨l, hl, ?_⟩
      rw [← show x.1 = bucketIndexKey j l from hl]
      exact eq_some_of_kept (h1.sub x.1) hfetch
    have h2 := h1.delete (l := nested) fun x hx => by
      obtain ⟨l, hl, -⟩ := hnested x hx
      exact ⟨r, j, l, hj, .inr hl⟩
    refine Emptying.deleteLoop hm reached fuel ⟨h2.writable, h2.sub, h2.only, fun b hb => ?_⟩
    rcases mem_append.1 hb with hb | hb
    · obtain ⟨x, hx, rfl⟩ := mem_map.1 (mem_reverse.1 hb)
      obtain ⟨l, hl, hrow⟩ := hnested x hx
      refine ⟨r ++ [l], copyID x.2, ?_, (hm.copyID_row (hm.resolve_le _ (Nat.zero_le c) hj) hrow).1⟩
      rw [show p ++ n :: (r ++ [l]) = (p ++ n :: r) ++ [l] by simp, resolve_concat, hj,
        bind_some, hrow]
      rfl
    · exact h.stack b (mem_cons_of_mem _ hb)

lemma deleteBucket_removed (hm : WellFormed tx.fetchKey c) (hw : tx.writable = true)
    (hp : resolve tx.fetchKey 0 p = some i) (hok : tx.deleteBucket i reached n = .ok tx') :
    tx'.writable = true ∧ Removed tx.fetchKey tx'.fetchKey p i n := by
  obtain ⟨-, hok⟩ := dbFailIf_ok hok
  dsimp only at hok
  rcases hrow : tx.fetchKey (bucketIndexKey i n) with - | childID
  · rw [hrow] at hok
    cases hok
  rw [hrow] at hok
  cases hok
  have hchild := hm.copyID_row (hm.resolve_le p (Nat.zero_le c) hp) hrow
  have hstart : Emptying tx.fetchKey p n [childID] tx := by
    refine ⟨hw, fun _ => .inl rfl, fun _ hk => absurd rfl hk, fun b hb => ?_⟩
    rw [mem_singleton] at hb
    refine ⟨[], copyID childID, ?_, hb.trans hchild.1⟩
    rw [resolve_append, hp, bind_some, resolve, hrow]
    rfl
  obtain ⟨ids', h⟩ := hstart.deleteLoop hm reached (tx.view.items.length + 1)
  have hdel := fetchKey_deleteKey h.writable (bucketIndexKey i n)
  refine ⟨h.writable, fun k => ?_, ?_, fun k hk => ?_⟩
  · rw [hdel, update_apply]
    split_ifs
    · exact .inr rfl
    · exact h.sub k
  · rw [hdel, update_self]
  · by_cases hki : k = bucketIndexKey i n
    · exact .inl hki
    · rw [hdel, update_of_ne hki] at hk
      exact .inr (h.only k hk)

end Transaction

/-! ### Operations and transactions -/

inductive Op where
  | put (path : List Bytes) (key value : Bytes)
  | delete (path : List Bytes) (key : Bytes)
  | createBucket (path : List Bytes) (key : Bytes)
  | deleteBucket (path : List Bytes) (key : Bytes) (reached : Bytes → Bool)

namespace Op

def path : Op → List Bytes
  | put path _ _ | delete path _ | createBucket path _ | deleteBucket path _ _ => path

def perform (tx : Transaction) (id : ℕ) : Op → DbResult Transaction
  | put _ key value => tx.put id key value
  | delete _ key => tx.delete id key
  | createBucket _ key => (tx.createBucket id key).map Prod.snd
  | deleteBucket _ key reached => tx.deleteBucket id reached key

def apply (tx : Transaction) (op : Op) : Transaction :=
  match tx.openBucket metadataBucketID op.path with
  | none => tx
  | some id => (op.perform tx id).toOption.getD tx

def onTree (t : NestedMap Bytes Bytes) : Op → NestedMap Bytes Bytes
  | put path key value =>
    if key = [] then t else (modify (.setValue key (some value)) path t).getD t
  | delete path key => if key = [] then t else (modify (.setValue key none) path t).getD t
  | createBucket path key =>
    if key = [] ∨ (t.find? (path ++ [key])).isSome then t
    else (modify (.setChild key (some .empty)) path t).getD t
  | deleteBucket path key _ =>
    if (t.find? (path ++ [key])).isSome then (modify (.setChild key none) path t).getD t
    else t

/-- The two names of the metadata bucket that are left to the database: the record of a pending
prune, and the index of blocks, whose number is fixed. -/
def LeavesOwn : Op → Prop
  | put path key _ => ¬ (path = [] ∧ key = pruneStateKeyName)
  | createBucket path key => ¬ (path = [] ∧ key = blockIdxBucketName)
  | _ => True

def creates (t : NestedMap Bytes Bytes) : Op → ℕ
  | createBucket path key =>
    if key ≠ [] ∧ (t.find? path).isSome ∧ (t.find? (path ++ [key])).isNone then 1 else 0
  | _ => 0

def created (t : NestedMap Bytes Bytes) : List Op → ℕ
  | [] => 0
  | op :: ops => op.creates t + created (op.onTree t) ops

end Op

/-- The transaction sees the tree, and does not store a record of a pending prune. -/
structure TxOk (tx : Transaction) (t : NestedMap Bytes Bytes) (c : ℕ) : Prop where
  writable : tx.writable = true
  wellFormed : WellFormed tx.fetchKey c
  models : Models tx.fetchKey t
  noPrune : tx.pending.keys.get pruneStateKey = none

section

variable {id : ℕ} {op : Op}

lemma Models.modify_eq (h : Models m t) (hp : resolve m 0 p = some i)
    (f : NestedMap Bytes Bytes → NestedMap Bytes Bytes) :
    ∃ t', modify f p t = some t' := by
  rw [← isSome_iff_exists, modify_isSome, ← h.bucket, hp]
  rfl

lemma noPrune_deleteLoop (reached : Bytes → Bool) : ∀ fuel (ids : List Bytes)
    {tx : Transaction}, tx.pending.keys.get pruneStateKey = none →
      (Transaction.deleteLoop reached fuel ids tx).2.pending.keys.get pruneStateKey = none
  | 0, _, _, h => h
  | _ + 1, [], _, h => h
  | fuel + 1, id :: ids, tx, h => by
    have hfold (l : List (Bytes × Bytes)) {tx : Transaction}
        (h : tx.pending.keys.get pruneStateKey = none) :
        (l.foldl (fun tx x => tx.deleteKey x.1) tx).pending.keys.get pruneStateKey = none := by
      refine foldlRecOn (motive := fun tx : Transaction => tx.pending.keys.get pruneStateKey = none)
        l _ h fun tx h x _ => ?_
      change (tx.pending.keys.erase x.1).get pruneStateKey = none
      rw [SortedMap.get_erase, h]
      split_ifs <;> rfl
    exact noPrune_deleteLoop reached fuel _ (hfold _ (hfold _ h))

section

variable (h : TxOk tx t c) (hp : resolve tx.fetchKey 0 p = some i)
include h hp

lemma TxOk.updateKey (hw : tx'.writable = true) (hf : tx'.fetchKey = update tx.fetchKey (bucketizedKey i k) v)
    (hprune : tx'.pending.keys.get pruneStateKey = none) :
    TxOk tx' ((modify (setValue k v) p t).getD t) c := by
  have hi := h.wellFormed.resolve_le p (Nat.zero_le c) hp
  obtain ⟨t', ht'⟩ := h.models.modify_eq hp (.setValue k v)
  rw [ht']
  refine ⟨hw, ?_, ?_, hprune⟩
  · rw [hf]
    exact h.wellFormed.updateKey hi k v
  · rw [hf]
    exact h.models.updateKey h.wellFormed hp k v ht'

lemma TxOk.put (hown : ¬ (p = [] ∧ k = pruneStateKeyName)) (hok : tx.put i k v = .ok tx') :
    TxOk tx' (Op.onTree t (.put p k v)) c := by
  obtain ⟨-, hok⟩ := dbFailIf_ok hok
  obtain ⟨hk, hok⟩ := dbFailIf_ok hok
  cases hok
  rw [Op.onTree, if_neg hk]
  refine h.updateKey hp h.writable (Transaction.fetchKey_putKey h.writable _ v) ?_
  change (tx.pending.keys.insert _ _).get pruneStateKey = none
  rw [SortedMap.get_insert_of_ne, h.noPrune]
  intro he
  obtain ⟨hi0, hk0⟩ := bucketizedKey_inj (by decide) (h.wellFormed.resolve_lt hp) he
  exact hown ⟨h.wellFormed.resolve_inj hp (hi0 ▸ rfl), hk0.symm⟩

lemma TxOk.delete (hok : tx.delete i k = .ok tx') : TxOk tx' (Op.onTree t (.delete p k)) c := by
  obtain ⟨-, hok⟩ := dbFailIf_ok hok
  by_cases hk : k = []
  · rw [if_pos hk] at hok
    cases hok
    rw [Op.onTree, if_pos hk]
    exact h
  rw [if_neg hk] at hok
  cases hok
  rw [Op.onTree, if_neg hk]
  refine h.updateKey hp h.writable (Transaction.fetchKey_deleteKey h.writable _) ?_
  change (tx.pending.keys.erase _).get pruneStateKey = none
  rw [SortedMap.get_erase, h.noPrune]
  split_ifs <;> rfl

end

lemma Models.row_eq_none (h : Models m t) (hp : resolve m 0 p = some i) :
    m (bucketIndexKey i n) = none ↔ ¬ (t.find? (p ++ [n])).isSome = true := by
  rw [← h.bucket, resolve_concat, hp, bind_some]
  cases m (bucketIndexKey i n) <;> simp

lemma TxOk.createBucket_new (h : TxOk tx t c) (hok : tx.createBucket i n = .ok (id, tx')) :
    n ≠ [] ∧ tx.fetchKey (bucketIndexKey i n) = none := by
  obtain ⟨-, hok⟩ := dbFailIf_ok hok
  obtain ⟨hn, hok⟩ := dbFailIf_ok hok
  obtain ⟨hhas, hok⟩ := dbFailIf_ok hok
  rw [Transaction.hasKey_eq h.writable] at hhas
  exact ⟨hn, by simpa using hhas⟩

section

variable (h : TxOk tx t c) (hp : resolve tx.fetchKey 0 p = some i)
include h hp

lemma TxOk.creates_eq (hok : tx.createBucket i n = .ok (id, tx')) : (Op.createBucket p n).creates t = 1 := by
  obtain ⟨hn, hnone⟩ := h.createBucket_new hok
  refine if_pos ⟨hn, ?_, ?_⟩
  · rw [← h.models.bucket, hp]
    rfl
  · simpa using (h.models.row_eq_none hp).1 hnone

lemma TxOk.createBucket (hc : c + 1 < firstClash) (hown : ¬ (p = [] ∧ n = blockIdxBucketName))
    (hok : tx.createBucket i n = .ok (id, tx')) :
    TxOk tx' (Op.onTree t (.createBucket p n)) (c + 1) := by
  obtain ⟨hn, hnone⟩ := h.createBucket_new hok
  obtain ⟨-, hok⟩ := dbFailIf_ok hok
  obtain ⟨-, hok⟩ := dbFailIf_ok hok
  obtain ⟨-, hok⟩ := dbFailIf_ok hok
  have hi := h.wellFormed.resolve_le p (Nat.zero_le c) hp
  have hreserved : ¬ (i = metadataBucketID ∧ n = blockIdxBucketName) := by
    rintro ⟨rfl, hn⟩
    exact hown ⟨h.wellFormed.resolve_inj hp rfl, hn⟩
  rw [if_neg hreserved, Transaction.nextBucketID, h.wellFormed.counter, getD_some,
    bigEndianUint32_idBytes (lt_of_lt_firstClash h.wellFormed.lt)] at hok
  have hmod : (c + 1) % 2 ^ 32 = c + 1 := Nat.mod_eq_of_lt (lt_of_lt_firstClash hc)
  have hok : Except.ok (c + 1, (tx.putKey curBucketIDKeyName (idBytes (c + 1))).putKey
      (bucketIndexKey i n) (idBytes (c + 1))) = (Except.ok (id, tx') : DbResult _) := by
    rw [← hok, ← hmod]
    rfl
  obtain ⟨-, rfl⟩ := hok
  obtain ⟨t', ht'⟩ := h.models.modify_eq hp (.setChild n (some .empty))
  have htree : ¬ (n = [] ∨ (t.find? (p ++ [n])).isSome = true) :=
    not_or.2 ⟨hn, (h.models.row_eq_none hp).1 hnone⟩
  rw [Op.onTree, if_neg htree, ht']
  have hf : ((tx.putKey curBucketIDKeyName (idBytes (c + 1))).putKey (bucketIndexKey i n)
      (idBytes (c + 1))).fetchKey = withBucket tx.fetchKey c i n := by
    have hput : (tx.putKey curBucketIDKeyName (idBytes (c + 1))).writable = true := h.writable
    rw [Transaction.fetchKey_putKey hput, Transaction.fetchKey_putKey h.writable, withBucket]
  refine ⟨h.writable, ?_, ?_, ?_⟩
  · rw [hf]
    exact h.wellFormed.withBucket hc hi hnone
  · rw [hf]
    exact h.models.withBucket h.wellFormed hc hp hnone ht'
  · have hne : pruneStateKey ≠ bucketIndexKey i n := bucketizedKey_ne_bucketIndexKey (by decide)
    have hne' : pruneStateKey ≠ curBucketIDKeyName := bucketizedKey_ne_curBucketID (by decide)
    change ((tx.pending.keys.insert _ _).insert _ _).get pruneStateKey = none
    rw [SortedMap.get_insert_of_ne hne, SortedMap.get_insert_of_ne hne', h.noPrune]

lemma TxOk.deleteBucket (hok : tx.deleteBucket i reached n = .ok tx') :
    TxOk tx' (Op.onTree t (.deleteBucket p n reached)) c := by
  obtain ⟨hw, hr⟩ := Transaction.deleteBucket_removed h.wellFormed h.writable hp hok
  obtain ⟨t', ht'⟩ := h.models.modify_eq hp (.setChild n none)
  obtain ⟨-, hok⟩ := dbFailIf_ok hok
  dsimp only at hok
  rcases hrow : tx.fetchKey (bucketIndexKey i n) with - | b
  · rw [hrow] at hok
    cases hok
  have hfind : (t.find? (p ++ [n])).isSome = true := by
    by_contra hf
    rw [(h.models.row_eq_none hp).2 hf] at hrow
    cases hrow
  rw [Op.onTree, if_pos hfind, ht']
  refine ⟨hw, h.wellFormed.removed hr hp, h.models.removed h.wellFormed hr hp ht', ?_⟩
  rw [hrow] at hok
  cases hok
  change (SortedMap.erase _ _).get pruneStateKey = none
  rw [SortedMap.get_erase, noPrune_deleteLoop reached _ _ h.noPrune]
  split_ifs <;> rfl

end

lemma TxOk.onTree_of_error (h : TxOk tx t c) (hp : resolve tx.fetchKey 0 op.path = some i)
    (he : op.perform tx i = .error e) : op.onTree t = t := by
  have hw : ¬ tx.writable = false := by simp [h.writable]
  cases op with
  | put path key value =>
    by_cases hk : key = []
    · rw [Op.onTree, if_pos hk]
    · rw [Op.perform, Transaction.put, dbFailIf, if_neg hw, dbFailIf, if_neg hk] at he
      cases he
  | delete path key =>
    rw [Op.perform, Transaction.delete, dbFailIf, if_neg hw] at he
    by_cases hk : key = []
    · rw [Op.onTree, if_pos hk]
    · rw [if_neg hk] at he
      cases he
  | createBucket path key =>
    change resolve tx.fetchKey 0 path = some i at hp
    refine if_pos ?_
    by_contra hnot
    rw [not_or, ← h.models.row_eq_none hp] at hnot
    have hhas : ¬ tx.hasKey (bucketIndexKey i key) = true := by
      simp [Transaction.hasKey_eq h.writable, hnot.2]
    rw [Op.perform, Transaction.createBucket, dbFailIf, if_neg hw, dbFailIf, if_neg hnot.1] at he
    dsimp only at he
    rw [dbFailIf, if_neg hhas, Transaction.nextBucketID, h.wellFormed.counter] at he
    by_cases hres : i = metadataBucketID ∧ key = blockIdxBucketName
    · rw [if_pos hres] at he
      cases he
    · rw [if_neg hres] at he
      cases he
  | deleteBucket path key reached =>
    change resolve tx.fetchKey 0 path = some i at hp
    refine if_neg ?_
    rw [← h.models.row_eq_none hp]
    rw [Op.perform, Transaction.deleteBucket, dbFailIf, if_neg hw] at he
    rcases hrow : tx.fetchKey (bucketIndexKey i key) with - | b
    · rfl
    · dsimp only at he
      rw [hrow] at he
      cases he

lemma onTree_of_none (h : t.find? op.path = none) : op.onTree t = t := by
  have hmod (f : NestedMap Bytes Bytes → NestedMap Bytes Bytes) :
      (modify f op.path t).getD t = t := by
    rw [modify_eq_none h]
    rfl
  cases op with
  | put path key value | delete path key => exact ite_eq_left_iff.2 fun _ => hmod _
  | createBucket path key => exact ite_eq_left_iff.2 fun _ => hmod _
  | deleteBucket path key reached => exact ite_eq_right_iff.2 fun _ => hmod _

lemma TxOk.apply (h : TxOk tx t c) (hown : op.LeavesOwn) (hc : c + op.creates t < firstClash) :
    ∃ c' ≤ c + op.creates t, TxOk (op.apply tx) (op.onTree t) c' := by
  rw [Op.apply, Transaction.openBucket_eq]
  change ∃ c' ≤ _, TxOk (match resolve tx.fetchKey 0 op.path with
    | none => tx
    | some id => (op.perform tx id).toOption.getD tx) _ _
  rcases hp : resolve tx.fetchKey 0 op.path with - | i
  · refine ⟨c, by omega, ?_⟩
    rw [onTree_of_none]
    · exact h
    · rw [← not_isSome_iff_eq_none, ← h.models.bucket, hp]
      exact Bool.false_ne_true
  change ∃ c' ≤ _, TxOk ((op.perform tx i).toOption.getD tx) _ _
  rcases he : op.perform tx i with e | tx'
  · refine ⟨c, by omega, ?_⟩
    rw [h.onTree_of_error hp he]
    exact h
  cases op with
  | put path key value => exact ⟨c, by omega, h.put hp hown he⟩
  | delete path key => exact ⟨c, by omega, h.delete hp he⟩
  | createBucket path key =>
    rcases hr : tx.createBucket i key with e | ⟨id, tx''⟩
    · rw [Op.perform, hr] at he
      cases he
    · rw [Op.perform, hr] at he
      cases he
      have hone : (Op.createBucket path key).creates t = 1 := h.creates_eq hp hr
      exact ⟨c + 1, by omega, h.createBucket hp (by omega) hown hr⟩
  | deleteBucket path key reached => exact ⟨c, by omega, h.deleteBucket hp he⟩

lemma TxOk.foldl_apply : ∀ ops {tx : Transaction} {t : NestedMap Bytes Bytes} {c : ℕ},
    TxOk tx t c → (∀ op ∈ ops, op.LeavesOwn) → c + Op.created t ops < firstClash →
      ∃ c' ≤ c + Op.created t ops, TxOk (ops.foldl Op.apply tx) (ops.foldl Op.onTree t) c'
  | [], _, _, c, h, _, _ => ⟨c, le_rfl, h⟩
  | op :: ops, tx, t, c, h, hown, hc => by
    rw [Op.created] at hc ⊢
    obtain ⟨hop, hops⟩ := forall_mem_cons.1 hown
    obtain ⟨c1, hc1, h1⟩ := h.apply hop (by omega)
    obtain ⟨c', hc', h'⟩ := TxOk.foldl_apply ops h1 hops (by omega)
    exact ⟨c', by omega, h'⟩

end

end Ffldb

end HandshakeNode
