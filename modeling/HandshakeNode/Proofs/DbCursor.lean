import HandshakeNode.DbCursor
import Mathlib.Data.List.Count

/-!
# Cursors over merged keys

A merged cursor that has been walked in one direction since it was positioned stands where a
single cursor over the merged map stands: the iterator of each layer is at the first of its keys
that has not been passed, and the nearer one of the two is current. A step the other way moves only
the current iterator, which leaves the other one on the wrong side of it. The main results are
`cursor_walks_merged_keys` and `prev_after_next_goes_on`.
-/

namespace HandshakeNode

open List

namespace Ffldb

open SortedMaps

inductive Call (K : Type) where
  | first
  | last
  | seek (k : K)
  | next
  | prev
deriving DecidableEq, Repr

section

variable {K V : Type} [LinearOrder K]

def MergedIter.call (c : MergedIter K V) : Call K → Bool × MergedIter K V
  | .first => c.first
  | .last => c.last
  | .seek k => c.seek k
  | .next => c.next
  | .prev => c.prev

def iterCall (it : Iter K V) : Call K → Bool × Iter K V
  | .first => (it.first.valid, it.first)
  | .last => (it.last.valid, it.last)
  | .seek k => ((it.seek k).valid, it.seek k)
  | .next => (it.next.valid, it.next)
  | .prev => (it.prev.valid, it.prev)

def MergedIter.trace (c : MergedIter K V) : List (Call K) → List (Bool × Option (K × V))
  | [] => []
  | a :: as => ((c.call a).1, (c.call a).2.current) :: (c.call a).2.trace as

def iterTrace (it : Iter K V) : List (Call K) → List (Bool × Option (K × V))
  | [] => []
  | a :: as => ((iterCall it a).1, (iterCall it a).2.cur) :: iterTrace (iterCall it a).2 as

/-- No step goes against the direction since the last positioning, if there was one: `First` and
`Seek` set out forwards and `Last` backwards. -/
def oneWay : Option Bool → List (Call K) → Bool
  | _, [] => true
  | _, .first :: as | _, .seek _ :: as => oneWay (some true) as
  | _, .last :: as => oneWay (some false) as
  | d, .next :: as => d ≠ some false && oneWay d as
  | d, .prev :: as => d ≠ some true && oneWay d as

end

section

variable {K : Type} [LinearOrder K] {m : SortedMap K V} {f : Bool} {p q : K → Bool}

def Onward (f : Bool) (p : K → Bool) : Prop := ∀ k k', p k = true → Before f k k' → p k' = true

lemma onward_before (f : Bool) (k : K) : Onward f fun k' => decide (Before f k k') :=
  fun _ _ h h' => decide_eq_true ((of_decide_eq_true h).trans h')

lemma onward_true (f : Bool) : Onward f fun _ : K => true := fun _ _ _ _ => rfl

lemma onward_le (k : K) : Onward true fun k' => decide (k ≤ k') := by
  intro k1 k2 h h'
  exact decide_eq_true ((of_decide_eq_true h).trans (le_of_lt (show k1 < k2 from h')))

lemma search_past (hp : Onward f p) (hx : m.search f p = some x) (hq : q x.1 = false) :
    m.search f (fun k => p k && q k) = m.search f fun k => decide (Before f x.1 k) && q k := by
  obtain ⟨-, hpx, hmin⟩ := SortedMap.search_eq_some.1 hx
  refine SortedMap.search_congr fun y hy => ?_
  by_cases hqy : q y.1 = true
  · rw [hqy, Bool.and_true, Bool.and_true, Bool.eq_iff_iff, decide_eq_true_iff]
    constructor
    · intro hpy
      rcases hmin y hy hpy with rfl | h
      · rw [hq] at hqy
        cases hqy
      · exact h
    · exact hp x.1 y.1 hpx
  · rw [Bool.eq_false_iff.2 hqy, Bool.and_false, Bool.and_false]

lemma countP_past (hp : Onward f p) (hx : m.search f p = some x) :
    m.items.countP (fun y => decide (Before f x.1 y.1)) < m.items.countP fun y => p y.1 := by
  obtain ⟨hmem, hpx, -⟩ := SortedMap.search_eq_some.1 hx
  have heq : m.items.countP (fun y => decide (Before f x.1 y.1)) =
      (m.items.filter fun y => p y.1).countP fun y => decide (Before f x.1 y.1) := by
    rw [countP_filter]
    refine countP_congr fun y _ => ?_
    simp only [decide_eq_true_eq, Bool.and_eq_true]
    exact ⟨fun h => ⟨h, hp x.1 y.1 hpx h⟩, And.left⟩
  rw [heq, countP_eq_length_filter (p := fun y : K × V => p y.1), countP_lt_length_iff]
  exact ⟨x, mem_filter.2 ⟨hmem, hpx⟩, by simp [Before.irrefl]⟩

end

namespace MergedIter

variable {K V : Type} [LinearOrder K] {c : MergedIter K V} {m : SortedMap K V} {f : Bool}
  {p : K → Bool} {x : K × V} {it : Iter K V} {d : Option Bool}

lemma skipLoop_eq {skips : K → Bool} :
    ∀ n {p : K → Bool} {it : Iter K V}, Onward f p → it.cur = it.map.search f p →
      it.map.items.countP (fun x => p x.1) ≤ n →
        skipLoop skips f n it = { it with cur := it.map.search f fun k => p k && !skips k }
  | 0, p, ⟨m, cur⟩, hp, hcur, hn => by
    have hnone : ∀ x ∈ m.items, ¬ p x.1 = true := by
      simpa using hn
    have h : m.search f (fun k => p k && !skips k) = none :=
      SortedMap.search_eq_none.2 fun x hx h => hnone x hx (Bool.and_eq_true _ _ ▸ h).1
    simp only [skipLoop, h]
    rw [show cur = none from hcur.trans (SortedMap.search_eq_none.2 hnone)]
  | n + 1, p, ⟨m, cur⟩, hp, hcur, hn => by
    dsimp only at hcur hn
    subst hcur
    rcases hx : m.search f p with - | x
    · have h : m.search f (fun k => p k && !skips k) = none :=
        SortedMap.search_eq_none.2 fun x hm h =>
          SortedMap.search_eq_none.1 hx x hm (Bool.and_eq_true _ _ ▸ h).1
      simp [skipLoop, h]
    · obtain ⟨hmem, hpx, hmin⟩ := SortedMap.search_eq_some.1 hx
      simp only [skipLoop]
      split_ifs with hskip
      · -- the pairs still ahead no longer include the skipped one
        have hlt := countP_past hp hx
        rw [search_past hp hx (q := fun k => !skips k) (by simp [hskip])]
        exact skipLoop_eq n (onward_before f x.1) rfl (by simp only [Iter.move]; omega)
      · congr 1
        symm
        refine SortedMap.search_eq_some.2 ⟨hmem, by simp [hpx, hskip], fun y hy h => ?_⟩
        exact hmin y hy (Bool.and_eq_true _ _ ▸ h).1

structure Shows (c : MergedIter K V) (m : SortedMap K V) : Prop where
  mem : ∀ x, x ∈ m.items ↔
    x ∈ c.pendingIter.map.items ∨ x ∈ c.dbIter.map.items ∧ (!c.skips x.1) = true
  skips : ∀ x ∈ c.pendingIter.map.items, c.skips x.1 = true

/-- Where the iterators stand when the cursor has been walked in one direction, and what is left to
walk is where `p` holds. -/
structure Standing (c : MergedIter K V) (m : SortedMap K V) (f : Bool) (p : K → Bool) : Prop where
  shows : c.Shows m
  onward : Onward f p
  db : c.dbIter.cur = c.dbIter.map.search f fun k => p k && !c.skips k
  pending : c.pendingIter.cur = c.pendingIter.map.search f p
  current : c.current = m.search f p
  valid : c.currentIter.isSome = c.current.isSome

/-- `chooseIterator` when the pending iterator is at the first pair ahead, and the database
iterator at the first one once the skipped keys are passed. -/
theorem chooseIterator_eq (hm : c.Shows m) (hp : Onward f p)
    (hdb : skipLoop c.skips f c.dbIter.map.items.length c.dbIter =
      { c.dbIter with cur := c.dbIter.map.search f fun k => p k && !c.skips k })
    (hpending : c.pendingIter.cur = c.pendingIter.map.search f p) :
    (c.chooseIterator f).1 = (m.search f p).isSome ∧ (c.chooseIterator f).2.Standing m f p := by
  have hm' : m.search f p = firstOf (fun x y => Before f x.1 y.1) (c.pendingIter.map.search f p)
      (c.dbIter.map.search f fun k => p k && !c.skips k) :=
    SortedMap.search_layers (q := fun k => !c.skips k) hm.mem
  have hskipped : c.skipPendingUpdates f = { c with
      dbIter := { c.dbIter with cur := c.dbIter.map.search f fun k => p k && !c.skips k } } := by
    rw [skipPendingUpdates, hdb]
  rw [← hpending] at hm'
  unfold chooseIterator
  rw [hskipped]
  dsimp only
  rcases hx : c.dbIter.map.search f (fun k => p k && !c.skips k) with - | x <;>
    rcases hy : c.pendingIter.cur with - | y <;> rw [hx, hy, firstOf] at hm'
  · rw [hm']
    exact ⟨rfl, ⟨hm.mem, hm.skips⟩, hp, hx.symm, hpending, hm'.symm, rfl⟩
  · rw [hm']
    exact ⟨rfl, ⟨hm.mem, hm.skips⟩, hp, hx.symm, hpending, hy.trans hm'.symm, by simp [current, hy]⟩
  · rw [hm']
    exact ⟨rfl, ⟨hm.mem, hm.skips⟩, hp, hx.symm, hpending, hm'.symm, rfl⟩
  · have hcmp : (f && decide (y.1 < x.1) || !f && decide (x.1 < y.1)) = true ↔
        Before f y.1 x.1 := by
      cases f <;> simp [Before]
    dsimp only
    by_cases hyx : Before f y.1 x.1
    · rw [if_pos (hcmp.2 hyx)]
      rw [if_pos hyx] at hm'
      rw [hm']
      exact ⟨rfl, ⟨hm.mem, hm.skips⟩, hp, hx.symm, hpending, hy.trans hm'.symm, by simp [current, hy]⟩
    · rw [if_neg (mt hcmp.1 hyx)]
      rw [if_neg hyx] at hm'
      rw [hm']
      exact ⟨rfl, ⟨hm.mem, hm.skips⟩, hp, hx.symm, hpending, hm'.symm, rfl⟩

lemma Shows.reposition (hm : c.Shows m) (hp : Onward f p)
    (hdb : c.dbIter.cur = c.dbIter.map.search f p)
    (hpending : c.pendingIter.cur = c.pendingIter.map.search f p) :
    (c.chooseIterator f).1 = (m.search f p).isSome ∧ (c.chooseIterator f).2.Standing m f p :=
  chooseIterator_eq hm hp (skipLoop_eq _ hp hdb countP_le_length) hpending

lemma skipLoop_of_visible {skips : K → Bool} (h : ∀ x, it.cur = some x → skips x.1 = false) :
    ∀ n, skipLoop skips f n it = it
  | 0 => rfl
  | n + 1 => by
    unfold skipLoop
    split
    · rfl
    · rename_i x hx
      rw [if_neg (by simp [h x hx])]

lemma Standing.skips_eq_false (h : c.Standing m f p) (hx : c.dbIter.cur = some x) :
    c.skips x.1 = false := by
  have hx := (SortedMap.search_eq_some.1 (h.db.symm.trans hx)).2.1
  rw [Bool.and_eq_true, Bool.not_eq_true'] at hx
  exact hx.2

lemma Standing.move (h : c.Standing m f p) (hx : m.search f p = some x) :
    (c.move f).1 = (m.search f fun k => decide (Before f x.1 k)).isSome ∧
      (c.move f).2.Standing m f fun k => decide (Before f x.1 k) := by
  obtain ⟨hmem, hpx, hmin⟩ := SortedMap.search_eq_some.1 hx
  have hcur : c.current = some x := h.current.trans hx
  have hahead : ∀ y ∈ m.items, y ≠ x → p y.1 = decide (Before f x.1 y.1) := by
    intro y hy hne
    rw [Bool.eq_iff_iff, decide_eq_true_iff]
    exact ⟨fun hpy => (hmin y hy hpy).resolve_left hne, h.onward x.1 y.1 hpx⟩
  rcases hi : c.currentIter with - | - | -
  · have := h.valid
    rw [hi, hcur] at this
    cases this
  · have hdb : c.dbIter.cur = some x := by rw [← hcur, MergedIter.current, hi]
    have hskip : c.skips x.1 = false := h.skips_eq_false hdb
    have hpending : c.pendingIter.cur =
        c.pendingIter.map.search f fun k => decide (Before f x.1 k) := by
      rw [h.pending]
      refine SortedMap.search_congr fun y hy => hahead y ((h.shows.mem y).2 (.inl hy)) ?_
      rintro rfl
      rw [h.shows.skips y hy] at hskip
      cases hskip
    have hmove : c.move f = { c with dbIter := { c.dbIter with
        cur := c.dbIter.map.search f fun k => decide (Before f x.1 k) } }.chooseIterator f := by
      rw [MergedIter.move, hi]
      rw [Iter.move, hdb]
    rw [hmove]
    exact Shows.reposition ⟨h.shows.mem, h.shows.skips⟩ (onward_before f x.1) rfl hpending
  · have hpending : c.pendingIter.cur = some x := by rw [← hcur, MergedIter.current, hi]
    have hskip : c.skips x.1 = true := h.shows.skips x
      (SortedMap.search_eq_some.1 (h.pending.symm.trans hpending)).1
    have hdb : c.dbIter.cur =
        c.dbIter.map.search f fun k => decide (Before f x.1 k) && !c.skips k := by
      rw [h.db]
      refine SortedMap.search_congr fun y hy => ?_
      by_cases hs : c.skips y.1 = true
      · simp [hs]
      · have hy' := (h.shows.mem y).2 (.inr ⟨hy, by simp [hs]⟩)
        rw [hahead y hy' (fun he => hs (he ▸ hskip))]
    have hmove : c.move f = { c with pendingIter := { c.pendingIter with
        cur := c.pendingIter.map.search f fun k => decide (Before f x.1 k) } }.chooseIterator f := by
      rw [MergedIter.move, hi]
      dsimp only
      rw [Iter.move, hpending]
    rw [hmove]
    refine chooseIterator_eq ⟨h.shows.mem, h.shows.skips⟩ (onward_before f x.1) ?_ rfl
    refine (skipLoop_of_visible (fun y hy => h.skips_eq_false hy) _).trans ?_
    change c.dbIter = { c.dbIter with
      cur := c.dbIter.map.search f fun k => decide (Before f x.1 k) && !c.skips k }
    rw [← hdb]
/-- A merged cursor and a single one, walked in the same direction. -/
inductive Walks (m : SortedMap K V) : Option Bool → MergedIter K V → Iter K V → Prop
  | new {c : MergedIter K V} (hm : c.Shows m) (hc : c.currentIter = none) : Walks m none c (.new m)
  | walk {c : MergedIter K V} {f : Bool} {p : K → Bool} (h : c.Standing m f p) :
    Walks m (some f) c ⟨m, m.search f p⟩

section

variable (h : Walks m d c it)
include h

lemma Walks.map_eq : it.map = m := by
  cases h <;> rfl

lemma Walks.shows : c.Shows m := by
  cases h with
  | new hm _ => exact hm
  | walk h => exact h.shows

lemma Walks.current_eq : c.current = it.cur := by
  cases h with
  | new _ hc => rw [MergedIter.current, hc]; rfl
  | walk h => exact h.current

lemma Walks.first : c.first.1 = it.first.valid ∧ Walks m (some true) c.first.2 it.first := by
  obtain ⟨hb, hs⟩ := Shows.reposition (c := { c with
    dbIter := c.dbIter.first, pendingIter := c.pendingIter.first })
    ⟨h.shows.mem, h.shows.skips⟩ (onward_true true) rfl rfl
  rw [Iter.first, h.map_eq]
  exact ⟨hb, .walk hs⟩

lemma Walks.last : c.last.1 = it.last.valid ∧ Walks m (some false) c.last.2 it.last := by
  obtain ⟨hb, hs⟩ := Shows.reposition (c := { c with
    dbIter := c.dbIter.last, pendingIter := c.pendingIter.last })
    ⟨h.shows.mem, h.shows.skips⟩ (onward_true false) rfl rfl
  rw [Iter.last, h.map_eq]
  exact ⟨hb, .walk hs⟩

lemma Walks.seek (k : K) :
    (c.seek k).1 = (it.seek k).valid ∧ Walks m (some true) (c.seek k).2 (it.seek k) := by
  obtain ⟨hb, hs⟩ := Shows.reposition (c := { c with
    dbIter := c.dbIter.seek k, pendingIter := c.pendingIter.seek k })
    ⟨h.shows.mem, h.shows.skips⟩ (onward_le k) rfl rfl
  rw [Iter.seek, h.map_eq]
  exact ⟨hb, .walk hs⟩

lemma Walks.move (hd : d ≠ some !f) :
    (c.move f).1 = (it.move f).valid ∧ Walks m d (c.move f).2 (it.move f) := by
  cases h with
  | new hm hc =>
    rw [MergedIter.move, hc]
    exact ⟨rfl, .new hm hc⟩
  | @walk _ g p h =>
    obtain rfl : g = f := by cases f <;> simp_all
    rcases hx : m.search g p with - | x
    · have hc : c.currentIter = none := by
        rw [← Option.isNone_iff_eq_none, ← Option.not_isSome, h.valid, h.current, hx]
        rfl
      have hw : Walks m (some g) c ⟨m, none⟩ := by
        rw [← hx]
        exact .walk h
      rw [MergedIter.move, hc]
      exact ⟨rfl, hw⟩
    · obtain ⟨hb, hs⟩ := h.move hx
      exact ⟨hb, .walk hs⟩

end

lemma Walks.trace_eq : ∀ as {d : Option Bool} {c : MergedIter K V}
    {it : Iter K V}, Walks m d c it → oneWay d as = true → c.trace as = iterTrace it as
  | [], _, _, _, _, _ => rfl
  | a :: as, d, c, it, h, hway => by
    have hstep : ∃ d', oneWay d' as = true ∧ (c.call a).1 = (iterCall it a).1 ∧
        Walks m d' (c.call a).2 (iterCall it a).2 := by
      cases a with
      | first => exact ⟨_, hway, h.first⟩
      | last => exact ⟨_, hway, h.last⟩
      | seek k => exact ⟨_, hway, h.seek k⟩
      | next | prev =>
        rw [oneWay, Bool.and_eq_true, decide_eq_true_iff] at hway
        exact ⟨_, hway.2, h.move hway.1⟩
    obtain ⟨d', hway', hb, hw⟩ := hstep
    rw [trace, iterTrace, hb, hw.current_eq, hw.trace_eq as hway']

lemma walks_new {pendingKeys pendingRemove : SortedMap K V} :
    Walks ((SortedMap.overlay pendingKeys stored pendingRemove.has).filter inRange) none
      ⟨pendingKeys, pendingRemove, .new (stored.filter inRange),
        .new (pendingKeys.filter inRange), none⟩
      (.new ((SortedMap.overlay pendingKeys stored pendingRemove.has).filter inRange)) := by
  refine .new ⟨fun x => ?_, fun x hx => ?_⟩ rfl
  · rw [SortedMap.mem_filter, SortedMap.mem_overlay, Iter.new, Iter.new, SortedMap.mem_filter,
      SortedMap.mem_filter, skips, Bool.not_or]
    tauto
  · have hx := (SortedMap.mem_filter.1 hx).1
    have hhas : pendingKeys.has x.1 = true := any_eq_true.2 ⟨x, hx, by simp⟩
    simp [skips, hhas]

end MergedIter

/-! ### The two cursors -/

def Cursor.callOf (c : Cursor) : Call Bytes → Bool × Cursor
  | .first => c.first
  | .last => c.last
  | .seek k => c.seek k
  | .next => c.next
  | .prev => c.prev

def Cursor.trace (c : Cursor) : List (Call Bytes) → List (Bool × Option Bytes × Option Bytes)
  | [] => []
  | a :: as =>
    ((c.callOf a).1, (c.callOf a).2.key, (c.callOf a).2.value) :: (c.callOf a).2.trace as

/-- The call on the keys of the database that a call on the keys of a bucket makes. -/
def Call.inBucket (bucketID : Bytes) : Call Bytes → Call Bytes
  | .seek k => .seek (bucketID ++ k)
  | a => a

/-- The key and the value of a pair as a bucket shows them: a nested bucket has no value. -/
def shownInBucket (bucketID : Bytes) (r : Bool × Option (Bytes × Bytes)) :
    Bool × Option Bytes × Option Bytes :=
  (r.1, r.2.map fun x => Cursor.keyName bucketID x.1,
    r.2.bind fun x => if hasPrefix bucketIndexPrefix x.1 then none else some x.2)

lemma oneWay_inBucket (bucketID : Bytes) : ∀ d (as : List (Call Bytes)),
    oneWay d (as.map (Call.inBucket bucketID)) = oneWay d as
  | _, [] => rfl
  | _, .first :: as | _, .last :: as | _, .seek _ :: as => oneWay_inBucket bucketID _ as
  | d, .next :: as | d, .prev :: as => by
    rw [map_cons, Call.inBucket, oneWay, oneWay, oneWay_inBucket bucketID d as]
    all_goals simp

lemma Cursor.trace_eq : ∀ as {c : Cursor}, c.closed = false →
    c.trace as = (c.iter.trace (as.map (Call.inBucket c.bucketID))).map (shownInBucket c.bucketID)
  | [], _, _ => rfl
  | a :: as, c, hc => by
    have hcall : c.callOf a = ((c.iter.call (a.inBucket c.bucketID)).1,
        { c with iter := (c.iter.call (a.inBucket c.bucketID)).2 }) := by
      cases a <;>
        simp only [Cursor.callOf, Cursor.first, Cursor.last, Cursor.seek, Cursor.next, Cursor.prev,
          Cursor.call, hc, Bool.false_eq_true, if_false, Call.inBucket, MergedIter.call]
    rw [Cursor.trace, hcall]
    have htail := Cursor.trace_eq as
      (c := ⟨c.closed, c.bucketID, (c.iter.call (a.inBucket c.bucketID)).2⟩) hc
    congr 1
    simp only [Cursor.key, Cursor.value, hc]
    cases (c.iter.call (a.inBucket c.bucketID)).2.current <;> rfl

def storedKeys : SortedMap Bytes Bytes :=
  ⟨[([0, 0, 0, 0, 1], [1]), ([0, 0, 0, 0, 3], [3])], by decide +kernel⟩

def writtenKey : SortedMap Bytes Bytes := ⟨[([0, 0, 0, 0, 2], [2])], by decide +kernel⟩

/-- Three keys of the metadata bucket, the middle one written by the transaction: after `First` and
`Next`, `Prev` goes on to the third key instead of back to the first. -/
theorem prev_after_next_goes_on :
    (Cursor.newCursor storedKeys writtenKey .empty [0, 0, 0, 0] .ctFull).trace
        [.first, .next, .prev] =
      [(true, some [1], some [1]), (true, some [2], some [2]), (true, some [3], some [3])] ∧
    (iterTrace (.new ((SortedMap.overlay writtenKey storedKeys fun _ => false).filter
        (CursorType.ctFull.inRange [0, 0, 0, 0]))) [.first, .next, .prev]).map
        (shownInBucket [0, 0, 0, 0]) =
      [(true, some [1], some [1]), (true, some [2], some [2]), (true, some [1], some [1])] := by
  decide +kernel

/-- Walked in one direction from each positioning, a cursor and a `dbCacheIterator` return and show
what a single cursor over the merged keys does. -/
theorem cursor_walks_merged_keys (stored pendingKeys pendingRemove : SortedMap Bytes Bytes)
    (inRange : Bytes → Bool) (bucketID : Bytes) (cursorTyp : CursorType)
    (calls : List (Call Bytes)) (hway : oneWay none calls = true) :
    (newDbCacheIterator stored pendingKeys pendingRemove inRange).trace calls =
      iterTrace (.new ((SortedMap.overlay pendingKeys stored pendingRemove.has).filter inRange))
        calls ∧
    (Cursor.newCursor stored pendingKeys pendingRemove bucketID cursorTyp).trace calls =
      (iterTrace (.new ((SortedMap.overlay pendingKeys stored pendingRemove.has).filter
        (cursorTyp.inRange bucketID))) (calls.map (Call.inBucket bucketID))).map
          (shownInBucket bucketID) := by
  refine ⟨MergedIter.walks_new.trace_eq calls hway, ?_⟩
  rw [Cursor.trace_eq calls rfl]
  exact congrArg _
    (MergedIter.walks_new.trace_eq _ ((oneWay_inBucket bucketID none calls).trans hway))

theorem cursor_walks_merged_keys_there_and_back :
    (Cursor.newCursor storedKeys writtenKey .empty [0, 0, 0, 0] .ctFull).trace
        [.first, .next, .next, .last, .prev] =
      [(true, some [1], some [1]), (true, some [2], some [2]), (true, some [3], some [3]),
        (true, some [3], some [3]), (true, some [2], some [2])] :=
  (cursor_walks_merged_keys storedKeys writtenKey .empty (fun _ => true) [0, 0, 0, 0] .ctFull
    [.first, .next, .next, .last, .prev] (by decide)).2.trans (by decide +kernel)

end Ffldb

end HandshakeNode
