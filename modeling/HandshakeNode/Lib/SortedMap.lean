import Mathlib.Data.List.Lex
import Mathlib.Order.Lattice

/-!
# Sorted maps and cursors over them

A sorted map is a list of pairs in ascending key order, each key once. A cursor over one stands at
a pair or nowhere, and each of its calls is a search for the first pair, from one end or the other,
whose key lies on the right side. `find?_overlay` is what merging needs: the first pair of an
overlay is the earlier of the first pairs of its two layers.
-/

namespace SortedMaps

open List

section

variable {α : Type*} {r : α → α → Prop}

lemma rel_or_rel_of_pairwise :
    ∀ {l : List α}, l.Pairwise r → x ∈ l → y ∈ l → x ≠ y → r x y ∨ r y x
  | a :: l, h, hx, hy, hne => by
    obtain ⟨ha, hl⟩ := pairwise_cons.1 h
    rcases mem_cons.1 hx with rfl | hxl <;> rcases mem_cons.1 hy with rfl | hyl
    · exact absurd rfl hne
    · exact .inl (ha y hyl)
    · exact .inr (ha x hxl)
    · exact rel_or_rel_of_pairwise hl hxl hyl hne

lemma find?_eq_some_iff (hr : ∀ x y, r x y → ¬ r y x) : ∀ {l : List α}, l.Pairwise r →
      (l.find? p = some x ↔ x ∈ l ∧ p x = true ∧ ∀ y ∈ l, p y = true → y = x ∨ r x y)
  | [], _ => by simp
  | a :: l, h => by
    obtain ⟨ha, hl⟩ := pairwise_cons.1 h
    by_cases hp : p a = true
    · rw [find?_cons_of_pos hp, Option.some.injEq]
      constructor
      · rintro rfl
        refine ⟨mem_cons_self, hp, fun y hy _ => ?_⟩
        rcases mem_cons.1 hy with rfl | hy
        · exact .inl rfl
        · exact .inr (ha y hy)
      · rintro ⟨hx, -, hmin⟩
        rcases hmin a mem_cons_self hp with h | h
        · exact h
        · rcases mem_cons.1 hx with rfl | hx
          · rfl
          · exact absurd (ha x hx) (hr _ _ h)
    · rw [find?_cons_of_neg hp, find?_eq_some_iff hr hl]
      constructor
      · rintro ⟨hx, hpx, hmin⟩
        refine ⟨mem_cons_of_mem _ hx, hpx, fun y hy hpy => ?_⟩
        rcases mem_cons.1 hy with rfl | hy
        · exact absurd hpy hp
        · exact hmin y hy hpy
      · rintro ⟨hx, hpx, hmin⟩
        rcases mem_cons.1 hx with rfl | hx
        · exact absurd hpx hp
        · exact ⟨hx, hpx, fun y hy => hmin y (mem_cons_of_mem _ hy)⟩

def firstOf (r : α → α → Prop) [DecidableRel r] : Option α → Option α → Option α
  | none, b => b
  | some x, none => some x
  | some x, some y => if r x y then some x else some y

variable [DecidableRel r]

/-- The first qualifying element of an overlay is the earlier of those of the upper layer and of
what still shows of the lower one. -/
theorem find?_overlay (hr : ∀ x y, r x y → ¬ r y x) (htrans : ∀ x y z, r x y → r y z → r x z)
    {l l1 l2 : List α} {q : α → Bool} (hl : l.Pairwise r) (hl1 : l1.Pairwise r)
    (hl2 : l2.Pairwise r) (hmem : ∀ x, x ∈ l ↔ x ∈ l1 ∨ x ∈ l2 ∧ q x = true) :
    l.find? p = firstOf r (l1.find? p) (l2.find? fun x => p x && q x) := by
  rcases h1 : l1.find? p with - | x <;> rcases h2 : l2.find? (fun x => p x && q x) with - | y
  · rw [firstOf]
    rw [find?_eq_none] at h1 h2 ⊢
    intro x hx hpx
    rcases (hmem x).1 hx with h | ⟨h, hq⟩
    · exact h1 x h hpx
    · exact h2 x h (by simp [hpx, hq])
  · rw [firstOf, find?_eq_some_iff hr hl]
    rw [find?_eq_none] at h1
    obtain ⟨hy, hpq, hmin⟩ := (find?_eq_some_iff hr hl2).1 h2
    rw [Bool.and_eq_true] at hpq
    refine ⟨(hmem y).2 (.inr ⟨hy, hpq.2⟩), hpq.1, fun z hz hpz => ?_⟩
    rcases (hmem z).1 hz with h | ⟨h, hq⟩
    · exact absurd hpz (h1 z h)
    · exact hmin z h (by simp [hpz, hq])
  · rw [firstOf, find?_eq_some_iff hr hl]
    rw [find?_eq_none] at h2
    obtain ⟨hx, hp, hmin⟩ := (find?_eq_some_iff hr hl1).1 h1
    refine ⟨(hmem x).2 (.inl hx), hp, fun z hz hpz => ?_⟩
    rcases (hmem z).1 hz with h | ⟨h, hq⟩
    · exact hmin z h hpz
    · exact absurd (by simp [hpz, hq]) (h2 z h)
  · obtain ⟨hx, hp, hminx⟩ := (find?_eq_some_iff hr hl1).1 h1
    obtain ⟨hy, hpq, hminy⟩ := (find?_eq_some_iff hr hl2).1 h2
    rw [Bool.and_eq_true] at hpq
    have hxl := (hmem x).2 (.inl hx)
    have hyl := (hmem y).2 (.inr ⟨hy, hpq.2⟩)
    rw [firstOf]
    split_ifs with hxy
    · rw [find?_eq_some_iff hr hl]
      refine ⟨hxl, hp, fun z hz hpz => ?_⟩
      rcases (hmem z).1 hz with h | ⟨h, hq⟩
      · exact hminx z h hpz
      · rcases hminy z h (by simp [hpz, hq]) with rfl | hyz
        · exact .inr hxy
        · exact .inr (htrans _ _ _ hxy hyz)
    · rw [find?_eq_some_iff hr hl]
      refine ⟨hyl, hpq.1, fun z hz hpz => ?_⟩
      rcases (hmem z).1 hz with h | ⟨h, hq⟩
      · by_cases hxe : x = y
        · rw [hxe] at hminx
          exact hminx z h hpz
        · have hyx : r y x := (rel_or_rel_of_pairwise hl hxl hyl hxe).resolve_left hxy
          rcases hminx z h hpz with rfl | hxz
          · exact .inr hyx
          · exact .inr (htrans _ _ _ hyx hxz)
      · exact hminy z h (by simp [hpz, hq])

end

structure SortedMap (K V : Type*) [LinearOrder K] where
  items : List (K × V)
  sorted : items.Pairwise fun x y => x.1 < y.1

namespace SortedMap

variable {K V : Type*} [LinearOrder K] {x : K × V}

def empty : SortedMap K V := ⟨[], List.Pairwise.nil⟩

variable (m : SortedMap K V)

def has (k : K) : Bool := m.items.any fun x => x.1 = k

def get (k : K) : Option V := (m.items.find? fun x => x.1 = k).map Prod.snd

def filter (p : K → Bool) : SortedMap K V :=
  ⟨m.items.filter fun x => p x.1, m.sorted.filter _⟩

def insertItem (k : K) (v : V) : List (K × V) → List (K × V)
  | [] => [(k, v)]
  | x :: l =>
    if k < x.1 then (k, v) :: x :: l
    else if k = x.1 then (k, v) :: l
    else x :: insertItem k v l

lemma mem_insertItem : ∀ {l : List (K × V)}, l.Pairwise (fun x y => x.1 < y.1) →
      (x ∈ insertItem k v l ↔ x = (k, v) ∨ x ∈ l ∧ x.1 ≠ k)
  | [], _ => by simp [insertItem]
  | y :: l, h => by
    obtain ⟨hy, hl⟩ := pairwise_cons.1 h
    rw [insertItem]
    split_ifs with hlt heq
    · have hne : ∀ z ∈ y :: l, z.1 ≠ k := by
        intro z hz hzk
        rcases mem_cons.1 hz with rfl | hz
        · exact hlt.ne' hzk
        · exact (hlt.trans (hy z hz)).ne' hzk
      constructor
      · intro hx
        rcases mem_cons.1 hx with rfl | hx
        · exact .inl rfl
        · exact .inr ⟨hx, hne x hx⟩
      · rintro (rfl | ⟨hx, -⟩)
        · exact mem_cons_self
        · exact mem_cons_of_mem _ hx
    · constructor
      · intro hx
        rcases mem_cons.1 hx with rfl | hx
        · exact .inl rfl
        · exact .inr ⟨mem_cons_of_mem _ hx, heq ▸ (hy x hx).ne'⟩
      · rintro (rfl | ⟨hx, hne⟩)
        · exact mem_cons_self
        · rcases mem_cons.1 hx with rfl | hx
          · exact absurd heq.symm hne
          · exact mem_cons_of_mem _ hx
    · rw [mem_cons, mem_insertItem hl, mem_cons]
      constructor
      · rintro (rfl | rfl | ⟨hx, hne⟩)
        · exact .inr ⟨.inl rfl, fun h => heq h.symm⟩
        · exact .inl rfl
        · exact .inr ⟨.inr hx, hne⟩
      · rintro (rfl | ⟨rfl | hx, hne⟩)
        · exact .inr (.inl rfl)
        · exact .inl rfl
        · exact .inr (.inr ⟨hx, hne⟩)

lemma pairwise_insertItem : ∀ {l : List (K × V)}, l.Pairwise (fun x y => x.1 < y.1) →
      (insertItem k v l).Pairwise fun x y => x.1 < y.1
  | [], _ => by simp [insertItem]
  | y :: l, h => by
    obtain ⟨hy, hl⟩ := pairwise_cons.1 h
    rw [insertItem]
    split_ifs with hlt heq
    · refine pairwise_cons.2 ⟨fun z hz => ?_, h⟩
      rcases mem_cons.1 hz with rfl | hz
      · exact hlt
      · exact hlt.trans (hy z hz)
    · exact pairwise_cons.2 ⟨fun z hz => heq ▸ hy z hz, hl⟩
    · refine pairwise_cons.2 ⟨fun z hz => ?_, pairwise_insertItem hl⟩
      rcases (mem_insertItem hl).1 hz with rfl | ⟨hz, -⟩
      · exact lt_of_le_of_ne (not_lt.1 hlt) (fun h => heq h.symm)
      · exact hy z hz

def insert (k : K) (v : V) : SortedMap K V :=
  ⟨insertItem k v m.items, pairwise_insertItem m.sorted⟩

def erase (k : K) : SortedMap K V := m.filter fun k' => k' ≠ k

variable {m u : SortedMap K V} {k k' : K} {v : V}

lemma get_eq_some : m.get k = some v ↔ (k, v) ∈ m.items := by
  have hr : ∀ x y : K × V, x.1 < y.1 → ¬ y.1 < x.1 := fun _ _ h => h.not_gt
  rw [get, Option.map_eq_some_iff]
  constructor
  · rintro ⟨x, hx, rfl⟩
    obtain ⟨hmem, hk, -⟩ := (find?_eq_some_iff hr m.sorted).1 hx
    rw [← of_decide_eq_true hk]
    exact hmem
  · intro hmem
    refine ⟨(k, v), (find?_eq_some_iff hr m.sorted).2 ⟨hmem, by simp, fun y hy hyk => ?_⟩, rfl⟩
    by_contra hne
    have hyk : y.1 = k := of_decide_eq_true hyk
    rcases rel_or_rel_of_pairwise m.sorted hy hmem (fun h => hne (.inl h)) with h | h
    · exact h.ne hyk
    · exact h.ne' hyk

lemma has_eq_isSome : m.has k = (m.get k).isSome := by
  rw [Bool.eq_iff_iff, has, any_eq_true, Option.isSome_iff_exists]
  constructor
  · rintro ⟨x, hx, hk⟩
    exact ⟨x.2, get_eq_some.2 (of_decide_eq_true hk ▸ hx)⟩
  · rintro ⟨v, hv⟩
    exact ⟨(k, v), get_eq_some.1 hv, by simp⟩

lemma mem_filter : x ∈ (m.filter p).items ↔ x ∈ m.items ∧ p x.1 = true := by
  simp [filter]

@[simp] lemma get_empty : (empty : SortedMap K V).get k = none := rfl

@[simp] lemma get_filter (p : K → Bool) :
    (m.filter p).get k = if p k = true then m.get k else none := by
  ext v
  rw [get_eq_some, mem_filter]
  split_ifs with h
  · simp [h, get_eq_some]
  · simp [h]

lemma get_insert : (m.insert k v).get k' = if k' = k then some v else m.get k' := by
  ext w
  rw [get_eq_some, insert, mem_insertItem m.sorted]
  split_ifs with h
  · subst h
    simp [eq_comm]
  · simp [h, get_eq_some]

lemma get_insert_of_ne (h : k' ≠ k) : (m.insert k v).get k' = m.get k' := by
  simp [get_insert, h]

lemma get_erase : (m.erase k).get k' = if k' = k then none else m.get k' := by
  rw [erase]
  by_cases h : k' = k <;> simp

def insertAll (m u : SortedMap K V) : SortedMap K V :=
  u.items.foldl (fun m x => m.insert x.1 x.2) m

def eraseAll (m u : SortedMap K V) : SortedMap K V := u.items.foldl (fun m x => m.erase x.1) m

lemma get_foldl_insert : ∀ (l : List (K × V)) (m : SortedMap K V),
    l.Pairwise (fun x y => x.1 < y.1) →
      (l.foldl (fun m x => m.insert x.1 x.2) m).get k =
        ((l.find? fun x => x.1 = k).map Prod.snd).or (m.get k)
  | [], m, _ => by simp
  | x :: l, m, h => by
    obtain ⟨hx, hl⟩ := pairwise_cons.1 h
    rw [foldl_cons, get_foldl_insert l _ hl, get_insert]
    by_cases hk : x.1 = k
    · subst hk
      have hnone : l.find? (fun y => y.1 = x.1) = none := by
        rw [find?_eq_none]
        exact fun y hy hyx => (hx y hy).ne' (of_decide_eq_true hyx)
      simp [hnone]
    · rw [find?_cons_of_neg (by simpa using hk), if_neg (Ne.symm hk)]

lemma get_insertAll : (m.insertAll u).get k = (u.get k).or (m.get k) :=
  get_foldl_insert u.items m u.sorted

lemma get_foldl_erase : ∀ (l : List (K × V)) (m : SortedMap K V),
    (l.foldl (fun m x => m.erase x.1) m).get k =
      if l.any (fun x => x.1 = k) then none else m.get k
  | [], m => by simp
  | x :: l, m => by
    rw [foldl_cons, get_foldl_erase l, get_erase, any_cons]
    by_cases hx : x.1 = k
    · simp [hx]
    · rw [decide_eq_false hx, Bool.false_or, if_neg (Ne.symm hx)]

lemma get_eraseAll : (m.eraseAll u).get k = if u.has k then none else m.get k :=
  get_foldl_erase u.items m

lemma has_insert : (m.insert k v).has k' = true ↔ k' = k ∨ m.has k' = true := by
  rw [has_eq_isSome, has_eq_isSome, get_insert]
  split_ifs with h <;> simp [h]

lemma has_erase : (m.erase k).has k' = true ↔ k' ≠ k ∧ m.has k' = true := by
  rw [has_eq_isSome, has_eq_isSome, get_erase]
  split_ifs with h <;> simp [h]

lemma has_insertAll : (m.insertAll u).has k = (u.has k || m.has k) := by
  rw [has_eq_isSome, has_eq_isSome, has_eq_isSome, get_insertAll]
  cases u.get k <;> rfl

lemma has_eraseAll : (m.eraseAll u).has k = (!u.has k && m.has k) := by
  rw [has_eq_isSome, get_eraseAll, has_eq_isSome (m := m)]
  cases u.has k <;> rfl

def overlay (upper lower : SortedMap K V) (hidden : K → Bool) : SortedMap K V :=
  (lower.filter fun k => !hidden k).insertAll upper

lemma get_overlay {hidden : K → Bool} :
    (overlay upper lower hidden).get k =
      (upper.get k).or (if hidden k = true then none else lower.get k) := by
  rw [overlay, get_insertAll, get_filter]
  cases hidden k <;> rfl

lemma mem_overlay {hidden : K → Bool} : x ∈ (overlay upper lower hidden).items ↔
      x ∈ upper.items ∨ x ∈ lower.items ∧ (!hidden x.1 && !upper.has x.1) = true := by
  obtain ⟨k, v⟩ := x
  rw [← get_eq_some, ← get_eq_some, ← get_eq_some, get_overlay, has_eq_isSome]
  rcases upper.get k with - | w
  · cases hidden k <;> simp
  · simp

def inOrder (forwards : Bool) : List (K × V) :=
  if forwards then m.items else m.items.reverse

def search (forwards : Bool) (p : K → Bool) : Option (K × V) :=
  (m.inOrder forwards).find? fun x => p x.1

end SortedMap

def Before {K : Type*} [LinearOrder K] (forwards : Bool) (k k' : K) : Prop :=
  if forwards then k < k' else k' < k

section

variable {K V : Type*} [LinearOrder K] {forwards : Bool} {k k' k'' : K}

instance : DecidableRel (Before forwards : K → K → Prop) := fun k k' =>
  inferInstanceAs (Decidable (if forwards = true then k < k' else k' < k))

lemma Before.not_symm (h : Before forwards k k') : ¬ Before forwards k' k := by
  cases forwards <;> exact not_lt.2 (le_of_lt h)

lemma Before.trans (h : Before forwards k k') (h' : Before forwards k' k'') :
    Before forwards k k'' := by
  cases forwards
  · exact (show k'' < k' from h').trans h
  · exact (show k < k' from h).trans h'

lemma Before.irrefl : ¬ Before forwards k k := fun h => h.not_symm h

variable {m : SortedMap K V} {p : K → Bool}

lemma SortedMap.mem_inOrder : x ∈ m.inOrder forwards ↔ x ∈ m.items := by
  unfold inOrder
  split_ifs
  · rfl
  · exact mem_reverse

lemma SortedMap.pairwise_inOrder :
    (m.inOrder forwards).Pairwise fun x y => Before forwards x.1 y.1 := by
  cases forwards
  · exact pairwise_reverse.2 m.sorted
  · exact m.sorted

lemma SortedMap.search_eq_some : m.search forwards p = some x ↔ x ∈ m.items ∧ p x.1 = true ∧
        ∀ y ∈ m.items, p y.1 = true → y = x ∨ Before forwards x.1 y.1 := by
  rw [search, find?_eq_some_iff (fun _ _ h => h.not_symm) pairwise_inOrder]
  simp [mem_inOrder]

lemma SortedMap.search_eq_none : m.search forwards p = none ↔ ∀ x ∈ m.items, ¬ p x.1 = true := by
  rw [search]
  simp [mem_inOrder]

lemma SortedMap.search_congr (h : ∀ x ∈ m.items, p x.1 = q x.1) :
    m.search forwards p = m.search forwards q := by
  ext x
  rw [search_eq_some, search_eq_some]
  constructor
  · rintro ⟨hx, hp, hmin⟩
    exact ⟨hx, h x hx ▸ hp, fun y hy hq => hmin y hy (h y hy ▸ hq)⟩
  · rintro ⟨hx, hp, hmin⟩
    exact ⟨hx, h x hx ▸ hp, fun y hy hq => hmin y hy (h y hy ▸ hq)⟩

lemma SortedMap.search_layers {upper lower : SortedMap K V} {q : K → Bool}
    (h : ∀ x, x ∈ m.items ↔ x ∈ upper.items ∨ x ∈ lower.items ∧ q x.1 = true) :
    m.search forwards p = firstOf (fun x y => Before forwards x.1 y.1) (upper.search forwards p)
        (lower.search forwards fun k => p k && q k) :=
  find?_overlay (fun _ _ h => h.not_symm) (fun _ _ _ h h' => h.trans h') pairwise_inOrder
    pairwise_inOrder pairwise_inOrder fun x => by
      rw [mem_inOrder, mem_inOrder, mem_inOrder, h]

end

structure Iter (K V : Type*) [LinearOrder K] where
  map : SortedMap K V
  cur : Option (K × V)

namespace Iter

variable {K V : Type*} [LinearOrder K]

def new (m : SortedMap K V) : Iter K V := ⟨m, none⟩

variable (it : Iter K V)

def valid : Bool := it.cur.isSome

def first : Iter K V := { it with cur := it.map.search true fun _ => true }

def last : Iter K V := { it with cur := it.map.search false fun _ => true }

def seek (k : K) : Iter K V :=
  { it with cur := it.map.search true fun k' => k ≤ k' }

/-- Moves on by one pair; a cursor that stands nowhere stays there. -/
def move (forwards : Bool) : Iter K V :=
  match it.cur with
  | none => it
  | some x => { it with cur := it.map.search forwards fun k => Before forwards x.1 k }

def next : Iter K V := it.move true

def prev : Iter K V := it.move false

end Iter

end SortedMaps
