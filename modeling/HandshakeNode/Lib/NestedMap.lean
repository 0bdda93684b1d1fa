import Mathlib.Logic.Function.Basic

/-!
# Nested maps

A node maps keys to values and, apart from that, names to nodes below it. A node is addressed by the
names on the way to it, and a change at a node leaves what the other nodes hold as it was.
-/

inductive NestedMap (K V : Type*) where
  | node (value : K → Option V) (child : K → Option (NestedMap K V))

namespace NestedMap

open Function Option

variable {K V : Type*}

def empty : NestedMap K V := node (fun _ => none) fun _ => none

def value : NestedMap K V → K → Option V
  | node v _ => v

def child : NestedMap K V → K → Option (NestedMap K V)
  | node _ c => c

def find? (t : NestedMap K V) : List K → Option (NestedMap K V)
  | [] => some t
  | n :: p => (t.child n).bind (·.find? p)

lemma find?_append : ∀ (p q : List K) {t : NestedMap K V},
    t.find? (p ++ q) = (t.find? p).bind (·.find? q)
  | [], _, _ => rfl
  | n :: p, q, t => by
    rw [List.cons_append, find?, find?]
    cases t.child n with
    | none => rfl
    | some b => exact find?_append p q

def entry (t : NestedMap K V) (p : List K) (k : K) : Option V := (t.find? p).bind (·.value k)

lemma entry_congr {t t' : NestedMap K V} (h : (t'.find? p).map value = (t.find? p).map value) :
    (t'.find? p).isSome = (t.find? p).isSome ∧ t'.entry p = t.entry p := by
  unfold entry
  rcases ht : t.find? p with - | b <;> rcases ht' : t'.find? p with - | b' <;> rw [ht, ht'] at h
  · exact ⟨rfl, rfl⟩
  · cases h
  · cases h
  · rw [map_some, map_some, Option.some.injEq] at h
    refine ⟨rfl, ?_⟩
    funext k
    rw [bind_some, bind_some, h]

variable [DecidableEq K]

def setValue (k : K) (v : Option V) : NestedMap K V → NestedMap K V
  | node vals c => node (update vals k v) c

def setChild (n : K) (b : Option (NestedMap K V)) : NestedMap K V → NestedMap K V
  | node vals c => node vals (update c n b)

def modify (f : NestedMap K V → NestedMap K V) : List K → NestedMap K V → Option (NestedMap K V)
  | [], t => some (f t)
  | n :: p, t => (t.child n).bind fun b => (modify f p b).map fun b' => t.setChild n (some b')

variable {f : NestedMap K V → NestedMap K V} {t t' : NestedMap K V} {p q r : List K} {k n : K}

@[simp] lemma value_setValue (v : Option V) : (t.setValue k v).value = update t.value k v := by
  cases t
  rfl

@[simp] lemma child_setValue (v : Option V) : (t.setValue k v).child = t.child := by
  cases t
  rfl

@[simp] lemma value_setChild (b : Option (NestedMap K V)) : (t.setChild n b).value = t.value := by
  cases t
  rfl

@[simp] lemma child_setChild (b : Option (NestedMap K V)) :
    (t.setChild n b).child = update t.child n b := by
  cases t
  rfl

lemma modify_isSome : ∀ {p : List K} {t : NestedMap K V},
    (modify f p t).isSome = (t.find? p).isSome
  | [], t => rfl
  | n :: p, t => by
    rw [modify, find?]
    rcases t.child n with - | b
    · rfl
    · rw [bind_some, bind_some, isSome_map, modify_isSome]

lemma modify_eq_none (h : t.find? p = none) : modify f p t = none := by
  rw [← not_isSome_iff_eq_none, modify_isSome, h]
  exact Bool.false_ne_true

lemma find?_modify_append : ∀ {p : List K} {t t' : NestedMap K V}, modify f p t = some t' →
    t'.find? (p ++ r) = (t.find? p).bind fun b => (f b).find? r
  | [], t, t', h => by
    cases h
    rfl
  | n :: p, t, t', h => by
    rw [modify, bind_eq_some_iff] at h
    obtain ⟨b, hb, h⟩ := h
    obtain ⟨b', hb', rfl⟩ := map_eq_some_iff.1 h
    rw [List.cons_append, find?, find?, child_setChild, update_self, hb,
      bind_some, bind_some, find?_modify_append hb']

lemma find?_modify_of_not_below : ∀ {p q : List K} {t t' : NestedMap K V},
    modify f p t = some t' → ¬ p <+: q → (t'.find? q).map value = (t.find? q).map value
  | [], q, t, t', _, hq => absurd (List.nil_prefix) hq
  | n :: p, [], t, t', h, _ => by
    rw [modify, bind_eq_some_iff] at h
    obtain ⟨b, hb, h⟩ := h
    obtain ⟨b', hb', rfl⟩ := map_eq_some_iff.1 h
    simp [find?]
  | n :: p, m :: q, t, t', h, hq => by
    rw [modify, bind_eq_some_iff] at h
    obtain ⟨b, hb, h⟩ := h
    obtain ⟨b', hb', rfl⟩ := map_eq_some_iff.1 h
    rw [find?, find?, child_setChild]
    by_cases hm : m = n
    · subst hm
      rw [update_self, hb]
      exact find?_modify_of_not_below hb' fun h => hq (List.cons_prefix_cons.2 ⟨rfl, h⟩)
    · rw [update_of_ne hm]

lemma modify_setValue {v : Option V} (h : modify (setValue k v) p t = some t') (q : List K) :
    (t'.find? q).isSome = (t.find? q).isSome ∧
      ∀ k', t'.entry q k' = if q = p ∧ k' = k then v else t.entry q k' := by
  by_cases hq : p <+: q
  · obtain ⟨r, rfl⟩ := hq
    obtain ⟨b, hb⟩ : ∃ b, t.find? p = some b := by
      rw [← isSome_iff_exists, ← modify_isSome (f := setValue k v), h]
      rfl
    have hfind' := find?_modify_append (r := r) h
    rw [hb, bind_some] at hfind'
    have hfind : t.find? (p ++ r) = b.find? r := by
      rw [find?_append, hb, bind_some]
    unfold entry
    rw [hfind', hfind]
    cases r with
    | nil =>
      refine ⟨rfl, fun k' => ?_⟩
      rw [find?, find?, bind_some, value_setValue, update_apply]
      simp
    | cons n r =>
      rw [find?, find?, child_setValue]
      refine ⟨rfl, fun k' => ?_⟩
      rw [if_neg (fun he => by simpa using he.1)]
  · obtain ⟨hsome, hentry⟩ := entry_congr (find?_modify_of_not_below h hq)
    refine ⟨hsome, fun k' => ?_⟩
    rw [hentry, if_neg]
    rintro ⟨rfl, -⟩
    exact hq (List.prefix_rfl)

lemma modify_setChild_below (h : modify (setChild n b) p t = some t') (r : List K) :
    t'.find? (p ++ n :: r) = b.bind (·.find? r) := by
  obtain ⟨a, ha⟩ : ∃ a, t.find? p = some a := by
    rw [← isSome_iff_exists, ← modify_isSome (f := setChild n b), h]
    rfl
  rw [find?_modify_append h, ha, bind_some, find?, child_setChild, update_self]

lemma modify_setChild_off {b : Option (NestedMap K V)}
    (h : modify (setChild n b) p t = some t') {q : List K} (hq : ¬ p ++ [n] <+: q) :
    (t'.find? q).isSome = (t.find? q).isSome ∧ t'.entry q = t.entry q := by
  refine entry_congr ?_
  by_cases hpq : p <+: q
  · obtain ⟨r, rfl⟩ := hpq
    obtain ⟨a, ha⟩ : ∃ a, t.find? p = some a := by
      rw [← isSome_iff_exists, ← modify_isSome (f := setChild n b), h]
      rfl
    rw [find?_modify_append h, find?_append, ha, bind_some, bind_some]
    cases r with
    | nil => simp [find?]
    | cons n' r =>
      have hn : n' ≠ n := by
        rintro rfl
        exact hq ⟨r, by simp⟩
      rw [find?, find?, child_setChild, update_of_ne hn]
  · exact find?_modify_of_not_below h hpq

end NestedMap
