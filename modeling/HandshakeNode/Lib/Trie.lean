import Mathlib.Algebra.Group.Nat.Defs
import Mathlib.Data.List.GetD
import Mathlib.Data.List.Infix

/-!
# Path-compressed binary tries

A trie over bit strings of one length. A leaf carries its whole key; a node carries the bits that
its two subtrees share below the path to it, and sends a key left or right by the next bit.

A trie that fits its path is determined by the key-value pairs it holds (`Trie.ext`), so any two
ways of building it from the same pairs give the same trie. `insert` overwrites one key and keeps
the rest (`mem_insert`).
-/

namespace BitTrie

open List

variable {V : Type*} {n : ℕ}

def matchLen : List Bool → List Bool → ℕ
  | a :: as, b :: bs => if a = b then matchLen as bs + 1 else 0
  | _, _ => 0

inductive Trie (V : Type*) where
  | leaf (key : List Bool) (val : V)
  | node (pre : List Bool) (left right : Trie V)

namespace Trie

def Mem : Trie V → List Bool → V → Prop
  | leaf k v, k', v' => k' = k ∧ v' = v
  | node _ l r, k', v' => l.Mem k' v' ∨ r.Mem k' v'

def Fits (n : ℕ) : List Bool → Trie V → Prop
  | p, leaf k _ => k.length = n ∧ p <+: k
  | p, node pre l r => l.Fits n (p ++ pre ++ [false]) ∧ r.Fits n (p ++ pre ++ [true])

def branch (pre : List Bool) (b : Bool) (x y : Trie V) : Trie V :=
  if b then node pre y x else node pre x y

/-- The subtree that the bit leads to. -/
def child (b : Bool) (l r : Trie V) : Trie V := if b then r else l

def insert (k : List Bool) (v : V) : Trie V → ℕ → Trie V
  | leaf k' v', d =>
    if k' = k then leaf k v
    else
      let m := matchLen (k'.drop d) (k.drop d)
      branch ((k'.drop d).take m) (k.getD (d + m) false) (leaf k v) (leaf k' v')
  | node pre l r, d =>
    let m := matchLen pre (k.drop d)
    if m ≠ pre.length then
      branch (pre.take m) (k.getD (d + m) false) (leaf k v) (node (pre.drop (m + 1)) l r)
    else if k.getD (d + m) false then node pre l (r.insert k v (d + m + 1))
    else node pre (l.insert k v (d + m + 1)) r

end Trie

lemma matchLen_le_left : ∀ as bs : List Bool, matchLen as bs ≤ as.length
  | [], _ | a :: as, [] => by simp [matchLen]
  | a :: as, b :: bs => by
    simp only [matchLen, length_cons]
    split_ifs
    · have := matchLen_le_left as bs
      omega
    · omega

lemma matchLen_comm : ∀ as bs : List Bool, matchLen as bs = matchLen bs as
  | [], [] => rfl
  | [], b :: bs => rfl
  | a :: as, [] => rfl
  | a :: as, b :: bs => by simp [matchLen, matchLen_comm as bs, eq_comm (a := a)]

lemma take_matchLen : ∀ as bs : List Bool, as.take (matchLen as bs) = bs.take (matchLen as bs)
  | [], _ | a :: as, [] => by simp [matchLen]
  | a :: as, b :: bs => by
    simp only [matchLen]
    split_ifs with h
    · simp [h, take_matchLen as bs]
    · rfl

lemma getD_matchLen_ne : ∀ {as bs : List Bool}, matchLen as bs < as.length →
    matchLen as bs < bs.length →
    as.getD (matchLen as bs) false = !bs.getD (matchLen as bs) false
  | [], _, h, _ | a :: as, [], _, h => by simp at h
  | a :: as, b :: bs, h, h' => by
    simp only [matchLen] at h h' ⊢
    split_ifs at h h' ⊢ with hab
    · simp only [length_cons, Nat.add_lt_add_iff_right] at h h'
      simpa only [getD_cons_succ] using getD_matchLen_ne h h'
    · cases a <;> simp_all

lemma matchLen_eq_length_iff : ∀ {as bs : List Bool}, matchLen as bs = as.length ↔ as <+: bs
  | [], bs | a :: as, [] => by simp [matchLen]
  | a :: as, b :: bs => by
    simp only [matchLen, length_cons]
    split_ifs with h
    · rw [Nat.add_right_cancel_iff, matchLen_eq_length_iff]
      simp [h]
    · simp [h]

lemma matchLen_take : ∀ {as bs : List Bool} {m : ℕ}, min as.length bs.length ≤ m →
    matchLen (as.take m) (bs.take m) = matchLen as bs
  | [], bs, m, _ => by simp [matchLen]
  | a :: as, [], m, _ => by cases m <;> simp [matchLen]
  | a :: as, b :: bs, 0, h => by simp at h
  | a :: as, b :: bs, m + 1, h => by
    simp only [length_cons, Nat.add_min_add_right, Nat.add_le_add_iff_right] at h
    simp [matchLen, matchLen_take h]

lemma prefix_snoc (h : p <+: k) (hlt : p.length < k.length) :
    p ++ [k.getD p.length false] <+: k := by
  obtain ⟨s, rfl⟩ := h
  cases s with
  | nil => simp at hlt
  | cons b s => exact ⟨s, by simp⟩

lemma prefix_take_drop (h : p <+: k) (m : ℕ) : p ++ (k.drop p.length).take m <+: k := by
  obtain ⟨s, rfl⟩ := h
  rw [drop_left, prefix_append_right_inj]
  exact take_prefix m s

lemma prefix_take_matchLen (h : p <+: k) (as : List Bool) :
    p ++ as.take (matchLen as (k.drop p.length)) <+: k := by
  rw [take_matchLen]
  exact prefix_take_drop h _

lemma prefix_next (h : p <+: k)
    (hm : matchLen pre (k.drop p.length) = pre.length) (hlt : p.length + pre.length < k.length) :
    p ++ pre ++ [k.getD (p.length + pre.length) false] <+: k := by
  have hpre := prefix_take_matchLen h pre
  rw [hm, take_length] at hpre
  have hnext := prefix_snoc hpre (by rwa [length_append])
  rwa [length_append] at hnext

namespace Trie

lemma length_of_fits : ∀ {t : Trie V} {p : List Bool}, t.Fits n p → p.length ≤ n
  | leaf k v, p, h => h.1 ▸ h.2.length_le
  | node pre l r, p, h => by
    have := length_of_fits h.1
    simp only [length_append] at this
    omega

@[elab_as_elim] lemma child_induction {motive : Trie V → Prop} (leaf : ∀ k v, motive (leaf k v))
    (node : ∀ pre l r, (∀ b, motive (child b l r)) → motive (node pre l r)) : ∀ t, motive t
  | .leaf k v => leaf k v
  | .node pre l r => node pre l r fun
    | false => child_induction leaf node l
    | true => child_induction leaf node r

variable {pre : List Bool} {t l r : Trie V}

lemma Fits.child (h : (node pre l r).Fits n p) : ∀ b, (child b l r).Fits n (p ++ pre ++ [b])
  | false => h.1
  | true => h.2

lemma mem_node (b : Bool) :
    (node pre l r).Mem k v ↔ (child b l r).Mem k v ∨ (child (!b) l r).Mem k v := by
  cases b
  · rfl
  · exact or_comm

lemma length_node_lt (h : (node pre l r).Fits n p) : p.length + pre.length < n := by
  have := length_of_fits h.1
  simp only [length_append, length_cons] at this
  omega

lemma exists_mem : ∀ t : Trie V, ∃ k v, t.Mem k v
  | leaf k v => ⟨k, v, rfl, rfl⟩
  | node _ l _ => by
    obtain ⟨k, v, h⟩ := exists_mem l
    exact ⟨k, v, .inl h⟩

variable {k : List Bool}

lemma of_mem : ∀ {t : Trie V} {p}, t.Fits n p → t.Mem k v →
    k.length = n ∧ p <+: k
  | leaf _ _, p, h, hm => by
    obtain ⟨rfl, -⟩ := hm
    exact h
  | node pre l r, p, h, hm => by
    have hcut : ∀ b, p ++ pre ++ [b] <+: k → p <+: k := fun b hb =>
      (prefix_append p (pre ++ [b])).trans (by rwa [← append_assoc])
    rcases hm with hm | hm
    · exact ⟨(of_mem h.1 hm).1, hcut _ (of_mem h.1 hm).2⟩
    · exact ⟨(of_mem h.2 hm).1, hcut _ (of_mem h.2 hm).2⟩

lemma bit_unique (h : q ++ [b] <+: k) (h' : q ++ [b'] <+: k) : b = b' := by
  have := (prefix_of_prefix_length_le h h' (by simp)).eq_of_length (by simp)
  simpa using this

/-! ## A trie is determined by its pairs -/

lemma prefix_of_mem (h : (node pre l r).Fits n p) (h' : (node pre' l' r').Fits n p)
    (hm : ∀ k v, (node pre l r).Mem k v → (node pre' l' r').Mem k v) : pre' <+: pre := by
  obtain ⟨kl, vl, hl⟩ := exists_mem l
  obtain ⟨kr, vr, hr⟩ := exists_mem r
  have hpl := (of_mem h.1 hl).2
  have hpr := (of_mem h.2 hr).2
  have hunder : ∀ k v, (node pre' l' r').Mem k v → p ++ pre' <+: k := by
    rintro k v (hk | hk)
    · exact (prefix_append _ _).trans (of_mem h'.1 hk).2
    · exact (prefix_append _ _).trans (of_mem h'.2 hk).2
  have hl' := hunder _ _ (hm kl vl (.inl hl))
  have hr' := hunder _ _ (hm kr vr (.inr hr))
  rw [← prefix_append_right_inj p]
  -- a longer common prefix of the two keys would start both ways after `p ++ pre`
  by_contra hnot
  have hlen : (p ++ pre).length < (p ++ pre').length := by
    by_contra hge
    exact hnot (prefix_of_prefix_length_le hl' ((prefix_append _ _).trans hpl) (by omega))
  have hfl := prefix_of_prefix_length_le hpl hl' (by simp at hlen ⊢; omega)
  have hfr := prefix_of_prefix_length_le hpr hr' (by simp at hlen ⊢; omega)
  cases bit_unique hfl hfr

lemma mem_child_iff (h : (node pre l r).Fits n p) (b : Bool) (k : List Bool) (v : V) :
    (child b l r).Mem k v ↔ (node pre l r).Mem k v ∧ p ++ pre ++ [b] <+: k := by
  rw [mem_node b]
  constructor
  · exact fun hk => ⟨.inl hk, (of_mem (h.child b) hk).2⟩
  · rintro ⟨hk | hk, hp⟩
    · exact hk
    · simpa using bit_unique hp (of_mem (h.child _) hk).2

lemma mem_node_iff (h : (node pre l r).Fits n p) (hk : p ++ pre ++ [b] <+: k) (v : V) :
    (node pre l r).Mem k v ↔ (child b l r).Mem k v := by
  rw [mem_child_iff h, and_iff_left hk]

lemma leaf_not_node (h : (node pre l r).Fits n p)
    (hm : ∀ k' v', (node pre l r).Mem k' v' → k' = k ∧ v' = v) : False := by
  obtain ⟨kl, vl, hl⟩ := exists_mem l
  obtain ⟨kr, vr, hr⟩ := exists_mem r
  have hkl := (hm kl vl (.inl hl)).1
  have hkr := (hm kr vr (.inr hr)).1
  subst hkl
  subst hkr
  cases bit_unique (of_mem h.1 hl).2 (of_mem h.2 hr).2

lemma ext : ∀ {t t' : Trie V} {p : List Bool}, t.Fits n p → t'.Fits n p →
    (∀ k v, t.Mem k v ↔ t'.Mem k v) → t = t'
  | leaf k v, leaf k' v', p, _, _, hm => by
    obtain ⟨rfl, rfl⟩ := (hm k v).1 ⟨rfl, rfl⟩
    rfl
  | leaf k v, node pre l r, p, _, h', hm =>
    (leaf_not_node h' fun k' v' hk => (hm k' v').2 hk).elim
  | node pre l r, leaf k v, p, h, _, hm =>
    (leaf_not_node h fun k' v' hk => (hm k' v').1 hk).elim
  | node pre l r, node pre' l' r', p, h, h', hm => by
    have h1 := prefix_of_mem h h' fun k v => (hm k v).1
    have h2 := prefix_of_mem h' h fun k v => (hm k v).2
    obtain rfl : pre = pre' := h2.eq_of_length (le_antisymm h2.length_le h1.length_le)
    have hside : ∀ b k v, (child b l r).Mem k v ↔ (child b l' r').Mem k v := fun b k v => by
      rw [mem_child_iff h, mem_child_iff h', hm]
    rw [ext h.1 h'.1 (hside false), ext h.2 h'.2 (hside true)]

lemma fits_branch (hx : x.Fits n (p ++ pre ++ [b])) (hy : y.Fits n (p ++ pre ++ [!b])) :
    (branch pre b x y).Fits n p := by
  cases b
  · exact ⟨hx, hy⟩
  · exact ⟨hy, hx⟩

lemma mem_branch : (branch pre b x y).Mem k v ↔ x.Mem k v ∨ y.Mem k v := by
  cases b
  · rfl
  · exact or_comm

lemma split_leaf (hk : k.length = n) (hp : p <+: k) (hf : (leaf k' v' : Trie V).Fits n p)
    (hne : k' ≠ k) : matchLen (k'.drop p.length) (k.drop p.length) < (k'.drop p.length).length := by
  refine lt_of_le_of_ne (matchLen_le_left _ _) fun h => hne ?_
  obtain ⟨s', rfl⟩ := hf.2
  obtain ⟨s, rfl⟩ := hp
  rw [drop_left, drop_left, matchLen_eq_length_iff] at h
  have hlen : s'.length = s.length := by
    have := hf.1
    simp only [length_append] at hk this
    omega
  rw [h.eq_of_length hlen]

lemma getD_drop (k : List Bool) (d m : ℕ) : (k.drop d).getD m false = k.getD (d + m) false := by
  rw [getD_eq_getElem?_getD, getD_eq_getElem?_getD, List.getElem?_drop]

lemma not_mem_of_matchLen_ne (hf : (node pre l r).Fits n p) (hp : p <+: k)
    (hne : matchLen pre (k.drop p.length) ≠ pre.length) (v : V) : ¬ (node pre l r).Mem k v := by
  have hnot : ¬ p ++ pre <+: k := by
    intro h
    apply hne
    obtain ⟨s, rfl⟩ := hp
    rw [prefix_append_right_inj] at h
    rw [drop_left, matchLen_eq_length_iff]
    exact h
  rintro (hm | hm)
  · exact hnot ((prefix_append _ _).trans (of_mem hf.1 hm).2)
  · exact hnot ((prefix_append _ _).trans (of_mem hf.2 hm).2)

lemma split_path (hf : (node pre l r).Fits k.length p)
    (hne : matchLen pre (k.drop p.length) ≠ pre.length) :
    p ++ pre.take (matchLen pre (k.drop p.length)) ++
        [!k.getD (p.length + matchLen pre (k.drop p.length)) false] ++
      pre.drop (matchLen pre (k.drop p.length) + 1) = p ++ pre := by
  have hpre := length_node_lt hf
  have hlt : matchLen pre (k.drop p.length) < pre.length :=
    lt_of_le_of_ne (matchLen_le_left _ _) hne
  have hd := getD_matchLen_ne hlt (by rw [length_drop]; omega)
  rw [getD_drop] at hd
  rw [← hd, getD_eq_getElem _ _ hlt, append_assoc, append_assoc,
    singleton_append, getElem_cons_drop, take_append_drop]

lemma insert_node (hm : matchLen pre (k.drop d) = pre.length)
    (hb : k.getD (d + pre.length) false = b) : (node pre l r).insert k v d =
      branch pre b ((child b l r).insert k v (d + pre.length + 1)) (child (!b) l r) := by
  simp only [insert, hm, hb, ne_eq, not_true_eq_false, if_false]
  cases b <;> rfl

lemma fits_insert (hk : k.length = n) (hf : t.Fits n p) (hp : p <+: k) :
    (t.insert k v p.length).Fits n p := by
  induction t using child_induction generalizing p with
  | leaf k' v' =>
    unfold insert
    split_ifs with heq
    · exact ⟨hk, hp⟩
    have hlt := split_leaf hk hp hf heq
    set m := matchLen (k'.drop p.length) (k.drop p.length) with hm
    have hpm : (p ++ (k'.drop p.length).take m).length = p.length + m := by
      simp only [length_append, length_take] at hlt ⊢
      omega
    have hd := getD_matchLen_ne hlt (by
      simp only [length_drop, hf.1, hk] at hlt ⊢
      exact hlt)
    rw [getD_drop, getD_drop] at hd
    rw [length_drop, hf.1] at hlt
    apply fits_branch
    · refine ⟨hk, ?_⟩
      have hnext := prefix_snoc (prefix_take_matchLen hp (k'.drop p.length)) (by rw [← hm]; omega)
      rwa [hpm] at hnext
    · refine ⟨hf.1, ?_⟩
      have hnext := prefix_snoc (prefix_take_drop hf.2 m) (by rw [hf.1]; omega)
      rwa [hpm, hd] at hnext
  | node pre l r ih =>
    have hpre := length_node_lt hf
    by_cases hm : matchLen pre (k.drop p.length) = pre.length
    · have hnext := prefix_next hp hm (by omega)
      rw [insert_node hm rfl]
      refine fits_branch ?_ (hf.child _)
      have ih := ih _ (hf.child _) hnext
      simpa only [length_append, length_cons, length_nil] using ih
    · rw [insert, if_pos hm]
      have hle := matchLen_le_left pre (k.drop p.length)
      have hpm : (p ++ pre.take (matchLen pre (k.drop p.length))).length =
          p.length + matchLen pre (k.drop p.length) := by
        simp only [length_append, length_take]
        omega
      apply fits_branch
      · have hnext := prefix_snoc (prefix_take_matchLen hp pre) (by omega)
        exact ⟨hk, by rwa [hpm] at hnext⟩
      · have hpath := split_path (hk ▸ hf) hm
        exact ⟨by rw [hpath]; exact hf.1, by rw [hpath]; exact hf.2⟩

lemma mem_insert (hk : k.length = n) (hf : t.Fits n p) (hp : p <+: k) (k' : List Bool) (v' : V) :
    (t.insert k v p.length).Mem k' v' ↔ k' = k ∧ v' = v ∨ k' ≠ k ∧ t.Mem k' v' := by
  induction t using child_induction generalizing p with
  | leaf k0 v0 =>
    unfold insert
    split_ifs with heq
    · subst heq
      simp only [Mem]
      tauto
    · simp only [mem_branch]
      constructor
      · rintro (h | ⟨rfl, rfl⟩)
        · exact .inl h
        · exact .inr ⟨heq, rfl, rfl⟩
      · tauto
  | node pre l r ih =>
    have hpre := length_node_lt hf
    by_cases hm : matchLen pre (k.drop p.length) = pre.length
    · have hnext := prefix_next hp hm (by omega)
      generalize hb : k.getD (p.length + pre.length) false = b at hnext
      have ih := ih b (hf.child b) hnext
      -- the other side does not hold the key
      have hother : (child (!b) l r).Mem k' v' → k' ≠ k := by
        rintro h rfl
        simpa using bit_unique hnext (of_mem (hf.child _) h).2
      simp only [length_append, length_cons, length_nil] at ih
      rw [insert_node hm hb, mem_branch, ih, mem_node b]
      tauto
    · have hnot := not_mem_of_matchLen_ne hf hp hm v'
      rw [insert, if_pos hm, mem_branch]
      constructor
      · rintro (h | h)
        · exact .inl h
        · refine .inr ⟨?_, h⟩
          rintro rfl
          exact hnot h
      · exact Or.imp_right And.right

end Trie

end BitTrie
