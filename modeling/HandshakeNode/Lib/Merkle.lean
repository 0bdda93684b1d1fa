import Mathlib.Data.Set.Function

/-!
# Merkle trees

A list is folded into a tree level by level: neighbours are joined, and the last of an odd number is
joined with an empty tree. The leaves of the tree are the list, so a hash of trees that has no
collision among the strings that it is given for two trees tells their lists apart.
-/

namespace Merkle

open List

universe u

inductive Tree (β : Type u) where
  | empty
  | leaf (b : β)
  | node (left right : Tree β)

inductive Shape (β α : Type u) where
  | empty
  | leaf (b : β)
  | node (left right : α)

variable {α β : Type u}

namespace Tree

def leaves : Tree β → List β
  | .empty => []
  | .leaf b => [b]
  | .node l r => l.leaves ++ r.leaves

section

variable (f : Shape β α → α)

def hash : Tree β → α
  | .empty => f .empty
  | .leaf b => f (.leaf b)
  | .node l r => f (.node l.hash r.hash)

def shapes : Tree β → List (Shape β α)
  | .empty => [.empty]
  | .leaf b => [.leaf b]
  | .node l r => .node (l.hash f) (r.hash f) :: (l.shapes ++ r.shapes)

end

variable {f : Shape β α → α} {S : Set (Shape β α)}

lemma hash_injOn (hf : S.InjOn f) : ∀ {t u : Tree β}, (∀ s ∈ t.shapes f, s ∈ S) →
    (∀ s ∈ u.shapes f, s ∈ S) → t.hash f = u.hash f → t = u := by
  intro t
  induction t with
  | empty =>
    rintro (_ | b | ⟨l, r⟩) ht hu h
    · rfl
    · cases hf (ht _ (by simp [shapes])) (hu _ (by simp [shapes])) h
    · cases hf (ht _ (by simp [shapes])) (hu _ (by simp [shapes])) h
  | leaf a =>
    rintro (_ | b | ⟨l, r⟩) ht hu h
    · cases hf (ht _ (by simp [shapes])) (hu _ (by simp [shapes])) h
    · cases hf (ht _ (by simp [shapes])) (hu _ (by simp [shapes])) h
      rfl
    · cases hf (ht _ (by simp [shapes])) (hu _ (by simp [shapes])) h
  | node l r ihl ihr =>
    rintro (_ | b | ⟨l', r'⟩) ht hu h
    · cases hf (ht _ (by simp [shapes])) (hu _ (by simp [shapes])) h
    · cases hf (ht _ (by simp [shapes])) (hu _ (by simp [shapes])) h
    · have hnode := hf (ht _ (by simp [shapes])) (hu _ (by simp [shapes])) h
      rw [Shape.node.injEq] at hnode
      rw [ihl (fun s hs => ht s (by simp [shapes, hs])) (fun s hs => hu s (by simp [shapes, hs]))
          hnode.1,
        ihr (fun s hs => ht s (by simp [shapes, hs])) (fun s hs => hu s (by simp [shapes, hs]))
          hnode.2]

end Tree

/-- The level above a level, whose last node has `e` beside it if it has no neighbour. -/
def level (join : α → α → α) (e : α) : List α → List α
  | [] => []
  | [a] => [join a e]
  | a :: b :: rest => join a b :: level join e rest

section

variable (join : α → α → α) (e : α)

lemma length_level : ∀ xs : List α, (level join e xs).length = (xs.length + 1) / 2
  | [] | [_] => by simp [level]
  | _ :: _ :: rest => by
    simp only [level, length_cons, length_level rest]
    omega

lemma getElem?_level : ∀ (xs : List α) (j : ℕ), (level join e xs)[j]? =
    xs[2 * j]?.map fun a => join a (xs[2 * j + 1]?.getD e)
  | [], _ | [a], 0 | [a], j + 1 | a :: b :: rest, 0 => by simp [level]
  | a :: b :: rest, j + 1 => by
    rw [level, getElem?_cons_succ, getElem?_level rest j, show 2 * (j + 1) = 2 * j + 1 + 1 by omega]
    simp

lemma map_level (g : α → α') (hg : ∀ a b, g (join a b) = join' (g a) (g b)) : ∀ xs : List α,
    (level join e xs).map g = level join' (g e) (xs.map g)
  | [] => rfl
  | [a] => by simp [level, hg]
  | a :: b :: rest => by simp [level, hg, map_level g hg rest]

end

/-- Levels until one node is left; `n` bounds how many. -/
def collapse (join : α → α → α) (e : α) : ℕ → List α → List α
  | 0, xs => xs
  | n + 1, xs => if 1 < xs.length then collapse join e n (level join e xs) else xs

lemma map_collapse (g : α → α')
    (hg : ∀ a b, g (join a b) = join' (g a) (g b)) : ∀ (n : ℕ) (xs : List α),
    (collapse join e n xs).map g = collapse join' (g e) n (xs.map g)
  | 0, _ => rfl
  | n + 1, xs => by
    unfold collapse
    rw [length_map]
    split_ifs
    · rw [map_collapse g hg n, map_level _ _ g hg]
    · rfl

lemma length_collapse (join : α → α → α) (e : α) : ∀ (n : ℕ) (xs : List α), xs ≠ [] →
    xs.length ≤ n + 1 → (collapse join e n xs).length = 1
  | 0, xs, hne, hle => by
    have := length_pos_iff.2 hne
    simp only [collapse]
    omega
  | n + 1, xs, hne, hle => by
    have hpos := length_pos_iff.2 hne
    unfold collapse
    split_ifs with h
    · have hlen := length_level join e xs
      refine length_collapse join e n _ (length_pos_iff.1 ?_) ?_ <;> omega
    · omega

lemma leaves_level : ∀ ts : List (Tree β),
    (level Tree.node Tree.empty ts).flatMap Tree.leaves = ts.flatMap Tree.leaves
  | [] => rfl
  | [t] => by simp [level, Tree.leaves]
  | t :: u :: rest => by simp [level, Tree.leaves, leaves_level rest]

lemma leaves_collapse : ∀ (n : ℕ) (ts : List (Tree β)),
    (collapse Tree.node Tree.empty n ts).flatMap Tree.leaves = ts.flatMap Tree.leaves
  | 0, _ => rfl
  | n + 1, ts => by
    unfold collapse
    split_ifs
    · rw [leaves_collapse n, leaves_level]
    · rfl

def tree (xs : List β) : Tree β :=
  (collapse Tree.node Tree.empty xs.length (xs.map Tree.leaf)).headD Tree.empty

lemma collapse_leaf (hne : xs ≠ []) :
    collapse Tree.node Tree.empty xs.length (xs.map Tree.leaf) = [tree xs] := by
  have hlen := length_collapse Tree.node Tree.empty xs.length (xs.map Tree.leaf) (by simpa using hne)
    (by simp)
  obtain ⟨t, ht⟩ := length_eq_one_iff.1 hlen
  rw [tree, ht]
  rfl

lemma leaves_tree (xs : List β) : (tree xs).leaves = xs := by
  by_cases hne : xs = []
  · subst hne
    rfl
  · have h := leaves_collapse xs.length (xs.map Tree.leaf)
    rw [collapse_leaf hne] at h
    simpa [Tree.leaves, flatMap_map] using h

end Merkle
