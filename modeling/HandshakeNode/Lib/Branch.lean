import Mathlib.Data.List.Infix
import Mathlib.Data.List.TakeWhile
import Mathlib.Data.List.Nodup

/-!
# Branches of a rooted tree

A tree is given by the parent of each node. The branch of a node lists the node, its parent and so
on down to the root. Branches are determined by their first node (`Branch.unique`), and two of them
part at one point and share all that lies below it (`Branch.exists_fork`).
-/

namespace Trees

open List

variable {α : Type*} {parent : α → α} {root : α}

/-- The branch of the first node of the list. -/
inductive Branch (parent : α → α) (root : α) : List α → Prop
  | root : Branch parent root [root]
  | cons {x : α} {l : List α} : x ≠ root → Branch parent root (parent x :: l) →
      Branch parent root (x :: parent x :: l)

namespace Branch

lemma ne_nil (h : Branch parent root l) : l ≠ [] := by
  cases h <;> simp

lemma tail (h : Branch parent root (x :: y :: l)) :
    x ≠ root ∧ y = parent x ∧ Branch parent root (y :: l) := by
  cases h with
  | cons hx hl => exact ⟨hx, rfl, hl⟩

lemma unique : ∀ {l m : List α} {x : α}, Branch parent root (x :: l) →
    Branch parent root (x :: m) → l = m
  | [], [], _, _, _ => rfl
  | [], z :: m, x, hl, hm => by
    cases hl with
    | root => exact absurd rfl hm.tail.1
  | y :: l, [], x, hl, hm => by
    cases hm with
    | root => exact absurd rfl hl.tail.1
  | y :: l, z :: m, x, hl, hm => by
    obtain ⟨-, rfl, hl⟩ := hl.tail
    obtain ⟨-, rfl, hm⟩ := hm.tail
    rw [unique hl hm]

lemma of_append : ∀ {p l : List α} {x : α}, Branch parent root (p ++ x :: l) →
    Branch parent root (x :: l)
  | [], _, _, h => h
  | [_], _, _, h => h.tail.2.2
  | _ :: z :: p, _, _, h => of_append (p := z :: p) h.tail.2.2

lemma parent_getLast? (h : Branch parent root (p ++ f :: l)) (hp : p ≠ []) :
    p.getLast?.map parent = some f := by
  obtain ⟨q, x, rfl⟩ := eq_nil_or_concat p |>.resolve_left hp
  simp only [concat_eq_append, append_assoc] at h
  simp [h.of_append.tail.2.1]

lemma exists_append (h : Branch parent root l) (hx : x ∈ l) :
    ∃ p m, l = p ++ x :: m ∧ Branch parent root (x :: m) := by
  obtain ⟨p, m, rfl⟩ := append_of_mem hx
  exact ⟨p, m, rfl, h.of_append⟩

lemma subset (h : Branch parent root l) (hx : x ∈ l)
    (hm : Branch parent root (x :: m)) : x :: m ⊆ l := by
  obtain ⟨p, m', rfl, hm'⟩ := h.exists_append hx
  rw [hm.unique hm']
  exact subset_append_right p (x :: m')

lemma root_mem : ∀ {l : List α}, Branch parent root l → root ∈ l
  | _, .root => mem_singleton.2 rfl
  | _, .cons _ h => mem_cons_of_mem _ h.root_mem

lemma nodup : ∀ {l : List α}, Branch parent root l → l.Nodup
  | _, .root => nodup_singleton _
  | _, .cons (x := x) (l := l) hx h => by
    refine nodup_cons.2 ⟨fun hmem => ?_, h.nodup⟩
    -- the branch of `x` would be part of itself, one node shorter
    obtain ⟨p, m, heq, hm⟩ := h.exists_append hmem
    have hlen := congrArg List.length ((cons hx h).unique hm)
    have hlen' := congrArg List.length heq
    simp only [length_append, length_cons] at hlen hlen'
    omega

end Branch

structure Fork (l c side detach : List α) (f : α) (m : List α) : Prop where
  left : l = side ++ f :: m
  right : c = detach ++ f :: m
  side_notMem : ∀ x ∈ side, x ∉ c
  detach_notMem : ∀ x ∈ detach, x ∉ l

lemma Branch.exists_fork (hc : Branch parent root c) :
    ∀ {l : List α}, Branch parent root l → ∃ side detach f m, Fork l c side detach f m
  | [], hl => absurd rfl hl.ne_nil
  | x :: l, hl => by
    by_cases hx : x ∈ c
    · obtain ⟨p, m, rfl, hm⟩ := hc.exists_append hx
      have hdisj := (nodup_append.1 hc.nodup).2.2
      rw [hl.unique hm]
      exact ⟨[], p, x, m, rfl, rfl, by simp, fun y hy hmem => hdisj y hy y hmem rfl⟩
    · cases l with
      | nil =>
        cases hl with
        | root => exact absurd hc.root_mem hx
      | cons y l =>
        obtain ⟨side, detach, f, m, hf⟩ := hc.exists_fork hl.tail.2.2
        refine ⟨x :: side, detach, f, m, congrArg (x :: ·) hf.left, hf.right, ?_, ?_⟩
        · exact forall_mem_cons.2 ⟨hx, hf.side_notMem⟩
        · intro z hz hmem
          rcases mem_cons.1 hmem with rfl | hmem
          · exact hx (hf.right ▸ mem_append_left _ hz)
          · exact hf.detach_notMem z hz hmem

namespace Fork

variable {l c side detach m : List α} {f : α}

lemma mem_right (h : Fork l c side detach f m) : f ∈ c := h.right ▸ by simp

lemma mem_left (h : Fork l c side detach f m) : f ∈ l := h.left ▸ by simp

variable [DecidableEq α]

section

variable (h : Fork l c side detach f m)
include h

lemma dropWhile : l.dropWhile (fun x => decide (x ∉ c)) = f :: m := by
  rw [h.left, dropWhile_append_of_pos (by simpa using h.side_notMem),
    dropWhile_cons_of_neg (by simpa using h.mem_right)]

lemma takeWhile_notMem : l.takeWhile (fun x => decide (x ∉ c)) = side := by
  rw [h.left, takeWhile_append_of_pos (by simpa using h.side_notMem),
    takeWhile_cons_of_neg (by simpa using h.mem_right), append_nil]

lemma takeWhile_left : l.takeWhile (fun x => decide (x ≠ f)) = side := by
  have hside : ∀ x ∈ side, decide (x ≠ f) = true := by
    intro x hx
    simpa using fun hxf : x = f => h.side_notMem x hx (hxf ▸ h.mem_right)
  rw [h.left, takeWhile_append_of_pos hside, takeWhile_cons_of_neg (by simp), append_nil]

lemma takeWhile_right : c.takeWhile (fun x => decide (x ≠ f)) = detach := by
  have hdetach : ∀ x ∈ detach, decide (x ≠ f) = true := by
    intro x hx
    simpa using fun hxf : x = f => h.detach_notMem x hx (hxf ▸ h.mem_left)
  rw [h.right, takeWhile_append_of_pos hdetach, takeWhile_cons_of_neg (by simp), append_nil]

end

end Fork

end Trees
