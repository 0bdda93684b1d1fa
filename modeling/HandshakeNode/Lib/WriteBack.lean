import Mathlib.Logic.Function.Basic

/-!
# Write-back caches

A cache of cells over a store. A cell reads as a value or as an absence, it may be dirty, when the
store has to be brought up to date, and it may be fresh, when the store is known to hold nothing
for its key. What the two hold together is the cell's value where there is a cell and the store's
value elsewhere. A fresh cell that is deleted may be dropped without telling the store, which is
where a wrong mark of freshness lets an old value of the store come back.
-/

namespace WriteBack

open Function

variable {K E V : Type*} [DecidableEq K]

structure Cells (E V : Type*) where
  value : E → Option V
  dirty : E → Prop
  fresh : E → Prop

variable (R : Cells E V)

def effective (c : K → Option E) (d : K → Option V) (k : K) : Option V :=
  match c k with
  | some e => R.value e
  | none => d k

/-- A clean cell agrees with what the store holds, which is nothing under a fresh one. -/
structure Cells.Ok (e : E) (v : Option V) : Prop where
  clean : ¬ R.dirty e → R.value e = v
  fresh : R.fresh e → v = none

def Coherent (c : K → Option E) (d : K → Option V) : Prop := ∀ k e, c k = some e → R.Ok e (d k)

variable {R} {c : K → Option E} {d : K → Option V} {k : K} {e : E}

omit [DecidableEq K] in
lemma effective_of_some (h : c k = some e) : effective R c d k = R.value e := by
  rw [effective, h]

omit [DecidableEq K] in
lemma effective_of_none (h : c k = none) : effective R c d k = d k := by
  rw [effective, h]

lemma effective_put : effective R (update c k (some e)) d =
    update (effective R c d) k (R.value e) := by
  funext k'
  by_cases hk : k' = k
  · subst hk
    rw [update_self]
    exact effective_of_some (update_self ..)
  · simp [effective, hk]

lemma effective_drop : effective R (update c k none) d = update (effective R c d) k (d k) := by
  funext k'
  by_cases hk : k' = k
  · subst hk
    rw [update_self]
    exact effective_of_none (update_self ..)
  · simp [effective, hk]

lemma Coherent.put (h : Coherent R c d) (he : R.Ok e (d k)) :
    Coherent R (update c k (some e)) d := by
  intro k' e' he'
  by_cases hk : k' = k
  · subst hk
    rw [update_self, Option.some.injEq] at he'
    exact he' ▸ he
  · rw [update_of_ne hk] at he'
    exact h k' e' he'

lemma Coherent.drop (h : Coherent R c d) : Coherent R (update c k none) d := by
  intro k' e' he'
  by_cases hk : k' = k
  · subst hk
    simp at he'
  · rw [update_of_ne hk] at he'
    exact h k' e' he'

lemma Coherent.effective_dropFresh (h : Coherent R c d) (hk : c k = some e) (he : R.fresh e) :
    effective R (update c k none) d = update (effective R c d) k none := by
  rw [effective_drop, (h k e hk).fresh he]

end WriteBack
