import Mathlib.Logic.Relation

/-!
# Simulation of computations that may fail

Two computations simulate each other along a relation of their results when both fail with the same
error or both succeed with related results. The relation passes through sequencing and loops.
-/

namespace Simulation

universe u v

variable {ε : Type v} {α β γ α' β' : Type u}

inductive Sim (R : α → β → Prop) : Except ε α → Except ε β → Prop
  | ok {a : α} {b : β} (h : R a b) : Sim R (.ok a) (.ok b)
  | error (e : ε) : Sim R (.error e) (.error e)

namespace Sim

variable {R : α → β → Prop} {S : α' → β' → Prop} {x : Except ε α} {y : Except ε β}

lemma bind (h : Sim R x y)
    (hfg : ∀ a b, R a b → Sim S (f a) (g b)) : Sim S (x >>= f) (y >>= g) := by
  cases h with
  | ok hab => exact hfg _ _ hab
  | error e => exact .error e

lemma bind_same {g : γ → Except ε β}
    (hfg : ∀ c, z = .ok c → Sim R (f c) (g c)) : Sim R (z >>= f) (z >>= g) := by
  cases z with
  | ok c => exact hfg c rfl
  | error e => exact .error e

lemma of_ok_left (h : Sim R x y) (hx : x = .ok a) : ∃ b, y = .ok b ∧ R a b := by
  cases h with
  | ok hab =>
    cases hx
    exact ⟨_, rfl, hab⟩
  | error e => cases hx

lemma of_ok_right (h : Sim R x y) (hy : y = .ok b) : ∃ a, x = .ok a ∧ R a b := by
  cases h with
  | ok hab =>
    cases hy
    exact ⟨_, rfl, hab⟩
  | error e => cases hy

lemma foldlM : ∀ (xs : List ι) {a : α} {b : β}, R a b →
      (∀ i ∈ xs, ∀ a b, R a b → Sim R (f a i) (g b i)) → Sim R (xs.foldlM f a) (xs.foldlM g b)
  | [], _, _, h, _ => .ok h
  | i :: xs, a, b, h, hstep => by
    obtain ⟨hi, hxs⟩ := List.forall_mem_cons.1 hstep
    exact (hi a b h).bind fun a' b' h' => foldlM xs h' hxs

end Sim

end Simulation
