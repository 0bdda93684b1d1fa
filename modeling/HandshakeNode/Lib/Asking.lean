import Mathlib.Data.Nat.Notation

/-!
# Computations that ask

A computation that may fail and that asks yes-or-no questions on the way. Who answers is left open,
so one computation can be run against an oracle or against something that remembers answers.
-/

universe u

/-- A computation with questions `Q`, errors `ε` and results `α`. -/
inductive Ask (Q : Type u) (ε α : Type) where
  | ok (a : α)
  | fail (e : ε)
  | ask (q : Q) (k : Bool → Ask Q ε α)

namespace Ask

variable {Q : Type u} {ε α : Type}

def run (answer : Q → Bool) : Ask Q ε α → Except ε α
  | ok a => .ok a
  | fail e => .error e
  | ask q k => (k (answer q)).run answer

def mapError (f : ε → ε) : Ask Q ε α → Ask Q ε α
  | ok a => ok a
  | fail e => fail (f e)
  | ask q k => ask q fun b => (k b).mapError f

variable {β : Type}

def bind (f : α → Ask Q ε β) : Ask Q ε α → Ask Q ε β
  | ok a => f a
  | fail e => fail e
  | ask q k => ask q fun b => (k b).bind f

def ofExcept : Except ε α → Ask Q ε α
  | .ok a => ok a
  | .error e => fail e

instance : Monad (Ask Q ε) where
  pure := ok
  bind x f := x.bind f

instance : MonadLift (Except ε) (Ask Q ε) := ⟨ofExcept⟩

@[simp] lemma run_pure (answer : Q → Bool) (a : α) :
    (pure a : Ask Q ε α).run answer = .ok a := rfl

@[simp] lemma run_liftM (answer : Q → Bool) (r : Except ε α) :
    (liftM r : Ask Q ε α).run answer = r := by
  cases r <;> rfl

@[simp] lemma run_bind (answer : Q → Bool) (f : α → Ask Q ε β) :
    ∀ x : Ask Q ε α, (x >>= f).run answer = x.run answer >>= fun a => (f a).run answer
  | ok _ => rfl
  | fail _ => rfl
  | ask q k => run_bind answer f (k (answer q))

end Ask
