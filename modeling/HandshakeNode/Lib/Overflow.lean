import Mathlib.Algebra.Group.Int.Defs
import Mathlib.Algebra.Group.Nat.Defs
import Mathlib.Data.Int.Notation
import Mathlib.Tactic.SplitIfs

/-!
# Arithmetic with and without overflow checks

A program adds and subtracts numbers of a machine type, each of which stands for an integer. As the
machine runs it, a result that does not fit wraps. With checks, it stops there instead. A result is
exact when it stands for the sum or the difference of what the operands stand for; on exact results
all arithmetics agree, so whatever is proved from `Ops` alone holds for both.
-/

namespace Overflow

variable {ε α : Type} [Add α] [Sub α]

/-- Addition and subtraction that return the machine's result where they return one, and return it
at least where it is exact. -/
structure Ops (ε : Type) (α : Type) [Add α] [Sub α] (val : α → ℤ) where
  add : α → α → Except ε α
  sub : α → α → Except ε α
  add_eq : ∀ {a b c}, add a b = .ok c → c = a + b
  sub_eq : ∀ {a b c}, sub a b = .ok c → c = a - b
  add_exact : ∀ {a b}, val (a + b) = val a + val b → add a b = .ok (a + b)
  sub_exact : ∀ {a b}, val (a - b) = val a - val b → sub a b = .ok (a - b)

def wrapping (val : α → ℤ) : Ops ε α val where
  add a b := .ok (a + b)
  sub a b := .ok (a - b)
  add_eq h := (Except.ok.inj h).symm
  sub_eq h := (Except.ok.inj h).symm
  add_exact _ := rfl
  sub_exact _ := rfl

def checked (val : α → ℤ) (e : ε) : Ops ε α val where
  add a b := if val (a + b) = val a + val b then .ok (a + b) else .error e
  sub a b := if val (a - b) = val a - val b then .ok (a - b) else .error e
  add_eq h := by
    split_ifs at h
    exact (Except.ok.inj h).symm
  sub_eq h := by
    split_ifs at h
    exact (Except.ok.inj h).symm
  add_exact h := if_pos h
  sub_exact h := if_pos h

lemma int64_add_exact {b : Int64} (hlow : -2 ^ 63 ≤ a.toInt + b.toInt)
    (hhigh : a.toInt + b.toInt < 2 ^ 63) : (a + b).toInt = a.toInt + b.toInt := by
  rw [Int64.toInt_add, Int.bmod_def]
  omega

lemma int32_add_exact {b : Int32} (hlow : -2 ^ 31 ≤ a.toInt + b.toInt)
    (hhigh : a.toInt + b.toInt < 2 ^ 31) : (a + b).toInt = a.toInt + b.toInt := by
  rw [Int32.toInt_add, Int.bmod_def]
  omega

lemma int64_add_overflow {b : Int64} (h : 2 ^ 63 ≤ a.toInt + b.toInt) :
    (a + b).toInt = a.toInt + b.toInt - 2 ^ 64 := by
  have ha := a.toInt_lt
  have hb := b.toInt_lt
  rw [Int64.toInt_add, Int.bmod_def]
  omega

lemma int64_sub_exact {b : Int64} (hlow : -2 ^ 63 ≤ a.toInt - b.toInt)
    (hhigh : a.toInt - b.toInt < 2 ^ 63) : (a - b).toInt = a.toInt - b.toInt := by
  rw [Int64.toInt_sub, Int.bmod_def]
  omega

lemma uint64_add_exact {b : UInt64} (h : a.toNat + b.toNat < 2 ^ 64) :
    (a + b).toNat = a.toNat + b.toNat := by
  rw [UInt64.toNat_add, Nat.mod_eq_of_lt h]

lemma uint64_sub_exact {b : UInt64} (h : b.toNat ≤ a.toNat) :
    (a - b).toNat = a.toNat - b.toNat := UInt64.toNat_sub_of_le a b h

lemma toInt_toInt64 {n : UInt64} (h : n.toNat < 2 ^ 63) : n.toInt64.toInt = n.toNat := by
  refine BitVec.toInt_eq_toNat_of_lt ?_
  change 2 * n.toNat < _
  omega

end Overflow
