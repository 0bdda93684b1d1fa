import Mathlib.Algebra.Group.Nat.Defs
import Mathlib.Algebra.Order.Group.Nat
import Mathlib.Tactic.Ring

/-!
# Little-endian numbers

`leBytes k n` writes the low `k` bytes of `n`, the least significant first, and `leNat` reads a
byte string back.
-/

namespace LittleEndian

def leBytes : ℕ → ℕ → List UInt8
  | 0, _ => []
  | k + 1, n => UInt8.ofNat n :: leBytes k (n / 256)

def leNat : List UInt8 → ℕ
  | [] => 0
  | b :: bs => b.toNat + 256 * leNat bs

@[simp] lemma length_leBytes : ∀ k n : ℕ, (leBytes k n).length = k
  | 0, _ => rfl
  | k + 1, n => by simp [leBytes, length_leBytes k]

lemma leNat_leBytes : ∀ k n : ℕ, leNat (leBytes k n) = n % 256 ^ k
  | 0, n => by simp [leBytes, leNat, Nat.mod_one]
  | k + 1, n => by
    have hb : (UInt8.ofNat n).toNat = n % 256 := UInt8.toNat_ofNat'
    rw [leBytes, leNat, leNat_leBytes k, hb, pow_succ', Nat.mod_mul]

/-- What the top bit of a byte is and what is left without it. -/
lemma byte_bits (b : UInt8) : (b &&& 0x7f).toNat = b.toNat % 128 ∧
    (b &&& 0x80 = 0 ↔ b.toNat < 128) ∧ (b &&& 0x80 = 0x80 ↔ 128 ≤ b.toNat) ∧
    (b ||| 0x80).toNat = b.toNat % 128 + 128 := by
  have h : ∀ k : Fin 256, let b := UInt8.ofNat k; (b &&& 0x7f).toNat = b.toNat % 128 ∧
      (b &&& 0x80 = 0 ↔ b.toNat < 128) ∧ (b &&& 0x80 = 0x80 ↔ 128 ≤ b.toNat) ∧
      (b ||| 0x80).toNat = b.toNat % 128 + 128 := by decide +kernel
  simpa using h ⟨b.toNat, b.toNat_lt⟩

lemma leNat_leBytes_of_lt (h : n < 256 ^ k) : leNat (leBytes k n) = n := by
  rw [leNat_leBytes, Nat.mod_eq_of_lt h]

lemma leNat_lt : ∀ bs : List UInt8, leNat bs < 256 ^ bs.length
  | [] => by simp [leNat]
  | b :: bs => by
    have h := leNat_lt bs
    have hb := b.toNat_lt
    simp only [leNat, List.length_cons]
    omega

lemma leBytes_leNat : ∀ bs : List UInt8, leBytes bs.length (leNat bs) = bs
  | [] => rfl
  | b :: bs => by
    have hb := b.toNat_lt
    simp only [List.length_cons, leBytes, leNat, List.cons.injEq]
    refine ⟨?_, ?_⟩
    · apply UInt8.toNat_inj.mp
      simp only [UInt8.toNat_ofNat']
      omega
    · rw [show (b.toNat + 256 * leNat bs) / 256 = leNat bs by omega]
      exact leBytes_leNat bs

end LittleEndian
