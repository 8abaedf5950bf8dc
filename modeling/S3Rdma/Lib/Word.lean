import Mathlib.Data.Nat.Bitwise
import Mathlib.Tactic.Ring

/-!
# 64-bit unsigned arithmetic

`uint64_t` and `size_t` values are natural numbers below `2^64`. Addition and subtraction wrap;
the lemmas here say when they do not. Masking with the complement of `2^k - 1` clears the low `k`
bits, which rounds down to a multiple of `2^k`.
-/

namespace S3Rdma

/-- Addition of `uint64_t`. -/
def add64 (a b : ℕ) : ℕ := (a + b) % 2^64

/-- Subtraction of `uint64_t`. -/
def sub64 (a b : ℕ) : ℕ := (a + 2^64 - b) % 2^64

/-- A sum below `2^64` does not wrap. -/
theorem add64_eq {a b : ℕ} (h : a + b < 2^64) : add64 a b = a + b := Nat.mod_eq_of_lt h

/-- A difference of a word and a smaller one does not wrap. -/
theorem sub64_eq {a b : ℕ} (ha : a < 2^64) (h : b ≤ a) : sub64 a b = a - b := by
  unfold sub64
  omega

/-- Adding to a wrapped sum wraps the whole sum. -/
theorem add64_add64 (a b c : ℕ) : add64 ((a + b) % 2^64) c = (a + (b + c)) % 2^64 := by
  unfold add64
  omega

/-- `v & ~(2^k - 1)` on words. -/
def clearLow (k v : ℕ) : ℕ := (BitVec.ofNat 64 v &&& ~~~(BitVec.ofNat 64 (2^k - 1))).toNat

/-- Clearing the low `k` bits rounds down to a multiple of `2^k`. -/
theorem clearLow_eq {k v : ℕ} (hk : k ≤ 64) (hv : v < 2^64) : clearLow k v = v / 2^k * 2^k := by
  apply Nat.eq_of_testBit_eq
  intro i
  unfold clearLow
  rw [BitVec.testBit_toNat, BitVec.getLsbD_and, BitVec.getLsbD_not, BitVec.getLsbD_ofNat,
    BitVec.getLsbD_ofNat, Nat.testBit_two_pow_sub_one, Nat.testBit_mul_two_pow,
    Nat.testBit_div_two_pow]
  by_cases h64 : i < 64
  · by_cases hki : k ≤ i
    · simp [h64, hki, Nat.sub_add_cancel hki, Nat.not_lt.mpr hki]
    · simp [h64, hki, Nat.lt_of_not_le hki]
  · have hvi : v.testBit i = false :=
      Nat.testBit_lt_two_pow (lt_of_lt_of_le hv (Nat.pow_le_pow_right (by norm_num) (by omega)))
    have hki : k ≤ i := by omega
    simp [h64, hki, Nat.sub_add_cancel hki, hvi]

end S3Rdma
