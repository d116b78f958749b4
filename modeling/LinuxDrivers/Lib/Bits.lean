import Mathlib.Algebra.Group.Int.Defs
import Mathlib.Algebra.Group.Nat.Defs
import Mathlib.Data.List.Basic

/-!
# Fields of a word

Setting and clearing the bits of one mask, seen through another.
-/

namespace LinuxDrivers.Bits

variable {w : Nat} {x y m n : BitVec w}

/-- Bits set outside of a field do not show in it. -/
theorem set_and_of_disjoint (h : y &&& m = 0#w) : (x ||| y) &&& m = x &&& m := by
  rw [BitVec.and_or_distrib_right, h, BitVec.or_zero]

/-- Bits that are set are set. -/
theorem set_and_self (x m : BitVec w) : (x ||| m) &&& m = m := by
  ext i
  simp only [BitVec.getElem_and, BitVec.getElem_or]
  cases x[i] <;> cases m[i] <;> rfl

/-- Bits that are cleared are clear. -/
theorem clear_and_self (x m : BitVec w) : (x &&& ~~~m) &&& m = 0#w := by
  ext i
  simp only [BitVec.getElem_and, BitVec.getElem_not, BitVec.getElem_zero]
  cases x[i] <;> cases m[i] <;> rfl

/-- Bits cleared outside of a field do not show in it. -/
theorem clear_and_of_disjoint (h : m &&& n = 0#w) : (x &&& ~~~m) &&& n = x &&& n := by
  ext i hi
  have hbit : (m[i] && n[i]) = false := by
    rw [← BitVec.getElem_and, h, BitVec.getElem_zero]
  simp only [BitVec.getElem_and, BitVec.getElem_not]
  revert hbit
  cases x[i] <;> cases m[i] <;> cases n[i] <;> decide

/-- All bits of a field stay set when others are set. -/
theorem and_eq_of_set (h : x &&& m = m) : (x ||| y) &&& m = m := by
  ext i hi
  have hbit : (x[i] && m[i]) = m[i] := by
    rw [← BitVec.getElem_and, h]
  simp only [BitVec.getElem_and, BitVec.getElem_or]
  revert hbit
  cases x[i] <;> cases m[i] <;> cases y[i] <;> decide

/-- A field is clear when one that contains it is. -/
theorem and_eq_zero_of_subset (h : x &&& m = 0#w) (hn : m &&& n = n) : x &&& n = 0#w := by
  rw [← hn, ← BitVec.and_assoc, h, BitVec.zero_and]

/-- A number of at most `k` bits lies in the field of the lowest `k` bits. -/
theorem ofNat_and_low {k a : Nat} (ha : a < 2 ^ k) :
    BitVec.ofNat w a &&& BitVec.ofNat w (2 ^ k - 1) = BitVec.ofNat w a := by
  rw [← BitVec.ofNat_and, Nat.and_two_pow_sub_one_of_lt_two_pow ha]

end LinuxDrivers.Bits
