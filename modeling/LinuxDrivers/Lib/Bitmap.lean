import Mathlib.Data.Nat.Bitwise
import LinuxDrivers.Lib.Bytes
import LinuxDrivers.Lib.Search

/-!
# Bitmaps

Bits packed into bytes, the lowest bit of a byte first. A bit is tested with `byte & (1 << i)`, set
with `byte |= 1 << i` and cleared with `byte &= ~(1 << i)`.
-/

namespace LinuxDrivers

/-- `1 << i`. -/
def oneBit (i : Nat) : UInt8 := 1 <<< UInt8.ofNat i

/-- `byte & (1 << i)` is nonzero. -/
def bitSet (byte : UInt8) (i : Nat) : Bool := byte &&& oneBit i != 0

section Byte

variable {i j : Nat}

theorem toNat_oneBit (hi : i < 8) : (oneBit i).toNat = 2 ^ i := by
  have hpow : 2 ^ i < 2 ^ 8 := Nat.pow_lt_pow_right (by omega) hi
  unfold oneBit
  rw [UInt8.toNat_shiftLeft, UInt8.toNat_ofNat', show i % 2 ^ 8 % 8 = i by omega, UInt8.toNat_one,
    Nat.shiftLeft_eq, Nat.one_mul, Nat.mod_eq_of_lt hpow]

theorem bitSet_eq_testBit (byte : UInt8) (hi : i < 8) : bitSet byte i = byte.toNat.testBit i := by
  have hzero : byte &&& oneBit i = 0 ↔ byte.toNat.testBit i = false := by
    rw [← UInt8.toNat_inj, UInt8.toNat_and, toNat_oneBit hi, UInt8.toNat_zero, Nat.and_two_pow]
    cases byte.toNat.testBit i <;> simp
  unfold bitSet
  cases hbit : byte.toNat.testBit i with
  | false => simp [hzero.2 hbit]
  | true => simp [hzero, hbit]

theorem bitSet_or (byte : UInt8) (hi : i < 8) (hj : j < 8) :
    bitSet (byte ||| oneBit i) j = (bitSet byte j || i == j) := by
  rw [bitSet_eq_testBit _ hj, bitSet_eq_testBit _ hj, UInt8.toNat_or, toNat_oneBit hi,
    Nat.testBit_or, Nat.testBit_two_pow]
  rfl

theorem bitSet_and_not (byte : UInt8) (hi : i < 8) (hj : j < 8) :
    bitSet (byte &&& ~~~oneBit i) j = (bitSet byte j && i != j) := by
  have hnot : (~~~oneBit i).toNat.testBit j = !(oneBit i).toNat.testBit j := by
    rw [← UInt8.toNat_toBitVec, ← UInt8.toNat_toBitVec, BitVec.testBit_toNat, BitVec.testBit_toNat,
      UInt8.toBitVec_not, BitVec.getLsbD_not]
    simp [hj]
  rw [bitSet_eq_testBit _ hj, bitSet_eq_testBit _ hj, UInt8.toNat_and, Nat.testBit_and, hnot,
    toNat_oneBit hi, Nat.testBit_two_pow]
  rfl

theorem bitSet_zero (hj : j < 8) : bitSet 0 j = false := by
  rw [bitSet_eq_testBit _ hj, UInt8.toNat_zero, Nat.zero_testBit]

/-- A byte is `0xFF` when all of its bits are set. -/
theorem eq_ff_iff {byte : UInt8} : byte = 0xFF ↔ ∀ i < 8, bitSet byte i = true := by
  have hff : (0xFF : UInt8).toNat = 2 ^ 8 - 1 := rfl
  have hlt : byte.toNat < 2 ^ 8 := byte.toNat_lt
  rw [← UInt8.toNat_inj, hff]
  constructor
  · intro h i hi
    rw [bitSet_eq_testBit _ hi, h, Nat.testBit_two_pow_sub_one]
    simpa using hi
  · intro h
    apply Nat.eq_of_testBit_eq
    intro i
    rw [Nat.testBit_two_pow_sub_one]
    by_cases hi : i < 8
    · rw [← bitSet_eq_testBit _ hi, h i hi, decide_eq_true hi]
    · have hle : byte.toNat < 2 ^ i :=
        Nat.lt_of_lt_of_le hlt (Nat.pow_le_pow_right (by omega) (by omega))
      rw [Nat.testBit_lt_two_pow hle, decide_eq_false hi]

theorem eq_of_bitSet {x y : UInt8} (h : ∀ i < 8, bitSet x i = bitSet y i) : x = y := by
  apply UInt8.toNat_inj.1
  apply Nat.eq_of_testBit_eq
  intro i
  by_cases hi : i < 8
  · rw [← bitSet_eq_testBit _ hi, ← bitSet_eq_testBit _ hi, h i hi]
  · have hpow : 2 ^ 8 ≤ 2 ^ i := Nat.pow_le_pow_right (by omega) (by omega)
    rw [Nat.testBit_lt_two_pow (Nat.lt_of_lt_of_le x.toNat_lt hpow),
      Nat.testBit_lt_two_pow (Nat.lt_of_lt_of_le y.toNat_lt hpow)]

/-- The byte whose lowest `r` bits are set. -/
theorem bitSet_ff_shiftRight {r : Nat} (hr : 0 < r) (hj : j < 8) :
    bitSet (0xFF >>> UInt8.ofNat (8 - r)) j = decide (j < r) := by
  have hff : (0xFF : UInt8).toNat = 2 ^ 8 - 1 := rfl
  rw [bitSet_eq_testBit _ hj, UInt8.toNat_shiftRight, UInt8.toNat_ofNat', Nat.testBit_shiftRight,
    hff, Nat.testBit_two_pow_sub_one]
  congr 1
  simp only [eq_iff_iff]
  omega

end Byte

namespace Mem

/-- Bit `n` of the bitmap at `a`. -/
def bit (m : Mem) (a n : Nat) : Bool := bitSet (m (a + n / 8)) (n % 8)

/-- Sets bit `n` of the bitmap at `a`. -/
def setBit (m : Mem) (a n : Nat) : Mem :=
  m.store (a + n / 8) 1 fun _ => m (a + n / 8) ||| oneBit (n % 8)

/-- Clears bit `n` of the bitmap at `a`. -/
def clearBit (m : Mem) (a n : Nat) : Mem :=
  m.store (a + n / 8) 1 fun _ => m (a + n / 8) &&& ~~~oneBit (n % 8)

variable {m m' : Mem} {a n k x : Nat}

theorem bit_congr (h : m (a + n / 8) = m' (a + n / 8)) : m.bit a n = m'.bit a n := by
  unfold bit
  rw [h]

/-- All bits of a byte `0xFF` are set. -/
theorem bit_of_ff (h : m (a + n / 8) = 0xFF) : m.bit a n = true := by
  unfold bit
  rw [h]
  exact eq_ff_iff.1 rfl _ (Nat.mod_lt _ (by omega))

/-- A byte that is rewritten changes the bits in it only. -/
theorem bit_store_byte (byte : UInt8) : (m.store (a + n / 8) 1 fun _ => byte).bit a k =
    if n / 8 = k / 8 then bitSet byte (k % 8) else m.bit a k := by
  unfold bit
  split
  · next he => rw [← he, store_of_mem (by omega)]
  · next hne => rw [store_of_not_mem (by omega)]

theorem bit_setBit (m : Mem) (a n k : Nat) : (m.setBit a n).bit a k = (m.bit a k || n == k) := by
  unfold setBit
  rw [bit_store_byte]
  split
  · next he =>
    rw [bitSet_or _ (Nat.mod_lt _ (by omega)) (Nat.mod_lt _ (by omega)), he]
    congr 1
    rw [Bool.eq_iff_iff, beq_iff_eq, beq_iff_eq]
    omega
  · next hne =>
    have hnk : (n == k) = false := beq_eq_false_iff_ne.2 fun e => hne (by rw [e])
    rw [hnk, Bool.or_false]

theorem bit_clearBit (m : Mem) (a n k : Nat) :
    (m.clearBit a n).bit a k = (m.bit a k && n != k) := by
  unfold clearBit
  rw [bit_store_byte]
  split
  · next he =>
    rw [bitSet_and_not _ (Nat.mod_lt _ (by omega)) (Nat.mod_lt _ (by omega)), he]
    congr 1
    rw [Bool.eq_iff_iff, bne_iff_ne, bne_iff_ne]
    omega
  · next hne =>
    have hnk : (n != k) = true := bne_iff_ne.2 fun e => hne (by rw [e])
    rw [hnk, Bool.and_true]

theorem setBit_outside (h : x ≠ a + n / 8) : m.setBit a n x = m x :=
  store_of_not_mem (by omega)

theorem clearBit_outside (h : x ≠ a + n / 8) : m.clearBit a n x = m x :=
  store_of_not_mem (by omega)

/-- Clearing a bit that is clear changes nothing. -/
theorem clearBit_of_clear (h : m.bit a n = false) : m.clearBit a n = m := by
  have hn : n % 8 < 8 := Nat.mod_lt _ (by omega)
  have hbyte : m (a + n / 8) &&& ~~~oneBit (n % 8) = m (a + n / 8) := by
    apply eq_of_bitSet
    intro i hi
    rw [bitSet_and_not _ hn hi]
    by_cases he : n % 8 = i
    · unfold bit at h
      rw [← he, h, Bool.false_and]
    · rw [bne_iff_ne.2 he, Bool.and_true]
  funext x
  by_cases hx : x = a + n / 8
  · unfold clearBit
    rw [store_of_mem (by omega), hbyte, hx]
  · exact clearBit_outside hx

/-- A bit that was clear is set and cleared again. -/
theorem clearBit_setBit (h : m.bit a n = false) : (m.setBit a n).clearBit a n = m := by
  have hn : n % 8 < 8 := Nat.mod_lt _ (by omega)
  have hset : m.setBit a n (a + n / 8) = m (a + n / 8) ||| oneBit (n % 8) :=
    store_of_mem (by omega)
  have hbyte : (m (a + n / 8) ||| oneBit (n % 8)) &&& ~~~oneBit (n % 8) = m (a + n / 8) := by
    apply eq_of_bitSet
    intro i hi
    rw [bitSet_and_not _ hn hi, bitSet_or _ hn hi]
    by_cases he : n % 8 = i
    · unfold bit at h
      rw [← he, h, bne_self_eq_false, Bool.and_false]
    · rw [bne_iff_ne.2 he, beq_eq_false_iff_ne.2 he, Bool.or_false, Bool.and_true]
  funext x
  by_cases hx : x = a + n / 8
  · unfold clearBit
    rw [store_of_mem (by omega), hset, hbyte, hx]
  · rw [clearBit_outside hx, setBit_outside hx]

/-- The search for the first clear bit, bytes first: the first byte that is not `0xFF`, then the
first clear bit in it. -/
theorem first_clear {e i : Nat} {N : Nat}
    (hbyte : findFrom (fun e => m (a + e) != 0xFF) N 0 = some e)
    (hbit : findFrom (fun i => !bitSet (m (a + e)) i) 8 0 = some i) :
    m.bit a (8 * e + i) = false ∧ ∀ k < 8 * e + i, m.bit a k = true := by
  obtain ⟨-, -, -, hbefore⟩ := findFrom_eq_some hbyte
  obtain ⟨-, hi, hclear, hset⟩ := findFrom_eq_some hbit
  have hdiv : (8 * e + i) / 8 = e := by omega
  have hmod : (8 * e + i) % 8 = i := by omega
  refine ⟨?_, fun k hk => ?_⟩
  · unfold bit
    rw [hdiv, hmod]
    simpa using hclear
  · unfold bit
    by_cases he : k / 8 = e
    · rw [he]
      simpa using hset (k % 8) (Nat.zero_le _) (by omega)
    · have hff := hbefore (k / 8) (Nat.zero_le _) (by omega)
      simp only [bne_eq_false_iff_eq] at hff
      exact eq_ff_iff.1 hff (k % 8) (Nat.mod_lt _ (by omega))

/-- The first clear bit of `8 * N` bits lies in the first byte that is not `0xFF`, if there
is one. -/
theorem findFrom_clear (m : Mem) (a N : Nat) : findFrom (fun b => !m.bit a b) (8 * N) 0 =
    (findFrom (fun e => m (a + e) != 0xFF) N 0).bind fun e =>
      (findFrom (fun i => !bitSet (m (a + e)) i) 8 0).map (8 * e + ·) := by
  cases hbyte : findFrom (fun e => m (a + e) != 0xFF) N 0 with
  | none =>
    refine findFrom_eq_none.2 fun b _ hb => ?_
    have hff := findFrom_eq_none.1 hbyte (b / 8) (Nat.zero_le _) (by omega)
    rw [bne_eq_false_iff_eq] at hff
    have hset := eq_ff_iff.1 hff (b % 8) (Nat.mod_lt _ (by omega))
    simpa [bit] using hset
  | some e =>
    obtain ⟨-, he, hne, -⟩ := findFrom_eq_some hbyte
    rw [bne_iff_ne, ne_eq, eq_ff_iff] at hne
    simp only [not_forall] at hne
    obtain ⟨i₀, hi₀, hclear₀⟩ := hne
    obtain ⟨i, hi⟩ := findFrom_isSome_of (p := fun i => !bitSet (m (a + e)) i)
      (Nat.zero_le i₀) (show i₀ < 0 + 8 by omega) (by simpa using hclear₀)
    obtain ⟨hclear, hset⟩ := first_clear hbyte hi
    have hi8 := (findFrom_eq_some hi).2.1
    simp only [Option.bind_some, hi, Option.map_some]
    refine findFrom_of_first (Nat.zero_le _) (by omega) (by rw [hclear]; rfl) fun b _ hb => ?_
    rw [hset b hb]
    rfl

end Mem

end LinuxDrivers
