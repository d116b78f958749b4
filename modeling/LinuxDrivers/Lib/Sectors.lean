import Mathlib.Data.List.Range
import LinuxDrivers.Lib.Bytes

/-!
# Sector arrays

What a disk is for: an array of sectors of `n` bytes each. A write replaces the sectors from a start
on, a read gives the sectors of a range one behind the other. A byte memory is seen as such an array
through `Mem.sectors`.
-/

namespace LinuxDrivers

/-- The contents of the sectors. -/
abbrev SectorArray := Nat → List UInt8

/-- Sector `k` of a memory with sectors of `n` bytes. -/
def Mem.sectors (m : Mem) (n : Nat) : SectorArray := fun k => m.load (n * k) n

namespace SectorArray

/-- The bytes of `cnt` sectors. -/
def read (a : SectorArray) (start cnt : Nat) : List UInt8 := (List.range' start cnt).flatMap a

/-- The sectors from `start` on are replaced by the pieces of `data`. -/
def write (a : SectorArray) (n start : Nat) (data : List UInt8) : SectorArray := fun k =>
  if start ≤ k ∧ n * (k - start) < data.length then (data.drop (n * (k - start))).take n else a k

/-- A read depends on the sectors of its range only. -/
theorem read_congr {a a' : SectorArray} {start cnt : Nat}
    (h : ∀ k, start ≤ k → k < start + cnt → a k = a' k) : a.read start cnt = a'.read start cnt := by
  unfold read
  rw [List.flatMap_congr]
  intro k hk
  rw [List.mem_range'_1] at hk
  exact h k hk.1 hk.2

/-- So does a write. -/
theorem write_congr {a a' : SectorArray} {k : Nat} (h : a k = a' k) (n start : Nat)
    (data : List UInt8) : a.write n start data k = a'.write n start data k := by
  unfold write
  rw [h]

end SectorArray

namespace Mem

/-- Reading sectors is loading their bytes. -/
theorem read_sectors (m : Mem) (n start cnt : Nat) :
    (m.sectors n).read start cnt = m.load (n * start) (n * cnt) := by
  induction cnt generalizing start with
  | zero => rfl
  | succ cnt ih =>
    have hstep := ih (start + 1)
    unfold SectorArray.read at hstep ⊢
    rw [List.range'_succ, List.flatMap_cons, hstep, Nat.mul_succ n cnt, Nat.add_comm (n * cnt) n,
      load_add, Nat.mul_succ n start]
    rfl

/-- Storing whole sectors is writing them. -/
theorem sectors_store {m : Mem} {n start cnt : Nat} {data : List UInt8}
    (hlen : data.length = n * cnt) :
    (m.store (n * start) data.length (ofList data)).sectors n =
      (m.sectors n).write n start data := by
  funext k
  unfold SectorArray.write
  by_cases hk : start ≤ k ∧ n * (k - start) < data.length
  · rw [if_pos hk]
    obtain ⟨j, rfl⟩ := Nat.exists_eq_add_of_le hk.1
    rw [Nat.add_sub_cancel_left] at hk ⊢
    rw [hlen] at hk
    have hj : j < cnt := Nat.lt_of_mul_lt_mul_left hk.2
    have hle : n * j + n ≤ n * cnt := by
      rw [← Nat.mul_succ]
      exact Nat.mul_le_mul_left n hj
    have hpiece : ((data.drop (n * j)).take n).length = n := by
      rw [List.length_take, List.length_drop]
      omega
    have hload : (m.store (n * start) data.length (ofList data)).load (n * (start + j))
        ((data.drop (n * j)).take n).length = (data.drop (n * j)).take n := by
      apply load_ofList
      intro i hi
      rw [hpiece] at hi
      rw [Nat.mul_add, Nat.add_assoc, store_window (by omega)]
      simp [ofList, List.getD_eq_getElem?_getD, hi]
    rwa [hpiece] at hload
  · rw [if_neg hk]
    apply load_congr
    intro i hi
    apply store_of_not_mem
    by_cases hlt : k < start
    · left
      have hle : n * k + n ≤ n * start := by
        rw [← Nat.mul_succ]
        exact Nat.mul_le_mul_left n hlt
      omega
    · right
      obtain ⟨j, rfl⟩ := Nat.exists_eq_add_of_le (Nat.not_lt.1 hlt)
      rw [Nat.add_sub_cancel_left] at hk
      rw [Nat.mul_add]
      omega

end Mem

end LinuxDrivers
