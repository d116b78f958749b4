import Mathlib.Data.List.Basic

/-!
# Files of bytes

A file is a list of bytes. `readAt` gives what a read returns, and `writeAt` what a write leaves
that starts in the file or at its end.
-/

namespace LinuxDrivers.ByteFile

universe u

variable {α : Type u}

/-- The first `n` bytes behind `pos`, or as many as there are. -/
def readAt (file : List α) (pos n : Nat) : List α := (file.drop pos).take n

/-- The bytes from `pos` on are overwritten, and the file becomes longer when they reach its end. -/
def writeAt (file : List α) (pos : Nat) (buf : List α) : List α :=
  file.take pos ++ buf ++ file.drop (pos + buf.length)

theorem readAt_add (file : List α) (pos m n : Nat) :
    readAt file pos (m + n) = readAt file pos m ++ readAt file (pos + m) n := by
  unfold readAt
  rw [List.take_add, List.drop_drop]

theorem readAt_min (file : List α) (pos n : Nat) :
    readAt file pos (min n (file.length - pos)) = readAt file pos n := by
  unfold readAt
  rw [← List.take_take, ← List.length_drop, List.take_length]

@[simp] theorem writeAt_nil (file : List α) (pos : Nat) : writeAt file pos [] = file := by
  simp [writeAt]

theorem length_writeAt {file : List α} {pos : Nat} (h : pos ≤ file.length) (buf : List α) :
    (writeAt file pos buf).length = max file.length (pos + buf.length) := by
  simp only [writeAt, List.length_append, List.length_take, List.length_drop]
  omega

theorem getElem?_writeAt {file : List α} {pos : Nat} (h : pos ≤ file.length) (buf : List α)
    (p : Nat) :
    (writeAt file pos buf)[p]? =
      if pos ≤ p ∧ p < pos + buf.length then buf[p - pos]? else file[p]? := by
  have htake : (file.take pos).length = pos := List.length_take_of_le h
  unfold writeAt
  by_cases hlt : p < pos
  · rw [if_neg (by omega), List.append_assoc, List.getElem?_append_left (by omega),
      List.getElem?_take_of_lt hlt]
  · by_cases hin : p < pos + buf.length
    · rw [if_pos (by omega), List.append_assoc, List.getElem?_append_right (by omega),
        List.getElem?_append_left (by omega), htake]
    · have hlen : (file.take pos ++ buf).length = pos + buf.length := by
        rw [List.length_append, htake]
      rw [if_neg (by omega), List.getElem?_append_right (by omega), hlen, List.getElem?_drop]
      congr 1
      omega

/-- Two writes, the second one behind the first, are one. -/
theorem writeAt_writeAt {file : List α} {pos : Nat} (h : pos ≤ file.length) (buf buf' : List α) :
    writeAt (writeAt file pos buf) (pos + buf.length) buf' = writeAt file pos (buf ++ buf') := by
  have hlen := length_writeAt h buf
  apply List.ext_getElem?
  intro p
  rw [getElem?_writeAt (by omega), getElem?_writeAt h, getElem?_writeAt h, List.length_append]
  by_cases hbefore : p < pos
  · rw [if_neg (by omega), if_neg (by omega), if_neg (by omega)]
  · by_cases hfirst : p < pos + buf.length
    · rw [if_neg (by omega), if_pos (by omega), if_pos (by omega),
        List.getElem?_append_left (by omega)]
    · by_cases hsecond : p < pos + buf.length + buf'.length
      · rw [if_pos (by omega), if_pos (by omega), List.getElem?_append_right (by omega),
          Nat.sub_sub]
      · rw [if_neg (by omega), if_neg (by omega), if_neg (by omega)]

end LinuxDrivers.ByteFile
