import Mathlib.Data.List.TakeWhile
import LinuxDrivers.Lib.Bytes

/-!
# C strings

`CStr` is the string a `char *` argument points to, without its terminator. `cstr m n` is the
string found in a buffer of `n` bytes; a buffer without a zero byte ends the string at `n`.
-/

namespace LinuxDrivers

/-- The bytes of a C string before its terminator. -/
structure CStr where
  bytes : List UInt8
  nul_not_mem : 0 ∉ bytes
  deriving DecidableEq

/-- Strings with the same bytes are the same. -/
theorem CStr.bytes_inj {fn fn' : CStr} (h : fn.bytes = fn'.bytes) : fn = fn' := by
  cases fn
  cases fn'
  simpa using h

/-- The string at the start of `bytes`. -/
def CStr.ofList (bytes : List UInt8) : CStr :=
  ⟨bytes.takeWhile (· != 0), fun h => by simpa using List.mem_takeWhile_imp h⟩

/-- The characters of a string literal. -/
def ascii (text : String) : List UInt8 := text.toList.map fun c => .ofNat c.toNat

/-- The string that starts at the first byte of a buffer of `n` bytes. -/
def cstr (m : Mem) (n : Nat) : List UInt8 := (m.load 0 n).takeWhile (· != 0)

/-- `strncpy(dst, fn, n)`: the first `n` bytes of `fn`, padded with zeros; `dst` keeps the rest. -/
def strncpy (dst : Mem) (fn : CStr) (n : Nat) : Mem := fun k =>
  if k < n then fn.bytes.getD k 0 else dst k

/-- `strncmp(s, t, n)` from byte `k` on: the order of the first bytes that differ, before the end of
the strings and among the next `n` bytes. -/
def strncmp (s t : Mem) : Nat → Nat → Int
  | 0, _ => 0
  | n + 1, k =>
    if s k ≠ t k then if s k < t k then -1 else 1
    else if s k = 0 then 0
    else strncmp s t n (k + 1)

theorem load_succ (m : Mem) (n : Nat) : m.load 0 (n + 1) = m 0 :: (m.window 1).load 0 n := by
  simp only [Mem.load, List.range_succ_eq_map, List.map_cons, List.map_map, Nat.zero_add]
  congr 1
  apply List.map_congr_left
  intro k _
  simp [Nat.add_comm]

/-- A buffer that holds `bytes` and a terminator is read as `bytes`. -/
theorem cstr_eq {bytes : List UInt8} {m : Mem} {n : Nat} (hnul : 0 ∉ bytes)
    (hlen : bytes.length < n) (hm : ∀ k < bytes.length, m k = bytes.getD k 0)
    (hend : m bytes.length = 0) : cstr m n = bytes := by
  induction bytes generalizing m n with
  | nil =>
    obtain ⟨n, rfl⟩ : ∃ n', n = n' + 1 := ⟨n - 1, by simp at hlen; omega⟩
    simp only [List.length_nil] at hend
    simp [cstr, load_succ, hend]
  | cons b bytes ih =>
    obtain ⟨n, rfl⟩ : ∃ n', n = n' + 1 := ⟨n - 1, by simp at hlen; omega⟩
    have h0 : m 0 = b := by simpa using hm 0 (by simp)
    have hb : b ≠ 0 := fun h => hnul (by simp [h])
    have htail : cstr (m.window 1) n = bytes := by
      apply ih
      · exact fun h => hnul (List.mem_cons_of_mem b h)
      · simpa using hlen
      · intro k hk
        have := hm (1 + k) (by simp; omega)
        rw [Mem.window_apply, this, Nat.add_comm 1 k]
        simp
      · rw [Mem.window_apply, Nat.add_comm]
        exact hend
    simp only [cstr] at htail
    simp [cstr, load_succ, h0, hb, htail]

theorem cstr_succ (m : Mem) (n : Nat) :
    cstr m (n + 1) = if m 0 = 0 then [] else m 0 :: cstr (m.window 1) n := by
  unfold cstr
  rw [load_succ, List.takeWhile_cons]
  by_cases h : m 0 = 0
  · simp [h]
  · simp [h]

/-- A string that ends inside its buffer has its terminator behind it. -/
theorem cstr_end {m : Mem} {n : Nat} (h : (cstr m n).length < n) : m (cstr m n).length = 0 := by
  induction n generalizing m with
  | zero => exact absurd h (Nat.not_lt_zero _)
  | succ n ih =>
    rw [cstr_succ] at h ⊢
    split
    · next h0 => exact h0
    · next h0 =>
      rw [if_neg h0, List.length_cons] at h
      have hend := ih (m := m.window 1) (by omega)
      rw [Mem.window_apply, Nat.add_comm] at hend
      exact hend

/-- A string compares equal with a field of `n` bytes when its first `n` bytes are the string in the
field. -/
theorem strncmp_eq_zero {bytes : List UInt8} (hnul : 0 ∉ bytes) (t : Mem) (n k : Nat) :
    strncmp (.ofList bytes) t n k = 0 ↔ cstr (t.window k) n = (bytes.drop k).take n := by
  induction n generalizing k with
  | zero => simp [strncmp, cstr, Mem.load]
  | succ n ih =>
    have hnext : (t.window k).window 1 = t.window (k + 1) := by
      funext x
      simp only [Mem.window_apply]
      rw [Nat.add_assoc]
    have hhead : t.window k 0 = t k := rfl
    unfold strncmp
    rw [cstr_succ, hnext, hhead]
    by_cases hk : k < bytes.length
    · have hbyte : Mem.ofList bytes k = bytes[k] := by simp [Mem.ofList, hk]
      have hne : bytes[k] ≠ 0 := fun he => hnul (he ▸ List.getElem_mem hk)
      rw [List.drop_eq_getElem_cons hk, List.take_succ_cons, hbyte]
      by_cases he : bytes[k] = t k
      · rw [if_neg (not_not.2 he), if_neg hne, ih, ← he, if_neg hne, List.cons.injEq]
        simp
      · rw [if_pos he]
        constructor
        · intro h
          split at h <;> cases h
        · intro h
          split at h
          · cases h
          · exact absurd (List.cons.inj h).1.symm he
    · have hbyte : Mem.ofList bytes k = 0 := by simp [Mem.ofList, Nat.le_of_not_lt hk]
      rw [List.drop_eq_nil_of_le (Nat.le_of_not_lt hk), List.take_nil, hbyte]
      by_cases he : t k = 0
      · simp [he]
      · rw [if_pos (Ne.symm he), if_neg he]
        constructor
        · intro h
          split at h <;> cases h
        · intro h
          cases h

/-- A string that ends in both buffers is decided by the bytes up to its end. -/
theorem cstr_congr_of_nul {m m' : Mem} {n k : Nat} (hk : k < n) (hnul : m k = 0)
    (h : ∀ j ≤ k, m j = m' j) : cstr m n = cstr m' n := by
  induction k generalizing m m' n with
  | zero =>
    obtain ⟨n, rfl⟩ : ∃ n', n = n' + 1 := ⟨n - 1, by omega⟩
    have h0 := h 0 (Nat.le_refl 0)
    rw [hnul] at h0
    simp [cstr, load_succ, hnul, ← h0]
  | succ k ih =>
    obtain ⟨n, rfl⟩ : ∃ n', n = n' + 1 := ⟨n - 1, by omega⟩
    have htail : cstr (m.window 1) n = cstr (m'.window 1) n := by
      refine ih (by omega) ?_ fun j hj => ?_
      · rw [Mem.window_apply, Nat.add_comm]
        exact hnul
      · simp only [Mem.window_apply]
        exact h (1 + j) (by omega)
    simp only [cstr] at htail
    simp only [cstr, load_succ, List.takeWhile_cons, htail, h 0 (Nat.zero_le _)]

end LinuxDrivers
