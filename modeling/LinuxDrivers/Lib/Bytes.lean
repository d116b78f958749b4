import Mathlib.Algebra.Group.Int.Defs
import Mathlib.Algebra.Group.Nat.Defs
import Mathlib.Data.List.Basic

/-!
# Byte memories and little-endian words

A memory is a function from addresses to bytes. `store` overwrites one range, `window` looks at a
memory from an address on, and `word` reads a 32-bit little-endian word. The C structures that a
disk holds are laid out with `words`.
-/

namespace LinuxDrivers

/-- Byte-addressed memory. -/
abbrev Mem := Nat → UInt8

namespace Mem

/-- The memory seen from address `a` on. -/
def window (m : Mem) (a : Nat) : Mem := fun k => m (a + k)

/-- `memcpy`: the first `len` bytes of `src` are stored at `a`. -/
def store (m : Mem) (a len : Nat) (src : Mem) : Mem := fun x =>
  if a ≤ x ∧ x < a + len then src (x - a) else m x

/-- The bytes of a list, followed by zeros. -/
def ofList (bytes : List UInt8) : Mem := fun k => bytes.getD k 0

/-- The `len` bytes at `a`. -/
def load (m : Mem) (a len : Nat) : List UInt8 := (List.range len).map fun k => m (a + k)

@[simp] theorem window_apply (m : Mem) (a k : Nat) : m.window a k = m (a + k) := rfl

theorem store_of_mem {m : Mem} {a len : Nat} {src : Mem} {x : Nat} (h : a ≤ x ∧ x < a + len) :
    m.store a len src x = src (x - a) := by
  simp only [store, h, and_self, ↓reduceIte]

theorem store_of_not_mem {m : Mem} {a len : Nat} {src : Mem} {x : Nat}
    (h : x < a ∨ a + len ≤ x) : m.store a len src x = m x := by
  have hx : ¬ (a ≤ x ∧ x < a + len) := by omega
  simp only [store, hx, ↓reduceIte]

/-- A range read back where it was stored. -/
theorem store_window {m : Mem} {a len : Nat} {src : Mem} {k : Nat} (hk : k < len) :
    m.store a len src (a + k) = src k := by
  rw [store_of_mem (by omega), Nat.add_sub_cancel_left]

/-- A store leaves every disjoint range alone. -/
theorem store_disjoint {m : Mem} {a len : Nat} {src : Mem} {b n : Nat}
    (h : b + n ≤ a ∨ a + len ≤ b) {k : Nat} (hk : k < n) :
    m.store a len src (b + k) = m (b + k) :=
  store_of_not_mem (by omega)

@[simp] theorem length_load (m : Mem) (a len : Nat) : (m.load a len).length = len := by
  simp [load]

theorem load_congr {m m' : Mem} {a len : Nat} (h : ∀ k < len, m (a + k) = m' (a + k)) :
    m.load a len = m'.load a len :=
  List.map_congr_left fun k hk => h k (List.mem_range.1 hk)

theorem load_ofList {m : Mem} {a : Nat} {bytes : List UInt8}
    (h : ∀ k < bytes.length, m (a + k) = ofList bytes k) : m.load a bytes.length = bytes := by
  apply List.ext_getElem
  · simp
  · intro k hk hk'
    simp only [load, List.getElem_map, List.getElem_range]
    rw [h k hk']
    simp [ofList, hk']

/-- The first bytes of a list read back where they were stored. -/
theorem load_store_take (m : Mem) (a : Nat) {n : Nat} {bytes : List UInt8} (hn : n ≤ bytes.length) :
    (m.store a n (ofList bytes)).load a n = bytes.take n := by
  have hlen : (bytes.take n).length = n := List.length_take_of_le hn
  conv_lhs => rw [← hlen]
  apply load_ofList
  intro k hk
  rw [hlen] at hk ⊢
  rw [store_window hk]
  simp [ofList, hk]

theorem load_store_ofList (m : Mem) (a : Nat) (bytes : List UInt8) :
    (m.store a bytes.length (ofList bytes)).load a bytes.length = bytes := by
  rw [load_store_take m a (Nat.le_refl _), List.take_length]

/-- A store depends on the stored bytes only. -/
theorem store_congr {m : Mem} {a len : Nat} {src src' : Mem} (h : ∀ k < len, src k = src' k) :
    m.store a len src = m.store a len src' := by
  funext x
  by_cases hx : a ≤ x ∧ x < a + len
  · rw [store_of_mem hx, store_of_mem hx]
    exact h _ (by omega)
  · rw [store_of_not_mem (by omega), store_of_not_mem (by omega)]

/-- Two stores, one behind the other, are one store. -/
theorem store_store_append (m : Mem) (a n k : Nat) (src : Mem) :
    (m.store a n src).store (a + n) k (src.window n) = m.store a (n + k) src := by
  funext x
  by_cases h2 : a + n ≤ x ∧ x < a + n + k
  · rw [store_of_mem h2, store_of_mem (by omega), window_apply]
    congr 1
    omega
  · rw [store_of_not_mem (by omega)]
    by_cases h1 : a ≤ x ∧ x < a + n
    · rw [store_of_mem h1, store_of_mem (by omega)]
    · rw [store_of_not_mem (by omega), store_of_not_mem (by omega)]

/-- A range that is stored twice holds what was stored last. -/
theorem store_store (m : Mem) (a n : Nat) (src src' : Mem) :
    (m.store a n src).store a n src' = m.store a n src' := by
  funext x
  by_cases h : a ≤ x ∧ x < a + n
  · rw [store_of_mem h, store_of_mem h]
  · rw [store_of_not_mem (by omega), store_of_not_mem (by omega), store_of_not_mem (by omega)]

/-- Two stores of the same bytes from one address on are the longer one. -/
theorem store_store_max (m : Mem) (a n k : Nat) (src : Mem) :
    (m.store a n src).store a k src = m.store a (max n k) src := by
  funext x
  by_cases hk : a ≤ x ∧ x < a + k
  · rw [store_of_mem hk, store_of_mem (by omega)]
  · rw [store_of_not_mem (by omega)]
    by_cases hn : a ≤ x ∧ x < a + n
    · rw [store_of_mem hn, store_of_mem (by omega)]
    · rw [store_of_not_mem (by omega), store_of_not_mem (by omega)]

@[simp] theorem store_zero (m : Mem) (a : Nat) (src : Mem) : m.store a 0 src = m := by
  funext x
  exact store_of_not_mem (by omega)

theorem load_add (m : Mem) (a n k : Nat) : m.load a (n + k) = m.load a n ++ m.load (a + n) k := by
  simp only [load, List.range_add, List.map_append, List.map_map]
  congr 1
  apply List.map_congr_left
  intro j _
  simp [Nat.add_assoc]

/-- Bytes stored behind the first `n` are appended to them. -/
theorem load_store_append (m : Mem) (n : Nat) (bytes : List UInt8) :
    (m.store n bytes.length (ofList bytes)).load 0 (n + bytes.length) = m.load 0 n ++ bytes := by
  rw [load_add]
  congr 1
  · apply load_congr
    intro k hk
    exact store_of_not_mem (by omega)
  · rw [Nat.zero_add]
    exact load_store_ofList m n bytes

theorem ofList_load {m : Mem} {n k : Nat} (hk : k < n) : ofList (m.load 0 n) k = m k := by
  simp [ofList, load, hk]

/-! ## Words -/

/-- Byte `k` of a word, the lowest first. -/
def wordByte (w : UInt32) (k : Nat) : UInt8 := .ofNat (w.toNat / 256 ^ k)

/-- The 32-bit little-endian word at `a`. -/
def word (m : Mem) (a : Nat) : UInt32 :=
  .ofNat ((m a).toNat + 256 * (m (a + 1)).toNat + 65536 * (m (a + 2)).toNat +
    16777216 * (m (a + 3)).toNat)

/-- The layout of an array of words. -/
def words (w : Nat → UInt32) : Mem := fun k => wordByte (w (k / 4)) (k % 4)

theorem word_congr {m m' : Mem} {a : Nat} (h : ∀ k < 4, m (a + k) = m' (a + k)) :
    m.word a = m'.word a := by
  have h0 := h 0 (by omega)
  have h1 := h 1 (by omega)
  have h2 := h 2 (by omega)
  have h3 := h 3 (by omega)
  simp only [Nat.add_zero] at h0
  simp only [word, h0, h1, h2, h3]

@[simp] theorem word_window (m : Mem) (a k : Nat) : (m.window a).word k = m.word (a + k) := rfl

theorem word_eq_of_bytes {m : Mem} {a : Nat} {w : UInt32}
    (h : ∀ k < 4, m (a + k) = wordByte w k) : m.word a = w := by
  have h0 := h 0 (by omega)
  have h1 := h 1 (by omega)
  have h2 := h 2 (by omega)
  have h3 := h 3 (by omega)
  simp only [Nat.add_zero] at h0
  simp only [word, h0, h1, h2, h3, wordByte]
  have hw : w.toNat < 4294967296 := w.toNat_lt
  apply UInt32.toNat_inj.1
  simp only [UInt32.toNat_ofNat', UInt8.toNat_ofNat']
  omega

/-- Word `j` of a laid-out array of words. -/
@[simp] theorem word_words (w : Nat → UInt32) (j : Nat) : (words w).word (4 * j) = w j := by
  apply word_eq_of_bytes
  intro k hk
  simp only [words]
  rw [show (4 * j + k) / 4 = j by omega, show (4 * j + k) % 4 = k by omega]

/-- Word `j` of an array of words behind the first `n` bytes of a record. -/
theorem word_behind {m : Mem} {w : Nat → UInt32} {n : Nat}
    (h : ∀ k, n ≤ k → m k = words w (k - n)) (j : Nat) : m.word (n + 4 * j) = w j := by
  apply word_eq_of_bytes
  intro k hk
  rw [h _ (by omega)]
  simp only [words]
  rw [show (n + 4 * j + k - n) / 4 = j by omega, show (n + 4 * j + k - n) % 4 = k by omega]

theorem wordByte_word (m : Mem) (a : Nat) {k : Nat} (hk : k < 4) :
    wordByte (m.word a) k = m (a + k) := by
  have h0 : (m a).toNat < 256 := (m a).toNat_lt
  have h1 : (m (a + 1)).toNat < 256 := (m (a + 1)).toNat_lt
  have h2 : (m (a + 2)).toNat < 256 := (m (a + 2)).toNat_lt
  have h3 : (m (a + 3)).toNat < 256 := (m (a + 3)).toNat_lt
  unfold wordByte word
  apply UInt8.toNat_inj.1
  rw [UInt8.toNat_ofNat', UInt32.toNat_ofNat']
  match k, hk with
  | 0, _ => simp only [Nat.add_zero]; omega
  | 1, _ => omega
  | 2, _ => omega
  | 3, _ => omega

/-- Storing a word. -/
def setWord (m : Mem) (a : Nat) (w : UInt32) : Mem := m.store a 4 (words fun _ => w)

theorem setWord_of_not_mem {m : Mem} {a : Nat} {w : UInt32} {x : Nat} (h : x < a ∨ a + 4 ≤ x) :
    m.setWord a w x = m x :=
  store_of_not_mem (by omega)

theorem word_setWord (m : Mem) (a : Nat) (w : UInt32) : (m.setWord a w).word a = w := by
  apply word_eq_of_bytes
  intro k hk
  unfold setWord
  rw [store_window hk]
  simp only [words]
  rw [Nat.mod_eq_of_lt hk]

theorem word_setWord_of_ne {m : Mem} {a b : Nat} {w : UInt32} (h : b + 4 ≤ a ∨ a + 4 ≤ b) :
    (m.setWord a w).word b = m.word b := by
  apply word_congr
  intro k hk
  exact setWord_of_not_mem (by omega)

/-- Storing the word that is there changes nothing. -/
theorem setWord_word (m : Mem) (a : Nat) : m.setWord a (m.word a) = m := by
  funext x
  by_cases h : a ≤ x ∧ x < a + 4
  · obtain ⟨k, hk, rfl⟩ : ∃ k, k < 4 ∧ x = a + k := ⟨x - a, by omega, by omega⟩
    unfold setWord
    rw [store_window hk]
    simp only [words]
    rw [Nat.mod_eq_of_lt hk, wordByte_word m a hk]
  · exact setWord_of_not_mem (by omega)

end Mem

/-- The conversion of an `int` to a 32-bit unsigned value. -/
theorem toNat_ofInt (x : Int) : ((UInt32.ofInt x).toNat : Int) = x % 4294967296 := by
  unfold UInt32.ofInt
  rw [UInt32.toNat_ofNat']
  omega

end LinuxDrivers
