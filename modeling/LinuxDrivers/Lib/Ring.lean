import Mathlib.Data.List.Basic
import Mathlib.Logic.Function.Basic
import Mathlib.Tactic.SplitIfs

/-!
# Rings of slots

`n` slots that are used round and round. A window starts at a slot `s` and goes on for some slots,
past the last slot to the first. `Holds` says that a window holds a list of values in order and that
all other slots are empty; `FilledOutside` that no slot outside a window is empty.
-/

namespace LinuxDrivers.Ring

universe u

variable {α : Type u} {n s e k : Nat} {arr : Nat → Option α}

/-- How many slots `e` stands behind `s`. -/
def offset (n s e : Nat) : Nat := if s ≤ e then e - s else e + n - s

/-- The slot behind `s`. -/
theorem succ_mod (hs : s < n) : (s + 1) % n = if s + 1 = n then 0 else s + 1 := by
  split
  · next h => rw [h, Nat.mod_self]
  · exact Nat.mod_eq_of_lt (by omega)

theorem add_mod (hs : s < n) (hk : k ≤ n) : (s + k) % n =
    if s + k < n then s + k else s + k - n := by
  split
  · next h => exact Nat.mod_eq_of_lt h
  · rw [Nat.mod_eq_sub_mod (by omega), Nat.mod_eq_of_lt (by omega)]

theorem offset_lt (hs : s < n) (he : e < n) : offset n s e < n := by
  unfold offset
  split <;> omega

/-- The slot `k` behind `s`. -/
theorem eq_add_iff_offset (hs : s < n) (he : e < n) (hk : k < n) :
    e = (s + k) % n ↔ offset n s e = k := by
  rw [add_mod hs (Nat.le_of_lt hk)]
  unfold offset
  split <;> split <;> omega

/-- When the window starts one slot later, then `s` is the last slot behind its start. -/
theorem offset_succ (hs : s < n) (he : e < n) :
    offset n ((s + 1) % n) e + 1 = if e = s then n else offset n s e := by
  rw [succ_mod hs]
  unfold offset
  split_ifs <;> omega

/-! ## Windows that hold a list -/

/-- The window from `s` holds `xs` in order, and all other slots are empty. -/
def Holds (n : Nat) (arr : Nat → Option α) (s : Nat) (xs : List α) : Prop :=
  ∀ e < n, arr e = xs[offset n s e]?

/-- An empty window may start anywhere. -/
theorem holds_nil_iff : Holds n arr s [] ↔ ∀ e < n, arr e = none := by
  simp [Holds]

theorem Holds.get {xs : List α} (h : Holds n arr s xs) (hs : s < n) (hk : k < n) :
    arr ((s + k) % n) = xs[k]? := by
  have he : (s + k) % n < n := Nat.mod_lt _ (by omega)
  rw [h _ he, (eq_add_iff_offset hs he hk).1 rfl]

/-- A value is put behind the window. -/
theorem Holds.push {xs : List α} (h : Holds n arr s xs) (hs : s < n) (hlt : xs.length < n) (x : α) :
    Holds n (Function.update arr ((s + xs.length) % n) (some x)) s (xs ++ [x]) := by
  intro e he
  by_cases heq : e = (s + xs.length) % n
  · rw [(eq_add_iff_offset hs he hlt).1 heq, heq, Function.update_self]
    simp
  · rw [Function.update_of_ne heq, h e he]
    have hne := mt (eq_add_iff_offset hs he hlt).2 heq
    rw [List.getElem?_append]
    split
    · rfl
    · next hge =>
      rw [List.getElem?_eq_none (by omega), List.getElem?_eq_none (by simp; omega)]

/-- The first value of the window is taken out. -/
theorem Holds.pop {x : α} {xs : List α} (h : Holds n arr s (x :: xs)) (hs : s < n)
    (hlt : xs.length < n) : Holds n (Function.update arr s none) ((s + 1) % n) xs := by
  intro e he
  have hsucc := offset_succ hs he
  by_cases heq : e = s
  · subst heq
    rw [if_pos rfl] at hsucc
    rw [Function.update_self, List.getElem?_eq_none (by omega)]
  · rw [if_neg heq] at hsucc
    rw [Function.update_of_ne heq, h e he, ← hsucc, List.getElem?_cons_succ]

/-! ## Windows with gaps -/

/-- No slot outside the `k` slots from `s` is empty. -/
def FilledOutside (n : Nat) (arr : Nat → Option α) (s k : Nat) : Prop :=
  ∀ e < n, k ≤ offset n s e → arr e ≠ none

/-- The slot behind the window is filled. -/
theorem FilledOutside.next (h : FilledOutside n arr s k) (hs : s < n) (hk : k < n) :
    arr ((s + k) % n) ≠ none := by
  have he : (s + k) % n < n := Nat.mod_lt _ (by omega)
  exact h _ he (Nat.le_of_eq ((eq_add_iff_offset hs he hk).1 rfl).symm)

/-- The window takes in the slot behind it, whatever becomes of that slot. -/
theorem FilledOutside.extend (h : FilledOutside n arr s k) (hs : s < n) (hk : k < n)
    {arr' : Nat → Option α} (harr : ∀ e, e ≠ (s + k) % n → arr' e = arr e) :
    FilledOutside n arr' s (k + 1) := by
  intro e he hle
  have hne : e ≠ (s + k) % n := by
    intro heq
    have := (eq_add_iff_offset hs he hk).1 heq
    omega
  rw [harr e hne]
  exact h e he (by omega)

/-- The window drops its first slot, which is filled. -/
theorem FilledOutside.drop (h : FilledOutside n arr s (k + 1)) (hs : s < n)
    {arr' : Nat → Option α} (hfilled : arr' s ≠ none) (harr : ∀ e, e ≠ s → arr' e = arr e) :
    FilledOutside n arr' ((s + 1) % n) k := by
  intro e he hle
  have hsucc := offset_succ hs he
  by_cases heq : e = s
  · rw [heq]
    exact hfilled
  · rw [if_neg heq] at hsucc
    rw [harr e heq]
    exact h e he (by omega)

end LinuxDrivers.Ring
