import Mathlib.Data.List.Perm.Subperm

/-!
# Linear search

`findFrom p n i` is the loop `for (; n--; i++) if (p(i)) return i;`, the first-fit search of an
allocator. `List.takeWhile` is the same loop over an array, left at its first failure. Counts of
numbers go with them.
-/

namespace LinuxDrivers

universe u

/-- The first of the `n` numbers from `i` on that satisfies `p`. -/
def findFrom (p : Nat → Bool) : Nat → Nat → Option Nat
  | 0, _ => none
  | n + 1, i => if p i then some i else findFrom p n (i + 1)

theorem findFrom_eq_some {p : Nat → Bool} {n i j : Nat} (h : findFrom p n i = some j) :
    i ≤ j ∧ j < i + n ∧ p j = true ∧ ∀ k, i ≤ k → k < j → p k = false := by
  induction n generalizing i with
  | zero => cases h
  | succ n ih =>
    simp only [findFrom] at h
    split at h
    · next hp =>
      cases h
      exact ⟨Nat.le_refl _, by omega, hp, fun k h1 h2 => by omega⟩
    · next hp =>
      obtain ⟨h1, h2, h3, h4⟩ := ih h
      refine ⟨by omega, by omega, h3, fun k hk hkj => ?_⟩
      by_cases e : k = i
      · rw [e]; simpa using hp
      · exact h4 k (by omega) hkj

theorem findFrom_eq_none {p : Nat → Bool} {n i : Nat} :
    findFrom p n i = none ↔ ∀ k, i ≤ k → k < i + n → p k = false := by
  induction n generalizing i with
  | zero => simp [findFrom]; omega
  | succ n ih =>
    simp only [findFrom]
    split
    · next hp =>
      simp only [reduceCtorEq, false_iff, not_forall]
      exact ⟨i, Nat.le_refl _, by omega, by simp [hp]⟩
    · next hp =>
      rw [ih]
      constructor
      · intro h k h1 h2
        by_cases e : k = i
        · rw [e]; simpa using hp
        · exact h k (by omega) (by omega)
      · intro h k h1 h2
        exact h k (by omega) (by omega)

theorem findFrom_isSome_of {p : Nat → Bool} {n i k : Nat} (h1 : i ≤ k) (h2 : k < i + n)
    (hp : p k = true) : ∃ j, findFrom p n i = some j := by
  cases h : findFrom p n i with
  | some j => exact ⟨j, rfl⟩
  | none => rw [findFrom_eq_none.1 h k h1 h2] at hp; cases hp

/-- The first number that satisfies `p` is found. -/
theorem findFrom_of_first {p : Nat → Bool} {n i j : Nat} (h1 : i ≤ j) (h2 : j < i + n)
    (hp : p j = true) (hfirst : ∀ k, i ≤ k → k < j → p k = false) : findFrom p n i = some j := by
  obtain ⟨j', hj'⟩ := findFrom_isSome_of h1 h2 hp
  obtain ⟨h3, -, hp', hfirst'⟩ := findFrom_eq_some hj'
  rcases Nat.lt_trichotomy j j' with hlt | rfl | hlt
  · rw [hfirst' j h1 hlt] at hp
    cases hp
  · exact hj'
  · rw [hfirst j' h3 hlt] at hp'
    cases hp'

/-- A search can be cut in two. -/
theorem findFrom_add (p : Nat → Bool) (m n i : Nat) : findFrom p (m + n) i =
    match findFrom p m i with
    | some j => some j
    | none => findFrom p n (i + m) := by
  induction m generalizing i with
  | zero => simp [findFrom]
  | succ m ih =>
    rw [Nat.succ_add]
    simp only [findFrom]
    split
    · rfl
    · rw [ih, Nat.succ_add_eq_add_succ]

/-- A search with shifted numbers. -/
theorem findFrom_shift (p : Nat → Bool) (c n i : Nat) :
    findFrom (fun k => p (c + k)) n i = (findFrom p n (c + i)).map (· - c) := by
  induction n generalizing i with
  | zero => rfl
  | succ n ih =>
    simp only [findFrom]
    split
    · simp
    · rw [ih]
      rfl

theorem findFrom_congr {p q : Nat → Bool} {n i : Nat}
    (h : ∀ k, i ≤ k → k < i + n → p k = q k) : findFrom p n i = findFrom q n i := by
  induction n generalizing i with
  | zero => rfl
  | succ n ih =>
    simp only [findFrom, h i (Nat.le_refl _) (by omega)]
    rw [ih fun k h1 h2 => h k (by omega) (by omega)]

/-- How many of the `n` numbers from `i` on satisfy `p`. -/
def countFrom (p : Nat → Bool) (n i : Nat) : Nat := (List.range' i n).countP p

theorem countFrom_congr {p q : Nat → Bool} {n i : Nat}
    (h : ∀ k, i ≤ k → k < i + n → p k = q k) : countFrom p n i = countFrom q n i := by
  unfold countFrom
  apply List.countP_congr
  intro k hk
  have := List.mem_range'_1.1 hk
  rw [h k this.1 this.2]

/-- A search fails when there is nothing to find. -/
theorem countFrom_of_none {p : Nat → Bool} {n i : Nat} (h : findFrom p n i = none) :
    countFrom p n i = 0 := by
  unfold countFrom
  rw [List.countP_eq_zero]
  intro k hk
  have := List.mem_range'_1.1 hk
  simp [findFrom_eq_none.1 h k this.1 this.2]

/-- Taking what a search found leaves one less. -/
theorem countFrom_of_some {p : Nat → Bool} {n i b : Nat} (h : findFrom p n i = some b) :
    countFrom (fun k => p k && k != b) n i + 1 = countFrom p n i := by
  induction n generalizing i with
  | zero => cases h
  | succ n ih =>
    have hsucc : ∀ q : Nat → Bool,
        countFrom q (n + 1) i = countFrom q n (i + 1) + if q i then 1 else 0 := by
      intro q
      rw [countFrom, List.range'_succ, List.countP_cons]
      rfl
    rw [hsucc, hsucc]
    unfold findFrom at h
    by_cases hp : p i = true
    · rw [if_pos hp] at h
      have hb : i = b := Option.some.inj h
      subst hb
      rw [countFrom_congr (p := fun k => p k && k != i) (q := p)]
      · simp [hp]
      · intro k h1 _
        simp [show k ≠ i by omega]
    · rw [if_neg hp] at h
      rw [← ih h]
      simp [hp]

/-- Distinct numbers that satisfy `p` are at most as many as there are. -/
theorem length_le_countFrom {p : Nat → Bool} {n i : Nat} {l : List Nat} (hl : l.Nodup)
    (h : ∀ k ∈ l, i ≤ k ∧ k < i + n ∧ p k = true) : l.length ≤ countFrom p n i := by
  have hsub : l ⊆ (List.range' i n).filter p := by
    intro k hk
    obtain ⟨h1, h2, h3⟩ := h k hk
    exact List.mem_filter.2 ⟨List.mem_range'_1.2 ⟨h1, h2⟩, h3⟩
  unfold countFrom
  rw [List.countP_eq_length_filter]
  exact (hl.subperm hsub).length_le

/-- An element stands in the leading run when everything up to it satisfies `p`. -/
theorem mem_takeWhile_iff {α : Type u} {p : α → Bool} {l : List α} {x : α} :
    x ∈ l.takeWhile p ↔ ∃ j : Nat, l[j]? = some x ∧ ∀ k ≤ j, ∀ y, l[k]? = some y → p y = true := by
  induction l with
  | nil => simp
  | cons a l ih =>
    rw [List.takeWhile_cons]
    by_cases ha : p a = true
    · simp only [ha, ↓reduceIte, List.mem_cons, ih]
      constructor
      · rintro (rfl | ⟨j, hj, hk⟩)
        · refine ⟨0, rfl, fun k hk y hy => ?_⟩
          rw [Nat.le_zero.1 hk] at hy
          cases hy
          exact ha
        · refine ⟨j + 1, by simpa using hj, fun k hkj y hy => ?_⟩
          cases k with
          | zero => cases hy; exact ha
          | succ k => exact hk k (by omega) y (by simpa using hy)
      · rintro ⟨j, hj, hk⟩
        cases j with
        | zero => cases hj; exact .inl rfl
        | succ j =>
          refine .inr ⟨j, by simpa using hj, fun k hkj y hy => ?_⟩
          exact hk (k + 1) (by omega) y (by simpa using hy)
    · simp only [ha, Bool.false_eq_true, ↓reduceIte, List.not_mem_nil, false_iff]
      rintro ⟨j, -, hk⟩
      exact ha (hk 0 (Nat.zero_le j) a rfl)

/-! ## Counting -/

/-- A predicate that holds up to some number holds for as many numbers. -/
theorem lt_countP_iff {p : Nat → Bool} {n : Nat} (hdown : ∀ j k, k ≤ j → p j = true → p k = true)
    (hlt : ∀ k, p k = true → k < n) (k : Nat) : p k = true ↔ k < (List.range n).countP p := by
  induction n generalizing k with
  | zero =>
    refine ⟨fun hk => absurd (hlt k hk) (Nat.not_lt_zero k), fun hk => absurd hk ?_⟩
    exact Nat.not_lt_zero k
  | succ n ih =>
    rw [List.range_succ, List.countP_append, List.countP_singleton]
    by_cases hn : p n = true
    · have hall : (List.range n).countP p = n := by
        rw [List.countP_eq_length.2 fun j hj => hdown n j (Nat.le_of_lt (List.mem_range.1 hj)) hn,
          List.length_range]
      rw [hall, if_pos hn]
      exact ⟨hlt k, fun hk => hdown n k (by omega) hn⟩
    · rw [if_neg hn, Nat.add_zero]
      refine ih (fun j hj => ?_) k
      have hne : j ≠ n := fun e => hn (e ▸ hj)
      have := hlt j hj
      omega

/-- Only number `i` changes. -/
theorem countP_range_add (p p' : Nat → Bool) {n i : Nat} (hi : i < n)
    (h : ∀ j < n, j ≠ i → p' j = p j) :
    (List.range n).countP p' + (if p i then 1 else 0) =
      (List.range n).countP p + if p' i then 1 else 0 := by
  induction n with
  | zero => exact absurd hi (Nat.not_lt_zero i)
  | succ n ih =>
    simp only [List.range_succ, List.countP_append, List.countP_singleton]
    by_cases hin : i = n
    · subst hin
      have hbelow : (List.range i).countP p' = (List.range i).countP p := by
        apply List.countP_congr
        intro j hj
        have hlt := List.mem_range.1 hj
        rw [h j (by omega) (by omega)]
      rw [hbelow, Nat.add_right_comm]
    · have hprev := ih (by omega) fun j hj => h j (by omega)
      rw [h n (by omega) fun e => hin e.symm, Nat.add_right_comm, hprev, Nat.add_right_comm]

end LinuxDrivers
