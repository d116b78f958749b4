import Mathlib.Data.List.Basic

/-!
# Loops that move data piece by piece

A device takes a bounded piece at a time. The loop goes on behind the bytes that were moved, stops
at the first piece that fails, and reports that failure only when nothing was moved before.
-/

namespace LinuxDrivers

universe u

variable {σ : Type u}

/-- `while (count)`: `move s pos count` moves some of the `count` bytes from `pos` on. -/
def chunkLoop (move : σ → Nat → Nat → Int × σ) : Nat → σ → Nat → Nat → Int × σ
  | 0, s, pos, _ => (pos, s)
  | fuel + 1, s, pos, count =>
    if count = 0 then (pos, s)
    else if (move s pos count).1 ≤ 0 then
      (if pos = 0 then (move s pos count).1 else pos, (move s pos count).2)
    else
      chunkLoop move fuel (move s pos count).2 (pos + (move s pos count).1.toNat)
        (count - (move s pos count).1.toNat)

section

variable {move : σ → Nat → Nat → Int × σ} {total : Nat} {At Torn : Nat → σ → Prop} {err : Int}

/-- A piece that moves at least one byte. -/
theorem chunkLoop_of_moved {fuel : Nat} {s s' : σ} {pos count n : Nat} (hn : 0 < n)
    (hcount : 0 < count) (h : move s pos count = ((n : Int), s')) :
    chunkLoop move (fuel + 1) s pos count = chunkLoop move fuel s' (pos + n) (count - n) := by
  have hc : count ≠ 0 := by omega
  have hpos : ¬ ((n : Int) ≤ 0) := by omega
  simp only [chunkLoop, hc, ↓reduceIte, h, hpos, Int.toNat_natCast]

/-- A piece that fails. -/
theorem chunkLoop_of_failed {fuel : Nat} {s s' : σ} {pos count : Nat} (herr : err ≤ 0)
    (hcount : 0 < count) (h : move s pos count = (err, s')) :
    chunkLoop move (fuel + 1) s pos count = (if pos = 0 then err else pos, s') := by
  have hc : count ≠ 0 := by omega
  simp only [chunkLoop, hc, ↓reduceIte, h, herr]

/-- **Pieces.** When every piece either moves some bytes on or fails behind what was moved, the loop
moves everything, or it stops behind some position and reports it. -/
theorem chunkLoop_spec (herr : err ≤ 0)
    (hmove : ∀ s pos count, At pos s → 0 < count → pos + count = total →
      (∃ n s', 0 < n ∧ n ≤ count ∧ move s pos count = ((n : Int), s') ∧ At (pos + n) s') ∨
        ∃ s', move s pos count = (err, s') ∧ Torn pos s')
    {fuel : Nat} {s : σ} {pos count : Nat} (hs : At pos s) (hfuel : count ≤ fuel)
    (htotal : pos + count = total) :
    (∃ s', chunkLoop move fuel s pos count = ((total : Int), s') ∧ At total s') ∨
      ∃ j s', pos ≤ j ∧ j < total ∧
        chunkLoop move fuel s pos count = (if j = 0 then err else j, s') ∧ Torn j s' := by
  induction fuel generalizing s pos count with
  | zero =>
    obtain rfl : count = 0 := by omega
    obtain rfl : pos = total := by omega
    exact .inl ⟨s, rfl, hs⟩
  | succ fuel ih =>
    by_cases hc : count = 0
    · subst hc
      obtain rfl : pos = total := by omega
      exact .inl ⟨s, by simp [chunkLoop], hs⟩
    have hpos : 0 < count := by omega
    rcases hmove s pos count hs hpos htotal with ⟨n, s', hn, hle, hm, hs'⟩ | ⟨s', hm, hs'⟩
    · rw [chunkLoop_of_moved hn hpos hm]
      have hfuel' : count - n ≤ fuel := by omega
      rcases ih hs' hfuel' (by omega) with h | ⟨j, t, hj, hjt, h, ht⟩
      · exact .inl h
      · have hle' : pos ≤ j := by omega
        exact .inr ⟨j, t, hle', hjt, h, ht⟩
    · rw [chunkLoop_of_failed herr hpos hm]
      exact .inr ⟨pos, s', Nat.le_refl pos, by omega, rfl, hs'⟩

end

end LinuxDrivers
