import Mathlib.Algebra.GroupWithZero.Nat
import Mathlib.Data.List.Nodup
import Mathlib.Logic.Basic
import LinuxDrivers.Lib.Search

/-!
# Block ownership

Positions `ι` hold blocks `β`, `0` meaning none, and an allocator marks blocks as used. `Sound` says
that no block is held twice and that every held block is marked; `Exact` adds that nothing else is
marked. Every operation of an allocator is one of two: positions are dropped and some of their
blocks released, or one position is given a block that was not marked.
-/

namespace LinuxDrivers.Ownership

universe u v

variable {ι : Type u} {β : Type v} [Zero β]

/-- Held blocks lie in the region, are marked, and are held once. -/
structure Sound (region used : β → Prop) (slot : ι → β) : Prop where
  in_region : ∀ i, slot i ≠ 0 → region (slot i)
  marked : ∀ i, slot i ≠ 0 → used (slot i)
  inj : ∀ i j, slot i ≠ 0 → slot i = slot j → i = j

namespace Sound

variable {region used used' : β → Prop} {slot slot' : ι → β}

/-- Nothing is held in an empty table. -/
theorem empty (h : ∀ i, slot i = 0) : Sound region used slot :=
  ⟨fun i hi => absurd (h i) hi, fun i hi => absurd (h i) hi, fun i _ hi => absurd (h i) hi⟩

/-- Dropping positions and releasing blocks that only they held. -/
theorem drop (h : Sound region used slot) (hslot : ∀ i, slot' i = slot i ∨ slot' i = 0)
    (hused : ∀ b, used b → used' b ∨ ∃ i, slot i = b ∧ slot' i = 0) :
    Sound region used' slot' := by
  have hkeep : ∀ i, slot' i ≠ 0 → slot' i = slot i := fun i hi =>
    (hslot i).resolve_right hi
  refine ⟨fun i hi => ?_, fun i hi => ?_, fun i j hi hij => ?_⟩
  · have hi' := hkeep i hi
    rw [hi'] at hi ⊢
    exact h.in_region i hi
  · have hi' := hkeep i hi
    have hne : slot i ≠ 0 := hi' ▸ hi
    rw [hi']
    rcases hused _ (h.marked i hne) with hu | ⟨j, hj, hj0⟩
    · exact hu
    · -- the dropped holder of this block would be `i` itself
      have hji : i = j := h.inj i j hne hj.symm
      exact absurd (hji ▸ hj0) hi
  · have hj : slot' j ≠ 0 := hij ▸ hi
    have hi' := hkeep i hi
    rw [hi', hkeep j hj] at hij
    rw [hi'] at hi
    exact h.inj i j hi hij

/-- Giving one position a block that was not marked. -/
theorem assign (h : Sound region used slot) {p : ι} {b : β} (hb : region b) (hfree : ¬ used b)
    (hp : slot' p = b) (hslot : ∀ i, i ≠ p → slot' i = slot i)
    (hused : ∀ c, used c ∨ c = b → used' c) : Sound region used' slot' := by
  refine ⟨fun i hi => ?_, fun i hi => ?_, fun i j hi hij => ?_⟩
  · by_cases e : i = p
    · rw [e, hp]; exact hb
    · rw [hslot i e] at hi ⊢
      exact h.in_region i hi
  · by_cases e : i = p
    · rw [e, hp]; exact hused b (.inr rfl)
    · rw [hslot i e] at hi ⊢
      exact hused _ (.inl (h.marked i hi))
  · -- the new block is not marked, so no other position holds it
    have hnew : ∀ k, k ≠ p → slot k ≠ 0 → slot k ≠ b := fun k _ hk hkb =>
      hfree (hkb ▸ h.marked k hk)
    have hj : slot' j ≠ 0 := hij ▸ hi
    by_cases ei : i = p <;> by_cases ej : j = p
    · rw [ei, ej]
    · rw [ei, hp, hslot j ej] at hij
      rw [hslot j ej] at hj
      exact absurd hij.symm (hnew j ej hj)
    · rw [ej, hp, hslot i ei] at hij
      rw [hslot i ei] at hi
      exact absurd hij (hnew i ei hi)
    · rw [hslot i ei] at hi
      rw [hslot i ei, hslot j ej] at hij
      exact h.inj i j hi hij

end Sound

/-- Sound ownership in which every mark has a reason: the block lies outside the region, among
those marked once and for all, or it is held. -/
structure Exact (base region used : β → Prop) (slot : ι → β) : Prop
    extends Sound region used slot where
  apart : ∀ b, base b → ¬ region b
  base_used : ∀ b, base b → used b
  held : ∀ b, used b → base b ∨ ∃ i, slot i ≠ 0 ∧ slot i = b

namespace Exact

variable {base region used used' : β → Prop} {slot slot' : ι → β}

theorem used_iff (h : Exact base region used slot) (b : β) :
    used b ↔ base b ∨ ∃ i, slot i ≠ 0 ∧ slot i = b := by
  refine ⟨h.held b, ?_⟩
  rintro (hb | ⟨i, hi, rfl⟩)
  · exact h.base_used b hb
  · exact h.marked i hi

/-- Dropping positions and releasing exactly the blocks they held. -/
theorem drop (h : Exact base region used slot) (hslot : ∀ i, slot' i = slot i ∨ slot' i = 0)
    (hused : ∀ b, used' b ↔ used b ∧ ∀ i, slot i ≠ 0 → slot i = b → slot' i ≠ 0) :
    Exact base region used' slot' where
  toSound := by
    refine h.toSound.drop hslot fun b hb => ?_
    by_cases hkept : ∀ i, slot i ≠ 0 → slot i = b → slot' i ≠ 0
    · exact .inl ((hused b).2 ⟨hb, hkept⟩)
    · simp only [not_forall, not_not] at hkept
      obtain ⟨i, -, hi, hi'⟩ := hkept
      exact .inr ⟨i, hi, hi'⟩
  apart := h.apart
  base_used b hb := by
    refine (hused b).2 ⟨h.base_used b hb, fun i hi hib => ?_⟩
    exact absurd (hib ▸ h.in_region i hi) (h.apart b hb)
  held b hb := by
    obtain ⟨hu, hkept⟩ := (hused b).1 hb
    rcases h.held b hu with hbase | ⟨i, hi, hib⟩
    · exact .inl hbase
    · have hi' := hkept i hi hib
      exact .inr ⟨i, hi', ((hslot i).resolve_right hi').trans hib⟩

/-- Giving an empty position a block that was not marked. -/
theorem assign (h : Exact base region used slot) {p : ι} {b : β} (hb : region b)
    (hfree : ¬ used b) (hb0 : b ≠ 0) (hp0 : slot p = 0) (hp : slot' p = b)
    (hslot : ∀ i, i ≠ p → slot' i = slot i) (hused : ∀ c, used' c ↔ used c ∨ c = b) :
    Exact base region used' slot' where
  toSound := h.toSound.assign hb hfree hp hslot fun c hc => (hused c).2 hc
  apart := h.apart
  base_used c hc := (hused c).2 (.inl (h.base_used c hc))
  held c hc := by
    rcases (hused c).1 hc with hu | rfl
    · rcases h.held c hu with hbase | ⟨i, hi, hic⟩
      · exact .inl hbase
      · have hip : i ≠ p := fun e => hi (e ▸ hp0)
        rw [← hslot i hip] at hi hic
        exact .inr ⟨i, hi, hic⟩
    · exact .inr ⟨p, hp ▸ hb0, hp⟩

/-- **Conservation.** In a region of `n` blocks, what is free and what is held makes up all
of it. -/
theorem countFrom_free {base used : Nat → Prop} {slot : ι → Nat} {s n : Nat}
    (h : Exact base (fun b => s ≤ b ∧ b < s + n) used slot) {ps : List ι} (hnd : ps.Nodup)
    (hps : ∀ i, slot i ≠ 0 → i ∈ ps) {free : Nat → Bool}
    (hfree : ∀ b, s ≤ b → b < s + n → (free b = true ↔ ¬ used b)) :
    countFrom free n s + ps.countP (slot · != 0) = n := by
  have hheld : ((ps.filter (slot · != 0)).map slot).Perm ((List.range' s n).filter (! free ·)) := by
    rw [List.perm_ext_iff_of_nodup]
    · intro b
      simp only [List.mem_map, List.mem_filter, bne_iff_ne, Bool.not_eq_true', List.mem_range'_1]
      constructor
      · rintro ⟨i, ⟨-, hi⟩, rfl⟩
        obtain ⟨h1, h2⟩ := h.in_region i hi
        refine ⟨⟨h1, h2⟩, ?_⟩
        rw [← Bool.not_eq_true, hfree _ h1 h2, not_not]
        exact h.marked i hi
      · rintro ⟨⟨h1, h2⟩, hb⟩
        rw [← Bool.not_eq_true, hfree _ h1 h2, not_not] at hb
        rcases h.held b hb with hbase | ⟨i, hi, rfl⟩
        · exact absurd ⟨h1, h2⟩ (h.apart b hbase)
        · exact ⟨i, ⟨hps i hi, hi⟩, rfl⟩
    · refine List.Nodup.map_on ?_ (List.Nodup.filter _ hnd)
      intro i hi j _ hij
      exact h.inj i j (by simpa using (List.mem_filter.1 hi).2) hij
    · exact List.Nodup.filter _ List.nodup_range'
  have hcount : ps.countP (slot · != 0) = (List.range' s n).countP (! free ·) := by
    rw [List.countP_eq_length_filter, List.countP_eq_length_filter, ← hheld.length_eq,
      List.length_map]
  have hall := List.length_eq_countP_add_countP free (l := List.range' s n)
  rw [List.length_range'] at hall
  unfold countFrom
  rw [hcount]
  simpa using hall.symm

end Exact

end LinuxDrivers.Ownership
