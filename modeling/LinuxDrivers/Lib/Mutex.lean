import LinuxDrivers.Lib.Run
import Mathlib.Logic.Function.Basic

/-!
# A lock that is not recursive

Tasks run straight-line programs that share one lock. A task that wants the lock waits as long as
any task holds it, also when it holds the lock itself. `Safe` programs give back only what they
hold; one that `Relocks` never ends.
-/

namespace LinuxDrivers

/-- What a task does next. -/
inductive LockOp where
  | lock
  | unlock
  | work
  deriving DecidableEq

namespace LockOp

/-- A program, which may hold the lock already, unlocks only what it holds, and it holds nothing at
its end; what follows a second `lock` is never reached. -/
def Safe : Bool → List LockOp → Prop
  | held, [] => held = false
  | held, work :: p => Safe held p
  | true, lock :: _ => True
  | false, lock :: p => Safe true p
  | true, unlock :: p => Safe false p
  | false, unlock :: _ => False

/-- A program takes the lock again while it holds it. -/
def Relocks : Bool → List LockOp → Prop
  | _, [] => False
  | held, work :: p => Relocks held p
  | true, lock :: _ => True
  | false, lock :: p => Relocks true p
  | _, unlock :: p => Relocks false p

/-- Programs one after the other. -/
theorem Safe.append {held : Bool} {p q : List LockOp} (hp : Safe held p) (hq : Safe false q) :
    Safe held (p ++ q) := by
  induction p generalizing held with
  | nil =>
    obtain rfl : held = false := hp
    exact hq
  | cons op p ih =>
    cases op <;> cases held <;> first | exact ih hp | exact hp

theorem relocks_append {held : Bool} {p q : List LockOp} (hp : Safe held p) :
    Relocks held (p ++ q) ↔ Relocks held p ∨ Relocks false q := by
  induction p generalizing held with
  | nil =>
    obtain rfl : held = false := hp
    simp [Relocks]
  | cons op p ih =>
    cases op with
    | work => exact ih hp
    | lock =>
      cases held with
      | false => exact ih hp
      | true => simp [Relocks]
    | unlock =>
      cases held with
      | false => exact hp.elim
      | true => exact ih hp

end LockOp

open LockOp

universe u

/-- The owner of the lock, and what every task still has to do. -/
structure LockState (ι : Type u) where
  owner : Option ι
  progs : ι → List LockOp

variable {ι : Type u} [DecidableEq ι]

/-- Task `i` runs until its next operation is done; a task that has to wait does nothing. -/
def lockStep (s : LockState ι) (i : ι) : LockState ι :=
  match s.progs i with
  | [] => s
  | work :: p => { s with progs := Function.update s.progs i p }
  | lock :: p =>
    if s.owner = none then { owner := some i, progs := Function.update s.progs i p } else s
  | unlock :: p => { owner := none, progs := Function.update s.progs i p }

namespace LockState

/-- Task `i` holds the lock. -/
def held (s : LockState ι) (i : ι) : Bool := decide (s.owner = some i)

/-- Every task is safe with what it holds. -/
def AllSafe (s : LockState ι) : Prop := ∀ i, Safe (s.held i) (s.progs i)

def Finished (s : LockState ι) : Prop := ∀ i, s.progs i = []

variable {s : LockState ι} {i j : ι}

theorem held_eq_true : s.held i = true ↔ s.owner = some i := by simp [held]

/-- What a task does keeps what the others hold and have to do. -/
theorem step_other (hs : s.AllSafe) (hij : j ≠ i) :
    (lockStep s i).held j = s.held j ∧ (lockStep s i).progs j = s.progs j := by
  have hi := hs i
  unfold lockStep
  split
  · exact ⟨rfl, rfl⟩
  · exact ⟨rfl, Function.update_of_ne hij _ _⟩
  · split
    · next hnone => simp [held, hnone, Function.update_of_ne hij, Ne.symm hij]
    · exact ⟨rfl, rfl⟩
  · next p hp =>
    have howner : s.owner = some i := by
      rw [hp] at hi
      cases hheld : s.held i with
      | false => rw [hheld] at hi; exact hi.elim
      | true => exact held_eq_true.1 hheld
    simp [held, howner, Function.update_of_ne hij, Ne.symm hij]

/-- What a task does itself: it waits, or its first operation is done. -/
theorem step_self (hs : s.AllSafe) :
    ((lockStep s i).held i = s.held i ∧ (lockStep s i).progs i = s.progs i) ∨
      ∃ p, (lockStep s i).progs i = p ∧
        (s.progs i = work :: p ∧ (lockStep s i).held i = s.held i ∨
          s.progs i = lock :: p ∧ s.held i = false ∧ (lockStep s i).held i = true ∨
          s.progs i = unlock :: p ∧ s.held i = true ∧ (lockStep s i).held i = false) := by
  have hi := hs i
  unfold lockStep
  split
  · exact .inl ⟨rfl, rfl⟩
  · next p hp => exact .inr ⟨p, by simp, .inl ⟨hp, rfl⟩⟩
  · next p hp =>
    split
    · next hnone => exact .inr ⟨p, by simp, .inr (.inl ⟨hp, by simp [held, hnone], by simp [held]⟩)⟩
    · exact .inl ⟨rfl, rfl⟩
  · next p hp =>
    refine .inr ⟨p, by simp, .inr (.inr ⟨hp, ?_, by simp [held]⟩)⟩
    rw [hp] at hi
    cases hheld : s.held i with
    | false => rw [hheld] at hi; exact hi.elim
    | true => rfl

/-- A step keeps every task safe, and it changes for no task whether it relocks. -/
theorem step_keeps (hs : s.AllSafe) (j : ι) :
    Safe ((lockStep s i).held j) ((lockStep s i).progs j) ∧
      (Relocks ((lockStep s i).held j) ((lockStep s i).progs j) ↔
        Relocks (s.held j) (s.progs j)) := by
  have hj := hs j
  by_cases hij : j = i
  · subst hij
    rcases step_self (i := j) hs with ⟨hh, hp⟩ | ⟨p, hp', h⟩
    · rw [hh, hp]
      exact ⟨hj, Iff.rfl⟩
    · rw [hp']
      rcases h with ⟨hp, hh⟩ | ⟨hp, hh, hh'⟩ | ⟨hp, hh, hh'⟩
      · rw [hp] at hj
        rw [hp, hh]
        exact ⟨hj, Iff.rfl⟩
      · rw [hp, hh] at hj
        rw [hp, hh, hh']
        exact ⟨hj, Iff.rfl⟩
      · rw [hp, hh] at hj
        rw [hp, hh, hh']
        exact ⟨hj, Iff.rfl⟩
  · obtain ⟨hh, hp⟩ := step_other hs hij
    rw [hh, hp]
    exact ⟨hj, Iff.rfl⟩

theorem run_keeps (hs : s.AllSafe) (sched : List ι) :
    (run lockStep s sched).AllSafe ∧ ∀ j,
      (Relocks ((run lockStep s sched).held j) ((run lockStep s sched).progs j) ↔
        Relocks (s.held j) (s.progs j)) := by
  induction sched generalizing s with
  | nil => exact ⟨hs, fun _ => Iff.rfl⟩
  | cons i sched ih =>
    obtain ⟨hsafe, hiff⟩ := ih fun j => (step_keeps hs j).1
    exact ⟨hsafe, fun j => (hiff j).trans (step_keeps hs j).2⟩

/-! ## Finishing -/

/-- A task that nothing keeps from the lock can finish on its own. -/
theorem exists_finish (hs : s.AllSafe) (hi : ¬ Relocks (s.held i) (s.progs i))
    (hfree : s.owner = none ∨ s.owner = some i) :
    ∃ sched, (run lockStep s sched).progs i = [] ∧ (run lockStep s sched).owner = none ∧
      ∀ j, j ≠ i → (run lockStep s sched).progs j = s.progs j := by
  induction hp : s.progs i generalizing s with
  | nil =>
    refine ⟨[], hp, ?_, fun j _ => rfl⟩
    have hsi := hs i
    rw [hp] at hsi
    rcases hfree with h | h
    · exact h
    · rw [held_eq_true.2 h] at hsi
      exact absurd (show true = false from hsi) (by decide)
  | cons op p ih =>
    have hnext : (lockStep s i).progs i = p ∧
        ((lockStep s i).owner = none ∨ (lockStep s i).owner = some i) := by
      unfold lockStep
      rw [hp]
      cases op with
      | work => exact ⟨by simp, hfree⟩
      | unlock => exact ⟨by simp, .inl rfl⟩
      | lock =>
        rcases hfree with h | h
        · simp [h]
        · rw [hp, held_eq_true.2 h] at hi
          exact absurd trivial hi
    have hsafe : (lockStep s i).AllSafe := fun j => (step_keeps hs j).1
    have hrel := mt (step_keeps (i := i) hs i).2.1 hi
    obtain ⟨sched, hdone, hnone, hothers⟩ := ih hsafe hrel hnext.2 hnext.1
    refine ⟨i :: sched, hdone, hnone, fun j hj => ?_⟩
    rw [run_cons, hothers j hj, (step_other hs hj).2]

/-- Tasks that do not relock can finish one after the other when the lock is free. -/
theorem exists_finish_all (hs : s.AllSafe) (hrel : ∀ i, ¬ Relocks (s.held i) (s.progs i))
    (hfree : s.owner = none) (tasks : List ι) :
    ∃ sched, (run lockStep s sched).owner = none ∧
      (∀ i ∈ tasks, (run lockStep s sched).progs i = []) ∧
      ∀ i, s.progs i = [] → (run lockStep s sched).progs i = [] := by
  induction tasks generalizing s with
  | nil => exact ⟨[], hfree, by simp, fun i hi => hi⟩
  | cons i tasks ih =>
    obtain ⟨first, hdone, hnone, hothers⟩ := exists_finish hs (hrel i) (.inl hfree)
    obtain ⟨hsafe, hiff⟩ := run_keeps hs first
    obtain ⟨rest, hnone', htasks, hkept⟩ := ih hsafe (fun j => mt (hiff j).1 (hrel j)) hnone
    refine ⟨first ++ rest, by rwa [run_append], ?_, ?_⟩
    · intro j hj
      rw [run_append]
      rcases List.mem_cons.1 hj with rfl | hj
      · exact hkept j hdone
      · exact htasks j hj
    · intro j hj
      rw [run_append]
      apply hkept
      by_cases hij : j = i
      · rw [hij]
        exact hdone
      · rw [hothers j hij, hj]

/-- **Deadlocks.** Safe tasks can all finish exactly when none of them relocks. -/
theorem finishes_iff (hs : s.AllSafe) {tasks : List ι} (htasks : ∀ i, i ∈ tasks) :
    (∃ sched, (run lockStep s sched).Finished) ↔ ∀ i, ¬ Relocks (s.held i) (s.progs i) := by
  constructor
  · rintro ⟨sched, hfin⟩ i hrel
    have h := ((run_keeps hs sched).2 i).2 hrel
    rw [hfin i] at h
    exact h
  · intro hrel
    cases howner : s.owner with
    | none =>
      obtain ⟨sched, _, hdone, _⟩ := exists_finish_all hs hrel howner tasks
      exact ⟨sched, fun i => hdone i (htasks i)⟩
    | some i =>
      obtain ⟨first, _, hnone, _⟩ := exists_finish hs (hrel i) (.inr howner)
      obtain ⟨hsafe, hiff⟩ := run_keeps hs first
      obtain ⟨rest, _, hdone, _⟩ :=
        exists_finish_all hsafe (fun j => mt (hiff j).1 (hrel j)) hnone tasks
      exact ⟨first ++ rest, fun j => by rw [run_append]; exact hdone j (htasks j)⟩

/-- **Stuck.** From when a task waits for the lock that it holds, no task takes the lock. -/
theorem stuck (hs : s.AllSafe) (howner : s.owner = some i) {p : List LockOp}
    (hp : s.progs i = lock :: p) (sched : List ι) :
    (run lockStep s sched).owner = some i ∧ (run lockStep s sched).progs i = lock :: p ∧
      ∀ j, lock ∈ s.progs j → lock ∈ (run lockStep s sched).progs j := by
  induction sched generalizing s with
  | nil => exact ⟨howner, hp, fun _ h => h⟩
  | cons k sched ih =>
    have hheld (j : ι) (hj : j ≠ i) : s.held j = false := by simp [held, howner, Ne.symm hj]
    have hstep : (lockStep s k).owner = some i ∧ (lockStep s k).progs i = lock :: p ∧
        ∀ j, lock ∈ s.progs j → lock ∈ (lockStep s k).progs j := by
      have hk := hs k
      by_cases hki : k = i
      · subst hki
        simp [lockStep, hp, howner]
      unfold lockStep
      split
      · exact ⟨howner, hp, fun _ h => h⟩
      · next q hq =>
        refine ⟨howner, by simp [Function.update_of_ne (Ne.symm hki), hp], fun j hj => ?_⟩
        by_cases hjk : j = k
        · subst hjk
          rw [hq] at hj
          simpa using hj
        · simpa [Function.update_of_ne hjk] using hj
      · simp [howner, hp]
      · next q hq =>
        rw [hq, hheld k hki] at hk
        exact hk.elim
    obtain ⟨h₁, h₂, h₃⟩ := ih (fun j => (step_keeps hs j).1) hstep.1 hstep.2.1
    exact ⟨h₁, h₂, fun j hj => h₃ j (hstep.2.2 j hj)⟩

end LockState

end LinuxDrivers
