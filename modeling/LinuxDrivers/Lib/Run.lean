import Mathlib.Data.List.Basic

/-!
# Runs of a deterministic system

A system takes one step per label. `run` is the state after a list of labels, `Along` judges each
label in the state it is taken from, and `invariant` is the induction that every safety statement
below uses; `safe_iff` is the one for conditions that are also necessary.
-/

namespace LinuxDrivers

universe u v

variable {σ : Type u} {α : Type v}

/-- The state after the steps `as`, taken in order from `s`. -/
def run (step : σ → α → σ) (s : σ) (as : List α) : σ :=
  as.foldl step s

@[simp] theorem run_nil (step : σ → α → σ) (s : σ) : run step s [] = s := rfl

@[simp] theorem run_cons (step : σ → α → σ) (s : σ) (a : α) (as : List α) :
    run step s (a :: as) = run step (step s a) as := rfl

theorem run_append (step : σ → α → σ) (s : σ) (as bs : List α) :
    run step s (as ++ bs) = run step (run step s as) bs :=
  List.foldl_append

/-- `P` holds of every step of a run, each judged in the state it is taken from. -/
def Along (step : σ → α → σ) (P : σ → α → Prop) : σ → List α → Prop
  | _, [] => True
  | s, a :: as => P s a ∧ Along step P (step s a) as

@[simp] theorem along_nil (step : σ → α → σ) (P : σ → α → Prop) (s : σ) :
    Along step P s [] := trivial

@[simp] theorem along_cons (step : σ → α → σ) (P : σ → α → Prop) (s : σ) (a : α)
    (as : List α) : Along step P s (a :: as) ↔ P s a ∧ Along step P (step s a) as := Iff.rfl

instance Along.decidable (step : σ → α → σ) (P : σ → α → Prop) [∀ s a, Decidable (P s a)] :
    ∀ (as : List α) (s : σ), Decidable (Along step P s as)
  | [], _ => isTrue trivial
  | a :: as, s =>
    have := Along.decidable step P as (step s a)
    inferInstanceAs (Decidable (P s a ∧ Along step P (step s a) as))

theorem along_append {step : σ → α → σ} {P : σ → α → Prop} {s : σ} {as bs : List α} :
    Along step P s (as ++ bs) ↔ Along step P s as ∧ Along step P (run step s as) bs := by
  induction as generalizing s with
  | nil => simp
  | cons a as ih => simp [ih, and_assoc]

theorem Along.and {step : σ → α → σ} {P Q : σ → α → Prop} {s : σ} {as : List α}
    (hP : Along step P s as) (hQ : Along step Q s as) :
    Along step (fun s a => P s a ∧ Q s a) s as := by
  induction as generalizing s with
  | nil => trivial
  | cons a as ih => exact ⟨⟨hP.1, hQ.1⟩, ih hP.2 hQ.2⟩

/-- A condition that ignores the state can be read off the labels. -/
theorem along_iff_forall {step : σ → α → σ} {P : α → Prop} {s : σ} {as : List α} :
    Along step (fun _ a => P a) s as ↔ ∀ a ∈ as, P a := by
  induction as generalizing s with
  | nil => simp
  | cons a as ih => simp [ih]

theorem along_of_forall {step : σ → α → σ} {P : α → Prop} {s : σ} {as : List α}
    (h : ∀ a ∈ as, P a) : Along step (fun _ a => P a) s as :=
  along_iff_forall.2 h

/-- **Invariants.** What every admitted step preserves holds at the end of every admitted run. -/
theorem Along.invariant {step : σ → α → σ} {P : σ → α → Prop} {I : σ → Prop}
    (hstep : ∀ s a, I s → P s a → I (step s a)) {s : σ} {as : List α} (hs : I s)
    (has : Along step P s as) : I (run step s as) := by
  induction as generalizing s with
  | nil => exact hs
  | cons a as ih => exact ih (hstep s a hs has.1) has.2

/-- What an invariant implies of an admitted step holds of every step of an admitted run. -/
theorem Along.of_invariant {step : σ → α → σ} {V P : σ → α → Prop} {I : σ → Prop}
    (hstep : ∀ s a, I s → V s a → I (step s a)) (hP : ∀ s a, I s → V s a → P s a) {s : σ}
    {as : List α} (hs : I s) (has : Along step V s as) : Along step P s as := by
  induction as generalizing s with
  | nil => trivial
  | cons a as ih => exact ⟨hP s a hs has.1, ih (hstep s a hs has.1) has.2⟩

theorem along_of_invariant {step : σ → α → σ} {P : σ → α → Prop} {I : σ → Prop}
    (hstep : ∀ s a, I s → I (step s a)) (hP : ∀ s a, I s → P s a) {s : σ} (hs : I s)
    (as : List α) : Along step P s as :=
  Along.of_invariant (fun s a h _ => hstep s a h) (fun s a h _ => hP s a h) hs
    (along_of_forall fun _ _ => trivial)

/-- What holds in every state of a run holds before and after each of its steps. -/
theorem along_of_states {step : σ → α → σ} {Q : σ → Prop} {s : σ} {as : List α}
    (h : ∀ pre, pre <+: as → Q (run step s pre)) :
    Along step (fun s a => Q s ∧ Q (step s a)) s as := by
  induction as generalizing s with
  | nil => trivial
  | cons a as ih =>
    refine ⟨⟨h [] List.nil_prefix, h [a] (by simp)⟩, ih fun pre hpre => ?_⟩
    exact h (a :: pre) (by simpa using hpre)

/-- **Exact conditions.** When the steps that meet `C` keep the invariant, and any other step leads
out of `Safe` at once, then a run is safe throughout exactly when all its steps meet `C`. -/
theorem Along.safe_iff {step : σ → α → σ} {V C : σ → α → Prop} {I Safe : σ → Prop}
    (hsafe : ∀ s, I s → Safe s) (hstep : ∀ s a, I s → V s a → C s a → I (step s a))
    (hbad : ∀ s a, I s → V s a → ¬ C s a → ¬ Safe (step s a)) {s : σ} {as : List α} (hs : I s)
    (hV : Along step V s as) :
    (∀ pre, pre <+: as → Safe (run step s pre)) ↔ Along step C s as := by
  induction as generalizing s with
  | nil =>
    constructor
    · intro _
      trivial
    · intro _ pre hpre
      rw [List.prefix_nil.1 hpre]
      exact hsafe s hs
  | cons a as ih =>
    obtain ⟨ha, has⟩ := hV
    constructor
    · intro hall
      have hC : C s a := by
        by_contra hn
        exact hbad s a hs ha hn (hall [a] (by simp))
      refine ⟨hC, (ih (hstep s a hs ha hC) has).1 ?_⟩
      intro pre hpre
      exact hall (a :: pre) (by simpa using hpre)
    · intro hC pre hpre
      cases pre with
      | nil => exact hsafe s hs
      | cons b pre =>
        obtain ⟨rfl, hpre'⟩ := List.cons_prefix_cons.1 hpre
        exact (ih (hstep s b hs ha hC.1) has).2 hC.2 pre hpre'

/-- **Two runs.** When admitted steps with related labels keep related states related, so do whole
runs. -/
theorem Along.related {step : σ → α → σ} {P : σ → α → Prop} {E : α → α → Prop}
    {R : σ → σ → Prop} (hstep : ∀ s t a b, R s t → E a b → P s a → R (step s a) (step t b))
    {s t : σ} {as bs : List α} (h : R s t) (hE : List.Forall₂ E as bs)
    (has : Along step P s as) : R (run step s as) (run step t bs) := by
  induction hE generalizing s t with
  | nil => exact h
  | cons hab _ ih => exact ih (hstep _ _ _ _ h hab has.1) has.2

/-! ## Runs with outputs -/

section Outputs

universe w

variable {β : Type w} {τ : Type u}

/-- The outputs of the steps `as`, and the state after them. -/
def runWith (step : σ → α → β × σ) : σ → List α → List β × σ
  | s, [] => ([], s)
  | s, a :: as =>
    ((step s a).1 :: (runWith step (step s a).2 as).1, (runWith step (step s a).2 as).2)

/-- **Simulation.** When every admitted step gives the same output and keeps the states related, so
does every admitted run. -/
theorem runWith_simulates {step : σ → α → β × σ} {spec : τ → α → β × τ} {R : σ → τ → Prop}
    {V : α → Prop} (hstep : ∀ s t a, R s t → V a →
      (step s a).1 = (spec t a).1 ∧ R (step s a).2 (spec t a).2)
    {s : σ} {t : τ} (h : R s t) {as : List α} (has : ∀ a ∈ as, V a) :
    (runWith step s as).1 = (runWith spec t as).1 ∧
      R (runWith step s as).2 (runWith spec t as).2 := by
  induction as generalizing s t with
  | nil => exact ⟨rfl, h⟩
  | cons a as ih =>
    obtain ⟨hout, hrel⟩ := hstep s t a h (has a List.mem_cons_self)
    obtain ⟨houts, hend⟩ := ih hrel fun b hb => has b (List.mem_cons_of_mem a hb)
    exact ⟨by simp only [runWith, hout, houts], hend⟩

/-- A specification that leaves some choice: its runs with given inputs and outputs. -/
inductive RunsTo (next : τ → α → β → τ → Prop) : τ → List α → List β → τ → Prop where
  | nil {t : τ} : RunsTo next t [] [] t
  | cons {t t' t'' : τ} {a : α} {b : β} {as : List α} {bs : List β} :
    next t a b t' → RunsTo next t' as bs t'' → RunsTo next t (a :: as) (b :: bs) t''

/-- **Refinement.** When every admitted step is one of the specification from every related state,
so is every admitted run. -/
theorem runWith_refines {step : σ → α → β × σ} {next : τ → α → β → τ → Prop} {R : σ → τ → Prop}
    {V : σ → α → Prop} (hstep : ∀ s t a, R s t → V s a →
      ∃ t', next t a (step s a).1 t' ∧ R (step s a).2 t')
    {s : σ} {t : τ} (h : R s t) {as : List α} (has : Along (fun s a => (step s a).2) V s as) :
    ∃ t', RunsTo next t as (runWith step s as).1 t' ∧ R (runWith step s as).2 t' := by
  induction as generalizing s t with
  | nil => exact ⟨t, .nil, h⟩
  | cons a as ih =>
    obtain ⟨t', hnext, hrel⟩ := hstep s t a h has.1
    obtain ⟨t'', hrun, hend⟩ := ih hrel has.2
    exact ⟨t'', .cons hnext hrun, hend⟩

end Outputs

end LinuxDrivers
