import LinuxDrivers.Ddk.ExactlyOnce

/-!
# Requests that nobody fetches

`ddk_request` fetches at most one request, and none while a hand-over is in progress: it relies on
being called again. Completing a request does not run the queue, so when the block layer calls
`ddk_request` once per submission, a request that is submitted during a hand-over stays in the queue
for ever, also when the driver is idle.
-/

namespace LinuxDrivers.Ddk

variable {Req : Type}

/-- No hand-over, no pending work and no running `ddk_transfer`. -/
structure State.Idle (s : State Req) : Prop where
  underProcess : s.underProcess = 0
  pending : s.pending = false
  transfers : s.transfers = []

instance (s : State Req) [DecidableEq Req] : Decidable s.Idle :=
  decidable_of_iff (s.underProcess = 0 ∧ s.pending = false ∧ s.transfers = [])
    ⟨fun h => ⟨h.1, h.2.1, h.2.2⟩, fun h => ⟨h.underProcess, h.pending, h.transfers⟩⟩

/-- A submission finds no hand-over in progress. -/
def Act.Served (s : State Req) : Act Req → Prop
  | .submit _ => s.underProcess = 0
  | _ => True

instance (s : State Req) : (act : Act Req) → Decidable (act.Served s)
  | .submit _ => inferInstanceAs (Decidable (_ = _))
  | .request | .start | .copy _ | .reset _ | .complete _ _ => isTrue trivial

section Step

variable {scheduleWork : ScheduleWork} {s : State Req}

/-- Only submissions and calls of `ddk_request` change the queue. -/
theorem queue_exec (act : Act Req) (hsubmit : ∀ req, act ≠ .submit req) (hcall : act ≠ .request) :
    (act.exec scheduleWork s).queue = s.queue := by
  cases act with
  | submit req => exact absurd rfl (hsubmit req)
  | request => exact absurd rfl hcall
  | start =>
    simp only [Act.exec]
    split <;> rfl
  | copy i =>
    simp only [Act.exec]
    split <;> rfl
  | reset i =>
    simp only [Act.exec]
    split <;> rfl
  | complete i ret =>
    simp only [Act.exec]
    split <;> rfl

/-- What a submission does to the queue. -/
theorem queue_submit (h : Schedules scheduleWork) (req : Req) :
    ((Act.submit req).exec scheduleWork s).queue =
      if s.underProcess = 0 then (s.queue ++ [req]).tail else s.queue ++ [req] := by
  simp only [Act.exec]
  rw [ddkRequest_eq h]
  by_cases hflag : s.underProcess = 0
  · simp only [hflag, ne_eq, not_true_eq_false, ↓reduceIte]
    cases s.queue with
    | nil => rfl
    | cons r queue => rfl
  · simp only [hflag, ne_eq, not_false_eq_true, ↓reduceIte]

/-- **One step.** An empty queue stays empty when the submission is served, and only then. -/
theorem queue_exec_eq_nil_iff (h : Schedules scheduleWork) {act : Act Req}
    (hcall : act ≠ .request) :
    (act.exec scheduleWork s).queue = [] ↔ s.queue = [] ∧ act.Served s := by
  by_cases hsubmit : ∃ req, act = .submit req
  · obtain ⟨req, rfl⟩ := hsubmit
    rw [queue_submit h]
    by_cases hflag : s.underProcess = 0
    · cases hq : s.queue with
      | nil => simp [hflag, Act.Served]
      | cons r queue => simp [hflag]
    · simp [hflag, Act.Served]
  · have hother : ∀ req, act ≠ .submit req := fun req he => hsubmit ⟨req, he⟩
    rw [queue_exec act hother hcall]
    cases act with
    | submit req => exact absurd rfl (hother req)
    | request => exact absurd rfl hcall
    | start => simp [Act.Served]
    | copy i => simp [Act.Served]
    | reset i => simp [Act.Served]
    | complete i ret => simp [Act.Served]

/-- **Runs.** The queue is empty at the end exactly when it was at the start and every submission on
the way was served. -/
theorem queue_run_eq_nil_iff (h : Schedules scheduleWork) (s : State Req) {acts : List (Act Req)}
    (hcalls : Act.request ∉ acts) :
    (run (Act.exec scheduleWork) s acts).queue = [] ↔
      s.queue = [] ∧ Along (Act.exec scheduleWork) (fun s act => act.Served s) s acts := by
  induction acts generalizing s with
  | nil => simp
  | cons act acts ih =>
    obtain ⟨hne, hrest⟩ := not_or.1 (mt List.mem_cons.2 hcalls)
    rw [run_cons, ih _ hrest, queue_exec_eq_nil_iff h (Ne.symm hne), along_cons, and_assoc]

end Step

/-- **Idle with work queued.** When the block layer calls `ddk_request` once per submission and at
no other time, an idle state that is reached has no waiting request exactly when every submission on
the way found no hand-over in progress. -/
theorem idle_queue_empty_iff {scheduleWork : ScheduleWork} (h : Schedules scheduleWork)
    (acts : List (Act Req)) (hcalls : Act.request ∉ acts) :
    let s := run (Act.exec scheduleWork) .init acts
    s.Idle → (s.queue = [] ↔
      Along (Act.exec scheduleWork) (fun s act => act.Served s) .init acts) := by
  intro s _
  rw [queue_run_eq_nil_iff h .init hcalls]
  exact and_iff_right rfl

/-- Two requests, each submitted while the driver is idle. -/
theorem idle_queue_empty_iff_apart :
    let acts : List (Act Nat) := [.submit 10, .start, .copy 0, .reset 0, .complete 0 0, .submit 20,
      .start, .copy 0, .reset 0, .complete 0 0]
    let s := run (Act.exec kernelScheduleWork) .init acts
    s.Idle ∧ s.queue = [] := by
  intro acts s
  have hidle : s.Idle := by decide
  have hserved : Along (Act.exec kernelScheduleWork) (fun s act => act.Served s) .init acts := by
    decide
  exact ⟨hidle,
    (idle_queue_empty_iff kernelScheduleWork_schedules acts (by decide) hidle).2 hserved⟩

/-- The second request is submitted while the first one is handed over, and nobody fetches it. -/
theorem not_idle_queue_empty :
    let acts : List (Act Nat) := [.submit 10, .submit 20, .start, .copy 0, .reset 0, .complete 0 0]
    let s := run (Act.exec kernelScheduleWork) .init acts
    Act.request ∉ acts ∧ s.Idle ∧ s.queue = [20] := by
  decide

end LinuxDrivers.Ddk
