import Mathlib.Data.List.Nodup
import Mathlib.Data.List.Perm.Basic
import LinuxDrivers.Ddk.Block

/-!
# Each request is served exactly once

`under_process` is the number of hand-overs in progress: the work item is pending, or an instance of
`ddk_transfer` was started and has not reset the flag yet. So `ddk_request` writes `current_req`
only when nobody reads it any more, and every request that was fetched waits in `current_req`, is
held by one instance, or was ended once.
-/

namespace LinuxDrivers.Ddk

variable {Req : Type}

/-! ## Counting instances -/

section Count

variable {α : Type} {p : α → Bool} {l : List α} {i : Nat} {a : α}

theorem countP_eraseIdx_of_getElem? (h : l[i]? = some a) :
    l.countP p = (l.eraseIdx i).countP p + (p a).toNat := by
  obtain ⟨hi, rfl⟩ := List.getElem?_eq_some_iff.1 h
  rw [← (List.getElem_cons_eraseIdx_perm hi).countP_eq, List.countP_cons]
  cases p l[i] <;> rfl

theorem countP_set_of_getElem? (h : l[i]? = some a) (b : α) :
    (l.set i b).countP p + (p a).toNat = l.countP p + (p b).toNat := by
  obtain ⟨hi, rfl⟩ := List.getElem?_eq_some_iff.1 h
  have hle := List.boole_getElem_le_countP (p := p) hi
  rw [List.countP_set hi]
  cases hp : p l[i] <;> cases p b <;> simp_all

end Count

namespace Transfer

def isStarted : Transfer Req → Bool
  | .started => true
  | _ => false

def isCopied : Transfer Req → Bool
  | .copied _ => true
  | _ => false

variable [DecidableEq Req]

/-- The instance works on the request, or is about to copy it from `current_req`. -/
def holds (current : Option Req) (req : Req) : Transfer Req → Bool
  | .started => current = some req
  | .copied r => r = some req
  | .running r => r = some req

end Transfer

namespace State

/-- How often `current_req` is still to be copied. -/
def offered (s : State Req) : Nat := s.pending.toNat + s.transfers.countP Transfer.isStarted

/-- The hand-overs in progress. -/
def handing (s : State Req) : Nat := s.offered + s.transfers.countP Transfer.isCopied

/-- What is fetched and not copied yet. -/
def waiting (s : State Req) : List (Option Req) := if s.offered = 0 then [] else [s.currentReq]

theorem waiting_of_idle {s : State Req} (h : s.offered = 0) : s.waiting = [] := if_pos h

theorem waiting_of_offered {s : State Req} (h : s.offered ≠ 0) : s.waiting = [s.currentReq] :=
  if_neg h

theorem waiting_congr {s s' : State Req} (ho : s'.offered = s.offered)
    (hc : s'.currentReq = s.currentReq) : s'.waiting = s.waiting := by
  unfold waiting
  rw [ho, hc]

variable [DecidableEq Req]

/-- The request waits in `current_req` with the work pending. -/
def Waits (s : State Req) (req : Req) : Prop := s.pending = true ∧ s.currentReq = some req

instance (s : State Req) (req : Req) : Decidable (s.Waits req) :=
  inferInstanceAs (Decidable (_ ∧ _))

/-- The number of instances that hold the request. -/
def holders (s : State Req) (req : Req) : Nat :=
  s.transfers.countP (Transfer.holds s.currentReq req)

/-- How often the request was ended. -/
def endings (s : State Req) (req : Req) : Nat := s.ended.countP fun e => e.1 = some req

/-- The request waits, or one instance holds it, or it was ended once, and only one of these. -/
def InOnePlace (s : State Req) (req : Req) : Prop :=
  (s.Waits req ∧ s.holders req = 0 ∧ s.endings req = 0) ∨
    (¬ s.Waits req ∧ s.holders req = 1 ∧ s.endings req = 0) ∨
    (¬ s.Waits req ∧ s.holders req = 0 ∧ s.endings req = 1)

/-- The invariant of the dispatch path. -/
structure Dispatched (s : State Req) : Prop where
  flag : s.underProcess = s.handing
  flag_le : s.underProcess ≤ 1
  /-- Every request that was fetched is counted in one place. -/
  places : ∀ req, s.fetched.count req =
    (if s.Waits req then 1 else 0) + s.holders req + s.endings req
  /-- Requests are copied in the order in which they were fetched. -/
  order : s.fetched.map some = s.taken ++ s.waiting

theorem dispatched_init : Dispatched (init : State Req) := by
  refine ⟨rfl, Nat.zero_le 1, fun req => ?_, rfl⟩
  simp [init, Waits, holders, endings]

end State

/-! ## Steps -/

/-- `ddk_request` hands over the first request of the queue, unless a hand-over is in progress. -/
theorem ddkRequest_eq {scheduleWork : ScheduleWork} (h : Schedules scheduleWork) (s : State Req) :
    ddkRequest scheduleWork s =
      if s.underProcess ≠ 0 then s
      else
        match s.queue with
        | [] => s
        | req :: queue =>
          { s with
            queue
            fetched := s.fetched ++ [req]
            underProcess := 1
            currentReq := some req
            pending := true } := by
  obtain ⟨hret, hpending⟩ := h s.pending
  unfold ddkRequest
  split
  · rfl
  · unfold requestLoop blkFetchRequest
    cases hq : s.queue with
    | nil => rfl
    | cons req queue =>
      have hinit : ¬ (scheduleWork s.pending).1 < 0 := by omega
      simp only [ddkInitiateTransfer, hpending, hinit, ↓reduceIte]
      rfl

namespace State.Dispatched

variable [DecidableEq Req] {s : State Req}

/-- Outside of a hand-over nobody reads `current_req`. -/
theorem idle (h : s.Dispatched) (hflag : s.underProcess = 0) :
    s.pending = false ∧ s.transfers.countP Transfer.isStarted = 0 ∧
      s.transfers.countP Transfer.isCopied = 0 := by
  have hhanding := h.flag
  unfold handing offered at hhanding
  refine ⟨?_, by omega, by omega⟩
  cases hp : s.pending with
  | false => rfl
  | true =>
    rw [hp, Bool.toNat_true] at hhanding
    omega

theorem enqueue (h : s.Dispatched) (queue : List Req) : Dispatched { s with queue } :=
  ⟨h.flag, h.flag_le, h.places, h.order⟩

/-- `holders` does not read `current_req` when no instance is about to copy it. -/
theorem holders_congr {transfers : List (Transfer Req)}
    (h : transfers.countP Transfer.isStarted = 0) (current current' : Option Req) (req : Req) :
    transfers.countP (Transfer.holds current req) =
      transfers.countP (Transfer.holds current' req) := by
  apply List.countP_congr
  intro t ht
  rw [List.countP_eq_zero] at h
  have hne := h t ht
  cases t with
  | started => exact absurd rfl hne
  | copied r => rfl
  | running r => rfl

theorem ddkRequest {scheduleWork : ScheduleWork} (hsched : Schedules scheduleWork)
    (h : s.Dispatched) : (ddkRequest scheduleWork s).Dispatched := by
  rw [ddkRequest_eq hsched]
  by_cases hflag : s.underProcess ≠ 0
  · rw [if_pos hflag]
    exact h
  · rw [if_neg hflag]
    obtain ⟨hp, hstarted, hcopied⟩ := h.idle (by omega)
    cases hq : s.queue with
    | nil => exact h
    | cons req queue =>
      refine ⟨?_, by simp, fun r => ?_, ?_⟩
      · simp [handing, offered, hstarted, hcopied]
      · have hr := h.places r
        simp only [Waits, hp, holders, endings, Bool.false_eq_true, false_and, ↓reduceIte,
          Nat.zero_add] at hr
        simp only [Waits, holders, endings, true_and, Option.some.injEq]
        rw [List.count_append, List.count_singleton, hr,
          holders_congr hstarted s.currentReq (some req)]
        simp only [beq_iff_eq]
        omega
      · have horder := h.order
        rw [waiting_of_idle (by simp [offered, hp, hstarted]), List.append_nil] at horder
        rw [waiting_of_offered (by simp [offered]), List.map_append, horder]
        rfl

/-- The pending request goes over to a new instance. -/
theorem start (h : s.Dispatched) (hp : s.pending = true) :
    Dispatched { s with pending := false, transfers := s.transfers ++ [.started] } := by
  have hoffered : offered { s with pending := false, transfers := s.transfers ++ [.started] } =
      s.offered := by
    simp [offered, hp, Transfer.isStarted]
    omega
  have hflag := h.flag
  refine ⟨?_, h.flag_le, fun r => ?_, ?_⟩
  · rw [handing, hoffered]
    simpa [handing, Transfer.isCopied] using hflag
  · have hr := h.places r
    simp only [Waits, hp, holders, endings, true_and] at hr
    simp only [Waits, holders, endings, Bool.false_eq_true, false_and, ↓reduceIte,
      List.countP_append, List.countP_singleton, Transfer.holds, decide_eq_true_eq, hr]
    omega
  · rw [waiting_congr hoffered rfl]
    exact h.order

/-- The instance that was started copies the request that waits. -/
theorem copy (h : s.Dispatched) {i : Nat} (hi : s.transfers[i]? = some .started) :
    Dispatched
      { s with
        transfers := s.transfers.set i (.copied s.currentReq)
        taken := s.taken ++ [s.currentReq] } := by
  have hflag := h.flag
  have hle := h.flag_le
  have hstarted := countP_set_of_getElem? (p := Transfer.isStarted) hi (.copied s.currentReq)
  have hcopied := countP_set_of_getElem? (p := Transfer.isCopied) hi (.copied s.currentReq)
  simp only [Transfer.isStarted, Transfer.isCopied, Bool.toNat_true, Bool.toNat_false]
    at hstarted hcopied
  simp only [handing, offered] at hflag
  refine ⟨?_, hle, fun r => ?_, ?_⟩
  · simp only [handing, offered]
    omega
  · have hr := h.places r
    have hholders := countP_set_of_getElem? (p := Transfer.holds s.currentReq r) hi
      (.copied s.currentReq)
    simp only [Transfer.holds] at hholders
    unfold holders at hr ⊢
    rw [Nat.add_right_cancel hholders]
    exact hr
  · have horder := h.order
    have hbefore : s.offered ≠ 0 := by
      unfold offered
      omega
    rw [waiting_of_offered hbefore] at horder
    rw [waiting_of_idle, List.append_nil]
    · exact horder
    · simp only [offered]
      omega

/-- The flag is reset when the request is copied. -/
theorem reset (h : s.Dispatched) {i : Nat} {req : Option Req}
    (hi : s.transfers[i]? = some (.copied req)) :
    Dispatched { s with underProcess := 0, transfers := s.transfers.set i (.running req) } := by
  have hflag := h.flag
  have hle := h.flag_le
  have hstarted := countP_set_of_getElem? (p := Transfer.isStarted) hi (.running req)
  have hcopied := countP_set_of_getElem? (p := Transfer.isCopied) hi (.running req)
  simp only [Transfer.isStarted, Transfer.isCopied, Bool.toNat_true, Bool.toNat_false]
    at hstarted hcopied
  simp only [handing, offered] at hflag
  refine ⟨?_, Nat.zero_le 1, fun r => ?_, ?_⟩
  · simp only [handing, offered]
    omega
  · have hr := h.places r
    have hholders := countP_set_of_getElem? (p := Transfer.holds s.currentReq r) hi (.running req)
    simp only [Transfer.holds] at hholders
    unfold holders at hr ⊢
    rw [Nat.add_right_cancel hholders]
    exact hr
  · have hwaiting :
        waiting { s with underProcess := 0, transfers := s.transfers.set i (.running req) } =
          s.waiting := by
      apply waiting_congr
      · simp only [offered]
        omega
      · rfl
    rw [hwaiting]
    exact h.order

/-- A request that is ended is not held any more. -/
theorem complete (h : s.Dispatched) {i : Nat} {req : Option Req}
    (hi : s.transfers[i]? = some (.running req)) (ret : Int) :
    Dispatched (blkEndRequestAll { s with transfers := s.transfers.eraseIdx i } req ret) := by
  have hflag := h.flag
  have hstarted := countP_eraseIdx_of_getElem? (p := Transfer.isStarted) hi
  have hcopied := countP_eraseIdx_of_getElem? (p := Transfer.isCopied) hi
  simp only [Transfer.isStarted, Transfer.isCopied, Bool.toNat_false] at hstarted hcopied
  refine ⟨?_, h.flag_le, fun r => ?_, ?_⟩
  · simp only [handing, offered, blkEndRequestAll] at hflag ⊢
    omega
  · have hr := h.places r
    have hholders : s.holders r =
        holders (blkEndRequestAll { s with transfers := s.transfers.eraseIdx i } req ret) r +
          (decide (req = some r)).toNat := countP_eraseIdx_of_getElem? hi
    have hendings :
        endings (blkEndRequestAll { s with transfers := s.transfers.eraseIdx i } req ret) r =
          s.endings r + (decide (req = some r)).toNat := by
      unfold endings blkEndRequestAll
      rw [List.countP_append, List.countP_singleton]
      cases decide (req = some r) <;> rfl
    have hmove : ∀ w h e d : Nat, w + (h + d) + e = w + h + (e + d) := by omega
    rw [hholders] at hr
    rw [hendings]
    exact hr.trans (hmove _ _ _ _)
  · have hwaiting : waiting
        (blkEndRequestAll { s with transfers := s.transfers.eraseIdx i } req ret) = s.waiting := by
      apply waiting_congr
      · simp only [offered, blkEndRequestAll]
        omega
      · rfl
    rw [hwaiting]
    exact h.order

/-- **One step** keeps the invariant. -/
theorem exec {scheduleWork : ScheduleWork} (hsched : Schedules scheduleWork) (h : s.Dispatched)
    (act : Act Req) : (act.exec scheduleWork s).Dispatched := by
  cases act with
  | submit req => exact (h.enqueue _).ddkRequest hsched
  | request => exact h.ddkRequest hsched
  | start =>
    simp only [Act.exec]
    split
    · next hp => exact h.start hp
    · exact h
  | copy i =>
    simp only [Act.exec]
    split
    · next hi => exact h.copy hi
    · exact h
  | reset i =>
    simp only [Act.exec]
    split
    · next hi => exact h.reset hi
    · exact h
  | complete i ret =>
    simp only [Act.exec]
    split
    · next hi => exact h.complete hi ret
    · exact h

/-- A request that is still to be copied stays in `current_req`. -/
theorem currentReq_exec {scheduleWork : ScheduleWork} (hsched : Schedules scheduleWork)
    (h : s.Dispatched) (hwait : s.waiting ≠ []) (act : Act Req) :
    (act.exec scheduleWork s).currentReq = s.currentReq := by
  have hbusy : s.underProcess ≠ 0 := by
    intro hflag
    obtain ⟨hp, hstarted, -⟩ := h.idle hflag
    exact hwait (waiting_of_idle (by simp [offered, hp, hstarted]))
  cases act with
  | submit req =>
    simp only [Act.exec]
    rw [ddkRequest_eq hsched, if_pos hbusy]
  | request =>
    simp only [Act.exec]
    rw [ddkRequest_eq hsched, if_pos hbusy]
  | start =>
    simp only [Act.exec]
    split <;> rfl
  | copy i =>
    simp only [Act.exec]
    split <;> rfl
  | reset i =>
    simp only [Act.exec]
    split <;> rfl
  | complete i ret =>
    simp only [Act.exec]
    split <;> rfl

/-- A request that was fetched once is in one place. -/
theorem inOnePlace (h : s.Dispatched) {req : Req} (hcount : s.fetched.count req = 1) :
    s.InOnePlace req := by
  have hplaces := h.places req
  unfold InOnePlace
  by_cases hw : s.Waits req
  · rw [if_pos hw] at hplaces
    exact .inl ⟨hw, by omega, by omega⟩
  · rw [if_neg hw] at hplaces
    by_cases hh : s.holders req = 0
    · exact .inr (.inr ⟨hw, hh, by omega⟩)
    · exact .inr (.inl ⟨hw, by omega, by omega⟩)

end State.Dispatched

/-! ## Runs -/

section Run

variable {scheduleWork : ScheduleWork}

/-- Requests leave the queue in the order in which they were submitted, and none gets lost. -/
theorem fetched_append_queue_ddkRequest (h : Schedules scheduleWork) (s : State Req) :
    (ddkRequest scheduleWork s).fetched ++ (ddkRequest scheduleWork s).queue =
      s.fetched ++ s.queue := by
  rw [ddkRequest_eq h]
  split
  · rfl
  · cases hq : s.queue with
    | nil => simp [hq]
    | cons req queue => simp

theorem fetched_append_queue_exec (h : Schedules scheduleWork) (s : State Req) (act : Act Req) :
    (act.exec scheduleWork s).fetched ++ (act.exec scheduleWork s).queue =
      s.fetched ++ s.queue ++ submitted [act] := by
  cases act with
  | submit req =>
    simp only [Act.exec]
    rw [fetched_append_queue_ddkRequest h, ← List.append_assoc]
    rfl
  | request =>
    simp only [Act.exec]
    rw [fetched_append_queue_ddkRequest h]
    simp [submitted]
  | start =>
    simp only [Act.exec]
    split <;> simp [submitted]
  | copy i =>
    simp only [Act.exec]
    split <;> simp [submitted]
  | reset i =>
    simp only [Act.exec]
    split <;> simp [submitted]
  | complete i ret =>
    simp only [Act.exec]
    split <;> simp [submitted, blkEndRequestAll]

theorem fetched_append_queue_run (h : Schedules scheduleWork) (s : State Req)
    (acts : List (Act Req)) :
    (run (Act.exec scheduleWork) s acts).fetched ++ (run (Act.exec scheduleWork) s acts).queue =
      s.fetched ++ s.queue ++ submitted acts := by
  induction acts generalizing s with
  | nil => simp [submitted]
  | cons act acts ih =>
    rw [run_cons, ih, fetched_append_queue_exec h, List.append_assoc]
    simp only [submitted, ← List.filterMap_append, List.singleton_append]

variable [DecidableEq Req]

/-- **Runs.** The invariant holds in every state that can be reached. -/
theorem dispatched_run (h : Schedules scheduleWork) (acts : List (Act Req)) :
    (run (Act.exec scheduleWork) .init acts).Dispatched :=
  Along.invariant (P := fun _ _ => True) (fun _ act hs _ => hs.exec h act) State.dispatched_init
    (along_of_forall fun _ _ => trivial)

/-- **Exactly once.** In every state that can be reached, every request that was fetched is in one
place, requests are copied in the order in which they were fetched, and no step overwrites a request
that is still to be copied. -/
theorem served_exactlyOnce (h : Schedules scheduleWork) (acts : List (Act Req))
    (hdistinct : (submitted acts).Nodup) :
    let s := run (Act.exec scheduleWork) .init acts
    (∀ req ∈ s.fetched, s.InOnePlace req) ∧ s.taken <+: s.fetched.map some ∧
      ∀ act : Act Req, s.waiting ≠ [] → (act.exec scheduleWork s).currentReq = s.currentReq := by
  intro s
  have hs : s.Dispatched := dispatched_run h acts
  have hall : s.fetched ++ s.queue = submitted acts := fetched_append_queue_run h .init acts
  have hnodup : s.fetched.Nodup := by
    rw [← hall] at hdistinct
    exact List.Nodup.of_append_left hdistinct
  refine ⟨fun req hreq => hs.inOnePlace (List.count_eq_one_of_mem hnodup hreq), ?_,
    fun act hwait => hs.currentReq_exec h hwait act⟩
  rw [hs.order]
  exact List.prefix_append _ _

/-- A second request is submitted while the first one is handed over and is dispatched while the
first one is still being transferred; two instances run at once. -/
theorem served_exactlyOnce_two :
    let s := run (Act.exec kernelScheduleWork) .init
      [.submit 10, .submit 20, .start, .copy 0, .reset 0, .request, .start, .copy 1, .complete 0 0]
    s.InOnePlace 10 ∧ s.InOnePlace 20 ∧ s.taken = [some 10, some 20] := by
  obtain ⟨hplace, -, -⟩ := served_exactlyOnce kernelScheduleWork_schedules
    [.submit 10, .submit 20, .start, .copy 0, .reset 0, .request, .start, .copy 1, .complete 0 0]
    (by decide)
  exact ⟨hplace 10 (by decide), hplace 20 (by decide), by decide⟩

end Run

end LinuxDrivers.Ddk
