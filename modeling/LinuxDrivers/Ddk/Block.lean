import LinuxDrivers.Lib.Run

/-!
# The block driver over DDK

The dispatch path of `ddk_block.c`. `ddk_request` runs under the lock of the request queue and hands
one request at a time to the work item, through `current_req`; `ddk_transfer` runs without the lock,
and several instances of it may run at once. A request is identified by a value of `Req` that is
submitted once, not by its address, which the block layer uses again.
-/

namespace LinuxDrivers.Ddk

variable {Req : Type}

/-- An instance of `ddk_transfer`; the local variable `req` may be `NULL`. -/
inductive Transfer (Req : Type) where
  /-- The pending mark is cleared, `current_req` is not copied yet. -/
  | started
  /-- `current_req` is copied, `under_process` is not reset yet. -/
  | copied (req : Option Req)
  /-- The segments are being transferred. -/
  | running (req : Option Req)
  deriving DecidableEq

/-- `ddk_dev` with the queue, the work item and the instances of `ddk_transfer`. The last two fields
record the requests that were fetched and those that were copied, in order. -/
structure State (Req : Type) where
  queue : List Req
  underProcess : Nat
  currentReq : Option Req
  /-- The pending mark of `work`. -/
  pending : Bool
  transfers : List (Transfer Req)
  /-- The requests that were ended, with their status. -/
  ended : List (Option Req × Int)
  fetched : List Req
  taken : List (Option Req)
  deriving DecidableEq

/-- What `init_module` leaves behind. -/
def State.init : State Req where
  queue := []
  underProcess := 0
  currentReq := none
  pending := false
  transfers := []
  ended := []
  fetched := []
  taken := []

/-- `schedule_work`, from the pending mark to the result and the new mark. -/
abbrev ScheduleWork := Bool → Int × Bool

/-- The work item is pending after the call, and the result is not negative. -/
def Schedules (scheduleWork : ScheduleWork) : Prop :=
  ∀ pending, 0 ≤ (scheduleWork pending).1 ∧ (scheduleWork pending).2 = true

/-- The function of the kernel: the result says whether the item was queued by this call. -/
def kernelScheduleWork : ScheduleWork := fun pending => (if pending then 0 else 1, true)

theorem kernelScheduleWork_schedules : Schedules kernelScheduleWork := by
  intro pending
  cases pending <;> decide

/-- `blk_fetch_request`. -/
def blkFetchRequest (s : State Req) : Option Req × State Req :=
  match s.queue with
  | [] => (none, s)
  | req :: queue => (some req, { s with queue, fetched := s.fetched ++ [req] })

/-- `blk_end_request_all`. -/
def blkEndRequestAll (s : State Req) (req : Option Req) (ret : Int) : State Req :=
  { s with ended := s.ended ++ [(req, ret)] }

/-- `ddk_initiate_transfer`. -/
def ddkInitiateTransfer (scheduleWork : ScheduleWork) (s : State Req) (req : Req) :
    Int × State Req :=
  let s := { s with underProcess := 1, currentReq := some req }
  match scheduleWork s.pending with
  | (ret, pending) =>
    let s := { s with pending }
    if ret < 0 then (ret, { s with underProcess := 0 }) else (0, s)

/-- The loop of `ddk_request`; it fetches at most all requests and a `NULL`. -/
def requestLoop (scheduleWork : ScheduleWork) : Nat → State Req → State Req
  | 0, s => s
  | n + 1, s =>
    match blkFetchRequest s with
    | (none, s) => s
    | (some req, s) =>
      match ddkInitiateTransfer scheduleWork s req with
      | (ret, s) =>
        -- a transfer that is not possible is finished off
        if ret < 0 then requestLoop scheduleWork n (blkEndRequestAll s (some req) ret) else s

/-- `ddk_request`. -/
def ddkRequest (scheduleWork : ScheduleWork) (s : State Req) : State Req :=
  if s.underProcess ≠ 0 then s else requestLoop scheduleWork (s.queue.length + 1) s

/-- What can happen next. -/
inductive Act (Req : Type) where
  /-- A request is enqueued and `ddk_request` is called. -/
  | submit (req : Req)
  /-- `ddk_request` is called once more. -/
  | request
  /-- The work item is started: its pending mark is cleared. -/
  | start
  /-- Instance `i` copies `current_req`. -/
  | copy (i : Nat)
  /-- Instance `i` resets `under_process`. -/
  | reset (i : Nat)
  /-- Instance `i` has transferred its segments and ends the request with that status. -/
  | complete (i : Nat) (ret : Int)
  deriving DecidableEq

namespace Act

/-- One step; a step that is not possible changes nothing. -/
def exec (scheduleWork : ScheduleWork) (s : State Req) : Act Req → State Req
  | .submit req => ddkRequest scheduleWork { s with queue := s.queue ++ [req] }
  | .request => ddkRequest scheduleWork s
  | .start =>
    if s.pending then { s with pending := false, transfers := s.transfers ++ [.started] } else s
  | .copy i =>
    match s.transfers[i]? with
    | some .started =>
      { s with
        transfers := s.transfers.set i (.copied s.currentReq)
        taken := s.taken ++ [s.currentReq] }
    | _ => s
  | .reset i =>
    match s.transfers[i]? with
    | some (.copied req) =>
      { s with underProcess := 0, transfers := s.transfers.set i (.running req) }
    | _ => s
  | .complete i ret =>
    match s.transfers[i]? with
    | some (.running req) =>
      blkEndRequestAll { s with transfers := s.transfers.eraseIdx i } req ret
    | _ => s

end Act

/-- The requests that a run submits, in order. -/
def submitted (acts : List (Act Req)) : List Req :=
  acts.filterMap fun
    | .submit req => some req
    | _ => none

end LinuxDrivers.Ddk
