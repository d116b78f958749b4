import LinuxDrivers.Lib.Device

/-!
# Polled transfers over I2C

`i2c_write` and `i2c_read` of `test.c`, with `wait_for_event` and `flush_fifo` of `i2c-omap.c`. A
transfer sets up the controller and then polls its status: a ready bit asks for the next byte of the
message, `ARDY` ends the transfer. The polls are counted down from four more than the bytes of the
message, and what is left of that count decides the result.
-/

namespace LinuxDrivers.I2c

/-! ## Registers -/

/-- The registers that the modelled functions write. -/
inductive Reg where
  | stat
  | buf
  | cnt
  | data
  | con
  | sa
  deriving DecidableEq

def statBb : UInt16 := 0x1000

def statRovr : UInt16 := 0x800

def statXudf : UInt16 := 0x400

def statXrdy : UInt16 := 0x10

def statRrdy : UInt16 := 0x8

def statArdy : UInt16 := 0x4

def statNack : UInt16 := 0x2

def statAl : UInt16 := 0x1

def bufRxfifClr : UInt16 := 0x4000

def bufTxfifClr : UInt16 := 0x40

def conEn : UInt16 := 0x8000

def conMst : UInt16 := 0x400

def conTrx : UInt16 := 0x200

def conStp : UInt16 := 0x2

def conStt : UInt16 := 0x1

/-- `struct i2c_msg`; nothing reads its flags. -/
structure Msg where
  addr : UInt16
  len : UInt16
  buf : Mem

/-- What the controller answers in one transfer. -/
structure Answers where
  bufReg : UInt16
  /-- The values of the status register that each `wait_for_event` reads until its time is over. -/
  waits : Nat → List UInt16
  /-- The values read from the data register. -/
  data : Nat → UInt16
  /-- How many bytes `flush_fifo` finds. -/
  left : Nat

/-- The progress of a transfer. -/
structure State where
  polls : Nat
  /-- How often the data register was read. -/
  reads : Nat
  written : List (Reg × UInt16)
  buf : Mem
  /-- The elements of `msg->buf` that were read or stored, with their values. -/
  moves : List (Nat × UInt8)

def State.start (buf : Mem) : State := ⟨0, 0, [], buf, []⟩

/-- What was written to the data register. -/
def State.sent (s : State) : List UInt16 :=
  s.written.filterMap fun w => if w.1 = .data then some w.2 else none

def omapI2cWriteReg (reg : Reg) (val : UInt16) (s : State) : State :=
  { s with written := s.written ++ [(reg, val)] }

def omapI2cAckStat (stat : UInt16) (s : State) : State := omapI2cWriteReg .stat stat s

/-! ## Waiting -/

/-- The bits that `wait_for_event` waits for. -/
def eventMask : UInt16 :=
  statRovr ||| statXudf ||| statXrdy ||| statRrdy ||| statArdy ||| statNack ||| statAl

def waitForEvent (a : Answers) (s : State) : UInt16 × State :=
  let s' := { s with polls := s.polls + 1 }
  match (a.waits s.polls).find? fun status => status &&& eventMask ≠ 0 with
  | some status => (status, s')
  | none => (0, omapI2cWriteReg .stat 0xFFFF s')

/-- `flush_fifo`, which finds so many bytes. -/
def flushFifo : Nat → State → State
  | 0, s => s
  | left + 1, s => flushFifo left (omapI2cAckStat statRrdy { s with reads := s.reads + 1 })

/-- `omap_i2c_wait_for_bb`; the list has the values that it reads until its time is over. -/
def omapI2cWaitForBb (readings : List UInt16) : Int :=
  if readings.any fun status => status &&& statBb = 0 then 0 else -ETIMEDOUT

/-! ## Transfers -/

inductive Dir where
  | write
  | read
  deriving DecidableEq

def Dir.ready : Dir → UInt16
  | .write => statXrdy
  | .read => statRrdy

/-- What a ready bit is answered with. -/
def moveByte (a : Answers) (idx : UInt16) (s : State) : Dir → State
  | .write =>
    let byte := s.buf idx.toNat
    omapI2cAckStat statXrdy <| omapI2cWriteReg .data byte.toUInt16
      { s with moves := s.moves ++ [(idx.toNat, byte)] }
  | .read =>
    let byte := (a.data s.reads).toUInt8
    omapI2cAckStat statRrdy
      { s with
        reads := s.reads + 1
        buf := Function.update s.buf idx.toNat byte
        moves := s.moves ++ [(idx.toNat, byte)] }

/-- `while (k--)`: the value of `k` behind the loop, or nothing when a wait timed out and the loop
was left for `wr_exit`. -/
def transferLoop (dir : Dir) (a : Answers) : Nat → UInt16 → State → Option Int × State
  | 0, _, s => (some (-1), s)
  | k + 1, idx, s =>
    match waitForEvent a s with
    | (status, s) =>
      if status = 0 then (none, s)
      else if status &&& dir.ready ≠ 0 then transferLoop dir a k (idx + 1) (moveByte a idx s dir)
      else if status &&& statArdy ≠ 0 then (some k, omapI2cAckStat statArdy s)
      else transferLoop dir a k idx s

/-- What is returned for the value of `k` behind the loop. -/
def i2cErrorOf : Option Int → Int
  | none => -ETIMEDOUT
  | some k => if k ≤ 0 then -ETIMEDOUT else 0

/-- The registers are set up and the transaction is started. -/
def setUp (bufWord conWord : UInt16) (msg : Msg) : State :=
  omapI2cWriteReg .con conWord <| omapI2cWriteReg .cnt msg.len <|
    omapI2cWriteReg .sa msg.addr <| omapI2cWriteReg .buf bufWord (.start msg.buf)

/-- What both functions do, with the words for the buffer register and the control register. -/
def transfer (dir : Dir) (bufWord conWord : UInt16) (a : Answers) (msg : Msg) : Int × State :=
  match transferLoop dir a (msg.len.toNat + 4) 0 (setUp bufWord conWord msg) with
  | (k, s) => (i2cErrorOf k, omapI2cWriteReg .stat 0xFFFF (flushFifo a.left s))

def i2cWrite (a : Answers) (msg : Msg) : Int × State :=
  transfer .write (a.bufReg &&& ~~~0x3f ||| bufTxfifClr)
    (conMst ||| conStt ||| conEn ||| conStp ||| conTrx) a msg

def i2cRead (a : Answers) (msg : Msg) : Int × State :=
  transfer .read (a.bufReg &&& ~~~0x3f00 ||| bufRxfifClr)
    (conMst ||| conStt ||| conEn ||| conStp) a msg

/-! ## Events -/

/-- What the `j`-th wait returns. -/
def Answers.event (a : Answers) (j : Nat) : UInt16 :=
  ((a.waits j).find? fun status => status &&& eventMask ≠ 0).getD 0

/-- The event asks for a byte. -/
def Dir.IsReady (dir : Dir) (event : UInt16) : Prop := event &&& dir.ready ≠ 0

/-- The event ends a transfer that has not timed out. -/
def Dir.IsLast (dir : Dir) (event : UInt16) : Prop := ¬ dir.IsReady event ∧ event &&& statArdy ≠ 0

/-- Polling goes on behind the event. -/
def Dir.GoesOn (dir : Dir) (event : UInt16) : Prop := event ≠ 0 ∧ ¬ dir.IsLast event

theorem Dir.IsLast.ne_zero {dir : Dir} {event : UInt16} (h : dir.IsLast event) : event ≠ 0 := by
  rintro rfl
  exact h.2 (by simp)

instance (dir : Dir) : DecidablePred dir.IsReady := fun _ => inferInstanceAs (Decidable (_ ≠ _))

instance (dir : Dir) : DecidablePred dir.IsLast := fun _ => inferInstanceAs (Decidable (_ ∧ _))

instance (dir : Dir) : DecidablePred dir.GoesOn := fun _ => inferInstanceAs (Decidable (_ ∧ _))

theorem waitForEvent_eq (a : Answers) (s : State) :
    ∃ written, waitForEvent a s =
        (a.event s.polls, { s with polls := s.polls + 1, written := written }) ∧
      ({ s with written := written } : State).sent = s.sent := by
  unfold waitForEvent Answers.event
  cases (a.waits s.polls).find? fun status => status &&& eventMask ≠ 0 with
  | some status => exact ⟨s.written, rfl, rfl⟩
  | none => exact ⟨s.written ++ [(.stat, 0xFFFF)], rfl, by simp [State.sent]⟩

/-- The first `j` events let the polling go on. -/
def Polled (dir : Dir) (a : Answers) (j : Nat) : Prop := ∀ i < j, dir.GoesOn (a.event i)

/-- How many of the first `j` events ask for a byte. -/
def asked (dir : Dir) (a : Answers) (j : Nat) : Nat :=
  (List.range j).countP fun i => dir.IsReady (a.event i)

theorem asked_succ (dir : Dir) (a : Answers) (j : Nat) :
    asked dir a (j + 1) = asked dir a j + if dir.IsReady (a.event j) then 1 else 0 := by
  simp [asked, List.range_succ, List.countP_append, List.countP_cons]

theorem asked_of_ready {dir : Dir} {a : Answers} {j : Nat} (h : dir.IsReady (a.event j)) :
    asked dir a (j + 1) = asked dir a j + 1 := by
  rw [asked_succ, if_pos h]

theorem asked_of_not_ready {dir : Dir} {a : Answers} {j : Nat} (h : ¬ dir.IsReady (a.event j)) :
    asked dir a (j + 1) = asked dir a j := by
  rw [asked_succ, if_neg h]
  rfl

theorem asked_mono {dir : Dir} {a : Answers} {i j : Nat} (h : i ≤ j) :
    asked dir a i ≤ asked dir a j := by
  induction h with
  | refl => exact Nat.le_refl _
  | step _ ih =>
    rw [asked_succ]
    omega

theorem Polled.succ {dir : Dir} {a : Answers} {j : Nat} (h : Polled dir a j)
    (hj : dir.GoesOn (a.event j)) : Polled dir a (j + 1) := by
  intro i hi
  rcases Nat.lt_succ_iff_lt_or_eq.1 hi with hlt | rfl
  · exact h i hlt
  · exact hj

/-- An event that stops the polling is the first one. -/
theorem Polled.le {dir : Dir} {a : Answers} {i j : Nat} (h : Polled dir a j)
    (hi : ¬ dir.GoesOn (a.event i)) : j ≤ i := by
  by_contra hlt
  exact hi (h i (by omega))

/-! ## The loop -/

/-- The element of the message that the `i`-th byte goes to or comes from, with the byte. The index
has 16 bits. -/
def Answers.move (dir : Dir) (a : Answers) (buf : Mem) (i : Nat) : Nat × UInt8 :=
  (i % 2 ^ 16, match dir with
    | .write => buf (i % 2 ^ 16)
    | .read => (a.data i).toUInt8)

/-- What these moves write to the data register. -/
def Dir.dataOf : Dir → List (Nat × UInt8) → List UInt16
  | .write, moves => moves.map fun m => m.2.toUInt16
  | .read, _ => []

/-- What these moves leave in the message. -/
def Dir.bufOf (buf : Mem) : Dir → List (Nat × UInt8) → Mem
  | .write, _ => buf
  | .read, moves => moves.foldl (fun m move => Function.update m move.1 move.2) buf

/-- Elements that are not moved keep their values. -/
theorem Dir.bufOf_of_not_mem {buf : Mem} {dir : Dir} {moves : List (Nat × UInt8)} {i : Nat}
    (h : i ∉ moves.map Prod.fst) : dir.bufOf buf moves i = buf i := by
  cases dir with
  | write => rfl
  | read =>
    induction moves generalizing buf with
    | nil => rfl
    | cons move moves ih =>
      rw [List.map_cons, List.mem_cons, not_or] at h
      exact (ih h.2).trans (Function.update_of_ne h.1 _ _)

theorem Dir.bufOf_concat (buf : Mem) (moves : List (Nat × UInt8)) (move : Nat × UInt8) :
    Dir.read.bufOf buf (moves ++ [move]) =
      Function.update (Dir.read.bufOf buf moves) move.1 move.2 := by
  simp only [bufOf, List.foldl_append, List.foldl_cons, List.foldl_nil]

/-- The first `n` bytes were received, and the others are left. -/
theorem Answers.bufOf_received (a : Answers) (buf : Mem) {n : Nat} (hn : n ≤ 2 ^ 16) (i : Nat) :
    Dir.read.bufOf buf ((List.range n).map (a.move .read buf)) i =
      if i < n then (a.data i).toUInt8 else buf i := by
  induction n with
  | zero => rfl
  | succ n ih =>
    have hmod : n % 2 ^ 16 = n := Nat.mod_eq_of_lt (by omega)
    rw [List.range_succ, List.map_append, List.map_cons, List.map_nil, Dir.bufOf_concat,
      Function.update_apply, ih (by omega)]
    simp only [move, hmod]
    by_cases hi : i = n
    · rw [if_pos hi, if_pos (by omega), hi]
    · rw [if_neg hi]
      by_cases hlt : i < n
      · rw [if_pos hlt, if_pos (by omega)]
      · rw [if_neg hlt, if_neg (by omega)]

/-- So many bytes were moved. -/
structure Moved (dir : Dir) (a : Answers) (buf : Mem) (n : Nat) (s : State) : Prop where
  moves : s.moves = (List.range n).map (a.move dir buf)
  sent : s.sent = dir.dataOf s.moves
  stored : s.buf = dir.bufOf buf s.moves
  reads : dir = .read → s.reads = n

section

variable {dir : Dir} {a : Answers} {buf : Mem} {n : Nat} {s : State}

theorem sent_writeReg {reg : Reg} (hreg : reg ≠ .data) (val : UInt16) (s : State) :
    (omapI2cWriteReg reg val s).sent = s.sent := by
  simp [State.sent, omapI2cWriteReg, hreg]

theorem Moved.writeReg {reg : Reg} {val : UInt16} (h : Moved dir a buf n s) (hreg : reg ≠ .data) :
    Moved dir a buf n (omapI2cWriteReg reg val s) where
  moves := h.moves
  sent := (sent_writeReg hreg val s).trans h.sent
  stored := h.stored
  reads := h.reads

theorem Moved.wait (h : Moved dir a buf n s) : Moved dir a buf n (waitForEvent a s).2 := by
  obtain ⟨written, heq, hsent⟩ := waitForEvent_eq a s
  rw [heq]
  exact ⟨h.moves, hsent.trans h.sent, h.stored, h.reads⟩

/-- One more byte. -/
theorem Moved.move (h : Moved dir a buf n s) :
    Moved dir a buf (n + 1) (moveByte a (.ofNat n) s dir) := by
  have hmoves : (moveByte a (.ofNat n) s dir).moves =
    (List.range (n + 1)).map (a.move dir buf) := by
    rw [List.range_succ, List.map_append, ← h.moves]
    cases dir with
    | write =>
      have hbuf : s.buf = buf := h.stored
      simp [moveByte, Answers.move, omapI2cAckStat, omapI2cWriteReg, hbuf]
    | read => simp [moveByte, Answers.move, omapI2cAckStat, omapI2cWriteReg, h.reads rfl]
  cases dir with
  | write =>
    refine ⟨hmoves, ?_, h.stored, fun hdir => by cases hdir⟩
    have hsent := h.sent
    simp only [State.sent, Dir.dataOf] at hsent
    simp [moveByte, omapI2cAckStat, omapI2cWriteReg, State.sent, Dir.dataOf, hsent]
  | read =>
    refine ⟨hmoves, ?_, ?_, fun _ => ?_⟩
    · exact (sent_writeReg (by decide) _ _).trans h.sent
    · have hstored := h.stored
      simp only [moveByte, omapI2cAckStat, omapI2cWriteReg, Dir.bufOf_concat, ← hstored]
    · simp [moveByte, omapI2cAckStat, omapI2cWriteReg, h.reads rfl]

/-- How the loop is left, `budget` polls being allowed. -/
inductive LoopEnd (dir : Dir) (a : Answers) (buf : Mem) (budget : Nat) : Option Int → State → Prop
  /-- A wait timed out. -/
  | timedOut {j : Nat} {s : State} : j < budget → Polled dir a j → a.event j = 0 →
    s.polls = j + 1 → Moved dir a buf (asked dir a j) s → LoopEnd dir a buf budget none s
  /-- `ARDY` came. -/
  | ardy {j : Nat} {s : State} : j < budget → Polled dir a j → dir.IsLast (a.event j) →
    s.polls = j + 1 → Moved dir a buf (asked dir a j) s →
    LoopEnd dir a buf budget (some (budget - 1 - j)) s
  /-- All polls were used up. -/
  | spent {s : State} : Polled dir a budget → s.polls = budget →
    Moved dir a buf (asked dir a budget) s → LoopEnd dir a buf budget (some (-1)) s

theorem transferLoop_end {budget k j : Nat} (hk : j + k = budget) (hpolls : s.polls = j)
    (hpolled : Polled dir a j) (hmoved : Moved dir a buf (asked dir a j) s) :
    LoopEnd dir a buf budget (transferLoop dir a k (.ofNat (asked dir a j)) s).1
      (transferLoop dir a k (.ofNat (asked dir a j)) s).2 := by
  induction k generalizing j s with
  | zero =>
    obtain rfl : j = budget := by omega
    exact .spent hpolled hpolls hmoved
  | succ k ih =>
    have hwait := hmoved.wait
    obtain ⟨written, heq, -⟩ := waitForEvent_eq a s
    unfold transferLoop
    rw [heq] at hwait ⊢
    simp only [hpolls] at hwait ⊢
    split
    · next h0 => exact .timedOut (by omega) hpolled h0 rfl hwait
    · next h0 =>
      split
      · -- a ready bit: `continue` before `ARDY` is looked at
        next hready =>
        have hsucc := asked_of_ready (show dir.IsReady _ from hready)
        have hmove := hwait.move
        have hidx : UInt16.ofNat (asked dir a j) + 1 = .ofNat (asked dir a (j + 1)) := by
          rw [hsucc]
          simp
        rw [hidx]
        rw [← hsucc] at hmove
        refine ih (by omega) ?_ (hpolled.succ ⟨h0, fun hlast => hlast.1 hready⟩) hmove
        cases dir <;> rfl
      · next hready =>
        have hsucc := asked_of_not_ready (show ¬ dir.IsReady _ from hready)
        split
        · next hardy =>
          have hcast : ((k : Nat) : Int) = budget - 1 - j := by omega
          rw [hcast]
          exact .ardy (by omega) hpolled ⟨hready, hardy⟩ rfl (hwait.writeReg (by decide))
        · next hardy =>
          rw [← hsucc] at hwait ⊢
          exact ih (by omega) rfl (hpolled.succ ⟨h0, fun hlast => hardy hlast.2⟩) hwait

/-- Flushing moves no byte of the message. -/
theorem flushFifo_frame (left : Nat) (s : State) :
    (flushFifo left s).polls = s.polls ∧ (flushFifo left s).moves = s.moves ∧
      (flushFifo left s).sent = s.sent ∧ (flushFifo left s).buf = s.buf := by
  induction left generalizing s with
  | zero => exact ⟨rfl, rfl, rfl, rfl⟩
  | succ left ih =>
    obtain ⟨hpolls, hmoves, hsent, hbuf⟩ :=
      ih (omapI2cAckStat statRrdy { s with reads := s.reads + 1 })
    exact ⟨hpolls, hmoves, hsent.trans (sent_writeReg (by decide) _ _), hbuf⟩

/-! ## The transfers -/

/-- The polling ends with the `j`-th event, which is `ARDY`. -/
def EndsAt (dir : Dir) (a : Answers) (j : Nat) : Prop :=
  Polled dir a j ∧ dir.IsLast (a.event j)

theorem EndsAt.unique {i j : Nat} (hi : EndsAt dir a i) (hj : EndsAt dir a j) : i = j :=
  Nat.le_antisymm (hi.1.le fun h => h.2 hj.2) (hj.1.le fun h => h.2 hi.2)

variable {bufWord conWord : UInt16} {msg : Msg}

theorem Moved.setUp (dir : Dir) (a : Answers) (bufWord conWord : UInt16) (msg : Msg) :
    Moved dir a msg.buf 0 (setUp bufWord conWord msg) := by
  have hstart : Moved dir a msg.buf 0 (.start msg.buf) :=
    ⟨rfl, by cases dir <;> rfl, by cases dir <;> rfl, fun _ => rfl⟩
  unfold I2c.setUp
  repeat apply Moved.writeReg
  · exact hstart
  all_goals decide

theorem transfer_end (dir : Dir) (bufWord conWord : UInt16) (a : Answers) (msg : Msg) :
    ∃ k s, LoopEnd dir a msg.buf (msg.len.toNat + 4) k s ∧
      (transfer dir bufWord conWord a msg).1 = i2cErrorOf k ∧
      (transfer dir bufWord conWord a msg).2.polls = s.polls ∧
      (transfer dir bufWord conWord a msg).2.moves = s.moves ∧
      (transfer dir bufWord conWord a msg).2.sent = s.sent ∧
      (transfer dir bufWord conWord a msg).2.buf = s.buf := by
  have hend := transferLoop_end (Nat.zero_add (msg.len.toNat + 4)) rfl
    (fun i hi => absurd hi (Nat.not_lt_zero i)) (Moved.setUp dir a bufWord conWord msg)
  obtain ⟨hpolls, hmoves, hsent, hbuf⟩ := flushFifo_frame a.left
    (transferLoop dir a (msg.len.toNat + 4) 0 (I2c.setUp bufWord conWord msg)).2
  exact ⟨_, _, hend, rfl, hpolls, hmoves, (sent_writeReg (by decide) _ _).trans hsent, hbuf⟩

/-- A transfer changes the message by its moves alone. -/
theorem transfer_buf (dir : Dir) (bufWord conWord : UInt16) (a : Answers) (msg : Msg) :
    (transfer dir bufWord conWord a msg).2.buf =
      dir.bufOf msg.buf (transfer dir bufWord conWord a msg).2.moves := by
  obtain ⟨k, s, hend, -, -, hmoves, -, hbuf⟩ := transfer_end dir bufWord conWord a msg
  rw [hmoves, hbuf]
  cases hend with
  | timedOut _ _ _ _ hmoved => exact hmoved.stored
  | ardy _ _ _ _ hmoved => exact hmoved.stored
  | spent _ _ hmoved => exact hmoved.stored

/-- The bytes that a transfer moves: one for each event that asks for it, until one stops the
polling. -/
theorem transfer_moves (dir : Dir) (bufWord conWord : UInt16) (a : Answers) (msg : Msg) :
    ∃ j ≤ msg.len.toNat + 4, Polled dir a j ∧
      (∀ i ≤ msg.len.toNat + 4, Polled dir a i → i ≤ j) ∧
      (transfer dir bufWord conWord a msg).2.moves =
        (List.range (asked dir a j)).map (a.move dir msg.buf) := by
  obtain ⟨k, s, hend, -, -, hmoves, -, -⟩ := transfer_end dir bufWord conWord a msg
  rw [hmoves]
  cases hend with
  | @timedOut j _ hj hpolled h0 _ hmoved =>
    exact ⟨j, by omega, hpolled, fun i _ hi => hi.le fun hgo => hgo.1 h0, hmoved.moves⟩
  | @ardy j _ hj hpolled hlast _ hmoved =>
    exact ⟨j, by omega, hpolled, fun i _ hi => hi.le fun hgo => hgo.2 hlast, hmoved.moves⟩
  | spent hpolled _ hmoved => exact ⟨_, Nat.le_refl _, hpolled, fun i hi _ => hi, hmoved.moves⟩

/-- A poll is made only when all before it let the polling go on. -/
theorem polled_of_lt_polls {j : Nat} (hj : j < (transfer dir bufWord conWord a msg).2.polls) :
    Polled dir a j := by
  obtain ⟨k, s, hend, -, hpolls, -, -, -⟩ := transfer_end dir bufWord conWord a msg
  rw [hpolls] at hj
  have hsub {m : Nat} (h : Polled dir a m) (hjm : j ≤ m) : Polled dir a j :=
    fun i hi => h i (by omega)
  cases hend with
  | timedOut _ hpolled _ hs _ => exact hsub hpolled (by omega)
  | ardy _ hpolled _ hs _ => exact hsub hpolled (by omega)
  | spent hpolled hs _ => exact hsub hpolled (by omega)

/-- A transfer that `ARDY` ends: it is a success unless this was the last poll allowed. -/
theorem transfer_of_endsAt {j : Nat} (bufWord conWord : UInt16) (hj : j < msg.len.toNat + 4)
    (h : EndsAt dir a j) :
    ((transfer dir bufWord conWord a msg).1 = 0 ↔ j < msg.len.toNat + 3) ∧
      (transfer dir bufWord conWord a msg).2.polls = j + 1 ∧
      (transfer dir bufWord conWord a msg).2.moves =
        (List.range (asked dir a j)).map (a.move dir msg.buf) ∧
      (transfer dir bufWord conWord a msg).2.sent =
        dir.dataOf ((List.range (asked dir a j)).map (a.move dir msg.buf)) := by
  obtain ⟨k, s, hend, hret, hpolls, hmoves, hsent, -⟩ := transfer_end dir bufWord conWord a msg
  rw [hret, hpolls, hmoves, hsent]
  cases hend with
  | timedOut _ hpolled h0 _ _ =>
    have hle := hpolled.le fun hgo => hgo.2 h.2
    have hge := h.1.le fun hgo => hgo.1 h0
    obtain rfl := Nat.le_antisymm hle hge
    exact absurd h0 (h.2.ne_zero)
  | ardy hlt hpolled hlast hs hmoved =>
    obtain rfl := EndsAt.unique h ⟨hpolled, hlast⟩
    refine ⟨?_, hs, hmoved.moves, hmoved.moves ▸ hmoved.sent⟩
    simp only [i2cErrorOf, ETIMEDOUT]
    split
    · omega
    · omega
  | spent hpolled _ _ => exact absurd h.2 (hpolled j hj).2

/-- Without `ARDY` it fails. -/
theorem transfer_of_not_endsAt (h : ∀ j < msg.len.toNat + 4, ¬ EndsAt dir a j) :
    (transfer dir bufWord conWord a msg).1 ≠ 0 := by
  obtain ⟨k, s, hend, hret, -, -, -, -⟩ := transfer_end dir bufWord conWord a msg
  rw [hret]
  cases hend with
  | timedOut _ _ _ _ _ => decide
  | ardy hlt hpolled hlast _ _ => exact absurd ⟨hpolled, hlast⟩ (h _ hlt)
  | spent _ _ _ => decide

end

end LinuxDrivers.I2c
