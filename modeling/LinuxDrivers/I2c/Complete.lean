import LinuxDrivers.I2c.Transfer

/-!
# When a transfer is reported as complete

`i2c_write` and `i2c_read` take `ARDY` for the end of the message and do not look at `NACK` or at
the number of bytes that were moved. They tell that the polls were used up from the counter, which
is 0 also when `ARDY` came with the last poll.
-/

namespace LinuxDrivers.I2c

/-- No event up to the `j`-th has `NACK`. -/
def NoNack (a : Answers) (j : Nat) : Prop := ∀ i ≤ j, a.event i &&& statNack = 0

/-- Exactly the bytes of the message were written to the data register in order; or as many were
received, each stored once and in order, and nothing else in the buffer was changed. -/
def Whole (a : Answers) (msg : Msg) (s : State) : Dir → Prop
  | .write => s.sent = (msg.buf.load 0 msg.len.toNat).map UInt8.toUInt16
  | .read =>
    (s.moves = (List.range msg.len.toNat).map fun i => (i, (a.data i).toUInt8)) ∧
      ∀ i, s.buf i = if i < msg.len.toNat then (a.data i).toUInt8 else msg.buf i

/-- The message was transferred: one of the allowed polls saw `ARDY` and no ready bit, no earlier
one timed out, none up to it saw `NACK`, and the message was whole by then. -/
def Complete (dir : Dir) (a : Answers) (msg : Msg) (s : State) : Prop :=
  ∃ j < msg.len.toNat + 4, j < s.polls ∧ dir.IsLast (a.event j) ∧ (∀ i < j, a.event i ≠ 0) ∧
    NoNack a j ∧ Whole a msg s dir

/-- `i2c_write` returns 0 exactly when the message was transferred. -/
def WriteReports (a : Answers) (msg : Msg) : Prop :=
  (i2cWrite a msg).1 = 0 ↔ Complete .write a msg (i2cWrite a msg).2

/-- `i2c_read` returns 0 exactly when the message was transferred. -/
def ReadReports (a : Answers) (msg : Msg) : Prop :=
  (i2cRead a msg).1 = 0 ↔ Complete .read a msg (i2cRead a msg).2

/-- `ARDY` comes before the last poll allowed, and there was a `NACK` or too few or too many bytes
were asked for. -/
def CutShort (dir : Dir) (a : Answers) (len : Nat) : Prop :=
  ∃ j < len + 3, EndsAt dir a j ∧ ¬ (NoNack a j ∧ asked dir a j = len)

/-- The message is transferred, and `ARDY` comes with the last poll allowed. -/
def LastMinute (dir : Dir) (a : Answers) (len : Nat) : Prop :=
  EndsAt dir a (len + 3) ∧ NoNack a (len + 3) ∧ asked dir a (len + 3) = len

section

variable {dir : Dir} {bufWord conWord : UInt16} {a : Answers} {msg : Msg}

theorem move_of_lt {i : Nat} (dir : Dir) (a : Answers) (buf : Mem) (hi : i < 2 ^ 16) :
    a.move dir buf i = (i, match dir with
      | .write => buf i
      | .read => (a.data i).toUInt8) := by
  cases dir <;> simp only [Answers.move, Nat.mod_eq_of_lt hi]

/-- The message is whole exactly when its number of bytes was asked for. -/
theorem whole_iff {j : Nat} (hj : j < msg.len.toNat + 4) (h : EndsAt dir a j) :
    Whole a msg (transfer dir bufWord conWord a msg).2 dir ↔ asked dir a j = msg.len.toNat := by
  obtain ⟨-, -, hmoves, hsent⟩ := transfer_of_endsAt bufWord conWord hj h
  have hlt {i : Nat} (hi : i ∈ List.range msg.len.toNat) : i < 2 ^ 16 :=
    Nat.lt_trans (List.mem_range.1 hi) msg.len.toNat_lt
  cases dir with
  | write =>
    simp only [Whole, hsent, Dir.dataOf]
    constructor
    · intro heq
      simpa using congrArg List.length heq
    · intro heq
      rw [heq, Mem.load, List.map_map, List.map_map]
      refine List.map_congr_left fun i hi => ?_
      simp only [Function.comp_apply, move_of_lt _ _ _ (hlt hi), Nat.zero_add]
  | read =>
    have hbuf := transfer_buf .read bufWord conWord a msg
    simp only [Whole, hbuf, hmoves]
    constructor
    · rintro ⟨heq, -⟩
      simpa using congrArg List.length heq
    · intro heq
      rw [heq]
      refine ⟨List.map_congr_left fun i hi => move_of_lt _ _ _ (hlt hi), fun i => ?_⟩
      exact a.bufOf_received msg.buf (Nat.le_of_lt msg.len.toNat_lt) i

/-- Only the poll that ended the polling can have completed the message. -/
theorem complete_iff : Complete dir a msg (transfer dir bufWord conWord a msg).2 ↔
    ∃ j < msg.len.toNat + 4, EndsAt dir a j ∧ NoNack a j ∧ asked dir a j = msg.len.toNat := by
  constructor
  · rintro ⟨j, hj, hpolls, hlast, -, hnack, hwhole⟩
    have hends : EndsAt dir a j := ⟨polled_of_lt_polls hpolls, hlast⟩
    exact ⟨j, hj, hends, hnack, (whole_iff hj hends).1 hwhole⟩
  · rintro ⟨j, hj, hends, hnack, hasked⟩
    obtain ⟨-, hpolls, -, -⟩ := transfer_of_endsAt bufWord conWord hj hends
    exact ⟨j, hj, by omega, hends.2, fun i hi => (hends.1 i hi).1, hnack,
      (whole_iff hj hends).2 hasked⟩

theorem transfer_reports_iff :
    ((transfer dir bufWord conWord a msg).1 = 0 ↔
        Complete dir a msg (transfer dir bufWord conWord a msg).2) ↔
      ¬ CutShort dir a msg.len.toNat ∧ ¬ LastMinute dir a msg.len.toNat := by
  rw [complete_iff]
  by_cases hends : ∃ j < msg.len.toNat + 4, EndsAt dir a j
  · obtain ⟨j, hj, hends⟩ := hends
    -- the polling ends with one event, so every statement is about this one
    have hunique {i : Nat} (hi : EndsAt dir a i) : i = j := hi.unique hends
    have hcomplete : (∃ j < msg.len.toNat + 4, EndsAt dir a j ∧ NoNack a j ∧
        asked dir a j = msg.len.toNat) ↔ NoNack a j ∧ asked dir a j = msg.len.toNat := by
      constructor
      · rintro ⟨i, -, hi, hwhole⟩
        exact hunique hi ▸ hwhole
      · exact fun hwhole => ⟨j, hj, hends, hwhole⟩
    have hcut : CutShort dir a msg.len.toNat ↔ j < msg.len.toNat + 3 ∧
        ¬ (NoNack a j ∧ asked dir a j = msg.len.toNat) := by
      constructor
      · rintro ⟨i, hlt, hi, hwhole⟩
        exact hunique hi ▸ ⟨hlt, hwhole⟩
      · exact fun ⟨hlt, hwhole⟩ => ⟨j, hlt, hends, hwhole⟩
    have hlast : LastMinute dir a msg.len.toNat ↔ j = msg.len.toNat + 3 ∧
        (NoNack a j ∧ asked dir a j = msg.len.toNat) := by
      constructor
      · rintro ⟨hi, hwhole⟩
        exact ⟨(hunique hi).symm, hunique hi ▸ hwhole⟩
      · rintro ⟨rfl, hwhole⟩
        exact ⟨hends, hwhole⟩
    rw [(transfer_of_endsAt _ _ hj hends).1, hcomplete, hcut, hlast]
    rcases Nat.lt_or_eq_of_le (Nat.le_of_lt_succ hj) with hlt | rfl
    · simp only [hlt, Nat.ne_of_lt hlt, true_iff, true_and, false_and, Classical.not_not,
        not_false_iff, and_true]
    · simp only [Nat.lt_irrefl, false_iff, false_and, not_false_iff, true_and]
  · have hnone : ∀ j < msg.len.toNat + 4, ¬ EndsAt dir a j := fun j hj h => hends ⟨j, hj, h⟩
    constructor
    · exact fun _ => ⟨fun ⟨j, hj, h, _⟩ => hnone j (by omega) h, fun h => hnone _ (by omega) h.1⟩
    · exact fun _ => ⟨fun h => absurd h (transfer_of_not_endsAt hnone),
        fun ⟨j, hj, h, _⟩ => absurd h (hnone j hj)⟩

end

/-- For every message and every sequence of events. -/
theorem reports_iff (a : Answers) (msg : Msg) :
    (WriteReports a msg ↔
        ¬ CutShort .write a msg.len.toNat ∧ ¬ LastMinute .write a msg.len.toNat) ∧
      (ReadReports a msg ↔
        ¬ CutShort .read a msg.len.toNat ∧ ¬ LastMinute .read a msg.len.toNat) :=
  ⟨transfer_reports_iff, transfer_reports_iff⟩

/-- One byte to write. -/
def oneByte : Msg := ⟨0x50, 1, fun _ => 0xAB⟩

/-- The controller sees these events and then nothing more. -/
def Answers.ofEvents (events : List UInt16) : Answers :=
  ⟨0, fun j => [events.getD j 0], fun _ => 0, 0⟩

/-- The slave refuses the byte, and the write is reported as a success; the message is transferred
with the fifth poll, and the write is reported as timed out. -/
theorem not_writeReports :
    ((i2cWrite (.ofEvents [statXrdy, statArdy ||| statNack]) oneByte).1 = 0 ∧
        ¬ WriteReports (.ofEvents [statXrdy, statArdy ||| statNack]) oneByte) ∧
      ((i2cWrite (.ofEvents [statXrdy, statAl, statAl, statAl, statArdy]) oneByte).1 = -ETIMEDOUT ∧
        ¬ WriteReports (.ofEvents [statXrdy, statAl, statAl, statAl, statArdy]) oneByte) := by
  refine ⟨⟨rfl, fun h => ?_⟩, rfl, fun h => ?_⟩
  · exact (transfer_reports_iff.1 h).1 ⟨1, by decide, ⟨by unfold Polled; decide, by decide⟩,
      fun hwhole => absurd (hwhole.1 1 (by decide)) (by decide)⟩
  · exact (transfer_reports_iff.1 h).2 ⟨⟨by unfold Polled; decide, by decide⟩,
      by unfold NoNack; decide, by decide⟩

end LinuxDrivers.I2c
