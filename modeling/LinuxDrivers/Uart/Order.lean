import LinuxDrivers.Lib.Run
import LinuxDrivers.Uart.CharDriver

/-!
# Characters in order

A read copies from the start of `rx_buff` and lowers `icount.rx`, but moves nothing. So the
characters come out in order as long as each read takes all that wait. A write queues as many
characters as fit and the interrupt sends them, but the user is told that all of them were
accepted.
-/

namespace LinuxDrivers.Uart

/-! ## Receiving -/

/-- What happens on the receiving side: a character arrives, or the user reads at offset 0. -/
inductive RxEvent where
  | rdi (ch : UInt8)
  | read (len : Nat) (faults : Bool)

/-- The port with all characters received and returned so far. -/
structure RxRun where
  up : Port
  received : List UInt8
  returned : List UInt8

/-- The characters that a call returns; one that fails returns none. -/
def charsOf : Except Int (List UInt8) → List UInt8
  | .ok chars => chars
  | .error _ => []

def rxStep (s : RxRun) : RxEvent → RxRun
  | .rdi ch => { s with up := serialOmapRdi UART_LSR_DR ch s.up, received := s.received ++ [ch] }
  | .read len faults => { s with
      up := (myRead len faults 0 s.up).2.2
      returned := s.returned ++ charsOf (myRead len faults 0 s.up).1 }

/-- The receiving side after the start. -/
def RxRun.start : RxRun := ⟨serialOmapStartup, [], []⟩

/-- Fewer characters than fit in the buffer are received and not yet returned. -/
def Few (s : RxRun) : Prop := s.received.length < s.returned.length + s.up.rxSize

instance (s : RxRun) : Decidable (Few s) := inferInstanceAs (Decidable (_ < _))

/-- A read takes all characters that wait, and its copy succeeds. -/
def TakesAll (s : RxRun) : RxEvent → Prop
  | .rdi _ => True
  | .read len faults => 0 < len → 0 < s.up.rx → s.up.rx ≤ len ∧ faults = false

instance (s : RxRun) : ∀ e, Decidable (TakesAll s e)
  | .rdi _ => isTrue trivial
  | .read _ _ => inferInstanceAs (Decidable (_ → _ → _))

/-- The characters that wait in the buffer are those received and not yet returned. -/
structure Ordered (s : RxRun) : Prop where
  size_eq : s.up.rxSize = 10
  rx_lt : s.up.rx < 10
  waiting : s.returned ++ s.up.rxBuff.load 0 s.up.rx = s.received

theorem Ordered.start : Ordered .start := ⟨rfl, by decide, rfl⟩

/-- A character that arrives is stored behind those that wait. -/
theorem Ordered.rdi {s : RxRun} (h : Ordered s) (ch : UInt8) (hfew : Few (rxStep s (.rdi ch))) :
    Ordered (rxStep s (.rdi ch)) := by
  have hlen := congrArg List.length h.waiting
  rw [List.length_append, Mem.length_load] at hlen
  have hdr : ¬ UART_LSR_DR &&& UART_LSR_DR = 0 := by decide
  simp only [Few, rxStep, serialOmapRdi, hdr, ↓reduceIte, List.length_append,
    List.length_singleton, h.size_eq] at hfew
  have hlt : ¬ s.up.rx + 1 ≥ 10 := by omega
  simp only [rxStep, serialOmapRdi, hdr, ↓reduceIte, h.size_eq, hlt]
  refine ⟨rfl, by simp only; omega, ?_⟩
  simp only
  have hload : Mem.load (Function.update s.up.rxBuff s.up.rx ch) 0 (s.up.rx + 1) =
      s.up.rxBuff.load 0 s.up.rx ++ [ch] := by
    rw [Mem.load_add]
    congr 1
    · apply Mem.load_congr
      intro k hk
      exact Function.update_of_ne (by omega) _ _
    · simp [Mem.load]
  rw [hload, ← List.append_assoc, h.waiting]

/-- A read of all that waits empties the buffer. -/
theorem Ordered.read {s : RxRun} (h : Ordered s) {len : Nat} {faults : Bool}
    (hall : TakesAll s (.read len faults)) : Ordered (rxStep s (.read len faults)) := by
  have hlt := h.rx_lt
  -- the cap of `my_read` is above what can wait
  have hcap : ∀ {n : Nat}, s.up.rx ≤ n → (if s.up.rx < (if n > 10 then 10 else n) then s.up.rx
      else (if n > 10 then 10 else n)) = s.up.rx := by
    intro n hn
    split
    · rfl
    · split <;> omega
  by_cases hnone : len = 0 ∨ s.up.rx = 0
  · -- nothing is taken
    have hzero : (if s.up.rx < (if len > 10 then 10 else len) then s.up.rx
        else (if len > 10 then 10 else len)) = 0 := by
      rcases hnone with hlen | hrx
      · simp [hlen]
      · rw [hcap (by omega), hrx]
    have hread : myRead len faults 0 s.up = (.error (-EAGAIN), 0, s.up) := by
      simp only [myRead, serialRead, ↓reduceIte, hzero, Nat.sub_zero]
    simp only [rxStep, hread, charsOf, List.append_nil]
    exact h
  · obtain ⟨hle, rfl⟩ := hall (by omega) (by omega)
    have hread : myRead len false 0 s.up =
        (.ok (s.up.rxBuff.load 0 s.up.rx), 1, { s.up with rx := 0 }) := by
      have hpos : s.up.rx ≠ 0 := fun hz => hnone (.inr hz)
      simp only [myRead, serialRead, ↓reduceIte, hcap hle, hpos, Nat.sub_self, Bool.false_eq_true,
        Nat.zero_add]
    simp only [rxStep, hread, charsOf, h.waiting]
    exact ⟨h.size_eq, Nat.succ_pos 9, List.append_nil _⟩

/-- **Receive order.** While fewer characters than fit in the buffer are waiting, and every read
takes all of them, the characters returned are a prefix of those received. -/
theorem returned_prefix_run {events : List RxEvent}
    (hfew : Along rxStep (fun s e => Few (rxStep s e)) .start events)
    (hall : Along rxStep TakesAll .start events) :
    (run rxStep .start events).returned <+: (run rxStep .start events).received := by
  have hrun : Ordered (run rxStep .start events) := by
    refine Along.invariant (fun s e hs hstep => ?_) Ordered.start (hfew.and hall)
    cases e with
    | rdi ch => exact hs.rdi ch hstep.1
    | read len faults => exact hs.read hstep.2
  rw [← hrun.waiting]
  exact List.prefix_append _ _

/-- Reads of ten characters between characters that arrive. -/
theorem returned_prefix_run_whole :
    let events : List RxEvent := [.rdi 97, .rdi 98, .read 10 false, .read 10 false, .rdi 99,
      .read 1 false, .rdi 100]
    (run rxStep .start events).returned = [97, 98, 99] ∧
      (run rxStep .start events).returned <+: (run rxStep .start events).received :=
  ⟨by decide +kernel, returned_prefix_run (by decide +kernel) (by decide +kernel)⟩

/-- Two characters read one at a time: the first one is returned twice. -/
theorem not_returned_prefix_short :
    let events : List RxEvent := [.rdi 97, .rdi 98, .read 1 false, .read 1 false]
    Along rxStep (fun s e => Few (rxStep s e)) .start events ∧
      (run rxStep .start events).returned = [97, 97] ∧
      ¬ (run rxStep .start events).returned <+: (run rxStep .start events).received := by
  decide +kernel

/-! ## Sending -/

/-- The port with the characters that the user was told are accepted. -/
structure TxRun where
  up : Port
  accepted : List UInt8

/-- A write of `buf` that succeeds, followed by its transmit interrupt. -/
def txStep (s : TxRun) (buf : List UInt8) : TxRun where
  up := transmitIrq (myWrite buf false s.up).2
  accepted := s.accepted ++ buf.take (myWrite buf false s.up).1.toNat

@[simp] theorem sent_serialOut_ier (up : Port) (value : UInt8) :
    (serialOut up .ier value).sent = up.sent := by
  simp [serialOut, Port.sent]

/-- The loop of `transmit_chars` sends the first `n` characters of the buffer. -/
theorem transmitLoop_eq (up : Port) (n : Nat) :
    ((List.range n).foldl (fun up i => serialOut up .tx (up.txBuff i)) up) =
      { up with written := up.written ++ (up.txBuff.load 0 n).map (Reg.tx, ·) } := by
  induction n with
  | zero => simp [Mem.load]
  | succ n ih =>
    rw [List.range_succ, List.foldl_append, ih]
    simp [serialOut, Mem.load, List.range_succ]

/-- `transmit_chars` sends what is queued. -/
theorem transmitChars_sent (up : Port) :
    (transmitChars up).sent = up.sent ++ up.txBuff.load 0 up.tx ∧
      (transmitChars up).txSize = up.txSize := by
  have hsent : ({ up with written := up.written ++ (up.txBuff.load 0 up.tx).map (Reg.tx, ·) } :
      Port).sent = up.sent ++ up.txBuff.load 0 up.tx := by
    simp [Port.sent, List.filterMap_map]
  unfold transmitChars serialOmapStopTx
  rw [transmitLoop_eq]
  split
  · exact ⟨(sent_serialOut_ier ..).trans hsent, rfl⟩
  · exact ⟨hsent, rfl⟩

/-- `serial_omap_start_tx` leaves the interrupt enabled and the queue alone. -/
theorem serialOmapStartTx_eq (up : Port) :
    (serialOmapStartTx up).ier &&& UART_IER_THRI ≠ 0 ∧ (serialOmapStartTx up).sent = up.sent ∧
      (serialOmapStartTx up).tx = up.tx ∧ (serialOmapStartTx up).txBuff = up.txBuff ∧
      (serialOmapStartTx up).txSize = up.txSize := by
  unfold serialOmapStartTx serialOmapEnableIerThri
  split
  · refine ⟨?_, sent_serialOut_ier .., rfl, rfl, rfl⟩
    have habs : (up.ier ||| UART_IER_THRI) &&& UART_IER_THRI = UART_IER_THRI := by
      apply UInt8.eq_of_toBitVec_eq
      ext i
      simp only [UInt8.toBitVec_and, UInt8.toBitVec_or, BitVec.getElem_and, BitVec.getElem_or]
      cases up.ier.toBitVec[i] <;> cases UART_IER_THRI.toBitVec[i] <;> rfl
    change (up.ier ||| UART_IER_THRI) &&& UART_IER_THRI ≠ 0
    rw [habs]
    decide
  · next h => exact ⟨h, rfl, rfl, rfl, rfl⟩

/-- **One write.** The interrupt sends the characters that fit in the buffer. -/
theorem txStep_sent (s : TxRun) (buf : List UInt8) :
    (txStep s buf).up.sent = s.up.sent ++ buf.take s.up.txSize ∧
      (txStep s buf).up.txSize = s.up.txSize ∧ (txStep s buf).accepted = s.accepted ++ buf := by
  obtain ⟨count, hcount, hmin⟩ : ∃ count,
      (if buf.length > s.up.txSize then s.up.txSize else buf.length) = count ∧
        count = min s.up.txSize buf.length := ⟨_, rfl, by split <;> omega⟩
  obtain ⟨hthri, hsent, htx, hbuff, hsize⟩ := serialOmapStartTx_eq
    { s.up with tx := count, txBuff := s.up.txBuff.store 0 count (.ofList buf) }
  have hload : (s.up.txBuff.store 0 count (.ofList buf)).load 0 count = buf.take s.up.txSize := by
    have htake : buf.take s.up.txSize = buf.take count := by
      rw [hmin, List.take_eq_take_iff]
      omega
    rw [htake]
    exact Mem.load_store_take _ _ (by omega)
  simp only [txStep, myWrite, hcount, Bool.false_eq_true, ↓reduceIte, Int.toNat_natCast,
    List.take_length, and_true]
  rw [transmitIrq, if_pos hthri]
  obtain ⟨hchars, hkept⟩ := transmitChars_sent (serialOmapStartTx
    { s.up with tx := count, txBuff := s.up.txBuff.store 0 count (.ofList buf) })
  rw [hchars, hkept, hsent, htx, hbuff, hsize]
  exact ⟨by rw [hload]; rfl, rfl⟩

/-- All characters that were accepted are sent. -/
def SentAccepted (s : TxRun) : Prop := s.up.sent = s.accepted

instance (s : TxRun) : Decidable (SentAccepted s) := inferInstanceAs (Decidable (_ = _))

/-- **Transmission.** Every character accepted is sent, in every state of a run of writes, exactly
when no write is longer than the buffer. -/
theorem sentAccepted_run_iff (bufs : List (List UInt8)) :
    (∀ pre, pre <+: bufs → SentAccepted (run txStep ⟨serialOmapStartup, []⟩ pre)) ↔
      ∀ buf ∈ bufs, buf.length ≤ 10 := by
  refine (Along.safe_iff (I := fun s => SentAccepted s ∧ s.up.txSize = 10) (V := fun _ _ => True)
    (C := fun _ buf => buf.length ≤ 10) (fun s hs => hs.1) ?_ ?_ ⟨?_, rfl⟩
    (along_of_forall fun _ _ => trivial)).trans along_iff_forall
  · intro s buf hs _ hbuf
    obtain ⟨hsent, hsize, hacc⟩ := txStep_sent s buf
    refine ⟨?_, hsize.trans hs.2⟩
    rw [SentAccepted, hsent, hacc, hs.2, List.take_of_length_le hbuf, hs.1]
  · intro s buf hs _ hbuf
    obtain ⟨hsent, -, hacc⟩ := txStep_sent s buf
    rw [SentAccepted, hsent, hacc, hs.2, hs.1, List.append_right_inj]
    intro he
    have hlen := congrArg List.length he
    rw [List.length_take] at hlen
    omega
  · decide

/-- A write of eleven characters is reported as accepted, and the last one is not sent. -/
theorem not_sentAccepted_long :
    let s := run txStep ⟨serialOmapStartup, []⟩ [[1, 2, 3, 4, 5, 6, 7, 8, 9, 10, 11]]
    s.accepted = [1, 2, 3, 4, 5, 6, 7, 8, 9, 10, 11] ∧
      s.up.sent = [1, 2, 3, 4, 5, 6, 7, 8, 9, 10] ∧ ¬ SentAccepted s := by
  decide +kernel

end LinuxDrivers.Uart
