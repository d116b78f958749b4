import LinuxDrivers.Uart.Order

/-!
# The receive index

`serial_omap_irq` of `char-serial-new.c` and the functions it calls. `icount.rx` is the index of the
next store into `rx_buff`. `serial_omap_rdi` sets it back to 0 at the end of the buffer, but
`serial_omap_rlsi` also counts it up, and does not look at the end.
-/

namespace LinuxDrivers.Uart

/-! ## Line errors -/

def UART_LSR_OE : UInt32 := 0x02

def UART_LSR_PE : UInt32 := 0x04

def UART_LSR_FE : UInt32 := 0x08

def UART_LSR_BI : UInt32 := 0x10

/-- The port with the counters of line errors. -/
structure LinePort extends Port where
  brk : UInt32
  parity : UInt32
  frame : UInt32
  overrun : UInt32

/-- The end of `serial_omap_rlsi`. -/
def countErrors (lsr : UInt32) (up : LinePort) : LinePort :=
  { up with
    parity := if lsr &&& UART_LSR_PE ≠ 0 then up.parity + 1 else up.parity
    frame := if lsr &&& UART_LSR_FE ≠ 0 then up.frame + 1 else up.frame
    overrun := if lsr &&& UART_LSR_OE ≠ 0 then up.overrun + 1 else up.overrun }

/-- `serial_omap_rlsi`; `handled` is what `uart_handle_break` returns. The character is dropped. -/
def serialOmapRlsi (lsr : UInt32) (handled : Bool) (up : LinePort) : LinePort :=
  let up := { up with rx := (up.rx + 1) % 2 ^ 32 }
  if lsr &&& UART_LSR_BI ≠ 0 then
    let up := { up with brk := up.brk + 1 }
    if handled then up else countErrors (lsr &&& ~~~(UART_LSR_FE ||| UART_LSR_PE)) up
  else countErrors lsr up

/-! ## The interrupt -/

def UART_IIR_NO_INT : UInt32 := 0x01

def UART_IIR_THRI : UInt32 := 0x02

def UART_IIR_RDI : UInt32 := 0x04

def UART_IIR_RLSI : UInt32 := 0x06

def UART_IIR_RX_TIMEOUT : UInt32 := 0x0c

/-- What the registers hold in one turn of the interrupt handler. -/
structure Turn where
  iir : UInt32
  lsr : UInt32
  ch : UInt8
  handled : Bool

/-- The type of the interrupt. -/
def Turn.type (t : Turn) : UInt32 := t.iir &&& 0x3e

/-- The `switch` of `serial_omap_irq`; the other types do nothing. -/
def irqTurn (up : LinePort) (t : Turn) : LinePort :=
  if t.type = UART_IIR_THRI then { up with toPort := transmitChars up.toPort }
  else if t.type = UART_IIR_RX_TIMEOUT ∨ t.type = UART_IIR_RDI then
    { up with toPort := serialOmapRdi t.lsr t.ch up.toPort }
  else if t.type = UART_IIR_RLSI then serialOmapRlsi t.lsr t.handled up
  else up

/-- The loop of `serial_omap_irq` from its `j`-th turn on. -/
def irqLoop (turns : Nat → Turn) : Nat → Nat → LinePort → LinePort
  | maxCount, j, up =>
    if (turns j).iir &&& UART_IIR_NO_INT ≠ 0 then up
    else
      match maxCount with
      | 0 => irqTurn up (turns j)
      | maxCount + 1 => irqLoop turns maxCount (j + 1) (irqTurn up (turns j))

def serialOmapIrq (turns : Nat → Turn) (up : LinePort) : LinePort := irqLoop turns 256 0 up

/-! ## Runs -/

/-- A turn of the interrupt handler, or a call of `serial_read`. -/
inductive IndexEvent where
  | turn (t : Turn)
  | read (len : Nat)

/-- The port with the indexes at which characters were stored into `rx_buff`. -/
structure Watched where
  up : LinePort
  stores : List Nat

/-- The turn calls `serial_omap_rdi`, and it stores a character. -/
def Turn.Stores (t : Turn) : Prop :=
  (t.type = UART_IIR_RX_TIMEOUT ∨ t.type = UART_IIR_RDI) ∧ t.lsr &&& UART_LSR_DR ≠ 0

instance (t : Turn) : Decidable t.Stores := inferInstanceAs (Decidable (_ ∧ _))

def indexStep (s : Watched) : IndexEvent → Watched
  | .turn t => ⟨irqTurn s.up t, if t.Stores then s.stores ++ [s.up.rx] else s.stores⟩
  | .read len => { s with up := { s.up with toPort := (serialRead len s.up.toPort).2 } }

/-- A call of the handler is a run of at most 257 turns. -/
theorem irqLoop_eq_run (turns : Nat → Turn) (maxCount j : Nat) (s : Watched) :
    ∃ n ≤ maxCount + 1, irqLoop turns maxCount j s.up =
      (run indexStep s ((List.range' j n).map fun i => .turn (turns i))).up := by
  induction maxCount generalizing j s with
  | zero =>
    unfold irqLoop
    split
    · exact ⟨0, by omega, rfl⟩
    · exact ⟨1, by omega, rfl⟩
  | succ maxCount ih =>
    unfold irqLoop
    split
    · exact ⟨0, by omega, rfl⟩
    · obtain ⟨n, hn, heq⟩ := ih (j + 1) (indexStep s (.turn (turns j)))
      exact ⟨n + 1, by omega, heq⟩

theorem serialOmapIrq_eq_run (turns : Nat → Turn) (s : Watched) :
    ∃ n ≤ 257, serialOmapIrq turns s.up =
      (run indexStep s ((List.range' 0 n).map fun i => .turn (turns i))).up :=
  irqLoop_eq_run turns 256 0 s

/-- The port after the start: the index is 0, and the buffer has ten bytes. -/
def Watched.start (up : LinePort) : Watched := ⟨{ up with rx := 0, rxSize := 10 }, []⟩

/-- Every character was stored inside the buffer. -/
def StoredInside (s : Watched) : Prop := ∀ i ∈ s.stores, i < s.up.rxSize

/-- A line error does not come while the next store is into the last byte. -/
def ErrorFits (s : Watched) : IndexEvent → Prop
  | .turn t => t.type = UART_IIR_RLSI → s.up.rx + 1 ≠ s.up.rxSize
  | .read _ => True

/-! ## The index -/

theorem transmitChars_rx (up : Port) :
    (transmitChars up).rx = up.rx ∧ (transmitChars up).rxSize = up.rxSize := by
  unfold transmitChars serialOmapStopTx
  rw [transmitLoop_eq]
  split
  · exact ⟨rfl, rfl⟩
  · exact ⟨rfl, rfl⟩

theorem serialOmapRlsi_rx (lsr : UInt32) (handled : Bool) (up : LinePort) :
    (serialOmapRlsi lsr handled up).rx = (up.rx + 1) % 2 ^ 32 ∧
      (serialOmapRlsi lsr handled up).rxSize = up.rxSize := by
  unfold serialOmapRlsi
  split
  · split
    · exact ⟨rfl, rfl⟩
    · exact ⟨rfl, rfl⟩
  · exact ⟨rfl, rfl⟩

/-- What a turn does to the index: a store moves it on and around, a line error only on. -/
theorem irqTurn_cases (up : LinePort) (t : Turn) :
    (irqTurn up t).rxSize = up.rxSize ∧
      (t.Stores ∧ t.type ≠ UART_IIR_RLSI ∧
          (irqTurn up t).rx = (if up.rx + 1 ≥ up.rxSize then 0 else up.rx + 1) ∨
        ¬ t.Stores ∧ t.type = UART_IIR_RLSI ∧ (irqTurn up t).rx = (up.rx + 1) % 2 ^ 32 ∨
        ¬ t.Stores ∧ t.type ≠ UART_IIR_RLSI ∧ (irqTurn up t).rx = up.rx) := by
  unfold irqTurn Turn.Stores
  split
  · next htype =>
    rw [htype]
    obtain ⟨hrx, hsize⟩ := transmitChars_rx up.toPort
    have hnot : ¬ (UART_IIR_THRI = UART_IIR_RX_TIMEOUT ∨ UART_IIR_THRI = UART_IIR_RDI) := by decide
    exact ⟨hsize, .inr (.inr ⟨fun hstores => hnot hstores.1, by decide, hrx⟩)⟩
  · split
    · next htype =>
      have hne : t.type ≠ UART_IIR_RLSI := by
        rcases htype with h | h <;> rw [h] <;> decide
      unfold serialOmapRdi
      split
      · next hdr => exact ⟨rfl, .inr (.inr ⟨fun hstores => hstores.2 hdr, hne, rfl⟩)⟩
      · next hdr => exact ⟨rfl, .inl ⟨⟨htype, hdr⟩, hne, rfl⟩⟩
    · next htype =>
      split
      · next hrlsi =>
        obtain ⟨hrx, hsize⟩ := serialOmapRlsi_rx t.lsr t.handled up
        exact ⟨hsize, .inr (.inl ⟨fun hstores => htype hstores.1, hrlsi, hrx⟩)⟩
      · next hrlsi =>
        exact ⟨rfl, .inr (.inr ⟨fun hstores => htype hstores.1, hrlsi, rfl⟩)⟩

/-- The next character is stored inside the buffer, as all before it. -/
structure NextInside (s : Watched) : Prop where
  next : s.up.rx < s.up.rxSize
  stored : StoredInside s

section

variable {s : Watched}

theorem indexStep_rxSize (s : Watched) (e : IndexEvent) :
    (indexStep s e).up.rxSize = s.up.rxSize := by
  cases e with
  | turn t => exact (irqTurn_cases s.up t).1
  | read len => rfl

/-- A step stores at most one character, at the index. -/
theorem NextInside.stored_step (h : NextInside s) (e : IndexEvent) :
    StoredInside (indexStep s e) := by
  intro i hi
  rw [indexStep_rxSize]
  cases e with
  | turn t =>
    simp only [indexStep] at hi
    split at hi
    · rcases List.mem_append.1 hi with hi | hi
      · exact h.stored i hi
      · exact List.mem_singleton.1 hi ▸ h.next
    · exact h.stored i hi
  | read len => exact h.stored i hi

theorem NextInside.step {e : IndexEvent} (h : NextInside s) (hsize : s.up.rxSize = 10)
    (hfits : ErrorFits s e) : NextInside (indexStep s e) := by
  refine ⟨?_, h.stored_step e⟩
  have hnext := h.next
  rw [indexStep_rxSize]
  cases e with
  | turn t =>
    rcases (irqTurn_cases s.up t).2 with ⟨-, -, hrx⟩ | ⟨-, htype, hrx⟩ | ⟨-, -, hrx⟩
    · simp only [indexStep, hrx]
      split <;> omega
    · have hlast := hfits htype
      simp only [indexStep, hrx]
      omega
    · simp only [indexStep, hrx]
      exact hnext
  | read len =>
    simp only [indexStep, serialRead]
    omega

/-- A line error at the last byte leaves the index behind the buffer. -/
theorem not_nextInside {e : IndexEvent} (hsize : s.up.rxSize = 10)
    (hfits : ¬ ErrorFits s e) : ¬ NextInside (indexStep s e) := by
  intro hafter
  have hnext := hafter.next
  rw [indexStep_rxSize] at hnext
  cases e with
  | turn t =>
    simp only [ErrorFits, Classical.not_imp, not_not] at hfits
    obtain ⟨htype, hlast⟩ := hfits
    rcases (irqTurn_cases s.up t).2 with ⟨-, hne, -⟩ | ⟨-, -, hrx⟩ | ⟨-, hne, -⟩
    · exact hne htype
    · simp only [indexStep, hrx] at hnext
      omega
    · exact hne htype
  | read len => exact hfits trivial

/-- A received character. -/
def oneChar : Turn := ⟨UART_IIR_RDI, UART_LSR_DR, 0, false⟩

theorem nextInside_of_forall (h : ∀ e, StoredInside (indexStep s e)) : NextInside s := by
  have hstep : StoredInside (indexStep s (.turn oneChar)) := h (.turn oneChar)
  have hstores : (indexStep s (.turn oneChar)).stores = s.stores ++ [s.up.rx] := rfl
  have hsize := indexStep_rxSize s (.turn oneChar)
  rw [StoredInside, hstores, hsize, List.forall_mem_append] at hstep
  exact ⟨hstep.2 s.up.rx List.mem_cons_self, hstep.1⟩

end

/-- Every character is stored inside the buffer, in every state of a run and whatever the next event
is, exactly when no line error comes while the next store is into the last byte. -/
theorem storedInside_run_iff (up : LinePort) (events : List IndexEvent) :
    (∀ pre, pre <+: events →
        ∀ next, StoredInside (run indexStep (.start up) (pre ++ [next]))) ↔
      Along indexStep ErrorFits (.start up) events := by
  rw [← Along.safe_iff (I := fun s => NextInside s ∧ s.up.rxSize = 10) (V := fun _ _ => True)
    (C := ErrorFits) (fun s hs => hs.1)
    (fun s e hs _ hfits => ⟨hs.1.step hs.2 hfits, (indexStep_rxSize s e).trans hs.2⟩)
    (fun s e hs _ hfits => not_nextInside hs.2 hfits)
    ⟨⟨Nat.succ_pos 9, fun i hi => absurd hi List.not_mem_nil⟩, rfl⟩
    (along_of_forall fun _ _ => trivial)]
  simp only [run_append]
  constructor
  · exact fun h pre hpre => nextInside_of_forall (h pre hpre)
  · exact fun h pre hpre next => (h pre hpre).stored_step next

/-- Ten line errors and a character: it is stored behind the buffer. -/
theorem not_storedInside_errors :
    let errors : List IndexEvent :=
      List.replicate 10 (.turn ⟨UART_IIR_RLSI, UART_LSR_DR ||| UART_LSR_FE, 0, false⟩)
    let s := run indexStep (.start ⟨serialOmapStartup, 0, 0, 0, 0⟩) (errors ++ [.turn oneChar])
    s.stores = [10] ∧ s.up.rxSize = 10 ∧ ¬ StoredInside s := by
  refine ⟨rfl, rfl, fun h => ?_⟩
  exact absurd (h 10 (List.mem_singleton.2 rfl)) (by decide)

end LinuxDrivers.Uart
