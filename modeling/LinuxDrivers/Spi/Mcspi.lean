import LinuxDrivers.Lib.Device

/-!
# Polled transfers over SPI

`omap2_mcspi_txrx_pio` and `omap2_mcspi_transfer_one_message` of `spi-omap2-mcspi.c`. For every word
the driver waits until it can be written and until one can be read. The words that are left are
counted down before the waits, so that a word whose wait times out is counted as transferred, and a
timeout at the last word is no failure at all.
-/

namespace LinuxDrivers.Spi

/-! ## The controller -/

def chstatRxs : UInt32 := 0x1

def chstatTxs : UInt32 := 0x2

def chctrlEn : UInt32 := 0x1

/-- The registers that the modelled functions write. -/
inductive Reg where
  | chctrl0
  | tx0
  deriving DecidableEq

/-- What the controller answers in one transfer. -/
structure Answers where
  /-- The values of `CHSTAT0` that each wait reads until its time is over. -/
  waits : Nat → List UInt32
  /-- The values read from `RX0`. -/
  data : Nat → UInt32

/-- The progress of a transfer. -/
structure State where
  waits : Nat
  written : List (Reg × UInt32)
  /-- The bytes stored to `rx_buf`, from its start on. -/
  received : List UInt8

def State.start : State := ⟨0, [], []⟩

/-- What was written to `TX0`. -/
def State.sent (s : State) : List UInt32 :=
  s.written.filterMap fun w => if w.1 = .tx0 then some w.2 else none

/-- `struct spi_transfer`. -/
structure Xfer where
  len : UInt32
  txBuf : Option Mem
  rxBuf : Option Mem

def mcspiWriteReg (reg : Reg) (val : UInt32) (s : State) : State :=
  { s with written := s.written ++ [(reg, val)] }

def omap2McspiSetEnable (enable : Bool) (s : State) : State :=
  mcspiWriteReg .chctrl0 (if enable then chctrlEn else 0) s

/-- `mcspi_wait_for_reg_bit`; the list has what it reads, once more after its time is over. -/
def mcspiWaitForRegBit (readings : List UInt32) (bit : UInt32) : Int :=
  if readings.any fun r => r &&& bit ≠ 0 then 0 else -ETIMEDOUT

/-! ## Transfers -/

/-- The first half of a turn of the loop: the word `i` is written, unless the wait times out. -/
def writeWord (a : Answers) (i : Nat) (s : State) : Option Mem → Bool × State
  | none => (true, s)
  | some tx =>
    let s' := { s with waits := s.waits + 1 }
    if mcspiWaitForRegBit (a.waits s.waits) chstatTxs < 0 then (false, s')
    else (true, mcspiWriteReg .tx0 (tx i).toUInt32 s')

/-- The second half: a word is read, unless the wait times out. -/
def readWord (a : Answers) (s : State) : Option Mem → Bool × State
  | none => (true, s)
  | some _ =>
    let s' := { s with waits := s.waits + 1 }
    if mcspiWaitForRegBit (a.waits s.waits) chstatRxs < 0 then (false, s')
    else (true, { s' with received := s.received ++ [(a.data s.received.length).toUInt8] })

/-- A turn of the loop. -/
def pioWord (a : Answers) (xfer : Xfer) (i : Nat) (s : State) : Bool × State :=
  match writeWord a i s xfer.txBuf with
  | (false, s) => (false, s)
  | (true, s) => readWord a s xfer.rxBuf

/-- The loop with so many turns left and the word `i` next: the value of `c` behind it. -/
def pioLoop (a : Answers) (xfer : Xfer) : Nat → Nat → State → UInt32 × State
  | 0, _, s => (0, s)
  | c + 1, i, s =>
    match pioWord a xfer i s with
    | (false, s) => (.ofNat c, s)
    | (true, s) => pioLoop a xfer c (i + 1) s

/-- `omap2_mcspi_txrx_pio`. The loop decrements `c` before it looks at it. -/
def omap2McspiTxrxPio (wordLen : Int32) (a : Answers) (xfer : Xfer) (s : State) : UInt32 × State :=
  let count := xfer.len
  if count < (wordLen >>> 3).toUInt32 then (0, s)
  else
    match pioLoop a xfer (if count = 0 then 2 ^ 32 else count.toNat) 0 s with
    | (c, s) => (count - c, omap2McspiSetEnable true s)

/-- The controller is enabled. It needs a dummy word in `TX0` when there is nothing to send. -/
def messageStart (xfer : Xfer) : State :=
  let s := omap2McspiSetEnable true .start
  if xfer.txBuf.isNone then mcspiWriteReg .tx0 0 s else s

/-- `omap2_mcspi_transfer_one_message`; nothing stands for `NULL`. -/
def omap2McspiTransferOneMessage (wordLen : Int32) (a : Answers) : Option Xfer → Int × State
  | none => (EINVAL, .start)
  | some t =>
    if t.len ≠ 0 then
      match omap2McspiTxrxPio wordLen a t (messageStart t) with
      | (count, s) => if count ≠ t.len then (- EIO, s) else (0, s)
    else (0, .start)

/-! ## Words -/

/-- The word `i` was completely exchanged: written when there is something to send, and read when
there is room for it. -/
def Exchanged (a : Answers) (xfer : Xfer) (s : State) (i : Nat) : Prop :=
  (∀ tx, xfer.txBuf = some tx → s.sent[i]? = some (tx i).toUInt32) ∧
    (∀ rx, xfer.rxBuf = some rx → s.received[i]? = some (a.data i).toUInt8)

/-- So many leading words were exchanged. -/
def Leading (a : Answers) (xfer : Xfer) (s : State) (n : Nat) : Prop :=
  (∀ i < n, Exchanged a xfer s i) ∧ ¬ Exchanged a xfer s n

/-- `omap2_mcspi_txrx_pio` returns the number of leading words that were exchanged. -/
def PioReports (wordLen : Int32) (a : Answers) (xfer : Xfer) : Prop :=
  Leading a xfer (omap2McspiTxrxPio wordLen a xfer .start).2
    (omap2McspiTxrxPio wordLen a xfer .start).1.toNat

/-- `omap2_mcspi_transfer_one_message` returns 0 exactly when all words were exchanged. -/
def MessageReports (wordLen : Int32) (a : Answers) (xfer : Xfer) : Prop :=
  (omap2McspiTransferOneMessage wordLen a (some xfer)).1 = 0 ↔
    ∀ i < xfer.len.toNat, Exchanged a xfer (omap2McspiTransferOneMessage wordLen a (some xfer)).2 i

/-- How many waits a word takes for one direction. -/
def waitsOf (buf : Option Mem) : Nat := if buf.isSome then 1 else 0

/-- The waits of the word `i`, all before it having succeeded, do not time out. -/
def InTime (a : Answers) (xfer : Xfer) (i : Nat) : Prop :=
  let first := i * (waitsOf xfer.txBuf + waitsOf xfer.rxBuf)
  (xfer.txBuf.isSome → mcspiWaitForRegBit (a.waits first) chstatTxs = 0) ∧
    (xfer.rxBuf.isSome →
      mcspiWaitForRegBit (a.waits (first + waitsOf xfer.txBuf)) chstatRxs = 0)

section

variable {a : Answers} {xfer : Xfer} {s : State} {i : Nat}

theorem wait_neg_iff (readings : List UInt32) (bit : UInt32) :
    mcspiWaitForRegBit readings bit < 0 ↔ mcspiWaitForRegBit readings bit ≠ 0 := by
  unfold mcspiWaitForRegBit ETIMEDOUT
  split <;> decide

/-- A word that can be written in time, or need not be. -/
theorem writeWord_inTime {tx : Option Mem}
    (h : tx.isSome → mcspiWaitForRegBit (a.waits s.waits) chstatTxs = 0) :
    ∃ s', writeWord a i s tx = (true, s') ∧ s'.waits = s.waits + waitsOf tx ∧
      s'.received = s.received ∧
      ∀ m, tx = some m → s'.sent = s.sent ++ [(m i).toUInt32] := by
  cases tx with
  | none => exact ⟨s, rfl, rfl, rfl, fun m hm => by cases hm⟩
  | some m =>
    have hwait : ¬ mcspiWaitForRegBit (a.waits s.waits) chstatTxs < 0 := by
      rw [h rfl]
      decide
    refine ⟨mcspiWriteReg .tx0 (m i).toUInt32 { s with waits := s.waits + 1 }, ?_, rfl, rfl, ?_⟩
    · simp only [writeWord, if_neg hwait]
    · rintro m' ⟨⟩
      simp [State.sent, mcspiWriteReg]

theorem readWord_inTime {rx : Option Mem}
    (h : rx.isSome → mcspiWaitForRegBit (a.waits s.waits) chstatRxs = 0) :
    ∃ s', readWord a s rx = (true, s') ∧ s'.waits = s.waits + waitsOf rx ∧ s'.sent = s.sent ∧
      ∀ m, rx = some m → s'.received = s.received ++ [(a.data s.received.length).toUInt8] := by
  cases rx with
  | none => exact ⟨s, rfl, rfl, rfl, fun m hm => by cases hm⟩
  | some m =>
    have hwait : ¬ mcspiWaitForRegBit (a.waits s.waits) chstatRxs < 0 := by
      rw [h rfl]
      decide
    exact ⟨_, if_neg hwait, rfl, rfl, fun _ _ => rfl⟩

/-! ## The loop -/

/-- The first `i` words are exchanged, and nothing more was done. -/
structure Done (a : Answers) (xfer : Xfer) (i : Nat) (s : State) : Prop where
  waits : s.waits = i * (waitsOf xfer.txBuf + waitsOf xfer.rxBuf)
  sent : ∀ tx, xfer.txBuf = some tx → s.sent = (List.range i).map fun j => (tx j).toUInt32
  received : ∀ rx, xfer.rxBuf = some rx →
    s.received = (List.range i).map fun j => (a.data j).toUInt8

theorem getElem?_map_range {β : Type} (f : Nat → β) {n j : Nat} (rest : List β) (h : j < n) :
    ((List.range n).map f ++ rest)[j]? = some (f j) := by
  rw [List.getElem?_append_left (by simpa using h)]
  simp [h]

theorem not_getElem?_map_range {β : Type} (f : Nat → β) (n : Nat) (x : β) :
    ((List.range n).map f)[n]? ≠ some x := by
  simp

theorem Done.exchanged (h : Done a xfer i s) {j : Nat} (hj : j < i) : Exchanged a xfer s j := by
  constructor
  · intro tx htx
    rw [h.sent tx htx, ← List.append_nil (List.map _ _)]
    exact getElem?_map_range _ [] hj
  · intro rx hrx
    rw [h.received rx hrx, ← List.append_nil (List.map _ _)]
    exact getElem?_map_range _ [] hj

theorem Done.leading (h : Done a xfer i s) (hbuf : xfer.txBuf.isSome ∨ xfer.rxBuf.isSome) :
    Leading a xfer s i := by
  refine ⟨fun j hj => h.exchanged hj, fun hex => ?_⟩
  rcases hbuf with hbuf | hbuf
  · obtain ⟨tx, htx⟩ := Option.isSome_iff_exists.1 hbuf
    have hsent := hex.1 tx htx
    rw [h.sent tx htx] at hsent
    exact not_getElem?_map_range _ _ _ hsent
  · obtain ⟨rx, hrx⟩ := Option.isSome_iff_exists.1 hbuf
    have hreceived := hex.2 rx hrx
    rw [h.received rx hrx] at hreceived
    exact not_getElem?_map_range _ _ _ hreceived

theorem pioWord_inTime (h : Done a xfer i s) (htime : InTime a xfer i) :
    ∃ s', pioWord a xfer i s = (true, s') ∧ Done a xfer (i + 1) s' := by
  obtain ⟨htx, hrx⟩ := htime
  rw [← h.waits] at htx hrx
  obtain ⟨s₁, hwrite, hwaits₁, hreceived₁, hsent₁⟩ := writeWord_inTime (i := i) htx
  rw [← hwaits₁] at hrx
  obtain ⟨s₂, hread, hwaits₂, hsent₂, hreceived₂⟩ := readWord_inTime hrx
  refine ⟨s₂, by simp only [pioWord, hwrite, hread], ?_, fun tx hbuf => ?_, fun rx hbuf => ?_⟩
  · rw [hwaits₂, hwaits₁, h.waits, Nat.succ_mul, Nat.add_assoc]
  · rw [hsent₂, hsent₁ tx hbuf, h.sent tx hbuf, List.range_succ, List.map_append]
    rfl
  · have hold := h.received rx hbuf
    rw [hreceived₂ rx hbuf, hreceived₁, hold, List.length_map, List.length_range,
      List.range_succ, List.map_append]
    rfl

/-- A word that is not exchanged in time stays incomplete. -/
theorem pioWord_late (h : Done a xfer i s) (hlate : ¬ InTime a xfer i) :
    ∃ s', pioWord a xfer i s = (false, s') ∧ Leading a xfer s' i := by
  by_cases htx : xfer.txBuf.isSome → mcspiWaitForRegBit (a.waits s.waits) chstatTxs = 0
  · -- the word was written, but none could be read
    obtain ⟨s₁, hwrite, hwaits₁, hreceived₁, hsent₁⟩ := writeWord_inTime (i := i) htx
    have hrx : ¬ (xfer.rxBuf.isSome → mcspiWaitForRegBit (a.waits s₁.waits) chstatRxs = 0) := by
      rw [hwaits₁, h.waits]
      rw [h.waits] at htx
      exact fun hrx => hlate ⟨htx, hrx⟩
    rw [Classical.not_imp] at hrx
    obtain ⟨rx, hbuf⟩ := Option.isSome_iff_exists.1 hrx.1
    have hread : readWord a s₁ xfer.rxBuf = (false, { s₁ with waits := s₁.waits + 1 }) := by
      rw [hbuf]
      exact if_pos ((wait_neg_iff _ _).2 hrx.2)
    have hold : s₁.received = (List.range i).map fun j => (a.data j).toUInt8 :=
      hreceived₁.trans (h.received rx hbuf)
    refine ⟨{ s₁ with waits := s₁.waits + 1 }, by simp only [pioWord, hwrite, hread],
      fun j hj => ⟨fun tx htx' => ?_, fun _ _ => ?_⟩, fun hex => ?_⟩
    · show s₁.sent[j]? = _
      rw [hsent₁ tx htx', h.sent tx htx']
      exact getElem?_map_range _ _ hj
    · show s₁.received[j]? = _
      rw [hold, ← List.append_nil (List.map _ _)]
      exact getElem?_map_range _ [] hj
    · have hreceived : s₁.received[i]? = _ := hex.2 rx hbuf
      rw [hold] at hreceived
      exact not_getElem?_map_range _ _ _ hreceived
  · rw [Classical.not_imp] at htx
    obtain ⟨tx, hbuf⟩ := Option.isSome_iff_exists.1 htx.1
    have hwrite : writeWord a i s xfer.txBuf = (false, { s with waits := s.waits + 1 }) := by
      rw [hbuf]
      exact if_pos ((wait_neg_iff _ _).2 htx.2)
    exact ⟨{ s with waits := s.waits + 1 }, by simp only [pioWord, hwrite],
      h.leading (.inl htx.1)⟩

/-- How the loop ends: with all words, or with one that is counted but was not exchanged. -/
theorem pioLoop_leading (hbuf : xfer.txBuf.isSome ∨ xfer.rxBuf.isSome) {c n : Nat} (hn : i + c = n)
    (h : Done a xfer i s) (htime : ∀ j < i, InTime a xfer j) :
    ∃ m ≤ n, (m = n ↔ ∀ j < n, InTime a xfer j) ∧ Leading a xfer (pioLoop a xfer c i s).2 m ∧
      (pioLoop a xfer c i s).1 = .ofNat (n - (m + 1)) := by
  induction c generalizing i s with
  | zero =>
    obtain rfl : i = n := hn
    refine ⟨i, Nat.le_refl i, iff_of_true rfl htime, h.leading hbuf, ?_⟩
    rw [pioLoop, Nat.sub_eq_zero_of_le (Nat.le_succ i)]
    rfl
  | succ c ih =>
    by_cases hnext : InTime a xfer i
    · obtain ⟨s', hword, hdone⟩ := pioWord_inTime h hnext
      have hmore : ∀ j < i + 1, InTime a xfer j := by
        intro j hj
        rcases Nat.lt_succ_iff_lt_or_eq.1 hj with hlt | rfl
        · exact htime j hlt
        · exact hnext
      simp only [pioLoop, hword]
      exact ih (by omega) hdone hmore
    · obtain ⟨s', hword, hleading⟩ := pioWord_late h hnext
      simp only [pioLoop, hword]
      refine ⟨i, by omega, iff_of_false (by omega) (fun hall => hnext (hall i (by omega))),
        hleading, ?_⟩
      congr 1
      omega

/-! ## The reports -/

theorem Leading.unique {m n : Nat} (hm : Leading a xfer s m) (hn : Leading a xfer s n) : m = n := by
  apply Nat.le_antisymm
  · by_contra hlt
    exact hn.2 (hm.1 n (by omega))
  · by_contra hlt
    exact hm.2 (hn.1 m (by omega))

/-- All of `n` words are exchanged exactly when no fewer are the leading ones. -/
theorem Leading.all_iff {m n : Nat} (h : Leading a xfer s m) (hle : m ≤ n) :
    (∀ i < n, Exchanged a xfer s i) ↔ m = n := by
  constructor
  · intro hall
    by_contra hne
    exact h.2 (hall m (by omega))
  · rintro rfl
    exact h.1

theorem Leading.setEnable {n : Nat} (h : Leading a xfer s n) (enable : Bool) :
    Leading a xfer (omap2McspiSetEnable enable s) n := by
  have hsent : (omap2McspiSetEnable enable s).sent = s.sent := by
    simp [State.sent, omap2McspiSetEnable, mcspiWriteReg]
  have hiff (j : Nat) :
      Exchanged a xfer (omap2McspiSetEnable enable s) j ↔ Exchanged a xfer s j := by
    rw [Exchanged, hsent]
    rfl
  exact ⟨fun i hi => (hiff i).2 (h.1 i hi), fun hex => h.2 ((hiff n).1 hex)⟩

theorem len_ne_zero (hlen : 1 ≤ xfer.len.toNat) : xfer.len ≠ 0 := by
  intro heq
  rw [heq] at hlen
  exact absurd hlen (by decide)

/-- The transfer is refused, since it is shorter than a word. -/
def TooShort (wordLen : Int32) (xfer : Xfer) : Prop := xfer.len < (wordLen >>> 3).toUInt32

/-- What `omap2_mcspi_txrx_pio` returns when the first `m` words are exchanged: one more, if there
is one more. -/
theorem txrxPio_leading {wordLen : Int32} (hlong : ¬ TooShort wordLen xfer)
    (hlen : 1 ≤ xfer.len.toNat) (hbuf : xfer.txBuf.isSome ∨ xfer.rxBuf.isSome)
    (h : Done a xfer 0 s) :
    ∃ m ≤ xfer.len.toNat, (m = xfer.len.toNat ↔ ∀ j < xfer.len.toNat, InTime a xfer j) ∧
      Leading a xfer (omap2McspiTxrxPio wordLen a xfer s).2 m ∧
      (omap2McspiTxrxPio wordLen a xfer s).1.toNat = min xfer.len.toNat (m + 1) := by
  have hzero := len_ne_zero hlen
  obtain ⟨m, hle, hiff, hleading, hc⟩ := pioLoop_leading hbuf (Nat.zero_add xfer.len.toNat) h
    fun j hj => absurd hj (Nat.not_lt_zero j)
  have hpio : omap2McspiTxrxPio wordLen a xfer s =
      (xfer.len - (pioLoop a xfer xfer.len.toNat 0 s).1,
        omap2McspiSetEnable true (pioLoop a xfer xfer.len.toNat 0 s).2) := by
    simp only [omap2McspiTxrxPio, if_neg hzero]
    exact if_neg hlong
  rw [hpio]
  refine ⟨m, hle, hiff, hleading.setEnable true, ?_⟩
  have hlt := xfer.len.toNat_lt
  simp only [hc]
  rw [UInt32.toNat_sub_of_le]
  · rw [UInt32.toNat_ofNat']
    omega
  · rw [UInt32.le_iff_toNat_le, UInt32.toNat_ofNat']
    omega

theorem Done.start (a : Answers) (xfer : Xfer) : Done a xfer 0 .start :=
  ⟨(Nat.zero_mul _).symm, fun _ _ => rfl, fun _ _ => rfl⟩

/-- The dummy word is no word of the transfer. -/
theorem Done.messageStart (a : Answers) (xfer : Xfer) : Done a xfer 0 (messageStart xfer) := by
  unfold Spi.messageStart
  split
  · next hnone =>
    refine ⟨(Nat.zero_mul _).symm, fun tx htx => ?_, fun _ _ => rfl⟩
    rw [htx] at hnone
    cases hnone
  · exact ⟨(Nat.zero_mul _).symm, fun _ _ => rfl, fun _ _ => rfl⟩

theorem transferOneMessage_eq (wordLen : Int32) (a : Answers) (hlen : 1 ≤ xfer.len.toNat) :
    ((omap2McspiTransferOneMessage wordLen a (some xfer)).1 = 0 ↔
        (omap2McspiTxrxPio wordLen a xfer (messageStart xfer)).1.toNat = xfer.len.toNat) ∧
      (omap2McspiTransferOneMessage wordLen a (some xfer)).2 =
        (omap2McspiTxrxPio wordLen a xfer (messageStart xfer)).2 := by
  have hne := len_ne_zero hlen
  have hmsg : omap2McspiTransferOneMessage wordLen a (some xfer) =
      if (omap2McspiTxrxPio wordLen a xfer (messageStart xfer)).1 ≠ xfer.len then
        (- EIO, (omap2McspiTxrxPio wordLen a xfer (messageStart xfer)).2)
      else (0, (omap2McspiTxrxPio wordLen a xfer (messageStart xfer)).2) := if_pos hne
  rw [hmsg, UInt32.toNat_inj]
  split
  · next h => exact ⟨iff_of_false (show ¬ - EIO = 0 by decide) h, rfl⟩
  · next h => exact ⟨iff_of_true rfl (not_not.1 h), rfl⟩

theorem pioReports_iff {wordLen : Int32} (hlen : 1 ≤ xfer.len.toNat)
    (hbuf : xfer.txBuf.isSome ∨ xfer.rxBuf.isSome) :
    PioReports wordLen a xfer ↔
      TooShort wordLen xfer ∨ ∀ i < xfer.len.toNat, InTime a xfer i := by
  by_cases hshort : TooShort wordLen xfer
  · have hpio : omap2McspiTxrxPio wordLen a xfer .start = (0, .start) := if_pos hshort
    refine iff_of_true ?_ (.inl hshort)
    rw [PioReports, hpio]
    exact (Done.start a xfer).leading hbuf
  · obtain ⟨m, hle, hiff, hleading, hcount⟩ :=
      txrxPio_leading hshort hlen hbuf (Done.start a xfer)
    rw [or_iff_right hshort, ← hiff]
    constructor
    · intro hreports
      have heq := hleading.unique hreports
      omega
    · intro hall
      rw [PioReports, hcount, hall, Nat.min_eq_left (Nat.le_succ _)]
      exact hall ▸ hleading

/-- A timeout is told apart from a success except at the last word. -/
theorem messageReports_of_inTime {wordLen : Int32} (hlen : 1 ≤ xfer.len.toNat)
    (hbuf : xfer.txBuf.isSome ∨ xfer.rxBuf.isSome)
    (h : TooShort wordLen xfer ∨ ∀ i < xfer.len.toNat, InTime a xfer i) :
    MessageReports wordLen a xfer := by
  obtain ⟨hzero, hstate⟩ := transferOneMessage_eq wordLen a hlen
  rw [MessageReports, hzero, hstate]
  by_cases hshort : TooShort wordLen xfer
  · have hpio : omap2McspiTxrxPio wordLen a xfer (Spi.messageStart xfer) =
        (0, Spi.messageStart xfer) := if_pos hshort
    rw [hpio, ((Done.messageStart a xfer).leading hbuf).all_iff (Nat.zero_le _)]
    rfl
  · obtain ⟨m, hle, hiff, hleading, hcount⟩ :=
      txrxPio_leading hshort hlen hbuf (Done.messageStart a xfer)
    rw [hcount, hleading.all_iff hle]
    have hall := hiff.2 (h.resolve_left hshort)
    omega

end

/-- **Reports.** For every transfer and every pattern of waits: both functions report what was
exchanged exactly when no wait times out, or none is made. -/
theorem mcspi_reports_iff (wordLen : Int32) (a : Answers) (xfer : Xfer)
    (hlen : 1 ≤ xfer.len.toNat) (hbuf : xfer.txBuf.isSome ∨ xfer.rxBuf.isSome) :
    PioReports wordLen a xfer ∧ MessageReports wordLen a xfer ↔
      TooShort wordLen xfer ∨ ∀ i < xfer.len.toNat, InTime a xfer i := by
  constructor
  · exact fun h => (pioReports_iff hlen hbuf).1 h.1
  · exact fun h => ⟨(pioReports_iff hlen hbuf).2 h, messageReports_of_inTime hlen hbuf h⟩

/-- Two words are exchanged in time. -/
theorem mcspi_reports_iff_two :
    let xfer : Xfer := ⟨2, some fun _ => 7, some fun _ => 0⟩
    let a : Answers := ⟨fun _ => [chstatTxs ||| chstatRxs], fun _ => 0⟩
    1 ≤ xfer.len.toNat ∧ PioReports 0 a xfer ∧ MessageReports 0 a xfer := by
  intro xfer a
  have hlen : 1 ≤ xfer.len.toNat := by decide
  have htx : mcspiWaitForRegBit [chstatTxs ||| chstatRxs] chstatTxs = 0 := by decide
  have hrx : mcspiWaitForRegBit [chstatTxs ||| chstatRxs] chstatRxs = 0 := by decide
  have htime : ∀ i < xfer.len.toNat, InTime a xfer i := fun i _ => ⟨fun _ => htx, fun _ => hrx⟩
  exact ⟨hlen, (mcspi_reports_iff 0 a xfer hlen (.inl rfl)).2 (.inr htime)⟩

/-- One word is to be written, and the wait for it times out: nothing is written, but one word is
counted and the message is reported as transferred. -/
theorem not_mcspi_reports_last :
    let xfer : Xfer := ⟨1, some fun _ => 7, none⟩
    let a : Answers := ⟨fun _ => [0], fun _ => 0⟩
    ((omap2McspiTxrxPio 0 a xfer .start).1 = 1 ∧ ¬ PioReports 0 a xfer) ∧
      ((omap2McspiTransferOneMessage 0 a (some xfer)).1 = 0 ∧ ¬ MessageReports 0 a xfer) := by
  intro xfer a
  have hpio : (omap2McspiTxrxPio 0 a xfer .start).1 = 1 := by decide
  have hmsg : (omap2McspiTransferOneMessage 0 a (some xfer)).1 = 0 := by decide
  refine ⟨⟨hpio, fun h => ?_⟩, hmsg, fun h => ?_⟩
  · rw [PioReports, hpio] at h
    exact absurd ((h.1 0 (by decide)).1 (fun _ => 7) rfl) (by decide)
  · exact absurd ((h.1 hmsg 0 (by decide)).1 (fun _ => 7) rfl) (by decide)

end LinuxDrivers.Spi
