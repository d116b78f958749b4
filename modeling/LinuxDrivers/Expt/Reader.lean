import LinuxDrivers.Expt.Descriptors

/-!
# A single reader

One open file reads the packets. The NIC fills the receive buffer while it owns the descriptor, the
interrupt announces the packet, the reads hand it out piece by piece and the one behind its last
byte gives the buffer back. Everything else may happen in between: writes, interrupts, and further
packets, for which the NIC finds no descriptor.
-/

namespace LinuxDrivers.Expt

open DdkMem (EFAULT)

/-! ## The system -/

/-- The driver and the offset of the only open file. -/
structure Reader where
  dpv : DevPriv
  off : Nat

/-- What happens next; reads ask for something, and packets fit into the buffer. -/
inductive Move where
  | read (len : Nat) (pos : 0 < len) (faults : Bool)
  | write (buf : List UInt8) (faults : Bool)
  | transmit
  | receive (packet : List UInt8) (pos : 1 ≤ packet.length) (le : packet.length ≤ RX_PKT_SIZE)
  | irq

/-- One move, with what a read returns. -/
def readerStep (s : Reader) : Move → Option (Except Int (List UInt8)) × Reader
  | .read len _ faults =>
    match exptRead len s.off faults s.dpv with
    | (res, off, dpv) => (some res, ⟨dpv, off⟩)
  | .write buf faults => (none, { s with dpv := (exptWrite buf faults s.dpv).2 })
  | .transmit => (none, { s with dpv := nicTransmit s.dpv })
  | .receive packet _ _ => (none, { s with dpv := nicReceive packet s.dpv })
  | .irq => (none, { s with dpv := exptPciIntrHandler s.dpv })

/-- The file is opened on a driver that was just set up. -/
def Reader.start (pktTx pktRx : Mem) : Reader := ⟨setupBuffers pktTx pktRx, 0⟩

/-- The bytes that a call returns; one that fails returns none. -/
def bytesOf : Option (Except Int (List UInt8)) → List UInt8
  | some (.ok bytes) => bytes
  | _ => []

/-- All bytes that these calls return. -/
def returned (results : List (Option (Except Int (List UInt8)))) : List UInt8 :=
  results.flatMap bytesOf

/-- The NIC owns the receive descriptor. -/
def NicOwns (dpv : DevPriv) : Prop := dpv.descRx &&& DescOwn ≠ 0

/-- The state after these moves. -/
def Reader.after (s : Reader) (moves : List Move) : Reader := (runWith readerStep s moves).2

/-- What the calls among these moves return. -/
def Reader.results (s : Reader) (moves : List Move) : List (Option (Except Int (List UInt8))) :=
  (runWith readerStep s moves).1

/-- No call among these moves returns 0. -/
def Reader.NoEnd (s : Reader) (moves : List Move) : Prop := ∀ r ∈ s.results moves, r ≠ some (.ok [])

/-! ## Phases of a packet -/

/-- No packet: the buffer belongs to the NIC. -/
structure Idle (s : Reader) : Prop where
  owned : NicOwns s.dpv
  avail : s.dpv.pktRxAvail = 0
  off : s.off = 0
  quiet : s.dpv.intrStatus &&& INTR_RX_OK_BIT = 0

/-- The NIC has stored a packet, and the interrupt has not been handled. -/
structure Arrived (packet : List UInt8) (s : Reader) : Prop where
  notOwned : ¬ NicOwns s.dpv
  avail : s.dpv.pktRxAvail = 0
  off : s.off = 0
  raised : s.dpv.intrStatus &&& INTR_RX_OK_BIT ≠ 0
  field : rxField s.dpv = packet.length
  stored : s.dpv.pktRx.load 0 packet.length = packet

/-- The packet is announced, and the bytes before the offset were returned. -/
structure Reading (packet : List UInt8) (s : Reader) : Prop where
  notOwned : ¬ NicOwns s.dpv
  avail : s.dpv.pktRxAvail = 1
  off : s.off ≤ packet.length
  quiet : s.dpv.intrStatus &&& INTR_RX_OK_BIT = 0
  size : s.dpv.rxPktSize = packet.length
  stored : s.dpv.pktRx.load 0 packet.length = packet

/-- Two drivers that a reader cannot tell apart. -/
structure SameRx (dpv dpv' : DevPriv) : Prop where
  desc : dpv'.descRx = dpv.descRx
  avail : dpv'.pktRxAvail = dpv.pktRxAvail
  size : dpv'.rxPktSize = dpv.rxPktSize
  buffer : dpv'.pktRx = dpv.pktRx
  status : dpv'.intrStatus &&& INTR_RX_OK_BIT = dpv.intrStatus &&& INTR_RX_OK_BIT

section

variable {dpv dpv' : DevPriv} {off : Nat} {packet : List UInt8} {s : Reader}

theorem SameRx.owns (h : SameRx dpv dpv') : NicOwns dpv' ↔ NicOwns dpv := by
  rw [NicOwns, h.desc, NicOwns]

theorem SameRx.idle (h : SameRx dpv dpv') (hs : Idle ⟨dpv, off⟩) : Idle ⟨dpv', off⟩ :=
  ⟨h.owns.2 hs.owned, h.avail.trans hs.avail, hs.off, h.status.trans hs.quiet⟩

theorem SameRx.arrived (h : SameRx dpv dpv') (hs : Arrived packet ⟨dpv, off⟩) :
    Arrived packet ⟨dpv', off⟩ where
  notOwned := mt h.owns.1 hs.notOwned
  avail := h.avail.trans hs.avail
  off := hs.off
  raised := fun hq => hs.raised (h.status.symm.trans hq)
  field := (congrArg (fun desc => (desc &&& lenMask).toNat) h.desc).trans hs.field
  stored := (congrArg (fun m => Mem.load m 0 packet.length) h.buffer).trans hs.stored

theorem SameRx.reading (h : SameRx dpv dpv') (hs : Reading packet ⟨dpv, off⟩) :
    Reading packet ⟨dpv', off⟩ where
  notOwned := mt h.owns.1 hs.notOwned
  avail := h.avail.trans hs.avail
  off := hs.off
  quiet := h.status.trans hs.quiet
  size := h.size.trans hs.size
  stored := (congrArg (fun m => Mem.load m 0 packet.length) h.buffer).trans hs.stored

/-! ## What does not concern the reader -/

theorem exptWrite_sameRx (buf : List UInt8) (faults : Bool) (dpv : DevPriv) :
    SameRx dpv (exptWrite buf faults dpv).2 := by
  unfold exptWrite
  simp only
  split
  · exact ⟨rfl, rfl, rfl, rfl, rfl⟩
  · split
    · exact ⟨rfl, rfl, rfl, rfl, rfl⟩
    · exact ⟨rfl, rfl, rfl, rfl, rfl⟩

theorem nicTransmit_sameRx (dpv : DevPriv) : SameRx dpv (nicTransmit dpv) := by
  unfold nicTransmit
  split
  · exact ⟨rfl, rfl, rfl, rfl, Bits.set_and_of_disjoint (by decide)⟩
  · exact ⟨rfl, rfl, rfl, rfl, rfl⟩

/-- Without a descriptor a packet is not stored. -/
theorem nicReceive_sameRx (packet : List UInt8) (h : ¬ NicOwns dpv) :
    SameRx dpv (nicReceive packet dpv) := by
  have heq : nicReceive packet dpv =
      { dpv with intrStatus := dpv.intrStatus ||| INTR_RX_DESC_UNAVAIL } := if_neg h
  rw [heq]
  exact ⟨rfl, rfl, rfl, rfl, Bits.set_and_of_disjoint (by decide)⟩

/-! ## The interrupt -/

/-- What the interrupt does on the receive side: a packet that was stored is announced. -/
theorem exptPciIntrHandler_rx (dpv : DevPriv) :
    (exptPciIntrHandler dpv).pktRx = dpv.pktRx ∧
      (exptPciIntrHandler dpv).pktRxAvail =
        (if dpv.intrStatus &&& INTR_RX_OK_BIT ≠ 0 then dpv.pktRxAvail + 1 else dpv.pktRxAvail) ∧
      (exptPciIntrHandler dpv).rxPktSize =
        (if dpv.intrStatus &&& INTR_RX_OK_BIT ≠ 0 then rxField dpv else dpv.rxPktSize) := by
  unfold exptPciIntrHandler
  by_cases hours : dpv.intrStatus &&& (INTR_MASK ||| INTR_ERR_MASK) = 0
  · have hrx : dpv.intrStatus &&& INTR_RX_OK_BIT = 0 :=
      Bits.and_eq_zero_of_subset hours (by decide)
    rw [if_pos hours, if_neg (not_not.2 hrx), if_neg (not_not.2 hrx)]
    exact ⟨rfl, rfl, rfl⟩
  · rw [if_neg hours]
    simp only [apply_ite DevPriv.pktRx, apply_ite DevPriv.pktRxAvail, apply_ite DevPriv.rxPktSize,
      apply_ite DevPriv.descRx, clearIntr, hwDisableIntr, ite_self, rxField, and_self]

/-- After the interrupt no packet waits to be announced. -/
theorem exptPciIntrHandler_quiet (dpv : DevPriv) :
    (exptPciIntrHandler dpv).intrStatus &&& INTR_RX_OK_BIT = 0 := by
  have hclear : ∀ (mask : BitVec 16) (d : DevPriv), mask &&& INTR_RX_OK_BIT = 0 →
      (clearIntr mask d).intrStatus &&& INTR_RX_OK_BIT = d.intrStatus &&& INTR_RX_OK_BIT :=
    fun mask d h => Bits.clear_and_of_disjoint h
  unfold exptPciIntrHandler
  by_cases hours : dpv.intrStatus &&& (INTR_MASK ||| INTR_ERR_MASK) = 0
  · rw [if_pos hours]
    exact Bits.and_eq_zero_of_subset hours (by decide)
  · rw [if_neg hours]
    simp only [apply_ite DevPriv.intrStatus, apply_ite (· &&& INTR_RX_OK_BIT),
      hclear INTR_LINK_CHG_BIT _ (by decide), hclear INTR_TX_OK_BIT _ (by decide),
      hclear INTR_ERR_MASK _ (by decide), hwDisableIntr, ite_self]
    split
    · exact Bits.clear_and_self _ _
    · next h => exact not_not.1 h

/-- An interrupt for something else. -/
theorem exptPciIntrHandler_sameRx (h : dpv.intrStatus &&& INTR_RX_OK_BIT = 0) :
    SameRx dpv (exptPciIntrHandler dpv) := by
  obtain ⟨hbuffer, havail, hsize⟩ := exptPciIntrHandler_rx dpv
  rw [if_neg (not_not.2 h)] at havail hsize
  exact ⟨(exptPciIntrHandler_desc dpv).2, havail, hsize, hbuffer,
    (exptPciIntrHandler_quiet dpv).trans h.symm⟩

theorem Arrived.irq (h : Arrived packet s) : Reading packet (readerStep s .irq).2 := by
  obtain ⟨hbuffer, havail, hsize⟩ := exptPciIntrHandler_rx s.dpv
  rw [if_pos h.raised] at havail hsize
  have hdesc := (exptPciIntrHandler_desc s.dpv).2
  refine ⟨?_, ?_, ?_, exptPciIntrHandler_quiet s.dpv, hsize.trans h.field, ?_⟩
  · show ¬ (exptPciIntrHandler s.dpv).descRx &&& DescOwn ≠ 0
    rw [hdesc]
    exact h.notOwned
  · show (exptPciIntrHandler s.dpv).pktRxAvail = 1
    rw [havail, h.avail]
    rfl
  · show s.off ≤ packet.length
    rw [h.off]
    exact Nat.zero_le _
  · show (exptPciIntrHandler s.dpv).pktRx.load 0 packet.length = packet
    rw [hbuffer]
    exact h.stored

/-! ## Receiving -/

theorem Idle.receive (h : Idle s) {pos : 1 ≤ packet.length} {le : packet.length ≤ RX_PKT_SIZE} :
    Arrived packet (readerStep s (.receive packet pos le)).2 := by
  have heq : nicReceive packet s.dpv =
      { s.dpv with
        descRx := s.dpv.descRx &&& ~~~(DescOwn ||| lenMask) ||| .ofNat 32 packet.length
        pktRx := s.dpv.pktRx.store 0 packet.length (.ofList packet)
        intrStatus := s.dpv.intrStatus ||| INTR_RX_OK_BIT } := if_pos h.owned
  have hlow : BitVec.ofNat 32 packet.length &&& lenMask = .ofNat 32 packet.length :=
    Bits.ofNat_and_low (Nat.lt_of_le_of_lt le (by decide))
  have hfree : (s.dpv.descRx &&& ~~~(DescOwn ||| lenMask) ||| .ofNat 32 packet.length) &&& DescOwn =
      0 := by
    have hlen : BitVec.ofNat 32 packet.length &&& DescOwn = 0#32 := by
      rw [← hlow, BitVec.and_assoc]
      exact BitVec.and_zero
    rw [Bits.set_and_of_disjoint hlen]
    exact Bits.and_eq_zero_of_subset (Bits.clear_and_self _ _) (by decide)
  have hfield : rxField (nicReceive packet s.dpv) = packet.length := by
    rcases rxField_receive le s.dpv with hfield | hdesc
    · exact hfield
    · exact absurd (hdesc ▸ heq ▸ hfree) h.owned
  refine ⟨?_, ?_, h.off, ?_, hfield, ?_⟩
  · simp only [readerStep, NicOwns, heq, hfree, ne_eq, not_true_eq_false, not_false_eq_true]
  · simp only [readerStep, heq]
    exact h.avail
  · simp only [readerStep, heq]
    rw [Bits.set_and_self]
    decide
  · simp only [readerStep, heq]
    exact Mem.load_store_ofList _ _ _

/-! ## Reading -/

theorem take_of_stored {m : Mem} {k : Nat} (h : m.load 0 packet.length = packet)
    (hk : k ≤ packet.length) : packet.take k = m.load 0 k := by
  obtain ⟨rest, hrest⟩ := Nat.exists_eq_add_of_le hk
  rw [hrest, Mem.load_add] at h
  rw [← h]
  exact List.take_left' (Mem.length_load m 0 k)

theorem giveBack_idle (h : Reading packet s) : Idle ⟨giveBack s.dpv, 0⟩ where
  owned := by
    show (s.dpv.descRx ||| DescOwn ||| .ofNat 32 RX_PKT_SIZE) &&& DescOwn ≠ 0
    rw [Bits.and_eq_of_set (Bits.set_and_self s.dpv.descRx DescOwn)]
    decide
  avail := rfl
  off := rfl
  quiet := h.quiet

/-- A read behind the last byte returns 0 and gives the buffer back. -/
theorem Reading.read_end (h : Reading packet s) (hoff : s.off = packet.length) {len : Nat}
    {pos : 0 < len} {faults : Bool} :
    readerStep s (.read len pos faults) = (some (.ok []), ⟨giveBack s.dpv, 0⟩) := by
  have havail : s.dpv.pktRxAvail ≠ 0 := by
    rw [h.avail]
    decide
  have hend : s.off ≥ s.dpv.rxPktSize := Nat.le_of_eq (h.size.trans hoff.symm)
  simp only [readerStep, exptRead, if_neg havail, if_pos hend]

/-- A read before it fails, or returns the bytes from the offset on and is not empty. -/
theorem Reading.read_more (h : Reading packet s) (hoff : s.off < packet.length) {len : Nat}
    {pos : 0 < len} {faults : Bool} :
    (readerStep s (.read len pos faults)).1 ≠ some (.ok []) ∧
      Reading packet (readerStep s (.read len pos faults)).2 ∧
      packet.take s.off ++ bytesOf (readerStep s (.read len pos faults)).1 =
        packet.take (readerStep s (.read len pos faults)).2.off := by
  have havail : s.dpv.pktRxAvail ≠ 0 := by
    rw [h.avail]
    decide
  have hmore : ¬ s.off ≥ packet.length := by omega
  cases faults with
  | true =>
    have hstep : readerStep s (.read len pos true) = (some (.error (-EFAULT)), s) := by
      simp only [readerStep, exptRead, if_neg havail, h.size, if_neg hmore, ↓reduceIte]
    rw [hstep]
    exact ⟨fun heq => (by cases heq), h, List.append_nil _⟩
  | false =>
    obtain ⟨n, hn⟩ : ∃ n, n = min len (packet.length - s.off) := ⟨_, rfl⟩
    have hstep : readerStep s (.read len pos false) =
        (some (.ok (s.dpv.pktRx.load s.off n)), ⟨s.dpv, s.off + n⟩) := by
      simp only [readerStep, exptRead, if_neg havail, h.size, if_neg hmore, ← hn,
        Bool.false_eq_true, ↓reduceIte]
    have hle : s.off + n ≤ packet.length := by omega
    rw [hstep]
    refine ⟨fun heq => ?_, ⟨h.notOwned, h.avail, hle, h.quiet, h.size, h.stored⟩, ?_⟩
    · have hlen := congrArg (fun r => (bytesOf r).length) heq
      simp only [bytesOf, Mem.length_load, List.length_nil] at hlen
      omega
    · rw [bytesOf, take_of_stored h.stored h.off, take_of_stored h.stored hle, Mem.load_add,
        Nat.zero_add]

/-! ## Moves -/

/-- Before a packet is there. -/
theorem Idle.step (h : Idle s) (m : Move) :
    Idle (readerStep s m).2 ∨ ∃ packet, Arrived packet (readerStep s m).2 := by
  cases m with
  | read len pos faults =>
    have hstep : readerStep s (.read len pos faults) = (some (.error (-EAGAIN)), s) := by
      simp only [readerStep, exptRead, if_pos h.avail]
    rw [hstep]
    exact .inl h
  | write buf faults => exact .inl ((exptWrite_sameRx buf faults s.dpv).idle h)
  | transmit => exact .inl ((nicTransmit_sameRx s.dpv).idle h)
  | receive packet pos le => exact .inr ⟨packet, h.receive⟩
  | irq => exact .inl ((exptPciIntrHandler_sameRx h.quiet).idle h)

/-- Until the interrupt, reads are told to try again. -/
theorem Arrived.step (h : Arrived packet s) {m : Move} (hm : m ≠ .irq) :
    Arrived packet (readerStep s m).2 := by
  cases m with
  | read len pos faults =>
    have hstep : readerStep s (.read len pos faults) = (some (.error (-EAGAIN)), s) := by
      simp only [readerStep, exptRead, if_pos h.avail]
    rw [hstep]
    exact h
  | write buf faults => exact (exptWrite_sameRx buf faults s.dpv).arrived h
  | transmit => exact (nicTransmit_sameRx s.dpv).arrived h
  | receive packet' pos le => exact (nicReceive_sameRx packet' h.notOwned).arrived h
  | irq => exact absurd rfl hm

/-- Until a call returns 0, the calls return what is behind the offset. -/
theorem Reading.step (h : Reading packet s) {m : Move}
    (hm : (readerStep s m).1 ≠ some (.ok [])) :
    Reading packet (readerStep s m).2 ∧
      packet.take s.off ++ bytesOf (readerStep s m).1 = packet.take (readerStep s m).2.off := by
  cases m with
  | read len pos faults =>
    rcases Nat.lt_or_eq_of_le h.off with hlt | heq
    · exact (h.read_more hlt).2
    · exact absurd (congrArg Prod.fst (h.read_end heq)) hm
  | write buf faults =>
    exact ⟨(exptWrite_sameRx buf faults s.dpv).reading h, List.append_nil _⟩
  | transmit => exact ⟨(nicTransmit_sameRx s.dpv).reading h, List.append_nil _⟩
  | receive packet' pos le =>
    exact ⟨(nicReceive_sameRx packet' h.notOwned).reading h, List.append_nil _⟩
  | irq => exact ⟨(exptPciIntrHandler_sameRx h.quiet).reading h, List.append_nil _⟩

/-- A call that returns 0 comes behind the last byte. -/
theorem Reading.end_iff (h : Reading packet s) {len : Nat} {pos : 0 < len} {faults : Bool} :
    (readerStep s (.read len pos faults)).1 = some (.ok []) ↔ s.off = packet.length := by
  constructor
  · intro heq
    rcases Nat.lt_or_eq_of_le h.off with hlt | hoff
    · exact absurd heq (h.read_more hlt).1
    · exact hoff
  · exact fun hoff => congrArg Prod.fst (h.read_end hoff)

/-! ## Runs -/

theorem Reader.after_append (s : Reader) (moves moves' : List Move) :
    s.after (moves ++ moves') = (s.after moves).after moves' := by
  induction moves generalizing s with
  | nil => rfl
  | cons m moves ih => exact ih (readerStep s m).2

/-- At any time there is no packet, or one that is not announced, or one that is being read. -/
def Phase (s : Reader) : Prop := Idle s ∨ ∃ packet, Arrived packet s ∨ Reading packet s

theorem Phase.step (h : Phase s) (m : Move) : Phase (readerStep s m).2 := by
  rcases h with h | ⟨packet, h | h⟩
  · exact (h.step m).imp_right fun ⟨packet, h⟩ => ⟨packet, .inl h⟩
  · by_cases hm : m = .irq
    · exact .inr ⟨packet, .inr (hm ▸ h.irq)⟩
    · exact .inr ⟨packet, .inl (h.step hm)⟩
  · by_cases hm : (readerStep s m).1 = some (.ok [])
    · cases m with
      | read len pos faults =>
        rw [h.read_end (h.end_iff.1 hm)]
        exact .inl (giveBack_idle h)
      | write _ _ | transmit | receive _ _ _ | irq => cases hm
    · exact .inr ⟨packet, .inr (h.step hm).1⟩

theorem Phase.run (h : Phase s) (moves : List Move) : Phase (s.after moves) := by
  induction moves generalizing s with
  | nil => exact h
  | cons m moves ih => exact ih (h.step m)

/-- While the NIC owns the descriptor there is no packet. -/
theorem Phase.idle (h : Phase s) (howns : NicOwns s.dpv) : Idle s := by
  rcases h with h | ⟨packet, h | h⟩
  · exact h
  · exact absurd howns h.notOwned
  · exact absurd howns h.notOwned

theorem Idle.start (pktTx pktRx : Mem) : Idle (.start pktTx pktRx) where
  owned := show (DescOwn ||| RingEnd ||| .ofNat 32 RX_PKT_SIZE) &&& DescOwn ≠ 0 by decide
  avail := rfl
  off := rfl
  quiet := show 0#16 &&& INTR_RX_OK_BIT = 0 by decide

theorem Arrived.run {moves : List Move} (h : Arrived packet s) (hirq : .irq ∉ moves) :
    Arrived packet (s.after moves) := by
  induction moves generalizing s with
  | nil => exact h
  | cons m moves ih =>
    have hm : m ≠ .irq := fun heq => hirq (heq ▸ List.mem_cons_self)
    exact ih (h.step hm) fun hmem => hirq (List.mem_cons_of_mem m hmem)

/-- The calls return the packet from the offset on, as long as none returns 0. -/
theorem Reading.run {moves : List Move} (h : Reading packet s) (hend : s.NoEnd moves) :
    Reading packet (s.after moves) ∧
      packet.take s.off ++ returned (s.results moves) = packet.take (s.after moves).off := by
  induction moves generalizing s with
  | nil => exact ⟨h, List.append_nil _⟩
  | cons m moves ih =>
    have hhead : (readerStep s m).1 ≠ some (.ok []) := hend _ List.mem_cons_self
    obtain ⟨hreading, htake⟩ := h.step hhead
    obtain ⟨hafter, hrest⟩ := ih hreading fun r hr => hend r (List.mem_cons_of_mem _ hr)
    refine ⟨hafter, ?_⟩
    calc packet.take s.off ++ returned (s.results (m :: moves))
        = packet.take s.off ++ bytesOf (readerStep s m).1 ++
            returned ((readerStep s m).2.results moves) := (List.append_assoc ..).symm
      _ = packet.take ((readerStep s m).2.after moves).off := by rw [htake, hrest]

end

/-- A packet is stored, and announced after the moves `mid`. -/
def Reader.announced (s : Reader) (packet : List UInt8) (pos : 1 ≤ packet.length)
    (le : packet.length ≤ RX_PKT_SIZE) (mid : List Move) : Reader :=
  s.after (.receive packet pos le :: (mid ++ [.irq]))

theorem Idle.announced {s : Reader} (h : Idle s) {packet : List UInt8} {pos : 1 ≤ packet.length}
    {le : packet.length ≤ RX_PKT_SIZE} {mid : List Move} (hmid : .irq ∉ mid) :
    Reading packet (s.announced packet pos le mid) ∧ (s.announced packet pos le mid).off = 0 := by
  have hreceived : Arrived packet (readerStep s (.receive packet pos le)).2 := h.receive
  have harrived := hreceived.run hmid
  have hafter : s.announced packet pos le mid =
      (readerStep ((readerStep s (.receive packet pos le)).2.after mid) .irq).2 :=
    Reader.after_append (readerStep s (.receive packet pos le)).2 mid [.irq]
  rw [hafter]
  exact ⟨harrived.irq, harrived.off⟩

/-- **Whole packets.** A packet is received in any state in which the NIC owns the descriptor, and
is announced later. As long as no call returns 0, the calls return the packet in order and the NIC
does not own the descriptor. A call returns 0 exactly when all of the packet was returned, and then
the NIC owns the descriptor and both counters are 0. -/
theorem reader_wholePacket (pktTx pktRx : Mem) (before mid moves : List Move)
    (packet : List UInt8) (pos : 1 ≤ packet.length) (le : packet.length ≤ RX_PKT_SIZE)
    (howns : NicOwns ((Reader.start pktTx pktRx).after before).dpv) (hmid : .irq ∉ mid) :
    let s := ((Reader.start pktTx pktRx).after before).announced packet pos le mid
    s.NoEnd moves →
      ¬ NicOwns (s.after moves).dpv ∧ returned (s.results moves) <+: packet ∧
        ∀ len pos faults,
          let res := readerStep (s.after moves) (.read len pos faults)
          (res.1 = some (.ok []) ↔ returned (s.results moves) = packet) ∧
            (res.1 = some (.ok []) →
              NicOwns res.2.dpv ∧ res.2.off = 0 ∧ res.2.dpv.pktRxAvail = 0) := by
  intro s hend
  have hidle := Phase.idle (Phase.run (.inl (Idle.start pktTx pktRx)) before) howns
  obtain ⟨hreading, hoff⟩ : Reading packet s ∧ s.off = 0 := hidle.announced hmid
  obtain ⟨hafter, hbytes⟩ := hreading.run hend
  rw [hoff, List.take_zero, List.nil_append] at hbytes
  have hall : (s.after moves).off = packet.length ↔ returned (s.results moves) = packet := by
    rw [hbytes]
    constructor
    · intro hoff'
      rw [hoff', List.take_length]
    · intro htake
      have hlen := congrArg List.length htake
      have hle := hafter.off
      rw [List.length_take] at hlen
      omega
  refine ⟨hafter.notOwned, hbytes ▸ List.take_prefix _ _, fun len pos faults => ?_⟩
  refine ⟨hafter.end_iff.trans hall, fun hres => ?_⟩
  rw [hafter.read_end (hafter.end_iff.1 hres)]
  exact ⟨(giveBack_idle hafter).owned, rfl, rfl⟩

/-- Three bytes, of which two are read, then a read fails, then the rest is read. -/
theorem reader_wholePacket_three :
    let s := ((Reader.start (fun _ => 0) fun _ => 0).after []).announced [1, 2, 3] (by decide)
      (by decide) [.write [9] false]
    let moves : List Move := [.read 2 (by decide) false, .read 2 (by decide) true,
      .read 8 (by decide) false]
    s.NoEnd moves ∧ returned (s.results moves) = [1, 2, 3] ∧
      NicOwns (readerStep (s.after moves) (.read 1 (by decide) false)).2.dpv := by
  intro s moves
  have hend : s.NoEnd moves := by
    unfold Reader.NoEnd
    decide +kernel
  have hbytes : returned (s.results moves) = [1, 2, 3] := by decide +kernel
  obtain ⟨-, -, hread⟩ := reader_wholePacket (fun _ => 0) (fun _ => 0) [] [.write [9] false] moves
    [1, 2, 3] (by decide) (by decide) (Idle.start _ _).owned (by simp) hend
  obtain ⟨hiff, hback⟩ := hread 1 (by decide) false
  exact ⟨hend, hbytes, (hback (hiff.2 hbytes)).1⟩

end LinuxDrivers.Expt
