import LinuxDrivers.DdkMem.File
import LinuxDrivers.Lib.Bits
import LinuxDrivers.Lib.Run

/-!
# The PCI experiment driver

`expt_drv_with_dma.c`: one transmit and one receive descriptor, each with a buffer of 256 bytes, and
two atomic counters. The driver and the NIC take turns on the descriptors through `DescOwn`; both
rewrite `opts1` in place. The NIC is a party of its own: it sends and receives through descriptors
that it owns and raises interrupts by setting bits of the status register.
-/

namespace LinuxDrivers.Expt

open DdkMem (EFAULT)

/-! ## Constants -/

def INTR_TX_DESC_UNAVAIL : BitVec 16 := 0x80

def INTR_LINK_CHG_BIT : BitVec 16 := 0x20

def INTR_RX_DESC_UNAVAIL : BitVec 16 := 0x10

def INTR_TX_ERR : BitVec 16 := 0x08

def INTR_TX_OK_BIT : BitVec 16 := 0x04

def INTR_RX_ERR : BitVec 16 := 0x02

def INTR_RX_OK_BIT : BitVec 16 := 0x01

def INTR_MASK : BitVec 16 := INTR_LINK_CHG_BIT ||| INTR_TX_OK_BIT ||| INTR_RX_OK_BIT

def INTR_ERR_MASK : BitVec 16 :=
  INTR_TX_DESC_UNAVAIL ||| INTR_RX_DESC_UNAVAIL ||| INTR_TX_ERR ||| INTR_RX_ERR

def TX_PKT_SIZE : Nat := 256

def RX_PKT_SIZE : Nat := 256

/-- Descriptor is owned by NIC. -/
def DescOwn : BitVec 32 := 0x80000000

/-- End of descriptor ring. -/
def RingEnd : BitVec 32 := 0x40000000

def FirstFrag : BitVec 32 := 0x20000000

def LastFrag : BitVec 32 := 0x10000000

/-- The length field of `opts1`, `(1 << 14) - 1`. -/
def lenMask : BitVec 32 := BitVec.ofNat 32 (2 ^ 14 - 1)

/-! ## The driver -/

/-- `struct dev_priv`, with the two interrupt registers of the chip. Of the descriptors only `opts1`
changes. -/
structure DevPriv where
  /-- `desc_tx->opts1`. -/
  descTx : BitVec 32
  /-- `desc_rx->opts1`. -/
  descRx : BitVec 32
  pktTx : Mem
  pktRx : Mem
  rxPktSize : Nat
  pktTxBusy : Int
  pktRxAvail : Int
  /-- `INTR_MASK_REG`. -/
  intrMask : BitVec 16
  /-- `INTR_STATUS_REG`. -/
  intrStatus : BitVec 16

/-- `setup_buffers`, when all allocations succeed, and `hw_init`; the buffers are uninitialised. -/
def setupBuffers (pktTx pktRx : Mem) : DevPriv where
  descTx := RingEnd ||| FirstFrag ||| LastFrag
  descRx := DescOwn ||| RingEnd ||| .ofNat 32 RX_PKT_SIZE
  pktTx := pktTx
  pktRx := pktRx
  rxPktSize := 0
  pktTxBusy := 0
  pktRxAvail := 0
  intrMask := INTR_MASK ||| INTR_ERR_MASK
  intrStatus := 0

def hwEnableIntr (mask : BitVec 16) (dpv : DevPriv) : DevPriv :=
  { dpv with intrMask := dpv.intrMask ||| mask }

def hwDisableIntr (mask : BitVec 16) (dpv : DevPriv) : DevPriv :=
  { dpv with intrMask := dpv.intrMask &&& ~~~mask }

/-- Writing ones to `INTR_STATUS_REG` clears the bits. -/
def clearIntr (mask : BitVec 16) (dpv : DevPriv) : DevPriv :=
  { dpv with intrStatus := dpv.intrStatus &&& ~~~mask }

/-- `expt_pci_intr_handler`; the link state is only printed. -/
def exptPciIntrHandler (dpv : DevPriv) : DevPriv :=
  let intrStatus := dpv.intrStatus
  if intrStatus &&& (INTR_MASK ||| INTR_ERR_MASK) = 0 then dpv
  else
    let dpv := if intrStatus &&& INTR_LINK_CHG_BIT ≠ 0 then clearIntr INTR_LINK_CHG_BIT dpv else dpv
    let dpv := if intrStatus &&& INTR_TX_OK_BIT ≠ 0 then
        { clearIntr INTR_TX_OK_BIT dpv with pktTxBusy := dpv.pktTxBusy - 1 }
      else dpv
    let dpv := if intrStatus &&& INTR_RX_OK_BIT ≠ 0 then
        { clearIntr INTR_RX_OK_BIT dpv with
          rxPktSize := (dpv.descRx &&& lenMask).toNat
          pktRxAvail := dpv.pktRxAvail + 1 }
      else dpv
    if intrStatus &&& INTR_ERR_MASK ≠ 0 then
      let dpv := if intrStatus &&& INTR_RX_DESC_UNAVAIL ≠ 0 then
          hwDisableIntr INTR_RX_DESC_UNAVAIL dpv
        else dpv
      clearIntr INTR_ERR_MASK dpv
    else dpv

/-- The receive buffer goes back to the hardware. -/
def giveBack (dpv : DevPriv) : DevPriv :=
  hwEnableIntr INTR_RX_DESC_UNAVAIL
    { dpv with
      pktRxAvail := 0
      descRx := dpv.descRx ||| DescOwn ||| .ofNat 32 RX_PKT_SIZE }

/-- `expt_read` at offset `off`: the bytes copied to the user, or the error returned, and the new
offset. `faults` tells whether its `copy_to_user` fails. -/
def exptRead (len off : Nat) (faults : Bool) (dpv : DevPriv) :
    Except Int (List UInt8) × Nat × DevPriv :=
  if dpv.pktRxAvail = 0 then (.error (-EAGAIN), off, dpv)
  else if off ≥ dpv.rxPktSize then (.ok [], 0, giveBack dpv)
  else
    let toRead := min len (dpv.rxPktSize - off)
    if faults then (.error (-EFAULT), off, dpv)
    else (.ok (dpv.pktRx.load off toRead), off + toRead, dpv)

/-- `expt_write` of the user's bytes `buf`: the value returned. -/
def exptWrite (buf : List UInt8) (faults : Bool) (dpv : DevPriv) : Except Int Nat × DevPriv :=
  let dpv := { dpv with pktTxBusy := dpv.pktTxBusy + 1 }
  if dpv.pktTxBusy ≠ 1 then (.error (-EBUSY), { dpv with pktTxBusy := dpv.pktTxBusy - 1 })
  else
    let toWrite := min buf.length TX_PKT_SIZE
    if faults then (.error (-EFAULT), dpv)
    else
      (.ok buf.length, { dpv with
        pktTx := dpv.pktTx.store 0 toWrite (.ofList buf)
        descTx := dpv.descTx ||| DescOwn ||| .ofNat 32 toWrite })

/-! ## The interrupt -/

/-- The interrupt leaves the descriptors alone. -/
theorem exptPciIntrHandler_desc (dpv : DevPriv) : (exptPciIntrHandler dpv).descTx = dpv.descTx ∧
    (exptPciIntrHandler dpv).descRx = dpv.descRx := by
  simp only [exptPciIntrHandler, apply_ite DevPriv.descTx, apply_ite DevPriv.descRx, clearIntr,
    hwDisableIntr, ite_self, and_self]

/-- It lowers the busy count once if a packet was sent. -/
theorem exptPciIntrHandler_busy (dpv : DevPriv) : (exptPciIntrHandler dpv).pktTxBusy =
    if dpv.intrStatus &&& INTR_TX_OK_BIT ≠ 0 then dpv.pktTxBusy - 1 else dpv.pktTxBusy := by
  unfold exptPciIntrHandler
  by_cases hours : dpv.intrStatus &&& (INTR_MASK ||| INTR_ERR_MASK) = 0
  · have htx : dpv.intrStatus &&& INTR_TX_OK_BIT = 0 :=
      Bits.and_eq_zero_of_subset hours (by decide)
    rw [if_pos hours, if_neg (not_not.2 htx)]
  · rw [if_neg hours]
    simp only [apply_ite DevPriv.pktTxBusy, clearIntr, hwDisableIntr, ite_self]

/-- After the interrupt no packet waits to be reported as sent. -/
theorem exptPciIntrHandler_status (dpv : DevPriv) :
    (exptPciIntrHandler dpv).intrStatus &&& INTR_TX_OK_BIT = 0 := by
  have hclear : ∀ (mask : BitVec 16) (d : DevPriv), mask &&& INTR_TX_OK_BIT = 0 →
      (clearIntr mask d).intrStatus &&& INTR_TX_OK_BIT = d.intrStatus &&& INTR_TX_OK_BIT :=
    fun mask d h => Bits.clear_and_of_disjoint h
  unfold exptPciIntrHandler
  by_cases hours : dpv.intrStatus &&& (INTR_MASK ||| INTR_ERR_MASK) = 0
  · rw [if_pos hours]
    exact Bits.and_eq_zero_of_subset hours (by decide)
  · rw [if_neg hours]
    simp only [apply_ite DevPriv.intrStatus, apply_ite (· &&& INTR_TX_OK_BIT),
      hclear INTR_LINK_CHG_BIT _ (by decide), hclear INTR_RX_OK_BIT _ (by decide),
      hclear INTR_ERR_MASK _ (by decide), hwDisableIntr, ite_self]
    split
    · exact Bits.clear_and_self _ _
    · next h => exact not_not.1 h

/-! ## The NIC -/

/-- The NIC sends the packet of a descriptor that it owns. -/
def nicTransmit (dpv : DevPriv) : DevPriv :=
  if dpv.descTx &&& DescOwn ≠ 0 then
    { dpv with
      descTx := dpv.descTx &&& ~~~DescOwn
      intrStatus := dpv.intrStatus ||| INTR_TX_OK_BIT }
  else dpv

/-- The NIC receives a packet into a descriptor that it owns: the length goes to the low 14 bits. -/
def nicReceive (packet : List UInt8) (dpv : DevPriv) : DevPriv :=
  if dpv.descRx &&& DescOwn ≠ 0 then
    { dpv with
      descRx := dpv.descRx &&& ~~~(DescOwn ||| lenMask) ||| .ofNat 32 packet.length
      pktRx := dpv.pktRx.store 0 packet.length (.ofList packet)
      intrStatus := dpv.intrStatus ||| INTR_RX_OK_BIT }
  else { dpv with intrStatus := dpv.intrStatus ||| INTR_RX_DESC_UNAVAIL }

/-! ## Runs -/

/-- What happens next: a call, a move of the NIC, or its interrupt. -/
inductive Event where
  | write (buf : List UInt8) (faults : Bool)
  | read (len off : Nat) (faults : Bool)
  | transmit
  | receive (packet : List UInt8)
  | irq

/-- The driver, with the descriptors handed to the NIC so far: `opts1` and the length to transmit,
and the size fields of the receive descriptor. -/
structure State where
  dpv : DevPriv
  handed : List (BitVec 32 × Nat)
  offered : List (BitVec 32)

/-- The length of a packet to transmit. -/
def txLen (buf : List UInt8) : Nat := min buf.length TX_PKT_SIZE

/-- A read gives the receive buffer back. -/
def GivesBack (dpv : DevPriv) (off : Nat) : Prop := dpv.pktRxAvail ≠ 0 ∧ off ≥ dpv.rxPktSize

instance (dpv : DevPriv) (off : Nat) : Decidable (GivesBack dpv off) :=
  inferInstanceAs (Decidable (_ ∧ _))

def step (s : State) : Event → State
  | .write buf faults =>
    match exptWrite buf faults s.dpv with
    | (.error _, dpv) => { s with dpv }
    | (.ok _, dpv) => { s with dpv, handed := s.handed ++ [(dpv.descTx, txLen buf)] }
  | .read len off faults =>
    match exptRead len off faults s.dpv with
    | (_, _, dpv) => { s with
        dpv
        offered := if GivesBack s.dpv off then s.offered ++ [dpv.descRx &&& lenMask]
          else s.offered }
  | .transmit => { s with dpv := nicTransmit s.dpv }
  | .receive packet => { s with dpv := nicReceive packet s.dpv }
  | .irq => { s with dpv := exptPciIntrHandler s.dpv }

/-- The state after the set-up. -/
def State.start (pktTx pktRx : Mem) : State := ⟨setupBuffers pktTx pktRx, [], []⟩

end LinuxDrivers.Expt
