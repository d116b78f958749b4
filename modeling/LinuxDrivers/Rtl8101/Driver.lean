import Mathlib.Logic.Function.Basic
import LinuxDrivers.Lib.Device

/-!
# The rings of the RTL8101 driver

`net_stk.c` of the network driver templates: the transmit and the receive ring with their
free-running 32-bit counters, the two interrupt handlers, `rtl8101_start_xmit`, the handling of the
link status and the reset task. Socket buffers are of an arbitrary type `β`. The statistics, which
nothing reads, are left out.
-/

namespace LinuxDrivers.Rtl8101

/-! ## Descriptors -/

/-- Descriptor is owned by the NIC. -/
def descOwn : UInt32 := 0x80000000

/-- End of the descriptor ring. -/
def ringEnd : UInt32 := 0x40000000

def firstFrag : UInt32 := 0x20000000

def lastFrag : UInt32 := 0x10000000

/-- A receive error. -/
def rxRES : UInt32 := 0x00200000

structure Desc where
  opts1 : UInt32
  opts2 : UInt32
  addr : UInt64

/-- The NIC owns the descriptor. -/
def Desc.Owned (desc : Desc) : Prop := desc.opts1 &&& descOwn ≠ 0

instance (desc : Desc) : Decidable desc.Owned := inferInstanceAs (Decidable (_ ≠ _))

/-- A slot of `tx_skb`. -/
structure RingInfo (β : Type) where
  skb : Option β
  len : UInt32

/-- `DrvPvt`, with the two flags of the net device and with what went in and out of it so far. Both
rings have 1024 slots, `NUM_TX_DESC` and `NUM_RX_DESC`. -/
structure Pvt (β : Type) where
  curRx : UInt32
  curTx : UInt32
  dirtyRx : UInt32
  dirtyTx : UInt32
  rxDesc : Nat → Desc
  txDesc : Nat → Desc
  rxSkbuff : Nat → Option β
  txSkb : Nat → RingInfo β
  rxBufSz : UInt32
  /-- `netif_carrier_ok`. -/
  carrier : Bool
  /-- `netif_queue_stopped`. -/
  stopped : Bool
  /-- The packets that `rtl8101_start_xmit` accepted. -/
  accepted : List β
  /-- The transmitted or dropped packets, freed with `dev_kfree_skb`. -/
  released : List β
  /-- The buffers that were passed up, with the size of their packet. -/
  delivered : List (Option β × Int)

section

variable {β : Type}

/-- The slot of a counter. -/
def slot (counter : UInt32) : Nat := (counter % 1024).toNat

/-! ## Buffers -/

/-- `TX_BUFFS_AVAIL`. -/
def txBuffsAvail (pvt : Pvt β) : UInt32 := pvt.dirtyTx + 1024 - pvt.curTx - 1

/-- `rtl8101_unmap_tx_skb`. -/
def unmapTxSkb (pvt : Pvt β) (entry : Nat) : Pvt β :=
  { pvt with
    txDesc := Function.update pvt.txDesc entry ⟨0, 0, 0⟩
    txSkb := Function.update pvt.txSkb entry { pvt.txSkb entry with len := 0 } }

/-- `dev_kfree_skb` of the buffer of a transmit slot, which is then `NULL`. -/
def freeTxSkb (pvt : Pvt β) (entry : Nat) : Pvt β :=
  { pvt with
    released := pvt.released ++ (pvt.txSkb entry).skb.toList
    txSkb := Function.update pvt.txSkb entry { pvt.txSkb entry with skb := none } }

/-- The body of the loop of `rtl8101_tx_clear`. -/
def clearSlot (pvt : Pvt β) (entry : Nat) : Pvt β :=
  if (pvt.txSkb entry).len ≠ 0 then freeTxSkb (unmapTxSkb pvt entry) entry else pvt

/-- The loop of `rtl8101_tx_clear` from `i` on. It takes at most `NUM_TX_DESC` turns. -/
def txClearLoop : Nat → UInt32 → Pvt β → Pvt β
  | 0, _, pvt => pvt
  | turns + 1, i, pvt =>
    if i < pvt.dirtyTx + 1024 then txClearLoop turns (i + 1) (clearSlot pvt (slot i)) else pvt

/-- `rtl8101_tx_clear`. -/
def txClear (pvt : Pvt β) : Pvt β :=
  { txClearLoop 1024 pvt.dirtyTx pvt with curTx := 0, dirtyTx := 0 }

/-- `rtl8101_mark_to_asic`. -/
def markToAsic (desc : Desc) (rxBufSz : UInt32) : Desc :=
  { desc with opts1 := descOwn ||| (desc.opts1 &&& ringEnd) ||| rxBufSz }

/-- `rtl8101_map_to_asic`. -/
def mapToAsic (desc : Desc) (mapping : UInt64) (rxBufSz : UInt32) : Desc :=
  markToAsic { desc with addr := mapping } rxBufSz

/-- What `dev_alloc_skb` and `pci_map_single` give in the turns of `rtl8101_rx_fill`, numbered by
how many turns are left behind them. -/
abbrev Allocs (β : Type) := Nat → Option (β × UInt64)

/-- The loop of `rtl8101_rx_fill` from `cur` on, with `end - cur` turns left: where it stops. -/
def rxFillLoop (allocs : Allocs β) : Nat → UInt32 → Pvt β → UInt32 × Pvt β
  | 0, cur, pvt => (cur, pvt)
  | left + 1, cur, pvt =>
    if (pvt.rxSkbuff (slot cur)).isSome then rxFillLoop allocs left (cur + 1) pvt
    else
      match allocs left with
      | none => (cur, pvt)
      | some (skb, mapping) =>
        rxFillLoop allocs left (cur + 1)
          { pvt with
            rxSkbuff := Function.update pvt.rxSkbuff (slot cur) (some skb)
            rxDesc := Function.update pvt.rxDesc (slot cur)
              (mapToAsic (pvt.rxDesc (slot cur)) mapping pvt.rxBufSz) }

/-- `rtl8101_rx_fill`. -/
def rxFill (allocs : Allocs β) (start stop : UInt32) (pvt : Pvt β) : UInt32 × Pvt β :=
  match rxFillLoop allocs (stop - start).toNat start pvt with
  | (cur, pvt) => (cur - start, pvt)

/-- `rtl8101_init_ring_indexes`. -/
def initRingIndexes (pvt : Pvt β) : Pvt β :=
  { pvt with dirtyTx := 0, dirtyRx := 0, curTx := 0, curRx := 0 }

/-! ## Opening -/

/-- A ring of cleared descriptors. -/
def clearedDescs (entry : Nat) : Desc := ⟨if entry = 1023 then ringEnd else 0, 0, 0⟩

/-- The driver before the receive ring is filled, with the carrier off. -/
def cleared : Pvt β :=
  { curRx := 0, curTx := 0, dirtyRx := 0, dirtyTx := 0,
    rxDesc := clearedDescs, txDesc := clearedDescs,
    rxSkbuff := fun _ => none, txSkb := fun _ => ⟨none, 0⟩,
    rxBufSz := 0x05F3, carrier := false, stopped := true,
    accepted := [], released := [], delivered := [] }

/-- `rtl8101_init_buffers`, once the descriptor rings are allocated. -/
def initBuffers (allocs : Allocs β) : Except Int (Pvt β) :=
  match rxFill allocs 0 1024 cleared with
  | (filled, pvt) => if filled ≠ 1024 then .error (-ENOMEM) else .ok pvt

/-- What `rtl8101_hw_init` does to the queue: it is stopped and, at the end, started. -/
def hwInit (pvt : Pvt β) : Pvt β := { pvt with stopped := false }

/-- `rtl8101_open`; `irq` is the result of `request_irq`. -/
def rtl8101Open (allocs : Allocs β) (irq : Int) : Except Int (Pvt β) :=
  match initBuffers allocs with
  | .error e => .error e
  | .ok pvt => if irq < 0 then .error irq else .ok (hwInit pvt)

/-! ## Link status -/

/-- `rtl8101_check_link_status`. -/
def checkLinkStatus (linkStatusOn : Bool) (pvt : Pvt β) : Pvt β :=
  if pvt.carrier ≠ linkStatusOn then
    if linkStatusOn then { hwInit pvt with carrier := true }
    else initRingIndexes (txClear { pvt with carrier := false, stopped := true })
  else pvt

/-! ## Interrupts -/

/-- The loop of `rtl8101_rx_interrupt` with `rx_left` turns left. -/
def rxLoop : Nat → UInt32 → Pvt β → UInt32 × Pvt β
  | 0, curRx, pvt => (curRx, pvt)
  | rxLeft + 1, curRx, pvt =>
    let entry := slot curRx
    let status := (pvt.rxDesc entry).opts1
    if (pvt.rxDesc entry).Owned then (curRx, pvt)
    else if status &&& rxRES ≠ 0 then
      rxLoop rxLeft (curRx + 1)
        { pvt with
          rxDesc := Function.update pvt.rxDesc entry (markToAsic (pvt.rxDesc entry) pvt.rxBufSz) }
    else
      rxLoop rxLeft (curRx + 1)
        { pvt with
          rxSkbuff := Function.update pvt.rxSkbuff entry none
          delivered := pvt.delivered ++
            [(pvt.rxSkbuff entry, ((status &&& 0x00003FFF).toNat : Int) - 4)] }

/-- `rtl8101_rx_interrupt`. -/
def rxInterrupt (budget : UInt32) (allocs : Allocs β) (pvt : Pvt β) : Pvt β :=
  let rxLeft := min (1024 + pvt.dirtyRx - pvt.curRx) budget
  match rxLoop rxLeft.toNat pvt.curRx pvt with
  | (curRx, pvt) =>
    match rxFill allocs pvt.dirtyRx curRx { pvt with curRx } with
    | (delta, pvt) => { pvt with dirtyRx := pvt.dirtyRx + delta }

/-- The loop of `rtl8101_tx_interrupt` with `tx_left` turns left. -/
def txLoop : Nat → UInt32 → Pvt β → UInt32 × Pvt β
  | 0, dirtyTx, pvt => (dirtyTx, pvt)
  | txLeft + 1, dirtyTx, pvt =>
    let entry := slot dirtyTx
    let status := (pvt.txDesc entry).opts1
    if (pvt.txDesc entry).Owned then (dirtyTx, pvt)
    else
      let pvt := unmapTxSkb pvt entry
      txLoop txLeft (dirtyTx + 1) (if status &&& lastFrag ≠ 0 then freeTxSkb pvt entry else pvt)

/-- `rtl8101_tx_interrupt`. -/
def txInterrupt (maxSkbFrags : Nat) (pvt : Pvt β) : Pvt β :=
  match txLoop (pvt.curTx - pvt.dirtyTx).toNat pvt.dirtyTx pvt with
  | (dirtyTx, pvt) =>
    if pvt.dirtyTx ≠ dirtyTx then
      let pvt := { pvt with dirtyTx }
      if pvt.stopped ∧ maxSkbFrags ≤ (txBuffsAvail pvt).toNat then { pvt with stopped := false }
      else pvt
    else pvt

/-! ## Operations of the network stack -/

/-- `rtl8101_reset_task` of a running device. -/
def resetTask (allocs : Allocs β) (pvt : Pvt β) : Pvt β :=
  let pvt := txClear (rxInterrupt 0xFFFFFFFF allocs pvt)
  if pvt.dirtyRx = pvt.curRx then { hwInit (initRingIndexes pvt) with stopped := false } else pvt

/-- A packet that the stack hands over. -/
structure Packet (β : Type) where
  skb : β
  len : UInt32
  /-- `nr_frags`. -/
  frags : Nat
  /-- What `pci_map_single` gives for its data. -/
  mapping : UInt64

/-- `NETDEV_TX_OK` and `NETDEV_TX_BUSY`. -/
inductive TxResult where
  | ok
  | busy
  deriving DecidableEq

/-- The label `err_stop` of `rtl8101_start_xmit`. -/
def errStop (pvt : Pvt β) : TxResult × Pvt β := (.busy, { pvt with stopped := true })

/-- The descriptor of a packet in the slot `entry`. -/
def txDesc (packet : Packet β) (entry : Nat) : Desc :=
  ⟨descOwn ||| (firstFrag ||| lastFrag) |||
    (packet.len ||| if (entry + 1) % 1024 = 0 then ringEnd else 0), 0, packet.mapping⟩

/-- `rtl8101_start_xmit`. -/
def startXmit (maxSkbFrags : Nat) (packet : Packet β) (pvt : Pvt β) : TxResult × Pvt β :=
  let entry := slot pvt.curTx
  if (txBuffsAvail pvt).toNat < packet.frags then errStop pvt
  else if (pvt.txDesc entry).Owned then errStop pvt
  else
    let pvt := { pvt with
      txSkb := Function.update pvt.txSkb entry ⟨some packet.skb, packet.len⟩
      txDesc := Function.update pvt.txDesc entry (txDesc packet entry)
      curTx := pvt.curTx + 1
      accepted := pvt.accepted ++ [packet.skb] }
    -- the second look at the ring, behind a barrier, sees what the first one saw
    (.ok, if (txBuffsAvail pvt).toNat < maxSkbFrags then { pvt with stopped := true } else pvt)

/-! ## Runs -/

/-- What happens to the driver. -/
inductive Act (β : Type) where
  | startXmit (packet : Packet β)
  /-- The NIC has sent the packet of a descriptor. -/
  | transmitted (entry : Nat)
  | txInterrupt
  /-- The NIC has filled a descriptor that it owns, and writes the status back. -/
  | received (entry : Nat) (status : UInt32)
  | rxInterrupt (budget : UInt32) (allocs : Allocs β)
  | checkLinkStatus (linkStatusOn : Bool)
  | resetTask (allocs : Allocs β)

/-- The NIC clears `DescOwn` of a transmit descriptor and changes no other bit. -/
def transmitted (entry : Nat) (pvt : Pvt β) : Pvt β :=
  { pvt with
    txDesc := Function.update pvt.txDesc entry
      { pvt.txDesc entry with opts1 := (pvt.txDesc entry).opts1 &&& ~~~descOwn } }

/-- The NIC writes the status of a received packet, without `DescOwn`, to a descriptor it owns. -/
def received (entry : Nat) (status : UInt32) (pvt : Pvt β) : Pvt β :=
  if (pvt.rxDesc entry).Owned then
    { pvt with
      rxDesc := Function.update pvt.rxDesc entry
        { pvt.rxDesc entry with opts1 := status &&& ~~~descOwn } }
  else pvt

def step (maxSkbFrags : Nat) (pvt : Pvt β) : Act β → Pvt β
  | .startXmit packet => (startXmit maxSkbFrags packet pvt).2
  | .transmitted entry => transmitted entry pvt
  | .txInterrupt => txInterrupt maxSkbFrags pvt
  | .received entry status => received entry status pvt
  | .rxInterrupt budget allocs => rxInterrupt budget allocs pvt
  | .checkLinkStatus linkStatusOn => checkLinkStatus linkStatusOn pvt
  | .resetTask allocs => resetTask allocs pvt

end

end LinuxDrivers.Rtl8101
