import Mathlib.Algebra.GroupWithZero.Nat
import LinuxDrivers.Lib.Device

/-!
# The transfers of the block driver over DDK

`ddk_storage.c` and the body of `ddk_transfer` of `ddk_block.c`. Sectors are moved in packets of at
most 8 bytes (`MAX_PKT_SIZE`) over an interrupt endpoint, after a control message has set the
offset. The USB layer is a parameter: every call may fail with any error number or report any number
of bytes up to 8. What it reports is recorded.
-/

namespace LinuxDrivers.Ddk

def ENODEV : Int := 19

/-- A negative error number. -/
structure Errno where
  val : Int
  neg : val < 0

/-! ## The USB layer -/

/-- At most `MAX_PKT_SIZE` bytes. -/
structure Packet where
  bytes : List UInt8
  le_eight : bytes.length ≤ 8

/-- The USB layer with the device behind it, over states `σ`. -/
structure Usb (σ : Type) where
  /-- Whether `device` is set when the mutex has been taken. -/
  present : σ → Bool × σ
  /-- `usb_control_msg` without data, for a request and its `wValue`. -/
  controlOut : UInt8 → UInt16 → σ → Except Errno Nat × σ
  /-- `usb_control_msg` that reads a word: its result and the word. -/
  controlIn : UInt8 → σ → (Int × UInt16) × σ
  /-- `usb_interrupt_msg` with a packet to send: how much of it was sent. -/
  interruptOut : List UInt8 → σ → Except Errno (Fin 9) × σ
  /-- `usb_interrupt_msg` that receives a packet. -/
  interruptIn : σ → Except Errno Packet × σ

/-- What a call in a transfer reports. -/
inductive Reply where
  /-- `device` is `NULL`. -/
  | gone
  | failed (err : Errno)
  /-- The offset is set. -/
  | done
  /-- A packet of that size has been moved. -/
  | moved (size : Nat)

/-- The part of the buffer that a call of `usb_interrupt_msg` may touch. -/
structure Offer where
  start : Nat
  len : Nat
  deriving DecidableEq

/-- The state of the USB layer, with the replies so far and what the messages were given. -/
structure Bus (σ : Type) where
  state : σ
  replies : List Reply
  offers : List Offer

section

variable {σ : Type}

def Bus.record (bus : Bus σ) (state : σ) (reply : Reply) : Bus σ :=
  { bus with state, replies := bus.replies ++ [reply] }

def Bus.offer (bus : Bus σ) (offer : Offer) : Bus σ :=
  { bus with offers := bus.offers ++ [offer] }

/-! ## Control messages -/

/-- `CUSTOM_RQ_SET_MEM_RD_OFFSET`. -/
def rqSetMemRdOffset : UInt8 := 3

/-- `CUSTOM_RQ_SET_MEM_WR_OFFSET`. -/
def rqSetMemWrOffset : UInt8 := 5

/-- `CUSTOM_RQ_GET_MEM_SIZE`. -/
def rqGetMemSize : UInt8 := 7

/-- `CUSTOM_RQ_SET_MEM_TYPE`. -/
def rqSetMemType : UInt8 := 8

/-- The memory type `flash`. -/
def flash : UInt16 := 1

/-- The direction of a transfer, `e_read` or `e_write`. -/
inductive Dir where
  | read
  | write
  deriving DecidableEq

/-- `_set_off`; the `int` offset is passed as the 16 bits of `wValue`. -/
def setOff (usb : Usb σ) (dir : Dir) (offset : UInt32) : σ → Except Errno Nat × σ :=
  usb.controlOut (match dir with | .read => rqSetMemRdOffset | .write => rqSetMemWrOffset)
    offset.toUInt16

/-- `set_mem`. -/
def setMem (usb : Usb σ) (s : σ) : Int × σ :=
  match usb.present s with
  | (false, s) => (-ENODEV, s)
  | (true, s) =>
    match usb.controlOut rqSetMemType flash s with
    | (.error e, s) => (e.val, s)
    | (.ok n, s) => (n, s)

/-- `get_size`; the word is a `short`. A failed message gives one sector. -/
def getSize (usb : Usb σ) (s : σ) : Int × σ :=
  match usb.present s with
  | (false, s) => (-ENODEV, s)
  | (true, s) =>
    match usb.controlIn rqGetMemSize s with
    | ((retval, val), s) => (if retval = 2 then val.toInt16.toInt else 512, s)

/-- `ddk_storage_init`: the number of sectors. -/
def ddkStorageInit (usb : Usb σ) (s : σ) : Int × σ :=
  match setMem usb s with
  | (retval, s) =>
    if retval < 0 then (retval, s)
    else
      match getSize usb s with
      | (retval, s) => if retval < 0 then (retval, s) else (retval / 512, s)

/-! ## Packets -/

/-- One packet of a transfer, at position `k` of the buffer; it is given `MAX_PKT_SIZE` bytes. -/
def movePacket (usb : Usb σ) (dir : Dir) (k : Nat) (buffer : Mem) (bus : Bus σ) :
    Except Errno Nat × Mem × Bus σ :=
  let bus := bus.offer ⟨k, 8⟩
  match dir with
  | .write =>
    match usb.interruptOut (buffer.load k 8) bus.state with
    | (.error e, s) => (.error e, buffer, bus.record s (.failed e))
    | (.ok size, s) => (.ok size, buffer, bus.record s (.moved size))
  | .read =>
    match usb.interruptIn bus.state with
    | (.error e, s) => (.error e, buffer, bus.record s (.failed e))
    | (.ok p, s) => (.ok p.bytes.length, buffer.store k p.bytes.length (.ofList p.bytes),
        bus.record s (.moved p.bytes.length))

/-- The loops of `ddk_storage_write` and `ddk_storage_read`: `k` bytes of `cnt` are moved. Every
turn but the last moves a byte, so `cnt` turns are enough. -/
def packetLoop (usb : Usb σ) (dir : Dir) (cnt : Int) :
    Nat → Nat → Mem → Bus σ → Int × Mem × Bus σ
  | 0, k, buffer, bus => (k, buffer, bus)
  | fuel + 1, k, buffer, bus =>
    if (k : Int) < cnt then
      match movePacket usb dir k buffer bus with
      | (.error e, buffer, bus) => (e.val, buffer, bus)
      | (.ok size, buffer, bus) =>
        if size = 0 then (k, buffer, bus)
        else packetLoop usb dir cnt fuel (k + size) buffer bus
    else (k, buffer, bus)

/-- The body that `ddk_storage_write` and `ddk_storage_read` share. The offset and the count are
`int`s. -/
def ddkStorageMove (usb : Usb σ) (dir : Dir) (sectorOff : UInt64) (buffer : Mem)
    (sectors : UInt32) (bus : Bus σ) : Int × Mem × Bus σ :=
  let offset : UInt32 := (sectorOff * 512).toUInt32
  let cnt : Int := (sectors * 512).toInt32.toInt
  match usb.present bus.state with
  | (false, s) => (-ENODEV, buffer, bus.record s .gone)
  | (true, s) =>
    match setOff usb dir offset s with
    | (.error e, s) => (e.val, buffer, bus.record s (.failed e))
    | (.ok _, s) => packetLoop usb dir cnt cnt.toNat 0 buffer (bus.record s .done)

def ddkStorageWrite (usb : Usb σ) := ddkStorageMove usb .write

def ddkStorageRead (usb : Usb σ) := ddkStorageMove usb .read

/-! ## Requests -/

/-- A segment of a request: `bv_len` bytes at `buffer`. -/
structure Segment where
  len : UInt32
  buffer : Mem

/-- A request of the block layer. -/
structure Request where
  dir : Dir
  startSector : UInt64
  sectorCnt : UInt32
  segments : List Segment

/-- The number of sectors of a segment. -/
def Segment.sectors (seg : Segment) : UInt32 := seg.len / 512

/-- The number of sectors of a list of segments. -/
def sectorSum (segs : List Segment) : Nat := (segs.map fun seg => seg.sectors.toNat).sum

@[simp] theorem sectorSum_cons (seg : Segment) (segs : List Segment) :
    sectorSum (seg :: segs) = seg.sectors.toNat + sectorSum segs := rfl

/-- The loop of `ddk_transfer` over the segments, from `sector_offset` and `ret` on; the segments
are returned with what was read into them and with the result of their transfer. -/
def ddkSegments (usb : Usb σ) (dir : Dir) (startSector : UInt64) :
    List Segment → UInt64 → Int → Bus σ → (UInt64 × Int) × List (Segment × Int) × Bus σ
  | [], sectorOffset, ret, bus => ((sectorOffset, ret), [], bus)
  | seg :: segs, sectorOffset, ret, bus =>
    let ret := if seg.len % 512 ≠ 0 then - EIO else ret
    match (match dir with
      | .write => ddkStorageWrite usb (startSector + sectorOffset) seg.buffer seg.sectors bus
      | .read => ddkStorageRead usb (startSector + sectorOffset) seg.buffer seg.sectors bus) with
    | (ret2, buffer, bus) =>
      let ret := if ret2 < 0 then ret2 else ret
      match ddkSegments usb dir startSector segs (sectorOffset + seg.sectors.toUInt64) ret bus with
      | (res, moved, bus) => (res, ({ seg with buffer }, ret2) :: moved, bus)

/-- One turn of the loop, from the result of the transfer of its segment. -/
theorem ddkSegments_cons {usb : Usb σ} {dir : Dir} {startSector sectorOffset : UInt64}
    {seg : Segment} {bus bus' : Bus σ} {r : Int} {buffer : Mem}
    (hmove : ddkStorageMove usb dir (startSector + sectorOffset) seg.buffer seg.sectors bus =
      (r, buffer, bus')) (segs : List Segment) (ret : Int) :
    ddkSegments usb dir startSector (seg :: segs) sectorOffset ret bus =
      match ddkSegments usb dir startSector segs (sectorOffset + seg.sectors.toUInt64)
        (if r < 0 then r else if seg.len % 512 ≠ 0 then - EIO else ret) bus' with
      | (res, moved, bus) => (res, ({ seg with buffer }, r) :: moved, bus) := by
  cases dir with
  | read => simp only [ddkSegments, ddkStorageRead, hmove]
  | write => simp only [ddkSegments, ddkStorageWrite, hmove]

/-- How `ddk_transfer` ends a request. -/
structure Outcome (σ : Type) where
  /-- The status that is handed to `blk_end_request_all`. -/
  status : Int
  moved : List (Segment × Int)
  bus : Bus σ

/-- `ddk_transfer` from the point where `under_process` is reset. -/
def ddkTransfer (usb : Usb σ) (req : Request) (bus : Bus σ) : Outcome σ :=
  match ddkSegments usb req.dir req.startSector req.segments 0 0 bus with
  | ((sectorOffset, ret), moved, bus) =>
    ⟨if sectorOffset ≠ req.sectorCnt.toUInt64 then - EIO else ret, moved, bus⟩

end

end LinuxDrivers.Ddk
