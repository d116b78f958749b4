import LinuxDrivers.Ddk.Storage

/-!
# The disk in memory

`ram_device.c` and `rb_transfer` of `ram_block.c`: the same loop over the segments of a request as
in `ddk_transfer`, with `memcpy` in the place of the USB transfers.
-/

namespace LinuxDrivers.Ram

open Ddk (Dir Segment Request)

/-- `RB_DEVICE_SIZE`, in sectors. -/
def rbDeviceSize : Nat := 1024

def ramdeviceWrite (devData : Mem) (sectorOff : UInt64) (buffer : Mem) (sectors : UInt32) : Mem :=
  devData.store (sectorOff * 512).toNat (sectors * 512).toNat buffer

/-- `ramdevice_read`: the buffer afterwards. -/
def ramdeviceRead (devData : Mem) (sectorOff : UInt64) (buffer : Mem) (sectors : UInt32) : Mem :=
  buffer.store 0 (sectors * 512).toNat (devData.window (sectorOff * 512).toNat)

/-- The loop of `rb_transfer` over the segments, from `sector_offset` and `ret` on. -/
def rbSegments (dir : Dir) (startSector : UInt64) :
    List Segment → UInt64 → Int → Mem → (UInt64 × Int) × List Segment × Mem
  | [], sectorOffset, ret, devData => ((sectorOffset, ret), [], devData)
  | seg :: segs, sectorOffset, ret, devData =>
    let ret := if seg.len % 512 ≠ 0 then - EIO else ret
    match (match dir with
      | .write => (seg.buffer,
          ramdeviceWrite devData (startSector + sectorOffset) seg.buffer seg.sectors)
      | .read => (ramdeviceRead devData (startSector + sectorOffset) seg.buffer seg.sectors,
          devData)) with
    | (buffer, devData) =>
      match rbSegments dir startSector segs (sectorOffset + seg.sectors.toUInt64) ret devData with
      | (res, segs, devData) => (res, { seg with buffer } :: segs, devData)

/-- `rb_transfer`: the status, the segments and the array afterwards. -/
def rbTransfer (req : Request) (devData : Mem) : Int × List Segment × Mem :=
  match rbSegments req.dir req.startSector req.segments 0 0 devData with
  | ((sectorOffset, ret), segs, devData) =>
    (if sectorOffset ≠ req.sectorCnt.toUInt64 then - EIO else ret, segs, devData)

end LinuxDrivers.Ram
