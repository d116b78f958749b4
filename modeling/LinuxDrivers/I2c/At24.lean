import LinuxDrivers.Lib.Bits
import LinuxDrivers.Lib.Device

/-!
# The EEPROM driver

`at24-new.c` on an EEPROM behind an I2C bus. The part programs the bytes of one message within a
page and rolls over at its end; a read goes on to the end of the memory. A transfer may fail at any
time, also when some of its bytes have arrived, and the driver repeats it until it gets through or
the time is over.
-/

namespace LinuxDrivers.I2c.At24

/-! ## The part on the bus -/

/-- An EEPROM. -/
structure Part where
  size : Nat
  pageSize : Nat
  /-- How many bytes of a message are the address. -/
  addrBytes : Nat

namespace Part

/-- The address at the start of a message, the high byte first. -/
def address (p : Part) (bytes : List UInt8) : Nat :=
  ((bytes.take p.addrBytes).foldl (fun a byte => 256 * a + byte.toNat) 0) % p.size

/-- The cell after `a`, in the same page. -/
def next (p : Part) (a : Nat) : Nat :=
  if (a + 1) % p.pageSize = 0 then a + 1 - p.pageSize else a + 1

/-- Data bytes are programmed one by one, from cell `a` on. -/
def program (p : Part) : Mem → Nat → List UInt8 → Mem
  | cells, _, [] => cells
  | cells, a, byte :: bytes => program p (cells.store a 1 fun _ => byte) (p.next a) bytes

/-- What a read from cell `a` on delivers. -/
def sequential (p : Part) (cells : Mem) (a : Nat) : Mem := fun k => cells ((a + k) % p.size)

end Part

/-- A transfer that fails: how many data bytes were moved before, and the error number. -/
structure Fault where
  moved : Nat
  errno : Nat

/-- The bus with its EEPROM. -/
structure Bus where
  part : Part
  cells : Mem
  /-- Whether the `n`-th transfer fails. -/
  fault : Nat → Option Fault
  /-- How often a message may be sent again when it is sent first in the `n`-th transfer. -/
  repeats : Nat → Nat
  transfers : Nat
  /-- The messages that were sent to be programmed, also those of failing transfers. -/
  sent : List (List UInt8)

namespace Bus

/-- `i2c_transfer` of one message to the part. -/
def send (b : Bus) (bytes : List UInt8) : Int × Bus :=
  let data := bytes.drop b.part.addrBytes
  let b' := { b with transfers := b.transfers + 1, sent := b.sent ++ [bytes] }
  match b.fault b.transfers with
  | none => (1, { b' with cells := b.part.program b.cells (b.part.address bytes) data })
  | some f =>
    (-f.errno,
      { b' with cells := b.part.program b.cells (b.part.address bytes) (data.take f.moved) })

/-- `i2c_transfer` of an address and of `len` bytes back into `buf`. -/
def sendReceive (b : Bus) (bytes : List UInt8) (len : Nat) (buf : Mem) : Int × Mem × Bus :=
  let data := b.part.sequential b.cells (b.part.address bytes)
  let b' := { b with transfers := b.transfers + 1 }
  match b.fault b.transfers with
  | none => (2, buf.store 0 len data, b')
  | some f => (-f.errno, buf.store 0 (min f.moved len) data, b')

end Bus

/-! ## The driver -/

def flagAddr16 : Nat := 0x80

/-- `struct at24_platform_data`. -/
structure PlatformData where
  byteLen : Nat
  pageSize : Nat
  flags : Nat

/-- `struct at24_data`, with the `io_limit` of the module. -/
structure At24Data where
  chip : PlatformData
  ioLimit : Nat
  writeMax : Nat

/-- `chip.flags & AT24_FLAG_ADDR16` -/
def PlatformData.addr16 (chip : PlatformData) : Bool := chip.flags &&& flagAddr16 ≠ 0

/-- An `unsigned`. -/
def u32 (x : Nat) : Nat := x % 4294967296

/-- `roundup` on `unsigned` values. -/
def roundup (x y : Nat) : Nat := u32 (u32 (x + (y - 1)) / y * y)

/-- The address bytes that both directions put in front. -/
def offsetBytes (chip : PlatformData) (offset : Nat) : List UInt8 :=
  (if chip.addr16 then [UInt8.ofNat (offset >>> 8)] else []) ++ [UInt8.ofNat offset]

/-- The loop of `at24_eeprom_read`, with `left` repetitions to go. -/
def readAttempts (bytes : List UInt8) (count : Nat) : Nat → Bus → Mem → Int × Mem × Bus
  | left, b, buf =>
    -- `msg[1].len` has 16 bits
    let (status, buf', b') := b.sendReceive bytes (count % 65536) buf
    let status := if status = 2 then (count : Int) else status
    if status = count then (count, buf', b')
    else match left with
      | 0 => (-ETIMEDOUT, buf', b')
      | left + 1 => readAttempts bytes count left b' buf'

def at24EepromRead (d : At24Data) (b : Bus) (buf : Mem) (offset count : Nat) : Int × Mem × Bus :=
  let count := if count > d.ioLimit then d.ioLimit else count
  readAttempts (offsetBytes d.chip offset) count (b.repeats b.transfers) b buf

/-- The loop of `at24_read`, with fuel. -/
def readLoop (d : At24Data) : Nat → Bus → Mem → Nat → Nat → Nat → Int × Mem × Bus
  | 0, b, buf, _, _, retval => (retval, buf, b)
  | fuel + 1, b, buf, off, count, retval =>
    if count = 0 then (retval, buf, b)
    else
      let (status, rest, b') := at24EepromRead d b (buf.window retval) (u32 off) count
      let buf' := buf.store retval count rest
      if status ≤ 0 then (if retval = 0 then status else retval, buf', b')
      else
        readLoop d fuel b' buf' (off + status.toNat) (count - status.toNat) (retval + status.toNat)

/-- `at24_read`; every turn of its loop moves a byte. -/
def at24Read (d : At24Data) (b : Bus) (buf : Mem) (off count : Nat) : Int × Mem × Bus :=
  if count = 0 then (0, buf, b) else readLoop d count b buf off count 0

/-- The `count` that `at24_eeprom_write` sends: at most `write_max`, and never over a page. -/
def writeCount (d : At24Data) (offset count : Nat) : Nat :=
  let count := if count > d.writeMax then d.writeMax else count
  let nextPage := roundup (u32 (offset + 1)) d.chip.pageSize
  if u32 (offset + count) > nextPage then u32 (nextPage + 4294967296 - offset) else count

/-- The loop of `at24_eeprom_write`, with `left` repetitions to go. -/
def writeAttempts (bytes : List UInt8) (count : Nat) : Nat → Bus → Int × Bus
  | left, b =>
    let (status, b') := b.send bytes
    let status := if status = 1 then (count : Int) else status
    if status = count then (count, b')
    else match left with
      | 0 => (-ETIMEDOUT, b')
      | left + 1 => writeAttempts bytes count left b'

def at24EepromWrite (d : At24Data) (b : Bus) (buf : Mem) (offset count : Nat) : Int × Bus :=
  let count := writeCount d offset count
  let bytes := offsetBytes d.chip offset ++ buf.load 0 count
  -- `msg.len` has 16 bits
  writeAttempts (bytes.take (bytes.length % 65536)) count (b.repeats b.transfers) b

/-- The loop of `at24_write`, with fuel. -/
def writeLoop (d : At24Data) : Nat → Bus → Mem → Nat → Nat → Nat → Int × Bus
  | 0, b, _, _, _, retval => (retval, b)
  | fuel + 1, b, buf, off, count, retval =>
    if count = 0 then (retval, b)
    else
      let (status, b') := at24EepromWrite d b buf (u32 off) count
      if status ≤ 0 then (if retval = 0 then status else retval, b')
      else
        writeLoop d fuel b' (buf.window status.toNat) (off + status.toNat) (count - status.toNat)
          (retval + status.toNat)

/-- `at24_write`; every turn of its loop moves a byte. -/
def at24Write (d : At24Data) (b : Bus) (buf : Mem) (off count : Nat) : Int × Bus :=
  if count = 0 then (0, b) else writeLoop d count b buf off count 0

/-! ## Setting up -/

def ENODEV : Int := 19
def EPFNOSUPPORT : Int := 96

def flagReadonly : Nat := 0x40
def flagIrugo : Nat := 0x20
def flagTake8addr : Nat := 0x10

def at24SizeBytelen : Nat := 5
def at24SizeFlags : Nat := 8

def at24Bitmask (x : Nat) : Nat := (1 <<< x) - 1

/-- `AT24_DEVICE_MAGIC` -/
def at24DeviceMagic (len flags : Nat) : Nat :=
  (1 <<< at24SizeFlags ||| flags) <<< at24SizeBytelen ||| Nat.log2 len

/-- `at24_ids`: the names of the parts, with their `driver_data`. -/
def at24Ids : List (String × Nat) :=
  [("24c00", at24DeviceMagic (128 / 8) flagTake8addr),
    ("24c01", at24DeviceMagic (1024 / 8) 0),
    ("24c02", at24DeviceMagic (2048 / 8) 0),
    ("spd", at24DeviceMagic (2048 / 8) (flagReadonly ||| flagIrugo)),
    ("24c04", at24DeviceMagic (4096 / 8) 0),
    ("24c08", at24DeviceMagic (8192 / 8) 0),
    ("24c16", at24DeviceMagic (16384 / 8) 0),
    ("24c32", at24DeviceMagic (32768 / 8) flagAddr16),
    ("24c64", at24DeviceMagic (65536 / 8) flagAddr16),
    ("24c128", at24DeviceMagic (131072 / 8) flagAddr16),
    ("24c256", at24DeviceMagic (262144 / 8) flagAddr16),
    ("24c512", at24DeviceMagic (524288 / 8) flagAddr16),
    ("24c1024", at24DeviceMagic (1048576 / 8) flagAddr16),
    ("at24", 0)]

/-- What `at24_probe` finds. -/
structure Probed where
  platformData : Option PlatformData
  driverData : Nat
  /-- `read-only` and `pagesize` of the device tree node, if there is one. -/
  ofNode : Option (Bool × Option Nat)
  /-- `I2C_FUNC_I2C` -/
  funcI2c : Bool
  /-- Any of the three kinds of SMBus reads. -/
  funcSmbus : Bool
  /-- Whether the two allocations succeed. -/
  allocData : Bool
  allocWritebuf : Bool

/-- `at24_get_ofdata`; the page size has 16 bits. -/
def at24GetOfdata (node : Option (Bool × Option Nat)) (chip : PlatformData) : PlatformData :=
  match node with
  | none => chip
  | some (readOnly, pagesize) =>
    { chip with
      flags := if readOnly then chip.flags ||| flagReadonly else chip.flags
      pageSize := match pagesize with
        | none => chip.pageSize
        | some val => val % 65536 }

/-- The `chip` of `at24_probe`. -/
def Probed.chip (a : Probed) : Except Int PlatformData :=
  match a.platformData with
  | some chip => .ok chip
  | none =>
    if a.driverData = 0 then .error (-ENODEV)
    else
      .ok (at24GetOfdata a.ofNode
        { byteLen := u32 (1 <<< (a.driverData &&& at24Bitmask at24SizeBytelen))
          pageSize := 1
          flags := a.driverData >>> at24SizeBytelen &&& at24Bitmask at24SizeFlags })

/-- `at24_probe`, up to the registration of its files. -/
def at24Probe (a : Probed) (ioLimit : Nat) : Except Int At24Data :=
  match a.chip with
  | .error e => .error e
  | .ok chip =>
    if chip.pageSize = 0 then .error (-EINVAL)
    else if !a.funcI2c && (chip.addr16 || !a.funcSmbus) then .error (-EPFNOSUPPORT)
    else if !a.allocData then .error (-ENOMEM)
    else if !a.allocWritebuf then .error (-ENOMEM)
    else
      .ok
        { chip
          ioLimit
          writeMax := if chip.pageSize > ioLimit then ioLimit else chip.pageSize }

/-- `at24_init`: the `io_limit` that it leaves, `rounddown_pow_of_two`. -/
def at24Init (ioLimit : Nat) : Except Int Nat :=
  if ioLimit = 0 then .error (-EINVAL) else .ok (2 ^ Nat.log2 ioLimit)

end LinuxDrivers.I2c.At24
