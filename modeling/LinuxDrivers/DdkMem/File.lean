import LinuxDrivers.Ddk.Storage

/-!
# The memory of a DDK device as a file

`ddk_open`, `ddk_read`, `ddk_write` and `ddk_llseek` of `ddk_mem.c`. The device keeps one offset for
reads and one for writes; the driver sets both through control messages and moves data in packets of
an interrupt endpoint. What a read did not hand to the user stays in `in_buf` for the next one.
-/

namespace LinuxDrivers.DdkMem

open Ddk (Dir Errno ENODEV)

def EFAULT : Int := 14

theorem EFAULT_pos : 0 < EFAULT := by decide

/-- How a call ends without success. -/
inductive Failure where
  | errno (err : Errno)
  /-- The loop of `ddk_write` still sends packets. -/
  | waiting

/-- A constant error number. -/
def Failure.code (errno : Int) (h : 0 < errno) : Failure := .errno ⟨-errno, by omega⟩

/-- `struct ddk_device`: the buffer sizes of the endpoints, and the USB layer over states `σ`. -/
structure Dev (σ : Type) where
  inBufSize : Nat
  outBufSize : Nat
  /-- `usb_control_msg` that sets one of the offsets to `wValue`. -/
  controlSet : Dir → UInt16 → σ → Except Errno Nat × σ
  /-- `usb_control_msg` that reads one of the offsets. -/
  controlGet : Dir → σ → Except Errno UInt16 × σ
  /-- `usb_control_msg` that reads the memory size. -/
  controlSize : σ → Except Errno UInt16 × σ
  /-- `usb_interrupt_msg` that receives a packet into a buffer of the given size. -/
  interruptIn : Nat → σ → Except Errno (List UInt8) × σ
  /-- `usb_interrupt_msg` with a packet to send: how much of it was sent. -/
  interruptOut : List UInt8 → σ → Except Errno Nat × σ

/-- `struct ddk_device_file` with the position of the file and the state of the USB layer. -/
structure File (σ : Type) where
  usb : σ
  inBuf : Mem
  leftOver : Nat
  fPos : Nat

section

variable {σ : Type} (dev : Dev σ)

/-! ## Control messages -/

/-- A word that a control message reads is a `short`. -/
def shortOf : Except Errno UInt16 × σ → Int × σ
  | (.error e, s) => (e.val, s)
  | (.ok val, s) => (val.toInt16.toInt, s)

/-- `get_size`. -/
def getSize (s : σ) : Int × σ := shortOf (dev.controlSize s)

/-- `get_off`. -/
def getOff (dir : Dir) (s : σ) : Int × σ := shortOf (dev.controlGet dir s)

/-- `set_off`; the offset is passed as the 16 bits of `wValue`. -/
def setOff (dir : Dir) (offset : Nat) (s : σ) : Except Errno Nat × σ :=
  dev.controlSet dir (.ofNat offset) s

/-- `set_off`, with the rest of a function behind the test of its result. -/
def withOff {α : Type} (dir : Dir) (offset : Nat) (f : File σ)
    (rest : File σ → Except Failure α × File σ) : Except Failure α × File σ :=
  match setOff dev dir offset f.usb with
  | (.error e, s) => (.error (.errno e), { f with usb := s })
  | (.ok _, s) => rest { f with usb := s }

/-- `ddk_open`, from the test of `in_buf_size` on; `alloc` is the memory that `kmalloc` gives. -/
def ddkOpen (alloc : Option Mem) (s : σ) : Except Failure Unit × File σ :=
  if dev.inBufSize = 0 then (.error (.code ENODEV (by decide)), ⟨s, fun _ => 0, 0, 0⟩)
  else
    match alloc with
    | none => (.error (.code ENOMEM (by decide)), ⟨s, fun _ => 0, 0, 0⟩)
    | some inBuf =>
      withOff dev .read 0 ⟨s, inBuf, 0, 0⟩ fun f =>
        withOff dev .write 0 f fun f => (.ok (), f)

/-! ## Writing -/

/-- The loop of `ddk_write`, `wroteCnt` bytes being sent, for so many turns. The user's buffer has
`mapped` bytes that can be copied. -/
def writeLoop (data : List UInt8) (mapped : Nat) : Nat → Nat → σ → Except Failure Nat × σ
  | 0, wroteCnt, s => (if wroteCnt < data.length then .error .waiting else .ok wroteCnt, s)
  | turns + 1, wroteCnt, s =>
    if wroteCnt < data.length then
      let writeSize := min dev.outBufSize (data.length - wroteCnt)
      if mapped < wroteCnt + writeSize then (.error (.code EFAULT EFAULT_pos), s)
      else
        match dev.interruptOut ((data.drop wroteCnt).take writeSize) s with
        | (.error e, s) => (.error (.errno e), s)
        | (.ok wroteSize, s) => writeLoop data mapped turns (wroteCnt + wroteSize) s
    else (.ok wroteCnt, s)

/-- `ddk_write`. -/
def ddkWrite (data : List UInt8) (mapped turns : Nat) (f : File σ) :
    Except Failure Nat × File σ :=
  withOff dev .write f.fPos f fun f =>
    match writeLoop dev data mapped turns 0 f.usb with
    | (.error e, s) => (.error e, { f with usb := s })
    | (.ok wroteCnt, s) =>
      withOff dev .read (f.fPos + wroteCnt) { f with usb := s, fPos := f.fPos + wroteCnt } fun f =>
        (.ok wroteCnt, f)

/-! ## Reading -/

/-- The first part of `ddk_read`: how many bytes stand in `in_buf`, left over or received. -/
def fetch (f : File σ) : Except Failure Nat × File σ :=
  if f.leftOver ≠ 0 then (.ok f.leftOver, { f with leftOver := 0 })
  else
    withOff dev .read f.fPos f fun f =>
      match dev.interruptIn dev.inBufSize f.usb with
      | (.error e, s) => (.error (.errno e), { f with usb := s })
      | (.ok packet, s) =>
        withOff dev .write (f.fPos + packet.length)
          { f with usb := s, inBuf := f.inBuf.store 0 packet.length (.ofList packet) } fun f =>
            (.ok packet.length, f)

/-- The loop that moves the bytes behind the first `cnt` to the start of `in_buf`. -/
def shiftDown (cnt readSize : Nat) (inBuf : Mem) : Mem :=
  (List.range' cnt (readSize - cnt)).foldl
    (fun buf i => Function.update buf (i - cnt) (buf i)) inBuf

/-- `ddk_read` of at most `MAX_RW_COUNT` bytes, so that the `int` loop counter holds `cnt`: the
bytes that are copied to the user. -/
def ddkRead (cnt mapped : Nat) (f : File σ) : Except Failure (List UInt8) × File σ :=
  match fetch dev f with
  | (.error e, f) => (.error e, f)
  | (.ok readSize, f) =>
    let readCnt := if readSize ≤ cnt then readSize else cnt
    if mapped < readCnt then (.error (.code EFAULT EFAULT_pos), { f with leftOver := readSize })
    else
      (.ok (f.inBuf.load 0 readCnt),
        { f with
          inBuf := shiftDown cnt readSize f.inBuf
          leftOver := if cnt < readSize then readSize - cnt else 0
          fPos := f.fPos + readCnt })

/-! ## Seeking -/

/-- The values of `whence`. -/
inductive Whence where
  | seekSet
  | seekCur
  | seekEnd
  | other

/-- What `whence` adds to the offset. -/
def seekBase (size : Int) (whence : Whence) (s : σ) : Except Failure Int × σ :=
  match whence with
  | .seekSet => (.ok 0, s)
  | .seekCur =>
    match getOff dev .read s with
    | (cur, s) => (if h : cur < 0 then .error (.errno ⟨cur, h⟩) else .ok cur, s)
  | .seekEnd => (.ok size, s)
  | .other => (.error (.code EINVAL (by decide)), s)

/-- The offset, cut to the memory. -/
def clampOffset (size : Int) (offset : Int64) : Nat :=
  if offset.toInt < 0 then 0 else if offset.toInt > size then size.toNat else offset.toInt.toNat

/-- `ddk_llseek`. -/
def ddkLlseek (offset : Int64) (whence : Whence) (f : File σ) : Except Failure Nat × File σ :=
  match getSize dev f.usb with
  | (size, s) =>
    if h : size < 0 then (.error (.errno ⟨size, h⟩), { f with usb := s })
    else
      match seekBase dev size whence s with
      | (.error e, s) => (.error e, { f with usb := s })
      | (.ok base, s) =>
        let pos := clampOffset size (offset + .ofInt base)
        withOff dev .read pos { f with usb := s } fun f =>
          withOff dev .write pos f fun f => (.ok pos, { f with fPos := pos })

/-! ## Calls -/

/-- A call on the open file. -/
inductive Call where
  | read (cnt mapped : Nat)
  | write (data : List UInt8) (mapped turns : Nat)
  | llseek (offset : Int64) (whence : Whence)

/-- The file after a call. -/
def step (f : File σ) : Call → File σ
  | .read cnt mapped => (ddkRead dev cnt mapped f).2
  | .write data mapped turns => (ddkWrite dev data mapped turns f).2
  | .llseek offset whence => (ddkLlseek dev offset whence f).2

/-- The call returns without an error. -/
def Succeeds (f : File σ) : Call → Prop
  | .read cnt mapped => ∃ bytes, (ddkRead dev cnt mapped f).1 = .ok bytes
  | .write data mapped turns => ∃ n, (ddkWrite dev data mapped turns f).1 = .ok n
  | .llseek offset whence => ∃ n, (ddkLlseek dev offset whence f).1 = .ok n

end

end LinuxDrivers.DdkMem
