import LinuxDrivers.DdkMem.File

/-!
# The character driver of the UART workshop

`my_read` and `my_write` of `final_char_driver.c` with the interrupt side of `char-serial-new.c`.
Both directions go through a buffer of ten characters. `icount.rx` is at once the index at which the
next character is stored and the number of characters that wait; `icount.tx` is the number of
characters to send. The functions of this module keep both within the size of the buffers, so they
are `Nat`.
-/

namespace LinuxDrivers.Uart

open DdkMem (EFAULT)

def UART_IER_RDI : UInt8 := 0x01

def UART_IER_THRI : UInt8 := 0x02

def UART_IER_RLSI : UInt8 := 0x04

def UART_LSR_DR : UInt32 := 0x01

/-- The registers that the modelled functions write. -/
inductive Reg where
  | tx
  | ier
  deriving DecidableEq

/-- `struct uart_omap_port`, with everything that was written to the registers. -/
structure Port where
  ier : UInt8
  /-- `port.icount.rx`. -/
  rx : Nat
  /-- `port.icount.tx`. -/
  tx : Nat
  rxBuff : Mem
  rxSize : Nat
  txBuff : Mem
  txSize : Nat
  written : List (Reg × UInt8)

/-- The characters put into `UART_TX`. -/
def Port.sent (up : Port) : List UInt8 :=
  up.written.filterMap fun w => if w.1 = .tx then some w.2 else none

def serialOut (up : Port) (offset : Reg) (value : UInt8) : Port :=
  { up with written := up.written ++ [(offset, value)] }

/-- The port after `serial_omap_startup`, as far as it matters here. -/
def serialOmapStartup : Port where
  ier := UART_IER_RLSI ||| UART_IER_RDI
  rx := 0
  tx := 0
  rxBuff := fun _ => 0
  rxSize := 10
  txBuff := fun _ => 0
  txSize := 10
  written := [(.ier, UART_IER_RLSI ||| UART_IER_RDI)]

/-! ## Receiving -/

/-- `serial_omap_rdi`; `ch` is what `UART_RX` holds. -/
def serialOmapRdi (lsr : UInt32) (ch : UInt8) (up : Port) : Port :=
  if lsr &&& UART_LSR_DR = 0 then up
  else
    let rx := up.rx + 1
    { up with
      rxBuff := Function.update up.rxBuff up.rx ch
      rx := if rx ≥ up.rxSize then 0 else rx }

def serialRead (len : Nat) (up : Port) : Nat × Port :=
  let count := if up.rx < len then up.rx else len
  (count, { up with rx := up.rx - count })

/-- `my_read`: the characters copied to the user, or the error returned, and the new offset.
`faults` tells whether its `copy_to_user` fails. -/
def myRead (len : Nat) (faults : Bool) (off : Nat) (up : Port) :
    Except Int (List UInt8) × Nat × Port :=
  if off = 0 then
    let len := if len > 10 then 10 else len
    match serialRead len up with
    | (len, up) =>
      if len = 0 then (.error (-EAGAIN), off, up)
      else if faults then (.error (-EFAULT), off, up)
      else (.ok (up.rxBuff.load 0 len), off + 1, up)
  else (.ok [], off, up)

/-! ## Sending -/

def serialOmapStopTx (up : Port) : Port :=
  if up.ier &&& UART_IER_THRI ≠ 0 then
    let up := { up with ier := up.ier &&& ~~~UART_IER_THRI }
    serialOut up .ier up.ier
  else up

def transmitChars (up : Port) : Port :=
  serialOmapStopTx
    ((List.range up.tx).foldl (fun up i => serialOut up .tx (up.txBuff i)) up)

def serialOmapEnableIerThri (up : Port) : Port :=
  if up.ier &&& UART_IER_THRI = 0 then
    let up := { up with ier := up.ier ||| UART_IER_THRI }
    serialOut up .ier up.ier
  else up

def serialOmapStartTx (up : Port) : Port := serialOmapEnableIerThri up

/-- `my_write` of the user's bytes `buf`: the value returned. -/
def myWrite (buf : List UInt8) (faults : Bool) (up : Port) : Int × Port :=
  let count := if buf.length > up.txSize then up.txSize else buf.length
  let up := { up with tx := count }
  if faults then (-EFAULT, up)
  else (buf.length, serialOmapStartTx { up with txBuff := up.txBuff.store 0 count (.ofList buf) })

/-- The transmit interrupt: it is raised while `UART_IER_THRI` is set. -/
def transmitIrq (up : Port) : Port :=
  if up.ier &&& UART_IER_THRI ≠ 0 then transmitChars up else up

end LinuxDrivers.Uart
