import LinuxDrivers.DdkMem.LeftOver
import LinuxDrivers.Lib.Run

/-!
# Packets through a buffer

The character drivers of the USB directory read from an IN endpoint in packets and hand them to the
user in reads of any size. What a read does not take is moved to the start of the buffer and counted
as left over. `handOver` is the end that all their reads share; the drivers differ in where they
keep the count. `InStream` is what such a driver is for: the bytes left over and the messages to
come are one stream, and a read takes its first bytes.
-/

namespace LinuxDrivers.Usb

open Ddk (Errno)
open DdkMem (EFAULT shiftDown shiftDown_apply)

/-! ## Endpoints -/

/-- An IN endpoint: what each message on it brings, and how many messages were made. -/
structure Endpoint where
  script : Nat → Except Errno (List UInt8)
  asked : Nat

namespace Endpoint

/-- One message. -/
def receive (ep : Endpoint) : Except Errno (List UInt8) × Endpoint :=
  (ep.script ep.asked, { ep with asked := ep.asked + 1 })

/-- The bytes of a message; one that fails carries none. -/
def bytes : Except Errno (List UInt8) → List UInt8
  | .ok packet => packet
  | .error _ => []

/-- The bytes of the next `n` messages from number `start` on. -/
def packets (ep : Endpoint) (start n : Nat) : List UInt8 :=
  (List.range' start n).flatMap fun i => bytes (ep.script i)

/-- The bytes received with the messages from number `start` on. -/
def receivedSince (ep : Endpoint) (start : Nat) : List UInt8 := ep.packets start (ep.asked - start)

/-- No packet is larger than the buffer it is received into. -/
def Fits (ep : Endpoint) (size : Nat) : Prop :=
  ∀ i packet, ep.script i = .ok packet → packet.length ≤ size

theorem receivedSince_self (ep : Endpoint) : ep.receivedSince ep.asked = [] := by
  simp [receivedSince, packets]

/-- A message adds its bytes to those received. -/
theorem receivedSince_receive (ep : Endpoint) {start : Nat} (h : start ≤ ep.asked) :
    ep.receive.2.receivedSince start = ep.receivedSince start ++ bytes ep.receive.1 := by
  simp only [receivedSince, packets, receive]
  rw [show ep.asked + 1 - start = ep.asked - start + 1 by omega, List.range'_concat,
    List.flatMap_append]
  simp only [List.flatMap_cons, List.flatMap_nil, List.append_nil, Nat.one_mul]
  rw [show start + (ep.asked - start) = ep.asked by omega]

end Endpoint

/-! ## Handing bytes to the user -/

/-- The end of a read of `cnt` bytes, when `readSize` bytes stand in the buffer: the bytes copied to
the user, or `none` when `copy_to_user` faults, the buffer, and how many bytes are left over in it.
A read is of at most `MAX_RW_COUNT` bytes, so the `int` loop counter holds `cnt`. -/
def handOver (cnt : Nat) (faults : Bool) (readSize : Nat) (buf : Mem) :
    Option (List UInt8) × Mem × Nat :=
  let readCnt := if readSize ≤ cnt then readSize else cnt
  if faults then (none, buf, readSize)
  else
    (some (buf.load 0 readCnt), shiftDown cnt readSize buf,
      if cnt < readSize then readSize - cnt else 0)

/-- `handOver` takes the first `cnt` bytes and keeps the others, in their order. -/
theorem handOver_eq (cnt readSize : Nat) (buf : Mem) :
    (handOver cnt false readSize buf).1 = some ((buf.load 0 readSize).take cnt) ∧
      (handOver cnt false readSize buf).2.1.load 0 (handOver cnt false readSize buf).2.2 =
        (buf.load 0 readSize).drop cnt := by
  simp only [handOver, Bool.false_eq_true, ↓reduceIte]
  rcases Nat.lt_or_ge cnt readSize with hlt | hge
  · -- the rest of the bytes is moved to the start
    obtain ⟨n, rfl⟩ : ∃ n, readSize = cnt + n := ⟨readSize - cnt, by omega⟩
    have htail : (shiftDown cnt (cnt + n) buf).load 0 n = buf.load (0 + cnt) n := by
      apply List.map_congr_left
      intro k hk
      rw [shiftDown_apply, Nat.zero_add, Nat.zero_add, if_pos (List.mem_range.1 hk)]
    rw [if_neg (by omega), if_pos hlt, Nat.add_sub_cancel_left, htail, Mem.load_add buf 0 cnt n]
    constructor
    · rw [List.take_left' (Mem.length_load ..)]
    · rw [List.drop_left' (Mem.length_load ..)]
  · rw [if_pos hge, if_neg (by omega)]
    constructor
    · rw [List.take_of_length_le (by rw [Mem.length_load]; exact hge)]
    · rw [List.drop_of_length_le (by rw [Mem.length_load]; exact hge)]
      rfl

/-! ## The stream of an endpoint -/

/-- A read that the user makes; `faults` tells whether its `copy_to_user` fails. -/
structure Call where
  cnt : Nat
  faults : Bool

/-- What a driver owes the user of an endpoint: the bytes that are left over, and the messages to
come. -/
structure InStream where
  pending : List UInt8
  ep : Endpoint

/-- The bytes that a call returns; one that fails returns none. -/
def bytesOf : Except Int (List UInt8) → List UInt8
  | .ok bytes => bytes
  | .error _ => []

namespace InStream

/-- The first `cnt` of the bytes at hand go to the user, unless the copy faults. -/
def hand (cnt : Nat) (faults : Bool) (bytes : List UInt8) (ep : Endpoint) :
    Except Int (List UInt8) × InStream :=
  if faults then (.error (-EFAULT), ⟨bytes, ep⟩) else (.ok (bytes.take cnt), ⟨bytes.drop cnt, ep⟩)

/-- What `handOver` copies to the user and leaves in the buffer is what `hand` does to
the stream. -/
theorem hand_eq {cnt : Nat} {faults : Bool} {readSize : Nat} {buf buf' : Mem}
    {out : Option (List UInt8)} {left : Nat}
    (h : handOver cnt faults readSize buf = (out, buf', left)) (ep : Endpoint) :
    hand cnt faults (buf.load 0 readSize) ep =
      (out.elim (.error (-EFAULT)) .ok, ⟨buf'.load 0 left, ep⟩) := by
  unfold hand
  cases faults with
  | true =>
    cases h
    rfl
  | false =>
    obtain ⟨hout, hrest⟩ := handOver_eq cnt readSize buf
    rw [h] at hout hrest
    simp only at hout hrest
    subst hout
    rw [if_neg (by decide), hrest, Option.elim_some]

/-- A read of the stream: of the bytes left over, or else of the next message; `accept` says which
messages fail a read. -/
def read (accept : Except Errno (List UInt8) → Except Errno (List UInt8)) (cnt : Nat)
    (faults : Bool) (st : InStream) : Except Int (List UInt8) × InStream :=
  if st.pending ≠ [] then hand cnt faults st.pending st.ep
  else
    match accept st.ep.receive.1 with
    | .error retval => (.error retval.val, ⟨[], st.ep.receive.2⟩)
    | .ok packet => hand cnt faults packet st.ep.receive.2

/-- One read after the other. -/
def reads (accept : Except Errno (List UInt8) → Except Errno (List UInt8)) (st : InStream)
    (calls : List Call) : List (Except Int (List UInt8)) × InStream :=
  runWith (fun st call => read accept call.cnt call.faults st) st calls

/-- All bytes of the messages from number `start` on are returned or left over, and what is left
over fits in the buffer. -/
structure Delivered (start size : Nat) (returned : List UInt8) (st : InStream) : Prop where
  start_le : start ≤ st.ep.asked
  fits : st.ep.Fits size
  stream : returned ++ st.pending = st.ep.receivedSince start
  pending_le : st.pending.length ≤ size

theorem Delivered.hand {start size : Nat} {returned bytes : List UInt8} {ep : Endpoint}
    (h : Delivered start size returned ⟨bytes, ep⟩) (cnt : Nat) (faults : Bool) :
    Delivered start size (returned ++ bytesOf (InStream.hand cnt faults bytes ep).1)
      (InStream.hand cnt faults bytes ep).2 := by
  unfold InStream.hand
  cases faults with
  | true =>
    simp only [↓reduceIte, bytesOf, List.append_nil]
    exact h
  | false =>
    simp only [Bool.false_eq_true, ↓reduceIte, bytesOf]
    refine ⟨h.start_le, h.fits, ?_, ?_⟩
    · rw [List.append_assoc, List.take_append_drop]
      exact h.stream
    · exact Nat.le_trans (by simp) h.pending_le

/-- **Nothing is lost**, returned twice or reordered by a read, as long as the messages that fail it
carry no bytes. -/
theorem Delivered.read {start size : Nat} {returned : List UInt8} {st : InStream}
    {accept : Except Errno (List UInt8) → Except Errno (List UInt8)}
    (haccept : ∀ reply, Endpoint.bytes (accept reply) = Endpoint.bytes reply)
    (h : Delivered start size returned st) (cnt : Nat) (faults : Bool) :
    Delivered start size (returned ++ bytesOf (read accept cnt faults st).1)
      (read accept cnt faults st).2 := by
  unfold InStream.read
  split
  · exact h.hand cnt faults
  · next hnone =>
    have hstream := h.stream
    rw [not_not.1 hnone, List.append_nil] at hstream
    have hrecv := st.ep.receivedSince_receive h.start_le
    rw [← hstream, ← haccept] at hrecv
    have hlen : (Endpoint.bytes st.ep.receive.1).length ≤ size := by
      cases hreply : st.ep.script st.ep.asked with
      | error e =>
        simp only [Endpoint.receive, hreply, Endpoint.bytes, List.length_nil, Nat.zero_le]
      | ok packet =>
        simp only [Endpoint.receive, hreply, Endpoint.bytes]
        exact h.fits _ _ hreply
    rw [← haccept] at hlen
    have hstart : start ≤ st.ep.receive.2.asked := Nat.le_succ_of_le h.start_le
    split
    · next retval heq =>
      rw [heq] at hrecv
      exact ⟨hstart, h.fits, by simpa [bytesOf, Endpoint.bytes] using hrecv.symm, Nat.zero_le _⟩
    · next packet heq =>
      rw [heq] at hrecv hlen
      exact Delivered.hand ⟨hstart, h.fits, hrecv.symm, hlen⟩ cnt faults

/-- What one read keeps, all reads keep. -/
theorem Delivered.reads {start size : Nat} {returned : List UInt8} {st : InStream}
    {accept : Except Errno (List UInt8) → Except Errno (List UInt8)}
    (haccept : ∀ reply, Endpoint.bytes (accept reply) = Endpoint.bytes reply)
    (h : Delivered start size returned st) (calls : List Call) :
    Delivered start size (returned ++ (st.reads accept calls).1.flatMap bytesOf)
      (st.reads accept calls).2 := by
  induction calls generalizing returned st with
  | nil => simpa [InStream.reads, runWith] using h
  | cons call calls ih =>
    have htail := ih (h.read haccept call.cnt call.faults)
    simpa only [InStream.reads, runWith, List.flatMap_cons, List.append_assoc] using htail

end InStream

end LinuxDrivers.Usb
