import LinuxDrivers.Usb.LeftOver

/-!
# The USB-to-serial driver

`ddk_open` and `ddk_read` of `ddk_u2s.c`. Within one open of the device the reads hand over the
incoming packets as one stream of bytes: at every moment the bytes returned so far, followed by
those left over in `in_buf`, are the bytes received.
-/

namespace LinuxDrivers.DdkU2s

open Ddk (Errno ENODEV)
open DdkMem (EFAULT)
open Usb

/-- `struct ddk_device`, as far as its reads use it. -/
structure Device where
  /-- The mutex `m` is held by an open file. -/
  locked : Bool
  inBufSize : Nat
  inBuf : Mem
  inBufLeftOver : Nat
  /-- The endpoint `in_ep` of `device`. -/
  inEp : Endpoint

/-- `ddk_open`; there is no device when the interface of the minor number or its data is missing. -/
def ddkOpen : Option Device → Int × Option Device
  | none => (-ENODEV, none)
  | some dev =>
    if dev.locked then (-EBUSY, some dev)
    else (0, some { dev with locked := true, inBufLeftOver := 0 })

/-- The first part of `ddk_read`: how many bytes stand in `in_buf`, left over or received. -/
def fetch (dev : Device) : Except Errno Nat × Device :=
  if dev.inBufLeftOver ≠ 0 then (.ok dev.inBufLeftOver, { dev with inBufLeftOver := 0 })
  else
    match dev.inEp.receive with
    | (.error retval, ep) =>
      -- a timeout is no error: there is no data
      (if retval.val ≠ -ETIMEDOUT then .error retval else .ok 0, { dev with inEp := ep })
    | (.ok packet, ep) =>
      (.ok packet.length,
        { dev with inEp := ep, inBuf := dev.inBuf.store 0 packet.length (.ofList packet) })

/-- The second part of `ddk_read`: the bytes in `in_buf` are handed over. -/
def finish (cnt : Nat) (faults : Bool) (readSize : Nat) (dev : Device) :
    Except Int (List UInt8) × Device :=
  match handOver cnt faults readSize dev.inBuf with
  | (none, buf, left) => (.error (-EFAULT), { dev with inBuf := buf, inBufLeftOver := left })
  | (some bytes, buf, left) => (.ok bytes, { dev with inBuf := buf, inBufLeftOver := left })

/-- `ddk_read`: the bytes copied to the user, or the error returned. `faults` tells whether its
`copy_to_user` fails. -/
def ddkRead (cnt : Nat) (faults : Bool) (dev : Device) : Except Int (List UInt8) × Device :=
  match fetch dev with
  | (.error retval, dev) => (.error retval.val, dev)
  | (.ok readSize, dev) => finish cnt faults readSize dev

/-! ## One read -/

/-- The stream of the device. -/
def Device.view (dev : Device) : InStream := ⟨dev.inBuf.load 0 dev.inBufLeftOver, dev.inEp⟩

/-- A timeout counts as a packet without bytes. -/
def accept : Except Errno (List UInt8) → Except Errno (List UInt8)
  | .error retval => if retval.val ≠ -ETIMEDOUT then .error retval else .ok []
  | .ok packet => .ok packet

theorem bytes_accept (reply : Except Errno (List UInt8)) :
    Endpoint.bytes (accept reply) = Endpoint.bytes reply := by
  cases reply with
  | ok packet => rfl
  | error retval =>
    simp only [accept]
    split <;> rfl

/-- The second part is `hand` of the bytes that stand in the buffer. -/
theorem finish_view (cnt : Nat) (faults : Bool) (n : Nat) (dev : Device) :
    (finish cnt faults n dev).2.inBufSize = dev.inBufSize ∧
      ((finish cnt faults n dev).1, (finish cnt faults n dev).2.view) =
        InStream.hand cnt faults (dev.inBuf.load 0 n) dev.inEp := by
  rcases hover : handOver cnt faults n dev.inBuf with ⟨out, buf, left⟩
  rw [InStream.hand_eq hover]
  unfold finish
  rw [hover]
  cases out with
  | none => exact ⟨rfl, rfl⟩
  | some bytes => exact ⟨rfl, rfl⟩

/-- **`ddk_read`** is a read of the stream. -/
theorem ddkRead_view (cnt : Nat) (faults : Bool) (dev : Device) :
    (ddkRead cnt faults dev).2.inBufSize = dev.inBufSize ∧
      ((ddkRead cnt faults dev).1, (ddkRead cnt faults dev).2.view) =
        InStream.read accept cnt faults dev.view := by
  have hpending : dev.view.pending ≠ [] ↔ dev.inBufLeftOver ≠ 0 := by
    rw [← List.length_pos_iff, Nat.pos_iff_ne_zero, Device.view, Mem.length_load]
  unfold ddkRead fetch InStream.read
  by_cases hleft : dev.inBufLeftOver ≠ 0
  · rw [if_pos hleft, if_pos (hpending.2 hleft)]
    exact finish_view cnt faults dev.inBufLeftOver { dev with inBufLeftOver := 0 }
  · rw [if_neg hleft, if_neg fun h => hleft (hpending.1 h)]
    rcases hmsg : dev.inEp.receive with ⟨reply, ep⟩
    have hview : dev.view.ep.receive = (reply, ep) := hmsg
    rw [hview]
    cases reply with
    | error retval =>
      by_cases htime : retval.val ≠ -ETIMEDOUT
      · -- the error is returned
        simp only [accept, if_pos htime]
        refine ⟨trivial, ?_⟩
        simp only [Device.view, not_not.1 hleft]
        rfl
      · simp only [accept, if_neg htime]
        exact finish_view cnt faults 0 { dev with inEp := ep }
    | ok packet =>
      have hload : (dev.inBuf.store 0 packet.length (.ofList packet)).load 0 packet.length =
          packet := Mem.load_store_ofList _ _ _
      have hhand := finish_view cnt faults packet.length
        { dev with inEp := ep, inBuf := dev.inBuf.store 0 packet.length (.ofList packet) }
      simp only [hload] at hhand
      exact hhand

/-! ## One open -/

/-- The device answers a read. -/
def answer (dev : Device) (call : Call) : Except Int (List UInt8) × Device :=
  ddkRead call.cnt call.faults dev

/-- All reads of one open are reads of the stream. -/
theorem answers_view (dev : Device) (calls : List Call) :
    (runWith answer dev calls).1 = (dev.view.reads accept calls).1 ∧
      (runWith answer dev calls).2.view = (dev.view.reads accept calls).2 ∧
      (runWith answer dev calls).2.inBufSize = dev.inBufSize := by
  refine runWith_simulates (R := fun (d : Device) st => d.view = st ∧ d.inBufSize = dev.inBufSize)
    (V := fun _ => True) ?_ ⟨rfl, rfl⟩ fun _ _ => trivial
  rintro d st call ⟨rfl, hd⟩ -
  obtain ⟨hsize, hread⟩ := ddkRead_view call.cnt call.faults d
  obtain ⟨hout, hview⟩ := Prod.mk.inj hread
  exact ⟨hout, hview, hsize.trans hd⟩

/-- The stream of a device that has just been opened. -/
theorem delivered_open {dev dev' : Device} (hopen : ddkOpen (some dev) = (0, some dev'))
    (hfits : dev.inEp.Fits dev.inBufSize) :
    dev'.inBufSize = dev.inBufSize ∧ dev'.view.Delivered dev.inEp.asked dev.inBufSize [] := by
  simp only [ddkOpen] at hopen
  split at hopen
  · exact absurd (Prod.mk.inj hopen).1 (by decide)
  · obtain rfl := Option.some.inj (Prod.mk.inj hopen).2
    exact ⟨rfl, Nat.le_refl _, hfits, (dev.inEp.receivedSince_self).symm, Nat.zero_le _⟩

/-- **The stream.** From the moment `ddk_open` succeeds, the bytes returned by any reads, followed
by the bytes left over, are the bytes received since, and they fit in the buffer. -/
theorem stream_delivered {dev dev' : Device} (hopen : ddkOpen (some dev) = (0, some dev'))
    (hfits : dev.inEp.Fits dev.inBufSize) (calls : List Call) :
    let r := runWith answer dev' calls
    r.1.flatMap bytesOf ++ r.2.inBuf.load 0 r.2.inBufLeftOver =
        r.2.inEp.receivedSince dev.inEp.asked ∧
      r.2.inBufLeftOver ≤ r.2.inBufSize := by
  intro r
  obtain ⟨hsize, hinit⟩ := delivered_open hopen hfits
  obtain ⟨hout, hview, hkept⟩ := answers_view dev' calls
  have hdel := hinit.reads bytes_accept calls
  rw [← hout, ← hview, List.nil_append] at hdel
  refine ⟨hdel.stream, ?_⟩
  have hle := hdel.pending_le
  rw [Device.view, Mem.length_load] at hle
  rw [hkept, hsize]
  exact hle

/-- A device with a packet of three bytes, a timeout and a packet of one byte to deliver. -/
def threeAndOne : Device where
  locked := false
  inBufSize := 4
  inBuf := fun _ => 0
  inBufLeftOver := 2
  inEp.script i := if i = 0 then .ok [1, 2, 3] else if i = 1 then .error ⟨-ETIMEDOUT, by decide⟩
    else if i = 2 then .ok [4] else .ok []
  inEp.asked := 0

theorem threeAndOne_fits : threeAndOne.inEp.Fits 4 := by
  intro i packet h
  simp only [threeAndOne] at h
  split at h
  · cases h
    decide
  · split at h
    · cases h
    · split at h
      · cases h
        decide
      · cases h
        decide

/-- A short read, one whose copy faults, and reads of the rest. -/
theorem stream_delivered_threeAndOne :
    let dev := { threeAndOne with locked := true, inBufLeftOver := 0 }
    let r := runWith answer dev [⟨2, false⟩, ⟨8, true⟩, ⟨8, false⟩, ⟨0, false⟩, ⟨5, false⟩]
    ddkOpen (some threeAndOne) = (0, some dev) ∧
      (r.1.flatMap bytesOf = [1, 2, 3, 4] ∧ r.2.inBufLeftOver = 0) ∧
      r.1.flatMap bytesOf ++ r.2.inBuf.load 0 r.2.inBufLeftOver =
        r.2.inEp.receivedSince threeAndOne.inEp.asked ∧
      r.2.inBufLeftOver ≤ r.2.inBufSize :=
  ⟨rfl, by decide +kernel, @stream_delivered threeAndOne _ rfl threeAndOne_fits _⟩

end LinuxDrivers.DdkU2s
