import LinuxDrivers.Usb.DdkU2s

/-!
# Sending in pieces

`ddk_write` of `ddk_u2s.c` and of `ddk_mem.c`. Both send the user's bytes in messages of at most
`out_buf_size` bytes and go on behind what the device has accepted, which may be less than it was
offered. The count of the bytes sent is an `int`, that of the bytes to send a `size_t`, and the two
are compared and subtracted as `size_t`. The VFS cuts every write to `MAX_RW_COUNT` bytes.
-/

namespace LinuxDrivers.Usb

open Ddk (Errno)
open DdkMem (EFAULT EFAULT_pos Failure)

/-- `usb_interrupt_msg` with bytes to send: how many of them were sent. -/
abbrev Send (σ : Type) := List UInt8 → σ → Except Errno Nat × σ

/-- `MAX_RW_COUNT`, the largest count of a call. -/
def maxRwCount : Nat := 2 ^ 31 - 4096

section

variable {σ : Type}

/-! ## The loop -/

/-- The conversion of an `int` to `size_t`. -/
def sizeOfInt (n : Int32) : UInt64 := .ofInt n.toInt

/-- `write_size`: the minimum is taken as `size_t` and stored in an `int`. -/
def writeSize (outBufSize : Int32) (cnt : UInt64) (wroteCnt : Int32) : Int32 :=
  let rest := cnt - sizeOfInt wroteCnt
  let size := if sizeOfInt outBufSize < rest then sizeOfInt outBufSize else rest
  .ofInt size.toNat

/-- The loop of both functions, `wroteCnt` bytes being sent, for so many turns. The user's buffer
has `mapped` bytes that can be copied. -/
def sendLoop (send : Send σ) (outBufSize : Int32) (data : List UInt8) (mapped : Nat) :
    Nat → Int32 → Mem → σ → Except Failure Int32 × Mem × σ
  | 0, wroteCnt, outBuf, s =>
    (if sizeOfInt wroteCnt < .ofNat data.length then .error .waiting else .ok wroteCnt, outBuf, s)
  | turns + 1, wroteCnt, outBuf, s =>
    if sizeOfInt wroteCnt < .ofNat data.length then
      let start := wroteCnt.toInt.toNat
      let size := (writeSize outBufSize (.ofNat data.length) wroteCnt).toInt.toNat
      if mapped < start + size then (.error (.code EFAULT EFAULT_pos), outBuf, s)
      else
        let outBuf := outBuf.store 0 size (.ofList (data.drop start))
        match send (outBuf.load 0 size) s with
        | (.error e, s) => (.error (.errno e), outBuf, s)
        | (.ok wroteSize, s) =>
          sendLoop send outBufSize data mapped turns (wroteCnt + .ofNat wroteSize) outBuf s
    else (.ok wroteCnt, outBuf, s)

/-! ## One turn -/

section Turn

variable {data : List UInt8} {wroteCnt : Int32} {k : Nat}

theorem toNat_sizeOfInt {n : Int32} {k : Nat} (h : n.toInt = k) : (sizeOfInt n).toNat = k := by
  have hlt := n.toInt_lt
  unfold sizeOfInt UInt64.ofInt
  rw [UInt64.toNat_ofNat', h]
  omega

theorem toNat_length (hlen : data.length ≤ maxRwCount) :
    (UInt64.ofNat data.length).toNat = data.length := by
  unfold maxRwCount at hlen
  rw [UInt64.toNat_ofNat']
  omega

/-- The comparison is that of the numbers. -/
theorem sizeOfInt_lt_iff (hlen : data.length ≤ maxRwCount) (hk : wroteCnt.toInt = k) :
    sizeOfInt wroteCnt < .ofNat data.length ↔ k < data.length := by
  rw [UInt64.lt_iff_toNat_lt, toNat_sizeOfInt hk, toNat_length hlen]

/-- So is the minimum. -/
theorem writeSize_eq {outBufSize : Int32} (hlen : data.length ≤ maxRwCount)
    (hk : wroteCnt.toInt = k) (hlt : k < data.length) (hout : 0 ≤ outBufSize.toInt) :
    (writeSize outBufSize (.ofNat data.length) wroteCnt).toInt.toNat =
      min outBufSize.toInt.toNat (data.length - k) := by
  have hsize := toNat_sizeOfInt (Int.toNat_of_nonneg hout).symm
  have hrest : (UInt64.ofNat data.length - sizeOfInt wroteCnt).toNat = data.length - k := by
    have hcnt := (UInt64.ofNat data.length).toNat_lt
    rw [toNat_length hlen] at hcnt
    rw [UInt64.toNat_sub, toNat_sizeOfInt hk, toNat_length hlen]
    omega
  have hmax := outBufSize.toInt_lt
  unfold maxRwCount at hlen
  unfold writeSize
  simp only [UInt64.lt_iff_toNat_lt, hsize, hrest]
  split
  · rw [hsize, Int32.toInt_ofInt_of_le (by omega) (by omega)]
    omega
  · rw [hrest, Int32.toInt_ofInt_of_le (by omega) (by omega)]
    omega

/-- **One turn** offers the device the next bytes and goes on behind those that it took. -/
theorem sendLoop_turn (send : Send σ) {outBufSize : Int32} (mapped : Nat)
    (hlen : data.length ≤ maxRwCount) (hout : 0 ≤ outBufSize.toInt) (hk : wroteCnt.toInt = k)
    (hlt : k < data.length) (turns : Nat) (outBuf : Mem) (s : σ) :
    ∃ outBuf', sendLoop send outBufSize data mapped (turns + 1) wroteCnt outBuf s =
      if mapped < k + min outBufSize.toInt.toNat (data.length - k) then
        (.error (.code EFAULT EFAULT_pos), outBuf, s)
      else
        match send ((data.drop k).take (min outBufSize.toInt.toNat (data.length - k))) s with
        | (.error e, s) => (.error (.errno e), outBuf', s)
        | (.ok wroteSize, s) =>
          sendLoop send outBufSize data mapped turns (wroteCnt + .ofNat wroteSize) outBuf' s := by
  have hstart : wroteCnt.toInt.toNat = k := by omega
  have hload : ∀ n ≤ data.length - k,
      (outBuf.store 0 n (.ofList (data.drop k))).load 0 n = (data.drop k).take n := by
    intro n hn
    exact Mem.load_store_take outBuf 0 (by rw [List.length_drop]; exact hn)
  refine ⟨outBuf.store 0 (min outBufSize.toInt.toNat (data.length - k)) (.ofList (data.drop k)), ?_⟩
  rw [sendLoop]
  simp only [sizeOfInt_lt_iff hlen hk, writeSize_eq hlen hk hlt hout, hstart]
  rw [if_pos hlt, hload _ (by omega)]

theorem sendLoop_done (send : Send σ) {outBufSize : Int32} {mapped : Nat}
    (hlen : data.length ≤ maxRwCount) (hk : wroteCnt.toInt = k) (hge : data.length ≤ k)
    (turns : Nat) (outBuf : Mem) (s : σ) :
    sendLoop send outBufSize data mapped turns wroteCnt outBuf s = (.ok wroteCnt, outBuf, s) := by
  have hnot : ¬ k < data.length := by omega
  cases turns with
  | zero => simp only [sendLoop, sizeOfInt_lt_iff hlen hk, hnot, ↓reduceIte]
  | succ turns => simp only [sendLoop, sizeOfInt_lt_iff hlen hk, hnot, ↓reduceIte]

/-- Nothing is sent at the start. -/
theorem toInt_zero : (0 : Int32).toInt = ((0 : Nat) : Int) := rfl

/-- The count of the bytes sent does not overflow. -/
theorem toInt_add_sent (hlen : data.length ≤ maxRwCount) (hk : wroteCnt.toInt = k) {n : Nat}
    (hle : k + n ≤ data.length) : (wroteCnt + .ofNat n).toInt = (k + n : Nat) := by
  unfold maxRwCount at hlen
  rw [Int32.toInt_add, hk, Int32.toInt_ofNat_of_lt (by omega),
    Int.bmod_eq_of_le (by omega) (by omega)]
  omega

end Turn

/-! ## The whole loop -/

/-- The device takes at least one of the bytes that it is offered. -/
def Accepts (send : Send σ) : Prop :=
  ∀ packet s, packet ≠ [] → ∃ n s', send packet s = (.ok n, s') ∧ 1 ≤ n ∧ n ≤ packet.length

/-- **The loop.** A device that takes some of the bytes of every message gets all of them: the loop
ends, and what every message keeps, with `k` bytes sent so far, holds at its end. -/
theorem sendLoop_rule {send : Send σ} (hsend : Accepts send) {outBufSize : Int32}
    (hout : 1 ≤ outBufSize.toInt) {data : List UInt8} (hlen : data.length ≤ maxRwCount)
    {mapped : Nat} (hmapped : data.length ≤ mapped) {I : Nat → σ → Prop}
    (hstep : ∀ {k size s n s'}, I k s → send ((data.drop k).take size) s = (.ok n, s') →
      n ≤ size → k + n ≤ data.length → I (k + n) s')
    {turns k : Nat} {wroteCnt : Int32} {s : σ} (outBuf : Mem) (hk : wroteCnt.toInt = k)
    (hle : k ≤ data.length) (hturns : data.length ≤ k + turns) (hs : I k s) :
    ∃ sent outBuf' s', sendLoop send outBufSize data mapped turns wroteCnt outBuf s =
      (.ok sent, outBuf', s') ∧ sent.toInt = data.length ∧ I data.length s' := by
  induction turns generalizing k wroteCnt s outBuf with
  | zero =>
    obtain rfl : k = data.length := by omega
    exact ⟨_, _, _, sendLoop_done send hlen hk (Nat.le_refl _) 0 outBuf s, hk, hs⟩
  | succ turns ih =>
    rcases Nat.lt_or_ge k data.length with hlt | hge
    · have hout' : 0 ≤ outBufSize.toInt := by omega
      obtain ⟨outBuf', hturn⟩ := sendLoop_turn send mapped hlen hout' hk hlt turns outBuf s
      have hsize : ((data.drop k).take (min outBufSize.toInt.toNat (data.length - k))).length =
          min outBufSize.toInt.toNat (data.length - k) := by
        rw [List.length_take, List.length_drop]
        omega
      obtain ⟨n, s', hmsg, hpos, hn⟩ := hsend _ s (List.ne_nil_of_length_pos (by omega :
        0 < ((data.drop k).take (min outBufSize.toInt.toNat (data.length - k))).length))
      rw [hsize] at hn
      rw [hturn, if_neg (by omega), hmsg]
      exact ih outBuf' (toInt_add_sent hlen hk (by omega)) (by omega) (by omega)
        (hstep hs hmsg hn (by omega))
    · obtain rfl : k = data.length := by omega
      exact ⟨_, _, _, sendLoop_done send hlen hk (Nat.le_refl _) _ outBuf s, hk, hs⟩

/-- The messages of a device, with the bytes that it has taken so far. -/
def logged (send : Send σ) : Send (σ × List UInt8) := fun packet t =>
  match send packet t.1 with
  | (.error e, s) => (.error e, (s, t.2))
  | (.ok n, s) => (.ok n, (s, t.2 ++ packet.take n))

theorem logged_ok {send : Send σ} {packet : List UInt8} {t t' : σ × List UInt8} {n : Nat}
    (h : logged send packet t = (.ok n, t')) :
    send packet t.1 = (.ok n, t'.1) ∧ t'.2 = t.2 ++ packet.take n := by
  unfold logged at h
  rcases hmsg : send packet t.1 with ⟨e | m, s⟩
  · rw [hmsg] at h
    cases h
  · rw [hmsg] at h
    cases h
    exact ⟨rfl, rfl⟩

theorem Accepts.logged {send : Send σ} (h : Accepts send) : Accepts (logged send) := by
  intro packet t hne
  obtain ⟨n, s', hmsg, hpos, hn⟩ := h packet t.1 hne
  refine ⟨n, (s', t.2 ++ packet.take n), ?_, hpos, hn⟩
  unfold Usb.logged
  rw [hmsg]

/-- The bytes taken from a message are the next ones of the data. -/
theorem take_append_message {data taken log : List UInt8} {k n size : Nat}
    (h : taken = log ++ data.take k) (hn : n ≤ size) :
    taken ++ ((data.drop k).take size).take n = log ++ data.take (k + n) := by
  rw [h, List.take_take, Nat.min_eq_left hn, List.take_add, List.append_assoc]

end

end LinuxDrivers.Usb

/-! ## The USB-to-serial driver -/

namespace LinuxDrivers.DdkU2s

open Usb

/-- `ddk_write` of `ddk_u2s.c`. -/
def ddkWrite {σ : Type} (send : Send σ) (outBufSize : Int32) (data : List UInt8)
    (mapped turns : Nat) (outBuf : Mem) (s : σ) : Except DdkMem.Failure Int32 × Mem × σ :=
  sendLoop send outBufSize data mapped turns 0 outBuf s

end LinuxDrivers.DdkU2s

/-! ## The memory driver -/

namespace LinuxDrivers.DdkMem

open Ddk (Dir Errno)
open Usb

variable {σ : Type}

/-- `ddk_write` of `ddk_mem.c`, with its `int` count and its buffer. -/
def ddkWriteInt (dev : Dev σ) (data : List UInt8) (mapped turns : Nat) (outBuf : Mem)
    (f : File σ) : Except Failure Int32 × File σ :=
  withOff dev .write f.fPos f fun f =>
    match sendLoop dev.interruptOut (.ofNat dev.outBufSize) data mapped turns 0 outBuf f.usb with
    | (.error e, _, s) => (.error e, { f with usb := s })
    | (.ok wroteCnt, _, s) =>
      let off := f.fPos + wroteCnt.toInt.toNat
      withOff dev .read off { f with usb := s, fPos := off } fun f => (.ok wroteCnt, f)

/-- **The `int` count** is that of the numbers, as long as the device takes no more than it is
offered. -/
theorem sendLoop_eq {dev : Dev σ}
    (hsent : ∀ packet s n s', dev.interruptOut packet s = (.ok n, s') → n ≤ packet.length)
    (hout : dev.outBufSize < 2 ^ 31) {data : List UInt8} (hlen : data.length ≤ maxRwCount)
    (mapped turns : Nat) {k : Nat} {wroteCnt : Int32} (hk : wroteCnt.toInt = k)
    (hle : k ≤ data.length) (outBuf : Mem) (s : σ) :
    (∀ n, (writeLoop dev data mapped turns k s).1 = .ok n → n ≤ data.length) ∧
    ∃ outBuf',
      sendLoop dev.interruptOut (.ofNat dev.outBufSize) data mapped turns wroteCnt outBuf s =
        ((writeLoop dev data mapped turns k s).1.map .ofNat, outBuf',
          (writeLoop dev data mapped turns k s).2) := by
  have hsize : (Int32.ofNat dev.outBufSize).toInt = dev.outBufSize := Int32.toInt_ofNat_of_lt hout
  have hdone : wroteCnt = .ofNat k := by
    apply Int32.toInt_inj.1
    unfold maxRwCount at hlen
    rw [hk, Int32.toInt_ofNat_of_lt (by omega)]
  have hok : ∀ n, (.ok k : Except Failure Nat) = .ok n → n ≤ data.length := by
    rintro n ⟨⟩
    exact hle
  induction turns generalizing k wroteCnt outBuf s with
  | zero =>
    simp only [sendLoop, writeLoop, sizeOfInt_lt_iff hlen hk]
    split
    · exact ⟨fun n hn => (by cases hn), outBuf, rfl⟩
    · exact ⟨hok, outBuf, by rw [hdone]; rfl⟩
  | succ turns ih =>
    rcases Nat.lt_or_ge k data.length with hlt | hge
    · obtain ⟨outBuf', hturn⟩ := sendLoop_turn dev.interruptOut mapped hlen (by omega :
        0 ≤ (Int32.ofNat dev.outBufSize).toInt) hk hlt turns outBuf s
      rw [hsize, Int.toNat_natCast] at hturn
      rw [hturn, writeLoop]
      simp only [hlt, ↓reduceIte]
      split
      · exact ⟨fun n hn => (by cases hn), outBuf, rfl⟩
      · rcases hmsg : dev.interruptOut ((data.drop k).take (min dev.outBufSize (data.length - k))) s
          with ⟨e | n, s'⟩
        · exact ⟨fun n hn => (by cases hn), outBuf', rfl⟩
        · have hn := hsent _ _ _ _ hmsg
          rw [List.length_take, List.length_drop] at hn
          have hnext : k + n ≤ data.length := by omega
          refine ih (toInt_add_sent hlen hk hnext) hnext outBuf' s' ?_ ?_
          · rw [hdone, Int32.ofNat_add]
          · rintro m ⟨⟩
            exact hnext
    · rw [sendLoop_done dev.interruptOut hlen hk hge, writeLoop]
      simp only [Nat.not_lt.2 hge, ↓reduceIte]
      exact ⟨hok, outBuf, by rw [hdone]; rfl⟩

/-- The function with the `int` count is `ddkWrite`. -/
theorem ddkWriteInt_eq {dev : Dev σ}
    (hsent : ∀ packet s n s', dev.interruptOut packet s = (.ok n, s') → n ≤ packet.length)
    (hout : dev.outBufSize < 2 ^ 31) {data : List UInt8} (hlen : data.length ≤ maxRwCount)
    (mapped turns : Nat) (outBuf : Mem) (f : File σ) :
    ddkWriteInt dev data mapped turns outBuf f =
      ((ddkWrite dev data mapped turns f).1.map .ofNat, (ddkWrite dev data mapped turns f).2) := by
  unfold ddkWriteInt ddkWrite withOff
  rcases setOff dev .write f.fPos f.usb with ⟨e | _, s₁⟩
  · rfl
  · obtain ⟨hle, outBuf', hloop⟩ := sendLoop_eq hsent hout hlen mapped turns toInt_zero
      (Nat.zero_le _) outBuf s₁
    simp only [hloop]
    rcases hnat : writeLoop dev data mapped turns 0 s₁ with ⟨e | n, s₂⟩
    · rfl
    · rw [hnat] at hle
      have hn := hle n rfl
      have hint : (Int32.ofNat n).toInt.toNat = n := by
        unfold maxRwCount at hlen
        rw [Int32.toInt_ofNat_of_lt (by omega), Int.toNat_natCast]
      simp only [Except.map, hint]
      rcases setOff dev .read (f.fPos + n) s₂ with ⟨e | _, s₃⟩
      · rfl
      · rfl

/-- The device, with the bytes that it has taken so far. -/
def Dev.logged (dev : Dev σ) : Dev (σ × List UInt8) where
  inBufSize := dev.inBufSize
  outBufSize := dev.outBufSize
  controlSet dir value t :=
    ((dev.controlSet dir value t.1).1, (dev.controlSet dir value t.1).2, t.2)
  controlGet dir t := ((dev.controlGet dir t.1).1, (dev.controlGet dir t.1).2, t.2)
  controlSize t := ((dev.controlSize t.1).1, (dev.controlSize t.1).2, t.2)
  interruptIn len t := ((dev.interruptIn len t.1).1, (dev.interruptIn len t.1).2, t.2)
  interruptOut := Usb.logged dev.interruptOut

/-- `set_off` then succeeds, whatever stands behind it. -/
theorem withOff_logged {dev : Dev σ} (hset : SetsOffsets dev) (dir : Dir) (offset : Nat)
    (f : File (σ × List UInt8)) :
    ∃ n s', dev.controlSet dir (.ofNat offset) f.usb.1 = (.ok n, s') ∧
      ∀ {α : Type} (rest : File (σ × List UInt8) → Except Failure α × File (σ × List UInt8)),
        withOff dev.logged dir offset f rest = rest { f with usb := (s', f.usb.2) } := by
  obtain ⟨n, s', h⟩ := hset dir (.ofNat offset) f.usb.1
  refine ⟨n, s', h, fun rest => ?_⟩
  simp only [withOff, setOff, Dev.logged, h]

/-- A message stored behind the first `k` bytes of the data. -/
theorem store_message (m : Mem) (pos : Nat) (data : List UInt8) {k n size : Nat} (hn : n ≤ size) :
    (m.store pos k (.ofList data)).store (pos + k) n (.ofList ((data.drop k).take size)) =
      m.store pos (k + n) (.ofList data) := by
  have hbytes : ∀ j < n, Mem.ofList ((data.drop k).take size) j = (Mem.ofList data).window k j := by
    intro j hj
    simp only [Mem.window_apply, Mem.ofList, List.getD_eq_getElem?_getD]
    rw [List.getElem?_take_of_lt (by omega), List.getElem?_drop]
  rw [Mem.store_congr hbytes, Mem.store_store_append]

/-- With `k` bytes sent, the device has taken them, and it has stored them as long as its 16-bit
offset does not wrap. -/
structure Sent (view : σ → DevMem) (mem : Mem) (pos : Nat) (data log : List UInt8) (k : Nat)
    (t : σ × List UInt8) : Prop where
  taken : t.2 = log ++ data.take k
  stored : pos + data.length ≤ 32767 → (view t.1).wrOff.toNat = pos + k ∧
    (view t.1).mem = mem.store pos k (.ofList data)

theorem Sent.step {dev : Dev σ} {view : σ → DevMem} (hdev : Serves dev view) {mem : Mem} {pos : Nat}
    {data log : List UInt8} {k n size : Nat} {t t' : σ × List UInt8}
    (h : Sent view mem pos data log k t)
    (hmsg : Usb.logged dev.interruptOut ((data.drop k).take size) t = (.ok n, t')) (hn : n ≤ size)
    (hle : k + n ≤ data.length) : Sent view mem pos data log (k + n) t' := by
  obtain ⟨hsend, htaken⟩ := logged_ok hmsg
  obtain ⟨-, hview⟩ := hdev.out_ok hsend
  refine ⟨htaken.trans (take_append_message h.taken hn), fun hin => ?_⟩
  obtain ⟨hoff, hmem⟩ := h.stored hin
  rw [hview]
  constructor
  · simp only [UInt16.toNat_add, UInt16.toNat_ofNat', hoff]
    omega
  · simp only [hoff, hmem]
    exact store_message mem pos data hn

/-- **`ddk_write`** of the memory driver. -/
theorem ddkWriteInt_sent {dev : Dev σ} {view : σ → DevMem} (hdev : Serves dev view)
    (hset : SetsOffsets dev) (hsend : Accepts dev.interruptOut)
    (hout : 1 ≤ dev.outBufSize ∧ dev.outBufSize < 2 ^ 31) {data : List UInt8}
    (hlen : data.length ≤ maxRwCount) {mapped turns : Nat} (hmapped : data.length ≤ mapped)
    (hturns : data.length ≤ turns) (outBuf : Mem) (f : File (σ × List UInt8)) :
    ∃ sent f', ddkWriteInt dev.logged data mapped turns outBuf f = (.ok sent, f') ∧
      sent.toInt = data.length ∧ f'.usb.2 = f.usb.2 ++ data ∧ f'.fPos = f.fPos + data.length ∧
      (f.fPos + data.length ≤ 32767 →
        (view f'.usb.1).mem = (view f.usb.1).mem.store f.fPos data.length (.ofList data)) := by
  unfold ddkWriteInt
  obtain ⟨_, s₁, hfirst, hrun⟩ := withOff_logged hset .write f.fPos f
  rw [hrun]
  have hview := hdev.set_ok hfirst
  have hstart : Sent view (view f.usb.1).mem f.fPos data f.usb.2 0 (s₁, f.usb.2) := by
    refine ⟨by simp, fun hin => ?_⟩
    rw [hview, DevMem.setOff_mem]
    refine ⟨?_, ?_⟩
    · change (UInt16.ofNat f.fPos).toNat = f.fPos + 0
      rw [UInt16.toNat_ofNat']
      omega
    · funext x
      exact (Mem.store_of_not_mem (by omega)).symm
  have hsize : 1 ≤ (Int32.ofNat dev.outBufSize).toInt := by
    rw [Int32.toInt_ofNat_of_lt hout.2]
    omega
  obtain ⟨sent, outBuf', ⟨s₂, log⟩, hloop, hsent, hend⟩ := sendLoop_rule hsend.logged hsize hlen
    hmapped (I := Sent view (view f.usb.1).mem f.fPos data f.usb.2)
    (fun h hmsg hn hle => h.step hdev hmsg hn hle) outBuf toInt_zero (Nat.zero_le _)
    (Nat.le_trans hturns (Nat.le_add_left _ 0)) hstart
  have hloop' : sendLoop dev.logged.interruptOut (.ofNat dev.logged.outBufSize) data mapped turns 0
      outBuf (s₁, f.usb.2) = (.ok sent, outBuf', (s₂, log)) := hloop
  simp only [hloop']
  obtain ⟨_, s₃, hsecond, hrun'⟩ := withOff_logged hset .read (f.fPos + sent.toInt.toNat)
    { f with usb := (s₂, log), fPos := f.fPos + sent.toInt.toNat }
  rw [hrun']
  have htake := hend.taken
  rw [List.take_length] at htake
  refine ⟨sent, _, rfl, hsent, htake, ?_, fun hin => ?_⟩
  · simp only [hsent, Int.toNat_natCast]
  · have hview' := hdev.set_ok hsecond
    simp only [hview', DevMem.setOff_mem]
    exact (hend.stored hin).2

end LinuxDrivers.DdkMem

namespace LinuxDrivers.Usb

open DdkMem

/-- **Exactly once.** Both functions end, return the number of the user's bytes, and the device
takes these bytes once and in order, whatever part of each message it takes. The memory driver moves
the position behind them, and below 32768 they are stored at the position. -/
theorem ddkWrite_exactlyOnce {data : List UInt8} (hlen : data.length ≤ maxRwCount) {turns : Nat}
    (hturns : data.length ≤ turns) (outBuf : Mem) {σ : Type} :
    (∀ (send : Send σ) (outBufSize : Int32) (s : σ), Accepts send → 1 ≤ outBufSize.toInt →
      ∃ sent outBuf' s',
        DdkU2s.ddkWrite (logged send) outBufSize data data.length turns outBuf (s, []) =
          (.ok sent, outBuf', (s', data)) ∧ sent.toInt = data.length) ∧
    (∀ (dev : Dev σ) (view : σ → DevMem) (f : File (σ × List UInt8)), Serves dev view →
      SetsOffsets dev → Accepts dev.interruptOut → 1 ≤ dev.outBufSize → dev.outBufSize < 2 ^ 31 →
      f.usb.2 = [] →
      ∃ sent f', ddkWriteInt dev.logged data data.length turns outBuf f = (.ok sent, f') ∧
        sent.toInt = data.length ∧ f'.usb.2 = data ∧ f'.fPos = f.fPos + data.length ∧
        (f.fPos + data.length ≤ 32767 →
          (view f'.usb.1).mem = (view f.usb.1).mem.store f.fPos data.length (.ofList data))) := by
  constructor
  · intro send outBufSize s hsend hout
    obtain ⟨sent, outBuf', ⟨s', log⟩, hloop, hsent, htaken⟩ := sendLoop_rule hsend.logged hout hlen
      (Nat.le_refl _) (I := fun k t => t.2 = data.take k)
      (fun {_ _ _ _ _} h hmsg hn _ => (logged_ok hmsg).2.trans
        (take_append_message (h.trans (List.nil_append _).symm) hn)) outBuf toInt_zero
      (Nat.zero_le _) (Nat.le_trans hturns (Nat.le_add_left _ 0))
      (by simp : ((s, []) : σ × List UInt8).2 = data.take 0)
    rw [List.take_length] at htaken
    simp only at htaken
    subst htaken
    exact ⟨sent, outBuf', s', hloop, hsent⟩
  · intro dev view f hdev hset hsend hout hmax hlog
    obtain ⟨sent, f', hrun, hsent, htaken, hrest⟩ := ddkWriteInt_sent hdev hset hsend ⟨hout, hmax⟩
      hlen (Nat.le_refl _) hturns outBuf f
    rw [hlog, List.nil_append] at htaken
    exact ⟨sent, f', hrun, hsent, htaken, hrest⟩

/-- A device that takes at most two bytes of a message; its state counts the messages. -/
def atMostTwo : Send Nat := fun packet s => (.ok (min 2 packet.length), s + 1)

theorem atMostTwo_accepts : Accepts atMostTwo := by
  intro packet s hne
  have hpos := List.length_pos_iff.2 hne
  exact ⟨_, _, rfl, by omega, by omega⟩

/-- The device of eight-byte packets, which takes at most two bytes of each. -/
def twoByteDev : Dev DevMem :=
  { wholeDev with
    interruptOut := fun packet d => (.ok (min 2 packet.length),
      { d with
        mem := d.mem.store d.wrOff.toNat (min 2 packet.length) (.ofList packet)
        wrOff := d.wrOff + .ofNat (min 2 packet.length) }) }

theorem twoByteDev_serves : Serves twoByteDev id where
  set_ok := wholeDev_serves.set_ok
  get_ok := wholeDev_serves.get_ok
  size_ok := wholeDev_serves.size_ok
  in_ok := wholeDev_serves.in_ok
  out_ok h := by
    cases h
    exact ⟨Nat.min_le_right _ _, rfl⟩

theorem twoByteDev_accepts : Accepts twoByteDev.interruptOut := by
  intro packet d hne
  have hpos := List.length_pos_iff.2 hne
  exact ⟨_, _, rfl, by omega, by omega⟩

/-- Five bytes in messages of three and of eight, of which two are taken. -/
theorem ddkWrite_exactlyOnce_twoBytes :
    (∃ sent outBuf' s',
      DdkU2s.ddkWrite (logged atMostTwo) 3 [1, 2, 3, 4, 5] 5 5 (fun _ => 0) (0, []) =
        (.ok sent, outBuf', (s', [1, 2, 3, 4, 5])) ∧ sent.toInt = 5) ∧
      ∃ sent f', ddkWriteInt twoByteDev.logged [1, 2, 3, 4, 5] 5 5 (fun _ => 0)
          ⟨(sixteen, []), fun _ => 0, 0, 7⟩ = (.ok sent, f') ∧ sent.toInt = 5 ∧
        f'.usb.2 = [1, 2, 3, 4, 5] ∧ f'.fPos = 12 ∧
        f'.usb.1.mem = sixteen.mem.store 7 5 (.ofList [1, 2, 3, 4, 5]) := by
  have hlen : ([1, 2, 3, 4, 5] : List UInt8).length ≤ maxRwCount := by decide
  have hturns : ([1, 2, 3, 4, 5] : List UInt8).length ≤ 5 := by decide
  obtain ⟨hserial, -⟩ := ddkWrite_exactlyOnce hlen hturns (fun _ => 0) (σ := Nat)
  obtain ⟨-, hmem⟩ := ddkWrite_exactlyOnce hlen hturns (fun _ => 0) (σ := DevMem)
  refine ⟨hserial atMostTwo 3 0 atMostTwo_accepts (by decide), ?_⟩
  obtain ⟨sent, f', hrun, hsent, htaken, hpos, hstored⟩ := hmem twoByteDev id
    ⟨(sixteen, []), fun _ => 0, 0, 7⟩ twoByteDev_serves (fun _ _ _ => ⟨_, _, rfl⟩)
    twoByteDev_accepts (by decide) (by decide) rfl
  exact ⟨sent, f', hrun, hsent, htaken, hpos, hstored (by decide)⟩

end LinuxDrivers.Usb
