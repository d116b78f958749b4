import LinuxDrivers.Ddk.Complete
import LinuxDrivers.Lib.Run
import LinuxDrivers.Lib.Sectors
import LinuxDrivers.Ram.Block

/-!
# Both block drivers are sector arrays

An ideal DDK device takes every packet whole. Over such a device `ddk_transfer` does to the device
memory, packet by packet, what `rb_transfer` does to its array with one `memcpy` per segment, and
both do what a request asks of an array of sectors, however the request is split into segments.
-/

namespace LinuxDrivers.Ddk

open Ram (rbSegments rbTransfer rbDeviceSize ramdeviceRead ramdeviceWrite)

/-! ## The ideal device -/

/-- A DDK device: its memory, the size it reports and its two offsets. -/
structure Ideal where
  mem : Mem
  size : UInt16
  rdOff : UInt16
  wrOff : UInt16

/-- Offsets are set by the control requests, and every packet is moved whole. -/
def idealUsb : Usb Ideal where
  present d := (true, d)
  controlOut rq value d := (.ok 0,
    if rq = rqSetMemRdOffset then { d with rdOff := value }
    else if rq = rqSetMemWrOffset then { d with wrOff := value }
    else d)
  controlIn rq d := ((2, if rq = rqGetMemSize then d.size else 0), d)
  interruptOut packet d := (.ok 8,
    { d with mem := d.mem.store d.wrOff.toNat 8 (.ofList packet), wrOff := d.wrOff + 8 })
  interruptIn d := (.ok ⟨d.mem.load d.rdOff.toNat 8, by simp⟩, { d with rdOff := d.rdOff + 8 })

/-- `ddk_storage_init` succeeds for sizes that are positive as a `short`. -/
theorem ddkStorageInit_ideal {d : Ideal} {cap : Nat} (h : (ddkStorageInit idealUsb d).1 = cap) :
    cap = d.size.toNat / 512 ∧ d.size.toNat < 32768 := by
  have hsize : d.size.toInt16.toInt = d.size.toBitVec.toInt := rfl
  rw [BitVec.toInt_eq_toNat_cond, UInt16.toNat_toBitVec] at hsize
  have hlt := d.size.toNat_lt
  have hinit : (ddkStorageInit idealUsb d).1 = (if d.size.toInt16.toInt < 0
      then (d.size.toInt16.toInt, d) else (d.size.toInt16.toInt / 512, d)).1 := rfl
  rw [hinit] at h
  split at h
  · simp only at h
    omega
  · simp only at h
    split at hsize <;> omega

/-! ## Packets -/

/-- What moving `len` bytes between position `k` of the buffer and position `pos` of the memory does
to the two. -/
def moved (dir : Dir) (pos k len : Nat) (buffer mem : Mem) : Mem × Mem :=
  match dir with
  | .write => (buffer, mem.store pos len (buffer.window k))
  | .read => (buffer.store k len (mem.window pos), mem)

/-- Two moves, one behind the other, are one. -/
theorem moved_moved (dir : Dir) (pos k n len : Nat) (buffer mem : Mem) :
    moved dir (pos + n) (k + n) len (moved dir pos k n buffer mem).1
      (moved dir pos k n buffer mem).2 = moved dir pos k (n + len) buffer mem := by
  have hwindow : ∀ (m : Mem) (a : Nat), m.window (a + n) = (m.window a).window n := by
    intro m a
    funext x
    simp only [Mem.window_apply, Nat.add_assoc]
  cases dir with
  | write => simp only [moved, hwindow, Mem.store_store_append]
  | read => simp only [moved, hwindow, Mem.store_store_append]

/-- The offset at which the device serves the next packet. -/
def Ideal.off (d : Ideal) : Dir → UInt16
  | .read => d.rdOff
  | .write => d.wrOff

/-- **One packet.** -/
theorem movePacket_ideal (dir : Dir) (k : Nat) (buffer : Mem) (bus : Bus Ideal) :
    ∃ bus', movePacket idealUsb dir k buffer bus =
        (.ok 8, (moved dir (bus.state.off dir).toNat k 8 buffer bus.state.mem).1, bus') ∧
      bus'.state.mem = (moved dir (bus.state.off dir).toNat k 8 buffer bus.state.mem).2 ∧
      bus'.state.off dir = bus.state.off dir + 8 := by
  have hbytes : ∀ (m m' : Mem) (a b : Nat), m'.store b 8 (.ofList (m.load a 8)) =
      m'.store b 8 (m.window a) := by
    intro m m' a b
    apply Mem.store_congr
    intro x hx
    simp [Mem.ofList, Mem.load, hx]
  cases dir with
  | write =>
    refine ⟨_, rfl, ?_, rfl⟩
    simp only [hbytes, Ideal.off, moved, Bus.record, Bus.offer]
  | read =>
    let d := bus.state
    refine ⟨(bus.offer ⟨k, 8⟩).record { d with rdOff := d.rdOff + 8 } (.moved 8), ?_, rfl, rfl⟩
    simp only [movePacket, idealUsb, Mem.length_load, hbytes, Ideal.off, moved, Bus.offer, d]

/-- **The loop** over the packets, `n` of them being left. -/
theorem packetLoop_ideal {dir : Dir} {cnt : Int} {n fuel k pos : Nat} (buffer : Mem)
    {bus : Bus Ideal} (hcnt : (k : Int) + 8 * n = cnt) (hfuel : n ≤ fuel)
    (hoff : (bus.state.off dir).toNat = pos) (hlt : pos + 8 * n < 65536) :
    ∃ bus', packetLoop idealUsb dir cnt fuel k buffer bus =
        (cnt, (moved dir pos k (8 * n) buffer bus.state.mem).1, bus') ∧
      bus'.state.mem = (moved dir pos k (8 * n) buffer bus.state.mem).2 := by
  induction n generalizing fuel k pos buffer bus with
  | zero =>
    have hk : ¬ (k : Int) < cnt := by omega
    have hcnt' : (k : Int) = cnt := by omega
    have hmoved : moved dir pos k (8 * 0) buffer bus.state.mem = (buffer, bus.state.mem) := by
      cases dir with
      | write =>
        refine congrArg (Prod.mk buffer) (funext fun x => Mem.store_of_not_mem ?_)
        omega
      | read =>
        refine congrArg (·, bus.state.mem) (funext fun x => Mem.store_of_not_mem ?_)
        omega
    refine ⟨bus, ?_, by rw [hmoved]⟩
    rw [hmoved]
    cases fuel with
    | zero => rw [packetLoop, hcnt']
    | succ fuel => rw [packetLoop, if_neg hk, hcnt']
  | succ n ih =>
    obtain ⟨fuel, rfl⟩ : ∃ f, fuel = f + 1 := ⟨fuel - 1, by omega⟩
    have hk : (k : Int) < cnt := by omega
    obtain ⟨bus₁, hmove, hmem, hnext⟩ := movePacket_ideal dir k buffer bus
    have hoff₁ : (bus₁.state.off dir).toNat = pos + 8 := by
      rw [hnext, UInt16.toNat_add, hoff]
      simp only [UInt16.reduceToNat]
      omega
    have hfuel₁ : n ≤ fuel := by omega
    obtain ⟨bus', hrun, hmem'⟩ := ih (k := k + 8)
      (moved dir (bus.state.off dir).toNat k 8 buffer bus.state.mem).1 (by omega) hfuel₁ hoff₁
      (by omega)
    rw [hmem, hoff, moved_moved, Nat.add_comm 8 (8 * n), ← Nat.mul_succ] at hrun hmem'
    refine ⟨bus', ?_, hmem'⟩
    unfold packetLoop
    rw [if_pos hk, hmove, hoff]
    exact hrun

/-! ## Segments -/

theorem setOff_ideal (dir : Dir) (offset : UInt32) (d : Ideal) :
    ∃ d', setOff idealUsb dir offset d = (.ok 0, d') ∧ d'.mem = d.mem ∧
      d'.off dir = offset.toUInt16 := by
  cases dir with
  | read => exact ⟨{ d with rdOff := offset.toUInt16 }, rfl, rfl, rfl⟩
  | write => exact ⟨{ d with wrOff := offset.toUInt16 }, rfl, rfl, rfl⟩

/-- Neither the `int` nor the 16 bits of `wValue` cut an offset inside the capacity. -/
theorem toNat_wValue {sectorOff : UInt64} (h : 512 * sectorOff.toNat < 65536) :
    (sectorOff * 512).toUInt32.toUInt16.toNat = 512 * sectorOff.toNat := by
  rw [UInt32.toNat_toUInt16, UInt64.toNat_toUInt32, UInt64.toNat_mul]
  simp only [UInt64.reduceToNat]
  omega

/-- `ddk_storage_write` and `ddk_storage_read` over the ideal device. -/
theorem ddkStorageMove_ideal (dir : Dir) (sectorOff : UInt64) (buffer : Mem) (sectors : UInt32)
    (bus : Bus Ideal) (h : 512 * (sectorOff.toNat + sectors.toNat) < 65536) :
    ∃ bus', ddkStorageMove idealUsb dir sectorOff buffer sectors bus =
        (((512 * sectors.toNat : Nat) : Int),
          (moved dir (512 * sectorOff.toNat) 0 (512 * sectors.toNat) buffer bus.state.mem).1,
          bus') ∧
      bus'.state.mem =
        (moved dir (512 * sectorOff.toNat) 0 (512 * sectors.toNat) buffer bus.state.mem).2 := by
  have hmul : (sectors * 512).toNat = 512 * sectors.toNat := by
    rw [UInt32.toNat_mul]
    simp only [UInt32.reduceToNat]
    omega
  have hcnt : (sectors * 512).toInt32.toInt = (512 * sectors.toNat : Nat) := by
    have hint : (sectors * 512).toInt32.toInt = (sectors * 512).toBitVec.toInt := rfl
    rw [hint, BitVec.toInt_eq_toNat_cond, UInt32.toNat_toBitVec, hmul, if_pos (by omega)]
  obtain ⟨d₁, hset, hmem, hoff⟩ := setOff_ideal dir (sectorOff * 512).toUInt32 bus.state
  have hpos : ((bus.record d₁ .done).state.off dir).toNat = 512 * sectorOff.toNat := by
    rw [Bus.record, hoff, toNat_wValue (by omega)]
  have h8 : 8 * (64 * sectors.toNat) = 512 * sectors.toNat := by omega
  have hpackets : ((0 : Nat) : Int) + 8 * (64 * sectors.toNat : Nat) =
      (512 * sectors.toNat : Nat) := by omega
  have hfuel : 64 * sectors.toNat ≤ 512 * sectors.toNat := by omega
  obtain ⟨bus', hrun, hmem'⟩ :=
    packetLoop_ideal buffer hpackets hfuel hpos (by omega)
  have hstate : (bus.record d₁ .done).state.mem = bus.state.mem := hmem
  rw [h8, hstate] at hrun hmem'
  refine ⟨bus', ?_, hmem'⟩
  have hpresent : idealUsb.present bus.state = (true, bus.state) := rfl
  unfold ddkStorageMove
  simp only [hcnt, Int.toNat_natCast, hpresent, hset]
  exact hrun

/-- What moving a list of segments does to them and to the memory. -/
def movedSegments (dir : Dir) : Nat → List Segment → Mem → List Segment × Mem
  | _, [], mem => ([], mem)
  | pos, seg :: segs, mem =>
    let r := moved dir pos 0 seg.len.toNat seg.buffer mem
    let rest := movedSegments dir (pos + seg.len.toNat) segs r.2
    ({ seg with buffer := r.1 } :: rest.1, rest.2)

theorem Segment.len_eq {seg : Segment} (h : seg.len % 512 = 0) :
    512 * seg.sectors.toNat = seg.len.toNat := by
  have hmod := congrArg UInt32.toNat h
  rw [UInt32.toNat_mod] at hmod
  simp only [UInt32.reduceToNat, UInt32.toNat_zero] at hmod
  rw [toNat_sectors]
  omega

/-- The offsets of the loops over the segments do not wrap. -/
theorem toNat_offsets (start off : UInt64) (seg : Segment)
    (h : start.toNat + off.toNat + seg.sectors.toNat < 2 ^ 64) :
    (start + off).toNat = start.toNat + off.toNat ∧
      (off + seg.sectors.toUInt64).toNat = off.toNat + seg.sectors.toNat := by
  rw [UInt64.toNat_add, UInt64.toNat_add, UInt32.toNat_toUInt64]
  omega

/-- **The loop** of `ddk_transfer` over the segments. -/
theorem ddkSegments_ideal (dir : Dir) {start : UInt64} {segs : List Segment} {off : UInt64}
    (bus : Bus Ideal) (hlen : ∀ seg ∈ segs, seg.len % 512 = 0)
    (h : 512 * (start.toNat + off.toNat + sectorSum segs) < 65536) :
    let moves := movedSegments dir (512 * (start.toNat + off.toNat)) segs bus.state.mem
    ∃ off' done bus', ddkSegments idealUsb dir start segs off 0 bus = ((off', 0), done, bus') ∧
      off'.toNat = off.toNat + sectorSum segs ∧ done.map Prod.fst = moves.1 ∧
      bus'.state.mem = moves.2 := by
  induction segs generalizing off bus with
  | nil => exact ⟨off, [], bus, rfl, rfl, rfl, rfl⟩
  | cons seg segs ih =>
    rw [sectorSum_cons] at h ⊢
    have hmod := hlen seg List.mem_cons_self
    have hsec := Segment.len_eq hmod
    obtain ⟨hadd, hnext⟩ := toNat_offsets start off seg (by omega)
    obtain ⟨bus₁, hmove, hmem⟩ :=
      ddkStorageMove_ideal dir (start + off) seg.buffer seg.sectors bus (by omega)
    rw [hadd, hsec] at hmove hmem
    have hrest : 512 * (start.toNat + (off + seg.sectors.toUInt64).toNat + sectorSum segs) <
        65536 := by omega
    obtain ⟨off', done, bus', hrun, hoff', hdone, hmem'⟩ :=
      ih bus₁ (fun s hs => hlen s (List.mem_cons_of_mem seg hs)) hrest
    have hpos : 512 * (start.toNat + (off + seg.sectors.toUInt64).toNat) =
        512 * (start.toNat + off.toNat) + seg.len.toNat := by omega
    rw [hpos, hmem] at hdone hmem'
    let move := moved dir (512 * (start.toNat + off.toNat)) 0 seg.len.toNat seg.buffer bus.state.mem
    refine ⟨off', ({ seg with buffer := move.1 }, (seg.len.toNat : Int)) :: done, bus', ?_,
      by omega, ?_, hmem'⟩
    · rw [ddkSegments_cons hmove, if_neg (by omega), if_neg (by simp [hmod]), hrun]
    · rw [List.map_cons, hdone]
      rfl

theorem window_zero (m : Mem) : m.window 0 = m := by
  funext x
  rw [Mem.window_apply, Nat.zero_add]

/-- **The loop** of `rb_transfer` over the segments. -/
theorem rbSegments_eq (dir : Dir) {start : UInt64} {segs : List Segment} {off : UInt64}
    (devData : Mem) (hlen : ∀ seg ∈ segs, seg.len % 512 = 0)
    (h : 512 * (start.toNat + off.toNat + sectorSum segs) < 65536) :
    ∃ off', rbSegments dir start segs off 0 devData =
        ((off', 0), movedSegments dir (512 * (start.toNat + off.toNat)) segs devData) ∧
      off'.toNat = off.toNat + sectorSum segs := by
  induction segs generalizing off devData with
  | nil => exact ⟨off, rfl, rfl⟩
  | cons seg segs ih =>
    rw [sectorSum_cons] at h ⊢
    have hmod := hlen seg List.mem_cons_self
    have hsec := Segment.len_eq hmod
    obtain ⟨hadd, hnext⟩ := toNat_offsets start off seg (by omega)
    have hbytes : (seg.sectors * 512).toNat = seg.len.toNat := by
      rw [UInt32.toNat_mul]
      simp only [UInt32.reduceToNat]
      omega
    have hoff : ((start + off) * 512).toNat = 512 * (start.toNat + off.toNat) := by
      rw [UInt64.toNat_mul, hadd]
      simp only [UInt64.reduceToNat]
      omega
    have hrest : 512 * (start.toNat + (off + seg.sectors.toUInt64).toNat + sectorSum segs) <
        65536 := by omega
    obtain ⟨off', hrun, hoff'⟩ := ih
      (moved dir (512 * (start.toNat + off.toNat)) 0 seg.len.toNat seg.buffer devData).2
      (fun s hs => hlen s (List.mem_cons_of_mem seg hs)) hrest
    have hpos : 512 * (start.toNat + (off + seg.sectors.toUInt64).toNat) =
        512 * (start.toNat + off.toNat) + seg.len.toNat := by omega
    rw [hpos] at hrun
    refine ⟨off', ?_, by omega⟩
    cases dir with
    | write =>
      simp only [rbSegments, ramdeviceWrite, hbytes, hoff, hmod, ne_eq, not_true_eq_false,
        ↓reduceIte]
      simp only [moved, window_zero] at hrun
      rw [hrun]
      simp only [movedSegments, moved, window_zero]
    | read =>
      simp only [rbSegments, ramdeviceRead, hbytes, hoff, hmod, ne_eq, not_true_eq_false,
        ↓reduceIte]
      simp only [moved] at hrun
      rw [hrun]
      simp only [movedSegments, moved]

/-! ## Requests -/

/-- The bytes of a list of segments. -/
def bytesOf (segs : List Segment) : List UInt8 :=
  segs.flatMap fun seg => seg.buffer.load 0 seg.len.toNat

theorem bytesOf_cons (seg : Segment) (segs : List Segment) :
    bytesOf (seg :: segs) = seg.buffer.load 0 seg.len.toNat ++ bytesOf segs := rfl

theorem length_bytesOf {segs : List Segment} (h : ∀ seg ∈ segs, seg.len % 512 = 0) :
    (bytesOf segs).length = 512 * sectorSum segs := by
  induction segs with
  | nil => rfl
  | cons seg segs ih =>
    have hsec := Segment.len_eq (h seg List.mem_cons_self)
    rw [bytesOf_cons, List.length_append, Mem.length_load, sectorSum_cons,
      ih fun s hs => h s (List.mem_cons_of_mem seg hs)]
    omega

/-- Written segments stay as they are, and their bytes are stored one behind the other. -/
theorem movedSegments_write (pos : Nat) (segs : List Segment) (mem : Mem) :
    movedSegments .write pos segs mem =
      (segs, mem.store pos (bytesOf segs).length (.ofList (bytesOf segs))) := by
  induction segs generalizing pos mem with
  | nil =>
    refine congrArg (Prod.mk []) (funext fun x => (Mem.store_of_not_mem ?_).symm)
    have : (bytesOf []).length = 0 := rfl
    omega
  | cons seg segs ih =>
    have hlen : (bytesOf (seg :: segs)).length = seg.len.toNat + (bytesOf segs).length := by
      rw [bytesOf_cons, List.length_append, Mem.length_load]
    have hfirst : ∀ k < seg.len.toNat, seg.buffer.window 0 k =
      Mem.ofList (bytesOf (seg :: segs)) k := by
      intro k hk
      rw [bytesOf_cons]
      simp [Mem.ofList, Mem.load, List.getD_eq_getElem?_getD, List.getElem?_append, hk]
    have hrest : Mem.ofList (bytesOf segs) =
        (Mem.ofList (bytesOf (seg :: segs))).window seg.len.toNat := by
      funext k
      have hk : ¬ seg.len.toNat + k < seg.len.toNat := by omega
      rw [bytesOf_cons]
      simp [Mem.ofList, List.getD_eq_getElem?_getD, List.getElem?_append, hk]
    simp only [movedSegments, moved, ih]
    rw [hlen, Mem.store_congr hfirst, hrest, Mem.store_store_append]

/-- Read segments get the bytes of the memory one behind the other. -/
theorem movedSegments_read (pos : Nat) {segs : List Segment} (mem : Mem)
    (h : ∀ seg ∈ segs, seg.len % 512 = 0) :
    bytesOf (movedSegments .read pos segs mem).1 = mem.load pos (512 * sectorSum segs) ∧
      (movedSegments .read pos segs mem).2 = mem := by
  induction segs generalizing pos with
  | nil => exact ⟨rfl, rfl⟩
  | cons seg segs ih =>
    obtain ⟨hbytes, hmem⟩ := ih (pos + seg.len.toNat) fun s hs => h s (List.mem_cons_of_mem seg hs)
    have hsec := Segment.len_eq (h seg List.mem_cons_self)
    refine ⟨?_, hmem⟩
    have hload : (seg.buffer.store 0 seg.len.toNat (mem.window pos)).load 0 seg.len.toNat =
        mem.load pos seg.len.toNat := by
      apply List.map_congr_left
      intro k hk
      rw [Mem.store_window (List.mem_range.1 hk), Mem.window_apply]
    simp only [movedSegments, moved, bytesOf_cons, hload, hbytes]
    rw [sectorSum_cons, Nat.mul_add, hsec, Mem.load_add]

/-- The request stays inside the capacity and is split into whole sectors. -/
structure Request.Inside (cap : Nat) (req : Request) : Prop where
  sectors : ∀ seg ∈ req.segments, seg.len % 512 = 0
  sum_eq : sectorSum req.segments = req.sectorCnt.toNat
  le_cap : req.startSector.toNat + req.sectorCnt.toNat ≤ cap

/-- What a request asks of an array of sectors: its status, its bytes afterwards and the array. -/
def Request.serve (a : SectorArray) (req : Request) : (Int × List UInt8) × SectorArray :=
  match req.dir with
  | .write => ((0, bytesOf req.segments),
      a.write 512 req.startSector.toNat (bytesOf req.segments))
  | .read => ((0, a.read req.startSector.toNat req.sectorCnt.toNat), a)

/-- A request served by `ddk_transfer` over the ideal device. -/
def ddkServe (d : Ideal) (req : Request) : (Int × List UInt8) × Ideal :=
  let o := ddkTransfer idealUsb req ⟨d, [], []⟩
  ((o.status, bytesOf (o.moved.map Prod.fst)), o.bus.state)

/-- A request served by `rb_transfer`. -/
def rbServe (devData : Mem) (req : Request) : (Int × List UInt8) × Mem :=
  match rbTransfer req devData with
  | (status, segs, devData) => ((status, bytesOf segs), devData)

/-- Moving all segments of a request is serving it. -/
theorem movedSegments_serve {cap : Nat} {req : Request} (h : req.Inside cap) (mem : Mem) :
    ((0, bytesOf (movedSegments req.dir (512 * req.startSector.toNat) req.segments mem).1),
      (movedSegments req.dir (512 * req.startSector.toNat) req.segments mem).2.sectors 512) =
      req.serve (mem.sectors 512) := by
  unfold Request.serve
  cases req.dir with
  | write =>
    simp only [movedSegments_write]
    rw [Mem.sectors_store (length_bytesOf h.sectors)]
  | read =>
    obtain ⟨hbytes, hmem⟩ := movedSegments_read (512 * req.startSector.toNat) mem h.sectors
    simp only [hbytes, hmem, Mem.read_sectors, h.sum_eq]

/-- A sector offset that counts the sectors of a request is its sector count. -/
theorem Request.Inside.offset_eq {cap : Nat} {req : Request} (h : req.Inside cap) {off : UInt64}
    (hoff : off.toNat = (0 : UInt64).toNat + sectorSum req.segments) :
    off = req.sectorCnt.toUInt64 := by
  apply UInt64.toNat_inj.1
  rw [hoff, h.sum_eq, UInt32.toNat_toUInt64, UInt64.toNat_zero, Nat.zero_add]

/-- The byte offsets of a request inside the capacity fit in 16 bits. -/
theorem Request.Inside.offsets_lt {cap : Nat} {req : Request} (h : req.Inside cap)
    (hcap : cap < 128) :
    512 * (req.startSector.toNat + (0 : UInt64).toNat + sectorSum req.segments) < 65536 := by
  have := h.le_cap
  rw [h.sum_eq, UInt64.toNat_zero]
  omega

/-- **`ddk_transfer`** over the ideal device serves a request. -/
theorem ddkServe_serve {cap : Nat} {req : Request} (h : req.Inside cap) (hcap : cap < 128)
    (d : Ideal) :
    (ddkServe d req).1 = (req.serve (d.mem.sectors 512)).1 ∧
      (ddkServe d req).2.mem.sectors 512 = (req.serve (d.mem.sectors 512)).2 := by
  obtain ⟨off', done, bus', hrun, hoff, hdone, hmem⟩ :=
    ddkSegments_ideal req.dir ⟨d, [], []⟩ h.sectors (h.offsets_lt hcap)
  rw [UInt64.toNat_zero, Nat.add_zero] at hdone hmem
  have hoff' := h.offset_eq hoff
  rw [← movedSegments_serve h]
  unfold ddkServe ddkTransfer
  simp only [hrun, hoff', ne_eq, not_true_eq_false, ↓reduceIte, hdone, hmem, and_self]

/-- **`rb_transfer`** serves a request. -/
theorem rbServe_serve {cap : Nat} {req : Request} (h : req.Inside cap) (hcap : cap < 128)
    (devData : Mem) :
    (rbServe devData req).1 = (req.serve (devData.sectors 512)).1 ∧
      (rbServe devData req).2.sectors 512 = (req.serve (devData.sectors 512)).2 := by
  obtain ⟨off', hrun, hoff⟩ := rbSegments_eq req.dir devData h.sectors (h.offsets_lt hcap)
  rw [UInt64.toNat_zero, Nat.add_zero] at hrun
  have hoff' := h.offset_eq hoff
  rw [← movedSegments_serve h]
  unfold rbServe rbTransfer
  simp only [hrun, hoff', ne_eq, not_true_eq_false, ↓reduceIte, and_self]

/-- Arrays that agree below the capacity serve a request inside it alike. -/
theorem Request.serve_congr {cap : Nat} {req : Request} (h : req.Inside cap) {a a' : SectorArray}
    (heq : ∀ k < cap, a k = a' k) :
    (req.serve a).1 = (req.serve a').1 ∧ ∀ k < cap, (req.serve a).2 k = (req.serve a').2 k := by
  have hle := h.le_cap
  unfold Request.serve
  cases req.dir with
  | write => exact ⟨rfl, fun k hk => SectorArray.write_congr (heq k hk) 512 _ _⟩
  | read =>
    refine ⟨congrArg (Prod.mk 0) (SectorArray.read_congr fun k _ hk => heq k ?_), heq⟩
    omega

/-! ## Sequences of requests -/

/-- **Both drivers are sector arrays.** From equal contents the two drivers give, over any requests
inside the capacity, the status, the bytes and the contents that an array of sectors gives. -/
theorem drivers_sectorArray {d : Ideal} {cap : Nat} (hinit : (ddkStorageInit idealUsb d).1 = cap)
    {devData : Mem} (heq : ∀ k < cap, devData.sectors 512 k = d.mem.sectors 512 k)
    {reqs : List Request} (hreqs : ∀ req ∈ reqs, req.Inside cap) :
    let serve := fun (a : SectorArray) (req : Request) => req.serve a
    let array := runWith serve (d.mem.sectors 512) reqs
    let ddk := runWith ddkServe d reqs
    let ram := runWith rbServe devData reqs
    cap ≤ rbDeviceSize ∧ ddk.1 = array.1 ∧ ram.1 = array.1 ∧ ddk.2.mem.sectors 512 = array.2 ∧
      (∀ k < cap, ram.2.sectors 512 k = array.2 k) ∧
      ram.2.sectors 512 = (runWith serve (devData.sectors 512) reqs).2 := by
  intro serve array ddk ram
  obtain ⟨hcap, hsize⟩ := ddkStorageInit_ideal hinit
  have hlt : cap < 128 := by omega
  -- the array simulates either driver on its own contents
  have hddk : ddk.1 = array.1 ∧ ddk.2.mem.sectors 512 = array.2 := by
    refine runWith_simulates (R := fun (d : Ideal) a => d.mem.sectors 512 = a) ?_ rfl hreqs
    rintro d' _ req rfl h
    exact ddkServe_serve h hlt d'
  have hram : ram.1 = (runWith serve (devData.sectors 512) reqs).1 ∧
      ram.2.sectors 512 = (runWith serve (devData.sectors 512) reqs).2 := by
    refine runWith_simulates (R := fun (m : Mem) a => m.sectors 512 = a) ?_ rfl hreqs
    rintro m _ req rfl h
    exact rbServe_serve h hlt m
  -- and the two contents agree below the capacity
  obtain ⟨hout, hend⟩ : (runWith serve (devData.sectors 512) reqs).1 = array.1 ∧
      ∀ k < cap, (runWith serve (devData.sectors 512) reqs).2 k = array.2 k := by
    refine runWith_simulates
      (R := fun (a a' : SectorArray) => ∀ k < cap, a k = a' k) ?_ heq hreqs
    intro a a' req heq' h
    exact Request.serve_congr h heq'
  refine ⟨?_, hddk.1, hram.1.trans hout, hddk.2, ?_, hram.2⟩
  · unfold rbDeviceSize
    omega
  · intro k hk
    rw [hram.2]
    exact hend k hk

/-- A device of 1024 bytes: two sectors are written in one segment and read in two. -/
theorem drivers_sectorArray_split :
    let d : Ideal := ⟨fun _ => 0, 1024, 0, 0⟩
    let reqs : List Request :=
      [⟨.write, 0, 2, [⟨1024, fun _ => 7⟩]⟩, ⟨.read, 0, 2, [⟨512, fun _ => 0⟩, ⟨512, fun _ => 0⟩]⟩]
    (runWith ddkServe d reqs).1 = (runWith rbServe (fun _ => 0) reqs).1 := by
  intro d reqs
  have hinit : (ddkStorageInit idealUsb d).1 = (2 : Nat) := by decide
  have hreqs : ∀ req ∈ reqs, req.Inside 2 := by
    simp only [reqs, List.forall_mem_cons, List.not_mem_nil, false_imp_iff, implies_true, and_true]
    exact ⟨⟨by decide, by decide, by decide⟩, by decide, by decide, by decide⟩
  obtain ⟨-, hddk, hram, -⟩ := drivers_sectorArray hinit (fun _ _ => rfl) hreqs
  exact hddk.trans hram.symm

end LinuxDrivers.Ddk
