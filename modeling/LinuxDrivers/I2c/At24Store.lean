import LinuxDrivers.I2c.At24Spec

/-!
# The EEPROM file

`at24_bin_read` and `at24_bin_write` serve the requests of a file of the size of the part, and
`at24_probe` sets the driver up from an entry of the device table. The file is an array of bytes as
long as the address bytes reach all of it; the driver uses one bus address only.
-/

namespace LinuxDrivers.I2c.At24

open Mem (ofList)

/-! ## Requests -/

inductive Req where
  | read (off count : Nat)
  | write (off : Nat) (data : List UInt8)

/-- The result of a request, and the bytes that it delivers. -/
abbrev Resp := Int × List UInt8

/-- sysfs passes only what lies in the file. -/
def Req.InRange (size : Nat) : Req → Prop
  | .read off count => off + count ≤ size
  | .write off data => off + data.length ≤ size

def at24BinRead (d : At24Data) (b : Bus) (off count : Nat) : Resp × Bus :=
  let (retval, buf, b') := at24Read d b (fun _ => 0) off count
  ((retval, buf.load 0 retval.toNat), b')

def at24BinWrite (d : At24Data) (b : Bus) (off : Nat) (data : List UInt8) : Resp × Bus :=
  let (retval, b') := at24Write d b (ofList data) off data.length
  ((retval, []), b')

def serve (d : At24Data) (b : Bus) : Req → Resp × Bus
  | .read off count => at24BinRead d b off count
  | .write off data => at24BinWrite d b off data

/-! ## Arrays of bytes -/

/-- An array of bytes that serves every request in full. -/
def arrayServe (cells : Mem) : Req → Resp × Mem
  | .read off count => (((count : Int), cells.load off count), cells)
  | .write off data => (((data.length : Int), []), cells.store off data.length (ofList data))

/-- An array of bytes that may stop early. What it reports as written is written, and up to `page`
bytes more. -/
inductive Store (page : Nat) : Mem → Req → Resp → Mem → Prop where
  | read {cells : Mem} {off count n : Nat} (hn : n ≤ count) :
    Store page cells (.read off count) ((n : Int), cells.load off n) cells
  | readFails {cells : Mem} {off count : Nat} (hcount : 0 < count) :
    Store page cells (.read off count) (-ETIMEDOUT, []) cells
  | write {cells : Mem} {off : Nat} {data : List UInt8} {n m : Nat} (hn : n ≤ m)
    (hm : m ≤ data.length) (hpage : m ≤ n + page) :
    Store page cells (.write off data) ((n : Int), []) (cells.store off m (ofList data))
  | writeFails {cells : Mem} {off : Nat} {data : List UInt8} {m : Nat} (hdata : 0 < data.length)
    (hm : m ≤ data.length) (hpage : m ≤ page) :
    Store page cells (.write off data) (-ETIMEDOUT, []) (cells.store off m (ofList data))

variable {d : At24Data} {b b₀ : Bus}

/-- The bytes of a buffer that a read filled. -/
theorem load_filled {buf src : Mem} {n m : Nat} (h : n ≤ m) :
    (buf.store 0 m src).load 0 n = src.load 0 n := by
  apply Mem.load_congr
  intro k hk
  rw [Nat.zero_add, Mem.store_of_mem (by omega), Nat.sub_zero]

theorem load_window (m : Mem) (a n : Nat) : (m.window a).load 0 n = m.load a n := by
  simp [Mem.load]

/-- One request, whatever fails. -/
theorem serve_refines (hd : Fits d b.part) (hwin : b.part.size ≤ 256 ^ b.part.addrBytes)
    {req : Req} (hreq : req.InRange b.part.size) :
    Follows d b (serve d b req).2 ∧
      Store d.writeMax b.cells req (serve d b req).1 (serve d b req).2.cells := by
  cases req with
  | read off count =>
    obtain ⟨t, ⟨hr, hfol, hcells, hbuf⟩ | ⟨j, hj, hr, ⟨m, hm, hfol, hcells, hbuf⟩, _⟩⟩ :=
      at24Read_spec (fun _ => 0) hd (hd.lands hwin hreq)
    · simp only [serve, at24BinRead, hr, hbuf, hcells, Int.toNat_natCast]
      rw [load_filled (Nat.le_refl count), load_window]
      exact ⟨hfol, .read (Nat.le_refl count)⟩
    · cases j with
      | zero =>
        simp only [serve, at24BinRead, hr, hcells, ↓reduceIte]
        exact ⟨hfol, .readFails hj⟩
      | succ j =>
        have hne : ¬ (j + 1 = 0) := by omega
        simp only [serve, at24BinRead, hr, hbuf, hcells, hne, ↓reduceIte, Int.toNat_natCast]
        rw [load_filled hm, load_window]
        exact ⟨hfol, .read (Nat.le_of_lt hj)⟩
  | write off data =>
    obtain ⟨b', ⟨hr, hfol, hcells⟩ | ⟨j, hj, hr, ⟨m, hjm, hm, hmax, hfol, hcells⟩, _⟩⟩ :=
      at24Write_spec (ofList data) hd (hd.lands hwin hreq)
    · simp only [serve, at24BinWrite, hr, hcells]
      exact ⟨hfol, .write (Nat.le_refl _) (Nat.le_refl _) (Nat.le_add_right _ _)⟩
    · cases j with
      | zero =>
        simp only [serve, at24BinWrite, hr, hcells, ↓reduceIte]
        exact ⟨hfol, .writeFails hj hm (by omega)⟩
      | succ j =>
        have hne : ¬ (j + 1 = 0) := by omega
        simp only [serve, at24BinWrite, hr, hcells, hne, ↓reduceIte]
        exact ⟨hfol, .write hjm hm hmax⟩

/-- A part of 16 bytes on a bus where every other transfer fails behind one byte. -/
def smallBus : Bus where
  part := ⟨16, 4, 1⟩
  cells := fun _ => 0
  fault n := if n % 2 = 0 then some ⟨1, 5⟩ else none
  repeats _ := 1
  transfers := 0
  sent := []

theorem smallBus_timely : smallBus.Timely := by
  intro n
  by_cases hn : n % 2 = 0
  · have hodd : ¬ (n + 1) % 2 = 0 := by omega
    exact ⟨1, Nat.le_refl 1, by simp [smallBus, hodd]⟩
  · exact ⟨0, Nat.zero_le 1, by simp [smallBus, hn]⟩

/-- One request when every message gets through in time. -/
theorem serve_timely (hd : Fits d b.part) (hwin : b.part.size ≤ 256 ^ b.part.addrBytes)
    (ht : b.Timely) {req : Req} (hreq : req.InRange b.part.size) :
    (serve d b req).1 = (arrayServe b.cells req).1 ∧
      (serve d b req).2.cells = (arrayServe b.cells req).2 := by
  cases req with
  | read off count =>
    obtain ⟨t, ⟨hr, hfol, hcells, hbuf⟩ | ⟨_, _, _, _, hlate⟩⟩ :=
      at24Read_spec (fun _ => 0) hd (hd.lands hwin hreq)
    · simp only [serve, at24BinRead, hr, hbuf, hcells, Int.toNat_natCast, arrayServe]
      rw [load_filled (Nat.le_refl count), load_window]
      exact ⟨rfl, trivial⟩
    · exact absurd ht hlate
  | write off data =>
    obtain ⟨b', ⟨hr, hfol, hcells⟩ | ⟨_, _, _, _, hlate⟩⟩ :=
      at24Write_spec (ofList data) hd (hd.lands hwin hreq)
    · simp only [serve, at24BinWrite, hr, hcells, arrayServe, and_self]
    · exact absurd ht hlate

/-- A byte that is written at any offset lands in the cell that its address bytes reach. -/
theorem serve_write_one (hd : Fits d b.part) (ht : b.Timely) (off : Nat) (hoff : off < b.part.size)
    (byte : UInt8) :
    Follows d b (serve d b (.write off [byte])).2 ∧
      (serve d b (.write off [byte])).1 = (1, []) ∧
      (serve d b (.write off [byte])).2.cells =
        b.cells.store (off % 256 ^ b.part.addrBytes % b.part.size) 1 (ofList [byte]) := by
  obtain ⟨b', ⟨hr, hfol, hcells⟩ | ⟨_, _, _, _, hlate⟩⟩ :=
    at24Write_spec (ofList [byte]) hd (hd.lands_one hoff)
  · have hlen : ([byte] : List UInt8).length = 1 := rfl
    simp only [serve, at24BinWrite, hlen, hr]
    exact ⟨hfol, rfl, hcells⟩
  · exact absurd ht hlate

theorem serve_read_one (hd : Fits d b.part) (ht : b.Timely) (off : Nat)
    (hoff : off < b.part.size) :
    (serve d b (.read off 1)).1 =
      (1, [b.cells (off % 256 ^ b.part.addrBytes % b.part.size)]) := by
  obtain ⟨t, ⟨hr, hfol, hcells, hbuf⟩ | ⟨_, _, _, _, hlate⟩⟩ :=
    at24Read_spec (fun _ => 0) hd (hd.lands_one hoff)
  · simp only [serve, at24BinRead, hr, hbuf, Int.toNat_natCast]
    rw [load_filled (Nat.le_refl 1), load_window]
    rfl
  · exact absurd ht hlate

/-- Past what the address bytes reach, the first cell is written again. -/
theorem not_faithful_of_short (hd : Fits d b.part) (ht : b.Timely)
    (hshort : 256 ^ b.part.addrBytes < b.part.size) :
    ∃ reqs, (∀ req ∈ reqs, Req.InRange b.part.size req) ∧
      (runWith (serve d) b reqs).1 ≠ (runWith arrayServe b.cells reqs).1 := by
  have hpow : 0 < 256 ^ b.part.addrBytes := Nat.pow_pos (by decide)
  refine ⟨[.write 0 [0], .write (256 ^ b.part.addrBytes) [1], .read 0 1], ?_, ?_⟩
  · intro req hreq
    simp only [List.mem_cons, List.not_mem_nil, or_false] at hreq
    rcases hreq with rfl | rfl | rfl <;> simp only [Req.InRange, List.length_singleton] <;> omega
  obtain ⟨hfol₁, hr₁, hc₁⟩ := serve_write_one hd ht 0 hd.size_pos 0
  have hd₁ : Fits d (serve d b (.write 0 [0])).2.part := by
    rw [hfol₁.part_eq]
    exact hd
  obtain ⟨hfol₂, hr₂, hc₂⟩ := serve_write_one hd₁ (hfol₁.timely ht)
    (256 ^ b.part.addrBytes) (by rw [hfol₁.part_eq]; exact hshort) 1
  have hd₂ := hd₁
  rw [← hfol₂.part_eq] at hd₂
  have hr₃ := serve_read_one hd₂ (hfol₂.timely (hfol₁.timely ht)) 0 hd₂.size_pos
  rw [hc₂, hfol₁.part_eq] at hr₃
  simp only [Nat.mod_self, Nat.zero_mod] at hr₃
  rw [Mem.store_of_mem (by omega)] at hr₃
  intro heq
  simp only [runWith, hr₁, hr₂, hr₃, arrayServe, List.length_singleton] at heq
  have hread : (((((b.cells.store 0 1 (ofList [0])).store (256 ^ b.part.addrBytes) 1
      (ofList [1])).load 0 1) : List UInt8)) = [0] := by
    have hcell : (b.cells.store 0 1 (ofList [0])).store (256 ^ b.part.addrBytes) 1 (ofList [1]) 0 =
        0 := by
      rw [Mem.store_of_not_mem (by omega), Mem.store_of_mem (by omega)]
      rfl
    simp [Mem.load, hcell]
  rw [hread] at heq
  simp [ofList] at heq

/-- **Address bytes.** When every message gets through in time, the file is an array of bytes for
every run of requests exactly when the address bytes reach all of it. -/
theorem faithful_iff (hd : Fits d b.part) (ht : b.Timely) :
    (∀ reqs, (∀ req ∈ reqs, Req.InRange b.part.size req) →
        (runWith (serve d) b reqs).1 = (runWith arrayServe b.cells reqs).1) ↔
      b.part.size ≤ 256 ^ b.part.addrBytes := by
  constructor
  · intro hall
    by_contra hshort
    obtain ⟨reqs, hreqs, hne⟩ := not_faithful_of_short hd ht (Nat.lt_of_not_le hshort)
    exact hne (hall reqs hreqs)
  · intro hwin reqs hreqs
    have hstep (b' : Bus) (cells : Mem) (req : Req) (hb : Follows d b b' ∧ b'.cells = cells)
        (hreq : req.InRange b.part.size) :
        (serve d b' req).1 = (arrayServe cells req).1 ∧
          (Follows d b (serve d b' req).2 ∧
            (serve d b' req).2.cells = (arrayServe cells req).2) := by
      obtain ⟨hfol, rfl⟩ := hb
      rw [← hfol.part_eq] at hd hwin hreq
      obtain ⟨hr, hc⟩ := serve_timely hd hwin (hfol.timely ht) hreq
      exact ⟨hr, hfol.trans (serve_refines hd hwin hreq).1, hc⟩
    exact (runWith_simulates hstep ⟨Follows.refl d b, rfl⟩ hreqs).1

/-! ## Entries of the device table -/

section

variable {k flags io : Nat} {a : Probed}

theorem magic_eq (hk : k < 32) :
    at24DeviceMagic (2 ^ k) flags = (256 ||| flags) * 32 + k := by
  have hor := Nat.shiftLeft_add_eq_or_of_lt (show k < 2 ^ at24SizeBytelen from hk) (256 ||| flags)
  unfold at24DeviceMagic
  rw [Nat.log2_two_pow, show 1 <<< at24SizeFlags = 256 from rfl, ← hor, Nat.shiftLeft_eq]
  rfl

/-- The length and the flags are read back from the magic value. -/
theorem magic_decodes (hk : k < 32) (hflags : flags < 256) :
    at24DeviceMagic (2 ^ k) flags ≠ 0 ∧
      at24DeviceMagic (2 ^ k) flags &&& at24Bitmask at24SizeBytelen = k ∧
      at24DeviceMagic (2 ^ k) flags >>> at24SizeBytelen &&& at24Bitmask at24SizeFlags = flags := by
  have hor : 256 ||| flags = 256 + flags := by
    have h := Nat.shiftLeft_add_eq_or_of_lt (show flags < 2 ^ 8 from hflags) 1
    exact h.symm
  rw [magic_eq hk, hor]
  refine ⟨by omega, ?_, ?_⟩
  · rw [show at24Bitmask at24SizeBytelen = 2 ^ 5 - 1 from rfl, Nat.and_two_pow_sub_one_eq_mod]
    omega
  · rw [show at24Bitmask at24SizeFlags = 2 ^ 8 - 1 from rfl, Nat.and_two_pow_sub_one_eq_mod,
      Nat.shiftRight_eq_div_pow, show 2 ^ at24SizeBytelen = 32 from rfl]
    omega

/-- Setting the read-only flag leaves the address bytes alone. -/
theorem addr16_readonly (chip : PlatformData) (node : Option (Bool × Option Nat)) :
    (at24GetOfdata node chip).addr16 = chip.addr16 := by
  have hflag (x : Nat) : (x ||| flagReadonly) &&& flagAddr16 = x &&& flagAddr16 := by
    rw [Nat.and_or_distrib_right, show flagReadonly &&& flagAddr16 = 0 from rfl, Nat.or_zero]
  rcases node with _ | ⟨readOnly, pagesize⟩
  · rfl
  · cases readOnly with
    | false => rfl
    | true => simp only [PlatformData.addr16, at24GetOfdata, ↓reduceIte, hflag]

/-- The page size that a table entry is used with. -/
def Probed.pageSize (a : Probed) : Nat := (at24GetOfdata a.ofNode ⟨0, 1, 0⟩).pageSize

theorem at24Init_ok (hpos : 0 < io) (hlt : io < 65536) :
    ∃ limit, at24Init io = .ok limit ∧ 0 < limit ∧ limit ≤ 32768 := by
  have hne : io ≠ 0 := by omega
  refine ⟨2 ^ Nat.log2 io, ?_, Nat.pow_pos (by decide), ?_⟩
  · simp only [at24Init, hne, ↓reduceIte]
  · have hlog : Nat.log2 io < 16 := (Nat.log2_lt hne).2 hlt
    exact Nat.pow_le_pow_right (show 0 < 2 by decide) (show Nat.log2 io ≤ 15 by omega)

/-- `at24_probe` on an entry of the table. -/
theorem at24Probe_ok (hk : k < 32) (hflags : flags < 256) (hplat : a.platformData = none)
    (hmagic : a.driverData = at24DeviceMagic (2 ^ k) flags) (hpage : 0 < a.pageSize)
    (hi2c : a.funcI2c = true) (hdata : a.allocData = true) (hbuf : a.allocWritebuf = true)
    (limit : Nat) :
    ∃ d, at24Probe a limit = .ok d ∧ d.chip.byteLen = 2 ^ k ∧ d.chip.pageSize = a.pageSize ∧
      d.chip.addr16 = (flags &&& flagAddr16 ≠ 0 : Bool) ∧ d.ioLimit = limit ∧
      d.writeMax = min a.pageSize limit := by
  obtain ⟨hne, hlen, hfl⟩ := magic_decodes hk hflags
  have hshift : u32 (1 <<< k) = 2 ^ k := by
    have hlt : (2 : Nat) ^ k < 2 ^ 32 := Nat.pow_lt_pow_right (by decide) hk
    rw [Nat.shiftLeft_eq, Nat.one_mul]
    exact Nat.mod_eq_of_lt hlt
  have hchip : a.chip = .ok (at24GetOfdata a.ofNode ⟨2 ^ k, 1, flags⟩) := by
    unfold Probed.chip
    simp only [hplat, hmagic, hne, ↓reduceIte, hlen, hfl, hshift]
  have hsize (n : Nat) (f : Nat) : (at24GetOfdata a.ofNode ⟨n, 1, f⟩).pageSize = a.pageSize := by
    unfold Probed.pageSize at24GetOfdata
    rcases a.ofNode with _ | ⟨readOnly, pagesize⟩ <;> rfl
  have hbytes : (at24GetOfdata a.ofNode ⟨2 ^ k, 1, flags⟩).byteLen = 2 ^ k := by
    unfold at24GetOfdata
    rcases a.ofNode with _ | ⟨readOnly, pagesize⟩ <;> rfl
  have hpos : ¬ a.pageSize = 0 := by omega
  refine ⟨⟨at24GetOfdata a.ofNode ⟨2 ^ k, 1, flags⟩, limit,
    if a.pageSize > limit then limit else a.pageSize⟩, ?_, hbytes, hsize _ _, ?_, rfl, ?_⟩
  · unfold at24Probe
    simp only [hchip, hsize, hpos, ↓reduceIte, hi2c, hdata, hbuf, Bool.not_true, Bool.false_and,
      Bool.false_eq_true]
  · rw [addr16_readonly]
    rfl
  · simp only
    split <;> omega

/-- **Entries of the table.** A part that is set up from an entry of the table is an array of bytes,
for every run of requests whose messages get through in time, exactly when it has at most `256`
bytes, or `65536` with two address bytes. -/
theorem probed_faithful_iff {b : Bus} (hk : k < 32) (hflags : flags < 256) (hio : 0 < io)
    (hlt : io < 65536) (hplat : a.platformData = none)
    (hmagic : a.driverData = at24DeviceMagic (2 ^ k) flags) (hpage : 0 < a.pageSize)
    (hi2c : a.funcI2c = true) (hdata : a.allocData = true) (hbuf : a.allocWritebuf = true)
    (hsize : b.part.size = 2 ^ k) (hdvd : a.pageSize ∣ b.part.pageSize)
    (hpages : b.part.pageSize ∣ b.part.size)
    (haddr : b.part.addrBytes = if flags &&& flagAddr16 ≠ 0 then 2 else 1) (ht : b.Timely) :
    ∃ limit d, at24Init io = .ok limit ∧ at24Probe a limit = .ok d ∧ d.chip.byteLen = 2 ^ k ∧
      ((∀ reqs, (∀ req ∈ reqs, Req.InRange b.part.size req) →
          (runWith (serve d) b reqs).1 = (runWith arrayServe b.cells reqs).1) ↔
        k ≤ 8 * b.part.addrBytes) := by
  obtain ⟨limit, hinit, hpos, hle⟩ := at24Init_ok hio hlt
  obtain ⟨d, hd, hbytes, hps, h16, hl, hmax⟩ :=
    at24Probe_ok hk hflags hplat hmagic hpage hi2c hdata hbuf limit
  have hfits : Fits d b.part := by
    refine ⟨by omega, by omega, by rw [hmax, hps, hl], by omega, by rwa [hps], ?_, hpages, ?_, ?_⟩
    · rw [hsize]
      exact Nat.pow_pos (by decide)
    · rw [hsize]
      exact Nat.pow_le_pow_right (show 0 < 2 by decide) (show k ≤ 31 by omega)
    · rw [haddr, h16]
      simp only [decide_eq_true_eq]
  refine ⟨limit, d, hinit, hd, hbytes, ?_⟩
  rw [faithful_iff hfits ht, hsize, show 256 = 2 ^ 8 from rfl, ← Nat.pow_mul]
  exact Nat.pow_le_pow_iff_right (by decide)

end

theorem probed_faithful_24c00 :
    ∃ limit d, at24Init 128 = .ok limit ∧
      at24Probe ⟨none, at24DeviceMagic (2 ^ 4) flagTake8addr, none, true, true, true, true⟩ limit =
        .ok d ∧ d.chip.byteLen = 2 ^ 4 ∧
      ((∀ reqs, (∀ req ∈ reqs, Req.InRange smallBus.part.size req) →
          (runWith (serve d) smallBus reqs).1 = (runWith arrayServe smallBus.cells reqs).1) ↔
        4 ≤ 8 * smallBus.part.addrBytes) :=
  probed_faithful_iff (by decide) (by decide) (by decide) (by decide) rfl rfl (by decide) rfl rfl
    rfl rfl (by decide) (by decide) (by decide) smallBus_timely

/-- Four parts of the table have more bytes than their address bytes reach. -/
theorem at24Ids_reach : ∀ id ∈ at24Ids, id.2 ≠ 0 →
    let k := id.2 &&& at24Bitmask at24SizeBytelen
    let flags := id.2 >>> at24SizeBytelen &&& at24Bitmask at24SizeFlags
    id.2 = at24DeviceMagic (2 ^ k) flags ∧
      (k ≤ 8 * (if flags &&& flagAddr16 ≠ 0 then 2 else 1) ↔
        id.1 ∉ ["24c04", "24c08", "24c16", "24c1024"]) := by
  decide

end LinuxDrivers.I2c.At24
