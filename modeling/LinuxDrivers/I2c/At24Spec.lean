import LinuxDrivers.I2c.At24
import LinuxDrivers.Lib.Chunks
import LinuxDrivers.Lib.Run

/-!
# The EEPROM driver as a byte array

A message programs a piece of one page, and sending it again programs the same piece. Reads and
writes are loops over such pieces, so what a request reports agrees with an array of bytes, whatever
transfers fail on the way. The driver puts at most two address bytes in front: past what they reach
the array repeats itself.
-/

namespace LinuxDrivers.I2c.At24

open Mem (ofList)

/-! ## The part -/

/-- What stays within a page is programmed where it was sent. -/
theorem Part.program_of_inPage {p : Part} {cells : Mem} {a : Nat} {bytes : List UInt8}
    (h : a % p.pageSize + bytes.length ≤ p.pageSize) :
    p.program cells a bytes = cells.store a bytes.length (ofList bytes) := by
  induction bytes generalizing cells a with
  | nil => simp [program]
  | cons byte bytes ih =>
    have happend : (cells.store a 1 fun _ => byte).store (a + 1) bytes.length (ofList bytes) =
        cells.store a (1 + bytes.length) (ofList (byte :: bytes)) := by
      rw [← Mem.store_store_append]
      congr 1
      · apply Mem.store_congr
        intro k hk
        obtain rfl : k = 0 := by omega
        rfl
      · funext k
        rw [Mem.window_apply, Nat.add_comm]
        rfl
    rw [List.length_cons] at h ⊢
    rw [Nat.add_comm bytes.length 1, ← happend]
    simp only [program]
    cases bytes with
    | nil => simp [program]
    | cons b bs =>
      rw [List.length_cons] at h
      have hnext : (a + 1) % p.pageSize = a % p.pageSize + 1 := by
        rw [Nat.add_mod, Nat.mod_eq_of_lt (show 1 < p.pageSize by omega)]
        exact Nat.mod_eq_of_lt (by omega)
      have hstep : p.next a = a + 1 := by
        unfold next
        rw [if_neg (by omega)]
      rw [hstep]
      apply ih
      rw [hnext, List.length_cons]
      omega

/-- A range of a page lies in a page that it divides. -/
theorem inPage_of_dvd {a n page page' : Nat} (hdvd : page ∣ page') (hpos : 0 < page')
    (h : a % page + n ≤ page) : a % page' + n ≤ page' := by
  obtain ⟨k, rfl⟩ := hdvd
  have hk : 0 < k := Nat.pos_of_mul_pos_left hpos
  have hlt : a / page % k + 1 ≤ k := Nat.mod_lt _ hk
  have hmul : page * (a / page % k + 1) ≤ page * k := Nat.mul_le_mul_left page hlt
  rw [Nat.mod_mul]
  rw [Nat.mul_add] at hmul
  omega

/-! ## What the driver expects of the part -/

/-- The driver is configured for the part; its `io_limit` is what `at24_init` leaves of a limit
below `65536`. -/
structure Fits (d : At24Data) (p : Part) : Prop where
  io_pos : 0 < d.ioLimit
  io_le : d.ioLimit ≤ 32768
  write_max : d.writeMax = min d.chip.pageSize d.ioLimit
  page_pos : 0 < d.chip.pageSize
  page_dvd : d.chip.pageSize ∣ p.pageSize
  size_pos : 0 < p.size
  size_dvd : p.pageSize ∣ p.size
  size_le : p.size ≤ 2147483648
  addr_bytes : p.addrBytes = if d.chip.addr16 then 2 else 1

variable {d : At24Data} {p : Part} {b b' : Bus}

namespace Fits

theorem page_le (h : Fits d p) : p.pageSize ≤ p.size := Nat.le_of_dvd h.size_pos h.size_dvd

theorem part_page_pos (h : Fits d p) : 0 < p.pageSize :=
  Nat.pos_of_dvd_of_pos h.size_dvd h.size_pos

theorem chip_page_le (h : Fits d p) : d.chip.pageSize ≤ p.pageSize :=
  Nat.le_of_dvd h.part_page_pos h.page_dvd

@[simp] theorem length_offsetBytes (h : Fits d p) (offset : Nat) :
    (offsetBytes d.chip offset).length = p.addrBytes := by
  rw [h.addr_bytes]
  unfold offsetBytes
  split <;> rfl

/-- The part takes the offset modulo what the address bytes reach. -/
theorem address_eq (h : Fits d p) (offset : Nat) (data : List UInt8) :
    p.address (offsetBytes d.chip offset ++ data) = offset % 256 ^ p.addrBytes % p.size := by
  unfold Part.address
  congr 1
  rw [List.take_left' (h.length_offsetBytes offset), h.addr_bytes]
  unfold offsetBytes
  split
  · simp [Nat.shiftRight_eq_div_pow]
    omega
  · simp

/-- The piece of a write: it ends with the buffer, with `write_max` or with the page. -/
theorem writeCount_eq (h : Fits d p) {offset count : Nat} (hcount : offset + count ≤ p.size)
    (hoff : offset < p.size) : writeCount d offset count =
      min (min count d.writeMax) (d.chip.pageSize - offset % d.chip.pageSize) := by
  have hsize := h.size_le
  have hpage := h.chip_page_le
  have hle := h.page_le
  have hpos := h.page_pos
  have hmod : offset % d.chip.pageSize < d.chip.pageSize := Nat.mod_lt _ hpos
  have hdiv : (offset + 1 + (d.chip.pageSize - 1)) / d.chip.pageSize * d.chip.pageSize =
      offset + (d.chip.pageSize - offset % d.chip.pageSize) := by
    rw [show offset + 1 + (d.chip.pageSize - 1) = offset + d.chip.pageSize by omega,
      Nat.add_div_right _ hpos, Nat.succ_mul, Nat.div_mul_self_eq_mod_sub_self]
    have := Nat.mod_le offset d.chip.pageSize
    omega
  have hround : roundup (u32 (offset + 1)) d.chip.pageSize =
      offset + (d.chip.pageSize - offset % d.chip.pageSize) := by
    unfold roundup u32
    rw [Nat.mod_eq_of_lt (show offset + 1 < 4294967296 by omega),
      Nat.mod_eq_of_lt (show offset + 1 + (d.chip.pageSize - 1) < 4294967296 by omega), hdiv]
    exact Nat.mod_eq_of_lt (by omega)
  unfold writeCount
  simp only [hround]
  unfold u32
  split <;> split <;> omega

theorem writeCount_pos (h : Fits d p) {offset count : Nat} (hcount : offset + count ≤ p.size)
    (hpos : 0 < count) : 0 < writeCount d offset count := by
  rw [h.writeCount_eq hcount (by omega), h.write_max]
  have := h.io_pos
  have := h.page_pos
  have hmod : offset % d.chip.pageSize < d.chip.pageSize := Nat.mod_lt _ h.page_pos
  omega

end Fits

/-! ## Sending a piece -/

/-- A message lies in one page of the part, and `writebuf` holds it. -/
def InPage (d : At24Data) (p : Part) (bytes : List UInt8) : Prop :=
  p.address bytes % p.pageSize + (bytes.length - p.addrBytes) ≤ p.pageSize ∧
    bytes.length ≤ d.writeMax + 2

/-- What the driver keeps: the bus is the same, and what it sends lies in a page. -/
structure Follows (d : At24Data) (b b' : Bus) : Prop where
  part_eq : b'.part = b.part
  fault_eq : b'.fault = b.fault
  repeats_eq : b'.repeats = b.repeats
  sent : ∀ bytes ∈ b'.sent, bytes ∈ b.sent ∨ InPage d b.part bytes

namespace Follows

theorem refl (d : At24Data) (b : Bus) : Follows d b b := ⟨rfl, rfl, rfl, fun _ => .inl⟩

theorem trans {b₁ b₂ b₃ : Bus} (h : Follows d b₁ b₂) (h' : Follows d b₂ b₃) : Follows d b₁ b₃ := by
  refine ⟨h'.part_eq.trans h.part_eq, h'.fault_eq.trans h.fault_eq,
    h'.repeats_eq.trans h.repeats_eq, fun bytes hb => ?_⟩
  rcases h'.sent bytes hb with hb | hb
  · exact h.sent bytes hb
  · exact .inr (h.part_eq ▸ hb)

end Follows

@[simp] theorem Bus.send_transfers (b : Bus) (bytes : List UInt8) :
    (b.send bytes).2.transfers = b.transfers + 1 := by
  unfold Bus.send
  split <;> rfl

/-- A message with data for the part's page. -/
structure Piece (d : At24Data) (p : Part) (offset : Nat) (bytes data : List UInt8) : Prop where
  drop_eq : bytes.drop p.addrBytes = data
  address : p.address bytes = offset
  page : offset % p.pageSize + data.length ≤ p.pageSize
  fits : bytes.length ≤ d.writeMax + 2
  pos : 0 < data.length

namespace Piece

variable {offset : Nat} {bytes data : List UInt8}

theorem inPage (h : Piece d p offset bytes data) : InPage d p bytes := by
  refine ⟨?_, h.fits⟩
  rw [h.address, ← List.length_drop, h.drop_eq]
  exact h.page

theorem follows (h : Piece d b.part offset bytes data) :
    Follows d b (b.send bytes).2 := by
  have hsent : (b.send bytes).2.sent = b.sent ++ [bytes] := by
    unfold Bus.send
    split <;> rfl
  refine ⟨?_, ?_, ?_, ?_⟩
  · unfold Bus.send
    split <;> rfl
  · unfold Bus.send
    split <;> rfl
  · unfold Bus.send
    split <;> rfl
  · intro x hx
    rw [hsent, List.mem_append, List.mem_singleton] at hx
    rcases hx with hx | rfl
    · exact .inl hx
    · exact .inr h.inPage

theorem send_ok (h : Piece d b.part offset bytes data) (hf : b.fault b.transfers = none) :
    (b.send bytes).1 = 1 ∧
      (b.send bytes).2.cells = b.cells.store offset data.length (ofList data) := by
  simp only [Bus.send, hf, h.drop_eq, h.address, true_and]
  exact Part.program_of_inPage h.page

theorem send_fault (h : Piece d b.part offset bytes data) {f : Fault}
    (hf : b.fault b.transfers = some f) :
    (b.send bytes).1 = -f.errno ∧ (b.send bytes).2.cells =
      b.cells.store offset (min f.moved data.length) (ofList data) := by
  simp only [Bus.send, hf, h.drop_eq, h.address, true_and]
  have hlen : (data.take f.moved).length = min f.moved data.length := List.length_take
  have hpage := h.page
  rw [Part.program_of_inPage (by omega), hlen]
  apply Mem.store_congr
  intro k hk
  simp only [ofList, List.getD_eq_getElem?_getD]
  rw [List.getElem?_take_of_lt (by omega)]

end Piece

/-! ### The attempts -/

section

variable {bytes : List UInt8} {count left : Nat} {errno : Nat}

theorem writeAttempts_ok (h : (b.send bytes).1 = 1) :
    writeAttempts bytes count left b = ((count : Int), (b.send bytes).2) := by
  unfold writeAttempts
  simp only [h, ↓reduceIte]

theorem writeAttempts_last (hcount : 0 < count) (h : (b.send bytes).1 = -(errno : Int)) :
    writeAttempts bytes count 0 b = (-ETIMEDOUT, (b.send bytes).2) := by
  have h1 : ¬ (-(errno : Int) = 1) := by omega
  have h2 : ¬ (-(errno : Int) = (count : Int)) := by omega
  simp only [writeAttempts, h, h1, h2, ↓reduceIte]

theorem writeAttempts_again (hcount : 0 < count) (h : (b.send bytes).1 = -(errno : Int)) :
    writeAttempts bytes count (left + 1) b = writeAttempts bytes count left (b.send bytes).2 := by
  have h1 : ¬ (-(errno : Int) = 1) := by omega
  have h2 : ¬ (-(errno : Int) = (count : Int)) := by omega
  conv_lhs => unfold writeAttempts
  simp only [h, h1, h2, ↓reduceIte]

end

/-- Every one of the next transfers fails, as often as they are repeated. -/
def Bus.Fails (b : Bus) (left : Nat) : Prop :=
  ∀ k ≤ left, b.fault (b.transfers + k) ≠ none

theorem Bus.fails_zero {f : Fault} (hf : b.fault b.transfers = some f) : b.Fails 0 := by
  intro k hk
  obtain rfl : k = 0 := by omega
  simp [hf]

theorem Bus.fails_succ {f : Fault} {left : Nat} (hf : b.fault b.transfers = some f)
    (hfault : b'.fault = b.fault) (htransfers : b'.transfers = b.transfers + 1)
    (h : b'.Fails left) : b.Fails (left + 1) := by
  intro k hk
  cases k with
  | zero => simp [hf]
  | succ k =>
    have hnext := h k (by omega)
    rwa [hfault, htransfers, Nat.add_assoc, Nat.add_comm 1 k] at hnext

/-- **A piece.** Its message gets through, or the time is over and some of it was programmed. -/
theorem writeAttempts_spec (left : Nat) {offset : Nat} {bytes data : List UInt8}
    (h : Piece d b.part offset bytes data) :
    ∃ b', Follows d b b' ∧
      (writeAttempts bytes data.length left b = ((data.length : Int), b') ∧
          b'.cells = b.cells.store offset data.length (ofList data) ∨
        b.Fails left ∧ ∃ m ≤ data.length,
          writeAttempts bytes data.length left b = (-ETIMEDOUT, b') ∧
            b'.cells = b.cells.store offset m (ofList data)) := by
  induction left generalizing b with
  | zero =>
    refine ⟨(b.send bytes).2, h.follows, ?_⟩
    cases hf : b.fault b.transfers with
    | none =>
      obtain ⟨hs, hc⟩ := h.send_ok hf
      exact .inl ⟨writeAttempts_ok hs, hc⟩
    | some f =>
      obtain ⟨hs, hc⟩ := h.send_fault hf
      exact .inr ⟨Bus.fails_zero hf, _, Nat.min_le_right _ _, writeAttempts_last h.pos hs, hc⟩
  | succ left ih =>
    cases hf : b.fault b.transfers with
    | none =>
      obtain ⟨hs, hc⟩ := h.send_ok hf
      exact ⟨(b.send bytes).2, h.follows, .inl ⟨writeAttempts_ok hs, hc⟩⟩
    | some f =>
      obtain ⟨hs, hc⟩ := h.send_fault hf
      have hnext : Piece d (b.send bytes).2.part offset bytes data := by
        rw [h.follows.part_eq]
        exact h
      obtain ⟨b', hfol, hb'⟩ := ih hnext
      refine ⟨b', h.follows.trans hfol, ?_⟩
      rw [writeAttempts_again h.pos hs]
      rw [hc] at hb'
      -- what the failing message programmed is programmed again
      rcases hb' with ⟨hr, hcells⟩ | ⟨hfails, m, hm, hr, hcells⟩
      · refine .inl ⟨hr, ?_⟩
        rw [hcells, Mem.store_store_max, Nat.max_eq_right (Nat.min_le_right _ _)]
      · refine .inr ⟨Bus.fails_succ hf h.follows.fault_eq (b.send_transfers bytes) hfails,
          max (min f.moved data.length) m, by omega, hr, ?_⟩
        rw [hcells, Mem.store_store_max]

/-! ## Receiving a piece -/

section

variable {bytes : List UInt8} {count left : Nat} {buf : Mem} {offset : Nat}

theorem Follows.sendReceive (d : At24Data) (b : Bus) (bytes : List UInt8) (len : Nat) (buf : Mem) :
    Follows d b (b.sendReceive bytes len buf).2.2 := by
  unfold Bus.sendReceive
  split <;> exact ⟨rfl, rfl, rfl, fun _ => .inl⟩

@[simp] theorem Bus.sendReceive_cells (b : Bus) (bytes : List UInt8) (len : Nat) (buf : Mem) :
    (b.sendReceive bytes len buf).2.2.cells = b.cells := by
  unfold Bus.sendReceive
  split <;> rfl

@[simp] theorem Bus.sendReceive_transfers (b : Bus) (bytes : List UInt8) (len : Nat) (buf : Mem) :
    (b.sendReceive bytes len buf).2.2.transfers = b.transfers + 1 := by
  unfold Bus.sendReceive
  split <;> rfl

/-- What the part delivers from a cell on, as far as the memory goes. -/
theorem Part.store_sequential {p : Part} {cells : Mem} {n len : Nat} (hn : n ≤ len)
    (hlen : offset + len ≤ p.size) :
    buf.store 0 n (p.sequential cells offset) = buf.store 0 n (cells.window offset) := by
  apply Mem.store_congr
  intro k hk
  simp only [sequential, Mem.window_apply]
  rw [Nat.mod_eq_of_lt (by omega)]

theorem Bus.sendReceive_ok (hf : b.fault b.transfers = none) (ha : b.part.address bytes = offset)
    (hlen : offset + count ≤ b.part.size) :
    (b.sendReceive bytes count buf).1 = 2 ∧
      (b.sendReceive bytes count buf).2.1 = buf.store 0 count (b.cells.window offset) := by
  simp only [sendReceive, hf, ha, true_and]
  exact Part.store_sequential (Nat.le_refl _) hlen

theorem Bus.sendReceive_fault {f : Fault} (hf : b.fault b.transfers = some f)
    (ha : b.part.address bytes = offset) (hlen : offset + count ≤ b.part.size) :
    (b.sendReceive bytes count buf).1 = -f.errno ∧ (b.sendReceive bytes count buf).2.1 =
      buf.store 0 (min f.moved count) (b.cells.window offset) := by
  simp only [sendReceive, hf, ha, true_and]
  exact Part.store_sequential (Nat.min_le_right _ _) hlen

theorem readAttempts_ok (hc : count < 65536) (h : (b.sendReceive bytes count buf).1 = 2) :
    readAttempts bytes count left b buf =
      ((count : Int), (b.sendReceive bytes count buf).2.1,
      (b.sendReceive bytes count buf).2.2) := by
  unfold readAttempts
  simp only [Nat.mod_eq_of_lt hc, h, ↓reduceIte]

theorem readAttempts_last {errno : Nat} (hpos : 0 < count) (hc : count < 65536)
    (h : (b.sendReceive bytes count buf).1 = -(errno : Int)) :
    readAttempts bytes count 0 b buf =
      (-ETIMEDOUT, (b.sendReceive bytes count buf).2.1, (b.sendReceive bytes count buf).2.2) := by
  have h1 : ¬ (-(errno : Int) = 2) := by omega
  have h2 : ¬ (-(errno : Int) = (count : Int)) := by omega
  simp only [readAttempts, Nat.mod_eq_of_lt hc, h, h1, h2, ↓reduceIte]

theorem readAttempts_again {errno : Nat} (hpos : 0 < count) (hc : count < 65536)
    (h : (b.sendReceive bytes count buf).1 = -(errno : Int)) :
    readAttempts bytes count (left + 1) b buf =
      readAttempts bytes count left (b.sendReceive bytes count buf).2.2
        (b.sendReceive bytes count buf).2.1 := by
  have h1 : ¬ (-(errno : Int) = 2) := by omega
  have h2 : ¬ (-(errno : Int) = (count : Int)) := by omega
  conv_lhs => unfold readAttempts
  simp only [Nat.mod_eq_of_lt hc, h, h1, h2, ↓reduceIte]

theorem readAttempts_spec (d : At24Data) (left : Nat) (buf : Mem)
    (ha : b.part.address bytes = offset)
    (hlen : offset + count ≤ b.part.size) (hpos : 0 < count) (hc : count < 65536) :
    ∃ buf' b', Follows d b b' ∧ b'.cells = b.cells ∧
      (readAttempts bytes count left b buf = ((count : Int), buf', b') ∧
          buf' = buf.store 0 count (b.cells.window offset) ∨
        b.Fails left ∧ ∃ m ≤ count, readAttempts bytes count left b buf = (-ETIMEDOUT, buf', b') ∧
          buf' = buf.store 0 m (b.cells.window offset)) := by
  induction left generalizing b buf with
  | zero =>
    refine ⟨(b.sendReceive bytes count buf).2.1, (b.sendReceive bytes count buf).2.2,
      Follows.sendReceive d b bytes count buf, b.sendReceive_cells bytes count buf, ?_⟩
    cases hf : b.fault b.transfers with
    | none =>
      obtain ⟨hs, hb⟩ := Bus.sendReceive_ok hf ha hlen
      exact .inl ⟨readAttempts_ok hc hs, hb⟩
    | some f =>
      obtain ⟨hs, hb⟩ := Bus.sendReceive_fault hf ha hlen
      exact .inr ⟨Bus.fails_zero hf, _, Nat.min_le_right _ _, readAttempts_last hpos hc hs, hb⟩
  | succ left ih =>
    have hfol := Follows.sendReceive d b bytes count buf
    have hcells := b.sendReceive_cells bytes count buf
    cases hf : b.fault b.transfers with
    | none =>
      obtain ⟨hs, hb⟩ := Bus.sendReceive_ok hf ha hlen
      exact ⟨_, _, hfol, hcells, .inl ⟨readAttempts_ok hc hs, hb⟩⟩
    | some f =>
      obtain ⟨hs, hb⟩ := Bus.sendReceive_fault hf ha hlen
      rw [← hfol.part_eq] at ha hlen
      obtain ⟨buf', b', hfol', hcells', h⟩ := ih (b.sendReceive bytes count buf).2.1 ha hlen
      refine ⟨buf', b', hfol.trans hfol', hcells'.trans hcells, ?_⟩
      rw [readAttempts_again hpos hc hs, hb]
      rw [hcells, hb] at h
      rcases h with ⟨hr, hbuf⟩ | ⟨hfails, m, hm, hr, hbuf⟩
      · refine .inl ⟨hr, ?_⟩
        rw [hbuf, Mem.store_store_max, Nat.max_eq_right (Nat.min_le_right _ _)]
      · refine .inr ⟨Bus.fails_succ hf hfol.fault_eq
          (b.sendReceive_transfers bytes count buf) hfails,
          max (min f.moved count) m, by omega, hr, ?_⟩
        rw [hbuf, Mem.store_store_max]

end

/-! ## Pieces of a request -/

/-- The cells that the range from `off` on means to the part: from `e` on. -/
structure Lands (d : At24Data) (p : Part) (off e count : Nat) : Prop where
  off_le : off + count ≤ p.size
  le : e + count ≤ p.size
  reach : ∀ k < count, (off + k) % 256 ^ p.addrBytes % p.size = e + k
  page : ∀ k n, k + n ≤ count → (off + k) % d.chip.pageSize + n ≤ d.chip.pageSize →
    (e + k) % p.pageSize + n ≤ p.pageSize

/-- Within what the address bytes reach, the part takes the offsets as they are. -/
theorem Fits.lands (h : Fits d p) (hwin : p.size ≤ 256 ^ p.addrBytes) {off count : Nat}
    (hoff : off + count ≤ p.size) : Lands d p off off count := by
  refine ⟨hoff, hoff, fun k hk => ?_, fun k n _ hpage => ?_⟩
  · have hlt : off + k < p.size := by omega
    rw [Nat.mod_eq_of_lt (Nat.lt_of_lt_of_le hlt hwin), Nat.mod_eq_of_lt hlt]
  · exact inPage_of_dvd h.page_dvd h.part_page_pos hpage

/-- A single byte lands somewhere. -/
theorem Fits.lands_one (h : Fits d p) {off : Nat} (hoff : off < p.size) :
    Lands d p off (off % 256 ^ p.addrBytes % p.size) 1 := by
  have hlt : off % 256 ^ p.addrBytes % p.size < p.size := Nat.mod_lt _ h.size_pos
  refine ⟨hoff, hlt, fun k hk => ?_, fun k n hk hpage => ?_⟩
  · obtain rfl : k = 0 := by omega
    rfl
  · have hmod := Nat.mod_lt (off % 256 ^ p.addrBytes % p.size + k) h.part_page_pos
    omega

theorem Lands.drop {off e count k : Nat} (h : Lands d p off e count) (hk : k ≤ count) :
    Lands d p (off + k) (e + k) (count - k) := by
  have hoff := h.off_le
  have hle := h.le
  refine ⟨by omega, by omega, fun j hj => ?_, fun j n hj hpage => ?_⟩
  · rw [Nat.add_assoc, h.reach (k + j) (by omega), Nat.add_assoc]
  · rw [Nat.add_assoc] at hpage ⊢
    exact h.page (k + j) n (by omega) hpage

/-- The range of a request is one of `unsigned` offsets. -/
theorem Lands.u32_eq {off e count : Nat} (h : Lands d p off e count) (hd : Fits d p)
    (hpos : 0 < count) : u32 off = off := by
  have hoff := h.off_le
  have hsize := hd.size_le
  exact Nat.mod_eq_of_lt (by omega)

theorem at24EepromWrite_spec (hd : Fits d b.part) {off e count : Nat} (buf : Mem)
    (hl : Lands d b.part off e count) (hpos : 0 < count) :
    ∃ n b', 0 < n ∧ n ≤ count ∧ n ≤ d.writeMax ∧ Follows d b b' ∧
      (at24EepromWrite d b buf off count = ((n : Int), b') ∧ b'.cells = b.cells.store e n buf ∨
        b.Fails (b.repeats b.transfers) ∧ ∃ m ≤ n,
          at24EepromWrite d b buf off count = (-ETIMEDOUT, b') ∧
            b'.cells = b.cells.store e m buf) := by
  have hoff : off + count ≤ b.part.size := hl.off_le
  have hn := hd.writeCount_eq hoff (by omega)
  have hnpos := hd.writeCount_pos hoff hpos
  have hmax := hd.write_max
  have hio := hd.io_le
  have haddr : b.part.addrBytes ≤ 2 := by
    rw [hd.addr_bytes]
    split <;> omega
  have hpiece : Piece d b.part e (offsetBytes d.chip off ++ buf.load 0 (writeCount d off count))
      (buf.load 0 (writeCount d off count)) := by
    refine ⟨?_, ?_, ?_, ?_, ?_⟩
    · exact List.drop_left' (hd.length_offsetBytes off)
    · rw [hd.address_eq]
      exact hl.reach 0 hpos
    · rw [Mem.length_load]
      apply hl.page 0 _ (by omega)
      have hmod : off % d.chip.pageSize < d.chip.pageSize := Nat.mod_lt _ hd.page_pos
      rw [Nat.add_zero]
      omega
    · rw [List.length_append, hd.length_offsetBytes, Mem.length_load]
      omega
    · rw [Mem.length_load]
      exact hnpos
  have hlen : (offsetBytes d.chip off ++ buf.load 0 (writeCount d off count)).length < 65536 := by
    have := hpiece.fits
    omega
  have hbuf (m : Nat) (hm : m ≤ writeCount d off count) :
      b.cells.store e m (ofList (buf.load 0 (writeCount d off count))) = b.cells.store e m buf := by
    apply Mem.store_congr
    intro k hk
    exact Mem.ofList_load (by omega)
  obtain ⟨b', hfol, h⟩ := writeAttempts_spec (b.repeats b.transfers) hpiece
  refine ⟨writeCount d off count, b', hnpos, by omega, by omega, hfol, ?_⟩
  unfold at24EepromWrite
  simp only [Nat.mod_eq_of_lt hlen, List.take_length]
  rw [Mem.length_load] at h
  rcases h with ⟨hr, hc⟩ | ⟨hfails, m, hm, hr, hc⟩
  · exact .inl ⟨hr, by rw [hc, hbuf _ (Nat.le_refl _)]⟩
  · exact .inr ⟨hfails, m, hm, hr, by rw [hc, hbuf m hm]⟩

theorem at24EepromRead_spec (hd : Fits d b.part) {off e count : Nat} (buf : Mem)
    (hl : Lands d b.part off e count) (hpos : 0 < count) :
    ∃ n buf' b', 0 < n ∧ n ≤ count ∧ n ≤ d.ioLimit ∧ Follows d b b' ∧ b'.cells = b.cells ∧
      (at24EepromRead d b buf off count = ((n : Int), buf', b') ∧
          buf' = buf.store 0 n (b.cells.window e) ∨
        b.Fails (b.repeats b.transfers) ∧ ∃ m ≤ n,
          at24EepromRead d b buf off count = (-ETIMEDOUT, buf', b') ∧
            buf' = buf.store 0 m (b.cells.window e)) := by
  have hio := hd.io_pos
  have hle := hd.io_le
  have hsize := hl.le
  have haddr : b.part.address (offsetBytes d.chip off) = e := by
    have h := hd.address_eq off []
    rw [List.append_nil] at h
    rw [h]
    exact hl.reach 0 hpos
  have hn : (if count > d.ioLimit then d.ioLimit else count) = min count d.ioLimit := by
    split <;> omega
  obtain ⟨buf', b', hfol, hcells, h⟩ := readAttempts_spec d (b.repeats b.transfers) buf haddr
    (show e + min count d.ioLimit ≤ b.part.size by omega) (by omega) (by omega)
  refine ⟨min count d.ioLimit, buf', b', by omega, by omega, by omega, hfol, hcells, ?_⟩
  unfold at24EepromRead
  rw [hn]
  exact h

/-! ## Whole requests -/

/-- Some attempt at every message is in time. -/
def Bus.Timely (b : Bus) : Prop := ∀ n, ∃ k ≤ b.repeats n, b.fault (n + k) = none

theorem Bus.Timely.not_fails (h : b.Timely) : ¬ b.Fails (b.repeats b.transfers) := by
  obtain ⟨k, hk, hok⟩ := h b.transfers
  exact fun hf => hf k hk hok

theorem Follows.timely (h : Follows d b b') (ht : b.Timely) : b'.Timely := by
  intro n
  rw [h.repeats_eq, h.fault_eq]
  exact ht n

/-- One turn of `at24_write`, which has moved `pos` bytes. -/
def writeTurn (d : At24Data) (buf : Mem) (off : Nat) (b : Bus) (pos count : Nat) : Int × Bus :=
  at24EepromWrite d b (buf.window pos) (u32 (off + pos)) count

theorem writeLoop_eq_chunkLoop (d : At24Data) (buf : Mem) (off fuel : Nat) (b : Bus)
    (count retval : Nat) :
    writeLoop d fuel b (buf.window retval) (off + retval) count retval =
      chunkLoop (writeTurn d buf off) fuel b retval count := by
  induction fuel generalizing b count retval with
  | zero => rfl
  | succ fuel ih =>
    have hwin (n : Nat) : (buf.window retval).window n = buf.window (retval + n) := by
      funext k
      simp only [Mem.window_apply, Nat.add_assoc]
    simp only [writeLoop, chunkLoop, writeTurn, hwin, Nat.add_assoc, ih]
    rfl

/-- One turn of `at24_read`. -/
def readTurn (d : At24Data) (off : Nat) (s : Mem × Bus) (pos count : Nat) : Int × Mem × Bus :=
  let (status, rest, b') := at24EepromRead d s.2 (s.1.window pos) (u32 (off + pos)) count
  (status, s.1.store pos count rest, b')

theorem readLoop_eq_chunkLoop (d : At24Data) (off fuel : Nat) (b : Bus) (buf : Mem)
    (count retval : Nat) :
    readLoop d fuel b buf (off + retval) count retval =
      chunkLoop (readTurn d off) fuel (buf, b) retval count := by
  induction fuel generalizing b buf count retval with
  | zero => rfl
  | succ fuel ih =>
    simp only [readLoop, chunkLoop, readTurn, Nat.add_assoc, ih]
    rfl

section

variable {off e count : Nat} {buf : Mem}

/-- The first `pos` bytes of a write are programmed. -/
def Written (d : At24Data) (b : Bus) (buf : Mem) (e pos : Nat) (b' : Bus) : Prop :=
  Follows d b b' ∧ b'.cells = b.cells.store e pos buf

/-- At least the first `pos` bytes of a write are programmed, and no more than a message beyond. -/
def WrittenTo (d : At24Data) (b : Bus) (buf : Mem) (e total pos : Nat) (b' : Bus) : Prop :=
  ∃ m, pos ≤ m ∧ m ≤ total ∧ m ≤ pos + d.writeMax ∧ Written d b buf e m b'

theorem writeTurn_spec (hd : Fits d b.part) (hl : Lands d b.part off e count) {pos rest : Nat}
    (hw : Written d b buf e pos b') (hrest : 0 < rest) (htotal : pos + rest = count) :
    (∃ n s, 0 < n ∧ n ≤ rest ∧ writeTurn d buf off b' pos rest = ((n : Int), s) ∧
        Written d b buf e (pos + n) s) ∨
      ∃ s, writeTurn d buf off b' pos rest = (-ETIMEDOUT, s) ∧
        WrittenTo d b buf e count pos s ∧ ¬ b.Timely := by
  obtain ⟨hfol, hcells⟩ := hw
  have hl' := hl.drop (show pos ≤ count by omega)
  rw [show count - pos = rest by omega, ← hfol.part_eq] at hl'
  have hd' : Fits d b'.part := by
    rw [hfol.part_eq]
    exact hd
  obtain ⟨n, s, hn, hle, hmax, hfol', h⟩ := at24EepromWrite_spec hd' (buf.window pos) hl' hrest
  have hstore (m : Nat) : b'.cells.store (e + pos) m (buf.window pos) =
      b.cells.store e (pos + m) buf := by
    rw [hcells, Mem.store_store_append]
  unfold writeTurn
  rw [hl'.u32_eq hd' hrest]
  rcases h with ⟨hr, hc⟩ | ⟨hfails, m, hm, hr, hc⟩
  · exact .inl ⟨n, s, hn, hle, hr, hfol.trans hfol', hc.trans (hstore n)⟩
  · refine .inr ⟨s, hr, ⟨pos + m, by omega, by omega, by omega, hfol.trans hfol',
      hc.trans (hstore m)⟩, fun ht => ?_⟩
    exact (hfol.timely ht).not_fails hfails

/-- **`at24_write`.** It programs the whole buffer, or a message timed out: then it reports the
bytes before that message, of which some more may have arrived. -/
theorem at24Write_spec (buf : Mem) (hd : Fits d b.part) (hl : Lands d b.part off e count) :
    ∃ b', (at24Write d b buf off count = ((count : Int), b') ∧ Written d b buf e count b') ∨
      ∃ j < count, at24Write d b buf off count = (if j = 0 then -ETIMEDOUT else (j : Int), b') ∧
        WrittenTo d b buf e count j b' ∧ ¬ b.Timely := by
  by_cases hc : count = 0
  · subst hc
    refine ⟨b, .inl ⟨rfl, Follows.refl d b, ?_⟩⟩
    rw [Mem.store_zero]
  have hstart : Written d b buf e 0 b := ⟨Follows.refl d b, (Mem.store_zero _ _ _).symm⟩
  have hloop := writeLoop_eq_chunkLoop d buf off count b count 0
  rw [show buf.window 0 = buf from funext fun k => by rw [Mem.window_apply, Nat.zero_add],
    Nat.add_zero] at hloop
  unfold at24Write
  rw [if_neg hc, hloop]
  rcases chunkLoop_spec (show -ETIMEDOUT ≤ 0 by decide)
    (fun s pos rest hs hrest ht => writeTurn_spec hd hl hs hrest ht) hstart (Nat.le_refl count)
    (Nat.zero_add count) with ⟨b', hr, hw⟩ | ⟨j, b', _, hj, hr, hw⟩
  · exact ⟨b', .inl ⟨hr, hw⟩⟩
  · exact ⟨b', .inr ⟨j, hj, hr, hw⟩⟩

/-- The first `pos` bytes of a read are in the buffer. -/
def Fetched (d : At24Data) (b : Bus) (buf : Mem) (e pos : Nat) (s : Mem × Bus) : Prop :=
  Follows d b s.2 ∧ s.2.cells = b.cells ∧ s.1 = buf.store 0 pos (b.cells.window e)

theorem readTurn_spec (hd : Fits d b.part) (hl : Lands d b.part off e count) {pos rest : Nat}
    {s : Mem × Bus} (hs : Fetched d b buf e pos s) (hrest : 0 < rest)
    (htotal : pos + rest = count) :
    (∃ n t, 0 < n ∧ n ≤ rest ∧ readTurn d off s pos rest = ((n : Int), t) ∧
        Fetched d b buf e (pos + n) t) ∨
      ∃ t, readTurn d off s pos rest = (-ETIMEDOUT, t) ∧
        (∃ m, pos ≤ m ∧ Fetched d b buf e m t) ∧ ¬ b.Timely := by
  obtain ⟨hfol, hcells, hbuf⟩ := hs
  have hl' := hl.drop (show pos ≤ count by omega)
  rw [show count - pos = rest by omega, ← hfol.part_eq] at hl'
  have hd' : Fits d s.2.part := by
    rw [hfol.part_eq]
    exact hd
  obtain ⟨n, buf', b', hn, hle, hmax, hfol', hcells', h⟩ :=
    at24EepromRead_spec hd' (s.1.window pos) hl' hrest
  have hstore (m : Nat) (hm : m ≤ rest) :
      s.1.store pos rest ((s.1.window pos).store 0 m (s.2.cells.window (e + pos))) =
        buf.store 0 (pos + m) (b.cells.window e) := by
    have happend : s.1.store pos m (s.2.cells.window (e + pos)) =
        buf.store 0 (pos + m) (b.cells.window e) := by
      rw [← Mem.store_store_append, ← hbuf, Nat.zero_add, hcells]
      congr 1
      funext k
      simp only [Mem.window_apply, Nat.add_assoc]
    rw [← happend]
    funext x
    by_cases hx : pos ≤ x ∧ x < pos + rest
    · rw [Mem.store_of_mem hx]
      by_cases hxm : x < pos + m
      · rw [Mem.store_of_mem (by omega), Mem.store_of_mem (by omega), Nat.sub_zero]
      · rw [Mem.store_of_not_mem (by omega), Mem.store_of_not_mem (by omega), Mem.window_apply,
          Nat.add_sub_cancel' hx.1]
    · rw [Mem.store_of_not_mem (by omega), Mem.store_of_not_mem (by omega)]
  unfold readTurn
  rw [hl'.u32_eq hd' hrest]
  rcases h with ⟨hr, hb⟩ | ⟨hfails, m, hm, hr, hb⟩
  · refine .inl ⟨n, (s.1.store pos rest buf', b'), hn, hle, by rw [hr], hfol.trans hfol',
      hcells'.trans hcells, ?_⟩
    rw [hb]
    exact hstore n hle
  · refine .inr ⟨(s.1.store pos rest buf', b'), by rw [hr], ⟨pos + m, by omega, hfol.trans hfol',
      hcells'.trans hcells, ?_⟩, fun ht => (hfol.timely ht).not_fails hfails⟩
    rw [hb]
    exact hstore m (by omega)

/-- **`at24_read`.** It delivers everything, or a message timed out: then what it reports was
delivered. -/
theorem at24Read_spec (buf : Mem) (hd : Fits d b.part) (hl : Lands d b.part off e count) :
    ∃ t : Mem × Bus, (at24Read d b buf off count = ((count : Int), t) ∧ Fetched d b buf e count t) ∨
      ∃ j < count, at24Read d b buf off count = (if j = 0 then -ETIMEDOUT else (j : Int), t) ∧
        (∃ m, j ≤ m ∧ Fetched d b buf e m t) ∧ ¬ b.Timely := by
  by_cases hc : count = 0
  · subst hc
    refine ⟨(buf, b), .inl ⟨rfl, Follows.refl d b, rfl, ?_⟩⟩
    rw [Mem.store_zero]
  have hstart : Fetched d b buf e 0 (buf, b) :=
    ⟨Follows.refl d b, rfl, (Mem.store_zero _ _ _).symm⟩
  have hloop := readLoop_eq_chunkLoop d off count b buf count 0
  rw [Nat.add_zero] at hloop
  unfold at24Read
  rw [if_neg hc, hloop]
  rcases chunkLoop_spec (show -ETIMEDOUT ≤ 0 by decide)
    (fun s pos rest hs hrest ht => readTurn_spec hd hl hs hrest ht) hstart (Nat.le_refl count)
    (Nat.zero_add count) with ⟨t, hr, hw⟩ | ⟨j, t, _, hj, hr, hw⟩
  · exact ⟨t, .inl ⟨hr, hw⟩⟩
  · exact ⟨t, .inr ⟨j, hj, hr, hw⟩⟩

end

end LinuxDrivers.I2c.At24
