import LinuxDrivers.Akpfs.Driver

/-!
# What the driver does

On a volume with blocks of 4096 bytes and areas that do not overlap, and without read failures, the
functions of the driver come down to operations on the image: inode `ino` stands at `inodeAddr`, the
free bits are one bitmap at `bitsAddr`, and a free block is the first clear bit below `block_cnt`.
The number of a bit is an `unsigned int`, so a bitmap of more than `2 ^ 32` bits can give out
another one.
-/

namespace LinuxDrivers.Akpfs

/-- Areas that follow one another and a bitmap that covers all blocks. -/
structure Geometry (sb : Sb) : Prop where
  blockSize : sb.blockSize = 4096
  inodesPerBlock : sb.inodesPerBlock = 32
  freeBitsPerBlock : sb.freeBitsPerBlock = 32768
  inodes_pos : 1 ≤ sb.inodesBlockStart.toNat
  inodes_le : sb.inodesBlockStart.toNat + sb.inodesBlockCnt.toNat ≤ sb.freeBitsBlockStart.toNat
  bits_le : sb.freeBitsBlockStart.toNat + sb.freeBitsBlockCnt.toNat ≤ sb.dataBlockStart.toNat
  cover : sb.blockCnt.toNat ≤ 32768 * sb.freeBitsBlockCnt.toNat

/-- Every free bit has a number that fits an `unsigned int`. -/
def BitsNumbered (sb : Sb) : Prop := 32768 * sb.freeBitsBlockCnt.toNat ≤ 4294967296

instance (sb : Sb) : Decidable (BitsNumbered sb) := inferInstanceAs (Decidable (_ ≤ _))

/-- The inode lies in the inode blocks. -/
def InTable (sb : Sb) (ino : UInt32) : Prop := ino.toNat < 32 * sb.inodesBlockCnt.toNat

instance (sb : Sb) (ino : UInt32) : Decidable (InTable sb ino) :=
  inferInstanceAs (Decidable (_ < _))

/-- The address of an inode. -/
def inodeAddr (sb : Sb) (ino : UInt32) : Nat := sb.inodesBlockStart.toNat * 4096 + ino.toNat * 128

/-- Inode `ino` of an image. -/
def inode (sb : Sb) (data : Mem) (ino : UInt32) : Inode := .ofMem (data.window (inodeAddr sb ino))

/-- The address of the free bits. -/
def bitsAddr (sb : Sb) : Nat := sb.freeBitsBlockStart.toNat * 4096

/-- The first block below `block_cnt` whose bit is clear. -/
def freeBlock (sb : Sb) (data : Mem) : Option Nat :=
  findFrom (fun b => !data.bit (bitsAddr sb) b) sb.blockCnt.toNat 0

namespace Fs

/-- The volume after `k` reads and with the image `data`. -/
def after (fs : Fs) (k : Nat) (data : Mem) : Fs :=
  { fs with dev := { fs.dev with data, reads := fs.dev.reads + k } }

@[simp] theorem after_data (fs : Fs) (k : Nat) (data : Mem) : (fs.after k data).dev.data = data :=
  rfl

@[simp] theorem after_sb (fs : Fs) (k : Nat) (data : Mem) : (fs.after k data).sb = fs.sb := rfl

@[simp] theorem after_after (fs : Fs) (k l : Nat) (data data' : Mem) :
    (fs.after k data).after l data' = fs.after (k + l) data' := by
  simp only [after, Nat.add_assoc]

theorem after_zero (fs : Fs) : fs = fs.after 0 fs.dev.data := rfl

theorem setWord_after (fs : Fs) (k : Nat) (data : Mem) (a : Nat) (w : UInt32) :
    (fs.after k data).setWord a w = fs.after k (data.setWord a w) := rfl

theorem sbBread_of_ok {fs : Fs} (h : fs.dev.fails fs.dev.reads = false) (n : UInt32) :
    fs.sbBread n = (some (fs.dev.data.window (fs.blockAddr n)), fs.after 1 fs.dev.data) := by
  simp only [sbBread, Device.sbBread_of_ok h]
  rfl

theorem sbBread_of_fails {fs : Fs} (h : fs.dev.fails fs.dev.reads = true) (n : UInt32) :
    fs.sbBread n = (none, fs.after 1 fs.dev.data) := by
  simp only [sbBread, Device.sbBread_of_fails h]
  rfl

end Fs

/-- Free bits over any number of blocks. -/
structure Bitmapped (fs : Fs) : Prop where
  blocksize : fs.dev.blocksize = 4096
  freeBitsPerBlock : fs.sb.freeBitsPerBlock = 32768
  bits_le : fs.sb.freeBitsBlockStart.toNat + fs.sb.freeBitsBlockCnt.toNat ≤ 4294967296
  cover : fs.sb.blockCnt.toNat ≤ 32768 * fs.sb.freeBitsBlockCnt.toNat

namespace Bitmapped

variable {fs : Fs}

theorem after (h : Bitmapped fs) (k : Nat) (data : Mem) : Bitmapped (fs.after k data) :=
  ⟨h.blocksize, h.freeBitsPerBlock, h.bits_le, h.cover⟩

theorem blockAddr (h : Bitmapped fs) (n : UInt32) : fs.blockAddr n = n.toNat * 4096 := by
  unfold Fs.blockAddr
  rw [h.blocksize]

end Bitmapped

theorem Geometry.bitmapped {fs : Fs} (h : Geometry fs.sb) (hsize : fs.dev.blocksize = 4096) :
    Bitmapped fs where
  blocksize := hsize
  freeBitsPerBlock := h.freeBitsPerBlock
  bits_le := by
    have hle := h.bits_le
    have hlt : fs.sb.dataBlockStart.toNat < 4294967296 := fs.sb.dataBlockStart.toNat_lt
    omega
  cover := h.cover

/-- A working volume. -/
structure Working (fs : Fs) : Prop where
  reliable : fs.dev.Reliable
  blocksize : fs.dev.blocksize = 4096
  geometry : Geometry fs.sb

namespace Working

variable {fs : Fs}

theorem after (h : Working fs) (k : Nat) (data : Mem) : Working (fs.after k data) :=
  ⟨h.reliable, h.blocksize, h.geometry⟩

theorem bitmapped (h : Working fs) : Bitmapped fs := h.geometry.bitmapped h.blocksize

end Working

theorem slotAddr_natCast (a i : Nat) : slotAddr a i = a + 20 + 4 * i := by
  unfold slotAddr
  omega

/-- `akpfs_get_inode` gives the address of the inode. -/
theorem getInode_of_ok {fs : Fs} (hg : Geometry fs.sb) (hsize : fs.dev.blocksize = 4096)
    {ino : UInt32} (hino : InTable fs.sb ino) (hread : fs.dev.fails fs.dev.reads = false) :
    getInode fs ino = (some (inodeAddr fs.sb ino), fs.after 1 fs.dev.data) := by
  unfold InTable at hino
  have hle := hg.inodes_le
  have hlt : fs.sb.freeBitsBlockStart.toNat < 4294967296 := fs.sb.freeBitsBlockStart.toNat_lt
  have hblock : (fs.sb.inodesBlockStart + ino / 32).toNat =
      fs.sb.inodesBlockStart.toNat + ino.toNat / 32 := by
    rw [UInt32.toNat_add, UInt32.toNat_div]
    simp only [UInt32.reduceToNat]
    omega
  unfold getInode
  simp only [hg.inodesPerBlock, Fs.sbBread_of_ok hread]
  rw [((hg.bitmapped hsize).after 1 _).blockAddr, Fs.after_sb, hg.inodesPerBlock, hblock,
    UInt32.toNat_mod]
  simp only [UInt32.reduceToNat]
  have haddr : (fs.sb.inodesBlockStart.toNat + ino.toNat / 32) * 4096 + ino.toNat % 32 * 128 =
      inodeAddr fs.sb ino := by
    unfold inodeAddr
    omega
  rw [haddr]

theorem getInode_of_fails {fs : Fs} (hread : fs.dev.fails fs.dev.reads = true) (ino : UInt32) :
    getInode fs ino = (none, fs.after 1 fs.dev.data) := by
  unfold getInode
  simp only [Fs.sbBread_of_fails hread]

theorem getInode_eq {fs : Fs} (h : Working fs) {ino : UInt32} (hino : InTable fs.sb ino) :
    getInode fs ino = (some (inodeAddr fs.sb ino), fs.after 1 fs.dev.data) :=
  getInode_of_ok h.geometry h.blocksize hino (h.reliable _)

/-! ## Free blocks -/

/-- The free bits of block `bi` are searched when it can be read. -/
theorem findFreeByte_succ {fs : Fs} (h : Bitmapped fs) {n bi : Nat}
    (hn : bi + (n + 1) = fs.sb.freeBitsBlockCnt.toNat) (hread : fs.dev.fails fs.dev.reads = false) :
    findFreeByte (n + 1) (.ofNat bi) fs =
      match findFrom (fun e => fs.dev.data (bitsAddr fs.sb + e) != 0xFF) 4096 (4096 * bi) with
      | some e => (.ok (some (UInt32.ofNat (e / 4096), e % 4096)), fs.after 1 fs.dev.data)
      | none => findFreeByte n (.ofNat (bi + 1)) (fs.after 1 fs.dev.data) := by
  have hle := h.bits_le
  have hbi : (fs.sb.freeBitsBlockStart + UInt32.ofNat bi).toNat =
      fs.sb.freeBitsBlockStart.toNat + bi := by
    rw [UInt32.toNat_add, UInt32.toNat_ofNat']
    omega
  have hper : (fs.sb.freeBitsPerBlock / 8).toNat = 4096 := by rw [h.freeBitsPerBlock]; rfl
  -- the bytes of this block are those from `4096 * bi` on
  have hblock : findFrom (fun e => fs.dev.data.window
      ((fs.sb.freeBitsBlockStart.toNat + bi) * 4096) e != 0xFF) 4096 0 =
      (findFrom (fun e => fs.dev.data (bitsAddr fs.sb + e) != 0xFF) 4096 (4096 * bi)).map
        (· - 4096 * bi) := by
    have hshift := findFrom_shift (fun e => fs.dev.data (bitsAddr fs.sb + e) != 0xFF)
      (4096 * bi) 4096 0
    rw [Nat.add_zero] at hshift
    rw [← hshift]
    apply findFrom_congr
    intro e _ _
    simp only [Mem.window_apply, bitsAddr]
    rw [show (fs.sb.freeBitsBlockStart.toNat + bi) * 4096 + e =
      fs.sb.freeBitsBlockStart.toNat * 4096 + (4096 * bi + e) by omega]
  conv_lhs => unfold findFreeByte
  simp only [Fs.sbBread_of_ok hread, h.blockAddr, Fs.after_sb, hbi, hper, hblock]
  cases hfind : findFrom (fun e => fs.dev.data (bitsAddr fs.sb + e) != 0xFF) 4096 (4096 * bi) with
  | some e =>
    obtain ⟨h1, h2, -, -⟩ := findFrom_eq_some hfind
    simp only [Option.map_some]
    rw [show e / 4096 = bi by omega, show e % 4096 = e - 4096 * bi by omega]
  | none =>
    simp only [Option.map_none]
    rw [UInt32.ofNat_add]
    rfl

/-- The byte search comes to block `bi + j` of the free bits when all bytes in the blocks from `bi`
on in front of it are `0xFF`. -/
def ComesTo (fs : Fs) (bi j : Nat) : Prop :=
  ∀ e, 4096 * bi ≤ e → e < 4096 * (bi + j) → fs.dev.data (bitsAddr fs.sb + e) = 0xFF

/-- The byte search over all blocks of the bitmap is one search, when the blocks it comes to can be
read. -/
theorem findFreeByte_eq {fs : Fs} (h : Bitmapped fs) {n bi : Nat}
    (hn : bi + n = fs.sb.freeBitsBlockCnt.toNat)
    (hreads : ∀ j < n, ComesTo fs bi j → fs.dev.fails (fs.dev.reads + j) = false) :
    ∃ k, findFreeByte n (.ofNat bi) fs =
      (.ok ((findFrom (fun e => fs.dev.data (bitsAddr fs.sb + e) != 0xFF) (4096 * n)
        (4096 * bi)).map fun e => (UInt32.ofNat (e / 4096), e % 4096)), fs.after k fs.dev.data) ∧
      ∀ j < k, fs.dev.fails (fs.dev.reads + j) = false := by
  induction n generalizing bi fs with
  | zero => exact ⟨0, rfl, fun j hj => by omega⟩
  | succ n ih =>
    have hread : fs.dev.fails fs.dev.reads = false :=
      hreads 0 (by omega) fun e h1 h2 => by omega
    rw [findFreeByte_succ h hn hread, Nat.mul_succ, Nat.add_comm (4096 * n), findFrom_add]
    cases hfind : findFrom (fun e => fs.dev.data (bitsAddr fs.sb + e) != 0xFF) 4096 (4096 * bi) with
    | some e =>
      refine ⟨1, rfl, fun j hj => ?_⟩
      rw [show j = 0 by omega]
      exact hread
    | none =>
      have hff := findFrom_eq_none.1 hfind
      have hnext : ∀ j < n, ComesTo (fs.after 1 fs.dev.data) (bi + 1) j →
          fs.dev.fails (fs.dev.reads + 1 + j) = false := by
        intro j hj hcomes
        rw [Nat.add_assoc, Nat.add_comm 1 j]
        refine hreads (j + 1) (by omega) fun e h1 h2 => ?_
        by_cases he : e < 4096 * bi + 4096
        · simpa using hff e h1 he
        · exact hcomes e (by omega) (by omega)
      have hcnt : bi + 1 + n = (fs.after 1 fs.dev.data).sb.freeBitsBlockCnt.toNat := by
        rw [Fs.after_sb]
        omega
      obtain ⟨k, hk, hok⟩ := ih (h.after 1 fs.dev.data) hcnt hnext
      refine ⟨1 + k, ?_, fun j hj => ?_⟩
      · simp only [Fs.after_data, Fs.after_sb, Fs.after_after] at hk ⊢
        rw [hk, Nat.mul_succ]
      · cases j with
        | zero => exact hread
        | succ j =>
          have hj' := hok j (by omega)
          rw [Nat.add_comm j 1, ← Nat.add_assoc]
          exact hj'

/-- A block of the free bits that the search comes to and that cannot be read ends it. -/
theorem findFreeByte_fails {fs : Fs} (h : Bitmapped fs) {n bi j : Nat}
    (hn : bi + n = fs.sb.freeBitsBlockCnt.toNat) (hj : j < n) (hcomes : ComesTo fs bi j)
    (hfail : fs.dev.fails (fs.dev.reads + j) = true) :
    ∃ k, findFreeByte n (.ofNat bi) fs = (.error (- EIO), fs.after k fs.dev.data) ∧
      ∃ i < k, fs.dev.fails (fs.dev.reads + i) = true := by
  induction n generalizing bi j fs with
  | zero => omega
  | succ n ih =>
    cases hread : fs.dev.fails fs.dev.reads with
    | true =>
      refine ⟨1, ?_, 0, by omega, hread⟩
      unfold findFreeByte
      rw [Fs.sbBread_of_fails hread]
    | false =>
      obtain ⟨j, rfl⟩ : ∃ j', j = j' + 1 := by
        refine ⟨j - 1, ?_⟩
        by_contra hne
        rw [show j = 0 by omega, Nat.add_zero, hread] at hfail
        cases hfail
      have hff : findFrom (fun e => fs.dev.data (bitsAddr fs.sb + e) != 0xFF) 4096 (4096 * bi) =
          none := by
        refine findFrom_eq_none.2 fun e h1 h2 => ?_
        rw [hcomes e h1 (by omega)]
        rfl
      have hfail' : (fs.after 1 fs.dev.data).dev.fails
          ((fs.after 1 fs.dev.data).dev.reads + j) = true := by
        have hshift : fs.dev.reads + 1 + j = fs.dev.reads + (j + 1) := by omega
        rw [← hshift] at hfail
        exact hfail
      have hcomes' : ComesTo (fs.after 1 fs.dev.data) (bi + 1) j := fun e h1 h2 =>
        hcomes e (by omega) (by omega)
      have hcnt : bi + 1 + n = (fs.after 1 fs.dev.data).sb.freeBitsBlockCnt.toNat := by
        rw [Fs.after_sb]
        omega
      obtain ⟨k, hk, i, hi, hfaili⟩ :=
        ih (h.after 1 fs.dev.data) hcnt (by omega) hcomes' hfail'
      refine ⟨1 + k, ?_, 1 + i, by omega, ?_⟩
      · rw [findFreeByte_succ h hn hread, hff]
        simp only [hk, Fs.after_after, Fs.after_data]
      · rw [← Nat.add_assoc]
        exact hfaili

/-- The first clear bit of all the free bits. -/
def firstClear (sb : Sb) (data : Mem) : Option Nat :=
  findFrom (fun b => !data.bit (bitsAddr sb) b) (32768 * sb.freeBitsBlockCnt.toNat) 0

theorem firstClear_eq_some {sb : Sb} {data : Mem} {n : Nat} (h : firstClear sb data = some n) :
    n < 32768 * sb.freeBitsBlockCnt.toNat ∧ data.bit (bitsAddr sb) n = false ∧
      ∀ c < n, data.bit (bitsAddr sb) c = true := by
  obtain ⟨-, hlt, hclear, hset⟩ := findFrom_eq_some h
  refine ⟨by omega, by simpa using hclear, fun c hc => ?_⟩
  simpa using hset c (Nat.zero_le _) hc

theorem firstClear_of_least {sb : Sb} {data : Mem} {n : Nat}
    (hn : n < 32768 * sb.freeBitsBlockCnt.toNat) (hclear : data.bit (bitsAddr sb) n = false)
    (hset : ∀ c < n, data.bit (bitsAddr sb) c = true) : firstClear sb data = some n := by
  refine findFrom_of_first (Nat.zero_le _) (by omega) (by simpa using hclear) fun c _ hc => ?_
  rw [hset c hc]
  rfl

/-- Every block of the free bits that a search for a free block comes to can be read. -/
def SearchReads (fs : Fs) : Prop :=
  ∀ j < fs.sb.freeBitsBlockCnt.toNat, ComesTo fs 0 j → fs.dev.fails (fs.dev.reads + j) = false

theorem searchReads_of_reliable {fs : Fs} (h : fs.dev.Reliable) : SearchReads fs :=
  fun _ _ _ => h _

/-- `akpfs_get_free_block` sets the first clear bit, when its number as an `unsigned int` is below
`block_cnt`. -/
theorem getFreeBlock_first {fs : Fs} (h : Bitmapped fs) (hreads : SearchReads fs) :
    ∃ k, getFreeBlock fs =
      (match firstClear fs.sb fs.dev.data with
      | some n =>
        if fs.sb.blockCnt.toNat ≤ n % 4294967296 then (0, fs.after k fs.dev.data)
        else (.ofNat n, fs.after k (fs.dev.data.setBit (bitsAddr fs.sb) n))
      | none => (0, fs.after k fs.dev.data)) ∧
      ∀ j < k, fs.dev.fails (fs.dev.reads + j) = false := by
  have hle := h.bits_le
  obtain ⟨k, hk, hok⟩ := findFreeByte_eq h (Nat.zero_add fs.sb.freeBitsBlockCnt.toNat) hreads
  refine ⟨k, ?_, hok⟩
  have hfirst : firstClear fs.sb fs.dev.data =
      findFrom (fun b => !fs.dev.data.bit (bitsAddr fs.sb) b)
        (8 * (4096 * fs.sb.freeBitsBlockCnt.toNat)) 0 := by
    unfold firstClear
    rw [← Nat.mul_assoc]
  unfold getFreeBlock
  rw [show (0 : UInt32) = UInt32.ofNat 0 from rfl, hk, Nat.mul_zero, hfirst, Mem.findFrom_clear]
  cases hbyte : findFrom (fun e => fs.dev.data (bitsAddr fs.sb + e) != 0xFF)
    (4096 * fs.sb.freeBitsBlockCnt.toNat) 0 with
  | none => rfl
  | some e =>
    have he := (findFrom_eq_some hbyte).2.1
    have haddr : (fs.after k fs.dev.data).blockAddr
        (fs.sb.freeBitsBlockStart + UInt32.ofNat (e / 4096)) + e % 4096 = bitsAddr fs.sb + e := by
      rw [(h.after k _).blockAddr, UInt32.toNat_add, UInt32.toNat_ofNat']
      unfold bitsAddr
      omega
    simp only [Option.map_some, Option.bind_some, Fs.after_sb, haddr, Fs.after_data,
      h.freeBitsPerBlock]
    cases hi : findFrom (fun i => !bitSet (fs.dev.data (bitsAddr fs.sb + e)) i) 8 0 with
    | none => rfl
    | some i =>
      have hi8 := (findFrom_eq_some hi).2.1
      have hblk : UInt32.ofNat (e / 4096) * 32768 + UInt32.ofNat (e % 4096) * 8 + UInt32.ofNat i =
          UInt32.ofNat (8 * e + i) := by
        apply UInt32.toNat_inj.1
        simp only [UInt32.toNat_add, UInt32.toNat_mul, UInt32.toNat_ofNat', UInt32.reduceToNat]
        omega
      have hge : UInt32.ofNat (8 * e + i) ≥ fs.sb.blockCnt ↔
          fs.sb.blockCnt.toNat ≤ (8 * e + i) % 4294967296 := by
        rw [ge_iff_le, UInt32.le_iff_toNat_le, UInt32.toNat_ofNat']
      simp only [Option.map_some, hblk]
      by_cases hout : fs.sb.blockCnt.toNat ≤ (8 * e + i) % 4294967296
      · rw [if_pos (hge.2 hout), if_pos hout]
      · rw [if_neg (mt hge.1 hout), if_neg hout]
        unfold Mem.setBit
        rw [show (8 * e + i) / 8 = e by omega, show (8 * e + i) % 8 = i by omega]
        rfl

/-- `akpfs_get_free_block` returns an error number as an unsigned value when a block that its search
comes to cannot be read. -/
theorem getFreeBlock_fails {fs : Fs} (h : Bitmapped fs) (hreads : ¬ SearchReads fs) :
    ∃ k, getFreeBlock fs = (0xFFFFFFFB, fs.after k fs.dev.data) ∧
      ∃ i < k, fs.dev.fails (fs.dev.reads + i) = true := by
  unfold SearchReads at hreads
  simp only [not_forall, Bool.not_eq_false] at hreads
  obtain ⟨j, hj, hcomes, hfail⟩ := hreads
  obtain ⟨k, hk, hi⟩ :=
    findFreeByte_fails h (Nat.zero_add fs.sb.freeBitsBlockCnt.toNat) hj hcomes hfail
  refine ⟨k, ?_, hi⟩
  unfold getFreeBlock
  rw [show (0 : UInt32) = UInt32.ofNat 0 from rfl, hk]
  rfl

/-- The first free block is the first clear bit, unless that bit belongs to no block. -/
theorem freeBlock_eq_filter {sb : Sb}
    (hcover : sb.blockCnt.toNat ≤ 32768 * sb.freeBitsBlockCnt.toNat)
    (data : Mem) : freeBlock sb data = (firstClear sb data).filter (· < sb.blockCnt.toNat) := by
  unfold freeBlock firstClear
  cases hfirst : findFrom (fun b => !data.bit (bitsAddr sb) b)
      (32768 * sb.freeBitsBlockCnt.toNat) 0 with
  | none =>
    refine findFrom_eq_none.2 fun b hb hlt => ?_
    exact findFrom_eq_none.1 hfirst b hb (by omega)
  | some n =>
    obtain ⟨-, -, hclear, hset⟩ := findFrom_eq_some hfirst
    by_cases hn : n < sb.blockCnt.toNat
    · rw [Option.filter_some_pos (by simpa using hn)]
      exact findFrom_of_first (Nat.zero_le _) (by omega) hclear hset
    · rw [Option.filter_some_neg (by simpa using hn)]
      refine findFrom_eq_none.2 fun b hb hlt => ?_
      exact hset b hb (by omega)

/-- The bit that `akpfs_get_free_block` sets: the first clear one, when its low 32 bits are the
number of a block. -/
def takenBit (sb : Sb) (data : Mem) : Option Nat :=
  (firstClear sb data).filter (· % 4294967296 < sb.blockCnt.toNat)

/-- `akpfs_get_free_block` hands out the low 32 bits of the number. -/
theorem getFreeBlock_taken {fs : Fs} (h : Bitmapped fs) (hreads : SearchReads fs) :
    ∃ k, getFreeBlock fs =
      (match takenBit fs.sb fs.dev.data with
      | some n => (.ofNat n, fs.after k (fs.dev.data.setBit (bitsAddr fs.sb) n))
      | none => (0, fs.after k fs.dev.data)) ∧
      ∀ j < k, fs.dev.fails (fs.dev.reads + j) = false := by
  obtain ⟨k, hk, hok⟩ := getFreeBlock_first h hreads
  refine ⟨k, ?_, hok⟩
  rw [hk]
  unfold takenBit
  cases hfirst : firstClear fs.sb fs.dev.data with
  | none => rfl
  | some n =>
    simp only
    by_cases hout : fs.sb.blockCnt.toNat ≤ n % 4294967296
    · rw [if_pos hout, Option.filter_some_neg (by simpa using hout)]
    · rw [if_neg hout, Option.filter_some_pos (by simpa using hout)]

theorem takenBit_eq_some_iff {sb : Sb} {data : Mem} {n : Nat} : takenBit sb data = some n ↔
    firstClear sb data = some n ∧ n % 4294967296 < sb.blockCnt.toNat := by
  simp [takenBit, Option.filter_eq_some_iff]

theorem takenBit_eq_some {sb : Sb} {data : Mem} {n : Nat} (h : takenBit sb data = some n) :
    n % 4294967296 < sb.blockCnt.toNat ∧ n < 32768 * sb.freeBitsBlockCnt.toNat ∧
      data.bit (bitsAddr sb) n = false ∧ ∀ c < n, data.bit (bitsAddr sb) c = true := by
  obtain ⟨hfirst, hmod⟩ := takenBit_eq_some_iff.1 h
  exact ⟨hmod, firstClear_eq_some hfirst⟩

/-- `akpfs_put_free_block` clears the bit of a block. -/
theorem putFreeBlock_eq {fs : Fs} (h : Bitmapped fs) (hread : fs.dev.fails fs.dev.reads = false)
    {b : UInt32} (hb : b.toNat < fs.sb.blockCnt.toNat) :
    putFreeBlock fs b = (0, fs.after 1 (fs.dev.data.clearBit (bitsAddr fs.sb) b.toNat)) := by
  have hcover := h.cover
  have hle := h.bits_le
  have hmod : (b % 32768).toNat = b.toNat % 32768 := by
    rw [UInt32.toNat_mod]
    rfl
  have hblock : (fs.sb.freeBitsBlockStart + b / 32768).toNat =
      fs.sb.freeBitsBlockStart.toNat + b.toNat / 32768 := by
    rw [UInt32.toNat_add, UInt32.toNat_div]
    simp only [UInt32.reduceToNat]
    omega
  have hbyte : (b % 32768 / 8).toNat = b.toNat % 32768 / 8 := by
    rw [UInt32.toNat_div, hmod]
    rfl
  have hbitpos : (b % 32768 % 8).toNat = b.toNat % 8 := by
    rw [UInt32.toNat_mod, hmod]
    simp only [UInt32.reduceToNat]
    omega
  have haddr : (fs.sb.freeBitsBlockStart.toNat + b.toNat / 32768) * 4096 + b.toNat % 32768 / 8 =
      bitsAddr fs.sb + b.toNat / 8 := by
    unfold bitsAddr
    omega
  unfold putFreeBlock
  rw [if_neg (by rw [ge_iff_le, UInt32.le_iff_toNat_le]; omega)]
  simp only [h.freeBitsPerBlock, Fs.sbBread_of_ok hread, Fs.after_sb, Fs.after_data,
    (h.after 1 _).blockAddr, hblock, hbyte, hbitpos, haddr]
  cases hset : fs.dev.data.bit (bitsAddr fs.sb) b.toNat with
  | true =>
    unfold Mem.bit at hset
    rw [hset]
    rfl
  | false =>
    -- the block is already free
    rw [Mem.clearBit_of_clear hset]
    unfold Mem.bit at hset
    rw [hset]
    rfl

/-! ## Blocks of a file -/

/-- The address of a slot of an inode. -/
def slotAddrOf (sb : Sb) (ino : UInt32) (j : Nat) : Nat := inodeAddr sb ino + 20 + 4 * j

section GetBlock

variable {fs : Fs} (hg : Geometry fs.sb) (hsize : fs.dev.blocksize = 4096) {ino : UInt32}
  (hino : InTable fs.sb ino) {iblock : Nat} (hi : iblock < 27)
  (hread : fs.dev.fails fs.dev.reads = false)

include hg hsize hino hi hread

/-- A mapped block is what is in the slot. -/
theorem getBlock_of_mapped (hw : fs.dev.data.word (slotAddrOf fs.sb ino iblock) ≠ 0)
    (create : Bool) : getBlock fs ino iblock create =
      (.ok (fs.dev.data.word (slotAddrOf fs.sb ino iblock)), fs.after 1 fs.dev.data) := by
  have hslot : slotAddr (inodeAddr fs.sb ino) iblock = slotAddrOf fs.sb ino iblock :=
    slotAddr_natCast _ _
  unfold getBlock
  rw [if_neg (by omega), getInode_of_ok hg hsize hino hread]
  simp only [hslot, Fs.word, Fs.after_data, hw, ↓reduceIte]

/-- An empty slot is filled with what `akpfs_get_free_block` returns. -/
theorem getBlock_of_empty (hw : fs.dev.data.word (slotAddrOf fs.sb ino iblock) = 0) :
    getBlock fs ino iblock true =
      match getFreeBlock (fs.after 1 fs.dev.data) with
      | (b, fs') =>
        (if b = 0 then .error (-ENOSPC) else .ok b,
          fs'.setWord (slotAddrOf fs.sb ino iblock) b) := by
  have hslot : slotAddr (inodeAddr fs.sb ino) iblock = slotAddrOf fs.sb ino iblock :=
    slotAddr_natCast _ _
  unfold getBlock
  rw [if_neg (by omega), getInode_of_ok hg hsize hino hread]
  simp only [hslot, Fs.word, Fs.after_data, hw, ↓reduceIte, Bool.not_true, Bool.false_eq_true]
  generalize getFreeBlock (fs.after 1 fs.dev.data) = r
  obtain ⟨b, fs'⟩ := r
  by_cases hb : b = 0
  · simp only [if_pos hb]
  · simp only [if_neg hb, Fs.setWord, Mem.word_setWord]

/-- An empty slot is filled with the number of the bit that is set. -/
theorem getBlock_of_taken (hw : fs.dev.data.word (slotAddrOf fs.sb ino iblock) = 0)
    (hsearch : SearchReads (fs.after 1 fs.dev.data)) :
    ∃ k, (getBlock fs ino iblock true).2 =
      (match takenBit fs.sb fs.dev.data with
      | some n => fs.after k ((fs.dev.data.setBit (bitsAddr fs.sb) n).setWord
          (slotAddrOf fs.sb ino iblock) (.ofNat n))
      | none => fs.after k fs.dev.data) ∧
      ∀ j < k, fs.dev.fails (fs.dev.reads + j) = false := by
  obtain ⟨k, hk, hok⟩ := getFreeBlock_taken ((hg.bitmapped hsize).after 1 _) hsearch
  simp only [Fs.after_sb, Fs.after_data, Fs.after_after] at hk
  refine ⟨1 + k, ?_, fun j hj => ?_⟩
  · rw [getBlock_of_empty hg hsize hino hi hread hw, hk]
    cases htaken : takenBit fs.sb fs.dev.data with
    | none =>
      -- the zero that is stored was there before
      have hsame := Mem.setWord_word fs.dev.data (slotAddrOf fs.sb ino iblock)
      rw [hw] at hsame
      simp only [Fs.setWord_after, hsame]
    | some n => rfl
  · cases j with
    | zero => exact hread
    | succ j =>
      have hj' := hok j (by omega)
      rw [Nat.add_comm j 1, ← Nat.add_assoc]
      exact hj'

end GetBlock

/-- `akpfs_get_block` leaves the image alone, or it sets a bit and fills an empty slot. -/
theorem getBlock_cases {fs : Fs} (h : Working fs) {ino : UInt32} (hino : InTable fs.sb ino)
    (iblock : Nat) (create : Bool) :
    ∃ k, (getBlock fs ino iblock create).2 = fs.after k fs.dev.data ∨
      ∃ n, create = true ∧ iblock < 27 ∧ fs.dev.data.word (slotAddrOf fs.sb ino iblock) = 0 ∧
        takenBit fs.sb fs.dev.data = some n ∧ (getBlock fs ino iblock create).2 =
          fs.after k ((fs.dev.data.setBit (bitsAddr fs.sb) n).setWord
            (slotAddrOf fs.sb ino iblock) (.ofNat n)) := by
  by_cases hi : iblock < 27
  · by_cases hw : fs.dev.data.word (slotAddrOf fs.sb ino iblock) = 0
    · cases create with
      | false =>
        have hslot : slotAddr (inodeAddr fs.sb ino) iblock = slotAddrOf fs.sb ino iblock :=
          slotAddr_natCast _ _
        refine ⟨1, .inl ?_⟩
        unfold getBlock
        rw [if_neg (by omega), getInode_eq h hino]
        simp only [hslot, Fs.word, Fs.after_data, hw, ↓reduceIte, Bool.not_false]
      | true =>
        have hsearch : SearchReads (fs.after 1 fs.dev.data) := searchReads_of_reliable h.reliable
        obtain ⟨k, hk, -⟩ :=
          getBlock_of_taken h.geometry h.blocksize hino hi (h.reliable _) hw hsearch
        cases htaken : takenBit fs.sb fs.dev.data with
        | none =>
          rw [htaken] at hk
          exact ⟨k, .inl hk⟩
        | some n =>
          rw [htaken] at hk
          exact ⟨k, .inr ⟨n, rfl, hi, hw, rfl, hk⟩⟩
    · rw [getBlock_of_mapped h.geometry h.blocksize hino hi (h.reliable _) hw]
      exact ⟨1, .inl rfl⟩
  · unfold getBlock
    rw [if_pos (by omega)]
    exact ⟨0, .inl rfl⟩

end LinuxDrivers.Akpfs
