import LinuxDrivers.Akpfs.DriverSpec

/-!
# The free block allocator

`akpfs_get_free_block` and `akpfs_put_free_block` against what they are for: a set of blocks below
`block_cnt`, of which the least free one is handed out and one is given back at a time. The number
of the bit that is found is an `unsigned int`, so a bitmap with more than `2 ^ 32` bits can give a
block out that is in use.
-/

namespace LinuxDrivers.Akpfs

/-- What the allocator of a volume has to do. -/
structure AllocatorSpec (fs : Fs) : Prop where
  /-- The least free block is returned and its bit alone is set. -/
  get_least : ∀ b < fs.sb.blockCnt.toNat, fs.dev.data.bit (bitsAddr fs.sb) b = false →
    (∀ c < b, fs.dev.data.bit (bitsAddr fs.sb) c = true) →
    (getFreeBlock fs).1.toNat = b ∧
      (getFreeBlock fs).2.dev.data = fs.dev.data.setBit (bitsAddr fs.sb) b
  /-- Zero is returned, and nothing is changed, exactly when no block is free. -/
  get_none : (getFreeBlock fs).1 = 0 ∧ (getFreeBlock fs).2.dev.data = fs.dev.data ↔
    ∀ b < fs.sb.blockCnt.toNat, fs.dev.data.bit (bitsAddr fs.sb) b = true
  get_zero : (getFreeBlock fs).1 = 0 →
    ∀ b < fs.sb.blockCnt.toNat, fs.dev.data.bit (bitsAddr fs.sb) b = true
  /-- The bit of a block that is given back is cleared, and no other. -/
  put_lt : ∀ b : UInt32, b.toNat < fs.sb.blockCnt.toNat → (putFreeBlock fs b).1 = 0 ∧
    (putFreeBlock fs b).2.dev.data = fs.dev.data.clearBit (bitsAddr fs.sb) b.toNat
  put_ge : ∀ b : UInt32, fs.sb.blockCnt.toNat ≤ b.toNat → putFreeBlock fs b = (-EINVAL, fs)
  /-- A block that is handed out and given back leaves no trace. -/
  put_get : (getFreeBlock fs).1 ≠ 0 →
    (putFreeBlock (getFreeBlock fs).2 (getFreeBlock fs).1).2.dev.data = fs.dev.data

/-- The first clear bit has a number that fits an `unsigned int`, or one whose low 32 bits are not
the number of a block either. -/
def FirstClearFits (sb : Sb) (data : Mem) : Prop :=
  ∀ n < 32768 * sb.freeBitsBlockCnt.toNat, data.bit (bitsAddr sb) n = false →
    (∀ c < n, data.bit (bitsAddr sb) c = true) →
    n < 4294967296 ∨ sb.blockCnt.toNat ≤ n % 4294967296

/-- Setting a clear bit is seen. -/
theorem setBit_ne {m : Mem} {a n : Nat} (h : m.bit a n = false) : m.setBit a n ≠ m := by
  intro he
  have hbit := Mem.bit_setBit m a n n
  rw [he, h] at hbit
  simp at hbit

section

variable {fs : Fs} (h : Bitmapped fs) (hread : fs.dev.Reliable)
include h

/-- Either some block is free, and then there is a least one, or none is. -/
theorem least_or_full : (∃ n < fs.sb.blockCnt.toNat, firstClear fs.sb fs.dev.data = some n) ∨
    ∀ b < fs.sb.blockCnt.toNat, fs.dev.data.bit (bitsAddr fs.sb) b = true := by
  have hfree := freeBlock_eq_filter h.cover fs.dev.data
  cases hb : freeBlock fs.sb fs.dev.data with
  | none =>
    right
    intro b hlt
    simpa using findFrom_eq_none.1 hb b (Nat.zero_le _) (by omega)
  | some b =>
    left
    rw [hb] at hfree
    obtain ⟨hfirst, hlt⟩ := Option.filter_eq_some_iff.1 hfree.symm
    exact ⟨b, by simpa using hlt, hfirst⟩

include hread

/-- The first clear bit is handed out when its low 32 bits are the number of a block. -/
theorem getFreeBlock_of_first {n : Nat} (hfirst : firstClear fs.sb fs.dev.data = some n)
    (hmod : n % 4294967296 < fs.sb.blockCnt.toNat) : ∃ k, getFreeBlock fs =
      (.ofNat n, fs.after k (fs.dev.data.setBit (bitsAddr fs.sb) n)) := by
  obtain ⟨k, hk, -⟩ := getFreeBlock_first h (searchReads_of_reliable hread)
  rw [hfirst] at hk
  simp only at hk
  rw [if_neg (by omega)] at hk
  exact ⟨k, hk⟩

/-- Without a free block nothing is handed out, as long as the first clear bit fits. -/
theorem getFreeBlock_of_full (hfits : FirstClearFits fs.sb fs.dev.data)
    (hfull : ∀ b < fs.sb.blockCnt.toNat, fs.dev.data.bit (bitsAddr fs.sb) b = true) :
    ∃ k, getFreeBlock fs = (0, fs.after k fs.dev.data) := by
  obtain ⟨k, hk, -⟩ := getFreeBlock_first h (searchReads_of_reliable hread)
  refine ⟨k, ?_⟩
  rw [hk]
  cases hfirst : firstClear fs.sb fs.dev.data with
  | none => rfl
  | some n =>
    obtain ⟨hn, hclear, hset⟩ := firstClear_eq_some hfirst
    have hout : fs.sb.blockCnt.toNat ≤ n % 4294967296 := by
      rcases hfits n hn hclear hset with hlt | hout
      · rw [Nat.mod_eq_of_lt hlt]
        by_contra hlt
        rw [hfull n (by omega)] at hclear
        cases hclear
      · exact hout
    simp only
    rw [if_pos hout]

theorem putFreeBlock_of_lt (b : UInt32) (hb : b.toNat < fs.sb.blockCnt.toNat) :
    (putFreeBlock fs b).1 = 0 ∧
      (putFreeBlock fs b).2.dev.data = fs.dev.data.clearBit (bitsAddr fs.sb) b.toNat := by
  rw [putFreeBlock_eq h (hread _) hb]
  exact ⟨rfl, rfl⟩

omit h hread in
theorem putFreeBlock_of_ge (b : UInt32) (hb : fs.sb.blockCnt.toNat ≤ b.toNat) :
    putFreeBlock fs b = (-EINVAL, fs) := by
  unfold putFreeBlock
  rw [if_pos (by rw [ge_iff_le, UInt32.le_iff_toNat_le]; exact hb)]

/-- The first clear bit is that of a block. -/
theorem allocatorSpec_of_first (hzero : fs.dev.data.bit (bitsAddr fs.sb) 0 = true) {n : Nat}
    (hn : n < fs.sb.blockCnt.toNat) (hfirst : firstClear fs.sb fs.dev.data = some n) :
    AllocatorSpec fs := by
  have hcnt : fs.sb.blockCnt.toNat < 4294967296 := fs.sb.blockCnt.toNat_lt
  have hcover := h.cover
  obtain ⟨-, hclear, hset⟩ := firstClear_eq_some hfirst
  have hmod : n % 4294967296 = n := Nat.mod_eq_of_lt (by omega)
  obtain ⟨k, hk⟩ := getFreeBlock_of_first h hread hfirst (by omega)
  have hnat : (UInt32.ofNat n).toNat = n := by rw [UInt32.toNat_ofNat', hmod]
  have hne : ¬ ∀ b < fs.sb.blockCnt.toNat, fs.dev.data.bit (bitsAddr fs.sb) b = true := by
    intro hall
    rw [hall n hn] at hclear
    cases hclear
  have hpos : UInt32.ofNat n ≠ 0 := by
    intro he
    have h0 : n = 0 := by
      rw [← hnat, he]
      rfl
    rw [h0, hzero] at hclear
    cases hclear
  refine ⟨?_, ?_, ?_, putFreeBlock_of_lt h hread, putFreeBlock_of_ge, ?_⟩
  · intro b hb hbclear hbset
    have hbn := firstClear_of_least (by omega) hbclear hbset
    rw [hfirst] at hbn
    obtain rfl := Option.some.inj hbn
    rw [hk]
    exact ⟨hnat, rfl⟩
  · rw [hk]
    exact ⟨fun hr => absurd hr.1 hpos, fun hall => absurd hall hne⟩
  · rw [hk]
    exact fun hr => absurd hr hpos
  · intro _
    rw [hk]
    have hb : (UInt32.ofNat n).toNat <
        (fs.after k (fs.dev.data.setBit (bitsAddr fs.sb) n)).sb.blockCnt.toNat := by
      rw [hnat]
      exact hn
    rw [putFreeBlock_eq (h.after k _) (hread _) hb, hnat, Fs.after_data, Fs.after_sb, Fs.after_data]
    exact Mem.clearBit_setBit hclear

/-- No block is free. -/
theorem allocatorSpec_of_full (hfits : FirstClearFits fs.sb fs.dev.data)
    (hfull : ∀ b < fs.sb.blockCnt.toNat, fs.dev.data.bit (bitsAddr fs.sb) b = true) :
    AllocatorSpec fs := by
  obtain ⟨k, hk⟩ := getFreeBlock_of_full h hread hfits hfull
  refine ⟨?_, ?_, fun _ => hfull, putFreeBlock_of_lt h hread, putFreeBlock_of_ge, ?_⟩
  · intro b hb hclear
    rw [hfull b hb] at hclear
    cases hclear
  · rw [hk]
    exact ⟨fun _ => hfull, fun _ => ⟨rfl, rfl⟩⟩
  · intro hr
    rw [hk] at hr
    exact absurd rfl hr

theorem allocatorSpec_of_fits (hzero : fs.dev.data.bit (bitsAddr fs.sb) 0 = true)
    (hfits : FirstClearFits fs.sb fs.dev.data) : AllocatorSpec fs := by
  rcases least_or_full h with ⟨n, hn, hfirst⟩ | hfull
  · exact allocatorSpec_of_first h hread hzero hn hfirst
  · exact allocatorSpec_of_full h hread hfits hfull

theorem fits_of_allocatorSpec (hspec : AllocatorSpec fs) : FirstClearFits fs.sb fs.dev.data := by
  have hcnt : fs.sb.blockCnt.toNat < 4294967296 := fs.sb.blockCnt.toNat_lt
  intro n hn hclear hset
  by_contra hwrap
  obtain ⟨k, hk⟩ := getFreeBlock_of_first h hread (firstClear_of_least hn hclear hset) (by omega)
  have hfull : ∀ b < fs.sb.blockCnt.toNat, fs.dev.data.bit (bitsAddr fs.sb) b = true :=
    fun b hb => hset b (by omega)
  have hdata := (hspec.get_none.2 hfull).2
  rw [hk, Fs.after_data] at hdata
  exact setBit_ne hclear hdata

end

/-- The allocator does its work exactly when the first clear bit has no number that wraps to one of
a block. -/
theorem allocatorSpec_iff {fs : Fs} (h : Bitmapped fs) (hread : fs.dev.Reliable)
    (hzero : fs.dev.data.bit (bitsAddr fs.sb) 0 = true) :
    AllocatorSpec fs ↔ FirstClearFits fs.sb fs.dev.data :=
  ⟨fits_of_allocatorSpec h hread, allocatorSpec_of_fits h hread hzero⟩

/-- A bitmap of `cnt` blocks behind one block, whose first `full` bytes are `0xFF` and whose next
byte is `byte`. -/
def bitmapVolume (blockCnt cnt : UInt32) (full : Nat) (byte : UInt8) : Fs where
  dev := {
    data := fun x => if x < 4096 + full then 0xFF else if x = 4096 + full then byte else 0
    blocksize := 4096
    fails := fun _ => false
    reads := 0 }
  sb := {
    fsType := 0xABCD
    blockSize := 4096
    blockCnt
    inodesPerBlock := 32
    inodesBlockStart := 1
    inodesBlockCnt := 0
    freeBitsPerBlock := 32768
    freeBitsBlockStart := 1
    freeBitsBlockCnt := cnt
    dataBlockStart := cnt + 1
    dataBlockCnt := 0
    rootInode := 0 }

theorem allocatorSpec_iff_one_block :
    AllocatorSpec (bitmapVolume 64 1 2 3) ∧
      FirstClearFits (bitmapVolume 64 1 2 3).sb (bitmapVolume 64 1 2 3).dev.data := by
  have h : Bitmapped (bitmapVolume 64 1 2 3) := ⟨rfl, rfl, by decide, by decide⟩
  have hfits : FirstClearFits (bitmapVolume 64 1 2 3).sb (bitmapVolume 64 1 2 3).dev.data := by
    intro n hn _ _
    have hcnt : (bitmapVolume 64 1 2 3).sb.freeBitsBlockCnt.toNat = 1 := rfl
    rw [hcnt] at hn
    exact .inl (by omega)
  exact ⟨(allocatorSpec_iff h (fun _ => rfl) (by decide)).2 hfits, hfits⟩

/-- All bits that a block number can name are set, and so are the six behind them. -/
def wideVolume : Fs := bitmapVolume 4294967295 131073 536870912 0x3F

/-- Bit `2 ^ 32 + 6` is handed out as block 6, which is in use. -/
theorem allocatorSpec_false :
    Bitmapped wideVolume ∧ wideVolume.dev.Reliable ∧
      wideVolume.dev.data.bit 4096 0 = true ∧
      (getFreeBlock wideVolume).1 = 6 ∧
      wideVolume.dev.data.bit 4096 6 = true ∧
      ¬ AllocatorSpec wideVolume := by
  have h : Bitmapped wideVolume := ⟨rfl, rfl, by decide, by decide⟩
  have hcnt : wideVolume.sb.freeBitsBlockCnt.toNat = 131073 := rfl
  have hclear : wideVolume.dev.data.bit 4096 4294967302 = false := by decide
  have hrest : ∀ i < 6, wideVolume.dev.data.bit 4096 (4294967296 + i) = true := by decide
  have hset : ∀ c < 4294967302, wideVolume.dev.data.bit 4096 c = true := by
    intro c hc
    by_cases hlt : c / 8 < 536870912
    · have hff : wideVolume.dev.data (4096 + c / 8) = 0xFF := if_pos (by omega)
      unfold Mem.bit
      rw [hff]
      exact eq_ff_iff.1 rfl _ (Nat.mod_lt _ (by omega))
    · obtain ⟨i, hi, rfl⟩ : ∃ i < 6, c = 4294967296 + i := ⟨c - 4294967296, by omega, by omega⟩
      exact hrest i hi
  have hfirst : firstClear wideVolume.sb wideVolume.dev.data = some 4294967302 :=
    firstClear_of_least (by rw [hcnt]; decide) hclear hset
  obtain ⟨k, hk⟩ := getFreeBlock_of_first h (fun _ => rfl) hfirst (by decide)
  refine ⟨h, fun _ => rfl, hset 0 (by omega), ?_, hset 6 (by omega), fun hspec => ?_⟩
  · rw [hk]
    rfl
  · have hfits := fits_of_allocatorSpec h (fun _ => rfl) hspec 4294967302 (by rw [hcnt]; decide)
      hclear hset
    revert hfits
    decide

end LinuxDrivers.Akpfs
