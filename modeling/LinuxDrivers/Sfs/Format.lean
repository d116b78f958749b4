import LinuxDrivers.Lib.FileHandle
import LinuxDrivers.Sfs.Layout

/-!
# The formatter

`format_real_sfs.c`: the super block for a device of `size` bytes and the cleared entry table. The
product with `SFS_ENTRY_RATIO` is taken as the integer quotient by ten.
-/

namespace LinuxDrivers.Sfs

/-- The super block that `main` of the formatter computes. -/
def formatSb (size : Nat) : SuperBlock :=
  let partitionSize : UInt32 := .ofNat (size / 512)
  let entryTableSize : UInt32 := .ofNat (partitionSize.toNat / 10)
  { type := simulaFsType
    blockSize := 512
    partitionSize := partitionSize
    entrySize := 64
    entryTableSize := entryTableSize
    entryTableBlockStart := 1
    entryCount := entryTableSize * 512 / 64
    dataBlockStart := 1 + entryTableSize }

/-- The loop of `clear_file_entries` that fills the block on the stack with zero entries. -/
def fillBlock : Nat → Nat → Mem → Mem
  | 0, _, block => block
  | n + 1, i, block => fillBlock n (i + 1) (block.store (i * 64) 64 FileEntry.zero.bytes)

def clearFileEntries (sb : SuperBlock) (stack : Mem) (fd : Fd) : Fd :=
  let block := fillBlock (sb.blockSize / sb.entrySize).toNat 0 stack
  fd.writeMany 512 block sb.entryTableSize.toNat

/-- The image after formatting; `stack` is the uninitialised block buffer. -/
def formatRealSfs (disk : Mem) (size : Nat) (stack : Mem) : Mem :=
  let sb := formatSb size
  (clearFileEntries sb stack (Fd.write ⟨disk, 0⟩ 512 sb.bytes)).data

theorem fillBlock_zero {n i : Nat} {block : Mem} {x : Nat}
    (h : (i * 64 ≤ x ∧ x < (i + n) * 64) ∨ block x = 0) : fillBlock n i block x = 0 := by
  induction n generalizing i block with
  | zero =>
    rcases h with h | h
    · omega
    · exact h
  | succ n ih =>
    rw [fillBlock]
    apply ih
    by_cases hx : i * 64 ≤ x ∧ x < i * 64 + 64
    · right
      rw [Mem.store_of_mem hx, FileEntry.bytes_zero]
    · rcases h with h | h
      · left; omega
      · right
        rw [Mem.store_of_not_mem (by omega), h]

theorem formatRealSfs_sb (disk : Mem) (size : Nat) (stack : Mem) :
    SuperBlock.ofMem (formatRealSfs disk size stack) = formatSb size := by
  rw [← SuperBlock.ofMem_bytes (formatSb size)]
  apply SuperBlock.ofMem_congr
  intro k hk
  unfold formatRealSfs clearFileEntries
  simp only
  rw [Fd.writeMany_outside (by simp only [Fd.write_pos]; omega), Fd.write_data]
  simp [Mem.store, show k < 512 by omega]

/-- Every byte of the table is zero. -/
theorem formatRealSfs_table {disk : Mem} {size : Nat} {stack : Mem} {x : Nat} (h1 : 512 ≤ x)
    (h2 : x < 512 + (formatSb size).entryTableSize.toNat * 512) :
    formatRealSfs disk size stack x = 0 := by
  unfold formatRealSfs clearFileEntries
  simp only
  have hx : x = (Fd.write ⟨disk, 0⟩ 512 (formatSb size).bytes).pos + (x - 512) / 512 * 512 +
      (x - 512) % 512 := by
    simp only [Fd.write_pos]
    omega
  rw [hx, Fd.writeMany_inside (by omega) (by omega)]
  apply fillBlock_zero
  left
  have hn : ((formatSb size).blockSize / (formatSb size).entrySize).toNat = 8 := by
    simp [formatSb]
  rw [hn]
  omega

end LinuxDrivers.Sfs
