import LinuxDrivers.Lib.Bitmap
import LinuxDrivers.Lib.CString

/-!
# The AKP file system on disk

`akpfs.h`: the super block of 44 bytes and the inodes of 128 bytes, with their C layout. An inode
has a name field of 16 bytes (`AKPFS_MAX_FILE_NAME_SIZE`), a size that also tells the type, and a
union of 27 words (`AKPFS_MAX_BLOCKS_PER_FILE`): the blocks of a file or the entries of a directory.
-/

namespace LinuxDrivers.Akpfs

/-- `AKPFS_SUPER_MAGIC`. -/
def akpfsSuperMagic : UInt16 := 0xABCD

/-- `struct akpfs_sb`. -/
structure Sb where
  fsType : UInt16
  blockSize : UInt16
  blockCnt : UInt32
  inodesPerBlock : UInt32
  inodesBlockStart : UInt32
  inodesBlockCnt : UInt32
  freeBitsPerBlock : UInt32
  freeBitsBlockStart : UInt32
  freeBitsBlockCnt : UInt32
  dataBlockStart : UInt32
  dataBlockCnt : UInt32
  rootInode : UInt32
  deriving DecidableEq

namespace Sb

/-- The words of the structure in memory; the first one holds the two short fields. -/
def words (sb : Sb) : Nat → UInt32
  | 0 => sb.fsType.toUInt32 + 65536 * sb.blockSize.toUInt32
  | 1 => sb.blockCnt
  | 2 => sb.inodesPerBlock
  | 3 => sb.inodesBlockStart
  | 4 => sb.inodesBlockCnt
  | 5 => sb.freeBitsPerBlock
  | 6 => sb.freeBitsBlockStart
  | 7 => sb.freeBitsBlockCnt
  | 8 => sb.dataBlockStart
  | 9 => sb.dataBlockCnt
  | 10 => sb.rootInode
  | _ => 0

def bytes (sb : Sb) : Mem := Mem.words sb.words

def ofMem (m : Mem) : Sb where
  fsType := (m.word 0).toUInt16
  blockSize := (m.word 0 / 65536).toUInt16
  blockCnt := m.word 4
  inodesPerBlock := m.word 8
  inodesBlockStart := m.word 12
  inodesBlockCnt := m.word 16
  freeBitsPerBlock := m.word 20
  freeBitsBlockStart := m.word 24
  freeBitsBlockCnt := m.word 28
  dataBlockStart := m.word 32
  dataBlockCnt := m.word 36
  rootInode := m.word 40

theorem ofMem_congr {m m' : Mem} (h : ∀ k < 44, m k = m' k) : ofMem m = ofMem m' := by
  have hw : ∀ a, a + 4 ≤ 44 → m.word a = m'.word a := fun a ha =>
    Mem.word_congr fun k hk => h (a + k) (by omega)
  simp only [ofMem, hw 0 (by omega), hw 4 (by omega), hw 8 (by omega), hw 12 (by omega),
    hw 16 (by omega), hw 20 (by omega), hw 24 (by omega), hw 28 (by omega), hw 32 (by omega),
    hw 36 (by omega), hw 40 (by omega)]

/-- Two short fields in one word. -/
theorem halves (lo hi : UInt16) :
    (lo.toUInt32 + 65536 * hi.toUInt32).toUInt16 = lo ∧
      ((lo.toUInt32 + 65536 * hi.toUInt32) / 65536).toUInt16 = hi := by
  have h1 : lo.toNat < 65536 := lo.toNat_lt
  have h2 : hi.toNat < 65536 := hi.toNat_lt
  constructor
  · apply UInt16.toNat_inj.1
    simp only [UInt32.toNat_toUInt16, UInt32.toNat_add, UInt32.toNat_mul, UInt16.toNat_toUInt32,
      UInt32.reduceToNat]
    omega
  · apply UInt16.toNat_inj.1
    simp only [UInt32.toNat_toUInt16, UInt32.toNat_div, UInt32.toNat_add, UInt32.toNat_mul,
      UInt16.toNat_toUInt32, UInt32.reduceToNat]
    omega

/-- The super block is read back as it was written. -/
@[simp] theorem ofMem_bytes (sb : Sb) : ofMem sb.bytes = sb := by
  have hw : ∀ j, sb.bytes.word (4 * j) = sb.words j := Mem.word_words sb.words
  obtain ⟨h1, h2⟩ := halves sb.fsType sb.blockSize
  simp only [ofMem, hw 0, hw 1, hw 2, hw 3, hw 4, hw 5, hw 6, hw 7, hw 8, hw 9, hw 10,
    words, h1, h2]

end Sb

/-- `akpfs_dir`, the size of a directory. -/
def akpfsDir : Int32 := -1

/-- `akpfs_link`, the size of a symbolic link. -/
def akpfsLink : Int32 := -2

/-- `struct akpfs_inode`; `u` is `file_blocks` or `dir_entries`. -/
structure Inode where
  fileName : Vector UInt8 16
  fileSize : Int32
  u : Vector UInt32 27
  deriving DecidableEq

namespace Inode

/-- `u.file_blocks[i]`, or `u.dir_entries[i]`. -/
def slot (inode : Inode) (i : Nat) : UInt32 := inode.u.getD i 0

/-- The words behind the name. -/
def words (inode : Inode) : Nat → UInt32
  | 0 => inode.fileSize.toUInt32
  | j + 1 => inode.slot j

def bytes (inode : Inode) : Mem := fun k =>
  if k < 16 then inode.fileName.getD k 0 else Mem.words inode.words (k - 16)

def ofMem (m : Mem) : Inode where
  fileName := .ofFn fun k => m k
  fileSize := (m.word 16).toInt32
  u := .ofFn fun j => m.word (20 + 4 * j)

/-- A regular file. -/
def isReg (inode : Inode) : Bool := 0 ≤ inode.fileSize

/-- The first `strnlen(file_name, 16)` bytes of the name. -/
def name (inode : Inode) : List UInt8 := inode.fileName.toList.takeWhile (· != 0)

theorem slot_of_le {inode : Inode} {i : Nat} (h : 27 ≤ i) : inode.slot i = 0 := by
  simp [slot, Vector.getD, Nat.not_lt.2 h]

/-- Slot `j` of the inode at `m` is the word at `20 + 4 * j`. -/
theorem slot_ofMem (m : Mem) {j : Nat} (hj : j < 27) : (ofMem m).slot j = m.word (20 + 4 * j) := by
  simp [slot, ofMem, Vector.getD, hj]

theorem ofMem_congr {m m' : Mem} (h : ∀ k < 128, m k = m' k) : ofMem m = ofMem m' := by
  have hw : ∀ a, a + 4 ≤ 128 → m.word a = m'.word a := fun a ha =>
    Mem.word_congr fun k hk => h (a + k) (by omega)
  have hname : (Vector.ofFn fun k : Fin 16 => m k) = Vector.ofFn fun k : Fin 16 => m' k := by
    congr 1
    funext k
    exact h k (by omega)
  have hslots : (Vector.ofFn fun j : Fin 27 => m.word (20 + 4 * j)) =
      Vector.ofFn fun j : Fin 27 => m'.word (20 + 4 * j) := by
    congr 1
    funext j
    exact hw _ (by omega)
  simp only [ofMem, hname, hslots, hw 16 (by omega)]

theorem word_bytes (inode : Inode) (j : Nat) : inode.bytes.word (16 + 4 * j) = inode.words j :=
  Mem.word_behind (fun _ hk => if_neg (by omega)) j

/-- An inode is read back as it was written. -/
@[simp] theorem ofMem_bytes (inode : Inode) : ofMem inode.bytes = inode := by
  have hw := inode.word_bytes
  have hname : (Vector.ofFn fun k : Fin 16 => inode.bytes k) = inode.fileName := by
    apply Vector.ext
    intro k hk
    simp [bytes, Vector.getD]
  have hslots : (Vector.ofFn fun j : Fin 27 => inode.bytes.word (20 + 4 * j)) = inode.u := by
    apply Vector.ext
    intro j hj
    have hwj := hw (j + 1)
    rw [show 16 + 4 * (j + 1) = 20 + 4 * j by omega] at hwj
    simp [hwj, words, slot, Vector.getD, hj]
  simp only [ofMem, hname, hslots]
  rw [show (16 : Nat) = 16 + 4 * 0 from rfl, hw]
  simp [words]

end Inode

end LinuxDrivers.Akpfs
