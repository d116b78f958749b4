import LinuxDrivers.Lib.CString

/-!
# The Simula file system on disk

`real_sfs_ds.h`: the super block and the 64-byte file entries, with their C layout. Sizes are those
of the header: blocks of 512 bytes (`SIMULA_FS_BLOCK_SIZE`), entries of 64 bytes
(`SIMULA_FS_ENTRY_SIZE`), names of at most 15 bytes (`SIMULA_FS_FILENAME_LEN`) in a field of 16, and
9 block numbers per entry (`SIMULA_FS_DATA_BLOCK_CNT`). The `reserved` words of the super block are
read by no function and are left out.
-/

namespace LinuxDrivers.Sfs

/-- `SIMULA_FS_TYPE`, the magic number. -/
def simulaFsType : UInt32 := 0x13090D15

/-- `sfs_super_block_t`. -/
structure SuperBlock where
  type : UInt32
  blockSize : UInt32
  partitionSize : UInt32
  entrySize : UInt32
  entryTableSize : UInt32
  entryTableBlockStart : UInt32
  entryCount : UInt32
  dataBlockStart : UInt32
  deriving DecidableEq

namespace SuperBlock

/-- The words of the structure in memory; the reserved ones are zero. -/
def words (sb : SuperBlock) : Nat → UInt32
  | 0 => sb.type
  | 1 => sb.blockSize
  | 2 => sb.partitionSize
  | 3 => sb.entrySize
  | 4 => sb.entryTableSize
  | 5 => sb.entryTableBlockStart
  | 6 => sb.entryCount
  | 7 => sb.dataBlockStart
  | _ => 0

def bytes (sb : SuperBlock) : Mem := Mem.words sb.words

def ofMem (m : Mem) : SuperBlock where
  type := m.word 0
  blockSize := m.word 4
  partitionSize := m.word 8
  entrySize := m.word 12
  entryTableSize := m.word 16
  entryTableBlockStart := m.word 20
  entryCount := m.word 24
  dataBlockStart := m.word 28

theorem ofMem_congr {m m' : Mem} (h : ∀ k < 32, m k = m' k) : ofMem m = ofMem m' := by
  have hw : ∀ a, a + 4 ≤ 32 → m.word a = m'.word a := fun a ha =>
    Mem.word_congr fun k hk => h (a + k) (by omega)
  simp only [ofMem, hw 0 (by omega), hw 4 (by omega), hw 8 (by omega), hw 12 (by omega),
    hw 16 (by omega), hw 20 (by omega), hw 24 (by omega), hw 28 (by omega)]

@[simp] theorem ofMem_bytes (sb : SuperBlock) : ofMem sb.bytes = sb := by
  have hw : ∀ j, sb.bytes.word (4 * j) = sb.words j := Mem.word_words sb.words
  simp only [ofMem, hw 0, hw 1, hw 2, hw 3, hw 4, hw 5, hw 6, hw 7, words]

end SuperBlock

/-- `sfs_file_entry_t`. -/
structure FileEntry where
  name : Vector UInt8 16
  size : UInt32
  timestamp : UInt32
  perms : UInt32
  blocks : Vector UInt32 9
  deriving DecidableEq

namespace FileEntry

/-- `blocks[i]`. -/
def block (fe : FileEntry) (i : Nat) : UInt32 := fe.blocks.getD i 0

/-- `blocks[i] = b`. -/
def setBlock (fe : FileEntry) (i : Nat) (b : UInt32) : FileEntry :=
  { fe with blocks := fe.blocks.setIfInBounds i b }

/-- The entry has a name, so it is in use. -/
def live (fe : FileEntry) : Bool := fe.name[0] != 0

/-- `memset(&fe, 0, sizeof(fe))`. -/
def zero : FileEntry where
  name := .replicate 16 0
  size := 0
  timestamp := 0
  perms := 0
  blocks := .replicate 9 0

/-- The words behind the name. -/
def words (fe : FileEntry) : Nat → UInt32
  | 0 => fe.size
  | 1 => fe.timestamp
  | 2 => fe.perms
  | j + 3 => fe.block j

def bytes (fe : FileEntry) : Mem := fun k =>
  if k < 16 then fe.name.getD k 0 else Mem.words fe.words (k - 16)

def ofMem (m : Mem) : FileEntry where
  name := .ofFn fun k => m k
  size := m.word 16
  timestamp := m.word 20
  perms := m.word 24
  blocks := .ofFn fun j => m.word (28 + 4 * j)

/-- The C string at `name`. A name without a terminator runs on into the fields behind it, as
`strcmp` does. -/
def nameString (fe : FileEntry) : List UInt8 := cstr fe.bytes 64

theorem block_of_le {fe : FileEntry} {i : Nat} (h : 9 ≤ i) : fe.block i = 0 := by
  simp [block, Vector.getD, Nat.not_lt.2 h]

@[simp] theorem block_setBlock (fe : FileEntry) (i j : Nat) (b : UInt32) :
    (fe.setBlock i b).block j = if i = j ∧ i < 9 then b else fe.block j := by
  simp only [block, setBlock, Vector.getD]
  by_cases hij : i = j
  · subst hij
    by_cases hi : i < 9 <;> simp [hi]
  · simp [hij]

@[simp] theorem name_setBlock (fe : FileEntry) (i : Nat) (b : UInt32) :
    (fe.setBlock i b).name = fe.name := rfl

@[simp] theorem live_setBlock (fe : FileEntry) (i : Nat) (b : UInt32) :
    (fe.setBlock i b).live = fe.live := rfl

@[simp] theorem block_zero (i : Nat) : zero.block i = 0 := by
  by_cases h : i < 9 <;> simp [block, zero, Vector.getD, h]

@[simp] theorem live_zero : zero.live = false := by decide

theorem ofMem_congr {m m' : Mem} (h : ∀ k < 64, m k = m' k) : ofMem m = ofMem m' := by
  have hw : ∀ a, a + 4 ≤ 64 → m.word a = m'.word a := fun a ha =>
    Mem.word_congr fun k hk => h (a + k) (by omega)
  have hname : (Vector.ofFn fun k : Fin 16 => m k) = Vector.ofFn fun k : Fin 16 => m' k := by
    congr 1
    funext k
    exact h k (by omega)
  have hblocks : (Vector.ofFn fun j : Fin 9 => m.word (28 + 4 * j)) =
      Vector.ofFn fun j : Fin 9 => m'.word (28 + 4 * j) := by
    congr 1
    funext j
    exact hw _ (by omega)
  simp only [ofMem, hname, hblocks, hw 16 (by omega), hw 20 (by omega), hw 24 (by omega)]

theorem word_bytes (fe : FileEntry) (j : Nat) : fe.bytes.word (16 + 4 * j) = fe.words j :=
  Mem.word_behind (fun _ hk => if_neg (by omega)) j

/-- An entry is read back as it was written. -/
@[simp] theorem ofMem_bytes (fe : FileEntry) : ofMem fe.bytes = fe := by
  have hw := fe.word_bytes
  have hname : (Vector.ofFn fun k : Fin 16 => fe.bytes k) = fe.name := by
    apply Vector.ext
    intro k hk
    simp [bytes, Vector.getD]
  have hblocks : (Vector.ofFn fun j : Fin 9 => fe.bytes.word (28 + 4 * j)) = fe.blocks := by
    apply Vector.ext
    intro j hj
    have hwj := hw (j + 3)
    rw [show 16 + 4 * (j + 3) = 28 + 4 * j by omega] at hwj
    simp [hwj, words, block, Vector.getD, hj]
  simp only [ofMem, hname, hblocks]
  rw [show (16 : Nat) = 16 + 4 * 0 from rfl, show (20 : Nat) = 16 + 4 * 1 from rfl,
    show (24 : Nat) = 16 + 4 * 2 from rfl, hw, hw, hw]
  rfl

/-- An entry is written back as it was read. -/
theorem bytes_ofMem (m : Mem) {k : Nat} (hk : k < 64) : (ofMem m).bytes k = m k := by
  unfold bytes
  split
  · next hk16 => simp [ofMem, Vector.getD, hk16]
  · have hword : (ofMem m).words ((k - 16) / 4) = m.word (16 + 4 * ((k - 16) / 4)) := by
      obtain ⟨j, hj⟩ : ∃ j, (k - 16) / 4 = j := ⟨_, rfl⟩
      rw [hj]
      match j with
      | 0 | 1 | 2 => rfl
      | j + 3 =>
        have hj9 : j < 9 := by omega
        have hblock : (ofMem m).block j = m.word (28 + 4 * j) := by
          simp [block, ofMem, Vector.getD, hj9]
        rw [show 16 + 4 * (j + 3) = 28 + 4 * j by omega, ← hblock]
        rfl
    unfold Mem.words
    rw [hword, Mem.wordByte_word m _ (by omega)]
    congr 1
    omega

@[simp] theorem bytes_zero (k : Nat) : zero.bytes k = 0 := by
  unfold bytes
  split
  · next hk => simp [zero, Vector.getD, hk]
  · have hword : ∀ j, zero.words j = 0 := by
      intro j
      match j with
      | 0 | 1 | 2 => rfl
      | j + 3 => exact block_zero j
    simp [Mem.words, hword, Mem.wordByte]

theorem ofMem_zero {m : Mem} (h : ∀ k < 64, m k = 0) : ofMem m = zero := by
  rw [← ofMem_bytes zero]
  apply ofMem_congr
  intro k hk
  rw [h k hk, bytes_zero]

end FileEntry

end LinuxDrivers.Sfs
