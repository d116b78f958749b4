import LinuxDrivers.Sfs.Kernel

/-!
# What the kernel operations do on a working 512-byte device

When no read fails and the SFS block, the block-device block and `s_blocksize` are all 512 bytes,
entry `i` occupies 64 aligned bytes at `entryAddr`. Every operation then comes down to a search in
the table, one entry rewritten (`setEntry`) and a change of `used_blocks` (`setUsed`); the only
other trace is the number of reads (`ticks`).
-/

namespace LinuxDrivers.Sfs

/-- The device address of entry `ino`, in the 32-bit arithmetic of the driver. -/
def entryAddr (sb : SuperBlock) (ino : Int) : UInt32 :=
  sb.entryTableBlockStart * sb.blockSize + .ofInt (ino * 64)

namespace Info

/-- The entry that the driver finds at index `ino`. -/
def entry (info : Info) (ino : Int) : FileEntry :=
  .ofMem (info.dev.data.window (entryAddr info.sb ino).toNat)

/-- `k` more reads have been made. -/
def ticks (info : Info) (k : Nat) : Info :=
  { info with dev := { info.dev with reads := info.dev.reads + k } }

def setEntry (info : Info) (ino : Int) (fe : FileEntry) : Info :=
  { info with dev := { info.dev with
      data := info.dev.data.store (entryAddr info.sb ino).toNat 64 fe.bytes } }

def setUsed (info : Info) (used : Nat → UInt8) : Info := { info with usedBlocks := used }

@[simp] theorem sb_ticks (info : Info) (k : Nat) : (info.ticks k).sb = info.sb := rfl
@[simp] theorem usedBlocks_ticks (info : Info) (k : Nat) :
    (info.ticks k).usedBlocks = info.usedBlocks := rfl
@[simp] theorem entry_ticks (info : Info) (k : Nat) (ino : Int) :
    (info.ticks k).entry ino = info.entry ino := rfl
@[simp] theorem ticks_ticks (info : Info) (k l : Nat) :
    (info.ticks k).ticks l = info.ticks (k + l) := by
  simp [ticks, Nat.add_assoc]

@[simp] theorem sb_setEntry (info : Info) (ino : Int) (fe : FileEntry) :
    (info.setEntry ino fe).sb = info.sb := rfl
@[simp] theorem usedBlocks_setEntry (info : Info) (ino : Int) (fe : FileEntry) :
    (info.setEntry ino fe).usedBlocks = info.usedBlocks := rfl

@[simp] theorem sb_setUsed (info : Info) (used : Nat → UInt8) :
    (info.setUsed used).sb = info.sb := rfl
@[simp] theorem usedBlocks_setUsed (info : Info) (used : Nat → UInt8) :
    (info.setUsed used).usedBlocks = used := rfl
@[simp] theorem entry_setUsed (info : Info) (used : Nat → UInt8) (ino : Int) :
    (info.setUsed used).entry ino = info.entry ino := rfl

end Info

/-- The disk, `used_blocks` and the super block are the same; reads made in between do not count. -/
structure SameState (info info' : Info) : Prop where
  data : info.dev.data = info'.dev.data
  usedBlocks : info.usedBlocks = info'.usedBlocks
  sb : info.sb = info'.sb

/-- All block sizes are 512 bytes. -/
structure Sized (info : Info) : Prop where
  blocksize : info.dev.blocksize = 512
  bdBlockSize : info.bdBlockSize = 512
  sbBlockSize : info.sb.blockSize = 512

namespace Sized

variable {info : Info} (h : Sized info)

include h

theorem ticks (k : Nat) : Sized (info.ticks k) := ⟨h.blocksize, h.bdBlockSize, h.sbBlockSize⟩

theorem setEntry (ino : Int) (fe : FileEntry) : Sized (info.setEntry ino fe) :=
  ⟨h.blocksize, h.bdBlockSize, h.sbBlockSize⟩

theorem setUsed (used : Nat → UInt8) : Sized (info.setUsed used) :=
  ⟨h.blocksize, h.bdBlockSize, h.sbBlockSize⟩

end Sized

/-- The device works, and all block sizes are 512 bytes. -/
structure Plain (info : Info) : Prop where
  reliable : info.dev.Reliable
  blocksize : info.dev.blocksize = 512
  bdBlockSize : info.bdBlockSize = 512
  sbBlockSize : info.sb.blockSize = 512

namespace Plain

theorem sized {info : Info} (h : Plain info) : Sized info :=
  ⟨h.blocksize, h.bdBlockSize, h.sbBlockSize⟩

theorem ticks {info : Info} (h : Plain info) (k : Nat) : Plain (info.ticks k) :=
  ⟨h.reliable, h.blocksize, h.bdBlockSize, h.sbBlockSize⟩

theorem setEntry {info : Info} (h : Plain info) (ino : Int) (fe : FileEntry) :
    Plain (info.setEntry ino fe) :=
  ⟨h.reliable, h.blocksize, h.bdBlockSize, h.sbBlockSize⟩

theorem setUsed {info : Info} (h : Plain info) (used : Nat → UInt8) : Plain (info.setUsed used) :=
  ⟨h.reliable, h.blocksize, h.bdBlockSize, h.sbBlockSize⟩

end Plain

/-! ## Addresses -/

theorem toNat_entryAddr {sb : SuperBlock} (h : sb.blockSize = 512) (ino : Int) :
    ((entryAddr sb ino).toNat : Int) =
      (sb.entryTableBlockStart.toNat * 512 + ino * 64) % 4294967296 := by
  have hoff := toNat_ofInt (ino * 64)
  unfold entryAddr
  simp only [h, UInt32.toNat_add, UInt32.toNat_mul, UInt32.reduceToNat]
  omega

theorem entryAddr_aligned {sb : SuperBlock} (h : sb.blockSize = 512) (ino : Int) :
    (entryAddr sb ino).toNat % 64 = 0 := by
  have := toNat_entryAddr h ino
  omega

/-- Two entries are the same 64 bytes or do not overlap. -/
theorem entryAddr_disjoint {sb : SuperBlock} (h : sb.blockSize = 512) {i j : Int}
    (hne : entryAddr sb i ≠ entryAddr sb j) :
    (entryAddr sb j).toNat + 64 ≤ (entryAddr sb i).toNat ∨
      (entryAddr sb i).toNat + 64 ≤ (entryAddr sb j).toNat := by
  have hi := entryAddr_aligned h i
  have hj := entryAddr_aligned h j
  have hne' : (entryAddr sb i).toNat ≠ (entryAddr sb j).toNat := fun e =>
    hne (UInt32.toNat_inj.1 e)
  omega

/-- A table of at most `2 ^ 26` entries does not wrap onto itself. -/
theorem entryAddr_inj {sb : SuperBlock} (h : sb.blockSize = 512)
    (hec : sb.entryCount.toNat ≤ 2 ^ 26) {i j : Int} (hi : 0 ≤ i ∧ i < sb.entryCount.toNat)
    (hj : 0 ≤ j ∧ j < sb.entryCount.toNat) (he : entryAddr sb i = entryAddr sb j) : i = j := by
  have h1 := toNat_entryAddr h i
  have h2 := toNat_entryAddr h j
  rw [he] at h1
  omega

theorem Info.entry_setEntry {info : Info} (h : Sized info) (i j : Int) (fe : FileEntry) :
    (info.setEntry i fe).entry j =
      if entryAddr info.sb i = entryAddr info.sb j then fe else info.entry j := by
  unfold Info.entry Info.setEntry
  split
  · next he =>
    rw [← FileEntry.ofMem_bytes fe]
    apply FileEntry.ofMem_congr
    intro k hk
    simp only [Mem.window_apply, ← he]
    rw [Mem.store_window hk, FileEntry.ofMem_bytes]
  · next hne =>
    apply FileEntry.ofMem_congr
    intro k hk
    exact Mem.store_disjoint (entryAddr_disjoint h.sbBlockSize hne) hk

/-! ## Reading and writing one entry -/

/-- An aligned entry does not cross a 512-byte block. -/
theorem not_crossing {a : UInt32} (h : a.toNat % 64 = 0) : ¬ a % 512 + 64 > 512 := by
  rw [gt_iff_lt, UInt32.lt_iff_toNat_lt, UInt32.toNat_add, UInt32.toNat_mod]
  simp only [UInt32.reduceToNat]
  omega

theorem block_add_offset (a : UInt32) : (a / 512).toNat * 512 + (a % 512).toNat = a.toNat := by
  rw [UInt32.toNat_div, UInt32.toNat_mod]
  simp only [UInt32.reduceToNat]
  omega

/-- An entry is read when the next read of the device succeeds. -/
theorem readEntry_of_ok {info : Info} (h : Sized info) (hok : info.dev.fails info.dev.reads = false)
    (ino : Int) : readEntryFromRealSfs info ino = (.ok (info.entry ino), info.ticks 1) := by
  obtain ⟨⟨data, blocksize, fails, reads⟩, bd, sb, used⟩ := info
  obtain ⟨rfl, rfl, hsb⟩ := h
  have hfit := not_crossing (entryAddr_aligned hsb ino)
  unfold readEntryFromRealSfs readFromRealSfs
  simp only
  change ¬ (sb.entryTableBlockStart * sb.blockSize + .ofInt (ino * 64)) % 512 + 64 > 512 at hfit
  simp only [hfit, ↓reduceIte, Device.sbBread_of_ok hok]
  have hentry : ∀ a : UInt32, FileEntry.ofMem ((data.window ((a / 512).toNat * 512)).window
      (a % 512).toNat) = .ofMem (data.window a.toNat) := by
    intro a
    apply FileEntry.ofMem_congr
    intro k _
    simp only [Mem.window_apply, ← block_add_offset a, Nat.add_assoc]
  rw [hentry]
  rfl

/-- An entry is written when the next read of the device succeeds. -/
theorem writeEntry_of_ok {info : Info} (h : Sized info)
    (hok : info.dev.fails info.dev.reads = false)
    (ino : Int) (fe : FileEntry) :
    writeEntryToRealSfs info ino fe = (0, (info.ticks 1).setEntry ino fe) := by
  obtain ⟨⟨data, blocksize, fails, reads⟩, bd, sb, used⟩ := info
  obtain ⟨rfl, rfl, hsb⟩ := h
  have hfit := not_crossing (entryAddr_aligned hsb ino)
  have haddr := block_add_offset (entryAddr sb ino)
  unfold writeEntryToRealSfs writeToRealSfs
  simp only
  change ¬ (sb.entryTableBlockStart * sb.blockSize + .ofInt (ino * 64)) % 512 + 64 > 512 at hfit
  simp only [hfit, ↓reduceIte, Device.sbBread_of_ok hok, Device.modify]
  unfold Info.setEntry Info.ticks
  simp only [← haddr]
  rfl

theorem readEntry_eq {info : Info} (h : Plain info) (ino : Int) :
    readEntryFromRealSfs info ino = (.ok (info.entry ino), info.ticks 1) :=
  readEntry_of_ok h.sized (h.reliable _) ino

theorem writeEntry_eq {info : Info} (h : Plain info) (ino : Int) (fe : FileEntry) :
    writeEntryToRealSfs info ino fe = (0, (info.ticks 1).setEntry ino fe) :=
  writeEntry_of_ok h.sized (h.reliable _) ino fe

/-! ## Chains of blocks -/

/-- The array after the blocks `bs` have been released. -/
def clear (used : Nat → UInt8) (bs : List UInt32) : Nat → UInt8 := fun x =>
  if x ∈ bs.map UInt32.toNat then 0 else used x

@[simp] theorem clear_nil (used : Nat → UInt8) : clear used [] = used := by
  funext x
  simp [clear]

theorem clear_cons (used : Nat → UInt8) (b : UInt32) (bs : List UInt32) :
    clear used (b :: bs) = clear (Function.update used b.toNat 0) bs := by
  funext x
  simp only [clear, Function.update_apply, List.map_cons, List.mem_cons]
  by_cases h1 : x = b.toNat <;> by_cases h2 : x ∈ bs.map UInt32.toNat <;> simp [h1, h2]

theorem clear_eq_one_iff {used : Nat → UInt8} {bs : List UInt32} {b : Nat} :
    clear used bs b = 1 ↔ used b = 1 ∧ b ∉ bs.map UInt32.toNat := by
  unfold clear
  by_cases hb : b ∈ bs.map UInt32.toNat
  · rw [if_pos hb]
    exact iff_of_false (by decide) fun h => h.2 hb
  · rw [if_neg hb]
    exact (and_iff_left hb).symm

@[simp] theorem Info.setUsed_self (info : Info) : info.setUsed info.usedBlocks = info := rfl

namespace FileEntry

/-- The block numbers up to the first zero: what a mount marks and a remove releases. -/
def chain (fe : FileEntry) : List UInt32 := fe.blocks.toList.takeWhile (· != 0)

/-- The block numbers in the slots from `i` on: what a truncation releases. -/
def tail (fe : FileEntry) (i : Nat) : List UInt32 :=
  ((List.range' i (9 - i)).map fe.block).filter (· != 0)

/-- The entry without its slots from `i` on. -/
def truncated (fe : FileEntry) (i : Nat) : FileEntry :=
  { fe with blocks := .ofFn fun j => if j.val < i then fe.block j else 0 }

theorem mem_blocks_toList {fe : FileEntry} {b : UInt32} (h : b ∈ fe.blocks.toList) :
    ∃ j, j < 9 ∧ fe.block j = b := by
  obtain ⟨j, hj, rfl⟩ := List.getElem_of_mem h
  have hj9 : j < 9 := by simpa using hj
  exact ⟨j, hj9, by simp [block, Vector.getD, hj9]⟩

theorem mem_chain {fe : FileEntry} {b : UInt32} (h : b ∈ fe.chain) :
    b ≠ 0 ∧ ∃ j, j < 9 ∧ fe.block j = b := by
  refine ⟨by simpa using List.mem_takeWhile_imp h, ?_⟩
  exact mem_blocks_toList ((List.takeWhile_prefix _).subset h)

theorem mem_tail {fe : FileEntry} {i : Nat} {b : UInt32} :
    b ∈ fe.tail i ↔ b ≠ 0 ∧ ∃ j, i ≤ j ∧ j < 9 ∧ fe.block j = b := by
  simp only [tail, List.mem_filter, List.mem_map, List.mem_range'_1, bne_iff_ne]
  constructor
  · rintro ⟨⟨j, hj, rfl⟩, hb⟩
    exact ⟨hb, j, hj.1, by omega, rfl⟩
  · rintro ⟨hb, j, h1, h2, rfl⟩
    exact ⟨⟨j, by omega, rfl⟩, hb⟩

@[simp] theorem block_truncated (fe : FileEntry) (i j : Nat) :
    (fe.truncated i).block j = if j < i then fe.block j else 0 := by
  by_cases hj : j < 9
  · simp [truncated, block, Vector.getD, hj]
  · have hj' : fe.block j = 0 := block_of_le (by omega)
    rw [block_of_le (by omega), hj', ite_self]

@[simp] theorem name_truncated (fe : FileEntry) (i : Nat) : (fe.truncated i).name = fe.name := rfl

@[simp] theorem block_updated (fe : FileEntry) (size timestamp perms : Option Int) (j : Nat) :
    (fe.updated size timestamp perms).block j = fe.block j := rfl

@[simp] theorem name_updated (fe : FileEntry) (size timestamp perms : Option Int) :
    (fe.updated size timestamp perms).name = fe.name := rfl

@[simp] theorem tail_updated (fe : FileEntry) (size timestamp perms : Option Int) (i : Nat) :
    (fe.updated size timestamp perms).tail i = fe.tail i := rfl

@[simp] theorem block_created (fe : FileEntry) (fn : CStr) (perms now : Int) (j : Nat) :
    (fe.created fn perms now).block j = 0 := by
  by_cases hj : j < 9 <;> simp [created, block, Vector.getD, hj]

end FileEntry

theorem putBlocks_eq (bs : List UInt32) (info : Info) :
    putBlocks bs info = info.setUsed (clear info.usedBlocks (bs.takeWhile (· != 0))) := by
  induction bs generalizing info with
  | nil => simp [putBlocks]
  | cons b bs ih =>
    unfold putBlocks
    by_cases hb : b = 0
    · simp [hb]
    · simp only [hb, ↓reduceIte, ih, List.takeWhile_cons, bne_iff_ne, ne_eq, not_false_eq_true,
        clear_cons]
      rfl

theorem truncBlocks_eq {n i : Nat} (hn : i + n = 9 ∨ n = 0 ∧ 9 ≤ i) (fe : FileEntry)
    (info : Info) : truncBlocks n i fe info =
      (fe.truncated i, info.setUsed (clear info.usedBlocks (fe.tail i))) := by
  induction n generalizing i fe info with
  | zero =>
    have hi : 9 ≤ i := by omega
    have htail : fe.tail i = [] := by simp [FileEntry.tail, Nat.sub_eq_zero_of_le hi]
    have hfe : fe.truncated i = fe := by
      unfold FileEntry.truncated
      congr 1
      apply Vector.ext
      intro j hj
      simp [FileEntry.block, Vector.getD, show j < i by omega]
    simp [truncBlocks, htail, hfe]
  | succ n ih =>
    have hi : i < 9 := by omega
    have hrange : List.range' i (9 - i) = i :: List.range' (i + 1) (9 - (i + 1)) := by
      rw [show 9 - i = (9 - (i + 1)) + 1 by omega, List.range'_succ]
    unfold truncBlocks
    by_cases hb : fe.block i = 0
    · have htail : fe.tail i = fe.tail (i + 1) := by simp [FileEntry.tail, hrange, hb]
      have hfe : fe.truncated i = fe.truncated (i + 1) := by
        unfold FileEntry.truncated
        congr 2
        funext j
        by_cases hj : j.val = i
        · simp [hj, hb]
        · simp [show j.val < i ↔ j.val < i + 1 by omega]
      simp only [hb, ne_eq, not_true_eq_false, ↓reduceIte, ih (by omega : i + 1 + n = 9 ∨ _)]
      rw [htail, hfe]
    · have htail : fe.tail i = fe.block i :: (fe.setBlock i 0).tail (i + 1) := by
        simp only [FileEntry.tail, hrange, List.map_cons, bne_iff_ne, ne_eq, hb,
          not_false_eq_true, List.filter_cons_of_pos]
        congr 2
        apply List.map_congr_left
        intro j hj
        have := List.mem_range'_1.1 hj
        simp [show ¬ i = j by omega]
      have hfe : (fe.setBlock i 0).truncated (i + 1) = fe.truncated i := by
        unfold FileEntry.truncated FileEntry.setBlock
        congr 2
        funext j
        have hblk := fe.block_setBlock i j 0
        unfold FileEntry.setBlock at hblk
        rw [hblk]
        by_cases hj : j.val = i
        · simp [hj, hi]
        · simp [show ¬ i = j.val from fun e => hj e.symm, show j.val < i ↔ j.val < i + 1 by omega]
      simp only [hb, ne_eq, not_false_eq_true, ↓reduceIte, ih (by omega : i + 1 + n = 9 ∨ _)]
      rw [hfe, htail, clear_cons]
      rfl

/-! ## Inode numbers -/

theorem s2vInodeNum_ne_invInode (i : Nat) : s2vInodeNum i ≠ invInode := by
  unfold s2vInodeNum invInode rootInodeNum
  omega

theorem v2sInodeNum_s2vInodeNum (i : Int) : v2sInodeNum (s2vInodeNum i) = i := by
  unfold v2sInodeNum s2vInodeNum
  omega

/-! ## The operations -/

/-- The entry is in use under the name `fn`. -/
def FileEntry.named (fe : FileEntry) (fn : CStr) : Bool :=
  fe.live && decide (fe.nameString = fn.bytes)

namespace Info

/-- The index of the first entry named `fn`. -/
def find (info : Info) (fn : CStr) : Option Nat :=
  findFrom (fun i => (info.entry i).named fn) info.sb.entryCount.toNat 0

/-- The index of the first free entry. -/
def freeEntry (info : Info) : Option Nat :=
  findFrom (fun i => !(info.entry i).live) info.sb.entryCount.toNat 0

/-- The first free data block. -/
def freeBlock (info : Info) : Option Nat :=
  findFrom (info.usedBlocks · == 0)
    (info.sb.partitionSize.toNat - info.sb.dataBlockStart.toNat) info.sb.dataBlockStart.toNat

theorem find_eq_some {info : Info} {fn : CStr} {i : Nat} (h : info.find fn = some i) :
    i < info.sb.entryCount.toNat ∧ (info.entry i).live = true ∧
      (info.entry i).nameString = fn.bytes := by
  obtain ⟨-, h1, h2, -⟩ := findFrom_eq_some h
  simp only [FileEntry.named, Bool.and_eq_true, decide_eq_true_eq] at h2
  exact ⟨by omega, h2⟩

theorem freeEntry_eq_some {info : Info} {i : Nat} (h : info.freeEntry = some i) :
    i < info.sb.entryCount.toNat ∧ (info.entry i).live = false := by
  obtain ⟨-, h1, h2, -⟩ := findFrom_eq_some h
  exact ⟨by omega, by simpa using h2⟩

theorem freeBlock_eq_some {info : Info} {b : Nat} (h : info.freeBlock = some b) :
    info.sb.dataBlockStart.toNat ≤ b ∧ b < info.sb.partitionSize.toNat ∧
      info.usedBlocks b = 0 := by
  obtain ⟨h1, h2, h3, -⟩ := findFrom_eq_some h
  exact ⟨h1, by omega, by simpa using h3⟩

/-- The number of a free block fits in a slot. -/
theorem toNat_freeBlock {info : Info} {b : Nat} (h : info.freeBlock = some b) :
    (UInt32.ofInt b).toNat = b := by
  have hb := (freeBlock_eq_some h).2.1
  have hps : info.sb.partitionSize.toNat < 4294967296 := info.sb.partitionSize.toNat_lt
  have := toNat_ofInt b
  omega

end Info

theorem lookupFrom_eq {info : Info} (h : Plain info) (fn : CStr) (n ino : Nat) (fe : FileEntry) :
    ∃ k fe', lookupFrom fn n ino fe info =
      (match findFrom (fun i => (info.entry i).named fn) n ino with
        | some i => (s2vInodeNum i, info.entry i)
        | none => (invInode, fe'), info.ticks k) := by
  induction n generalizing info ino fe with
  | zero => exact ⟨0, fe, rfl⟩
  | succ n ih =>
    obtain ⟨k, fe', hk⟩ := ih (h.ticks 1) (ino + 1) (info.entry ino)
    simp only [Info.entry_ticks, Info.ticks_ticks] at hk
    unfold lookupFrom findFrom
    rw [readEntry_eq h]
    by_cases hlive : (info.entry ino).live = true
    · by_cases hname : (info.entry ino).nameString = fn.bytes
      · have hnamed : (info.entry ino).named fn = true := by simp [FileEntry.named, hlive, hname]
        simp only [hlive, hname, hnamed, Bool.not_true, Bool.false_eq_true, ↓reduceIte]
        exact ⟨1, fe, rfl⟩
      · have hnamed : (info.entry ino).named fn = false := by simp [FileEntry.named, hname]
        simp only [hlive, hname, hnamed, Bool.not_true, Bool.false_eq_true, ↓reduceIte]
        exact ⟨1 + k, fe', hk⟩
    · have hnamed : (info.entry ino).named fn = false := by simp [FileEntry.named, hlive]
      simp only [hlive, hnamed, Bool.not_false, Bool.false_eq_true, ↓reduceIte]
      exact ⟨1 + k, fe', hk⟩

/-- `sfs_lookup` finds the first entry of that name and changes nothing. -/
theorem sfsLookup_eq {info : Info} (h : Plain info) (fn : CStr) (fe : FileEntry) :
    ∃ k fe', sfsLookup info fn fe =
      (match info.find fn with
        | some i => (s2vInodeNum i, info.entry i)
        | none => (invInode, fe'), info.ticks k) :=
  lookupFrom_eq h fn _ _ _

theorem findFreeEntry_eq {info : Info} (h : Plain info) (n ino : Nat) (fe : FileEntry) :
    ∃ k fe', findFreeEntry n ino fe info =
      (match findFrom (fun i => !(info.entry i).live) n ino with
        | some i => (some i, info.entry i)
        | none => (none, fe'), info.ticks k) := by
  induction n generalizing info ino fe with
  | zero => exact ⟨0, fe, rfl⟩
  | succ n ih =>
    obtain ⟨k, fe', hk⟩ := ih (h.ticks 1) (ino + 1) (info.entry ino)
    simp only [Info.entry_ticks, Info.ticks_ticks] at hk
    unfold findFreeEntry findFrom
    rw [readEntry_eq h]
    by_cases hlive : (info.entry ino).live = true
    · simp only [hlive, Bool.not_true, Bool.false_eq_true, ↓reduceIte]
      exact ⟨1 + k, fe', hk⟩
    · simp only [hlive, Bool.not_false, ↓reduceIte]
      exact ⟨1, fe, rfl⟩

/-- `sfs_create` fills the first free entry. -/
theorem sfsCreate_eq {info : Info} (h : Plain info) (fn : CStr) (perms now : Int)
    (fe : FileEntry) : ∃ k fe', sfsCreate info fn perms now fe =
      match info.freeEntry with
      | some i => ((s2vInodeNum i, (info.entry i).created fn perms now),
          (info.ticks k).setEntry i ((info.entry i).created fn perms now))
      | none => ((invInode, fe'), info.ticks k) := by
  obtain ⟨k, fe', hk⟩ := findFreeEntry_eq h info.sb.entryCount.toNat 0 fe
  unfold sfsCreate
  rw [hk]
  unfold Info.freeEntry
  cases findFrom (fun i => !(info.entry i).live) info.sb.entryCount.toNat 0 with
  | none => exact ⟨k, fe', rfl⟩
  | some i =>
    refine ⟨k + 1, fe', ?_⟩
    simp only [writeEntry_eq (h.ticks k), Info.ticks_ticks]
    rfl

/-- `sfs_remove` releases the chain of the first entry of that name and clears the entry. -/
theorem sfsRemove_eq {info : Info} (h : Plain info) (fn : CStr) :
    ∃ k, sfsRemove info fn =
      match info.find fn with
      | some i => (s2vInodeNum i, ((info.ticks k).setUsed
          (clear info.usedBlocks (info.entry i).chain)).setEntry i .zero)
      | none => (invInode, info.ticks k) := by
  obtain ⟨k, fe', hk⟩ := sfsLookup_eq h fn .zero
  unfold sfsRemove
  rw [hk]
  cases info.find fn with
  | none => exact ⟨k, rfl⟩
  | some i =>
    refine ⟨k + 1, ?_⟩
    simp only [s2vInodeNum_ne_invInode, ↓reduceIte, putBlocks_eq, v2sInodeNum_s2vInodeNum]
    rw [writeEntry_eq ((h.ticks k).setUsed _)]
    simp only [Int.lt_irrefl, ↓reduceIte, Info.usedBlocks_ticks]
    rfl

/-- The first slot that `sfs_update` truncates. -/
def firstCut (size : UInt32) : Nat := ((size + 512 - 1) / 512).toNat

/-- The cut of an update is the size in blocks, rounded up. -/
theorem firstCut_ofInt {size : Int} (h0 : 0 ≤ size) (h31 : size < 2 ^ 31) :
    (firstCut (.ofInt size) : Int) = (size + 511) / 512 := by
  have hn := toNat_ofInt size
  unfold firstCut
  simp only [UInt32.toNat_div, UInt32.toNat_sub, UInt32.toNat_add, UInt32.reduceToNat]
  omega

/-- `sfs_update` overwrites the given fields and drops the slots behind the size, when its two reads
succeed. -/
theorem sfsUpdate_of_ok {info : Info} (h : Sized info) (hok : info.dev.fails info.dev.reads = false)
    (hok' : info.dev.fails (info.dev.reads + 1) = false) (ino : Int)
    (size timestamp perms : Option Int) :
    let fe := (info.entry (v2sInodeNum ino)).updated size timestamp perms
    sfsUpdate info ino size timestamp perms =
      (0, ((info.ticks 2).setUsed (clear info.usedBlocks (fe.tail (firstCut fe.size)))).setEntry
        (v2sInodeNum ino) (fe.truncated (firstCut fe.size))) := by
  intro fe
  unfold sfsUpdate sfsGetFileEntry
  rw [readEntry_of_ok h hok]
  simp only [Info.sb_ticks, h.sbBlockSize]
  rw [truncBlocks_eq (by omega)]
  simp only
  have hsized : Sized ((info.ticks 1).setUsed (clear (info.ticks 1).usedBlocks
      (fe.tail (firstCut fe.size)))) := ⟨h.blocksize, h.bdBlockSize, h.sbBlockSize⟩
  exact writeEntry_of_ok hsized hok' _ _

theorem sfsUpdate_eq {info : Info} (h : Plain info) (ino : Int)
    (size timestamp perms : Option Int) : ∃ k,
      let fe := (info.entry (v2sInodeNum ino)).updated size timestamp perms
      sfsUpdate info ino size timestamp perms =
        (0, ((info.ticks k).setUsed (clear info.usedBlocks (fe.tail (firstCut fe.size)))).setEntry
          (v2sInodeNum ino) (fe.truncated (firstCut fe.size))) :=
  ⟨2, sfsUpdate_of_ok h.sized (h.reliable _) (h.reliable _) ino size timestamp perms⟩

/-- `sfs_get_data_block` takes the first free data block. -/
theorem sfsGetDataBlock_eq (info : Info) : sfsGetDataBlock info =
    match info.freeBlock with
    | some b => ((b : Int), info.setUsed (Function.update info.usedBlocks b 1))
    | none => (invBlock, info) := rfl

theorem ofInt_natCast_ne_invBlock {b : Nat} (hb : b < 4294967295) :
    UInt32.ofInt b ≠ UInt32.ofInt invBlock := by
  intro e
  have h1 := toNat_ofInt b
  have h2 := toNat_ofInt invBlock
  rw [e] at h1
  unfold invBlock at h1 h2
  omega

/-- `sfs_get_block` maps the stored block, or gives an empty slot the first free block. -/
theorem sfsGetBlock_eq {info : Info} (h : Plain info) (ino : Int) (iblock : Nat)
    (create : Bool) : ∃ k,
      let fe := info.entry (v2sInodeNum ino)
      sfsGetBlock info ino iblock create =
        if 9 ≤ iblock then (.error (-ENOSPC), info.ticks k)
        else if fe.block iblock ≠ 0 then (.ok (fe.block iblock), info.ticks k)
        else if create = false then (.error (- EIO), info.ticks k)
        else match info.freeBlock with
          | some b => (.ok (.ofInt b), ((info.ticks k).setUsed
              (Function.update info.usedBlocks b 1)).setEntry (v2sInodeNum ino)
                (fe.setBlock iblock (.ofInt b)))
          | none => (.error (-ENOSPC), info.ticks k) := by
  unfold sfsGetBlock sfsGetFileEntry
  by_cases h9 : 9 ≤ iblock
  · exact ⟨0, by simp [h9, Info.ticks]⟩
  have hlt : iblock < 9 := by omega
  rw [readEntry_eq h]
  simp only [ge_iff_le, h9, ↓reduceIte]
  by_cases hslot : (info.entry (v2sInodeNum ino)).block iblock = 0
  · cases create with
    | false => exact ⟨1, by simp [hslot]⟩
    | true =>
      simp only [hslot, ↓reduceIte, Bool.not_true, Bool.false_eq_true, ne_eq, not_true_eq_false,
        Bool.true_eq_false]
      rw [sfsGetDataBlock_eq, show (info.ticks 1).freeBlock = info.freeBlock from rfl]
      cases hfree : info.freeBlock with
      | none => exact ⟨1, by simp [hlt]⟩
      | some b =>
        have hb := (Info.freeBlock_eq_some hfree).2.1
        have hps : info.sb.partitionSize.toNat < 4294967296 := info.sb.partitionSize.toNat_lt
        have hne := ofInt_natCast_ne_invBlock (b := b) (by omega)
        refine ⟨2, ?_⟩
        simp only [FileEntry.block_setBlock, hlt, and_self, ↓reduceIte, hne]
        unfold sfsUpdateFileEntry
        rw [writeEntry_eq ((h.ticks 1).setUsed _)]
        rfl
  · exact ⟨1, by simp [hslot]⟩

end LinuxDrivers.Sfs
