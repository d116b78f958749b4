import LinuxDrivers.Sfs.EntryIo
import LinuxDrivers.Shell.Commands

/-!
# Partitions of every size

The formatter, the driver and the shell compute the regions of a partition with 32-bit products. Two
of them wrap around on large partitions: the size of the entry table in bytes, from which the
formatter derives the number of entries, and the byte offset of a data block, which the shell hands
to `lseek`. Both are right below `2 ^ 23` blocks and wrong from there on.
-/

namespace LinuxDrivers.Shell

open Sfs (SuperBlock FileEntry Info Served formatRealSfs formatSb readEntryFromRealSfs)

/-! ## The entry table -/

/-- A scan of dead entries marks nothing. -/
theorem markEntries_dead {info : Info} {n i : Nat} {used : Nat → UInt8}
    (hdead : ∀ k j, i ≤ j → j < i + n →
      (readEntryFromRealSfs (info.ticks k) (j : Nat)).1 = .ok .zero) :
    (Sfs.markEntries n i used info).1 = .ok used := by
  induction n generalizing i info with
  | zero => rfl
  | succ n ih =>
    have hread : (readEntryFromRealSfs info i).1 = .ok .zero :=
      hdead 0 i (Nat.le_refl _) (by omega)
    obtain ⟨k, hk⟩ := Sfs.readEntry_frame info i
    unfold Sfs.markEntries
    generalize readEntryFromRealSfs info i = r at hread hk
    obtain ⟨r, info'⟩ := r
    simp only at hread hk
    subst hread hk
    have hlive : FileEntry.zero.live = false := FileEntry.live_zero
    simp only [hlive, Bool.not_false, ↓reduceIte]
    apply ih
    intro k' j h1 h2
    rw [Info.ticks_ticks]
    exact hdead (k + k') j (by omega) (by omega)

/-- A working device with blocks of a usual size, which is what `sb_bread` reads. -/
structure Works (info : Info) : Prop where
  reliable : info.dev.Reliable
  bd_mem : info.bdBlockSize ∈ [512, 1024, 2048, 4096]
  blocksize : info.dev.blocksize = info.bdBlockSize.toNat

/-- The formatter and both mounts agree on a partition of `size` bytes with super block `sb`: what
it records, where the entries lie, and which blocks a mount marks. -/
structure FormatAgrees (disk stack : Mem) (size : Nat) (sb : SuperBlock) : Prop where
  partition_eq : sb.partitionSize.toNat = size / 512
  table_eq : sb.entryTableSize.toNat = size / 512 / 10
  start_eq : sb.dataBlockStart.toNat = 1 + sb.entryTableSize.toNat
  start_le : sb.dataBlockStart.toNat ≤ sb.partitionSize.toNat
  count_eq : sb.entryCount.toNat * 64 = sb.entryTableSize.toNat * 512
  inside : ∀ i < sb.entryCount.toNat, 512 + 64 * i + 64 ≤ 512 + sb.entryTableSize.toNat * 512
  empty : ∀ i < sb.entryCount.toNat,
    FileEntry.ofMem ((formatRealSfs disk size stack).window (512 + 64 * i)) = .zero
  driver : ∀ info, Works info → info.dev.data = formatRealSfs disk size stack →
    (Sfs.initBrowsing true info).1 = 0 ∧ ∀ b < sb.partitionSize.toNat,
      (Sfs.initBrowsing true info).2.usedBlocks b = if b < sb.dataBlockStart.toNat then 1 else 0
  shell : ∃ s, start true (formatRealSfs disk size stack) = some s ∧
    ∀ b < sb.partitionSize.toNat, s.usedBlocks b = if b < sb.dataBlockStart.toNat then 1 else 0

section Formatted

variable {disk stack : Mem} {size : Nat}

/-- Every entry of the formatted table is zero. -/
theorem entry_formatted {i : Nat} (hi : i < (formatSb size).entryCount.toNat) :
    FileEntry.ofMem ((formatRealSfs disk size stack).window (512 + 64 * i)) = .zero := by
  obtain ⟨-, hcount, -⟩ := Sfs.formatSb_table size
  apply FileEntry.ofMem_zero
  intro k hk
  rw [Mem.window_apply]
  apply Sfs.formatRealSfs_table <;> omega

/-- `init_browsing` of the driver on a formatted device, whatever the size of its blocks. -/
theorem initBrowsing_formatted {info : Info} (h : Works info)
    (hdata : info.dev.data = formatRealSfs disk size stack) :
    (Sfs.initBrowsing true info).1 = 0 ∧ (Sfs.initBrowsing true info).2.usedBlocks =
      fun b => if b < (formatSb size).dataBlockStart.toNat then 1 else 0 := by
  obtain ⟨-, -, htable⟩ := Sfs.formatSb_table size
  have hsb : SuperBlock.ofMem (info.dev.data.window (0 * info.dev.blocksize)) = formatSb size := by
    rw [← Sfs.formatRealSfs_sb disk size stack, ← hdata, Nat.zero_mul]
    apply SuperBlock.ofMem_congr
    intro k _
    rw [Mem.window_apply, Nat.zero_add]
  have hstart : (formatSb size).entryTableBlockStart.toNat = 1 := rfl
  have hdead : ∀ k j, 0 ≤ j → j < 0 + (formatSb size).entryCount.toNat →
      (readEntryFromRealSfs (({ info with sb := formatSb size }.ticks 1).ticks k) (j : Nat)).1 =
        .ok .zero := by
    intro k j _ hj
    have hserved : Served (({ info with sb := formatSb size }.ticks 1).ticks k) :=
      ⟨h.reliable, h.bd_mem, rfl, by
        change (formatSb size).entryTableBlockStart.toNat * 512 +
          64 * (formatSb size).entryCount.toNat ≤ 4294967296
        omega⟩
    have hplace : (({ info with sb := formatSb size }.ticks 1).ticks k).place j = 512 + 64 * j := by
      have haddr := hserved.toNat_entryAddr (i := j) (by simpa using hj)
      simp only [Info.place, Info.ticks, h.blocksize] at haddr ⊢
      rw [UInt32.toNat_div, UInt32.toNat_mod, Nat.div_add_mod', haddr]
      simp only [Sfs.entryOffset, hstart]
    rw [hserved.readEntry_eq, hplace]
    change Except.ok (FileEntry.ofMem (info.dev.data.window (512 + 64 * j))) = _
    rw [hdata, entry_formatted (by simpa using hj)]
  have hscan : (Sfs.markEntries (formatSb size).entryCount.toNat 0
      (fun i => if i < (formatSb size).dataBlockStart.toNat then 1 else 0)
      ({ info with sb := formatSb size }.ticks 1)).1 = _ := markEntries_dead hdead
  unfold Sfs.initBrowsing Sfs.readSbFromRealSfs
  simp only [Device.sbBread_of_reliable h.reliable, hsb]
  rw [if_neg (by simp [formatSb])]
  simp only [Bool.not_true, Bool.false_eq_true, ↓reduceIte]
  generalize hr : Sfs.markEntries _ 0 _ _ = r
  have hused : r.1 = .ok fun i => if i < (formatSb size).dataBlockStart.toNat then 1 else 0 := by
    rw [← hr]
    exact hscan
  obtain ⟨r, info'⟩ := r
  simp only at hused
  subst hused
  exact ⟨rfl, rfl⟩

/-- Marks of an empty table. -/
theorem marks_of_empty {info : Info} {used : Nat → UInt8} (h : Sfs.MarksBusy info used)
    (hempty : ∀ i : Nat, i < info.sb.entryCount.toNat → info.entry i = .zero) :
    used = fun b => if b < info.sb.dataBlockStart.toNat then 1 else 0 := by
  funext b
  by_cases hb : b < info.sb.dataBlockStart.toNat
  · rw [if_pos hb, (h b).1 (.inl hb)]
  · rw [if_neg hb, (h b).2]
    rintro (hlt | ⟨i, -, hi, hlive, -⟩)
    · exact hb hlt
    · rw [hempty i (by omega), FileEntry.live_zero] at hlive
      cases hlive

/-- `init_browsing` of the shell on a formatted partition. -/
theorem start_marks : ∃ s, start true (formatRealSfs disk size stack) = some s ∧
    s.usedBlocks = fun b => if b < (formatSb size).dataBlockStart.toNat then 1 else 0 := by
  obtain ⟨s, hstart, hsb, -, hbusy⟩ := start_eq disk stack size
  obtain ⟨-, -, hempty⟩ := start_volume hstart
  refine ⟨s, hstart, ?_⟩
  rw [← hsb]
  exact marks_of_empty hbusy hempty

end Formatted

/-- **Partitions of every size.** The formatter, the driver and the shell agree exactly when the
entry table has fewer than `2 ^ 23` blocks. -/
theorem format_agrees_iff (disk stack : Mem) {size : Nat} (h1 : 10 ≤ size / 512)
    (h2 : size / 512 < 2 ^ 32) :
    FormatAgrees disk stack size (.ofMem (formatRealSfs disk size stack)) ↔
      size / 512 < 83886080 := by
  have hpart : (formatSb size).partitionSize.toNat = size / 512 ∧
      (formatSb size).entryTableSize.toNat = size / 512 / 10 := by
    simp only [formatSb, UInt32.toNat_ofNat']
    omega
  have hcount : (formatSb size).entryCount.toNat * 64 =
      (formatSb size).entryTableSize.toNat * 512 ↔ size / 512 < 83886080 := by
    rw [hpart.2]
    simp only [formatSb, UInt32.toNat_ofNat', UInt32.toNat_mul, UInt32.toNat_div,
      UInt32.reduceToNat]
    omega
  obtain ⟨hstart, hle, -⟩ := Sfs.formatSb_table size
  rw [Sfs.formatRealSfs_sb]
  constructor
  · intro h
    exact hcount.1 h.count_eq
  · intro hsmall
    refine ⟨hpart.1, hpart.2, hstart, by omega, hcount.2 hsmall, fun i hi => by omega,
      fun i hi => entry_formatted hi, ?_, ?_⟩
    · intro info hworks hdata
      obtain ⟨hok, hused⟩ := initBrowsing_formatted hworks hdata
      exact ⟨hok, fun b _ => congrFun hused b⟩
    · obtain ⟨s, hs, hused⟩ := @start_marks disk stack size
      exact ⟨s, hs, fun b _ => congrFun hused b⟩

/-- A partition of ten blocks. -/
theorem format_agrees_iff_ten :
    FormatAgrees (fun _ => 0) (fun _ => 0) 5120
      (.ofMem (formatRealSfs (fun _ => 0) 5120 fun _ => 0)) :=
  (@format_agrees_iff (fun _ => 0) (fun _ => 0) 5120 (by decide) (by decide)).2 (by decide)

/-- On a partition of 40 GiB the product is `2 ^ 32` and the super block records no entries. -/
theorem not_format_agrees_large :
    (SuperBlock.ofMem (formatRealSfs (fun _ => 0) 42949672960 fun _ => 0)).entryCount = 0 ∧
      ¬ FormatAgrees (fun _ => 0) (fun _ => 0) 42949672960
        (.ofMem (formatRealSfs (fun _ => 0) 42949672960 fun _ => 0)) := by
  rw [Sfs.formatRealSfs_sb]
  refine ⟨by decide +kernel, fun h => ?_⟩
  exact absurd h.count_eq (by decide +kernel)

/-! ## The data blocks -/

/-- The descriptor has written `n` bytes at the start of block `b`, and nothing outside of it. -/
structure WroteBlock (fd fd' : Fd) (b n : Nat) (src : Mem) : Prop where
  seek : fd' = (fd.lseek (b * 512)).write n src
  outside : ∀ x, x < b * 512 ∨ (b + 1) * 512 ≤ x → fd'.data x = fd.data x

/-- `sfs_write` and `sfs_read` seek to the place of block `b`: a turn of the loop of `sfs_write`
that completes a block, its partial block, and a turn of the loop of `sfs_read`. -/
structure InPlace (s : State) (b : Nat) : Prop where
  full : ∀ (w : Writer) (stdin : Stdin), w.blockI < 9 → 0 < w.toRead →
    (readStdin w.toRead stdin).1.length = w.toRead →
    WroteBlock s.fd (writeLoop 1 w stdin s).2.2.fd b 512
      (s.block.store w.curReadI w.toRead (.ofList (readStdin w.toRead stdin).1))
  tail : ∀ w : Writer, w.blockI < 9 → w.curReadI ≤ 512 →
    WroteBlock s.fd (writePartial w s).2.fd b w.curReadI s.block
  read : ∀ remToRead : UInt32, (readBlocks [.ofInt b] remToRead s).fd =
    ((s.fd.lseek (b * 512)).read (min 512 remToRead.toNat)).2

theorem wroteBlock {fd : Fd} {b n : Nat} {src : Mem} (hn : n ≤ 512) :
    WroteBlock fd ((fd.lseek (b * 512)).write n src) b n src := by
  refine ⟨rfl, fun x hx => ?_⟩
  exact Mem.store_of_not_mem (by simp only [Fd.lseek]; omega)

/-- The offset of block `b` as the shell computes it. -/
theorem toNat_offset (b : Nat) : (UInt32.ofInt b * 512).toNat = b * 512 % 2 ^ 32 := by
  have h := toNat_ofInt b
  rw [UInt32.toNat_mul]
  simp only [UInt32.reduceToNat]
  omega

/-- What an allocation gives does not depend on the block buffer, and it changes `used_blocks`
only. -/
theorem getDataBlock_frame {s : State} {b : Nat} (h : (getDataBlock s).1 = b) (block : Mem) :
    ∃ used, getDataBlock { s with block } = ((b : Int), { s with block, usedBlocks := used }) := by
  unfold getDataBlock at h ⊢
  simp only at h ⊢
  generalize findFrom (s.usedBlocks · == 0) _ _ = r at h ⊢
  cases r with
  | none => exact absurd h.symm (natCast_ne_neg_one b)
  | some i =>
    obtain rfl : i = b := by simp only at h; omega
    exact ⟨_, rfl⟩

section Seeks

variable {s : State} {b : Nat} (hsize : s.sb.blockSize = 512)
include hsize

/-- The place where the loop of `sfs_write` stores a block. -/
theorem writeLoop_fd (hget : (getDataBlock s).1 = b) {w : Writer} {stdin : Stdin}
    (hblock : w.blockI < 9) (hto : 0 < w.toRead)
    (hlen : (readStdin w.toRead stdin).1.length = w.toRead) :
    (writeLoop 1 w stdin s).2.2.fd = (s.fd.lseek (b * 512 % 2 ^ 32)).write 512
      (s.block.store w.curReadI w.toRead (.ofList (readStdin w.toRead stdin).1)) := by
  rcases hread : readStdin w.toRead stdin with ⟨bytes, rest⟩
  rw [hread] at hlen
  simp only at hlen
  obtain ⟨used, hgot⟩ := getDataBlock_frame hget
    (s.block.store w.curReadI bytes.length (.ofList bytes))
  unfold writeLoop
  rw [hread]
  simp only
  rw [if_neg (by omega), if_pos hlen, if_neg (by omega), hgot]
  simp only [natCast_ne_neg_one, ↓reduceIte, State.lseek, hsize, toNat_offset, writeLoop, hlen]
  rfl

/-- The place where it stores the partial block. -/
theorem writePartial_fd (hget : (getDataBlock s).1 = b) (hb : b < 2 ^ 31) {w : Writer}
    (hblock : w.blockI < 9) : (writePartial w s).2.fd =
      (s.fd.lseek (b * 512 % 2 ^ 32)).write w.curReadI s.block := by
  obtain ⟨used, hgot⟩ := getDataBlock_frame hget s.block
  have hne : UInt32.ofInt (b : Int) ≠ .ofInt (-1) := by
    intro he
    have h1 := toNat_ofInt b
    rw [he] at h1
    have h2 : (UInt32.ofInt (-1)).toNat = 4294967295 := by decide
    omega
  have hslot : (w.fe.setBlock w.blockI (.ofInt (b : Int))).block w.blockI = .ofInt (b : Int) := by
    rw [FileEntry.block_setBlock, if_pos ⟨rfl, hblock⟩]
  unfold writePartial
  rw [if_neg (by omega), hgot]
  simp only [hslot, hne, ↓reduceIte, State.lseek, hsize, toNat_offset]

/-- The place from which `sfs_read` reads a block. -/
theorem readBlocks_fd (h0 : 0 < b) (hb : b < 2 ^ 31) (remToRead : UInt32) :
    (readBlocks [.ofInt b] remToRead s).fd =
      ((s.fd.lseek (b * 512 % 2 ^ 32)).read (min 512 remToRead.toNat)).2 := by
  have hne : UInt32.ofInt (b : Int) ≠ 0 := by
    intro he
    have h1 := toNat_ofInt b
    rw [he, UInt32.toNat_zero] at h1
    omega
  have hto : (if remToRead ≥ (512 : UInt32) then 512 else remToRead).toNat =
      min 512 remToRead.toNat := by
    have hle : remToRead ≥ (512 : UInt32) ↔ 512 ≤ remToRead.toNat := by
      rw [ge_iff_le, UInt32.le_iff_toNat_le]
      rfl
    split
    · next h => exact (Nat.min_eq_left (hle.1 h)).symm
    · next h => exact (Nat.min_eq_right (by have := mt hle.2 h; omega)).symm
  unfold readBlocks
  rw [if_neg hne]
  simp only [hsize, hto, State.lseek, toNat_offset, Fd.read, State.put, readBlocks, ite_self]

end Seeks

/-- A partition with its super block, on which block `b` is the only free one. -/
def onlyFree (size b : Nat) : State where
  fd := ⟨(formatSb size).bytes, 0⟩
  sb := formatSb size
  usedBlocks x := if x = b then 0 else 1
  block := fun _ => 0
  out := []

theorem getDataBlock_onlyFree {size b : Nat} (h1 : (formatSb size).dataBlockStart.toNat ≤ b)
    (h2 : b < (formatSb size).partitionSize.toNat) : (getDataBlock (onlyFree size b)).1 = b := by
  have hfind : findFrom ((onlyFree size b).usedBlocks · == 0)
      ((formatSb size).partitionSize.toNat - (formatSb size).dataBlockStart.toNat)
      (formatSb size).dataBlockStart.toNat = some b := by
    refine findFrom_of_first h1 (by omega) (by simp [onlyFree]) fun k _ hk => ?_
    simp [onlyFree, show k ≠ b by omega]
  unfold getDataBlock
  simp only [onlyFree] at hfind ⊢
  rw [hfind]

/-- **The place of a data block.** On a partition of fewer than `2 ^ 31` blocks, whenever
`get_data_block` gives block `b`, its data is written to and read from its own place, exactly when
`b` is below `2 ^ 23`. -/
theorem inPlace_iff {size b : Nat} (hP : size / 512 < 2 ^ 31)
    (hlo : (formatSb size).dataBlockStart.toNat ≤ b) (hhi : b < size / 512) :
    (∀ s : State, s.sb = formatSb size → (getDataBlock s).1 = b → InPlace s b) ↔ b < 2 ^ 23 := by
  obtain ⟨hpart, -, hstart, -⟩ := Sfs.formatSb_fields hP
  constructor
  · intro h
    have hget := getDataBlock_onlyFree hlo (by omega)
    have hplace := (h (onlyFree size b) rfl hget).tail ⟨1, 511, 0, 0, .zero⟩ (by decide) (by decide)
    have hpos := congrArg Fd.pos hplace.seek
    rw [writePartial_fd rfl hget (by omega) (by decide)] at hpos
    simp only [Fd.lseek, Fd.write_pos] at hpos
    omega
  · intro hb s hsb hget
    have hsize : s.sb.blockSize = 512 := by
      rw [hsb]
      rfl
    have hmod : b * 512 % 2 ^ 32 = b * 512 := Nat.mod_eq_of_lt (by omega)
    refine ⟨fun w stdin hblock hto hlen => ?_, fun w hblock hcur => ?_, fun remToRead => ?_⟩
    · rw [writeLoop_fd hsize hget hblock hto hlen, hmod]
      exact wroteBlock (Nat.le_refl _)
    · rw [writePartial_fd hsize hget (by omega) hblock, hmod]
      exact wroteBlock hcur
    · rw [readBlocks_fd hsize (by omega) (by omega), hmod]

/-- The last block of a partition of ten blocks. -/
theorem inPlace_iff_ten : (getDataBlock (onlyFree 5120 9)).1 = 9 ∧
    ∀ s : State, s.sb = formatSb 5120 → (getDataBlock s).1 = 9 → InPlace s 9 :=
  ⟨by decide +kernel, (@inPlace_iff 5120 9 (by decide) (by decide) (by decide)).2 (by decide)⟩

/-- Block `2 ^ 23` of a partition of `2 ^ 23 + 1` blocks is written at offset 0, over the super
block. -/
theorem not_inPlace_high : let s := onlyFree 4294967808 8388608
    (formatSb 4294967808).dataBlockStart.toNat ≤ 8388608 ∧ 8388608 < 4294967808 / 512 ∧
      (getDataBlock s).1 = 8388608 ∧
      (writePartial ⟨1, 511, 0, 0, .zero⟩ s).2.fd.data 0 = 0 ∧ s.fd.data 0 = 21 ∧
      ¬ InPlace s 8388608 := by
  intro s
  have hget : (getDataBlock s).1 = (8388608 : Nat) :=
    getDataBlock_onlyFree (by decide +kernel) (by decide +kernel)
  have hfd := writePartial_fd (s := s) rfl hget (by decide) (w := ⟨1, 511, 0, 0, .zero⟩) (by decide)
  have hdata : s.fd.data 0 = 21 := by decide +kernel
  refine ⟨by decide +kernel, by decide, hget, ?_, hdata, fun h => ?_⟩
  · rw [hfd]
    decide +kernel
  · have hout := (h.tail ⟨1, 511, 0, 0, .zero⟩ (by decide) (by decide)).outside 0 (.inl (by decide))
    rw [hfd, hdata] at hout
    exact absurd hout (by decide +kernel)

end LinuxDrivers.Shell
