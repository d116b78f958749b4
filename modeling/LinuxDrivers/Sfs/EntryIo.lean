import LinuxDrivers.Sfs.Mount

/-!
# Entries on devices with larger blocks

The driver finds an entry by dividing its byte offset by the block size of the block device, and
hands the quotient to `sb_bread`, which counts in blocks of `s_blocksize` bytes. The two sizes are
equal while `init_browsing` runs. Then `sfs_fill_super` sets `s_blocksize` to the block size of the
file system without telling the block device, and on a device with larger blocks the quotient
counts the wrong unit.
-/

namespace LinuxDrivers.Sfs

/-- The byte offset of entry `i` on the device. -/
def entryOffset (sb : SuperBlock) (i : Nat) : Nat := sb.entryTableBlockStart.toNat * 512 + 64 * i

/-- Reading and writing entries works: a write changes the 64 bytes of its entry and nothing else,
the entry can be read back and the others read as before. The copy stays inside the block that
`sb_bread` gave, and the branch that should never happen is not taken. -/
structure EntryIo (info : Info) : Prop where
  written : ∀ (i : Nat) (fe : FileEntry), i < info.sb.entryCount.toNat →
    (writeEntryToRealSfs info i fe).1 = 0 ∧ (writeEntryToRealSfs info i fe).2.dev.data =
      info.dev.data.store (entryOffset info.sb i) 64 fe.bytes
  read_back : ∀ (i : Nat) (fe : FileEntry), i < info.sb.entryCount.toNat →
    (readEntryFromRealSfs (writeEntryToRealSfs info i fe).2 i).1 = .ok fe
  others : ∀ (i j : Nat) (fe : FileEntry), i < info.sb.entryCount.toNat →
    j < info.sb.entryCount.toNat → j ≠ i →
    (readEntryFromRealSfs (writeEntryToRealSfs info i fe).2 j).1 = (readEntryFromRealSfs info j).1
  buffered : ∀ i : Nat, i < info.sb.entryCount.toNat →
    (entryAddr info.sb i % info.bdBlockSize).toNat + 64 ≤ info.dev.blocksize
  never : ∀ i : Nat, i < info.sb.entryCount.toNat →
    ¬ entryAddr info.sb i % info.bdBlockSize + 64 > info.bdBlockSize

/-! ## Where the driver finds an entry -/

/-- Working devices with blocks of the usual sizes, and a table below the 32-bit limit. -/
structure Served (info : Info) : Prop where
  reliable : info.dev.Reliable
  bd_mem : info.bdBlockSize ∈ [512, 1024, 2048, 4096]
  blockSize : info.sb.blockSize = 512
  table_le : entryOffset info.sb info.sb.entryCount.toNat ≤ 4294967296

/-- The offset at which the driver finds entry `i`. -/
def Info.place (info : Info) (i : Nat) : Nat :=
  (entryAddr info.sb i / info.bdBlockSize).toNat * info.dev.blocksize +
    (entryAddr info.sb i % info.bdBlockSize).toNat

/-- The entry `fe` is stored at offset `a`, after one read. -/
def Info.storeAt (info : Info) (a : Nat) (fe : FileEntry) : Info :=
  { info with dev := { info.dev with
      data := info.dev.data.store a 64 fe.bytes, reads := info.dev.reads + 1 } }

namespace Served

variable {info : Info} (h : Served info) {i : Nat}
include h

theorem bd_cases : info.bdBlockSize.toNat = 512 ∨ info.bdBlockSize.toNat = 1024 ∨
    info.bdBlockSize.toNat = 2048 ∨ info.bdBlockSize.toNat = 4096 := by
  have hmem := h.bd_mem
  simp only [List.mem_cons, List.not_mem_nil, or_false] at hmem
  rcases hmem with hbd | hbd | hbd | hbd <;> rw [hbd] <;> decide

theorem toNat_entryAddr (hi : i < info.sb.entryCount.toNat) :
    (entryAddr info.sb i).toNat = entryOffset info.sb i := by
  have haddr := Sfs.toNat_entryAddr h.blockSize i
  have hle := h.table_le
  unfold entryOffset at hle ⊢
  omega

theorem offset_le (i : Nat) :
    (entryAddr info.sb i % info.bdBlockSize).toNat + 64 ≤ info.bdBlockSize.toNat := by
  have hal := entryAddr_aligned h.blockSize i
  rw [UInt32.toNat_mod]
  rcases h.bd_cases with hbd | hbd | hbd | hbd <;> rw [hbd] <;> omega

theorem not_crossing (i : Nat) :
  ¬ entryAddr info.sb i % info.bdBlockSize + 64 > info.bdBlockSize := by
  have hle := h.offset_le i
  have hbd := h.bd_cases
  intro hgt
  rw [gt_iff_lt, UInt32.lt_iff_toNat_lt, UInt32.toNat_add] at hgt
  simp only [UInt32.reduceToNat] at hgt
  omega

theorem readEntry_eq (i : Nat) : (readEntryFromRealSfs info i).1 =
    .ok (.ofMem (info.dev.data.window (info.place i))) := by
  have hfit := h.not_crossing i
  unfold entryAddr at hfit
  unfold readEntryFromRealSfs readFromRealSfs
  simp only [hfit, ↓reduceIte, Device.sbBread_of_reliable h.reliable]
  refine congrArg Except.ok (FileEntry.ofMem_congr fun k _ => ?_)
  rw [Mem.window_apply, Mem.window_apply, Mem.window_apply, ← Nat.add_assoc, Info.place, entryAddr]

theorem writeEntry_eq (i : Nat) (fe : FileEntry) :
    writeEntryToRealSfs info i fe = (0, info.storeAt (info.place i) fe) := by
  have hfit := h.not_crossing i
  unfold entryAddr at hfit
  unfold writeEntryToRealSfs writeToRealSfs
  simp only [hfit, ↓reduceIte, Device.sbBread_of_reliable h.reliable]
  rfl

/-- After a write the device works as before. -/
theorem storeAt (a : Nat) (fe : FileEntry) : Served (info.storeAt a fe) :=
  ⟨h.reliable, h.bd_mem, h.blockSize, h.table_le⟩

/-- Entries that are found at their offsets are read and written correctly. -/
theorem entryIo (hplace : ∀ i < info.sb.entryCount.toNat,
      info.place i = entryOffset info.sb i ∧
        (entryAddr info.sb i % info.bdBlockSize).toNat + 64 ≤ info.dev.blocksize) :
    EntryIo info where
  written i fe hi := by
    rw [h.writeEntry_eq, (hplace i hi).1]
    exact ⟨rfl, rfl⟩
  read_back i fe hi := by
    rw [h.writeEntry_eq, (h.storeAt _ fe).readEntry_eq]
    refine congrArg Except.ok ((FileEntry.ofMem_congr fun k hk => ?_).trans fe.ofMem_bytes)
    exact Mem.store_window hk
  others i j fe hi hj hne := by
    rw [h.writeEntry_eq, (h.storeAt _ fe).readEntry_eq, h.readEntry_eq]
    refine congrArg Except.ok (FileEntry.ofMem_congr fun k hk => ?_)
    have hi' := (hplace i hi).1
    have hj' := (hplace j hj).1
    unfold entryOffset at hi' hj'
    change info.dev.data.store (info.place i) 64 fe.bytes (info.place j + k) = _
    exact Mem.store_of_not_mem (by omega)
  buffered i hi := (hplace i hi).2
  never i _ := h.not_crossing i

/-- While `sb_bread` counts in blocks of the device, every entry is found at its offset. -/
theorem entryIo_of_eq (hsize : info.dev.blocksize = info.bdBlockSize.toNat) : EntryIo info := by
  refine h.entryIo fun i hi => ⟨?_, by rw [hsize]; exact h.offset_le i⟩
  unfold Info.place
  rw [hsize, UInt32.toNat_div, UInt32.toNat_mod, Nat.div_add_mod', h.toNat_entryAddr hi]

/-- Before the first block of the device ends, both block sizes give the same place. -/
theorem place_of_lt (hi : i < info.sb.entryCount.toNat)
    (hlt : entryOffset info.sb i < info.bdBlockSize.toNat) :
    info.place i = entryOffset info.sb i ∧
      (entryAddr info.sb i % info.bdBlockSize).toNat = entryOffset info.sb i := by
  unfold Info.place
  rw [UInt32.toNat_div, UInt32.toNat_mod, h.toNat_entryAddr hi, Nat.div_eq_of_lt hlt,
    Nat.mod_eq_of_lt hlt, Nat.zero_mul, Nat.zero_add]
  exact ⟨rfl, rfl⟩

/-- From the second block of the device on, smaller blocks lead to a place before the entry. -/
theorem place_lt (hsize : info.dev.blocksize = 512) (hbd : info.bdBlockSize ≠ 512)
    (hi : i < info.sb.entryCount.toNat)
    (hle : info.bdBlockSize.toNat ≤ entryOffset info.sb i) :
    info.place i < entryOffset info.sb i := by
  have hne : info.bdBlockSize.toNat ≠ 512 := fun he => hbd (UInt32.toNat_inj.1 he)
  unfold Info.place
  rw [UInt32.toNat_div, UInt32.toNat_mod, h.toNat_entryAddr hi, hsize]
  rcases h.bd_cases with hbd' | hbd' | hbd' | hbd' <;> rw [hbd'] at hne hle ⊢ <;> omega

/-- Writes that land before their entry show. -/
theorem not_entryIo_of_place_lt (hi : i < info.sb.entryCount.toNat)
    (hlt : info.place i < entryOffset info.sb i) : ¬ EntryIo info := by
  intro hio
  let fe : FileEntry :=
    { FileEntry.zero with name := .replicate 16 (info.dev.data (info.place i) + 1) }
  have hdata := (hio.written i fe hi).2
  rw [h.writeEntry_eq] at hdata
  have hbyte : fe.bytes 0 = info.dev.data (info.place i) + 1 := by
    simp [fe, FileEntry.bytes, Vector.getD]
  have hplace := congrFun hdata (info.place i)
  change info.dev.data.store (info.place i) 64 fe.bytes (info.place i) = _ at hplace
  rw [Mem.store_of_mem (by omega), Mem.store_of_not_mem (by omega), Nat.sub_self, hbyte] at hplace
  exact absurd hplace (by simp)

/-- **Once `s_blocksize` is 512.** Entries are read and written correctly exactly when the device
has 512-byte blocks as well, or when no entry ends behind the first 512 bytes. -/
theorem entryIo_iff (hsize : info.dev.blocksize = 512) : EntryIo info ↔
    info.bdBlockSize = 512 ∨ info.sb.entryCount = 0 ∨
      entryOffset info.sb info.sb.entryCount.toNat ≤ 512 := by
  have hbd_le : 512 ≤ info.bdBlockSize.toNat := by
    have := h.bd_cases
    omega
  constructor
  · intro hio
    by_contra hno
    obtain ⟨hbd, hcount, hend⟩ : info.bdBlockSize ≠ 512 ∧ info.sb.entryCount ≠ 0 ∧
        512 < entryOffset info.sb info.sb.entryCount.toNat := by
      simpa only [not_or, Nat.not_le] using hno
    have hpos : info.sb.entryCount.toNat ≠ 0 := fun he => hcount (UInt32.toNat_inj.1 he)
    obtain ⟨i, hi⟩ := Nat.exists_eq_succ_of_ne_zero hpos
    have hi' : i < info.sb.entryCount.toNat := by omega
    -- the last entry is copied across the end of its block or lands before its offset
    by_cases hlt : entryOffset info.sb i < info.bdBlockSize.toNat
    · have hbuf := hio.buffered i hi'
      rw [(h.place_of_lt hi' hlt).2, hsize] at hbuf
      rw [hi] at hend
      unfold entryOffset at hbuf hend
      omega
    · exact h.not_entryIo_of_place_lt hi' (h.place_lt hsize hbd hi' (Nat.not_lt.1 hlt)) hio
  · rintro (hbd | hcount | hend)
    · exact h.entryIo_of_eq (by rw [hsize, hbd]; rfl)
    · refine h.entryIo fun i hi => ?_
      rw [hcount] at hi
      exact absurd hi (Nat.not_lt_zero i)
    · refine h.entryIo fun i hi => ?_
      have hle : entryOffset info.sb i + 64 ≤ entryOffset info.sb info.sb.entryCount.toNat := by
        unfold entryOffset
        omega
      obtain ⟨hplace, hoff⟩ := h.place_of_lt hi (by omega)
      exact ⟨hplace, by rw [hoff, hsize]; omega⟩

end Served

/-! ## Mounting -/

theorem readEntry_frame (info : Info) (i : Int) :
    ∃ k, (readEntryFromRealSfs info i).2 = info.ticks k := by
  unfold readEntryFromRealSfs readFromRealSfs Device.sbBread
  by_cases hcross : (info.sb.entryTableBlockStart * info.sb.blockSize + .ofInt (i * 64)) %
      info.bdBlockSize + 64 > info.bdBlockSize
  · simp only [hcross, ↓reduceIte]
    exact ⟨0, rfl⟩
  · simp only [hcross, ↓reduceIte]
    cases info.dev.fails info.dev.reads with
    | true => exact ⟨1, rfl⟩
    | false => exact ⟨1, rfl⟩

/-- The scan of the table changes nothing but the number of reads. -/
theorem markEntries_frame (n i : Nat) (used : Nat → UInt8) (info : Info) :
    ∃ k, (markEntries n i used info).2 = info.ticks k := by
  induction n generalizing i used info with
  | zero => exact ⟨0, rfl⟩
  | succ n ih =>
    obtain ⟨k, hread⟩ := readEntry_frame info i
    unfold markEntries
    generalize readEntryFromRealSfs info i = r at hread ⊢
    obtain ⟨r, info'⟩ := r
    simp only at hread
    subst hread
    have hnext : ∀ used, ∃ k', (markEntries n (i + 1) used (info.ticks k)).2 = info.ticks k' := by
      intro used
      obtain ⟨k', hk'⟩ := ih (i + 1) used (info.ticks k)
      exact ⟨k + k', by rw [hk', Info.ticks_ticks]⟩
    cases r with
    | error e => exact ⟨k, rfl⟩
    | ok fe =>
      simp only
      split
      · exact hnext _
      · exact hnext _

/-- While `init_browsing` scans the table, the super block is known and `s_blocksize` is that of the
device. -/
def Info.browsing (info : Info) : Info := { info with sb := .ofMem info.dev.data }

/-- `init_browsing` reads the super block and leaves the device alone. -/
theorem initBrowsing_frame {info : Info} (h : info.dev.Reliable) (vmallocOk : Bool) : ∃ k used,
    (initBrowsing vmallocOk info).2 = (info.browsing.ticks k).setUsed used := by
  have hsb : SuperBlock.ofMem (info.dev.data.window (0 * info.dev.blocksize)) =
      .ofMem info.dev.data := by
    rw [Nat.zero_mul]
    apply SuperBlock.ofMem_congr
    intro k _
    rw [Mem.window_apply, Nat.zero_add]
  unfold initBrowsing readSbFromRealSfs
  simp only [Device.sbBread_of_reliable h, hsb]
  split
  · exact ⟨1, info.usedBlocks, rfl⟩
  · split
    · exact ⟨1, info.usedBlocks, rfl⟩
    · obtain ⟨k, hscan⟩ := markEntries_frame (SuperBlock.ofMem info.dev.data).entryCount.toNat 0
        (fun i => if i < (SuperBlock.ofMem info.dev.data).dataBlockStart.toNat then 1 else 0)
        (info.browsing.ticks 1)
      rw [Info.ticks_ticks] at hscan
      generalize hr : markEntries _ 0 _ _ = r
      have hinfo : r.2 = info.browsing.ticks (1 + k) := by
        rw [← hr]
        exact hscan
      obtain ⟨r, info'⟩ := r
      simp only at hinfo
      subst hinfo
      cases r with
      | error e => exact ⟨1 + k, info.usedBlocks, rfl⟩
      | ok used => exact ⟨1 + k, used, rfl⟩

/-- A mount that succeeds sets `s_blocksize` and leaves the device alone. -/
theorem sfsFillSuper_frame {info : Info} (h : info.dev.Reliable)
    {kzallocOk vmallocOk igetOk rootOk : Bool}
    (hmount : (sfsFillSuper kzallocOk vmallocOk igetOk rootOk info).1 = 0) : ∃ k used,
    (sfsFillSuper kzallocOk vmallocOk igetOk rootOk info).2 =
      { (info.browsing.ticks k).setUsed used with
        dev := { (info.browsing.ticks k).dev with blocksize := info.browsing.sb.blockSize.toNat } }
    := by
  obtain ⟨k, used, hinit⟩ := initBrowsing_frame h vmallocOk
  unfold sfsFillSuper at hmount ⊢
  generalize initBrowsing vmallocOk info = r at hinit hmount ⊢
  obtain ⟨r, info'⟩ := r
  simp only at hinit
  subst hinit
  refine ⟨k, used, ?_⟩
  cases kzallocOk with
  | false => exact absurd hmount (show -ENOMEM ≠ 0 by decide)
  | true =>
    simp only [Bool.not_true, Bool.false_eq_true, ↓reduceIte] at hmount ⊢
    by_cases hr : r < 0
    · rw [if_pos hr] at hmount
      exact absurd hmount (show - EIO ≠ 0 by decide)
    · rw [if_neg hr] at hmount ⊢
      cases igetOk with
      | false => exact absurd hmount (show -EACCES ≠ 0 by decide)
      | true =>
        cases rootOk with
        | false => exact absurd hmount (show -ENOMEM ≠ 0 by decide)
        | true => rfl

/-- **Entries on every device.** Both while the volume is being mounted and when it is mounted,
entries are read and written correctly exactly when the device has 512-byte blocks, or when no entry
ends behind the first 512 bytes. -/
theorem entryIo_mount_iff {info : Info} (hrel : info.dev.Reliable)
    (hbd : info.bdBlockSize ∈ [512, 1024, 2048, 4096])
    (hsize : info.dev.blocksize = info.bdBlockSize.toNat)
    (hblock : info.browsing.sb.blockSize = 512)
    (htable : entryOffset info.browsing.sb info.browsing.sb.entryCount.toNat ≤ 4294967296)
    {kzallocOk vmallocOk igetOk rootOk : Bool}
    (hmount : (sfsFillSuper kzallocOk vmallocOk igetOk rootOk info).1 = 0) :
    EntryIo info.browsing ∧ EntryIo (sfsFillSuper kzallocOk vmallocOk igetOk rootOk info).2 ↔
      info.bdBlockSize = 512 ∨ info.browsing.sb.entryCount = 0 ∨
        entryOffset info.browsing.sb info.browsing.sb.entryCount.toNat ≤ 512 := by
  have hserved : Served info.browsing := ⟨hrel, hbd, hblock, htable⟩
  obtain ⟨k, used, hinfo⟩ := sfsFillSuper_frame hrel hmount
  rw [hinfo, and_iff_right (hserved.entryIo_of_eq hsize)]
  have hmounted : Served { (info.browsing.ticks k).setUsed used with
      dev := { (info.browsing.ticks k).dev with blocksize := info.browsing.sb.blockSize.toNat } } :=
    ⟨hrel, hbd, hblock, htable⟩
  exact hmounted.entryIo_iff (by rw [hblock]; rfl)

/-- A device with 512-byte blocks. -/
theorem entryIo_mount_iff_small :
    EntryIo (blank 5120).browsing ∧ EntryIo (sfsFillSuper true true true true (blank 5120)).2 :=
  (entryIo_mount_iff (fun _ => rfl) (by decide) rfl (by decide +kernel) (by decide +kernel)
    (by decide +kernel)).2 (.inl rfl)

/-- A formatted device of 20 blocks of the file system whose own blocks have 1024 bytes. -/
def largeBlocks : Info :=
  { blank 10240 with dev := { (blank 10240).dev with blocksize := 1024 }, bdBlockSize := 1024 }

/-- On that device, entry 8 of the mounted volume is written to the place of entry 0. -/
theorem not_entryIo_largeBlocks :
    let info := (sfsFillSuper true true true true largeBlocks).2
    let fe : FileEntry := { FileEntry.zero with name := .replicate 16 98 }
    (sfsFillSuper true true true true largeBlocks).1 = 0 ∧ 8 < info.sb.entryCount.toNat ∧
      entryOffset info.sb 0 = 512 ∧ entryOffset info.sb 8 = 1024 ∧ info.dev.data 512 = 0 ∧
      (writeEntryToRealSfs info (8 : Nat) fe).2.dev.data 512 = 98 ∧ ¬ EntryIo info := by
  intro info fe
  have hfacts : (sfsFillSuper true true true true largeBlocks).1 = 0 ∧
      8 < info.sb.entryCount.toNat ∧ entryOffset info.sb 0 = 512 ∧ entryOffset info.sb 8 = 1024 ∧
      info.dev.data 512 = 0 ∧ (writeEntryToRealSfs info (8 : Nat) fe).2.dev.data 512 = 98 := by
    decide +kernel
  obtain ⟨hmount, hcount, h0, h8, hzero, hbyte⟩ := hfacts
  refine ⟨hmount, hcount, h0, h8, hzero, hbyte, fun hio => ?_⟩
  rw [(hio.written 8 fe hcount).2, h8, Mem.store_of_not_mem (.inl (by decide)), hzero] at hbyte
  exact absurd hbyte (by decide)

end LinuxDrivers.Sfs
