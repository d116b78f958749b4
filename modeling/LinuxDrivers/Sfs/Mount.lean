import LinuxDrivers.Sfs.Format
import LinuxDrivers.Sfs.KernelSpec

/-!
# Mounting

`init_browsing` keeps the device, reads the super block and rebuilds `used_blocks` from the chains
of the live entries. An image whose entries are all zero cannot have a table that wraps around the
32-bit address space, because the magic number of the super block would be one of its entries.
-/

namespace LinuxDrivers.Sfs

/-- The array after the blocks `bs` have been marked. -/
def mark (used : Nat → UInt8) (bs : List UInt32) : Nat → UInt8 := fun x =>
  if x ∈ bs.map UInt32.toNat then 1 else used x

theorem markBlocks_eq (bs : List UInt32) (used : Nat → UInt8) :
    markBlocks bs used = mark used (bs.takeWhile (· != 0)) := by
  induction bs generalizing used with
  | nil => funext x; simp [markBlocks, mark]
  | cons b bs ih =>
    unfold markBlocks
    by_cases hb : b = 0
    · funext x; simp [hb, mark]
    · funext x
      simp only [hb, ↓reduceIte, ih, mark, Function.update_apply, List.takeWhile_cons, bne_iff_ne,
        ne_eq, not_false_eq_true, List.map_cons, List.mem_cons]
      by_cases h1 : x = b.toNat <;>
        by_cases h2 : x ∈ (bs.takeWhile (· != 0)).map UInt32.toNat <;> simp [h1, h2]

/-- Block `x` is on the chain of one of the `n` entries from `i` on. -/
def Scanned (info : Info) (n i x : Nat) : Prop :=
  ∃ j : Nat, i ≤ j ∧ j < i + n ∧ (info.entry j).live = true ∧
    x ∈ (info.entry j).chain.map UInt32.toNat

theorem scanned_succ {info : Info} {n i x : Nat} : Scanned info (n + 1) i x ↔
    ((info.entry i).live = true ∧ x ∈ (info.entry i).chain.map UInt32.toNat) ∨
      Scanned info n (i + 1) x := by
  constructor
  · rintro ⟨j, h1, h2, h3⟩
    by_cases e : j = i
    · subst e; exact .inl h3
    · exact .inr ⟨j, by omega, by omega, h3⟩
  · rintro (h3 | ⟨j, h1, h2, h3⟩)
    · exact ⟨i, Nat.le_refl _, by omega, h3⟩
    · exact ⟨j, by omega, by omega, h3⟩

/-- The table of a volume. -/
def Info.entries (info : Info) (i : Nat) : FileEntry := info.entry i

theorem Info.entries_apply (info : Info) (i : Nat) : info.entries i = info.entry i := rfl

/-- The array after the chains of the live ones among `n` entries from `i` on have been marked. -/
def marks (entry : Nat → FileEntry) : Nat → Nat → (Nat → UInt8) → Nat → UInt8
  | 0, _, used => used
  | n + 1, i, used =>
    marks entry n (i + 1) (if (entry i).live then mark used (entry i).chain else used)

theorem markEntries_eq {info : Info} (h : Plain info) (n i : Nat) (used : Nat → UInt8) :
    markEntries n i used info = (.ok (marks info.entries n i used), info.ticks n) := by
  induction n generalizing info i used with
  | zero => rfl
  | succ n ih =>
    have hentry : (info.ticks 1).entries = info.entries := rfl
    unfold markEntries marks
    rw [readEntry_eq h]
    simp only [ih (h.ticks 1), hentry, markBlocks_eq, Info.ticks_ticks, Nat.add_comm 1 n]
    rw [info.entries_apply]
    cases (info.entry i).live <;> rfl

/-- Exactly the scanned blocks are marked. -/
theorem marks_spec (info : Info) (n i : Nat) (used : Nat → UInt8) (x : Nat) :
    (Scanned info n i x → marks info.entries n i used x = 1) ∧
      (¬ Scanned info n i x → marks info.entries n i used x = used x) := by
  induction n generalizing i used with
  | zero =>
    refine ⟨?_, fun _ => rfl⟩
    rintro ⟨j, h1, h2, -⟩
    omega
  | succ n ih =>
    unfold marks
    rw [scanned_succ, info.entries_apply]
    obtain ⟨h1, h2⟩ := ih (i + 1)
      (if (info.entry i).live then mark used (info.entry i).chain else used)
    -- whatever the later entries leave alone is decided by this one
    by_cases hs : Scanned info n (i + 1) x
    · exact ⟨fun _ => h1 hs, fun hn => absurd (.inr hs) hn⟩
    · rw [h2 hs]
      by_cases hlive : (info.entry i).live = true
      · rw [if_pos hlive]
        unfold mark
        constructor
        · rintro (⟨-, hc⟩ | hs')
          · rw [if_pos hc]
          · exact absurd hs' hs
        · intro hn
          rw [if_neg fun hc => hn (.inl ⟨hlive, hc⟩)]
      · rw [if_neg hlive]
        refine ⟨?_, fun _ => rfl⟩
        rintro (⟨hl, -⟩ | hs')
        · exact absurd hl hlive
        · exact absurd hs' hs

/-- What a device gives before the mount: it works and its blocks have 512 bytes. -/
structure Blocks512 (info : Info) : Prop where
  reliable : info.dev.Reliable
  blocksize : info.dev.blocksize = 512
  bdBlockSize : info.bdBlockSize = 512

theorem Plain.blocks512 {info : Info} (h : Plain info) : Blocks512 info :=
  ⟨h.reliable, h.blocksize, h.bdBlockSize⟩

theorem readSb_eq {info : Info} (h : Blocks512 info) :
    readSbFromRealSfs info = (.ok (.ofMem info.dev.data), info.ticks 1) := by
  unfold readSbFromRealSfs
  rw [Device.sbBread_of_reliable h.reliable]
  simp only [Nat.zero_mul]
  have hw : info.dev.data.window 0 = info.dev.data := by
    funext k
    simp
  rw [hw]
  rfl

/-- A mount marks block `x`: it lies below the data area or on the chain of a live entry. -/
def Busy (info : Info) (x : Nat) : Prop :=
  x < info.sb.dataBlockStart.toNat ∨ Scanned info info.sb.entryCount.toNat 0 x

/-- The array has `1` at the blocks that a mount marks and `0` elsewhere. -/
def MarksBusy (info : Info) (used : Nat → UInt8) : Prop :=
  ∀ x, (Busy info x → used x = 1) ∧ (¬ Busy info x → used x = 0)

theorem MarksBusy.unique {info : Info} {used used' : Nat → UInt8} (h : MarksBusy info used)
    (h' : MarksBusy info used') : used = used' := by
  funext b
  by_cases hb : Busy info b
  · rw [(h b).1 hb, (h' b).1 hb]
  · rw [(h b).2 hb, (h' b).2 hb]

/-- Scanning a table on top of the marks below the data area marks the busy blocks. -/
theorem marksBusy_marks (info : Info) : MarksBusy info (marks info.entries
    info.sb.entryCount.toNat 0 fun i => if i < info.sb.dataBlockStart.toNat then 1 else 0) := by
  intro x
  obtain ⟨h1, h2⟩ := marks_spec info info.sb.entryCount.toNat 0
    (fun i => if i < info.sb.dataBlockStart.toNat then 1 else 0) x
  constructor
  · rintro (hx | hs)
    · by_cases hs : Scanned info info.sb.entryCount.toNat 0 x
      · exact h1 hs
      · rw [h2 hs, if_pos hx]
    · exact h1 hs
  · intro hn
    rw [h2 fun hs => hn (.inr hs), if_neg fun hx => hn (.inl hx)]

/-- **Mounting.** `init_browsing` on a super block with 512-byte blocks succeeds unless the magic
number is wrong or memory runs out, and marks exactly the busy blocks. -/
theorem initBrowsing_eq {info : Info} (h : Blocks512 info) {sb : SuperBlock}
    (hsb : SuperBlock.ofMem info.dev.data = sb) (hsize : sb.blockSize = 512) (vmallocOk : Bool) :
    ∃ k used, MarksBusy { info with sb } used ∧ initBrowsing vmallocOk info =
      if sb.type ≠ simulaFsType then (-EINVAL, { info with sb }.ticks k)
      else if vmallocOk = false then (-ENOMEM, { info with sb }.ticks k)
      else (0, ({ info with sb }.ticks k).setUsed used) := by
  have hplain : Plain ({ info with sb }.ticks 1) :=
    ⟨h.reliable, h.blocksize, h.bdBlockSize, hsize⟩
  have hrun := markEntries_eq hplain sb.entryCount.toNat 0
    (fun i => if i < sb.dataBlockStart.toNat then 1 else 0)
  have hbusy := marksBusy_marks { info with sb }
  unfold initBrowsing
  rw [readSb_eq h, hsb]
  by_cases htype : sb.type ≠ simulaFsType
  · refine ⟨1, _, hbusy, ?_⟩
    rw [if_pos htype]
    exact if_pos htype
  · cases vmallocOk with
    | false =>
      refine ⟨1, _, hbusy, ?_⟩
      rw [if_neg htype, if_pos rfl]
      exact if_neg htype
    | true =>
      refine ⟨1 + sb.entryCount.toNat, _, hbusy, ?_⟩
      have hrun' : markEntries sb.entryCount.toNat 0
          (fun i => if i < sb.dataBlockStart.toNat then 1 else 0)
          { info.ticks 1 with sb := sb } = _ := hrun
      simp only [htype, ↓reduceIte, Bool.not_true, Bool.false_eq_true, Bool.true_eq_false, hrun',
        Info.ticks_ticks]
      rfl

/-! ## Mounting an empty table -/

/-- A volume as `init_browsing` hands it over: a working device with 512-byte blocks, a super block
with a sensible data area, and a table in which every entry is zero. -/
structure MountedEmpty (info : Info) : Prop where
  mounted : ∃ vmallocOk info₀, Blocks512 info₀ ∧ initBrowsing vmallocOk info₀ = (0, info)
  blockSize : info.sb.blockSize = 512
  data_le : info.sb.dataBlockStart.toNat ≤ info.sb.partitionSize.toNat
  partition_lt : info.sb.partitionSize.toNat < 2 ^ 31
  table_empty : ∀ i : Nat, i < info.sb.entryCount.toNat → info.entry i = .zero

theorem readFromRealSfs_sb (info : Info) (block offset len : UInt32) :
    (readFromRealSfs info block offset len).2.sb = info.sb := by
  unfold readFromRealSfs
  simp only
  split
  · rfl
  · split <;> rfl

theorem readEntry_sb (info : Info) (ino : Int) :
    (readEntryFromRealSfs info ino).2.sb = info.sb := by
  have h := readFromRealSfs_sb info info.sb.entryTableBlockStart (.ofInt (ino * 64)) 64
  unfold readEntryFromRealSfs
  split <;> next he => rw [he] at h; exact h

theorem markEntries_sb (n i : Nat) (used : Nat → UInt8) (info : Info) :
    (markEntries n i used info).2.sb = info.sb := by
  induction n generalizing i used info with
  | zero => rfl
  | succ n ih =>
    have h := readEntry_sb info i
    unfold markEntries
    split
    · next he => rw [he] at h; exact h
    · next he =>
      rw [he] at h
      split <;> rw [ih] <;> exact h

/-- Whatever its block size, the super block in memory is the one on the device. -/
theorem initBrowsing_sb {info : Info} (h : Blocks512 info) (vmallocOk : Bool) :
    (initBrowsing vmallocOk info).2.sb = .ofMem info.dev.data := by
  unfold initBrowsing
  rw [readSb_eq h]
  simp only
  split
  · rfl
  · split
    · rfl
    · have hm := markEntries_sb (SuperBlock.ofMem info.dev.data).entryCount.toNat 0
        (fun i => if i < (SuperBlock.ofMem info.dev.data).dataBlockStart.toNat then 1 else 0)
        { info.ticks 1 with sb := .ofMem info.dev.data }
      split <;> next he => rw [he] at hm; exact hm

/-- A mounted volume is the device with its super block and the marks of its busy blocks. -/
theorem mounted_of_initBrowsing {info₀ info : Info} {vmallocOk : Bool} (h : Blocks512 info₀)
    (hmount : initBrowsing vmallocOk info₀ = (0, info)) (hsize : info.sb.blockSize = 512) :
    Plain info ∧ info.sb = .ofMem info.dev.data ∧ info.sb.type = simulaFsType ∧
      MarksBusy info info.usedBlocks := by
  have hsb := initBrowsing_sb h vmallocOk
  rw [hmount] at hsb
  obtain ⟨k, used, hbusy, hrun⟩ := initBrowsing_eq h hsb.symm hsize vmallocOk
  rw [hmount] at hrun
  split at hrun
  · cases hrun
  · next htype =>
    split at hrun
    · cases hrun
    · simp only [Prod.mk.injEq, true_and] at hrun
      have htype' : info.sb.type = simulaFsType := by simpa using htype
      rw [hrun]
      exact ⟨⟨h.reliable, h.blocksize, h.bdBlockSize, hsize⟩, hsb, htype', hbusy⟩

/-- In a mounted table without live entries no address wraps around: the magic number at address
zero would be the name of a live entry. -/
theorem table_le_of_dead {info : Info} (h : Plain info) (hsb : info.sb = .ofMem info.dev.data)
    (htype : info.sb.type = simulaFsType)
    (hdead : ∀ i : Nat, i < info.sb.entryCount.toNat → (info.entry i).live = false) :
    info.sb.entryCount.toNat ≤ 2 ^ 26 := by
  by_contra hgt
  obtain ⟨i, hi, haddr⟩ : ∃ i : Nat, i < 2 ^ 26 ∧ (entryAddr info.sb i).toNat = 0 := by
    refine ⟨(2 ^ 26 - info.sb.entryTableBlockStart.toNat * 8 % 2 ^ 26) % 2 ^ 26, by omega, ?_⟩
    have := toNat_entryAddr h.sbBlockSize
      ((2 ^ 26 - info.sb.entryTableBlockStart.toNat * 8 % 2 ^ 26) % 2 ^ 26 : Nat)
    omega
  have hlive := hdead i (by omega)
  have hbyte : info.dev.data 0 = 0 := by
    simpa [Info.entry, FileEntry.live, FileEntry.ofMem, haddr] using hlive
  have hword : info.dev.data.word 0 = simulaFsType := by
    rw [← htype, hsb]
    rfl
  have := congrArg UInt32.toNat hword
  unfold Mem.word simulaFsType at this
  rw [hbyte, UInt32.toNat_ofNat'] at this
  simp only [UInt8.toNat_zero, UInt32.reduceToNat] at this
  omega

/-! ## Formatted volumes -/

theorem formatSb_fields {size : Nat} (h : size / 512 < 2 ^ 31) :
    (formatSb size).partitionSize.toNat = size / 512 ∧
      (formatSb size).entryTableSize.toNat = size / 512 / 10 ∧
      (formatSb size).dataBlockStart.toNat = 1 + size / 512 / 10 ∧
      (formatSb size).entryCount.toNat * 64 ≤ size / 512 / 10 * 512 ∧
      (formatSb size).entryCount.toNat * 64 + 512 ≤ 2 ^ 32 := by
  simp only [formatSb, UInt32.toNat_ofNat', UInt32.toNat_add, UInt32.toNat_mul, UInt32.toNat_div,
    UInt32.reduceToNat]
  omega

/-- Whatever the size, the table of a formatted volume lies below the data and its offsets fit in
32 bits. -/
theorem formatSb_table (size : Nat) :
    (formatSb size).dataBlockStart.toNat = 1 + (formatSb size).entryTableSize.toNat ∧
      (formatSb size).entryCount.toNat * 64 ≤ (formatSb size).entryTableSize.toNat * 512 ∧
      (formatSb size).entryCount.toNat * 64 + 512 ≤ 2 ^ 32 := by
  simp only [formatSb, UInt32.toNat_ofNat', UInt32.toNat_add, UInt32.toNat_mul, UInt32.toNat_div,
    UInt32.reduceToNat]
  omega

/-- A blank working device of `size` bytes, formatted. -/
def blank (size : Nat) : Info where
  dev := ⟨formatRealSfs (fun _ => 0) size (fun _ => 0), 512, fun _ => false, 0⟩
  bdBlockSize := 512
  sb := formatSb size
  usedBlocks := fun _ => 0

/-- The blank device, mounted. -/
def formatted (size : Nat) : Info := (initBrowsing true (blank size)).2

/-- A formatted volume mounts as an empty one. -/
theorem mountedEmpty_format {info₀ : Info} (disk stack : Mem) {size : Nat}
    (h : Blocks512 info₀) (hdata : info₀.dev.data = formatRealSfs disk size stack)
    (h1 : 1 ≤ size / 512) (h2 : size / 512 < 2 ^ 31) :
    (initBrowsing true info₀).2.sb = formatSb size ∧
      MountedEmpty (initBrowsing true info₀).2 := by
  obtain ⟨f1, f2, f3, f4, f5⟩ := formatSb_fields h2
  obtain ⟨k, used, -, hrun⟩ := initBrowsing_eq h (by rw [hdata, formatRealSfs_sb]) rfl true
  rw [if_neg (by simp [formatSb]), if_neg (by simp)] at hrun
  refine ⟨by rw [hrun]; rfl, ⟨true, info₀, h, by rw [hrun]⟩, ?_, ?_, ?_, ?_⟩
  all_goals simp only [hrun, Info.sb_setUsed, Info.sb_ticks, Info.entry_setUsed, Info.entry_ticks]
  · rfl
  · omega
  · omega
  · intro i hi
    have haddr := toNat_entryAddr (rfl : (formatSb size).blockSize = 512) i
    have hstart : (formatSb size).entryTableBlockStart.toNat = 1 := rfl
    apply FileEntry.ofMem_zero
    intro k hk
    rw [Mem.window_apply]
    simp only [hdata]
    apply formatRealSfs_table <;> omega

theorem mountedEmpty_formatted (size : Nat) (h1 : 1 ≤ size / 512) (h2 : size / 512 < 2 ^ 31) :
    (formatted size).sb = formatSb size ∧ MountedEmpty (formatted size) :=
  mountedEmpty_format (fun _ => 0) (fun _ => 0) ⟨fun _ => rfl, rfl, rfl⟩ rfl h1 h2

end LinuxDrivers.Sfs
