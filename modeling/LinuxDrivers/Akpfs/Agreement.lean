import LinuxDrivers.Akpfs.Consistent
import LinuxDrivers.Akpfs.Listing

/-!
# The formatter and the driver agree

The formatter computes byte offsets, the driver block numbers and indices. On every device of at
least four blocks the driver finds what the formatter wrote: the root directory, its one entry and
the text of the file.
-/

namespace LinuxDrivers.Akpfs

/-- The four areas of a volume, as first block and number of blocks. -/
def areas (sb : Sb) : List (Nat × Nat) :=
  [(0, 1), (sb.inodesBlockStart.toNat, sb.inodesBlockCnt.toNat),
    (sb.freeBitsBlockStart.toNat, sb.freeBitsBlockCnt.toNat),
    (sb.dataBlockStart.toNat, sb.dataBlockCnt.toNat)]

/-- The areas are disjoint and lie inside the device. -/
structure LaidOut (sb : Sb) (devSize : Nat) : Prop where
  disjoint : (areas sb).Pairwise fun r s =>
    ∀ b, r.1 ≤ b ∧ b < r.1 + r.2 → ¬ (s.1 ≤ b ∧ b < s.1 + s.2)
  inside : ∀ r ∈ areas sb, r.1 + r.2 ≤ sb.blockCnt.toNat
  device : sb.blockCnt.toNat * 4096 ≤ devSize
  data_lt : sb.dataBlockStart.toNat < sb.blockCnt.toNat

theorem computeAkpfsSb_dataBlockCnt (devSize blockSize : Nat) :
    (computeAkpfsSb devSize blockSize).dataBlockCnt =
      (computeAkpfsSb devSize blockSize).blockCnt -
        (computeAkpfsSb devSize blockSize).dataBlockStart := rfl

theorem laidOut_computed {devSize : Nat} (h : devSize < 2 ^ 31) (h4 : 4 ≤ devSize / 4096) :
    LaidOut (computeAkpfsSb devSize 4096) devSize := by
  have hc := computed_sb h
  have hdata := computeAkpfsSb_dataBlockCnt devSize 4096
  generalize computeAkpfsSb devSize 4096 = sb at hc hdata ⊢
  have h1 := hc.blockCnt
  have h2 := hc.inodesBlockCnt
  have h3 := hc.freeBitsBlockStart
  have h5 := hc.freeBitsBlockCnt
  have h6 := hc.dataBlockStart
  have h7 : sb.inodesBlockStart.toNat = 1 := by rw [hc.inodesBlockStart]; rfl
  have h8 : sb.dataBlockCnt.toNat = sb.blockCnt.toNat - sb.dataBlockStart.toNat := by
    rw [hdata, UInt32.toNat_sub]
    omega
  refine ⟨?_, ?_, by omega, by omega⟩
  · unfold areas
    simp only [List.pairwise_cons, List.mem_cons, List.not_mem_nil, or_false, forall_eq_or_imp,
      forall_eq, List.Pairwise.nil, and_true, false_imp_iff, implies_true]
    -- each area ends where the next one starts, or in front of it
    refine ⟨⟨fun b => ?_, fun b => ?_, fun b => ?_⟩, ⟨fun b => ?_, fun b => ?_⟩, fun b => ?_⟩
      <;> omega
  · unfold areas
    simp only [List.mem_cons, List.not_mem_nil, or_false, forall_eq_or_imp, forall_eq]
    omega

/-- The root directory of a formatted device has one entry. -/
theorem Formatted.listing_eq {sb : Sb} {data : Mem} (hf : Formatted sb data)
    (hroot : sb.rootInode = 1)
    (parent : UInt32) :
    listing sb data 1 parent = dots 1 parent ++ [⟨ascii "moksha.txt", 2, 0o100000⟩] := by
  have hslots : (List.range' 0 27).map (inode sb data 1).slot = 2 :: List.replicate 26 0 := by
    rw [hf.root_eq, funext (slot_rootInodeOf sb), hroot]
    rfl
  have hmoksha : direntOf sb data 2 = ⟨ascii "moksha.txt", 2, 0o100000⟩ := by
    unfold direntOf
    rw [hf.file_eq]
    rfl
  unfold listing dirents
  rw [hslots, List.filter_cons_of_pos (by decide), List.map_cons, hmoksha]
  rfl

section Reading

variable {fs : Fs} {n : Nat}

theorem Formatted.getInode_root (hf : Formatted fs.sb fs.dev.data) (hc : Computed fs.sb n)
    (h4 : 4 ≤ n) (h : Working fs) :
    ∃ a fs', getInode fs fs.sb.rootInode = (some a, fs') ∧
      (fs'.inodeAt a).name = ascii "/" ∧ (fs'.inodeAt a).fileSize = akpfsDir := by
  have hin : InTable fs.sb 1 := hc.inTable h4 (by decide)
  have hroot : (fs.after 1 fs.dev.data).inodeAt (inodeAddr fs.sb 1) = rootInodeOf fs.sb :=
    hf.root_eq
  rw [hc.rootInode]
  refine ⟨_, _, getInode_eq h hin, ?_, ?_⟩
  · rw [hroot]
    rfl
  · rw [hroot]
    rfl

theorem Formatted.fileIterate_root (hf : Formatted fs.sb fs.dev.data) (hc : Computed fs.sb n)
    (h4 : 4 ≤ n) (h : Working fs) (parent : UInt32) {ctx : DirContext} (hpos : 0 ≤ ctx.pos) :
    (fileIterate fs fs.sb.rootInode parent ctx).2.1.entries = ctx.entries ++
      ((dots fs.sb.rootInode parent ++ [(⟨ascii "moksha.txt", 2, 0o100000⟩ : Dirent)]).drop
        ctx.pos.toNat).take ctx.room := by
  have hin : InTable fs.sb 1 := hc.inTable h4 (by decide)
  have hentries : ∀ j, (inode fs.sb fs.dev.data 1).slot j ≠ 0 →
      InTable fs.sb ((inode fs.sb fs.dev.data 1).slot j) := by
    intro j hj
    rw [hf.root_eq, slot_rootInodeOf, hc.rootInode] at hj ⊢
    by_cases h0 : j = 0
    · rw [if_pos h0]
      exact hc.inTable h4 (by decide)
    · rw [if_neg h0] at hj
      exact absurd rfl hj
  obtain ⟨k, hk⟩ := fileIterate_eq h hin hentries parent hpos
  rw [hc.rootInode, hk, hf.listing_eq hc.rootInode]

theorem Formatted.getInode_moksha (hf : Formatted fs.sb fs.dev.data) (hc : Computed fs.sb n)
    (h4 : 4 ≤ n) (h : Working fs) :
    ∃ a fs', getInode fs 2 = (some a, fs') ∧
      (fs'.inodeAt a).fileSize = .ofNat fileData.length := by
  have hin : InTable fs.sb 2 := hc.inTable h4 (by decide)
  have hfile : (fs.after 1 fs.dev.data).inodeAt (inodeAddr fs.sb 2) = fileInodeOf fs.sb :=
    hf.file_eq
  refine ⟨_, _, getInode_eq h hin, ?_⟩
  rw [hfile]
  rfl

theorem Formatted.getBlock_moksha (hf : Formatted fs.sb fs.dev.data) (hc : Computed fs.sb n)
    (h4 : 4 ≤ n) (h : Working fs) :
    ∃ b fs', getBlock fs 2 0 false = (.ok b, fs') ∧
      fs'.dev.data.load (b.toNat * 4096) fileData.length = fileData := by
  have hin : InTable fs.sb 2 := hc.inTable h4 (by decide)
  have hslot : fs.dev.data.word (slotAddrOf fs.sb 2 0) = fs.sb.dataBlockStart := by
    rw [← slot_eq (by decide), hf.file_eq, slot_fileInodeOf, if_pos rfl]
  have hne : fs.dev.data.word (slotAddrOf fs.sb 2 0) ≠ 0 := by
    have hdbs := hc.dataBlockStart
    rw [hslot]
    intro hzero
    rw [hzero] at hdbs
    simp only [UInt32.reduceToNat] at hdbs
    omega
  refine ⟨_, _, getBlock_of_mapped h.geometry h.blocksize hin (by decide)
    (h.reliable _) hne false, ?_⟩
  rw [hslot]
  exact hf.text

end Reading

/-- **Agreement.** The image that the formatter writes is laid out in disjoint areas, marks the
blocks up to the first data block, and through the driver it shows the root directory with
`moksha.txt` as its one entry, the size of that file and its text. -/
theorem mkfs_driver_agree (o : CheckedFd) (devSize : Nat) (stack : Mem) (ho : o.Reliable)
    (hsize : devSize < 2 ^ 31) (h4 : 4 ≤ devSize / 4096) :
    ∃ o', makeAkpfs o devSize 4096 stack = .ok o' ∧
      let sb := Sb.ofMem o'.fd.data
      LaidOut sb devSize ∧
      (∀ b < sb.blockCnt.toNat,
        o'.fd.data.bit (bitsAddr sb) b = true ↔ b ≤ sb.dataBlockStart.toNat) ∧
      ∀ fs : Fs, fs.dev.Reliable → fs.dev.blocksize = 4096 → fs.dev.data = o'.fd.data → fs.sb = sb →
        (∃ a fs', getInode fs sb.rootInode = (some a, fs') ∧
          (fs'.inodeAt a).name = ascii "/" ∧ (fs'.inodeAt a).fileSize = akpfsDir) ∧
        ∃ entry : UInt32,
          (∀ (parent : UInt32) (ctx : DirContext), 0 ≤ ctx.pos →
            (fileIterate fs sb.rootInode parent ctx).2.1.entries = ctx.entries ++
              ((dots sb.rootInode parent ++ [(⟨ascii "moksha.txt", entry, 0o100000⟩ : Dirent)]).drop
                ctx.pos.toNat).take ctx.room) ∧
          (∃ a fs', getInode fs entry = (some a, fs') ∧
            (fs'.inodeAt a).fileSize = .ofNat fileData.length) ∧
          ∃ b fs', getBlock fs entry 0 false = (.ok b, fs') ∧
            fs'.dev.data.load (b.toNat * 4096) fileData.length = fileData := by
  obtain ⟨o', hok, -⟩ := makeAkpfs_succeeds ho devSize 4096 stack
  have hf := makeAkpfs_formatted hsize h4 hok
  have hc := computed_sb hsize
  have hlaid := laidOut_computed hsize h4
  refine ⟨o', hok, ?_⟩
  rw [hf.sb_eq]
  generalize computeAkpfsSb devSize 4096 = sb at hf hc hlaid ⊢
  refine ⟨hlaid, fun b hb => ?_, fun fs hrel hbs hdata hsb => ?_⟩
  · rw [hf.bits b hb, decide_eq_true_iff]
    omega
  · rw [← hdata, ← hsb] at hf
    rw [← hsb] at hc ⊢
    have hw : Working fs := ⟨hrel, hbs, hc.geometry⟩
    exact ⟨hf.getInode_root hc h4 hw, 2,
      fun parent ctx hpos => hf.fileIterate_root hc h4 hw parent hpos,
      hf.getInode_moksha hc h4 hw, hf.getBlock_moksha hc h4 hw⟩

/-- A device of five blocks and a half; the directory is listed from behind the two dots. -/
theorem mkfs_driver_agree_five : ∃ o', makeAkpfs ⟨⟨fun _ => 0, 0⟩, fun _ => false, 0⟩ 22528 4096
      (fun _ => 0xFF) = .ok o' ∧
    let fs : Fs := ⟨⟨o'.fd.data, 4096, fun _ => false, 0⟩, Sb.ofMem o'.fd.data⟩
    LaidOut fs.sb 22528 ∧ ∃ entry,
      (fileIterate fs fs.sb.rootInode fs.sb.rootInode ⟨2, 7, []⟩).2.1.entries =
        [⟨ascii "moksha.txt", entry, 0o100000⟩] := by
  obtain ⟨o', hok, hlaid, -, hread⟩ := mkfs_driver_agree ⟨⟨fun _ => 0, 0⟩, fun _ => false, 0⟩ 22528
    (fun _ => 0xFF) (fun _ => rfl) (by decide) (by decide)
  obtain ⟨-, entry, hlist, -⟩ := hread
    ⟨⟨o'.fd.data, 4096, fun _ => false, 0⟩, Sb.ofMem o'.fd.data⟩ (fun _ => rfl) rfl rfl rfl
  exact ⟨o', hok, hlaid, entry, hlist _ ⟨2, 7, []⟩ (by decide)⟩

end LinuxDrivers.Akpfs
