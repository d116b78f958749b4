import LinuxDrivers.Lib.Run
import LinuxDrivers.Akpfs.Allocator
import LinuxDrivers.Akpfs.Consistent

/-!
# Exact free bits

From the formatter on, whatever blocks are allocated and whatever files are truncated, every data
block is either free and held by no file or marked and held once.
-/

namespace LinuxDrivers.Akpfs

/-- The calls that change blocks or sizes of a file. -/
inductive Op where
  | getBlock (ino : UInt32) (iblock : Nat) (create : Bool)
  | writeInode (node : VfsInode) (doSync syncOk : Bool)

namespace Op

def exec (fs : Fs) : Op → Fs
  | .getBlock ino iblock create => (Akpfs.getBlock fs ino iblock create).2
  | .writeInode node doSync syncOk => (superWriteInode fs node doSync syncOk).2

/-- The call is for a listed regular file, and its size is one that a file can have. -/
def Valid (fs : Fs) : Op → Prop
  | .getBlock ino _ _ => ListedFile fs.sb fs.dev.data ino
  | .writeInode node _ _ => ListedFile fs.sb fs.dev.data node.ino ∧
      0 ≤ node.size ∧ node.size ≤ 27 * 4096

/-- A call that allocates finds a first clear bit whose number does not wrap. -/
def Fits (fs : Fs) : Op → Prop
  | .getBlock ino iblock create => Allocates fs ino iblock create → ¬ Wraps fs.sb fs.dev.data
  | .writeInode _ _ _ => True

/-- **One step.** A call keeps the free bits exact and the same files listed. -/
theorem exec_owned {fs : Fs} (h : Working fs) (ho : Owned fs.sb fs.dev.data) {op : Op}
    (hv : op.Valid fs) (hfits : op.Fits fs) : ∃ k data, op.exec fs = fs.after k data ∧
      SameListing fs.sb fs.dev.data data ∧ Owned fs.sb data := by
  cases op with
  | getBlock ino iblock create => exact getBlock_owned h hv ho hfits
  | writeInode node doSync syncOk =>
    obtain ⟨hfile, h0, h1⟩ := hv
    exact superWriteInode_owned h hfile ho h0 h1 doSync syncOk

/-- Any other call breaks them. -/
theorem exec_not_consistent {fs : Fs} (h : Working fs) (ho : Owned fs.sb fs.dev.data) {op : Op}
    (hv : op.Valid fs) (hfits : ¬ op.Fits fs) :
    ¬ Consistent (op.exec fs).sb (op.exec fs).dev.data := by
  cases op with
  | getBlock ino iblock create =>
    unfold Fits at hfits
    simp only [Classical.not_imp, not_not] at hfits
    obtain ⟨halloc, hwraps⟩ := hfits
    have hsb : (Akpfs.getBlock fs ino iblock create).2.sb = fs.sb := by
      obtain ⟨k, hrun | ⟨n, -, -, -, -, hrun⟩⟩ := getBlock_cases h hv.inTable iblock create
      · rw [hrun, Fs.after_sb]
      · rw [hrun, Fs.after_sb]
    unfold exec
    rw [hsb]
    exact getBlock_wraps h hv ho halloc hwraps
  | writeInode node doSync syncOk => exact absurd trivial hfits

theorem fits_of_bitsNumbered {fs : Fs} (h : BitsNumbered fs.sb) (op : Op) : op.Fits fs := by
  cases op with
  | getBlock ino iblock create => exact fun _ => h.not_wraps fs.dev.data
  | writeInode node doSync syncOk => trivial

theorem Valid.congr {fs fs' : Fs} {op : Op} (hv : op.Valid fs)
    (hsame : ∀ ino, ListedFile fs'.sb fs'.dev.data ino ↔ ListedFile fs.sb fs.dev.data ino) :
    op.Valid fs' := by
  cases op with
  | getBlock ino iblock create => exact (hsame ino).2 hv
  | writeInode node doSync syncOk => exact ⟨(hsame node.ino).2 hv.1, hv.2⟩

end Op

/-- What a run on `fs` keeps: the files that are listed, and free bits that are exact. -/
def Keeps (fs fs' : Fs) : Prop :=
  ∃ k data, fs' = fs.after k data ∧ SameListing fs.sb fs.dev.data data ∧ Owned fs.sb data

section Runs

variable {fs fs' : Fs} (h : Working fs) (hfs' : Keeps fs fs')
include h hfs'

theorem Keeps.working : Working fs' ∧ fs'.sb = fs.sb ∧ Owned fs'.sb fs'.dev.data := by
  obtain ⟨k, data, rfl, -, ho⟩ := hfs'
  exact ⟨h.after k data, rfl, ho⟩

omit h in
theorem Keeps.valid {op : Op} (hv : op.Valid fs) : op.Valid fs' := by
  obtain ⟨k, data, rfl, hsame, -⟩ := hfs'
  exact hv.congr hsame

theorem Keeps.exec {op : Op} (hv : op.Valid fs) (hfits : op.Fits fs') : Keeps fs (op.exec fs') := by
  have hv' := hfs'.valid hv
  obtain ⟨k, data, rfl, hsame, ho⟩ := hfs'
  obtain ⟨l, data', hrun, hsame', ho'⟩ := Op.exec_owned (h.after k data) ho hv' hfits
  rw [hrun, Fs.after_after]
  exact ⟨k + l, data', rfl, fun x => (hsame' x).trans (hsame x), ho'⟩

end Runs

/-- No data block is lost and none is shared. -/
theorem Owned.free_or_once {sb : Sb} {data : Mem} (h : Owned sb data) (hg : Geometry sb) {b : Nat}
    (h1 : sb.dataBlockStart.toNat ≤ b) (h2 : b < sb.blockCnt.toNat) :
    (data.bit (bitsAddr sb) b = false ∧ ∀ p, ¬ Stored sb data b p) ∨
      (data.bit (bitsAddr sb) b = true ∧ ∃! p, Stored sb data b p) := by
  have hbits := (h.consistent hg).bits b h2
  cases hbit : data.bit (bitsAddr sb) b with
  | true =>
    rw [hbit] at hbits
    exact .inr ⟨rfl, (hbits.1 rfl).resolve_left (by omega)⟩
  | false =>
    refine .inl ⟨rfl, fun p hp => ?_⟩
    have hb0 : b ≠ 0 := by
      have := hg.data_pos
      omega
    have hheld := (stored_iff hb0 p).1 hp
    have hmarked := (h.marked p (by rw [hheld]; exact hb0)).2
    rw [hheld, hbit] at hmarked
    cases hmarked

/-- An image is consistent, and so every data block is free, or marked and stored once. -/
structure Exact (sb : Sb) (data : Mem) : Prop where
  consistent : Consistent sb data
  free_or_once : ∀ b, sb.dataBlockStart.toNat ≤ b → b < sb.blockCnt.toNat →
    (data.bit (bitsAddr sb) b = false ∧ ∀ p, ¬ Stored sb data b p) ∨
      (data.bit (bitsAddr sb) b = true ∧ ∃! p, Stored sb data b p)

theorem Owned.exact {sb : Sb} {data : Mem} (h : Owned sb data) (hg : Geometry sb) : Exact sb data :=
  ⟨h.consistent hg, fun _ h1 h2 => h.free_or_once hg h1 h2⟩

/-- The formatter writes an exact image, all of whose bits are numbered, on every device of at least
four blocks. -/
theorem makeAkpfs_exact {o : CheckedFd} (ho : o.Reliable) {devSize : Nat} (hsize : devSize < 2 ^ 31)
    (h4 : 4 ≤ devSize / 4096) (stack : Mem) :
    ∃ o', makeAkpfs o devSize 4096 stack = .ok o' ∧ Geometry (Sb.ofMem o'.fd.data) ∧
      BitsNumbered (Sb.ofMem o'.fd.data) ∧ Exact (Sb.ofMem o'.fd.data) o'.fd.data := by
  obtain ⟨o', hok, -⟩ := makeAkpfs_succeeds ho devSize 4096 stack
  have hf := makeAkpfs_formatted hsize h4 hok
  have hcomp := computed_sb hsize
  refine ⟨o', hok, ?_⟩
  rw [hf.sb_eq]
  exact ⟨hcomp.geometry, hcomp.bitsNumbered (by omega),
    (hf.owned (hcomp.roomy h4)).exact hcomp.geometry⟩

/-- **Exact free bits.** The formatter writes an exact image on every device of at least four
blocks. From a consistent image a run of calls on listed files is exact throughout if and only if no
call that allocates finds a first clear bit whose number wraps, and none does when all bits are
numbered. -/
theorem freeBits_exact_iff {fs : Fs} (h : Working fs) (hc : Consistent fs.sb fs.dev.data)
    {ops : List Op} (hops : ∀ op ∈ ops, op.Valid fs) :
    (∀ (o : CheckedFd) (devSize : Nat) (stack : Mem), o.Reliable → devSize < 2 ^ 31 →
      4 ≤ devSize / 4096 → ∃ o', makeAkpfs o devSize 4096 stack = .ok o' ∧
        Geometry (Sb.ofMem o'.fd.data) ∧ BitsNumbered (Sb.ofMem o'.fd.data) ∧
        Exact (Sb.ofMem o'.fd.data) o'.fd.data) ∧
    ((∀ pre, pre <+: ops → Exact (run Op.exec fs pre).sb (run Op.exec fs pre).dev.data) ↔
      Along Op.exec (fun fs op => op.Fits fs) fs ops) ∧
    (BitsNumbered fs.sb → Along Op.exec (fun fs op => op.Fits fs) fs ops) := by
  have hstart : Keeps fs fs := ⟨0, _, fs.after_zero, fun _ => Iff.rfl, hc.owned h.geometry⟩
  have hvalid : Along Op.exec (fun _ (op : Op) => op.Valid fs) fs ops := along_of_forall hops
  have hexact : ∀ fs', Keeps fs fs' → Exact fs'.sb fs'.dev.data := by
    intro fs' hk
    obtain ⟨hw, -, ho⟩ := hk.working h
    exact ho.exact hw.geometry
  have hbreak : ∀ (fs' : Fs) (op : Op), Keeps fs fs' → op.Valid fs → ¬ op.Fits fs' →
      ¬ Exact (op.exec fs').sb (op.exec fs').dev.data := by
    intro fs' op hk hv hfits he
    obtain ⟨hw, -, ho⟩ := hk.working h
    exact Op.exec_not_consistent hw ho (hk.valid hv) hfits he.consistent
  refine ⟨fun o devSize stack ho hsize h4 => makeAkpfs_exact ho hsize h4 stack,
    Along.safe_iff hexact (fun fs' op hk hv hfits => hk.exec h hv hfits) hbreak hstart hvalid,
    fun hbits => ?_⟩
  have hfits : ∀ (fs' : Fs) (op : Op), Keeps fs fs' → op.Fits fs' := by
    intro fs' op hk
    refine Op.fits_of_bitsNumbered ?_ op
    rw [(hk.working h).2.1]
    exact hbits
  exact Along.of_invariant (fun fs' op hk hv => hk.exec h hv (hfits fs' op hk))
    (fun fs' op hk _ => hfits fs' op hk) hstart hvalid

/-- A block is added to `moksha.txt`, and the file is cut to nothing. -/
theorem freeBits_exact_iff_eight :
    ∃ o', makeAkpfs ⟨⟨fun _ => 0, 0⟩, fun _ => false, 0⟩ 32768 4096 (fun _ => 0) = .ok o' ∧
      let fs : Fs := ⟨⟨o'.fd.data, 4096, fun _ => false, 0⟩, Sb.ofMem o'.fd.data⟩
      let fs' := run Op.exec fs [.getBlock 2 1 true, .writeInode ⟨2, 0o100644, 0⟩ true true]
      Exact fs'.sb fs'.dev.data := by
  have hreliable : CheckedFd.Reliable ⟨⟨fun _ => 0, 0⟩, fun _ => false, 0⟩ := fun _ => rfl
  obtain ⟨o', hok, hg, hbits, he⟩ :=
    makeAkpfs_exact hreliable (show 32768 < 2 ^ 31 by decide) (by decide) fun _ => 0
  refine ⟨o', hok, ?_⟩
  have hf := makeAkpfs_formatted (by decide) (by decide) hok
  have hlisted : ListedFile (Sb.ofMem o'.fd.data) o'.fd.data 2 := by
    rw [hf.sb_eq]
    exact (hf.listedFile_iff ((computed_sb (by decide)).roomy (by decide)) 2).2 rfl
  let fs : Fs := ⟨⟨o'.fd.data, 4096, fun _ => false, 0⟩, Sb.ofMem o'.fd.data⟩
  have hw : Working fs := ⟨fun _ => rfl, rfl, hg⟩
  have hops : ∀ op ∈ [Op.getBlock 2 1 true, .writeInode ⟨2, 0o100644, 0⟩ true true],
      op.Valid fs := by
    intro op hop
    rcases List.mem_pair.1 hop with rfl | rfl
    · exact hlisted
    · exact ⟨hlisted, by decide, by decide⟩
  obtain ⟨-, hiff, hfits⟩ := freeBits_exact_iff hw he.consistent hops
  exact hiff.2 (hfits hbits) _ (List.prefix_refl _)

/-! ## A bitmap that is too long -/

/-- `free_bits_block_cnt` is far more than the 131076 blocks of this volume need. -/
def paddedSb : Sb where
  fsType := akpfsSuperMagic
  blockSize := 4096
  blockCnt := 131076
  inodesPerBlock := 32
  inodesBlockStart := 1
  inodesBlockCnt := 1
  freeBitsPerBlock := 32768
  freeBitsBlockStart := 2
  freeBitsBlockCnt := 131073
  dataBlockStart := 131075
  dataBlockCnt := 1
  rootInode := 1

/-- The first `2 ^ 32 + 6` free bits are set, and `moksha.txt` holds the one data block. -/
def paddedImage : Mem :=
  let bits : Mem := fun x => if x < 536879104 then 0xFF else if x = 536879104 then 0x3F else 0
  (((bits.store 0 44 paddedSb.bytes).store 4224 128 (rootInodeOf paddedSb).bytes).store 4352 128
    (fileInodeOf paddedSb).bytes).store 536883200 fileData.length (.ofList fileData)

def paddedVolume : Fs := ⟨⟨paddedImage, 4096, fun _ => false, 0⟩, paddedSb⟩

theorem paddedImage_bits {x : Nat} (h1 : 8192 ≤ x) (h2 : x < 536883200) :
    paddedImage x = if x < 536879104 then 0xFF else if x = 536879104 then 0x3F else 0 := by
  unfold paddedImage
  rw [Mem.store_of_not_mem (by omega), Mem.store_of_not_mem (by omega),
    Mem.store_of_not_mem (by omega), Mem.store_of_not_mem (by omega)]

/-- The first clear bit is bit `2 ^ 32 + 6`. -/
theorem paddedImage_firstClear : firstClear paddedSb paddedImage = some 4294967302 := by
  have hcnt : paddedSb.freeBitsBlockCnt.toNat = 131073 := rfl
  have haddr : bitsAddr paddedSb = 8192 := rfl
  have hlast : paddedImage 536879104 = 0x3F := by rw [paddedImage_bits (by omega) (by omega)]; rfl
  have hbyte : ∀ i < 8, paddedImage.bit 8192 (4294967296 + i) = bitSet 0x3F i := by
    intro i hi
    unfold Mem.bit
    rw [show 8192 + (4294967296 + i) / 8 = 536879104 by omega, hlast,
      show (4294967296 + i) % 8 = i by omega]
  refine firstClear_of_least (by omega) ?_ fun c hc => ?_
  · rw [haddr]
    exact hbyte 6 (by omega)
  · rw [haddr]
    by_cases hlt : c < 4294967296
    · refine Mem.bit_of_ff ?_
      rw [paddedImage_bits (by omega) (by omega), if_pos (by omega)]
    · obtain ⟨i, hi, rfl⟩ : ∃ i < 6, c = 4294967296 + i := ⟨c - 4294967296, by omega, by omega⟩
      rw [hbyte i (by omega)]
      revert i
      decide

theorem paddedImage_formatted : Formatted paddedSb paddedImage := by
  have hdata : paddedSb.dataBlockStart.toNat = 131075 := rfl
  have hcnt : paddedSb.blockCnt.toNat = 131076 := rfl
  have hlen : fileData.length = 21 := rfl
  refine ⟨?_, ?_, ?_, fun b hb => ?_, ?_⟩
  · refine (Sb.ofMem_congr fun k hk => ?_).trans (Sb.ofMem_bytes paddedSb)
    unfold paddedImage
    rw [Mem.store_of_not_mem (by omega), Mem.store_of_not_mem (by omega),
      Mem.store_of_not_mem (by omega), Mem.store_of_mem (by omega), Nat.sub_zero]
  · have haddr : inodeAddr paddedSb 1 = 4224 := rfl
    unfold inode
    rw [haddr, ← Inode.ofMem_bytes (rootInodeOf paddedSb)]
    refine Inode.ofMem_congr fun k hk => ?_
    unfold paddedImage
    rw [Mem.window_apply, Mem.store_of_not_mem (by omega), Mem.store_of_not_mem (by omega)]
    exact Mem.store_window hk
  · have haddr : inodeAddr paddedSb 2 = 4352 := rfl
    unfold inode
    rw [haddr, ← Inode.ofMem_bytes (fileInodeOf paddedSb)]
    refine Inode.ofMem_congr fun k hk => ?_
    unfold paddedImage
    rw [Mem.window_apply, Mem.store_of_not_mem (by omega)]
    exact Mem.store_window hk
  · rw [(firstClear_eq_some paddedImage_firstClear).2.2 b (by omega), decide_eq_true (by omega)]
  · rw [hdata]
    exact Mem.load_ofList fun k hk => Mem.store_window hk

/-- The number of the bit wraps to 6: the file is given a block of the free bits. -/
theorem freeBits_exact_false :
    Working paddedVolume ∧ Formatted paddedSb paddedImage ∧ Exact paddedSb paddedImage ∧
      (Op.getBlock 2 1 true).Valid paddedVolume ∧
      (inode paddedSb (getBlock paddedVolume 2 1 true).2.dev.data 2).slot 1 = 6 ∧
      ¬ Consistent paddedSb (getBlock paddedVolume 2 1 true).2.dev.data := by
  have hg : Geometry paddedSb := ⟨rfl, rfl, rfl, by decide, by decide, by decide, by decide⟩
  have hw : Working paddedVolume := ⟨fun _ => rfl, rfl, hg⟩
  have hf := paddedImage_formatted
  have hr : Roomy paddedSb := ⟨rfl, by decide, by decide, by decide⟩
  have hfile : ListedFile paddedSb paddedImage 2 := (hf.listedFile_iff hr 2).2 rfl
  have hslot : (inode paddedSb paddedImage 2).slot 1 = 0 := by
    rw [hf.file_eq, slot_fileInodeOf, if_neg (by omega)]
  have hword : paddedVolume.dev.data.word (slotAddrOf paddedVolume.sb 2 1) = 0 := by
    rw [← slot_eq (by omega)]
    exact hslot
  have hfirst : firstClear paddedVolume.sb paddedVolume.dev.data = some 4294967302 :=
    paddedImage_firstClear
  have hcnt : paddedVolume.sb.blockCnt.toNat = 131076 := rfl
  have htaken := takenBit_eq_some_iff.2 ⟨hfirst, by omega⟩
  obtain ⟨k, hk, -⟩ := getBlock_of_taken hg hw.blocksize hfile.inTable (show 1 < 27 by omega)
    (hw.reliable _) hword (searchReads_of_reliable hw.reliable)
  rw [htaken] at hk
  refine ⟨hw, hf, (hf.owned hr).exact hg, hfile, ?_, ?_⟩
  · rw [hk, Fs.after_data]
    exact ((inode_setSlot (by omega) _).2 1).trans (if_pos rfl)
  · exact getBlock_wraps hw hfile (hf.owned hr) ⟨rfl, by omega, hslot⟩
      ⟨4294967302, hfirst, by omega, by omega, by omega⟩

end LinuxDrivers.Akpfs
