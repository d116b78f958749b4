import LinuxDrivers.Sfs.Isolation

/-!
# Writeback between allocation and the size of the file

A file is extended in two steps: `sfs_get_block` maps a block, and later the VFS raises `i_size`.
`sfs_write_inode` hands the current `i_size` to `sfs_update`, which releases every block behind it.
When it runs between the two steps it releases a block that is still mapped in the page cache.
-/

namespace LinuxDrivers.Sfs

/-- A block of a file that is mapped in the page cache. -/
structure Mapping where
  ino : Int
  iblock : Nat
  phys : UInt32
  deriving DecidableEq

/-- The driver, the `i_size` of every inode and the mapped blocks. -/
structure Vfs where
  info : Info
  size : Int → Int
  mapped : List Mapping

inductive VfsOp where
  | getBlock (ino : Int) (iblock : Nat)
  | raise (ino : Int) (iblock : Nat) (size : Int)
  | writeInode (ino : Int) (mode : UInt32) (mtime ctime : Int)

namespace VfsOp

def exec (s : Vfs) : VfsOp → Vfs
  | .getBlock ino iblock =>
    match sfsGetBlock s.info ino iblock true with
    | (.ok phys, info) => { s with info, mapped := ⟨ino, iblock, phys⟩ :: s.mapped }
    | (.error _, info) => { s with info }
  | .raise ino _ size => { s with size := Function.update s.size ino size }
  | .writeInode ino mode mtime ctime =>
    { s with info := (sfsWriteInode s.info ⟨ino, s.size ino, mode, mtime, ctime⟩).2 }

/-- Inode numbers are those of the table, and the raise of a size follows the mapping of its block
and does not truncate. -/
def Valid (s : Vfs) : VfsOp → Prop
  | .getBlock ino _ => InTable s.info.sb ino
  | .raise ino iblock size => (∃ m ∈ s.mapped, m.ino = ino ∧ m.iblock = iblock) ∧
      (iblock * 512 : Nat) < size ∧ s.size ino ≤ size ∧ size < 2 ^ 31
  | .writeInode ino _ _ _ => InTable s.info.sb ino

instance (s : Vfs) (op : VfsOp) : Decidable (op.Valid s) := by
  rcases op with _ | _ | _ <;> dsimp only [Valid] <;> infer_instance

/-- A write-back of a regular file does not come between the two steps of an extension: `i_size` is
beyond the start of every mapped block of the file. -/
def Timely (s : Vfs) : VfsOp → Prop
  | .writeInode ino mode mtime ctime => (Inode.mk ino (s.size ino) mode mtime ctime).isReg = true →
      ∀ m ∈ s.mapped, m.ino = ino → (m.iblock * 512 : Nat) < s.size ino
  | _ => True

instance (s : Vfs) (op : VfsOp) : Decidable (op.Timely s) := by
  rcases op with _ | _ | _ <;> dsimp only [Timely] <;> infer_instance

end VfsOp

/-- Mapped blocks are marked used, and none is mapped for two blocks of files. -/
def MappedSafe (s : Vfs) : Prop :=
  (∀ m ∈ s.mapped, s.info.usedBlocks m.phys.toNat = 1) ∧
    ∀ m ∈ s.mapped, ∀ m' ∈ s.mapped, m.phys = m'.phys → m.ino = m'.ino ∧ m.iblock = m'.iblock

instance (s : Vfs) : Decidable (MappedSafe s) := inferInstanceAs (Decidable (_ ∧ _))

/-- The mapping is the one in the table. -/
def Mapping.Backed (info : Info) (m : Mapping) : Prop :=
  ∃ i : Nat, v2sInodeNum m.ino = i ∧ info.slot (i, m.iblock) = m.phys.toNat ∧
    info.slot (i, m.iblock) ≠ 0

/-- The invariant of timely runs: ownership is sound and every mapping is backed by the table. -/
structure Backed (s : Vfs) : Prop extends Mounted s.info where
  sound : SoundTable s.info
  data_pos : 0 < s.info.sb.dataBlockStart.toNat
  size_nonneg : ∀ ino, 0 ≤ s.size ino
  size_lt : ∀ ino, s.size ino < 2 ^ 31
  backed : ∀ m ∈ s.mapped, m.Backed s.info

theorem Backed.mappedSafe {s : Vfs} (h : Backed s) : MappedSafe s := by
  refine ⟨fun m hm => ?_, fun m hm m' hm' he => ?_⟩
  · obtain ⟨i, -, hslot, hne⟩ := h.backed m hm
    have := h.sound.marked _ hne
    rwa [hslot] at this
  · obtain ⟨i, hidx, hslot, hne⟩ := h.backed m hm
    obtain ⟨i', hidx', hslot', -⟩ := h.backed m' hm'
    have := h.sound.inj (i, m.iblock) (i', m'.iblock) hne (by rw [hslot, hslot', he])
    obtain ⟨rfl, hb⟩ := Prod.mk.inj this
    refine ⟨?_, hb⟩
    unfold v2sInodeNum at hidx hidx'
    omega

/-- A write-back of a regular file is an update. -/
theorem sfsWriteInode_eq (info : Info) {inode : Inode} (h : inode.isReg = true) :
    (sfsWriteInode info inode).2 = (Op.update inode.ino inode.size
      (some (if inode.mtime > inode.ctime then inode.mtime else inode.ctime))
      (some inode.perms)).exec info := by
  unfold sfsWriteInode
  rw [h]
  rfl

/-- An operation on the table that does not concern the block of a mapping keeps it backed. -/
theorem Mapping.Backed.exec {info : Info} (h : Mounted info) {op : Op} (hv : op.Valid info.sb)
    {m : Mapping} (hm : m.Backed info)
    (hnot : ¬ (DataOp.table op).Concerns m.ino m.iblock info) : m.Backed (op.exec info) := by
  obtain ⟨i, hidx, hslot, hne⟩ := hm
  have hkeep := h.slot_exec hv hidx hne hnot
  exact ⟨i, hidx, hkeep.trans hslot, by rw [hkeep]; exact hne⟩

/-- What an operation on the table keeps of the invariant. -/
theorem Backed.table {s : Vfs} (h : Backed s) {op : Op} (hv : op.Valid s.info.sb)
    {mapped : List Mapping} (hmapped : ∀ m ∈ mapped, m.Backed (op.exec s.info)) :
    Backed { s with info := op.exec s.info, mapped } where
  toMounted := op.exec_mounted h.toMounted
  sound := op.exec_sound h.toMounted h.sound hv
  data_pos := by
    have hsb := op.exec_sb h.toPlain
    simp only [hsb]
    exact h.data_pos
  size_nonneg := h.size_nonneg
  size_lt := h.size_lt
  backed := hmapped

/-- **One step.** Timely operations keep every mapping backed. -/
theorem Backed.exec {s : Vfs} (h : Backed s) {op : VfsOp} (hv : op.Valid s) (ht : op.Timely s) :
    Backed (op.exec s) := by
  cases op with
  | raise ino iblock size =>
    obtain ⟨-, hlt, -, h31⟩ := hv
    refine ⟨h.toMounted, h.sound, h.data_pos, fun ino' => ?_, fun ino' => ?_, h.backed⟩ <;>
    · simp only [VfsOp.exec, Function.update_apply]
      split
      · omega
      · first | exact h.size_nonneg ino' | exact h.size_lt ino'
  | getBlock ino iblock =>
    have hop : (Op.getBlock ino iblock true).Valid s.info.sb := hv
    have hold : ∀ m ∈ s.mapped, m.Backed ((Op.getBlock ino iblock true).exec s.info) :=
      fun m hm => (h.backed m hm).exec h.toMounted hop fun hc => hc
    obtain ⟨i, hi, hidx⟩ := InTable.index hv
    rcases hget : sfsGetBlock s.info ino iblock true with ⟨r, info'⟩
    have hinfo : (Op.getBlock ino iblock true).exec s.info = info' := by
      simp only [Op.exec, hget]
    simp only [VfsOp.exec, hget]
    cases r with
    | error e =>
      have := h.table hop hold
      rwa [hinfo] at this
    | ok phys =>
      obtain ⟨hslot, hne⟩ := getBlock_ok h.toMounted h.data_pos hi hidx hget
      have hnew : ∀ m ∈ Mapping.mk ino iblock phys :: s.mapped,
          m.Backed ((Op.getBlock ino iblock true).exec s.info) := by
        intro m hm
        rcases List.mem_cons.1 hm with rfl | hm
        · rw [hinfo]
          exact ⟨i, hidx, hslot, by rw [hslot]; exact toNat_ne_zero.2 hne⟩
        · exact hold m hm
      have := h.table hop hnew
      rwa [hinfo] at this
  | writeInode ino mode mtime ctime =>
    by_cases hreg : (Inode.mk ino (s.size ino) mode mtime ctime).isReg = true
    · simp only [VfsOp.exec, sfsWriteInode_eq s.info hreg]
      have hop : ∀ ts perms, (Op.update ino (s.size ino) ts perms).Valid s.info.sb :=
        fun _ _ => ⟨hv, h.size_nonneg ino, h.size_lt ino⟩
      refine h.table (hop _ _) fun m hm => (h.backed m hm).exec h.toMounted (hop _ _) ?_
      rintro ⟨hino, hle⟩
      have := ht hreg m hm hino.symm
      omega
    · have hsame : VfsOp.exec s (.writeInode ino mode mtime ctime) = s := by
        simp only [VfsOp.exec, sfsWriteInode, hreg, Bool.not_false, ↓reduceIte]
      rw [hsame]
      exact h

/-- A write-back that comes too early releases a mapped block. -/
theorem Backed.not_mappedSafe {s : Vfs} (h : Backed s) {op : VfsOp} (hv : op.Valid s)
    (ht : ¬ op.Timely s) : ¬ MappedSafe (op.exec s) := by
  cases op with
  | getBlock | raise => exact absurd trivial ht
  | writeInode ino mode mtime ctime =>
    simp only [VfsOp.Timely, not_forall] at ht
    obtain ⟨hreg, m, hm, hino, hlate⟩ := ht
    obtain ⟨i, hidx, hslot, hne⟩ := h.backed m hm
    obtain ⟨hi, hb⟩ := Info.slot_ne_zero hne
    rw [hino] at hidx
    rintro ⟨hmarked, -⟩
    have hused := hmarked m hm
    obtain ⟨k, hk⟩ := sfsUpdate_eq h.toPlain ino (some (s.size ino))
      (some (if mtime > ctime then mtime else ctime))
      (some (Inode.mk ino (s.size ino) mode mtime ctime).perms)
    simp only [VfsOp.exec, sfsWriteInode, hreg, Bool.not_true, Bool.false_eq_true, ↓reduceIte, hk,
      hidx, Info.usedBlocks_setEntry, Info.usedBlocks_setUsed, FileEntry.tail_updated] at hused
    rw [Info.slot_of_lt hi] at hslot
    -- the block of the mapping lies behind the cut
    have hcut := firstCut_ofInt (h.size_nonneg ino) (h.size_lt ino)
    have h9 : m.iblock < 9 := by
      by_contra h9
      exact hb (FileEntry.block_of_le (by omega))
    have hmem : m.phys.toNat ∈ ((s.info.entry i).tail (firstCut (.ofInt (s.size ino)))).map
        UInt32.toNat := by
      rw [← hslot]
      exact List.mem_map_of_mem (FileEntry.mem_tail.2 ⟨hb, m.iblock, by omega, h9, rfl⟩)
    unfold clear at hused
    rw [if_pos (by exact hmem)] at hused
    cases hused

/-! ## Runs -/

/-- Nothing is mapped yet. -/
theorem backed_unmapped {info : Info} (h : Mounted info) (howns : OwnsBlocks info)
    (hpos : 0 < info.sb.dataBlockStart.toNat) {size : Int → Int}
    (hsize : ∀ ino, 0 ≤ size ino ∧ size ino < 2 ^ 31) : Backed ⟨info, size, []⟩ where
  toMounted := h
  sound := howns.soundTable
  data_pos := hpos
  size_nonneg ino := (hsize ino).1
  size_lt ino := (hsize ino).2
  backed _ hm := absurd hm List.not_mem_nil

/-- **Writeback.** On a working volume whose blocks are owned soundly, with nothing mapped yet,
every mapped block stays marked and mapped once in all states of a run exactly when every write-back
of the run finds `i_size` beyond the mapped blocks of its file. -/
theorem mappedSafe_run_iff {info : Info} (h : Mounted info) (howns : OwnsBlocks info)
    (hpos : 0 < info.sb.dataBlockStart.toNat) {size : Int → Int}
    (hsize : ∀ ino, 0 ≤ size ino ∧ size ino < 2 ^ 31) {ops : List VfsOp}
    (hvalid : Along VfsOp.exec (fun s op => op.Valid s) ⟨info, size, []⟩ ops) :
    (∀ pre, pre <+: ops → MappedSafe (run VfsOp.exec ⟨info, size, []⟩ pre)) ↔
      Along VfsOp.exec (fun s op => op.Timely s) ⟨info, size, []⟩ ops :=
  Along.safe_iff (I := Backed) (fun _ hs => hs.mappedSafe) (fun _ _ hs hv ht => hs.exec hv ht)
    (fun _ _ hs hv ht => hs.not_mappedSafe hv ht) (backed_unmapped h howns hpos hsize) hvalid

/-- A ten-block volume with one new file. -/
def oneFile : Info := run Op.exec (formatted 5120) [.create (.ofList [97]) 6 0]

theorem oneFile_sound : Mounted oneFile ∧ OwnsBlocks oneFile ∧
    0 < oneFile.sb.dataBlockStart.toNat := by
  obtain ⟨hsb, hempty⟩ := mountedEmpty_formatted 5120 (by decide) (by decide)
  obtain ⟨hm, hsb', hsound⟩ := run_sound hempty.toMounted hempty.soundTable
    [.create (.ofList [97]) 6 0] (by simp [Op.Valid])
  refine ⟨hm, hsound.ownsBlocks, ?_⟩
  unfold oneFile
  rw [hsb', hsb]
  decide

/-- The file is extended, its size is raised and it is written back. -/
theorem mappedSafe_run_iff_oneFile :
    let ops : List VfsOp := [.getBlock 2 0, .raise 2 0 100, .writeInode 2 0o100644 7 7]
    ∀ pre, pre <+: ops → MappedSafe (run VfsOp.exec ⟨oneFile, fun _ => 0, []⟩ pre) := by
  obtain ⟨hm, howns, hpos⟩ := oneFile_sound
  intro ops
  have hvalid : Along VfsOp.exec (fun s op => op.Valid s) ⟨oneFile, fun _ => 0, []⟩ ops := by
    decide +kernel
  have htimely : Along VfsOp.exec (fun s op => op.Timely s) ⟨oneFile, fun _ => 0, []⟩ ops := by
    decide +kernel
  exact (mappedSafe_run_iff hm howns hpos (fun _ => by decide) hvalid).2 htimely

/-- The file is written back between the mapping of its block and the raise of its size: the block
is free again. -/
theorem not_mappedSafe_early :
    let ops : List VfsOp := [.getBlock 2 0, .writeInode 2 0o100644 7 7]
    Along VfsOp.exec (fun s op => op.Valid s) ⟨oneFile, fun _ => 0, []⟩ ops ∧
      ¬ MappedSafe (run VfsOp.exec ⟨oneFile, fun _ => 0, []⟩ ops) := by
  obtain ⟨hm, howns, hpos⟩ := oneFile_sound
  have hstart : Backed ⟨oneFile, fun _ => 0, []⟩ :=
    backed_unmapped hm howns hpos fun _ => by decide
  have hget : (VfsOp.getBlock 2 0).Valid ⟨oneFile, fun _ => 0, []⟩ := by decide +kernel
  have hmapped := hstart.exec hget trivial
  have hwrite : (VfsOp.writeInode 2 0o100644 7 7).Valid
      (VfsOp.exec ⟨oneFile, fun _ => 0, []⟩ (.getBlock 2 0)) := by decide +kernel
  have hearly : ¬ (VfsOp.writeInode 2 0o100644 7 7).Timely
      (VfsOp.exec ⟨oneFile, fun _ => 0, []⟩ (.getBlock 2 0)) := by decide +kernel
  simp only [along_cons, along_nil, and_true, run_cons, run_nil]
  exact ⟨⟨hget, hwrite⟩, hmapped.not_mappedSafe hwrite hearly⟩

end LinuxDrivers.Sfs
