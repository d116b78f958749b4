import LinuxDrivers.Sfs.Ownership

/-!
# Data isolation in the kernel driver

Writing a block of a file is `sfs_get_block` with `create` set followed by a store to the block that
it maps; reading is `sfs_get_block` without `create` followed by a load. Block numbers are owned
soundly, so what was last written to a block of a file is read back, whatever happened to all other
files and blocks in between.
-/

namespace LinuxDrivers.Sfs

/-- The entry table ends before the data area. -/
def TableFits (sb : SuperBlock) : Prop :=
  sb.entryTableBlockStart.toNat * 512 + sb.entryCount.toNat * 64 ≤ sb.dataBlockStart.toNat * 512

instance (sb : SuperBlock) : Decidable (TableFits sb) := inferInstanceAs (Decidable (_ ≤ _))

/-- The bytes of one data block. -/
abbrev Data := Vector UInt8 512

/-- A data block in memory. -/
def Data.bytes (d : Data) : Mem := fun k => d.getD k 0

/-- The 512 bytes of block `b` are overwritten. -/
def Info.setData (info : Info) (b : Nat) (d : Data) : Info :=
  { info with dev := info.dev.modify b 0 512 d.bytes }

/-- The 512 bytes of block `b`. -/
def Info.data (info : Info) (b : Nat) : Data :=
  .ofFn fun k => info.dev.data (b * info.dev.blocksize + k)

/-- Stores `d` in block `iblock` of a file; whether the block could be mapped. -/
def writeBlock (info : Info) (ino : Int) (iblock : Nat) (d : Data) : Bool × Info :=
  match sfsGetBlock info ino iblock true with
  | (.ok phys, info) => (true, info.setData phys.toNat d)
  | (.error _, info) => (false, info)

/-- Loads block `iblock` of a file. -/
def readBlock (info : Info) (ino : Int) (iblock : Nat) : Option Data × Info :=
  match sfsGetBlock info ino iblock false with
  | (.ok phys, info) => (some (info.data phys.toNat), info)
  | (.error _, info) => (none, info)

/-- Table operations, and reads and writes of file blocks. -/
inductive DataOp where
  | table (op : Op)
  | write (ino : Int) (iblock : Nat) (d : Data)
  | read (ino : Int) (iblock : Nat)

namespace DataOp

def exec (info : Info) : DataOp → Info
  | .table op => op.exec info
  | .write ino iblock d => (writeBlock info ino iblock d).2
  | .read ino iblock => (readBlock info ino iblock).2

def Valid (sb : SuperBlock) : DataOp → Prop
  | .table op => op.Valid sb
  | .write ino _ _ => InTable sb ino
  | .read ino _ => InTable sb ino

instance (sb : SuperBlock) (op : DataOp) : Decidable (op.Valid sb) := by
  rcases op with _ | _ | _ <;> dsimp only [Valid] <;> infer_instance

/-- The operation, called in this state, decides what block `iblock` of inode `ino` holds: a
successful write to it, a remove that resolves to `ino`, a create that is given `ino`, or an update
of `ino` to a size that ends at or before the block. -/
def Concerns (ino : Int) (iblock : Nat) (info : Info) : DataOp → Prop
  | .write ino' iblock' d =>
    ino' = ino ∧ iblock' = iblock ∧ (writeBlock info ino' iblock' d).1 = true
  | .table (.remove fn) => (sfsRemove info fn).1 = ino
  | .table (.create fn perms now) => (sfsCreate info fn perms now .zero).1.1 = ino
  | .table (.update ino' size _ _) => ino' = ino ∧ (size + 511) / 512 ≤ iblock
  | _ => False

instance (ino : Int) (iblock : Nat) (info : Info) (op : DataOp) :
    Decidable (op.Concerns ino iblock info) := by
  unfold Concerns
  split <;> infer_instance

end DataOp

/-! ## Table and data area do not overlap -/

theorem TableFits.entryAddr_le {sb : SuperBlock} (h : TableFits sb) (hsize : sb.blockSize = 512)
    {i : Nat} (hi : i < sb.entryCount.toNat) :
    (entryAddr sb i).toNat + 64 ≤ sb.dataBlockStart.toNat * 512 := by
  have := toNat_entryAddr hsize i
  unfold TableFits at h
  omega

theorem TableFits.dataBlockStart_pos {sb : SuperBlock} (h : TableFits sb) {i : Nat}
    (hi : i < sb.entryCount.toNat) : 0 < sb.dataBlockStart.toNat := by
  unfold TableFits at h
  omega

/-- Rewriting an entry leaves the data area alone. -/
theorem Mounted.data_setEntry {info : Info} (h : Mounted info) (hfits : TableFits info.sb)
    {i : Nat} (hi : i < info.sb.entryCount.toNat) (fe : FileEntry) {b : Nat}
    (hb : info.sb.dataBlockStart.toNat ≤ b) : (info.setEntry i fe).data b = info.data b := by
  have hend := hfits.entryAddr_le h.sbBlockSize hi
  unfold Info.data Info.setEntry
  congr 1
  funext k
  simp only [h.blocksize]
  exact Mem.store_of_not_mem (by omega)

/-- Writing a data block leaves the table alone. -/
theorem Mounted.entry_setData {info : Info} (h : Mounted info) (hfits : TableFits info.sb)
    {i : Nat} (hi : i < info.sb.entryCount.toNat) {b : Nat}
    (hb : info.sb.dataBlockStart.toNat ≤ b) (d : Data) :
    (info.setData b d).entry i = info.entry i := by
  have hend := hfits.entryAddr_le h.sbBlockSize hi
  apply FileEntry.ofMem_congr
  intro k hk
  simp only [Mem.window_apply, Info.setData, Device.modify, h.blocksize]
  exact Mem.store_of_not_mem (by omega)

theorem Mounted.data_setData {info : Info} (h : Mounted info) (b c : Nat) (d : Data) :
    (info.setData b d).data c = if b = c then d else info.data c := by
  unfold Info.data Info.setData Device.modify
  simp only [h.blocksize, Nat.add_zero]
  split
  · next he =>
    subst he
    apply Vector.ext
    intro k hk
    rw [Vector.getElem_ofFn, Mem.store_window hk]
    simp [Data.bytes, Vector.getD, hk]
  · next hne =>
    congr 1
    funext k
    exact Mem.store_of_not_mem (by omega)

theorem Mounted.setData {info : Info} (h : Mounted info) (b : Nat) (d : Data) :
    Mounted (info.setData b d) :=
  ⟨⟨h.reliable, h.blocksize, h.bdBlockSize, h.sbBlockSize⟩, h.table_le⟩

/-! ## The mapping of file blocks -/

/-- What `sfs_get_block` maps is afterwards the block in that slot. -/
theorem getBlock_ok {info : Info} (h : Mounted info) (hpos : 0 < info.sb.dataBlockStart.toNat)
    {ino : Int} {i : Nat} (hi : i < info.sb.entryCount.toNat) (hidx : v2sInodeNum ino = i)
    {iblock : Nat}
    {cr : Bool} {phys : UInt32} {info' : Info}
    (hget : sfsGetBlock info ino iblock cr = (.ok phys, info')) :
    info'.slot (i, iblock) = phys.toNat ∧ phys ≠ 0 := by
  obtain ⟨k, hk⟩ := sfsGetBlock_eq h.toPlain ino iblock cr
  simp only [hget, hidx] at hk
  split at hk
  · cases hk
  · next h9 =>
    split at hk
    · next hslot =>
      obtain ⟨hphys, rfl⟩ := Prod.mk.inj hk
      cases hphys
      exact ⟨Info.slot_of_lt hi _, hslot⟩
    · split at hk
      · cases hk
      · cases hfree : info.freeBlock with
        | none => rw [hfree] at hk; cases hk
        | some b =>
          rw [hfree] at hk
          obtain ⟨hphys, rfl⟩ := Prod.mk.inj hk
          cases hphys
          have hb := (Info.freeBlock_eq_some hfree).1
          have hbn := Info.toNat_freeBlock hfree
          constructor
          · exact (((h.ticks k).setUsed _).slot_setBlock hi (by omega) _ _).trans (if_pos rfl)
          · rw [← toNat_ne_zero]
            omega

/-- A filled slot is mapped without touching anything. -/
theorem getBlock_of_slot {info : Info} (h : Mounted info) {ino : Int} {i : Nat}
    (hidx : v2sInodeNum ino = i) {iblock : Nat}
    (hslot : info.slot (i, iblock) ≠ 0) (cr : Bool) : ∃ k,
    sfsGetBlock info ino iblock cr = (.ok ((info.entry i).block iblock), info.ticks k) := by
  obtain ⟨k, hk⟩ := sfsGetBlock_eq h.toPlain ino iblock cr
  simp only [hidx] at hk
  obtain ⟨-, hb⟩ := Info.slot_ne_zero hslot
  have h9 : ¬ 9 ≤ iblock := fun h9 => hb (FileEntry.block_of_le h9)
  rw [if_neg h9, if_pos hb] at hk
  exact ⟨k, hk⟩

/-! ## One step -/

/-- The invariant of a run with data: a mounted volume, its table before its data area, and sound
ownership. -/
structure SoundVolume (sb : SuperBlock) (info : Info) : Prop extends Mounted info where
  sb_eq : info.sb = sb
  fits : TableFits info.sb
  sound : SoundTable info

theorem SoundVolume.ticks {sb : SuperBlock} {info : Info} (h : SoundVolume sb info) (k : Nat) :
    SoundVolume sb (info.ticks k) :=
  ⟨h.toMounted.ticks k, h.sb_eq, h.fits, h.sound⟩

theorem SoundVolume.table {sb : SuperBlock} {info : Info} (h : SoundVolume sb info) {op : Op}
    (hv : op.Valid sb) : SoundVolume sb (op.exec info) := by
  have hsb := op.exec_sb h.toPlain
  exact ⟨op.exec_mounted h.toMounted, hsb.trans h.sb_eq, by rw [hsb]; exact h.fits,
    op.exec_sound h.toMounted h.sound (by rw [h.sb_eq]; exact hv)⟩

/-- Writing a data block changes no slot. -/
theorem SoundVolume.slot_setData {sb : SuperBlock} {info : Info} (h : SoundVolume sb info)
    {b : Nat} (hb : info.sb.dataBlockStart.toNat ≤ b) (d : Data) (p : Nat × Nat) :
    (info.setData b d).slot p = info.slot p := by
  unfold Info.slot
  by_cases hp : p.1 < info.sb.entryCount.toNat
  · have he := h.toMounted.entry_setData h.fits hp hb d
    rw [he]
    rfl
  · rw [if_neg hp]
    exact if_neg hp

theorem SoundVolume.setData {sb : SuperBlock} {info : Info} (h : SoundVolume sb info) {b : Nat}
    (hb : info.sb.dataBlockStart.toNat ≤ b) (d : Data) : SoundVolume sb (info.setData b d) := by
  refine ⟨h.toMounted.setData b d, h.sb_eq, h.fits, ?_⟩
  have hslot : (info.setData b d).slot = info.slot := funext (h.slot_setData hb d)
  unfold SoundTable
  rw [hslot]
  exact h.sound

/-- A write is a table operation followed, when it succeeds, by a store to the slot's block. -/
theorem write_cases {info : Info} (h : Mounted info) (hfits : TableFits info.sb) {ino : Int}
    {i : Nat} (hi : i < info.sb.entryCount.toNat) (hidx : v2sInodeNum ino = i) (iblock : Nat)
    (d : Data) : let info' := (Op.getBlock ino iblock true).exec info
    writeBlock info ino iblock d = (false, info') ∨
      info'.slot (i, iblock) ≠ 0 ∧
        writeBlock info ino iblock d = (true, info'.setData (info'.slot (i, iblock)) d) := by
  intro info'
  have hexec : info' = (sfsGetBlock info ino iblock true).2 := rfl
  unfold writeBlock
  rcases hget : sfsGetBlock info ino iblock true with ⟨r, info₁⟩
  rw [hget] at hexec
  cases r with
  | error e =>
    left
    rw [hexec]
  | ok phys =>
    right
    obtain ⟨hslot, hne⟩ := getBlock_ok h (hfits.dataBlockStart_pos hi) hi hidx hget
    simp only at hexec
    rw [hexec, hslot]
    exact ⟨toNat_ne_zero.2 hne, rfl⟩

theorem read_eq {info : Info} (h : Mounted info) (ino : Int) (iblock : Nat) :
    ∃ k, (readBlock info ino iblock).2 = info.ticks k := by
  obtain ⟨k, hk⟩ := sfsGetBlock_eq h.toPlain ino iblock false
  refine ⟨k, ?_⟩
  unfold readBlock
  rw [hk]
  simp only [↓reduceIte]
  by_cases h9 : 9 ≤ iblock
  · rw [if_pos h9]
  · rw [if_neg h9]
    by_cases hslot : (info.entry (v2sInodeNum ino)).block iblock ≠ 0
    · rw [if_pos hslot]
    · rw [if_neg hslot]

theorem DataOp.exec_sound {sb : SuperBlock} {info : Info} (h : SoundVolume sb info) {op : DataOp}
    (hv : op.Valid sb) : SoundVolume sb (op.exec info) := by
  cases op with
  | table op => exact h.table hv
  | read ino iblock =>
    obtain ⟨k, hk⟩ := read_eq h.toMounted ino iblock
    simp only [exec, hk]
    exact h.ticks k
  | write ino iblock d =>
    have hv' : InTable info.sb ino := by rw [h.sb_eq]; exact hv
    obtain ⟨i, hi, hidx⟩ := hv'.index
    have h' : SoundVolume sb ((Op.getBlock ino iblock true).exec info) := h.table hv
    rcases write_cases h.toMounted h.fits hi hidx iblock d with he | ⟨hne, he⟩
    · simp only [exec, he]
      exact h'
    · simp only [exec, he]
      exact h'.setData (h'.sound.in_region _ hne).1 d

/-! ## What a run keeps -/

/-- Block `iblock` of entry `i` is mapped, to a block that holds `d`. -/
structure Stores (info : Info) (i iblock : Nat) (d : Data) : Prop where
  mapped : info.slot (i, iblock) ≠ 0
  data_eq : info.data (info.slot (i, iblock)) = d

/-- Table operations do not touch the data area. -/
theorem SoundVolume.data_exec {sb : SuperBlock} {info : Info} (h : SoundVolume sb info) {op : Op}
    (hv : op.Valid sb) {b : Nat} (hb : info.sb.dataBlockStart.toNat ≤ b) :
    (op.exec info).data b = info.data b := by
  have hv' : op.Valid info.sb := by rw [h.sb_eq]; exact hv
  obtain ⟨k, he | ⟨_, _, _, i, -, hfree, he⟩ | ⟨_, i, -, hfind, he⟩ |
    ⟨ino, _, _, _, _, _, rfl, -, -, he⟩ | ⟨ino, _, _, rfl, -, -, -, he⟩⟩ :=
    op.exec_cases h.toPlain <;> rw [he]
  · rfl
  · exact (h.toMounted.ticks k).data_setEntry h.fits (Info.freeEntry_eq_some hfree).1 _ hb
  · exact ((h.toMounted.ticks k).setUsed _).data_setEntry h.fits (Info.find_eq_some hfind).1 _ hb
  · obtain ⟨i, hi, hidx⟩ := hv'.1.index
    rw [hidx]
    exact ((h.toMounted.ticks k).setUsed _).data_setEntry h.fits hi _ hb
  · obtain ⟨i, hi, hidx⟩ := InTable.index hv'
    rw [hidx]
    exact ((h.toMounted.ticks k).setUsed _).data_setEntry h.fits hi _ hb

theorem ne_of_s2vInodeNum_ne {ino : Int} {i j : Nat} (hidx : v2sInodeNum ino = i)
    (h : s2vInodeNum j ≠ ino) : j ≠ i := by
  rintro rfl
  apply h
  unfold s2vInodeNum
  unfold v2sInodeNum at hidx
  omega

/-- A filled slot keeps its block under every table operation that does not concern it. -/
theorem Mounted.slot_exec {info : Info} (h : Mounted info) {op : Op} (hv : op.Valid info.sb)
    {ino : Int} {i iblock : Nat} (hidx : v2sInodeNum ino = i)
    (hmapped : info.slot (i, iblock) ≠ 0) (hnot : ¬ (DataOp.table op).Concerns ino iblock info) :
    (op.exec info).slot (i, iblock) = info.slot (i, iblock) := by
  obtain ⟨k, he | ⟨fn, perms, now, j, rfl, hfree, he⟩ | ⟨fn, j, rfl, hfind, he⟩ |
    ⟨ino', size, ts, perms, _, cut, rfl, rfl, hcut, he⟩ |
    ⟨ino', iblock', b, rfl, h9, hempty, hfree, he⟩⟩ := op.exec_cases h.toPlain <;> rw [he]
  · rfl
  · -- the created entry is another one
    obtain ⟨k', fe', hc⟩ := sfsCreate_eq h.toPlain fn perms now .zero
    rw [hfree] at hc
    have hj : j ≠ i :=
      ne_of_s2vInodeNum_ne hidx fun e => hnot (by simp only [DataOp.Concerns, hc, e])
    rw [(h.ticks k).slot_setEntry (Info.freeEntry_eq_some hfree).1]
    simp only [hj, ↓reduceIte, Info.slot_ticks]
  · -- so is the removed one
    obtain ⟨k', hr⟩ := sfsRemove_eq h.toPlain fn
    rw [hfind] at hr
    have hj : j ≠ i :=
      ne_of_s2vInodeNum_ne hidx fun e => hnot (by simp only [DataOp.Concerns, hr, e])
    rw [((h.ticks k).setUsed _).slot_setEntry (Info.find_eq_some hfind).1]
    simp only [hj, ↓reduceIte, Info.slot_setUsed, Info.slot_ticks]
  · -- an update of this entry cuts behind the block
    obtain ⟨hin, h0, h31⟩ := hv
    obtain ⟨j, hj, hjdx⟩ := hin.index
    rw [hjdx]
    have hkept : ¬ (j = i ∧ cut ≤ iblock) := by
      rintro ⟨rfl, hle⟩
      have hsame : ino' = ino := by unfold v2sInodeNum at hidx hjdx; omega
      have hc := firstCut_ofInt h0 h31
      rw [← hcut] at hc
      exact hnot ⟨hsame, by omega⟩
    have hblocks := FileEntry.block_truncated ((info.entry j).updated (some size) ts perms) cut
    exact (((h.ticks k).setUsed _).slot_cut hj hblocks (i, iblock)).trans (if_neg hkept)
  · -- an allocation fills an empty slot
    obtain ⟨j, hj, hjdx⟩ := InTable.index hv
    rw [hjdx] at hempty
    rw [hjdx]
    refine (((h.ticks k).setUsed _).slot_setBlock hj h9 _ (i, iblock)).trans (if_neg fun e => ?_)
    obtain ⟨rfl, rfl⟩ := Prod.mk.inj e
    exact (Info.slot_ne_zero hmapped).2 hempty

theorem Stores.table {sb : SuperBlock} {info : Info} (h : SoundVolume sb info) {op : Op}
    (hv : op.Valid sb) {ino : Int} {i iblock : Nat} {d : Data} (hidx : v2sInodeNum ino = i)
    (hs : Stores info i iblock d) (hnot : ¬ (DataOp.table op).Concerns ino iblock info) :
    Stores (op.exec info) i iblock d := by
  have hslot := h.toMounted.slot_exec (by rw [h.sb_eq]; exact hv) hidx hs.mapped hnot
  refine ⟨by rw [hslot]; exact hs.mapped, ?_⟩
  rw [hslot, h.data_exec hv (h.sound.in_region _ hs.mapped).1, hs.data_eq]

/-- A successful write is stored. -/
theorem stores_write {sb : SuperBlock} {info : Info} (h : SoundVolume sb info) {ino : Int}
    (hv : InTable sb ino) {i iblock : Nat} (hidx : v2sInodeNum ino = i) {d : Data}
    (hok : (writeBlock info ino iblock d).1 = true) :
    Stores (writeBlock info ino iblock d).2 i iblock d := by
  have hi : i < info.sb.entryCount.toNat := by
    rw [h.sb_eq]
    exact hv.lt hidx
  have h' : SoundVolume sb ((Op.getBlock ino iblock true).exec info) := h.table hv
  rcases write_cases h.toMounted h.fits hi hidx iblock d with he | ⟨hne, he⟩
  · rw [he] at hok
    cases hok
  · have hslot := h'.slot_setData (h'.sound.in_region _ hne).1 d (i, iblock)
    rw [he]
    refine ⟨by rw [hslot]; exact hne, ?_⟩
    rw [hslot, h'.toMounted.data_setData, if_pos rfl]

/-- **One step.** An operation that does not concern the block leaves it mapped and unchanged. -/
theorem Stores.exec {sb : SuperBlock} {info : Info} (h : SoundVolume sb info) {op : DataOp}
    (hv : op.Valid sb) {ino : Int} {i iblock : Nat} {d : Data} (hidx : v2sInodeNum ino = i)
    (hs : Stores info i iblock d) (hnot : ¬ op.Concerns ino iblock info) :
    Stores (op.exec info) i iblock d := by
  cases op with
  | table op => exact hs.table h hv hidx hnot
  | read ino' iblock' =>
    obtain ⟨k, hk⟩ := read_eq h.toMounted ino' iblock'
    simp only [DataOp.exec, hk]
    exact ⟨hs.mapped, hs.data_eq⟩
  | write ino' iblock' d' =>
    have hv' : InTable info.sb ino' := by rw [h.sb_eq]; exact hv
    obtain ⟨j, hj, hjdx⟩ := hv'.index
    have h' : SoundVolume sb ((Op.getBlock ino' iblock' true).exec info) := h.table hv
    have hget : (Op.getBlock ino' iblock' true).Valid sb := hv
    have hs' : Stores ((Op.getBlock ino' iblock' true).exec info) i iblock d :=
      hs.table h hget hidx fun hc => hc
    rcases write_cases h.toMounted h.fits hj hjdx iblock' d' with he | ⟨hne, he⟩
    · simp only [DataOp.exec, he]
      exact hs'
    · -- the store goes to another slot, so to another block
      have hb := (h'.sound.in_region _ hne).1
      have hother : (j, iblock') ≠ (i, iblock) := by
        intro e
        obtain ⟨rfl, rfl⟩ := Prod.mk.inj e
        refine hnot ⟨?_, rfl, by rw [he]⟩
        unfold v2sInodeNum at hidx hjdx
        omega
      have hblock : ((Op.getBlock ino' iblock' true).exec info).slot (j, iblock') ≠
          ((Op.getBlock ino' iblock' true).exec info).slot (i, iblock) := fun e =>
        hother (h'.sound.inj _ _ hne e)
      simp only [DataOp.exec, he]
      refine ⟨by rw [h'.slot_setData hb]; exact hs'.mapped, ?_⟩
      rw [h'.slot_setData hb, h'.toMounted.data_setData, if_neg hblock, hs'.data_eq]

/-- What is stored is read. -/
theorem Stores.read {info : Info} (h : Mounted info) {ino : Int} {i iblock : Nat} {d : Data}
    (hidx : v2sInodeNum ino = i) (hs : Stores info i iblock d) :
    (readBlock info ino iblock).1 = some d := by
  obtain ⟨k, hk⟩ := getBlock_of_slot h hidx hs.mapped false
  have hslot := Info.slot_of_lt (Info.slot_ne_zero hs.mapped).1 iblock
  unfold readBlock
  rw [hk]
  simp only
  rw [← hslot]
  exact congrArg some hs.data_eq

/-! ## Runs -/

theorem MountedEmpty.soundVolume {info : Info} (h : MountedEmpty info) (hfits : TableFits info.sb) :
    SoundVolume info.sb info :=
  ⟨h.toMounted, rfl, hfits, h.soundTable⟩

/-- **Data isolation.** Whatever happens before a successful write and whatever happens after it to
all other files and blocks, the written bytes are read back. -/
theorem readBlock_run {info : Info} (h : MountedEmpty info) (hfits : TableFits info.sb)
    {before after : List DataOp} {ino : Int} {iblock : Nat} {d : Data}
    (hvalid : ∀ op ∈ before ++ .write ino iblock d :: after, op.Valid info.sb)
    (hwrite : (writeBlock (run DataOp.exec info before) ino iblock d).1 = true)
    (hlast : Along DataOp.exec (fun s op => ¬ op.Concerns ino iblock s)
      (run DataOp.exec info (before ++ [.write ino iblock d])) after) :
    (readBlock (run DataOp.exec info (before ++ .write ino iblock d :: after)) ino iblock).1 =
      some d := by
  have hv : (DataOp.write ino iblock d).Valid info.sb := hvalid _ (by simp)
  obtain ⟨i, -, hidx⟩ := InTable.index hv
  have hvbefore : Along DataOp.exec (fun _ op => op.Valid info.sb) info before :=
    along_of_forall fun op hop => hvalid op (by simp [hop])
  have hbefore : SoundVolume info.sb (run DataOp.exec info before) :=
    Along.invariant (I := SoundVolume info.sb) (fun _ _ hs hv => DataOp.exec_sound hs hv)
      (h.soundVolume hfits) hvbefore
  rw [run_append] at hlast
  rw [run_append, run_cons]
  have hvafter : Along DataOp.exec (fun _ op => op.Valid info.sb)
      (run DataOp.exec (run DataOp.exec info before) [.write ino iblock d]) after :=
    along_of_forall fun op hop => hvalid op (by simp [hop])
  have hstep : ∀ s (op : DataOp), SoundVolume info.sb s ∧ Stores s i iblock d →
      op.Valid info.sb ∧ ¬ op.Concerns ino iblock s →
      SoundVolume info.sb (op.exec s) ∧ Stores (op.exec s) i iblock d :=
    fun s op ⟨hvol, hs⟩ ⟨hop, hnot⟩ => ⟨op.exec_sound hvol hop, hs.exec hvol hop hidx hnot⟩
  obtain ⟨hvol, hstores⟩ := Along.invariant hstep
    ⟨DataOp.exec_sound hbefore hv, stores_write hbefore hv hidx hwrite⟩ (hvafter.and hlast)
  exact hstores.read hvol.toMounted hidx

/-- Two files on a ten-block volume: the first is written, the second is written over and removed
around it, and the first is read back. -/
theorem readBlock_run_formatted :
    let a : CStr := ⟨[97], by decide⟩
    let b : CStr := ⟨[98], by decide⟩
    let before : List DataOp := [.table (.create b 6 0), .write 2 1 (.replicate 512 1),
      .table (.create a 6 0)]
    let after : List DataOp := [.write 2 0 (.replicate 512 2), .table (.update 3 600 none none),
      .table (.remove b), .table (.lookup a)]
    (readBlock (run DataOp.exec (formatted 5120)
      (before ++ .write 3 1 (.replicate 512 7) :: after)) 3 1).1 = some (.replicate 512 7) := by
  obtain ⟨hsb, h⟩ := mountedEmpty_formatted 5120 (by decide) (by decide)
  exact readBlock_run h (by rw [hsb]; decide) (by rw [hsb]; decide) (by decide +kernel)
    (by decide +kernel)

end LinuxDrivers.Sfs
