import LinuxDrivers.Lib.Ownership
import LinuxDrivers.Lib.Run
import LinuxDrivers.Sfs.Mount

/-!
# Block ownership in the kernel driver

Runs of the five operations that touch entries or `used_blocks`, from a mounted volume with an empty
table. `Op.exec_cases` says everything one operation can do to a working 512-byte volume; the
ownership invariant is that the slots of the table hold their blocks soundly.
-/

namespace LinuxDrivers.Sfs

/-- A call of the driver, with the clock of `sfs_create`. -/
inductive Op where
  | create (fn : CStr) (perms now : Int)
  | lookup (fn : CStr)
  | remove (fn : CStr)
  | update (ino size : Int) (timestamp perms : Option Int)
  | getBlock (ino : Int) (iblock : Nat) (create : Bool)

/-- The state after one call; the buffer that `sfs_create` and `sfs_lookup` fill is scratch. -/
def Op.exec (info : Info) : Op → Info
  | .create fn perms now => (sfsCreate info fn perms now .zero).2
  | .lookup fn => (sfsLookup info fn .zero).2
  | .remove fn => (sfsRemove info fn).2
  | .update ino size timestamp perms => (sfsUpdate info ino (some size) timestamp perms).2
  | .getBlock ino iblock cr => (sfsGetBlock info ino iblock cr).2

/-- `ino` is the VFS number of an entry of the table, live or not. -/
def InTable (sb : SuperBlock) (ino : Int) : Prop :=
  0 ≤ v2sInodeNum ino ∧ v2sInodeNum ino < sb.entryCount.toNat

instance (sb : SuperBlock) (ino : Int) : Decidable (InTable sb ino) :=
  inferInstanceAs (Decidable (_ ∧ _))

/-- Inode numbers are those of the table and sizes are nonnegative `int`s. -/
def Op.Valid (sb : SuperBlock) : Op → Prop
  | .update ino size _ _ => InTable sb ino ∧ 0 ≤ size ∧ size < 2 ^ 31
  | .getBlock ino _ _ => InTable sb ino
  | _ => True

instance (sb : SuperBlock) (op : Op) : Decidable (op.Valid sb) := by
  rcases op with _ | _ | _ | _ | _ <;> dsimp only [Op.Valid] <;> infer_instance

/-- Every block number in the table lies in the data area, is marked, and is stored once. -/
structure OwnsBlocks (info : Info) : Prop where
  range : ∀ i j : Nat, i < info.sb.entryCount.toNat → (info.entry i).block j ≠ 0 →
    info.sb.dataBlockStart.toNat ≤ ((info.entry i).block j).toNat ∧
      ((info.entry i).block j).toNat < info.sb.partitionSize.toNat
  used : ∀ i j : Nat, i < info.sb.entryCount.toNat → (info.entry i).block j ≠ 0 →
    info.usedBlocks ((info.entry i).block j).toNat = 1
  once : ∀ i j i' j' : Nat, i < info.sb.entryCount.toNat → i' < info.sb.entryCount.toNat →
    (info.entry i).block j ≠ 0 → (info.entry i).block j = (info.entry i').block j' →
      i = i' ∧ j = j'

/-! ## What one operation does -/

theorem Op.exec_cases {info : Info} (h : Plain info) (op : Op) : ∃ k,
    op.exec info = info.ticks k ∨
    (∃ fn perms now i, op = .create fn perms now ∧ info.freeEntry = some i ∧
      op.exec info = (info.ticks k).setEntry i ((info.entry i).created fn perms now)) ∨
    (∃ fn i, op = .remove fn ∧ info.find fn = some i ∧
      op.exec info = ((info.ticks k).setUsed
        (clear info.usedBlocks (info.entry i).chain)).setEntry i .zero) ∨
    (∃ ino size timestamp perms fe cut, op = .update ino size timestamp perms ∧
      fe = (info.entry (v2sInodeNum ino)).updated (some size) timestamp perms ∧
      cut = firstCut (.ofInt size) ∧
      op.exec info = ((info.ticks k).setUsed (clear info.usedBlocks
        ((info.entry (v2sInodeNum ino)).tail cut))).setEntry (v2sInodeNum ino)
          (fe.truncated cut)) ∨
    (∃ ino iblock b, op = .getBlock ino iblock true ∧ iblock < 9 ∧
      (info.entry (v2sInodeNum ino)).block iblock = 0 ∧ info.freeBlock = some b ∧
      op.exec info = ((info.ticks k).setUsed (Function.update info.usedBlocks b 1)).setEntry
        (v2sInodeNum ino) ((info.entry (v2sInodeNum ino)).setBlock iblock (.ofInt b))) := by
  cases op with
  | create fn perms now =>
    obtain ⟨k, fe', hk⟩ := sfsCreate_eq h fn perms now .zero
    refine ⟨k, ?_⟩
    simp only [exec, hk]
    cases hfree : info.freeEntry with
    | none => exact .inl rfl
    | some i => exact .inr (.inl ⟨fn, perms, now, i, rfl, rfl, rfl⟩)
  | lookup fn =>
    obtain ⟨k, fe', hk⟩ := sfsLookup_eq h fn .zero
    exact ⟨k, .inl (by simp only [exec, hk])⟩
  | remove fn =>
    obtain ⟨k, hk⟩ := sfsRemove_eq h fn
    refine ⟨k, ?_⟩
    simp only [exec, hk]
    cases hfind : info.find fn with
    | none => exact .inl rfl
    | some i => exact .inr (.inr (.inl ⟨fn, i, rfl, hfind, rfl⟩))
  | update ino size timestamp perms =>
    obtain ⟨k, hk⟩ := sfsUpdate_eq h ino (some size) timestamp perms
    refine ⟨k, .inr (.inr (.inr (.inl ⟨ino, size, timestamp, perms, _, _, rfl, rfl, rfl, ?_⟩)))⟩
    simp only [exec, hk]
    rfl
  | getBlock ino iblock cr =>
    obtain ⟨k, hk⟩ := sfsGetBlock_eq h ino iblock cr
    refine ⟨k, ?_⟩
    simp only [exec, hk]
    split
    · exact .inl rfl
    · split
      · exact .inl rfl
      · split
        · exact .inl rfl
        · next h9 hslot hcreate =>
          cases hfree : info.freeBlock with
          | none => exact .inl rfl
          | some b =>
            have hc : cr = true := by simpa using hcreate
            subst hc
            refine .inr (.inr (.inr (.inr ⟨ino, iblock, b, rfl, by omega, ?_, rfl, rfl⟩)))
            simpa using hslot

/-! ## The table as a map from positions to blocks -/

/-- A working 512-byte volume whose table does not wrap around the address space. -/
structure Mounted (info : Info) : Prop extends Plain info where
  table_le : info.sb.entryCount.toNat ≤ 2 ^ 26

theorem Mounted.ticks {info : Info} (h : Mounted info) (k : Nat) : Mounted (info.ticks k) :=
  ⟨h.toPlain.ticks k, h.table_le⟩

theorem Mounted.setUsed {info : Info} (h : Mounted info) (used : Nat → UInt8) :
    Mounted (info.setUsed used) :=
  ⟨h.toPlain.setUsed used, h.table_le⟩

theorem Mounted.setEntry {info : Info} (h : Mounted info) (ino : Int) (fe : FileEntry) :
    Mounted (info.setEntry ino fe) :=
  ⟨h.toPlain.setEntry ino fe, h.table_le⟩

/-- An entry of the table is rewritten alone. -/
theorem Mounted.entry_setEntry {info : Info} (h : Mounted info) {i j : Nat}
    (hi : i < info.sb.entryCount.toNat) (hj : j < info.sb.entryCount.toNat) (fe : FileEntry) :
    (info.setEntry i fe).entry j = if i = j then fe else info.entry j := by
  rw [Info.entry_setEntry h.toPlain.sized]
  by_cases e : i = j
  · subst e
    rw [if_pos rfl, if_pos rfl]
  · rw [if_neg e, if_neg]
    intro he
    have := entryAddr_inj h.sbBlockSize h.table_le ⟨by omega, by omega⟩ ⟨by omega, by omega⟩ he
    omega

/-- The block in slot `p.2` of entry `p.1`, `0` for none. -/
def Info.slot (info : Info) (p : Nat × Nat) : Nat :=
  if p.1 < info.sb.entryCount.toNat then ((info.entry p.1).block p.2).toNat else 0

@[simp] theorem Info.slot_ticks (info : Info) (k : Nat) (p : Nat × Nat) :
    (info.ticks k).slot p = info.slot p := rfl

@[simp] theorem Info.slot_setUsed (info : Info) (used : Nat → UInt8) (p : Nat × Nat) :
    (info.setUsed used).slot p = info.slot p := rfl

theorem Mounted.slot_setEntry {info : Info} (h : Mounted info) {i : Nat}
    (hi : i < info.sb.entryCount.toNat) (fe : FileEntry) (p : Nat × Nat) :
    (info.setEntry i fe).slot p = if i = p.1 then (fe.block p.2).toNat else info.slot p := by
  obtain ⟨j, k⟩ := p
  unfold Info.slot
  simp only [Info.sb_setEntry]
  by_cases hj : j < info.sb.entryCount.toNat
  · simp only [hj, ↓reduceIte, h.entry_setEntry hi hj]
    split <;> rfl
  · have hne : i ≠ j := by omega
    simp only [hj, hne, ↓reduceIte]

theorem toNat_ne_zero {b : UInt32} : b.toNat ≠ 0 ↔ b ≠ 0 := by
  rw [ne_eq, ne_eq, ← UInt32.toNat_inj]
  rfl

theorem Info.slot_of_lt {info : Info} {i : Nat} (hi : i < info.sb.entryCount.toNat) (k : Nat) :
    info.slot (i, k) = ((info.entry i).block k).toNat := by
  simp only [Info.slot, hi, ↓reduceIte]

theorem Info.slot_ne_zero {info : Info} {p : Nat × Nat} (h : info.slot p ≠ 0) :
    p.1 < info.sb.entryCount.toNat ∧ (info.entry p.1).block p.2 ≠ 0 := by
  unfold slot at h
  split at h
  · next hp => exact ⟨hp, toNat_ne_zero.1 h⟩
  · exact absurd rfl h

/-- A block number is stored in one slot. -/
theorem Mounted.slot_setBlock {info : Info} (h : Mounted info) {i k : Nat}
    (hi : i < info.sb.entryCount.toNat) (hk : k < 9) (b : UInt32) (p : Nat × Nat) :
    (info.setEntry i ((info.entry i).setBlock k b)).slot p =
      if p = (i, k) then b.toNat else info.slot p := by
  rw [h.slot_setEntry hi]
  by_cases hp : p = (i, k)
  · subst hp
    simp [hk]
  · rw [if_neg hp]
    split
    · next hpi =>
      have hne : k ≠ p.2 := fun e => hp (Prod.ext hpi.symm e.symm)
      subst hpi
      simp only [FileEntry.block_setBlock, hne, false_and, ↓reduceIte]
      exact (Info.slot_of_lt hi _).symm
    · rfl

/-- The slots of one entry are dropped from the cut on. -/
theorem Mounted.slot_cut {info : Info} (h : Mounted info) {i : Nat}
    (hi : i < info.sb.entryCount.toNat) {cut : Nat} {fe : FileEntry}
    (hfe : ∀ j, fe.block j = if j < cut then (info.entry i).block j else 0) (p : Nat × Nat) :
    (info.setEntry i fe).slot p = if i = p.1 ∧ cut ≤ p.2 then 0 else info.slot p := by
  rw [h.slot_setEntry hi]
  by_cases hpi : i = p.1
  · subst hpi
    rw [if_pos rfl, hfe]
    by_cases hcut : cut ≤ p.2
    · rw [if_neg (Nat.not_lt.2 hcut), if_pos ⟨rfl, hcut⟩]
      rfl
    · rw [if_pos (Nat.not_le.1 hcut), if_neg fun hc => hcut hc.2]
      exact (Info.slot_of_lt hi _).symm
  · rw [if_neg hpi, if_neg fun hc => hpi hc.1]

/-- The slots of the table hold blocks of the data area soundly. -/
def SoundTable (info : Info) : Prop :=
  Ownership.Sound
    (fun b => info.sb.dataBlockStart.toNat ≤ b ∧ b < info.sb.partitionSize.toNat)
    (fun b => info.usedBlocks b = 1) info.slot

theorem SoundTable.ownsBlocks {info : Info} (h : SoundTable info) : OwnsBlocks info := by
  have hne : ∀ {i j : Nat}, i < info.sb.entryCount.toNat → (info.entry i).block j ≠ 0 →
      info.slot (i, j) ≠ 0 := fun hi hb => by
    rw [Info.slot_of_lt hi]
    exact toNat_ne_zero.2 hb
  refine ⟨fun i j hi hb => ?_, fun i j hi hb => ?_, fun i j i' j' hi hi' hb he => ?_⟩
  · have := h.in_region _ (hne hi hb)
    rwa [Info.slot_of_lt hi] at this
  · have := h.marked _ (hne hi hb)
    rwa [Info.slot_of_lt hi] at this
  · have := h.inj (i, j) (i', j') (hne hi hb)
      (by rw [Info.slot_of_lt hi, Info.slot_of_lt hi', he])
    simpa using this

theorem OwnsBlocks.soundTable {info : Info} (h : OwnsBlocks info) : SoundTable info := by
  refine ⟨fun p hp => ?_, fun p hp => ?_, fun p q hp hpq => ?_⟩
  · obtain ⟨hi, hb⟩ := Info.slot_ne_zero hp
    rw [Info.slot_of_lt hi]
    exact h.range _ _ hi hb
  · obtain ⟨hi, hb⟩ := Info.slot_ne_zero hp
    rw [Info.slot_of_lt hi]
    exact h.used _ _ hi hb
  · obtain ⟨hi, hb⟩ := Info.slot_ne_zero hp
    obtain ⟨hj, -⟩ := Info.slot_ne_zero (hpq ▸ hp)
    rw [Info.slot_of_lt hi, Info.slot_of_lt hj, UInt32.toNat_inj] at hpq
    obtain ⟨h1, h2⟩ := h.once _ _ _ _ hi hj hb hpq
    exact Prod.ext h1 h2

/-! ## The invariant -/

/-- A released list of blocks was held by the positions it was read from. -/
theorem clear_released {used : Nat → UInt8} {bs : List UInt32} {b : Nat} (h : used b = 1) :
    clear used bs b = 1 ∨ ∃ c ∈ bs, c.toNat = b := by
  unfold clear
  by_cases hb : b ∈ bs.map UInt32.toNat
  · exact .inr (List.mem_map.1 hb)
  · simp only [hb, ↓reduceIte]
    exact .inl h

theorem InTable.index {sb : SuperBlock} {ino : Int} (h : InTable sb ino) :
    ∃ i : Nat, i < sb.entryCount.toNat ∧ v2sInodeNum ino = i := by
  obtain ⟨h1, h2⟩ := h
  exact ⟨(v2sInodeNum ino).toNat, by omega, by omega⟩

theorem InTable.lt {sb : SuperBlock} {ino : Int} {i : Nat} (h : InTable sb ino)
    (hidx : v2sInodeNum ino = i) : i < sb.entryCount.toNat := by
  have := h.2
  omega

/-- Every operation on the table keeps the volume mounted. -/
theorem Op.exec_mounted {info : Info} (h : Mounted info) (op : Op) : Mounted (op.exec info) := by
  obtain ⟨k, he | ⟨_, _, _, _, _, _, he⟩ | ⟨_, _, _, _, he⟩ | ⟨_, _, _, _, _, _, _, _, _, he⟩ |
    ⟨_, _, _, _, _, _, _, he⟩⟩ := op.exec_cases h.toPlain <;> rw [he]
  · exact h.ticks k
  · exact (h.ticks k).setEntry _ _
  · exact ((h.ticks k).setUsed _).setEntry _ _
  · exact ((h.ticks k).setUsed _).setEntry _ _
  · exact ((h.ticks k).setUsed _).setEntry _ _

theorem Op.exec_sb {info : Info} (h : Plain info) (op : Op) : (op.exec info).sb = info.sb := by
  obtain ⟨k, he | ⟨_, _, _, _, _, _, he⟩ | ⟨_, _, _, _, he⟩ | ⟨_, _, _, _, _, _, _, _, _, he⟩ |
    ⟨_, _, _, _, _, _, _, he⟩⟩ := op.exec_cases h <;> rw [he] <;> rfl

/-- An entry loses its slots from the cut on, and some of the blocks in them are released. -/
theorem SoundTable.cut {info : Info} (hm : Mounted info) (hs : SoundTable info) {i : Nat}
    (hi : i < info.sb.entryCount.toNat) (cut : Nat) {fe : FileEntry} {bs : List UInt32}
    (hfe : ∀ j, fe.block j = if j < cut then (info.entry i).block j else 0)
    (hbs : ∀ b ∈ bs, ∃ j, cut ≤ j ∧ (info.entry i).block j = b) :
    SoundTable ((info.setUsed (clear info.usedBlocks bs)).setEntry i fe) := by
  have hslot := (hm.setUsed (clear info.usedBlocks bs)).slot_cut hi hfe
  refine hs.drop (fun p => ?_) fun b hb => ?_
  · rw [hslot]
    split
    · exact .inr rfl
    · exact .inl rfl
  · rcases clear_released hb with hu | ⟨c, hc, rfl⟩
    · exact .inl hu
    · obtain ⟨j, hj, rfl⟩ := hbs c hc
      refine .inr ⟨(i, j), Info.slot_of_lt hi j, ?_⟩
      rw [hslot, if_pos ⟨rfl, hj⟩]

/-- A slot is given the first free block, which no other slot holds. -/
theorem SoundTable.fill {info : Info} (hm : Mounted info) (hs : SoundTable info) {i k b : Nat}
    (hi : i < info.sb.entryCount.toNat) (hk : k < 9) (hfree : info.freeBlock = some b) :
    SoundTable ((info.setUsed (Function.update info.usedBlocks b 1)).setEntry i
      ((info.entry i).setBlock k (.ofInt b))) := by
  obtain ⟨hb1, hb2, hb0⟩ := Info.freeBlock_eq_some hfree
  have hslot := (hm.setUsed (Function.update info.usedBlocks b 1)).slot_setBlock hi hk (.ofInt b)
  rw [Info.toNat_freeBlock hfree] at hslot
  refine hs.assign (p := (i, k)) (b := b) ⟨hb1, hb2⟩ (by simp [hb0]) ?_ ?_ ?_
  · exact (hslot (i, k)).trans (if_pos rfl)
  · intro p hp
    exact (hslot p).trans (if_neg hp)
  · intro c hc
    change Function.update info.usedBlocks b 1 c = 1
    rcases hc with hc | rfl
    · by_cases e : c = b
      · simp [e]
      · simpa [e] using hc
    · simp

/-- **One step.** Every operation on the table preserves sound ownership. -/
theorem Op.exec_sound {info : Info} (h : Mounted info) (hs : SoundTable info) {op : Op}
    (hv : op.Valid info.sb) : SoundTable (op.exec info) := by
  obtain ⟨k, he | ⟨fn, perms, now, i, -, hfree, he⟩ | ⟨fn, i, -, hfind, he⟩ |
    ⟨ino, size, ts, perms, fe, cut, rfl, rfl, -, he⟩ | ⟨ino, iblock, b, rfl, h9, hslot, hfree, he⟩⟩
    := op.exec_cases h.toPlain <;> rw [he]
  · exact hs
  · -- a created entry has no blocks, and the entry was free
    have hcut : SoundTable (((info.ticks k).setUsed (clear info.usedBlocks [])).setEntry i
        ((info.entry i).created fn perms now)) :=
      SoundTable.cut (h.ticks k) hs (Info.freeEntry_eq_some hfree).1 0 (fun j => by simp) (by simp)
    rwa [clear_nil] at hcut
  · -- a removed entry loses all its blocks, and its chain is released
    refine SoundTable.cut (h.ticks k) hs (Info.find_eq_some hfind).1 0 (fun j => by simp) ?_
    intro b hb
    obtain ⟨-, j, -, hj⟩ := FileEntry.mem_chain hb
    exact ⟨j, Nat.zero_le j, hj⟩
  · -- truncation drops the slots behind the cut and releases what they held
    obtain ⟨i, hi, hidx⟩ := hv.1.index
    rw [hidx]
    refine SoundTable.cut (h.ticks k) hs hi cut (fun j => by simp) ?_
    intro b hb
    obtain ⟨-, j, hj, -, hblock⟩ := FileEntry.mem_tail.1 hb
    exact ⟨j, hj, hblock⟩
  · obtain ⟨i, hi, hidx⟩ := InTable.index hv
    rw [hidx]
    exact SoundTable.fill (h.ticks k) hs hi h9 hfree

/-! ## Runs -/

theorem MountedEmpty.toMounted {info : Info} (h : MountedEmpty info) : Mounted info := by
  obtain ⟨vmallocOk, info₀, hdev, hmount⟩ := h.mounted
  obtain ⟨hplain, hsb, htype, -⟩ := mounted_of_initBrowsing hdev hmount h.blockSize
  refine ⟨hplain, table_le_of_dead hplain hsb htype fun i hi => ?_⟩
  rw [h.table_empty i hi, FileEntry.live_zero]

theorem MountedEmpty.soundTable {info : Info} (h : MountedEmpty info) : SoundTable info := by
  apply Ownership.Sound.empty
  rintro ⟨i, j⟩
  by_cases hi : i < info.sb.entryCount.toNat
  · rw [Info.slot_of_lt hi, h.table_empty i hi, FileEntry.block_zero]
    rfl
  · simp only [Info.slot, hi, ↓reduceIte]

/-- What a run of table operations keeps: the volume stays mounted under the same super block, and
its blocks stay owned soundly. -/
theorem run_sound {info : Info} (h : Mounted info) (hs : SoundTable info) (ops : List Op)
    (hops : ∀ op ∈ ops, op.Valid info.sb) :
    Mounted (run Op.exec info ops) ∧ (run Op.exec info ops).sb = info.sb ∧
      SoundTable (run Op.exec info ops) := by
  refine Along.invariant (P := fun _ op => op.Valid info.sb)
    (I := fun s => Mounted s ∧ s.sb = info.sb ∧ SoundTable s) ?_ ⟨h, rfl, hs⟩ (along_of_forall hops)
  rintro s op ⟨hm, hsb, hst⟩ hv
  exact ⟨op.exec_mounted hm, (op.exec_sb hm.toPlain).trans hsb,
    op.exec_sound hm hst (by rw [hsb]; exact hv)⟩

/-- **Block ownership.** After any operations on an empty volume, every stored block lies in the
data area, is marked used and is stored once; so the allocator never hands out a block that an entry
still holds. -/
theorem ownsBlocks_run {info : Info} (h : MountedEmpty info) {ops : List Op}
    (hops : ∀ op ∈ ops, op.Valid info.sb) :
    let s := run Op.exec info ops
    s.sb = info.sb ∧ OwnsBlocks s ∧
      ∀ b : Nat, (sfsGetDataBlock s).1 = b → ∀ i j : Nat, i < s.sb.entryCount.toNat →
        (s.entry i).block j ≠ 0 → ((s.entry i).block j).toNat ≠ b := by
  obtain ⟨-, hsb, hs⟩ := run_sound h.toMounted h.soundTable ops hops
  refine ⟨hsb, hs.ownsBlocks, fun b hb i j hi hne he => ?_⟩
  rw [sfsGetDataBlock_eq] at hb
  cases hfree : (run Op.exec info ops).freeBlock with
  | none =>
    simp only [hfree, invBlock] at hb
    omega
  | some c =>
    simp only [hfree] at hb
    have hc := (Info.freeBlock_eq_some hfree).2.2
    have hu := hs.ownsBlocks.used i j hi hne
    rw [he, show b = c by omega, hc] at hu
    exact absurd hu (by decide)

/-- A ten-block volume: a file is extended with a gap, truncated, removed, and its inode number is
used once more. -/
theorem ownsBlocks_run_formatted :
    let ops : List Op := [.create ⟨[97], by decide⟩ 6 0, .getBlock 2 3 true, .getBlock 2 0 true,
      .update 2 100 (some 5) (some 7), .remove ⟨[97], by decide⟩, .getBlock 2 8 true]
    MountedEmpty (formatted 5120) ∧ (∀ op ∈ ops, op.Valid (formatted 5120).sb) ∧
      OwnsBlocks (run Op.exec (formatted 5120) ops) := by
  obtain ⟨hsb, h⟩ := mountedEmpty_formatted 5120 (by decide) (by decide)
  have hops : ∀ op ∈ [Op.create ⟨[97], by decide⟩ 6 0, .getBlock 2 3 true, .getBlock 2 0 true,
      .update 2 100 (some 5) (some 7), .remove ⟨[97], by decide⟩, .getBlock 2 8 true],
      op.Valid (formatted 5120).sb := by
    rw [hsb]
    decide
  exact ⟨h, hops, (ownsBlocks_run h hops).2.1⟩

end LinuxDrivers.Sfs
