import LinuxDrivers.Sfs.Ownership

/-!
# Remounting

A mount rebuilds `used_blocks` from the chains of the live entries, and a chain ends at the first
zero slot. `sfs_get_block` fills any slot, so a sparse write leaves a block behind a gap that the
next mount does not see. The array in memory agrees with the one a mount would build exactly as long
as every allocation fills the slots of its file in order.
-/

namespace LinuxDrivers.Sfs

/-- A mount of the current image succeeds and builds the array that is in memory. -/
def RemountAgrees (info : Info) : Prop :=
  (initBrowsing true info).1 = 0 ∧ ∀ b < info.sb.partitionSize.toNat,
    (initBrowsing true info).2.usedBlocks b = info.usedBlocks b

instance (info : Info) : Decidable (RemountAgrees info) := inferInstanceAs (Decidable (_ ∧ _))

namespace Op

/-- An operation by inode number is called on the number of a live file. -/
def OnLive (info : Info) (op : Op) : Prop :=
  op.Valid info.sb ∧ match op with
    | .update ino _ _ _ => (info.entry (v2sInodeNum ino)).live = true
    | .getBlock ino _ _ => (info.entry (v2sInodeNum ino)).live = true
    | _ => True

instance (info : Info) (op : Op) : Decidable (op.OnLive info) := by
  rcases op with _ | _ | _ | _ | _ <;> dsimp only [OnLive] <;> infer_instance

/-- An allocation, if it takes place, fills the first empty slot of its file. -/
def FillsInOrder (info : Info) : Op → Prop
  | .getBlock ino iblock true => iblock < 9 → (info.entry (v2sInodeNum ino)).block iblock = 0 →
      info.freeBlock ≠ none → ∀ j < iblock, (info.entry (v2sInodeNum ino)).block j ≠ 0
  | _ => True

instance (info : Info) (op : Op) : Decidable (op.FillsInOrder info) := by
  unfold FillsInOrder
  split <;> infer_instance

end Op

/-! ## Chains -/

theorem FileEntry.blocks_getElem? (fe : FileEntry) (j : Nat) :
    fe.blocks.toList[j]? = if j < 9 then some (fe.block j) else none := by
  split
  · next h => simp [block, Vector.getD, h]
  · next h => simpa using h

/-- A block is on the chain when no slot up to its own is empty. -/
theorem FileEntry.mem_chain_iff {fe : FileEntry} {b : UInt32} :
    b ∈ fe.chain ↔ ∃ j, fe.block j = b ∧ ∀ k ≤ j, fe.block k ≠ 0 := by
  unfold chain
  rw [mem_takeWhile_iff]
  simp only [fe.blocks_getElem?, bne_iff_ne]
  constructor
  · rintro ⟨j, hj, hk⟩
    split at hj
    · next h9 =>
      refine ⟨j, by simpa using hj, fun k hkj => ?_⟩
      exact hk k hkj _ (by rw [if_pos (by omega)])
    · cases hj
  · rintro ⟨j, rfl, hk⟩
    have h9 : j < 9 := by
      by_contra h9
      exact hk j (Nat.le_refl j) (block_of_le (by omega))
    refine ⟨j, by rw [if_pos h9], fun k hkj y hy => ?_⟩
    rw [if_pos (by omega)] at hy
    cases hy
    exact hk k hkj

/-! ## The invariant -/

/-- The marks in memory are those of the blocks below the data area and of the blocks in the table;
files have no gaps and free entries hold nothing. -/
structure ExactTable (info : Info) : Prop where
  exact : Ownership.Exact (· < info.sb.dataBlockStart.toNat)
    (fun b => info.sb.dataBlockStart.toNat ≤ b ∧ b < info.sb.partitionSize.toNat)
    (fun b => info.usedBlocks b = 1) info.slot
  binary : ∀ b, info.usedBlocks b = 0 ∨ info.usedBlocks b = 1
  contiguous : ∀ i j k, k ≤ j → info.slot (i, j) ≠ 0 → info.slot (i, k) ≠ 0
  dead : ∀ i : Nat, i < info.sb.entryCount.toNat → (info.entry i).live = false →
    ∀ j, info.slot (i, j) = 0

/-- Without gaps, a block is on the chain of a live entry when it is in the table. -/
theorem ExactTable.scanned_iff {info : Info} (h : ExactTable info) (b : Nat) :
    Scanned info info.sb.entryCount.toNat 0 b ↔ ∃ p, info.slot p ≠ 0 ∧ info.slot p = b := by
  constructor
  · rintro ⟨i, -, hi, -, hb⟩
    obtain ⟨c, hc, rfl⟩ := List.mem_map.1 hb
    obtain ⟨j, rfl, hj⟩ := FileEntry.mem_chain_iff.1 hc
    have hslot : info.slot (i, j) = ((info.entry i).block j).toNat :=
      Info.slot_of_lt (by omega) j
    refine ⟨(i, j), ?_, hslot⟩
    rw [hslot]
    exact toNat_ne_zero.2 (hj j (Nat.le_refl j))
  · rintro ⟨⟨i, j⟩, hne, rfl⟩
    obtain ⟨hi, -⟩ := Info.slot_ne_zero hne
    refine ⟨i, Nat.zero_le i, by simpa using hi, ?_, ?_⟩
    · by_contra hlive
      exact hne (h.dead i hi (by simpa using hlive) j)
    · rw [Info.slot_of_lt hi, List.mem_map]
      refine ⟨_, FileEntry.mem_chain_iff.2 ⟨j, rfl, fun k hk => ?_⟩, rfl⟩
      exact (Info.slot_ne_zero (h.contiguous i j k hk hne)).2

theorem ExactTable.marksBusy {info : Info} (h : ExactTable info) :
    MarksBusy info info.usedBlocks := by
  have hbusy : ∀ b, Busy info b ↔ info.usedBlocks b = 1 := fun b => by
    unfold Busy
    rw [h.scanned_iff, h.exact.used_iff]
  exact fun b => ⟨(hbusy b).1, fun hn => (h.binary b).resolve_right fun h1 => hn ((hbusy b).2 h1)⟩

/-- Rewriting an entry without its slots from `cut` on, and releasing what they held. -/
theorem ExactTable.cut {info : Info} (hm : Mounted info) (h : ExactTable info) {i : Nat}
    (hi : i < info.sb.entryCount.toNat) (cut : Nat) {fe : FileEntry} (bs : List UInt32)
    (hfe : ∀ j, fe.block j = if j < cut then (info.entry i).block j else 0)
    (hbs : ∀ b, b ∈ bs ↔ b ≠ 0 ∧ ∃ j, cut ≤ j ∧ (info.entry i).block j = b)
    (hlive : fe.live = false → ∀ j, fe.block j = 0) :
    ExactTable ((info.setUsed (clear info.usedBlocks bs)).setEntry i fe) := by
  have hslot := (hm.setUsed (clear info.usedBlocks bs)).slot_setEntry hi fe
  simp only [Info.slot_setUsed] at hslot
  have hown : ∀ j, info.slot (i, j) = ((info.entry i).block j).toNat := Info.slot_of_lt hi
  -- slots of other entries and slots before the cut stay, the others are dropped
  have hcases : ∀ p, (¬ (i = p.1 ∧ cut ≤ p.2) ∧
      ((info.setUsed (clear info.usedBlocks bs)).setEntry i fe).slot p = info.slot p) ∨
      (i = p.1 ∧ cut ≤ p.2 ∧
        ((info.setUsed (clear info.usedBlocks bs)).setEntry i fe).slot p = 0) := by
    intro p
    rw [(hm.setUsed (clear info.usedBlocks bs)).slot_cut hi hfe]
    by_cases hp : i = p.1 ∧ cut ≤ p.2
    · exact .inr ⟨hp.1, hp.2, if_pos hp⟩
    · exact .inl ⟨hp, if_neg hp⟩
  refine ⟨?_, fun b => ?_, fun i' j k hkj hne => ?_, fun i' hi' hdead j => ?_⟩
  · refine h.exact.drop (fun p => (hcases p).imp And.right fun hp => hp.2.2) fun b => ?_
    refine clear_eq_one_iff.trans (and_congr_right fun _ => ?_)
    constructor
    · intro hmem p hp hpb
      rcases hcases p with ⟨-, he⟩ | ⟨hpi, hcut, -⟩
      · rw [he]
        exact hp
      · -- a dropped slot was among the released ones
        refine absurd (List.mem_map.2 ⟨(info.entry p.1).block p.2, ?_, ?_⟩) hmem
        · obtain ⟨-, hb0⟩ := Info.slot_ne_zero hp
          subst hpi
          exact (hbs _).2 ⟨hb0, _, hcut, rfl⟩
        · subst hpi
          rw [← hpb, ← hown]
    · intro hkept hmem
      obtain ⟨c, hc, rfl⟩ := List.mem_map.1 hmem
      obtain ⟨hc0, j, hj, rfl⟩ := (hbs c).1 hc
      have hne : info.slot (i, j) ≠ 0 := by rw [hown]; exact toNat_ne_zero.2 hc0
      rcases hcases (i, j) with ⟨hn, -⟩ | ⟨-, -, he⟩
      · exact hn ⟨rfl, hj⟩
      · exact hkept (i, j) hne (hown j) he
  · change clear info.usedBlocks bs b = 0 ∨ clear info.usedBlocks bs b = 1
    unfold clear
    split
    · exact .inl rfl
    · exact h.binary b
  · rcases hcases (i', j) with ⟨hnj, hej⟩ | ⟨-, -, hej⟩
    · rcases hcases (i', k) with ⟨-, hek⟩ | ⟨hi', hk, -⟩
      · rw [hek]
        exact h.contiguous i' j k hkj (hej ▸ hne)
      · exact absurd ⟨hi', by simp only at hk ⊢; omega⟩ hnj
    · exact absurd hej hne
  · have hentry := (hm.setUsed (clear info.usedBlocks bs)).entry_setEntry hi hi' fe
    rw [hentry] at hdead
    rw [hslot]
    simp only
    split
    · next hii =>
      rw [if_pos hii] at hdead
      rw [hlive hdead]
      rfl
    · next hii =>
      rw [if_neg hii] at hdead
      exact h.dead i' hi' hdead j

/-- Filling the first empty slot of a live entry with a block that was free. -/
theorem ExactTable.fill {info : Info} (hm : Mounted info) (h : ExactTable info)
    (hpos : 0 < info.sb.dataBlockStart.toNat) {i iblock b : Nat}
    (hi : i < info.sb.entryCount.toNat) (h9 : iblock < 9) (hlive : (info.entry i).live = true)
    (hempty : (info.entry i).block iblock = 0) (hfree : info.freeBlock = some b)
    (horder : ∀ j < iblock, (info.entry i).block j ≠ 0) :
    ExactTable ((info.setUsed (Function.update info.usedBlocks b 1)).setEntry i
      ((info.entry i).setBlock iblock (.ofInt b))) := by
  obtain ⟨hb1, hb2, hb0⟩ := Info.freeBlock_eq_some hfree
  have hown : ∀ j, info.slot (i, j) = ((info.entry i).block j).toNat := Info.slot_of_lt hi
  have hslot : ∀ p, ((info.setUsed (Function.update info.usedBlocks b 1)).setEntry i
      ((info.entry i).setBlock iblock (.ofInt b))).slot p =
      if p = (i, iblock) then b else info.slot p := by
    intro p
    have hp := (hm.setUsed (Function.update info.usedBlocks b 1)).slot_setBlock hi h9 (.ofInt b) p
    rwa [Info.toNat_freeBlock hfree] at hp
  have hempty' : info.slot (i, iblock) = 0 := by rw [hown, hempty]; rfl
  refine ⟨?_, fun c => ?_, fun i' j k hkj hne => ?_, fun i' hi' hdead j => ?_⟩
  · refine h.exact.assign (p := (i, iblock)) (b := b) ⟨hb1, hb2⟩ (by simp [hb0]) (by omega) hempty'
      (by rw [hslot, if_pos rfl]) (fun p hp => by rw [hslot, if_neg hp]) fun c => ?_
    change Function.update info.usedBlocks b 1 c = 1 ↔ _
    by_cases e : c = b <;> simp [e]
  · change Function.update info.usedBlocks b 1 c = 0 ∨ Function.update info.usedBlocks b 1 c = 1
    by_cases e : c = b
    · simp [e]
    · simpa [e] using h.binary c
  · rw [hslot] at hne ⊢
    split
    · omega
    · next hk =>
      split at hne
      · next hj =>
        obtain ⟨rfl, rfl⟩ := Prod.mk.inj hj
        rw [hown]
        exact toNat_ne_zero.2 (horder k (by
          have : k ≠ j := fun e => hk (by rw [e])
          omega))
      · exact h.contiguous i' j k hkj hne
  · have hentry := (hm.setUsed (Function.update info.usedBlocks b 1)).entry_setEntry hi hi'
      ((info.entry i).setBlock iblock (.ofInt b))
    rw [hentry] at hdead
    split at hdead
    · rw [FileEntry.live_setBlock, hlive] at hdead
      cases hdead
    · next hii =>
      rw [hslot, if_neg fun e => hii (Prod.mk.inj e).1.symm]
      exact h.dead i' hi' hdead j

/-! ## One step -/

/-- The super block is on the device, in front of the table, and describes a nonempty prefix. -/
structure SbOnDisk (sb : SuperBlock) (info : Info) : Prop where
  sb_eq : info.sb = sb
  onDisk : SuperBlock.ofMem info.dev.data = sb
  type_eq : sb.type = simulaFsType
  before_table : ∀ i : Nat, i < sb.entryCount.toNat → 32 ≤ (entryAddr sb i).toNat
  data_pos : 0 < sb.dataBlockStart.toNat

theorem SbOnDisk.setEntry {sb : SuperBlock} {info : Info} (h : SbOnDisk sb info) {i : Nat}
    (hi : i < info.sb.entryCount.toNat) (fe : FileEntry) : SbOnDisk sb (info.setEntry i fe) := by
  refine ⟨h.sb_eq, ?_, h.type_eq, h.before_table, h.data_pos⟩
  have haddr := h.before_table i (by rw [← h.sb_eq]; exact hi)
  rw [← h.onDisk]
  apply SuperBlock.ofMem_congr
  intro k hk
  rw [← h.sb_eq] at haddr
  exact Mem.store_of_not_mem (by omega)

theorem SbOnDisk.congr {sb : SuperBlock} {info info' : Info} (h : SbOnDisk sb info)
    (hsb : info'.sb = info.sb) (hdata : info'.dev.data = info.dev.data) : SbOnDisk sb info' :=
  ⟨hsb.trans h.sb_eq, by rw [hdata]; exact h.onDisk, h.type_eq, h.before_table, h.data_pos⟩

theorem SbOnDisk.exec {sb : SuperBlock} {info : Info} (hm : Plain info) (h : SbOnDisk sb info)
    {op : Op} (hv : op.Valid info.sb) : SbOnDisk sb (op.exec info) := by
  have hticks : ∀ k, SbOnDisk sb (info.ticks k) := fun k => h.congr rfl rfl
  have hused : ∀ k used, SbOnDisk sb ((info.ticks k).setUsed used) := fun k used => h.congr rfl rfl
  obtain ⟨k, he | ⟨_, _, _, i, -, hfree, he⟩ | ⟨_, i, -, hfind, he⟩ |
    ⟨ino, _, _, _, _, _, rfl, -, -, he⟩ | ⟨ino, _, _, rfl, -, -, -, he⟩⟩ :=
    op.exec_cases hm <;> rw [he]
  · exact hticks k
  · exact (hticks k).setEntry (Info.freeEntry_eq_some hfree).1 _
  · exact (hused k _).setEntry (Info.find_eq_some hfind).1 _
  · obtain ⟨i, hi, hidx⟩ := hv.1.index
    rw [hidx]
    exact (hused k _).setEntry hi _
  · obtain ⟨i, hi, hidx⟩ := InTable.index hv
    rw [hidx]
    exact (hused k _).setEntry hi _

/-- What a mount of the current image gives. -/
theorem SbOnDisk.initBrowsing_eq {sb : SuperBlock} {info : Info} (hm : Plain info)
    (h : SbOnDisk sb info) : (initBrowsing true info).1 = 0 ∧
      MarksBusy info (initBrowsing true info).2.usedBlocks := by
  have hsize : sb.blockSize = 512 := by rw [← h.sb_eq]; exact hm.sbBlockSize
  obtain ⟨k, used, hbusy, hrun⟩ := Sfs.initBrowsing_eq hm.blocks512 h.onDisk hsize true
  rw [if_neg (by simp [h.type_eq]), if_neg (by simp)] at hrun
  rw [hrun]
  refine ⟨rfl, ?_⟩
  have hself : { info with sb := sb } = info := by rw [← h.sb_eq]
  rw [hself] at hbusy
  exact hbusy

/-- The invariant of runs that leave no gaps. -/
structure ExactVolume (sb : SuperBlock) (info : Info) : Prop extends
    Mounted info, SbOnDisk sb info, ExactTable info

theorem ExactVolume.remountAgrees {sb : SuperBlock} {info : Info} (h : ExactVolume sb info) :
    RemountAgrees info := by
  obtain ⟨hok, hbusy⟩ := h.toSbOnDisk.initBrowsing_eq h.toPlain
  exact ⟨hok, fun b _ => by rw [hbusy.unique h.toExactTable.marksBusy]⟩

/-- **One step.** An operation that fills slots in order keeps the table exact. -/
theorem ExactVolume.exec {sb : SuperBlock} {info : Info} (h : ExactVolume sb info) {op : Op}
    (hlive : op.OnLive info) (horder : op.FillsInOrder info) : ExactVolume sb (op.exec info) := by
  refine ⟨op.exec_mounted h.toMounted, h.toSbOnDisk.exec h.toPlain hlive.1, ?_⟩
  have hticks : ∀ k, ExactTable (info.ticks k) := fun _ =>
    ⟨h.exact, h.binary, h.contiguous, h.dead⟩
  obtain ⟨k, he | ⟨fn, perms, now, i, rfl, hfree, he⟩ | ⟨fn, i, rfl, hfind, he⟩ |
    ⟨ino, size, ts, perms, _, cut, rfl, rfl, -, he⟩ | ⟨ino, iblock, b, rfl, h9, hslot, hfree, he⟩⟩
    := op.exec_cases h.toPlain <;> rw [he]
  · exact hticks k
  · -- a free entry holds nothing, so nothing is dropped
    obtain ⟨hi, hdead⟩ := Info.freeEntry_eq_some hfree
    have hzero : ∀ j, (info.entry i).block j = 0 := fun j => by
      have := h.dead i hi hdead j
      rwa [Info.slot_of_lt hi, ← UInt32.toNat_zero, UInt32.toNat_inj] at this
    have hcut : ExactTable (((info.ticks k).setUsed (clear (info.ticks k).usedBlocks [])).setEntry i
        ((info.entry i).created fn perms now)) :=
      (hticks k).cut (h.toMounted.ticks k) hi 0 [] (by simp) (by simp [hzero, eq_comm]) (by simp)
    rwa [clear_nil, Info.setUsed_self] at hcut
  · -- the chain of a file without gaps is all of its blocks
    obtain ⟨hi, -⟩ := Info.find_eq_some hfind
    refine (hticks k).cut (h.toMounted.ticks k) hi 0 _ (by simp) (fun b => ?_) (by simp)
    rw [FileEntry.mem_chain_iff]
    constructor
    · rintro ⟨j, rfl, hj⟩
      exact ⟨hj j (Nat.le_refl j), j, Nat.zero_le j, rfl⟩
    · rintro ⟨hb, j, -, rfl⟩
      refine ⟨j, rfl, fun l hl => ?_⟩
      have hne : info.slot (i, j) ≠ 0 := by rw [Info.slot_of_lt hi]; exact toNat_ne_zero.2 hb
      exact (Info.slot_ne_zero (h.contiguous i j l hl hne)).2
  · obtain ⟨i, hi, hidx⟩ := hlive.1.1.index
    have hl := hlive.2
    simp only [hidx] at hl
    rw [hidx]
    refine (hticks k).cut (h.toMounted.ticks k) hi cut _ (by simp) (fun b => ?_) ?_
    · rw [FileEntry.mem_tail]
      refine and_congr_right fun hb => ⟨?_, ?_⟩
      · rintro ⟨j, hj, -, rfl⟩
        exact ⟨j, hj, rfl⟩
      · rintro ⟨j, hj, rfl⟩
        refine ⟨j, hj, ?_, rfl⟩
        by_contra h9
        exact hb (FileEntry.block_of_le (by omega))
    · intro hdead
      have : (info.entry i).live = false := hdead
      rw [hl] at this
      cases this
  · obtain ⟨i, hi, hidx⟩ := InTable.index hlive.1
    have hl := hlive.2
    simp only [hidx] at hl
    have hord := horder h9 hslot (by rw [hfree]; simp)
    rw [hidx] at hslot hord ⊢
    exact (hticks k).fill (h.toMounted.ticks k) (by rw [Info.sb_ticks, h.sb_eq]; exact h.data_pos)
      hi h9 hl hslot hfree hord

/-- An allocation behind a gap marks a block that the next mount leaves free. -/
theorem ExactVolume.not_remountAgrees {sb : SuperBlock} {info : Info} (h : ExactVolume sb info)
    {op : Op} (hlive : op.OnLive info) (horder : ¬ op.FillsInOrder info) :
    ¬ RemountAgrees (op.exec info) := by
  cases op with
  | create | lookup | remove | update => exact absurd trivial horder
  | getBlock ino iblock cr =>
    cases cr with
    | false => exact absurd trivial horder
    | true =>
    simp only [Op.FillsInOrder, not_forall, not_not] at horder
    obtain ⟨h9, hslot, hfree, g, hg, hgap⟩ := horder
    obtain ⟨b, hb⟩ := Option.ne_none_iff_exists'.1 hfree
    obtain ⟨i, hi, hidx⟩ := InTable.index hlive.1
    obtain ⟨k, hk⟩ := sfsGetBlock_eq h.toPlain ino iblock true
    rw [hidx] at hslot hgap
    simp only [hidx, Nat.not_le.2 h9, hslot, hb, ↓reduceIte, ne_eq, not_true_eq_false,
      Bool.true_eq_false] at hk
    have hexec : (Op.getBlock ino iblock true).exec info =
        ((info.ticks k).setUsed (Function.update info.usedBlocks b 1)).setEntry i
          ((info.entry i).setBlock iblock (.ofInt b)) := by
      simp only [Op.exec, hk]
    obtain ⟨-, hmarks⟩ :=
      (h.toSbOnDisk.exec h.toPlain hlive.1).initBrowsing_eq (Op.exec_mounted h.toMounted _).toPlain
    have hm : Mounted ((info.ticks k).setUsed (Function.update info.usedBlocks b 1)) :=
      (h.toMounted.ticks k).setUsed _
    obtain ⟨hb1, hb2, hb0⟩ := Info.freeBlock_eq_some hb
    rintro ⟨-, hagree⟩
    rw [hexec] at hmarks hagree
    -- the new block is marked in memory, but lies on no chain
    have hbusy : ¬ Busy (((info.ticks k).setUsed (Function.update info.usedBlocks b 1)).setEntry i
        ((info.entry i).setBlock iblock (.ofInt b))) b := by
      have hnone : ∀ p, info.slot p ≠ 0 → info.slot p ≠ b := fun p hp hpb => by
        have := h.exact.marked p hp
        rw [hpb, hb0] at this
        cases this
      rintro (hlt | ⟨i', -, hi', -, hmem⟩)
      · exact Nat.not_le.2 hlt hb1
      · obtain ⟨c, hc, hcb⟩ := List.mem_map.1 hmem
        obtain ⟨j, hj, hchain⟩ := FileEntry.mem_chain_iff.1 hc
        have hcount : i' < info.sb.entryCount.toNat := by simpa using hi'
        have hentry := hm.entry_setEntry hi hcount ((info.entry i).setBlock iblock (.ofInt b))
        rw [hentry] at hj hchain
        have hpos := h.data_pos
        rw [← h.sb_eq] at hpos
        by_cases hii : i = i'
        · simp only [hii, ↓reduceIte, FileEntry.block_setBlock] at hj hchain
          subst hii
          by_cases hjb : iblock = j
          · have := hchain g (by omega)
            simp only [show ¬ iblock = g by omega, false_and, ↓reduceIte] at this
            exact this hgap
          · simp only [hjb, false_and, ↓reduceIte] at hj
            refine hnone (i, j) ?_ ?_ <;> rw [Info.slot_of_lt hi, hj] <;> omega
        · simp only [hii, ↓reduceIte] at hj
          refine hnone (i', j) ?_ ?_ <;> rw [Info.slot_of_lt hcount] <;>
            simp only [Info.entry_setUsed, Info.entry_ticks] at hj <;> rw [hj] <;> omega
    have h0 := (hmarks b).2 hbusy
    have h1 := hagree b hb2
    rw [h0] at h1
    simp at h1

/-! ## Runs -/

theorem exactVolume_format {info₀ : Info} {disk stack : Mem} {size : Nat} (h : Blocks512 info₀)
    (hdata : info₀.dev.data = formatRealSfs disk size stack) (h1 : 1 ≤ size / 512)
    (h2 : size / 512 < 2 ^ 31) : ExactVolume (formatSb size) (initBrowsing true info₀).2 := by
  obtain ⟨f1, f2, f3, f4, f5⟩ := formatSb_fields h2
  obtain ⟨hsb, hempty⟩ := mountedEmpty_format disk stack h hdata h1 h2
  obtain ⟨k, used, hbusy, hrun⟩ := initBrowsing_eq h (by rw [hdata, formatRealSfs_sb]) rfl true
  rw [if_neg (by simp [formatSb]), if_neg (by simp)] at hrun
  have hslot : ∀ p, (initBrowsing true info₀).2.slot p = 0 := by
    rintro ⟨i, j⟩
    by_cases hi : i < (initBrowsing true info₀).2.sb.entryCount.toNat
    · rw [Info.slot_of_lt hi, hempty.table_empty i hi, FileEntry.block_zero]
      rfl
    · simp only [Info.slot, hi, ↓reduceIte]
  obtain ⟨vmallocOk, info₁, hdev, hmount⟩ := hempty.mounted
  obtain ⟨-, hdisk, htype, hmarks⟩ := mounted_of_initBrowsing hdev hmount hempty.blockSize
  have hscan : ∀ b, ¬ Scanned (initBrowsing true info₀).2
      (initBrowsing true info₀).2.sb.entryCount.toNat 0 b := by
    rintro b ⟨i, -, hi, hlive, -⟩
    rw [hempty.table_empty i (by omega), FileEntry.live_zero] at hlive
    cases hlive
  refine ⟨hempty.toMounted, ⟨hsb, hdisk.symm.trans hsb, rfl, fun i hi => ?_, by omega⟩,
    ⟨⟨hempty.soundTable, fun b h1 h2 => ?_, fun b hb => ?_, fun b hb => ?_⟩, fun b => ?_,
      fun i j k _ hne => absurd (hslot _) hne, fun i _ _ j => hslot _⟩⟩
  · have haddr := toNat_entryAddr (rfl : (formatSb size).blockSize = 512) i
    have hstart : (formatSb size).entryTableBlockStart.toNat = 1 := rfl
    omega
  · omega
  · exact (hmarks b).1 (.inl hb)
  · by_contra hn
    have h0 := (hmarks b).2 fun hbusy => hn (.inl (hbusy.resolve_right (hscan b)))
    rw [h0] at hb
    cases hb
  · by_cases hb : Busy (initBrowsing true info₀).2 b
    · exact .inr ((hmarks b).1 hb)
    · exact .inl ((hmarks b).2 hb)

/-- **Remounting.** On a freshly formatted and mounted volume, the array in memory agrees with the
one a mount would build in every state of a run exactly when every allocation of the run fills the
first empty slot of its file. -/
theorem remountAgrees_run_iff {info₀ : Info} (disk stack : Mem) (size : Nat) (h : Blocks512 info₀)
    (hdata : info₀.dev.data = formatRealSfs disk size stack) (h1 : 1 ≤ size / 512)
    (h2 : size / 512 < 2 ^ 31) {ops : List Op}
    (hlive : Along Op.exec (fun s op => op.OnLive s) (initBrowsing true info₀).2 ops) :
    (∀ pre, pre <+: ops → RemountAgrees (run Op.exec (initBrowsing true info₀).2 pre)) ↔
      Along Op.exec (fun s op => op.FillsInOrder s) (initBrowsing true info₀).2 ops :=
  Along.safe_iff (I := ExactVolume (formatSb size)) (fun _ hs => hs.remountAgrees)
    (fun _ _ hs hop horder => hs.exec hop horder)
    (fun _ _ hs hop horder => hs.not_remountAgrees hop horder)
    (exactVolume_format h hdata h1 h2) hlive

/-- A file is written in order and removed on a ten-block volume. -/
theorem remountAgrees_run_iff_blank :
    let ops : List Op := [.create ⟨[97], by decide⟩ 6 0, .getBlock 2 0 true, .getBlock 2 1 true,
      .update 2 100 none none, .remove ⟨[97], by decide⟩]
    ∀ pre, pre <+: ops → RemountAgrees (run Op.exec (initBrowsing true (blank 5120)).2 pre) := by
  exact (remountAgrees_run_iff (fun _ => 0) (fun _ => 0) 5120 ⟨fun _ => rfl, rfl, rfl⟩ rfl
    (by decide) (by decide) (by decide +kernel)).2 (by decide +kernel)

/-- The second block of a new file is written first: the next mount leaves that block free. -/
theorem not_remountAgrees_sparse :
    let ops : List Op := [.create ⟨[97], by decide⟩ 6 0, .getBlock 2 1 true]
    Along Op.exec (fun s op => op.OnLive s) (formatted 5120) ops ∧
      ¬ RemountAgrees (run Op.exec (formatted 5120) ops) := by
  decide +kernel

end LinuxDrivers.Sfs
