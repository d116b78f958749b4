import LinuxDrivers.Lib.Run
import LinuxDrivers.Shell.BrowseSpec

/-!
# Driver and shell implement one format

The driver reads blocks through buffer heads and translates offsets, the shell seeks in a file.
Mounted on one image both build the same array, and lookups, removes and allocations keep image and
array equal, whatever the image holds: duplicate names and gaps included.
-/

namespace LinuxDrivers.Shell

open Sfs (SuperBlock FileEntry Info Plain Blocks512 simulaFsType invInode s2vInodeNum clear)

/-- A super block that both programs can work with. -/
structure SharedFormat (sb : SuperBlock) : Prop where
  blockSize : sb.blockSize = 512
  entrySize : sb.entrySize = 64
  partition_lt : sb.partitionSize.toNat < 2 ^ 23
  data_le : sb.dataBlockStart.toNat ≤ sb.partitionSize.toNat
  table_le : sb.entryTableBlockStart.toNat * 512 + sb.entryCount.toNat * 64 ≤
    sb.partitionSize.toNat * 512

theorem SharedFormat.layout {sb : SuperBlock} (h : SharedFormat sb) : Layout sb := by
  refine ⟨h.blockSize, h.entrySize, ?_⟩
  have h1 := h.partition_lt
  have h2 := h.table_le
  omega

/-- Both hold the same super block, image and array. -/
structure Agree (info : Info) (s : State) : Prop where
  sb_eq : info.sb = s.sb
  data_eq : info.dev.data = s.fd.data
  used_eq : info.usedBlocks = s.usedBlocks

/-- What both programs can be asked to do. -/
inductive SharedOp where
  | lookup (fn : CStr)
  | remove (fn : CStr)
  | alloc

namespace SharedOp

def exec (p : Info × State) : SharedOp → Info × State
  | .lookup fn => ((Sfs.sfsLookup p.1 fn .zero).2, (sfsLookup p.2 fn .zero).2)
  | .remove fn => ((Sfs.sfsRemove p.1 fn).2, sfsRemove p.2 fn)
  | .alloc => ((Sfs.sfsGetDataBlock p.1).2, (getDataBlock p.2).2)

/-- The answers match: entry `i` is inode `i + 2` of the driver. -/
def Matches (p : Info × State) : SharedOp → Prop
  | .lookup fn => ∀ fe, let vfsIno := (Sfs.sfsLookup p.1 fn fe).1.1
    let i := (sfsLookup p.2 fn fe).1.1
    (∀ j : Nat, vfsIno = j + 2 ↔ i = j) ∧ (vfsIno = invInode ↔ i = -1)
  | .remove _ => True
  | .alloc => (Sfs.sfsGetDataBlock p.1).1 = (getDataBlock p.2).1

end SharedOp

namespace Agree

variable {info : Info} {s : State}

theorem entry_eq (h : Agree info s) (i : Int) : info.entry i = s.info.entry i := by
  unfold Info.entry
  rw [h.sb_eq, h.data_eq]
  rfl

theorem find_eq (h : Agree info s) (fn : CStr) : info.find fn = s.info.find fn := by
  unfold Info.find
  simp only [h.entry_eq, h.sb_eq]
  rfl

theorem freeBlock_eq (h : Agree info s) : info.freeBlock = s.info.freeBlock := by
  unfold Info.freeBlock
  rw [h.sb_eq, h.used_eq]
  rfl

/-- Agreement with the volume of the shell is agreement with the shell. -/
theorem of_info {info' info'' : Info} {s' : State} (hinfo : s'.info = info'')
    (hsb : info'.sb = info''.sb) (hdata : info'.dev.data = info''.dev.data)
    (hused : info'.usedBlocks = info''.usedBlocks) : Agree info' s' := by
  subst hinfo
  exact ⟨hsb, hdata, hused⟩

theorem lookup (h : Agree info s) (hp : Plain info) (hl : Layout s.sb) (fn : CStr) :
    Agree (Sfs.sfsLookup info fn .zero).2 (sfsLookup s fn .zero).2 ∧
      (SharedOp.lookup fn).Matches (info, s) := by
  constructor
  · obtain ⟨k, fe', hk⟩ := Sfs.sfsLookup_eq hp fn .zero
    obtain ⟨pos, fe'', hs⟩ := sfsLookup_eq hl fn .zero
    rw [hk, hs]
    exact ⟨h.sb_eq, h.data_eq, h.used_eq⟩
  · intro fe
    obtain ⟨k, fe', hk⟩ := Sfs.sfsLookup_eq hp fn fe
    obtain ⟨pos, fe'', hs⟩ := sfsLookup_eq hl fn fe
    simp only [hk, hs, h.find_eq]
    cases s.info.find fn with
    | none =>
      simp only [invInode]
      exact ⟨fun j => ⟨fun e => by omega, fun e => by omega⟩, trivial⟩
    | some i =>
      simp only [invInode, s2vInodeNum, Sfs.rootInodeNum]
      exact ⟨fun j => ⟨fun e => by omega, fun e => by omega⟩, fun e => by omega, fun e => by omega⟩

theorem remove (h : Agree info s) (hp : Plain info) (hl : Layout s.sb) (fn : CStr) :
    Agree (Sfs.sfsRemove info fn).2 (sfsRemove s fn) := by
  obtain ⟨k, hk⟩ := Sfs.sfsRemove_eq hp fn
  have hs := sfsRemove_eq hl fn
  rw [hk, h.find_eq]
  cases hfind : s.info.find fn with
  | none =>
    rw [hfind] at hs
    exact of_info hs.1 h.sb_eq h.data_eq h.used_eq
  | some i =>
    rw [hfind] at hs
    simp only [h.entry_eq]
    refine of_info hs.1 h.sb_eq ?_ ?_
    · unfold Info.setEntry Info.setUsed Info.ticks
      simp only [h.sb_eq, h.data_eq]
      rfl
    · simp only [Info.usedBlocks_setEntry, Info.usedBlocks_setUsed, h.used_eq]

theorem alloc (h : Agree info s) :
    Agree (Sfs.sfsGetDataBlock info).2 (getDataBlock s).2 ∧
      (Sfs.sfsGetDataBlock info).1 = (getDataBlock s).1 := by
  rw [Sfs.sfsGetDataBlock_eq, getDataBlock_eq, h.freeBlock_eq]
  cases s.info.freeBlock with
  | none => exact ⟨h, rfl⟩
  | some b =>
    refine ⟨⟨h.sb_eq, h.data_eq, ?_⟩, rfl⟩
    simp only [Info.usedBlocks_setUsed, h.used_eq]

end Agree

/-! ## Mounting -/

/-- Both refuse a wrong magic number; otherwise both come up with the same array. -/
theorem mount_agree {sb : SuperBlock} (hf : SharedFormat sb) {info₀ : Info} (h : Blocks512 info₀)
    (hsb : SuperBlock.ofMem info₀.dev.data = sb) :
    (sb.type ≠ simulaFsType →
      (Sfs.initBrowsing true info₀).1 ≠ 0 ∧ start true info₀.dev.data = none) ∧
    (sb.type = simulaFsType → ∃ info s, Sfs.initBrowsing true info₀ = (0, info) ∧
      start true info₀.dev.data = some s ∧ Plain info ∧ info.sb = sb ∧ Agree info s) := by
  obtain ⟨k, used, hbusy, hrun⟩ := Sfs.initBrowsing_eq h hsb hf.blockSize true
  have hread : SuperBlock.ofMem (info₀.dev.data.window 0) = sb := by
    rw [← hsb]
    apply SuperBlock.ofMem_congr
    intro j _
    simp
  unfold start Fd.read
  simp only [hread]
  constructor
  · intro htype
    rw [if_pos htype] at hrun
    rw [hrun, if_pos htype]
    exact ⟨by simp [EINVAL], rfl⟩
  · intro htype
    rw [if_neg (not_not.2 htype), if_neg (by simp)] at hrun
    rw [hrun, if_neg (not_not.2 htype)]
    obtain ⟨pos, used', hbusy', hstart⟩ := initBrowsing_eq
      (s := ⟨⟨info₀.dev.data, 0 + 512⟩, sb, fun _ => 0, fun _ => 0, []⟩) hf.layout
    have hused : used = used' := hbusy.unique hbusy'
    refine ⟨_, _, rfl, hstart, ⟨h.reliable, h.blocksize, h.bdBlockSize, hf.blockSize⟩, rfl,
      rfl, rfl, ?_⟩
    simp only [Info.usedBlocks_setUsed, hused]

/-! ## Runs -/

/-- **One step.** Every shared operation gives matching answers and keeps the agreement. -/
theorem SharedOp.exec_agree {sb : SuperBlock} (hf : SharedFormat sb) {p : Info × State}
    (h : Plain p.1 ∧ p.1.sb = sb ∧ Agree p.1 p.2) (op : SharedOp) :
    op.Matches p ∧ Plain (op.exec p).1 ∧ (op.exec p).1.sb = sb ∧
      Agree (op.exec p).1 (op.exec p).2 := by
  obtain ⟨hp, hsb, hagree⟩ := h
  have hl : Layout p.2.sb := by
    rw [← hagree.sb_eq, hsb]
    exact hf.layout
  cases op with
  | lookup fn =>
    obtain ⟨hnext, hmatch⟩ := hagree.lookup hp hl fn
    refine ⟨hmatch, ?_⟩
    obtain ⟨k, fe', hk⟩ := Sfs.sfsLookup_eq hp fn .zero
    simp only [exec]
    rw [hk] at hnext ⊢
    exact ⟨hp.ticks k, hsb, hnext⟩
  | remove fn =>
    have hnext := hagree.remove hp hl fn
    refine ⟨trivial, ?_⟩
    obtain ⟨k, hk⟩ := Sfs.sfsRemove_eq hp fn
    simp only [exec]
    rw [hk] at hnext ⊢
    cases hfind : p.1.find fn with
    | none =>
      rw [hfind] at hnext
      exact ⟨hp.ticks k, hsb, hnext⟩
    | some i =>
      rw [hfind] at hnext
      exact ⟨((hp.ticks k).setUsed _).setEntry _ _, hsb, hnext⟩
  | alloc =>
    obtain ⟨hnext, hmatch⟩ := hagree.alloc
    refine ⟨hmatch, ?_⟩
    simp only [exec]
    rw [Sfs.sfsGetDataBlock_eq] at hnext ⊢
    cases hfree : p.1.freeBlock with
    | none =>
      rw [hfree] at hnext
      exact ⟨hp, hsb, hnext⟩
    | some b =>
      rw [hfree] at hnext
      exact ⟨hp.setUsed _, hsb, hnext⟩

/-- **Agreement.** On an image that both can work with, driver and shell build the same array; and
from equal images and arrays every sequence of lookups, removes and allocations gives matching
answers and keeps images and arrays equal. -/
theorem driver_shell_agree {sb : SuperBlock} (hf : SharedFormat sb) :
    (∀ info₀ : Info, Blocks512 info₀ → SuperBlock.ofMem info₀.dev.data = sb →
      (sb.type ≠ simulaFsType →
        (Sfs.initBrowsing true info₀).1 ≠ 0 ∧ start true info₀.dev.data = none) ∧
      (sb.type = simulaFsType → ∃ info s, Sfs.initBrowsing true info₀ = (0, info) ∧
        start true info₀.dev.data = some s ∧ Plain info ∧ info.sb = sb ∧ Agree info s)) ∧
    ∀ (info : Info) (s : State), Plain info → info.sb = sb → Agree info s →
      ∀ ops : List SharedOp,
        Along SharedOp.exec (fun p op => op.Matches p) (info, s) ops ∧
        Agree (run SharedOp.exec (info, s) ops).1 (run SharedOp.exec (info, s) ops).2 := by
  refine ⟨fun info₀ h hsb => mount_agree hf h hsb, fun info s hp hsb hagree ops => ?_⟩
  have hstep : ∀ (p : Info × State) (op : SharedOp), Plain p.1 ∧ p.1.sb = sb ∧ Agree p.1 p.2 →
      Plain (op.exec p).1 ∧ (op.exec p).1.sb = sb ∧ Agree (op.exec p).1 (op.exec p).2 :=
    fun p op h => (op.exec_agree hf h).2
  have hstart : Plain (info, s).1 ∧ (info, s).1.sb = sb ∧ Agree (info, s).1 (info, s).2 :=
    ⟨hp, hsb, hagree⟩
  refine ⟨along_of_invariant hstep (fun p op h => (op.exec_agree hf h).1) hstart ops, ?_⟩
  have hall : Along SharedOp.exec (fun _ _ => True) (info, s) ops :=
    along_of_forall fun _ _ => trivial
  exact (Along.invariant (fun p op h _ => hstep p op h) hstart hall).2.2

/-- The file name `a`. -/
def nameA : CStr := ⟨[97], by decide⟩

/-- The ten-block volume with the file `a` in its first entry, which has block 5. -/
def namedVolume : Sfs.Info :=
  let fe : FileEntry := { (FileEntry.zero.created nameA 7 0).setBlock 0 5 with size := 512 }
  let dev := (Sfs.blank 5120).dev
  { Sfs.blank 5120 with dev := { dev with data := dev.data.store 512 64 fe.bytes } }

/-- Both programs find the file, remove it and free its block. -/
theorem driver_shell_agree_named : SharedFormat (Sfs.formatSb 5120) ∧
    ∃ info s, Sfs.initBrowsing true namedVolume = (0, info) ∧
      start true namedVolume.dev.data = some s ∧
      Along SharedOp.exec (fun p op => op.Matches p) (info, s)
        [.lookup nameA, .remove nameA, .lookup nameA, .alloc] ∧
      (Sfs.sfsLookup info nameA .zero).1.1 = 2 ∧ info.usedBlocks 5 = 1 ∧
      (Sfs.sfsRemove info nameA).2.usedBlocks 5 = 0 := by
  have hf : SharedFormat (Sfs.formatSb 5120) := ⟨rfl, rfl, by decide, by decide, by decide⟩
  have hsb : SuperBlock.ofMem namedVolume.dev.data = Sfs.formatSb 5120 := by
    rw [← Sfs.formatRealSfs_sb (fun _ => 0) 5120 fun _ => 0]
    exact SuperBlock.ofMem_congr fun k hk => Mem.store_of_not_mem (.inl (by omega))
  obtain ⟨hmount, hrun⟩ := driver_shell_agree hf
  obtain ⟨info, s, hk, hs, hp, hsb', hagree⟩ :=
    (hmount namedVolume ⟨fun _ => rfl, rfl, rfl⟩ hsb).2 rfl
  refine ⟨hf, info, s, hk, hs, (hrun info s hp hsb' hagree _).1, ?_⟩
  have hinfo : (Sfs.initBrowsing true namedVolume).2 = info := congrArg Prod.snd hk
  rw [← hinfo]
  decide +kernel

end LinuxDrivers.Shell
