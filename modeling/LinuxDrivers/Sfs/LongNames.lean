import Mathlib.Data.List.TakeDrop
import LinuxDrivers.Sfs.Directory
import LinuxDrivers.Sfs.Files

/-!
# Long names

The VFS passes names of up to 255 bytes. `sfs_create` keeps the first 15 of them, `sfs_lookup` and
`sfs_remove` compare the whole name: a file created under a longer name is found under that name
neither by the next lookup nor by the removal that should undo its creation.
-/

namespace LinuxDrivers.Sfs

/-- A name as the VFS passes it. -/
def IsVfsName (fn : CStr) : Prop := 1 ≤ fn.bytes.length ∧ fn.bytes.length ≤ 255

/-- The name fits into the name field of an entry. -/
def FitsField (fn : CStr) : Prop := fn.bytes.length ≤ 15

instance (fn : CStr) : Decidable (FitsField fn) := inferInstanceAs (Decidable (_ ≤ _))

theorem FileEntry.named_created {fn : CStr} (h1 : 1 ≤ fn.bytes.length) (fe : FileEntry)
    (perms now : Int) : (fe.created fn perms now).named fn = decide (FitsField fn) := by
  unfold named FitsField
  rw [live_created h1, nameString_created_take, Bool.true_and]
  exact decide_eq_decide.2 (List.take_eq_self_iff _)

/-- Two numbers of one address are one entry, so none in front of the first free entry is that
entry. -/
theorem entryAddr_ne_freeEntry {info : Info} {i j : Nat} (hfree : info.freeEntry = some i)
    (hj : j < i) : entryAddr info.sb i ≠ entryAddr info.sb j := by
  obtain ⟨-, -, hi, hbefore⟩ := findFrom_eq_some hfree
  intro haddr
  have hsame : info.entry i = info.entry j := by
    unfold Info.entry
    rw [haddr]
  have hlive := hbefore j (Nat.zero_le j) hj
  rw [← hsame, hi] at hlive
  cases hlive

/-- The new entry is the one found under its name, when the name fits. -/
theorem find_created {info : Info} (h : Plain info) {fn : CStr} (h1 : 1 ≤ fn.bytes.length)
    (hnone : info.find fn = none) {i : Nat} (hfree : info.freeEntry = some i) (k : Nat)
    (perms now : Int) :
    ((info.ticks k).setEntry i ((info.entry i).created fn perms now)).find fn =
      if FitsField fn then some i else none := by
  have hnamed : ∀ j : Nat, j < info.sb.entryCount.toNat →
      (((info.ticks k).setEntry i ((info.entry i).created fn perms now)).entry j).named fn =
        (decide (FitsField fn) && decide (entryAddr info.sb i = entryAddr info.sb j)) := by
    intro j hj
    rw [Info.entry_setEntry (h.ticks k).sized, Info.sb_ticks, Info.entry_ticks]
    split
    · next haddr => rw [FileEntry.named_created h1, decide_eq_true haddr, Bool.and_true]
    · next haddr =>
      rw [decide_eq_false haddr, Bool.and_false]
      exact findFrom_eq_none.1 hnone j (Nat.zero_le j) (by omega)
  have hi := (Info.freeEntry_eq_some hfree).1
  unfold Info.find
  rw [Info.sb_setEntry, Info.sb_ticks]
  split
  · next hfits =>
    refine findFrom_of_first (Nat.zero_le i) (by omega) ?_ fun j _ hj => ?_
    · rw [hnamed i hi, decide_eq_true hfits, decide_eq_true rfl]
      rfl
    · rw [hnamed j (by omega), decide_eq_false (entryAddr_ne_freeEntry hfree hj), Bool.and_false]
  · next hfits =>
    refine findFrom_eq_none.2 fun j _ hj => ?_
    rw [hnamed j (by omega), decide_eq_false hfits, Bool.false_and]

theorem find_none_of_lookup {info : Info} (h : Plain info) {fn : CStr} {fe : FileEntry}
    (hnew : (sfsLookup info fn fe).1.1 = invInode) : info.find fn = none := by
  obtain ⟨k, fe', hk⟩ := sfsLookup_eq h fn fe
  cases hfind : info.find fn with
  | none => rfl
  | some i =>
    rw [hk, hfind] at hnew
    exact absurd hnew (s2vInodeNum_ne_invInode i)

/-! ## Lookups -/

/-- If a file is created, the next lookup of its name finds it. -/
def FoundAgain (info : Info) (fn : CStr) : Prop :=
  ∀ perms now fe fe', let r := sfsCreate info fn perms now fe
    r.1.1 ≠ invInode → (sfsLookup r.2 fn fe').1.1 = r.1.1

/-- **Created files.** A new file is found under its name exactly when the name has at most 15 bytes
or the table is full, so that there is none. -/
theorem foundAgain_iff {info : Info} (h : Plain info) {fn : CStr} (hfn : IsVfsName fn)
    {fe : FileEntry} (hnew : (sfsLookup info fn fe).1.1 = invInode) :
    FoundAgain info fn ↔ FitsField fn ∨ info.freeEntry = none := by
  have hnone := find_none_of_lookup h hnew
  cases hfree : info.freeEntry with
  | none =>
    refine iff_of_true (fun perms now fe fe' => ?_) (.inr rfl)
    obtain ⟨k, _, hk⟩ := sfsCreate_eq h fn perms now fe
    rw [hfree] at hk
    intro r hne
    exact absurd (congrArg (·.1.1) hk) hne
  | some i =>
    have hlookup : ∀ perms now fe fe', (sfsLookup (sfsCreate info fn perms now fe).2 fn fe').1.1 =
        if FitsField fn then s2vInodeNum i else invInode := by
      intro perms now fe fe'
      obtain ⟨k, _, hk⟩ := sfsCreate_eq h fn perms now fe
      rw [hfree] at hk
      rw [hk]
      obtain ⟨_, _, hl⟩ := sfsLookup_eq ((h.ticks k).setEntry i _) fn fe'
      rw [hl, find_created h hfn.1 hnone hfree]
      by_cases hfits : FitsField fn
      · simp only [if_pos hfits]
      · simp only [if_neg hfits]
    have hino : ∀ perms now fe, (sfsCreate info fn perms now fe).1.1 = s2vInodeNum i := by
      intro perms now fe
      obtain ⟨k, _, hk⟩ := sfsCreate_eq h fn perms now fe
      rw [hk, hfree]
    unfold FoundAgain
    simp only [hlookup, hino, reduceCtorEq, or_false]
    constructor
    · intro hfound
      by_contra hlong
      have hinv := hfound 0 0 .zero .zero (s2vInodeNum_ne_invInode i)
      rw [if_neg hlong] at hinv
      exact s2vInodeNum_ne_invInode i hinv.symm
    · intro hfits _ _ _ _ _
      rw [if_pos hfits]

theorem plain_formatted : Plain (formatted 5120) :=
  (mountedEmpty_formatted 5120 (by decide) (by decide)).2.toMounted.toPlain

/-- A name of 15 bytes. -/
def name15 : CStr := ⟨List.replicate 15 97, by decide⟩

/-- A name of 16 bytes. -/
def name16 : CStr := ⟨List.replicate 16 97, by decide⟩

theorem foundAgain_iff_formatted : FoundAgain (formatted 5120) name15 :=
  (foundAgain_iff plain_formatted ⟨by decide, by decide⟩
    (show (sfsLookup (formatted 5120) name15 .zero).1.1 = invInode by decide +kernel)).2
    (.inl (by decide))

theorem not_foundAgain {info : Info} {fn : CStr} {perms now : Int} {fe fe' : FileEntry}
    (hne : (sfsCreate info fn perms now fe).1.1 ≠ invInode)
    (hinv : (sfsLookup (sfsCreate info fn perms now fe).2 fn fe').1.1 = invInode) :
    ¬ FoundAgain info fn := fun hfound =>
  hne ((hfound perms now fe fe' hne).symm.trans hinv)

/-- Inode 2 gets the name of 16 bytes, and nothing is found under it. -/
theorem not_foundAgain_formatted :
    Plain (formatted 5120) ∧ (sfsLookup (formatted 5120) name16 .zero).1.1 = invInode ∧
      (sfsCreate (formatted 5120) name16 6 0 .zero).1.1 = 2 ∧
      (sfsLookup (sfsCreate (formatted 5120) name16 6 0 .zero).2 name16 .zero).1.1 = invInode ∧
      ¬ FoundAgain (formatted 5120) name16 := by
  have hino : (sfsCreate (formatted 5120) name16 6 0 .zero).1.1 = 2 := by decide +kernel
  have hinv : (sfsLookup (sfsCreate (formatted 5120) name16 6 0 .zero).2 name16 .zero).1.1 =
      invInode := by decide +kernel
  have hne : (sfsCreate (formatted 5120) name16 6 0 .zero).1.1 ≠ invInode := by
    rw [hino]
    decide
  exact ⟨plain_formatted, by decide +kernel, hino, hinv, not_foundAgain hne hinv⟩

/-! ## Rollback -/

/-- A creation that fails leaves the table and `used_blocks` as they were. -/
def RollsBack (fs : Fs) (fn : CStr) (mode : UInt32) (now : Int) (newInodeOk insertOk : Bool) :
    Prop :=
  let r := sfsInodeCreate fs fn mode now newInodeOk insertOk
  ∀ e, r.1 = .error e → SameState r.2.info fs.info

theorem Info.setEntry_self {info : Info} {i : Int} {fe : FileEntry} (hfe : info.entry i = fe) :
    info.setEntry i fe = info := by
  have hdata : info.dev.data.store (entryAddr info.sb i).toNat 64 fe.bytes = info.dev.data := by
    funext x
    by_cases hx : (entryAddr info.sb i).toNat ≤ x ∧ x < (entryAddr info.sb i).toNat + 64
    · obtain ⟨k, rfl⟩ := Nat.exists_eq_add_of_le hx.1
      rw [Mem.store_window (by omega), ← hfe]
      exact FileEntry.bytes_ofMem _ (by omega)
    · exact Mem.store_of_not_mem (by omega)
  unfold setEntry
  rw [hdata]

theorem FileEntry.chain_created (fe : FileEntry) (fn : CStr) (perms now : Int) :
    (fe.created fn perms now).chain = [] := by
  refine List.eq_nil_iff_forall_not_mem.2 fun b hb => ?_
  obtain ⟨hne, j, -, rfl⟩ := mem_chain hb
  exact hne (block_created fe fn perms now j)

/-- Removing the entry just created leaves the table as it was, when the entry was zero before. -/
theorem remove_created {info : Info} (h : Plain info) {fn : CStr} (h1 : 1 ≤ fn.bytes.length)
    (hnone : info.find fn = none) {i : Nat} (hfree : info.freeEntry = some i)
    (hzero : info.entry i = .zero) (k : Nat) (perms now : Int) :
    SameState (sfsRemove ((info.ticks k).setEntry i ((info.entry i).created fn perms now)) fn).2
      info ↔ FitsField fn := by
  obtain ⟨l, hl⟩ := sfsRemove_eq ((h.ticks k).setEntry i ((info.entry i).created fn perms now)) fn
  rw [hl, find_created h h1 hnone hfree]
  by_cases hfits : FitsField fn
  · refine iff_of_true ?_ hfits
    simp only [if_pos hfits]
    have hcreated := Info.entry_setEntry (h.ticks k).sized i i ((info.entry i).created fn perms now)
    rw [if_pos rfl] at hcreated
    rw [hcreated, FileEntry.chain_created, clear_nil]
    refine ⟨?_, rfl, rfl⟩
    have hself := congrArg (·.dev.data) (Info.setEntry_self hzero)
    exact (Mem.store_store _ _ _ _ _).trans hself
  · refine iff_of_false (fun hsame => ?_) hfits
    simp only [if_neg hfits] at hsame
    -- the new entry is still there
    have hentry : ((info.ticks k).setEntry i ((info.entry i).created fn perms now)).entry i =
        info.entry i := by
      unfold Info.entry
      rw [Info.sb_setEntry, Info.sb_ticks]
      exact congrArg (fun m : Mem => FileEntry.ofMem (m.window (entryAddr info.sb i).toNat))
        hsame.data
    rw [Info.entry_setEntry (h.ticks k).sized, if_pos rfl, hzero] at hentry
    have hlive := FileEntry.live_created h1 .zero perms now
    rw [hentry, FileEntry.live_zero] at hlive
    cases hlive

/-- Entries that are not in use are all zero. -/
def FreeZero (info : Info) : Prop :=
  ∀ i : Nat, i < info.sb.entryCount.toNat → (info.entry i).live = false → info.entry i = .zero

/-- What a creation that has got an entry comes to: a file, or an error and the removal of the
name. -/
theorem sfsInodeCreate_of_free {fs : Fs} (h : Plain fs.info) (fn : CStr) (mode : UInt32) (now : Int)
    (newInodeOk insertOk : Bool) {i : Nat} (hfree : fs.info.freeEntry = some i) :
    ∃ k e size, sfsInodeCreate fs fn mode now newInodeOk insertOk =
      let info := (fs.info.ticks k).setEntry i
        ((fs.info.entry i).created fn (entryPerms mode) now)
      if (newInodeOk && insertOk) = true then (.ok (s2vInodeNum i), ⟨info, size⟩)
      else (.error e, ⟨(sfsRemove info fn).2, fs.size⟩) := by
  obtain ⟨k, fe', hk⟩ := sfsCreate_eq h fn (entryPerms mode) now .zero
  rw [hfree] at hk
  unfold sfsInodeCreate
  rw [hk]
  simp only [if_neg (s2vInodeNum_ne_invInode i)]
  cases newInodeOk with
  | false => exact ⟨k, -ENOMEM, fs.size, rfl⟩
  | true =>
    cases insertOk with
    | false => exact ⟨k, - EIO, fs.size, rfl⟩
    | true => exact ⟨k, 0, _, rfl⟩

theorem sfsInodeCreate_of_full {fs : Fs} (h : Plain fs.info) (fn : CStr) (mode : UInt32) (now : Int)
    (newInodeOk insertOk : Bool) (hfull : fs.info.freeEntry = none) :
    ∃ k, sfsInodeCreate fs fn mode now newInodeOk insertOk =
      (.error (-ENOSPC), ⟨fs.info.ticks k, fs.size⟩) := by
  obtain ⟨k, fe', hk⟩ := sfsCreate_eq h fn (entryPerms mode) now .zero
  rw [hfull] at hk
  unfold sfsInodeCreate
  rw [hk]
  exact ⟨k, rfl⟩

/-- **Failed creations.** A failed creation is undone exactly when the name has at most 15 bytes or
there was nothing to undo: no entry was free, or none of the two steps behind the new entry
failed. -/
theorem rollsBack_iff {fs : Fs} (h : Plain fs.info) (hzero : FreeZero fs.info) {fn : CStr}
    (hfn : IsVfsName fn) {fe : FileEntry} (hnew : (sfsLookup fs.info fn fe).1.1 = invInode)
    (mode : UInt32) (now : Int) (newInodeOk insertOk : Bool) :
    RollsBack fs fn mode now newInodeOk insertOk ↔
      FitsField fn ∨ fs.info.freeEntry = none ∨ (newInodeOk && insertOk) = true := by
  have hnone := find_none_of_lookup h hnew
  unfold RollsBack
  cases hfree : fs.info.freeEntry with
  | none =>
    obtain ⟨k, hk⟩ := sfsInodeCreate_of_full h fn mode now newInodeOk insertOk hfree
    rw [hk]
    exact iff_of_true (fun _ _ => ⟨rfl, rfl, rfl⟩) (.inr (.inl rfl))
  | some i =>
    obtain ⟨k, e, size, hk⟩ := sfsInodeCreate_of_free h fn mode now newInodeOk insertOk hfree
    rw [hk]
    by_cases hok : (newInodeOk && insertOk) = true
    · refine iff_of_true ?_ (.inr (.inr hok))
      simp only [if_pos hok]
      intro e he
      cases he
    · obtain ⟨hi, hdead⟩ := Info.freeEntry_eq_some hfree
      have hundone := remove_created h hfn.1 hnone hfree (hzero i hi hdead) k (entryPerms mode) now
      simp only [if_neg hok, reduceCtorEq, false_or]
      rw [or_iff_left hok, ← hundone]
      constructor
      · intro hback
        exact hback e rfl
      · intro hsame _ _
        exact hsame

/-- The formatted volume before its first file. -/
def emptyFs : Fs where
  info := formatted 5120
  size _ := 0

theorem emptyFs_info : emptyFs.info = formatted 5120 := by
  simp only [emptyFs]

theorem plain_emptyFs : Plain emptyFs.info := by
  rw [emptyFs_info]
  exact plain_formatted

theorem freeZero_emptyFs : FreeZero emptyFs.info := by
  rw [emptyFs_info]
  intro i hi _
  exact (mountedEmpty_formatted 5120 (by decide) (by decide)).2.table_empty i hi

theorem rollsBack_iff_emptyFs : RollsBack emptyFs name15 0o644 0 false true := by
  have hnew : (sfsLookup emptyFs.info name15 .zero).1.1 = invInode := by decide +kernel
  exact (rollsBack_iff plain_emptyFs freeZero_emptyFs ⟨by decide, by decide⟩ hnew _ _ _ _).2
    (.inl (by decide))

theorem not_rollsBack {fs : Fs} {fn : CStr} {mode : UInt32} {now : Int} {newInodeOk insertOk : Bool}
    {e : Int} (herr : (sfsInodeCreate fs fn mode now newInodeOk insertOk).1 = .error e) {i : Int}
    (hne : (sfsInodeCreate fs fn mode now newInodeOk insertOk).2.info.entry i ≠ fs.info.entry i) :
    ¬ RollsBack fs fn mode now newInodeOk insertOk := by
  intro hback
  obtain ⟨hdata, -, hsb⟩ := hback e herr
  apply hne
  unfold Info.entry
  rw [hdata, hsb]

/-- When `new_inode` fails, the entry with the first 15 bytes of the name stays. -/
theorem not_rollsBack_emptyFs :
    Plain emptyFs.info ∧ FreeZero emptyFs.info ∧
      (sfsLookup emptyFs.info name16 .zero).1.1 = invInode ∧
      (sfsInodeCreate emptyFs name16 0o644 0 false true).1 = .error (-ENOMEM) ∧
      ((sfsInodeCreate emptyFs name16 0o644 0 false true).2.info.entry 0).nameString =
        name15.bytes ∧ ¬ RollsBack emptyFs name16 0o644 0 false true := by
  have herr : (sfsInodeCreate emptyFs name16 0o644 0 false true).1 = .error (-ENOMEM) := by
    decide +kernel
  have hne : (sfsInodeCreate emptyFs name16 0o644 0 false true).2.info.entry 0 ≠
      emptyFs.info.entry 0 := by decide +kernel
  exact ⟨plain_emptyFs, freeZero_emptyFs, by decide +kernel, herr, by decide +kernel,
    not_rollsBack herr hne⟩

end LinuxDrivers.Sfs
