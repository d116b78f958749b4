import LinuxDrivers.Sfs.Ownership

/-!
# Calls that fail

The three operations that change `used_blocks` do so before they write the entry, and the write
begins with a read of its block, which may fail. Then the call reports the failure with the blocks
already released or taken. Nothing here is assumed of the device: any read may fail, and the sizes
of its blocks are arbitrary.
-/

namespace LinuxDrivers.Sfs

/-! ## One entry of an unreliable device -/

namespace Info

/-- The entry that a read of entry `ino` gives. -/
def found (info : Info) (ino : Int) : FileEntry :=
  .ofMem ((info.dev.data.window
    ((entryAddr info.sb ino / info.bdBlockSize).toNat * info.dev.blocksize)).window
      (entryAddr info.sb ino % info.bdBlockSize).toNat)

/-- Entry `ino` crosses the end of a block of the device. -/
def Crosses (info : Info) (ino : Int) : Prop :=
  entryAddr info.sb ino % info.bdBlockSize + 64 > info.bdBlockSize

/-- The read after the next `n` reads fails. -/
def NextFails (info : Info) (n : Nat) : Prop := info.dev.fails (info.dev.reads + n) = true

/-- Entry `ino` can be read after the next `n` reads. -/
def Reads (info : Info) (ino : Int) (n : Nat) : Prop := ¬ info.Crosses ino ∧ ¬ info.NextFails n

@[simp] theorem found_ticks (info : Info) (k : Nat) (ino : Int) :
    (info.ticks k).found ino = info.found ino := rfl

theorem nextFails_ticks (info : Info) (k n : Nat) :
    (info.ticks k).NextFails n ↔ info.NextFails (k + n) := by
  unfold NextFails ticks
  rw [Nat.add_assoc]

theorem reads_ticks (info : Info) (k : Nat) (ino : Int) (n : Nat) :
    (info.ticks k).Reads ino n ↔ info.Reads ino (k + n) :=
  and_congr Iff.rfl (not_congr (nextFails_ticks info k n))

end Info

section Entry

variable {info : Info} {ino : Int}

theorem Info.Reads.ok (h : info.Reads ino 0) : info.dev.fails info.dev.reads = false :=
  Bool.eq_false_iff.2 h.2

theorem readEntry_of_reads (h : info.Reads ino 0) :
    readEntryFromRealSfs info ino = (.ok (info.found ino), info.ticks 1) := by
  have hfit := h.1
  unfold Info.Crosses entryAddr at hfit
  unfold readEntryFromRealSfs readFromRealSfs
  simp only [hfit, ↓reduceIte, Device.sbBread_of_ok h.ok]
  rfl

theorem readEntry_of_not_reads (h : ¬ info.Reads ino 0) :
    ∃ e k, e < 0 ∧ readEntryFromRealSfs info ino = (.error e, info.ticks k) := by
  unfold readEntryFromRealSfs readFromRealSfs
  by_cases hfit : info.Crosses ino
  · refine ⟨-EINVAL, 0, by decide, ?_⟩
    unfold Info.Crosses entryAddr at hfit
    simp only [hfit, ↓reduceIte]
    rfl
  · have hfail : info.dev.fails info.dev.reads = true := by
      by_contra hok
      exact h ⟨hfit, hok⟩
    refine ⟨- EIO, 1, by decide, ?_⟩
    unfold Info.Crosses entryAddr at hfit
    simp only [hfit, ↓reduceIte, Device.sbBread_of_fails hfail]
    rfl

/-- A write whose read fails changes nothing. -/
theorem writeEntry_of_fails (hfit : ¬ info.Crosses ino) (h : info.NextFails 0) (fe : FileEntry) :
    writeEntryToRealSfs info ino fe = (- EIO, info.ticks 1) := by
  have hfail : info.dev.fails info.dev.reads = true := h
  unfold Info.Crosses entryAddr at hfit
  unfold writeEntryToRealSfs writeToRealSfs
  simp only [hfit, ↓reduceIte, Device.sbBread_of_fails hfail]
  rfl

theorem writeEntry_of_reads (h : info.Reads ino 0) (fe : FileEntry) :
    (writeEntryToRealSfs info ino fe).1 = 0 := by
  have hfit := h.1
  unfold Info.Crosses entryAddr at hfit
  unfold writeEntryToRealSfs writeToRealSfs
  simp only [hfit, ↓reduceIte, Device.sbBread_of_ok h.ok]

end Entry

/-! ## Blocks of 512 bytes -/

section Sizes

variable {info : Info} (h : Sized info)

include h

theorem not_crosses (ino : Int) : ¬ info.Crosses ino := by
  unfold Info.Crosses
  rw [h.bdBlockSize]
  exact not_crossing (entryAddr_aligned h.sbBlockSize ino)

theorem readEntry_cases (ino : Int) :
    readEntryFromRealSfs info ino = (.ok (info.entry ino), info.ticks 1) ∨
      ∃ e k, e < 0 ∧ readEntryFromRealSfs info ino = (.error e, info.ticks k) := by
  by_cases hok : info.dev.fails info.dev.reads = false
  · exact .inl (readEntry_of_ok h hok ino)
  · refine .inr (readEntry_of_not_reads fun hreads => hok hreads.ok)

theorem writeEntry_cases (ino : Int) (fe : FileEntry) :
    writeEntryToRealSfs info ino fe = (0, (info.ticks 1).setEntry ino fe) ∨
      writeEntryToRealSfs info ino fe = (- EIO, info.ticks 1) := by
  by_cases hok : info.dev.fails info.dev.reads = false
  · exact .inl (writeEntry_of_ok h hok ino fe)
  · have hfails : info.NextFails 0 := by
      unfold Info.NextFails
      simpa using hok
    exact .inr (writeEntry_of_fails (not_crosses h ino) hfails fe)

theorem found_eq_entry (ino : Int) : info.found ino = info.entry ino := by
  unfold Info.found Info.entry
  apply FileEntry.ofMem_congr
  intro k _
  simp only [Mem.window_apply, h.bdBlockSize, h.blocksize]
  rw [← Nat.add_assoc, block_add_offset]

end Sizes

/-! ## Lookup -/

/-- The search over the `n` entries from `ino` on reaches entry `i`, the first one named `fn`. -/
def Info.Finds (info : Info) (fn : CStr) (n ino i : Nat) : Prop :=
  findFrom (fun j => (info.found j).named fn) n ino = some i ∧
    ∀ j : Nat, ino ≤ j → j ≤ i → info.Reads j (j - ino)

theorem Info.Finds.le {info : Info} {fn : CStr} {n ino i : Nat} (h : info.Finds fn n ino i) :
    ino ≤ i :=
  (findFrom_eq_some h.1).1

/-- An entry of another name is passed. -/
theorem finds_succ {info : Info} {fn : CStr} {n ino i : Nat} (hread : info.Reads ino 0)
    (hname : (info.found ino).named fn = false) :
    info.Finds fn (n + 1) ino i ↔ (info.ticks 1).Finds fn n (ino + 1) i := by
  have hfind : findFrom (fun j => (info.found j).named fn) (n + 1) ino =
      findFrom (fun j => (info.found j).named fn) n (ino + 1) := by
    rw [findFrom, if_neg (by rw [hname]; decide)]
  constructor
  · rintro ⟨hsome, hall⟩
    refine ⟨hfind ▸ hsome, fun j hj hji => ?_⟩
    rw [Info.reads_ticks, show 1 + (j - (ino + 1)) = j - ino by omega]
    exact hall j (by omega) hji
  · rintro ⟨hsome, hall⟩
    refine ⟨hfind.trans hsome, fun j hj hji => ?_⟩
    rcases Nat.eq_or_lt_of_le hj with rfl | hlt
    · rw [Nat.sub_self]
      exact hread
    · have hj' := hall j hlt hji
      rwa [Info.reads_ticks, show 1 + (j - (ino + 1)) = j - ino by omega] at hj'

/-- **Lookup on an unreliable device.** Either the search reaches the entry, or it reports that
there is none; the table is only read. -/
theorem lookupFrom_cases (info : Info) (fn : CStr) (n ino : Nat) (fe : FileEntry) :
    (∃ i, info.Finds fn n ino i ∧ lookupFrom fn n ino fe info =
      ((s2vInodeNum i, info.found i), info.ticks (i + 1 - ino))) ∨
    ((∀ i, ¬ info.Finds fn n ino i) ∧ ∃ fe' k, lookupFrom fn n ino fe info =
      ((invInode, fe'), info.ticks k)) := by
  induction n generalizing info ino fe with
  | zero => exact .inr ⟨fun i h => absurd h.1 (by simp [findFrom]), fe, 0, rfl⟩
  | succ n ih =>
    unfold lookupFrom
    by_cases hread : info.Reads ino 0
    · rw [readEntry_of_reads hread]
      by_cases hname : (info.found ino).named fn = true
      · obtain ⟨hlive, heq⟩ : (info.found ino).live = true ∧
            (info.found ino).nameString = fn.bytes := by
          simpa [FileEntry.named] using hname
        simp only [hlive, heq, Bool.not_true, Bool.false_eq_true, ↓reduceIte]
        refine .inl ⟨ino, ⟨?_, fun j h1 h2 => ?_⟩, by rw [Nat.add_sub_cancel_left]⟩
        · rw [findFrom, if_pos hname]
        · obtain rfl : j = ino := by omega
          rw [Nat.sub_self]
          exact hread
      · have hname' := Bool.eq_false_iff.2 hname
        -- both ways of passing an entry go on with the next one
        have hgo : (if !(info.found ino).live then
              lookupFrom fn n (ino + 1) (info.found ino) (info.ticks 1)
            else if (info.found ino).nameString = fn.bytes then
              ((s2vInodeNum ino, info.found ino), info.ticks 1)
            else lookupFrom fn n (ino + 1) (info.found ino) (info.ticks 1)) =
            lookupFrom fn n (ino + 1) (info.found ino) (info.ticks 1) := by
          unfold FileEntry.named at hname
          grind
        simp only [hgo, finds_succ hread hname']
        rcases ih (info.ticks 1) (ino + 1) (info.found ino) with ⟨i, hfinds, hlook⟩ |
          ⟨hnone, fe', k, hlook⟩
        · have hle := hfinds.le
          refine .inl ⟨i, hfinds, ?_⟩
          rw [hlook, Info.found_ticks, Info.ticks_ticks,
            show 1 + (i + 1 - (ino + 1)) = i + 1 - ino by omega]
        · refine .inr ⟨hnone, fe', 1 + k, ?_⟩
          rw [hlook, Info.ticks_ticks]
    · obtain ⟨e, k, -, herr⟩ := readEntry_of_not_reads hread
      rw [herr]
      refine .inr ⟨fun i h => hread ?_, fe, k, rfl⟩
      have := h.2 ino (Nat.le_refl _) h.le
      rwa [Nat.sub_self] at this

/-! ## Calls -/

/-- A call that may release or take blocks; `sfs_get_block` is called with `create = 1`. -/
inductive Call where
  | remove (fn : CStr)
  | update (ino : Int) (size timestamp perms : Option Int)
  | getBlock (ino : Int) (iblock : Nat)

/-- The call reports a failure. -/
def Call.Failed (info : Info) : Call → Prop
  | .remove fn => (sfsRemove info fn).1 = invInode
  | .update ino size timestamp perms => (sfsUpdate info ino size timestamp perms).1 < 0
  | .getBlock ino iblock => ∃ e < 0, (sfsGetBlock info ino iblock true).1 = .error e

/-- The state after the call. -/
def Call.exec (info : Info) : Call → Info
  | .remove fn => (sfsRemove info fn).2
  | .update ino size timestamp perms => (sfsUpdate info ino size timestamp perms).2
  | .getBlock ino iblock => (sfsGetBlock info ino iblock true).2

/-- If the call fails, the device and `used_blocks` are as before. -/
def Atomic (info : Info) (call : Call) : Prop :=
  call.Failed info → (call.exec info).dev.data = info.dev.data ∧
    (call.exec info).usedBlocks = info.usedBlocks

/-- Some of the blocks are marked used. -/
def Info.Marked (info : Info) (bs : List UInt32) : Prop := ∃ b ∈ bs, info.usedBlocks b.toNat ≠ 0

/-- The entry can be read, the read that its write begins with fails, and blocks were released or
taken in between: the marked ones on the chain of the removed file, the marked ones behind the new
size, or a free one for the empty slot. -/
def Torn (info : Info) : Call → Prop
  | .remove fn => ∃ i, info.Finds fn info.sb.entryCount.toNat 0 i ∧ info.NextFails (i + 1) ∧
      info.Marked (info.found i).chain
  | .update ino size timestamp perms =>
    let fe := (info.found (v2sInodeNum ino)).updated size timestamp perms
    info.Reads (v2sInodeNum ino) 0 ∧ info.NextFails 1 ∧
      info.Marked (fe.tail ((fe.size + info.sb.blockSize - 1) / info.sb.blockSize).toNat)
  | .getBlock ino iblock => iblock < 9 ∧ info.Reads (v2sInodeNum ino) 0 ∧
      (info.found (v2sInodeNum ino)).block iblock = 0 ∧ (∃ b, info.freeBlock = some b) ∧
      info.NextFails 1

theorem clear_eq_self_iff {info : Info} {bs : List UInt32} :
    clear info.usedBlocks bs = info.usedBlocks ↔ ¬ info.Marked bs := by
  constructor
  · rintro hclear ⟨b, hb, hne⟩
    apply hne
    rw [← hclear, clear, if_pos (List.mem_map_of_mem hb)]
  · intro hmarked
    funext x
    unfold clear
    split
    · next hx =>
      obtain ⟨b, hb, rfl⟩ := List.mem_map.1 hx
      by_contra hne
      exact hmarked ⟨b, hb, fun h0 => hne h0.symm⟩
    · rfl

theorem unchanged_iff (info : Info) (k : Nat) (used : Nat → UInt8) :
    (((info.ticks k).setUsed used).dev.data = info.dev.data ∧
      ((info.ticks k).setUsed used).usedBlocks = info.usedBlocks) ↔ used = info.usedBlocks :=
  and_iff_right rfl

/-- The write at the end of a call, when `used_blocks` is already `used`. -/
theorem writeEntry_last {info : Info} {ino : Int} (hfit : ¬ info.Crosses ino) (k : Nat)
    (used : Nat → UInt8) (fe : FileEntry) :
    (info.NextFails k → writeEntryToRealSfs ((info.ticks k).setUsed used) ino fe =
      (- EIO, (info.ticks (k + 1)).setUsed used)) ∧
    (¬ info.NextFails k → (writeEntryToRealSfs ((info.ticks k).setUsed used) ino fe).1 = 0) := by
  constructor
  · intro hfail
    have hfit' : ¬ ((info.ticks k).setUsed used).Crosses ino := hfit
    rw [writeEntry_of_fails hfit' hfail, ← Info.ticks_ticks]
    rfl
  · intro hok
    have hread : ((info.ticks k).setUsed used).Reads ino 0 := ⟨hfit, hok⟩
    exact writeEntry_of_reads hread fe

/-! ## Removing -/

section Remove

variable {info : Info} {fn : CStr} {i : Nat}

theorem sfsRemove_finds (h : info.Finds fn info.sb.entryCount.toNat 0 i) :
    sfsRemove info fn =
      match writeEntryToRealSfs ((info.ticks (i + 1)).setUsed
        (clear info.usedBlocks (info.found i).chain)) i .zero with
      | (r, info') => if r < 0 then (invInode, info') else (s2vInodeNum i, info') := by
  rcases lookupFrom_cases info fn info.sb.entryCount.toNat 0 .zero with ⟨j, hj, hlook⟩ |
    ⟨hnone, -⟩
  · obtain rfl : j = i := Option.some.inj (hj.1.symm.trans h.1)
    unfold sfsRemove sfsLookup
    rw [hlook]
    simp only [s2vInodeNum_ne_invInode, ↓reduceIte, putBlocks_eq, v2sInodeNum_s2vInodeNum]
    rfl
  · exact absurd h (hnone i)

theorem sfsRemove_not_finds (h : ∀ i, ¬ info.Finds fn info.sb.entryCount.toNat 0 i) :
    ∃ k, sfsRemove info fn = (invInode, info.ticks k) := by
  rcases lookupFrom_cases info fn info.sb.entryCount.toNat 0 .zero with ⟨i, hi, -⟩ |
    ⟨-, fe, k, hlook⟩
  · exact absurd hi (h i)
  · refine ⟨k, ?_⟩
    unfold sfsRemove sfsLookup
    rw [hlook]
    rfl

/-- **Removing.** Only a failed write leaves the blocks of the file released. -/
theorem atomic_remove_iff (info : Info) (fn : CStr) :
    Atomic info (.remove fn) ↔ ¬ Torn info (.remove fn) := by
  simp only [Atomic, Torn, Call.Failed, Call.exec]
  by_cases hfinds : ∃ i, info.Finds fn info.sb.entryCount.toNat 0 i
  · obtain ⟨i, hi⟩ := hfinds
    have huniq : ∀ j, info.Finds fn info.sb.entryCount.toNat 0 j → j = i := fun j hj =>
      Option.some.inj (hj.1.symm.trans hi.1)
    obtain ⟨hfails, hok⟩ := writeEntry_last (hi.2 i (Nat.zero_le i) (Nat.le_refl i)).1 (i + 1)
      (clear info.usedBlocks (info.found i).chain) .zero
    by_cases hfail : info.NextFails (i + 1)
    · have hremove : sfsRemove info fn = (invInode, (info.ticks (i + 1 + 1)).setUsed
          (clear info.usedBlocks (info.found i).chain)) := by
        rw [sfsRemove_finds hi, hfails hfail]
        exact if_pos (by decide)
      have hmarked : (∃ j, info.Finds fn info.sb.entryCount.toNat 0 j ∧ info.NextFails (j + 1) ∧
          info.Marked (info.found j).chain) ↔ info.Marked (info.found i).chain := by
        constructor
        · rintro ⟨j, hj, -, hm⟩
          rwa [huniq j hj] at hm
        · exact fun hm => ⟨i, hi, hfail, hm⟩
      rw [hremove, hmarked, ← clear_eq_self_iff]
      exact (imp_iff_right rfl).trans (unchanged_iff info (i + 1 + 1) _)
    · rw [sfsRemove_finds hi]
      generalize writeEntryToRealSfs _ _ _ = w at hok ⊢
      obtain ⟨r, info'⟩ := w
      obtain rfl : r = 0 := hok hfail
      refine iff_of_true (fun h => absurd h (s2vInodeNum_ne_invInode i)) ?_
      rintro ⟨j, hj, hfail', -⟩
      rw [huniq j hj] at hfail'
      exact hfail hfail'
  · obtain ⟨k, hnone⟩ := sfsRemove_not_finds fun i hi => hfinds ⟨i, hi⟩
    rw [hnone]
    exact iff_of_true (fun _ => ⟨rfl, rfl⟩) fun ⟨i, hi, _⟩ => hfinds ⟨i, hi⟩

end Remove

/-! ## Updating -/

/-- **Updating.** Only a failed write leaves the blocks behind the new size released. -/
theorem atomic_update_iff (info : Info) (ino : Int) (size timestamp perms : Option Int) :
    Atomic info (.update ino size timestamp perms) ↔
      ¬ Torn info (.update ino size timestamp perms) := by
  simp only [Atomic, Torn, Call.Failed, Call.exec]
  unfold sfsUpdate sfsGetFileEntry
  by_cases hread : info.Reads (v2sInodeNum ino) 0
  · rw [readEntry_of_reads hread]
    simp only [Info.sb_ticks]
    generalize hcut : ((((info.found (v2sInodeNum ino)).updated size timestamp perms).size +
      info.sb.blockSize - 1) / info.sb.blockSize).toNat = cut
    generalize (info.found (v2sInodeNum ino)).updated size timestamp perms = fe at hcut ⊢
    rw [truncBlocks_eq (by omega)]
    simp only [Info.usedBlocks_ticks]
    obtain ⟨hfails, hok⟩ := writeEntry_last hread.1 1 (clear info.usedBlocks (fe.tail cut))
      (fe.truncated cut)
    by_cases hfail : info.NextFails 1
    · rw [hfails hfail, and_iff_right hread, and_iff_right hfail, ← clear_eq_self_iff]
      have hneg : - EIO < 0 := by decide
      exact (imp_iff_right hneg).trans (unchanged_iff info (1 + 1) _)
    · rw [hok hfail]
      exact iff_of_true (fun h => absurd h (by decide)) fun h => hfail h.2.1
  · obtain ⟨e, k, -, herr⟩ := readEntry_of_not_reads hread
    rw [herr]
    exact iff_of_true (fun _ => ⟨rfl, rfl⟩) fun h => hread h.1

/-! ## Mapping -/

/-- **Mapping.** Only a failed write leaves a block taken that no slot holds. -/
theorem atomic_getBlock_iff (info : Info) (ino : Int) (iblock : Nat) :
    Atomic info (.getBlock ino iblock) ↔ ¬ Torn info (.getBlock ino iblock) := by
  simp only [Atomic, Torn, Call.Failed, Call.exec]
  unfold sfsGetBlock sfsGetFileEntry
  by_cases h9 : iblock ≥ 9
  · rw [if_pos h9]
    exact iff_of_true (fun _ => ⟨rfl, rfl⟩) fun h => absurd h.1 (Nat.not_lt.2 h9)
  have hlt : iblock < 9 := Nat.not_le.1 h9
  rw [if_neg h9]
  by_cases hread : info.Reads (v2sInodeNum ino) 0
  · rw [readEntry_of_reads hread]
    simp only
    by_cases hslot : (info.found (v2sInodeNum ino)).block iblock = 0
    · rw [if_pos hslot, if_neg (by decide), sfsGetDataBlock_eq,
        show (info.ticks 1).freeBlock = info.freeBlock from rfl]
      cases hfree : info.freeBlock with
      | none =>
        simp only [FileEntry.block_setBlock, hlt, and_self, ↓reduceIte]
        exact iff_of_true (fun _ => ⟨rfl, rfl⟩) fun ⟨_, _, _, ⟨b, hb⟩, _⟩ => by cases hb
      | some b =>
        obtain ⟨-, hb, hzero⟩ := Info.freeBlock_eq_some hfree
        have hps : info.sb.partitionSize.toNat < 4294967296 := info.sb.partitionSize.toNat_lt
        have hne := ofInt_natCast_ne_invBlock (b := b) (by omega)
        obtain ⟨hfails, hok⟩ := writeEntry_last hread.1 1 (Function.update info.usedBlocks b 1)
          ((info.found (v2sInodeNum ino)).setBlock iblock (.ofInt b))
        simp only [FileEntry.block_setBlock, hlt, and_self, ↓reduceIte, hne, sfsUpdateFileEntry,
          Info.usedBlocks_ticks]
        by_cases hfail : info.NextFails 1
        · simp only [hfails hfail]
          refine iff_of_false (fun h => ?_) (not_not.2 ⟨trivial, hread, hslot, ⟨b, rfl⟩, hfail⟩)
          have hmap : Function.update info.usedBlocks b 1 b = info.usedBlocks b :=
            congrFun (h ⟨- EIO, by decide, rfl⟩).2 b
          rw [Function.update_self, hzero] at hmap
          exact absurd hmap (by decide)
        · generalize writeEntryToRealSfs _ _ _ = w at hok ⊢
          obtain ⟨r, info'⟩ := w
          obtain rfl : r = 0 := hok hfail
          refine iff_of_true ?_ fun h => hfail h.2.2.2.2
          rintro ⟨e, -, he⟩
          cases he
    · rw [if_neg hslot]
      refine iff_of_true ?_ fun h => hslot h.2.2.1
      rintro ⟨e, -, he⟩
      cases he
  · obtain ⟨e, k, -, herr⟩ := readEntry_of_not_reads hread
    rw [herr]
    exact iff_of_true (fun _ => ⟨rfl, rfl⟩) fun h => hread h.2.1

/-! ## All calls -/

/-- **Failed calls.** On any device and in any state, a call that fails leaves the device and
`used_blocks` as they were exactly when it is not torn. -/
theorem atomic_iff (info : Info) (call : Call) : Atomic info call ↔ ¬ Torn info call := by
  cases call with
  | remove fn => exact atomic_remove_iff info fn
  | update ino size timestamp perms => exact atomic_update_iff info ino size timestamp perms
  | getBlock ino iblock => exact atomic_getBlock_iff info ino iblock

/-- The same volume on a device that fails the given reads. -/
def Info.setFails (info : Info) (fails : Nat → Bool) : Info :=
  { info with dev := { info.dev with fails } }

theorem OwnsBlocks.setFails {info : Info} (h : OwnsBlocks info) (fails : Nat → Bool) :
    OwnsBlocks (info.setFails fails) :=
  ⟨h.range, h.used, h.once⟩

/-- A ten-block volume with a file of one block. -/
def smallFile : Info :=
  run Op.exec (formatted 5120) [.create (.ofList [97]) 6 0, .getBlock 2 0 true]

theorem smallFile_ownsBlocks : OwnsBlocks smallFile := by
  obtain ⟨hsb, h⟩ := mountedEmpty_formatted 5120 (by decide) (by decide)
  refine (run_sound h.toMounted h.soundTable _ ?_).2.2.ownsBlocks
  rw [hsb]
  decide

/-- When the second of the next reads fails, that file cannot be removed, cut or extended. After the
first two calls its block is free, with the entry still on the device; after the third another block
is taken. -/
theorem not_atomic_smallFile :
    let info := smallFile.setFails fun n => n == smallFile.dev.reads + 1
    let fn : CStr := ⟨[97], by decide⟩
    OwnsBlocks info ∧ (info.entry 0).block 0 = 2 ∧ info.usedBlocks 2 = 1 ∧
      info.usedBlocks 3 = 0 ∧
      ((sfsRemove info fn).1 = invInode ∧ ((sfsRemove info fn).2.entry 0).block 0 = 2 ∧
        (sfsRemove info fn).2.usedBlocks 2 = 0 ∧ ¬ Atomic info (.remove fn)) ∧
      ((sfsUpdate info 2 (some 0) none none).1 < 0 ∧
        ((sfsUpdate info 2 (some 0) none none).2.entry 0).block 0 = 2 ∧
        (sfsUpdate info 2 (some 0) none none).2.usedBlocks 2 = 0 ∧
        ¬ Atomic info (.update 2 (some 0) none none)) ∧
      (sfsGetBlock info 2 1 true).1 = .error (- EIO) ∧
      (sfsGetBlock info 2 1 true).2.usedBlocks 3 = 1 ∧ ¬ Atomic info (.getBlock 2 1) := by
  intro info fn
  have hinfo : (info.entry 0).block 0 = 2 ∧ info.usedBlocks 2 = 1 ∧ info.usedBlocks 3 = 0 := by
    decide +kernel
  have hremove : (sfsRemove info fn).1 = invInode ∧
      ((sfsRemove info fn).2.entry 0).block 0 = 2 ∧ (sfsRemove info fn).2.usedBlocks 2 = 0 := by
    decide +kernel
  have hupdate : (sfsUpdate info 2 (some 0) none none).1 < 0 ∧
      ((sfsUpdate info 2 (some 0) none none).2.entry 0).block 0 = 2 ∧
      (sfsUpdate info 2 (some 0) none none).2.usedBlocks 2 = 0 := by
    decide +kernel
  have hmap : (sfsGetBlock info 2 1 true).1 = .error (- EIO) := by decide +kernel
  have htaken : (sfsGetBlock info 2 1 true).2.usedBlocks 3 = 1 := by
    decide +kernel
  -- in each case `used_blocks` differs at the block
  have hbad : ∀ (call : Call) (b : Nat), call.Failed info →
      (call.exec info).usedBlocks b ≠ info.usedBlocks b → ¬ Atomic info call :=
    fun call b hfailed hne hatomic => hne (congrFun (hatomic hfailed).2 b)
  refine ⟨smallFile_ownsBlocks.setFails _, hinfo.1, hinfo.2.1, hinfo.2.2,
    ⟨hremove.1, hremove.2.1, hremove.2.2, hbad _ 2 hremove.1 ?_⟩,
    ⟨hupdate.1, hupdate.2.1, hupdate.2.2, hbad _ 2 hupdate.1 ?_⟩,
    hmap, htaken, hbad _ 3 ⟨_, by decide, hmap⟩ ?_⟩
  · rw [hinfo.2.1, Call.exec, hremove.2.2]
    decide
  · rw [hinfo.2.1, Call.exec, hupdate.2.2]
    decide
  · rw [hinfo.2.2, Call.exec, htaken]
    decide

end LinuxDrivers.Sfs
