import LinuxDrivers.Akpfs.Consistent

/-!
# Blocks that cannot be read

Any block read may fail. `akpfs_get_block` reads the inode and, when it has to allocate, the free
bits from their start on. `akpfs_get_free_block` reports a failed read as `-EIO`, but its result is
an `unsigned int` and its caller tests it for zero only: the error number is recorded as a block
number.
-/

namespace LinuxDrivers.Akpfs

/-- A read made by the call from `fs` to `fs'` failed. -/
def ReadFailed (fs fs' : Fs) : Prop :=
  ∃ k, fs.dev.reads ≤ k ∧ k < fs'.dev.reads ∧ fs.dev.fails k = true

theorem readFailed_after {fs : Fs} {k : Nat} {data : Mem} :
    ReadFailed fs (fs.after k data) ↔ ∃ i < k, fs.dev.fails (fs.dev.reads + i) = true := by
  constructor
  · rintro ⟨l, h1, h2, hfail⟩
    have h2' : l < fs.dev.reads + k := h2
    refine ⟨l - fs.dev.reads, by omega, ?_⟩
    rwa [Nat.add_sub_cancel' h1]
  · rintro ⟨i, hi, hfail⟩
    have hlt : fs.dev.reads + i < fs.dev.reads + k := by omega
    exact ⟨fs.dev.reads + i, Nat.le_add_right _ _, hlt, hfail⟩

/-- No slot of the inode holds a number that is not one of a block. -/
def SlotsValid (sb : Sb) (data : Mem) (ino : UInt32) : Prop :=
  ∀ j < 27, (inode sb data ino).slot j = 0 ∨ ((inode sb data ino).slot j).toNat < sb.blockCnt.toNat

/-- What `akpfs_get_block` has to keep to, also when reads fail. -/
structure RecordsValid (fs : Fs) (ino : UInt32) (iblock : Nat) : Prop where
  slots : SlotsValid fs.sb (getBlock fs ino iblock true).2.dev.data ino
  failed : ReadFailed fs (getBlock fs ino iblock true).2 →
    (∃ e < 0, (getBlock fs ino iblock true).1 = .error e) ∧
      (getBlock fs ino iblock true).2.dev.data = fs.dev.data

/-- The call has to allocate, and a block of the free bits that it comes to cannot be read. -/
structure SearchBreaks (fs : Fs) (ino : UInt32) (iblock : Nat) : Prop where
  lt : iblock < 27
  read : fs.dev.fails fs.dev.reads = false
  empty : fs.dev.data.word (slotAddrOf fs.sb ino iblock) = 0
  search : ¬ SearchReads (fs.after 1 fs.dev.data)

theorem Consistent.slotsValid {sb : Sb} {data : Mem} (h : Consistent sb data) {ino : UInt32}
    (hfile : ListedFile sb data ino) : SlotsValid sb data ino := by
  intro j hj
  by_cases hzero : (inode sb data ino).slot j = 0
  · exact .inl hzero
  · have hne : ((inode sb data ino).slot j).toNat ≠ 0 := by
      rw [ne_eq, ← UInt32.toNat_zero, UInt32.toNat_inj]
      exact hzero
    exact .inr (h.range (ino, j) _ hne ⟨hfile, hj, rfl⟩).2

section

variable {fs : Fs} {ino : UInt32} {iblock : Nat}

/-- A search that breaks records the error number, and the call succeeds. -/
theorem SearchBreaks.getBlock_eq (hg : Geometry fs.sb) (hsize : fs.dev.blocksize = 4096)
    (hino : InTable fs.sb ino) (h : SearchBreaks fs ino iblock) :
    ∃ k, getBlock fs ino iblock true = (.ok 0xFFFFFFFB,
      fs.after k (fs.dev.data.setWord (slotAddrOf fs.sb ino iblock) 0xFFFFFFFB)) ∧
      ∃ i < k, fs.dev.fails (fs.dev.reads + i) = true := by
  obtain ⟨k, hk, i, hi, hfail⟩ :=
    getFreeBlock_fails ((hg.bitmapped hsize).after 1 fs.dev.data) h.search
  refine ⟨1 + k, ?_, 1 + i, by omega, ?_⟩
  · rw [getBlock_of_empty hg hsize hino h.lt h.read h.empty, hk]
    simp only [Fs.after_data, Fs.after_after, Fs.setWord_after]
    rfl
  · rw [← Nat.add_assoc]
    exact hfail

theorem SearchBreaks.not_recordsValid (hg : Geometry fs.sb) (hsize : fs.dev.blocksize = 4096)
    (hino : InTable fs.sb ino) (h : SearchBreaks fs ino iblock) : ¬ RecordsValid fs ino iblock := by
  intro hvalid
  obtain ⟨k, hk, hfail⟩ := h.getBlock_eq hg hsize hino
  have hfailed : ReadFailed fs (getBlock fs ino iblock true).2 := by
    rw [hk]
    exact readFailed_after.2 hfail
  obtain ⟨⟨e, -, he⟩, -⟩ := hvalid.failed hfailed
  rw [hk] at he
  cases he

/-- A call that leaves the image alone, and succeeds only if all its reads do. -/
theorem recordsValid_of_unchanged (hslots : SlotsValid fs.sb fs.dev.data ino) {k : Nat}
    (hfs : (getBlock fs ino iblock true).2 = fs.after k fs.dev.data)
    (hfail : (∃ i < k, fs.dev.fails (fs.dev.reads + i) = true) →
      ∃ e < 0, (getBlock fs ino iblock true).1 = .error e) : RecordsValid fs ino iblock := by
  refine ⟨?_, fun hread => ?_⟩
  · rw [hfs]
    exact hslots
  · rw [hfs] at hread ⊢
    exact ⟨hfail (readFailed_after.1 hread), rfl⟩

/-- A number that is handed out keeps the slots valid. -/
theorem SlotsValid.allocate (hslots : SlotsValid fs.sb fs.dev.data ino) (hg : Geometry fs.sb)
    (hino : InTable fs.sb ino) (hi : iblock < 27) {n : Nat}
    (htaken : takenBit fs.sb fs.dev.data = some n) :
    SlotsValid fs.sb ((fs.dev.data.setBit (bitsAddr fs.sb) n).setWord
      (slotAddrOf fs.sb ino iblock) (.ofNat n)) ino := by
  have hlt := (takenBit_eq_some htaken).1
  have hbelow : ∀ x < bitsAddr fs.sb, fs.dev.data.setBit (bitsAddr fs.sb) n x = fs.dev.data x :=
    fun x hx => Mem.setBit_outside (by omega)
  intro j hj
  rw [(inode_setSlot hi _).2 j]
  by_cases he : j = iblock
  · rw [if_pos he, UInt32.toNat_ofNat']
    exact .inr hlt
  · rw [if_neg he, inode_of_bits hg hbelow hino]
    exact hslots j hj

theorem recordsValid_of_not_breaks (hg : Geometry fs.sb) (hsize : fs.dev.blocksize = 4096)
    (hino : InTable fs.sb ino) (hslots : SlotsValid fs.sb fs.dev.data ino)
    (h : ¬ SearchBreaks fs ino iblock) : RecordsValid fs ino iblock := by
  by_cases hi : iblock < 27
  · cases hread : fs.dev.fails fs.dev.reads with
    | true =>
      have hget : getBlock fs ino iblock true = (.error (- EIO), fs.after 1 fs.dev.data) := by
        unfold getBlock
        rw [if_neg (by omega), getInode_of_fails hread]
      exact recordsValid_of_unchanged hslots (congrArg Prod.snd hget) fun _ =>
        ⟨- EIO, by decide, congrArg Prod.fst hget⟩
    | false =>
      by_cases hw : fs.dev.data.word (slotAddrOf fs.sb ino iblock) = 0
      · have hsearch : SearchReads (fs.after 1 fs.dev.data) := by
          by_contra hnot
          exact h ⟨hi, hread, hw, hnot⟩
        obtain ⟨k, hk, hok⟩ := getBlock_of_taken hg hsize hino hi hread hw hsearch
        have hnone : ¬ ∃ i < k, fs.dev.fails (fs.dev.reads + i) = true := by
          rintro ⟨i, hik, hfail⟩
          rw [hok i hik] at hfail
          cases hfail
        cases htaken : takenBit fs.sb fs.dev.data with
        | none =>
          rw [htaken] at hk
          exact recordsValid_of_unchanged hslots hk fun hfail => absurd hfail hnone
        | some n =>
          rw [htaken] at hk
          refine ⟨?_, fun hfailed => ?_⟩
          · rw [hk]
            exact hslots.allocate hg hino hi htaken
          · rw [hk] at hfailed
            exact absurd (readFailed_after.1 hfailed) hnone
      · have hget := getBlock_of_mapped hg hsize hino hi hread hw true
        refine recordsValid_of_unchanged hslots (congrArg Prod.snd hget) ?_
        rintro ⟨i, hi1, hfail⟩
        rw [show i = 0 by omega, Nat.add_zero, hread] at hfail
        cases hfail
  · have hget : getBlock fs ino iblock true = (.error (-ENOSPC), fs) := by
      unfold getBlock
      rw [if_pos (by omega)]
    have hfs : (getBlock fs ino iblock true).2 = fs.after 0 fs.dev.data := congrArg Prod.snd hget
    refine recordsValid_of_unchanged hslots hfs ?_
    rintro ⟨i, hi0, -⟩
    omega

end

/-- Whatever reads fail, a call on a file of a consistent image records no invalid number and
reports a failed read, exactly when the search for a free block does not break. -/
theorem recordsValid_iff {fs : Fs} (hg : Geometry fs.sb) (hsize : fs.dev.blocksize = 4096)
    (hc : Consistent fs.sb fs.dev.data) {ino : UInt32} (hfile : ListedFile fs.sb fs.dev.data ino)
    (iblock : Nat) : RecordsValid fs ino iblock ↔ ¬ SearchBreaks fs ino iblock := by
  constructor
  · intro hvalid hbreaks
    exact hbreaks.not_recordsValid hg hsize hfile.inTable hvalid
  · exact recordsValid_of_not_breaks hg hsize hfile.inTable (hc.slotsValid hfile)

/-- Reads fail behind the inode and the free bits: the block behind the text is recorded. -/
theorem recordsValid_iff_eight : ∃ o', makeAkpfs ⟨⟨fun _ => 0, 0⟩, fun _ => false, 0⟩ 32768 4096
      (fun _ => 0) = .ok o' ∧
    let fs : Fs := ⟨⟨o'.fd.data, 4096, fun n => decide (2 ≤ n), 0⟩, Sb.ofMem o'.fd.data⟩
    (inode fs.sb (getBlock fs 2 1 true).2.dev.data 2).slot 1 = 4 ∧ RecordsValid fs 2 1 := by
  obtain ⟨o', hok, hcomp, hf, hcons, hlisted⟩ := makeAkpfs_eight
  refine ⟨o', hok, ?_⟩
  intro fs
  have hg : Geometry fs.sb := hcomp.geometry
  have hsearch : SearchReads (fs.after 1 fs.dev.data) := by
    intro j hj _
    have hcnt : fs.sb.freeBitsBlockCnt.toNat = 1 := hcomp.freeBitsBlockCnt
    rw [Fs.after_sb, hcnt] at hj
    rw [show j = 0 by omega]
    rfl
  have hword : fs.dev.data.word (slotAddrOf fs.sb 2 1) = 0 := by
    rw [← slot_eq (by omega), hf.file_eq, slot_fileInodeOf, if_neg (by omega)]
  refine ⟨?_, (recordsValid_iff hg rfl hcons hlisted 1).2 fun h => h.search hsearch⟩
  obtain ⟨k, hk, -⟩ :=
    getBlock_of_taken hg rfl hlisted.inTable (show 1 < 27 by omega) rfl hword hsearch
  have hdata : (Sb.ofMem o'.fd.data).dataBlockStart.toNat = 3 := hcomp.dataBlockStart
  have hblocks : (Sb.ofMem o'.fd.data).blockCnt.toNat = 8 := hcomp.blockCnt
  have hfirst := hf.firstClear_eq hg (by omega)
  rw [hdata] at hfirst
  have htaken := takenBit_eq_some_iff.2 ⟨hfirst, show (3 + 1) % 4294967296 < _ by omega⟩
  rw [htaken] at hk
  rw [hk, Fs.after_data]
  exact ((inode_setSlot (by omega) _).2 1).trans (if_pos rfl)

/-- The first block of the free bits cannot be read: `-EIO` becomes block 4294967291 of the file. -/
theorem recordsValid_false : ∃ o', makeAkpfs ⟨⟨fun _ => 0, 0⟩, fun _ => false, 0⟩ 32768 4096
      (fun _ => 0) = .ok o' ∧
    let fs : Fs := ⟨⟨o'.fd.data, 4096, fun n => n == 1, 0⟩, Sb.ofMem o'.fd.data⟩
    Geometry fs.sb ∧ Consistent fs.sb fs.dev.data ∧ ListedFile fs.sb fs.dev.data 2 ∧
      (getBlock fs 2 1 true).1 = .ok 4294967291 ∧
      (inode fs.sb (getBlock fs 2 1 true).2.dev.data 2).slot 1 = 4294967291 ∧
      ¬ RecordsValid fs 2 1 := by
  obtain ⟨o', hok, hcomp, hf, hcons, hlisted⟩ := makeAkpfs_eight
  have hg := hcomp.geometry
  have hcnt : (Sb.ofMem o'.fd.data).freeBitsBlockCnt.toNat = 1 := hcomp.freeBitsBlockCnt
  have hslot : (inode (Sb.ofMem o'.fd.data) o'.fd.data 2).slot 1 = 0 := by
    rw [hf.file_eq, slot_fileInodeOf, if_neg (by omega)]
  refine ⟨o', hok, hg, hcons, hlisted, ?_⟩
  have hbreaks :
      SearchBreaks ⟨⟨o'.fd.data, 4096, fun n => n == 1, 0⟩, Sb.ofMem o'.fd.data⟩ 2 1 := by
    refine ⟨by decide, rfl, ?_, fun hsearch => ?_⟩
    · rw [← slot_eq (by decide)]
      exact hslot
    · have hfirst := hsearch 0 (Nat.lt_of_lt_of_eq Nat.one_pos hcnt.symm) fun e _ he => by omega
      cases hfirst
  obtain ⟨k, hk, -⟩ := hbreaks.getBlock_eq hg rfl hlisted.inTable
  refine ⟨congrArg Prod.fst hk, ?_, hbreaks.not_recordsValid hg rfl hlisted.inTable⟩
  rw [hk, Fs.after_data, (inode_setSlot (by decide) _).2, if_pos rfl]

end LinuxDrivers.Akpfs
