import LinuxDrivers.Sfs.Mount
import LinuxDrivers.Shell.Browse

/-!
# What the commands of the shell do

`State.info` is the volume that the shell works on, as the driver would hold it. With 512-byte
blocks, 64-byte entries and a table below the 32-bit limit, the sequential reads of the shell meet
the entries of that volume, and every command comes down to the same searches and the same changes
of entries and marks as in the driver.
-/

namespace LinuxDrivers.Shell

open Sfs (SuperBlock FileEntry Info Plain entryAddr toNat_entryAddr clear clear_cons)

/-- The volume behind the descriptor, as the driver would hold it. -/
def State.info (s : State) : Info where
  dev := ⟨s.fd.data, 512, fun _ => false, 0⟩
  bdBlockSize := 512
  sb := s.sb
  usedBlocks := s.usedBlocks

/-- The sizes and the table that the shell assumes. -/
structure Layout (sb : SuperBlock) : Prop where
  blockSize : sb.blockSize = 512
  entrySize : sb.entrySize = 64
  table_le : sb.entryTableBlockStart.toNat * 512 + sb.entryCount.toNat * 64 ≤ 4294967296

namespace State

@[simp] theorem info_lseek (s : State) (pos : Nat) : (s.lseek pos).info = s.info := rfl
@[simp] theorem sb_info (s : State) : s.info.sb = s.sb := rfl
@[simp] theorem sb_lseek (s : State) (pos : Nat) : (s.lseek pos).sb = s.sb := rfl
@[simp] theorem pos_lseek (s : State) (pos : Nat) : (s.lseek pos).fd.pos = pos := rfl
@[simp] theorem lseek_lseek (s : State) (p q : Nat) : (s.lseek p).lseek q = s.lseek q := rfl

end State

/-! ## Entries -/

section Entries

variable {s : State}

theorem Layout.plain (h : Layout s.sb) : Plain s.info := ⟨fun _ => rfl, rfl, rfl, h.blockSize⟩

theorem Layout.toNat_entryAddr {sb : SuperBlock} (h : Layout sb) {i : Nat}
    (hi : i < sb.entryCount.toNat) :
    (entryAddr sb i).toNat = sb.entryTableBlockStart.toNat * 512 + i * 64 := by
  have haddr := Sfs.toNat_entryAddr h.blockSize i
  have hle := h.table_le
  omega

theorem Layout.tableStart (h : Layout s.sb) (hne : 0 < s.sb.entryCount.toNat) :
    s.tableStart = s.sb.entryTableBlockStart.toNat * 512 := by
  have hle := h.table_le
  unfold State.tableStart
  rw [h.blockSize, UInt32.toNat_mul]
  simp only [UInt32.reduceToNat]
  omega

theorem Layout.entryOffset (h : Layout s.sb) (i : Int) :
    s.entryOffset i = (entryAddr s.sb i).toNat := by
  unfold State.entryOffset entryAddr
  rw [h.entrySize, UInt32.ofInt_mul]
  rfl

/-- At the position of entry `i`, a read gives that entry and moves to the next. -/
theorem Layout.readEntry (h : Layout s.sb) {i : Nat} (hi : i < s.sb.entryCount.toNat)
    (hpos : s.fd.pos = s.sb.entryTableBlockStart.toNat * 512 + i * 64) :
    s.readEntry = (s.info.entry i,
      s.lseek (s.sb.entryTableBlockStart.toNat * 512 + (i + 1) * 64)) := by
  have haddr := h.toNat_entryAddr hi
  have hnext : s.sb.entryTableBlockStart.toNat * 512 + (i + 1) * 64 = s.fd.pos + 64 := by omega
  have hentry : s.info.entry i = .ofMem (s.fd.data.window s.fd.pos) := by
    unfold Info.entry
    simp only [State.info, haddr, hpos]
  rw [hentry, hnext]
  rfl

/-- Rewriting an entry at its offset. -/
theorem Layout.info_writeEntry (h : Layout s.sb) (i : Int) (fe : FileEntry) :
    ((s.lseek (s.entryOffset i)).writeEntry fe).info = s.info.setEntry i fe := by
  rw [h.entryOffset]
  rfl

end Entries

/-! ## Scanning the table -/

theorem markEntries_eq {s : State} (h : Layout s.sb) {n i : Nat}
    (hn : i + n = s.sb.entryCount.toNat) (used : Nat → UInt8)
    (hpos : 0 < n → s.fd.pos = s.sb.entryTableBlockStart.toNat * 512 + i * 64) :
    ∃ pos, markEntries n used s = (Sfs.marks s.info.entries n i used, s.lseek pos) := by
  induction n generalizing s i used with
  | zero => exact ⟨s.fd.pos, rfl⟩
  | succ n ih =>
    obtain ⟨pos, hrun⟩ := ih (i := i + 1)
      (s := s.lseek (s.sb.entryTableBlockStart.toNat * 512 + (i + 1) * 64)) h (by simp; omega)
      (if (s.info.entry i).live then Sfs.mark used (s.info.entry i).chain else used)
      (fun _ => rfl)
    refine ⟨pos, ?_⟩
    unfold markEntries Sfs.marks
    rw [h.readEntry (by omega) (hpos (by omega)), s.info.entries_apply]
    simp only [State.info_lseek, State.lseek_lseek] at hrun
    simp only [Sfs.markBlocks_eq]
    rw [← hrun]
    unfold FileEntry.chain
    cases (s.info.entry i).live <;> rfl

/-- `init_browsing` of the shell marks the busy blocks. -/
theorem initBrowsing_eq {s : State} (h : Layout s.sb) : ∃ pos used,
    Sfs.MarksBusy s.info used ∧
      initBrowsing true s = some { s.lseek pos with usedBlocks := used } := by
  obtain ⟨pos, hrun⟩ := markEntries_eq (s := s.lseek s.tableStart) h
    (Nat.zero_add s.sb.entryCount.toNat)
    (fun i => if i < s.sb.dataBlockStart.toNat then 1 else 0)
    (fun hn => by simpa using h.tableStart hn)
  refine ⟨pos, _, Sfs.marksBusy_marks s.info, ?_⟩
  simp only [State.info_lseek, State.lseek_lseek] at hrun
  unfold initBrowsing
  simp only [Bool.not_true, Bool.false_eq_true, ↓reduceIte, hrun]
  rfl

theorem lookupFrom_eq {s : State} (h : Layout s.sb) (fn : CStr) {n i : Nat} (fe : FileEntry)
    (hn : i + n = s.sb.entryCount.toNat)
    (hpos : 0 < n → s.fd.pos = s.sb.entryTableBlockStart.toNat * 512 + i * 64) :
    ∃ pos fe', lookupFrom fn n i fe s =
      (match findFrom (fun i => (s.info.entry i).named fn) n i with
        | some j => ((j : Int), s.info.entry j)
        | none => (-1, fe'), s.lseek pos) := by
  induction n generalizing s i fe with
  | zero => exact ⟨s.fd.pos, fe, rfl⟩
  | succ n ih =>
    obtain ⟨pos, fe', hrun⟩ := ih (i := i + 1)
      (s := s.lseek (s.sb.entryTableBlockStart.toNat * 512 + (i + 1) * 64)) h (s.info.entry i)
      (by simp; omega) (fun _ => rfl)
    simp only [State.info_lseek, State.lseek_lseek] at hrun
    unfold lookupFrom findFrom
    rw [h.readEntry (by omega) (hpos (by omega))]
    by_cases hlive : (s.info.entry i).live = true
    · by_cases hname : (s.info.entry i).nameString = fn.bytes
      · have hnamed : (s.info.entry i).named fn = true := by
          simp [FileEntry.named, hlive, hname]
        simp only [hlive, hname, hnamed, Bool.not_true, Bool.false_eq_true, ↓reduceIte]
        exact ⟨_, fe, rfl⟩
      · have hnamed : (s.info.entry i).named fn = false := by simp [FileEntry.named, hname]
        simp only [hlive, hname, hnamed, Bool.not_true, Bool.false_eq_true, ↓reduceIte]
        exact ⟨pos, fe', hrun⟩
    · have hnamed : (s.info.entry i).named fn = false := by simp [FileEntry.named, hlive]
      simp only [hlive, hnamed, Bool.not_false, Bool.false_eq_true, ↓reduceIte]
      exact ⟨pos, fe', hrun⟩

/-- `sfs_lookup` of the shell finds the first entry of that name. -/
theorem sfsLookup_eq {s : State} (h : Layout s.sb) (fn : CStr) (fe : FileEntry) :
    ∃ pos fe', sfsLookup s fn fe =
      (match s.info.find fn with
        | some i => ((i : Int), s.info.entry i)
        | none => (-1, fe'), s.lseek pos) := by
  obtain ⟨pos, fe', hrun⟩ := lookupFrom_eq (s := s.lseek s.tableStart) h fn fe
    (Nat.zero_add s.sb.entryCount.toNat) (fun hn => by simpa using h.tableStart hn)
  exact ⟨pos, fe', hrun⟩

/-! ## Commands -/

theorem putBlocks_eq (bs : List UInt32) (s : State) : putBlocks bs s =
    { s with usedBlocks := clear s.usedBlocks (bs.takeWhile (· != 0)) } := by
  induction bs generalizing s with
  | nil => simp [putBlocks]
  | cons b bs ih =>
    unfold putBlocks
    by_cases hb : b = 0
    · simp [hb]
    · simp only [hb, ↓reduceIte, ih, List.takeWhile_cons, bne_iff_ne, ne_eq, not_false_eq_true,
        clear_cons]
      rfl

theorem natCast_ne_neg_one (i : Nat) : (i : Int) ≠ -1 := by omega

/-- `sfs_remove` of the shell releases the chain of the first entry of that name and clears the
entry. -/
theorem sfsRemove_eq {s : State} (h : Layout s.sb) (fn : CStr) :
    match s.info.find fn with
    | some i => (sfsRemove s fn).info = (s.info.setUsed
        (clear s.usedBlocks (s.info.entry i).chain)).setEntry i .zero ∧
        (sfsRemove s fn).out = s.out
    | none => (sfsRemove s fn).info = s.info ∧ (sfsRemove s fn).out = s.out ++ missing fn := by
  obtain ⟨pos, fe', hk⟩ := sfsLookup_eq h fn .zero
  unfold sfsRemove
  rw [hk]
  cases s.info.find fn with
  | none => exact ⟨rfl, rfl⟩
  | some i =>
    simp only [natCast_ne_neg_one, ↓reduceIte, putBlocks_eq]
    have hwrite := Layout.info_writeEntry
      (s := { s.lseek pos with usedBlocks := clear s.usedBlocks (s.info.entry i).chain }) h i .zero
    exact ⟨hwrite, rfl⟩

/-- `sfs_update` of the shell overwrites the given fields. -/
theorem sfsUpdate_eq {s : State} (h : Layout s.sb) (fn : CStr) (size now perms : Option Int) :
    match s.info.find fn with
    | some i => (sfsUpdate s fn size now perms).info =
        s.info.setEntry i ((s.info.entry i).updated size now perms) ∧
        (sfsUpdate s fn size now perms).out = s.out
    | none => (sfsUpdate s fn size now perms).info = s.info ∧
        (sfsUpdate s fn size now perms).out = s.out ++ missing fn := by
  obtain ⟨pos, fe', hk⟩ := sfsLookup_eq h fn .zero
  unfold sfsUpdate
  rw [hk]
  cases s.info.find fn with
  | none => exact ⟨rfl, rfl⟩
  | some i =>
    simp only [natCast_ne_neg_one, ↓reduceIte]
    exact ⟨Layout.info_writeEntry (s := s.lseek pos) h _ _, rfl⟩

theorem getDataBlock_eq (s : State) : getDataBlock s =
    match s.info.freeBlock with
    | some b => ((b : Int), { s with usedBlocks := Function.update s.usedBlocks b 1 })
    | none => (-1, s) := rfl

/-! ## Creating -/

/-- The entry at which the search of `sfs_create` stops: the first one that is free or has the
name. -/
def createStop (info : Info) (fn : CStr) : Option Nat :=
  findFrom (fun i => !(info.entry i).live || (info.entry i).named fn) info.sb.entryCount.toNat 0

theorem createStop_eq {info : Info} {fn : CStr} (hnone : info.find fn = none) :
    createStop info fn = info.freeEntry := by
  apply findFrom_congr
  intro k h1 h2
  rw [findFrom_eq_none.1 hnone k h1 h2, Bool.or_false]

theorem searchFree_eq {s : State} (h : Layout s.sb) (fn : CStr) {n i : Nat} (fe : FileEntry)
    (hn : i + n = s.sb.entryCount.toNat)
    (hpos : 0 < n → s.fd.pos = s.sb.entryTableBlockStart.toNat * 512 + i * 64) :
    match findFrom (fun i => !(s.info.entry i).live || (s.info.entry i).named fn) n i with
    | some j => searchFree fn n fe s =
        (if (s.info.entry j).live then .duplicate else .free, s.info.entry j,
          s.lseek (s.sb.entryTableBlockStart.toNat * 512 + (j + 1) * 64))
    | none => ∃ fe' pos, searchFree fn n fe s = (.full, fe', s.lseek pos) := by
  induction n generalizing s i fe with
  | zero => exact ⟨fe, s.fd.pos, rfl⟩
  | succ n ih =>
    have hrun := ih (i := i + 1)
      (s := s.lseek (s.sb.entryTableBlockStart.toNat * 512 + (i + 1) * 64)) h (s.info.entry i)
      (by simp; omega) (fun _ => rfl)
    simp only [State.info_lseek, State.lseek_lseek, State.sb_lseek] at hrun
    have hread := h.readEntry (by omega) (hpos (by omega))
    -- the found entry is a variable, so that the case splits do not evaluate the search
    have hfind : findFrom (fun i : Nat => !(s.info.entry i).live || (s.info.entry i).named fn)
        (n + 1) i = if !(s.info.entry i).live || (s.info.entry i).named fn then some i else
          findFrom (fun i : Nat => !(s.info.entry i).live || (s.info.entry i).named fn) n (i + 1) :=
      rfl
    generalize findFrom (fun i : Nat => !(s.info.entry i).live || (s.info.entry i).named fn)
      (n + 1) i = r at hfind ⊢
    rcases Bool.eq_false_or_eq_true (s.info.entry i).live with hlive | hlive
    · by_cases hname : (s.info.entry i).nameString = fn.bytes
      · rw [if_pos (by simp [FileEntry.named, hlive, hname])] at hfind
        subst hfind
        simp [searchFree, hread, hlive, hname]
      · rw [if_neg (by simp [FileEntry.named, hlive, hname])] at hfind
        have hstep : searchFree fn (n + 1) fe s = searchFree fn n (s.info.entry i)
            (s.lseek (s.sb.entryTableBlockStart.toNat * 512 + (i + 1) * 64)) := by
          simp [searchFree, hread, hlive, hname]
        rw [hfind, hstep]
        exact hrun
    · rw [if_pos (by simp [hlive])] at hfind
      subst hfind
      simp [searchFree, hread, hlive]

/-- `sfs_create` of the shell fills the entry at which its search stops, unless that has the name
already. -/
theorem sfsCreate_stop {s : State} (h : Layout s.sb) (fn : CStr) (now : Int) :
    match createStop s.info fn with
    | some i => if (s.info.entry i).live then
          (sfsCreate s fn now).info = s.info ∧ (sfsCreate s fn now).out = s.out ++ duplicate fn
        else
          (sfsCreate s fn now).info = s.info.setEntry i ((s.info.entry i).created fn 7 now) ∧
          (sfsCreate s fn now).out = s.out
    | none => (sfsCreate s fn now).info = s.info ∧ (sfsCreate s fn now).out = s.out ++ noEntries
    := by
  have hsearch := searchFree_eq (s := s.lseek s.tableStart) h fn .zero
    (Nat.zero_add s.sb.entryCount.toNat) (fun hn => by simpa using h.tableStart hn)
  simp only [State.info_lseek, State.lseek_lseek, State.sb_lseek] at hsearch
  have hcount : s.sb.entryCount.toNat = s.info.sb.entryCount.toNat := rfl
  unfold sfsCreate createStop
  cases hstop : findFrom (fun i => !(s.info.entry i).live || (s.info.entry i).named fn)
      s.info.sb.entryCount.toNat 0 with
  | none =>
    rw [hcount, hstop] at hsearch
    obtain ⟨fe', pos, hrun⟩ := hsearch
    rw [hcount, hrun]
    exact ⟨rfl, rfl⟩
  | some i =>
    rw [hcount, hstop] at hsearch
    simp only at hsearch
    rw [hcount, hsearch]
    dsimp only
    rw [ite_prop_iff_and]
    refine ⟨fun hlive => ?_, fun hlive => ?_⟩
    · simp only [hlive, ↓reduceIte]
      exact ⟨rfl, rfl⟩
    · simp only [hlive, Bool.false_eq_true, ↓reduceIte, State.sb_lseek, h.entrySize]
      -- the descriptor stands behind the entry that was read, one entry too far
      have hi : i < s.sb.entryCount.toNat := by
        have := (findFrom_eq_some hstop).2.1
        rwa [Nat.zero_add] at this
      have haddr := h.toNat_entryAddr hi
      have hback : (s.lseek (s.sb.entryTableBlockStart.toNat * 512 + (i + 1) * 64)).fd.seekBack
          (64 : UInt32).toNat = s.fd.lseek (entryAddr s.sb i).toNat := by
        have hpos : s.sb.entryTableBlockStart.toNat * 512 + (i + 1) * 64 - 64 =
            s.sb.entryTableBlockStart.toNat * 512 + i * 64 := by omega
        unfold Fd.seekBack State.lseek Fd.lseek
        simp only [UInt32.reduceToNat]
        rw [if_pos (by omega), haddr, hpos]
      rw [hback]
      exact ⟨rfl, rfl⟩

/-! ## Reading -/

/-- The bytes of a file whose block numbers are `bs` and whose size is `size`. -/
def fileBytes (data : Mem) : List UInt32 → Nat → List UInt8
  | [], _ => []
  | b :: bs, size =>
    if b = 0 then []
    else data.load (b.toNat * 512) (min 512 size) ++
      if size ≤ 512 then [] else fileBytes data bs (size - 512)

theorem toNat_mul_512 {b : UInt32} (hb : b.toNat < 2 ^ 23) : (b * 512).toNat = b.toNat * 512 := by
  rw [UInt32.toNat_mul]
  simp only [UInt32.reduceToNat]
  omega

/-- The blocks up to the size are read; what the slots behind them hold does not matter. -/
theorem readBlocks_eq {bs : List UInt32} {r : UInt32} {s : State} (hs : s.sb.blockSize = 512)
    (hbs : ∀ j b, bs[j]? = some b → 512 * j < r.toNat → b.toNat < 2 ^ 23) :
    (readBlocks bs r s).info = s.info ∧
      (readBlocks bs r s).out = s.out ++ fileBytes s.fd.data bs r.toNat := by
  induction bs generalizing r s with
  | nil => exact ⟨rfl, by simp [readBlocks, fileBytes]⟩
  | cons b bs ih =>
    unfold readBlocks fileBytes
    by_cases hb : b = 0
    · simp only [hb, ↓reduceIte, List.append_nil, and_self]
    · simp only [hb, ↓reduceIte, hs, ge_iff_le]
      -- one turn of the loop reads the smaller of a block and the rest
      obtain ⟨toRead, hto, hmin, hrest⟩ : ∃ toRead : UInt32,
          (if (512 : UInt32) ≤ r then 512 else r) = toRead ∧
          toRead.toNat = min 512 r.toNat ∧ (r - toRead).toNat = r.toNat - min 512 r.toNat := by
        refine ⟨_, rfl, ?_⟩
        have hle : (512 : UInt32) ≤ r ↔ 512 ≤ r.toNat := by
          rw [UInt32.le_iff_toNat_le]
          rfl
        split
        · next h => exact ⟨by have := hle.1 h; simp; omega, by
            rw [UInt32.toNat_sub_of_le _ _ h]
            have := hle.1 h
            simp only [UInt32.reduceToNat]
            omega⟩
        · next h => exact ⟨by have := mt hle.2 h; omega, by
            rw [UInt32.sub_self]
            have := mt hle.2 h
            simp only [UInt32.toNat_zero]
            omega⟩
      rw [hto]
      have hload : (s.block.store 0 toRead.toNat (s.fd.data.window (b * 512).toNat)).load 0
          toRead.toNat = s.fd.data.load (b.toNat * 512) (min 512 r.toNat) := by
        rw [hmin]
        unfold Mem.load
        apply List.map_congr_left
        intro k hk
        have hk' := List.mem_range.1 hk
        have haddr := toNat_mul_512 (hbs 0 b rfl (by omega))
        rw [Mem.store_window hk', Mem.window_apply, haddr]
      have hzero : r - toRead = 0 ↔ r.toNat ≤ 512 := by
        rw [← UInt32.toNat_inj, hrest, UInt32.toNat_zero]
        omega
      simp only [State.lseek, Fd.lseek, Fd.read, State.put, hload, hzero]
      by_cases hend : r.toNat ≤ 512
      · rw [if_pos hend, if_pos hend, List.append_nil]
        exact ⟨rfl, rfl⟩
      · obtain ⟨h1, h2⟩ := ih (r := r - toRead) (s := { s with
            fd := ⟨s.fd.data, (b * 512).toNat + toRead.toNat⟩
            block := s.block.store 0 toRead.toNat (s.fd.data.window (b * 512).toNat)
            out := s.out ++ s.fd.data.load (b.toNat * 512) (min 512 r.toNat) }) hs
          (fun j c hc hj => hbs (j + 1) c hc (by omega))
        simp only [hend, ↓reduceIte]
        refine ⟨h1, ?_⟩
        rw [h2, hrest, show r.toNat - min 512 r.toNat = r.toNat - 512 by omega]
        simp only [List.append_assoc]

/-- `sfs_read` of the shell prints the bytes of the first entry of that name. -/
theorem sfsRead_eq {s : State} (h : Layout s.sb) (fn : CStr) :
    match s.info.find fn with
    | some i => (∀ j, 512 * j < (s.info.entry i).size.toNat →
          ((s.info.entry i).block j).toNat < 2 ^ 23) →
        (sfsRead s fn).info = s.info ∧ (sfsRead s fn).out = s.out ++
          if (s.info.entry i).perms &&& 4 = 0 then notReadable fn
          else fileBytes s.fd.data (s.info.entry i).blocks.toList (s.info.entry i).size.toNat
    | none => (sfsRead s fn).info = s.info ∧ (sfsRead s fn).out = s.out ++ missing fn := by
  obtain ⟨pos, fe', hk⟩ := sfsLookup_eq h fn .zero
  unfold sfsRead
  rw [hk]
  cases s.info.find fn with
  | none => exact ⟨rfl, rfl⟩
  | some i =>
    intro hblocks
    simp only [natCast_ne_neg_one, ↓reduceIte]
    by_cases hperm : (s.info.entry i).perms &&& 4 = 0
    · rw [if_pos hperm, if_pos hperm]
      exact ⟨rfl, rfl⟩
    · rw [if_neg hperm, if_neg hperm]
      have hsmall : ∀ j b, (s.info.entry i).blocks.toList[j]? = some b →
          512 * j < (s.info.entry i).size.toNat → b.toNat < 2 ^ 23 := by
        intro j b hb hj
        have hblock : (s.info.entry i).block j = b := by
          obtain ⟨hj9, rfl⟩ := List.getElem?_eq_some_iff.1 hb
          rw [Vector.length_toList] at hj9
          simp [FileEntry.block, Vector.getD, hj9]
        rw [← hblock]
        exact hblocks j hj
      have hsize : (s.lseek pos).sb.blockSize = 512 := h.blockSize
      exact readBlocks_eq hsize hsmall

theorem readBlocks_info (bs : List UInt32) (r : UInt32) (s : State) :
    (readBlocks bs r s).info = s.info := by
  induction bs generalizing r s with
  | nil => rfl
  | cons b bs ih =>
    unfold readBlocks
    split
    · rfl
    · -- the size of the last piece does not matter
      generalize (if r ≥ s.sb.blockSize then s.sb.blockSize else r) = toRead
      simp only
      split
      · rfl
      · rw [ih]
        rfl

/-- `sfs_read` does not change the volume, wherever the block numbers point. -/
theorem sfsRead_info {s : State} (h : Layout s.sb) (fn : CStr) : (sfsRead s fn).info = s.info := by
  obtain ⟨pos, fe', hk⟩ := sfsLookup_eq h fn .zero
  unfold sfsRead
  rw [hk]
  cases s.info.find fn with
  | none => rfl
  | some i =>
    simp only [natCast_ne_neg_one, ↓reduceIte]
    split
    · rfl
    · rw [readBlocks_info]
      rfl

end LinuxDrivers.Shell
