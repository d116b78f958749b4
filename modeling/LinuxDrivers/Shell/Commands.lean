import LinuxDrivers.Sfs.Directory
import LinuxDrivers.Shell.Filling

/-!
# What one command does

A session may use any names, create files that exist, fill the volume and leave old block numbers
behind in the entries. Whatever the table looks like, a command leaves it alone or rewrites one
entry, and a write stores its data outside of the table as long as the offsets of its blocks fit in
32 bits.
-/

namespace LinuxDrivers.Shell

open Sfs (SuperBlock FileEntry Info Plain Mounted TableFits clear formatRealSfs formatSb)

/-- The file exists and can be written. -/
def Writable (s : State) (fn : CStr) : Prop :=
  (sfsLookup s fn .zero).1.1 ≠ -1 ∧ (sfsLookup s fn .zero).1.2.perms &&& 2 ≠ 0

/-- The file exists and can be read. -/
def Readable (s : State) (fn : CStr) : Prop :=
  (sfsLookup s fn .zero).1.1 ≠ -1 ∧ (sfsLookup s fn .zero).1.2.perms &&& 4 ≠ 0

/-- The number of free blocks once a write has freed those of the file. -/
def freeAfterRelease (s : State) (fn : CStr) : Nat :=
  freeCount (putBlocks (sfsLookup s fn .zero).1.2.blocks.toList s).info

instance (s : State) (fn : CStr) : Decidable (Writable s fn) := inferInstanceAs (Decidable (_ ∧ _))
instance (s : State) (fn : CStr) : Decidable (Readable s fn) := inferInstanceAs (Decidable (_ ∧ _))

/-- The fields of the super block that every session relies on. -/
structure Volume (sb : SuperBlock) : Prop extends Layout sb where
  fits : TableFits sb

theorem Volume.mounted {s : State} (h : Volume s.sb) : Mounted s.info := by
  have hle := h.table_le
  exact ⟨h.toLayout.plain, by rw [State.sb_info]; omega⟩

theorem formatSb_volume (size : Nat) : Volume (formatSb size) := by
  obtain ⟨f1, f2, f3⟩ := Sfs.formatSb_table size
  have htable : (formatSb size).entryTableBlockStart.toNat = 1 := rfl
  exact ⟨⟨rfl, rfl, by omega⟩, by unfold TableFits; omega⟩

/-- The shell starts on a formatted partition of any size and marks the busy blocks. -/
theorem start_eq (disk stack : Mem) (size : Nat) : ∃ s,
    start true (formatRealSfs disk size stack) = some s ∧ s.sb = formatSb size ∧
      s.fd.data = formatRealSfs disk size stack ∧ Sfs.MarksBusy s.info s.usedBlocks := by
  have hread : SuperBlock.ofMem ((formatRealSfs disk size stack).window 0) = formatSb size := by
    rw [← Sfs.formatRealSfs_sb disk size stack]
    apply SuperBlock.ofMem_congr
    intro k _
    rw [Mem.window_apply, Nat.zero_add]
  obtain ⟨pos, used, hbusy, hinit⟩ := initBrowsing_eq
    (s := ⟨⟨formatRealSfs disk size stack, 0 + 512⟩, formatSb size, fun _ => 0, fun _ => 0, []⟩)
    (formatSb_volume size).toLayout
  unfold start Fd.read
  simp only [hread]
  rw [if_neg (by simp [formatSb]), hinit]
  exact ⟨_, rfl, rfl, rfl, hbusy⟩

/-- A formatted partition of any size starts with an empty table. -/
theorem start_volume {disk stack : Mem} {size : Nat} {s : State}
    (hstart : start true (formatRealSfs disk size stack) = some s) :
    s.sb = formatSb size ∧ Volume s.sb ∧
      ∀ i : Nat, i < s.sb.entryCount.toNat → s.info.entry i = .zero := by
  obtain ⟨s', hstart', hsb, hdata, -⟩ := start_eq disk stack size
  obtain rfl := Option.some.inj (hstart.symm.trans hstart')
  refine ⟨hsb, hsb ▸ formatSb_volume size, fun i hi => ?_⟩
  obtain ⟨f1, f2, f3⟩ := Sfs.formatSb_table size
  have htable : (formatSb size).entryTableBlockStart.toNat = 1 := rfl
  have haddr := Sfs.toNat_entryAddr (rfl : (formatSb size).blockSize = 512) i
  rw [hsb] at hi
  apply FileEntry.ofMem_zero
  intro k hk
  change s.fd.data ((Sfs.entryAddr s.sb i).toNat + k) = 0
  rw [hdata, hsb]
  apply Sfs.formatRealSfs_table <;> omega

/-- The volume once the blocks of entry `i` are released. -/
def released (s : State) (i : Nat) : Info :=
  s.info.setUsed (clear s.usedBlocks (s.info.entry i).chain)

section Lookup

variable {s : State} {fn : CStr}

theorem lookup_none (h : Layout s.sb) :
    (sfsLookup s fn .zero).1.1 = -1 ↔ s.info.find fn = none := by
  obtain ⟨pos, fe', hk⟩ := sfsLookup_eq h fn .zero
  rw [hk]
  cases s.info.find fn with
  | none => simp
  | some i => simp [natCast_ne_neg_one]

theorem lookup_some (h : Layout s.sb) {i : Nat} (hfind : s.info.find fn = some i) :
    (sfsLookup s fn .zero).1 = ((i : Int), s.info.entry i) := by
  obtain ⟨pos, fe', hk⟩ := sfsLookup_eq h fn .zero
  rw [hk, hfind]

theorem writable_iff (h : Layout s.sb) : Writable s fn ↔
    ∃ i : Nat, s.info.find fn = some i ∧ (s.info.entry i).perms &&& 2 ≠ 0 := by
  unfold Writable
  constructor
  · rintro ⟨h1, h2⟩
    rw [ne_eq, lookup_none h] at h1
    obtain ⟨i, hi⟩ := Option.ne_none_iff_exists'.1 h1
    rw [lookup_some h hi] at h2
    exact ⟨i, hi, h2⟩
  · rintro ⟨i, hi, h2⟩
    rw [lookup_some h hi]
    exact ⟨natCast_ne_neg_one i, h2⟩

theorem freeAfterRelease_eq (h : Layout s.sb) {i : Nat} (hfind : s.info.find fn = some i) :
    freeAfterRelease s fn = freeCount (released s i) := by
  unfold freeAfterRelease
  rw [lookup_some h hfind, putBlocks_eq]
  rfl

end Lookup

/-- The volume after a write to entry `i`. -/
def written (s : State) (i : Nat) (stdin : Stdin) (now : Int) : Info :=
  let r := storeInput stdin.flatten (s.info.entry i) (released s i)
  r.2.2.setEntry i { r.2.1 with size := .ofNat r.1, timestamp := .ofInt now }

theorem sfsWrite_written {s : State} (h : Layout s.sb) {fn : CStr} {i : Nat}
    (hfind : s.info.find fn = some i) (hperm : (s.info.entry i).perms &&& 2 ≠ 0) {stdin : Stdin}
    (hroom : Addressable (released s i) (blocksFor 0 stdin.flatten)) (hstdin : ∀ c ∈ stdin, c ≠ [])
    (now : Int) : (sfsWrite s fn stdin now).info = written s i stdin now := by
  have hc := sfsWrite_eq h fn (fun j hj _ => by
    rw [hfind, Option.some.injEq] at hj
    subst hj
    exact hroom) hstdin now
  rw [hfind] at hc
  simp only [hperm, ↓reduceIte] at hc
  exact hc.1

@[simp] theorem entry_released (s : State) (i : Nat) (j : Int) :
    (released s i).entry j = s.info.entry j :=
  s.info.entry_setUsed _ j

@[simp] theorem sb_released (s : State) (i : Nat) : (released s i).sb = s.sb := rfl

@[simp] theorem slot_released (s : State) (i : Nat) (p : Nat × Nat) :
    (released s i).slot p = s.info.slot p :=
  s.info.slot_setUsed _ p

@[simp] theorem usedBlocks_released (s : State) (i : Nat) :
    (released s i).usedBlocks = clear s.usedBlocks (s.info.entry i).chain := rfl


/-! ## Commands -/

namespace Command

/-- Every read of the input before its end gives something. -/
def Delivered : Command → Prop
  | .write _ stdin _ => ∀ c ∈ stdin, c ≠ []
  | _ => True

/-- A write that takes place takes only blocks with 32-bit offsets. -/
def InReach (s : State) : Command → Prop
  | .write fn stdin _ => Writable s fn →
      Addressable (putBlocks (sfsLookup s fn .zero).1.2.blocks.toList s).info
        (blocksFor 0 stdin.flatten)
  | _ => True

instance (cmd : Command) : Decidable cmd.Delivered := by
  rcases cmd with _ | _ | _ | _ | _ <;> dsimp only [Delivered] <;> infer_instance

instance (s : State) (cmd : Command) : Decidable (cmd.InReach s) := by
  rcases cmd with _ | _ | _ | _ | _ <;> dsimp only [InReach] <;> infer_instance

/-- On a volume of at most `2 ^ 23` blocks every offset fits. -/
theorem InReach.of_small {s : State} (h : s.sb.partitionSize.toNat ≤ 2 ^ 23) (cmd : Command) :
    cmd.InReach s := by
  cases cmd with
  | write fn stdin now =>
    intro _
    rw [putBlocks_eq]
    exact .inl h
  | _ => trivial

theorem InReach.addressable {s : State} (hl : Layout s.sb) {fn : CStr} {stdin : Stdin} {now : Int}
    (h : (write fn stdin now).InReach s) {i : Nat} (hfind : s.info.find fn = some i)
    (hperm : (s.info.entry i).perms &&& 2 ≠ 0) :
    Addressable (released s i) (blocksFor 0 stdin.flatten) := by
  have haddr := h ((writable_iff hl).2 ⟨i, hfind, hperm⟩)
  rw [lookup_some hl hfind, putBlocks_eq] at haddr
  exact haddr

/-- Everything a command can do to the volume. -/
theorem exec_effect {s : State} (h : Layout s.sb) {cmd : Command} (hfed : cmd.Delivered)
    (hreach : cmd.InReach s) :
    (cmd.exec s).info = s.info ∨
    (∃ fn now i, cmd = .create fn now ∧ createStop s.info fn = some i ∧
      (s.info.entry i).live = false ∧
      (cmd.exec s).info = s.info.setEntry i ((s.info.entry i).created fn 7 now)) ∨
    (∃ fn i, cmd = .remove fn ∧ s.info.find fn = some i ∧
      (cmd.exec s).info = (released s i).setEntry i .zero) ∨
    (∃ perm fn i, cmd = .chperm perm fn ∧ s.info.find fn = some i ∧ (cmd.exec s).info =
      s.info.setEntry i ((s.info.entry i).updated none none (some perm))) ∨
    (∃ fn stdin now i, cmd = .write fn stdin now ∧ s.info.find fn = some i ∧
      Writable s fn ∧ (cmd.exec s).info = written s i stdin now) := by
  cases cmd with
  | create fn now =>
    have hc := sfsCreate_stop h fn now
    cases hstop : createStop s.info fn with
    | none =>
      rw [hstop] at hc
      exact .inl hc.1
    | some i =>
      rw [hstop] at hc
      by_cases hlive : (s.info.entry i).live = true
      · simp only [hlive, ↓reduceIte] at hc
        exact .inl hc.1
      · simp only [hlive, Bool.false_eq_true, ↓reduceIte] at hc
        exact .inr (.inl ⟨fn, now, i, rfl, hstop, by simpa using hlive, hc.1⟩)
  | remove fn =>
    have hc := sfsRemove_eq h fn
    cases hfind : s.info.find fn with
    | none =>
      rw [hfind] at hc
      exact .inl hc.1
    | some i =>
      rw [hfind] at hc
      exact .inr (.inr (.inl ⟨fn, i, rfl, hfind, hc.1⟩))
  | chperm perm fn =>
    have hc := sfsUpdate_eq h fn none none (some perm)
    cases hfind : s.info.find fn with
    | none =>
      rw [hfind] at hc
      exact .inl hc.1
    | some i =>
      rw [hfind] at hc
      exact .inr (.inr (.inr (.inl ⟨perm, fn, i, rfl, hfind, hc.1⟩)))
  | read fn => exact .inl (sfsRead_info h fn)
  | write fn stdin now =>
    have hc := sfsWrite_eq h fn (fun i hfind hperm => hreach.addressable h hfind hperm) hfed now
    cases hfind : s.info.find fn with
    | none =>
      rw [hfind] at hc
      exact .inl hc.1
    | some i =>
      rw [hfind] at hc
      by_cases hperm : (s.info.entry i).perms &&& 2 = 0
      · simp only [hperm, ↓reduceIte] at hc
        exact .inl hc.1
      · simp only [hperm, ↓reduceIte] at hc
        exact .inr (.inr (.inr (.inr ⟨fn, stdin, now, i, rfl, hfind,
          (writable_iff h).2 ⟨i, hfind, hperm⟩, hc.1⟩)))

/-- No command changes the super block. -/
theorem sb_exec {s : State} (h : Layout s.sb) {cmd : Command} (hfed : cmd.Delivered)
    (hreach : cmd.InReach s) : (cmd.exec s).sb = s.sb := by
  rw [← State.sb_info]
  obtain he | ⟨_, _, _, -, -, -, he⟩ | ⟨_, _, -, -, he⟩ | ⟨_, _, _, -, -, he⟩ |
    ⟨_, _, _, _, -, -, -, he⟩ := exec_effect h hfed hreach <;> rw [he]
  · rfl
  · rfl
  · rfl
  · rfl
  · exact storeInput_sb _ _ _

end Command

/-! ## What a write does to the table -/

/-- `info'` has the table of `info`. -/
structure SameTable (info info' : Info) : Prop where
  plain : Plain info'
  sb_eq : info'.sb = info.sb
  entry_eq : ∀ i : Nat, i < info.sb.entryCount.toNat → info'.entry i = info.entry i

theorem SameTable.refl {info : Info} (h : Plain info) : SameTable info info :=
  ⟨h, rfl, fun _ _ => rfl⟩

theorem SameTable.trans {info info' info'' : Info} (h : SameTable info info')
    (h' : SameTable info' info'') : SameTable info info'' where
  plain := h'.plain
  sb_eq := h'.sb_eq.trans h.sb_eq
  entry_eq i hi := (h'.entry_eq i (by rw [h.sb_eq]; exact hi)).trans (h.entry_eq i hi)

/-- `fe'` is `fe` with some slots set to data blocks. -/
structure Refilled (sb : SuperBlock) (fe fe' : FileEntry) : Prop where
  name_eq : fe'.name = fe.name
  block : ∀ j, fe'.block j = fe.block j ∨
    sb.dataBlockStart.toNat ≤ (fe'.block j).toNat ∧ (fe'.block j).toNat < sb.partitionSize.toNat

theorem Refilled.refl (sb : SuperBlock) (fe : FileEntry) : Refilled sb fe fe :=
  ⟨rfl, fun _ => .inl rfl⟩

theorem Refilled.trans {sb : SuperBlock} {fe fe' fe'' : FileEntry} (h : Refilled sb fe fe')
    (h' : Refilled sb fe' fe'') : Refilled sb fe fe'' := by
  refine ⟨h'.name_eq.trans h.name_eq, fun j => ?_⟩
  rcases h'.block j with hj | hj
  · rw [hj]
    exact h.block j
  · exact .inr hj

section Store

variable {info : Info} (hp : Plain info) (hfits : TableFits info.sb)
include hp hfits

/-- Filling the first free block. -/
theorem SameTable.fill {b : Nat} (hfree : info.freeBlock = some b) (bytes : List UInt8) :
    SameTable info (fillBlock info b bytes) where
  plain := ⟨hp.reliable, hp.blocksize, hp.bdBlockSize, hp.sbBlockSize⟩
  sb_eq := rfl
  entry_eq _ hi := entry_fillBlock hp hfits (Info.freeBlock_eq_some hfree).1 bytes hi

omit hp hfits in
theorem Refilled.setBlock {b : Nat} (hfree : info.freeBlock = some b) (fe : FileEntry) (n : Nat) :
    Refilled info.sb fe (fe.setBlock n (.ofInt b)) := by
  obtain ⟨h1, h2, -⟩ := Info.freeBlock_eq_some hfree
  have hbn := Info.toNat_freeBlock hfree
  refine ⟨rfl, fun j => ?_⟩
  rw [FileEntry.block_setBlock]
  split
  · exact .inr (by omega)
  · exact .inl rfl

/-- **The loop.** It stores all `q` blocks exactly when there are enough slots and free blocks. -/
theorem storeBlocks_table (q n : Nat) (d : List UInt8) (fe : FileEntry) :
    ∃ eof n' fe' info', storeBlocks q n d fe info = (eof, n', fe', info') ∧
      SameTable info info' ∧ Refilled info.sb fe fe' ∧
      (eof = true → n' = n + q ∧ freeCount info' + q = freeCount info) ∧
      (eof = false → 9 < n + q ∨ freeCount info < q) := by
  induction q generalizing n d fe info with
  | zero => exact ⟨true, n, fe, info, rfl, .refl hp, .refl _ _, fun _ => ⟨rfl, rfl⟩, by simp⟩
  | succ q ih =>
    unfold storeBlocks
    by_cases h9 : n = 9
    · rw [if_pos h9]
      exact ⟨false, n, fe, info, rfl, .refl hp, .refl _ _, by simp, fun _ => .inl (by omega)⟩
    · rw [if_neg h9]
      cases hfree : info.freeBlock with
      | none =>
        have hzero := freeCount_of_none hfree
        exact ⟨false, n, fe, info, rfl, .refl hp, .refl _ _, by simp, fun _ => .inr (by omega)⟩
      | some b =>
        have hsame := SameTable.fill hp hfits hfree (d.take 512)
        have hcount := freeCount_fillBlock hfree (d.take 512)
        obtain ⟨eof, n', fe', info', hrun, htable, hfe, htrue, hfalse⟩ :=
          ih hsame.plain hfits (n + 1) (d.drop 512) (fe.setBlock n (.ofInt b))
        refine ⟨eof, n', fe', info', hrun, hsame.trans htable,
          (Refilled.setBlock hfree fe n).trans hfe, fun he => ?_, fun he => ?_⟩
        · have := htrue he
          omega
        · have := hfalse he
          omega

/-- A partial block at the end of the input finds the volume full. -/
def Overflows (info : Info) (d : List UInt8) : Prop :=
  d.length % 512 ≠ 0 ∧ d.length / 512 < 9 ∧ freeCount info = d.length / 512

/-- **All input.** The table stays as it is, and the entry in memory gets data blocks only, except
for the `-1` of a failed allocation. -/
theorem storeInput_table (d : List UInt8) (fe : FileEntry) :
    SameTable info (storeInput d fe info).2.2 ∧ (storeInput d fe info).2.1.name = fe.name ∧
      (Overflows info d → (storeInput d fe info).2.1.block (d.length / 512) = .ofInt (-1)) ∧
      (¬ Overflows info d → Refilled info.sb fe (storeInput d fe info).2.1) := by
  obtain ⟨eof, n, fe', info', hrun, hsame, hfe, htrue, hfalse⟩ :=
    storeBlocks_table hp hfits (d.length / 512) 0 d fe
  unfold storeInput
  rw [hrun]
  simp only
  by_cases htail : eof = true ∧ d.length % 512 ≠ 0
  · obtain ⟨rfl, hrest⟩ := htail
    obtain ⟨hn, hcount⟩ := htrue rfl
    rw [if_pos (by simpa using hrest)]
    unfold storeTail Overflows
    by_cases h9 : n = 9
    · rw [if_pos h9]
      exact ⟨hsame, hfe.name_eq, fun h => by omega, fun _ => hfe⟩
    · rw [if_neg h9]
      have hplain := hsame.plain
      cases hfree : info'.freeBlock with
      | none =>
        have hzero := freeCount_of_none hfree
        refine ⟨hsame, hfe.name_eq, fun h => ?_, fun h => absurd ⟨hrest, ?_, by omega⟩ h⟩
        · rw [FileEntry.block_setBlock, if_pos (by omega)]
        · have hle := storeBlocks_le (q := d.length / 512) (Nat.zero_le 9) d fe info
          rw [hrun] at hle
          simp only at hle
          omega
      | some b =>
        have hfill := SameTable.fill hplain (by rw [hsame.sb_eq]; exact hfits) hfree
          (d.drop (d.length / 512 * 512))
        have hset := Refilled.setBlock hfree fe' n
        rw [hsame.sb_eq] at hset
        have hpos := freeCount_fillBlock hfree []
        exact ⟨hsame.trans hfill, hfe.name_eq, fun h => by omega, fun _ => hfe.trans hset⟩
  · have hno : ¬ Overflows info d := by
      rintro ⟨h1, h2, h3⟩
      cases eof with
      | true => exact htail ⟨rfl, h1⟩
      | false =>
        have := hfalse rfl
        omega
    rw [if_neg (by simpa using htail)]
    exact ⟨hsame, hfe.name_eq, fun h => absurd h hno, fun _ => hfe⟩

end Store

theorem SameTable.released {s : State} (h : Volume s.sb) (i : Nat) :
    SameTable s.info (released s i) :=
  ⟨h.mounted.toPlain.setUsed _, rfl, fun j _ => entry_released s i j⟩

/-- **A write** rewrites one entry under its old name. -/
theorem written_table {s : State} (h : Volume s.sb) (i : Nat) (stdin : Stdin) (now : Int) :
    ∃ info fe, written s i stdin now = info.setEntry i fe ∧ SameTable s.info info ∧
      fe.name = (s.info.entry i).name ∧
      (Overflows (released s i) stdin.flatten →
        fe.block (stdin.flatten.length / 512) = .ofInt (-1)) ∧
      (¬ Overflows (released s i) stdin.flatten → Refilled s.sb (s.info.entry i) fe) := by
  have hrel := SameTable.released h i
  obtain ⟨htable, hname, hminus, hfill⟩ :=
    storeInput_table hrel.plain h.fits stdin.flatten (s.info.entry i)
  exact ⟨_, _, rfl, hrel.trans htable, hname, hminus, fun hno => ⟨hname, (hfill hno).block⟩⟩

theorem overflows_iff {s : State} (h : Layout s.sb) {fn : CStr} {stdin : Stdin} {i : Nat}
    (hfind : s.info.find fn = some i) : Overflows (released s i) stdin.flatten ↔
      stdin.flatten.length % 512 ≠ 0 ∧ stdin.flatten.length / 512 < 9 ∧
        freeAfterRelease s fn = stdin.flatten.length / 512 := by
  rw [freeAfterRelease_eq h hfind]
  rfl

end LinuxDrivers.Shell
