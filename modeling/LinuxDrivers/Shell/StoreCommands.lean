import LinuxDrivers.Sfs.FileRuns
import LinuxDrivers.Shell.Contents

/-!
# Commands on the store

The shell keeps the store of files that the driver keeps. It has no inodes, so the length of a file
is the one in its entry. Every command of the shell is one of the store, in what it prints and in
what it leaves.
-/

namespace LinuxDrivers.Shell

open Sfs (SuperBlock FileEntry Info Fs Plain Mounted NamedOnce ExactTable FileTable SoundFiles
  StoredFile FileStore IsName SbOnDisk OneEntry SameNames Keeps TableFits clear
  s2vInodeNum v2sInodeNum_s2vInodeNum toNat_ne_zero)

/-! ## Commands -/

namespace Command

/-- What a command prints and does to the store. A write takes as many blocks as the entry has slots
for and as there are once those of the file are free, and leaves out the rest of its input. -/
def onStore (st : FileStore) : Command → List UInt8 × FileStore
  | .create fn _ =>
    if st.slots = 0 then (noEntries, st)
    else ([], { st.put fn ⟨[], 0, 0, 7⟩ st.free with slots := st.slots - 1 })
  | .remove fn =>
    match st.file fn with
    | none => (missing fn, st)
    | some f => ([], ⟨Function.update st.file fn none, st.slots + 1, st.free + f.blocks⟩)
  | .chperm perm fn =>
    match st.file fn with
    | none => (missing fn, st)
    | some f =>
      ([], st.put fn { f with perms := if perm ≤ 7 then .ofInt perm else f.perms } st.free)
  | .read fn =>
    match st.file fn with
    | none => (missing fn, st)
    | some f => (if f.perms &&& 4 = 0 then notReadable fn else f.bytes, st)
  | .write fn stdin _ =>
    match st.file fn with
    | none => (missing fn, st)
    | some f =>
      if f.perms &&& 2 = 0 then (notWritable fn, st)
      else
        let n := min (Sfs.blocksFor stdin.flatten.length) (min 9 (f.blocks + st.free))
        let bytes := stdin.flatten.take (512 * n)
        ([], st.put fn ⟨bytes, n, bytes.length, f.perms⟩ (f.blocks + st.free - n))

theorem onStore_remove {st : FileStore} {fn : CStr} {f : StoredFile} (hf : st.file fn = some f) :
    (remove fn).onStore st =
      ([], ⟨Function.update st.file fn none, st.slots + 1, st.free + f.blocks⟩) := by
  simp only [onStore, hf]

theorem onStore_write_refused {st : FileStore} {fn : CStr} {f : StoredFile}
    (hf : st.file fn = some f) (hperm : f.perms &&& 2 = 0) {stdin : Stdin} {now : Int} :
    (write fn stdin now).onStore st = (notWritable fn, st) := by
  simp only [onStore, hf, hperm, ↓reduceIte]

theorem onStore_write {st : FileStore} {fn : CStr} {f : StoredFile} (hf : st.file fn = some f)
    (hperm : f.perms &&& 2 ≠ 0) {stdin : Stdin} {now : Int} :
    (write fn stdin now).onStore st =
      let n := min (Sfs.blocksFor stdin.flatten.length) (min 9 (f.blocks + st.free))
      let bytes := stdin.flatten.take (512 * n)
      ([], st.put fn ⟨bytes, n, bytes.length, f.perms⟩ (f.blocks + st.free - n)) := by
  simp only [onStore, hf, hperm, ↓reduceIte]

/-- Files are created under new names, every read of the input before its end gives something, and a
write leaves neither an old block behind its new ones nor a partial block that finds no room. -/
def Allowed (st : FileStore) : Command → Prop
  | .create fn _ => IsName fn ∧ st.file fn = none
  | .write fn stdin _ => (∀ c ∈ stdin, c ≠ []) ∧ ∀ f ∈ st.file fn, f.perms &&& 2 ≠ 0 →
      f.blocks ≤ Sfs.blocksFor stdin.flatten.length ∧
        ¬ (stdin.flatten.length % 512 ≠ 0 ∧ stdin.flatten.length / 512 < 9 ∧
          f.blocks + st.free = stdin.flatten.length / 512)
  | _ => True

instance (st : FileStore) (cmd : Command) : Decidable (cmd.Allowed st) := by
  rcases cmd with _ | _ | _ | _ | _ <;> dsimp only [Allowed] <;> infer_instance

end Command

/-- The store that the shell works on. -/
def State.store (s : State) : FileStore := s.info.reopened.store

/-! ## Stores that are written back -/

/-- Every byte was written back. -/
def Synced (st : FileStore) : Prop := ∀ fn, ∀ f ∈ st.file fn, f.bytes.length ≤ f.synced

theorem Synced.reopened_eq {st : FileStore} (h : Synced st) : st.reopened = st := by
  refine Sfs.FileStore.ext (funext fun fn => ?_) rfl rfl
  have hf := h fn
  simp only [FileStore.reopened]
  cases hfile : st.file fn with
  | none => rfl
  | some f =>
    rw [Option.map_some, List.take_of_length_le (hf f (by rw [hfile]; rfl))]

theorem Synced.put {st : FileStore} (h : Synced st) {f : StoredFile}
    (hf : f.bytes.length ≤ f.synced)
    (fn : CStr) (free : Nat) : Synced (st.put fn f free) := by
  intro fn' f' hf'
  simp only [FileStore.put, Function.update_apply] at hf'
  split at hf'
  · cases hf'
    exact hf
  · exact h fn' f' hf'

/-- A command leaves nothing to be written back. -/
theorem Synced.onStore {st : FileStore} (h : Synced st) (cmd : Command) :
    Synced (cmd.onStore st).2 := by
  cases cmd with
  | create fn now =>
    simp only [Command.onStore]
    split
    · exact h
    · exact h.put (f := ⟨[], 0, 0, 7⟩) (Nat.le_refl 0) fn st.free
  | remove fn =>
    simp only [Command.onStore]
    split
    · exact h
    · intro fn' f' hf'
      simp only [Function.update_apply] at hf'
      split at hf'
      · cases hf'
      · exact h fn' f' hf'
  | chperm perm fn =>
    simp only [Command.onStore]
    split
    · exact h
    · next f hf =>
      exact h.put (f := { f with perms := if perm ≤ 7 then .ofInt perm else f.perms })
        (h fn f hf) fn _
  | read fn =>
    simp only [Command.onStore]
    split <;> exact h
  | write fn stdin now =>
    simp only [Command.onStore]
    split
    · exact h
    · split
      · exact h
      · exact h.put (Nat.le_refl _) fn _

/-- The lengths of the files are those in the entries. -/
theorem State.synced (s : State) : Synced s.store := by
  intro fn f hf
  obtain ⟨i, -, rfl⟩ := Option.map_eq_some_iff.1 hf
  rw [Fs.length_bytes]
  simp only [Info.reopened, v2sInodeNum_s2vInodeNum]
  exact Nat.le_refl _

/-! ## Commands on a sound volume -/

section Commands

variable {sb : SuperBlock} {s : State} {fn : CStr} {i : Nat}

/-- What the driver would have on the volume, the shell has with the lengths in the entries. -/
theorem Agree.reopened {fs : Fs} (h : SoundFiles sb fs) (hagree : Agree fs.info s) :
    SoundFiles sb s.info.reopened ∧ s.store = fs.store.reopened := by
  obtain ⟨hfiles, hstore⟩ := h.reopened
  obtain ⟨⟨⟨data, blocksize, fails, reads⟩, bdBlockSize, sb', used⟩, size⟩ := fs
  obtain ⟨hsb, hdata, hused⟩ := hagree
  simp only at hsb hdata hused
  subst hsb hdata hused
  obtain rfl : blocksize = 512 := h.blocksize
  rw [← hstore]
  exact ⟨{ hfiles with reliable := fun _ => rfl, blocksize := rfl, bdBlockSize := rfl }, rfl⟩

/-- A command does to the store what it says, and prints what it says. -/
def Performs (sb : SuperBlock) (s : State) (cmd : Command) : Prop :=
  SoundFiles sb (cmd.exec s).info.reopened ∧
    (cmd.exec s).out = s.out ++ (cmd.onStore s.store).1 ∧
    (cmd.exec s).store = (cmd.onStore s.store).2

/-- It is enough that the driver could have the store on the volume. -/
theorem Performs.of_files {cmd : Command} {fs : Fs} (h : SoundFiles sb fs)
    (hagree : Agree fs.info (cmd.exec s)) (hstore : fs.store = (cmd.onStore s.store).2)
    (hout : (cmd.exec s).out = s.out ++ (cmd.onStore s.store).1) : Performs sb s cmd := by
  obtain ⟨hfiles, hreopened⟩ := hagree.reopened h
  refine ⟨hfiles, hout, hreopened.trans ?_⟩
  rw [hstore]
  exact (s.synced.onStore cmd).reopened_eq

/-- The shell works on a volume that the driver could have mounted. -/
structure SoundShell (sb : SuperBlock) (s : State) : Prop where
  small : SmallVolume sb
  files : SoundFiles sb s.info.reopened

namespace SoundShell

theorem table (h : SoundShell sb s) : FileTable sb s.info := h.files.toFileTable

theorem sb_eq (h : SoundShell sb s) : s.sb = sb := h.table.sb_eq

theorem smallVolume (h : SoundShell sb s) : SmallVolume s.sb := by
  rw [h.sb_eq]
  exact h.small

theorem layout (h : SoundShell sb s) : Layout s.sb := h.smallVolume.toLayout

/-- The table is in order for the commands of the shell. -/
theorem good (h : SoundShell sb s) : GoodTable s.info :=
  ⟨h.table.named, h.table.exact.toSound, h.table.contiguous⟩

end SoundShell

theorem State.store_file (hfind : s.info.find fn = some i) :
    s.store.file fn = some (s.info.reopened.fileAt i) :=
  @Fs.file_of_find s.info.reopened i fn hfind

theorem State.store_file_none (hfind : s.info.find fn = none) : s.store.file fn = none :=
  @Fs.file_of_find_none s.info.reopened fn hfind

theorem State.find_none (hnone : s.store.file fn = none) : s.info.find fn = none :=
  @Fs.file_eq_none s.info.reopened fn hnone

/-- The length of a file is the one in its entry. -/
theorem size_reopened (a : Info) (i : Nat) :
    a.reopened.size (s2vInodeNum i) = (a.entry i).size.toNat := by
  simp only [Info.reopened, v2sInodeNum_s2vInodeNum]

/-- Blocks with the same bytes hold the same data. -/
theorem data_congr {a a' : Info} (h : Plain a) (h' : Plain a') {b : Nat}
    (hbytes : ∀ k < 512, a'.dev.data (b * 512 + k) = a.dev.data (b * 512 + k)) :
    a'.data b = a.data b := by
  have hlt : ∀ k : Fin 512, a'.dev.data (b * 512 + k) = a.dev.data (b * 512 + k) :=
    fun k => hbytes k k.isLt
  unfold Info.data
  simp only [h.blocksize, h'.blocksize, hlt]

/-- An entry is rewritten under its name and with its blocks. -/
theorem FileTable.setEntry {a : Info} (h : FileTable sb a) (hi : i < sb.entryCount.toNat)
    {fe : FileEntry} (hname : fe.name = (a.entry i).name)
    (hblock : ∀ j, fe.block j = (a.entry i).block j) :
    FileTable sb (a.setEntry i fe) ∧ SameNames a (a.setEntry i fe) ∧
      ∀ j, Keeps j a (a.setEntry i fe) := by
  have hi' : i < a.sb.entryCount.toNat := by
    rw [h.sb_eq]
    exact hi
  have hm := h.toMounted.setEntry i fe
  have hslot (p : Nat × Nat) : (a.setEntry i fe).slot p = a.slot p := by
    rw [h.toMounted.slot_setEntry hi']
    split
    · next hp =>
      rw [hblock]
      obtain ⟨j, k⟩ := p
      obtain rfl : i = j := hp
      exact (Info.slot_of_lt hi' k).symm
    · rfl
  have hlive : fe.live = (a.entry i).live := by simp only [FileEntry.live, hname]
  have htable : ExactTable (a.setEntry i fe) := by
    have hcut : ExactTable ((a.setUsed (clear a.usedBlocks [])).setEntry i fe) := by
      refine h.toExactTable.cut h.toMounted hi' 9 [] (fun j => ?_) (fun b => ?_) fun hdead j => ?_
      · rw [hblock]
        split
        · rfl
        · exact FileEntry.block_of_le (by omega)
      · refine iff_of_false (List.not_mem_nil) ?_
        rintro ⟨hb, j, hj, rfl⟩
        exact hb (FileEntry.block_of_le hj)
      · have hzero := h.dead i hi' (hlive.symm.trans hdead) j
        rw [Info.slot_of_lt hi'] at hzero
        rw [hblock]
        exact UInt32.toNat_inj.1 hzero
    rwa [Sfs.clear_nil, Info.setUsed_self] at hcut
  have hsame : SameNames a (a.setEntry i fe) := by
    refine ⟨rfl, fun j _ => ?_⟩
    exact Sfs.name_setEntry h.toPlain hname j
  refine ⟨h.of_same hsame ⟨hm, h.toSbOnDisk.setEntry hi' fe, htable⟩, hsame, fun j => ⟨?_, ?_⟩⟩
  · exact fun k => hslot (j, k)
  · intro k hk
    refine data_congr h.toPlain hm.toPlain fun l _ => ?_
    exact data_setEntry h.toPlain h.vol.fits hi' fe (h.vol.sound.in_region _ hk).1

/-- A command that leaves the volume as it is. -/
theorem SoundShell.performs_nothing (h : SoundShell sb s) {cmd : Command} {text : List UInt8}
    (hon : cmd.onStore s.store = (text, s.store)) (hinfo : (cmd.exec s).info = s.info)
    (hout : (cmd.exec s).out = s.out ++ text) : Performs sb s cmd := by
  have hstore : (cmd.exec s).store = s.store := by
    unfold State.store
    rw [hinfo]
  refine ⟨?_, ?_, ?_⟩
  · rw [hinfo]
    exact h.files
  · rw [hon]
    exact hout
  · rw [hstore, hon]

theorem SoundShell.performs_create (h : SoundShell sb s) (hfn : IsName fn)
    (hnone : s.store.file fn = none) (now : Int) : Performs sb s (.create fn now) := by
  have hfind := State.find_none hnone
  have hstop := sfsCreate_stop h.layout fn now
  rw [createStop_eq hfind] at hstop
  have hiff := s.info.freeEntry_ne_none_iff
  obtain ⟨k, fe, hk⟩ := Sfs.sfsCreate_eq h.table.toPlain fn 7 now .zero
  rcases h.files.create hfn hfind 7 now with ⟨hfull, -⟩ | ⟨i, hroom, hino, -, -, hsound, -, hstore⟩
  · cases hfree : s.info.freeEntry with
    | none =>
      rw [hfree] at hstop
      refine h.performs_nothing ?_ hstop.1 hstop.2
      exact if_pos hfull
    | some j =>
      have hlt := hiff.1 (by simp [hfree])
      simp only [Fs.store, Info.reopened] at hfull
      omega
  · cases hfree : s.info.freeEntry with
    | none =>
      have hnot := mt hiff.2 (by simp [hfree])
      simp only [Fs.store, Info.reopened] at hroom
      omega
    | some j =>
      obtain ⟨-, hdead⟩ := Info.freeEntry_eq_some hfree
      rw [hfree] at hstop hk
      simp only [hdead, Bool.false_eq_true, ↓reduceIte] at hstop
      have hagree : Agree (Sfs.sfsCreate s.info fn 7 now .zero).2 (sfsCreate s fn now) := by
        rw [hk]
        exact .of_info hstop.1 rfl rfl rfl
      have hon : (Command.create fn now).onStore s.store = ([],
          { s.store.put fn ⟨[], 0, 0, 7⟩ s.store.free with slots := s.store.slots - 1 }) :=
        if_neg hroom
      refine .of_files hsound hagree ?_ ?_
      · rw [hon]
        exact hstore
      · rw [hon, List.append_nil]
        exact hstop.2

theorem SoundShell.performs_remove (h : SoundShell sb s) (fn : CStr) :
    Performs sb s (.remove fn) := by
  have hagree : Agree s.info s := ⟨rfl, rfl, rfl⟩
  have hnext := hagree.remove h.table.toPlain h.layout fn
  have hcode := sfsRemove_eq h.layout fn
  cases hfind : s.info.find fn with
  | none =>
    rw [hfind] at hcode
    refine h.performs_nothing ?_ hcode.1 hcode.2
    simp only [Command.onStore, State.store_file_none hfind]
  | some i =>
    rw [hfind] at hcode
    obtain ⟨-, hsound, hstore, -⟩ := h.files.remove hfind
    have hon := Command.onStore_remove (State.store_file hfind)
    refine .of_files hsound hnext ?_ ?_
    · rw [hon]
      exact hstore
    · rw [hon, List.append_nil]
      exact hcode.2

/-- Blocks pass between the file in entry `i` and the free ones. -/
theorem SoundShell.conserve (h : SoundShell sb s) (hi : i < sb.entryCount.toNat) {a : Info}
    (htable : FileTable sb a) (hone : OneEntry i s.info a) :
    a.held i + a.freeBlocks = (s.info.reopened.fileAt i).blocks + s.store.free := by
  refine h.table.toExactTable.conserve htable.toExactTable hone.sb ?_
    fun j _ hne => (hone.keeps j hne).held
  rw [h.table.sb_eq]
  exact hi

/-- A command that changes one file only. -/
theorem SoundShell.performs_put (h : SoundShell sb s) (hfind : s.info.find fn = some i) {a : Info}
    (htable : FileTable sb a) (hsame : SameNames s.info a) (hone : OneEntry i s.info a)
    (hle : (a.entry i).size.toNat ≤ 512 * a.held i) {cmd : Command}
    (hinfo : (cmd.exec s).info = a) (hout : (cmd.exec s).out = s.out)
    (hon : cmd.onStore s.store =
      ([], s.store.put fn (a.reopened.fileAt i) a.freeBlocks)) : Performs sb s cmd := by
  obtain ⟨hi, hlive⟩ := Sfs.find_lt hfind h.table.sb_eq
  let fs : Fs := ⟨a, Function.update s.info.reopened.size (s2vInodeNum i) (a.entry i).size.toNat⟩
  have hsize : fs.size (s2vInodeNum i) = (a.entry i).size.toNat := Function.update_self _ _ _
  have hsizes (j : Nat) (hj : j ≠ i) :
      fs.size (s2vInodeNum j) = s.info.reopened.size (s2vInodeNum j) :=
    Function.update_of_ne (fun e => hj (Sfs.s2vInodeNum_inj e)) _ _
  obtain ⟨hsound, hothers, -⟩ := h.files.replace fs hi htable hone hsizes fun _ => by
    rw [hsize]
    exact ⟨hle, Nat.le_refl _⟩
  have hfile : fs.fileAt i = a.reopened.fileAt i := by
    simp only [Fs.fileAt, hsize, size_reopened]
    rfl
  have hput : fs.store = s.store.put fn (fs.fileAt i) a.freeBlocks :=
    @SoundFiles.store_eq_put sb s.info.reopened fs i h.files hsame fn hfind hothers
  refine .of_files hsound (.of_info hinfo rfl rfl rfl) ?_ ?_
  · rw [hon, hput, hfile]
  · rw [hon, List.append_nil]
    exact hout

theorem SoundShell.performs_chperm (h : SoundShell sb s) (perm : Int) (fn : CStr) :
    Performs sb s (.chperm perm fn) := by
  have hcode := sfsUpdate_eq h.layout fn none none (some perm)
  cases hfind : s.info.find fn with
  | none =>
    rw [hfind] at hcode
    refine h.performs_nothing ?_ hcode.1 hcode.2
    simp only [Command.onStore, State.store_file_none hfind]
  | some i =>
    simp only [hfind] at hcode
    obtain ⟨hi, hlive⟩ := Sfs.find_lt hfind h.table.sb_eq
    have hi' : i < s.info.sb.entryCount.toNat := by
      rw [h.table.sb_eq]
      exact hi
    obtain ⟨htable, hsame, hkeeps⟩ := FileTable.setEntry h.table hi
      (FileEntry.name_updated (s.info.entry i) none none (some perm))
      (FileEntry.block_updated _ _ _ _)
    have hentry {j : Nat} (hj : j < s.info.sb.entryCount.toNat) := h.table.toMounted.entry_setEntry
      hi' hj ((s.info.entry i).updated none none (some perm))
    generalize s.info.setEntry i ((s.info.entry i).updated none none (some perm)) = a
      at hcode htable hsame hkeeps hentry
    have hone : OneEntry i s.info a :=
      ⟨hsame.sb, fun j hj hne => (hentry hj).trans (if_neg hne.symm), fun j _ => hkeeps j⟩
    have hheld := (hkeeps i).held
    have hsize : (a.entry i).size = (s.info.entry i).size := by
      rw [hentry hi', if_pos rfl]
      rfl
    have hperms : (a.entry i).perms =
        if perm ≤ 7 then .ofInt perm else (s.info.entry i).perms := by
      rw [hentry hi', if_pos rfl]
      rfl
    have hle := h.files.size_le i hi hlive
    have hbytes := h.files.bytes_keeps hi hlive (hkeeps i)
    have hfree : a.freeBlocks = s.store.free := by
      have hsum := h.conserve hi htable hone
      rw [hheld] at hsum
      exact Nat.add_left_cancel hsum
    rw [size_reopened] at hle hbytes
    refine h.performs_put hfind htable hsame hone ?_ hcode.1 hcode.2 ?_
    · rw [hsize, hheld]
      exact hle
    · simp only [Command.onStore, State.store_file hfind, hfree]
      simp only [Fs.fileAt, size_reopened] at hbytes ⊢
      change _ = ([], s.store.put fn ⟨(List.range (a.entry i).size.toNat).map (a.byte i), a.held i,
        (a.entry i).size.toNat, (a.entry i).perms⟩ s.store.free)
      rw [hsize, hbytes, hheld, hperms]
      rfl

theorem byte_eq {a : Info} (h : Plain a) (i p : Nat) :
    a.byte i p = a.dev.data (a.slot (i, p / 512) * 512 + p % 512) := by
  unfold Info.byte Info.data
  rw [Sfs.getD_ofFn _ (Nat.mod_lt p (by decide)), h.blocksize]

theorem getElem?_chunk (d : List UInt8) (j : Nat) {q : Nat} (hq : q < 512) :
    (chunk d j)[q]? = d[512 * j + q]? := by
  unfold chunk
  rw [List.getElem?_take_of_lt hq, List.getElem?_drop]

/-- A file holds what lies in its blocks. -/
theorem map_byte_eq {a : Info} (h : Plain a) {n : Nat} {d : List UInt8} (hn : n ≤ d.length)
    (hdata : ∀ j, 512 * j < n →
      a.dev.data.load (a.slot (i, j) * 512) (chunk d j).length = chunk d j) :
    (List.range n).map (a.byte i) = d.take n := by
  apply List.ext_getElem?
  intro p
  by_cases hp : p < n
  · have hq := Nat.mod_lt p (show 512 > 0 by decide)
    have hlen := length_chunk d (p / 512)
    have hbyte := congrArg (·[p % 512]?) (hdata (p / 512) (by omega))
    simp only [Mem.load, List.getElem?_map, getElem?_chunk d _ hq, Nat.div_add_mod] at hbyte
    rw [List.getElem?_range (by omega), Option.map_some] at hbyte
    rw [List.getElem?_take_of_lt hp, List.getElem?_map, List.getElem?_range hp, Option.map_some,
      byte_eq h, hbyte]
  · rw [List.getElem?_eq_none (by simp; omega), List.getElem?_eq_none (by simp; omega)]

/-- Every block of a file holds a part of its bytes. -/
theorem load_byte {a : Info} (h : Plain a) (n j : Nat) :
    a.dev.data.load (a.slot (i, j) * 512) (chunk ((List.range n).map (a.byte i)) j).length =
      chunk ((List.range n).map (a.byte i)) j := by
  have hlen := length_chunk ((List.range n).map (a.byte i)) j
  rw [List.length_map, List.length_range] at hlen
  apply List.ext_getElem?
  intro q
  by_cases hq : q < min 512 (n - 512 * j)
  · have hdiv : (512 * j + q) / 512 = j := by omega
    have hmod : (512 * j + q) % 512 = q := by omega
    rw [getElem?_chunk _ _ (by omega), hlen, Mem.load, List.getElem?_map, List.getElem?_map,
      List.getElem?_range hq, List.getElem?_range (by omega), Option.map_some, Option.map_some,
      byte_eq h, hdiv, hmod]
  · rw [List.getElem?_eq_none (by rw [Mem.length_load]; omega), List.getElem?_eq_none (by omega)]

theorem SoundShell.performs_read (h : SoundShell sb s) (fn : CStr) : Performs sb s (.read fn) := by
  have hinfo := sfsRead_info h.layout fn
  have hcode := sfsRead_eq h.layout fn
  cases hfind : s.info.find fn with
  | none =>
    rw [hfind] at hcode
    refine h.performs_nothing ?_ hinfo hcode.2
    simp only [Command.onStore, State.store_file_none hfind]
  | some i =>
    obtain ⟨hi, hlive⟩ := Sfs.find_lt hfind h.table.sb_eq
    have hi' : i < s.sb.entryCount.toNat := by
      rw [h.sb_eq]
      exact hi
    have hlt (j : Nat) := h.good.block_lt h.smallVolume i j hi'
    have hon : (Command.read fn).onStore s.store = (if (s.info.entry i).perms &&& 4 = 0
        then notReadable fn else (s.info.reopened.fileAt i).bytes, s.store) := by
      simp only [Command.onStore, State.store_file hfind]
      rfl
    by_cases hperm : (s.info.entry i).perms &&& 4 = 0
    · rw [if_pos hperm] at hon
      simp only [hfind, hperm, ↓reduceIte] at hcode
      exact h.performs_nothing hon hinfo (hcode fun j _ => hlt j).2
    · rw [if_neg hperm] at hon
      have hle := h.files.size_le i hi hlive
      have hlen := s.info.reopened.length_bytes i
      rw [size_reopened] at hle hlen
      refine h.performs_nothing hon hinfo ?_
      refine sfsRead_out h.layout hfind hperm hlen.symm (fun j hj => ⟨?_, hlt j⟩) fun j _ => ?_
      · rw [hlen] at hj
        have hj' : j < s.info.held i := by
          change _ ≤ 512 * s.info.held i at hle
          omega
        exact (Info.slot_ne_zero ((h.table.slot_ne_zero_iff i j).2 hj')).2
      · have hload := load_byte (i := i) h.table.toPlain (s.info.reopened.size (s2vInodeNum i)) j
        rw [Info.slot_of_lt hi'] at hload
        exact hload

end Commands

/-! ## Writes -/

/-- A filling in which nothing else is marked than what the entries hold. -/
structure ExactFilling (sb : SuperBlock) (base : Info) (i : Nat) (d : List UInt8) (n : Nat)
    (fe : FileEntry) (info : Info) : Prop extends Filling base i d n fe info where
  onDisk : SbOnDisk sb info
  exact : Ownership.Exact (· < base.sb.dataBlockStart.toNat)
    (fun b => base.sb.dataBlockStart.toNat ≤ b ∧ b < base.sb.partitionSize.toNat)
    (fun b => info.usedBlocks b = 1) (slotsWith base i n fe)
  binary : ∀ b, info.usedBlocks b = 0 ∨ info.usedBlocks b = 1
  perms_eq : fe.perms = (base.entry i).perms

section Write

variable {sb : SuperBlock} {s : State} {fn : CStr} {i : Nat}

/-- The data area does not hold the super block. -/
theorem SbOnDisk.fill {info : Info} (h : SbOnDisk sb info) {b : Nat} (hb : 0 < b)
    (bytes : List UInt8) : SbOnDisk sb (fillBlock info b bytes) := by
  refine ⟨h.sb_eq, ?_, h.type_eq, h.before_table, h.data_pos⟩
  rw [← h.onDisk]
  apply SuperBlock.ofMem_congr
  intro k hk
  exact Mem.store_of_not_mem (by omega)

theorem ExactFilling.fill {base info : Info} {d : List UInt8} {n : Nat} {fe : FileEntry}
    (h : ExactFilling sb base i d n fe info) (hfits : TableFits base.sb)
    (hpos : 0 < base.sb.dataBlockStart.toNat) (hn : n < 9) {b : Nat}
    (hfree : info.freeBlock = some b) :
    ExactFilling sb base i d (n + 1) (fe.setBlock n (.ofInt b)) (fillBlock info b (chunk d n)) := by
  obtain ⟨hb1, hb2, hb0⟩ := Info.freeBlock_eq_some hfree
  rw [h.sb_eq] at hb1 hb2
  have hslot := slotsWith_setBlock base i fe hn (Info.toNat_freeBlock hfree)
  have hused (c : Nat) : (fillBlock info b (chunk d n)).usedBlocks c =
      if c = b then 1 else info.usedBlocks c := Function.update_apply _ _ _ _
  refine ⟨h.toFilling.fill hfits hpos hn hfree, SbOnDisk.fill h.onDisk (by omega) _, ?_,
    fun c => ?_, h.perms_eq⟩
  · refine h.exact.assign (p := (i, n)) (b := b) ⟨hb1, hb2⟩ (by simp [hb0]) (by omega)
      (by simp [slotsWith]) (by rw [hslot, if_pos rfl]) (fun p hp => by rw [hslot, if_neg hp])
      fun c => ?_
    rw [hused]
    by_cases hc : c = b <;> simp [hc]
  · rw [hused]
    split
    · exact .inr rfl
    · exact h.binary c

/-- Releasing the blocks of a file is the first half of removing it. -/
theorem SoundShell.release (h : SoundShell sb s) (hfind : s.info.find fn = some i) :
    SoundFiles sb ((released s i).setEntry i .zero).reopened ∧
      freeCount (released s i) = (s.info.reopened.fileAt i).blocks + s.store.free := by
  obtain ⟨hsound, -, hstore⟩ := h.performs_remove fn
  have hcode := sfsRemove_eq h.layout fn
  simp only [hfind] at hcode
  have hinfo : ((Command.remove fn).exec s).info = (released s i).setEntry i .zero := hcode.1
  rw [hinfo] at hsound
  refine ⟨hsound, ?_⟩
  rw [Command.onStore_remove (State.store_file hfind), State.store, hinfo] at hstore
  have hfree : freeCount (released s i) = _ := congrArg FileStore.free hstore
  exact hfree.trans (Nat.add_comm _ _)

theorem SoundShell.filling (h : SoundShell sb s) (hfind : s.info.find fn = some i)
    (d : List UInt8) :
    ExactFilling sb (released s i) i d 0 (s.info.entry i) (released s i) := by
  obtain ⟨hi, -, -⟩ := Info.find_eq_some hfind
  have hm : Mounted (released s i) := h.table.toMounted.setUsed _
  have hsound : FileTable sb ((released s i).setEntry i .zero) := (h.release hfind).1.toFileTable
  have hslot : ((released s i).setEntry i .zero).slot =
      slotsWith (released s i) i 0 (s.info.entry i) := by
    funext p
    rw [hm.slot_setEntry hi]
    unfold slotsWith
    by_cases hp : p.1 = i
    · simp [hp]
    · rw [if_neg (Ne.symm hp), if_neg hp]
  refine ⟨h.good.filling hi d, h.table.toSbOnDisk.congr rfl rfl, ?_, hsound.binary, ?_⟩
  · rw [← hslot]
    exact hsound.exact
  · rw [entry_released]

/-- The blocks of the other files are not released. -/
theorem GoodTable.marked_released (h : GoodTable s.info) (hi : i < s.info.sb.entryCount.toNat)
    {p : Nat × Nat} (hp : s.info.slot p ≠ 0) (hne : p.1 ≠ i) :
    (released s i).usedBlocks (s.info.slot p) = 1 := by
  rw [usedBlocks_released, Sfs.clear_eq_one_iff]
  refine ⟨h.sound.marked p hp, fun hmem => ?_⟩
  obtain ⟨c, hc, hcp⟩ := List.mem_map.1 hmem
  obtain ⟨-, k, -, rfl⟩ := FileEntry.mem_chain hc
  rw [← Info.slot_of_lt hi] at hcp
  exact hne (congrArg Prod.fst (h.sound.inj p (i, k) hp hcp.symm))

/-- The filled entry is written to the table. -/
structure Filled (sb : SuperBlock) (s : State) (i : Nat) (d : List UInt8) (n : Nat) (a : Info) :
    Prop where
  table : FileTable sb a
  same : SameNames s.info a
  one : OneEntry i s.info a
  held : a.held i = n
  data : ∀ j < n, a.dev.data.load (a.slot (i, j) * 512) (chunk d j).length = chunk d j

theorem SoundShell.filled (h : SoundShell sb s) (hfind : s.info.find fn = some i)
    {d : List UInt8} {n : Nat} {fe fe' : FileEntry} {info : Info}
    (hfill : ExactFilling sb (released s i) i d n fe info)
    (hbehind : ∀ j, n ≤ j → ((released s i).entry i).block j = 0) (hname : fe'.name = fe.name)
    (hblock : ∀ j, fe'.block j = fe.block j) (hgood : GoodTable (info.setEntry i fe')) :
    Filled sb s i d n (info.setEntry i fe') := by
  obtain ⟨hi, hlive, -⟩ := Info.find_eq_some hfind
  have hslot := hfill.slot_setEntry h.good.table_le hi hbehind hblock
  have hm : Mounted info := ⟨hfill.plain, by rw [hfill.sb_eq]; exact h.good.table_le⟩
  have hi' : i < info.sb.entryCount.toNat := by
    rw [hfill.sb_eq]
    exact hi
  have hentry {j : Nat} (hj : j < s.info.sb.entryCount.toNat) :
      (info.setEntry i fe').entry j = if i = j then fe' else s.info.entry j := by
    rw [hm.entry_setEntry hi' (by rw [hfill.sb_eq]; exact hj), hfill.entry_eq j hj, entry_released]
  have hname' : fe'.name = (s.info.entry i).name := by
    rw [hname, hfill.name_eq, entry_released]
  have hother {j k : Nat} (hj : j ≠ i) : (info.setEntry i fe').slot (j, k) =
    s.info.slot (j, k) := by
    rw [hslot]
    exact if_neg hj
  have hown {k : Nat} (hk : k < n) :
      (info.setEntry i fe').slot (i, k) = (fe.block k).toNat := by
    rw [hslot]
    simp [slotsWith, hk]
  have hexact : ExactTable (info.setEntry i fe') := by
    refine ⟨?_, hfill.binary, hgood.contiguous, fun j hj hdead k => ?_⟩
    · rw [Info.sb_setEntry, hfill.sb_eq, funext hslot]
      exact hfill.exact
    · rw [Info.sb_setEntry, hfill.sb_eq] at hj
      rw [hentry hj] at hdead
      split at hdead
      · simp only [FileEntry.live, hname'] at hdead hlive
        rw [hdead] at hlive
        cases hlive
      · next hij =>
        rw [hother (Ne.symm hij)]
        exact h.table.dead j hj hdead k
  have htable : FileTable sb (info.setEntry i fe') :=
    .of_named ⟨hm.setEntry i fe', hfill.onDisk.setEntry hi' fe', hexact⟩ h.table.fits
      hgood.toNamedOnce
  have hfits : TableFits info.sb := by
    rw [hfill.sb_eq]
    exact h.smallVolume.fits
  refine ⟨htable, ⟨hfill.sb_eq, fun j hj => ?_⟩, ⟨hfill.sb_eq, fun j hj hne => ?_, fun j hne => ?_⟩,
    ?_, fun j hj => ?_⟩
  · rw [hentry hj]
    split
    · next hij => rw [← hij, hname']
    · rfl
  · rw [hentry hj, if_neg hne.symm]
  · refine ⟨fun k => hother hne, fun k hk => ?_⟩
    -- the block is still marked after the release, so it has not been written to
    have hle := (h.table.exact.in_region (j, k) hk).1
    have hmarked := GoodTable.marked_released h.good hi hk hne
    refine data_congr h.table.toPlain (hm.setEntry i fe').toPlain fun l hl => ?_
    rw [data_setEntry hm.toPlain hfits hi' fe' (by rw [hfill.sb_eq]; exact hle)]
    exact hfill.untouched _ l hmarked hl
  · have hiff (k : Nat) : k < (info.setEntry i fe').held i ↔ k < n := by
      rw [← htable.slot_ne_zero_iff, hslot]
      by_cases hk : k < n
      · simp only [slotsWith, hk, ↓reduceIte, iff_true]
        exact toNat_ne_zero.2 (hfill.filled k hk)
      · simp [slotsWith, hk]
    have h1 := hiff n
    have h2 := hiff ((info.setEntry i fe').held i)
    omega
  · have hregion := (htable.exact.in_region (i, j) (by
      rw [hown hj]
      exact toNat_ne_zero.2 (hfill.filled j hj))).1
    rw [hown hj] at hregion ⊢
    nth_rewrite 2 [← hfill.written j hj]
    apply Mem.load_congr
    intro k _
    exact data_setEntry hm.toPlain hfits hi' fe' hregion

/-- What a write leaves of its input. -/
theorem SoundShell.filled_written (h : SoundShell sb s) (hfind : s.info.find fn = some i)
    {stdin : Stdin}
    (hblocks : (s.info.reopened.fileAt i).blocks ≤ Sfs.blocksFor stdin.flatten.length)
    (htail : ¬ (stdin.flatten.length % 512 ≠ 0 ∧ stdin.flatten.length / 512 < 9 ∧
      (s.info.reopened.fileAt i).blocks + s.store.free = stdin.flatten.length / 512)) (now : Int) :
    let n := min (Sfs.blocksFor stdin.flatten.length)
      (min 9 ((s.info.reopened.fileAt i).blocks + s.store.free))
    Filled sb s i stdin.flatten n (written s i stdin now) ∧
      ((written s i stdin now).entry i).size.toNat = min stdin.flatten.length (512 * n) ∧
      ((written s i stdin now).entry i).perms = (s.info.entry i).perms := by
  intro n
  obtain ⟨hi, hlive, -⟩ := Info.find_eq_some hfind
  have hfree := (h.release hfind).2
  have hfits : TableFits s.sb := h.smallVolume.fits
  rw [← hfree] at htail
  have hslot : (s.info.entry i).block ((stdin.flatten.length + 511) / 512) = 0 := by
    by_contra hne
    have hheld := toNat_ne_zero.2 hne
    rw [← Info.slot_of_lt hi, h.table.slot_ne_zero_iff] at hheld
    exact absurd hheld (Nat.not_lt.2 hblocks)
  have hgood := h.good.written h.smallVolume hi hslot htail now
  obtain ⟨m, hfill, hend⟩ := @storeInput_rule (ExactFilling sb (released s i) i stdin.flatten)
    stdin.flatten (fun hP hn hb => hP.fill hfits (hfits.dataBlockStart_pos hi) hn hb)
    (s.info.entry i) (released s i) (h.filling hfind stdin.flatten) htail
  unfold Shell.written at hgood ⊢
  generalize storeInput stdin.flatten (s.info.entry i) (released s i) = r at hgood hfill hend ⊢
  obtain ⟨total, fe, info⟩ := r
  simp only at hgood hfill hend ⊢
  have h9 := hfill.le_nine
  have hcount := hfill.count
  have hbehind := h.good.slots_behind hi hslot (n := m) (by omega)
  rw [← entry_released s i] at hbehind
  have hneeded : Sfs.blocksFor stdin.flatten.length = (stdin.flatten.length + 511) / 512 := rfl
  obtain rfl : m = n := by omega
  have hm : Mounted info := ⟨hfill.plain, by rw [hfill.sb_eq]; exact h.good.table_le⟩
  have hi' : i < info.sb.entryCount.toNat := by
    rw [hfill.sb_eq]
    exact hi
  refine ⟨h.filled hfind hfill hbehind rfl (fun _ => rfl) hgood, ?_, ?_⟩
  · rw [hm.entry_setEntry hi' hi', if_pos rfl]
    simp only [UInt32.toNat_ofNat']
    omega
  · rw [hm.entry_setEntry hi' hi', if_pos rfl]
    exact hfill.perms_eq

theorem SoundShell.performs_write (h : SoundShell sb s) {fn : CStr} {stdin : Stdin} {now : Int}
    (hallowed : (Command.write fn stdin now).Allowed s.store) :
    Performs sb s (.write fn stdin now) := by
  obtain ⟨hstdin, hroom⟩ := hallowed
  have hcode := sfsWrite_eq h.layout fn (fun _ _ _ => .inl h.smallVolume.partition_lt.le) hstdin now
  cases hfind : s.info.find fn with
  | none =>
    rw [hfind] at hcode
    refine h.performs_nothing ?_ hcode.1 hcode.2
    simp only [Command.onStore, State.store_file_none hfind]
  | some i =>
    have hfile := State.store_file hfind
    by_cases hperm : (s.info.entry i).perms &&& 2 = 0
    · simp only [hfind, hperm, ↓reduceIte] at hcode
      exact h.performs_nothing (Command.onStore_write_refused hfile hperm) hcode.1 hcode.2
    · simp only [hfind, hperm, ↓reduceIte] at hcode
      obtain ⟨hblocks, htail⟩ := hroom _ hfile hperm
      obtain ⟨hfilled, hsize, hperms⟩ := h.filled_written hfind hblocks htail now
      have hinfo : ((Command.write fn stdin now).exec s).info = written s i stdin now := hcode.1
      have hi : i < sb.entryCount.toNat := (Sfs.find_lt hfind h.table.sb_eq).1
      have hsum := h.conserve hi hfilled.table hfilled.one
      have hheld := hfilled.held
      have hdata := hfilled.data
      generalize written s i stdin now = a at hfilled hsize hperms hinfo hsum hheld hdata
      have hlen : (stdin.flatten.take (512 * a.held i)).length = (a.entry i).size.toNat := by
        rw [List.length_take, hsize, hheld]
        omega
      have hbytes : (List.range (a.entry i).size.toNat).map (a.byte i) =
          stdin.flatten.take (512 * a.held i) := by
        rw [map_byte_eq hfilled.table.toPlain (by rw [hsize]; exact Nat.min_le_left _ _)
          fun j hj => hdata j (by rw [hsize] at hj; omega), List.take_eq_take_iff, hsize, hheld]
        omega
      have hnew : a.reopened.fileAt i = ⟨stdin.flatten.take (512 * a.held i), a.held i,
          (stdin.flatten.take (512 * a.held i)).length, (s.info.entry i).perms⟩ := by
        rw [hlen, ← hbytes, ← hperms]
        simp only [Fs.fileAt, size_reopened]
        rfl
      refine h.performs_put hfind hfilled.table hfilled.same hfilled.one ?_ hinfo hcode.2 ?_
      · rw [hsize, hheld]
        exact Nat.min_le_right _ _
      · have hfree : a.freeBlocks =
            (s.info.reopened.fileAt i).blocks + s.store.free - a.held i := by omega
        rw [Command.onStore_write hfile hperm, hnew, hfree, hheld]
        rfl

/-- **One command**, whichever it is. -/
theorem SoundShell.performs (h : SoundShell sb s) {cmd : Command} (hcmd : cmd.Allowed s.store) :
    Performs sb s cmd := by
  cases cmd with
  | create fn now => exact h.performs_create hcmd.1 hcmd.2 now
  | remove fn => exact h.performs_remove fn
  | chperm perm fn => exact h.performs_chperm perm fn
  | read fn => exact h.performs_read fn
  | write fn stdin now => exact h.performs_write hcmd

end Write

end LinuxDrivers.Shell
