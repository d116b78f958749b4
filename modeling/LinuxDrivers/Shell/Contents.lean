import LinuxDrivers.Lib.Run
import LinuxDrivers.Shell.Session

/-!
# Contents of files in the shell

`Holds` says that the blocks of an entry contain given bytes. A write whose data fits establishes
it, and in a session without stale slots every command on another file keeps it, so `sfs_read`
prints what was written last.
-/

namespace LinuxDrivers.Shell

open Sfs (SuperBlock FileEntry Info Plain Mounted NamedOnce TableFits SoundTable IsName clear
  clear_released toNat_ne_zero formatRealSfs formatSb)

/-! ## Reading a file block by block -/

theorem chunk_drop (d : List UInt8) (j : Nat) : chunk (d.drop 512) j = chunk d (j + 1) := by
  unfold chunk
  rw [List.drop_drop, Nat.mul_succ, Nat.add_comm]

/-- Blocks that hold the pieces of `d` hold `d`. -/
theorem fileBytes_eq {data : Mem} {bs : List UInt32} {d : List UInt8}
    (h : ∀ j, 512 * j < d.length → ∃ b, bs[j]? = some b ∧ b ≠ 0 ∧
      data.load (b.toNat * 512) (chunk d j).length = chunk d j) :
    fileBytes data bs d.length = d := by
  induction bs generalizing d with
  | nil =>
    cases d with
    | nil => rfl
    | cons x d =>
      obtain ⟨b, hb, -⟩ := h 0 (by simp)
      cases hb
  | cons b bs ih =>
    unfold fileBytes
    by_cases hd : d.length = 0
    · rw [List.eq_nil_of_length_eq_zero hd]
      simp [Mem.load]
    · obtain ⟨b', hb', hne, hload⟩ := h 0 (by omega)
      have hbb : b = b' := by simpa using hb'
      subst hbb
      have hchunk : chunk d 0 = d.take 512 := by simp [chunk]
      rw [hchunk, List.length_take] at hload
      rw [if_neg hne, hload]
      by_cases hend : d.length ≤ 512
      · rw [if_pos hend, List.append_nil, List.take_of_length_le hend]
      · have hrest := ih (d := d.drop 512) fun j hj => by
          rw [List.length_drop] at hj
          obtain ⟨c, hc, hc0, hcl⟩ := h (j + 1) (by omega)
          rw [chunk_drop]
          exact ⟨c, by simpa using hc, hc0, hcl⟩
        rw [List.length_drop] at hrest
        rw [if_neg hend, hrest, List.take_append_drop]

/-- Such a file is printed as `d`. -/
theorem sfsRead_out {s : State} (h : Layout s.sb) {fn : CStr} {i : Nat} {d : List UInt8}
    (hfind : s.info.find fn = some i) (hperm : (s.info.entry i).perms &&& 4 ≠ 0)
    (hsize : (s.info.entry i).size.toNat = d.length)
    (hblock : ∀ j, 512 * j < d.length →
      (s.info.entry i).block j ≠ 0 ∧ ((s.info.entry i).block j).toNat < 2 ^ 23)
    (hdata : ∀ j, 512 * j < d.length →
      s.info.dev.data.load (((s.info.entry i).block j).toNat * 512) (chunk d j).length =
      chunk d j) :
    (sfsRead s fn).out = s.out ++ d := by
  have hc := sfsRead_eq h fn
  rw [hfind] at hc
  rw [(hc fun j hj => (hblock j (by omega)).2).2, if_neg hperm, hsize]
  congr 1
  apply fileBytes_eq
  intro j hj
  have hne := (hblock j hj).1
  have hj9 : j < 9 := by
    by_contra hge
    exact hne (FileEntry.block_of_le (by omega))
  exact ⟨(s.info.entry i).block j, by simp [FileEntry.block, Vector.getD, hj9], hne, hdata j hj⟩

/-! ## What a file holds -/

/-- Entry `i` is the file `fn`, and its blocks contain `d`. -/
structure Holds (info : Info) (fn : CStr) (i : Nat) (d : List UInt8) : Prop where
  lt : i < info.sb.entryCount.toNat
  live : (info.entry i).live = true
  name_eq : (info.entry i).nameString = fn.bytes
  size_eq : (info.entry i).size.toNat = d.length
  block_ne : ∀ j, 512 * j < d.length → (info.entry i).block j ≠ 0
  data_eq : ∀ j, 512 * j < d.length →
    info.dev.data.load (((info.entry i).block j).toNat * 512) (chunk d j).length = chunk d j

namespace Holds

variable {info info' : Info} {fn : CStr} {i : Nat} {d : List UInt8}

/-- Nothing but the name, the size and the blocks of the entry matters. -/
theorem congr (h : Holds info fn i d) (hn : NamedOnce info) (hsb : info'.sb = info.sb)
    (hname : (info'.entry i).name = (info.entry i).name)
    (hsize : (info'.entry i).size = (info.entry i).size)
    (hblock : ∀ j, (info'.entry i).block j = (info.entry i).block j)
    (hdata : ∀ j k, (info.entry i).block j ≠ 0 → k < 512 →
      info'.dev.data (((info.entry i).block j).toNat * 512 + k) =
        info.dev.data (((info.entry i).block j).toNat * 512 + k)) : Holds info' fn i d where
  lt := by rw [hsb]; exact h.lt
  live := by
    rw [← h.live]
    simp only [FileEntry.live, hname]
  name_eq := by
    rw [← h.name_eq]
    exact (FileEntry.nameString_congr hname.symm (hn.terminated i h.lt h.live)).symm
  size_eq := by rw [hsize]; exact h.size_eq
  block_ne j hj := by rw [hblock]; exact h.block_ne j hj
  data_eq j hj := by
    rw [hblock, ← h.data_eq j hj, Mem.length_load]
    apply Mem.load_congr
    intro k hk
    rw [length_chunk] at hk
    exact hdata j k (h.block_ne j hj) (by omega)

/-- `sfs_read` prints the bytes. -/
theorem read {s : State} (h : Holds s.info fn i d) (hg : GoodTable s.info) (hv : SmallVolume s.sb)
    (hread : Readable s fn) : (sfsRead s fn).out = s.out ++ d := by
  have hfind := (hg.find_iff fn i).2 ⟨h.lt, h.live, h.name_eq⟩
  have hperm := hread.2
  rw [lookup_some hv.toLayout hfind] at hperm
  exact sfsRead_out hv.toLayout hfind hperm h.size_eq
    (fun j hj => ⟨h.block_ne j hj, hg.block_lt hv i j h.lt⟩) h.data_eq

end Holds

/-! ## Writing -/

/-- Rewriting an entry leaves the data area alone. -/
theorem data_setEntry {info : Info} (h : Plain info) (hfits : TableFits info.sb) {i : Nat}
    (hi : i < info.sb.entryCount.toNat) (fe : FileEntry) {b k : Nat}
    (hb : info.sb.dataBlockStart.toNat ≤ b) :
    (info.setEntry i fe).dev.data (b * 512 + k) = info.dev.data (b * 512 + k) := by
  have hend := hfits.entryAddr_le h.sbBlockSize hi
  exact Mem.store_of_not_mem (by omega)

/-- A clean write whose data fits leaves the data in the file. -/
theorem Holds.written {s : State} {fn : CStr} {i : Nat} {stdin : Stdin} (hg : GoodTable s.info)
    (hv : SmallVolume s.sb) (hfind : s.info.find fn = some i) (hfit : Fitted s fn stdin)
    (hclean : (Command.write fn stdin 0).Clean s) (now : Int) :
    Holds (written s i stdin now) fn i stdin.flatten := by
  obtain ⟨hi, hlive, hname⟩ := Info.find_eq_some hfind
  obtain ⟨hw, h9, hroom⟩ := hfit
  obtain ⟨hslot, htail⟩ := hclean hw
  rw [lookup_some hv.toLayout hfind] at hslot
  rw [freeAfterRelease_eq hv.toLayout hfind] at htail hroom
  obtain ⟨n, m, fe, info, hwritten, hfill, hend⟩ := hg.written_cases hv hi htail now
  obtain ⟨hn, hm⟩ : n = (stdin.flatten.length + 511) / 512 ∧ m = stdin.flatten.length := by
    rcases hend with hend | ⟨h1, h2⟩
    · exact hend
    · omega
  have hi' : i < info.sb.entryCount.toNat := by rw [hfill.sb_eq]; exact hi
  have hentry : (info.setEntry i { fe with size := .ofNat m, timestamp := .ofInt now }).entry i =
      { fe with size := .ofNat m, timestamp := .ofInt now } := by
    have hmounted : Mounted info := ⟨hfill.plain, by rw [hfill.sb_eq]; exact hg.table_le⟩
    rw [hmounted.entry_setEntry hi' hi', if_pos rfl]
  have hfe := hfill.name_eq
  rw [entry_released] at hfe
  rw [hwritten]
  refine ⟨hi', ?_, ?_, ?_, fun j hj => ?_, fun j hj => ?_⟩ <;> rw [hentry]
  · rw [← hlive]
    simp only [FileEntry.live, hfe]
  · rw [← hname]
    symm
    apply FileEntry.nameString_congr
    · exact hfe.symm
    · exact hg.terminated i hi hlive
  · rw [hm, UInt32.toNat_ofNat']
    omega
  · exact hfill.filled j (by omega)
  · have hj' : j < n := by omega
    have hslot : slotsWith (released s i) i n fe (i, j) = (fe.block j).toNat := by
      simp [slotsWith, hj']
    have hregion := hfill.sound.in_region (i, j) (by
      rw [hslot]
      exact toNat_ne_zero.2 (hfill.filled j hj'))
    rw [hslot] at hregion
    change (info.setEntry i _).dev.data.load ((fe.block j).toNat * 512) _ = _
    nth_rewrite 2 [← hfill.written j hj']
    apply Mem.load_congr
    intro k _
    exact data_setEntry hfill.plain (by rw [hfill.sb_eq]; exact hv.fits) hi' _
      (by rw [hfill.sb_eq]; exact hregion.1)

/-! ## One step -/

section Step

variable {s : State} {fn : CStr} {i : Nat} {d : List UInt8}

/-- The blocks of a file lie in the data area. -/
theorem GoodTable.data_le (hg : GoodTable s.info) (hi : i < s.sb.entryCount.toNat) {j : Nat}
    (hj : (s.info.entry i).block j ≠ 0) :
    s.sb.dataBlockStart.toNat ≤ ((s.info.entry i).block j).toNat := by
  have hslot : s.info.slot (i, j) = ((s.info.entry i).block j).toNat := Info.slot_of_lt hi j
  have := (hg.sound.in_region (i, j) (by rw [hslot]; exact toNat_ne_zero.2 hj)).1
  rw [hslot] at this
  exact this

/-- Rewriting the entry of another file keeps the contents. -/
theorem Holds.setEntry (h : Holds s.info fn i d) (hg : GoodTable s.info) (hv : SmallVolume s.sb)
    {i' : Nat} (hi' : i' < s.sb.entryCount.toNat) (hne : i' ≠ i) (used : Nat → UInt8)
    (fe : FileEntry) : Holds ((s.info.setUsed used).setEntry i' fe) fn i d := by
  have hm := hg.toMounted.setUsed used
  have hentry : ((s.info.setUsed used).setEntry i' fe).entry i = s.info.entry i := by
    rw [hm.entry_setEntry hi' h.lt, if_neg hne, Info.entry_setUsed]
  refine h.congr hg.toNamedOnce rfl (by rw [hentry]) (by rw [hentry]) (fun j => by rw [hentry])
    fun j k hj _ => ?_
  exact data_setEntry hm.toPlain hv.fits hi' fe (hg.data_le h.lt hj)

/-- Different files have different entries. -/
theorem Holds.entry_ne (h : Holds s.info fn i d) {fn' : CStr} {i' : Nat}
    (hfind : s.info.find fn' = some i') (hne : fn' ≠ fn) : i' ≠ i := by
  rintro rfl
  obtain ⟨-, -, hname⟩ := Info.find_eq_some hfind
  have hbytes : fn'.bytes = fn.bytes := hname.symm.trans h.name_eq
  exact hne (CStr.bytes_inj hbytes)

/-- A write to another file keeps the contents. -/
theorem Holds.write (h : Holds s.info fn i d) (hg : GoodTable s.info) (hv : SmallVolume s.sb)
    {i' : Nat} (hi' : i' < s.sb.entryCount.toNat) (hne : i' ≠ i) {stdin : Stdin}
    (htail : ¬ (stdin.flatten.length % 512 ≠ 0 ∧ stdin.flatten.length / 512 < 9 ∧
      freeCount (released s i') = stdin.flatten.length / 512)) (now : Int) :
    Holds (Shell.written s i' stdin now) fn i d := by
  obtain ⟨n, m, fe, info, hwritten, hfill, -⟩ := hg.written_cases hv hi' htail now
  have hm : Mounted info := ⟨hfill.plain, by rw [hfill.sb_eq]; exact hg.table_le⟩
  have hi : i < info.sb.entryCount.toNat := by rw [hfill.sb_eq]; exact h.lt
  have hi'' : i' < info.sb.entryCount.toNat := by rw [hfill.sb_eq]; exact hi'
  have hentry : (info.setEntry i' { fe with size := .ofNat m, timestamp := .ofInt now }).entry i =
      s.info.entry i := by
    rw [hm.entry_setEntry hi'' hi, if_neg hne, hfill.entry_eq i h.lt, entry_released]
  rw [hwritten]
  refine h.congr hg.toNamedOnce hfill.sb_eq (by rw [hentry]) (by rw [hentry])
    (fun j => by rw [hentry]) fun j k hj hk => ?_
  have hle := hg.data_le h.lt hj
  rw [data_setEntry hfill.plain (by rw [hfill.sb_eq]; exact hv.fits) hi'' _
    (by rw [hfill.sb_eq]; exact hle)]
  -- the block is still marked after the release, so it has not been written to
  refine hfill.untouched _ k ?_ hk
  have hslot : s.info.slot (i, j) = ((s.info.entry i).block j).toNat := Info.slot_of_lt h.lt j
  have hne0 : s.info.slot (i, j) ≠ 0 := by rw [hslot]; exact toNat_ne_zero.2 hj
  have hused := hg.sound.marked (i, j) hne0
  rw [hslot] at hused
  rw [usedBlocks_released]
  rcases @clear_released _ (s.info.entry i').chain _ hused with hc | ⟨c, hc, hcb⟩
  · exact hc
  · obtain ⟨-, j', -, rfl⟩ := FileEntry.mem_chain hc
    have hslot' : s.info.slot (i', j') = ((s.info.entry i').block j').toNat :=
      Info.slot_of_lt hi' j'
    rw [← hslot, ← hslot'] at hcb
    exact absurd (congrArg Prod.fst (hg.sound.inj _ _ hne0 hcb.symm)).symm hne

/-- **One step.** A command that neither removes nor writes the file keeps its contents. -/
theorem Holds.exec (h : Holds s.info fn i d) (hg : GoodTable s.info) (hv : SmallVolume s.sb)
    {cmd : Command} (hvalid : cmd.Valid s) (hclean : cmd.Clean s) (hother : ¬ cmd.Concerns fn s) :
    Holds (cmd.exec s).info fn i d := by
  obtain he | ⟨fn', now, i', rfl, -, -, hfree, he⟩ | ⟨fn', i', rfl, hfind, he⟩ |
    ⟨perm, fn', i', rfl, hfind, he⟩ | ⟨fn', stdin, now, i', rfl, hfind, hw, -, he⟩ :=
    Command.exec_cases hv hvalid <;> rw [he]
  · exact h
  · -- a created file takes an entry that is not in use
    obtain ⟨hi', hdead⟩ := Info.freeEntry_eq_some hfree
    refine h.setEntry hg hv hi' ?_ s.usedBlocks _
    rintro rfl
    rw [h.live] at hdead
    cases hdead
  · exact h.setEntry hg hv (Info.find_eq_some hfind).1 (h.entry_ne hfind hother) _ _
  · have hi' := (Info.find_eq_some hfind).1
    by_cases hii : i' = i
    · -- permissions are not part of the contents
      subst hii
      have hentry := hg.toMounted.entry_setEntry hi' hi'
        ((s.info.entry i').updated none none (some perm))
      rw [if_pos rfl] at hentry
      refine h.congr hg.toNamedOnce rfl ?_ ?_ (fun j => ?_) fun j k hj _ => ?_
      · rw [hentry, FileEntry.name_updated]
      · rw [hentry]
        rfl
      · rw [hentry, FileEntry.block_updated]
      · exact data_setEntry hg.toPlain hv.fits hi' _ (hg.data_le h.lt hj)
    · exact h.setEntry hg hv hi' hii s.usedBlocks _
  · obtain ⟨-, htail⟩ := hclean hw
    rw [freeAfterRelease_eq hv.toLayout hfind] at htail
    exact h.write hg hv (Info.find_eq_some hfind).1
      (h.entry_ne hfind fun e => hother ⟨e, hw⟩) htail now

end Step

/-! ## Sessions -/

/-- A formatted partition has a table that is in order. -/
theorem start_formatted {disk stack : Mem} {size : Nat} (hsize : size / 512 < 2 ^ 23) {s : State}
    (hstart : start true (formatRealSfs disk size stack) = some s) :
    SmallVolume s.sb ∧ GoodTable s.info := by
  obtain ⟨hsb, hv, hzero⟩ := start_volume hstart
  have hlt : size / 512 < 2 ^ 31 := by omega
  have hpart := (Sfs.formatSb_fields hlt).1
  rw [← hsb] at hpart
  exact ⟨⟨hv.toLayout, by omega, hv.fits⟩, .empty hv.mounted hzero⟩

/-- A session in which every command is valid and clean keeps the table in order. -/
theorem GoodTable.run {s : State} (hv : SmallVolume s.sb) (h : GoodTable s.info)
    {cmds : List Command}
    (hcmds : Along Command.exec (fun s cmd => cmd.Valid s ∧ cmd.Clean s) s cmds) :
    SmallVolume (run Command.exec s cmds).sb ∧ GoodTable (run Command.exec s cmds).info := by
  refine hcmds.invariant (I := fun s => SmallVolume s.sb ∧ GoodTable s.info) ?_ ⟨hv, h⟩
  intro s cmd hs hcmd
  obtain ⟨hv, hg⟩ := hs
  rw [Command.exec_sb hv hcmd.1]
  exact ⟨hv, hg.exec hv hcmd.1 hcmd.2⟩

/-- **Contents.** On a formatted partition, in a session in which no write leaves the number of a
freed block behind, `sfs_read` prints what was last written to a file, if the data of that write
fitted and the file has not been removed since. -/
theorem read_lastWritten {disk stack : Mem} {size : Nat} (hsize : size / 512 < 2 ^ 23) {s : State}
    (hstart : start true (formatRealSfs disk size stack) = some s) {before after : List Command}
    {fn : CStr} {stdin : Stdin} {now : Int}
    (hvalid : Along Command.exec (fun s cmd => cmd.Valid s) s
      (before ++ .write fn stdin now :: after))
    (hclean : Along Command.exec (fun s cmd => cmd.Clean s) s
      (before ++ .write fn stdin now :: after))
    (hfit : Fitted (run Command.exec s before) fn stdin)
    (hafter : Along Command.exec (fun s cmd => ¬ cmd.Concerns fn s)
      (run Command.exec s (before ++ [.write fn stdin now])) after)
    (hread : Readable (run Command.exec s (before ++ .write fn stdin now :: after)) fn) :
    (sfsRead (run Command.exec s (before ++ .write fn stdin now :: after)) fn).out =
      (run Command.exec s (before ++ .write fn stdin now :: after)).out ++ stdin.flatten := by
  obtain ⟨hv₀, hg₀⟩ := start_formatted hsize hstart
  obtain ⟨hbefore, hrest⟩ := along_append.1 (hvalid.and hclean)
  rw [along_cons] at hrest
  obtain ⟨⟨hval, hcl⟩, hrest⟩ := hrest
  rw [run_append, run_cons] at hread ⊢
  rw [run_append, run_cons, run_nil] at hafter
  obtain ⟨hv₁, hg₁⟩ := hg₀.run hv₀ hbefore
  obtain ⟨i, hfind, hperm⟩ := (writable_iff hv₁.toLayout).1 hfit.1
  have hholds : Holds (Command.exec (run Command.exec s before) (.write fn stdin now)).info fn i
      stdin.flatten := by
    change Holds (sfsWrite (run Command.exec s before) fn stdin now).info fn i _
    rw [sfsWrite_written hv₁.toLayout hfind hperm (.inl (Nat.le_of_lt hv₁.partition_lt)) hval.2]
    exact Holds.written hg₁ hv₁ hfind hfit hcl now
  -- from the write on, the contents are part of the invariant
  obtain ⟨hv₂, hg₂, hh₂⟩ := (hrest.and hafter).invariant
    (I := fun s => SmallVolume s.sb ∧ GoodTable s.info ∧ Holds s.info fn i stdin.flatten)
    (fun s cmd hs hcmd => by
      obtain ⟨hv, hg, hh⟩ := hs
      obtain ⟨⟨hval, hcl⟩, hother⟩ := hcmd
      rw [Command.exec_sb hv hval]
      exact ⟨hv, hg.exec hv hval hcl, hh.exec hg hv hval hcl hother⟩)
    ⟨by rw [Command.exec_sb hv₁ hval]; exact hv₁, hg₁.exec hv₁ hval hcl, hholds⟩
  exact hh₂.read hg₂ hv₂ hread

/-- A shell on a blank partition of ten blocks. -/
def fresh : State := (start true (Sfs.blank 5120).dev.data).get (by decide +kernel)

theorem start_fresh : start true (formatRealSfs (fun _ => 0) 5120 (fun _ => 0)) = some fresh :=
  (Option.some_get _).symm

section Sessions

/-- Two file names. -/
def fileA : CStr := .ofList [97]
def fileB : CStr := .ofList [98]

/-- Two bytes survive the growth and the removal of the other file. -/
theorem read_lastWritten_twoFiles :
    let before : List Command := [.create fileA 0, .create fileB 0, .write fileA [[1]] 0]
    let after : List Command := [.write fileA [[4]] 0, .remove fileA, .chperm 4 fileB]
    let s := run Command.exec fresh (before ++ .write fileB [[2], [3]] 0 :: after)
    (sfsRead s fileB).out = s.out ++ [[2], [3]].flatten := by
  intro before after s
  have hsize : 5120 / 512 < 2 ^ 23 := by decide
  exact read_lastWritten hsize start_fresh (by decide +kernel) (by decide +kernel)
    (by decide +kernel) (by decide +kernel) (by decide +kernel)

/-- `fileA` is rewritten with fewer blocks and keeps the number of a freed block, which `fileB`
takes. Removing `fileA` frees the block once more, and the new `fileA` takes it: reading `fileB`
gives the bytes of `fileA`. -/
theorem not_read_lastWritten_stale :
    let before : List Command :=
      [.create fileA 0, .write fileA [[1]] 0, .write fileA [] 0, .create fileB 0]
    let after : List Command := [.remove fileA, .create fileA 0, .write fileA [[3]] 0]
    let s := run Command.exec fresh (before ++ .write fileB [[2]] 0 :: after)
    start true (formatRealSfs (fun _ => 0) 5120 (fun _ => 0)) = some fresh ∧
      Along Command.exec (fun s cmd => cmd.Valid s) fresh
        (before ++ .write fileB [[2]] 0 :: after) ∧
      Fitted (run Command.exec fresh before) fileB [[2]] ∧
      Along Command.exec (fun s cmd => ¬ cmd.Concerns fileB s)
        (run Command.exec fresh (before ++ [.write fileB [[2]] 0])) after ∧
      Readable s fileB ∧ (sfsRead s fileB).out = s.out ++ [3] ∧
      (sfsRead s fileB).out ≠ s.out ++ [[2]].flatten := by
  intro before after s
  refine ⟨start_fresh, ?_⟩
  decide +kernel

end Sessions

end LinuxDrivers.Shell
