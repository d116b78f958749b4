import LinuxDrivers.Shell.Contents

/-!
# Writing and reading a file

Whatever the table looks like, a write for which there is room stores its input in blocks that were
free, and a read gives the input back. The read stops at the size of the file, so the old block
numbers that a shorter file keeps behind its new ones are not followed. How the input was cut into
pieces by `read` does not matter.
-/

namespace LinuxDrivers.Shell

open Sfs (FileEntry Info Plain Mounted TableFits formatSb)

/-! ## Names -/

/-- A name of at most 15 bytes ends inside the name field, so the other fields do not matter. -/
theorem nameString_eq_of_name {fe fe' : FileEntry} (hname : fe.name = fe'.name) {bytes : List UInt8}
    (h15 : bytes.length ≤ 15) (h : fe.nameString = bytes) : fe'.nameString = bytes := by
  have hlen : (cstr fe.bytes 64).length = bytes.length := congrArg List.length h
  have hend : fe.bytes bytes.length = 0 := by
    rw [← hlen]
    exact cstr_end (by omega)
  have hsame : cstr fe.bytes 64 = cstr fe'.bytes 64 := by
    refine cstr_congr_of_nul (k := bytes.length) (by omega) hend fun j hj => ?_
    rw [fe.bytes_of_lt (by omega), fe'.bytes_of_lt (by omega)]
    simp only [hname]
  exact hsame.symm.trans h

theorem named_congr {fe fe' : FileEntry} (hname : fe.name = fe'.name) {fn : CStr}
    (h15 : fn.bytes.length ≤ 15) : fe.named fn = fe'.named fn := by
  have hlive : fe.live = fe'.live := by simp only [FileEntry.live, hname]
  have hstring : fe.nameString = fn.bytes ↔ fe'.nameString = fn.bytes :=
    ⟨nameString_eq_of_name hname h15, nameString_eq_of_name hname.symm h15⟩
  unfold FileEntry.named
  rw [hlive, decide_eq_decide.2 hstring]

/-- Rewriting an entry under its name does not change what is found under a name that fits. -/
theorem find_setEntry {info : Info} (hm : Mounted info) {i : Nat}
    (hi : i < info.sb.entryCount.toNat) {fe : FileEntry} (hname : fe.name = (info.entry i).name)
    {fn : CStr} (h15 : fn.bytes.length ≤ 15) : (info.setEntry i fe).find fn = info.find fn := by
  unfold Info.find
  rw [Info.sb_setEntry]
  refine findFrom_congr fun j _ hj => ?_
  rw [hm.entry_setEntry hi (by omega)]
  split
  · next hij =>
    subst hij
    exact named_congr hname h15
  · rfl

/-! ## The write -/

/-- What a write for which there is room leaves. -/
structure RoundTripped (s : State) (i : Nat) (d : List UInt8) (info : Info) : Prop where
  sb_eq : info.sb = s.sb
  find_eq : ∀ fn : CStr, fn.bytes.length ≤ 15 → info.find fn = s.info.find fn
  size_eq : (info.entry i).size.toNat = d.length
  perms_eq : (info.entry i).perms = (s.info.entry i).perms
  in_range : ∀ j, 512 * j < d.length → s.sb.dataBlockStart.toNat ≤ ((info.entry i).block j).toNat ∧
    ((info.entry i).block j).toNat < s.sb.partitionSize.toNat
  data_eq : ∀ j, 512 * j < d.length →
    info.dev.data.load (((info.entry i).block j).toNat * 512) (chunk d j).length = chunk d j

theorem written_roundTripped {s : State} (hv : SmallVolume s.sb) {i : Nat}
    (hi : i < s.sb.entryCount.toNat) {stdin : Stdin} (h9 : stdin.flatten.length ≤ 9 * 512)
    (hroom : (stdin.flatten.length + 511) / 512 ≤ freeCount (released s i)) (now : Int) :
    RoundTripped s i stdin.flatten (written s i stdin now) := by
  have hle := hv.table_le
  have hplain : Plain (released s i) := hv.toLayout.plain.setUsed _
  obtain ⟨hsize, hst⟩ := @Stored.storeInput (released s i) (s.info.entry i) stdin.flatten hplain
    hv.fits h9 hroom
  simp only [written, hsize]
  generalize (storeInput stdin.flatten (s.info.entry i) (released s i)).2.1 = fe at hst ⊢
  generalize (storeInput stdin.flatten (s.info.entry i) (released s i)).2.2 = info at hst ⊢
  have hsb : info.sb = s.sb := hst.sb_eq
  have hm : Mounted info := ⟨hst.plain, by rw [hsb]; omega⟩
  have hi' : i < info.sb.entryCount.toNat := by
    rw [hsb]
    exact hi
  have hentry : ∀ fe', (info.setEntry i fe').entry i = fe' := fun fe' => by
    rw [hm.entry_setEntry hi' hi', if_pos rfl]
  have hfits : TableFits info.sb := by
    rw [hsb]
    exact hv.fits
  refine ⟨hsb, fun fn h15 => ?_, ?_, ?_, fun j hj => ?_, fun j hj => ?_⟩
  · have hold : ∀ j : Nat, j < s.sb.entryCount.toNat → info.entry j = s.info.entry j :=
      fun j hj => (hst.entry_eq j hj).trans (entry_released s i j)
    have hset : ∀ fe' : FileEntry, fe'.name = fe.name →
        (info.setEntry i fe').find fn = s.info.find fn := by
      intro fe' hfe'
      rw [find_setEntry hm hi' (by rw [hfe', hst.name_eq, hold i hi]) h15]
      unfold Info.find
      rw [hsb]
      exact findFrom_congr fun j _ hj => by rw [hold j (by omega)]
    exact hset _ rfl
  · rw [hentry]
    simp only [UInt32.toNat_ofNat']
    omega
  · rw [hentry]
    exact hst.perms_eq
  · rw [hentry]
    exact hst.in_range j (by omega)
  · rw [hentry]
    have hwritten := hst.written j (by omega)
    have hdata := (hst.in_range j (by omega)).1
    change (info.setEntry i _).dev.data.load ((fe.block j).toNat * 512) _ = _
    nth_rewrite 2 [← hwritten]
    apply Mem.load_congr
    intro k _
    exact data_setEntry hst.plain hfits hi' _ (by rw [hsb]; exact hdata)

/-! ## The read -/

namespace RoundTripped

variable {s s' : State} {i : Nat} {d : List UInt8} {fn : CStr}

/-- The read gives the bytes back. -/
theorem read (h : RoundTripped s i d s'.info) (hv : SmallVolume s.sb)
    (hi : i < s.sb.entryCount.toNat) (h15 : fn.bytes.length ≤ 15) (hfind : s.info.find fn = some i)
    (hperm : (s.info.entry i).perms &&& 4 ≠ 0) : (sfsRead s' fn).out = s'.out ++ d := by
  have hsb : s'.sb = s.sb := h.sb_eq
  have hl : Layout s'.sb := by
    rw [hsb]
    exact hv.toLayout
  have hpart := hv.partition_lt
  have hpos := hv.fits.dataBlockStart_pos hi
  refine sfsRead_out hl ((h.find_eq fn h15).trans hfind) (by rw [h.perms_eq]; exact hperm) h.size_eq
    (fun j hj => ?_) h.data_eq
  have hrange := h.in_range j hj
  rw [← Sfs.toNat_ne_zero]
  omega

end RoundTripped

/-- A write for which there is room prints nothing. -/
theorem sfsWrite_out {s : State} (h : Layout s.sb) {fn : CStr} {i : Nat}
    (hfind : s.info.find fn = some i) (hperm : (s.info.entry i).perms &&& 2 ≠ 0) {stdin : Stdin}
    (hroom : Addressable (released s i) (blocksFor 0 stdin.flatten)) (hstdin : ∀ c ∈ stdin, c ≠ [])
    (now : Int) : (sfsWrite s fn stdin now).out = s.out := by
  have hc := sfsWrite_eq h fn (fun j hj _ => by
    rw [hfind, Option.some.injEq] at hj
    subst hj
    exact hroom) hstdin now
  rw [hfind] at hc
  simp only [hperm, ↓reduceIte] at hc
  exact hc.2

/-- **Round trip.** A file that can be read and written gets the size of the input, and a read
prints the input, however it was delivered and whatever the table and `used_blocks` held before.
Names have at most 15 bytes (`SIMULA_FS_FILENAME_LEN`). -/
theorem sfsRead_sfsWrite {s : State} (hv : SmallVolume s.sb) {fn : CStr}
    (h15 : fn.bytes.length ≤ 15) {stdin : Stdin} (hread : Readable s fn)
    (hfit : Fitted s fn stdin) (hstdin : ∀ c ∈ stdin, c ≠ []) (now : Int) :
    let s' := sfsWrite s fn stdin now
    (sfsLookup s' fn .zero).1.1 = (sfsLookup s fn .zero).1.1 ∧
      (sfsLookup s' fn .zero).1.2.size.toNat = stdin.flatten.length ∧
      (sfsRead s' fn).out = s.out ++ stdin.flatten := by
  intro s'
  obtain ⟨hwritable, h9, hroom⟩ := hfit
  obtain ⟨i, hfind, hw⟩ := (writable_iff hv.toLayout).1 hwritable
  obtain ⟨hi, -, -⟩ := Info.find_eq_some hfind
  have hlookup := lookup_some hv.toLayout hfind
  rw [freeAfterRelease_eq hv.toLayout hfind] at hroom
  have haddr : Addressable (released s i) (blocksFor 0 stdin.flatten) := .inl hv.partition_lt.le
  have hinfo : s'.info = written s i stdin now :=
    sfsWrite_written hv.toLayout hfind hw haddr hstdin now
  have hround : RoundTripped s i stdin.flatten s'.info := by
    rw [hinfo]
    exact written_roundTripped hv hi h9 hroom now
  have hsb : s'.sb = s.sb := hround.sb_eq
  have hl : Layout s'.sb := by
    rw [hsb]
    exact hv.toLayout
  have hlookup' := lookup_some hl ((hround.find_eq fn h15).trans hfind)
  have hr : (s.info.entry i).perms &&& 4 ≠ 0 := by
    have hr := hread.2
    rw [hlookup] at hr
    exact hr
  have hout : s'.out = s.out := sfsWrite_out hv.toLayout hfind hw haddr hstdin now
  refine ⟨?_, ?_, ?_⟩
  · rw [hlookup', hlookup]
  · rw [hlookup']
    exact hround.size_eq
  · rw [hround.read hv hi h15 hfind hr, hout]

/-- A ten-block volume with a file of two blocks. -/
def twoBlocks : State :=
  run Command.exec fresh [.create fileA 0, .write fileA [List.replicate 600 7] 0]

theorem twoBlocks_small : SmallVolume twoBlocks.sb := by
  have hsb : twoBlocks.sb = formatSb 5120 := by decide +kernel
  rw [hsb]
  exact ⟨(formatSb_volume 5120).toLayout, by decide, (formatSb_volume 5120).fits⟩

/-- The file is rewritten with three bytes that come in two pieces; its second slot keeps the old
block number. -/
theorem sfsRead_sfsWrite_twoBlocks :
    let stdin : Stdin := [[1, 2], [3]]
    ((sfsWrite twoBlocks fileA stdin 0).info.entry 0).block 1 ≠ 0 ∧
      (sfsLookup (sfsWrite twoBlocks fileA stdin 0) fileA .zero).1.2.size.toNat =
        stdin.flatten.length ∧
      (sfsRead (sfsWrite twoBlocks fileA stdin 0) fileA).out = twoBlocks.out ++ stdin.flatten := by
  intro stdin
  have hread : Readable twoBlocks fileA := by decide +kernel
  have hfit : Fitted twoBlocks fileA stdin := by decide +kernel
  have hslot : ((sfsWrite twoBlocks fileA stdin 0).info.entry 0).block 1 ≠ 0 := by decide +kernel
  have hround := sfsRead_sfsWrite twoBlocks_small (by decide) hread hfit (by decide) 0
  exact ⟨hslot, hround.2⟩

end LinuxDrivers.Shell
