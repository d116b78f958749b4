import LinuxDrivers.Sfs.FileCalls

/-!
# Runs on the store

Files are created and removed, their lengths are written back, and the volume is mounted again. With
these every call is one of the store, so every run on a formatted volume is a run of an empty store.
-/

namespace LinuxDrivers.Sfs

open ByteFile (readAt writeAt)

/-! ## Names -/

section Names

variable {sb : SuperBlock} {fs fs' : Fs} {i : Nat}

/-- The entry that is found is the only one of its name. -/
theorem FileTable.find_inj {a : Info} (h : FileTable sb a) {fn fn' : CStr}
    (hfn : a.find fn = some i)
    (hfn' : a.find fn' = some i) : fn = fn' := by
  obtain ⟨-, -, hname⟩ := (h.named.find_iff fn i).1 hfn
  obtain ⟨-, -, hname'⟩ := (h.named.find_iff fn' i).1 hfn'
  exact CStr.bytes_inj (hname.symm.trans hname')

/-- A map of names to inode numbers is one of names to entries. -/
theorem NamedOnce.find_eq_of_directory {a a' : Info} (h : NamedOnce a) (h' : NamedOnce a')
    {fn : CStr} {r : Option Nat}
    (hd : h'.directory.find =
      Function.update h.directory.find fn (r.map fun i : Nat => s2vInodeNum i))
    (n : CStr) : a'.find n = if n = fn then r else a.find n := by
  have hn := congrFun hd n
  have hinj : Function.Injective fun i : Nat => s2vInodeNum i := fun _ _ he => s2vInodeNum_inj he
  simp only [NamedOnce.directory, Function.update_apply] at hn
  apply Option.map_injective hinj
  simp only [hn]
  split <;> rfl

theorem find_lt {a : Info} {fn : CStr} (h : a.find fn = some i) (hsb : a.sb = sb) :
    i < sb.entryCount.toNat ∧ (a.entry i).live = true := by
  obtain ⟨hi, hl, -⟩ := Info.find_eq_some h
  rw [hsb] at hi
  exact ⟨hi, hl⟩

/-- One name is given another entry, and the files of the other names are as they were. -/
theorem Fs.file_store_eq {fn : CStr} {r : Option Nat}
    (hfind : ∀ n, fs'.info.find n = if n = fn then r else fs.info.find n)
    (hothers : ∀ n j, n ≠ fn → fs.info.find n = some j → fs'.fileAt j = fs.fileAt j) :
    fs'.store.file = Function.update fs.store.file fn (r.map fs'.fileAt) := by
  funext n
  rw [Function.update_apply]
  change (fs'.info.find n).map fs'.fileAt = _
  rw [hfind]
  by_cases hn : n = fn
  · rw [if_pos hn, if_pos hn]
  · rw [if_neg hn, if_neg hn]
    change _ = (fs.info.find n).map fs.fileAt
    cases hj : fs.info.find n with
    | none => rw [Option.map_none, Option.map_none]
    | some j => rw [Option.map_some, Option.map_some, hothers n j hn hj]

/-- Only the file in entry `i` changes. -/
theorem SoundFiles.store_eq_put (h : SoundFiles sb fs) (hsame : SameNames fs.info fs'.info)
    {fn : CStr}
    (hfind : fs.info.find fn = some i)
    (hothers : ∀ j : Nat, j < sb.entryCount.toNat → (fs.info.entry j).live = true → j ≠ i →
      fs'.fileAt j = fs.fileAt j) :
    fs'.store = fs.store.put fn (fs'.fileAt i) fs'.info.freeBlocks := by
  have hfile : fs'.store.file = Function.update fs.store.file fn (some (fs'.fileAt i)) := by
    refine Fs.file_store_eq (r := some i) (fun n => ?_) fun n j hn hj => ?_
    · rw [h.find_eq hsame]
      split
      · next hn => rw [hn, hfind]
      · rfl
    · obtain ⟨hj', hl⟩ := find_lt hj h.sb_eq
      refine hothers j hj' hl fun hji => hn ?_
      rw [hji] at hj
      exact h.find_inj hj hfind
  apply FileStore.ext
  · exact hfile
  · simp only [Fs.store, FileStore.put, hsame.sb, hsame.liveCount]
  · rfl

end Names

/-! ## Creating and removing -/

section Entries

variable {sb : SuperBlock} {fs fs' : Fs} {i : Nat}

/-- Entry `i` changes alone. -/
structure OneEntry (i : Nat) (a a' : Info) : Prop where
  sb : a'.sb = a.sb
  entry : ∀ j : Nat, j < a.sb.entryCount.toNat → j ≠ i → a'.entry j = a.entry j
  keeps : ∀ j : Nat, j ≠ i → Keeps j a a'

theorem OneEntry.liveCount {a a' : Info} (h : OneEntry i a a') (hi : i < a.sb.entryCount.toNat) :
    a'.liveCount + (if (a.entry i).live then 1 else 0) =
      a.liveCount + if (a'.entry i).live then 1 else 0 := by
  unfold Info.liveCount
  rw [h.sb]
  refine countP_range_add (fun j => (a.entry j).live) (fun j => (a'.entry j).live) hi
    fun j hj hne => ?_
  rw [h.entry j hj hne]

theorem Info.liveCount_le (a : Info) : a.liveCount ≤ a.sb.entryCount.toNat := by
  have hle := List.countP_le_length (p := fun i : Nat => (a.entry i).live)
    (l := List.range a.sb.entryCount.toNat)
  rwa [List.length_range] at hle

theorem held_eq_zero {a : Info} (hi : i < a.sb.entryCount.toNat)
    (h : ∀ k, (a.entry i).block k = 0) : a.held i = 0 := by
  unfold Info.held
  rw [List.countP_eq_zero]
  intro k _
  rw [Info.slot_of_lt hi, h]
  decide

/-- The files in the other entries stay as they are, and blocks pass between this one and the free
ones. -/
theorem SoundFiles.replace (h : SoundFiles sb fs) (fs' : Fs) (hi : i < sb.entryCount.toNat)
    (htable : FileTable sb fs'.info) (hone : OneEntry i fs.info fs'.info)
    (hsize : ∀ j : Nat, j ≠ i → fs'.size (s2vInodeNum j) = fs.size (s2vInodeNum j))
    (hnew : (fs'.info.entry i).live = true → fs'.size (s2vInodeNum i) ≤ 512 * fs'.info.held i ∧
      (fs'.info.entry i).size.toNat ≤ fs'.size (s2vInodeNum i)) :
    SoundFiles sb fs' ∧
      (∀ j : Nat, j < sb.entryCount.toNat → (fs.info.entry j).live = true → j ≠ i →
        fs'.fileAt j = fs.fileAt j) ∧
      fs'.info.held i + fs'.info.freeBlocks = fs.info.held i + fs.info.freeBlocks := by
  have hcount {j : Nat} (hj : j < sb.entryCount.toNat) : j < fs.info.sb.entryCount.toNat := by
    rw [h.sb_eq]
    exact hj
  refine ⟨⟨htable, fun j hj hl => ?_, fun j hj hl => ?_⟩, fun j hj hl hne => ?_, ?_⟩
  · by_cases hji : j = i
    · rw [hji] at hl ⊢
      exact (hnew hl).1
    · rw [hone.entry j (hcount hj) hji] at hl
      rw [hsize j hji, (hone.keeps j hji).held]
      exact h.size_le j hj hl
  · by_cases hji : j = i
    · rw [hji] at hl ⊢
      exact (hnew hl).2
    · rw [hone.entry j (hcount hj) hji] at hl ⊢
      rw [hsize j hji]
      exact h.synced_le j hj hl
  · refine h.fileAt_keeps hj hl (hone.keeps j hne) (hsize j hne) ?_ ?_ <;>
    rw [hone.entry j (hcount hj) hne]
  · exact h.toExactTable.conserve htable.toExactTable hone.sb (hcount hi)
      fun j _ hne => (hone.keeps j hne).held

/-- `sfs_remove` of a file that is there. -/
theorem SoundFiles.remove (h : SoundFiles sb fs) {fn : CStr} (hfind : fs.info.find fn = some i) :
    (sfsRemove fs.info fn).1 = s2vInodeNum i ∧
      SoundFiles sb { fs with info := (sfsRemove fs.info fn).2 } ∧
      Fs.store { fs with info := (sfsRemove fs.info fn).2 } =
        ⟨Function.update fs.store.file fn none, fs.store.slots + 1,
          fs.store.free + (fs.fileAt i).blocks⟩ ∧
      ((sfsRemove fs.info fn).2.entry i).live = false := by
  obtain ⟨hi, hl⟩ := find_lt hfind h.sb_eq
  have hcount : i < fs.info.sb.entryCount.toNat := by
    rw [h.sb_eq]
    exact hi
  have hlegal : (Op.remove fn).OnLive fs.info := ⟨trivial, trivial⟩
  have hvol : ExactVolume sb (sfsRemove fs.info fn).2 := h.toExactVolume.exec hlegal trivial
  obtain ⟨k, hk⟩ := sfsRemove_eq h.toPlain fn
  simp only [hfind] at hk
  have hkeeps (j : Nat) (hj : j ≠ i) : Keeps j fs.info (sfsRemove fs.info fn).2 := by
    refine h.vol.keeps_remove (v2sInodeNum_s2vInodeNum j) ?_
    rw [hk]
    exact fun e => hj (s2vInodeNum_inj e).symm
  have hm := (h.toMounted.ticks k).setUsed (clear fs.info.usedBlocks (fs.info.entry i).chain)
  obtain ⟨h', hd⟩ := h.named.remove hm rfl (fun _ => rfl) hfind
  have hentry {j : Nat} (hj : j < fs.info.sb.entryCount.toNat) := hm.entry_setEntry hcount hj .zero
  have hfind' := h.named.find_eq_of_directory h' (r := none) hd
  rw [hk] at hvol hkeeps ⊢
  have htable := FileTable.of_named hvol h.fits h'
  simp only at hkeeps htable ⊢
  have hsb : (((fs.info.ticks k).setUsed (clear fs.info.usedBlocks
    (fs.info.entry i).chain)).setEntry i .zero).sb = fs.info.sb := rfl
  generalize ((fs.info.ticks k).setUsed (clear fs.info.usedBlocks
    (fs.info.entry i).chain)).setEntry i .zero = a at hkeeps htable hentry hfind' hsb ⊢
  have hone : OneEntry i fs.info a :=
    ⟨hsb, fun j hj hne => (hentry hj).trans (if_neg hne.symm), hkeeps⟩
  have hzero : a.entry i = .zero := (hentry hcount).trans (if_pos rfl)
  have hdead : (a.entry i).live = false := by rw [hzero, FileEntry.live_zero]
  have hgone : a.held i = 0 := by
    refine held_eq_zero (by rw [hsb]; exact hcount) fun k => ?_
    rw [hzero, FileEntry.block_zero]
  obtain ⟨hsound, hothers, hsum⟩ := h.replace { fs with info := a } hi htable hone
    (fun _ _ => rfl) fun hl' => absurd hl' (by simp [hdead])
  refine ⟨trivial, hsound, ?_, hdead⟩
  have hlive := hone.liveCount hcount
  have hle := fs.info.liveCount_le
  rw [hl, hdead] at hlive
  simp only [↓reduceIte, Bool.false_eq_true] at hlive
  simp only [hgone] at hsum
  apply FileStore.ext
  · refine Fs.file_store_eq (r := none) hfind' fun n j hn hj => ?_
    obtain ⟨hj', hlj⟩ := find_lt hj h.sb_eq
    refine hothers j hj' hlj fun hji => hn ?_
    rw [hji] at hj
    exact h.find_inj hj hfind
  · simp only [Fs.store, hsb]
    omega
  · simp only [Fs.store, Fs.fileAt]
    omega

/-- `sfs_create` of a name that is not in use. -/
theorem SoundFiles.create (h : SoundFiles sb fs) {fn : CStr} (hfn : IsName fn)
    (hnone : fs.info.find fn = none) (perms now : Int) :
    (fs.store.slots = 0 ∧ (sfsCreate fs.info fn perms now .zero).1.1 = invInode ∧
        ∃ k, (sfsCreate fs.info fn perms now .zero).2 = fs.info.ticks k) ∨
      ∃ i : Nat, fs.store.slots ≠ 0 ∧
        (sfsCreate fs.info fn perms now .zero).1.1 = s2vInodeNum i ∧
        (sfsCreate fs.info fn perms now .zero).1.2.size = 0 ∧
        (sfsCreate fs.info fn perms now .zero).2.find fn = some i ∧
        let fs' : Fs := ⟨(sfsCreate fs.info fn perms now .zero).2,
          Function.update fs.size (s2vInodeNum i) 0⟩
        SoundFiles sb fs' ∧ fs'.fileAt i = ⟨[], 0, 0, .ofInt perms⟩ ∧
          fs'.store = { fs.store.put fn ⟨[], 0, 0, .ofInt perms⟩ fs.store.free with
            slots := fs.store.slots - 1 } := by
  have hiff := fs.info.freeEntry_ne_none_iff
  have hlegal : (Op.create fn perms now).OnLive fs.info := ⟨trivial, trivial⟩
  have hvol : ExactVolume sb (sfsCreate fs.info fn perms now .zero).2 :=
    h.toExactVolume.exec hlegal trivial
  have hkeeps (j : Nat) (hne : (sfsCreate fs.info fn perms now .zero).1.1 ≠ s2vInodeNum j) :
      Keeps j fs.info (sfsCreate fs.info fn perms now .zero).2 :=
    h.vol.keeps_create (v2sInodeNum_s2vInodeNum j) hne
  obtain ⟨k, fe, hk⟩ := sfsCreate_eq h.toPlain fn perms now .zero
  cases hfree : fs.info.freeEntry with
  | none =>
    left
    rw [hfree] at hiff
    rw [hk]
    simp only [hfree]
    refine ⟨?_, trivial, k, rfl⟩
    have hfull := mt hiff.2 (by simp)
    simp only [Fs.store]
    omega
  | some i =>
    right
    have hroom := hiff.1 (by simp [hfree])
    obtain ⟨hcount, hfreed⟩ := Info.freeEntry_eq_some hfree
    have hi : i < sb.entryCount.toNat := by rw [← h.sb_eq]; exact hcount
    obtain ⟨h', hd⟩ := h.named.create k hfn hnone hfree perms now
    have hfind := h.named.find_eq_of_directory h' (r := some i) hd
    have hentry {j : Nat} (hj : j < fs.info.sb.entryCount.toNat) :=
      (h.toMounted.ticks k).entry_setEntry hcount hj ((fs.info.entry i).created fn perms now)
    simp only [hfree] at hk
    rw [hk] at hvol hkeeps ⊢
    have htable := FileTable.of_named hvol h.fits h'
    simp only at hkeeps htable ⊢
    have hsb : ((fs.info.ticks k).setEntry i ((fs.info.entry i).created fn perms now)).sb =
      fs.info.sb := rfl
    generalize (fs.info.ticks k).setEntry i ((fs.info.entry i).created fn perms now) = a
      at hkeeps htable hentry hfind hsb ⊢
    have hone : OneEntry i fs.info a := by
      refine ⟨hsb, fun j hj hne => (hentry hj).trans (if_neg hne.symm), fun j hne => ?_⟩
      exact hkeeps j fun e => hne (s2vInodeNum_inj e).symm
    have hnew : a.entry i = (fs.info.entry i).created fn perms now :=
      (hentry hcount).trans (if_pos rfl)
    have hsize : (a.entry i).size = 0 := by rw [hnew]; rfl
    have hperms : (a.entry i).perms = .ofInt perms := by rw [hnew]; rfl
    have hnothing : a.held i = 0 := by
      refine held_eq_zero (by rw [hsb]; exact hcount) fun k => ?_
      rw [hnew, FileEntry.block_created]
    have hnothing' : fs.info.held i = 0 := by
      refine List.countP_eq_zero.2 fun k _ => ?_
      rw [h.dead i hcount hfreed]
      decide
    obtain ⟨hsound, hothers, hsum⟩ := h.replace
      ⟨a, Function.update fs.size (s2vInodeNum i) 0⟩ hi htable hone
      (fun j hne => Function.update_of_ne (fun e => hne (s2vInodeNum_inj e)) _ _)
      fun _ => by simp [hsize]
    have hempty : Fs.fileAt ⟨a, Function.update fs.size (s2vInodeNum i) 0⟩ i =
        ⟨[], 0, 0, .ofInt perms⟩ := by
      simp [Fs.fileAt, hnothing, hsize, hperms]
    have hlive := hone.liveCount hcount
    have hlive' : (a.entry i).live = true := by
      rw [hnew]
      exact FileEntry.live_created hfn.1 _ _ _
    rw [hfreed, hlive'] at hlive
    simp only [↓reduceIte, Bool.false_eq_true] at hlive
    simp only [hnothing, hnothing'] at hsum
    refine ⟨i, ?_, rfl, rfl, ?_, hsound, hempty, ?_⟩
    · simp only [Fs.store]
      omega
    · exact (hfind fn).trans (if_pos rfl)
    · apply FileStore.ext
      · rw [← hempty]
        refine Fs.file_store_eq (r := some i) hfind fun n j hn hj => ?_
        obtain ⟨hj', hlj⟩ := find_lt hj h.sb_eq
        refine hothers j hj' hlj fun hji => ?_
        rw [hji, hfreed] at hlj
        cases hlj
      · simp only [Fs.store, hsb]
        omega
      · simp only [Fs.store, FileStore.put]
        omega

/-- Entry `i` is given a size, and keeps the blocks for it. -/
structure CutTo (i size : Nat) (perms : UInt32) (a a' : Info) : Prop where
  sb : a'.sb = a.sb
  entry : ∀ j : Nat, j < a.sb.entryCount.toNat → j ≠ i → a'.entry j = a.entry j
  name : (a'.entry i).name = (a.entry i).name
  size_eq : (a'.entry i).size.toNat = size
  perms_eq : (a'.entry i).perms = perms
  slot : ∀ p, a'.slot p = if i = p.1 ∧ blocksFor size ≤ p.2 then 0 else a.slot p
  data : ∀ b, a.sb.dataBlockStart.toNat ≤ b → a'.data b = a.data b

/-- `sfs_update` of a live file. -/
theorem FileTable.update {a : Info} (h : FileTable sb a) (hi : i < sb.entryCount.toNat)
    (hlive : (a.entry i).live = true) (size : Nat) (hsize : size < 2 ^ 31)
    (timestamp : Option Int) {perms : Int} (hperms : perms ≤ 7) :
    (sfsUpdate a (s2vInodeNum i) (some size) timestamp (some perms)).1 = 0 ∧
      ExactVolume sb (sfsUpdate a (s2vInodeNum i) (some size) timestamp (some perms)).2 ∧
      CutTo i size (.ofInt perms) a
        (sfsUpdate a (s2vInodeNum i) (some size) timestamp (some perms)).2 := by
  have hidx := v2sInodeNum_s2vInodeNum i
  have hcount : i < a.sb.entryCount.toNat := by
    rw [h.sb_eq]
    exact hi
  have hlegal : (Op.update (s2vInodeNum i) size timestamp (some perms)).OnLive a := by
    refine ⟨⟨?_, ?_, ?_⟩, ?_⟩
    · unfold InTable
      rw [hidx]
      omega
    · omega
    · omega
    · simp only [hidx]
      exact hlive
  have hv : (Op.update (s2vInodeNum i) size timestamp (some perms)).Valid sb := by
    rw [← h.sb_eq]
    exact hlegal.1
  have hvol : ExactVolume sb (sfsUpdate a (s2vInodeNum i) (some size) timestamp (some perms)).2 :=
    h.toExactVolume.exec hlegal trivial
  have hdata (b : Nat) (hb : a.sb.dataBlockStart.toNat ≤ b) :
      (sfsUpdate a (s2vInodeNum i) (some size) timestamp (some perms)).2.data b = a.data b :=
    h.vol.data_exec hv hb
  have hcut : firstCut (.ofInt size) = blocksFor size := by
    have hfirst : (firstCut (.ofInt size) : Int) = (size + 511) / 512 :=
      firstCut_ofInt (by omega) (by omega)
    unfold blocksFor
    omega
  obtain ⟨k, hk⟩ := sfsUpdate_eq h.toPlain (s2vInodeNum i) (some size) timestamp (some perms)
  simp only [hidx] at hk
  have hfeSize : ((a.entry i).updated (some size) timestamp (some perms)).size = .ofInt size := rfl
  rw [hfeSize, hcut] at hk
  have hm := (h.toMounted.ticks k).setUsed (clear a.usedBlocks
    (((a.entry i).updated (some size) timestamp (some perms)).tail (blocksFor size)))
  have hentry {j : Nat} (hj : j < a.sb.entryCount.toNat) := hm.entry_setEntry hcount hj
    (((a.entry i).updated (some size) timestamp (some perms)).truncated (blocksFor size))
  have hslot := hm.slot_cut hcount (FileEntry.block_truncated
    ((a.entry i).updated (some size) timestamp (some perms)) (blocksFor size))
  rw [hk] at hvol hdata ⊢
  refine ⟨rfl, hvol, rfl, fun j hj hne => (hentry hj).trans (if_neg hne.symm), ?_, ?_, ?_, hslot,
    hdata⟩
  · rw [hentry hcount, if_pos rfl]
    rfl
  · rw [hentry hcount, if_pos rfl]
    have := toNat_ofInt size
    change (UInt32.ofInt size).toNat = size
    omega
  · rw [hentry hcount, if_pos rfl]
    exact if_pos hperms

theorem CutTo.one {a a' : Info} {size : Nat} {perms : UInt32} (h : CutTo i size perms a a')
    (ha : FileTable sb a) : OneEntry i a a' := by
  refine ⟨h.sb, h.entry, fun j hne => ⟨fun k => ?_, fun k hk => h.data _ ?_⟩⟩
  · rw [h.slot, if_neg fun hc => hne hc.1.symm]
  · exact (ha.vol.sound.in_region _ hk).1

theorem CutTo.same {a a' : Info} {size : Nat} {perms : UInt32} (h : CutTo i size perms a a') :
    SameNames a a' := by
  refine ⟨h.sb, fun j hj => ?_⟩
  by_cases hji : j = i
  · rw [hji]
    exact h.name
  · rw [h.entry j hj hji]

/-- The file keeps the blocks for its bytes. -/
theorem CutTo.held {a a' : Info} {size : Nat} {perms : UInt32} (h : CutTo i size perms a a')
    (ha : ExactTable a) (ha' : ExactTable a') (hle : size ≤ 512 * a.held i) :
    a'.held i = blocksFor size := by
  have hiff (k : Nat) : k < a'.held i ↔ k < blocksFor size ∧ k < a.held i := by
    rw [← ha'.slot_ne_zero_iff, ← ha.slot_ne_zero_iff, h.slot]
    by_cases hk : blocksFor size ≤ k
    · rw [if_pos ⟨rfl, hk⟩]
      exact iff_of_false (fun hc => hc rfl) fun hc => absurd hc.1 (Nat.not_lt.2 hk)
    · rw [if_neg fun hc => hk hc.2]
      exact (and_iff_right (Nat.not_le.1 hk)).symm
  have hfits : blocksFor size ≤ a.held i := by
    unfold blocksFor
    omega
  have hlast := hiff (a'.held i)
  have hfirst := hiff (blocksFor size)
  have hbelow := hiff (blocksFor size - 1)
  omega

/-- **Writing back** the size that VFS has: the blocks behind the end of the file are released. -/
theorem SoundFiles.update (h : SoundFiles sb fs) (hi : i < sb.entryCount.toNat)
    (hlive : (fs.info.entry i).live = true) {a : Info} {perms : UInt32} (hvol : ExactVolume sb a)
    (hcut : CutTo i (fs.size (s2vInodeNum i)) perms fs.info a) :
    SoundFiles sb { fs with info := a } ∧
      (∀ j : Nat, j < sb.entryCount.toNat → (fs.info.entry j).live = true → j ≠ i →
        Fs.fileAt { fs with info := a } j = fs.fileAt j) ∧
      Fs.fileAt { fs with info := a } i = ⟨(fs.fileAt i).bytes,
        blocksFor (fs.size (s2vInodeNum i)), fs.size (s2vInodeNum i), perms⟩ ∧
      a.freeBlocks =
        fs.info.freeBlocks + (fs.info.held i - blocksFor (fs.size (s2vInodeNum i))) := by
  have hle := h.size_le i hi hlive
  have hheld := hcut.held h.toExactTable hvol.toExactTable hle
  have htable := h.toFileTable.of_same hcut.same hvol
  obtain ⟨hsound, hothers, hsum⟩ := h.replace { fs with info := a } hi htable
    (hcut.one h.toFileTable) (fun _ _ => rfl) fun _ => by
      simp only [hheld, hcut.size_eq]
      unfold blocksFor
      omega
  have hfits : blocksFor (fs.size (s2vInodeNum i)) ≤ fs.info.held i := by
    unfold blocksFor
    omega
  have hbytes : (List.range (fs.size (s2vInodeNum i))).map (a.byte i) =
      (List.range (fs.size (s2vInodeNum i))).map (fs.info.byte i) := by
    apply List.map_congr_left
    intro p hp
    have hlt := List.mem_range.1 hp
    have hblock : ¬ blocksFor (fs.size (s2vInodeNum i)) ≤ p / 512 := by
      unfold blocksFor
      omega
    have hslot : a.slot (i, p / 512) = fs.info.slot (i, p / 512) := by
      rw [hcut.slot, if_neg fun hc => hblock hc.2]
    have hmapped : fs.info.slot (i, p / 512) ≠ 0 := (h.slot_ne_zero_iff i _).2 (by omega)
    unfold Info.byte
    rw [hslot, hcut.data _ (h.vol.sound.in_region _ hmapped).1]
  refine ⟨hsound, hothers, ?_, ?_⟩
  · simp only [Fs.fileAt, hheld, hcut.size_eq, hcut.perms_eq, hbytes]
  · simp only at hsum
    omega

/-- The sizes of inodes that are not in use do not matter. -/
theorem SoundFiles.of_sizes (h : SoundFiles sb fs) (size : Int → Nat)
    (hsize : ∀ j : Nat, j < sb.entryCount.toNat → (fs.info.entry j).live = true →
      size (s2vInodeNum j) = fs.size (s2vInodeNum j)) :
    SoundFiles sb { fs with size } ∧ Fs.store { fs with size } = fs.store := by
  refine ⟨⟨h.toFileTable, fun j hj hl => ?_, fun j hj hl => ?_⟩, ?_⟩
  · exact (hsize j hj hl).trans_le (h.size_le j hj hl)
  · exact (h.synced_le j hj hl).trans_eq (hsize j hj hl).symm
  · refine FileStore.ext (funext fun fn => ?_) rfl rfl
    simp only [Fs.store]
    cases hfind : fs.info.find fn with
    | none => rfl
    | some i =>
      obtain ⟨hi, hl⟩ := find_lt hfind h.sb_eq
      simp only [Option.map_some, Fs.fileAt, hsize i hi hl]

end Entries

/-! ## Calls -/

section Calls

variable {sb : SuperBlock} {fs : Fs} {i : Nat}

theorem Fs.file_eq_none {fn : CStr} (h : fs.store.file fn = none) : fs.info.find fn = none :=
  Option.map_eq_none_iff.1 h

/-- A call does to the store what it says. -/
def Serves (sb : SuperBlock) (fs : Fs) (c : VfsCall) : Prop :=
  SoundFiles sb (serve fs c).2 ∧ fs.store.Next c (serve fs c).1 (serve fs c).2.store

/-- A file that was created and is removed at once leaves no trace. -/
theorem SoundFiles.create_remove {fn : CStr} {a : Info}
    (hnone : fs.info.find fn = none) (hfind : a.find fn = some i) (hslots : fs.store.slots ≠ 0)
    (hsound : SoundFiles sb ⟨a, Function.update fs.size (s2vInodeNum i) 0⟩)
    {perms : UInt32}
    (hfile : Fs.fileAt ⟨a, Function.update fs.size (s2vInodeNum i) 0⟩ i = ⟨[], 0, 0, perms⟩)
    (hstore : Fs.store ⟨a, Function.update fs.size (s2vInodeNum i) 0⟩ =
      { fs.store.put fn ⟨[], 0, 0, perms⟩ fs.store.free with slots := fs.store.slots - 1 }) :
    SoundFiles sb { fs with info := (sfsRemove a fn).2 } ∧
      Fs.store { fs with info := (sfsRemove a fn).2 } = fs.store := by
  obtain ⟨-, hremoved, hback, hdead⟩ := hsound.remove hfind
  obtain ⟨hsound', hsame⟩ := hremoved.of_sizes fs.size fun j _ hl => by
    refine (Function.update_of_ne (fun e => ?_) _ _).symm
    rw [s2vInodeNum_inj e, hdead] at hl
    cases hl
  refine ⟨hsound', hsame.trans (hback.trans ?_)⟩
  rw [hfile, hstore]
  have hnone' : fs.store.file fn = none := by
    simp only [Fs.store, hnone, Option.map_none]
  apply FileStore.ext
  · simp only [FileStore.put, Function.update_idem]
    rw [← hnone', Function.update_eq_self]
  · simp only
    omega
  · rfl

/-- `sfs_inode_create`: an error, which leaves the store as it was, or an empty file. -/
theorem SoundFiles.inodeCreate (h : SoundFiles sb fs) {fn : CStr} (hfn : IsName fn)
    (hnone : fs.store.file fn = none) (mode : UInt32) (now : Int) (newInodeOk insertOk : Bool) :
    let r := sfsInodeCreate fs fn mode now newInodeOk insertOk
    SoundFiles sb r.2 ∧
      if fs.store.slots = 0 then r.1 = .error (-ENOSPC) ∧ r.2.store = fs.store
      else if !newInodeOk then r.1 = .error (-ENOMEM) ∧ r.2.store = fs.store
      else if !insertOk then r.1 = .error (- EIO) ∧ r.2.store = fs.store
      else (∃ ino, r.1 = .ok ino) ∧ r.2.store =
        { fs.store.put fn ⟨[], 0, 0, .ofInt (entryPerms mode)⟩ fs.store.free with
          slots := fs.store.slots - 1 } := by
  have hnone' := Fs.file_eq_none hnone
  unfold sfsInodeCreate
  rcases h.create hfn hnone' (entryPerms mode) now with ⟨hfull, hino, k, hk⟩ |
    ⟨i, hroom, hino, hsize, hfind, hsound, hfile, hstore⟩
  · generalize sfsCreate fs.info fn (entryPerms mode) now .zero = r at hino hk ⊢
    obtain ⟨⟨ino, fe⟩, a⟩ := r
    simp only at hino hk ⊢
    rw [hino, hk, if_pos rfl, if_pos hfull]
    exact ⟨h.ticks k, rfl, rfl⟩
  · generalize sfsCreate fs.info fn (entryPerms mode) now .zero = r
      at hino hsize hfind hsound hfile hstore ⊢
    obtain ⟨⟨ino, fe⟩, a⟩ := r
    simp only at hino hsize hfind hsound hfile hstore ⊢
    obtain ⟨hsound', hback⟩ := SoundFiles.create_remove hnone' hfind hroom hsound hfile hstore
    rw [hino, if_neg (s2vInodeNum_ne_invInode i), if_neg hroom]
    cases newInodeOk with
    | false => exact ⟨hsound', rfl, hback⟩
    | true =>
      cases insertOk with
      | false => exact ⟨hsound', rfl, hback⟩
      | true =>
        rw [hsize]
        exact ⟨hsound, ⟨s2vInodeNum i, rfl⟩, hstore⟩

theorem SoundFiles.serves_create (h : SoundFiles sb fs) {fn : CStr} (hfn : IsName fn)
    (hnone : fs.store.file fn = none) (mode : UInt32) (now : Int) (newInodeOk insertOk : Bool) :
    Serves sb fs (.create fn mode now newInodeOk insertOk) := by
  obtain ⟨hsound, hnext⟩ := h.inodeCreate hfn hnone mode now newInodeOk insertOk
  simp only [Serves, serve, FileStore.Next]
  generalize sfsInodeCreate fs fn mode now newInodeOk insertOk = r at hsound hnext ⊢
  obtain ⟨e | ino, fs'⟩ := r
  · refine ⟨hsound, ?_⟩
    split_ifs at hnext ⊢
    · exact ⟨congrArg _ (Except.error.inj hnext.1), hnext.2⟩
    · exact ⟨congrArg _ (Except.error.inj hnext.1), hnext.2⟩
    · exact ⟨congrArg _ (Except.error.inj hnext.1), hnext.2⟩
    · obtain ⟨⟨_, he⟩, -⟩ := hnext
      cases he
  · refine ⟨hsound, ?_⟩
    split_ifs at hnext ⊢
    · cases hnext.1
    · cases hnext.1
    · cases hnext.1
    · exact ⟨rfl, hnext.2⟩

theorem SoundFiles.serves_unlink (h : SoundFiles sb fs) (fn : CStr) :
    Serves sb fs (.unlink fn) := by
  simp only [Serves, serve, FileStore.Next, sfsInodeUnlink]
  cases hfind : fs.info.find fn with
  | none =>
    obtain ⟨k, hk⟩ := sfsRemove_eq h.toPlain fn
    have hfile : fs.store.file fn = none := by
      simp only [Fs.store, hfind, Option.map_none]
    simp only [hfind] at hk
    rw [hk, hfile]
    exact ⟨h.ticks k, rfl, rfl⟩
  | some i =>
    obtain ⟨hino, hsound, hstore, -⟩ := h.remove hfind
    have hfile : fs.store.file fn = some (fs.fileAt i) := by
      simp only [Fs.store, hfind, Option.map_some]
    generalize sfsRemove fs.info fn = r at hino hsound hstore ⊢
    obtain ⟨ino, a⟩ := r
    simp only at hino hsound hstore ⊢
    rw [hfile, hino, if_neg (s2vInodeNum_ne_invInode i)]
    exact ⟨hsound, rfl, hstore⟩

theorem Fs.file_of_find_none {fn : CStr} (h : fs.info.find fn = none) :
    fs.store.file fn = none := by
  simp only [Fs.store, h, Option.map_none]

theorem Fs.file_of_find {fn : CStr} (h : fs.info.find fn = some i) :
    fs.store.file fn = some (fs.fileAt i) := by
  simp only [Fs.store, h, Option.map_some]

theorem SoundFiles.inodeLookup (h : SoundFiles sb fs) (fn : CStr) : ∃ k, sfsInodeLookup fs fn =
    ((fs.info.find fn).map fun i : Nat => s2vInodeNum i, { fs with info := fs.info.ticks k }) := by
  obtain ⟨k, fe, hk⟩ := sfsLookup_eq h.toPlain fn .zero
  refine ⟨k, ?_⟩
  unfold sfsInodeLookup
  rw [hk]
  cases fs.info.find fn with
  | none => rfl
  | some i => simp only [s2vInodeNum_ne_invInode, ↓reduceIte, Option.map_some]

theorem SoundFiles.serves_write (h : SoundFiles sb fs) {fn : CStr} {pos : Nat} (buf : List UInt8)
    (hpos : ∀ f ∈ fs.store.file fn, pos ≤ f.bytes.length) : Serves sb fs (.write fn pos buf) := by
  obtain ⟨k, hk⟩ := h.inodeLookup fn
  simp only [Serves, serve, FileStore.Next, hk]
  cases hfind : fs.info.find fn with
  | none =>
    simp only [Option.map_none, Fs.file_of_find_none hfind]
    exact ⟨h.ticks k, trivial, fs.store_ticks k⟩
  | some i =>
    obtain ⟨hi, hlive⟩ := find_lt hfind h.sb_eq
    have hfile := Fs.file_of_find hfind
    have hpos' := hpos _ hfile
    rw [fs.length_bytes] at hpos'
    have hticks := h.ticks k
    obtain ⟨hwrites, hwritten⟩ := hticks.writePages hi hlive buf.length (Nat.le_refl _) hpos'
    have hput := hticks.store_eq_put hwrites.same.toSameNames hfind hwrites.others
    simp only [Option.map_some, hfile, genericFileWriteIter]
    exact ⟨hwrites.sound, _, _, _, rfl, hwritten, hput⟩

theorem SoundFiles.serves_read (h : SoundFiles sb fs) (fn : CStr) (pos len : Nat) :
    Serves sb fs (.read fn pos len) := by
  obtain ⟨k, hk⟩ := h.inodeLookup fn
  simp only [Serves, serve, FileStore.Next, hk]
  cases hfind : fs.info.find fn with
  | none =>
    simp only [Option.map_none, Fs.file_of_find_none hfind]
    exact ⟨h.ticks k, trivial, fs.store_ticks k⟩
  | some i =>
    obtain ⟨hi, hlive⟩ := find_lt hfind h.sb_eq
    obtain ⟨k', hk'⟩ := (h.ticks k).readPages hi hlive len pos (Nat.le_refl len)
    simp only [Option.map_some, Fs.file_of_find hfind, genericFileReadIter, hk']
    exact ⟨(h.ticks k).ticks k', rfl, rfl⟩

theorem modePerms_le (mode : UInt32) : modePerms mode ≤ 7 := by
  unfold modePerms Inode.perms
  split_ifs <;> decide

theorem SoundFiles.serves_writeInode (h : SoundFiles sb fs) (fn : CStr) {mode : UInt32}
    (hmode : mode &&& 0o170000 = 0o100000) (mtime ctime : Int) :
    Serves sb fs (.writeInode fn mode mtime ctime) := by
  obtain ⟨k, hk⟩ := h.inodeLookup fn
  simp only [Serves, serve, FileStore.Next, hk]
  cases hfind : fs.info.find fn with
  | none =>
    simp only [Option.map_none, Fs.file_of_find_none hfind]
    exact ⟨h.ticks k, trivial, fs.store_ticks k⟩
  | some i =>
    obtain ⟨hi, hlive⟩ := find_lt hfind h.sb_eq
    have hticks := h.ticks k
    have hnine := h.held_le i
    have hsize := h.size_le i hi hlive
    have hreg : Inode.isReg ⟨s2vInodeNum i, fs.size (s2vInodeNum i), mode, mtime, ctime⟩ =
      true := by
      unfold Inode.isReg
      rw [hmode]
      rfl
    simp only [Option.map_some, Fs.file_of_find hfind, sfsWriteInode, hreg, Bool.not_true,
      Bool.false_eq_true, ↓reduceIte]
    obtain ⟨hok, hvol, hcut⟩ := hticks.toFileTable.update hi hlive (fs.size (s2vInodeNum i))
      (by omega) (some (if mtime > ctime then mtime else ctime)) (modePerms_le mode)
    obtain ⟨hsound, hothers, hfile, hfree⟩ := hticks.update hi hlive hvol hcut
    have hput := hticks.store_eq_put hcut.same hfind hothers
    rw [hfile, hfree] at hput
    simp only [fs.length_bytes]
    exact ⟨hsound, congrArg _ hok, hput⟩

/-- A mount finds the table and builds the marks, whatever was in memory before. -/
theorem ExactVolume.initBrowsing {a : Info} (h : ExactVolume sb a) (sb₀ : SuperBlock)
    (used₀ : Nat → UInt8) :
    ∃ k, Sfs.initBrowsing true { a with sb := sb₀, usedBlocks := used₀ } = (0, a.ticks k) := by
  have hsize : sb.blockSize = 512 := by
    rw [← h.sb_eq]
    exact h.sbBlockSize
  have hblocks : Blocks512 { a with sb := sb₀, usedBlocks := used₀ } :=
    ⟨h.reliable, h.blocksize, h.bdBlockSize⟩
  obtain ⟨k, used, hbusy, hrun⟩ := initBrowsing_eq hblocks h.onDisk hsize true
  rw [if_neg (by simp [h.type_eq]), if_neg (by simp)] at hrun
  have hmarks : MarksBusy { a with sb } a.usedBlocks := by
    rw [← h.sb_eq]
    exact h.marksBusy
  obtain rfl : used = a.usedBlocks := hbusy.unique hmarks
  refine ⟨k, hrun.trans ?_⟩
  rw [← h.sb_eq]
  rfl

theorem ExactVolume.fillSuper {a : Info} (h : ExactVolume sb a) (sb₀ : SuperBlock)
    (used₀ : Nat → UInt8) : ∃ k,
      sfsFillSuper true true true true { a with sb := sb₀, usedBlocks := used₀ } =
      (0, a.ticks k) := by
  obtain ⟨k, hk⟩ := h.initBrowsing sb₀ used₀
  refine ⟨k, ?_⟩
  have hblock : (512 : UInt32).toNat = a.dev.blocksize := h.blocksize.symm
  simp only [sfsFillSuper, hk, Bool.not_true, Bool.false_eq_true, ↓reduceIte, Int.lt_irrefl]
  simp only [Info.ticks, h.sbBlockSize, hblock]

/-- What the entries say about the files is what was written back. -/
theorem SoundFiles.reopened (h : SoundFiles sb fs) :
    SoundFiles sb fs.info.reopened ∧ fs.info.reopened.store = fs.store.reopened := by
  have hsize (j : Nat) : fs.info.reopened.size (s2vInodeNum j) = (fs.info.entry j).size.toNat := by
    simp only [Info.reopened, v2sInodeNum_s2vInodeNum]
  refine ⟨⟨h.toFileTable, fun j hj hl => ?_, fun j _ _ => ?_⟩, ?_⟩
  · rw [hsize]
    exact (h.synced_le j hj hl).trans (h.size_le j hj hl)
  · exact (hsize j).ge
  · refine FileStore.ext (funext fun fn => ?_) rfl rfl
    change (fs.info.find fn).map _ = ((fs.info.find fn).map _).map _
    cases hfind : fs.info.find fn with
    | none => rfl
    | some i =>
      obtain ⟨hi, hl⟩ := find_lt hfind h.sb_eq
      simp only [Option.map_some, Fs.fileAt, hsize]
      rw [← List.map_take, List.take_range, Nat.min_eq_left (h.synced_le i hi hl)]
      rfl

theorem SoundFiles.serves_remount (h : SoundFiles sb fs) : Serves sb fs .remount := by
  obtain ⟨k, hk⟩ := h.toExactVolume.fillSuper fs.info.sb fs.info.usedBlocks
  obtain ⟨hsound, hstore⟩ := (h.ticks k).reopened
  simp only [Serves, serve, FileStore.Next, remount, hk]
  exact ⟨hsound, trivial, hstore⟩

/-- **One call**, whichever it is. -/
theorem SoundFiles.serves (h : SoundFiles sb fs) {c : VfsCall} (hc : fs.store.Allowed c) :
    Serves sb fs c := by
  cases c with
  | create fn mode now newInodeOk insertOk =>
    exact h.serves_create hc.1 hc.2 mode now newInodeOk insertOk
  | write fn pos buf => exact h.serves_write buf hc
  | read fn pos len => exact h.serves_read fn pos len
  | unlink fn => exact h.serves_unlink fn
  | writeInode fn mode mtime ctime => exact h.serves_writeInode fn hc mtime ctime
  | remount => exact h.serves_remount

end Calls

/-! ## Runs -/

/-- No entry is in use and none holds a block. -/
theorem MountedEmpty.store_eq {a : Info} (h : MountedEmpty a) (hexact : ExactTable a)
    (size : Int → Nat) : Fs.store ⟨a, size⟩ = .empty a.sb.entryCount.toNat
      (a.sb.partitionSize.toNat - a.sb.dataBlockStart.toNat) := by
  have hdead (i : Nat) (hi : i < a.sb.entryCount.toNat) : (a.entry i).live = false := by
    rw [h.table_empty i hi, FileEntry.live_zero]
  have hheld (n : Nat) (hn : n ≤ a.sb.entryCount.toNat) : a.heldBelow n = 0 := by
    induction n with
    | zero => rfl
    | succ n ih =>
      have hzero : a.held n = 0 := held_eq_zero (by omega) fun k => by
        rw [h.table_empty n (by omega), FileEntry.block_zero]
      rw [Info.heldBelow, ih (by omega), hzero]
  have hcap := hexact.capacity
  rw [hheld _ (Nat.le_refl _)] at hcap
  have hcount : a.liveCount = 0 := by
    refine List.countP_eq_zero.2 fun i hi => ?_
    rw [hdead i (List.mem_range.1 hi)]
    decide
  apply FileStore.ext
  · funext fn
    have hnone : a.find fn = none := by
      cases hfind : a.find fn with
      | none => rfl
      | some i =>
        obtain ⟨hi, hl, -⟩ := Info.find_eq_some hfind
        rw [hdead i hi] at hl
        cases hl
    exact Fs.file_of_find_none hnone
  · simp only [Fs.store, FileStore.empty, hcount, Nat.sub_zero]
  · exact hcap

/-- A volume that was just formatted and mounted. -/
theorem soundFiles_format {info₀ : Info} {disk stack : Mem} {size : Nat} (h : Blocks512 info₀)
    (hdata : info₀.dev.data = formatRealSfs disk size stack) (h1 : 1 ≤ size / 512)
    (h2 : size / 512 < 2 ^ 31) (sizes : Int → Nat) :
    SoundFiles (formatSb size) ⟨(initBrowsing true info₀).2, sizes⟩ ∧
      Fs.store ⟨(initBrowsing true info₀).2, sizes⟩ =
        .empty (formatSb size).entryCount.toNat (size / 512 - (1 + size / 512 / 10)) := by
  obtain ⟨f1, f2, f3, f4, f5⟩ := formatSb_fields h2
  have hvol := exactVolume_format h hdata h1 h2
  obtain ⟨hsb, hempty⟩ := mountedEmpty_format disk stack h hdata h1 h2
  generalize (initBrowsing true info₀).2 = a at hvol hsb hempty ⊢
  have hstore := hempty.store_eq hvol.toExactTable sizes
  rw [hsb, f1, f3] at hstore
  have hno {P : Prop} (i : Nat) (hi : i < (formatSb size).entryCount.toNat)
      (hl : (a.entry i).live = true) : P := by
    rw [hempty.table_empty i (by rw [hsb]; exact hi), FileEntry.live_zero] at hl
    cases hl
  have hfits : TableFits (formatSb size) := by
    have hstart : (formatSb size).entryTableBlockStart.toNat = 1 := rfl
    unfold TableFits
    omega
  refine ⟨⟨⟨hvol, hfits, ?_, fun i _ hi _ hl _ _ => hno i hi hl⟩, ?_, ?_⟩, hstore⟩
  · exact fun i hi hl => hno i hi hl
  · exact fun i hi hl => hno i hi hl
  · exact fun i hi hl => hno i hi hl

/-- Every run of allowed calls is one of the store. -/
theorem SoundFiles.runs {sb : SuperBlock} {fs : Fs} (h : SoundFiles sb fs) {calls : List VfsCall}
    (hcalls : Along (fun fs c => (serve fs c).2) (fun fs c => fs.store.Allowed c) fs calls) :
    SoundFiles sb (runWith serve fs calls).2 ∧ RunsTo FileStore.Next fs.store calls
      (runWith serve fs calls).1 (runWith serve fs calls).2.store := by
  have hstep : ∀ fs st c, SoundFiles sb fs ∧ fs.store = st → fs.store.Allowed c →
      ∃ st', FileStore.Next st c (serve fs c).1 st' ∧
        SoundFiles sb (serve fs c).2 ∧ (serve fs c).2.store = st' := by
    rintro fs _ c ⟨hfs, rfl⟩ hc
    obtain ⟨hfs', hnext⟩ := hfs.serves hc
    exact ⟨_, hnext, hfs', rfl⟩
  obtain ⟨st, hrun, hsound, rfl⟩ := runWith_refines hstep ⟨h, rfl⟩ hcalls
  exact ⟨hsound, hrun⟩

/-- **The store.** On a freshly formatted and mounted volume every run of calls is one of a store of
files that starts empty, in all its replies: what is read is what was written, a write is complete
exactly when there are blocks for it, and a new mount loses only what was not written back. -/
theorem serve_refines_store {info₀ : Info} (disk stack : Mem) (size : Nat) (h : Blocks512 info₀)
    (hdata : info₀.dev.data = formatRealSfs disk size stack) (h1 : 1 ≤ size / 512)
    (h2 : size / 512 < 2 ^ 31) (sizes : Int → Nat) {calls : List VfsCall}
    (hcalls : Along (fun fs c => (serve fs c).2) (fun fs c => fs.store.Allowed c)
      ⟨(initBrowsing true info₀).2, sizes⟩ calls) :
    let fs : Fs := ⟨(initBrowsing true info₀).2, sizes⟩
    RunsTo FileStore.Next (.empty (formatSb size).entryCount.toNat
      (size / 512 - (1 + size / 512 / 10))) calls (runWith serve fs calls).1
      (runWith serve fs calls).2.store := by
  intro fs
  obtain ⟨hsound, hempty⟩ := soundFiles_format h hdata h1 h2 sizes
  rw [← hempty]
  exact (hsound.runs hcalls).2

/-- A file on a ten-block volume is written back between two writes, and mounted again. -/
theorem serve_refines_store_formatted :
    let fs : Fs := ⟨formatted 5120, fun _ => 0⟩
    let a : CStr := ⟨[97], by decide⟩
    let calls : List VfsCall := [.create a 0o100644 0 true true, .write a 0 [1, 2, 3],
      .writeInode a 0o100644 5 5, .write a 2 [4, 5], .read a 1 9, .remount, .read a 1 9]
    RunsTo FileStore.Next (.empty 8 8) calls (runWith serve fs calls).1
      (runWith serve fs calls).2.store := by
  intro fs a calls
  have hcalls : Along (fun fs c => (serve fs c).2) (fun fs c => fs.store.Allowed c) fs calls := by
    decide +kernel
  exact serve_refines_store (fun _ => 0) (fun _ => 0) 5120 ⟨fun _ => rfl, rfl, rfl⟩ rfl (by decide)
    (by decide) _ hcalls

end LinuxDrivers.Sfs
