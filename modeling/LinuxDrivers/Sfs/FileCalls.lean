import LinuxDrivers.Sfs.FileStore

/-!
# Calls on the store

Every call of VFS is one of the store that the volume stands for, in all its results, over any run
on a formatted volume. `FileTable` is what the mapping of blocks keeps of the table, and
`SoundFiles` adds that no file is longer than its blocks.
-/

namespace LinuxDrivers.Sfs

open ByteFile (readAt writeAt)

/-! ## The table -/

/-- Names are in use once, no file has gaps, and the table ends before the data area. -/
structure FileTable (sb : SuperBlock) (info : Info) : Prop extends ExactVolume sb info where
  fits : TableFits sb
  terminated : ∀ i : Nat, i < sb.entryCount.toNat → (info.entry i).live = true →
    (info.entry i).name[15] = 0
  once : ∀ i j : Nat, i < sb.entryCount.toNat → j < sb.entryCount.toNat →
    (info.entry i).live = true → (info.entry j).live = true →
    (info.entry i).nameString = (info.entry j).nameString → i = j

/-- The entries keep their names. -/
structure SameNames (a a' : Info) : Prop where
  sb : a'.sb = a.sb
  name : ∀ j : Nat, j < a.sb.entryCount.toNat → (a'.entry j).name = (a.entry j).name

/-- The entries keep their names, sizes and permissions. -/
structure SameFiles (a a' : Info) : Prop extends SameNames a a' where
  size : ∀ j : Nat, j < a.sb.entryCount.toNat → (a'.entry j).size = (a.entry j).size
  perms : ∀ j : Nat, j < a.sb.entryCount.toNat → (a'.entry j).perms = (a.entry j).perms

theorem SameFiles.refl (a : Info) : SameFiles a a :=
  ⟨⟨rfl, fun _ _ => rfl⟩, fun _ _ => rfl, fun _ _ => rfl⟩

theorem SameFiles.trans {a a' a'' : Info} (h : SameFiles a a') (h' : SameFiles a' a'') :
    SameFiles a a'' := by
  refine ⟨⟨h'.sb.trans h.sb, fun j hj => ?_⟩, fun j hj => ?_, fun j hj => ?_⟩
  · exact (h'.name j (by rw [h.sb]; exact hj)).trans (h.name j hj)
  · exact (h'.size j (by rw [h.sb]; exact hj)).trans (h.size j hj)
  · exact (h'.perms j (by rw [h.sb]; exact hj)).trans (h.perms j hj)

theorem SameNames.live {a a' : Info} (h : SameNames a a') {j : Nat}
    (hj : j < a.sb.entryCount.toNat) : (a'.entry j).live = (a.entry j).live := by
  simp only [FileEntry.live, h.name j hj]

theorem SameNames.liveCount {a a' : Info} (h : SameNames a a') : a'.liveCount = a.liveCount := by
  unfold Info.liveCount
  rw [h.sb]
  apply List.countP_congr
  intro j hj
  rw [h.live (List.mem_range.1 hj)]

section Table

variable {sb : SuperBlock} {a a' : Info}

namespace FileTable

theorem vol (h : FileTable sb a) : SoundVolume sb a :=
  ⟨h.toMounted, h.sb_eq, by rw [h.sb_eq]; exact h.fits, h.exact.toSound⟩

theorem named (h : FileTable sb a) : NamedOnce a := by
  refine ⟨h.toMounted, fun i hi => ?_, fun i j hi hj => ?_⟩
  · exact h.terminated i (by rw [← h.sb_eq]; exact hi)
  · exact h.once i j (by rw [← h.sb_eq]; exact hi) (by rw [← h.sb_eq]; exact hj)

theorem of_named (hvol : ExactVolume sb a) (hfits : TableFits sb) (h : NamedOnce a) :
    FileTable sb a := by
  refine ⟨hvol, hfits, fun i hi => ?_, fun i j hi hj => ?_⟩
  · exact h.terminated i (by rw [hvol.sb_eq]; exact hi)
  · exact h.once i j (by rw [hvol.sb_eq]; exact hi) (by rw [hvol.sb_eq]; exact hj)

theorem ticks (h : FileTable sb a) (k : Nat) : FileTable sb (a.ticks k) := by
  refine ⟨⟨h.toMounted.ticks k, h.toSbOnDisk.congr rfl rfl, ?_⟩, h.fits, h.terminated, h.once⟩
  exact ⟨h.exact, h.binary, h.contiguous, h.dead⟩

/-- The names of the entries decide which entry is found. -/
theorem find_eq (h : FileTable sb a) (hsame : SameNames a a') (fn : CStr) :
    a'.find fn = a.find fn := by
  unfold Info.find
  rw [hsame.sb]
  apply findFrom_congr
  intro j _ hj
  have hj' : j < a.sb.entryCount.toNat := by omega
  unfold FileEntry.named
  rw [hsame.live hj']
  by_cases hl : (a.entry j).live = true
  · have hend := h.terminated j (by rw [← h.sb_eq]; exact hj') hl
    rw [FileEntry.nameString_congr (hsame.name j hj').symm hend]
  · simp [hl]

end FileTable

/-- An operation that keeps the names keeps what else there is to the table. -/
theorem FileTable.of_same (h : FileTable sb a) (hsame : SameNames a a') (hvol : ExactVolume sb a') :
    FileTable sb a' := by
  obtain ⟨h', -⟩ := h.named.of_names hvol.toMounted hsame.sb hsame.name
  exact .of_named hvol h.fits h'

/-- The data area does not hold the super block. -/
theorem SbOnDisk.storeBlocks {pos : Nat} {buf : List UInt8} {bs : List (Nat × UInt32)}
    (hbs : ∀ kb ∈ bs, kb.2.toNat ≠ 0) (hm : Mounted a) (h : SbOnDisk sb a) :
    SbOnDisk sb (storeBlocks pos buf bs a) := by
  induction bs generalizing a with
  | nil => exact h
  | cons kb bs ih =>
    obtain ⟨k, phys⟩ := kb
    obtain ⟨hne, hbs'⟩ := List.forall_mem_cons.1 hbs
    rw [storeBlocks_cons]
    apply ih hbs' (hm.setData _ _)
    refine ⟨h.sb_eq, ?_, h.type_eq, h.before_table, h.data_pos⟩
    rw [← h.onDisk]
    apply SuperBlock.ofMem_congr
    intro j hj
    simp only [Info.setData, Device.modify, hm.blocksize]
    simp only at hne
    exact Mem.store_of_not_mem (by omega)

/-- Storing the blocks of a page keeps the table. -/
theorem FileTable.storeBlocks (h : FileTable sb a) {i : Nat}
    {bs : List (Nat × UInt32)} (hbs : ∀ kb ∈ bs, a.slot (i, kb.1) = kb.2.toNat ∧ kb.2.toNat ≠ 0)
    (pos : Nat) (buf : List UInt8) :
    FileTable sb (storeBlocks pos buf bs a) ∧ SameFiles a (storeBlocks pos buf bs a) := by
  have hstore := h.vol.storeBlocks_replaces hbs pos buf
  have htable := hstore.table
  have hsame : SameFiles a (Sfs.storeBlocks pos buf bs a) :=
    ⟨⟨htable.sb.symm, fun j hj => by rw [htable.entry j hj]⟩,
      fun j hj => by rw [htable.entry j hj], fun j hj => by rw [htable.entry j hj]⟩
  refine ⟨h.of_same hsame.toSameNames ⟨hstore.vol.toMounted, ?_, ?_⟩, hsame⟩
  · exact h.toSbOnDisk.storeBlocks (fun kb hkb => (hbs kb hkb).2) h.toMounted
  · have hslot : (Sfs.storeBlocks pos buf bs a).slot = a.slot :=
      funext fun p => (htable.slot p).symm
    refine ⟨?_, ?_, fun i j k => ?_, fun j hj hdead k => ?_⟩
    · rw [← htable.sb, ← htable.used, hslot]
      exact h.exact
    · rw [← htable.used]
      exact h.binary
    · rw [hslot]
      exact h.contiguous i j k
    · rw [← htable.sb] at hj
      rw [← htable.entry j hj] at hdead
      rw [hslot]
      exact h.dead j hj hdead k

end Table

/-! ## Setting blocks aside -/

section Mapping

variable {sb : SuperBlock} {a : Info} {ino : Int} {i : Nat}

theorem Mounted.sameFiles_getBlock (h : Mounted a) (hi : i < a.sb.entryCount.toNat)
    (hidx : v2sInodeNum ino = i) (k : Nat) : SameFiles a (sfsGetBlock a ino k true).2 := by
  change SameFiles a ((Op.getBlock ino k true).exec a)
  obtain ⟨n, he | ⟨_, _, _, _, hne, -⟩ | ⟨_, _, hne, -⟩ | ⟨_, _, _, _, _, _, hne, -⟩ |
    ⟨ino', k', b, hop, -, -, -, he⟩⟩ := Op.exec_cases h.toPlain (.getBlock ino k true)
  · rw [he]
    exact ⟨⟨rfl, fun _ _ => rfl⟩, fun _ _ => rfl, fun _ _ => rfl⟩
  · cases hne
  · cases hne
  · cases hne
  · cases hop
    rw [he, hidx]
    have hentry {j : Nat} (hj : j < a.sb.entryCount.toNat) :=
      ((h.ticks n).setUsed (Function.update a.usedBlocks b 1)).entry_setEntry hi hj
        ((a.entry i).setBlock k (.ofInt b))
    refine ⟨⟨rfl, fun j hj => ?_⟩, fun j hj => ?_, fun j hj => ?_⟩ <;>
    · rw [hentry hj]
      split
      · next hij => rw [← hij]; rfl
      · rfl

/-- The only error is a lack of blocks. -/
theorem Plain.getBlock_error (h : Plain a) {k : Nat} {e : Int} {a' : Info}
    (hget : sfsGetBlock a ino k true = (.error e, a')) : e = -ENOSPC := by
  obtain ⟨n, hn⟩ := sfsGetBlock_eq h ino k true
  rw [hget] at hn
  simp only [Bool.true_eq_false, ↓reduceIte] at hn
  split at hn
  · exact Except.error.inj (Prod.mk.inj hn).1
  · split at hn
    · cases (Prod.mk.inj hn).1
    · split at hn
      · cases (Prod.mk.inj hn).1
      · exact Except.error.inj (Prod.mk.inj hn).1

/-- `sfs_get_block` for one of the blocks of a file or for the one behind them. -/
theorem FileTable.getBlock (h : FileTable sb a) (hi : i < sb.entryCount.toNat)
    (hidx : v2sInodeNum ino = i) (hlive : (a.entry i).live = true) {k : Nat} (hk : k ≤ a.held i) :
    FileTable sb (sfsGetBlock a ino k true).2 ∧ SameFiles a (sfsGetBlock a ino k true).2 ∧
      ((sfsGetBlock a ino k true).1 = .error (-ENOSPC) ∧ k = a.held i ∧
          (9 ≤ k ∨ a.freeBlocks = 0) ∧ (sfsGetBlock a ino k true).2.held i = a.held i ∨
        (∃ phys, (sfsGetBlock a ino k true).1 = .ok phys) ∧
          (sfsGetBlock a ino k true).2.held i = max (a.held i) (k + 1)) := by
  have hi' : i < a.sb.entryCount.toNat := by rw [h.sb_eq]; exact hi
  have hsame := h.toMounted.sameFiles_getBlock hi' hidx k
  have honLive : (Op.getBlock ino k true).OnLive a := by
    refine ⟨?_, ?_⟩
    · change 0 ≤ _ ∧ _ < _
      omega
    · simp only [hidx]
      exact hlive
  have horder : (Op.getBlock ino k true).FillsInOrder a := by
    intro _ _ _ j hj
    rw [hidx]
    exact (Info.slot_ne_zero ((h.slot_ne_zero_iff i j).2 (by omega))).2
  have hvol : ExactVolume sb (sfsGetBlock a ino k true).2 := h.toExactVolume.exec honLive horder
  refine ⟨h.of_same hsame.toSameNames hvol, hsame, ?_⟩
  rcases h.vol.getBlock_cases hi hidx k with ⟨e, n, hget, hcase⟩ | ⟨phys, n, hget, -, hslot, hne⟩ |
    ⟨phys, a', hget, -, hz, hne, -, hslot⟩
  · left
    have he := h.toPlain.getBlock_error hget
    have hlast : k = a.held i := by
      by_contra hlt
      have hmapped := (h.slot_ne_zero_iff i k).2 (by omega)
      rcases hcase with h9 | ⟨hz, -⟩
      · have := h.held_le i
        omega
      · exact hmapped hz
    rw [hget, he]
    exact ⟨rfl, hlast, hcase.imp_right fun hz => hz.2, rfl⟩
  · right
    have hlt := (h.slot_ne_zero_iff i k).1 (by rw [hslot]; exact hne)
    rw [hget]
    refine ⟨⟨phys, rfl⟩, ?_⟩
    change a.held i = _
    omega
  · right
    have hge : ¬ k < a.held i := fun hlt => (h.slot_ne_zero_iff i k).2 hlt hz
    rw [hget] at hvol ⊢
    refine ⟨⟨phys, rfl⟩, ?_⟩
    have hfilled := (hvol.slot_ne_zero_iff i k).1 (by rw [hslot, if_pos rfl]; exact hne)
    have hnext : ¬ k + 1 < a'.held i := by
      intro hlt
      have hmapped := (hvol.slot_ne_zero_iff i (k + 1)).2 hlt
      have hother : ((i, k + 1) : Nat × Nat) ≠ (i, k) := fun e =>
        absurd (Prod.mk.inj e).2 (by omega)
      simp only at hmapped
      rw [hslot, if_neg hother, h.slot_ne_zero_iff] at hmapped
      omega
    simp only
    simp only at hfilled
    omega

/-- The other files hold what they held. -/
theorem Grows.held {ks : List Nat} {a' : Info} (h : Grows sb i ks a a') {j : Nat} (hj : j ≠ i) :
    a'.held j = a.held j := by
  unfold Info.held
  apply List.countP_congr
  intro k _
  rcases h.slot (j, k) with he | ⟨-, hji, -⟩
  · rw [he]
  · exact absurd hji hj

theorem Grows.conserve {ks : List Nat} {a' : Info} (h : Grows sb i ks a a')
    (hi : i < sb.entryCount.toNat) (ha : FileTable sb a) (ha' : FileTable sb a') :
    a'.held i + a'.freeBlocks = a.held i + a.freeBlocks := by
  refine ha.toExactTable.conserve ha'.toExactTable ?_ ?_ fun j _ hj => h.held hj
  · rw [ha.sb_eq, ha'.sb_eq]
  · rw [ha.sb_eq]
    exact hi

/-- The loop over the blocks of a page, which start in the file or at its end. -/
theorem FileTable.mapBlocks (h : FileTable sb a) (hi : i < sb.entryCount.toNat)
    (hidx : v2sInodeNum ino = i) (hlive : (a.entry i).live = true) {k : Nat} (hk : k ≤ a.held i)
    (m : Nat) :
    let r := mapBlocks a ino true (List.range' k m)
    FileTable sb r.2 ∧ SameFiles a r.2 ∧ a.held i ≤ r.2.held i ∧
      ((∃ bs, r.1 = .ok bs) → r.2.held i = max (a.held i) (k + m)) ∧
      (∀ e, r.1 = .error e →
        e = -ENOSPC ∧ ¬ (k + m ≤ 9 ∧ k + m ≤ a.held i + a.freeBlocks)) := by
  induction m generalizing a k with
  | zero =>
    refine ⟨h, .refl a, Nat.le_refl _, fun _ => ?_, fun e he => by cases he⟩
    simp only [List.range'_zero, Sfs.mapBlocks]
    omega
  | succ m ih =>
    obtain ⟨h₁, hsame₁, hcase⟩ := h.getBlock hi hidx hlive hk
    have hsum := (h.vol.getBlock_grows hi hidx k).conserve hi h h₁
    rw [List.range'_succ]
    simp only [Sfs.mapBlocks]
    generalize hget : sfsGetBlock a ino k true = r₁ at h₁ hsame₁ hcase hsum ⊢
    obtain ⟨e | phys, a₁⟩ := r₁
    · rcases hcase with ⟨he, hend, hnone, hheld⟩ | ⟨⟨_, hok⟩, -⟩
      · simp only at he hheld ⊢
        refine ⟨h₁, hsame₁, Nat.le_of_eq hheld.symm, ?_, ?_⟩
        · rintro ⟨_, hok⟩
          cases hok
        · intro e' he'
          cases he'
          exact ⟨Except.error.inj he, by omega⟩
      · cases hok
    · rcases hcase with ⟨he, -⟩ | ⟨-, hheld⟩
      · cases he
      · simp only at h₁ hsame₁ hheld hsum ⊢
        have hlive₁ : (a₁.entry i).live = true := by
          rw [hsame₁.live (by rw [h.sb_eq]; exact hi)]
          exact hlive
        obtain ⟨h₂, hsame₂, hle, hok, herr⟩ := ih h₁ hlive₁ (k := k + 1) (by omega)
        generalize Sfs.mapBlocks a₁ ino true (List.range' (k + 1) m) = r₂
          at h₂ hsame₂ hle hok herr ⊢
        obtain ⟨e | bs, a₂⟩ := r₂
        · simp only at hle ⊢
          refine ⟨h₂, hsame₁.trans hsame₂, by omega, ?_, ?_⟩
          · rintro ⟨_, hb⟩
            cases hb
          · intro e' he'
            cases he'
            obtain ⟨he, hnot⟩ := herr e rfl
            exact ⟨he, by omega⟩
        · have hheld₂ := hok ⟨bs, rfl⟩
          simp only at hheld₂ ⊢
          refine ⟨h₂, hsame₁.trans hsame₂, ?_, fun _ => ?_, fun e' he' => by cases he'⟩
          · omega
          · omega

end Mapping

/-! ## Writing -/

/-- The table is in order, and no file is longer than its blocks or shorter than its entry says. -/
structure SoundFiles (sb : SuperBlock) (fs : Fs) : Prop extends FileTable sb fs.info where
  size_le : ∀ i : Nat, i < sb.entryCount.toNat → (fs.info.entry i).live = true →
    fs.size (s2vInodeNum i) ≤ 512 * fs.info.held i
  synced_le : ∀ i : Nat, i < sb.entryCount.toNat → (fs.info.entry i).live = true →
    (fs.info.entry i).size.toNat ≤ fs.size (s2vInodeNum i)

/-- A part of a write to the file in entry `i`. -/
structure Writes (sb : SuperBlock) (i : Nat) (fs fs' : Fs) : Prop where
  sound : SoundFiles sb fs'
  same : SameFiles fs.info fs'.info
  others : ∀ j : Nat, j < sb.entryCount.toNat → (fs.info.entry j).live = true → j ≠ i →
    fs'.fileAt j = fs.fileAt j
  blocks : fs.info.held i ≤ fs'.info.held i
  conserve : fs'.info.held i + fs'.info.freeBlocks = fs.info.held i + fs.info.freeBlocks

section Writing

variable {sb : SuperBlock} {fs fs' fs'' : Fs} {i : Nat}

theorem Writes.refl (h : SoundFiles sb fs) (i : Nat) : Writes sb i fs fs :=
  ⟨h, .refl _, fun _ _ _ _ => rfl, Nat.le_refl _, rfl⟩

theorem Writes.live (h : Writes sb i fs fs') (hfs : SoundFiles sb fs) {j : Nat}
    (hj : j < sb.entryCount.toNat) : (fs'.info.entry j).live = (fs.info.entry j).live :=
  h.same.live (by rw [hfs.sb_eq]; exact hj)

theorem Writes.trans (hfs : SoundFiles sb fs) (h : Writes sb i fs fs') (h' : Writes sb i fs' fs'') :
    Writes sb i fs fs'' := by
  refine ⟨h'.sound, h.same.trans h'.same, fun j hj hl hne => ?_, h.blocks.trans h'.blocks,
    h'.conserve.trans h.conserve⟩
  rw [h'.others j hj (by rw [h.live hfs hj]; exact hl) hne, h.others j hj hl hne]

theorem s2vInodeNum_inj {j : Nat} (h : s2vInodeNum j = s2vInodeNum i) : j = i := by
  unfold s2vInodeNum at h
  omega

/-- Its blocks decide what bytes a file holds. -/
theorem SoundFiles.bytes_keeps (h : SoundFiles sb fs) {a : Info} {j : Nat}
    (hj : j < sb.entryCount.toNat) (hl : (fs.info.entry j).live = true)
    (hkeeps : Keeps j fs.info a) :
    (List.range (fs.size (s2vInodeNum j))).map (a.byte j) = (fs.fileAt j).bytes := by
  have hlen := h.size_le j hj hl
  apply List.map_congr_left
  intro p hp
  rw [List.mem_range] at hp
  exact hkeeps.byte ((h.slot_ne_zero_iff j _).2 (by omega))

theorem Keeps.held {a a' : Info} (h : Keeps i a a') : a'.held i = a.held i := by
  unfold Info.held
  simp only [h.slot]

/-- A file that is left alone stays as it is. -/
theorem SoundFiles.fileAt_keeps (h : SoundFiles sb fs) {j : Nat} (hj : j < sb.entryCount.toNat)
    (hl : (fs.info.entry j).live = true) (hkeeps : Keeps j fs.info fs'.info)
    (hsize : fs'.size (s2vInodeNum j) = fs.size (s2vInodeNum j))
    (hentry : (fs'.info.entry j).size = (fs.info.entry j).size)
    (hperms : (fs'.info.entry j).perms = (fs.info.entry j).perms) :
    fs'.fileAt j = fs.fileAt j := by
  have hbytes := h.bytes_keeps hj hl hkeeps
  unfold Fs.fileAt at hbytes ⊢
  simp only [hkeeps.held, hentry, hperms, hsize, hbytes]

/-- The bytes of a file that was written. -/
theorem map_range_writeAt {f f' : Nat → UInt8} {size pos : Nat} {buf : List UInt8}
    (hpos : pos ≤ size)
    (h : ∀ p < max size (pos + buf.length),
      f' p = if pos ≤ p ∧ p < pos + buf.length then buf.getD (p - pos) 0 else f p) :
    (List.range (max size (pos + buf.length))).map f' =
    writeAt ((List.range size).map f) pos buf := by
  have hlen : ((List.range size).map f).length = size := by simp
  apply List.ext_getElem?
  intro p
  rw [ByteFile.getElem?_writeAt (by rw [hlen]; exact hpos), List.getElem?_map, List.getElem?_map]
  by_cases hp : p < max size (pos + buf.length)
  · rw [List.getElem?_range hp, Option.map_some, h p hp]
    by_cases hin : pos ≤ p ∧ p < pos + buf.length
    · rw [if_pos hin, if_pos hin, List.getD_eq_getElem?_getD, List.getElem?_eq_getElem (by omega)]
      rfl
    · rw [if_neg hin, if_neg hin, List.getElem?_range (by omega)]
      rfl
  · rw [if_neg (by omega), List.getElem?_eq_none (by simpa using hp),
      List.getElem?_eq_none (by simp; omega)]
    rfl

/-- The blocks of a page, from the first one on. -/
theorem blocksFor_add (pos : Nat) {n : Nat} (hn : 0 < n) :
    pos / 512 + (blocksFor (pos + n) - pos / 512) = blocksFor (pos + n) := by
  unfold blocksFor
  omega

/-- What a part of a write has to keep. -/
theorem SoundFiles.writes (h : SoundFiles sb fs) (htable : FileTable sb fs'.info)
    (hsame : SameFiles fs.info fs'.info)
    (hothers : ∀ j : Nat, j ≠ i → Keeps j fs.info fs'.info ∧
      fs'.size (s2vInodeNum j) = fs.size (s2vInodeNum j))
    (hle : fs.info.held i ≤ fs'.info.held i)
    (hsum : fs'.info.held i + fs'.info.freeBlocks = fs.info.held i + fs.info.freeBlocks)
    (hgrow : fs.size (s2vInodeNum i) ≤ fs'.size (s2vInodeNum i))
    (hsize : fs'.size (s2vInodeNum i) ≤ 512 * fs'.info.held i) : Writes sb i fs fs' := by
  have hcount {j : Nat} (hj : j < sb.entryCount.toNat) : j < fs.info.sb.entryCount.toNat := by
    rw [h.sb_eq]
    exact hj
  have hkept (j : Nat) (hj : j < sb.entryCount.toNat) (hl : (fs.info.entry j).live = true)
      (hne : j ≠ i) : fs'.fileAt j = fs.fileAt j :=
    h.fileAt_keeps hj hl (hothers j hne).1 (hothers j hne).2 (hsame.size j (hcount hj))
      (hsame.perms j (hcount hj))
  refine ⟨⟨htable, fun j hj hl => ?_, fun j hj hl => ?_⟩, hsame, hkept, hle, hsum⟩
  · rw [hsame.live (hcount hj)] at hl
    by_cases hji : j = i
    · rw [hji]
      exact hsize
    · have hheld : fs'.info.held j = fs.info.held j :=
        congrArg StoredFile.blocks (hkept j hj hl hji)
      rw [(hothers j hji).2, hheld]
      exact h.size_le j hj hl
  · rw [hsame.live (hcount hj)] at hl
    have hsynced := h.synced_le j hj hl
    rw [hsame.size j (hcount hj)]
    by_cases hji : j = i
    · rw [hji] at hsynced ⊢
      omega
    · rw [(hothers j hji).2]
      exact hsynced

/-- **One page** of a write. -/
theorem SoundFiles.writePage (h : SoundFiles sb fs) (hi : i < sb.entryCount.toNat)
    (hlive : (fs.info.entry i).live = true) {pos : Nat} (hpos : pos ≤ fs.size (s2vInodeNum i))
    {buf : List UInt8} (hbuf : buf ≠ []) :
    let r := writePage fs (s2vInodeNum i) pos buf
    Writes sb i fs r.2 ∧
      (r.1 = .ok () ∧ fs.store.Fits (fs.fileAt i) (pos + buf.length) ∧
          (r.2.fileAt i).bytes = writeAt (fs.fileAt i).bytes pos buf ∨
        r.1 = .error (-ENOSPC) ∧ ¬ fs.store.Fits (fs.fileAt i) (pos + buf.length) ∧
          (r.2.fileAt i).bytes = (fs.fileAt i).bytes) := by
  have hlen : 0 < buf.length := List.length_pos_iff.2 hbuf
  have hidx := v2sInodeNum_s2vInodeNum i
  have hsize := h.size_le i hi hlive
  have hin : InTable sb (s2vInodeNum i) := by
    unfold InTable
    rw [hidx]
    omega
  have hblocks : blocksOf pos buf.length =
      List.range' (pos / 512) (blocksFor (pos + buf.length) - pos / 512) := rfl
  have hadd := blocksFor_add pos hlen
  obtain ⟨htable, hsame, hle, hok, herr⟩ := h.toFileTable.mapBlocks hi hidx hlive
    (k := pos / 512) (by omega) (blocksFor (pos + buf.length) - pos / 512)
  have hgrows := h.vol.mapBlocks_grows hi hidx (blocksOf pos buf.length)
  have hsum := hgrows.conserve hi h.toFileTable (by rw [hblocks]; exact htable)
  have hothers (j : Nat) (hj : j ≠ i) :=
    have hne : s2vInodeNum i ≠ s2vInodeNum j := fun e => hj (s2vInodeNum_inj e).symm
    (h.vol.writePage_keeps hin (v2sInodeNum_s2vInodeNum j) hne pos buf).2
  -- the bytes that the file has already
  have hold : ∀ p < fs.size (s2vInodeNum i), fs.info.slot (i, p / 512) ≠ 0 := fun p hp =>
    (h.slot_ne_zero_iff i _).2 (by omega)
  unfold Sfs.writePage at hothers ⊢
  rcases hmap : mapBlocks fs.info (s2vInodeNum i) true (blocksOf pos buf.length) with ⟨e | bs, a⟩
  · rw [hmap] at hgrows hsum hothers
    rw [hblocks] at hmap
    rw [hmap] at htable hsame hle herr
    simp only at htable hsame hle hgrows hsum ⊢
    obtain ⟨rfl, hnot⟩ := herr e rfl
    rw [hadd] at hnot
    have hbound : fs.size (s2vInodeNum i) ≤ 512 * a.held i := by omega
    refine ⟨h.writes htable hsame hothers hle hsum (Nat.le_refl _) hbound,
      .inr ⟨rfl, hnot, ?_⟩⟩
    unfold Fs.fileAt
    apply List.map_congr_left
    intro p hp
    exact hgrows.byte h.vol (hold p (List.mem_range.1 hp))
  · obtain ⟨hfst, hbs⟩ := h.vol.mapBlocks_ok hi hidx hmap
    rw [hmap] at hgrows hsum hothers
    rw [hblocks] at hmap
    rw [hmap] at htable hsame hle hok
    simp only at htable hsame hle hgrows hsum hok ⊢
    have hheld := hok ⟨bs, rfl⟩
    rw [hadd] at hheld
    obtain ⟨hstored, hsame'⟩ := htable.storeBlocks hbs pos buf
    have hstore := htable.vol.storeBlocks_replaces hbs pos buf
    have hslot (p : Nat × Nat) := hstore.table.slot p
    have hheld' : (storeBlocks pos buf bs a).held i = a.held i := by
      unfold Info.held
      simp only [← hslot]
    have hfree' : (storeBlocks pos buf bs a).freeBlocks = a.freeBlocks := by
      unfold Info.freeBlocks
      rw [← hstore.table.sb, ← hstore.table.used]
    have hnine := htable.held_le i
    have hgrow : fs.size (s2vInodeNum i) ≤ max (fs.size (s2vInodeNum i)) (pos + buf.length) :=
      Nat.le_max_left _ _
    have hbound : max (fs.size (s2vInodeNum i)) (pos + buf.length) ≤ 512 * a.held i := by
      unfold blocksFor at hheld
      omega
    refine ⟨h.writes hstored (hsame.trans hsame') hothers ?_ ?_ ?_ ?_, .inl ⟨trivial, ?_, ?_⟩⟩
    · simp only [hheld']
      exact hle
    · simp only [hheld', hfree']
      exact hsum
    · simp only [Function.update_self]
      exact hgrow
    · simp only [Function.update_self, hheld']
      exact hbound
    · unfold FileStore.Fits Fs.store Fs.fileAt
      simp only
      omega
    · unfold Fs.fileAt
      simp only [Function.update_self]
      apply map_range_writeAt hpos
      intro p hp
      have hmapped : a.slot (i, p / 512) ≠ 0 := (htable.slot_ne_zero_iff i _).2 (by omega)
      rw [hstore.bytes p hmapped, hfst]
      by_cases hin : pos ≤ p ∧ p < pos + buf.length
      · rw [if_pos ⟨mem_blocksOf.2 (by omega), hin⟩, if_pos hin]
      · rw [if_neg fun hc => hin hc.2, if_neg hin]
        exact hgrows.byte h.vol (hold p (by omega))

theorem FileStore.Fits.mono {st : FileStore} {f : StoredFile} {m n : Nat} (h : st.Fits f n)
    (hmn : m ≤ n) : st.Fits f m := by
  unfold FileStore.Fits blocksFor at h ⊢
  omega

theorem Writes.fits_iff (h : Writes sb i fs fs') (n : Nat) :
    fs'.store.Fits (fs'.fileAt i) n ↔ fs.store.Fits (fs.fileAt i) n := by
  have hsum := h.conserve
  unfold FileStore.Fits Fs.fileAt Fs.store
  simp only
  rw [hsum]

theorem Fs.length_bytes (fs : Fs) (i : Nat) :
    (fs.fileAt i).bytes.length = fs.size (s2vInodeNum i) := by
  simp [fileAt]

theorem FileStore.Written.nil (st : FileStore) (f : StoredFile) (pos : Nat) :
    st.Written f f pos [] (.ok 0) st.free where
  complete_iff := iff_of_true rfl (.inl rfl)
  written n hn := by
    cases hn
    exact ⟨Nat.le_refl 0, (ByteFile.writeAt_nil _ _).symm⟩
  failed e he := by cases he
  synced := rfl
  perms := rfl
  blocks := Nat.le_refl _
  conserve := rfl

/-- What a write does besides writing. -/
theorem Writes.written (h : Writes sb i fs fs') (hi : i < fs.info.sb.entryCount.toNat) {pos : Nat}
    {buf : List UInt8} {r : Except Int Nat}
    (hiff : r = .ok buf.length ↔ buf = [] ∨ fs.store.Fits (fs.fileAt i) (pos + buf.length))
    (hok : ∀ n, r = .ok n → n ≤ buf.length ∧
      (fs'.fileAt i).bytes = writeAt (fs.fileAt i).bytes pos (buf.take n))
    (herr : ∀ e, r = .error e → e = -ENOSPC ∧ (fs'.fileAt i).bytes = (fs.fileAt i).bytes) :
    fs.store.Written (fs.fileAt i) (fs'.fileAt i) pos buf r fs'.info.freeBlocks :=
  ⟨hiff, hok, herr, congrArg UInt32.toNat (h.same.size i hi), h.same.perms i hi, h.blocks,
    h.conserve⟩

/-- **A write**, page by page. -/
theorem SoundFiles.writePages (h : SoundFiles sb fs) (hi : i < sb.entryCount.toNat)
    (hlive : (fs.info.entry i).live = true) (m : Nat) {pos : Nat} {buf : List UInt8}
    (hm : buf.length ≤ m) (hpos : pos ≤ fs.size (s2vInodeNum i)) :
    let r := writePages m fs (s2vInodeNum i) pos buf
    Writes sb i fs r.2 ∧
    fs.store.Written (fs.fileAt i) (r.2.fileAt i) pos buf r.1 r.2.info.freeBlocks := by
  induction m generalizing fs pos buf with
  | zero =>
    obtain rfl := List.length_eq_zero_iff.1 (Nat.le_zero.1 hm)
    exact ⟨.refl h i, .nil _ _ pos⟩
  | succ m ih =>
    unfold Sfs.writePages
    by_cases hnil : buf = []
    · rw [if_pos hnil, hnil]
      exact ⟨.refl h i, .nil _ _ pos⟩
    rw [if_neg hnil]
    simp only
    have hcount : i < fs.info.sb.entryCount.toNat := by
      rw [h.sb_eq]
      exact hi
    have hlen : 0 < buf.length := List.length_pos_iff.2 hnil
    have hn : 0 < min (pageSize - pos % pageSize) buf.length := by
      unfold pageSize
      omega
    have hnlen : min (pageSize - pos % pageSize) buf.length ≤ buf.length := Nat.min_le_right _ _
    generalize min (pageSize - pos % pageSize) buf.length = n at hn hnlen ⊢
    have htake : (buf.take n).length = n := List.length_take_of_le hnlen
    have hdrop : (buf.drop n).length = buf.length - n := List.length_drop
    obtain ⟨hwrites, hcase⟩ := h.writePage hi hlive hpos
      (List.length_pos_iff.1 (htake ▸ hn))
    generalize Sfs.writePage fs (s2vInodeNum i) pos (buf.take n) = r at hwrites hcase ⊢
    obtain ⟨e | _, fs₁⟩ := r
    · -- the first page fails
      rcases hcase with ⟨hok, -⟩ | ⟨herr, hnot, hbytes⟩
      · cases hok
      · have hmore : ¬ fs.store.Fits (fs.fileAt i) (pos + buf.length) := fun hfits =>
          hnot (hfits.mono (by omega))
        refine ⟨hwrites, hwrites.written hcount ?_ ?_ ?_⟩
        · exact iff_of_false (fun hc => by cases hc) (not_or.2 ⟨hnil, hmore⟩)
        · exact fun n' hn' => by cases hn'
        · intro e' he'
          cases he'
          exact ⟨Except.error.inj herr, hbytes⟩
    · rcases hcase with ⟨-, hfits, hbytes⟩ | ⟨herr, -⟩
      · simp only at hwrites hbytes ⊢
        have hpos' : pos ≤ (fs.fileAt i).bytes.length := by
          rw [fs.length_bytes]
          exact hpos
        have hpos₁ : pos + n ≤ fs₁.size (s2vInodeNum i) := by
          rw [← fs₁.length_bytes, hbytes, ByteFile.length_writeAt hpos', htake]
          exact Nat.le_max_right _ _
        have hlive₁ : (fs₁.info.entry i).live = true := by
          rw [hwrites.live h hi]
          exact hlive
        obtain ⟨hwrites', hrest⟩ := ih hwrites.sound hlive₁ (hdrop.trans_le (by omega)) hpos₁
        have hend : pos + n + (buf.drop n).length = pos + buf.length := by omega
        have hiff := hrest.complete_iff
        rw [hend, hwrites.fits_iff, hdrop] at hiff
        generalize Sfs.writePages m fs₁ (s2vInodeNum i) (pos + n) (buf.drop n) = r
          at hwrites' hrest hiff ⊢
        obtain ⟨e | k, fs₂⟩ := r
        · -- what was written before the error counts
          obtain ⟨hmore, hnot⟩ := not_or.1 (mt hiff.2 fun hc => by cases hc)
          have hlt : n ≠ buf.length := fun e => hmore (by rw [e, List.drop_length])
          refine ⟨hwrites.trans h hwrites', (hwrites.trans h hwrites').written hcount ?_ ?_ ?_⟩
          · exact iff_of_false (fun hc => hlt (Except.ok.inj hc)) (not_or.2 ⟨hnil, hnot⟩)
          · intro n' hn'
            cases hn'
            exact ⟨hnlen, (hrest.failed e rfl).2.trans hbytes⟩
          · exact fun e' he' => by cases he'
        · obtain ⟨hk, hbytes'⟩ := hrest.written k rfl
          simp only at hbytes' ⊢
          refine ⟨hwrites.trans h hwrites', (hwrites.trans h hwrites').written hcount ?_ ?_ ?_⟩
          · constructor
            · intro hc
              have hsum : n + k = buf.length := Except.ok.inj hc
              rcases hiff.1 (congrArg Except.ok (by omega)) with hmore | hfits'
              · rw [List.drop_eq_nil_iff] at hmore
                rw [htake, show n = buf.length by omega] at hfits
                exact .inr hfits
              · exact .inr hfits'
            · intro hc
              have hall := Except.ok.inj (hiff.2 (.inr (hc.resolve_left hnil)))
              rw [hall, Nat.add_sub_cancel' hnlen]
          · intro n' hn'
            cases hn'
            have htwo := ByteFile.writeAt_writeAt hpos' (buf.take n) ((buf.drop n).take k)
            rw [htake] at htwo
            rw [hbytes', hbytes, htwo, List.take_add]
            exact ⟨by omega, rfl⟩
          · exact fun e' he' => by cases he'
      · cases herr

end Writing

/-! ## Reading -/

section Reading

variable {sb : SuperBlock} {fs : Fs} {ino : Int} {i : Nat}

theorem SoundFiles.ticks (h : SoundFiles sb fs) (k : Nat) :
    SoundFiles sb { fs with info := fs.info.ticks k } :=
  ⟨h.toFileTable.ticks k, h.size_le, h.synced_le⟩

@[simp] theorem Fs.store_ticks (fs : Fs) (k : Nat) :
    Fs.store { fs with info := fs.info.ticks k } = fs.store := rfl

/-- Blocks that are set aside are all found. -/
theorem Mounted.mapBlocks_mapped {a : Info} (h : Mounted a) (hidx : v2sInodeNum ino = i)
    {ks : List Nat} (hks : ∀ k ∈ ks, a.slot (i, k) ≠ 0) :
    ∃ bs n, mapBlocks a ino false ks = (.ok bs, a.ticks n) := by
  induction ks generalizing a with
  | nil => exact ⟨[], 0, rfl⟩
  | cons k ks ih =>
    obtain ⟨hk, hks'⟩ := List.forall_mem_cons.1 hks
    obtain ⟨n, hn⟩ := getBlock_of_slot h hidx hk false
    obtain ⟨bs, n', hn'⟩ := ih (h.ticks n) hks'
    refine ⟨(k, (a.entry i).block k) :: bs, n + n', ?_⟩
    rw [Sfs.mapBlocks, hn]
    simp only
    rw [hn', Info.ticks_ticks]

theorem Fs.bytes_of_lt (fs : Fs) {p : Nat} (hp : p < fs.size (s2vInodeNum i)) :
    (fs.fileAt i).bytes[p]? = some (fs.info.byte i p) := by
  simp only [fileAt, List.getElem?_map, List.getElem?_range hp, Option.map_some]

/-- **One page** of a read, up to the end of the file. -/
theorem SoundFiles.readPage (h : SoundFiles sb fs) (hi : i < sb.entryCount.toNat)
    (hlive : (fs.info.entry i).live = true) {pos n : Nat} (hpage : pos % pageSize + n ≤ pageSize)
    (hend : pos + n ≤ fs.size (s2vInodeNum i)) :
    ∃ k, readPage fs (s2vInodeNum i) pos n =
      (.ok (readAt (fs.fileAt i).bytes pos n), { fs with info := fs.info.ticks k }) := by
  have hidx := v2sInodeNum_s2vInodeNum i
  have hsize := h.size_le i hi hlive
  have hmapped : ∀ k ∈ pageBlocks (fs.size (s2vInodeNum i)) pos, fs.info.slot (i, k) ≠ 0 := by
    intro k hk
    have hlt := (List.mem_filter.1 hk).2
    rw [decide_eq_true_eq] at hlt
    exact (h.slot_ne_zero_iff i k).2 (by omega)
  obtain ⟨bs, k, hmap⟩ := h.toMounted.mapBlocks_mapped hidx hmapped
  obtain ⟨-, -, hread⟩ := h.vol.mapBlocks_of_read hi hidx (pageBlocks (fs.size (s2vInodeNum i)) pos)
  obtain ⟨hfst, hbs⟩ := hread bs (by rw [hmap])
  refine ⟨k, ?_⟩
  unfold Sfs.readPage
  rw [hmap]
  simp only
  have hlen := fs.length_bytes i
  congr 2
  unfold readAt
  apply List.ext_getElem?
  intro j
  by_cases hj : j < n
  · have hmem : (pos + j) / 512 ∈ pageBlocks (fs.size (s2vInodeNum i)) pos := by
      unfold pageBlocks pageSize at *
      rw [List.mem_filter, List.mem_range'_1, decide_eq_true_eq]
      omega
    rw [List.getElem?_take_of_lt hj, List.getElem?_drop, fs.bytes_of_lt (by omega),
      List.getElem?_map, List.getElem?_range' hj, Option.map_some, Nat.one_mul]
    exact congrArg some (byteAt_of_mem (fun kb hkb => (hbs kb hkb).1) (by rw [hfst]; exact hmem))
  · rw [List.getElem?_eq_none (by simp; omega), List.getElem?_eq_none (by simp; omega)]

/-- **A read**, page by page. -/
theorem SoundFiles.readPages (h : SoundFiles sb fs) (hi : i < sb.entryCount.toNat)
    (hlive : (fs.info.entry i).live = true) (m pos : Nat) {len : Nat} (hm : len ≤ m) :
    ∃ k, readPages m fs (s2vInodeNum i) pos len =
      (.ok (readAt (fs.fileAt i).bytes pos len), { fs with info := fs.info.ticks k }) := by
  induction m generalizing fs pos len with
  | zero =>
    obtain rfl := Nat.le_zero.1 hm
    exact ⟨0, by simp [Sfs.readPages, readAt, Info.ticks]⟩
  | succ m ih =>
    have hsize := fs.length_bytes i
    unfold Sfs.readPages
    simp only
    by_cases hn : min (pageSize - pos % pageSize) (min len (fs.size (s2vInodeNum i) - pos)) = 0
    · rw [if_pos hn]
      refine ⟨0, ?_⟩
      have hnone : readAt (fs.fileAt i).bytes pos len = [] := by
        rw [← ByteFile.readAt_min, hsize]
        have hzero : min len (fs.size (s2vInodeNum i) - pos) = 0 := by
          unfold pageSize at hn
          omega
        rw [hzero]
        rfl
      rw [hnone]
      rfl
    · rw [if_neg hn]
      have hle : min (pageSize - pos % pageSize) (min len (fs.size (s2vInodeNum i) - pos)) ≤
          min len (fs.size (s2vInodeNum i) - pos) := Nat.min_le_right _ _
      have hpage : pos % pageSize + min (pageSize - pos % pageSize)
          (min len (fs.size (s2vInodeNum i) - pos)) ≤ pageSize := by
        unfold pageSize
        omega
      generalize min (pageSize - pos % pageSize) (min len (fs.size (s2vInodeNum i) - pos)) = n
        at hn hle hpage ⊢
      obtain ⟨k, hk⟩ := h.readPage hi hlive hpage (by omega)
      have hrest : len - n ≤ m := by omega
      obtain ⟨k', hk'⟩ := ih (h.ticks k) hlive (pos + n) hrest
      rw [hk]
      simp only
      rw [hk']
      refine ⟨k + k', ?_⟩
      have hadd := ByteFile.readAt_add (fs.fileAt i).bytes pos n (len - n)
      rw [Nat.add_sub_cancel' (by omega)] at hadd
      rw [hadd]
      simp only [Info.ticks_ticks]
      rfl

end Reading

end LinuxDrivers.Sfs
