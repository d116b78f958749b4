import LinuxDrivers.Sfs.Files

/-!
# Pages

What mapping and storing the blocks of one page does to a sound volume: `Grows` for the mapping,
which fills slots and needs one free block for each of them, and `Replaces` for the store, which
leaves the table and all other files alone. `SameTable` relates volumes that differ in data only.
-/

namespace LinuxDrivers.Sfs

/-! ## Tables that agree -/

/-- Two volumes with the same table and the same marks; their data may differ. -/
structure SameTable (a b : Info) : Prop where
  sb : a.sb = b.sb
  used : a.usedBlocks = b.usedBlocks
  entry : ∀ i : Nat, i < a.sb.entryCount.toNat → a.entry i = b.entry i

namespace SameTable

variable {a b : Info}

theorem refl (a : Info) : SameTable a a := ⟨rfl, rfl, fun _ _ => rfl⟩

theorem symm (h : SameTable a b) : SameTable b a :=
  ⟨h.sb.symm, h.used.symm, fun i hi => (h.entry i (by rw [h.sb]; exact hi)).symm⟩

theorem trans {c : Info} (h : SameTable a b) (h' : SameTable b c) : SameTable a c :=
  ⟨h.sb.trans h'.sb, h.used.trans h'.used,
    fun i hi => (h.entry i hi).trans (h'.entry i (by rw [← h.sb]; exact hi))⟩

theorem ticks (h : SameTable a b) (k l : Nat) : SameTable (a.ticks k) (b.ticks l) :=
  ⟨h.sb, h.used, h.entry⟩

theorem setUsed (h : SameTable a b) (used : Nat → UInt8) :
    SameTable (a.setUsed used) (b.setUsed used) :=
  ⟨h.sb, rfl, h.entry⟩

theorem setEntry (h : SameTable a b) (ha : Mounted a) (hb : Mounted b) {i : Nat}
    (hi : i < a.sb.entryCount.toNat) (fe : FileEntry) :
    SameTable (a.setEntry i fe) (b.setEntry i fe) := by
  refine ⟨h.sb, h.used, fun j hj => ?_⟩
  have hi' : i < b.sb.entryCount.toNat := by rw [← h.sb]; exact hi
  have hj' : j < b.sb.entryCount.toNat := by rw [← h.sb]; exact hj
  rw [ha.entry_setEntry hi hj, hb.entry_setEntry hi' hj', h.entry j hj]

theorem slot (h : SameTable a b) (p : Nat × Nat) : a.slot p = b.slot p := by
  unfold Info.slot
  rw [← h.sb]
  split
  · next hp => rw [h.entry p.1 hp]
  · rfl

theorem freeBlock (h : SameTable a b) : a.freeBlock = b.freeBlock := by
  unfold Info.freeBlock
  rw [h.sb, h.used]

theorem freeEntry (h : SameTable a b) : a.freeEntry = b.freeEntry := by
  unfold Info.freeEntry
  rw [← h.sb]
  apply findFrom_congr
  intro k _ hk
  rw [h.entry k (by omega)]

theorem find (h : SameTable a b) (fn : CStr) : a.find fn = b.find fn := by
  unfold Info.find
  rw [← h.sb]
  apply findFrom_congr
  intro k _ hk
  rw [h.entry k (by omega)]

/-- `sfs_get_block` answers from the table alone. -/
theorem getBlock (h : SameTable a b) (ha : Mounted a) (hb : Mounted b) {ino : Int}
    (hin : InTable a.sb ino) (iblock : Nat) (cr : Bool) :
    (sfsGetBlock a ino iblock cr).1 = (sfsGetBlock b ino iblock cr).1 ∧
      SameTable (sfsGetBlock a ino iblock cr).2 (sfsGetBlock b ino iblock cr).2 := by
  obtain ⟨i, hi, hidx⟩ := hin.index
  obtain ⟨k, hk⟩ := sfsGetBlock_eq ha.toPlain ino iblock cr
  obtain ⟨l, hl⟩ := sfsGetBlock_eq hb.toPlain ino iblock cr
  simp only [hidx] at hk hl
  rw [← h.entry i hi, ← h.freeBlock, ← h.used] at hl
  rw [hk, hl]
  split
  · exact ⟨rfl, h.ticks k l⟩
  · split
    · exact ⟨rfl, h.ticks k l⟩
    · split
      · exact ⟨rfl, h.ticks k l⟩
      · cases a.freeBlock with
        | none => exact ⟨rfl, h.ticks k l⟩
        | some c =>
          exact ⟨rfl, ((h.ticks k l).setUsed _).setEntry ((ha.ticks k).setUsed _)
            ((hb.ticks l).setUsed _) hi _⟩

theorem create (h : SameTable a b) (ha : Mounted a) (hb : Mounted b) (fn : CStr)
    (perms now : Int) :
    (sfsCreate a fn perms now .zero).1.1 = (sfsCreate b fn perms now .zero).1.1 ∧
      SameTable (sfsCreate a fn perms now .zero).2 (sfsCreate b fn perms now .zero).2 := by
  obtain ⟨k, fe, hk⟩ := sfsCreate_eq ha.toPlain fn perms now .zero
  obtain ⟨l, fe', hl⟩ := sfsCreate_eq hb.toPlain fn perms now .zero
  rw [← h.freeEntry] at hl
  rw [hk, hl]
  cases hfree : a.freeEntry with
  | none => exact ⟨rfl, h.ticks k l⟩
  | some i =>
    have hi := (Info.freeEntry_eq_some hfree).1
    simp only [← h.entry i hi]
    exact ⟨trivial, (h.ticks k l).setEntry (ha.ticks k) (hb.ticks l) hi _⟩

theorem remove (h : SameTable a b) (ha : Mounted a) (hb : Mounted b) (fn : CStr) :
    (sfsRemove a fn).1 = (sfsRemove b fn).1 ∧
      SameTable (sfsRemove a fn).2 (sfsRemove b fn).2 := by
  obtain ⟨k, hk⟩ := sfsRemove_eq ha.toPlain fn
  obtain ⟨l, hl⟩ := sfsRemove_eq hb.toPlain fn
  rw [← h.find] at hl
  rw [hk, hl]
  cases hfind : a.find fn with
  | none => exact ⟨rfl, h.ticks k l⟩
  | some i =>
    have hi := (Info.find_eq_some hfind).1
    simp only [← h.entry i hi, ← h.used]
    exact ⟨trivial, ((h.ticks k l).setUsed _).setEntry ((ha.ticks k).setUsed _)
      ((hb.ticks l).setUsed _) hi _⟩

end SameTable

/-! ## Mapping the blocks of a page -/

/-- The number of free data blocks. -/
def Info.freeBlocks (info : Info) : Nat :=
  countFrom (info.usedBlocks · == 0)
    (info.sb.partitionSize.toNat - info.sb.dataBlockStart.toNat) info.sb.dataBlockStart.toNat

section Mapping

variable {sb : SuperBlock} {ino : Int} {i : Nat}

/-- The three outcomes of `sfs_get_block` with `create` set. -/
theorem SoundVolume.getBlock_cases {a : Info} (h : SoundVolume sb a)
    (hi : i < sb.entryCount.toNat) (hidx : v2sInodeNum ino = i) (k : Nat) :
    (∃ e n, sfsGetBlock a ino k true = (.error e, a.ticks n) ∧
      (9 ≤ k ∨ a.slot (i, k) = 0 ∧ a.freeBlocks = 0)) ∨
    (∃ phys n, sfsGetBlock a ino k true = (.ok phys, a.ticks n) ∧ k < 9 ∧
      a.slot (i, k) = phys.toNat ∧ phys.toNat ≠ 0) ∨
    (∃ phys a', sfsGetBlock a ino k true = (.ok phys, a') ∧ k < 9 ∧ a.slot (i, k) = 0 ∧
      phys.toNat ≠ 0 ∧ a'.freeBlocks + 1 = a.freeBlocks ∧
      ∀ p, a'.slot p = if p = (i, k) then phys.toNat else a.slot p) := by
  rw [← h.sb_eq] at hi
  obtain ⟨n, hn⟩ := sfsGetBlock_eq h.toPlain ino k true
  have hslot := Info.slot_of_lt hi k
  simp only [hidx, Bool.true_eq_false, ↓reduceIte] at hn
  by_cases h9 : 9 ≤ k
  · rw [if_pos h9] at hn
    exact .inl ⟨_, n, hn, .inl h9⟩
  rw [if_neg h9] at hn
  by_cases hb : (a.entry i).block k ≠ 0
  · rw [if_pos hb] at hn
    exact .inr (.inl ⟨_, n, hn, by omega, hslot, toNat_ne_zero.2 hb⟩)
  have hzero : a.slot (i, k) = 0 := by
    rw [hslot, not_not.1 hb]
    rfl
  rw [if_neg hb] at hn
  cases hfree : a.freeBlock with
  | none =>
    rw [hfree] at hn
    exact .inl ⟨_, n, hn, .inr ⟨hzero, countFrom_of_none hfree⟩⟩
  | some c =>
    rw [hfree] at hn
    obtain ⟨-, hne⟩ := getBlock_ok h.toMounted (h.fits.dataBlockStart_pos hi) hi hidx hn
    refine .inr (.inr ⟨_, _, hn, by omega, hzero, toNat_ne_zero.2 hne, ?_, fun p => ?_⟩)
    · -- one block less is free
      rw [Info.freeBlocks, Info.freeBlocks, ← countFrom_of_some hfree]
      congr 1
      apply countFrom_congr
      intro j _ _
      by_cases hj : j = c <;> simp [hj]
    · exact ((h.toMounted.ticks n).setUsed _).slot_setBlock hi (by omega) _ p

/-- What mapping the blocks `ks` of entry `i` leaves alone: the data, the blocks that are mapped
already, and all other slots; nothing at all is mapped when no block is free. -/
structure Grows (sb : SuperBlock) (i : Nat) (ks : List Nat) (a a' : Info) : Prop where
  vol : SoundVolume sb a'
  data : ∀ b, sb.dataBlockStart.toNat ≤ b → a'.data b = a.data b
  free : a'.freeBlocks ≤ a.freeBlocks
  slot : ∀ p, a'.slot p = a.slot p ∨
    a.slot p = 0 ∧ p.1 = i ∧ p.2 ∈ ks ∧ a.freeBlocks ≠ 0

theorem Grows.trans {ks : List Nat} {k : Nat} {a a₁ a' : Info} (h : Grows sb i [k] a a₁)
    (h' : Grows sb i ks a₁ a') : Grows sb i (k :: ks) a a' := by
  have hfree := h.free
  refine ⟨h'.vol, fun b hb => (h'.data b hb).trans (h.data b hb), h'.free.trans hfree, fun p => ?_⟩
  rcases h.slot p with he | ⟨hz, hp1, hp2, hf⟩
  · rcases h'.slot p with he' | ⟨hz', hp1', hp2', hf'⟩
    · exact .inl (he'.trans he)
    · exact .inr ⟨he ▸ hz', hp1', List.mem_cons_of_mem _ hp2', by omega⟩
  · exact .inr ⟨hz, hp1, List.mem_cons.2 (.inl (List.mem_singleton.1 hp2)), hf⟩

theorem SoundVolume.getBlock_grows {a : Info} (h : SoundVolume sb a)
    (hi : i < sb.entryCount.toNat) (hidx : v2sInodeNum ino = i) (k : Nat) :
    Grows sb i [k] a (sfsGetBlock a ino k true).2 := by
  have hv : (Op.getBlock ino k true).Valid sb := by
    change 0 ≤ _ ∧ _ < _
    omega
  have hdata : ∀ b, sb.dataBlockStart.toNat ≤ b →
      ((Op.getBlock ino k true).exec a).data b = a.data b := fun b hb =>
    h.data_exec hv (by rw [h.sb_eq]; exact hb)
  refine ⟨h.table hv, hdata, ?_, fun p => ?_⟩
  · rcases h.getBlock_cases hi hidx k with ⟨e, n, he, -⟩ | ⟨phys, n, he, -⟩ |
      ⟨phys, a', he, -, -, -, hfree, -⟩ <;> rw [he]
    · exact Nat.le_refl _
    · exact Nat.le_refl _
    · simp only
      omega
  · rcases h.getBlock_cases hi hidx k with ⟨e, n, he, -⟩ | ⟨phys, n, he, -⟩ |
      ⟨phys, a', he, -, hz, -, hfree, hslot⟩ <;> rw [he]
    · exact .inl rfl
    · exact .inl rfl
    · simp only [hslot]
      by_cases hp : p = (i, k)
      · subst hp
        exact .inr ⟨hz, rfl, List.mem_singleton_self k, by omega⟩
      · exact .inl (if_neg hp)

theorem SoundVolume.mapBlocks_grows {a : Info} (h : SoundVolume sb a)
    (hi : i < sb.entryCount.toNat) (hidx : v2sInodeNum ino = i) (ks : List Nat) :
    Grows sb i ks a (mapBlocks a ino true ks).2 := by
  induction ks generalizing a with
  | nil => exact ⟨h, fun _ _ => rfl, Nat.le_refl _, fun _ => .inl rfl⟩
  | cons k ks ih =>
    have hk := h.getBlock_grows hi hidx k
    unfold mapBlocks
    rcases hget : sfsGetBlock a ino k true with ⟨e | phys, a₁⟩ <;> rw [hget] at hk
    · refine ⟨hk.vol, hk.data, hk.free, fun p => (hk.slot p).imp_right ?_⟩
      rintro ⟨hz, hp1, hp2, hf⟩
      exact ⟨hz, hp1, List.mem_cons.2 (.inl (List.mem_singleton.1 hp2)), hf⟩
    · have hks := ih hk.vol
      simp only at hks ⊢
      rcases hmap : mapBlocks a₁ ino true ks with ⟨e | bs, a'⟩ <;> rw [hmap] at hks
      · exact hk.trans hks
      · exact hk.trans hks

/-- A mapped block stays where it is. -/
theorem Grows.slot_of_mapped {ks : List Nat} {a a' : Info} (h : Grows sb i ks a a') {p : Nat × Nat}
    (hp : a.slot p ≠ 0) : a'.slot p = a.slot p := by
  rcases h.slot p with he | ⟨hz, -⟩
  · exact he
  · exact absurd hz hp

/-- After a success every block is mapped to what was reported. -/
theorem SoundVolume.mapBlocks_ok {a a' : Info} (h : SoundVolume sb a)
    (hi : i < sb.entryCount.toNat) (hidx : v2sInodeNum ino = i) {ks : List Nat}
    {bs : List (Nat × UInt32)} (hok : mapBlocks a ino true ks = (.ok bs, a')) :
    bs.map Prod.fst = ks ∧ ∀ kb ∈ bs, a'.slot (i, kb.1) = kb.2.toNat ∧ kb.2.toNat ≠ 0 := by
  induction ks generalizing a bs with
  | nil =>
    cases hok
    exact ⟨rfl, by simp⟩
  | cons k ks ih =>
    have hk := h.getBlock_grows hi hidx k
    have hfirst : ∀ phys a₁, sfsGetBlock a ino k true = (.ok phys, a₁) →
        a₁.slot (i, k) = phys.toNat ∧ phys.toNat ≠ 0 := by
      intro phys a₁ hget
      rw [← h.sb_eq] at hi
      obtain ⟨h1, h2⟩ := getBlock_ok h.toMounted (h.fits.dataBlockStart_pos hi) hi hidx hget
      exact ⟨h1, toNat_ne_zero.2 h2⟩
    unfold mapBlocks at hok
    rcases hget : sfsGetBlock a ino k true with ⟨e | phys, a₁⟩ <;> rw [hget] at hk hok
    · cases hok
    · obtain ⟨hphys, hne⟩ := hfirst phys a₁ hget
      have hks := hk.vol.mapBlocks_grows hi hidx ks
      simp only at hok hks
      rcases hmap : mapBlocks a₁ ino true ks with ⟨e | bs', a₂⟩ <;> rw [hmap] at hks hok
      · cases hok
      · cases hok
        obtain ⟨hfst, hall⟩ := ih hk.vol hmap
        refine ⟨by simp [hfst], fun kb hkb => ?_⟩
        rcases List.mem_cons.1 hkb with rfl | hmem
        · refine ⟨?_, hne⟩
          rw [hks.slot_of_mapped (by rw [hphys]; exact hne), hphys]
        · exact hall kb hmem

/-- Mapping one block does not change what the others need. -/
theorem countP_slot_of_not_mem {a a₁ : Info} {k b : Nat} {ks : List Nat} (hk : k ∉ ks)
    (hslot : ∀ p, a₁.slot p = if p = (i, k) then b else a.slot p) :
    ks.countP (fun j => a₁.slot (i, j) == 0) = ks.countP (fun j => a.slot (i, j) == 0) := by
  apply List.countP_congr
  intro j hj
  have hne : j ≠ k := fun e => hk (e ▸ hj)
  simp [hslot, hne]

/-- A success means that all block numbers were in range, and took one free block for each that was
not mapped. -/
theorem SoundVolume.free_of_ok {a a' : Info} (h : SoundVolume sb a)
    (hi : i < sb.entryCount.toNat) (hidx : v2sInodeNum ino = i) {ks : List Nat} (hnd : ks.Nodup)
    {bs : List (Nat × UInt32)} (hok : mapBlocks a ino true ks = (.ok bs, a')) :
    (∀ k ∈ ks, k < 9) ∧
      a'.freeBlocks + ks.countP (fun k => a.slot (i, k) == 0) = a.freeBlocks := by
  induction ks generalizing a bs with
  | nil =>
    cases hok
    simp
  | cons k ks ih =>
    obtain ⟨hk, hnd'⟩ := List.nodup_cons.1 hnd
    have hvol := (h.getBlock_grows hi hidx k).vol
    unfold mapBlocks at hok
    rcases h.getBlock_cases hi hidx k with ⟨e, n, hget, -⟩ | ⟨phys, n, hget, h9, hs, hne⟩ |
      ⟨phys, a₁, hget, h9, hz, hne, hfree, hslot⟩ <;> rw [hget] at hok hvol <;> simp only at hok
    · cases hok
    · rcases hmap : mapBlocks (a.ticks n) ino true ks with ⟨e | bs', a₂⟩ <;> rw [hmap] at hok
      · cases hok
      · cases hok
        obtain ⟨hall, hcount⟩ := ih hvol hnd' hmap
        refine ⟨List.forall_mem_cons.2 ⟨h9, hall⟩, ?_⟩
        rw [List.countP_cons_of_neg (by simp only [hs, beq_iff_eq]; exact hne)]
        exact hcount
    · rcases hmap : mapBlocks a₁ ino true ks with ⟨e | bs', a₂⟩ <;> rw [hmap] at hok
      · cases hok
      · cases hok
        obtain ⟨hall, hcount⟩ := ih hvol hnd' hmap
        refine ⟨List.forall_mem_cons.2 ⟨h9, hall⟩, ?_⟩
        rw [List.countP_cons_of_pos (by simp [hz]), ← hfree, ← hcount,
          countP_slot_of_not_mem hk hslot]
        omega

/-- An error means that a block number was out of range or that there were too few free blocks. -/
theorem SoundVolume.not_fits_of_error {a a' : Info} (h : SoundVolume sb a)
    (hi : i < sb.entryCount.toNat) (hidx : v2sInodeNum ino = i) {ks : List Nat} (hnd : ks.Nodup)
    {e : Int} (herr : mapBlocks a ino true ks = (.error e, a')) :
    ¬ ((∀ k ∈ ks, k < 9) ∧ ks.countP (fun k => a.slot (i, k) == 0) ≤ a.freeBlocks) := by
  induction ks generalizing a with
  | nil => cases herr
  | cons k ks ih =>
    obtain ⟨hk, hnd'⟩ := List.nodup_cons.1 hnd
    have hvol := (h.getBlock_grows hi hidx k).vol
    rintro ⟨hall, hcount⟩
    obtain ⟨hk9, hall'⟩ := List.forall_mem_cons.1 hall
    unfold mapBlocks at herr
    rcases h.getBlock_cases hi hidx k with ⟨e, n, hget, h9 | ⟨hz, hfree⟩⟩ |
      ⟨phys, n, hget, -, hs, hne⟩ | ⟨phys, a₁, hget, -, hz, hne, hfree, hslot⟩
    · omega
    · rw [List.countP_cons_of_pos (by simp [hz])] at hcount
      omega
    · rw [hget] at herr hvol
      simp only at herr
      rw [List.countP_cons_of_neg (by simp only [hs, beq_iff_eq]; exact hne)] at hcount
      rcases hmap : mapBlocks (a.ticks n) ino true ks with ⟨e | bs', a₂⟩ <;> rw [hmap] at herr
      · exact ih hvol hnd' (by rw [hmap]; exact herr) ⟨hall', hcount⟩
      · cases herr
    · rw [hget] at herr hvol
      simp only at herr hvol
      rw [List.countP_cons_of_pos (by simp [hz])] at hcount
      rcases hmap : mapBlocks a₁ ino true ks with ⟨e | bs', a₂⟩ <;> rw [hmap] at herr
      · refine ih hvol hnd' (by rw [hmap]; exact herr) ⟨hall', ?_⟩
        rw [countP_slot_of_not_mem hk hslot]
        omega
      · cases herr

/-- Without `create`, mapping changes nothing and reports the blocks in the slots. -/
theorem SoundVolume.mapBlocks_of_read {a : Info} (h : SoundVolume sb a)
    (hi : i < sb.entryCount.toNat) (hidx : v2sInodeNum ino = i) (ks : List Nat) :
    ∃ n, (mapBlocks a ino false ks).2 = a.ticks n ∧
      ∀ bs, (mapBlocks a ino false ks).1 = .ok bs →
        bs.map Prod.fst = ks ∧ ∀ kb ∈ bs, a.slot (i, kb.1) = kb.2.toNat ∧ kb.2.toNat ≠ 0 := by
  induction ks generalizing a with
  | nil =>
    refine ⟨0, rfl, fun bs hbs => ?_⟩
    cases hbs
    exact ⟨rfl, by simp⟩
  | cons k ks ih =>
    obtain ⟨n, hn⟩ := sfsGetBlock_eq h.toPlain ino k false
    have hi' : i < a.sb.entryCount.toNat := by rw [h.sb_eq]; exact hi
    simp only [hidx, ↓reduceIte] at hn
    unfold mapBlocks
    rw [hn]
    by_cases h9 : 9 ≤ k
    · rw [if_pos h9]
      exact ⟨n, rfl, fun bs hbs => by cases hbs⟩
    rw [if_neg h9]
    by_cases hb : (a.entry i).block k ≠ 0
    · rw [if_pos hb]
      obtain ⟨m, hm, hok⟩ := ih (h.ticks n)
      simp only
      rcases hmap : mapBlocks (a.ticks n) ino false ks with ⟨e | bs, a'⟩ <;> rw [hmap] at hm hok
      · exact ⟨n + m, by rw [← Info.ticks_ticks]; exact hm, fun bs hbs => by cases hbs⟩
      · refine ⟨n + m, by rw [← Info.ticks_ticks]; exact hm, fun bs' hbs => ?_⟩
        cases hbs
        obtain ⟨hfst, hall⟩ := hok bs rfl
        refine ⟨by simp [hfst], List.forall_mem_cons.2 ⟨?_, hall⟩⟩
        exact ⟨Info.slot_of_lt hi' k, toNat_ne_zero.2 hb⟩
    · rw [if_neg hb]
      exact ⟨n, rfl, fun bs hbs => by cases hbs⟩

end Mapping

/-! ## Storing the blocks of a page -/

/-- Byte `p` of the file in entry `i`. -/
def Info.byte (info : Info) (i p : Nat) : UInt8 :=
  (info.data (info.slot (i, p / 512))).getD (p % 512) 0

section Storing

variable {sb : SuperBlock} {i : Nat}

theorem getD_ofFn {n : Nat} (f : Fin n → UInt8) {j : Nat} (hj : j < n) :
    (Vector.ofFn f).getD j 0 = f ⟨j, hj⟩ := by
  simp [Vector.getD, hj]

theorem byteAt_of_mem {a : Info} {bs : List (Nat × UInt32)} {p : Nat}
    (hbs : ∀ kb ∈ bs, a.slot (i, kb.1) = kb.2.toNat) (hp : p / 512 ∈ bs.map Prod.fst) :
    byteAt a bs p = a.byte i p := by
  induction bs with
  | nil => cases hp
  | cons kb bs ih =>
    obtain ⟨k, phys⟩ := kb
    obtain ⟨hk, hbs'⟩ := List.forall_mem_cons.1 hbs
    by_cases e : p / 512 = k
    · subst e
      have hmod : p % 512 < 512 := Nat.mod_lt _ (by decide)
      simp only [byteAt, List.lookup_cons_self, Info.byte, Info.data, hk, getD_ofFn _ hmod]
    · have hp' : p / 512 ∈ bs.map Prod.fst := by
        rw [List.map_cons, List.mem_cons] at hp
        exact hp.resolve_left e
      rw [← ih hbs' hp']
      simp only [byteAt, List.lookup_cons, beq_eq_false_iff_ne.2 e]

/-- One block of the loop, as a store of whole blocks. -/
theorem storeBlocks_cons (a : Info) (pos : Nat) (buf : List UInt8) (k : Nat)
    (phys : UInt32) (bs : List (Nat × UInt32)) :
    storeBlocks pos buf ((k, phys) :: bs) a = storeBlocks pos buf bs (a.setData phys.toNat
      (.ofFn fun j => overwrite ((a.data phys.toNat).getD · 0) k pos buf j)) := by
  have hstore : ∀ j < 512,
      overwrite (a.dev.data.window (phys.toNat * a.dev.blocksize)) k pos buf j =
        Data.bytes (.ofFn fun j => overwrite ((a.data phys.toNat).getD · 0) k pos buf j) j := by
    intro j hj
    simp only [Data.bytes, Info.data, getD_ofFn _ hj, overwrite, Mem.window_apply]
  simp only [storeBlocks, Info.setData, Device.modify]
  rw [Mem.store_congr hstore]

theorem SoundVolume.sameTable_setData {a : Info} (h : SoundVolume sb a) {b : Nat}
    (hb : sb.dataBlockStart.toNat ≤ b) (d : Data) : SameTable a (a.setData b d) := by
  rw [← h.sb_eq] at hb
  exact ⟨rfl, rfl, fun j hj => (h.toMounted.entry_setData h.fits hj hb d).symm⟩

/-- What storing `buf` at `pos` in the blocks `ks` of entry `i` does: these bytes of that file are
replaced, and nothing else. -/
structure Replaces (sb : SuperBlock) (i : Nat) (ks : List Nat) (pos : Nat) (buf : List UInt8)
    (a a' : Info) : Prop where
  vol : SoundVolume sb a'
  table : SameTable a a'
  others : ∀ p, a.slot p ≠ 0 → p.1 ≠ i → a'.data (a.slot p) = a.data (a.slot p)
  bytes : ∀ p, a.slot (i, p / 512) ≠ 0 → a'.byte i p =
    if p / 512 ∈ ks ∧ pos ≤ p ∧ p < pos + buf.length then buf.getD (p - pos) 0 else a.byte i p

/-- One block. -/
theorem SoundVolume.replaces_setData {a : Info} (h : SoundVolume sb a) {k : Nat}
    (hk : a.slot (i, k) ≠ 0) (pos : Nat) (buf : List UInt8) :
    Replaces sb i [k] pos buf a (a.setData (a.slot (i, k))
      (.ofFn fun j => overwrite ((a.data (a.slot (i, k))).getD · 0) k pos buf j)) := by
  have hb := (h.sound.in_region _ hk).1
  have hb' : sb.dataBlockStart.toNat ≤ a.slot (i, k) := by rw [← h.sb_eq]; exact hb
  have htable := h.sameTable_setData hb' (.ofFn fun j =>
    overwrite ((a.data (a.slot (i, k))).getD · 0) k pos buf j)
  refine ⟨h.setData hb _, htable, fun p hp hpi => ?_, fun p hp => ?_⟩
  · rw [h.toMounted.data_setData, if_neg]
    intro e
    have := h.sound.inj _ _ hk e
    exact hpi (congrArg Prod.fst this).symm
  · have hmod : p % 512 < 512 := Nat.mod_lt _ (by decide)
    unfold Info.byte
    rw [← htable.slot, h.toMounted.data_setData]
    by_cases e : p / 512 = k
    · subst e
      rw [if_pos rfl, getD_ofFn _ hmod]
      simp only [overwrite, Nat.div_add_mod, List.mem_singleton, true_and]
    · rw [if_neg, if_neg]
      · rintro ⟨hmem, -⟩
        exact e (List.mem_singleton.1 hmem)
      · intro he
        have := h.sound.inj _ _ hk he
        exact e (congrArg Prod.snd this).symm

theorem Replaces.trans {k : Nat} {ks : List Nat} {pos : Nat} {buf : List UInt8} {a a₁ a' : Info}
    (h : Replaces sb i [k] pos buf a a₁) (h' : Replaces sb i ks pos buf a₁ a') :
    Replaces sb i (k :: ks) pos buf a a' := by
  have hslot := h.table.slot
  refine ⟨h'.vol, h.table.trans h'.table, fun p hp hpi => ?_, fun p hp => ?_⟩
  · have h1 := h'.others p (by rw [← hslot]; exact hp) hpi
    rw [← hslot] at h1
    rw [h1, h.others p hp hpi]
  · rw [h'.bytes p (by rw [← hslot]; exact hp), h.bytes p hp]
    by_cases hin : pos ≤ p ∧ p < pos + buf.length
    · by_cases hk : p / 512 = k <;> simp [hin, hk]
    · simp only [hin, and_false, ↓reduceIte]

theorem SoundVolume.storeBlocks_replaces {a : Info} (h : SoundVolume sb a)
    {bs : List (Nat × UInt32)}
    (hbs : ∀ kb ∈ bs, a.slot (i, kb.1) = kb.2.toNat ∧ kb.2.toNat ≠ 0) (pos : Nat)
    (buf : List UInt8) :
    Replaces sb i (bs.map Prod.fst) pos buf a (storeBlocks pos buf bs a) := by
  induction bs generalizing a with
  | nil =>
    refine ⟨h, SameTable.refl a, fun _ _ _ => rfl, fun p _ => ?_⟩
    simp [storeBlocks]
  | cons kb bs ih =>
    obtain ⟨k, phys⟩ := kb
    obtain ⟨⟨hk, hne⟩, hbs'⟩ := List.forall_mem_cons.1 hbs
    simp only at hk hne
    have hfirst := h.replaces_setData (i := i) (k := k) (by rw [hk]; exact hne) pos buf
    rw [hk] at hfirst
    rw [storeBlocks_cons, List.map_cons]
    refine hfirst.trans (ih hfirst.vol fun kb hkb => ?_)
    rw [← hfirst.table.slot]
    exact hbs' kb hkb

end Storing

/-! ## Files left alone -/

section Keeping

variable {sb : SuperBlock} {ino : Int} {i : Nat}

/-- The file of entry `i` is left alone. -/
structure Keeps (i : Nat) (a a' : Info) : Prop where
  slot : ∀ k, a'.slot (i, k) = a.slot (i, k)
  data : ∀ k, a.slot (i, k) ≠ 0 → a'.data (a.slot (i, k)) = a.data (a.slot (i, k))

theorem Keeps.ticks (i : Nat) (a : Info) (n : Nat) : Keeps i a (a.ticks n) :=
  ⟨fun _ => rfl, fun _ _ => rfl⟩

theorem Keeps.trans {a a₁ a' : Info} (h : Keeps i a a₁) (h' : Keeps i a₁ a') : Keeps i a a' := by
  refine ⟨fun k => (h'.slot k).trans (h.slot k), fun k hk => ?_⟩
  have h1 := h'.data k (by rw [h.slot]; exact hk)
  rw [h.slot] at h1
  rw [h1, h.data k hk]

theorem Keeps.byte {a a' : Info} (h : Keeps i a a') {p : Nat} (hp : a.slot (i, p / 512) ≠ 0) :
    a'.byte i p = a.byte i p := by
  unfold Info.byte
  rw [h.slot, h.data _ hp]

/-- Another entry is rewritten by a table operation. -/
theorem SoundVolume.keeps_table {a : Info} (h : SoundVolume sb a) {op : Op} (hv : op.Valid sb)
    (hslot : ∀ k, (op.exec a).slot (i, k) = a.slot (i, k)) : Keeps i a (op.exec a) :=
  ⟨hslot, fun _ hk => h.data_exec hv (h.sound.in_region _ hk).1⟩

theorem SoundVolume.keeps_create {a : Info} (h : SoundVolume sb a) (hidx : v2sInodeNum ino = i)
    {fn : CStr} {perms now : Int} (hne : (sfsCreate a fn perms now .zero).1.1 ≠ ino) :
    Keeps i a (sfsCreate a fn perms now .zero).2 := by
  have hv : (Op.create fn perms now).Valid sb := trivial
  refine h.keeps_table hv fun k => ?_
  obtain ⟨n, fe, hn⟩ := sfsCreate_eq h.toPlain fn perms now .zero
  simp only [Op.exec]
  rw [hn] at hne ⊢
  cases hfree : a.freeEntry with
  | none => rfl
  | some j =>
    rw [hfree] at hne
    have hj : j ≠ i := ne_of_s2vInodeNum_ne hidx hne
    simp only
    rw [(h.toMounted.ticks n).slot_setEntry (Info.freeEntry_eq_some hfree).1, if_neg hj,
      Info.slot_ticks]

theorem SoundVolume.keeps_remove {a : Info} (h : SoundVolume sb a) (hidx : v2sInodeNum ino = i)
    {fn : CStr} (hne : (sfsRemove a fn).1 ≠ ino) : Keeps i a (sfsRemove a fn).2 := by
  have hv : (Op.remove fn).Valid sb := trivial
  refine h.keeps_table hv fun k => ?_
  obtain ⟨n, hn⟩ := sfsRemove_eq h.toPlain fn
  simp only [Op.exec]
  rw [hn] at hne ⊢
  cases hfind : a.find fn with
  | none => rfl
  | some j =>
    rw [hfind] at hne
    have hj : j ≠ i := ne_of_s2vInodeNum_ne hidx hne
    simp only
    rw [((h.toMounted.ticks n).setUsed _).slot_setEntry (Info.find_eq_some hfind).1, if_neg hj,
      Info.slot_setUsed, Info.slot_ticks]

theorem Grows.keeps {j : Nat} {ks : List Nat} {a a' : Info} (hg : Grows sb j ks a a')
    (h : SoundVolume sb a) (hne : j ≠ i) : Keeps i a a' := by
  refine ⟨fun k => ?_, fun k hk => hg.data _ ?_⟩
  · rcases hg.slot (i, k) with he | ⟨-, hj, -⟩
    · exact he
    · exact absurd hj.symm hne
  · rw [← h.sb_eq]
    exact (h.sound.in_region _ hk).1

theorem Replaces.keeps {j : Nat} {ks : List Nat} {pos : Nat} {buf : List UInt8} {a a' : Info}
    (h : Replaces sb j ks pos buf a a') (hne : j ≠ i) : Keeps i a a' :=
  ⟨fun k => (h.table.slot (i, k)).symm, fun k hk => h.others (i, k) hk fun e => hne e.symm⟩

/-- Mapped blocks of the file itself are left alone too. -/
theorem Grows.byte {ks : List Nat} {a a' : Info} (hg : Grows sb i ks a a') (h : SoundVolume sb a)
    {p : Nat} (hp : a.slot (i, p / 512) ≠ 0) : a'.byte i p = a.byte i p := by
  have hb := (h.sound.in_region _ hp).1
  rw [h.sb_eq] at hb
  unfold Info.byte
  rw [hg.slot_of_mapped hp, hg.data _ hb]

/-- A page of another file is written. -/
theorem SoundVolume.writePage_keeps {fs : Fs} (h : SoundVolume sb fs.info) {ino' : Int}
    (hin : InTable sb ino') (hidx : v2sInodeNum ino = i) (hne : ino' ≠ ino) (pos : Nat)
    (buf : List UInt8) : SoundVolume sb (writePage fs ino' pos buf).2.info ∧
      Keeps i fs.info (writePage fs ino' pos buf).2.info ∧
      (writePage fs ino' pos buf).2.size ino = fs.size ino := by
  obtain ⟨j, hj, hjdx⟩ := hin.index
  have hji : j ≠ i := by
    unfold v2sInodeNum at hidx hjdx
    omega
  have hgrows := h.mapBlocks_grows hj hjdx (blocksOf pos buf.length)
  unfold writePage
  rcases hmap : mapBlocks fs.info ino' true (blocksOf pos buf.length) with ⟨e | bs, a⟩ <;>
    rw [hmap] at hgrows
  · exact ⟨hgrows.vol, hgrows.keeps h hji, rfl⟩
  · have hstore := hgrows.vol.storeBlocks_replaces (h.mapBlocks_ok hj hjdx hmap).2 pos buf
    exact ⟨hstore.vol, (hgrows.keeps h hji).trans (hstore.keeps hji),
      Function.update_of_ne hne.symm _ _⟩

theorem SoundVolume.writePages_keeps {fs : Fs} (h : SoundVolume sb fs.info) {ino' : Int}
    (hin : InTable sb ino') (hidx : v2sInodeNum ino = i) (hne : ino' ≠ ino) (m pos : Nat)
    (buf : List UInt8) : Keeps i fs.info (writePages m fs ino' pos buf).2.info ∧
      (writePages m fs ino' pos buf).2.size ino = fs.size ino := by
  induction m generalizing fs pos buf with
  | zero => exact ⟨Keeps.ticks i fs.info 0, rfl⟩
  | succ m ih =>
    unfold writePages
    by_cases he : buf = []
    · rw [if_pos he]
      exact ⟨Keeps.ticks i fs.info 0, rfl⟩
    rw [if_neg he]
    simp only
    generalize min (pageSize - pos % pageSize) buf.length = n
    obtain ⟨hvol, hkeeps, hsize⟩ := h.writePage_keeps hin hidx hne pos (buf.take n)
    generalize writePage fs ino' pos (buf.take n) = r at hvol hkeeps hsize ⊢
    rcases r with ⟨e | _, fs'⟩
    · exact ⟨hkeeps, hsize⟩
    · obtain ⟨hkeeps', hsize'⟩ := ih hvol (pos + n) (buf.drop n)
      simp only at hkeeps' hsize' ⊢
      generalize writePages m fs' ino' (pos + n) (buf.drop n) = r' at hkeeps' hsize' ⊢
      rcases r' with ⟨e | k, fs''⟩
      · exact ⟨hkeeps.trans hkeeps', hsize'.trans hsize⟩
      · exact ⟨hkeeps.trans hkeeps', hsize'.trans hsize⟩

end Keeping

end LinuxDrivers.Sfs
