import LinuxDrivers.Sfs.Pages

/-!
# Data of removed files

Freed blocks are not cleared, and a new block of a file is loaded before it is partly overwritten.
So a file shows what earlier files left on the device, unless every byte that comes into view is
written. `Extent.WriteOk` says when a write brings no other byte into view, and two runs that differ
only in what was written before the file was created then read the same from it.
-/

namespace LinuxDrivers.Sfs

/-! ## Writes that bring only their own bytes into view -/

/-- What decides which bytes of a file can be read: its mapped blocks and its size; and how many
blocks it can still be given. -/
structure Extent where
  mapped : Nat → Bool
  size : Nat
  free : Nat

def Fs.extent (fs : Fs) (ino : Int) : Extent where
  mapped k := fs.info.slot ((v2sInodeNum ino).toNat, k) != 0
  size := fs.size ino
  free := fs.info.freeBlocks

namespace Extent

/-- The number of blocks that have to be allocated for `n` bytes at `pos`. -/
def need (x : Extent) (pos n : Nat) : Nat := (blocksOf pos n).countP (! x.mapped ·)

/-- All blocks for `n` bytes at `pos` can be mapped. -/
def Fits (x : Extent) (pos n : Nat) : Prop :=
  (∀ k ∈ blocksOf pos n, k < 9) ∧ x.need pos n ≤ x.free

/-- The extent after `n` bytes were written at `pos`. -/
def written (x : Extent) (pos n : Nat) : Extent where
  mapped k := x.mapped k || (blocksOf pos n).contains k
  size := max x.size (pos + n)
  free := x.free - x.need pos n

/-- Outside of the `n` bytes at `pos`, all that can be read after writing them could be read
before. -/
def Covers (x : Extent) (pos n : Nat) : Prop :=
  ∀ p < max x.size (pos + n), p < pos ∨ pos + n ≤ p → (x.written pos n).mapped (p / 512) = true →
    p < x.size ∧ x.mapped (p / 512) = true

/-- Blocks that are mapped without being written are out of sight. -/
def Hides (x : Extent) (pos n : Nat) : Prop :=
  x.free = 0 ∨ ∀ k ∈ blocksOf pos n, x.mapped k = false → x.size ≤ 512 * k

/-- A write of `len` bytes at `pos`, piece by piece: a piece that fits covers what it brings into
view, and one that does not fit ends the write and leaves its blocks out of sight. -/
def WriteOk : Nat → Extent → Nat → Nat → Prop
  | 0, _, _, _ => True
  | m + 1, x, pos, len =>
    let n := min (pageSize - pos % pageSize) len
    len = 0 ∨ (x.Fits pos n ∧ x.Covers pos n ∧ WriteOk m (x.written pos n) (pos + n) (len - n)) ∨
      ¬ x.Fits pos n ∧ x.Hides pos n

instance (x : Extent) (pos n : Nat) : Decidable (x.Fits pos n) :=
  inferInstanceAs (Decidable (_ ∧ _))

instance (x : Extent) (pos n : Nat) : Decidable (x.Covers pos n) :=
  inferInstanceAs (Decidable (∀ p < _, _))

instance (x : Extent) (pos n : Nat) : Decidable (x.Hides pos n) :=
  inferInstanceAs (Decidable (_ ∨ _))

instance WriteOk.decidable : ∀ (m : Nat) (x : Extent) (pos len : Nat),
    Decidable (WriteOk m x pos len)
  | 0, _, _, _ => isTrue trivial
  | m + 1, x, pos, len =>
    have := WriteOk.decidable m (x.written pos (min (pageSize - pos % pageSize) len))
      (pos + min (pageSize - pos % pageSize) len) (len - min (pageSize - pos % pageSize) len)
    inferInstanceAs (Decidable (_ ∨ _))

end Extent

/-- A write to the file with number `ino` brings no bytes into view but its own. -/
def FileOp.Covered (ino : Int) (fs : Fs) : FileOp → Prop
  | .write ino' pos buf =>
    ino' = ino → Extent.WriteOk buf.length (fs.extent ino) pos buf.length
  | _ => True

instance (ino : Int) (fs : Fs) (op : FileOp) : Decidable (op.Covered ino fs) := by
  rcases op with _ | _ | _ | _ <;> dsimp only [FileOp.Covered] <;> infer_instance

/-! ## Two runs -/

section Twins

variable {sb : SuperBlock} {ino : Int} {i : Nat}

/-- Two sound volumes that agree in everything but data. -/
structure Twins (sb : SuperBlock) (fs gs : Fs) : Prop where
  left : SoundVolume sb fs.info
  right : SoundVolume sb gs.info
  table : SameTable fs.info gs.info
  size : fs.size = gs.size

theorem Twins.ticks {fs gs : Fs} (h : Twins sb fs gs) (k l : Nat) :
    Twins sb { fs with info := fs.info.ticks k } { gs with info := gs.info.ticks l } :=
  ⟨h.left.ticks k, h.right.ticks l, h.table.ticks k l, h.size⟩

theorem SameTable.mapBlocks {a b : Info} (h : SameTable a b) (ha : SoundVolume sb a)
    (hb : SoundVolume sb b) (hin : InTable sb ino) (cr : Bool) (ks : List Nat) :
    (mapBlocks a ino cr ks).1 = (mapBlocks b ino cr ks).1 ∧
      SameTable (mapBlocks a ino cr ks).2 (mapBlocks b ino cr ks).2 := by
  induction ks generalizing a b with
  | nil => exact ⟨rfl, h⟩
  | cons k ks ih =>
    have hv : (Op.getBlock ino k cr).Valid sb := hin
    have ha' : SoundVolume sb (sfsGetBlock a ino k cr).2 := ha.table hv
    have hb' : SoundVolume sb (sfsGetBlock b ino k cr).2 := hb.table hv
    obtain ⟨hres, htable⟩ := h.getBlock ha.toMounted hb.toMounted (by rw [ha.sb_eq]; exact hin) k cr
    unfold Sfs.mapBlocks
    rcases hga : sfsGetBlock a ino k cr with ⟨r, a₁⟩
    rcases hgb : sfsGetBlock b ino k cr with ⟨r', b₁⟩
    rw [hga, hgb] at hres htable
    rw [hga] at ha'
    rw [hgb] at hb'
    simp only at hres htable
    subst hres
    cases r with
    | error e => exact ⟨rfl, htable⟩
    | ok phys =>
      obtain ⟨hres', htable'⟩ := ih htable ha' hb'
      simp only
      rcases hma : Sfs.mapBlocks a₁ ino cr ks with ⟨r, a₂⟩
      rcases hmb : Sfs.mapBlocks b₁ ino cr ks with ⟨r', b₂⟩
      rw [hma, hmb] at hres' htable'
      simp only at hres' htable'
      subst hres'
      cases r with
      | error e => exact ⟨rfl, htable'⟩
      | ok bs => exact ⟨rfl, htable'⟩

/-- Pages of the same length are written or refused alike. -/
theorem Twins.writePage {fs gs : Fs} (h : Twins sb fs gs) (hin : InTable sb ino) (pos : Nat)
    {buf buf' : List UInt8} (hlen : buf.length = buf'.length) :
    (writePage fs ino pos buf).1 = (writePage gs ino pos buf').1 ∧
      Twins sb (writePage fs ino pos buf).2 (writePage gs ino pos buf').2 := by
  obtain ⟨i, hi, hidx⟩ := hin.index
  obtain ⟨hres, htable⟩ := h.table.mapBlocks h.left h.right hin true (blocksOf pos buf.length)
  have hga := h.left.mapBlocks_grows hi hidx (blocksOf pos buf.length)
  have hgb := h.right.mapBlocks_grows hi hidx (blocksOf pos buf.length)
  unfold Sfs.writePage
  rw [← hlen]
  rcases hma : mapBlocks fs.info ino true (blocksOf pos buf.length) with ⟨r, a⟩
  rcases hmb : mapBlocks gs.info ino true (blocksOf pos buf.length) with ⟨r', b⟩
  rw [hma, hmb] at hres htable
  rw [hma] at hga
  rw [hmb] at hgb
  simp only at hres htable
  subst hres
  cases r with
  | error e => exact ⟨rfl, ⟨hga.vol, hgb.vol, htable, h.size⟩⟩
  | ok bs =>
    have hra := hga.vol.storeBlocks_replaces (h.left.mapBlocks_ok hi hidx hma).2 pos buf
    have hrb := hgb.vol.storeBlocks_replaces (h.right.mapBlocks_ok hi hidx hmb).2 pos buf'
    refine ⟨rfl, ⟨hra.vol, hrb.vol, ?_, ?_⟩⟩
    · exact hra.table.symm.trans (htable.trans hrb.table)
    · simp only [h.size]

theorem Twins.writePages {fs gs : Fs} (h : Twins sb fs gs) (hin : InTable sb ino) (m pos : Nat)
    {buf buf' : List UInt8} (hlen : buf.length = buf'.length) :
    Twins sb (writePages m fs ino pos buf).2 (writePages m gs ino pos buf').2 := by
  induction m generalizing fs gs pos buf buf' with
  | zero => exact h
  | succ m ih =>
    have hnil : buf = [] ↔ buf' = [] := by
      rw [← List.length_eq_zero_iff, ← List.length_eq_zero_iff, hlen]
    unfold Sfs.writePages
    rw [← hlen]
    by_cases he : buf = []
    · rw [if_pos he, if_pos (hnil.1 he)]
      exact h
    · rw [if_neg he, if_neg (fun e => he (hnil.2 e))]
      simp only
      generalize min (pageSize - pos % pageSize) buf.length = n
      have htake : (buf.take n).length = (buf'.take n).length := by simp [hlen]
      have hdrop : (buf.drop n).length = (buf'.drop n).length := by simp [hlen]
      obtain ⟨hres, htwins⟩ := h.writePage hin pos htake
      rcases hwa : Sfs.writePage fs ino pos (buf.take n) with ⟨r, fs'⟩
      rcases hwb : Sfs.writePage gs ino pos (buf'.take n) with ⟨r', gs'⟩
      rw [hwa, hwb] at hres htwins
      simp only at hres htwins
      subst hres
      cases r with
      | error e => exact htwins
      | ok _ =>
        have hrest := ih htwins (pos + n) hdrop
        simp only
        generalize Sfs.writePages m fs' ino (pos + n) (buf.drop n) = ra at hrest ⊢
        generalize Sfs.writePages m gs' ino (pos + n) (buf'.drop n) = rb at hrest ⊢
        rcases ra with ⟨e | k, fs''⟩ <;> rcases rb with ⟨e' | k', gs''⟩ <;> exact hrest

/-- Reading changes neither the volume nor a size. -/
theorem SoundVolume.readPages_state {fs : Fs} (h : SoundVolume sb fs.info) (hin : InTable sb ino)
    (m pos len : Nat) :
    ∃ n, (readPages m fs ino pos len).2 = { fs with info := fs.info.ticks n } := by
  obtain ⟨i, hi, hidx⟩ := hin.index
  induction m generalizing fs pos len with
  | zero => exact ⟨0, rfl⟩
  | succ m ih =>
    unfold readPages
    simp only
    generalize min (pageSize - pos % pageSize) (min len (fs.size ino - pos)) = n
    by_cases hn : n = 0
    · rw [if_pos hn]
      exact ⟨0, rfl⟩
    rw [if_neg hn]
    obtain ⟨k, hk, -⟩ := h.mapBlocks_of_read hi hidx (pageBlocks (fs.size ino) pos)
    unfold readPage
    generalize mapBlocks fs.info ino false (pageBlocks (fs.size ino) pos) = r at hk ⊢
    rcases r with ⟨e | bs, a⟩ <;> simp only at hk <;> subst hk
    · exact ⟨k, rfl⟩
    · have hvol : SoundVolume sb ({ fs with info := fs.info.ticks k } : Fs).info := h.ticks k
      obtain ⟨l, hl⟩ := ih hvol (pos + n) (len - n)
      refine ⟨k + l, ?_⟩
      simp only at hl ⊢
      generalize readPages m { fs with info := fs.info.ticks k } ino (pos + n) (len - n) = r at hl ⊢
      rcases r with ⟨e | rest, fs'⟩ <;> simp only at hl ⊢ <;> rw [hl, ← Info.ticks_ticks]

/-- A created entry is empty. -/
theorem sfsCreate_size {info : Info} (h : Plain info) (fn : CStr) (perms now : Int)
    (hino : (sfsCreate info fn perms now .zero).1.1 ≠ invInode) :
    (sfsCreate info fn perms now .zero).1.2.size = 0 := by
  obtain ⟨k, fe, hk⟩ := sfsCreate_eq h fn perms now .zero
  rw [hk] at hino ⊢
  cases hfree : info.freeEntry with
  | none =>
    rw [hfree] at hino
    exact absurd rfl hino
  | some i => rfl

/-- Creating a file gives the same answer and leaves the same table. -/
theorem Twins.create {fs gs : Fs} (h : Twins sb fs gs) (fn : CStr) (mode : UInt32) (now : Int)
    (newInodeOk insertOk : Bool) :
    (sfsInodeCreate fs fn mode now newInodeOk insertOk).1 =
        (sfsInodeCreate gs fn mode now newInodeOk insertOk).1 ∧
      Twins sb (sfsInodeCreate fs fn mode now newInodeOk insertOk).2
        (sfsInodeCreate gs fn mode now newInodeOk insertOk).2 := by
  obtain ⟨hino, htable⟩ :=
    h.table.create h.left.toMounted h.right.toMounted fn (entryPerms mode) now
  have hcreate : (Op.create fn (entryPerms mode) now).Valid sb := trivial
  have ha : SoundVolume sb (sfsCreate fs.info fn (entryPerms mode) now .zero).2 :=
    h.left.table hcreate
  have hb : SoundVolume sb (sfsCreate gs.info fn (entryPerms mode) now .zero).2 :=
    h.right.table hcreate
  have hsa := sfsCreate_size h.left.toPlain fn (entryPerms mode) now
  have hsb := sfsCreate_size h.right.toPlain fn (entryPerms mode) now
  unfold sfsInodeCreate
  generalize sfsCreate fs.info fn (entryPerms mode) now .zero = ra at hino htable ha hsa ⊢
  generalize sfsCreate gs.info fn (entryPerms mode) now .zero = rb at hino htable hb hsb ⊢
  obtain ⟨⟨ino, fe⟩, a⟩ := ra
  obtain ⟨⟨ino', fe'⟩, b⟩ := rb
  simp only at hino htable ha hb hsa hsb ⊢
  subst hino
  have hremove : (Op.remove fn).Valid sb := trivial
  have hremoved : SameTable (sfsRemove a fn).2 (sfsRemove b fn).2 :=
    (htable.remove ha.toMounted hb.toMounted fn).2
  have hra : SoundVolume sb (sfsRemove a fn).2 := ha.table hremove
  have hrb : SoundVolume sb (sfsRemove b fn).2 := hb.table hremove
  by_cases hinv : ino = invInode
  · rw [if_pos hinv, if_pos hinv]
    exact ⟨rfl, ⟨ha, hb, htable, h.size⟩⟩
  rw [if_neg hinv, if_neg hinv]
  cases newInodeOk with
  | false => exact ⟨rfl, ⟨hra, hrb, hremoved, h.size⟩⟩
  | true =>
    cases insertOk with
    | false => exact ⟨rfl, ⟨hra, hrb, hremoved, h.size⟩⟩
    | true =>
      refine ⟨rfl, ⟨ha, hb, htable, ?_⟩⟩
      simp only [Bool.not_true, Bool.false_eq_true, ↓reduceIte, hsa hinv, hsb hinv, h.size]

/-- **One step.** Calls that differ in bytes at most keep everything but data equal. -/
theorem Twins.exec {fs gs : Fs} (h : Twins sb fs gs) {op op' : FileOp}
    (hsame : op.SameButBytes op') (hv : op.Valid sb) : Twins sb (op.exec fs) (op'.exec gs) := by
  have hwrite : ∀ ino pos (buf buf' : List UInt8), buf.length = buf'.length → InTable sb ino →
      Twins sb ((FileOp.write ino pos buf).exec fs) ((FileOp.write ino pos buf').exec gs) := by
    intro ino pos buf buf' hlen hin
    unfold FileOp.exec genericFileWriteIter
    simp only
    rw [← hlen]
    exact h.writePages hin _ pos hlen
  cases hsame with
  | write ino pos hlen => exact hwrite ino pos _ _ hlen hv
  | same =>
    cases op with
    | write ino pos buf => exact hwrite ino pos buf buf rfl hv
    | create fn mode now newInodeOk insertOk =>
      exact (h.create fn mode now newInodeOk insertOk).2
    | unlink fn =>
      have hremove : (Op.remove fn).Valid sb := trivial
      exact ⟨h.left.table hremove, h.right.table hremove,
        (h.table.remove h.left.toMounted h.right.toMounted fn).2, h.size⟩
    | read ino pos len =>
      obtain ⟨k, hk⟩ := h.left.readPages_state hv len pos len
      obtain ⟨l, hl⟩ := h.right.readPages_state hv len pos len
      simp only [FileOp.exec, genericFileReadIter, hk, hl]
      exact h.ticks k l

end Twins

/-! ## What a file shows -/

section Shown

variable {sb : SuperBlock} {ino : Int} {i : Nat}

/-- The mapped bytes below `n` of the file of entry `i` are the same. -/
def SameBytes (i n : Nat) (a b : Info) : Prop :=
  ∀ p < n, a.slot (i, p / 512) ≠ 0 → a.byte i p = b.byte i p

theorem SameBytes.keeps {n : Nat} {a b a' b' : Info} (h : SameBytes i n a b)
    (htable : SameTable a b) (ha : Keeps i a a') (hb : Keeps i b b') : SameBytes i n a' b' := by
  intro p hp hmapped
  rw [ha.slot] at hmapped
  rw [ha.byte hmapped, hb.byte (by rw [← htable.slot]; exact hmapped)]
  exact h p hp hmapped

theorem mem_blocksOf {pos n k : Nat} :
    k ∈ blocksOf pos n ↔ pos / 512 ≤ k ∧ 512 * k < pos + n := by
  unfold blocksOf
  rw [List.mem_range'_1]
  omega

theorem nodup_blocksOf (pos n : Nat) : (blocksOf pos n).Nodup := List.nodup_range'

theorem Fs.need_extent (fs : Fs) (hidx : v2sInodeNum ino = i) (pos n : Nat) :
    (fs.extent ino).need pos n =
      (blocksOf pos n).countP (fun k => fs.info.slot (i, k) == 0) := by
  unfold Extent.need
  apply List.countP_congr
  intro k _
  simp [extent, hidx]

/-- A piece of a write fits exactly when its blocks are mapped. -/
theorem SoundVolume.fits_iff {fs : Fs} (h : SoundVolume sb fs.info)
    (hi : i < sb.entryCount.toNat) (hidx : v2sInodeNum ino = i) (pos : Nat) (buf : List UInt8) :
    (fs.extent ino).Fits pos buf.length ↔ (writePage fs ino pos buf).1 = .ok () := by
  have hnd := nodup_blocksOf pos buf.length
  unfold Extent.Fits writePage
  rw [fs.need_extent hidx]
  rcases hmap : mapBlocks fs.info ino true (blocksOf pos buf.length) with ⟨e | bs, a⟩
  · have hnot := h.not_fits_of_error hi hidx hnd hmap
    exact ⟨fun hfits => absurd hfits hnot, fun he => by cases he⟩
  · obtain ⟨hall, hfree⟩ := h.free_of_ok hi hidx hnd hmap
    refine ⟨fun _ => rfl, fun _ => ⟨hall, ?_⟩⟩
    simp only [Fs.extent]
    omega

/-- A piece that fits extends the file. -/
theorem SoundVolume.extent_writePage {fs : Fs} (h : SoundVolume sb fs.info)
    (hi : i < sb.entryCount.toNat) (hidx : v2sInodeNum ino = i) (pos : Nat) (buf : List UInt8)
    (hok : (writePage fs ino pos buf).1 = .ok ()) :
    (writePage fs ino pos buf).2.extent ino = (fs.extent ino).written pos buf.length := by
  have hnd := nodup_blocksOf pos buf.length
  have hgrows := h.mapBlocks_grows hi hidx (blocksOf pos buf.length)
  unfold writePage at hok ⊢
  rcases hmap : mapBlocks fs.info ino true (blocksOf pos buf.length) with ⟨e | bs, a⟩ <;>
    rw [hmap] at hgrows hok
  · cases hok
  obtain ⟨hfst, hbs⟩ := h.mapBlocks_ok hi hidx hmap
  obtain ⟨-, hfree⟩ := h.free_of_ok hi hidx hnd hmap
  have hstore := hgrows.vol.storeBlocks_replaces hbs pos buf
  have hmapped : ∀ k, a.slot (i, k) ≠ 0 ↔
      fs.info.slot (i, k) ≠ 0 ∨ k ∈ blocksOf pos buf.length := by
    intro k
    constructor
    · intro hk
      rcases hgrows.slot (i, k) with he | ⟨-, -, hmem, -⟩
      · exact .inl (he ▸ hk)
      · exact .inr hmem
    · rintro (hk | hk)
      · rw [hgrows.slot_of_mapped hk]
        exact hk
      · rw [← hfst] at hk
        obtain ⟨kb, hkb, rfl⟩ := List.mem_map.1 hk
        rw [(hbs kb hkb).1]
        exact (hbs kb hkb).2
  unfold Fs.extent Extent.written
  simp only [hidx, Int.toNat_natCast, Function.update_self]
  rw [Extent.mk.injEq]
  refine ⟨?_, rfl, ?_⟩
  · funext k
    rw [Bool.eq_iff_iff]
    simp only [← hstore.table.slot, bne_iff_ne, hmapped, Bool.or_eq_true, List.contains_iff_mem]
  · have hneed := fs.need_extent hidx pos buf.length
    unfold Fs.extent at hneed
    simp only [hidx, Int.toNat_natCast] at hneed
    rw [hneed]
    have hsame : (storeBlocks pos buf bs a).freeBlocks = a.freeBlocks := by
      unfold Info.freeBlocks
      rw [← hstore.table.sb, ← hstore.table.used]
    omega

/-- A piece that fits and covers what it brings into view, or that does not fit and hides its
blocks, keeps the shown bytes equal. -/
theorem Twins.sameBytes_writePage {fs gs : Fs} (h : Twins sb fs gs) (hin : InTable sb ino)
    (hidx : v2sInodeNum ino = i) {pos : Nat} {buf : List UInt8}
    (hcond : (fs.extent ino).Fits pos buf.length ∧ (fs.extent ino).Covers pos buf.length ∨
      ¬ (fs.extent ino).Fits pos buf.length ∧ (fs.extent ino).Hides pos buf.length)
    (hsame : SameBytes i (fs.size ino) fs.info gs.info) :
    SameBytes i ((Sfs.writePage fs ino pos buf).2.size ino) (Sfs.writePage fs ino pos buf).2.info
      (Sfs.writePage gs ino pos buf).2.info := by
  have hi := hin.lt hidx
  obtain ⟨hres, htable⟩ := h.table.mapBlocks h.left h.right hin true (blocksOf pos buf.length)
  have hga := h.left.mapBlocks_grows hi hidx (blocksOf pos buf.length)
  have hgb := h.right.mapBlocks_grows hi hidx (blocksOf pos buf.length)
  have hfits := h.left.fits_iff hi hidx pos buf
  have hext := h.left.extent_writePage hi hidx pos buf
  have hbyte : ∀ p < fs.size ino, fs.info.slot (i, p / 512) ≠ 0 →
      (mapBlocks fs.info ino true (blocksOf pos buf.length)).2.byte i p =
        (mapBlocks gs.info ino true (blocksOf pos buf.length)).2.byte i p := by
    intro p hp hmapped
    rw [hga.byte h.left hmapped, hgb.byte h.right (by rw [← h.table.slot]; exact hmapped)]
    exact hsame p hp hmapped
  unfold Sfs.writePage at hfits hext ⊢
  rcases hma : mapBlocks fs.info ino true (blocksOf pos buf.length) with ⟨r, a⟩
  rcases hmb : mapBlocks gs.info ino true (blocksOf pos buf.length) with ⟨r', b⟩
  rw [hma, hmb] at hres htable hbyte
  rw [hma] at hga hfits hext
  rw [hmb] at hgb
  simp only at hres htable hbyte
  subst hres
  cases r with
  | error e =>
    -- nothing is written, and the blocks mapped in vain lie behind the end
    have hhides := (hcond.resolve_left fun hc => by cases hfits.1 hc.1).2
    intro p hp hmapped
    rcases hga.slot (i, p / 512) with he | ⟨hz, -, hmem, hfree⟩
    · exact hbyte p hp (he ▸ hmapped)
    · rcases hhides with hnone | hbehind
      · exact absurd hnone hfree
      · have := hbehind (p / 512) hmem (by simp [Fs.extent, hidx, hz])
        simp only [Fs.extent] at this
        simp only at hp
        omega
  | ok bs =>
    obtain ⟨-, hcovers⟩ := hcond.resolve_right fun hc => hc.1 (hfits.2 rfl)
    have hra := hga.vol.storeBlocks_replaces (h.left.mapBlocks_ok hi hidx hma).2 pos buf
    have hrb := hgb.vol.storeBlocks_replaces (h.right.mapBlocks_ok hi hidx hmb).2 pos buf
    rw [(h.left.mapBlocks_ok hi hidx hma).1] at hra
    rw [(h.right.mapBlocks_ok hi hidx hmb).1] at hrb
    intro p hp hmapped
    have hwritten : ((fs.extent ino).written pos buf.length).mapped (p / 512) = true := by
      rw [← hext rfl]
      simpa [Fs.extent, hidx] using hmapped
    simp only [← hra.table.slot] at hmapped
    have hmapped' : b.slot (i, p / 512) ≠ 0 := by
      rw [← htable.slot]
      exact hmapped
    simp only [Function.update_self] at hp
    simp only [hra.bytes p hmapped, hrb.bytes p hmapped']
    by_cases hpos : pos ≤ p ∧ p < pos + buf.length
    · have hmem : p / 512 ∈ blocksOf pos buf.length := mem_blocksOf.2 (by omega)
      rw [if_pos ⟨hmem, hpos⟩, if_pos ⟨hmem, hpos⟩]
    · rw [if_neg fun hc => hpos hc.2, if_neg fun hc => hpos hc.2]
      obtain ⟨hsize, hbefore⟩ := hcovers p hp (by omega) hwritten
      exact hbyte p hsize (by simpa [Fs.extent, hidx] using hbefore)

/-- A whole write keeps them equal, piece by piece. -/
theorem Twins.sameBytes_writePages {fs gs : Fs} (h : Twins sb fs gs) (hin : InTable sb ino)
    (hidx : v2sInodeNum ino = i) (m : Nat) {pos : Nat} {buf : List UInt8}
    (hcond : Extent.WriteOk m (fs.extent ino) pos buf.length)
    (hsame : SameBytes i (fs.size ino) fs.info gs.info) :
    SameBytes i ((Sfs.writePages m fs ino pos buf).2.size ino)
      (Sfs.writePages m fs ino pos buf).2.info (Sfs.writePages m gs ino pos buf).2.info := by
  induction m generalizing fs gs pos buf with
  | zero => exact hsame
  | succ m ih =>
    unfold Sfs.writePages
    by_cases he : buf = []
    · rw [if_pos he, if_pos he]
      exact hsame
    rw [if_neg he, if_neg he]
    have hi := hin.lt hidx
    have hlen : buf.length ≠ 0 := fun e => he (List.length_eq_zero_iff.1 e)
    have hn : min (pageSize - pos % pageSize) buf.length ≤ buf.length := Nat.min_le_right _ _
    have hcond' := hcond.resolve_left hlen
    simp only at hcond' ⊢
    generalize min (pageSize - pos % pageSize) buf.length = n at hcond' hn ⊢
    have htake : (buf.take n).length = n := by simp [hn]
    have hfits := h.left.fits_iff hi hidx pos (buf.take n)
    have hext := h.left.extent_writePage hi hidx pos (buf.take n)
    obtain ⟨hres, htwins⟩ := h.writePage hin pos (rfl : (buf.take n).length = (buf.take n).length)
    have hpage : SameBytes i ((Sfs.writePage fs ino pos (buf.take n)).2.size ino)
        (Sfs.writePage fs ino pos (buf.take n)).2.info
        (Sfs.writePage gs ino pos (buf.take n)).2.info := by
      apply h.sameBytes_writePage hin hidx _ hsame
      rw [htake]
      exact hcond'.imp_left fun hc => ⟨hc.1, hc.2.1⟩
    rw [htake] at hfits hext
    rcases hwa : Sfs.writePage fs ino pos (buf.take n) with ⟨r, fs'⟩
    rcases hwb : Sfs.writePage gs ino pos (buf.take n) with ⟨r', gs'⟩
    rw [hwa, hwb] at hres htwins hpage
    rw [hwa] at hfits hext
    simp only at hres htwins hpage hfits hext
    subst hres
    cases r with
    | error e => exact hpage
    | ok u =>
      obtain ⟨-, -, hrest⟩ := hcond'.resolve_right fun hc => hc.1 (hfits.2 rfl)
      rw [← hext rfl, ← List.length_drop] at hrest
      have hend := ih htwins hrest hpage
      simp only
      generalize Sfs.writePages m fs' ino (pos + n) (buf.drop n) = ra at hend ⊢
      generalize Sfs.writePages m gs' ino (pos + n) (buf.drop n) = rb at hend ⊢
      rcases ra with ⟨e | k, fs''⟩ <;> rcases rb with ⟨e' | k', gs''⟩ <;> exact hend

/-- Other files are created without touching this one. -/
theorem SoundVolume.keeps_inodeCreate {fs : Fs} (h : SoundVolume sb fs.info)
    (hidx : v2sInodeNum ino = i) {fn : CStr} {mode : UInt32} {now : Int}
    {newInodeOk insertOk : Bool}
    (hends : ¬ (FileOp.create fn mode now newInodeOk insertOk).Ends ino fs) :
    Keeps i fs.info (sfsInodeCreate fs fn mode now newInodeOk insertOk).2.info ∧
      (sfsInodeCreate fs fn mode now newInodeOk insertOk).2.size ino = fs.size ino := by
  have hvalid : (Op.create fn (entryPerms mode) now).Valid sb := trivial
  have hvol : SoundVolume sb (sfsCreate fs.info fn (entryPerms mode) now .zero).2 := h.table hvalid
  obtain ⟨hne, hremove⟩ := not_or.1 hends
  have hkeeps := h.keeps_create hidx hne
  unfold sfsInodeCreate
  generalize sfsCreate fs.info fn (entryPerms mode) now .zero = r at hvol hne hremove hkeeps ⊢
  obtain ⟨⟨ino', fe⟩, a⟩ := r
  simp only at hvol hne hremove hkeeps ⊢
  by_cases hinv : ino' = invInode
  · rw [if_pos hinv]
    exact ⟨hkeeps, rfl⟩
  rw [if_neg hinv]
  have hremoved : (newInodeOk && insertOk) = false → Keeps i fs.info (sfsRemove a fn).2 :=
    fun hflags => hkeeps.trans (hvol.keeps_remove hidx fun e => hremove ⟨hflags, e⟩)
  cases newInodeOk with
  | false => exact ⟨hremoved rfl, rfl⟩
  | true =>
    cases insertOk with
    | false => exact ⟨hremoved rfl, rfl⟩
    | true => exact ⟨hkeeps, Function.update_of_ne (Ne.symm hne) _ _⟩

/-- Both runs agree on when the file ends. -/
theorem Twins.ends_iff {fs gs : Fs} (h : Twins sb fs gs) (op : FileOp) :
    op.Ends ino fs ↔ op.Ends ino gs := by
  cases op with
  | create fn mode now newInodeOk insertOk =>
    have hvalid : (Op.create fn (entryPerms mode) now).Valid sb := trivial
    have ha : SoundVolume sb (sfsCreate fs.info fn (entryPerms mode) now .zero).2 :=
      h.left.table hvalid
    have hb : SoundVolume sb (sfsCreate gs.info fn (entryPerms mode) now .zero).2 :=
      h.right.table hvalid
    obtain ⟨hino, htable⟩ :=
      h.table.create h.left.toMounted h.right.toMounted fn (entryPerms mode) now
    simp only [FileOp.Ends, hino, (htable.remove ha.toMounted hb.toMounted fn).1]
  | unlink fn =>
    simp only [FileOp.Ends, (h.table.remove h.left.toMounted h.right.toMounted fn).1]
  | write ino pos buf => rfl
  | read ino pos len => rfl

/-- **One step.** As long as the file lives and what is written to it covers what comes into view,
its shown bytes stay equal. -/
theorem Twins.sameBytes_exec {fs gs : Fs} (h : Twins sb fs gs) (hin : InTable sb ino)
    (hidx : v2sInodeNum ino = i) {op : FileOp} (hv : op.Valid sb) (hends : ¬ op.Ends ino fs)
    (hcov : op.Covered ino fs) (hsame : SameBytes i (fs.size ino) fs.info gs.info) :
    SameBytes i ((op.exec fs).size ino) (op.exec fs).info (op.exec gs).info := by
  have hends' : ¬ op.Ends ino gs := fun hc => hends ((h.ends_iff op).2 hc)
  cases op with
  | create fn mode now newInodeOk insertOk =>
    obtain ⟨hkeeps, hsize⟩ := h.left.keeps_inodeCreate hidx hends
    obtain ⟨hkeeps', -⟩ := h.right.keeps_inodeCreate hidx hends'
    simp only [FileOp.exec, hsize]
    exact hsame.keeps h.table hkeeps hkeeps'
  | unlink fn =>
    exact hsame.keeps h.table (h.left.keeps_remove hidx hends) (h.right.keeps_remove hidx hends')
  | write ino' pos buf =>
    by_cases e : ino' = ino
    · subst e
      exact h.sameBytes_writePages hin hidx buf.length (hcov rfl) hsame
    · obtain ⟨hkeeps, hsize⟩ := h.left.writePages_keeps hv hidx e buf.length pos buf
      obtain ⟨hkeeps', -⟩ := h.right.writePages_keeps hv hidx e buf.length pos buf
      simp only [FileOp.exec, genericFileWriteIter, hsize]
      exact hsame.keeps h.table hkeeps hkeeps'
  | read ino' pos len =>
    obtain ⟨k, hk⟩ := h.left.readPages_state hv len pos len
    obtain ⟨l, hl⟩ := h.right.readPages_state hv len pos len
    simp only [FileOp.exec, genericFileReadIter, hk, hl]
    exact hsame.keeps h.table (Keeps.ticks i fs.info k) (Keeps.ticks i gs.info l)

/-- The bytes copied from a page lie in mapped blocks below the size, so that they are alike. -/
theorem Twins.bytes_eq {fs gs : Fs} (h : Twins sb fs gs)
    (hsame : SameBytes i (fs.size ino) fs.info gs.info) {pos n k l : Nat}
    {bs : List (Nat × UInt32)} (hfst : bs.map Prod.fst = pageBlocks (fs.size ino) pos)
    (hbs : ∀ kb ∈ bs, fs.info.slot (i, kb.1) = kb.2.toNat ∧ kb.2.toNat ≠ 0)
    (hend : n ≤ fs.size ino - pos) (hpage : n ≤ pageSize - pos % pageSize) :
    (List.range' pos n).map (byteAt (fs.info.ticks k) bs) =
      (List.range' pos n).map (byteAt (gs.info.ticks l) bs) := by
  apply List.map_congr_left
  intro p hp
  have hrange := List.mem_range'_1.1 hp
  have hmem : p / 512 ∈ bs.map Prod.fst := by
    rw [hfst]
    unfold pageBlocks
    rw [List.mem_filter, List.mem_range'_1, decide_eq_true_eq]
    unfold pageSize at hpage ⊢
    omega
  have hmapped : fs.info.slot (i, p / 512) ≠ 0 := by
    obtain ⟨kb, hkb, he⟩ := List.mem_map.1 hmem
    rw [← he, (hbs kb hkb).1]
    exact (hbs kb hkb).2
  have ha : byteAt (fs.info.ticks k) bs p = fs.info.byte i p :=
    byteAt_of_mem (fun kb hkb => (hbs kb hkb).1) hmem
  have hb : byteAt (gs.info.ticks l) bs p = gs.info.byte i p :=
    byteAt_of_mem (fun kb hkb => (h.table.slot (i, kb.1)).symm.trans (hbs kb hkb).1) hmem
  rw [ha, hb]
  exact hsame p (by omega) hmapped

/-- Equal shown bytes are read alike. -/
theorem Twins.readPages_eq {fs gs : Fs} (h : Twins sb fs gs) (hin : InTable sb ino)
    (hidx : v2sInodeNum ino = i) (hsame : SameBytes i (fs.size ino) fs.info gs.info)
    (m pos len : Nat) :
    (readPages m fs ino pos len).1 = (readPages m gs ino pos len).1 := by
  have hi := hin.lt hidx
  induction m generalizing fs gs pos len with
  | zero => rfl
  | succ m ih =>
    unfold readPages readPage
    rw [← h.size]
    simp only
    have hle : min (pageSize - pos % pageSize) (min len (fs.size ino - pos)) ≤ fs.size ino - pos ∧
        min (pageSize - pos % pageSize) (min len (fs.size ino - pos)) ≤ pageSize - pos % pageSize :=
      ⟨by omega, by omega⟩
    generalize min (pageSize - pos % pageSize) (min len (fs.size ino - pos)) = n at hle ⊢
    by_cases hn : n = 0
    · rw [if_pos hn, if_pos hn]
    rw [if_neg hn, if_neg hn]
    obtain ⟨hres, -⟩ := h.table.mapBlocks h.left h.right hin false (pageBlocks (fs.size ino) pos)
    obtain ⟨k, hk, hok⟩ := h.left.mapBlocks_of_read hi hidx (pageBlocks (fs.size ino) pos)
    obtain ⟨l, hl, -⟩ := h.right.mapBlocks_of_read hi hidx (pageBlocks (fs.size ino) pos)
    generalize mapBlocks fs.info ino false (pageBlocks (fs.size ino) pos) = ra at hres hk hok ⊢
    generalize mapBlocks gs.info ino false (pageBlocks (fs.size ino) pos) = rb at hres hl ⊢
    obtain ⟨r, a⟩ := ra
    obtain ⟨r', b⟩ := rb
    simp only at hres hk hl hok ⊢
    subst hres hk hl
    cases r with
    | error e => rfl
    | ok bs =>
      obtain ⟨hfst, hbs⟩ := hok bs rfl
      have hbytes := h.bytes_eq (k := k) (l := l) hsame hfst hbs hle.1 hle.2
      have hrest := ih (h.ticks k l) hsame (pos + n) (len - n)
      rw [h.size] at hrest ⊢
      simp only [hbytes]
      generalize readPages m ⟨fs.info.ticks k, gs.size⟩ ino (pos + n) (len - n) = ra at hrest ⊢
      generalize readPages m ⟨gs.info.ticks l, gs.size⟩ ino (pos + n) (len - n) = rb at hrest ⊢
      obtain ⟨r, fs'⟩ := ra
      obtain ⟨r', gs'⟩ := rb
      simp only at hrest
      subst hrest
      cases r with
      | error e => rfl
      | ok rest => rfl

end Shown

/-! ## Runs -/

/-- A created file is empty and has a number of the table. -/
theorem SoundVolume.inodeCreate_ok {sb : SuperBlock} {fs : Fs} (h : SoundVolume sb fs.info)
    {fn : CStr} {mode : UInt32} {now : Int} {newInodeOk insertOk : Bool} {ino : Int}
    (hok : (sfsInodeCreate fs fn mode now newInodeOk insertOk).1 = .ok ino) :
    InTable sb ino ∧ (sfsInodeCreate fs fn mode now newInodeOk insertOk).2.size ino = 0 := by
  obtain ⟨k, fe, hk⟩ := sfsCreate_eq h.toPlain fn (entryPerms mode) now .zero
  have hsize := sfsCreate_size h.toPlain fn (entryPerms mode) now
  unfold sfsInodeCreate at hok ⊢
  rw [hk] at hok hsize ⊢
  cases hfree : fs.info.freeEntry with
  | none =>
    simp only [hfree, ↓reduceIte] at hok
    cases hok
  | some i =>
    have hi := (Info.freeEntry_eq_some hfree).1
    rw [h.sb_eq] at hi
    have hinv := s2vInodeNum_ne_invInode i
    simp only [hfree, hinv, ↓reduceIte] at hok hsize ⊢
    cases newInodeOk with
    | false => cases hok
    | true =>
      cases insertOk with
      | false => cases hok
      | true =>
        cases hok
        refine ⟨?_, ?_⟩
        · unfold InTable v2sInodeNum s2vInodeNum
          omega
        · simp only [Bool.not_true, Bool.false_eq_true, ↓reduceIte, Function.update_self]
          rw [hsize (fun e => hinv e)]
          rfl

/-- **No leak.** Two runs differ at most in bytes that were written before a file was created. As
long as the file lives and no write to it brings other bytes than its own into view, every read of
the file returns the same in both. -/
theorem sameReads_run {sb : SuperBlock} {fs : Fs} (h : SoundVolume sb fs.info)
    {before before' after : List FileOp} {fn : CStr} {mode : UInt32} {now : Int}
    {newInodeOk insertOk : Bool} {ino : Int}
    (hvalid : ∀ op ∈ before ++ after, op.Valid sb)
    (hsame : List.Forall₂ FileOp.SameButBytes before before')
    (hcreate : (sfsInodeCreate (run FileOp.exec fs before) fn mode now newInodeOk insertOk).1 =
      .ok ino)
    (hlives : Along FileOp.exec (fun s op => ¬ op.Ends ino s)
      (run FileOp.exec fs (before ++ [.create fn mode now newInodeOk insertOk])) after)
    (hcov : Along FileOp.exec (fun s op => op.Covered ino s)
      (run FileOp.exec fs (before ++ [.create fn mode now newInodeOk insertOk])) after) :
    ∀ pre, pre <+: after → SameReads ino
      (run FileOp.exec fs (before ++ .create fn mode now newInodeOk insertOk :: pre))
      (run FileOp.exec fs (before' ++ .create fn mode now newInodeOk insertOk :: pre)) := by
  have hbefore : Twins sb (run FileOp.exec fs before) (run FileOp.exec fs before') := by
    refine Along.related (P := fun _ op => op.Valid sb) (fun s t a b hR hab hv => hR.exec hab hv)
      ⟨h, h, SameTable.refl fs.info, rfl⟩ hsame (along_of_forall fun op hop => ?_)
    exact hvalid op (List.mem_append_left _ hop)
  obtain ⟨hin, hsize⟩ := hbefore.left.inodeCreate_ok hcreate
  obtain ⟨i, -, hidx⟩ := hin.index
  have hcreated : Twins sb
      ((FileOp.create fn mode now newInodeOk insertOk).exec (run FileOp.exec fs before))
      ((FileOp.create fn mode now newInodeOk insertOk).exec (run FileOp.exec fs before')) :=
    (hbefore.create fn mode now newInodeOk insertOk).2
  rintro pre ⟨rest, rfl⟩ pos len
  rw [run_append, run_cons, run_nil] at hlives hcov
  rw [run_append, run_cons, run_append, run_cons]
  have hvpre : Along FileOp.exec (fun _ op => op.Valid sb)
      ((FileOp.create fn mode now newInodeOk insertOk).exec (run FileOp.exec fs before)) pre :=
    along_of_forall fun op hop => hvalid op (by simp [hop])
  have halong := hvpre.and ((along_append.1 hlives).1.and (along_append.1 hcov).1)
  -- the file starts empty, so there is nothing to compare yet
  have hempty : SameBytes i
      (((FileOp.create fn mode now newInodeOk insertOk).exec (run FileOp.exec fs before)).size ino)
      ((FileOp.create fn mode now newInodeOk insertOk).exec (run FileOp.exec fs before)).info
      ((FileOp.create fn mode now newInodeOk insertOk).exec (run FileOp.exec fs before')).info := by
    intro p hp
    simp only [FileOp.exec, hsize] at hp
    exact absurd hp (Nat.not_lt_zero p)
  have hend := Along.related (E := Eq)
    (R := fun s t => Twins sb s t ∧ SameBytes i (s.size ino) s.info t.info)
    (fun s t op _ ⟨hR, hb⟩ he ⟨hv, hl, hc⟩ => he ▸
      ⟨hR.exec (.same op) hv, hR.sameBytes_exec hin hidx hv hl hc hb⟩)
    ⟨hcreated, hempty⟩ (List.forall₂_same.2 fun op _ => rfl) halong
  exact hend.1.readPages_eq hin hidx hend.2 len pos len

/-- A removed file leaves its bytes behind, and the next one is written from its start on and then
extended: nothing of the old bytes shows. -/
theorem sameReads_run_extended :
    let fs : Fs := ⟨formatted 5120, fun _ => 0⟩
    let before (x : UInt8) : List FileOp := [.create ⟨[97], by decide⟩ 0o644 0 true true,
      .write 2 0 (.replicate 8 x), .unlink ⟨[97], by decide⟩]
    let after : List FileOp := [.write 2 0 [7, 7, 7, 7], .read 2 0 8, .write 2 4 [8]]
    SameReads 2
      (run FileOp.exec fs (before 1 ++ .create ⟨[98], by decide⟩ 0o644 0 true true :: after))
      (run FileOp.exec fs (before 2 ++ .create ⟨[98], by decide⟩ 0o644 0 true true :: after)) := by
  intro fs before after
  obtain ⟨hsb, h⟩ := mountedEmpty_formatted 5120 (by decide) (by decide)
  have hfits : TableFits (formatted 5120).sb := by
    rw [hsb]
    decide
  have hvol : SoundVolume (formatted 5120).sb fs.info := by
    dsimp only [fs]
    exact h.soundVolume hfits
  have hsame : List.Forall₂ FileOp.SameButBytes (before 1) (before 2) :=
    .cons (.same _) (.cons (.write 2 0 rfl) (.cons (.same _) .nil))
  have hvalid : ∀ op ∈ before 1 ++ after, op.Valid (formatted 5120).sb := by
    rw [hsb]
    decide
  have hcreate : (sfsInodeCreate (run FileOp.exec fs (before 1)) ⟨[98], by decide⟩ 0o644 0 true
      true).1 = .ok 2 := by
    decide +kernel
  have hlives : Along FileOp.exec (fun s op => ¬ op.Ends 2 s) (run FileOp.exec fs
      (before 1 ++ [.create ⟨[98], by decide⟩ 0o644 0 true true])) after := by
    decide +kernel
  have hcov : Along FileOp.exec (fun s op => op.Covered 2 s) (run FileOp.exec fs
      (before 1 ++ [.create ⟨[98], by decide⟩ 0o644 0 true true])) after := by
    decide +kernel
  exact sameReads_run hvol hvalid hsame hcreate hlives hcov after (List.prefix_refl after)

/-- A file that is written behind its start shows what a removed file left in its block. -/
theorem not_sameReads_gap :
    let fs : Fs := ⟨formatted 5120, fun _ => 0⟩
    let before (x : UInt8) : List FileOp := [.create ⟨[97], by decide⟩ 0o644 0 true true,
      .write 2 0 (.replicate 8 x), .unlink ⟨[97], by decide⟩]
    let after : List FileOp :=
      [.create ⟨[98], by decide⟩ 0o644 0 true true, .write 2 4 [7, 7, 7, 7]]
    MountedEmpty (formatted 5120) ∧
      List.Forall₂ FileOp.SameButBytes (before 1 ++ after) (before 2 ++ after) ∧
      ¬ SameReads 2 (run FileOp.exec fs (before 1 ++ after))
        (run FileOp.exec fs (before 2 ++ after)) := by
  intro fs before after
  refine ⟨(mountedEmpty_formatted 5120 (by decide) (by decide)).2, ?_, fun hreads => ?_⟩
  · exact .cons (.same _) (.cons (.write 2 0 rfl) (.cons (.same _)
      (.cons (.same _) (.cons (.same _) .nil))))
  · exact absurd (hreads 0 8) (by decide +kernel)

end LinuxDrivers.Sfs
