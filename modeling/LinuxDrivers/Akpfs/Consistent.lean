import LinuxDrivers.Lib.Ownership
import LinuxDrivers.Lib.Run
import LinuxDrivers.Akpfs.MkfsSpec

/-!
# Consistent images

A free bit is set exactly for the blocks in front of the data blocks and for the blocks that one
slot of a listed file holds. Allocating gives an empty slot an unmarked block, truncating drops
slots one by one, and neither changes a directory, so every run keeps the image consistent.
-/

namespace LinuxDrivers.Akpfs

/-- A directory that can be reached from the root. -/
inductive IsDirectory (sb : Sb) (data : Mem) : UInt32 → Prop
  | root : InTable sb sb.rootInode → (inode sb data sb.rootInode).fileSize = akpfsDir →
      IsDirectory sb data sb.rootInode
  | entry {d e : UInt32} {j : Nat} : IsDirectory sb data d → (inode sb data d).slot j = e → e ≠ 0 →
      InTable sb e → (inode sb data e).fileSize = akpfsDir → IsDirectory sb data e

/-- A regular file that a directory lists. -/
structure ListedFile (sb : Sb) (data : Mem) (ino : UInt32) : Prop where
  listed : ∃ d j, IsDirectory sb data d ∧ (inode sb data d).slot j = ino
  ne_zero : ino ≠ 0
  inTable : InTable sb ino
  isReg : (inode sb data ino).isReg = true

/-- Block `b` is stored in slot `j` of the listed file `ino`. -/
def Stored (sb : Sb) (data : Mem) (b : Nat) (p : UInt32 × Nat) : Prop :=
  ListedFile sb data p.1 ∧ p.2 < 27 ∧ ((inode sb data p.1).slot p.2).toNat = b

/-- The free bits are exact, and slots hold distinct data blocks. -/
structure Consistent (sb : Sb) (data : Mem) : Prop where
  bits : ∀ b < sb.blockCnt.toNat, data.bit (bitsAddr sb) b = true ↔
    b < sb.dataBlockStart.toNat ∨ ∃! p, Stored sb data b p
  range : ∀ p b, b ≠ 0 → Stored sb data b p →
    sb.dataBlockStart.toNat ≤ b ∧ b < sb.blockCnt.toNat
  once : ∀ p q b, b ≠ 0 → Stored sb data b p → Stored sb data b q → p = q

/-! ## Ownership -/

open Classical in
/-- The block in slot `p.2` of the listed file `p.1`, `0` for none. -/
noncomputable def held (sb : Sb) (data : Mem) (p : UInt32 × Nat) : Nat :=
  if ListedFile sb data p.1 then ((inode sb data p.1).slot p.2).toNat else 0

theorem held_of_listed {sb : Sb} {data : Mem} {ino : UInt32} (h : ListedFile sb data ino)
    (j : Nat) :
    held sb data (ino, j) = ((inode sb data ino).slot j).toNat :=
  if_pos h

theorem stored_iff {sb : Sb} {data : Mem} {b : Nat} (hb : b ≠ 0) (p : UInt32 × Nat) :
    Stored sb data b p ↔ held sb data p = b := by
  unfold Stored held
  constructor
  · intro h
    rw [if_pos h.1]
    exact h.2.2
  · intro h
    by_cases hp : ListedFile sb data p.1
    · rw [if_pos hp] at h
      refine ⟨hp, ?_, h⟩
      by_contra hge
      rw [Inode.slot_of_le (by omega)] at h
      exact hb h.symm
    · rw [if_neg hp] at h
      exact absurd h.symm hb

/-- The exactness of the free bits as ownership of blocks by slots. -/
def Owned (sb : Sb) (data : Mem) : Prop :=
  Ownership.Exact (fun b => b < sb.blockCnt.toNat ∧ b < sb.dataBlockStart.toNat)
    (fun b => sb.dataBlockStart.toNat ≤ b ∧ b < sb.blockCnt.toNat)
    (fun b => b < sb.blockCnt.toNat ∧ data.bit (bitsAddr sb) b = true) (held sb data)

theorem Geometry.data_pos {sb : Sb} (h : Geometry sb) : 0 < sb.dataBlockStart.toNat := by
  have h1 := h.inodes_pos
  have h2 := h.inodes_le
  have h3 := h.bits_le
  omega

theorem Consistent.owned {sb : Sb} {data : Mem} (h : Consistent sb data) (hg : Geometry sb) :
    Owned sb data where
  in_region p hp := h.range p _ hp ((stored_iff hp p).2 rfl)
  marked p hp := by
    obtain ⟨h1, h2⟩ := h.range p _ hp ((stored_iff hp p).2 rfl)
    refine ⟨h2, (h.bits _ h2).2 (.inr ⟨p, (stored_iff hp p).2 rfl, fun q hq => ?_⟩)⟩
    exact h.once q p _ hp hq ((stored_iff hp p).2 rfl)
  inj p q hp hpq := h.once p q _ hp ((stored_iff hp p).2 rfl) ((stored_iff hp q).2 hpq.symm)
  apart b hb hr := by omega
  base_used b hb := ⟨hb.1, (h.bits b hb.1).2 (.inl hb.2)⟩
  held b hb := by
    rcases (h.bits b hb.1).1 hb.2 with hlt | ⟨p, hp, -⟩
    · exact .inl ⟨hb.1, hlt⟩
    · by_cases hb0 : b = 0
      · exact .inl ⟨hb.1, by rw [hb0]; exact hg.data_pos⟩
      · have he := (stored_iff hb0 p).1 hp
        exact .inr ⟨p, by rw [he]; exact hb0, he⟩

theorem Owned.consistent {sb : Sb} {data : Mem} (h : Owned sb data) (hg : Geometry sb) :
    Consistent sb data where
  bits b hb := by
    have hused := h.used_iff b
    simp only [hb, true_and] at hused
    rw [hused]
    by_cases hlt : b < sb.dataBlockStart.toNat
    · simp [hlt]
    · have hb0 : b ≠ 0 := by
        have := hg.data_pos
        omega
      simp only [hlt, false_or]
      constructor
      · rintro ⟨p, hp, hpb⟩
        refine ⟨p, (stored_iff hb0 p).2 hpb, fun q hq => ?_⟩
        have hqb := (stored_iff hb0 q).1 hq
        exact (h.inj p q hp (hpb.trans hqb.symm)).symm
      · rintro ⟨p, hp, -⟩
        have hpb := (stored_iff hb0 p).1 hp
        exact ⟨p, by rw [hpb]; exact hb0, hpb⟩
  range p b hb hp := by
    have hpb := (stored_iff hb p).1 hp
    subst hpb
    exact h.in_region p hb
  once p q b hb hp hq := by
    have hpb := (stored_iff hb p).1 hp
    have hqb := (stored_iff hb q).1 hq
    subst hpb
    exact h.inj p q hb hqb.symm

/-! ## Changing an image -/

section Frame

variable {sb : Sb} {data data' : Mem}

theorem inode_congr {ino : UInt32}
    (h : ∀ k < 128, data' (inodeAddr sb ino + k) = data (inodeAddr sb ino + k)) :
    inode sb data' ino = inode sb data ino :=
  Inode.ofMem_congr fun k hk => h k hk

theorem slot_eq {ino : UInt32} {j : Nat} (hj : j < 27) :
    (inode sb data ino).slot j = data.word (slotAddrOf sb ino j) := by
  unfold inode slotAddrOf
  rw [Inode.slot_ofMem _ hj, Mem.word_window, Nat.add_assoc]

theorem Geometry.inodeAddr_le (hg : Geometry sb) {ino : UInt32} (hino : InTable sb ino) :
    inodeAddr sb ino + 128 ≤ bitsAddr sb := by
  have h1 := hg.inodes_le
  unfold InTable at hino
  unfold inodeAddr bitsAddr
  omega

/-- Changing free bits changes no inode. -/
theorem inode_of_bits (hg : Geometry sb) (h : ∀ x < bitsAddr sb, data' x = data x) {ino : UInt32}
    (hino : InTable sb ino) : inode sb data' ino = inode sb data ino := by
  have hle := hg.inodeAddr_le hino
  exact inode_congr fun k hk => h _ (by omega)

/-- Changing a word of an inode changes no other inode. -/
theorem inode_setWord_of_ne {ino x : UInt32} (hne : x ≠ ino) {k : Nat} (hk : k + 4 ≤ 128)
    (w : UInt32) : inode sb (data.setWord (inodeAddr sb ino + k) w) x = inode sb data x := by
  have hne' : x.toNat ≠ ino.toNat := fun e => hne (UInt32.toNat_inj.1 e)
  apply inode_congr
  intro l hl
  unfold inodeAddr
  exact Mem.setWord_of_not_mem (by omega)

/-- Changing a word of an inode changes no free bit. -/
theorem bit_setWord (hg : Geometry sb) {ino : UInt32} (hino : InTable sb ino) {k : Nat}
    (hk : k + 4 ≤ 128) (w : UInt32) (b : Nat) :
    (data.setWord (inodeAddr sb ino + k) w).bit (bitsAddr sb) b = data.bit (bitsAddr sb) b := by
  have hle := hg.inodeAddr_le hino
  exact Mem.bit_congr (Mem.setWord_of_not_mem (by omega))

/-- Changing a slot of an inode. -/
theorem inode_setSlot {ino : UInt32} {j : Nat} (hj : j < 27) (w : UInt32) :
    (inode sb (data.setWord (slotAddrOf sb ino j) w) ino).fileSize =
        (inode sb data ino).fileSize ∧
      ∀ k, (inode sb (data.setWord (slotAddrOf sb ino j) w) ino).slot k =
        if k = j then w else (inode sb data ino).slot k := by
  constructor
  · unfold inode Inode.ofMem
    simp only [Mem.word_window]
    rw [Mem.word_setWord_of_ne (by unfold slotAddrOf; omega)]
  · intro k
    by_cases hk : k < 27
    · rw [slot_eq hk, slot_eq hk]
      by_cases e : k = j
      · subst e
        rw [if_pos rfl, Mem.word_setWord]
      · rw [if_neg e, Mem.word_setWord_of_ne]
        unfold slotAddrOf
        omega
    · rw [Inode.slot_of_le (by omega), Inode.slot_of_le (by omega), if_neg (by omega)]

/-- Directories that stay as they are stay reachable. -/
theorem IsDirectory.mono (h : ∀ ino, InTable sb ino → (inode sb data ino).fileSize = akpfsDir →
      inode sb data' ino = inode sb data ino) {d : UInt32} (hd : IsDirectory sb data d) :
    IsDirectory sb data' d ∧ inode sb data' d = inode sb data d := by
  induction hd with
  | root hroot hdir =>
    have he := h _ hroot hdir
    exact ⟨.root hroot (by rw [he]; exact hdir), he⟩
  | entry _ hslot hne htab hdir ih =>
    have he := h _ htab hdir
    exact ⟨.entry ih.1 (by rw [ih.2]; exact hslot) hne htab (by rw [he]; exact hdir), he⟩

theorem not_isReg_of_dir {inode : Inode} (h : inode.fileSize = akpfsDir) : inode.isReg = false := by
  unfold Inode.isReg
  rw [h]
  decide

/-- A change that touches only regular files and leaves them regular. -/
structure FilesOnly (sb : Sb) (data data' : Mem) : Prop where
  other : ∀ ino, InTable sb ino → (inode sb data ino).isReg = false →
    inode sb data' ino = inode sb data ino
  reg : ∀ ino, InTable sb ino → (inode sb data ino).isReg = true →
    (inode sb data' ino).isReg = true

/-- Both images list the same regular files. -/
def SameListing (sb : Sb) (data data' : Mem) : Prop :=
  ∀ ino, ListedFile sb data' ino ↔ ListedFile sb data ino

/-- Such a change keeps the listed files. -/
theorem FilesOnly.sameListing (h : FilesOnly sb data data') : SameListing sb data data' := by
  intro ino
  have hforth : ∀ x, InTable sb x → (inode sb data x).fileSize = akpfsDir →
      inode sb data' x = inode sb data x := fun x hx hdir =>
    h.other x hx (not_isReg_of_dir hdir)
  have hback : ∀ x, InTable sb x → (inode sb data' x).fileSize = akpfsDir →
      inode sb data x = inode sb data' x := by
    intro x hx hdir
    cases hreg : (inode sb data x).isReg with
    | false => exact (h.other x hx hreg).symm
    | true =>
      have hreg' := h.reg x hx hreg
      rw [not_isReg_of_dir hdir] at hreg'
      cases hreg'
  constructor
  · intro hl
    obtain ⟨⟨d, j, hd, hj⟩, hne, htab, hreg⟩ := hl
    obtain ⟨hd', he⟩ := hd.mono hback
    refine ⟨⟨d, j, hd', by rw [he]; exact hj⟩, hne, htab, ?_⟩
    by_contra hnot
    rw [h.other ino htab (by simpa using hnot)] at hreg
    exact hnot hreg
  · intro hl
    obtain ⟨⟨d, j, hd, hj⟩, hne, htab, hreg⟩ := hl
    obtain ⟨hd', he⟩ := hd.mono hforth
    exact ⟨⟨d, j, hd', by rw [he]; exact hj⟩, hne, htab, h.reg ino htab hreg⟩

theorem FilesOnly.held_eq (h : FilesOnly sb data data') (p : UInt32 × Nat)
    (hslot : ListedFile sb data p.1 → (inode sb data' p.1).slot p.2 =
    (inode sb data p.1).slot p.2) :
    held sb data' p = held sb data p := by
  unfold held
  by_cases hp : ListedFile sb data p.1
  · rw [if_pos hp, if_pos ((h.sameListing _).2 hp), hslot hp]
  · rw [if_neg hp, if_neg (mt (h.sameListing _).1 hp)]

/-- One word of a regular file and any free bits are changed. -/
theorem filesOnly_setWord (hg : Geometry sb) (hbelow : ∀ x < bitsAddr sb, data' x = data x)
    {ino : UInt32} {k : Nat} (hk : k + 4 ≤ 128) {w : UInt32}
    (hreg : (inode sb data ino).isReg = true)
    (hreg' : (inode sb (data'.setWord (inodeAddr sb ino + k) w) ino).isReg = true) :
    FilesOnly sb data (data'.setWord (inodeAddr sb ino + k) w) where
  other x hx hnot := by
    have hne : x ≠ ino := by
      rintro rfl
      rw [hreg] at hnot
      cases hnot
    rw [inode_setWord_of_ne hne hk, inode_of_bits hg hbelow hx]
  reg x hx hx' := by
    by_cases hne : x = ino
    · rw [hne]
      exact hreg'
    · rw [inode_setWord_of_ne hne hk, inode_of_bits hg hbelow hx]
      exact hx'

end Frame

/-! ## Steps -/

section Step

variable {sb : Sb} {data : Mem} {ino : UInt32}

/-- An update of one slot and of free bits. -/
theorem ListedFile.setSlot (h : ListedFile sb data ino) (hg : Geometry sb) {data' : Mem}
    (hbelow : ∀ x < bitsAddr sb, data' x = data x) {j : Nat} (hj : j < 27) (w : UInt32) :
    FilesOnly sb data (data'.setWord (slotAddrOf sb ino j) w) ∧
      held sb (data'.setWord (slotAddrOf sb ino j) w) (ino, j) = w.toNat ∧
      ∀ p, p ≠ (ino, j) → held sb (data'.setWord (slotAddrOf sb ino j) w) p = held sb data p := by
  obtain ⟨hsize, hslot⟩ := @inode_setSlot sb data' ino j hj w
  have hsame := inode_of_bits hg hbelow h.inTable
  have hfiles : FilesOnly sb data (data'.setWord (slotAddrOf sb ino j) w) := by
    have haddr : slotAddrOf sb ino j = inodeAddr sb ino + (20 + 4 * j) := by
      unfold slotAddrOf
      omega
    rw [haddr] at hsize ⊢
    refine filesOnly_setWord hg hbelow (by omega) h.isReg ?_
    unfold Inode.isReg
    rw [hsize, hsame]
    exact h.isReg
  refine ⟨hfiles, ?_, fun p hp => hfiles.held_eq p fun hl => ?_⟩
  · rw [held_of_listed ((hfiles.sameListing ino).2 h), hslot, if_pos rfl]
  · by_cases hino : p.1 = ino
    · have hpj : p.2 ≠ j := fun e => hp (Prod.ext hino e)
      rw [hino, hslot, if_neg hpj, hsame]
    · have haddr : slotAddrOf sb ino j = inodeAddr sb ino + (20 + 4 * j) := by
        unfold slotAddrOf
        omega
      rw [haddr, inode_setWord_of_ne hino (by omega), inode_of_bits hg hbelow hl.inTable]

theorem bit_setSlot (hg : Geometry sb) (hino : InTable sb ino) {j : Nat} (hj : j < 27)
    (w : UInt32) (b : Nat) :
    (data.setWord (slotAddrOf sb ino j) w).bit (bitsAddr sb) b = data.bit (bitsAddr sb) b := by
  unfold slotAddrOf
  rw [Nat.add_assoc]
  exact bit_setWord hg hino (by omega) w b

/-- A free block is a data block. -/
theorem Owned.data_le (h : Owned sb data) {b : Nat} (hb : b < sb.blockCnt.toNat)
    (hclear : data.bit (bitsAddr sb) b = false) : sb.dataBlockStart.toNat ≤ b := by
  by_contra hlt
  have hused := (h.base_used b ⟨hb, by omega⟩).2
  rw [hclear] at hused
  cases hused

/-- Giving an empty slot a free block. -/
theorem Owned.allocate (h : Owned sb data) (hg : Geometry sb) (hfile : ListedFile sb data ino)
    {j : Nat} (hj : j < 27) (hempty : data.word (slotAddrOf sb ino j) = 0) {b : Nat}
    (hb : b < sb.blockCnt.toNat) (hclear : data.bit (bitsAddr sb) b = false) :
    Owned sb ((data.setBit (bitsAddr sb) b).setWord (slotAddrOf sb ino j) (.ofNat b)) := by
  have hbc : sb.blockCnt.toNat < 4294967296 := sb.blockCnt.toNat_lt
  have hregion := h.data_le hb hclear
  have hpos := hg.data_pos
  have hbelow : ∀ x < bitsAddr sb, data.setBit (bitsAddr sb) b x = data x := fun x hx =>
    Mem.setBit_outside (by omega)
  obtain ⟨-, hnew, hother⟩ := hfile.setSlot hg hbelow hj (.ofNat b)
  refine h.assign (p := (ino, j)) (b := b) ⟨hregion, hb⟩ ?_ (by omega) ?_ ?_ hother fun c => ?_
  · intro hused
    rw [hclear] at hused
    cases hused.2
  · rw [held_of_listed hfile, slot_eq hj, hempty]
    rfl
  · rw [hnew, UInt32.toNat_ofNat']
    omega
  · rw [bit_setSlot hg hfile.inTable hj, Mem.bit_setBit, Bool.or_eq_true, beq_iff_eq]
    constructor
    · rintro ⟨hc, hbit | hbit⟩
      · exact .inl ⟨hc, hbit⟩
      · exact .inr hbit.symm
    · rintro (⟨hc, hbit⟩ | rfl)
      · exact ⟨hc, .inl hbit⟩
      · exact ⟨hb, .inr rfl⟩

/-- Setting a bit that belongs to no block. -/
theorem Owned.setPadding (h : Owned sb data) (hg : Geometry sb) {n : Nat}
    (hn : sb.blockCnt.toNat ≤ n) : SameListing sb data (data.setBit (bitsAddr sb) n) ∧
      Owned sb (data.setBit (bitsAddr sb) n) := by
  have hbelow : ∀ x < bitsAddr sb, data.setBit (bitsAddr sb) n x = data x := fun x hx =>
    Mem.setBit_outside (by omega)
  have hfiles : FilesOnly sb data (data.setBit (bitsAddr sb) n) := by
    refine ⟨fun x hx _ => inode_of_bits hg hbelow hx, fun x hx hreg => ?_⟩
    rw [inode_of_bits hg hbelow hx]
    exact hreg
  have hheld : held sb (data.setBit (bitsAddr sb) n) = held sb data := by
    funext p
    exact hfiles.held_eq p fun hl => by rw [inode_of_bits hg hbelow hl.inTable]
  have hused : (fun b => b < sb.blockCnt.toNat ∧
      (data.setBit (bitsAddr sb) n).bit (bitsAddr sb) b = true) =
      fun b => b < sb.blockCnt.toNat ∧ data.bit (bitsAddr sb) b = true := by
    funext b
    apply propext
    refine and_congr_right fun hb => ?_
    have hne : n ≠ b := by omega
    rw [Mem.bit_setBit, beq_eq_false_iff_ne.2 hne, Bool.or_false]
  refine ⟨hfiles.sameListing, ?_⟩
  unfold Owned
  rw [hheld, hused]
  exact h

/-- Clearing a slot and the bit of its block. -/
theorem Owned.release (h : Owned sb data) (hg : Geometry sb) (hfile : ListedFile sb data ino)
    {j : Nat} (hj : j < 27) (hfull : data.word (slotAddrOf sb ino j) ≠ 0) :
    Owned sb ((data.clearBit (bitsAddr sb) (data.word (slotAddrOf sb ino j)).toNat).setWord
      (slotAddrOf sb ino j) 0) := by
  have hbelow : ∀ x < bitsAddr sb,
      data.clearBit (bitsAddr sb) (data.word (slotAddrOf sb ino j)).toNat x = data x := fun x hx =>
    Mem.clearBit_outside (by omega)
  obtain ⟨-, hnew, hother⟩ := hfile.setSlot hg hbelow hj 0
  have hold : held sb data (ino, j) = (data.word (slotAddrOf sb ino j)).toNat := by
    rw [held_of_listed hfile, slot_eq hj]
  refine h.drop (fun p => ?_) fun c => ?_
  · by_cases hp : p = (ino, j)
    · rw [hp, hnew]
      exact .inr rfl
    · exact .inl (hother p hp)
  · rw [bit_setSlot hg hfile.inTable hj, Mem.bit_clearBit, Bool.and_eq_true, bne_iff_ne]
    constructor
    · rintro ⟨hc, hbit, hne⟩
      refine ⟨⟨hc, hbit⟩, fun p hp hpc => ?_⟩
      have hpne : p ≠ (ino, j) := by
        rintro rfl
        exact hne (hold.symm.trans hpc)
      rw [hother p hpne]
      exact hp
    · rintro ⟨⟨hc, hbit⟩, hkept⟩
      refine ⟨hc, hbit, fun e => ?_⟩
      -- the slot itself held the block, and it is empty now
      refine hkept (ino, j) ?_ (hold.trans e) hnew
      rw [hold, ne_eq, ← UInt32.toNat_zero, UInt32.toNat_inj]
      exact hfull

/-- A new size that is not negative. -/
theorem Owned.resize (h : Owned sb data) (hg : Geometry sb) (hfile : ListedFile sb data ino)
    {size : Int32} (hsize : 0 ≤ size) :
    SameListing sb data (data.setWord (inodeAddr sb ino + 16) size.toUInt32) ∧
      Owned sb (data.setWord (inodeAddr sb ino + 16) size.toUInt32) := by
  have hreg : (inode sb (data.setWord (inodeAddr sb ino + 16) size.toUInt32) ino).isReg = true := by
    unfold inode Inode.isReg Inode.ofMem
    simp only [Mem.word_window, Mem.word_setWord, Int32.toInt32_toUInt32]
    simpa using hsize
  have hfiles := filesOnly_setWord hg (fun _ _ => rfl) (by omega) hfile.isReg hreg
  have hheld : held sb (data.setWord (inodeAddr sb ino + 16) size.toUInt32) = held sb data := by
    funext p
    refine hfiles.held_eq p fun _ => ?_
    by_cases hp : p.1 = ino
    · by_cases hj : p.2 < 27
      · rw [hp, slot_eq hj, slot_eq hj, Mem.word_setWord_of_ne]
        unfold slotAddrOf
        omega
      · rw [Inode.slot_of_le (by omega), Inode.slot_of_le (by omega)]
    · rw [inode_setWord_of_ne hp (by omega)]
  refine ⟨hfiles.sameListing, ?_⟩
  unfold Owned
  simp only [hheld, bit_setWord hg hfile.inTable (show 16 + 4 ≤ 128 by omega)]
  exact h

end Step

/-! ## Calls of the driver -/

section Calls

variable {fs : Fs} {ino : UInt32}

/-- The loop of `akpfs_super_write_inode` drops slot after slot. -/
theorem truncSlots_owned (h : Working fs) (hfile : ListedFile fs.sb fs.dev.data ino)
    (ho : Owned fs.sb fs.dev.data) {n i : Nat} (hn : i + n ≤ 27) :
    ∃ k data, truncSlots (inodeAddr fs.sb ino) n i fs = fs.after k data ∧
      SameListing fs.sb fs.dev.data data ∧ Owned fs.sb data := by
  induction n generalizing i fs with
  | zero => exact ⟨0, fs.dev.data, rfl, fun _ => Iff.rfl, ho⟩
  | succ n ih =>
    have hslot : slotAddr (inodeAddr fs.sb ino) i = slotAddrOf fs.sb ino i := slotAddr_natCast _ _
    have hnext : (i : Int) + 1 = ((i + 1 : Nat) : Int) := by omega
    unfold truncSlots
    simp only [hslot, Fs.word, hnext]
    by_cases hw : fs.dev.data.word (slotAddrOf fs.sb ino i) = 0
    · rw [if_neg (not_not.2 hw)]
      exact ih h hfile ho (by omega)
    · rw [if_pos hw]
      have hheld : held fs.sb fs.dev.data (ino, i) =
          (fs.dev.data.word (slotAddrOf fs.sb ino i)).toNat := by
        rw [held_of_listed hfile, slot_eq (by omega)]
      obtain ⟨hlt, hset⟩ := ho.marked (ino, i) (by
        rw [hheld, ne_eq, ← UInt32.toNat_zero, UInt32.toNat_inj]
        exact hw)
      rw [hheld] at hlt hset
      have hbelow : ∀ x < bitsAddr fs.sb, fs.dev.data.clearBit (bitsAddr fs.sb)
          (fs.dev.data.word (slotAddrOf fs.sb ino i)).toNat x = fs.dev.data x := fun x hx =>
        Mem.clearBit_outside (by omega)
      have hi : i < 27 := by omega
      have hsame := (hfile.setSlot h.geometry hbelow hi 0).1.sameListing
      have ho₁ := ho.release h.geometry hfile hi hw
      rw [putFreeBlock_eq h.bitmapped (h.reliable _) hlt, Fs.setWord_after]
      generalize (fs.dev.data.clearBit _ _).setWord _ _ = image at hsame ho₁ ⊢
      obtain ⟨k, data, hrun, hsame', ho'⟩ := ih (h.after 1 image) ((hsame ino).2 hfile) ho₁
        (i := i + 1) (by omega)
      rw [Fs.after_after] at hrun
      exact ⟨1 + k, data, hrun, fun x => (hsame' x).trans (hsame x), ho'⟩

theorem tdiv_of_neg {x : Int} (h : x ≤ 0) : x.tdiv 4096 = -(-x / 4096) := by
  rw [← Int.tdiv_eq_ediv_of_nonneg (by omega), Int.neg_tdiv, Int.neg_neg]

/-- The rounded quotient in wrapping arithmetic. -/
theorem toInt_firstCut {sb : Sb} (hsize : sb.blockSize = 4096) {size : Int} (h0 : 0 ≤ size)
    (h1 : size < 2147483648) :
    (firstCut sb (.ofInt size)).toInt = ((size + 4095).bmod 4294967296).tdiv 4096 := by
  have hs : (Int32.ofInt size).toInt = size := Int32.toInt_ofInt_of_le (by omega) (by omega)
  have hb : (Int32.ofInt (4096 : UInt16).toNat).toInt = 4096 := by decide
  have hone : (1 : Int32).toInt = 1 := by decide
  have hsum : ((size + 4096).bmod (2 ^ 32) - 1).bmod (2 ^ 32) = (size + 4095).bmod 4294967296 := by
    rw [Int.bmod_sub_bmod]
    congr 1
    omega
  have hlow := Int.le_bmod (x := size + 4095) (m := 4294967296) (by decide)
  have hhigh := Int.bmod_lt (x := size + 4095) (m := 4294967296) (by decide)
  unfold firstCut
  simp only [hsize]
  rw [Int32.toInt_div, Int32.toInt_sub, Int32.toInt_add, hs, hb, hone, hsum]
  generalize (size + 4095).bmod 4294967296 = sum at hlow hhigh ⊢
  rcases Int.le_total 0 sum with hnonneg | hneg
  · rw [Int.tdiv_eq_ediv_of_nonneg hnonneg]
    apply Int.bmod_eq_of_le <;> omega
  · rw [tdiv_of_neg hneg]
    apply Int.bmod_eq_of_le <;> omega

theorem firstCut_toInt {sb : Sb} (hsize : sb.blockSize = 4096) {size : Int} (h0 : 0 ≤ size)
    (h1 : size ≤ 2147479552) : (firstCut sb (.ofInt size)).toInt = (size + 4095) / 4096 := by
  rw [toInt_firstCut hsize h0 (by omega), Int.bmod_eq_of_le (by omega) (by omega),
    Int.tdiv_eq_ediv_of_nonneg (by omega)]

/-- The number of the first clear bit wraps to that of another block. -/
def Wraps (sb : Sb) (data : Mem) : Prop :=
  ∃ n ∈ firstClear sb data, 4294967296 ≤ n ∧ n % 4294967296 < sb.blockCnt.toNat ∧
    n % 4294967296 ≠ 0

theorem BitsNumbered.not_wraps {sb : Sb} (h : BitsNumbered sb) (data : Mem) : ¬ Wraps sb data := by
  rintro ⟨n, hn, hge, -, -⟩
  have hlt := (firstClear_eq_some hn).1
  unfold BitsNumbered at h
  omega

/-- The call has to allocate. -/
def Allocates (fs : Fs) (ino : UInt32) (iblock : Nat) (create : Bool) : Prop :=
  create = true ∧ iblock < 27 ∧ (inode fs.sb fs.dev.data ino).slot iblock = 0

/-- `akpfs_get_block` keeps the image consistent, as long as the first clear bit does not wrap. -/
theorem getBlock_owned (h : Working fs) (hfile : ListedFile fs.sb fs.dev.data ino)
    (ho : Owned fs.sb fs.dev.data) {iblock : Nat} {create : Bool}
    (hfits : Allocates fs ino iblock create → ¬ Wraps fs.sb fs.dev.data) :
    ∃ k data, (getBlock fs ino iblock create).2 = fs.after k data ∧
      SameListing fs.sb fs.dev.data data ∧ Owned fs.sb data := by
  obtain ⟨k, hrun | ⟨n, hcreate, hi, hempty, htaken, hrun⟩⟩ :=
    getBlock_cases h hfile.inTable iblock create
  · exact ⟨k, _, hrun, fun _ => Iff.rfl, ho⟩
  · obtain ⟨hmod, -, hclear, -⟩ := takenBit_eq_some htaken
    have hcnt : fs.sb.blockCnt.toNat < 4294967296 := fs.sb.blockCnt.toNat_lt
    have hslot : (inode fs.sb fs.dev.data ino).slot iblock = 0 := by rw [slot_eq hi, hempty]
    have hbelow : ∀ x < bitsAddr fs.sb, fs.dev.data.setBit (bitsAddr fs.sb) n x = fs.dev.data x :=
      fun x hx => Mem.setBit_outside (by omega)
    by_cases hlt : n < 4294967296
    · have hn : n < fs.sb.blockCnt.toNat := by omega
      exact ⟨k, _, hrun, (hfile.setSlot h.geometry hbelow hi _).1.sameListing,
        ho.allocate h.geometry hfile hi hempty hn hclear⟩
    · -- the number wraps to zero, which stands for no block
      have hzero : n % 4294967296 = 0 := by
        by_contra hne
        have hfirst := (takenBit_eq_some_iff.1 htaken).1
        exact hfits ⟨hcreate, hi, hslot⟩ ⟨n, hfirst, by omega, hmod, hne⟩
      obtain ⟨hsame, ho'⟩ := ho.setPadding h.geometry (show fs.sb.blockCnt.toNat ≤ n by omega)
      have hword : UInt32.ofNat n =
          (fs.dev.data.setBit (bitsAddr fs.sb) n).word (slotAddrOf fs.sb ino iblock) := by
        rw [← slot_eq hi, inode_of_bits h.geometry hbelow hfile.inTable, hslot]
        apply UInt32.toNat_inj.1
        rw [UInt32.toNat_ofNat', hzero]
        rfl
      rw [hword, Mem.setWord_word] at hrun
      exact ⟨k, _, hrun, hsame, ho'⟩

/-- A number that wraps is recorded for a second time, or it is not that of a data block. -/
theorem getBlock_wraps (h : Working fs) (hfile : ListedFile fs.sb fs.dev.data ino)
    (ho : Owned fs.sb fs.dev.data) {iblock : Nat} {create : Bool}
    (halloc : Allocates fs ino iblock create) (hwraps : Wraps fs.sb fs.dev.data) :
    ¬ Consistent fs.sb (getBlock fs ino iblock create).2.dev.data := by
  obtain ⟨rfl, hi, hslot⟩ := halloc
  obtain ⟨n, hfirst, hge, hmod, hne⟩ := hwraps
  have htaken : takenBit fs.sb fs.dev.data = some n := takenBit_eq_some_iff.2 ⟨hfirst, hmod⟩
  have hset := (takenBit_eq_some htaken).2.2.2
  have hsearch : SearchReads (fs.after 1 fs.dev.data) := searchReads_of_reliable h.reliable
  have hempty : fs.dev.data.word (slotAddrOf fs.sb ino iblock) = 0 := by rw [← slot_eq hi, hslot]
  obtain ⟨k, hk, -⟩ :=
    getBlock_of_taken h.geometry h.blocksize hfile.inTable hi (h.reliable _) hempty hsearch
  rw [htaken] at hk
  rw [hk, Fs.after_data]
  intro hc
  have hbelow : ∀ x < bitsAddr fs.sb, fs.dev.data.setBit (bitsAddr fs.sb) n x = fs.dev.data x :=
    fun x hx => Mem.setBit_outside (by omega)
  obtain ⟨-, hnew, hother⟩ := hfile.setSlot h.geometry hbelow hi (.ofNat n)
  rw [UInt32.toNat_ofNat'] at hnew
  have hstored := (stored_iff hne (ino, iblock)).2 hnew
  have hdata := (hc.range _ _ hne hstored).1
  -- the block was in use, so another slot holds it
  have hused : n % 4294967296 < fs.sb.blockCnt.toNat ∧
      fs.dev.data.bit (bitsAddr fs.sb) (n % 4294967296) = true := ⟨hmod, hset _ (by omega)⟩
  rcases ho.held _ hused with hbase | ⟨p, hp, hpn⟩
  · exact absurd hbase.2 (by omega)
  · have hpne : p ≠ (ino, iblock) := by
      rintro rfl
      rw [held_of_listed hfile, hslot] at hp
      exact hp rfl
    refine hpne (hc.once _ _ _ hne ((stored_iff hne p).2 ?_) hstored)
    rw [hother p hpne, hpn]

/-- `akpfs_super_write_inode` keeps the image consistent. -/
theorem superWriteInode_owned (h : Working fs) {node : VfsInode}
    (hfile : ListedFile fs.sb fs.dev.data node.ino) (ho : Owned fs.sb fs.dev.data)
    (h0 : 0 ≤ node.size) (h1 : node.size ≤ 27 * 4096) (doSync syncOk : Bool) :
    ∃ k data, (superWriteInode fs node doSync syncOk).2 = fs.after k data ∧
      SameListing fs.sb fs.dev.data data ∧ Owned fs.sb data := by
  unfold superWriteInode
  rw [getInode_eq h hfile.inTable]
  simp only
  by_cases hcond : node.mode &&& 0o100000 ≠ 0 ∧
      ((fs.after 1 fs.dev.data).inodeAt (inodeAddr fs.sb node.ino)).isReg = true
  · rw [if_pos hcond]
    have hsize : (0 : Int32) ≤ .ofInt node.size := by
      rw [Int32.le_iff_toInt_le, Int32.toInt_ofInt_of_le (by omega) (by omega)]
      exact h0
    obtain ⟨hsame, ho'⟩ := ho.resize h.geometry hfile hsize
    have hcut := firstCut_toInt h.geometry.blockSize h0 (by omega)
    obtain ⟨i, hi⟩ : ∃ i : Nat, (node.size + 4095) / 4096 = i :=
      ⟨_, (Int.toNat_of_nonneg (by omega)).symm⟩
    simp only [Fs.setWord_after, Fs.after_sb, hcut, hi]
    generalize fs.dev.data.setWord _ _ = image at hsame ho' ⊢
    obtain ⟨k, data, hrun, hsame', ho''⟩ := truncSlots_owned (h.after 1 image)
      ((hsame node.ino).2 hfile) ho' (n := (27 - (i : Int)).toNat) (i := i) (by omega)
    simp only [Fs.after_sb, Fs.after_after] at hrun
    refine ⟨1 + k, data, ?_, fun x => (hsame' x).trans (hsame x), ho''⟩
    rw [hrun]
    split <;> rfl
  · rw [if_neg hcond]
    exact ⟨1, _, rfl, fun _ => Iff.rfl, ho⟩

end Calls

/-! ## Formatted images -/

section Formatted

variable {sb : Sb} {data : Mem} {n : Nat}

theorem slot_rootInodeOf (sb : Sb) (j : Nat) :
    (rootInodeOf sb).slot j = if j = 0 then sb.rootInode + 1 else 0 := by
  by_cases hj : j < 27
  · by_cases h0 : j = 0
    · subst h0
      rfl
    · simp [rootInodeOf, Inode.slot, Vector.getD, computeAkpfsEmptyDirInode, hj, h0, Ne.symm h0]
  · rw [Inode.slot_of_le (by omega), if_neg (by omega)]

theorem slot_fileInodeOf (sb : Sb) (j : Nat) :
    (fileInodeOf sb).slot j = if j = 0 then sb.dataBlockStart else 0 := by
  by_cases hj : j < 27
  · by_cases h0 : j = 0
    · subst h0
      rfl
    · simp [fileInodeOf, Inode.slot, Vector.getD, computeAkpfsEmptyFileInode, hj, h0, Ne.symm h0]
  · rw [Inode.slot_of_le (by omega), if_neg (by omega)]

/-- Room for the root directory, for one file and for its block. -/
structure Roomy (sb : Sb) : Prop where
  rootInode : sb.rootInode = 1
  inodes_pos : 0 < sb.inodesBlockCnt.toNat
  data_pos : 0 < sb.dataBlockStart.toNat
  data_lt : sb.dataBlockStart.toNat < sb.blockCnt.toNat

theorem Roomy.inTable (h : Roomy sb) {ino : UInt32} (hino : ino.toNat < 32) : InTable sb ino := by
  have := h.inodes_pos
  unfold InTable
  omega

theorem Computed.roomy (h : Computed sb n) (h4 : 4 ≤ n) : Roomy sb := by
  have h1 := h.blockCnt
  have h2 := h.inodesBlockCnt
  have h3 := h.dataBlockStart
  exact ⟨h.rootInode, by omega, by omega, by omega⟩

theorem Computed.inTable (h : Computed sb n) (h4 : 4 ≤ n) {ino : UInt32} (hino : ino.toNat < 32) :
    InTable sb ino :=
  (h.roomy h4).inTable hino

/-- The root is the only directory. -/
theorem Formatted.isDirectory (hf : Formatted sb data) (hr : Roomy sb) {d : UInt32}
    (hd : IsDirectory sb data d) : d = 1 := by
  induction hd with
  | root => exact hr.rootInode
  | entry _ hslot hne _ hdir ih =>
    subst ih
    rw [hf.root_eq, slot_rootInodeOf, hr.rootInode] at hslot
    split at hslot
    · -- the one entry of the root is a regular file
      subst hslot
      have hfile := hf.file_eq
      rw [show (1 : UInt32) + 1 = 2 from rfl, hfile] at hdir
      cases hdir
    · exact absurd hslot.symm hne

/-- `moksha.txt` is the only listed file. -/
theorem Formatted.listedFile_iff (hf : Formatted sb data) (hr : Roomy sb)
    (ino : UInt32) : ListedFile sb data ino ↔ ino = 2 := by
  constructor
  · intro h
    obtain ⟨d, j, hd, hslot⟩ := h.listed
    rw [hf.isDirectory hr hd, hf.root_eq, slot_rootInodeOf, hr.rootInode] at hslot
    split at hslot
    · exact hslot.symm
    · exact absurd hslot.symm h.ne_zero
  · rintro rfl
    refine ⟨⟨1, 0, ?_, ?_⟩, by decide, hr.inTable (by decide), ?_⟩
    · have hroot := @IsDirectory.root sb data
      rw [hr.rootInode, hf.root_eq] at hroot
      exact hroot (hr.inTable (by decide)) rfl
    · rw [hf.root_eq, slot_rootInodeOf, hr.rootInode]
      rfl
    · rw [hf.file_eq]
      rfl

/-- A formatted image is consistent. -/
theorem Formatted.owned (hf : Formatted sb data) (hr : Roomy sb) : Owned sb data := by
  have hheld : ∀ p, held sb data p =
      if p = (2, 0) then sb.dataBlockStart.toNat else 0 := by
    intro p
    unfold held
    by_cases hp : p.1 = 2
    · rw [if_pos ((hf.listedFile_iff hr _).2 hp), hp, hf.file_eq, slot_fileInodeOf]
      by_cases h0 : p.2 = 0
      · rw [if_pos h0, if_pos (Prod.ext hp h0)]
      · rw [if_neg h0, if_neg fun e => h0 (congrArg Prod.snd e)]
        rfl
    · rw [if_neg (mt (hf.listedFile_iff hr _).1 hp), if_neg fun e => hp (congrArg Prod.fst e)]
  have hp2 : ∀ p, held sb data p ≠ 0 → p = (2, 0) := by
    intro p hp
    rw [hheld] at hp
    by_contra hne
    exact hp (if_neg hne)
  have hpos := hr.data_pos
  have hlast := hr.data_lt
  refine ⟨⟨fun p hp => ?_, fun p hp => ?_, fun p q hp hpq => ?_⟩, fun b hb hin => ?_,
    fun b hb => ?_, fun b hb => ?_⟩
  · rw [hheld, if_pos (hp2 p hp)]
    omega
  · have hlt : sb.dataBlockStart.toNat < sb.blockCnt.toNat := by omega
    rw [hheld, if_pos (hp2 p hp)]
    exact ⟨hlt, by rw [hf.bits _ hlt]; simp⟩
  · rw [hp2 p hp, hp2 q (hpq ▸ hp)]
  · omega
  · exact ⟨hb.1, by rw [hf.bits b hb.1]; simp; omega⟩
  · obtain ⟨hlt, hset⟩ := hb
    rw [hf.bits b hlt, decide_eq_true_eq] at hset
    by_cases he : b < sb.dataBlockStart.toNat
    · exact .inl ⟨hlt, he⟩
    · refine .inr ⟨(2, 0), ?_, ?_⟩ <;> rw [hheld, if_pos rfl] <;> omega

/-- Behind the text of the file the next block is free. -/
theorem Formatted.firstClear_eq (hf : Formatted sb data) (hg : Geometry sb)
    (hlt : sb.dataBlockStart.toNat + 1 < sb.blockCnt.toNat) :
    firstClear sb data = some (sb.dataBlockStart.toNat + 1) := by
  have hcover := hg.cover
  refine firstClear_of_least (by omega) ?_ fun c hc => ?_
  · rw [hf.bits _ hlt, decide_eq_false (by omega)]
  · rw [hf.bits c (by omega), decide_eq_true hc]

end Formatted

/-- A device of eight blocks with `moksha.txt`, which has one block. -/
theorem makeAkpfs_eight : ∃ o', makeAkpfs ⟨⟨fun _ => 0, 0⟩, fun _ => false, 0⟩ 32768 4096
      (fun _ => 0) = .ok o' ∧ Computed (Sb.ofMem o'.fd.data) 8 ∧
    Formatted (Sb.ofMem o'.fd.data) o'.fd.data ∧
    Consistent (Sb.ofMem o'.fd.data) o'.fd.data ∧
    ListedFile (Sb.ofMem o'.fd.data) o'.fd.data 2 := by
  obtain ⟨o', hok, -⟩ := @makeAkpfs_succeeds ⟨⟨fun _ => 0, 0⟩, fun _ => false, 0⟩ (fun _ => rfl)
    32768 4096 (fun _ => 0)
  have hf := makeAkpfs_formatted (by decide) (by decide) hok
  have hcomp : Computed _ 8 := computed_sb (show 32768 < 2 ^ 31 by decide)
  have hr := hcomp.roomy (by omega)
  refine ⟨o', hok, ?_⟩
  rw [hf.sb_eq]
  exact ⟨hcomp, hf, (hf.owned hr).consistent hcomp.geometry, (hf.listedFile_iff hr 2).2 rfl⟩

end LinuxDrivers.Akpfs
