import LinuxDrivers.Akpfs.Consistent

/-!
# Truncating a file

`akpfs_super_write_inode` releases the slots from `(file_size + block_size - 1) / block_size` on.
The sum is an `int`: it wraps for the largest sizes, and then the loop starts at a negative index,
far in front of `file_blocks`.
-/

namespace LinuxDrivers.Akpfs

/-- One round of the loop of `akpfs_super_write_inode`. -/
def truncSlot (a : Nat) (fs : Fs) (i : Int) : Fs :=
  let p := slotAddr a i
  if fs.word p ≠ 0 then (putFreeBlock fs (fs.word p)).2.setWord p 0 else fs

/-- The indices of the slots that the loop visits. -/
def visitedSlots (sb : Sb) (size : Int) : List Int :=
  let i := (firstCut sb (.ofInt size)).toInt
  (List.range (27 - i).toNat).map fun k : Nat => i + k

theorem truncSlots_succ (a n : Nat) (i : Int) (fs : Fs) :
    truncSlots a (n + 1) i fs = truncSlots a n (i + 1) (truncSlot a fs i) := by
  conv_lhs => unfold truncSlots
  simp only [truncSlot]
  split <;> rfl

theorem truncSlots_eq_foldl (a n : Nat) (i : Int) (fs : Fs) :
    truncSlots a n i fs = ((List.range n).map fun k : Nat => i + k).foldl (truncSlot a) fs := by
  induction n generalizing i fs with
  | zero => rfl
  | succ n ih =>
    have hshift : (List.range n).map ((fun k : Nat => i + k) ∘ Nat.succ) =
        (List.range n).map fun k : Nat => i + 1 + k := by
      apply List.map_congr_left
      intro k _
      simp only [Function.comp_apply, Nat.succ_eq_add_one]
      omega
    rw [truncSlots_succ, ih, List.range_succ_eq_map, List.map_cons, List.foldl_cons, List.map_map,
      hshift, Int.natCast_zero, Int.add_zero]

theorem visitedSlots_eq {sb : Sb} (hsize : sb.blockSize = 4096) {size : Int} (h0 : 0 ≤ size)
    (h1 : size ≤ 2147479552) : visitedSlots sb size =
      (List.range (27 - (size + 4095) / 4096).toNat).map
        fun k : Nat => (size + 4095) / 4096 + k := by
  unfold visitedSlots
  rw [firstCut_toInt hsize h0 h1]

/-- A sum that wraps makes the loop start in front of the slots. -/
theorem visitedSlots_neg {sb : Sb} (hsize : sb.blockSize = 4096) {size : Int}
    (h1 : 2147479552 < size) (h2 : size < 2147483648) : ∃ i ∈ visitedSlots sb size, i < 0 := by
  have hwrap : (size + 4095).bmod 4294967296 = size + 4095 - 4294967296 := by
    have hadd := Int.add_bmod_right (size + 4095 - 4294967296) 4294967296
    rw [← Int.bmod_eq_of_le (n := size + 4095 - 4294967296) (m := 4294967296) (by omega) (by omega),
      ← hadd]
    congr 1
    omega
  have hstart := toInt_firstCut hsize (show 0 ≤ size by omega) h2
  rw [hwrap, tdiv_of_neg (by omega)] at hstart
  have hrounds : 0 < (27 - (firstCut sb (.ofInt size)).toInt).toNat := by omega
  refine ⟨(firstCut sb (.ofInt size)).toInt, ?_, by omega⟩
  refine List.mem_map.2 ⟨0, List.mem_range.2 hrounds, ?_⟩
  rw [Int.natCast_zero, Int.add_zero]

/-! ## One round and the whole loop -/

/-- A volume that differs from `fs` in its free bits and behind them only. -/
structure SameBelow (fs fs' : Fs) : Prop where
  sb : fs'.sb = fs.sb
  blocksize : fs'.dev.blocksize = fs.dev.blocksize
  data : ∀ x < bitsAddr fs.sb, fs'.dev.data x = fs.dev.data x

/-- `akpfs_put_free_block` changes the free bits only, whether it fails or not. -/
theorem putFreeBlock_below {fs : Fs} (h : Bitmapped fs) (b : UInt32) :
    SameBelow fs (putFreeBlock fs b).2 := by
  by_cases hlt : b.toNat < fs.sb.blockCnt.toNat
  · cases hread : fs.dev.fails fs.dev.reads with
    | false =>
      rw [putFreeBlock_eq h hread hlt]
      exact ⟨rfl, rfl, fun x hx => Mem.clearBit_outside (by omega)⟩
    | true =>
      unfold putFreeBlock
      rw [if_neg (by rw [ge_iff_le, UInt32.le_iff_toNat_le]; omega)]
      simp only [Fs.sbBread_of_fails hread]
      exact ⟨rfl, rfl, fun _ _ => rfl⟩
  · unfold putFreeBlock
    rw [if_pos (by rw [ge_iff_le, UInt32.le_iff_toNat_le]; omega)]
    exact ⟨rfl, rfl, fun _ _ => rfl⟩

section

variable {fs : Fs} {ino : UInt32}

/-- A round of the loop empties its slot and leaves the other ones alone. -/
theorem slot_truncSlot (hg : Geometry fs.sb) (hsize : fs.dev.blocksize = 4096)
    (hino : InTable fs.sb ino) {i : Nat} (hi : i < 27) :
    (truncSlot (inodeAddr fs.sb ino) fs i).sb = fs.sb ∧
      (truncSlot (inodeAddr fs.sb ino) fs i).dev.blocksize = fs.dev.blocksize ∧
      ∀ j, (inode fs.sb (truncSlot (inodeAddr fs.sb ino) fs i).dev.data ino).slot j =
        if j = i then 0 else (inode fs.sb fs.dev.data ino).slot j := by
  have hslot : slotAddr (inodeAddr fs.sb ino) i = slotAddrOf fs.sb ino i := slotAddr_natCast _ _
  unfold truncSlot
  simp only [hslot, Fs.word]
  by_cases hw : fs.dev.data.word (slotAddrOf fs.sb ino i) = 0
  · rw [if_neg (not_not.2 hw)]
    refine ⟨rfl, rfl, fun j => ?_⟩
    by_cases he : j = i
    · rw [if_pos he, he, slot_eq hi, hw]
    · rw [if_neg he]
  · have hbelow := putFreeBlock_below (hg.bitmapped hsize)
      (fs.dev.data.word (slotAddrOf fs.sb ino i))
    rw [if_pos hw]
    refine ⟨hbelow.sb, hbelow.blocksize, fun j => ?_⟩
    have hset := (@inode_setSlot fs.sb
      (putFreeBlock fs (fs.dev.data.word (slotAddrOf fs.sb ino i))).2.dev.data ino i hi 0).2 j
    rw [inode_of_bits hg hbelow.data hino] at hset
    exact hset

/-- The loop empties the slots that it visits. -/
theorem slot_truncSlots (hg : Geometry fs.sb) (hsize : fs.dev.blocksize = 4096)
    (hino : InTable fs.sb ino) {n i : Nat} (hn : i + n ≤ 27) (j : Nat) :
    (inode fs.sb (truncSlots (inodeAddr fs.sb ino) n i fs).dev.data ino).slot j =
      if i ≤ j ∧ j < i + n then 0 else (inode fs.sb fs.dev.data ino).slot j := by
  induction n generalizing i fs with
  | zero =>
    rw [if_neg (by omega)]
    rfl
  | succ n ih =>
    obtain ⟨hsb, hbs, hround⟩ := slot_truncSlot hg hsize hino (show i < 27 by omega)
    have hnext : (i : Int) + 1 = ((i + 1 : Nat) : Int) := by omega
    have hg' : Geometry (truncSlot (inodeAddr fs.sb ino) fs i).sb := by rw [hsb]; exact hg
    have hino' : InTable (truncSlot (inodeAddr fs.sb ino) fs i).sb ino := by rw [hsb]; exact hino
    have hrest := ih hg' (hbs.trans hsize) hino' (i := i + 1) (by omega)
    rw [hsb, hround] at hrest
    rw [truncSlots_succ, hnext, hrest]
    by_cases he : j = i
    · rw [if_neg (by omega), if_pos he, if_pos (by omega)]
    · rw [if_neg he]
      by_cases hin : i + 1 ≤ j ∧ j < i + 1 + n
      · rw [if_pos hin, if_pos (by omega)]
      · rw [if_neg hin, if_neg (by omega)]

/-- `akpfs_super_write_inode` of a regular file stores the size and visits slots. -/
theorem superWriteInode_eq (hg : Geometry fs.sb) (hsize : fs.dev.blocksize = 4096) {node : VfsInode}
    (hino : InTable fs.sb node.ino) (hread : fs.dev.fails fs.dev.reads = false)
    (hmode : node.mode &&& 0o100000 ≠ 0) (hreg : (inode fs.sb fs.dev.data node.ino).isReg = true)
    (doSync syncOk : Bool) : (superWriteInode fs node doSync syncOk).2 =
      (visitedSlots fs.sb node.size).foldl (truncSlot (inodeAddr fs.sb node.ino))
        (fs.after 1 (fs.dev.data.setWord (inodeAddr fs.sb node.ino + 16)
          (Int32.ofInt node.size).toUInt32)) := by
  have hcond : node.mode &&& 0o100000 ≠ 0 ∧
      ((fs.after 1 fs.dev.data).inodeAt (inodeAddr fs.sb node.ino)).isReg = true := ⟨hmode, hreg⟩
  unfold superWriteInode
  rw [getInode_of_ok hg hsize hino hread]
  simp only
  rw [if_pos hcond, Fs.setWord_after, truncSlots_eq_foldl]
  split <;> rfl

/-- What truncating a file of that size has to do: visit slots of the inode only, empty those behind
the end of the file, and keep the others. -/
structure TruncatesInside (fs : Fs) (node : VfsInode) (doSync syncOk : Bool) : Prop where
  inside : ∀ i ∈ visitedSlots fs.sb node.size, 0 ≤ i ∧ i < 27
  slots : ∀ j < 27,
    (inode fs.sb (superWriteInode fs node doSync syncOk).2.dev.data node.ino).slot j =
      if (node.size + 4095) / 4096 ≤ j then 0 else (inode fs.sb fs.dev.data node.ino).slot j

/-- A truncation stays inside the slots exactly when the rounded size does not wrap. -/
theorem truncatesInside_iff (hg : Geometry fs.sb) (hsize : fs.dev.blocksize = 4096)
    {node : VfsInode} (hino : InTable fs.sb node.ino) (hread : fs.dev.fails fs.dev.reads = false)
    (hmode : node.mode &&& 0o100000 ≠ 0) (hreg : (inode fs.sb fs.dev.data node.ino).isReg = true)
    (h0 : 0 ≤ node.size) (h1 : node.size ≤ 2 ^ 31 - 1) (doSync syncOk : Bool) :
    (superWriteInode fs node doSync syncOk).2 =
        (visitedSlots fs.sb node.size).foldl (truncSlot (inodeAddr fs.sb node.ino))
          (fs.after 1 (fs.dev.data.setWord (inodeAddr fs.sb node.ino + 16)
            (Int32.ofInt node.size).toUInt32)) ∧
      (TruncatesInside fs node doSync syncOk ↔ node.size ≤ 2 ^ 31 - 4096) := by
  have hrun := superWriteInode_eq hg hsize hino hread hmode hreg doSync syncOk
  refine ⟨hrun, fun hinside => ?_, fun hle => ?_⟩
  · by_contra hgt
    obtain ⟨i, hi, hneg⟩ := @visitedSlots_neg fs.sb hg.blockSize node.size (by omega) (by omega)
    have hnonneg := (hinside.inside i hi).1
    omega
  · have hvisited := visitedSlots_eq hg.blockSize h0 (by omega)
    obtain ⟨i, hi⟩ : ∃ i : Nat, (node.size + 4095) / 4096 = i :=
      ⟨_, (Int.toNat_of_nonneg (by omega)).symm⟩
    rw [hi] at hvisited
    refine ⟨fun x hx => ?_, fun j hj => ?_⟩
    · rw [hvisited] at hx
      obtain ⟨k, hk, rfl⟩ := List.mem_map.1 hx
      have hk' := List.mem_range.1 hk
      omega
    · rw [hrun, hvisited, ← truncSlots_eq_foldl, hi]
      generalize hstored : fs.dev.data.setWord (inodeAddr fs.sb node.ino + 16)
        (Int32.ofInt node.size).toUInt32 = data
      have hkept : (inode fs.sb data node.ino).slot j =
        (inode fs.sb fs.dev.data node.ino).slot j := by
        rw [slot_eq hj, slot_eq hj, ← hstored, Mem.word_setWord_of_ne]
        unfold slotAddrOf
        omega
      have hg₁ : Geometry (fs.after 1 data).sb := hg
      by_cases hle27 : i ≤ 27
      · have hslots := slot_truncSlots hg₁ hsize hino (n := (27 - (i : Int)).toNat) (i := i)
          (by omega) j
        rw [Fs.after_sb, Fs.after_data, hkept] at hslots
        rw [hslots]
        by_cases hij : i ≤ j
        · rw [if_pos (by omega), if_pos (by omega)]
        · rw [if_neg (by omega), if_neg (by omega)]
      · rw [show (27 - (i : Int)).toNat = 0 by omega, if_neg (by omega)]
        exact hkept

end

theorem truncatesInside_iff_eight : ∃ o', makeAkpfs ⟨⟨fun _ => 0, 0⟩, fun _ => false, 0⟩ 32768 4096
      (fun _ => 0) = .ok o' ∧
    TruncatesInside ⟨⟨o'.fd.data, 4096, fun _ => false, 0⟩, Sb.ofMem o'.fd.data⟩
      ⟨2, 0o100644, 5000⟩ true true := by
  obtain ⟨o', hok, hcomp, -, -, hlisted⟩ := makeAkpfs_eight
  have hg := hcomp.geometry
  let fs : Fs := ⟨⟨o'.fd.data, 4096, fun _ => false, 0⟩, Sb.ofMem o'.fd.data⟩
  exact ⟨o', hok, (@truncatesInside_iff fs hg rfl ⟨2, 0o100644, 5000⟩ hlisted.inTable rfl
    (by decide) hlisted.isReg (by decide) (by decide) true true).2.2 (by decide)⟩

/-- A file of `2 ^ 31 - 1` bytes: the loop starts in front of the slots. -/
theorem truncatesInside_false : ∃ o', makeAkpfs ⟨⟨fun _ => 0, 0⟩, fun _ => false, 0⟩ 32768 4096
      (fun _ => 0) = .ok o' ∧
    let fs : Fs := ⟨⟨o'.fd.data, 4096, fun _ => false, 0⟩, Sb.ofMem o'.fd.data⟩
    Geometry fs.sb ∧ ListedFile fs.sb fs.dev.data 2 ∧
      (∃ i ∈ visitedSlots fs.sb 2147483647, i < 0) ∧
      ¬ TruncatesInside fs ⟨2, 0o100644, 2147483647⟩ true true := by
  obtain ⟨o', hok, hcomp, -, -, hlisted⟩ := makeAkpfs_eight
  have hg := hcomp.geometry
  obtain ⟨i, hi, hneg⟩ :=
    visitedSlots_neg hg.blockSize (show 2147479552 < (2147483647 : Int) by decide)
    (by decide)
  refine ⟨o', hok, hg, hlisted, ⟨i, hi, hneg⟩, fun hinside => ?_⟩
  have hnonneg := (hinside.inside i hi).1
  omega

end LinuxDrivers.Akpfs
