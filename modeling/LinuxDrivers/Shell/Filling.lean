import LinuxDrivers.Lib.Ownership
import LinuxDrivers.Sfs.Isolation
import LinuxDrivers.Shell.WriteSpec

/-!
# Filling a file

While `sfs_write` stores its input, the entry on disk is the old one and the new block numbers are
in memory. `Stored` describes that state for any table: the filled blocks are marked data blocks and
contain the input. `Filling` adds what holds when all blocks are owned soundly: so they stay, and no
block that was in use has been written to. What each stored block preserves holds of all input
(`storeInput_rule`).
-/

namespace LinuxDrivers.Shell

open Sfs (SuperBlock FileEntry Info Plain TableFits toNat_ne_zero)

/-- The number of free data blocks. -/
def freeCount (info : Info) : Nat :=
  countFrom (info.usedBlocks · == 0)
    (info.sb.partitionSize.toNat - info.sb.dataBlockStart.toNat) info.sb.dataBlockStart.toNat

/-- Block `j` of the bytes of a file. -/
def chunk (d : List UInt8) (j : Nat) : List UInt8 := (d.drop (512 * j)).take 512

theorem length_chunk (d : List UInt8) (j : Nat) :
    (chunk d j).length = min 512 (d.length - 512 * j) := by
  unfold chunk
  rw [List.length_take, List.length_drop]

/-- Taking the first free block leaves one less. -/
theorem freeCount_fillBlock {info : Info} {b : Nat} (hfree : info.freeBlock = some b)
    (bytes : List UInt8) : freeCount (fillBlock info b bytes) + 1 = freeCount info :=
  countFrom_fillBlock hfree bytes

theorem freeCount_of_none {info : Info} (hfree : info.freeBlock = none) : freeCount info = 0 :=
  countFrom_of_none hfree

/-- Storing in the data area leaves the table alone. -/
theorem entry_fillBlock {info : Info} (h : Plain info) (hfits : TableFits info.sb) {b : Nat}
    (hb : info.sb.dataBlockStart.toNat ≤ b) (bytes : List UInt8) {j : Nat}
    (hj : j < info.sb.entryCount.toNat) : (fillBlock info b bytes).entry j = info.entry j := by
  have hend := hfits.entryAddr_le h.sbBlockSize hj
  apply FileEntry.ofMem_congr
  intro k hk
  exact Mem.store_of_not_mem (by
    change (Sfs.entryAddr info.sb j).toNat + k < b * 512 ∨ _
    omega)

/-! ## The rule for all input -/

section Rule

variable {P : Nat → FileEntry → Info → Prop} {d : List UInt8}
  (hfill : ∀ {n fe info b}, P n fe info → n < 9 → info.freeBlock = some b →
    P (n + 1) (fe.setBlock n (.ofInt b)) (fillBlock info b (chunk d n)))

include hfill

/-- **All full blocks.** Either all of them are stored, or the slots or the free blocks ran out. -/
theorem storeBlocks_rule {q n : Nat} {fe : FileEntry} {info : Info} (h : P n fe info) (h9 : n ≤ 9) :
    ∃ eof n' fe' info', storeBlocks q n (d.drop (512 * n)) fe info = (eof, n', fe', info') ∧
      P n' fe' info' ∧ n' ≤ 9 ∧ freeCount info' + n' = freeCount info + n ∧
      (eof = true → n' = n + q) ∧
      (eof = false → n' < n + q ∧ (n' = 9 ∨ freeCount info' = 0)) := by
  induction q generalizing n fe info with
  | zero => exact ⟨true, n, fe, info, rfl, h, h9, rfl, fun _ => rfl, fun he => by cases he⟩
  | succ q ih =>
    unfold Shell.storeBlocks
    by_cases hend : n = 9
    · rw [if_pos hend]
      exact ⟨false, n, fe, info, rfl, h, h9, rfl, (fun he => by cases he),
        fun _ => ⟨by omega, .inl hend⟩⟩
    · rw [if_neg hend]
      cases hfree : info.freeBlock with
      | none =>
        exact ⟨false, n, fe, info, rfl, h, h9, rfl, (fun he => by cases he),
          fun _ => ⟨by omega, .inr (freeCount_of_none hfree)⟩⟩
      | some b =>
        have hn : n < 9 := by omega
        obtain ⟨eof, n', fe', info', hrun, hP, hn', hcount, htrue, hfalse⟩ :=
          ih (hfill h hn hfree) hn
        have hdrop : (d.drop (512 * n)).drop 512 = d.drop (512 * (n + 1)) := by
          rw [List.drop_drop]
          congr 1
        have hless := freeCount_fillBlock hfree (chunk d n)
        refine ⟨eof, n', fe', info', ?_, hP, hn', by omega, fun he => ?_, fun he => ?_⟩
        · simp only [hdrop]
          exact hrun
        · have := htrue he
          omega
        · obtain ⟨h1, h2⟩ := hfalse he
          exact ⟨by omega, h2⟩

/-- **All input.** Unless a partial block finds no free block, either all of the input is stored and
counted, or the slots or the free blocks ran out before. -/
theorem storeInput_rule {fe : FileEntry} {base : Info} (h : P 0 fe base)
    (htail : ¬ (d.length % 512 ≠ 0 ∧ d.length / 512 < 9 ∧ freeCount base = d.length / 512)) :
    ∃ n, P n (storeInput d fe base).2.1 (storeInput d fe base).2.2 ∧
      (n = (d.length + 511) / 512 ∧ (storeInput d fe base).1 = d.length ∨
        n < (d.length + 511) / 512 ∧ (n = 9 ∨ n = freeCount base) ∧
          (storeInput d fe base).1 = 512 * n) := by
  obtain ⟨eof, n, fe', info', hrun, hP, hn9, hcount, htrue, hfalse⟩ :=
    @storeBlocks_rule P d hfill (d.length / 512) 0 fe base h (Nat.zero_le 9)
  rw [Nat.mul_zero, List.drop_zero] at hrun
  unfold Shell.storeInput
  rw [hrun]
  simp only
  cases eof with
  | false =>
    obtain ⟨h1, h2⟩ := hfalse rfl
    refine ⟨n, hP, .inr ⟨by omega, ?_, rfl⟩⟩
    rcases h2 with h2 | h2
    · exact .inl h2
    · exact .inr (by omega)
  | true =>
    have hn := htrue rfl
    rw [Nat.zero_add] at hn
    by_cases hrest : d.length % 512 = 0
    · rw [if_neg (by simp [hrest])]
      exact ⟨n, hP, .inl ⟨by omega, by simp only; omega⟩⟩
    · rw [if_pos (by simp [hrest])]
      unfold storeTail
      by_cases h9 : n = 9
      · rw [if_pos h9]
        exact ⟨n, hP, .inr ⟨by omega, .inl h9, rfl⟩⟩
      · rw [if_neg h9]
        cases hfree : info'.freeBlock with
        | none =>
          have := freeCount_of_none hfree
          exact absurd ⟨hrest, by omega, by omega⟩ htail
        | some b =>
          have hchunk : d.drop (d.length / 512 * 512) = chunk d n := by
            unfold chunk
            rw [hn, Nat.mul_comm, List.take_of_length_le]
            rw [List.length_drop]
            omega
          have hlen := length_chunk d n
          simp only [hchunk]
          exact ⟨n + 1, hfill hP (by omega) hfree, .inl ⟨by omega, by omega⟩⟩

end Rule

/-! ## Any table -/

/-- `n` blocks of `d` have been stored in blocks that were free in `base`, and their numbers are in
the first slots of `fe`, which was `fe₀`. -/
structure Stored (base : Info) (fe₀ : FileEntry) (d : List UInt8) (n : Nat) (fe : FileEntry)
    (info : Info) : Prop where
  plain : Plain info
  sb_eq : info.sb = base.sb
  entry_eq : ∀ j : Nat, j < base.sb.entryCount.toNat → info.entry j = base.entry j
  name_eq : fe.name = fe₀.name
  perms_eq : fe.perms = fe₀.perms
  in_range : ∀ j < n, base.sb.dataBlockStart.toNat ≤ (fe.block j).toNat ∧
    (fe.block j).toNat < base.sb.partitionSize.toNat
  marked : ∀ j < n, info.usedBlocks (fe.block j).toNat = 1
  written : ∀ j < n, info.dev.data.load ((fe.block j).toNat * 512) (chunk d j).length = chunk d j

/-- **One step.** The next block of the input goes to the first free block. -/
theorem Stored.fill {base info : Info} {fe₀ : FileEntry} {d : List UInt8} {n : Nat}
    {fe : FileEntry} (h : Stored base fe₀ d n fe info) (hfits : TableFits base.sb) (hn : n < 9)
    {b : Nat} (hfree : info.freeBlock = some b) :
    Stored base fe₀ d (n + 1) (fe.setBlock n (.ofInt b)) (fillBlock info b (chunk d n)) := by
  obtain ⟨hb1, hb2, hb0⟩ := Info.freeBlock_eq_some hfree
  rw [h.sb_eq] at hb1 hb2
  have hbn := Info.toNat_freeBlock hfree
  have hblock : ∀ j, (fe.setBlock n (.ofInt b)).block j =
      if n = j then .ofInt b else fe.block j := by
    intro j
    simp [hn]
  have hlen : (chunk d n).length ≤ 512 := by
    rw [length_chunk]
    omega
  -- the new block is not marked, the filled ones are
  have hother : ∀ j < n, (fe.block j).toNat ≠ b := by
    intro j hj he
    have hm := h.marked j hj
    rw [he, hb0] at hm
    cases hm
  refine ⟨⟨h.plain.reliable, h.plain.blocksize, h.plain.bdBlockSize, h.plain.sbBlockSize⟩, h.sb_eq,
    fun j hj => ?_, h.name_eq, h.perms_eq, fun j hj => ?_, fun j hj => ?_, fun j hj => ?_⟩
  · rw [entry_fillBlock h.plain (by rw [h.sb_eq]; exact hfits) (by rw [h.sb_eq]; exact hb1) _
      (by rw [h.sb_eq]; exact hj)]
    exact h.entry_eq j hj
  · rw [hblock]
    split
    · rw [hbn]
      exact ⟨hb1, hb2⟩
    · exact h.in_range j (by omega)
  · change Function.update info.usedBlocks b 1 _ = 1
    rw [hblock]
    split
    · rw [hbn, Function.update_self]
    · rw [Function.update_of_ne (hother j (by omega))]
      exact h.marked j (by omega)
  · rw [hblock]
    split
    · next he =>
      subst he
      rw [hbn]
      exact Mem.load_store_ofList _ _ _
    · next hne =>
      have hj' : j < n := by omega
      rw [← h.written j hj', Mem.length_load]
      have hjl : (chunk d j).length ≤ 512 := by
        rw [length_chunk]
        omega
      apply Mem.load_congr
      intro k hk
      have := hother j hj'
      exact Mem.store_of_not_mem (by omega)

/-- All of the input is stored when there is room for it. -/
theorem Stored.storeInput {base : Info} {fe : FileEntry} {d : List UInt8} (hplain : Plain base)
    (hfits : TableFits base.sb) (h9 : d.length ≤ 9 * 512)
    (hroom : (d.length + 511) / 512 ≤ freeCount base) :
    (storeInput d fe base).1 = d.length ∧
      Stored base fe d ((d.length + 511) / 512) (storeInput d fe base).2.1
        (storeInput d fe base).2.2 := by
  have hstart : Stored base fe d 0 fe base :=
    ⟨hplain, rfl, fun _ _ => rfl, rfl, rfl, fun _ hj => absurd hj (Nat.not_lt_zero _),
      fun _ hj => absurd hj (Nat.not_lt_zero _), fun _ hj => absurd hj (Nat.not_lt_zero _)⟩
  obtain ⟨n, hstored, ⟨rfl, hsize⟩ | ⟨hlt, hend⟩⟩ :=
    @storeInput_rule (Stored base fe d) d (fun h hn hfree => h.fill hfits hn hfree) fe base hstart
      (by omega)
  · exact ⟨hsize, hstored⟩
  · omega

/-! ## Tables in order -/

/-- The first `n` slots of `fe`, and the slots of all entries but `i`. -/
def slotsWith (base : Info) (i n : Nat) (fe : FileEntry) (p : Nat × Nat) : Nat :=
  if p.1 = i then if p.2 < n then (fe.block p.2).toNat else 0 else base.slot p

/-- `n` blocks of `d` have been stored for entry `i` of `base`, whose old blocks are released. -/
structure Filling (base : Info) (i : Nat) (d : List UInt8) (n : Nat) (fe : FileEntry)
    (info : Info) : Prop where
  plain : Plain info
  sb_eq : info.sb = base.sb
  entry_eq : ∀ j : Nat, j < base.sb.entryCount.toNat → info.entry j = base.entry j
  sound : Ownership.Sound
    (fun b => base.sb.dataBlockStart.toNat ≤ b ∧ b < base.sb.partitionSize.toNat)
    (fun b => info.usedBlocks b = 1) (slotsWith base i n fe)
  le_nine : n ≤ 9
  filled : ∀ j < n, fe.block j ≠ 0
  old_slots : ∀ j, n ≤ j → fe.block j = (base.entry i).block j
  name_eq : fe.name = (base.entry i).name
  written : ∀ j < n, info.dev.data.load ((fe.block j).toNat * 512) (chunk d j).length = chunk d j
  untouched : ∀ b k, base.usedBlocks b = 1 → k < 512 →
    info.dev.data (b * 512 + k) = base.dev.data (b * 512 + k)
  still_used : ∀ b, base.usedBlocks b = 1 → info.usedBlocks b = 1
  count : freeCount info + n = freeCount base

/-- One more slot of entry `i`. -/
theorem slotsWith_setBlock (base : Info) (i : Nat) (fe : FileEntry) {n b : Nat} (hn : n < 9)
    (hb : (UInt32.ofInt b).toNat = b) (p : Nat × Nat) :
    slotsWith base i (n + 1) (fe.setBlock n (.ofInt b)) p =
      if p = (i, n) then b else slotsWith base i n fe p := by
  obtain ⟨i', j⟩ := p
  unfold slotsWith
  by_cases hi : i' = i
  · subst hi
    simp only [↓reduceIte, FileEntry.block_setBlock, hn, and_true, Prod.mk.injEq, true_and]
    by_cases hj : n = j
    · subst hj
      simp [hb]
    · have hlt : j < n + 1 ↔ j < n := by omega
      simp only [hj, Ne.symm hj, ↓reduceIte, hlt]
  · simp [hi]

/-- Blocks that are owned soundly are marked data blocks. -/
theorem Filling.stored {base info : Info} {i n : Nat} {d : List UInt8} {fe : FileEntry}
    (h : Filling base i d n fe info) (perms : UInt32) :
    Stored base { base.entry i with perms } d n { fe with perms } info := by
  have hs : ∀ j < n, slotsWith base i n fe (i, j) = (fe.block j).toNat := by
    intro j hj
    simp [slotsWith, hj]
  have hne : ∀ j < n, slotsWith base i n fe (i, j) ≠ 0 := by
    intro j hj
    rw [hs j hj]
    exact toNat_ne_zero.2 (h.filled j hj)
  refine ⟨h.plain, h.sb_eq, h.entry_eq, h.name_eq, rfl, fun j hj => ?_, fun j hj => ?_, h.written⟩
  · have hregion := h.sound.in_region (i, j) (hne j hj)
    rw [hs j hj] at hregion
    exact hregion
  · have hmarked := h.sound.marked (i, j) (hne j hj)
    rw [hs j hj] at hmarked
    exact hmarked

/-- The next block keeps the table in order. -/
theorem Filling.fill {base info : Info} {i n : Nat} {d : List UInt8} {fe : FileEntry}
    (h : Filling base i d n fe info) (hfits : TableFits base.sb)
    (hpos : 0 < base.sb.dataBlockStart.toNat) (hn : n < 9) {b : Nat}
    (hfree : info.freeBlock = some b) :
    Filling base i d (n + 1) (fe.setBlock n (.ofInt b)) (fillBlock info b (chunk d n)) := by
  obtain ⟨hb1, hb2, hb0⟩ := Info.freeBlock_eq_some hfree
  rw [h.sb_eq] at hb1 hb2
  have hbn := Info.toNat_freeBlock hfree
  have hblock : ∀ j, (fe.setBlock n (.ofInt b)).block j =
      if n = j then .ofInt b else fe.block j := by
    intro j
    simp [hn]
  have hused : ∀ c, (fillBlock info b (chunk d n)).usedBlocks c =
      Function.update info.usedBlocks b 1 c := fun _ => rfl
  have hslot := slotsWith_setBlock base i fe hn hbn
  have hlen : (chunk d n).length ≤ 512 := by rw [length_chunk]; omega
  have hstored := (h.stored 0).fill hfits hn hfree
  refine ⟨hstored.plain, h.sb_eq, hstored.entry_eq, ?_, hn, fun j hj => ?_, fun j hj => ?_,
    h.name_eq, hstored.written, fun c k hc hk => ?_, fun c hc => ?_, ?_⟩
  · refine h.sound.assign (p := (i, n)) (b := b) ⟨hb1, hb2⟩ (by simp [hb0]) (by simp [hslot])
      (fun p hp => by rw [hslot, if_neg hp]) ?_
    rintro c (hc | rfl)
    · rw [hused]
      by_cases e : c = b
      · simp [e]
      · simpa [e] using hc
    · rw [hused]
      simp
  · rw [hblock]
    split
    · rw [← toNat_ne_zero]
      omega
    · exact h.filled j (by omega)
  · rw [hblock, if_neg (by omega)]
    exact h.old_slots j (by omega)
  · rw [← h.untouched c k hc hk]
    have hcb : c ≠ b := by
      rintro rfl
      rw [h.still_used c hc] at hb0
      cases hb0
    exact Mem.store_of_not_mem (by omega)
  · rw [hused]
    by_cases e : c = b
    · simp [e]
    · simpa [e] using h.still_used c hc
  · have := freeCount_fillBlock hfree (chunk d n)
    have := h.count
    omega

theorem Filling.storeInput {base : Info} {i : Nat} {d : List UInt8} {fe : FileEntry}
    (h : Filling base i d 0 fe base) (hfits : TableFits base.sb)
    (hpos : 0 < base.sb.dataBlockStart.toNat)
    (htail : ¬ (d.length % 512 ≠ 0 ∧ d.length / 512 < 9 ∧ freeCount base = d.length / 512)) :
    ∃ n, Filling base i d n (storeInput d fe base).2.1 (storeInput d fe base).2.2 ∧
      (n = (d.length + 511) / 512 ∧ (storeInput d fe base).1 = d.length ∨
        n < (d.length + 511) / 512 ∧ (n = 9 ∨ n = freeCount base) ∧
          (storeInput d fe base).1 = 512 * n) :=
  @storeInput_rule (Filling base i d) d (fun h hn hfree => h.fill hfits hpos hn hfree) fe base h
    htail

end LinuxDrivers.Shell
