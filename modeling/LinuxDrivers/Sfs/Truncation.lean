import LinuxDrivers.Sfs.Atomic

/-!
# Truncation

A successful `sfs_update` with a new size keeps the slots below the size in blocks, drops the others
and releases what they held; nothing else changes. So a second update to a smaller size makes the
first one vanish. The device may fail any read: an update that succeeds had its two reads.
-/

namespace LinuxDrivers.Sfs

/-- An update that succeeds is one whose two reads succeed. -/
theorem reads_of_sfsUpdate {info : Info} (h : Sized info) {ino : Int}
    {size timestamp perms : Option Int} (hok : 0 ≤ (sfsUpdate info ino size timestamp perms).1) :
    info.dev.fails info.dev.reads = false ∧ info.dev.fails (info.dev.reads + 1) = false := by
  have hfit := not_crosses h (v2sInodeNum ino)
  by_cases hread : info.Reads (v2sInodeNum ino) 0
  · refine ⟨hread.ok, ?_⟩
    by_contra hfail
    have hfails : info.NextFails 1 := by
      unfold Info.NextFails
      simpa using hfail
    unfold sfsUpdate sfsGetFileEntry at hok
    rw [readEntry_of_reads hread] at hok
    simp only at hok
    rw [truncBlocks_eq (by omega)] at hok
    simp only at hok
    rw [(writeEntry_last hfit 1 _ _).1 hfails] at hok
    exact absurd hok (show ¬ (0 : Int) ≤ - EIO by decide)
  · obtain ⟨e, k, he, hread⟩ := readEntry_of_not_reads hread
    unfold sfsUpdate sfsGetFileEntry at hok
    rw [hread] at hok
    exact absurd hok (by simpa using he)

/-- The size in blocks, rounded up. -/
def sizeBlocks (size : Int) : Nat := ((size + 511) / 512).toNat

theorem firstCut_eq_sizeBlocks {size : Int} (h0 : 0 ≤ size) (h31 : size < 2 ^ 31) :
    firstCut (.ofInt size) = sizeBlocks size := by
  have hcut := firstCut_ofInt h0 h31
  unfold sizeBlocks
  omega

/-- What a successful update with size, time stamp and permissions leaves. -/
def Info.updated (info : Info) (i size timestamp perms : Int) : Info :=
  (info.setUsed (clear info.usedBlocks ((info.entry i).tail (sizeBlocks size)))).setEntry i
    (((info.entry i).updated (some size) (some timestamp) (some perms)).truncated (sizeBlocks size))

theorem sfsUpdate_of_success {info : Info} (h : Sized info) {ino size timestamp perms : Int}
    (h0 : 0 ≤ size) (h31 : size < 2 ^ 31)
    (hok : 0 ≤ (sfsUpdate info ino (some size) (some timestamp) (some perms)).1) :
    (sfsUpdate info ino (some size) (some timestamp) (some perms)).2 =
      (info.ticks 2).updated (v2sInodeNum ino) size timestamp perms := by
  obtain ⟨h1, h2⟩ := reads_of_sfsUpdate h hok
  have hrun := sfsUpdate_of_ok h h1 h2 ino (some size) (some timestamp) (some perms)
  have hcut : firstCut ((info.entry (v2sInodeNum ino)).updated (some size) (some timestamp)
      (some perms)).size = sizeBlocks size := firstCut_eq_sizeBlocks h0 h31
  simp only [hcut] at hrun
  rw [hrun]
  rfl

/-! ## What one update changes -/

/-- Entry `i` has got its size, time stamp and permissions, kept the slots below its size in blocks
and lost the others; what they held is released, and nothing else is changed. -/
structure Truncated (info info' : Info) (i size timestamp perms : Int) : Prop where
  size_eq : ((info'.entry i).size.toNat : Int) = size
  timestamp_eq : (info'.entry i).timestamp = .ofInt timestamp
  perms_eq : ((info'.entry i).perms.toNat : Int) = perms
  name_eq : (info'.entry i).name = (info.entry i).name
  kept : ∀ j < sizeBlocks size, (info'.entry i).block j = (info.entry i).block j
  zeroed : ∀ j, sizeBlocks size ≤ j → (info'.entry i).block j = 0
  released : ∀ j, sizeBlocks size ≤ j → (info.entry i).block j ≠ 0 →
    info'.usedBlocks ((info.entry i).block j).toNat = 0
  used_other : ∀ x, (∀ j, sizeBlocks size ≤ j → (info.entry i).block j ≠ 0 →
    ((info.entry i).block j).toNat ≠ x) → info'.usedBlocks x = info.usedBlocks x
  /-- Only in a table of more than `2 ^ 26` entries, which no formatted volume has, two numbers are
  one entry. -/
  entries : ∀ j, entryAddr info.sb j ≠ entryAddr info.sb i → info'.entry j = info.entry j
  bytes : ∀ x, x < (entryAddr info.sb i).toNat ∨ (entryAddr info.sb i).toNat + 64 ≤ x →
    info'.dev.data x = info.dev.data x
  sb_eq : info'.sb = info.sb

theorem toNat_ofInt_of_lt {x : Int} (h0 : 0 ≤ x) (h1 : x < 4294967296) :
    ((UInt32.ofInt x).toNat : Int) = x := by
  have hx := toNat_ofInt x
  omega

namespace Info

variable {info : Info} {i size timestamp perms : Int}

theorem entry_updated (h : Sized info) : (info.updated i size timestamp perms).entry i =
    ((info.entry i).updated (some size) (some timestamp) (some perms)).truncated
      (sizeBlocks size) := by
  unfold Info.updated
  have hsized : Sized (info.setUsed (clear info.usedBlocks
      ((info.entry i).tail (sizeBlocks size)))) := h.setUsed _
  rw [Info.entry_setEntry hsized, if_pos rfl]

theorem truncated_updated (h : Sized info) (h0 : 0 ≤ size) (h31 : size < 2 ^ 31)
    (hp0 : 0 ≤ perms) (hp7 : perms ≤ 7) :
    Truncated info (info.updated i size timestamp perms) i size timestamp perms := by
  have hentry := @entry_updated info i size timestamp perms h
  refine ⟨?_, ?_, ?_, ?_, fun j hj => ?_, fun j hj => ?_, fun j hj hne => ?_, fun x hx => ?_,
    fun j hj => ?_, fun x hx => ?_, rfl⟩
  · rw [hentry]
    exact toNat_ofInt_of_lt h0 (by omega)
  · rw [hentry]
    rfl
  · rw [hentry]
    simp only [FileEntry.truncated, FileEntry.updated, Option.elim_some, if_pos hp7]
    exact toNat_ofInt_of_lt hp0 (by omega)
  · rw [hentry]
    rfl
  · rw [hentry, FileEntry.block_truncated, if_pos hj, FileEntry.block_updated]
  · rw [hentry, FileEntry.block_truncated, if_neg (by omega)]
  · have hj9 : j < 9 := by
      by_contra hge
      exact hne (FileEntry.block_of_le (by omega))
    have hmem : (info.entry i).block j ∈ (info.entry i).tail (sizeBlocks size) :=
      FileEntry.mem_tail.2 ⟨hne, j, hj, hj9, rfl⟩
    exact if_pos (List.mem_map_of_mem hmem)
  · refine if_neg fun hmem => ?_
    obtain ⟨b, hb, hbx⟩ := List.mem_map.1 hmem
    obtain ⟨hne, j, hj, -, rfl⟩ := FileEntry.mem_tail.1 hb
    exact hx j hj hne hbx
  · have hsized : Sized (info.setUsed (clear info.usedBlocks
        ((info.entry i).tail (sizeBlocks size)))) := h.setUsed _
    unfold Info.updated
    rw [Info.entry_setEntry hsized, Info.sb_setUsed, if_neg (Ne.symm hj), Info.entry_setUsed]
  · exact Mem.store_of_not_mem hx

/-- No block that stays in a slot of the table is released. -/
theorem usedBlocks_updated (ho : OwnsBlocks info) {n : Nat} (hn : n < info.sb.entryCount.toNat)
    {j k : Nat} (hj : j < info.sb.entryCount.toNat) (hstays : j ≠ n ∨ k < sizeBlocks size)
    (hne : (info.entry j).block k ≠ 0) :
    (info.updated n size timestamp perms).usedBlocks ((info.entry j).block k).toNat = 1 := by
  have hused := ho.used j k hj hne
  have hout : ((info.entry j).block k).toNat ∉
      ((info.entry n).tail (sizeBlocks size)).map UInt32.toNat := by
    intro hmem
    obtain ⟨b, hb, hbk⟩ := List.mem_map.1 hmem
    obtain ⟨-, l, hl, -, rfl⟩ := FileEntry.mem_tail.1 hb
    obtain ⟨hjn, hkl⟩ := ho.once j k n l hj hn hne (UInt32.toNat_inj.1 hbk.symm)
    omega
  exact (if_neg hout).trans hused

theorem setEntry_setUsed_setEntry (info : Info) (i : Int) (fe fe' : FileEntry)
    (used : Nat → UInt8) : ((info.setEntry i fe).setUsed used).setEntry i fe' =
      (info.setUsed used).setEntry i fe' := by
  unfold setEntry setUsed
  simp only [Mem.store_store]

end Info

/-! ## Two updates -/

section Twice

variable (fe : FileEntry) {c₁ c₂ : Nat} (hc : c₂ ≤ c₁)

include hc

/-- Of two cuts of an entry only the deeper one is seen. -/
theorem updated_twice (s₁ s₂ timestamp perms : Int) :
    ((((fe.updated (some s₁) (some timestamp) (some perms)).truncated c₁).updated (some s₂)
      (some timestamp) (some perms)).truncated c₂) =
      (fe.updated (some s₂) (some timestamp) (some perms)).truncated c₂ := by
  have hperms : (((fe.updated (some s₁) (some timestamp) (some perms)).truncated c₁).updated
      (some s₂) (some timestamp) (some perms)).perms =
      (fe.updated (some s₂) (some timestamp) (some perms)).perms := by
    simp only [FileEntry.updated, FileEntry.truncated, Option.elim_some]
    split <;> rfl
  have hblocks : ∀ j : Fin 9, (if j.val < c₂ then
      (((fe.updated (some s₁) (some timestamp) (some perms)).truncated c₁).updated (some s₂)
        (some timestamp) (some perms)).block j else 0) =
      if j.val < c₂ then (fe.updated (some s₂) (some timestamp) (some perms)).block j else 0 := by
    intro j
    by_cases hj : j.val < c₂
    · rw [if_pos hj, if_pos hj, FileEntry.block_updated, FileEntry.block_truncated,
        if_pos (by omega), FileEntry.block_updated, FileEntry.block_updated]
    · rw [if_neg hj, if_neg hj]
  unfold FileEntry.truncated at hperms hblocks ⊢
  simp only [hperms, hblocks]
  rfl

/-- What two cuts release is what the deeper one releases. -/
theorem clear_twice (used : Nat → UInt8) :
    clear (clear used (fe.tail c₁)) ((fe.truncated c₁).tail c₂) = clear used (fe.tail c₂) := by
  have hmem : ∀ b, b ∈ fe.tail c₂ ↔ b ∈ fe.tail c₁ ∨ b ∈ (fe.truncated c₁).tail c₂ := by
    intro b
    simp only [FileEntry.mem_tail, FileEntry.block_truncated]
    constructor
    · rintro ⟨hb, j, hj, hj9, rfl⟩
      by_cases hlt : j < c₁
      · exact .inr ⟨hb, j, hj, hj9, if_pos hlt⟩
      · exact .inl ⟨hb, j, by omega, hj9, rfl⟩
    · rintro (⟨hb, j, hj, hj9, rfl⟩ | ⟨hb, j, hj, hj9, hblock⟩)
      · exact ⟨hb, j, by omega, hj9, rfl⟩
      · split at hblock
        · exact ⟨hb, j, hj, hj9, hblock⟩
        · exact absurd hblock.symm hb
  funext x
  unfold clear
  by_cases hx : x ∈ (fe.tail c₂).map UInt32.toNat
  · rw [if_pos hx]
    obtain ⟨b, hb, rfl⟩ := List.mem_map.1 hx
    rcases (hmem b).1 hb with h1 | h2
    · rw [if_pos (List.mem_map_of_mem h1), ite_self]
    · rw [if_pos (List.mem_map_of_mem h2)]
  · rw [if_neg hx, if_neg, if_neg]
    · intro h1
      obtain ⟨b, hb, rfl⟩ := List.mem_map.1 h1
      exact hx (List.mem_map_of_mem ((hmem b).2 (.inl hb)))
    · intro h2
      obtain ⟨b, hb, rfl⟩ := List.mem_map.1 h2
      exact hx (List.mem_map_of_mem ((hmem b).2 (.inr hb)))

end Twice

/-- A second update to a size that is not larger makes the first one vanish. -/
theorem Info.updated_updated {info : Info} (h : Sized info) (i : Int) {s₁ s₂ : Int}
    (hle : s₂ ≤ s₁) (timestamp perms : Int) :
    (info.updated i s₁ timestamp perms).updated i s₂ timestamp perms =
      info.updated i s₂ timestamp perms := by
  have hc : sizeBlocks s₂ ≤ sizeBlocks s₁ := by
    unfold sizeBlocks
    omega
  have hentry := @entry_updated info i s₁ timestamp perms h
  have htail : (((info.entry i).updated (some s₁) (some timestamp) (some perms)).truncated
      (sizeBlocks s₁)).tail (sizeBlocks s₂) =
      ((info.entry i).truncated (sizeBlocks s₁)).tail (sizeBlocks s₂) := rfl
  have hused : (info.updated i s₁ timestamp perms).usedBlocks =
      clear info.usedBlocks ((info.entry i).tail (sizeBlocks s₁)) := rfl
  rw [Info.updated, hentry, updated_twice _ hc, htail, hused, clear_twice _ hc, Info.updated,
    setEntry_setUsed_setEntry]
  rfl

/-- **Truncation.** A successful update changes the entry and releases the blocks behind the new
size as it should and changes nothing else, no block that stays in the table is released, and of two
updates to sizes that do not grow only the second one is seen. -/
theorem sfsUpdate_truncates {info : Info} (h : Sized info) (ho : OwnsBlocks info) {ino : Int}
    (hino : InTable info.sb ino) {size timestamp perms : Int} (h0 : 0 ≤ size) (h31 : size < 2 ^ 31)
    (hp0 : 0 ≤ perms) (hp7 : perms ≤ 7)
    (hok : 0 ≤ (sfsUpdate info ino (some size) (some timestamp) (some perms)).1) :
    let info' := (sfsUpdate info ino (some size) (some timestamp) (some perms)).2
    Truncated info info' (v2sInodeNum ino) size timestamp perms ∧
      (info.sb.entryCount.toNat ≤ 2 ^ 26 → ∀ j : Nat, j < info.sb.entryCount.toNat →
        (j : Int) ≠ v2sInodeNum ino → info'.entry j = info.entry j) ∧
      (∀ j k : Nat, j < info.sb.entryCount.toNat →
        (j : Int) ≠ v2sInodeNum ino ∨ k < sizeBlocks size → (info.entry j).block k ≠ 0 →
        info'.usedBlocks ((info.entry j).block k).toNat = 1) ∧
      ∀ s₂, 0 ≤ s₂ → s₂ ≤ size →
        0 ≤ (sfsUpdate info' ino (some s₂) (some timestamp) (some perms)).1 →
        0 ≤ (sfsUpdate info ino (some s₂) (some timestamp) (some perms)).1 →
        SameState (sfsUpdate info' ino (some s₂) (some timestamp) (some perms)).2
          (sfsUpdate info ino (some s₂) (some timestamp) (some perms)).2 := by
  intro info'
  have hinfo' : info' = (info.ticks 2).updated (v2sInodeNum ino) size timestamp perms :=
    sfsUpdate_of_success h h0 h31 hok
  have hsized : Sized (info.ticks 2) := h.ticks 2
  have htrunc : Truncated info info' (v2sInodeNum ino) size timestamp perms := by
    rw [hinfo']
    have ht := @Info.truncated_updated (info.ticks 2) (v2sInodeNum ino) size timestamp perms hsized
      h0 h31 hp0 hp7
    exact ⟨ht.size_eq, ht.timestamp_eq, ht.perms_eq, ht.name_eq, ht.kept, ht.zeroed, ht.released,
      ht.used_other, ht.entries, ht.bytes, ht.sb_eq⟩
  obtain ⟨n, hn, hidx⟩ := hino.index
  refine ⟨htrunc, fun hle j hj hne => ?_, fun j k hj hstays hne => ?_,
    fun s₂ hs0 hs hok₁ hok₂ => ?_⟩
  · refine htrunc.entries j fun haddr => hne ?_
    rw [hidx] at haddr ⊢
    exact entryAddr_inj h.sbBlockSize hle ⟨by omega, by omega⟩ ⟨by omega, by omega⟩ haddr
  · rw [hinfo', hidx]
    rw [hidx] at hstays
    have howns : OwnsBlocks (info.ticks 2) := ⟨ho.range, ho.used, ho.once⟩
    have hn' : n < (info.ticks 2).sb.entryCount.toNat := hn
    exact Info.usedBlocks_updated howns hn' hj (by omega) hne
  · have hsized' : Sized info' := by
      rw [hinfo']
      exact (hsized.setUsed _).setEntry _ _
    rw [sfsUpdate_of_success hsized' hs0 (by omega) hok₁,
      sfsUpdate_of_success h hs0 (by omega) hok₂]
    have htwice := Info.updated_updated hsized (v2sInodeNum ino) hs timestamp perms
    rw [hinfo']
    have hticks : (((info.ticks 2).updated (v2sInodeNum ino) size timestamp perms).ticks 2).updated
        (v2sInodeNum ino) s₂ timestamp perms =
        (((info.ticks 2).updated (v2sInodeNum ino) size timestamp perms).updated
          (v2sInodeNum ino) s₂ timestamp perms).ticks 2 := rfl
    rw [hticks, htwice]
    exact ⟨rfl, rfl, rfl⟩

/-- The file of one block, cut to nothing: its block is free. -/
theorem sfsUpdate_truncates_smallFile :
    let info' := (sfsUpdate smallFile 2 (some 0) (some 5) (some 4)).2
    Truncated smallFile info' 0 0 5 4 ∧ (smallFile.entry 0).block 0 = 2 ∧
      info'.usedBlocks 2 = 0 := by
  have hsized : Sized smallFile := by
    have h : smallFile.dev.blocksize = 512 ∧ smallFile.bdBlockSize = 512 ∧
        smallFile.sb.blockSize = 512 := by decide +kernel
    exact ⟨h.1, h.2.1, h.2.2⟩
  have hino : InTable smallFile.sb 2 := by decide +kernel
  have hok : 0 ≤ (sfsUpdate smallFile 2 (some 0) (some 5) (some 4)).1 := by decide +kernel
  have htrunc := (sfsUpdate_truncates hsized smallFile_ownsBlocks hino (by decide) (by decide)
    (by decide) (by decide) hok).1
  have hblock : (smallFile.entry 0).block 0 = 2 := by decide +kernel
  have hne : (smallFile.entry 0).block 0 ≠ 0 := by
    rw [hblock]
    decide
  have hfree := htrunc.released 0 (by decide) hne
  have htwo : ((smallFile.entry (v2sInodeNum 2)).block 0).toNat = 2 := congrArg UInt32.toNat hblock
  rw [htwo] at hfree
  exact ⟨htrunc, hblock, hfree⟩

end LinuxDrivers.Sfs
