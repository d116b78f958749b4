import LinuxDrivers.Shell.Contents

/-!
# Block numbers in the table

`sfs_write` checks the result of `get_data_block` before it stores a full block, but for the partial
block at the end it stores the result first. When the volume is full at that point, `-1` stays in
the entry. Unless a write meets this case, all block numbers of files lie in the data area, however
the files were created, rewritten and removed.
-/

namespace LinuxDrivers.Shell

open Sfs (SuperBlock FileEntry Info Mounted formatRealSfs toNat_ne_zero)

/-- The block number lies in the data area. -/
def InArea (sb : SuperBlock) (b : UInt32) : Prop :=
  sb.dataBlockStart.toNat ≤ b.toNat ∧ b.toNat < sb.partitionSize.toNat

/-- Every block number of a file lies in the data area. -/
def ValidBlocks (info : Info) : Prop :=
  ∀ i : Nat, i < info.sb.entryCount.toNat → (info.entry i).live = true →
    ∀ j, (info.entry i).block j ≠ 0 → InArea info.sb ((info.entry i).block j)

/-- The blocks that `init_browsing` marks and `sfs_remove` frees are indexes of `used_blocks`. -/
def IndexesInBounds (info : Info) : Prop :=
  ∀ i : Nat, i < info.sb.entryCount.toNat → (info.entry i).live = true →
    ∀ b ∈ (info.entry i).chain, b.toNat < info.sb.partitionSize.toNat

/-- No block number of a file leads out of the volume. -/
structure SoundNumbers (s : State) : Prop where
  valid : ValidBlocks s.info
  indexes : IndexesInBounds s.info

theorem ValidBlocks.soundNumbers {s : State} (h : ValidBlocks s.info) : SoundNumbers s := by
  refine ⟨h, fun i hi hlive b hb => ?_⟩
  obtain ⟨hne, j, -, rfl⟩ := FileEntry.mem_chain hb
  exact (h i hi hlive j hne).2

/-- A write that takes place does not find the volume full at the partial block of its input. -/
def Command.FindsRoom (s : State) : Command → Prop
  | .write fn stdin _ => Writable s fn →
      ¬ (stdin.flatten.length % 512 ≠ 0 ∧ stdin.flatten.length / 512 < 9 ∧
        freeAfterRelease s fn = stdin.flatten.length / 512)
  | _ => True

instance (s : State) (cmd : Command) : Decidable (cmd.FindsRoom s) := by
  rcases cmd with _ | _ | _ | _ | _ <;> dsimp only [Command.FindsRoom] <;> infer_instance

/-! ## One step -/

/-- One entry is rewritten. -/
theorem ValidBlocks.setEntry {info info' : Info} (h : ValidBlocks info)
    (hsame : SameTable info info') (hm : Mounted info) {i : Nat}
    (hi : i < info.sb.entryCount.toNat) {fe : FileEntry}
    (hfe : fe.live = true → ∀ j, fe.block j ≠ 0 → InArea info.sb (fe.block j)) :
    ValidBlocks (info'.setEntry i fe) := by
  have hsb := hsame.sb_eq
  have hm' : Mounted info' := ⟨hsame.plain, by rw [hsb]; exact hm.table_le⟩
  intro k hk hlive j hj
  rw [Info.sb_setEntry, hsb] at hk
  rw [hm'.entry_setEntry (by rw [hsb]; exact hi) (by rw [hsb]; exact hk)] at hlive hj ⊢
  rw [Info.sb_setEntry, hsb]
  by_cases hik : i = k
  · rw [if_pos hik] at hlive hj ⊢
    exact hfe hlive j hj
  · rw [if_neg hik, hsame.entry_eq k hk] at hlive hj ⊢
    exact h k hk hlive j hj

/-- **One step.** A command that finds room keeps all block numbers in the data area. -/
theorem ValidBlocks.exec {s : State} (h : ValidBlocks s.info) (hv : Volume s.sb) {cmd : Command}
    (hfed : cmd.Delivered) (hreach : cmd.InReach s) (hroom : cmd.FindsRoom s) :
    ValidBlocks (cmd.exec s).info := by
  have hm := hv.mounted
  have hsame := SameTable.refl hm.toPlain
  obtain he | ⟨fn, now, i, -, hstop, -, he⟩ | ⟨fn, i, -, hfind, he⟩ |
    ⟨perm, fn, i, -, hfind, he⟩ | ⟨fn, stdin, now, i, rfl, hfind, hw, he⟩ :=
    Command.exec_effect hv.toLayout hfed hreach <;> rw [he]
  · exact h
  · have hi : i < s.info.sb.entryCount.toNat := by
      have := (findFrom_eq_some hstop).2.1
      omega
    refine h.setEntry hsame hm hi fun _ j hj => ?_
    exact absurd (FileEntry.block_created _ _ _ _ j) hj
  · refine h.setEntry (.released hv i) hm (Info.find_eq_some hfind).1 fun _ j hj => ?_
    exact absurd (FileEntry.block_zero j) hj
  · obtain ⟨hi, hlive, -⟩ := Info.find_eq_some hfind
    refine h.setEntry hsame hm hi fun _ j hj => ?_
    rw [FileEntry.block_updated] at hj ⊢
    exact h i hi hlive j hj
  · obtain ⟨hi, hlive, -⟩ := Info.find_eq_some hfind
    obtain ⟨info, fe, hwritten, htable, -, -, hfill⟩ := written_table hv i stdin now
    have hnew := hfill (mt (overflows_iff hv.toLayout hfind).1 (hroom hw))
    rw [hwritten]
    refine h.setEntry htable hm hi fun _ j hj => ?_
    rcases hnew.block j with hold | hin
    · rw [hold] at hj ⊢
      exact h i hi hlive j hj
    · exact hin

/-- A write that finds the volume full at its partial block leaves `-1` in the entry. -/
theorem not_validBlocks_exec {s : State} (hv : Volume s.sb) {cmd : Command}
    (hfed : cmd.Delivered) (hreach : cmd.InReach s) (hroom : ¬ cmd.FindsRoom s) :
    ¬ ValidBlocks (cmd.exec s).info := by
  cases cmd with
  | write fn stdin now =>
    obtain ⟨hw, hover⟩ := Classical.not_imp.1 hroom
    obtain ⟨i, hfind, hperm⟩ := (writable_iff hv.toLayout).1 hw
    obtain ⟨hi, hlive, -⟩ := Info.find_eq_some hfind
    obtain ⟨info, fe, hwritten, htable, hname, hminus, -⟩ := written_table hv i stdin now
    have hblock := hminus ((overflows_iff hv.toLayout hfind).2 (not_not.1 hover))
    have hexec : (Command.exec s (.write fn stdin now)).info = info.setEntry i fe :=
      (sfsWrite_written hv.toLayout hfind hperm (hreach.addressable hv.toLayout hfind hperm) hfed
        now).trans hwritten
    have hsb := htable.sb_eq
    have hi' : i < info.sb.entryCount.toNat := by rw [hsb]; exact hi
    have hm : Mounted info := ⟨htable.plain, by rw [hsb]; exact hv.mounted.table_le⟩
    have hentry : (info.setEntry i fe).entry i = fe := by rw [hm.entry_setEntry hi' hi', if_pos rfl]
    intro hvalid
    rw [hexec] at hvalid
    have harea := hvalid i hi'
    rw [hentry] at harea
    have hfe : fe.live = true := by
      rw [← hlive]
      simp only [FileEntry.live, hname]
    -- the stored number is above every partition size
    have hlt := (harea hfe (stdin.flatten.length / 512) (by rw [hblock]; decide)).2
    have htop : (UInt32.ofInt (-1)).toNat = 4294967295 := by decide
    have hps : info.sb.partitionSize.toNat < 4294967296 := info.sb.partitionSize.toNat_lt
    rw [hblock, htop, Info.sb_setEntry] at hlt
    omega
  | _ => exact absurd trivial hroom

/-! ## Sessions -/

/-- **Block numbers.** On a formatted partition, in a session whose writes take blocks with 32-bit
offsets only, all block numbers of files stay in the data area exactly when no write finds the
volume full at the partial block of its input. -/
theorem soundNumbers_run_iff {disk stack : Mem} {size : Nat} {s : State}
    (hstart : start true (formatRealSfs disk size stack) = some s) {cmds : List Command}
    (hfed : ∀ cmd ∈ cmds, cmd.Delivered)
    (hreach : Along Command.exec (fun s cmd => cmd.InReach s) s cmds) :
    (∀ pre, pre <+: cmds → SoundNumbers (run Command.exec s pre)) ↔
      Along Command.exec (fun s cmd => cmd.FindsRoom s) s cmds := by
  obtain ⟨-, hv, hzero⟩ := start_volume hstart
  have hempty : ValidBlocks s.info := by
    intro i hi hlive
    rw [hzero i hi] at hlive
    cases hlive
  refine Along.safe_iff (I := fun s : State => Volume s.sb ∧ ValidBlocks s.info)
    (fun _ hs => hs.2.soundNumbers) (fun s cmd hs hcmd hroom => ?_)
    (fun s cmd hs hcmd hroom hsound => ?_) ⟨hv, hempty⟩ ((along_of_forall hfed).and hreach)
  · obtain ⟨hv, h⟩ := hs
    obtain ⟨hfed, hreach⟩ := hcmd
    rw [Command.sb_exec hv.toLayout hfed hreach]
    exact ⟨hv, h.exec hv hfed hreach hroom⟩
  · exact not_validBlocks_exec hs.1 hcmd.1 hcmd.2 hroom hsound.valid

/-- A file that is rewritten, removed and created again. -/
theorem soundNumbers_run_iff_rewrite :
    let cmds : List Command := [.create fileA 0, .write fileA [[1]] 0, .write fileA [] 0,
      .remove fileA, .create fileA 0]
    ∀ pre, pre <+: cmds → SoundNumbers (run Command.exec fresh pre) := by
  intro cmds
  have hroom : Along Command.exec (fun s cmd => cmd.FindsRoom s) fresh cmds := by decide +kernel
  exact (soundNumbers_run_iff start_fresh (by decide) (by decide +kernel)).2 hroom

/-- `fileA` fills the partition, and the one byte of `fileB` leaves `-1` behind. -/
theorem not_soundNumbers_full :
    let cmds : List Command := [.create fileA 0, .create fileB 0,
      .write fileA [List.replicate 4096 1] 0, .write fileB [[2]] 0]
    let s := run Command.exec fresh cmds
    start true (formatRealSfs (fun _ => 0) 5120 (fun _ => 0)) = some fresh ∧
      (∀ cmd ∈ cmds, cmd.Delivered) ∧ (s.info.entry 1).live = true ∧
      (s.info.entry 1).block 0 = 0xFFFFFFFF ∧ ¬ SoundNumbers s := by
  intro cmds s
  have hfacts : (∀ cmd ∈ cmds, cmd.Delivered) ∧ (s.info.entry 1).live = true ∧
      (s.info.entry 1).block 0 = 0xFFFFFFFF ∧ 1 < s.info.sb.entryCount.toNat ∧
      s.info.sb.partitionSize.toNat = 10 := by
    decide +kernel
  obtain ⟨hfed, hlive, hblock, hcount, hsize⟩ := hfacts
  refine ⟨start_fresh, hfed, hlive, hblock, fun h => ?_⟩
  have hne : (s.info.entry 1).block 0 ≠ 0 := by
    rw [hblock]
    decide
  have hlt : ((s.info.entry 1).block 0).toNat < _ := (h.valid 1 hcount hlive 0 hne).2
  rw [hblock, hsize] at hlt
  exact absurd hlt (by decide)

end LinuxDrivers.Shell
