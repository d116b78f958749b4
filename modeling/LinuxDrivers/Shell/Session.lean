import Mathlib.Data.List.Nodup
import LinuxDrivers.Shell.Agreement
import LinuxDrivers.Shell.Commands

/-!
# Sessions of the shell

`sfs_write` frees the blocks of the file and overwrites its slots from the first on, but leaves the
slots behind the new blocks as they are. A file that is rewritten with fewer blocks keeps the number
of a freed block, and freeing it again later takes the block from another file. As long as no write
leaves such a slot behind, every command keeps the table in order.
-/

namespace LinuxDrivers.Shell

open Sfs (SuperBlock FileEntry Info Plain Mounted NamedOnce TableFits SoundTable IsName clear
  clear_released toNat_ne_zero)

/-! ## Sessions -/

/-- A write takes place and all of its data fits. -/
def Fitted (s : State) (fn : CStr) (stdin : Stdin) : Prop :=
  Writable s fn ∧ stdin.flatten.length ≤ 9 * 512 ∧
    (stdin.flatten.length + 511) / 512 ≤ freeAfterRelease s fn

instance (s : State) (fn : CStr) (stdin : Stdin) : Decidable (Fitted s fn stdin) :=
  inferInstanceAs (Decidable (_ ∧ _))

namespace Command

/-- Names fit, a file is created only when it does not exist, permissions are a digit, and every
read of the input before its end gives something. -/
def Valid (s : State) : Command → Prop
  | .create fn _ => IsName fn ∧ (sfsLookup s fn .zero).1.1 = -1
  | .remove fn => IsName fn
  | .chperm perm fn => IsName fn ∧ 0 ≤ perm ∧ perm ≤ 7
  | .read fn => IsName fn
  | .write fn stdin _ => IsName fn ∧ ∀ c ∈ stdin, c ≠ []

/-- A write does not leave the number of a freed block in the entry: the slot behind the new blocks
is empty, and a partial block at the end of the input does not meet a full volume. -/
def Clean (s : State) : Command → Prop
  | .write fn stdin _ => Writable s fn →
      (sfsLookup s fn .zero).1.2.block ((stdin.flatten.length + 511) / 512) = 0 ∧
      ¬ (stdin.flatten.length % 512 ≠ 0 ∧ stdin.flatten.length / 512 < 9 ∧
        freeAfterRelease s fn = stdin.flatten.length / 512)
  | _ => True

/-- The command removes the file or writes to it. -/
def Concerns (fn : CStr) (s : State) : Command → Prop
  | .remove fn' => fn' = fn
  | .write fn' _ _ => fn' = fn ∧ Writable s fn'
  | _ => False

instance (s : State) (cmd : Command) : Decidable (cmd.Valid s) := by
  rcases cmd with _ | _ | _ | _ | _ <;> dsimp only [Valid] <;> infer_instance

instance (s : State) (cmd : Command) : Decidable (cmd.Clean s) := by
  rcases cmd with _ | _ | _ | _ | _ <;> dsimp only [Clean] <;> infer_instance

instance (fn : CStr) (s : State) (cmd : Command) : Decidable (cmd.Concerns fn s) := by
  rcases cmd with _ | _ | _ | _ | _ <;> dsimp only [Concerns] <;> infer_instance

end Command

/-! ## What one command does -/

/-- The fields of the super block that a session relies on. -/
structure SmallVolume (sb : SuperBlock) : Prop extends Layout sb where
  partition_lt : sb.partitionSize.toNat < 2 ^ 23
  fits : TableFits sb

theorem Command.Valid.delivered {s : State} {cmd : Command} (hv : cmd.Valid s) :
    cmd.Delivered := by
  cases cmd with
  | write fn stdin now => exact hv.2
  | _ => trivial

/-- Everything a valid command can do to the volume. -/
theorem Command.exec_cases {s : State} (h : SmallVolume s.sb) {cmd : Command} (hv : cmd.Valid s) :
    (cmd.exec s).info = s.info ∨
    (∃ fn now i, cmd = .create fn now ∧ IsName fn ∧ s.info.find fn = none ∧
      s.info.freeEntry = some i ∧
      (cmd.exec s).info = s.info.setEntry i ((s.info.entry i).created fn 7 now)) ∨
    (∃ fn i, cmd = .remove fn ∧ s.info.find fn = some i ∧
      (cmd.exec s).info = (released s i).setEntry i .zero) ∨
    (∃ perm fn i, cmd = .chperm perm fn ∧ s.info.find fn = some i ∧ (cmd.exec s).info =
      s.info.setEntry i ((s.info.entry i).updated none none (some perm))) ∨
    (∃ fn stdin now i, cmd = .write fn stdin now ∧ s.info.find fn = some i ∧
      Writable s fn ∧ (∀ c ∈ stdin, c ≠ []) ∧ (cmd.exec s).info = written s i stdin now) := by
  obtain he | ⟨fn, now, i, rfl, hstop, hdead, he⟩ | hremove | hchperm |
    ⟨fn, stdin, now, i, rfl, hfind, hw, he⟩ :=
    Command.exec_effect h.toLayout hv.delivered (.of_small (Nat.le_of_lt h.partition_lt) cmd)
  · exact .inl he
  · obtain ⟨hfn, hlook⟩ := hv
    have hnone := (lookup_none h.toLayout).1 hlook
    rw [createStop_eq hnone] at hstop
    exact .inr (.inl ⟨fn, now, i, rfl, hfn, hnone, hstop, he⟩)
  · exact .inr (.inr (.inl hremove))
  · exact .inr (.inr (.inr (.inl hchperm)))
  · exact .inr (.inr (.inr (.inr ⟨fn, stdin, now, i, rfl, hfind, hw, hv.2, he⟩)))

/-! ## The table in a clean session -/

/-- Names are unique, blocks are owned soundly, and files have no gaps. -/
structure GoodTable (info : Info) : Prop extends NamedOnce info where
  sound : SoundTable info
  contiguous : ∀ i j k, k ≤ j → info.slot (i, j) ≠ 0 → info.slot (i, k) ≠ 0

/-- An empty table is in order. -/
theorem GoodTable.empty {info : Info} (hm : Mounted info)
    (hzero : ∀ i : Nat, i < info.sb.entryCount.toNat → info.entry i = .zero) : GoodTable info := by
  have hlive : ∀ i : Nat, i < info.sb.entryCount.toNat → (info.entry i).live ≠ true := by
    intro i hi
    rw [hzero i hi]
    simp
  have hslot : ∀ p, info.slot p = 0 := by
    intro p
    by_contra hne
    obtain ⟨hi, hb⟩ := Info.slot_ne_zero hne
    rw [hzero _ hi, FileEntry.block_zero] at hb
    exact hb rfl
  exact ⟨⟨hm, fun i hi hl => absurd hl (hlive i hi), fun i _ hi _ hl => absurd hl (hlive i hi)⟩,
    Ownership.Sound.empty hslot, fun i j _ _ hne => absurd (hslot (i, j)) hne⟩

theorem GoodTable.block_lt {s : State} (h : GoodTable s.info) (hv : SmallVolume s.sb) (i j : Nat)
    (hi : i < s.sb.entryCount.toNat) : ((s.info.entry i).block j).toNat < 2 ^ 23 := by
  by_cases hb : (s.info.entry i).block j = 0
  · rw [hb]
    decide
  · have hs : s.info.slot (i, j) = ((s.info.entry i).block j).toNat := Info.slot_of_lt hi j
    have hlt := (h.sound.in_region (i, j) (by rw [hs]; exact toNat_ne_zero.2 hb)).2
    have hps : s.info.sb.partitionSize.toNat < 2 ^ 23 := hv.partition_lt
    omega

/-- An entry is rewritten with all of its blocks or with none, and at most those are released. -/
theorem GoodTable.rewrite {info : Info} (h : GoodTable info) {i : Nat}
    (hi : i < info.sb.entryCount.toNat) {used' : Nat → UInt8} {fe : FileEntry}
    (hnames : NamedOnce ((info.setUsed used').setEntry i fe))
    (hblocks : (∀ j, fe.block j = (info.entry i).block j) ∨ ∀ j, fe.block j = 0)
    (hused : ∀ b, info.usedBlocks b = 1 → used' b = 1 ∨
      ∃ j, ((info.entry i).block j).toNat = b ∧ fe.block j = 0) :
    GoodTable ((info.setUsed used').setEntry i fe) := by
  have hslot := (h.toMounted.setUsed used').slot_setEntry hi fe
  simp only [Info.slot_setUsed] at hslot
  refine ⟨hnames, h.sound.drop (fun p => ?_) (fun b hb => ?_), fun i' j k hkj hne => ?_⟩
  · rw [hslot]
    split
    · next hp =>
      rcases hblocks with hb | hb
      · rw [hb]
        subst hp
        exact .inl (Info.slot_of_lt hi _).symm
      · rw [hb]
        exact .inr rfl
    · exact .inl rfl
  · rcases hused b hb with hu | ⟨j, hj, hz⟩
    · exact .inl hu
    · refine .inr ⟨(i, j), ?_, ?_⟩
      · rw [Info.slot_of_lt hi, hj]
      · rw [hslot]
        simp [hz]
  · rw [hslot] at hne ⊢
    split
    · next hp =>
      simp only at hp
      subst hp
      simp only [↓reduceIte] at hne
      rcases hblocks with hb | hb
      · rw [hb] at hne ⊢
        have := h.contiguous i j k hkj
        rw [Info.slot_of_lt hi, Info.slot_of_lt hi] at this
        exact this hne
      · rw [hb] at hne
        exact absurd rfl hne
    · next hp =>
      rw [if_neg hp] at hne
      exact h.contiguous i' j k hkj hne

/-! ## Writes -/

section Write

variable {s : State} {i : Nat}

/-- All blocks of a file without gaps are in its chain. -/
theorem GoodTable.mem_chain {info : Info} (h : GoodTable info) {i j : Nat}
    (hi : i < info.sb.entryCount.toNat) (hj : (info.entry i).block j ≠ 0) :
    (info.entry i).block j ∈ (info.entry i).chain := by
  have hblock : ∀ {k : Nat} {b : UInt32}, (info.entry i).blocks.toList[k]? = some b →
      (info.entry i).block k = b := by
    intro k b hb
    simp only [FileEntry.block, Vector.getD, Vector.getElem?_toList] at hb ⊢
    simp [hb]
  have hj9 : j < 9 := by
    by_contra hge
    exact hj (FileEntry.block_of_le (by omega))
  refine mem_takeWhile_iff.2 ⟨j, ?_, fun k hk b hb => ?_⟩
  · simp [FileEntry.block, Vector.getD, hj9]
  · have hne := h.contiguous i j k hk
    rw [Info.slot_of_lt hi, Info.slot_of_lt hi, toNat_ne_zero, toNat_ne_zero] at hne
    rw [← hblock hb]
    simpa using hne hj

theorem GoodTable.filling (h : GoodTable s.info) (hi : i < s.sb.entryCount.toNat)
    (d : List UInt8) : Filling (released s i) i d 0 (s.info.entry i) (released s i) where
  plain := h.toPlain.setUsed _
  sb_eq := rfl
  entry_eq _ _ := rfl
  sound := by
    refine h.sound.drop (fun p => ?_) (fun b hb => ?_)
    · unfold slotsWith
      by_cases hp : p.1 = i
      · simp [hp]
      · simp [hp]
    · rw [usedBlocks_released]
      rcases @clear_released _ (s.info.entry i).chain _ hb with hc | ⟨c, hc, rfl⟩
      · exact .inl hc
      · obtain ⟨-, j, -, rfl⟩ := FileEntry.mem_chain hc
        exact .inr ⟨(i, j), Info.slot_of_lt hi j, by simp [slotsWith]⟩
  le_nine := Nat.zero_le 9
  filled _ hj := absurd hj (Nat.not_lt_zero _)
  old_slots _ _ := by rw [entry_released]
  name_eq := by rw [entry_released]
  written _ hj := absurd hj (Nat.not_lt_zero _)
  untouched _ _ _ _ := rfl
  still_used _ hb := hb
  count := rfl

/-- Releasing a file gives at least as many free blocks as it has. -/
theorem GoodTable.lt_freeCount (h : GoodTable s.info) (hi : i < s.sb.entryCount.toNat) {j : Nat}
    (hj : (s.info.entry i).block j ≠ 0) : j < freeCount (released s i) := by
  have hne : ∀ k ≤ j, s.info.slot (i, k) ≠ 0 := fun k hk =>
    h.contiguous i j k hk (by rw [Info.slot_of_lt hi]; exact toNat_ne_zero.2 hj)
  have hlen : ((List.range (j + 1)).map fun k => s.info.slot (i, k)).length = j + 1 := by simp
  rw [← Nat.succ_le_iff, Nat.succ_eq_add_one, ← hlen]
  apply length_le_countFrom
  · refine List.Nodup.map_on (fun k hk l _ he => ?_) List.nodup_range
    have hk' := hne k (Nat.lt_succ_iff.1 (List.mem_range.1 hk))
    exact congrArg Prod.snd (h.sound.inj _ _ hk' he)
  · intro b hb
    obtain ⟨k, hk, rfl⟩ := List.mem_map.1 hb
    have hk' := hne k (Nat.lt_succ_iff.1 (List.mem_range.1 hk))
    obtain ⟨h1, h2⟩ := h.sound.in_region _ hk'
    have hmem := h.mem_chain hi (toNat_ne_zero.1 (by rwa [Info.slot_of_lt hi] at hk'))
    refine ⟨h1, ?_, ?_⟩
    · change _ < s.info.sb.dataBlockStart.toNat + _
      simp only [sb_released, State.sb_info] at h1 h2 ⊢
      omega
    · have hclear : clear s.usedBlocks (s.info.entry i).chain (s.info.slot (i, k)) = 0 := by
        rw [Info.slot_of_lt hi]
        exact if_pos (List.mem_map.2 ⟨_, hmem, rfl⟩)
      simp [hclear]

/-- In a clean write no slot behind the new blocks holds an old one. -/
theorem GoodTable.slots_behind (h : GoodTable s.info) (hi : i < s.sb.entryCount.toNat) {m n : Nat}
    (hslot : (s.info.entry i).block m = 0)
    (hend : n = m ∨ n = 9 ∨ n = freeCount (released s i)) :
    ∀ j, n ≤ j → (s.info.entry i).block j = 0 := by
  intro j hj
  by_contra hne
  rcases hend with rfl | rfl | rfl
  · have := h.contiguous i j n hj
    rw [Info.slot_of_lt hi, Info.slot_of_lt hi, toNat_ne_zero, toNat_ne_zero] at this
    exact this hne hslot
  · exact hne (FileEntry.block_of_le hj)
  · have := h.lt_freeCount hi hne
    omega

/-- Once the entry is written back, its slots are the filled ones. -/
theorem Filling.slot_setEntry {base info : Info} {d : List UInt8} {n : Nat} {fe fe' : FileEntry}
    (h : Filling base i d n fe info) (hle : base.sb.entryCount.toNat ≤ 2 ^ 26)
    (hi : i < base.sb.entryCount.toNat) (hbehind : ∀ j, n ≤ j → (base.entry i).block j = 0)
    (hfe : ∀ j, fe'.block j = fe.block j) (p : Nat × Nat) :
    (info.setEntry i fe').slot p = slotsWith base i n fe p := by
  have hm : Mounted info := ⟨h.plain, by rw [h.sb_eq]; exact hle⟩
  rw [hm.slot_setEntry (by rw [h.sb_eq]; exact hi)]
  unfold slotsWith
  by_cases hp : p.1 = i
  · rw [if_pos hp.symm, if_pos hp, hfe]
    split
    · rfl
    · next hlt =>
      rw [h.old_slots _ (by omega), hbehind _ (by omega)]
      rfl
  · rw [if_neg (Ne.symm hp), if_neg hp]
    unfold Info.slot
    rw [h.sb_eq]
    split
    · next hlt => rw [h.entry_eq _ hlt]
    · rfl

/-- A write fills free blocks and then rewrites the entry. -/
theorem GoodTable.written_cases (h : GoodTable s.info) (hv : SmallVolume s.sb)
    (hi : i < s.sb.entryCount.toNat) {stdin : Stdin}
    (htail : ¬ (stdin.flatten.length % 512 ≠ 0 ∧ stdin.flatten.length / 512 < 9 ∧
      freeCount (released s i) = stdin.flatten.length / 512)) (now : Int) :
    ∃ n m fe info, written s i stdin now =
        info.setEntry i { fe with size := .ofNat m, timestamp := .ofInt now } ∧
      Filling (released s i) i stdin.flatten n fe info ∧
      (n = (stdin.flatten.length + 511) / 512 ∧ m = stdin.flatten.length ∨
        n < (stdin.flatten.length + 511) / 512 ∧ (n = 9 ∨ n = freeCount (released s i)) ∧
          m = 512 * n) := by
  obtain ⟨n, hfill, hend⟩ := (h.filling hi stdin.flatten).storeInput hv.fits
    (hv.fits.dataBlockStart_pos hi) htail
  exact ⟨n, _, _, _, rfl, hfill, hend⟩

/-- A clean write keeps the table in order. -/
theorem GoodTable.written (h : GoodTable s.info) (hv : SmallVolume s.sb)
    (hi : i < s.sb.entryCount.toNat) {stdin : Stdin}
    (hslot : (s.info.entry i).block ((stdin.flatten.length + 511) / 512) = 0)
    (htail : ¬ (stdin.flatten.length % 512 ≠ 0 ∧ stdin.flatten.length / 512 < 9 ∧
      freeCount (released s i) = stdin.flatten.length / 512)) (now : Int) :
    GoodTable (written s i stdin now) := by
  obtain ⟨n, m, fe, info, hwritten, hfill, hend⟩ := h.written_cases hv hi htail now
  have hbehind := h.slots_behind hi hslot (n := n) (by omega)
  rw [← entry_released s i] at hbehind
  have hslots : ∀ p,
      (info.setEntry i { fe with size := .ofNat m, timestamp := .ofInt now }).slot p =
        slotsWith (released s i) i n fe p := hfill.slot_setEntry h.table_le hi hbehind fun _ => rfl
  have hm : Mounted info := ⟨hfill.plain, by rw [hfill.sb_eq]; exact h.table_le⟩
  rw [hwritten]
  refine ⟨?_, ?_, fun i' j k hkj hne => ?_⟩
  · -- the entry keeps its name, and the other entries are not touched
    refine (h.toNamedOnce.of_names (hm.setEntry _ _) hfill.sb_eq fun j hj => ?_).1
    rw [hm.entry_setEntry (by rw [hfill.sb_eq]; exact hi) (by rw [hfill.sb_eq]; exact hj)]
    split
    · next hij =>
      subst hij
      rw [← entry_released s i]
      exact hfill.name_eq
    · rw [hfill.entry_eq j hj, entry_released]
  · unfold SoundTable
    rw [Info.sb_setEntry, hfill.sb_eq, funext hslots]
    exact hfill.sound
  · rw [hslots] at hne ⊢
    unfold slotsWith at hne ⊢
    by_cases hi' : i' = i
    · simp only [hi', ↓reduceIte] at hne ⊢
      have hj : j < n := by
        by_contra hge
        exact hne (if_neg hge)
      rw [if_pos (by omega)]
      exact toNat_ne_zero.2 (hfill.filled k (by omega))
    · simp only [hi', ↓reduceIte, slot_released] at hne ⊢
      exact h.contiguous i' j k hkj hne

end Write

/-- No command changes the super block. -/
theorem Command.exec_sb {s : State} (hv : SmallVolume s.sb) {cmd : Command}
    (hvalid : cmd.Valid s) : (cmd.exec s).sb = s.sb :=
  sb_exec hv.toLayout hvalid.delivered (.of_small (Nat.le_of_lt hv.partition_lt) cmd)

/-- **One step.** Every valid and clean command keeps the table in order. -/
theorem GoodTable.exec {s : State} (h : GoodTable s.info) (hv : SmallVolume s.sb) {cmd : Command}
    (hvalid : cmd.Valid s) (hclean : cmd.Clean s) : GoodTable (cmd.exec s).info := by
  obtain he | ⟨fn, now, i, rfl, hfn, hnone, hfree, he⟩ | ⟨fn, i, rfl, hfind, he⟩ |
    ⟨perm, fn, i, rfl, hfind, he⟩ | ⟨fn, stdin, now, i, rfl, hfind, hw, -, he⟩ :=
    Command.exec_cases hv hvalid <;> rw [he]
  · exact h
  · have hi := (Info.freeEntry_eq_some hfree).1
    exact h.rewrite hi (h.toNamedOnce.create 0 hfn hnone hfree 7 now).1
      (.inr fun j => FileEntry.block_created _ _ _ _ j) fun b hb => .inl hb
  · have hi := (Info.find_eq_some hfind).1
    have hm := h.toMounted.setUsed (clear s.usedBlocks (s.info.entry i).chain)
    refine h.rewrite hi (h.toNamedOnce.remove hm rfl (fun j => s.info.entry_setUsed _ j) hfind).1
      (.inr FileEntry.block_zero) fun b hb => ?_
    rcases clear_released hb with hc | ⟨c, hc, rfl⟩
    · exact .inl hc
    · obtain ⟨-, j, -, rfl⟩ := FileEntry.mem_chain hc
      exact .inr ⟨j, rfl, FileEntry.block_zero j⟩
  · have hi := (Info.find_eq_some hfind).1
    refine h.rewrite hi (h.toNamedOnce.of_names (h.toMounted.setEntry _ _) rfl fun j _ => ?_).1
      (.inl fun j => FileEntry.block_updated _ _ _ _ j) fun b hb => .inl hb
    exact Sfs.name_setEntry h.toPlain (FileEntry.name_updated _ _ _ _) j
  · have hi := (Info.find_eq_some hfind).1
    obtain ⟨hslot, htail⟩ := hclean hw
    rw [lookup_some hv.toLayout hfind] at hslot
    rw [freeAfterRelease_eq hv.toLayout hfind] at htail
    exact h.written hv hi hslot htail now

end LinuxDrivers.Shell
