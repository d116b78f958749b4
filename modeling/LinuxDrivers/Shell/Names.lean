import LinuxDrivers.Shell.Contents

/-!
# Names in the table

`sfs_create` looks for a free entry and for the name in one loop, which ends at the first free
entry. A file of that name behind a gap is not seen, and the name is stored a second time. Names
stay unique exactly when every name that is created is absent or stands before the first gap.
-/

namespace LinuxDrivers.Shell

open Sfs (FileEntry Info Mounted NamedOnce IsName formatRealSfs)

/-- No two files have the same name. -/
def UniqueNames (s : State) : Prop :=
  ∀ i j : Nat, i < s.sb.entryCount.toNat → j < s.sb.entryCount.toNat →
    (s.info.entry i).live = true → (s.info.entry j).live = true →
    (s.info.entry i).nameString = (s.info.entry j).nameString → i = j

namespace Command

/-- The name fits in an entry. -/
def NameFits : Command → Prop
  | .create fn _ | .remove fn | .chperm _ fn | .read fn | .write fn _ _ => IsName fn

/-- A file of the name that is created does not stand behind the first free entry. -/
def SeesName (s : State) : Command → Prop
  | .create fn _ =>
    match s.info.freeEntry, s.info.find fn with
    | some i, some k => k < i
    | _, _ => True
  | _ => True

instance (cmd : Command) : Decidable cmd.NameFits := by
  rcases cmd with _ | _ | _ | _ | _ <;> dsimp only [NameFits] <;> infer_instance

instance (s : State) (cmd : Command) : Decidable (cmd.SeesName s) := by
  rcases cmd with _ | _ | _ | _ | _ <;> dsimp only [SeesName]
  case create => split <;> infer_instance
  all_goals infer_instance

end Command

/-! ## One step -/

/-- The search ends at the first free entry or before it. -/
theorem freeEntry_of_createStop {info : Info} {fn : CStr} {i : Nat}
    (hstop : createStop info fn = some i) (hdead : (info.entry i).live = false) :
    info.freeEntry = some i := by
  obtain ⟨h1, h2, -, hbefore⟩ := findFrom_eq_some hstop
  refine findFrom_of_first h1 h2 (by simp [hdead]) fun k hk hki => ?_
  have := hbefore k hk hki
  simp only [Bool.or_eq_false_iff] at this
  exact this.1

/-- A name that is seen or absent is created only when it is absent. -/
theorem find_eq_none_of_sees {s : State} {fn : CStr} {now : Int} {i : Nat}
    (hsees : (Command.create fn now).SeesName s) (hstop : createStop s.info fn = some i)
    (hdead : (s.info.entry i).live = false) : s.info.find fn = none := by
  cases hfind : s.info.find fn with
  | none => rfl
  | some k =>
    simp only [Command.SeesName, freeEntry_of_createStop hstop hdead, hfind] at hsees
    obtain ⟨-, -, -, hbefore⟩ := findFrom_eq_some hstop
    obtain ⟨-, hlive, hname⟩ := Info.find_eq_some hfind
    have hk := hbefore k (Nat.zero_le k) hsees
    simp [FileEntry.named, hlive, hname] at hk

/-- **One step.** A command that sees the name it creates keeps the names unique. -/
theorem namedOnce_exec {s : State} (h : NamedOnce s.info) (hv : Volume s.sb) {cmd : Command}
    (hfit : cmd.NameFits) (hfed : cmd.Delivered) (hreach : cmd.InReach s)
    (hsees : cmd.SeesName s) : NamedOnce (cmd.exec s).info := by
  obtain he | ⟨fn, now, i, rfl, hstop, hdead, he⟩ | ⟨fn, i, -, hfind, he⟩ |
    ⟨perm, fn, i, -, hfind, he⟩ | ⟨fn, stdin, now, i, -, hfind, -, he⟩ :=
    Command.exec_effect hv.toLayout hfed hreach <;> rw [he]
  · exact h
  · exact (h.create 0 hfit (find_eq_none_of_sees hsees hstop hdead)
      (freeEntry_of_createStop hstop hdead) 7 now).1
  · have hm : Mounted (released s i) := h.toMounted.setUsed _
    exact (h.remove hm rfl (fun j => entry_released s i j) hfind).1
  · refine (h.of_names (h.toMounted.setEntry _ _) rfl fun j _ => ?_).1
    exact Sfs.name_setEntry h.toPlain (FileEntry.name_updated _ _ _ _) j
  · obtain ⟨info, fe, hwritten, htable, hname, -, -⟩ := written_table hv i stdin now
    have hm : Mounted info := ⟨htable.plain, by rw [htable.sb_eq]; exact h.table_le⟩
    have hi := (Info.find_eq_some hfind).1
    rw [hwritten]
    refine (h.of_names (hm.setEntry _ _) htable.sb_eq fun j hj => ?_).1
    rw [Sfs.name_setEntry hm.toPlain (by rw [hname, htable.entry_eq i hi]), htable.entry_eq j hj]

/-- A name behind the first gap is stored a second time. -/
theorem not_uniqueNames_exec {s : State} (hv : Volume s.sb) {cmd : Command} (hfit : cmd.NameFits)
    (hsees : ¬ cmd.SeesName s) : ¬ UniqueNames (cmd.exec s) := by
  cases cmd with
  | create fn now =>
    obtain ⟨i, k, hfree, hfind, hle⟩ : ∃ i k, s.info.freeEntry = some i ∧
        s.info.find fn = some k ∧ i ≤ k := by
      simp only [Command.SeesName] at hsees
      split at hsees
      · next i k hfree hfind => exact ⟨i, k, hfree, hfind, Nat.not_lt.1 hsees⟩
      · exact absurd trivial hsees
    obtain ⟨hi, hdead⟩ := Info.freeEntry_eq_some hfree
    obtain ⟨hk, hlive, hname⟩ := Info.find_eq_some hfind
    have hne : i ≠ k := by
      rintro rfl
      rw [hdead] at hlive
      cases hlive
    have hstop : createStop s.info fn = some i := by
      obtain ⟨h1, h2, -, hbefore⟩ := findFrom_eq_some hfree
      obtain ⟨-, -, -, hother⟩ := findFrom_eq_some hfind
      refine findFrom_of_first h1 h2 (by simp [hdead]) fun j hj hji => ?_
      rw [hbefore j hj hji, hother j hj (by omega), Bool.or_self]
    have hc := sfsCreate_stop hv.toLayout fn now
    rw [hstop] at hc
    simp only [hdead, Bool.false_eq_true, ↓reduceIte] at hc
    have hexec : (Command.exec s (.create fn now)).info =
        s.info.setEntry i ((s.info.entry i).created fn 7 now) := hc.1
    have hsb : (Command.exec s (.create fn now)).sb = s.sb := congrArg Info.sb hexec
    intro hunique
    have hik := hunique i k (by rw [hsb]; exact hi) (by rw [hsb]; exact hk)
    rw [hexec, hv.mounted.entry_setEntry hi hi, hv.mounted.entry_setEntry hi hk, if_pos rfl,
      if_neg hne] at hik
    exact hne (hik (FileEntry.live_created hfit.1 _ _ _) hlive
      ((FileEntry.nameString_created hfit _ _ _).trans hname.symm))
  | _ => exact absurd trivial hsees

/-! ## Sessions -/

/-- **Names.** On a formatted partition, in a session whose writes take blocks with 32-bit offsets
only, names stay unique exactly when no file of a name that is created stands behind the first free
entry. -/
theorem uniqueNames_run_iff {disk stack : Mem} {size : Nat} {s : State}
    (hstart : start true (formatRealSfs disk size stack) = some s) {cmds : List Command}
    (hfit : ∀ cmd ∈ cmds, cmd.NameFits) (hfed : ∀ cmd ∈ cmds, cmd.Delivered)
    (hreach : Along Command.exec (fun s cmd => cmd.InReach s) s cmds) :
    (∀ pre, pre <+: cmds → UniqueNames (run Command.exec s pre)) ↔
      Along Command.exec (fun s cmd => cmd.SeesName s) s cmds := by
  obtain ⟨-, hv, hzero⟩ := start_volume hstart
  have hempty : NamedOnce s.info := by
    have hdead : ∀ i : Nat, i < s.info.sb.entryCount.toNat → (s.info.entry i).live ≠ true := by
      intro i hi
      rw [hzero i hi]
      simp
    exact ⟨hv.mounted, fun i hi hlive => absurd hlive (hdead i hi),
      fun i _ hi _ hlive => absurd hlive (hdead i hi)⟩
  refine Along.safe_iff (I := fun s : State => Volume s.sb ∧ NamedOnce s.info)
    (fun s hs => show UniqueNames s from hs.2.once) (fun s cmd hs hcmd hsees => ?_)
    (fun s cmd hs hcmd hsees => ?_) ⟨hv, hempty⟩
    ((along_of_forall hfit).and ((along_of_forall hfed).and hreach))
  · obtain ⟨hv, h⟩ := hs
    obtain ⟨hfit, hfed, hreach⟩ := hcmd
    rw [Command.sb_exec hv.toLayout hfed hreach]
    exact ⟨hv, namedOnce_exec h hv hfit hfed hreach hsees⟩
  · exact not_uniqueNames_exec hs.1 hcmd.1 hsees

/-- A gap is filled with a new name, and an old name is refused before it. -/
theorem uniqueNames_run_iff_gap :
    let cmds : List Command := [.create fileA 0, .create fileB 0, .create fileA 0, .remove fileB,
      .create fileA 0, .create fileB 0]
    ∀ pre, pre <+: cmds → UniqueNames (run Command.exec fresh pre) := by
  intro cmds
  have hsees : Along Command.exec (fun s cmd => cmd.SeesName s) fresh cmds := by decide +kernel
  exact (uniqueNames_run_iff start_fresh (by decide) (by decide) (by decide +kernel)).2 hsees

/-- `fileB` stands behind the gap that `fileA` left, and is created again. -/
theorem not_uniqueNames_gap :
    let cmds : List Command := [.create fileA 0, .create fileB 0, .remove fileA, .create fileB 0]
    let s := run Command.exec fresh cmds
    start true (formatRealSfs (fun _ => 0) 5120 (fun _ => 0)) = some fresh ∧
      (∀ cmd ∈ cmds, cmd.NameFits) ∧ (s.info.entry 0).live = true ∧
      (s.info.entry 1).live = true ∧ (s.info.entry 0).nameString = fileB.bytes ∧
      (s.info.entry 1).nameString = fileB.bytes ∧ ¬ UniqueNames s := by
  intro cmds s
  have hfacts : (∀ cmd ∈ cmds, cmd.NameFits) ∧ (s.info.entry 0).live = true ∧
      (s.info.entry 1).live = true ∧ (s.info.entry 0).nameString = fileB.bytes ∧
      (s.info.entry 1).nameString = fileB.bytes ∧ 1 < s.sb.entryCount.toNat := by
    decide +kernel
  obtain ⟨hfit, hlive, hlive', hname, hname', hcount⟩ := hfacts
  refine ⟨start_fresh, hfit, hlive, hlive', hname, hname', fun h => ?_⟩
  exact absurd (h 0 1 (by omega) hcount hlive hlive' (hname.trans hname'.symm)) (by decide)

end LinuxDrivers.Shell
