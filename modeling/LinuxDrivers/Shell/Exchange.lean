import LinuxDrivers.Shell.StoreCommands

/-!
# Driver and shell in turn

A partition is mounted and unmounted, and the shell is started on it in between. What one of them
leaves the other finds: all sessions together are one run of a store of files, which between two
sessions forgets what was not written back. Unmounting writes nothing itself: what VFS writes back
before it is among the calls.
-/

namespace LinuxDrivers.Shell

open Sfs (SuperBlock Info Fs SoundFiles FileStore VfsCall VfsReply serve remount Blocks512
  formatRealSfs formatSb)

/-! ## Sessions -/

/-- The partition is mounted for some calls, or the shell is started on it for some commands. -/
inductive Session where
  | driver (calls : List VfsCall)
  | shell (cmds : List Command)

/-- What a session answers. -/
inductive Answers where
  | replies (rs : List VfsReply)
  | prints (texts : List (List UInt8))
  | refused
deriving DecidableEq

/-- What a command prints, and the shell after it. -/
def Command.step (s : State) (cmd : Command) : List UInt8 × State :=
  ((cmd.exec s).out.drop s.out.length, cmd.exec s)

/-- A command on the store. -/
def Command.Next (st : FileStore) (cmd : Command) (text : List UInt8) (st' : FileStore) : Prop :=
  (text, st') = cmd.onStore st

/-- The partition as the driver meets it. -/
def partition (image : Mem) : Fs :=
  ⟨⟨⟨image, 512, fun _ => false, 0⟩, 512, .ofMem fun _ => 0, fun _ => 0⟩, fun _ => 0⟩

namespace Session

/-- A session on an image: its answers, and the image that it leaves. -/
def exec (image : Mem) : Session → Answers × Mem
  | driver calls =>
    match remount (partition image) with
    | (r, fs) =>
      if r < 0 then (.refused, fs.info.dev.data)
      else match runWith serve fs calls with
        | (rs, fs) => (.replies rs, fs.info.dev.data)
  | shell cmds =>
    match start true image with
    | none => (.refused, image)
    | some s =>
      match runWith Command.step s cmds with
      | (texts, s) => (.prints texts, s.fd.data)

/-- A session on the store. Unmounting loses what was not written back. -/
def Next (st : FileStore) : Session → Answers → FileStore → Prop
  | driver calls, answers, st' => ∃ rs st₁, answers = .replies rs ∧
      RunsTo FileStore.Next st calls rs st₁ ∧ st' = st₁.reopened
  | shell cmds, answers, st' => ∃ texts, answers = .prints texts ∧
      RunsTo Command.Next st cmds texts st'

/-- Every call and every command is allowed where it is made. -/
def Allowed (image : Mem) : Session → Prop
  | driver calls => Along (fun fs c => (serve fs c).2) (fun fs c => fs.store.Allowed c)
      (remount (partition image)).2 calls
  | shell cmds => ∀ s ∈ start true image,
      Along Command.exec (fun s cmd => cmd.Allowed s.store) s cmds

instance (image : Mem) (x : Session) : Decidable (x.Allowed image) := by
  rcases x with _ | _ <;> dsimp only [Allowed] <;> infer_instance

end Session

section Mounting

variable {sb : SuperBlock} {s s' : State} {image : Mem} {st : FileStore}

theorem SoundShell.congr (h : SoundShell sb s) (hinfo : s'.info = s.info) :
    SoundShell sb s' ∧ s'.store = s.store := by
  refine ⟨⟨h.small, ?_⟩, ?_⟩
  · rw [hinfo]
    exact h.files
  · unfold State.store
    rw [hinfo]

/-- A shell that is started on the image of another one finds what that one works on. -/
theorem SoundShell.start (h : SoundShell sb s) (hf : SharedFormat sb) :
    ∃ s', start true s.fd.data = some s' ∧ s'.info = s.info := by
  obtain ⟨k, hk⟩ := h.table.toExactVolume.initBrowsing s.info.sb s.info.usedBlocks
  obtain ⟨-, hmount⟩ := mount_agree hf h.table.toPlain.blocks512 h.table.onDisk
  obtain ⟨info, s', hinit, hstart, -, -, hagree⟩ := hmount h.table.type_eq
  obtain rfl : s.info.ticks k = info := (Prod.mk.inj (hk.symm.trans hinit)).2
  refine ⟨s', hstart, ?_⟩
  obtain ⟨hsb, hdata, hused⟩ := hagree
  unfold State.info
  rw [← hsb, ← hdata, ← hused]
  rfl

/-- The driver finds it, too. -/
theorem SoundShell.mount (h : SoundShell sb s) : ∃ fs, remount (partition s.fd.data) = (0, fs) ∧
    SoundFiles sb fs ∧ fs.store = s.store := by
  obtain ⟨k, hk⟩ := h.table.toExactVolume.fillSuper (.ofMem fun _ => 0) fun _ => 0
  have hmount : remount (partition s.fd.data) = (0, (s.info.ticks k).reopened) := by
    unfold remount
    have hinfo : (partition s.fd.data).info =
      { s.info with sb := .ofMem fun _ => 0, usedBlocks := fun _ => 0 } := rfl
    rw [hinfo, hk]
  exact ⟨_, hmount, h.files.ticks k, rfl⟩

/-- An image holds a store when a shell that is started on it works on that store. -/
structure Stores (sb : SuperBlock) (image : Mem) (st : FileStore) : Prop where
  format : SharedFormat sb
  shell : ∃ s, start true image = some s ∧ s.fd.data = image ∧ SoundShell sb s ∧ s.store = st

theorem SoundShell.stores (h : SoundShell sb s) (hf : SharedFormat sb) :
    Stores sb s.fd.data s.store := by
  obtain ⟨s', hstart, hinfo⟩ := h.start hf
  obtain ⟨h', hstore⟩ := h.congr hinfo
  exact ⟨hf, s', hstart, congrArg (·.dev.data) hinfo, h', hstore⟩

/-- What the driver leaves when it is unmounted. -/
theorem Stores.of_files {fs : Fs} (hf : SharedFormat sb) (hsmall : SmallVolume sb)
    (h : SoundFiles sb fs) : Stores sb fs.info.dev.data fs.store.reopened := by
  let s : State := ⟨⟨fs.info.dev.data, 0⟩, fs.info.sb, fs.info.usedBlocks, fun _ => 0, []⟩
  have hagree : Agree fs.info s := ⟨rfl, rfl, rfl⟩
  obtain ⟨hsound, hstore⟩ := hagree.reopened h
  rw [← hstore]
  exact SoundShell.stores ⟨hsmall, hsound⟩ hf

/-- Every run of allowed commands is one of the store. -/
theorem SoundShell.runs (h : SoundShell sb s) {cmds : List Command}
    (hcmds : Along Command.exec (fun s cmd => cmd.Allowed s.store) s cmds) :
    SoundShell sb (runWith Command.step s cmds).2 ∧
      RunsTo Command.Next s.store cmds (runWith Command.step s cmds).1
        (runWith Command.step s cmds).2.store := by
  have hstep : ∀ s st cmd, SoundShell sb s ∧ s.store = st → Command.Allowed s.store cmd →
      ∃ st', Command.Next st cmd (cmd.step s).1 st' ∧
        SoundShell sb (cmd.step s).2 ∧ (cmd.step s).2.store = st' := by
    rintro s _ cmd ⟨hs, rfl⟩ hcmd
    obtain ⟨hfiles, hout, hstore⟩ := hs.performs hcmd
    refine ⟨_, ?_, ⟨hs.small, hfiles⟩, rfl⟩
    simp only [Command.Next, Command.step, hout, hstore, List.drop_left]
  obtain ⟨st, hrun, hs, rfl⟩ := runWith_refines hstep ⟨h, rfl⟩ hcmds
  exact ⟨hs, hrun⟩

/-- **One session.** -/
theorem Stores.exec (h : Stores sb image st) {x : Session} (hx : x.Allowed image) :
    ∃ st', x.Next st (x.exec image).1 st' ∧ Stores sb (x.exec image).2 st' := by
  obtain ⟨hf, s, hstart, rfl, hs, rfl⟩ := h
  cases x with
  | driver calls =>
    obtain ⟨fs, hmount, hfiles, hstore⟩ := hs.mount
    simp only [Session.Allowed, hmount] at hx
    obtain ⟨hend, hrun⟩ := hfiles.runs hx
    rw [hstore] at hrun
    simp only [Session.exec, Session.Next, hmount, Int.lt_irrefl, ↓reduceIte]
    exact ⟨_, ⟨_, _, rfl, hrun, rfl⟩, .of_files hf hs.small hend⟩
  | shell cmds =>
    obtain ⟨hend, hrun⟩ := hs.runs (hx s hstart)
    simp only [Session.exec, Session.Next, hstart]
    exact ⟨_, ⟨_, rfl, hrun⟩, hend.stores hf⟩

end Mounting

/-! ## Runs -/

end LinuxDrivers.Shell
