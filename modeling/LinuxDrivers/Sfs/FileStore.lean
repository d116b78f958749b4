import LinuxDrivers.Lib.ByteFile
import LinuxDrivers.Sfs.Directory
import LinuxDrivers.Sfs.Leak
import LinuxDrivers.Sfs.Remount

/-!
# A store of files

What the driver is for: files of bytes under names, on a number of blocks that they share. A file
holds a byte as soon as it was written, but its length has to be written back to outlast the mount.
`Fs.store` reads such a store off a mounted volume. As long as files grow at their end only, what
they hold and what is free make up all blocks of the data area.
-/

namespace LinuxDrivers.Sfs

open ByteFile (readAt writeAt)

/-! ## The store -/

/-- A file of the store. -/
structure StoredFile where
  bytes : List UInt8
  /-- The number of blocks that are set aside for it. -/
  blocks : Nat
  /-- The length that was last written back. -/
  synced : Nat
  /-- The permissions in its entry. -/
  perms : UInt32

@[ext] structure FileStore where
  file : CStr → Option StoredFile
  /-- The number of files that there is still room for. -/
  slots : Nat
  /-- The number of blocks that are not set aside for any file. -/
  free : Nat

/-- The calls that VFS makes for a user, and a new mount of the volume. -/
inductive VfsCall where
  | create (fn : CStr) (mode : UInt32) (now : Int) (newInodeOk insertOk : Bool)
  | write (fn : CStr) (pos : Nat) (buf : List UInt8)
  | read (fn : CStr) (pos len : Nat)
  | unlink (fn : CStr)
  | writeInode (fn : CStr) (mode : UInt32) (mtime ctime : Int)
  | remount

inductive VfsReply where
  | status (r : Int)
  | written (r : Except Int Nat)
  | bytes (r : Except Int (List UInt8))
deriving DecidableEq

/-- The permissions that `sfs_write_inode` stores. -/
def modePerms (mode : UInt32) : Int := Inode.perms ⟨0, 0, mode, 0, 0⟩

/-- The number of blocks for `n` bytes. -/
def blocksFor (n : Nat) : Nat := (n + 511) / 512

namespace FileStore

/-- A store without files. -/
def empty (slots free : Nat) : FileStore := ⟨fun _ => none, slots, free⟩

/-- The file becomes `f`; blocks that it gains were free, and blocks that it loses are. -/
def put (st : FileStore) (fn : CStr) (f : StoredFile) (free : Nat) : FileStore :=
  { st with file := Function.update st.file fn (some f), free }

/-- The store as the next mount finds it: what was not written back is lost. -/
def reopened (st : FileStore) : FileStore :=
  { st with file fn := (st.file fn).map fun f => { f with bytes := f.bytes.take f.synced } }

/-- A file of at most nine blocks can be given blocks for its first `n` bytes. -/
def Fits (st : FileStore) (f : StoredFile) (n : Nat) : Prop :=
  blocksFor n ≤ 9 ∧ blocksFor n ≤ f.blocks + st.free

/-- A write is complete when the file can be given the blocks for it. Otherwise it may write a first
part; in any case it may set more blocks aside. -/
structure Written (st : FileStore) (f f' : StoredFile) (pos : Nat) (buf : List UInt8)
    (r : Except Int Nat) (free' : Nat) : Prop where
  complete_iff : r = .ok buf.length ↔ buf = [] ∨ st.Fits f (pos + buf.length)
  written : ∀ n, r = .ok n → n ≤ buf.length ∧ f'.bytes = writeAt f.bytes pos (buf.take n)
  failed : ∀ e, r = .error e → e = -ENOSPC ∧ f'.bytes = f.bytes
  synced : f'.synced = f.synced
  perms : f'.perms = f.perms
  blocks : f.blocks ≤ f'.blocks
  conserve : f'.blocks + free' = f.blocks + st.free

/-- What a call does to the store. -/
def Next (st : FileStore) : VfsCall → VfsReply → FileStore → Prop
  | .create fn mode _ newInodeOk insertOk, reply, st' =>
    if st.slots = 0 then reply = .status (-ENOSPC) ∧ st' = st
    else if !newInodeOk then reply = .status (-ENOMEM) ∧ st' = st
    else if !insertOk then reply = .status (- EIO) ∧ st' = st
    else reply = .status 0 ∧ st' =
      { st.put fn ⟨[], 0, 0, .ofInt (entryPerms mode)⟩ st.free with slots := st.slots - 1 }
  | .write fn pos buf, reply, st' =>
    match st.file fn with
    | none => reply = .status (-ENOENT) ∧ st' = st
    | some f => ∃ f' r free', reply = .written r ∧ st.Written f f' pos buf r free' ∧
        st' = st.put fn f' free'
  | .read fn pos len, reply, st' =>
    match st.file fn with
    | none => reply = .status (-ENOENT) ∧ st' = st
    | some f => reply = .bytes (.ok (readAt f.bytes pos len)) ∧ st' = st
  | .unlink fn, reply, st' =>
    match st.file fn with
    | none => reply = .status (-EINVAL) ∧ st' = st
    | some f => reply = .status 0 ∧
        st' = ⟨Function.update st.file fn none, st.slots + 1, st.free + f.blocks⟩
  | .writeInode fn mode _ _, reply, st' =>
    match st.file fn with
    | none => reply = .status (-ENOENT) ∧ st' = st
    | some f =>
      let needed := blocksFor f.bytes.length
      reply = .status 0 ∧
        st' = st.put fn ⟨f.bytes, needed, f.bytes.length, .ofInt (modePerms mode)⟩
          (st.free + (f.blocks - needed))
  | .remount, reply, st' => reply = .status 0 ∧ st' = st.reopened

/-- Files are created under new names, and are written from their end or from a place before it. -/
def Allowed (st : FileStore) : VfsCall → Prop
  | .create fn _ _ _ _ => IsName fn ∧ st.file fn = none
  | .write fn pos _ => ∀ f ∈ st.file fn, pos ≤ f.bytes.length
  | .writeInode _ mode _ _ => mode &&& 0o170000 = 0o100000
  | _ => True

instance (st : FileStore) (c : VfsCall) : Decidable (st.Allowed c) := by
  rcases c with _ | _ | _ | _ | _ | _ <;> dsimp only [Allowed] <;> infer_instance

end FileStore

/-! ## The calls -/

/-- `sfs_inode_lookup`: the number of the inode, when there is a file of that name. -/
def sfsInodeLookup (fs : Fs) (fn : CStr) : Option Int × Fs :=
  match sfsLookup fs.info fn .zero with
  | ((ino, _), info) => (if ino = invInode then none else some ino, { fs with info })

/-- New inodes for a volume: `sfs_inode_lookup` takes their sizes from the entries. -/
def Info.reopened (info : Info) : Fs := ⟨info, fun ino => (info.entry (v2sInodeNum ino)).size.toNat⟩

/-- The volume is mounted again with `sfs_fill_super`; what was not written back before is lost. -/
def remount (fs : Fs) : Int × Fs :=
  match sfsFillSuper true true true true fs.info with
  | (r, info) => (r, info.reopened)

def serve (fs : Fs) : VfsCall → VfsReply × Fs
  | .create fn mode now newInodeOk insertOk =>
    match sfsInodeCreate fs fn mode now newInodeOk insertOk with
    | (.error e, fs) => (.status e, fs)
    | (.ok _, fs) => (.status 0, fs)
  | .write fn pos buf =>
    match sfsInodeLookup fs fn with
    | (none, fs) => (.status (-ENOENT), fs)
    | (some ino, fs) =>
      match genericFileWriteIter fs ino pos buf with
      | (r, fs) => (.written r, fs)
  | .read fn pos len =>
    match sfsInodeLookup fs fn with
    | (none, fs) => (.status (-ENOENT), fs)
    | (some ino, fs) =>
      match genericFileReadIter fs ino pos len with
      | (r, fs) => (.bytes r, fs)
  | .unlink fn =>
    match sfsInodeUnlink fs fn with
    | (r, fs) => (.status r, fs)
  | .writeInode fn mode mtime ctime =>
    match sfsInodeLookup fs fn with
    | (none, fs) => (.status (-ENOENT), fs)
    | (some ino, fs) =>
      match sfsWriteInode fs.info ⟨ino, fs.size ino, mode, mtime, ctime⟩ with
      | (r, info) => (.status r, { fs with info })
  | .remount =>
    match remount fs with
    | (r, fs) => (.status r, fs)

/-! ## The store on a volume -/

/-- The number of blocks that entry `i` holds. -/
def Info.held (info : Info) (i : Nat) : Nat :=
  (List.range 9).countP fun k => info.slot (i, k) != 0

/-- The file in entry `i`. -/
def Fs.fileAt (fs : Fs) (i : Nat) : StoredFile where
  bytes := (List.range (fs.size (s2vInodeNum i))).map (fs.info.byte i)
  blocks := fs.info.held i
  synced := (fs.info.entry i).size.toNat
  perms := (fs.info.entry i).perms

def Fs.store (fs : Fs) : FileStore where
  file fn := (fs.info.find fn).map fs.fileAt
  slots := fs.info.sb.entryCount.toNat - fs.info.liveCount
  free := fs.info.freeBlocks

/-! ## Blocks held and blocks free -/

/-- A file without gaps holds its first blocks. -/
theorem ExactTable.slot_ne_zero_iff {info : Info} (h : ExactTable info) (i k : Nat) :
    info.slot (i, k) ≠ 0 ↔ k < info.held i := by
  have hlt : ∀ k, (info.slot (i, k) != 0) = true → k < 9 := by
    intro k hk
    by_contra h9
    exact (Info.slot_ne_zero (by simpa using hk)).2 (FileEntry.block_of_le (by omega))
  rw [← bne_iff_ne]
  refine lt_countP_iff (fun j k hkj hj => ?_) hlt k
  rw [bne_iff_ne] at hj ⊢
  exact h.contiguous i j k hkj hj

theorem ExactTable.held_le {info : Info} (_ : ExactTable info) (i : Nat) : info.held i ≤ 9 := by
  have := List.countP_le_length (p := fun k => info.slot (i, k) != 0) (l := List.range 9)
  rwa [List.length_range] at this

/-- The number of blocks that the first `n` entries hold. -/
def Info.heldBelow (info : Info) : Nat → Nat
  | 0 => 0
  | n + 1 => info.heldBelow n + info.held n

/-- The slots of the first `n` entries. -/
def slotsBelow (n : Nat) : List (Nat × Nat) :=
  (List.range n).flatMap fun i => (List.range 9).map fun k => (i, k)

theorem mem_slotsBelow {n : Nat} {p : Nat × Nat} : p ∈ slotsBelow n ↔ p.1 < n ∧ p.2 < 9 := by
  obtain ⟨i, k⟩ := p
  simp only [slotsBelow, List.mem_flatMap, List.mem_range, List.mem_map, Prod.mk.injEq]
  constructor
  · rintro ⟨j, hj, l, hl, rfl, rfl⟩
    exact ⟨hj, hl⟩
  · rintro ⟨hi, hk⟩
    exact ⟨i, hi, k, hk, rfl, rfl⟩

theorem slotsBelow_succ (n : Nat) :
    slotsBelow (n + 1) = slotsBelow n ++ (List.range 9).map fun k => (n, k) := by
  simp [slotsBelow, List.range_succ]

theorem nodup_slotsBelow (n : Nat) : (slotsBelow n).Nodup := by
  induction n with
  | zero => exact List.nodup_nil
  | succ n ih =>
    rw [slotsBelow_succ, List.nodup_append]
    refine ⟨ih, ?_, ?_⟩
    · exact List.Nodup.map (fun _ _ e => (Prod.mk.inj e).2) List.nodup_range
    · intro p hp q hq he
      have hlt := (mem_slotsBelow.1 hp).1
      obtain ⟨k, -, rfl⟩ := List.mem_map.1 hq
      rw [he] at hlt
      exact Nat.lt_irrefl n hlt

theorem countP_slotsBelow (info : Info) (n : Nat) :
    (slotsBelow n).countP (info.slot · != 0) = info.heldBelow n := by
  induction n with
  | zero => rfl
  | succ n ih =>
    rw [slotsBelow_succ, List.countP_append, ih, List.countP_map]
    rfl

/-- **Capacity.** What is free and what the files hold are all blocks of the data area. -/
theorem ExactTable.capacity {info : Info} (h : ExactTable info) :
    info.freeBlocks + info.heldBelow info.sb.entryCount.toNat =
      info.sb.partitionSize.toNat - info.sb.dataBlockStart.toNat := by
  have hregion : (fun b => info.sb.dataBlockStart.toNat ≤ b ∧ b < info.sb.partitionSize.toNat) =
      fun b => info.sb.dataBlockStart.toNat ≤ b ∧ b < info.sb.dataBlockStart.toNat +
        (info.sb.partitionSize.toNat - info.sb.dataBlockStart.toNat) := by
    funext b
    apply propext
    omega
  have hexact := h.exact
  rw [hregion] at hexact
  rw [← countP_slotsBelow]
  refine hexact.countFrom_free (nodup_slotsBelow _) (fun p hp => ?_) fun b _ _ => ?_
  · obtain ⟨hi, hb⟩ := Info.slot_ne_zero hp
    refine mem_slotsBelow.2 ⟨hi, ?_⟩
    by_contra h9
    exact hb (FileEntry.block_of_le (by omega))
  · rw [beq_iff_eq]
    rcases h.binary b with hb | hb <;> rw [hb] <;> decide

theorem heldBelow_congr {a a' : Info} {n : Nat} (h : ∀ j < n, a'.held j = a.held j) :
    a'.heldBelow n = a.heldBelow n := by
  induction n with
  | zero => rfl
  | succ n ih =>
    rw [Info.heldBelow, Info.heldBelow, ih fun j hj => h j (by omega), h n (by omega)]

/-- Only entry `i` changes. -/
theorem heldBelow_add {a a' : Info} {n i : Nat} (hi : i < n)
    (h : ∀ j < n, j ≠ i → a'.held j = a.held j) :
    a'.heldBelow n + a.held i = a.heldBelow n + a'.held i := by
  induction n with
  | zero => exact absurd hi (Nat.not_lt_zero i)
  | succ n ih =>
    rw [Info.heldBelow, Info.heldBelow]
    by_cases hin : i = n
    · subst hin
      rw [heldBelow_congr fun j hj => h j (by omega) (by omega)]
      omega
    · have := ih (by omega) fun j hj => h j (by omega)
      have := h n (by omega) fun e => hin e.symm
      omega

/-- Blocks pass between one file and the free ones. -/
theorem ExactTable.conserve {a a' : Info} (h : ExactTable a) (h' : ExactTable a')
    (hsb : a'.sb = a.sb) {i : Nat} (hi : i < a.sb.entryCount.toNat)
    (hheld : ∀ j < a.sb.entryCount.toNat, j ≠ i → a'.held j = a.held j) :
    a'.held i + a'.freeBlocks = a.held i + a.freeBlocks := by
  have hcap := h.capacity
  have hcap' := h'.capacity
  rw [hsb] at hcap'
  have := heldBelow_add hi hheld
  omega

end LinuxDrivers.Sfs
