import LinuxDrivers.Sfs.Isolation

/-!
# Files

The VFS side of `real_sfs.c`: creating and unlinking through the root inode, and the generic reads
and writes, which reach the driver page by page through `sfs_readpage` and `sfs_write_begin`.
`sfs_get_block` never marks a buffer new, so `block_write_begin` loads the rest of a partly written
block from the device. Nothing stays in the page cache between two calls: what is written is on the
device, and what is read comes from there.
-/

namespace LinuxDrivers.Sfs

/-- `PAGE_SIZE`. -/
def pageSize : Nat := 4096

/-- A mounted volume with `i_size` of its VFS inodes. -/
structure Fs where
  info : Info
  size : Int → Nat

/-! ## Pages -/

/-- The blocks of a file in which the `n` bytes from `pos` on lie. -/
def blocksOf (pos n : Nat) : List Nat :=
  List.range' (pos / 512) ((pos + n + 511) / 512 - pos / 512)

/-- The loop over the buffers of a page, with what `sfs_get_block` maps each of them to. It ends at
the first error; blocks mapped until then stay mapped. -/
def mapBlocks (info : Info) (ino : Int) (create : Bool) :
    List Nat → Except Int (List (Nat × UInt32)) × Info
  | [] => (.ok [], info)
  | k :: ks =>
    match sfsGetBlock info ino k create with
    | (.error e, info) => (.error e, info)
    | (.ok phys, info) =>
      match mapBlocks info ino create ks with
      | (.error e, info) => (.error e, info)
      | (.ok bs, info) => (.ok ((k, phys) :: bs), info)

/-- The buffer of block `k` of a file: what was loaded, with `buf` copied to `pos` of the file. -/
def overwrite (loaded : Mem) (k pos : Nat) (buf : List UInt8) : Mem := fun j =>
  if pos ≤ 512 * k + j ∧ 512 * k + j < pos + buf.length then buf.getD (512 * k + j - pos) 0
  else loaded j

/-- The mapped blocks of a page are loaded, overwritten and stored. -/
def storeBlocks (pos : Nat) (buf : List UInt8) : List (Nat × UInt32) → Info → Info
  | [], info => info
  | (k, phys) :: bs, info =>
    let loaded := info.dev.data.window (phys.toNat * info.dev.blocksize)
    storeBlocks pos buf bs { info with
      dev := info.dev.modify phys.toNat 0 512 (overwrite loaded k pos buf) }

/-- `sfs_write_begin`, the copy and `generic_write_end` for bytes of one page. -/
def writePage (fs : Fs) (ino : Int) (pos : Nat) (buf : List UInt8) : Except Int Unit × Fs :=
  match mapBlocks fs.info ino true (blocksOf pos buf.length) with
  | (.error e, info) => (.error e, { fs with info })
  | (.ok bs, info) => (.ok (), {
      info := storeBlocks pos buf bs info
      size := Function.update fs.size ino (max (fs.size ino) (pos + buf.length)) })

/-- The blocks of the page of `pos` that start below `i_size`. -/
def pageBlocks (size pos : Nat) : List Nat :=
  (List.range' (pos / pageSize * 8) 8).filter (512 * · < size)

/-- Byte `p` of a file whose blocks are mapped to `bs`. -/
def byteAt (info : Info) (bs : List (Nat × UInt32)) (p : Nat) : UInt8 :=
  match bs.lookup (p / 512) with
  | some phys => info.dev.data (phys.toNat * info.dev.blocksize + p % 512)
  | none => 0

/-- `sfs_readpage` and the copy of `n` bytes of that page. A page of which one block cannot be
mapped does not get up to date, and the read of it fails. -/
def readPage (fs : Fs) (ino : Int) (pos n : Nat) : Except Int (List UInt8) × Fs :=
  match mapBlocks fs.info ino false (pageBlocks (fs.size ino) pos) with
  | (.error _, info) => (.error (- EIO), { fs with info })
  | (.ok bs, info) => (.ok ((List.range' pos n).map (byteAt info bs)), { fs with info })

/-! ## The generic reads and writes -/

/-- The loop of a write over pages: the number of bytes written, or the first error when there are
none. Every page takes at least one byte, so as many rounds as bytes suffice. -/
def writePages : Nat → Fs → Int → Nat → List UInt8 → Except Int Nat × Fs
  | 0, fs, _, _, _ => (.ok 0, fs)
  | m + 1, fs, ino, pos, buf =>
    if buf = [] then (.ok 0, fs)
    else
      let n := min (pageSize - pos % pageSize) buf.length
      match writePage fs ino pos (buf.take n) with
      | (.error e, fs) => (.error e, fs)
      | (.ok _, fs) =>
        match writePages m fs ino (pos + n) (buf.drop n) with
        | (.error _, fs) => (.ok n, fs)
        | (.ok written, fs) => (.ok (n + written), fs)

def genericFileWriteIter (fs : Fs) (ino : Int) (pos : Nat) (buf : List UInt8) :
    Except Int Nat × Fs :=
  writePages buf.length fs ino pos buf

/-- The loop of a read over pages, up to `i_size`. -/
def readPages : Nat → Fs → Int → Nat → Nat → Except Int (List UInt8) × Fs
  | 0, fs, _, _, _ => (.ok [], fs)
  | m + 1, fs, ino, pos, len =>
    let n := min (pageSize - pos % pageSize) (min len (fs.size ino - pos))
    if n = 0 then (.ok [], fs)
    else match readPage fs ino pos n with
      | (.error e, fs) => (.error e, fs)
      | (.ok bytes, fs) =>
        match readPages m fs ino (pos + n) (len - n) with
        | (.error _, fs) => (.ok bytes, fs)
        | (.ok rest, fs) => (.ok (bytes ++ rest), fs)

def genericFileReadIter (fs : Fs) (ino : Int) (pos len : Nat) : Except Int (List UInt8) × Fs :=
  readPages len fs ino pos len

/-! ## The root inode -/

/-- The permissions of an entry: `sfs_inode_create` widens each of the three to all classes and
keeps those of the owner. -/
def entryPerms (mode : UInt32) : Int :=
  let mode := if mode &&& 0o444 ≠ 0 then mode ||| 0o444 else mode
  let mode := if mode &&& 0o222 ≠ 0 then mode ||| 0o222 else mode
  let mode := if mode &&& 0o111 ≠ 0 then mode ||| 0o111 else mode
  (if mode &&& 0o400 ≠ 0 then 4 else 0) + (if mode &&& 0o200 ≠ 0 then 2 else 0) +
    (if mode &&& 0o100 ≠ 0 then 1 else 0)

/-- `sfs_inode_create`: an error, or the number of the inode that the name stands for. The flags
tell whether `new_inode` and `insert_inode_locked` succeed. -/
def sfsInodeCreate (fs : Fs) (fn : CStr) (mode : UInt32) (now : Int)
    (newInodeOk insertOk : Bool) : Except Int Int × Fs :=
  match sfsCreate fs.info fn (entryPerms mode) now .zero with
  | ((ino, fe), info) =>
    if ino = invInode then (.error (-ENOSPC), { fs with info })
    else if !newInodeOk then (.error (-ENOMEM), { fs with info := (sfsRemove info fn).2 })
    else if !insertOk then (.error (- EIO), { fs with info := (sfsRemove info fn).2 })
    else (.ok ino, { info, size := Function.update fs.size ino fe.size.toNat })

def sfsInodeUnlink (fs : Fs) (fn : CStr) : Int × Fs :=
  match sfsRemove fs.info fn with
  | (ino, info) => (if ino = invInode then -EINVAL else 0, { fs with info })

/-! ## Runs -/

/-- A call that reaches the driver. Files are written and read through their inode numbers. -/
inductive FileOp where
  | create (fn : CStr) (mode : UInt32) (now : Int) (newInodeOk insertOk : Bool)
  | write (ino : Int) (pos : Nat) (buf : List UInt8)
  | unlink (fn : CStr)
  | read (ino : Int) (pos len : Nat)

namespace FileOp

def exec (fs : Fs) : FileOp → Fs
  | .create fn mode now newInodeOk insertOk =>
    (sfsInodeCreate fs fn mode now newInodeOk insertOk).2
  | .write ino pos buf => (genericFileWriteIter fs ino pos buf).2
  | .unlink fn => (sfsInodeUnlink fs fn).2
  | .read ino pos len => (genericFileReadIter fs ino pos len).2

def Valid (sb : SuperBlock) : FileOp → Prop
  | .write ino _ _ => InTable sb ino
  | .read ino _ _ => InTable sb ino
  | _ => True

instance (sb : SuperBlock) (op : FileOp) : Decidable (op.Valid sb) := by
  rcases op with _ | _ | _ | _ <;> dsimp only [Valid] <;> infer_instance

/-- The same call up to the bytes that are written. -/
inductive SameButBytes : FileOp → FileOp → Prop where
  | same (op : FileOp) : SameButBytes op op
  | write (ino : Int) (pos : Nat) {buf buf' : List UInt8} (h : buf.length = buf'.length) :
    SameButBytes (.write ino pos buf) (.write ino pos buf')

/-- The call ends the life of the file with number `ino`: it removes its entry or gives its number
to a new file. -/
def Ends (ino : Int) (fs : Fs) : FileOp → Prop
  | .create fn mode now newInodeOk insertOk =>
    let r := sfsCreate fs.info fn (entryPerms mode) now .zero
    r.1.1 = ino ∨ (newInodeOk && insertOk) = false ∧ (sfsRemove r.2 fn).1 = ino
  | .unlink fn => (sfsRemove fs.info fn).1 = ino
  | _ => False

instance (ino : Int) (fs : Fs) (op : FileOp) : Decidable (op.Ends ino fs) := by
  rcases op with _ | _ | _ | _ <;> dsimp only [Ends] <;> infer_instance

end FileOp

/-- Every read of the file with number `ino` returns the same from both. -/
def SameReads (ino : Int) (fs gs : Fs) : Prop :=
  ∀ pos len, (genericFileReadIter fs ino pos len).1 = (genericFileReadIter gs ino pos len).1

end LinuxDrivers.Sfs
