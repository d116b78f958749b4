import LinuxDrivers.Lib.Device
import LinuxDrivers.Lib.DirContext
import LinuxDrivers.Akpfs.Layout

/-!
# The kernel driver

`akpfs.c`, `akpfs_get_block` of `addr_space_ops.c`, `akpfs_super_write_inode` of
`super_block_ops.c`, `akpfs_file_iterate` of `file_ops.c` and `akpfs_inode_lookup` of `inode_ops.c`.
Unsigned values are `UInt32` and wrap as in C, `int` values that are computed with are `Int32`. A
pointer into a buffer is the address of the byte on the device, since buffers are changed in place.
-/

namespace LinuxDrivers.Akpfs

/-- The mounted volume: the device and `s_fs_info->akpfs_sb`. -/
structure Fs where
  dev : Device
  sb : Sb

namespace Fs

def sbBread (fs : Fs) (n : UInt32) : Option Mem × Fs :=
  match fs.dev.sbBread n.toNat with
  | (buf, dev) => (buf, { fs with dev })

/-- The address of the data of block `n`. -/
def blockAddr (fs : Fs) (n : UInt32) : Nat := n.toNat * fs.dev.blocksize

/-- The bytes from address `a` on are overwritten in their buffer. -/
def store (fs : Fs) (a len : Nat) (src : Mem) : Fs :=
  { fs with dev := { fs.dev with data := fs.dev.data.store a len src } }

/-- The word at `a`. -/
def word (fs : Fs) (a : Nat) : UInt32 := fs.dev.data.word a

/-- The word at `a` is overwritten in its buffer. -/
def setWord (fs : Fs) (a : Nat) (w : UInt32) : Fs :=
  { fs with dev := { fs.dev with data := fs.dev.data.setWord a w } }

/-- The inode at `a`. -/
def inodeAt (fs : Fs) (a : Nat) : Inode := .ofMem (fs.dev.data.window a)

end Fs

/-- `&inode->u.file_blocks[i]`, or `&inode->u.dir_entries[i]`, for the inode at `a`. -/
def slotAddr (a : Nat) (i : Int) : Nat := (a + 20 + 4 * i).toNat

/-! ## Inodes -/

/-- `akpfs_get_inode`: the address of the inode. -/
def getInode (fs : Fs) (ino : UInt32) : Option Nat × Fs :=
  let block := fs.sb.inodesBlockStart + ino / fs.sb.inodesPerBlock
  match fs.sbBread block with
  | (none, fs) => (none, fs)
  | (some _, fs) => (some (fs.blockAddr block + (ino % fs.sb.inodesPerBlock).toNat * 128), fs)

/-- `akpfs_get_file_type`. -/
def getFileType (inode : Inode) : Nat :=
  if 0 ≤ inode.fileSize then 0o100000
  else if inode.fileSize = akpfsDir then 0o040000
  else if inode.fileSize = akpfsLink then 0o120000
  else 0

/-- `akpfs_get_inode_flags`. -/
def getInodeFlags (inode : Inode) : Nat :=
  if 0 ≤ inode.fileSize then 0o100644
  else if inode.fileSize = akpfsDir then 0o040755
  else if inode.fileSize = akpfsLink then 0o120777
  else 0

/-! ## Free blocks -/

/-- The first loop of `akpfs_get_free_block`: the block of the bitmap and the byte in it that is not
`0xFF`. -/
def findFreeByte : Nat → UInt32 → Fs → Except Int (Option (UInt32 × Nat)) × Fs
  | 0, _, fs => (.ok none, fs)
  | n + 1, bi, fs =>
    match fs.sbBread (fs.sb.freeBitsBlockStart + bi) with
    | (none, fs) => (.error (- EIO), fs)
    | (some bitmask, fs) =>
      match findFrom (bitmask · != 0xFF) (fs.sb.freeBitsPerBlock / 8).toNat 0 with
      | some ec => (.ok (some (bi, ec)), fs)
      | none => findFreeByte n (bi + 1) fs

/-- `akpfs_get_free_block`; an error number is returned as an unsigned value. -/
def getFreeBlock (fs : Fs) : UInt32 × Fs :=
  match findFreeByte fs.sb.freeBitsBlockCnt.toNat 0 fs with
  | (.error e, fs) => (.ofInt e, fs)
  | (.ok none, fs) => (0, fs)
  | (.ok (some (bi, ec)), fs) =>
    let a := fs.blockAddr (fs.sb.freeBitsBlockStart + bi) + ec
    let byte := fs.dev.data a
    match findFrom (fun i => !bitSet byte i) 8 0 with
    | none => (0, fs)
    | some i =>
      let firstFreeBlk := bi * fs.sb.freeBitsPerBlock + .ofNat ec * 8 + .ofNat i
      if firstFreeBlk ≥ fs.sb.blockCnt then (0, fs)
      else (firstFreeBlk, fs.store a 1 fun _ => byte ||| oneBit i)

/-- `akpfs_put_free_block`. -/
def putFreeBlock (fs : Fs) (blockNo : UInt32) : Int × Fs :=
  if blockNo ≥ fs.sb.blockCnt then (-EINVAL, fs)
  else
    let block := fs.sb.freeBitsBlockStart + blockNo / fs.sb.freeBitsPerBlock
    match fs.sbBread block with
    | (none, fs) => (- EIO, fs)
    | (some _, fs) =>
      let a := fs.blockAddr block + (blockNo % fs.sb.freeBitsPerBlock / 8).toNat
      let bitpos := (blockNo % fs.sb.freeBitsPerBlock % 8).toNat
      let byte := fs.dev.data a
      if !bitSet byte bitpos then (0, fs)
      else (0, fs.store a 1 fun _ => byte &&& ~~~oneBit bitpos)

/-! ## Blocks of a file -/

/-- `akpfs_get_block`: the physical block, or an error number. -/
def getBlock (fs : Fs) (ino : UInt32) (iblock : Nat) (create : Bool) : Except Int UInt32 × Fs :=
  if iblock ≥ 27 then (.error (-ENOSPC), fs)
  else
    match getInode fs ino with
    | (none, fs) => (.error (- EIO), fs)
    | (some a, fs) =>
      let p := slotAddr a iblock
      if fs.word p = 0 then
        if !create then (.error (- EIO), fs)
        else
          match getFreeBlock fs with
          | (b, fs) =>
            let fs := fs.setWord p b
            if b = 0 then (.error (-ENOSPC), fs) else (.ok (fs.word p), fs)
      else (.ok (fs.word p), fs)

/-- The loop of `akpfs_super_write_inode` over the `n` slots from `i` on. -/
def truncSlots (a : Nat) : Nat → Int → Fs → Fs
  | 0, _, fs => fs
  | n + 1, i, fs =>
    let p := slotAddr a i
    if fs.word p ≠ 0 then truncSlots a n (i + 1) ((putFreeBlock fs (fs.word p)).2.setWord p 0)
    else truncSlots a n (i + 1) fs

/-- The first slot behind the end of a file of that size, in `int` arithmetic. -/
def firstCut (sb : Sb) (fileSize : Int32) : Int32 :=
  let blockSize := Int32.ofInt sb.blockSize.toNat
  (fileSize + blockSize - 1) / blockSize

/-- What `akpfs_super_write_inode` reads of a VFS inode. -/
structure VfsInode where
  ino : UInt32
  mode : UInt32
  /-- `i_size_read(inode)`. -/
  size : Int

/-- `akpfs_super_write_inode`; `syncOk` is the outcome of `sync_dirty_buffer`. -/
def superWriteInode (fs : Fs) (inode : VfsInode) (doSync syncOk : Bool) : Int × Fs :=
  match getInode fs inode.ino with
  | (none, fs) => (- EIO, fs)
  | (some a, fs) =>
    if inode.mode &&& 0o100000 ≠ 0 ∧ (fs.inodeAt a).isReg then
      let fileSize := Int32.ofInt inode.size
      let fs := fs.setWord (a + 16) fileSize.toUInt32
      let i := (firstCut fs.sb fileSize).toInt
      let fs := truncSlots a (27 - i).toNat i fs
      if doSync && !syncOk then (- EIO, fs) else (0, fs)
    else (0, fs)

/-! ## Listing a directory -/

/-- The loop of `akpfs_file_iterate` over the `n` entries from `i` on of the directory at `a`. -/
def iterateFrom (a : Nat) : Nat → Nat → Int → DirContext → Fs → Int × DirContext × Fs
  | 0, _, _, ctx, fs => (0, ctx, fs)
  | n + 1, i, pos, ctx, fs =>
    let entry := fs.word (slotAddr a i)
    if entry = 0 then iterateFrom a n (i + 1) pos ctx fs
    else
      match getInode fs entry with
      | (none, fs) => (- EIO, ctx, fs)
      | (some a₂, fs) =>
        let inode₂ := fs.inodeAt a₂
        match ctx.emitAt (pos + 1) ⟨inode₂.name, entry, getFileType inode₂⟩ with
        | (false, ctx) => (-ENOSPC, ctx, fs)
        | (true, ctx) => iterateFrom a n (i + 1) (pos + 1) ctx fs

/-- `akpfs_file_iterate`. -/
def fileIterate (fs : Fs) (ino parent : UInt32) (ctx : DirContext) : Int × DirContext × Fs :=
  if ctx.pos ≥ 2 + 27 then (0, ctx, fs)
  else
    match ctx.emitDots ino parent with
    | (false, ctx) => (-ENOSPC, ctx, fs)
    | (true, ctx) =>
      match getInode fs ino with
      | (none, fs) => (- EIO, ctx, fs)
      | (some a, fs) => iterateFrom a 27 0 1 ctx fs

/-! ## Looking up a name -/

/-- The loop of `akpfs_inode_lookup` over the `n` entries from `i` on of the directory at `a`: the
number in the entry whose inode has the name, and that inode. -/
def lookupFrom (a : Nat) (name : CStr) : Nat → Nat → Fs → Except Int (UInt32 × Inode) × Fs
  | 0, _, fs => (.error (-ENOENT), fs)
  | n + 1, i, fs =>
    let entry := fs.word (slotAddr a i)
    if entry = 0 then lookupFrom a name n (i + 1) fs
    else
      match getInode fs entry with
      | (none, fs) => (.error (- EIO), fs)
      | (some a₂, fs) =>
        if strncmp (.ofList name.bytes) (fs.dev.data.window a₂) 16 0 ≠ 0 then
          lookupFrom a name n (i + 1) fs
        else (.ok (entry, fs.inodeAt a₂), fs)

/-- What `iget_locked` returns: nothing, a new inode to be filled in, or one from the
inode cache. -/
inductive Iget where
  | failed
  | fresh
  | cached
  deriving DecidableEq

/-- The inode that `d_add` ties to the name, with `i_size` and `i_mode` when they are filled in. -/
structure Added where
  ino : UInt32
  filled : Option (Int32 × Nat)
  deriving DecidableEq

/-- `akpfs_inode_lookup`. -/
def inodeLookup (fs : Fs) (parent : UInt32) (name : CStr) (iget : Iget) : Except Int Added × Fs :=
  match getInode fs parent with
  | (none, fs) => (.error (- EIO), fs)
  | (some a, fs) =>
    match lookupFrom a name 27 0 fs with
    | (.error e, fs) => (.error e, fs)
    | (.ok (entry, inode₂), fs) =>
      match iget with
      | .failed => (.error (-EACCES), fs)
      | .fresh => (.ok ⟨entry, some (inode₂.fileSize, getInodeFlags inode₂)⟩, fs)
      | .cached => (.ok ⟨entry, none⟩, fs)

end LinuxDrivers.Akpfs
