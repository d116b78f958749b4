import Mathlib.Logic.Function.Basic
import LinuxDrivers.Lib.Device
import LinuxDrivers.Lib.DirContext
import LinuxDrivers.Lib.Search
import LinuxDrivers.Sfs.Layout

/-!
# The kernel driver

`real_sfs_ops.c` and the listing, block mapping and write-back of `real_sfs.c`. `int` values are
`Int`, `byte4_t` values are `UInt32` and wrap as in C. Loop counters stay below `entry_count`,
`partition_size` or 9 and are `Nat`. A function that fills `*fe` returns the entry beside its value.
-/

namespace LinuxDrivers.Sfs

/-! ## Constants -/

/-- `INV_INODE`. -/
def invInode : Int := -1

/-- `INV_BLOCK`. -/
def invBlock : Int := -1

/-- `ROOT_INODE_NUM`. -/
def rootInodeNum : Int := 1

/-- `S2V_INODE_NUM`. -/
def s2vInodeNum (i : Int) : Int := rootInodeNum + 1 + i

/-- `V2S_INODE_NUM`. -/
def v2sInodeNum (i : Int) : Int := i - (rootInodeNum + 1)

/-! ## State -/

/-- `sfs_info_t`, with what the driver reads of the VFS super block and of the block device. -/
structure Info where
  dev : Device
  /-- `vfs_sb->s_bdev->bd_block_size`. -/
  bdBlockSize : UInt32
  sb : SuperBlock
  /-- The array of `partition_size` bytes; an index past it is outside the array. -/
  usedBlocks : Nat → UInt8

/-! ## Reading and writing the device -/

def readSbFromRealSfs (info : Info) : Except Int SuperBlock × Info :=
  match info.dev.sbBread 0 with
  | (none, dev) => (.error (- EIO), { info with dev })
  | (some data, dev) => (.ok (.ofMem data), { info with dev })

/-- `len` bytes at `offset` of SFS block `block`, translated to blocks of the block device. -/
def readFromRealSfs (info : Info) (block offset len : UInt32) : Except Int Mem × Info :=
  let abs := block * info.sb.blockSize + offset
  let block := abs / info.bdBlockSize
  let offset := abs % info.bdBlockSize
  if offset + len > info.bdBlockSize then (.error (-EINVAL), info)
  else match info.dev.sbBread block.toNat with
    | (none, dev) => (.error (- EIO), { info with dev })
    | (some data, dev) => (.ok (data.window offset.toNat), { info with dev })

def writeToRealSfs (info : Info) (block offset : UInt32) (buf : Mem) (len : UInt32) :
    Int × Info :=
  let abs := block * info.sb.blockSize + offset
  let block := abs / info.bdBlockSize
  let offset := abs % info.bdBlockSize
  if offset + len > info.bdBlockSize then (-EINVAL, info)
  else match info.dev.sbBread block.toNat with
    | (none, dev) => (- EIO, { info with dev })
    | (some _, dev) => (0, { info with dev := dev.modify block.toNat offset.toNat len.toNat buf })

def readEntryFromRealSfs (info : Info) (ino : Int) : Except Int FileEntry × Info :=
  match readFromRealSfs info info.sb.entryTableBlockStart (.ofInt (ino * 64)) 64 with
  | (.error e, info) => (.error e, info)
  | (.ok buf, info) => (.ok (.ofMem buf), info)

def writeEntryToRealSfs (info : Info) (ino : Int) (fe : FileEntry) : Int × Info :=
  writeToRealSfs info info.sb.entryTableBlockStart (.ofInt (ino * 64)) fe.bytes 64

/-! ## Mounting -/

/-- The inner loop of `init_browsing`: marks stop at the first zero block number. -/
def markBlocks : List UInt32 → (Nat → UInt8) → (Nat → UInt8)
  | [], used => used
  | b :: bs, used => if b = 0 then used else markBlocks bs (Function.update used b.toNat 1)

/-- The loop of `init_browsing` over the `n` entries from `i` on. -/
def markEntries : Nat → Nat → (Nat → UInt8) → Info → Except Int (Nat → UInt8) × Info
  | 0, _, used, info => (.ok used, info)
  | n + 1, i, used, info =>
    match readEntryFromRealSfs info i with
    | (.error e, info) => (.error e, info)
    | (.ok fe, info) =>
      if !fe.live then markEntries n (i + 1) used info
      else markEntries n (i + 1) (markBlocks fe.blocks.toList used) info

/-- `init_browsing`; `vmallocOk` tells whether the array could be allocated. -/
def initBrowsing (vmallocOk : Bool) (info : Info) : Int × Info :=
  match readSbFromRealSfs info with
  | (.error e, info) => (e, info)
  | (.ok sb, info) =>
    let info := { info with sb }
    if sb.type ≠ simulaFsType then (-EINVAL, info)
    else if !vmallocOk then (-ENOMEM, info)
    else
      let used := fun i => if i < sb.dataBlockStart.toNat then 1 else 0
      match markEntries sb.entryCount.toNat 0 used info with
      | (.error e, info) => (e, info)
      | (.ok used, info) => (0, { info with usedBlocks := used })

/-- `sfs_fill_super`; the flags tell whether the structure, the array, the root inode and the root
entry could be had. Of what it sets in the VFS super block, only `s_blocksize` is used here. -/
def sfsFillSuper (kzallocOk vmallocOk igetOk rootOk : Bool) (info : Info) : Int × Info :=
  if !kzallocOk then (-ENOMEM, info)
  else match initBrowsing vmallocOk info with
    | (r, info) =>
      if r < 0 then (- EIO, info)
      else
        let info := { info with dev := { info.dev with blocksize := info.sb.blockSize.toNat } }
        if !igetOk then (-EACCES, info)
        else if !rootOk then (-ENOMEM, info)
        else (0, info)

/-! ## The block allocator -/

def sfsGetDataBlock (info : Info) : Int × Info :=
  let start := info.sb.dataBlockStart.toNat
  match findFrom (info.usedBlocks · == 0) (info.sb.partitionSize.toNat - start) start with
  | some i => (i, { info with usedBlocks := Function.update info.usedBlocks i 1 })
  | none => (invBlock, info)

def sfsPutDataBlock (info : Info) (i : UInt32) : Info :=
  { info with usedBlocks := Function.update info.usedBlocks i.toNat 0 }

/-! ## Directory operations -/

/-- The search of `sfs_create` for a free entry: its index, and the last entry read. -/
def findFreeEntry : Nat → Nat → FileEntry → Info → (Option Nat × FileEntry) × Info
  | 0, _, fe, info => ((none, fe), info)
  | n + 1, ino, fe, info =>
    match readEntryFromRealSfs info ino with
    | (.error _, info) => ((none, fe), info)
    | (.ok fe, info) =>
      if !fe.live then ((some ino, fe), info) else findFreeEntry n (ino + 1) fe info

/-- The entry that `sfs_create` writes: `strncpy` of the name, everything else set. -/
def FileEntry.created (fe : FileEntry) (fn : CStr) (perms now : Int) : FileEntry where
  name := .ofFn fun k => if k.val = 15 then 0 else strncpy fe.bytes fn 15 k
  size := 0
  timestamp := .ofInt now
  perms := .ofInt perms
  blocks := .replicate 9 0

/-- `sfs_create`; `now` is `get_seconds()`. -/
def sfsCreate (info : Info) (fn : CStr) (perms now : Int) (fe : FileEntry) :
    (Int × FileEntry) × Info :=
  match findFreeEntry info.sb.entryCount.toNat 0 fe info with
  | ((none, fe), info) => ((invInode, fe), info)
  | ((some freeIno, fe), info) =>
    let fe := fe.created fn perms now
    match writeEntryToRealSfs info freeIno fe with
    | (r, info) => if r < 0 then ((invInode, fe), info) else ((s2vInodeNum freeIno, fe), info)

/-- The loop of `sfs_lookup` over the `n` entries from `ino` on. -/
def lookupFrom (fn : CStr) : Nat → Nat → FileEntry → Info → (Int × FileEntry) × Info
  | 0, _, fe, info => ((invInode, fe), info)
  | n + 1, ino, fe, info =>
    match readEntryFromRealSfs info ino with
    | (.error _, info) => ((invInode, fe), info)
    | (.ok fe, info) =>
      if !fe.live then lookupFrom fn n (ino + 1) fe info
      else if fe.nameString = fn.bytes then ((s2vInodeNum ino, fe), info)
      else lookupFrom fn n (ino + 1) fe info

def sfsLookup (info : Info) (fn : CStr) (fe : FileEntry) : (Int × FileEntry) × Info :=
  lookupFrom fn info.sb.entryCount.toNat 0 fe info

/-- The loop of `sfs_remove`: blocks are released up to the first zero block number. -/
def putBlocks : List UInt32 → Info → Info
  | [], info => info
  | b :: bs, info => if b = 0 then info else putBlocks bs (sfsPutDataBlock info b)

def sfsRemove (info : Info) (fn : CStr) : Int × Info :=
  -- the local `fe` is filled by the lookup before it is read
  match sfsLookup info fn .zero with
  | ((vfsIno, fe), info) =>
    if vfsIno = invInode then (invInode, info)
    else
      let info := putBlocks fe.blocks.toList info
      match writeEntryToRealSfs info (v2sInodeNum vfsIno) .zero with
      | (r, info) => if r < 0 then (invInode, info) else (vfsIno, info)

/-! ## Listing the directory -/

/-- The loop of `sfs_list` over the `n` entries from `ino` on; `DT_REG` is 8. -/
def listFrom : Nat → Nat → Int → DirContext → Info → Int × DirContext × Info
  | 0, _, _, ctx, info => (0, ctx, info)
  | n + 1, ino, pos, ctx, info =>
    match readEntryFromRealSfs info ino with
    | (.error e, info) => (e, ctx, info)
    | (.ok fe, info) =>
      if !fe.live then listFrom n (ino + 1) pos ctx info
      else
        match ctx.emitAt (pos + 1) ⟨fe.nameString, .ofInt (s2vInodeNum ino), 8⟩ with
        | (false, ctx) => (-ENOSPC, ctx, info)
        | (true, ctx) => listFrom n (ino + 1) (pos + 1) ctx info

def sfsList (info : Info) (ctx : DirContext) : Int × DirContext × Info :=
  listFrom info.sb.entryCount.toNat 0 1 ctx info

/-- `sfs_iterate`. The root is its own parent. -/
def sfsIterate (info : Info) (ctx : DirContext) : Int × DirContext × Info :=
  match ctx.emitDots (.ofInt rootInodeNum) (.ofInt rootInodeNum) with
  | (false, ctx) => (-ENOSPC, ctx, info)
  | (true, ctx) => sfsList info ctx

/-! ## Entries by inode number -/

def sfsGetFileEntry (info : Info) (vfsIno : Int) : Except Int FileEntry × Info :=
  readEntryFromRealSfs info (v2sInodeNum vfsIno)

def sfsUpdateFileEntry (info : Info) (vfsIno : Int) (fe : FileEntry) : Int × Info :=
  writeEntryToRealSfs info (v2sInodeNum vfsIno) fe

/-- The loop of `sfs_update` over the `n` slots from `i` on; unlike `sfs_remove` it passes gaps. -/
def truncBlocks : Nat → Nat → FileEntry → Info → FileEntry × Info
  | 0, _, fe, info => (fe, info)
  | n + 1, i, fe, info =>
    if fe.block i ≠ 0 then
      truncBlocks n (i + 1) (fe.setBlock i 0) (sfsPutDataBlock info (fe.block i))
    else truncBlocks n (i + 1) fe info

/-- The fields that `sfs_update` overwrites; a null pointer keeps the field. -/
def FileEntry.updated (fe : FileEntry) (size timestamp perms : Option Int) : FileEntry :=
  { fe with
    size := size.elim fe.size .ofInt
    timestamp := timestamp.elim fe.timestamp .ofInt
    perms := perms.elim fe.perms fun p => if p ≤ 7 then .ofInt p else fe.perms }

def sfsUpdate (info : Info) (vfsIno : Int) (size timestamp perms : Option Int) : Int × Info :=
  match sfsGetFileEntry info vfsIno with
  | (.error e, info) => (e, info)
  | (.ok fe, info) =>
    let fe := fe.updated size timestamp perms
    let i := ((fe.size + info.sb.blockSize - 1) / info.sb.blockSize).toNat
    match truncBlocks (9 - i) i fe info with
    | (fe, info) => writeEntryToRealSfs info (v2sInodeNum vfsIno) fe

/-! ## Block mapping and write-back -/

/-- `sfs_get_block`: an error code, or the block that `map_bh` is given. -/
def sfsGetBlock (info : Info) (ino : Int) (iblock : Nat) (create : Bool) :
    Except Int UInt32 × Info :=
  if iblock ≥ 9 then (.error (-ENOSPC), info)
  else match sfsGetFileEntry info ino with
    | (.error e, info) => (.error e, info)
    | (.ok fe, info) =>
      if fe.block iblock = 0 then
        if !create then (.error (- EIO), info)
        else match sfsGetDataBlock info with
          | (b, info) =>
            let fe := fe.setBlock iblock (.ofInt b)
            if fe.block iblock = .ofInt invBlock then (.error (-ENOSPC), info)
            else match sfsUpdateFileEntry info ino fe with
              | (r, info) => if r < 0 then (.error r, info) else (.ok (fe.block iblock), info)
      else (.ok (fe.block iblock), info)

/-- What `sfs_write_inode` reads of a VFS inode. -/
structure Inode where
  ino : Int
  size : Int
  mode : UInt32
  mtime : Int
  ctime : Int

/-- `S_ISREG`. -/
def Inode.isReg (inode : Inode) : Bool := inode.mode &&& 0o170000 == 0o100000

/-- `perms` as `sfs_write_inode` computes them from the mode bits of all three classes. -/
def Inode.perms (inode : Inode) : Int :=
  (if inode.mode &&& 0o444 ≠ 0 then 4 else 0) + (if inode.mode &&& 0o222 ≠ 0 then 2 else 0) +
    (if inode.mode &&& 0o111 ≠ 0 then 1 else 0)

def sfsWriteInode (info : Info) (inode : Inode) : Int × Info :=
  if !inode.isReg then (0, info)
  else
    let timestamp := if inode.mtime > inode.ctime then inode.mtime else inode.ctime
    sfsUpdate info inode.ino (some inode.size) (some timestamp) (some inode.perms)

end LinuxDrivers.Sfs
