import LinuxDrivers.Lib.FileHandle
import LinuxDrivers.Akpfs.Layout

/-!
# The formatter

`mkfs.akp.c`, with `ADD_ONE_FILE`. `make_akpfs` returns a different negative value for each failing
write. The inode that clears the inode blocks has only its first byte initialised; the other bytes
are whatever is on the stack.
-/

namespace LinuxDrivers.Akpfs

/-- `compute_akpfs_sb`; the average file size is `PAGE_SIZE`. -/
def computeAkpfsSb (devSize blockSize : Nat) : Sb :=
  let blockCnt := devSize / blockSize
  let avgFileCnt := blockCnt / ((4096 + blockSize - 1) / blockSize)
  let inodesPerBlock := UInt32.ofNat (blockSize / 128)
  let inodesBlockCnt := (.ofNat avgFileCnt + inodesPerBlock - 1) / inodesPerBlock
  let freeBitsPerBlock := UInt32.ofNat (blockSize * 8)
  let freeBitsBlockStart := 1 + inodesBlockCnt
  let freeBitsBlockCnt := (.ofNat blockCnt + freeBitsPerBlock - 1) / freeBitsPerBlock
  let dataBlockStart := freeBitsBlockStart + freeBitsBlockCnt
  { fsType := akpfsSuperMagic
    blockSize := .ofNat blockSize
    blockCnt := .ofNat blockCnt
    inodesPerBlock
    inodesBlockStart := 1
    inodesBlockCnt
    freeBitsPerBlock
    freeBitsBlockStart
    freeBitsBlockCnt
    dataBlockStart
    dataBlockCnt := .ofNat blockCnt - dataBlockStart
    rootInode := 1 }

/-- `compute_akpfs_empty_inode`, over the bytes on the stack. -/
def computeAkpfsEmptyInode (stack : Mem) : Mem := fun k => if k = 0 then 0 else stack k

/-- `compute_akpfs_empty_dir_inode`. -/
def computeAkpfsEmptyDirInode (dirName : CStr) : Inode where
  fileName := .ofFn fun k => strncpy (fun _ => 0) dirName 16 k
  fileSize := akpfsDir
  u := .replicate 27 0

/-- `compute_akpfs_empty_file_inode`. -/
def computeAkpfsEmptyFileInode (fileName : CStr) : Inode where
  fileName := .ofFn fun k => strncpy (fun _ => 0) fileName 16 k
  fileSize := 0
  u := .replicate 27 0

/-- The names that the formatter writes. -/
def rootName : CStr := ⟨ascii "/", by decide⟩
def mokshaName : CStr := ⟨ascii "moksha.txt", by decide⟩

/-- `file_data`, without its terminator. -/
def fileData : List UInt8 := ascii "Good Morning Universe"

/-- The root inode, with its one entry. -/
def rootInodeOf (sb : Sb) : Inode :=
  let inode := computeAkpfsEmptyDirInode rootName
  { inode with u := inode.u.set 0 (sb.rootInode + 1) }

/-- The inode of `moksha.txt`. -/
def fileInodeOf (sb : Sb) : Inode :=
  let inode := computeAkpfsEmptyFileInode mokshaName
  { inode with
    fileSize := .ofNat fileData.length
    u := inode.u.set 0 sb.dataBlockStart }

/-- Clears the `n` inode blocks from `bc` on. -/
def clearInodeBlocks (sb : Sb) (blockSize : Nat) (emptyInode : Mem) :
    Nat → UInt32 → CheckedFd → Except Int CheckedFd
  | 0, _, o => .ok o
  | n + 1, bc, o => do
    let o ← CheckedFd.writeMany 128 emptyInode (-2) sb.inodesPerBlock.toNat
      (o.lseek (bc * .ofNat blockSize).toNat)
    clearInodeBlocks sb blockSize emptyInode n (bc + 1) o

/-- Writes the free bits: ones below `freeBlocksStart`, zeros up to `block_cnt`. -/
def writeFreeBits (sb : Sb) (freeBlocksStart : UInt32) (o : CheckedFd) :
    Except Int CheckedFd := do
  let o ← CheckedFd.writeMany 1 (fun _ => 0xFF) (-4) (freeBlocksStart / 8).toNat o
  let rest := (freeBlocksStart % 8).toNat
  let o ← o.writeIf (rest != 0) 1 (fun _ => 0xFF >>> UInt8.ofNat (8 - rest)) (-5)
  let i := (freeBlocksStart / 8).toNat + if rest != 0 then 1 else 0
  let o ← CheckedFd.writeMany 1 (fun _ => 0) (-6) ((sb.blockCnt / 8).toNat - i) o
  let rest := (sb.blockCnt % 8).toNat
  o.writeIf (rest != 0) 1 (fun _ => 0 >>> UInt8.ofNat (8 - rest)) (-7)

/-- `make_akpfs`; the result of a successful run is the descriptor behind it. -/
def makeAkpfs (o : CheckedFd) (devSize blockSize : Nat) (stack : Mem) : Except Int CheckedFd := do
  let sb := computeAkpfsSb devSize blockSize
  let bs := UInt32.ofNat blockSize
  let o ← (o.lseek (0 * bs).toNat).write 44 sb.bytes (-1)
  let o ← clearInodeBlocks sb blockSize (computeAkpfsEmptyInode stack) sb.inodesBlockCnt.toNat
    sb.inodesBlockStart o
  let rootPos := (sb.inodesBlockStart + sb.rootInode / sb.inodesPerBlock) * bs +
    sb.rootInode % sb.inodesPerBlock * 128
  let o ← (o.lseek rootPos.toNat).write 128 (rootInodeOf sb).bytes (-3)
  let o ← o.write 128 (fileInodeOf sb).bytes (-3)
  let o ← (o.lseek (sb.dataBlockStart * bs).toNat).write fileData.length (.ofList fileData) (-3)
  writeFreeBits sb (sb.dataBlockStart + 1) (o.lseek (sb.freeBitsBlockStart * bs).toNat)

end LinuxDrivers.Akpfs
