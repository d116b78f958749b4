import LinuxDrivers.Lib.FileHandle
import LinuxDrivers.Sfs.Kernel

/-!
# The browsing shell

`browse_real_sfs.c`: the same file system over a file descriptor. The table is read in sequence from
its start; entries are rewritten at an offset that is computed with `entry_size`. The inner loops
over the block numbers of an entry are those of the driver and are shared with it.
-/

namespace LinuxDrivers.Shell

open Sfs (SuperBlock FileEntry simulaFsType markBlocks)

/-- The globals of the shell, its device and what it has written to standard output. -/
structure State where
  fd : Fd
  sb : SuperBlock
  usedBlocks : Nat → UInt8
  /-- The block buffer that reads and writes of files go through. -/
  block : Mem
  out : List UInt8

/-! ## Messages -/

def missing (fn : CStr) : List UInt8 := ascii "File " ++ fn.bytes ++ ascii " doesn't exist\n"

def duplicate (fn : CStr) : List UInt8 := ascii "File " ++ fn.bytes ++ ascii " already exists\n"

def noEntries : List UInt8 := ascii "No entries left\n"

def notReadable (fn : CStr) : List UInt8 :=
  ascii "File " ++ fn.bytes ++ ascii " doesn't have read permissions\n"

def notWritable (fn : CStr) : List UInt8 :=
  ascii "File " ++ fn.bytes ++ ascii " doesn't have write permissions\n"

namespace State

def lseek (s : State) (off : Nat) : State := { s with fd := s.fd.lseek off }

/-- `read(sfs_handle, &fe, sizeof(sfs_file_entry_t))`. -/
def readEntry (s : State) : FileEntry × State :=
  match s.fd.read 64 with
  | (data, fd) => (.ofMem data, { s with fd })

/-- `write(sfs_handle, &fe, sizeof(sfs_file_entry_t))`. -/
def writeEntry (s : State) (fe : FileEntry) : State := { s with fd := s.fd.write 64 fe.bytes }

/-- The bytes appear on standard output. -/
def put (s : State) (bytes : List UInt8) : State := { s with out := s.out ++ bytes }

/-- The offset of the entry table. -/
def tableStart (s : State) : Nat := (s.sb.entryTableBlockStart * s.sb.blockSize).toNat

/-- The offset at which entry `i` is rewritten. -/
def entryOffset (s : State) (i : Int) : Nat :=
  (s.sb.entryTableBlockStart * s.sb.blockSize + .ofInt i * s.sb.entrySize).toNat

end State

/-! ## Starting and the block allocator -/

/-- The loop of `init_browsing` over the next `n` entries. -/
def markEntries : Nat → (Nat → UInt8) → State → (Nat → UInt8) × State
  | 0, used, s => (used, s)
  | n + 1, used, s =>
    match s.readEntry with
    | (fe, s) =>
      if !fe.live then markEntries n used s
      else markEntries n (markBlocks fe.blocks.toList used) s

/-- `init_browsing`; without memory the shell exits. -/
def initBrowsing (callocOk : Bool) (s : State) : Option State :=
  if !callocOk then none
  else
    let used := fun i => if i < s.sb.dataBlockStart.toNat then 1 else 0
    match markEntries s.sb.entryCount.toNat used (s.lseek s.tableStart) with
    | (used, s) => some { s with usedBlocks := used }

/-- `main` up to the first command; the shell gives up on a wrong magic number. -/
def start (callocOk : Bool) (disk : Mem) : Option State :=
  match Fd.read ⟨disk, 0⟩ 512 with
  | (data, fd) =>
    let sb := SuperBlock.ofMem data
    if sb.type ≠ simulaFsType then none
    else initBrowsing callocOk ⟨fd, sb, fun _ => 0, fun _ => 0, []⟩

def getDataBlock (s : State) : Int × State :=
  let start := s.sb.dataBlockStart.toNat
  match findFrom (s.usedBlocks · == 0) (s.sb.partitionSize.toNat - start) start with
  | some i => (i, { s with usedBlocks := Function.update s.usedBlocks i 1 })
  | none => (-1, s)

def putDataBlock (s : State) (i : UInt32) : State :=
  { s with usedBlocks := Function.update s.usedBlocks i.toNat 0 }

/-- The loops of `sfs_remove` and `sfs_write` that free the blocks up to the first zero. -/
def putBlocks : List UInt32 → State → State
  | [], s => s
  | b :: bs, s => if b = 0 then s else putBlocks bs (putDataBlock s b)

/-! ## Entries -/

/-- How the search of `sfs_create` ends. -/
inductive Search where
  | free
  | duplicate
  | full

/-- The loop of `sfs_create` over the next `n` entries: it stops at the first free one. -/
def searchFree (fn : CStr) : Nat → FileEntry → State → Search × FileEntry × State
  | 0, fe, s => (.full, fe, s)
  | n + 1, _, s =>
    match s.readEntry with
    | (fe, s) =>
      if !fe.live then (.free, fe, s)
      else if fe.nameString = fn.bytes then (.duplicate, fe, s)
      else searchFree fn n fe s

/-- `sfs_create`; `now` is `time(NULL)`. -/
def sfsCreate (s : State) (fn : CStr) (now : Int) : State :=
  -- the local `fe` is filled by the first read; with no entries it is not used
  match searchFree fn s.sb.entryCount.toNat .zero (s.lseek s.tableStart) with
  | (.duplicate, _, s) => s.put (duplicate fn)
  | (.full, _, s) => s.put noEntries
  | (.free, fe, s) =>
    State.writeEntry { s with fd := s.fd.seekBack s.sb.entrySize.toNat } (fe.created fn 7 now)

/-- The loop of `sfs_lookup` over the `n` entries from `i` on. -/
def lookupFrom (fn : CStr) : Nat → Nat → FileEntry → State → (Int × FileEntry) × State
  | 0, _, fe, s => ((-1, fe), s)
  | n + 1, i, _, s =>
    match s.readEntry with
    | (fe, s) =>
      if !fe.live then lookupFrom fn n (i + 1) fe s
      else if fe.nameString = fn.bytes then ((i, fe), s)
      else lookupFrom fn n (i + 1) fe s

def sfsLookup (s : State) (fn : CStr) (fe : FileEntry) : (Int × FileEntry) × State :=
  lookupFrom fn s.sb.entryCount.toNat 0 fe (s.lseek s.tableStart)

def sfsRemove (s : State) (fn : CStr) : State :=
  match sfsLookup s fn .zero with
  | ((i, fe), s) =>
    if i = -1 then s.put (missing fn)
    else
      let s := putBlocks fe.blocks.toList s
      (s.lseek (s.entryOffset i)).writeEntry .zero

/-- `sfs_update`; `now` is given when the timestamp is to be updated. -/
def sfsUpdate (s : State) (fn : CStr) (size now perms : Option Int) : State :=
  match sfsLookup s fn .zero with
  | ((i, fe), s) =>
    if i = -1 then s.put (missing fn)
    else (s.lseek (s.entryOffset i)).writeEntry (fe.updated size now perms)

def sfsChperm (s : State) (fn : CStr) (perm : Int) : State :=
  sfsUpdate s fn none none (some perm)

/-! ## Reading -/

/-- The loop of `sfs_read`; the counters are compared and subtracted as unsigned words. -/
def readBlocks : List UInt32 → UInt32 → State → State
  | [], _, s => s
  | b :: bs, remToRead, s =>
    if b = 0 then s
    else
      let toRead := if remToRead ≥ s.sb.blockSize then s.sb.blockSize else remToRead
      let s := s.lseek (b * s.sb.blockSize).toNat
      match s.fd.read toRead.toNat with
      | (data, fd) =>
        let block := s.block.store 0 toRead.toNat data
        let s := { s with fd, block }.put (block.load 0 toRead.toNat)
        if remToRead - toRead = 0 then s else readBlocks bs (remToRead - toRead) s

def sfsRead (s : State) (fn : CStr) : State :=
  match sfsLookup s fn .zero with
  | ((i, fe), s) =>
    if i = -1 then s.put (missing fn)
    else if fe.perms &&& 4 = 0 then s.put (notReadable fn)
    else readBlocks fe.blocks.toList fe.size s

/-! ## Writing -/

/-- Standard input as the chunks that are there when `read` is called. -/
abbrev Stdin := List (List UInt8)

/-- `read(0, buf, n)`: at most `n` bytes of the next chunk, none at the end of the input. -/
def readStdin (n : Nat) : Stdin → List UInt8 × Stdin
  | [] => ([], [])
  | c :: cs => if c.length ≤ n then (c, cs) else (c.take n, c.drop n :: cs)

/-- The locals of `sfs_write`. -/
structure Writer where
  curReadI : Nat
  toRead : Nat
  totalSize : Nat
  blockI : Nat
  fe : FileEntry

/-- The loop of `sfs_write`; the flag tells whether it ended because `read` gave nothing. Every turn
takes at least one byte, so `fuel` above the length of the input is never used up. -/
def writeLoop : Nat → Writer → Stdin → State → Bool × Writer × State
  | 0, w, _, s => (true, w, s)
  | fuel + 1, w, stdin, s =>
    match readStdin w.toRead stdin with
    | (bytes, stdin) =>
      if bytes.length = 0 then (true, w, s)
      else
        let s := { s with block := s.block.store w.curReadI bytes.length (Mem.ofList bytes) }
        if bytes.length = w.toRead then
          if w.blockI = 9 then (false, w, s)
          else
            match getDataBlock s with
            | (freeI, s) =>
              if freeI = -1 then (false, w, s)
              else
                let s := s.lseek (UInt32.ofInt freeI * s.sb.blockSize).toNat
                let s := { s with fd := s.fd.write s.sb.blockSize.toNat s.block }
                writeLoop fuel
                  { curReadI := 0
                    toRead := s.sb.blockSize.toNat
                    totalSize := w.totalSize + s.sb.blockSize.toNat
                    blockI := w.blockI + 1
                    fe := w.fe.setBlock w.blockI (.ofInt freeI) } stdin s
        else
          writeLoop fuel { w with
            curReadI := w.curReadI + bytes.length
            toRead := w.toRead - bytes.length } stdin s

/-- The partial block at the end of the input. A failed allocation leaves `-1` in the slot. -/
def writePartial (w : Writer) (s : State) : Writer × State :=
  if w.blockI = 9 then (w, s)
  else
    match getDataBlock s with
    | (b, s) =>
      let w := { w with fe := w.fe.setBlock w.blockI (.ofInt b) }
      if w.fe.block w.blockI = .ofInt (-1) then (w, s)
      else
        let s := s.lseek (w.fe.block w.blockI * s.sb.blockSize).toNat
        ({ w with totalSize := w.totalSize + w.curReadI },
          { s with fd := s.fd.write w.curReadI s.block })

/-- `sfs_write` after its loop: the partial block, the size, the timestamp and the entry. -/
def finishWrite (i now : Int) (eof : Bool) (w : Writer) (s : State) : State :=
  match if eof && w.curReadI != 0 then writePartial w s else (w, s) with
  | (w, s) =>
    (s.lseek (s.entryOffset i)).writeEntry
      { w.fe with size := .ofNat w.totalSize, timestamp := .ofInt now }

/-- `sfs_write` from the point where the old blocks have been freed. -/
def writeInput (s : State) (i : Int) (fe : FileEntry) (stdin : Stdin) (now : Int) : State :=
  let w := { curReadI := 0, toRead := s.sb.blockSize.toNat, totalSize := 0, blockI := 0, fe }
  match writeLoop (stdin.flatten.length + 1) w stdin s with
  | (eof, w, s) => finishWrite i now eof w s

def sfsWrite (s : State) (fn : CStr) (stdin : Stdin) (now : Int) : State :=
  match sfsLookup s fn .zero with
  | ((i, fe), s) =>
    if i = -1 then s.put (missing fn)
    else if fe.perms &&& 2 = 0 then s.put (notWritable fn)
    else writeInput (putBlocks fe.blocks.toList s) i fe stdin now

/-! ## Commands -/

/-- A command of the shell on a file, with the clock and the input it finds. -/
inductive Command where
  | create (fn : CStr) (now : Int)
  | remove (fn : CStr)
  | chperm (perm : Int) (fn : CStr)
  | read (fn : CStr)
  | write (fn : CStr) (stdin : Stdin) (now : Int)

def Command.exec (s : State) : Command → State
  | .create fn now => sfsCreate s fn now
  | .remove fn => sfsRemove s fn
  | .chperm perm fn => sfsChperm s fn perm
  | .read fn => sfsRead s fn
  | .write fn stdin now => sfsWrite s fn stdin now

end LinuxDrivers.Shell
