import LinuxDrivers.Lib.Bytes

/-!
# Block devices behind the buffer cache

`sb_bread` reads one block of `s_blocksize` bytes; any single read may fail. Writing through a
buffer head and marking it dirty changes the block in place and cannot fail. The error numbers are
those that the drivers return.
-/

namespace LinuxDrivers

def ENOENT : Int := 2
def EIO : Int := 5
def EAGAIN : Int := 11
def ENOMEM : Int := 12
def EACCES : Int := 13
def EBUSY : Int := 16
def EINVAL : Int := 22
def ENOSPC : Int := 28
def ETIMEDOUT : Int := 110

/-- A block device as a mounted file system sees it. -/
structure Device where
  /-- The bytes of the device, with the dirty buffers in place. -/
  data : Mem
  /-- `s_blocksize` of the VFS super block, the unit of `sb_bread`. -/
  blocksize : Nat
  /-- Whether the `n`-th read of the run fails. -/
  fails : Nat → Bool
  /-- The number of reads made so far. -/
  reads : Nat

namespace Device

/-- `sb_bread`: the data of block `n`, or nothing when this read fails. -/
def sbBread (d : Device) (n : Nat) : Option Mem × Device :=
  (if d.fails d.reads then none else some (d.data.window (n * d.blocksize)),
    { d with reads := d.reads + 1 })

/-- `memcpy` into the data of block `n` at `offset`, then `mark_buffer_dirty`. -/
def modify (d : Device) (n offset len : Nat) (src : Mem) : Device :=
  { d with data := d.data.store (n * d.blocksize + offset) len src }

theorem sbBread_of_ok {d : Device} (h : d.fails d.reads = false) (n : Nat) :
    d.sbBread n = (some (d.data.window (n * d.blocksize)), { d with reads := d.reads + 1 }) := by
  simp [sbBread, h]

theorem sbBread_of_fails {d : Device} (h : d.fails d.reads = true) (n : Nat) :
    d.sbBread n = (none, { d with reads := d.reads + 1 }) := by
  simp [sbBread, h]

/-- No read of the device fails. -/
def Reliable (d : Device) : Prop := ∀ n, d.fails n = false

theorem sbBread_of_reliable {d : Device} (h : d.Reliable) (n : Nat) :
    d.sbBread n = (some (d.data.window (n * d.blocksize)), { d with reads := d.reads + 1 }) :=
  sbBread_of_ok (h d.reads) n

end Device

end LinuxDrivers
