import LinuxDrivers.Lib.Bytes

/-!
# Open device files

A file descriptor on a device: its bytes and the file position. Reads and writes move the position
by the whole length; the device is never too short. `CheckedFd` is a descriptor whose writes may
fail and whose user stops at the first failure.
-/

namespace LinuxDrivers

structure Fd where
  data : Mem
  pos : Nat

namespace Fd

/-- `lseek(fd, off, SEEK_SET)`. -/
def lseek (fd : Fd) (off : Nat) : Fd := { fd with pos := off }

/-- `lseek(fd, -off, SEEK_CUR)`; before the start of the file it fails and changes nothing. -/
def seekBack (fd : Fd) (off : Nat) : Fd :=
  if off ≤ fd.pos then { fd with pos := fd.pos - off } else fd

/-- `write(fd, src, len)`. -/
def write (fd : Fd) (len : Nat) (src : Mem) : Fd where
  data := fd.data.store fd.pos len src
  pos := fd.pos + len

/-- `read(fd, buf, len)`: the bytes from the position on. -/
def read (fd : Fd) (len : Nat) : Mem × Fd :=
  (fd.data.window fd.pos, { fd with pos := fd.pos + len })

@[simp] theorem write_pos (fd : Fd) (len : Nat) (src : Mem) :
    (fd.write len src).pos = fd.pos + len := rfl

@[simp] theorem write_data (fd : Fd) (len : Nat) (src : Mem) :
    (fd.write len src).data = fd.data.store fd.pos len src := rfl

/-- A write that may be skipped changes nothing before the old position or behind the new one. -/
theorem writeIf_outside {c : Bool} {len : Nat} {src : Mem} {fd : Fd} {x : Nat}
    (h : x < fd.pos ∨ (if c then fd.write len src else fd).pos ≤ x) :
    (if c then fd.write len src else fd).data x = fd.data x := by
  cases c with
  | false => rfl
  | true =>
    rw [if_pos rfl, write_pos] at h
    rw [if_pos rfl, write_data]
    exact Mem.store_of_not_mem h

/-- `n` times `write(fd, src, len)`. -/
def writeMany (len : Nat) (src : Mem) : Nat → Fd → Fd
  | 0, fd => fd
  | n + 1, fd => writeMany len src n (fd.write len src)

theorem writeMany_pos (len : Nat) (src : Mem) (n : Nat) (fd : Fd) :
    (writeMany len src n fd).pos = fd.pos + n * len := by
  induction n generalizing fd with
  | zero => simp [writeMany]
  | succ n ih => rw [writeMany, ih, write_pos, Nat.succ_mul]; omega

theorem writeMany_outside {len : Nat} {src : Mem} {n : Nat} {fd : Fd} {x : Nat}
    (h : x < fd.pos ∨ fd.pos + n * len ≤ x) : (writeMany len src n fd).data x = fd.data x := by
  induction n generalizing fd with
  | zero => rfl
  | succ n ih =>
    rw [Nat.succ_mul] at h
    rw [writeMany, ih (by simp only [write_pos]; omega), write_data]
    exact Mem.store_of_not_mem (by omega)

/-- The bytes written by the `j`-th of the writes. -/
theorem writeMany_inside {len : Nat} {src : Mem} {n : Nat} {fd : Fd} {j k : Nat} (hj : j < n)
    (hk : k < len) : (writeMany len src n fd).data (fd.pos + j * len + k) = src k := by
  induction n generalizing fd j with
  | zero => omega
  | succ n ih =>
    rw [writeMany]
    cases j with
    | zero =>
      rw [writeMany_outside (by simp only [write_pos]; omega), write_data, Nat.zero_mul,
        Nat.add_zero]
      exact Mem.store_window hk
    | succ j =>
      have := @ih (fd.write len src) j (by omega)
      rw [write_pos] at this
      rw [← this]
      congr 1
      rw [Nat.succ_mul]
      omega

end Fd

/-- A descriptor of which any single write may fail. -/
structure CheckedFd where
  fd : Fd
  /-- Whether the `n`-th write of the run fails. -/
  fails : Nat → Bool
  /-- The number of writes made so far. -/
  writes : Nat

namespace CheckedFd

/-- `lseek(fd, off, SEEK_SET)`. -/
def lseek (o : CheckedFd) (off : Nat) : CheckedFd := { o with fd := o.fd.lseek off }

/-- `if (write(fd, src, len) == -1) return code;`. -/
def write (o : CheckedFd) (len : Nat) (src : Mem) (code : Int) : Except Int CheckedFd :=
  if o.fails o.writes then .error code
  else .ok { o with fd := o.fd.write len src, writes := o.writes + 1 }

/-- The same under a condition. -/
def writeIf (o : CheckedFd) (c : Bool) (len : Nat) (src : Mem) (code : Int) :
    Except Int CheckedFd :=
  if c then o.write len src code else .ok o

/-- `n` times `if (write(fd, src, len) == -1) return code;`. -/
def writeMany (len : Nat) (src : Mem) (code : Int) : Nat → CheckedFd → Except Int CheckedFd
  | 0, o => .ok o
  | n + 1, o => do writeMany len src code n (← o.write len src code)

@[simp] theorem fd_lseek (o : CheckedFd) (off : Nat) : (o.lseek off).fd = o.fd.lseek off := rfl

/-- A computation that gives a result passes through its first part. -/
theorem bind_eq_ok {ε α β : Type} {x : Except ε α} {f : α → Except ε β} {r : β} :
    x >>= f = .ok r ↔ ∃ a, x = .ok a ∧ f a = .ok r := by
  cases x with
  | error e =>
    constructor
    · intro h
      cases h
    · intro h
      obtain ⟨a, ha, -⟩ := h
      cases ha
  | ok a =>
    constructor
    · intro h
      exact ⟨a, rfl, h⟩
    · intro h
      obtain ⟨a', ha, hf⟩ := h
      cases ha
      exact hf

theorem write_ok {o o' : CheckedFd} {len : Nat} {src : Mem} {code : Int}
    (h : o.write len src code = .ok o') : o'.fd = o.fd.write len src := by
  unfold write at h
  split at h
  · cases h
  · cases h
    rfl

/-- A write at a given offset. -/
theorem lseek_write_ok {o o' : CheckedFd} {off len : Nat} {src : Mem} {code : Int}
    (h : (o.lseek off).write len src code = .ok o') :
    o'.fd = ⟨o.fd.data.store off len src, off + len⟩ :=
  write_ok h

theorem writeIf_ok {o o' : CheckedFd} {c : Bool} {len : Nat} {src : Mem} {code : Int}
    (h : o.writeIf c len src code = .ok o') : o'.fd = if c then o.fd.write len src else o.fd := by
  cases c with
  | true => exact write_ok h
  | false =>
    cases h
    rfl

theorem writeMany_ok {n : Nat} {o o' : CheckedFd} {len : Nat} {src : Mem} {code : Int}
    (h : writeMany len src code n o = .ok o') : o'.fd = Fd.writeMany len src n o.fd := by
  induction n generalizing o with
  | zero =>
    cases h
    rfl
  | succ n ih =>
    rw [writeMany, bind_eq_ok] at h
    obtain ⟨o₁, hwrite, hrest⟩ := h
    rw [ih hrest, write_ok hwrite]
    rfl

/-- No write fails. -/
def Reliable (o : CheckedFd) : Prop := ∀ n, o.fails n = false

/-- The computation gives a descriptor whose writes do not fail. -/
def Succeeds (x : Except Int CheckedFd) : Prop := ∃ o, x = .ok o ∧ o.Reliable

theorem Succeeds.bind {x : Except Int CheckedFd} {f : CheckedFd → Except Int CheckedFd}
    (hx : Succeeds x) (hf : ∀ o, o.Reliable → Succeeds (f o)) : Succeeds (x >>= f) := by
  obtain ⟨o, rfl, ho⟩ := hx
  exact hf o ho

theorem Reliable.write {o : CheckedFd} (h : o.Reliable) (len : Nat) (src : Mem) (code : Int) :
    Succeeds (o.write len src code) := by
  unfold CheckedFd.write
  rw [h o.writes]
  exact ⟨_, rfl, h⟩

theorem Reliable.writeIf {o : CheckedFd} (h : o.Reliable) (c : Bool) (len : Nat) (src : Mem)
    (code : Int) : Succeeds (o.writeIf c len src code) := by
  cases c with
  | true => exact h.write len src code
  | false => exact ⟨o, rfl, h⟩

theorem Reliable.writeMany {o : CheckedFd} (h : o.Reliable) (len : Nat) (src : Mem) (code : Int)
    (n : Nat) : Succeeds (writeMany len src code n o) := by
  induction n generalizing o with
  | zero => exact ⟨o, rfl, h⟩
  | succ n ih => exact (h.write len src code).bind fun o ho => ih ho

end CheckedFd

end LinuxDrivers
