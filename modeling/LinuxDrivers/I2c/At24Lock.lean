import LinuxDrivers.I2c.At24
import LinuxDrivers.Lib.Mutex

/-!
# The lock of the EEPROM driver

`at24_read` and `at24_write` take the lock of the driver. `eeprom_read` and `eeprom_write` of the
character device take it too, and then call them; the files of sysfs and the memory accessor call
them directly. The lock is not recursive.
-/

namespace LinuxDrivers.I2c.At24

open LockOp

/-! ## The accesses -/

def EFBIG : Int := 27

/-- What `at24_read` and `at24_write` do with the lock. -/
def at24Ops (count : Nat) : List LockOp :=
  if count = 0 then [] else [lock, work, unlock]

/-- The `count` that both functions of the character device go on with. -/
def clampCount (size off count : Nat) : Nat := if off + count > size then size - off else count

/-- The start of `eeprom_read`: what it returns at once, or the `count` that it goes on with. -/
def eepromRead (size off count : Nat) (alloc : Bool) : Except Int Nat :=
  if off ≥ size then .error 0
  else if clampCount size off count = 0 then .error (clampCount size off count)
  else if !alloc then .error 0
  else .ok (clampCount size off count)

/-- The start of `eeprom_write`; `copied` says whether `copy_from_user` gets all bytes. -/
def eepromWrite (size off count : Nat) (alloc copied : Bool) : Except Int Nat :=
  if off ≥ size then .error (-EFBIG)
  else if clampCount size off count = 0 then .error (clampCount size off count)
  else if !alloc then .error 0
  else if !copied then .error (-EACCES)
  else .ok (clampCount size off count)

/-- An access to the EEPROM. -/
inductive Access where
  /-- `at24_bin_read`, `at24_bin_write`, `at24_macc_read` or `at24_macc_write` -/
  | sysfs (count : Nat)
  | read (off count : Nat) (alloc : Bool)
  | write (off count : Nat) (alloc copied : Bool)

/-- What the character device does with the lock around the driver's own functions. -/
def charOps : Except Int Nat → List LockOp
  | .error _ => []
  | .ok count => lock :: at24Ops count ++ [unlock]

/-- What an access does with the lock of an EEPROM of `size` bytes. -/
def Access.ops (size : Nat) : Access → List LockOp
  | .sysfs count => at24Ops count
  | .read off count alloc => charOps (eepromRead size off count alloc)
  | .write off count alloc copied => charOps (eepromWrite size off count alloc copied)

/-- An access of the character device that has bytes to move. -/
def Access.Moves (size : Nat) : Access → Prop
  | .sysfs _ => False
  | .read off count alloc => off < size ∧ 0 < count ∧ alloc
  | .write off count alloc copied => off < size ∧ 0 < count ∧ alloc ∧ copied

/-- Tasks that make accesses one after the other, and the free lock. -/
def startAccesses {n : Nat} (size : Nat) (calls : Fin n → List Access) : LockState (Fin n) where
  owner := none
  progs i := (calls i).flatMap (Access.ops size)

/-! ## Deadlocks -/

theorem at24Ops_safe (count : Nat) : Safe false (at24Ops count) ∧
  ¬ Relocks false (at24Ops count) := by
  unfold at24Ops
  split <;> simp [Safe, Relocks]

/-- The character device takes the lock twice when it has bytes to move. -/
theorem charOps_relocks {r : Except Int Nat} (hr : r ≠ .ok 0) :
    Safe false (charOps r) ∧ (Relocks false (charOps r) ↔ ∃ count, r = .ok count) := by
  rcases r with e | count
  · simp [charOps, Safe, Relocks]
  · have hpos : count ≠ 0 := fun h => hr (by rw [h])
    simp [charOps, at24Ops, hpos, Safe, Relocks]

theorem clampCount_pos {size off count : Nat} (hoff : off < size) :
    clampCount size off count ≠ 0 ↔ 0 < count := by
  unfold clampCount
  split <;> omega

theorem eepromRead_ok (size off count : Nat) (alloc : Bool) :
    eepromRead size off count alloc ≠ .ok 0 ∧
      ((∃ n, eepromRead size off count alloc = .ok n) ↔
        (Access.read off count alloc).Moves size) := by
  unfold eepromRead
  simp only [Access.Moves]
  by_cases hoff : off ≥ size
  · simp [hoff, Nat.not_lt.2 hoff]
  have hlt : off < size := Nat.lt_of_not_le hoff
  rw [← clampCount_pos hlt]
  by_cases hc : clampCount size off count = 0
  · simp [hoff, hc]
  · cases alloc <;> simp [hoff, hlt, hc]

theorem eepromWrite_ok (size off count : Nat) (alloc copied : Bool) :
    eepromWrite size off count alloc copied ≠ .ok 0 ∧
      ((∃ n, eepromWrite size off count alloc copied = .ok n) ↔
        (Access.write off count alloc copied).Moves size) := by
  unfold eepromWrite
  simp only [Access.Moves]
  by_cases hoff : off ≥ size
  · simp [hoff, Nat.not_lt.2 hoff]
  have hlt : off < size := Nat.lt_of_not_le hoff
  rw [← clampCount_pos hlt]
  by_cases hc : clampCount size off count = 0
  · simp [hoff, hc]
  · cases alloc <;> cases copied <;> simp [hoff, hlt, hc]

theorem Access.ops_relocks (size : Nat) (a : Access) :
    Safe false (a.ops size) ∧ (Relocks false (a.ops size) ↔ a.Moves size) := by
  cases a with
  | sysfs count =>
    obtain ⟨hs, hr⟩ := at24Ops_safe count
    exact ⟨hs, iff_of_false hr id⟩
  | read off count alloc =>
    obtain ⟨hne, hiff⟩ := eepromRead_ok size off count alloc
    obtain ⟨hs, hr⟩ := charOps_relocks hne
    exact ⟨hs, hr.trans hiff⟩
  | write off count alloc copied =>
    obtain ⟨hne, hiff⟩ := eepromWrite_ok size off count alloc copied
    obtain ⟨hs, hr⟩ := charOps_relocks hne
    exact ⟨hs, hr.trans hiff⟩

/-- The accesses of one task. -/
theorem accesses_relock (size : Nat) (as : List Access) :
    Safe false (as.flatMap (Access.ops size)) ∧
      (Relocks false (as.flatMap (Access.ops size)) ↔ ∃ a ∈ as, a.Moves size) := by
  induction as with
  | nil => simp [Safe, Relocks]
  | cons a as ih =>
    obtain ⟨hs, hr⟩ := a.ops_relocks size
    rw [List.flatMap_cons]
    refine ⟨hs.append ih.1, ?_⟩
    rw [relocks_append hs, hr, ih.2]
    simp

theorem startAccesses_safe {n : Nat} (size : Nat) (calls : Fin n → List Access) :
    (startAccesses size calls).AllSafe :=
  fun i => (accesses_relock size (calls i)).1

/-- **The lock.** Tasks that use an EEPROM can all finish exactly when none of them moves bytes
through the character device, and then from wherever they are. As soon as one task waits for the
lock that it holds, no access that still needs the lock ever gets it. -/
theorem accesses_finish_iff {n : Nat} (size : Nat) (calls : Fin n → List Access) :
    ((∃ sched, (run lockStep (startAccesses size calls) sched).Finished) ↔
        ∀ i, ∀ a ∈ calls i, ¬ a.Moves size) ∧
      (∀ sched, (∀ i, ∀ a ∈ calls i, ¬ a.Moves size) → ∃ more,
        (run lockStep (startAccesses size calls) (sched ++ more)).Finished) ∧
      ∀ sched i p, (run lockStep (startAccesses size calls) sched).owner = some i →
        (run lockStep (startAccesses size calls) sched).progs i = lock :: p → ∀ more j,
        lock ∈ (run lockStep (startAccesses size calls) sched).progs j →
          lock ∈ (run lockStep (startAccesses size calls) (sched ++ more)).progs j := by
  have hs := startAccesses_safe size calls
  have hrel : (∀ i, ¬ Relocks ((startAccesses size calls).held i)
      ((startAccesses size calls).progs i)) ↔ ∀ i, ∀ a ∈ calls i, ¬ a.Moves size := by
    refine forall_congr' fun i => ?_
    have h := not_congr (accesses_relock size (calls i)).2
    simp only [not_exists, not_and] at h
    exact h
  refine ⟨(LockState.finishes_iff hs List.mem_finRange).trans hrel, fun sched hno => ?_, ?_⟩
  · obtain ⟨hsafe, hiff⟩ := LockState.run_keeps hs sched
    obtain ⟨more, hfin⟩ := (LockState.finishes_iff hsafe List.mem_finRange).2
      fun i => mt (hiff i).1 (hrel.2 hno i)
    exact ⟨more, by rwa [run_append]⟩
  · intro sched i p howner hp more j hj
    rw [run_append]
    exact (LockState.stuck (LockState.run_keeps hs sched).1 howner hp more).2.2 j hj

end LinuxDrivers.I2c.At24
