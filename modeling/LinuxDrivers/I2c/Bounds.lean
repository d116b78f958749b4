import LinuxDrivers.DdkMem.File
import LinuxDrivers.I2c.Transfer

/-!
# The buffer of a transfer

`my_read` and `my_write` of `i2c_char.c`. Both functions give a transfer a buffer of the bytes they
were asked for. A transfer moves a byte for every ready bit and is only stopped by its polls, of
which there are four more than bytes, so that the controller decides whether it stays inside. Before
it reads, `my_read` sends an address of two bytes out of the same buffer, however small that is.
-/

namespace LinuxDrivers.I2c

open DdkMem (EFAULT)

/-! ## The calls -/

/-- What a call returns, which bytes of its buffer it reads or stores, and what the
user receives. -/
structure Report where
  ret : Int
  touched : List Nat
  user : List UInt8

/-- What `my_read` meets. -/
structure ReadEnv where
  /-- The memory that `kmalloc` returns, if any. -/
  tmp : Option Mem
  /-- What the first `omap_i2c_wait_for_bb` reads. -/
  busy : List UInt16
  /-- The controller while the address is sent. -/
  address : Answers
  /-- The controller while the bytes are received. -/
  answer : Answers
  /-- Whether `copy_to_user` fails. -/
  faults : Bool

def State.touched (s : State) : List Nat := s.moves.map Prod.fst

/-- The address that `my_read` sends, in the first two bytes of its buffer. -/
def addressMsg (tmp : Mem) : Msg :=
  ⟨0x50, 2, Function.update (Function.update tmp 0 0x00) 1 0x50⟩

/-- The bytes that `my_read` asks for. -/
def cutCount (count : UInt64) : UInt64 := if count > 8192 then 8192 else count

/-- The end of `my_read`, after `i2c_read` returned `ret`. -/
def copyOut (faults : Bool) (count : UInt64) (touched : List Nat) (ret : Int) (tmp : Mem) :
  Report :=
  if ret < 0 then ⟨ret, touched, []⟩
  else if faults then ⟨-EFAULT, touched ++ List.range count.toNat, []⟩
  else ⟨count.toNat, touched ++ List.range count.toNat, tmp.load 0 count.toNat⟩

/-- `my_read` from where the bus is free: the address is sent, and `count` bytes are received. What
the write and the second wait return is not looked at. -/
def readBytes (env : ReadEnv) (tmp : Mem) (count : UInt64) : Report :=
  let sent := (i2cWrite env.address (addressMsg tmp)).2
  let received := i2cRead env.answer ⟨0x50, count.toUInt16, sent.buf⟩
  copyOut env.faults count ([0, 1] ++ sent.touched ++ received.2.touched) received.1 received.2.buf

def myRead (env : ReadEnv) (count : UInt64) : Report :=
  match env.tmp with
  | none => ⟨-ENOMEM, [], []⟩
  | some tmp =>
    let ret := omapI2cWaitForBb env.busy
    if ret < 0 then ⟨ret, [0, 1], []⟩ else readBytes env tmp (cutCount count)

/-- `my_write`; `tmp` is what `memdup_user` returns. -/
def myWrite (tmp : Except Int Mem) (a : Answers) (count : UInt64) : Report :=
  match tmp with
  | .error e => ⟨e, [], []⟩
  | .ok tmp =>
    match i2cWrite a ⟨0x50, count.toUInt16, tmp⟩ with
    | (ret, s) => ⟨if ret = 0 then count.toNat else ret, s.touched, []⟩

/-! ## Inside the buffer -/

/-- `my_read` reads and stores only the bytes that it allocated. -/
def ReadInside (env : ReadEnv) (count : UInt64) : Prop :=
  ∀ i ∈ (myRead env count).touched, i < min count.toNat 8192

/-- `my_write` reads only the bytes that were copied. -/
def WriteInside (tmp : Except Int Mem) (a : Answers) (count : UInt64) : Prop :=
  ∀ i ∈ (myWrite tmp a count).touched, i < count.toNat

/-- Of the events of a transfer of `len` bytes, no more than `size` ask for a byte before the
polling ends. -/
def AsksFor (dir : Dir) (a : Answers) (len size : Nat) : Prop :=
  ∀ j ≤ len + 4, Polled dir a j → asked dir a j ≤ size

section

variable {dir : Dir} {bufWord conWord : UInt16} {a : Answers} {msg : Msg} {size : Nat}

theorem transfer_inside_iff (hsize : size < 2 ^ 16) :
    (∀ i ∈ (transfer dir bufWord conWord a msg).2.touched, i < size) ↔
      AsksFor dir a msg.len.toNat size := by
  obtain ⟨j, hj, hpolled, hmax, hmoves⟩ := transfer_moves dir bufWord conWord a msg
  have htouched : (transfer dir bufWord conWord a msg).2.touched =
      (List.range (asked dir a j)).map (· % 2 ^ 16) := by
    rw [State.touched, hmoves, List.map_map]
    rfl
  simp only [htouched, List.mem_map, List.mem_range, forall_exists_index, and_imp,
    forall_apply_eq_imp_iff₂]
  constructor
  · intro hin i hi hpolledi
    refine Nat.le_trans (asked_mono (hmax i hi hpolledi)) ?_
    by_contra hlt
    -- the byte behind the buffer is asked for, and its index is not cut
    have hbehind := hin size (by omega)
    rw [Nat.mod_eq_of_lt hsize] at hbehind
    omega
  · intro hasks i hi
    exact Nat.lt_of_le_of_lt (Nat.mod_le _ _) (Nat.lt_of_lt_of_le hi (hasks j hj hpolled))

/-- An index has 16 bits. -/
theorem transfer_inside_of_le (hsize : 2 ^ 16 ≤ size) :
    ∀ i ∈ (transfer dir bufWord conWord a msg).2.touched, i < size := by
  obtain ⟨j, -, -, -, hmoves⟩ := transfer_moves dir bufWord conWord a msg
  intro i hi
  rw [State.touched, hmoves, List.map_map] at hi
  obtain ⟨k, -, rfl⟩ := List.mem_map.1 hi
  exact Nat.lt_of_lt_of_le (Nat.mod_lt _ (by decide)) hsize

/-- What was not touched is as it was. -/
theorem transfer_buf_of_not_touched {i : Nat}
    (hi : i ∉ (transfer dir bufWord conWord a msg).2.touched) :
    (transfer dir bufWord conWord a msg).2.buf i = msg.buf i := by
  rw [transfer_buf]
  exact Dir.bufOf_of_not_mem hi

theorem i2cWrite_inside_iff (a : Answers) (msg : Msg) (hsize : size < 2 ^ 16) :
    (∀ i ∈ (i2cWrite a msg).2.touched, i < size) ↔ AsksFor .write a msg.len.toNat size :=
  transfer_inside_iff hsize

theorem i2cRead_inside_iff (a : Answers) (msg : Msg) (hsize : size < 2 ^ 16) :
    (∀ i ∈ (i2cRead a msg).2.touched, i < size) ↔ AsksFor .read a msg.len.toNat size :=
  transfer_inside_iff hsize

end

theorem toNat_cutCount (count : UInt64) : (cutCount count).toNat = min count.toNat 8192 := by
  have hlt : count > 8192 ↔ 8192 < count.toNat := UInt64.lt_iff_toNat_lt
  unfold cutCount
  split
  · next h =>
    rw [Nat.min_eq_right (Nat.le_of_lt (hlt.1 h))]
    rfl
  · next h => rw [Nat.min_eq_left (Nat.le_of_not_lt (mt hlt.2 h))]

/-- The copy to the user is inside. -/
theorem copyOut_inside_iff (faults : Bool) (count : UInt64) (touched : List Nat) (ret : Int)
    (tmp : Mem) : (∀ i ∈ (copyOut faults count touched ret tmp).touched, i < count.toNat) ↔
      ∀ i ∈ touched, i < count.toNat := by
  have hcopy : ∀ i ∈ List.range count.toNat, i < count.toNat := fun i hi => List.mem_range.1 hi
  unfold copyOut
  split
  · rfl
  · split
    · rw [List.forall_mem_append, and_iff_left hcopy]
    · rw [List.forall_mem_append, and_iff_left hcopy]

/-- The address needs two bytes, the transfers what they are asked for. -/
theorem readBytes_inside_iff (env : ReadEnv) (tmp : Mem) {count : UInt64}
    (hcount : count.toNat < 2 ^ 16) :
    (∀ i ∈ (readBytes env tmp count).touched, i < count.toNat) ↔ 2 ≤ count.toNat ∧
      AsksFor .write env.address 2 count.toNat ∧
        AsksFor .read env.answer count.toNat count.toNat := by
  have hlen : count.toUInt16.toNat = count.toNat := by
    rw [UInt64.toNat_toUInt16, Nat.mod_eq_of_lt hcount]
  have hsent : _ ↔ AsksFor .write env.address 2 count.toNat :=
    i2cWrite_inside_iff env.address (addressMsg tmp) hcount
  have hreceived := i2cRead_inside_iff env.answer
    ⟨0x50, count.toUInt16, (i2cWrite env.address (addressMsg tmp)).2.buf⟩ hcount
  simp only [hlen] at hreceived
  have htwo : 2 ≤ count.toNat ↔ ∀ i ∈ [0, 1], i < count.toNat := by
    rw [List.forall_mem_cons, List.forall_mem_singleton]
    omega
  rw [htwo, ← hsent, ← hreceived, ← and_assoc, ← List.forall_mem_append, ← List.forall_mem_append]
  exact copyOut_inside_iff ..

theorem readInside_iff (env : ReadEnv) (count : UInt64) :
    ReadInside env count ↔
      env.tmp = none ∨ 2 ≤ count.toNat ∧
        (omapI2cWaitForBb env.busy < 0 ∨
          AsksFor .write env.address 2 (min count.toNat 8192) ∧
            AsksFor .read env.answer (min count.toNat 8192) (min count.toNat 8192)) := by
  cases htmp : env.tmp with
  | none => simp [ReadInside, myRead, htmp]
  | some tmp =>
    rw [or_iff_right (Option.some_ne_none tmp)]
    by_cases hbusy : omapI2cWaitForBb env.busy < 0
    · have htouched : (myRead env count).touched = [0, 1] := by
        simp only [myRead, htmp, if_pos hbusy]
      rw [ReadInside, htouched, List.forall_mem_cons, List.forall_mem_singleton]
      omega
    · have hcut := toNat_cutCount count
      have hlt : (cutCount count).toNat < 2 ^ 16 := by omega
      have hiff := readBytes_inside_iff env tmp hlt
      have htwo : 2 ≤ min count.toNat 8192 ↔ 2 ≤ count.toNat := by omega
      rw [hcut, htwo] at hiff
      rw [or_iff_right hbusy, ← hiff]
      simp only [ReadInside, myRead, htmp, if_neg hbusy]

theorem writeInside_iff (tmp : Except Int Mem) (a : Answers) (count : UInt64) :
    WriteInside tmp a count ↔
      (∃ e, tmp = .error e) ∨ 2 ^ 16 ≤ count.toNat ∨
        AsksFor .write a count.toNat count.toNat := by
  unfold WriteInside myWrite
  cases tmp with
  | error e => simp
  | ok tmp =>
    have hnot : ¬ ∃ e, (Except.ok tmp : Except Int Mem) = .error e := fun ⟨_, h⟩ => by cases h
    rw [or_iff_right hnot]
    by_cases hle : 2 ^ 16 ≤ count.toNat
    · exact iff_of_true (transfer_inside_of_le hle) (.inl hle)
    · rw [or_iff_right hle]
      have hlen : count.toUInt16.toNat = count.toNat := by
        rw [UInt64.toNat_toUInt16]
        omega
      have hiff := i2cWrite_inside_iff a ⟨0x50, count.toUInt16, tmp⟩ (Nat.lt_of_not_le hle)
      rw [hlen] at hiff
      exact hiff

/-- For every count and every sequence of events. -/
theorem calls_inside_iff (env : ReadEnv) (tmp : Except Int Mem) (a : Answers) (count : UInt64) :
    (ReadInside env count ↔
        env.tmp = none ∨ 2 ≤ count.toNat ∧
          (omapI2cWaitForBb env.busy < 0 ∨
            AsksFor .write env.address 2 (min count.toNat 8192) ∧
              AsksFor .read env.answer (min count.toNat 8192) (min count.toNat 8192))) ∧
      (WriteInside tmp a count ↔
        (∃ e, tmp = .error e) ∨ 2 ^ 16 ≤ count.toNat ∨
          AsksFor .write a count.toNat count.toNat) :=
  ⟨readInside_iff env count, writeInside_iff tmp a count⟩

/-- Every wait finds this status. -/
def Answers.always (status : UInt16) : Answers := ⟨0, fun _ => [status], fun _ => 0, 0⟩

/-- One byte is read: the second byte of the address is stored behind the buffer. One byte is
written: the controller asks for five. -/
theorem not_calls_inside :
    ¬ ReadInside ⟨some fun _ => 0, [0], .always statArdy, .always statArdy, false⟩ 1 ∧
      ¬ WriteInside (.ok fun _ => 0) (.always statXrdy) 1 := by
  refine ⟨fun h => ?_, fun h => ?_⟩
  · exact absurd (h 1 (by decide)) (by decide)
  · exact absurd (h 4 (by decide)) (by decide)

end LinuxDrivers.I2c
