import LinuxDrivers.DdkMem.File
import LinuxDrivers.Lib.Run

/-!
# Bytes that are left over

A DDK device serves its memory at two offsets. A read returns the memory at the position of the file
as long as the bytes left over in `in_buf` are those of the memory at that position. Neither
`ddk_llseek` nor `ddk_write` drops them, so a call that moves the position while bytes are left over
must move it to a place with the same bytes.
-/

namespace LinuxDrivers.DdkMem

open Ddk (Dir Errno)

/-! ## The device -/

/-- A device memory with its two offsets. -/
structure DevMem where
  mem : Mem
  size : UInt16
  rdOff : UInt16
  wrOff : UInt16

namespace DevMem

def off (d : DevMem) : Dir → UInt16
  | .read => d.rdOff
  | .write => d.wrOff

def setOff (d : DevMem) (value : UInt16) : Dir → DevMem
  | .read => { d with rdOff := value }
  | .write => { d with wrOff := value }

@[simp] theorem setOff_mem (d : DevMem) (value : UInt16) (dir : Dir) :
    (d.setOff value dir).mem = d.mem := by
  cases dir <;> rfl

@[simp] theorem setOff_size (d : DevMem) (value : UInt16) (dir : Dir) :
    (d.setOff value dir).size = d.size := by
  cases dir <;> rfl

end DevMem

variable {σ : Type}

/-- The USB layer serves a device memory: what the calls that succeed do to it. A packet from the
device has bytes at the read offset, as many as the device likes; of a packet to the device some
bytes are stored at the write offset. -/
structure Serves (dev : Dev σ) (view : σ → DevMem) : Prop where
  set_ok : ∀ {dir value s n s'}, dev.controlSet dir value s = (.ok n, s') →
    view s' = (view s).setOff value dir
  get_ok : ∀ {dir s value s'}, dev.controlGet dir s = (.ok value, s') →
    value = (view s).off dir ∧ view s' = view s
  size_ok : ∀ {s value s'}, dev.controlSize s = (.ok value, s') →
    value = (view s).size ∧ view s' = view s
  in_ok : ∀ {len s packet s'}, dev.interruptIn len s = (.ok packet, s') → packet.length ≤ len ∧
    (view s).rdOff.toNat + packet.length ≤ (view s).size.toNat ∧
    packet = (view s).mem.load (view s).rdOff.toNat packet.length ∧
    view s' = { view s with rdOff := (view s).rdOff + .ofNat packet.length }
  out_ok : ∀ {packet s n s'}, dev.interruptOut packet s = (.ok n, s') → n ≤ packet.length ∧
    view s' = { view s with
      mem := (view s).mem.store (view s).wrOff.toNat n (.ofList packet)
      wrOff := (view s).wrOff + .ofNat n }

/-- Every control message that sets an offset succeeds. -/
def SetsOffsets (dev : Dev σ) : Prop :=
  ∀ dir value s, ∃ n s', dev.controlSet dir value s = (.ok n, s')

/-! ## What the calls do -/

section

variable {dev : Dev σ} {view : σ → DevMem}

/-- A function behind `set_off` succeeds only when both do. -/
theorem withOff_ok (hdev : Serves dev view) {α : Type} {dir : Dir} {offset : Nat} {f f' : File σ}
    {rest : File σ → Except Failure α × File σ} {a : α}
    (h : withOff dev dir offset f rest = (.ok a, f')) :
    ∃ s, view s = (view f.usb).setOff (.ofNat offset) dir ∧
      rest { f with usb := s } = (.ok a, f') := by
  unfold withOff setOff at h
  split at h
  · cases h
  · next s heq => exact ⟨s, hdev.set_ok heq, h⟩

/-- The file holds the same memory. -/
def SameMem (view : σ → DevMem) (s s' : σ) : Prop :=
  (view s').mem = (view s).mem ∧ (view s').size = (view s).size

/-- Everything that is left over stands at the position of the file. -/
structure Fresh (view : σ → DevMem) (f : File σ) : Prop where
  pos_le : f.fPos ≤ (view f.usb).size.toNat
  bytes : ∀ j < f.leftOver, f.fPos + j < (view f.usb).size.toNat ∧
    f.inBuf j = (view f.usb).mem (f.fPos + j)

/-- A packet that a read receives: the bytes at the position, with the read offset behind them. -/
theorem fetch_received (hdev : Serves dev view) {f f' : File σ} {n : Nat} (hleft : f.leftOver = 0)
    (hpos : f.fPos < 2 ^ 16) (h : fetch dev f = (.ok n, f')) :
    SameMem view f.usb f'.usb ∧ f'.fPos = f.fPos ∧ f.fPos + n ≤ (view f.usb).size.toNat ∧
      (view f'.usb).rdOff.toNat = f.fPos + n ∧
      ∀ j < n, f'.inBuf j = (view f.usb).mem (f.fPos + j) := by
  unfold fetch at h
  rw [if_neg (not_not.2 hleft)] at h
  obtain ⟨s₁, hset, h⟩ := withOff_ok hdev h
  split at h
  · cases h
  · next packet s₂ hin =>
    obtain ⟨-, hle, hbytes, hview⟩ := hdev.in_ok hin
    obtain ⟨s₃, hset', h⟩ := withOff_ok hdev h
    simp only [Prod.mk.injEq, Except.ok.injEq] at h
    obtain ⟨rfl, rfl⟩ := h
    have hrd : (view s₁).rdOff.toNat = f.fPos := by
      rw [hset]
      change (UInt16.ofNat f.fPos).toNat = f.fPos
      rw [UInt16.toNat_ofNat', Nat.mod_eq_of_lt hpos]
    rw [hrd] at hle hbytes
    rw [hset, DevMem.setOff_size] at hle
    rw [hset, DevMem.setOff_mem] at hbytes
    refine ⟨?_, rfl, hle, ?_, ?_⟩
    · simp only [SameMem, hset', DevMem.setOff_mem, DevMem.setOff_size, hview, hset, and_self]
    · have hsize := (view f.usb).size.toNat_lt
      rw [hset', hview]
      change ((view s₁).rdOff + .ofNat packet.length).toNat = f.fPos + packet.length
      rw [UInt16.toNat_add, hrd, UInt16.toNat_ofNat']
      omega
    · intro j hj
      have hload : Mem.ofList packet j = (view f.usb).mem (f.fPos + j) := by
        rw [hbytes]
        simp [Mem.ofList, Mem.load, hj]
      rw [← hload]
      exact Mem.store_of_mem (by omega)

/-- The first part of a read finds the bytes at the position. -/
theorem fetch_ok (hdev : Serves dev view) {f f' : File σ} {n : Nat} (hf : Fresh view f)
    (h : fetch dev f = (.ok n, f')) :
    SameMem view f.usb f'.usb ∧ f'.fPos = f.fPos ∧ f.fPos + n ≤ (view f.usb).size.toNat ∧
      ∀ j < n, f'.inBuf j = (view f.usb).mem (f.fPos + j) := by
  by_cases hleft : f.leftOver = 0
  · have hpos := Nat.lt_of_le_of_lt hf.pos_le (view f.usb).size.toNat_lt
    obtain ⟨hmem, hsame, hle, -, hbytes⟩ := fetch_received hdev hleft hpos h
    exact ⟨hmem, hsame, hle, hbytes⟩
  · -- bytes are left over
    unfold fetch at h
    rw [if_pos hleft, Prod.mk.injEq, Except.ok.injEq] at h
    obtain ⟨rfl, rfl⟩ := h
    refine ⟨⟨rfl, rfl⟩, rfl, ?_, fun j hj => (hf.bytes j hj).2⟩
    have := (hf.bytes (f.leftOver - 1) (by omega)).1
    omega

theorem shiftDown_apply (cnt n : Nat) (buf : Mem) (j : Nat) :
    shiftDown cnt (cnt + n) buf j = if j < n then buf (cnt + j) else buf j := by
  unfold shiftDown
  rw [Nat.add_sub_cancel_left]
  induction n generalizing j with
  | zero => simp
  | succ n ih =>
    rw [List.range'_concat, List.foldl_append]
    simp only [List.foldl_cons, List.foldl_nil, Nat.one_mul, Nat.add_sub_cancel_left]
    by_cases hj : j = n
    · subst hj
      -- the byte that is moved has not been overwritten yet
      rw [Function.update_self, ih, if_neg (by omega), if_pos (by omega)]
    · rw [Function.update_of_ne hj, ih]
      by_cases hlt : j < n
      · rw [if_pos hlt, if_pos (by omega)]
      · rw [if_neg hlt, if_neg (by omega)]

/-- **`ddk_read`** from a fresh file: the bytes of the memory at the position, which moves on. -/
theorem ddkRead_ok (hdev : Serves dev view) {f f' : File σ} {cnt mapped : Nat} {bytes : List UInt8}
    (hf : Fresh view f) (h : ddkRead dev cnt mapped f = (.ok bytes, f')) :
    SameMem view f.usb f'.usb ∧ f'.fPos = f.fPos + bytes.length ∧
      f.fPos + bytes.length ≤ (view f.usb).size.toNat ∧
      bytes = (view f.usb).mem.load f.fPos bytes.length ∧ bytes.length ≤ cnt ∧ Fresh view f' := by
  unfold ddkRead at h
  split at h
  · cases h
  · next readSize f₁ hfetch =>
    obtain ⟨hmem, hpos, hle, hbytes⟩ := fetch_ok hdev hf hfetch
    simp only [← Nat.min_def] at h
    split at h
    · cases h
    · simp only [Prod.mk.injEq, Except.ok.injEq] at h
      obtain ⟨rfl, rfl⟩ := h
      rw [Mem.length_load]
      refine ⟨hmem, by rw [← hpos], by omega, ?_, by omega, ?_, ?_⟩
      · apply List.map_congr_left
        intro j hj
        rw [List.mem_range] at hj
        rw [Nat.zero_add, hbytes j (by omega)]
      · simp only [hmem.2, hpos]
        omega
      · intro j hj
        simp only at hj
        split at hj
        · obtain ⟨n, rfl⟩ : ∃ n, readSize = cnt + n := ⟨readSize - cnt, by omega⟩
          simp only [hmem.1, hmem.2, hpos, shiftDown_apply]
          rw [if_pos (by omega), hbytes _ (by omega), Nat.min_eq_right (by omega), Nat.add_assoc]
          exact ⟨by omega, rfl⟩
        · omega

/-- **The loop** of `ddk_write` sends all of the data and stores what is left of it at the write
offset, as long as the offset does not wrap. -/
theorem writeLoop_ok (hdev : Serves dev view) {data : List UInt8} {mapped turns k n : Nat}
    {s s' : σ}
    (h : writeLoop dev data mapped turns k s = (.ok n, s')) (hk : k ≤ data.length) :
    n = data.length ∧ (view s').size = (view s).size ∧
      ∀ pos, (view s).wrOff.toNat = pos + k → pos + data.length < 2 ^ 16 →
        (view s').mem = (view s).mem.store (pos + k) (data.length - k) (.ofList (data.drop k)) := by
  have hdone : ∀ (m : Mem) (pos k : Nat), data.length ≤ k →
      m = m.store (pos + k) (data.length - k) (.ofList (data.drop k)) := by
    intro m pos k hge
    funext x
    exact (Mem.store_of_not_mem (by omega)).symm
  induction turns generalizing k s with
  | zero =>
    unfold writeLoop at h
    split at h
    · cases h
    · simp only [Prod.mk.injEq, Except.ok.injEq] at h
      obtain ⟨rfl, rfl⟩ := h
      exact ⟨by omega, rfl, fun pos _ _ => hdone _ _ _ (by omega)⟩
  | succ turns ih =>
    unfold writeLoop at h
    split at h
    · simp only at h
      split at h
      · cases h
      · split at h
        · cases h
        · next m s₁ hout =>
          obtain ⟨hm, hview⟩ := hdev.out_ok hout
          rw [List.length_take, List.length_drop] at hm
          obtain ⟨hn, hsize, hmem⟩ := ih h (by omega)
          refine ⟨hn, by rw [hsize, hview], fun pos hoff hin => ?_⟩
          have hoff₁ : (view s₁).wrOff.toNat = pos + (k + m) := by
            rw [hview, UInt16.toNat_add, UInt16.toNat_ofNat', hoff]
            omega
          -- the packet and the rest are stored one behind the other
          have hpacket : ∀ j < m, Mem.ofList
              ((data.drop k).take (min dev.outBufSize (data.length - k))) j =
                Mem.ofList (data.drop k) j := by
            intro j hj
            simp only [Mem.ofList, List.getD_eq_getElem?_getD]
            rw [List.getElem?_take_of_lt (by omega)]
          have hrest : Mem.ofList (data.drop (k + m)) = (Mem.ofList (data.drop k)).window m := by
            funext j
            simp [Mem.ofList, List.getD_eq_getElem?_getD, Nat.add_assoc]
          have hlen : data.length - k = m + (data.length - (k + m)) := by omega
          rw [hmem pos hoff₁ hin, hview, hoff, Mem.store_congr hpacket, hrest, ← Nat.add_assoc,
            Mem.store_store_append, ← hlen]
    · simp only [Prod.mk.injEq, Except.ok.injEq] at h
      obtain ⟨rfl, rfl⟩ := h
      exact ⟨by omega, rfl, fun pos _ _ => hdone _ _ _ (by omega)⟩

/-- What `ddk_write` and `ddk_llseek` have in common: the position moves to `pos`, and neither what
is left over nor the memory from there on changes. -/
structure Moves (view : σ → DevMem) (f f' : File σ) (pos : Nat) : Prop where
  fPos : f'.fPos = pos
  inBuf : f'.inBuf = f.inBuf
  leftOver : f'.leftOver = f.leftOver
  size : (view f'.usb).size = (view f.usb).size
  pos_le : pos ≤ (view f.usb).size.toNat
  mem : ∀ j, (view f'.usb).mem (pos + j) = (view f.usb).mem (pos + j)

/-- `ddk_write` sends all of the data and moves the position and both offsets behind it. -/
theorem ddkWrite_sent (hdev : Serves dev view) {f f' : File σ} {data : List UInt8}
    {mapped turns n : Nat} (h : ddkWrite dev data mapped turns f = (.ok n, f')) :
    n = data.length ∧ f'.fPos = f.fPos + data.length ∧ f'.inBuf = f.inBuf ∧
      f'.leftOver = f.leftOver ∧ (view f'.usb).size = (view f.usb).size ∧
      (view f'.usb).rdOff = .ofNat (f.fPos + data.length) ∧
      (f.fPos + data.length < 2 ^ 16 →
        (view f'.usb).mem = (view f.usb).mem.store f.fPos data.length (.ofList data)) := by
  unfold ddkWrite at h
  obtain ⟨s₁, hset, h⟩ := withOff_ok hdev h
  simp only at h
  split at h
  · cases h
  · next m s₂ hloop =>
    obtain ⟨s₃, hset', h⟩ := withOff_ok hdev h
    simp only [Prod.mk.injEq, Except.ok.injEq] at h
    obtain ⟨rfl, rfl⟩ := h
    obtain ⟨rfl, hsize, hmem⟩ := writeLoop_ok hdev hloop (Nat.zero_le _)
    rw [hset, DevMem.setOff_size] at hsize
    refine ⟨rfl, rfl, rfl, rfl, by rw [hset', DevMem.setOff_size, hsize], by rw [hset']; rfl, ?_⟩
    intro hin
    have hpos : (view s₁).wrOff.toNat = f.fPos + 0 := by
      rw [hset]
      change (UInt16.ofNat f.fPos).toNat = f.fPos
      rw [UInt16.toNat_ofNat']
      omega
    have hstored := hmem f.fPos hpos hin
    rw [hset, DevMem.setOff_mem, Nat.add_zero, Nat.sub_zero, List.drop_zero] at hstored
    rw [hset', DevMem.setOff_mem, hstored]

/-- **`ddk_write`** inside the memory stores the data at the position. -/
theorem ddkWrite_ok (hdev : Serves dev view) {f f' : File σ} {data : List UInt8}
    {mapped turns n : Nat} (h : ddkWrite dev data mapped turns f = (.ok n, f'))
    (hin : f.fPos + data.length ≤ (view f.usb).size.toNat) :
    n = data.length ∧
      (view f'.usb).mem = (view f.usb).mem.store f.fPos data.length (.ofList data) ∧
      Moves view f f' (f.fPos + data.length) := by
  obtain ⟨hn, hpos, hbuf, hleft, hsize, -, hmem⟩ := ddkWrite_sent hdev h
  have hstored := hmem (Nat.lt_of_le_of_lt hin (view f.usb).size.toNat_lt)
  refine ⟨hn, hstored, hpos, hbuf, hleft, hsize, hin, fun j => ?_⟩
  rw [hstored]
  exact Mem.store_of_not_mem (by omega)

/-- Where `ddk_llseek` goes. -/
def DevMem.seekTarget (d : DevMem) (offset : Int64) (whence : Whence) : Nat :=
  clampOffset d.size.toInt16.toInt (offset + .ofInt (match whence with
    | .seekSet | .other => 0
    | .seekCur => d.rdOff.toInt16.toInt
    | .seekEnd => d.size.toInt16.toInt))

/-- A word that is not an error has been read. -/
theorem shortOf_ok {r : Except Errno UInt16 × σ} {n : Int} {s : σ} (h : shortOf r = (n, s))
    (hn : 0 ≤ n) : ∃ value, r = (.ok value, s) ∧ n = value.toInt16.toInt := by
  rcases r with ⟨e | value, s₁⟩
  · have hneg := e.neg
    simp only [shortOf, Prod.mk.injEq] at h
    omega
  · simp only [shortOf, Prod.mk.injEq] at h
    exact ⟨value, by rw [h.2], h.1.symm⟩

theorem seekBase_ok (hdev : Serves dev view) {size base : Int} {whence : Whence} {s s' : σ}
    (hsize : size = (view s).size.toInt16.toInt)
    (h : seekBase dev size whence s = (.ok base, s')) (offset : Int64) :
    clampOffset size (offset + .ofInt base) = (view s).seekTarget offset whence ∧
      view s' = view s := by
  subst hsize
  cases whence with
  | seekSet =>
    simp only [seekBase, Prod.mk.injEq, Except.ok.injEq] at h
    exact ⟨by rw [← h.1]; rfl, by rw [h.2]⟩
  | seekCur =>
    simp only [seekBase] at h
    split at h
    · cases h
    · next hneg =>
      have hoff : shortOf (dev.controlGet .read s) =
          ((getOff dev .read s).1, (getOff dev .read s).2) := rfl
      obtain ⟨value, hget, hvalue⟩ := shortOf_ok hoff (by omega)
      obtain ⟨rfl, hview⟩ := hdev.get_ok hget
      simp only [Prod.mk.injEq, Except.ok.injEq] at h
      exact ⟨by rw [← h.1, hvalue]; rfl, by rw [← h.2, hview]⟩
  | seekEnd =>
    simp only [seekBase, Prod.mk.injEq, Except.ok.injEq] at h
    exact ⟨by rw [← h.1]; rfl, by rw [h.2]⟩
  | other => cases h

theorem clampOffset_le {size : Int} (hsize : 0 ≤ size) (offset : Int64) :
    (clampOffset size offset : Int) ≤ size := by
  unfold clampOffset
  split
  · exact hsize
  · split <;> omega

/-- **`ddk_llseek`** moves the position and the read offset. -/
theorem ddkLlseek_ok (hdev : Serves dev view) {f f' : File σ} {offset : Int64} {whence : Whence}
    {n : Nat} (h : ddkLlseek dev offset whence f = (.ok n, f')) :
    (view f'.usb).mem = (view f.usb).mem ∧
      (view f'.usb).rdOff = .ofNat ((view f.usb).seekTarget offset whence) ∧
      Moves view f f' ((view f.usb).seekTarget offset whence) := by
  unfold ddkLlseek at h
  split at h
  next size s₁ hsize =>
  split at h
  · cases h
  · next hneg =>
    obtain ⟨value, hget, rfl⟩ := shortOf_ok hsize (by omega)
    obtain ⟨rfl, hview⟩ := hdev.size_ok hget
    split at h
    · cases h
    · next base s₂ hbase =>
      obtain ⟨htarget, hview'⟩ := seekBase_ok hdev (by rw [hview]) hbase offset
      simp only [htarget] at h
      obtain ⟨s₃, hset, h⟩ := withOff_ok hdev h
      obtain ⟨s₄, hset', h⟩ := withOff_ok hdev h
      simp only [Prod.mk.injEq, Except.ok.injEq] at h
      obtain ⟨rfl, rfl⟩ := h
      rw [hview'] at hset
      rw [hview] at hset htarget
      simp only at hset hset'
      have hmem : (view s₄).mem = (view f.usb).mem := by
        rw [hset', DevMem.setOff_mem, hset, DevMem.setOff_mem]
      have hle : (view f.usb).seekTarget offset whence ≤ (view f.usb).size.toNat := by
        have hclamp := clampOffset_le (Int.not_lt.1 hneg) (offset + .ofInt base)
        rw [htarget] at hclamp
        have hshort : (view f.usb).size.toInt16.toInt = (view f.usb).size.toBitVec.toInt := rfl
        rw [BitVec.toInt_eq_toNat_cond, UInt16.toNat_toBitVec] at hshort
        split at hshort <;> omega
      refine ⟨hmem, by rw [hset', hset]; rfl, by rw [hview], rfl, rfl, ?_, hle,
        fun j => by rw [hmem]⟩
      rw [hset', DevMem.setOff_size, hset, DevMem.setOff_size]

/-- `ddk_open` gives a file at position 0 with nothing left over. -/
theorem ddkOpen_ok {alloc : Option Mem} {s : σ} {f : File σ}
    (h : ddkOpen dev alloc s = (.ok (), f)) : Fresh view f := by
  have hwith : ∀ {dir : Dir} {f₁ : File σ} {rest : File σ → Except Failure Unit × File σ},
      withOff dev dir 0 f₁ rest = (.ok (), f) → ∃ s, rest { f₁ with usb := s } = (.ok (), f) := by
    intro dir f₁ rest h
    unfold withOff at h
    split at h
    · cases h
    · next s _ => exact ⟨s, h⟩
  unfold ddkOpen at h
  split at h
  · cases h
  · split at h
    · cases h
    · obtain ⟨s₁, h⟩ := hwith h
      obtain ⟨s₂, h⟩ := hwith h
      simp only [Prod.mk.injEq, true_and] at h
      subst h
      exact ⟨Nat.zero_le _, fun j hj => absurd hj (Nat.not_lt_zero j)⟩

/-! ## Sequences of calls -/

/-- A call that succeeds does to the memory and to the position what it should. -/
def Right (dev : Dev σ) (view : σ → DevMem) (f : File σ) : Call → Prop
  | .read cnt mapped => ∀ bytes f', ddkRead dev cnt mapped f = (.ok bytes, f') →
      bytes.length ≤ cnt ∧ f.fPos + bytes.length ≤ (view f.usb).size.toNat ∧
      bytes = (view f.usb).mem.load f.fPos bytes.length ∧ f'.fPos = f.fPos + bytes.length ∧
      (view f'.usb).mem = (view f.usb).mem
  | .write data mapped turns => f.fPos + data.length ≤ (view f.usb).size.toNat →
      ∀ n f', ddkWrite dev data mapped turns f = (.ok n, f') →
      n = data.length ∧ f'.fPos = f.fPos + data.length ∧
      (view f'.usb).mem = (view f.usb).mem.store f.fPos data.length (.ofList data)
  | .llseek offset whence => ∀ n f', ddkLlseek dev offset whence f = (.ok n, f') →
      (view f'.usb).mem = (view f.usb).mem

/-- Whatever call is made next, it is right. -/
def AllRight (dev : Dev σ) (view : σ → DevMem) (f : File σ) : Prop :=
  ∀ call, Right dev view f call

/-- The call succeeds and stays inside the memory. -/
def Allowed (dev : Dev σ) (view : σ → DevMem) (f : File σ) (call : Call) : Prop :=
  Succeeds dev f call ∧ match call with
    | .write data _ _ => f.fPos + data.length ≤ (view f.usb).size.toNat
    | _ => True

/-- As many bytes as are left over stand at `pos` as they do at the position of the file. -/
def Keeps (view : σ → DevMem) (f : File σ) (pos : Nat) : Prop :=
  ∀ j < f.leftOver, pos + j < (view f.usb).size.toNat ∧
    (view f.usb).mem (pos + j) = (view f.usb).mem (f.fPos + j)

/-- A call moves the position only to a place with the bytes that are left over. -/
def Settled (view : σ → DevMem) (f : File σ) : Call → Prop
  | .read _ _ => True
  | .write data _ _ => Keeps view f (f.fPos + data.length)
  | .llseek offset whence => Keeps view f ((view f.usb).seekTarget offset whence)

theorem Fresh.allRight (hdev : Serves dev view) {f : File σ} (hf : Fresh view f) :
    AllRight dev view f := by
  intro call
  cases call with
  | read cnt mapped =>
    intro bytes f' h
    obtain ⟨hmem, hpos, hle, hbytes, hcnt, -⟩ := ddkRead_ok hdev hf h
    exact ⟨hcnt, hle, hbytes, hpos, hmem.1⟩
  | write data mapped turns =>
    intro hin n f' h
    obtain ⟨hn, hmem, hmoves⟩ := ddkWrite_ok hdev h hin
    exact ⟨hn, hmoves.fPos, hmem⟩
  | llseek offset whence =>
    intro n f' h
    exact (ddkLlseek_ok hdev h).1

/-- A move keeps the file fresh exactly when it keeps the bytes that are left over. -/
theorem Moves.fresh_iff {f f' : File σ} {pos : Nat} (hf : Fresh view f)
    (h : Moves view f f' pos) : Fresh view f' ↔ Keeps view f pos := by
  have hbytes : ∀ j < f.leftOver,
      ((f'.fPos + j < (view f'.usb).size.toNat ∧ f'.inBuf j = (view f'.usb).mem (f'.fPos + j)) ↔
        (pos + j < (view f.usb).size.toNat ∧
          (view f.usb).mem (pos + j) = (view f.usb).mem (f.fPos + j))) := by
    intro j hj
    rw [h.fPos, h.size, h.inBuf, h.mem, (hf.bytes j hj).2, eq_comm]
  constructor
  · intro hf' j hj
    exact (hbytes j hj).1 (hf'.bytes j (by rw [h.leftOver]; exact hj))
  · intro hkeeps
    refine ⟨?_, fun j hj => ?_⟩
    · rw [h.fPos, h.size]
      exact h.pos_le
    · rw [h.leftOver] at hj
      exact (hbytes j hj).2 (hkeeps j hj)

theorem eq_of_load_eq {m m' : Mem} {a b n : Nat} (h : m.load a n = m'.load b n) {j : Nat}
    (hj : j < n) : m (a + j) = m' (b + j) := by
  have hget := congrArg (fun bytes => bytes[j]?) h
  simpa [Mem.load, hj] using hget

/-- When every call is right, then the bytes that are left over are those at the position: a read of
them shows it. -/
theorem AllRight.fresh {f : File σ} (h : AllRight dev view f)
    (hpos : f.fPos ≤ (view f.usb).size.toNat) : Fresh view f := by
  refine ⟨hpos, fun j hj => ?_⟩
  have hread : ∃ f', ddkRead dev f.leftOver f.leftOver f =
      (.ok (f.inBuf.load 0 f.leftOver), f') := by
    have hleft : f.leftOver ≠ 0 := by omega
    unfold ddkRead fetch
    simp only [hleft, ne_eq, not_false_eq_true, ↓reduceIte, Nat.le_refl, Nat.lt_irrefl]
    exact ⟨_, rfl⟩
  obtain ⟨f', hread⟩ := hread
  obtain ⟨-, hle, hbytes, -⟩ := h (.read f.leftOver f.leftOver) _ _ hread
  rw [Mem.length_load] at hle hbytes
  refine ⟨by omega, ?_⟩
  have hbyte := eq_of_load_eq hbytes hj
  rwa [Nat.zero_add] at hbyte

/-- What an allowed call does, as far as the bytes that are left over go. -/
theorem step_cases (hdev : Serves dev view) {f : File σ} (hf : Fresh view f) {call : Call}
    (h : Allowed dev view f call) : (Settled view f call ∧ Fresh view (step dev f call)) ∨
      ∃ pos, Moves view f (step dev f call) pos ∧ (Settled view f call ↔ Keeps view f pos) := by
  obtain ⟨hok, hin⟩ := h
  cases call with
  | read cnt mapped =>
    obtain ⟨bytes, hbytes⟩ := hok
    obtain ⟨-, -, -, -, -, hfresh⟩ := ddkRead_ok hdev hf (Prod.ext hbytes rfl)
    exact .inl ⟨trivial, hfresh⟩
  | write data mapped turns =>
    obtain ⟨n, hn⟩ := hok
    exact .inr ⟨_, (ddkWrite_ok hdev (Prod.ext hn rfl) hin).2.2, Iff.rfl⟩
  | llseek offset whence =>
    obtain ⟨n, hn⟩ := hok
    exact .inr ⟨_, (ddkLlseek_ok hdev (Prod.ext hn rfl)).2.2, Iff.rfl⟩

/-- **Reads return the memory at the position**, in every state that a sequence of calls reaches,
exactly when every call that moves the position keeps the bytes that are left over. -/
theorem allRight_run_iff (hdev : Serves dev view) {alloc : Option Mem} {s : σ} {f : File σ}
    (hopen : ddkOpen dev alloc s = (.ok (), f)) {calls : List Call}
    (hcalls : Along (step dev) (Allowed dev view) f calls) :
    (∀ pre, pre <+: calls → AllRight dev view (run (step dev) f pre)) ↔
      Along (step dev) (Settled view) f calls := by
  refine Along.safe_iff (I := Fresh view) (fun f hf => hf.allRight hdev) ?_ ?_ (ddkOpen_ok hopen)
    hcalls
  · intro f call hf hallowed hsettled
    rcases step_cases hdev hf hallowed with ⟨-, hfresh⟩ | ⟨pos, hmoves, hiff⟩
    · exact hfresh
    · exact (hmoves.fresh_iff hf).2 (hiff.1 hsettled)
  · intro f call hf hallowed hnot hright
    rcases step_cases hdev hf hallowed with ⟨hsettled, -⟩ | ⟨pos, hmoves, hiff⟩
    · exact hnot hsettled
    · have hpos : (step dev f call).fPos ≤ (view (step dev f call).usb).size.toNat := by
        rw [hmoves.fPos, hmoves.size]
        exact hmoves.pos_le
      exact hnot (hiff.2 ((hmoves.fresh_iff hf).1 (hright.fresh hpos)))

end

/-! ## A device with packets of eight bytes -/

/-- Packets of eight bytes, as far as the memory goes; a read behind the memory stalls. -/
def wholeDev : Dev DevMem where
  inBufSize := 8
  outBufSize := 8
  controlSet dir value d := (.ok 0, d.setOff value dir)
  controlGet dir d := (.ok (d.off dir), d)
  controlSize d := (.ok d.size, d)
  interruptIn len d :=
    if d.size < d.rdOff then (.error ⟨-32, by omega⟩, d)
    else
      let packet := d.mem.load d.rdOff.toNat (min len (d.size.toNat - d.rdOff.toNat))
      (.ok packet, { d with rdOff := d.rdOff + .ofNat packet.length })
  interruptOut packet d := (.ok packet.length,
    { d with
      mem := d.mem.store d.wrOff.toNat packet.length (.ofList packet)
      wrOff := d.wrOff + .ofNat packet.length })

theorem wholeDev_serves : Serves wholeDev id where
  set_ok h := by
    cases h
    rfl
  get_ok h := by
    cases h
    exact ⟨rfl, rfl⟩
  size_ok h := by
    cases h
    exact ⟨rfl, rfl⟩
  in_ok {len d packet d'} h := by
    unfold wholeDev at h
    simp only at h
    split at h
    · cases h
    · next hlt =>
      rw [UInt16.lt_iff_toNat_lt] at hlt
      cases h
      simp only [id, Mem.length_load, and_true]
      omega
  out_ok h := by
    cases h
    exact ⟨Nat.le_refl _, rfl⟩

/-- Sixteen bytes, each holding its address. -/
def sixteen : DevMem := ⟨fun x => .ofNat x, 16, 0, 0⟩

/-- A file opened on them. -/
def opened : File DevMem := ⟨sixteen, fun _ => 0, 0, 0⟩

/-- A short read is finished before the position is moved. -/
theorem allRight_run_iff_finished :
    let calls := [.read 3 3, .read 8 8, .llseek 10 .seekSet, .read 2 2]
    ∀ pre, pre <+: calls → AllRight wholeDev id (run (step wholeDev) opened pre) := by
  intro calls
  have hopen : ddkOpen wholeDev (some fun _ => 0) sixteen = (.ok (), opened) := rfl
  have hcalls : Along (step wholeDev) (Allowed wholeDev id) opened calls :=
    ⟨⟨⟨[0, 1, 2], rfl⟩, trivial⟩, ⟨⟨[3, 4, 5, 6, 7], rfl⟩, trivial⟩, ⟨⟨10, rfl⟩, trivial⟩,
      ⟨⟨[10, 11], rfl⟩, trivial⟩, trivial⟩
  refine (allRight_run_iff wholeDev_serves hopen hcalls).2 ⟨trivial, trivial, ?_, trivial, trivial⟩
  intro j hj
  exact absurd hj (Nat.not_lt_zero j)

/-- Five bytes are left over when the position is moved: the read at 10 returns bytes 3 and 4. -/
theorem not_allRight_seek :
    let f := run (step wholeDev) opened [.read 3 3, .llseek 10 .seekSet]
    Along (step wholeDev) (Allowed wholeDev id) opened
        [.read 3 3, .llseek 10 .seekSet, .read 2 2] ∧
      f.fPos = 10 ∧ (ddkRead wholeDev 2 2 f).1 = .ok [3, 4] ∧
      (id f.usb).mem.load f.fPos 2 = [10, 11] ∧ ¬ Right wholeDev id f (.read 2 2) := by
  intro f
  have hallowed : Along (step wholeDev) (Allowed wholeDev id) opened
      [.read 3 3, .llseek 10 .seekSet, .read 2 2] :=
    ⟨⟨⟨[0, 1, 2], rfl⟩, trivial⟩, ⟨⟨10, rfl⟩, trivial⟩, ⟨⟨[3, 4], rfl⟩, trivial⟩, trivial⟩
  have hread : (ddkRead wholeDev 2 2 f).1 = .ok [3, 4] := rfl
  refine ⟨hallowed, rfl, hread, rfl, fun h => ?_⟩
  obtain ⟨-, -, hbytes, -⟩ := h [3, 4] _ (Prod.ext hread rfl)
  have hmem : (id f.usb).mem.load f.fPos 2 = [10, 11] := rfl
  exact absurd (hbytes.trans hmem) (by decide)

end LinuxDrivers.DdkMem
