import LinuxDrivers.DdkMem.LeftOver

/-!
# Seeking from the current position

For `SEEK_CUR`, `ddk_llseek` takes the current position from the read offset of the device. A read
leaves that offset behind the packet it received, and the position behind what the user took of it,
so the two agree only while every read takes all bytes at hand. Both the size and the offset are
read as `short`.
-/

namespace LinuxDrivers.DdkMem

open Ddk (Dir Errno)

variable {σ : Type}

/-- The device answers every control message. -/
structure Answers (dev : Dev σ) : Prop where
  set : SetsOffsets dev
  get : ∀ dir s, ∃ value s', dev.controlGet dir s = (.ok value, s')
  size : ∀ s, ∃ value s', dev.controlSize s = (.ok value, s')

/-- The position `offset` bytes behind `pos`, cut to the memory. -/
def DevMem.relTarget (d : DevMem) (pos : Nat) (offset : Int64) : Nat :=
  (max 0 (min (offset.toInt + pos) d.size.toNat)).toNat

/-- `ddk_llseek` with `SEEK_CUR` moves the position by `offset`, cut to the memory, and
returns it. -/
def SeeksRight (dev : Dev σ) (view : σ → DevMem) (f : File σ) (offset : Int64) : Prop :=
  (ddkLlseek dev offset .seekCur f).1 = .ok ((view f.usb).relTarget f.fPos offset) ∧
    (ddkLlseek dev offset .seekCur f).2.fPos = (view f.usb).relTarget f.fPos offset

/-! ## One call -/

theorem toInt_short (v : UInt16) :
    v.toInt16.toInt = if v.toNat < 2 ^ 15 then (v.toNat : Int) else v.toNat - 2 ^ 16 := by
  have hlt := v.toNat_lt
  have hshort : v.toInt16.toInt = v.toBitVec.toInt := rfl
  rw [hshort, BitVec.toInt_eq_toNat_cond, UInt16.toNat_toBitVec]
  split <;> split <;> omega

/-- The cut of a sum that does not overflow. -/
theorem clampOffset_add {size r : Nat} {offset : Int64} (hr : r < 2 ^ 15)
    (hsum : offset.toInt + r < 2 ^ 63) :
    clampOffset size (offset + .ofInt r) = (max 0 (min (offset.toInt + r) size)).toNat := by
  have hge := offset.le_toInt
  have hadd : (offset + Int64.ofInt r).toInt = offset.toInt + r := by
    rw [Int64.toInt_add, Int64.toInt_ofInt_of_le (by omega) (by omega),
      Int.bmod_eq_of_le (by omega) (by omega)]
  unfold clampOffset
  rw [hadd]
  split
  · omega
  · split <;> omega

section

variable {dev : Dev σ} {view : σ → DevMem}

/-- The size and the read offset are read. -/
theorem Answers.readBack (hdev : Serves dev view) (hans : Answers dev) (s : σ) :
    ∃ s₁ s₂, dev.controlSize s = (.ok (view s).size, s₁) ∧
      dev.controlGet .read s₁ = (.ok (view s).rdOff, s₂) := by
  obtain ⟨size, s₁, hget⟩ := hans.size s
  obtain ⟨rfl, hview⟩ := hdev.size_ok hget
  obtain ⟨cur, s₂, hcur⟩ := hans.get .read s₁
  obtain ⟨rfl, -⟩ := hdev.get_ok hcur
  rw [hview] at hcur
  exact ⟨s₁, s₂, hget, hcur⟩

/-- `ddk_llseek` with `SEEK_CUR`, while the size and the read offset are not negative
as `short`s. -/
theorem ddkLlseek_cur (hdev : Serves dev view) (hans : Answers dev) (f : File σ) (offset : Int64)
    (hsize : (view f.usb).size.toNat < 2 ^ 15) (hoff : (view f.usb).rdOff.toNat < 2 ^ 15) :
    (ddkLlseek dev offset .seekCur f).1 = .ok (clampOffset (view f.usb).size.toNat
        (offset + .ofInt (view f.usb).rdOff.toNat)) ∧
      (ddkLlseek dev offset .seekCur f).2.fPos = clampOffset (view f.usb).size.toNat
        (offset + .ofInt (view f.usb).rdOff.toNat) := by
  obtain ⟨s₁, s₂, hget, hcur⟩ := hans.readBack hdev f.usb
  have hsize' := toInt_short (view f.usb).size
  have hoff' := toInt_short (view f.usb).rdOff
  rw [if_pos hsize] at hsize'
  rw [if_pos hoff] at hoff'
  have hnn : ∀ n : Nat, ¬ (n : Int) < 0 := fun n => by omega
  unfold ddkLlseek getSize seekBase getOff
  simp only [hget, hcur, shortOf, hsize', hoff', hnn, ↓reduceDIte]
  generalize clampOffset ((view f.usb).size.toNat : Int)
    (offset + Int64.ofInt ((view f.usb).rdOff.toNat : Int)) = pos
  obtain ⟨_, s₃, hset₁⟩ := hans.set .read (.ofNat pos) s₂
  obtain ⟨_, s₄, hset₂⟩ := hans.set .write (.ofNat pos) s₃
  simp only [withOff, setOff, hset₁, hset₂, and_self]

/-- A size or a read offset from `2 ^ 15` on is taken for an error. -/
theorem ddkLlseek_cur_error (hdev : Serves dev view) (hans : Answers dev) (f : File σ)
    (offset : Int64) (h : 2 ^ 15 ≤ (view f.usb).size.toNat ∨ 2 ^ 15 ≤ (view f.usb).rdOff.toNat)
    (n : Nat) : (ddkLlseek dev offset .seekCur f).1 ≠ .ok n := by
  intro hok
  obtain ⟨s₁, s₂, hget, hcur⟩ := hans.readBack hdev f.usb
  have hsize' := toInt_short (view f.usb).size
  have hoff' := toInt_short (view f.usb).rdOff
  have hlt := (view f.usb).size.toNat_lt
  have hlt' := (view f.usb).rdOff.toNat_lt
  unfold ddkLlseek getSize seekBase getOff at hok
  simp only [hget, hcur, shortOf] at hok
  by_cases hneg : (view f.usb).size.toInt16.toInt < 0
  · rw [dif_pos hneg] at hok
    cases hok
  · rw [dif_neg hneg] at hok
    have hneg' : (view f.usb).rdOff.toInt16.toInt < 0 := by
      split at hsize' <;> split at hoff' <;> omega
    rw [dif_pos hneg'] at hok
    cases hok

/-- While the read offset is the position, and the sum does not overflow, the call is right. -/
theorem seeksRight_of_eq (hdev : Serves dev view) (hans : Answers dev) {f : File σ} {offset : Int64}
    (hsize : (view f.usb).size.toNat < 2 ^ 15) (hoff : (view f.usb).rdOff.toNat < 2 ^ 15)
    (heq : (view f.usb).rdOff.toNat = f.fPos)
    (hsum : offset.toInt + (view f.usb).rdOff.toNat < 2 ^ 63) : SeeksRight dev view f offset := by
  obtain ⟨hret, hpos⟩ := ddkLlseek_cur hdev hans f offset hsize hoff
  rw [clampOffset_add hoff hsum, heq] at hret hpos
  exact ⟨hret, hpos⟩

/-- A call that is right goes where the read offset says. -/
theorem SeeksRight.target (hdev : Serves dev view) (hans : Answers dev) {f : File σ}
    {offset : Int64}
    (h : SeeksRight dev view f offset) (hsum : offset.toInt + (view f.usb).rdOff.toNat < 2 ^ 63) :
    (view f.usb).size.toNat < 2 ^ 15 ∧ (view f.usb).rdOff.toNat < 2 ^ 15 ∧
      (view f.usb).relTarget (view f.usb).rdOff.toNat offset =
        (view f.usb).relTarget f.fPos offset := by
  by_cases hbad : 2 ^ 15 ≤ (view f.usb).size.toNat ∨ 2 ^ 15 ≤ (view f.usb).rdOff.toNat
  · exact absurd h.1 (ddkLlseek_cur_error hdev hans f offset hbad _)
  · have hsize : (view f.usb).size.toNat < 2 ^ 15 := by omega
    have hoff : (view f.usb).rdOff.toNat < 2 ^ 15 := by omega
    refine ⟨hsize, hoff, ?_⟩
    have hret := (ddkLlseek_cur hdev hans f offset hsize hoff).1
    rw [h.1, clampOffset_add hoff hsum, Except.ok.injEq] at hret
    exact hret.symm

/-! ## Sequences of calls -/

/-- Every call with `SEEK_CUR` whose sum does not overflow is right. -/
def SeeksRightAll (dev : Dev σ) (view : σ → DevMem) (f : File σ) : Prop :=
  ∀ offset : Int64, offset.toInt + (view f.usb).rdOff.toNat < 2 ^ 63 → SeeksRight dev view f offset

/-- A call keeps the read offset and the position together: a read takes all bytes at hand, and a
write does not move the position past what a `short` holds. -/
def StaysSynced (dev : Dev σ) (f : File σ) : Call → Prop
  | .read cnt _ => ∀ n f', fetch dev f = (.ok n, f') → n ≤ cnt
  | .write data _ _ => f.fPos + data.length < 2 ^ 15
  | .llseek _ _ => True

/-- The read offset of the device is the position of the file, and nothing is left over. -/
structure Synced (view : σ → DevMem) (size : UInt16) (f : File σ) : Prop where
  size_eq : (view f.usb).size = size
  leftOver : f.leftOver = 0
  rdOff : (view f.usb).rdOff.toNat = f.fPos
  small : f.fPos < 2 ^ 15

theorem Synced.seeksRightAll (hdev : Serves dev view) (hans : Answers dev) {size : UInt16}
    (hsize : size.toNat < 2 ^ 15) {f : File σ} (h : Synced view size f) :
    SeeksRightAll dev view f := by
  intro offset hsum
  have hoff := h.small
  rw [← h.rdOff] at hoff
  exact seeksRight_of_eq hdev hans (by rw [h.size_eq]; exact hsize) hoff h.rdOff hsum

/-- `ddk_open` sets both offsets to the position 0. -/
theorem ddkOpen_synced (hdev : Serves dev view) {alloc : Option Mem} {s : σ} {f : File σ}
    (h : ddkOpen dev alloc s = (.ok (), f)) : Synced view (view s).size f := by
  unfold ddkOpen at h
  split at h
  · cases h
  · split at h
    · cases h
    · obtain ⟨s₁, hset₁, h⟩ := withOff_ok hdev h
      obtain ⟨s₂, hset₂, h⟩ := withOff_ok hdev h
      simp only [Prod.mk.injEq, true_and] at h hset₂
      subst h
      refine ⟨?_, rfl, ?_, Nat.two_pow_pos 15⟩
      · rw [hset₂, hset₁, DevMem.setOff_size, DevMem.setOff_size]
      · rw [hset₂, hset₁]
        rfl

/-- **A read** of `n` bytes at hand leaves the read offset behind them, and the position behind
those that the user took. -/
theorem Synced.read (hdev : Serves dev view) {size : UInt16} {f f' : File σ}
    (h : Synced view size f) {cnt mapped : Nat} {bytes : List UInt8}
    (hread : ddkRead dev cnt mapped f = (.ok bytes, f')) :
    ∃ n g, fetch dev f = (.ok n, g) ∧ f.fPos + n ≤ size.toNat ∧ (view f'.usb).size = size ∧
      (view f'.usb).rdOff.toNat = f.fPos + n ∧ f'.fPos = f.fPos + min n cnt ∧
      f'.leftOver = n - cnt := by
  unfold ddkRead at hread
  split at hread
  · cases hread
  · next n g hfetch =>
    obtain ⟨⟨-, hsize⟩, hpos, hle, hrd, -⟩ :=
      fetch_received hdev h.leftOver (Nat.lt_trans h.small (by decide)) hfetch
    rw [h.size_eq] at hle
    simp only [← Nat.min_def] at hread
    split at hread
    · cases hread
    · simp only [Prod.mk.injEq, Except.ok.injEq] at hread
      obtain ⟨-, rfl⟩ := hread
      refine ⟨n, g, hfetch, hle, hsize.trans h.size_eq, hrd, by rw [← hpos], ?_⟩
      simp only
      split <;> omega

/-- **Calls that keep them together.** -/
theorem Synced.call (hdev : Serves dev view) {size : UInt16} (hsize : size.toNat < 2 ^ 15)
    {f : File σ} (h : Synced view size f) {call : Call} (hok : Succeeds dev f call)
    (hstays : StaysSynced dev f call) : Synced view size (step dev f call) := by
  cases call with
  | read cnt mapped =>
    obtain ⟨bytes, hbytes⟩ := hok
    obtain ⟨n, g, hfetch, hle, hsize', hrd, hpos, hleft⟩ := h.read hdev (Prod.ext hbytes rfl)
    have hn := hstays n g hfetch
    refine ⟨hsize', ?_, ?_, ?_⟩
    · exact hleft.trans (by omega)
    · exact hrd.trans (by simp only [step, hpos]; omega)
    · simp only [step, hpos]
      omega
  | write data mapped turns =>
    obtain ⟨n, hn⟩ := hok
    obtain ⟨-, hpos, -, hleft, hsize', hrd, -⟩ := ddkWrite_sent hdev (Prod.ext hn rfl)
    have hsmall : f.fPos + data.length < 2 ^ 15 := hstays
    refine ⟨hsize'.trans h.size_eq, hleft.trans h.leftOver, ?_, by simp only [step, hpos]; omega⟩
    simp only [step, hrd, hpos, UInt16.toNat_ofNat']
    omega
  | llseek offset whence =>
    obtain ⟨n, hn⟩ := hok
    obtain ⟨-, hrd, hmoves⟩ := ddkLlseek_ok hdev (Prod.ext hn rfl)
    have hle := hmoves.pos_le
    rw [h.size_eq] at hle
    refine ⟨hmoves.size.trans h.size_eq, hmoves.leftOver.trans h.leftOver, ?_, ?_⟩
    · simp only [step, hrd, hmoves.fPos, UInt16.toNat_ofNat']
      omega
    · simp only [step, hmoves.fPos]
      omega

/-- **Calls that do not.** A call with `SEEK_CUR` shows it. -/
theorem Synced.not_seeksRightAll (hdev : Serves dev view) (hans : Answers dev) {size : UInt16}
    (hpos : 0 < size.toNat) {f : File σ} (h : Synced view size f) {call : Call}
    (hok : Succeeds dev f call) (hnot : ¬ StaysSynced dev f call) :
    ¬ SeeksRightAll dev view (step dev f call) := by
  intro hall
  cases call with
  | read cnt mapped =>
    obtain ⟨bytes, hbytes⟩ := hok
    obtain ⟨n, g, hfetch, hle, hsize', hrd, hfpos, -⟩ := h.read hdev (Prod.ext hbytes rfl)
    have hlt : cnt < n := by
      by_contra hge
      refine hnot fun m g' hm => ?_
      rw [hfetch, Prod.mk.injEq, Except.ok.injEq] at hm
      omega
    -- an offset of 0 goes to the read offset
    have hrd' : (view (step dev f (.read cnt mapped)).usb).rdOff.toNat = f.fPos + n := hrd
    have hfpos' : (step dev f (.read cnt mapped)).fPos = f.fPos + min n cnt := hfpos
    have hsize'' : (view (step dev f (.read cnt mapped)).usb).size = size := hsize'
    have hzero : (0 : Int64).toInt = 0 := rfl
    have hlt16 := size.toNat_lt
    obtain ⟨-, -, htarget⟩ := (hall 0 (by rw [hzero, hrd']; omega)).target hdev hans
      (by rw [hzero, hrd']; omega)
    simp only [DevMem.relTarget, hzero, hrd', hfpos', hsize''] at htarget
    omega
  | write data mapped turns =>
    obtain ⟨n, hn⟩ := hok
    obtain ⟨-, hfpos, -, -, hsize, hrd, -⟩ := ddkWrite_sent hdev (Prod.ext hn rfl)
    have hfpos' : (step dev f (.write data mapped turns)).fPos = f.fPos + data.length := hfpos
    have hsize' : (view (step dev f (.write data mapped turns)).usb).size = size :=
      hsize.trans h.size_eq
    have hrd' : (view (step dev f (.write data mapped turns)).usb).rdOff.toNat =
        (f.fPos + data.length) % 2 ^ 16 := by
      have := congrArg UInt16.toNat hrd
      rw [UInt16.toNat_ofNat'] at this
      exact this
    have hge : 2 ^ 15 ≤ f.fPos + data.length := Nat.not_lt.1 hnot
    -- back by the read offset
    obtain ⟨r, hr⟩ : ∃ r, (f.fPos + data.length) % 2 ^ 16 = r := ⟨_, rfl⟩
    rw [hr] at hrd'
    have hlt16 := size.toNat_lt
    have hneg : (Int64.ofInt (-r)).toInt = -r := Int64.toInt_ofInt_of_le (by omega) (by omega)
    obtain ⟨-, hsmall, htarget⟩ := (hall (.ofInt (-r)) (by rw [hneg, hrd']; omega)).target hdev hans
      (by rw [hneg, hrd']; omega)
    simp only [DevMem.relTarget, hneg, hrd', hfpos', hsize'] at htarget hsmall
    omega
  | llseek offset whence => exact hnot trivial

/-- **Relative seeks.** When the size is below `2 ^ 15` and every call keeps the read offset and the
position together, then every call with `SEEK_CUR` is right in every state reached; for a memory
that is not empty there is no other way. -/
theorem seeksRightAll_run (hdev : Serves dev view) (hans : Answers dev) {alloc : Option Mem} {s : σ}
    {f : File σ} (hopen : ddkOpen dev alloc s = (.ok (), f)) {calls : List Call}
    (hcalls : Along (step dev) (Succeeds dev) f calls) :
    ((view s).size.toNat < 2 ^ 15 → Along (step dev) (StaysSynced dev) f calls →
      ∀ pre, pre <+: calls → SeeksRightAll dev view (run (step dev) f pre)) ∧
    (0 < (view s).size.toNat →
      (∀ pre, pre <+: calls → SeeksRightAll dev view (run (step dev) f pre)) →
      (view s).size.toNat < 2 ^ 15 ∧ Along (step dev) (StaysSynced dev) f calls) := by
  have hstart := ddkOpen_synced hdev hopen
  constructor
  · rintro hsize hstays pre ⟨rest, rfl⟩
    have hpre := (along_append.1 (hcalls.and hstays)).1
    have hrun := Along.invariant (fun f call hf hstep => hf.call hdev hsize hstep.1 hstep.2) hstart
      hpre
    exact hrun.seeksRightAll hdev hans hsize
  · intro hpos hall
    have hsize : (view s).size.toNat < 2 ^ 15 := by
      have hoff := hstart.small
      rw [← hstart.rdOff] at hoff
      have hsum : (0 : Int64).toInt + (view f.usb).rdOff.toNat < 2 ^ 63 := by
        have hzero : (0 : Int64).toInt = 0 := rfl
        omega
      have htarget := (hall [] List.nil_prefix 0 hsum).target hdev hans hsum
      rw [run_nil, hstart.size_eq] at htarget
      exact htarget.1
    refine ⟨hsize, (Along.safe_iff (I := Synced view (view s).size)
      (fun f hf => hf.seeksRightAll hdev hans hsize)
      (fun f call hf hok hstays => hf.call hdev hsize hok hstays)
      (fun f call hf hok hnot => hf.not_seeksRightAll hdev hans hpos hok hnot) hstart
      hcalls).1 hall⟩

end

theorem wholeDev_answers : Answers wholeDev where
  set _ _ _ := ⟨_, _, rfl⟩
  get _ _ := ⟨_, _, rfl⟩
  size _ := ⟨_, _, rfl⟩

/-- A packet is read whole, and something is written behind it. -/
theorem seeksRightAll_run_whole :
    let calls := [.read 8 8, .write [1, 2] 2 2]
    Along (step wholeDev) (StaysSynced wholeDev) opened calls ∧
      ∀ pre, pre <+: calls → SeeksRightAll wholeDev id (run (step wholeDev) opened pre) := by
  intro calls
  have hopen : ddkOpen wholeDev (some fun _ => 0) sixteen = (.ok (), opened) := rfl
  have hcalls : Along (step wholeDev) (Succeeds wholeDev) opened calls :=
    ⟨⟨[0, 1, 2, 3, 4, 5, 6, 7], rfl⟩, ⟨2, rfl⟩, trivial⟩
  have hfetch : (fetch wholeDev opened).1 = .ok 8 := rfl
  have hstays : Along (step wholeDev) (StaysSynced wholeDev) opened calls := by
    refine ⟨fun n g hn => ?_, ?_, trivial⟩
    · rw [hn, Except.ok.injEq] at hfetch
      exact Nat.le_of_eq hfetch
    · change 8 + 2 < 2 ^ 15
      decide
  exact ⟨hstays, (seeksRightAll_run wholeDev_serves wholeDev_answers hopen hcalls).1 (by decide)
    hstays⟩

/-- Three bytes of a packet of eight are read: a seek by 0 goes from 3 to 8. -/
theorem not_seeksRight_short :
    let f := run (step wholeDev) opened [.read 3 3]
    Along (step wholeDev) (Succeeds wholeDev) opened [.read 3 3] ∧ f.fPos = 3 ∧
      (ddkLlseek wholeDev 0 .seekCur f).1 = .ok 8 ∧ (id f.usb).relTarget f.fPos 0 = 3 ∧
      ¬ SeeksRight wholeDev id f 0 := by
  intro f
  have hseek : (ddkLlseek wholeDev 0 .seekCur f).1 = .ok 8 := rfl
  have htarget : (id f.usb).relTarget f.fPos 0 = 3 := rfl
  refine ⟨⟨⟨[0, 1, 2], rfl⟩, trivial⟩, rfl, hseek, htarget, fun h => ?_⟩
  have hret := h.1
  rw [hseek, htarget, Except.ok.injEq] at hret
  exact absurd hret (by decide)

end LinuxDrivers.DdkMem
