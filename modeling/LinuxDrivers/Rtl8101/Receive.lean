import LinuxDrivers.Lib.Ring
import LinuxDrivers.Lib.Run
import LinuxDrivers.Rtl8101.Frames

/-!
# The receive ring

The slots from `dirty_rx` up to `cur_rx` are those whose buffer was passed up and may be missing;
all others hold a buffer. A shortage of memory leaves slots in that range empty.
`rtl8101_reset_task` sets the counters back only when there are none; `rtl8101_check_link_status`
does so in any case, and the empty slots are then outside of the range.
-/

namespace LinuxDrivers.Rtl8101

open LinuxDrivers.Ring (FilledOutside)

variable {β : Type}

/-! ## The loops -/

/-- No null buffer was passed up. -/
def NoNull (pvt : Pvt β) : Prop := ∀ d ∈ pvt.delivered, d.1 ≠ none

/-- **The loop** of `rtl8101_rx_interrupt` passes up the buffers of slots outside of the range,
which it extends. -/
theorem rxLoop_filled (pvt : Pvt β) {cur : UInt32} {n left : Nat}
    (h : FilledOutside 1024 pvt.rxSkbuff (slot pvt.dirtyRx) n) (hnull : NoNull pvt)
    (hcur : cur = pvt.dirtyRx + .ofNat n) (hle : n + left ≤ 1024) :
    ∃ m, n ≤ m ∧ m ≤ 1024 ∧ (rxLoop left cur pvt).1 = pvt.dirtyRx + .ofNat m ∧
      FilledOutside 1024 (rxLoop left cur pvt).2.rxSkbuff (slot pvt.dirtyRx) m ∧
      NoNull (rxLoop left cur pvt).2 := by
  induction left generalizing pvt cur n with
  | zero => exact ⟨n, Nat.le_refl n, hle, hcur, h, hnull⟩
  | succ left ih =>
    have hslot : slot cur = (slot pvt.dirtyRx + n) % 1024 := by rw [hcur, slot_add]
    have hnext : cur + 1 = pvt.dirtyRx + .ofNat (n + 1) := by
      rw [hcur, UInt32.ofNat_add, UInt32.add_assoc]
      rfl
    rw [rxLoop]
    split
    · exact ⟨n, Nat.le_refl n, by omega, hcur, h, hnull⟩
    · split
      · -- an erroneous packet: the slot keeps its buffer
        have hext := h.extend (slot_lt _) (by omega) fun e _ => rfl
        obtain ⟨m, hm, hrest⟩ := ih { pvt with
          rxDesc := Function.update pvt.rxDesc (slot cur)
            (markToAsic (pvt.rxDesc (slot cur)) pvt.rxBufSz) } hext hnull hnext (by omega)
        exact ⟨m, by omega, hrest⟩
      · have hsome := h.next (slot_lt pvt.dirtyRx) (by omega)
        rw [← hslot] at hsome
        have hext : FilledOutside 1024 (Function.update pvt.rxSkbuff (slot cur) none)
            (slot pvt.dirtyRx) (n + 1) := by
          refine h.extend (slot_lt _) (by omega) fun e he => ?_
          rw [← hslot] at he
          exact Function.update_of_ne he none pvt.rxSkbuff
        obtain ⟨m, hm, hrest⟩ := ih { pvt with
          rxSkbuff := Function.update pvt.rxSkbuff (slot cur) none
          delivered := pvt.delivered ++ [(pvt.rxSkbuff (slot cur),
            (((pvt.rxDesc (slot cur)).opts1 &&& 0x00003FFF).toNat : Int) - 4)] } hext (by
            intro d hd
            rcases List.mem_append.1 hd with hd | hd
            · exact hnull d hd
            · rw [List.mem_singleton.1 hd]
              exact hsome) hnext (by omega)
        exact ⟨m, by omega, hrest⟩

/-- **The loop** of `rtl8101_rx_fill` drops filled slots from the range and stops at an
empty one. -/
theorem rxFillLoop_filled (allocs : Allocs β) (pvt : Pvt β) {cur : UInt32} {left : Nat}
    (h : FilledOutside 1024 pvt.rxSkbuff (slot cur) left) :
    ∃ n ≤ left, (rxFillLoop allocs left cur pvt).1 = cur + .ofNat (left - n) ∧
      FilledOutside 1024 (rxFillLoop allocs left cur pvt).2.rxSkbuff
        (slot (rxFillLoop allocs left cur pvt).1) n ∧
      (0 < n → (rxFillLoop allocs left cur pvt).2.rxSkbuff
        (slot (rxFillLoop allocs left cur pvt).1) = none) ∧
      (rxFillLoop allocs left cur pvt).2.delivered = pvt.delivered := by
  induction left generalizing pvt cur with
  | zero =>
    exact ⟨0, Nat.le_refl 0, by simp [rxFillLoop], h, fun hpos => absurd hpos (by omega), rfl⟩
  | succ left ih =>
    -- one slot further on
    have hnext : ∀ n ≤ left, cur + 1 + .ofNat (left - n) = cur + .ofNat (left + 1 - n) := by
      intro n hn
      rw [add_ofNat_succ, Nat.succ_sub hn]
    rw [rxFillLoop]
    split
    · next hsome =>
      have hdrop := h.drop (slot_lt cur) (by simpa [Option.isSome_iff_ne_none] using hsome)
        fun e _ => rfl
      rw [← slot_succ] at hdrop
      obtain ⟨n, hn, hstop, hrest⟩ := ih pvt hdrop
      exact ⟨n, by omega, hstop.trans (hnext n hn), hrest⟩
    · next hnone =>
      split
      · refine ⟨left + 1, Nat.le_refl _, by simp, h, fun _ => ?_, rfl⟩
        simpa using hnone
      · next skb mapping halloc =>
        have hdrop := h.drop (slot_lt cur)
          (show Function.update pvt.rxSkbuff (slot cur) (some skb) (slot cur) ≠ none by simp)
          fun e he => Function.update_of_ne he _ _
        rw [← slot_succ] at hdrop
        obtain ⟨n, hn, hstop, hrest⟩ := ih { pvt with
          rxSkbuff := Function.update pvt.rxSkbuff (slot cur) (some skb)
          rxDesc := Function.update pvt.rxDesc (slot cur)
            (mapToAsic (pvt.rxDesc (slot cur)) mapping pvt.rxBufSz) } hdrop
        exact ⟨n, by omega, hstop.trans (hnext n hn), hrest⟩

/-! ## The invariant -/

/-- `n` slots are behind `dirty_rx`; no other slot is empty, and the first of them is. -/
structure RxInv (pvt : Pvt β) (n : Nat) : Prop where
  cur_eq : pvt.curRx = pvt.dirtyRx + .ofNat n
  le : n ≤ 1024
  filled : FilledOutside 1024 pvt.rxSkbuff (slot pvt.dirtyRx) n
  gap : 0 < n → pvt.rxSkbuff (slot pvt.dirtyRx) = none
  noNull : NoNull pvt

/-- What the other ring does not touch. -/
structure SameRx (pvt pvt' : Pvt β) : Prop where
  curRx : pvt'.curRx = pvt.curRx
  dirtyRx : pvt'.dirtyRx = pvt.dirtyRx
  rxSkbuff : pvt'.rxSkbuff = pvt.rxSkbuff
  delivered : pvt'.delivered = pvt.delivered

theorem TxOnly.sameRx {pvt pvt' : Pvt β} (h : TxOnly pvt pvt') : SameRx pvt pvt' := by
  obtain ⟨_, _, _, rfl⟩ := h
  exact ⟨rfl, rfl, rfl, rfl⟩

theorem txClear_sameRx (pvt : Pvt β) : SameRx pvt (txClear pvt) := by
  have h := (txClearLoop_txOnly 1024 pvt.dirtyTx pvt).sameRx
  unfold txClear
  generalize txClearLoop 1024 pvt.dirtyTx pvt = pvt' at h
  exact ⟨h.curRx, h.dirtyRx, h.rxSkbuff, h.delivered⟩

theorem startXmit_sameRx (maxSkbFrags : Nat) (packet : Packet β) (pvt : Pvt β) :
    SameRx pvt (startXmit maxSkbFrags packet pvt).2 := by
  unfold startXmit errStop
  simp only
  split
  · exact ⟨rfl, rfl, rfl, rfl⟩
  · split
    · exact ⟨rfl, rfl, rfl, rfl⟩
    · split <;> exact ⟨rfl, rfl, rfl, rfl⟩

theorem txInterrupt_sameRx (maxSkbFrags : Nat) (pvt : Pvt β) :
    SameRx pvt (txInterrupt maxSkbFrags pvt) := by
  have h := (txLoop_txOnly (pvt.curTx - pvt.dirtyTx).toNat pvt.dirtyTx pvt).sameRx
  simp only [txInterrupt]
  generalize txLoop (pvt.curTx - pvt.dirtyTx).toNat pvt.dirtyTx pvt = r at h
  split
  · split
    · exact ⟨h.curRx, h.dirtyRx, h.rxSkbuff, h.delivered⟩
    · exact ⟨h.curRx, h.dirtyRx, h.rxSkbuff, h.delivered⟩
  · exact h

namespace RxInv

variable {pvt : Pvt β} {n : Nat}

theorem sameRx (h : RxInv pvt n) {pvt' : Pvt β} (hsame : SameRx pvt pvt') : RxInv pvt' n where
  cur_eq := by rw [hsame.curRx, hsame.dirtyRx, h.cur_eq]
  le := h.le
  filled := by
    rw [hsame.rxSkbuff, hsame.dirtyRx]
    exact h.filled
  gap := by
    rw [hsame.rxSkbuff, hsame.dirtyRx]
    exact h.gap
  noNull := by
    unfold NoNull
    rw [hsame.delivered]
    exact h.noNull

/-- **`rtl8101_rx_interrupt`**, whatever its budget and whatever memory it gets. -/
theorem rxInterrupt (h : RxInv pvt n) (budget : UInt32) (allocs : Allocs β) :
    ∃ m, RxInv (Rtl8101.rxInterrupt budget allocs pvt) m := by
  have hle := h.le
  have hleft : n + (min (1024 + pvt.dirtyRx - pvt.curRx) budget).toNat ≤ 1024 := by
    have hmin : (min (1024 + pvt.dirtyRx - pvt.curRx) budget).toNat ≤
        (1024 + pvt.dirtyRx - pvt.curRx).toNat := by
      change (if 1024 + pvt.dirtyRx - pvt.curRx ≤ budget then 1024 + pvt.dirtyRx - pvt.curRx
        else budget).toNat ≤ _
      split
      · exact Nat.le_refl _
      · next hlt =>
        rw [UInt32.le_iff_toNat_le] at hlt
        omega
    have hroom : (1024 + pvt.dirtyRx - pvt.curRx).toNat = 1024 - n := by
      have hlt := pvt.dirtyRx.toNat_lt
      rw [h.cur_eq, UInt32.toNat_sub, UInt32.toNat_add, UInt32.toNat_add, UInt32.toNat_ofNat']
      simp only [UInt32.reduceToNat]
      omega
    omega
  obtain ⟨m, -, hm, hcur, hfilled, hnull⟩ := rxLoop_filled pvt h.filled h.noNull h.cur_eq hleft
  have hslots := rxLoop_rxSlots (min (1024 + pvt.dirtyRx - pvt.curRx) budget).toNat pvt.curRx pvt
  simp only [Rtl8101.rxInterrupt]
  generalize rxLoop _ pvt.curRx pvt = r at hcur hfilled hnull hslots
  have hdirty : r.2.dirtyRx = pvt.dirtyRx := by
    obtain ⟨_, _, _, hr⟩ := hslots
    rw [hr]
  rw [← hdirty] at hcur hfilled
  -- the range of `r` is filled again, from its start on
  have hstop : (r.1 - r.2.dirtyRx).toNat = m := by
    rw [hcur]
    exact toNat_add_sub (by omega)
  obtain ⟨k, hk, hend, hfilled', hgap, hdelivered⟩ :=
    rxFillLoop_filled allocs { r.2 with curRx := r.1 } hfilled
  have hslots' := rxFillLoop_rxSlots allocs m r.2.dirtyRx { r.2 with curRx := r.1 }
  simp only [rxFill, hstop]
  generalize rxFillLoop allocs m r.2.dirtyRx { r.2 with curRx := r.1 } = r'
    at hend hfilled' hgap hdelivered hslots'
  obtain ⟨rxDesc, rxSkbuff, delivered, hr'⟩ := hslots'
  have hsum : r'.2.dirtyRx + (r'.1 - r.2.dirtyRx) = r'.1 := by
    rw [hr', UInt32.add_comm]
    exact UInt32.sub_add_cancel _ _
  refine ⟨k, ?_, by omega, ?_, ?_, ?_⟩
  · simp only [hsum]
    rw [hr', hend]
    simp only [hcur]
    rw [UInt32.add_assoc, ← UInt32.ofNat_add, Nat.sub_add_cancel hk]
  · simp only [hsum]
    exact hfilled'
  · simp only [hsum]
    exact hgap
  · unfold NoNull
    rw [hdelivered]
    exact hnull

theorem eq_zero (h : RxInv pvt n) (hsame : pvt.dirtyRx = pvt.curRx) : n = 0 := by
  have hle := h.le
  have hused := congrArg UInt32.toNat (congrArg (· - pvt.dirtyRx) h.cur_eq)
  rw [toNat_add_sub (by omega), ← hsame, UInt32.sub_self] at hused
  exact hused.symm

/-- With an empty range all slots are filled, and the counters may start again. -/
theorem restart (h : RxInv pvt 0) {pvt' : Pvt β} (hcur : pvt'.curRx = 0) (hdirty : pvt'.dirtyRx = 0)
    (hskb : pvt'.rxSkbuff = pvt.rxSkbuff) (hdelivered : pvt'.delivered = pvt.delivered) :
    RxInv pvt' 0 where
  cur_eq := by
    rw [hcur, hdirty]
    rfl
  le := Nat.zero_le _
  filled := by
    intro e he _
    rw [hskb]
    exact h.filled e he (Nat.zero_le _)
  gap hpos := absurd hpos (Nat.lt_irrefl 0)
  noNull := by
    unfold NoNull
    rw [hdelivered]
    exact h.noNull

end RxInv

/-! ## The condition -/

/-- The link goes down only while no slot is empty. -/
def RxKept (pvt : Pvt β) : Act β → Prop
  | .checkLinkStatus linkStatusOn =>
    pvt.carrier = true → linkStatusOn = false → pvt.dirtyRx = pvt.curRx
  | _ => True

/-- **The receive ring**: at most all of its slots are behind `dirty_rx`, all others hold a buffer,
and no null buffer was passed up. -/
structure RxSound (pvt : Pvt β) : Prop where
  used_le : (pvt.curRx - pvt.dirtyRx).toNat ≤ 1024
  filled : FilledOutside 1024 pvt.rxSkbuff (slot pvt.dirtyRx) (pvt.curRx - pvt.dirtyRx).toNat
  noNull : NoNull pvt

section

variable {maxSkbFrags : Nat} {pvt : Pvt β} {n : Nat}

theorem RxInv.sound (h : RxInv pvt n) : RxSound pvt := by
  have hle := h.le
  have hused : (pvt.curRx - pvt.dirtyRx).toNat = n := by
    rw [h.cur_eq]
    exact toNat_add_sub (by omega)
  exact ⟨by rw [hused]; exact hle, by rw [hused]; exact h.filled, h.noNull⟩

/-- What a step of the driver does to the receive ring: the range is kept, worked on or, when the
link goes down, forgotten. -/
theorem RxInv.step_cases (h : RxInv pvt n) (maxSkbFrags : Nat) (act : Act β) :
    (∃ m, RxInv (Rtl8101.step maxSkbFrags pvt act) m) ∧ RxKept pvt act ∨
      ((Rtl8101.step maxSkbFrags pvt act).curRx = 0 ∧
        (Rtl8101.step maxSkbFrags pvt act).dirtyRx = 0 ∧
        (Rtl8101.step maxSkbFrags pvt act).rxSkbuff = pvt.rxSkbuff ∧
        (Rtl8101.step maxSkbFrags pvt act).delivered = pvt.delivered ∧
        (RxKept pvt act ↔ pvt.dirtyRx = pvt.curRx)) := by
  cases act with
  | startXmit packet =>
    exact .inl ⟨⟨n, h.sameRx (startXmit_sameRx maxSkbFrags packet pvt)⟩, trivial⟩
  | transmitted entry => exact .inl ⟨⟨n, h.sameRx ⟨rfl, rfl, rfl, rfl⟩⟩, trivial⟩
  | txInterrupt => exact .inl ⟨⟨n, h.sameRx (txInterrupt_sameRx maxSkbFrags pvt)⟩, trivial⟩
  | received entry status =>
    refine .inl ⟨⟨n, h.sameRx ?_⟩, trivial⟩
    unfold Rtl8101.step received
    simp only
    split <;> exact ⟨rfl, rfl, rfl, rfl⟩
  | rxInterrupt budget allocs => exact .inl ⟨h.rxInterrupt budget allocs, trivial⟩
  | checkLinkStatus linkStatusOn =>
    cases linkStatusOn with
    | true =>
      refine .inl ⟨⟨n, h.sameRx ?_⟩, fun _ hoff => absurd hoff (by decide)⟩
      simp only [Rtl8101.step, checkLinkStatus]
      split <;> exact ⟨rfl, rfl, rfl, rfl⟩
    | false =>
      by_cases hcarrier : pvt.carrier = true
      · right
        have hsame := txClear_sameRx { pvt with carrier := false, stopped := true }
        have hdown : Rtl8101.step maxSkbFrags pvt (.checkLinkStatus false) =
            initRingIndexes (txClear { pvt with carrier := false, stopped := true }) := by
          simp [Rtl8101.step, checkLinkStatus, hcarrier]
        rw [hdown]
        generalize txClear { pvt with carrier := false, stopped := true } = pvt' at hsame
        exact ⟨rfl, rfl, hsame.rxSkbuff, hsame.delivered,
          fun hkept => hkept hcarrier rfl, fun heq _ _ => heq⟩
      · left
        refine ⟨⟨n, h.sameRx ?_⟩, fun hon => absurd hon hcarrier⟩
        simp only [Rtl8101.step, checkLinkStatus, hcarrier]
        exact ⟨rfl, rfl, rfl, rfl⟩
  | resetTask allocs =>
    obtain ⟨m, hm⟩ := h.rxInterrupt 0xFFFFFFFF allocs
    have hclear := hm.sameRx (txClear_sameRx _)
    refine .inl ⟨?_, trivial⟩
    simp only [Rtl8101.step, resetTask]
    generalize txClear (Rtl8101.rxInterrupt 0xFFFFFFFF allocs pvt) = pvt' at hclear
    split
    · next hsame =>
      rw [hclear.eq_zero hsame] at hclear
      exact ⟨0, hclear.restart rfl rfl rfl rfl⟩
    · exact ⟨m, hclear⟩

/-- A step that forgets no empty slot keeps the invariant. -/
theorem RxInv.step (h : RxInv pvt n) {act : Act β} (hkept : RxKept pvt act) :
    ∃ m, RxInv (Rtl8101.step maxSkbFrags pvt act) m := by
  rcases h.step_cases maxSkbFrags act with ⟨hinv, -⟩ | ⟨hcur, hdirty, hskb, hdelivered, hiff⟩
  · exact hinv
  · rw [h.eq_zero (hiff.1 hkept)] at h
    exact ⟨0, h.restart hcur hdirty hskb hdelivered⟩

/-- Any other step leaves an empty slot outside of the range. -/
theorem RxInv.step_not_sound (h : RxInv pvt n) {act : Act β} (hnot : ¬ RxKept pvt act) :
    ¬ RxSound (Rtl8101.step maxSkbFrags pvt act) := by
  intro hsound
  rcases h.step_cases maxSkbFrags act with ⟨-, hkept⟩ | ⟨hcur, hdirty, hskb, -, hiff⟩
  · exact hnot hkept
  · -- the first slot of the forgotten range
    have hpos : 0 < n := by
      rw [Nat.pos_iff_ne_zero]
      rintro rfl
      exact hnot (hiff.2 (by rw [h.cur_eq]; exact (UInt32.add_zero _).symm))
    have hfilled := hsound.filled
    rw [hcur, hdirty, hskb, UInt32.sub_self] at hfilled
    exact hfilled _ (slot_lt pvt.dirtyRx) (Nat.zero_le _) (h.gap hpos)

/-- The receive ring is full: no slot is empty, and nothing was passed up yet. -/
structure FullRing (pvt : Pvt β) : Prop where
  same : pvt.curRx = pvt.dirtyRx
  filled : ∀ e < 1024, pvt.rxSkbuff e ≠ none
  delivered : pvt.delivered = []

theorem FullRing.rxInv (h : FullRing pvt) : RxInv pvt 0 where
  cur_eq := by
    rw [h.same]
    exact (UInt32.add_zero _).symm
  le := Nat.zero_le _
  filled e he _ := h.filled e he
  gap hpos := absurd hpos (Nat.lt_irrefl 0)
  noNull := by
    unfold NoNull
    rw [h.delivered]
    simp

/-- **No empty slot is inspected**: the receive ring is in order in every state that is reached from
a full ring, exactly when the link goes down only while no slot is empty. -/
theorem rxSound_run_iff (hfull : FullRing pvt) (acts : List (Act β)) :
    (∀ pre, pre <+: acts → RxSound (run (Rtl8101.step maxSkbFrags) pvt pre)) ↔
      Along (Rtl8101.step maxSkbFrags) RxKept pvt acts := by
  refine Along.safe_iff (V := fun _ _ => True) (I := fun pvt => ∃ n, RxInv pvt n) ?_ ?_ ?_
    ⟨0, hfull.rxInv⟩ (along_of_forall fun _ _ => trivial)
  · rintro pvt ⟨n, h⟩
    exact h.sound
  · rintro pvt act ⟨n, h⟩ - hkept
    exact h.step hkept
  · rintro pvt act ⟨n, h⟩ - hnot
    exact h.step_not_sound hnot

/-- The receive ring is full when the device has been opened. -/
theorem rtl8101Open_fullRing {allocs : Allocs β} {irq : Int}
    (hopen : rtl8101Open allocs irq = .ok pvt) : FullRing pvt := by
  have hnone : FilledOutside 1024 (cleared : Pvt β).rxSkbuff (slot 0) 1024 := by
    intro e he hle
    have := Ring.offset_lt (slot_lt 0) he
    omega
  obtain ⟨n, hn, hstop, hfilled, -, hdelivered⟩ := rxFillLoop_filled allocs cleared hnone
  obtain ⟨_, _, _, hslots⟩ := rxFillLoop_rxSlots allocs 1024 0 cleared
  have hrange : ((1024 : UInt32) - 0).toNat = 1024 := by decide
  unfold rtl8101Open initBuffers rxFill at hopen
  rw [hrange] at hopen
  generalize rxFillLoop allocs 1024 0 cleared = r at hopen hstop hfilled hdelivered hslots
  simp only at hopen
  split at hopen
  · exact absurd hopen (by simp)
  · next pvt₁ heq =>
    split at heq
    · exact absurd heq (by simp)
    · next hall =>
      split at hopen
      · exact absurd hopen (by simp)
      · rw [Except.ok.injEq] at heq hopen
        subst heq hopen
        have hzero : n = 0 := by
          have hnat := congrArg UInt32.toNat (not_not.1 hall)
          rw [hstop, UInt32.sub_zero, UInt32.zero_add, UInt32.toNat_ofNat'] at hnat
          simp only [UInt32.reduceToNat] at hnat
          omega
        rw [hzero] at hfilled
        refine ⟨?_, fun e he => hfilled e he (Nat.zero_le _), hdelivered⟩
        simp only [hwInit, hslots]
        rfl

end

/-! ## A shortage of memory -/

/-- A driver whose receive ring is full and owned by the NIC. -/
def fullPvt : Pvt Unit :=
  { (cleared : Pvt Unit) with
    rxSkbuff := fun _ => some ()
    rxDesc := fun _ => ⟨descOwn, 0, 0⟩
    stopped := false }

/-- A packet is received and passed up, and the link goes down. -/
def rxActs (allocs : Allocs Unit) : List (Act Unit) :=
  [.checkLinkStatus true, .received 0 100, .rxInterrupt 64 allocs, .checkLinkStatus false]

/-- The slot was filled again. -/
theorem rxSound_run_iff_refilled : FullRing fullPvt ∧
    ∀ pre, pre <+: rxActs (fun _ => some ((), 0)) → RxSound (run (step 18) fullPvt pre) := by
  have hfull : FullRing fullPvt := ⟨rfl, fun _ _ => by simp [fullPvt], rfl⟩
  refine ⟨hfull, (rxSound_run_iff hfull _).2 ?_⟩
  refine ⟨fun _ hoff => absurd hoff (by decide), trivial, trivial, fun _ _ => ?_, trivial⟩
  decide

/-- There was no memory for another buffer. When the link is up again, the empty slot is inspected
and a null buffer is passed up. -/
theorem not_rxSound_shortage :
    ¬ RxSound (run (step 18) fullPvt (rxActs fun _ => none)) ∧
      (none, (96 : Int)) ∈ (run (step 18) fullPvt (rxActs (fun _ => none) ++
        [.checkLinkStatus true, .rxInterrupt 64 fun _ => none])).delivered := by
  constructor
  · have hfull : FullRing fullPvt := ⟨rfl, fun _ _ => by simp [fullPvt], rfl⟩
    have hkept : Along (step 18) RxKept fullPvt
        [.checkLinkStatus true, .received 0 100, .rxInterrupt 64 fun _ => none] :=
      ⟨fun _ hoff => absurd hoff (by decide), trivial, trivial, trivial⟩
    obtain ⟨n, hinv⟩ := Along.invariant (I := fun pvt => ∃ n, RxInv pvt n)
      (fun pvt act ⟨n, h⟩ hkept => h.step hkept) ⟨0, hfull.rxInv⟩ hkept
    have hnot : ¬ RxKept (run (step 18) fullPvt
        [.checkLinkStatus true, .received 0 100, .rxInterrupt 64 fun _ => none])
        (.checkLinkStatus false) := by
      intro hkept'
      exact absurd (hkept' rfl rfl) (by decide)
    have hdown : ¬ RxSound (step 18 (run (step 18) fullPvt
        [.checkLinkStatus true, .received 0 100, .rxInterrupt 64 fun _ => none])
        (.checkLinkStatus false)) := hinv.step_not_sound hnot
    exact hdown
  · decide +kernel

end LinuxDrivers.Rtl8101
