import LinuxDrivers.Rtl8101.Receive
import LinuxDrivers.Rtl8101.WireOrder

/-!
# Received packets

From `cur_rx` on the receive ring holds the packets that the NIC has received and the driver has not
looked at, and the NIC stands behind them. The slots from `dirty_rx` up to `cur_rx` are empty or
given back to the NIC already. `rtl8101_hw_init` sets the NIC to the first slot; the driver follows
only in `rtl8101_reset_task`, so the link has to come up while both stand there anyway.
-/

namespace LinuxDrivers.Rtl8101

open LinuxDrivers.Ring (offset offset_lt offset_succ eq_add_iff_offset FilledOutside)

variable {β : Type}

/-! ## The shape of the ring -/

/-- `n` slots are behind `dirty`, and `w` slots after them hold received packets. The NIC owns every
other slot that holds a buffer. -/
structure RxShape (pvt : Pvt β) (dirty : UInt32) (n w : Nat) : Prop where
  le : n + w ≤ 1024
  filled : FilledOutside 1024 pvt.rxSkbuff (slot dirty) n
  owned_iff : ∀ e < 1024, (pvt.rxDesc e).Owned ↔ pvt.rxSkbuff e ≠ none ∧
    ¬ (n ≤ offset 1024 (slot dirty) e ∧ offset 1024 (slot dirty) e < n + w)

/-- The packets that the driver will pass up from the next `w` slots. -/
def waitingFrames (pvt : Pvt β) (cur : UInt32) (w : Nat) : List (Option β × Int) :=
  (List.range w).filterMap fun k =>
    frameOf (pvt.rxSkbuff (slot (cur + .ofNat k))) (pvt.rxDesc (slot (cur + .ofNat k))).opts1

theorem waitingFrames_congr {pvt pvt' : Pvt β} {cur : UInt32} {w : Nat}
    (h : ∀ k < w, pvt'.rxSkbuff (slot (cur + .ofNat k)) = pvt.rxSkbuff (slot (cur + .ofNat k)) ∧
      pvt'.rxDesc (slot (cur + .ofNat k)) = pvt.rxDesc (slot (cur + .ofNat k))) :
    waitingFrames pvt' cur w = waitingFrames pvt cur w := by
  apply List.filterMap_congr
  intro k hk
  obtain ⟨hskb, hdesc⟩ := h k (List.mem_range.1 hk)
  rw [hskb, hdesc]

/-- The first waiting packet. -/
theorem waitingFrames_succ (pvt : Pvt β) (cur : UInt32) (w : Nat) :
    waitingFrames pvt cur (w + 1) =
      (frameOf (pvt.rxSkbuff (slot cur)) (pvt.rxDesc (slot cur)).opts1).toList ++
        waitingFrames pvt (cur + 1) w := by
  unfold waitingFrames
  rw [List.range_succ_eq_map, List.filterMap_cons, List.filterMap_map]
  have hzero : cur + .ofNat 0 = cur := UInt32.add_zero cur
  simp only [hzero, Function.comp_def, add_ofNat_succ]
  split
  · next hnone => rw [hnone]; rfl
  · next f hsome => rw [hsome]; rfl

/-- The last waiting packet. -/
theorem waitingFrames_concat (pvt : Pvt β) (cur : UInt32) (w : Nat) :
    waitingFrames pvt cur (w + 1) = waitingFrames pvt cur w ++
      (frameOf (pvt.rxSkbuff (slot (cur + .ofNat w)))
        (pvt.rxDesc (slot (cur + .ofNat w))).opts1).toList := by
  unfold waitingFrames
  rw [List.range_succ, List.filterMap_append]
  congr 1

theorem markToAsic_owned (desc : Desc) (rxBufSz : UInt32) : (markToAsic desc rxBufSz).Owned := by
  unfold Desc.Owned markToAsic
  rw [or_and_ne_zero_iff, or_and_ne_zero_iff]
  exact .inl (.inl (by decide))

/-- The slots of different places are different. -/
theorem slot_add_ne (cur : UInt32) {k : Nat} (hpos : 0 < k) (hk : k < 1024) :
    slot (cur + .ofNat k) ≠ slot cur := by
  have hlt := slot_lt cur
  rw [slot_add]
  omega

namespace RxShape

variable {pvt : Pvt β} {dirty : UInt32} {n w : Nat}

/-- The driver takes the packet of the first waiting slot: the NIC gets an erroneous one back, and
the slot of a good one is empty. -/
theorem take (h : RxShape pvt dirty n (w + 1)) {pvt' : Pvt β}
    (hskb : ∀ e, e ≠ slot (dirty + .ofNat n) → pvt'.rxSkbuff e = pvt.rxSkbuff e)
    (hdesc : ∀ e, e ≠ slot (dirty + .ofNat n) → pvt'.rxDesc e = pvt.rxDesc e)
    (hslot : (pvt'.rxDesc (slot (dirty + .ofNat n))).Owned ↔
      pvt'.rxSkbuff (slot (dirty + .ofNat n)) ≠ none) : RxShape pvt' dirty (n + 1) w := by
  have hle := h.le
  have hn : n < 1024 := by omega
  refine ⟨by omega, ?_, fun e he => ?_⟩
  · refine h.filled.extend (slot_lt dirty) hn fun e hne => ?_
    rw [← slot_add] at hne
    exact hskb e hne
  · by_cases heq : e = slot (dirty + .ofNat n)
    · rw [heq, hslot, slot_add, offset_slot_add dirty hn]
      constructor
      · exact fun hsome => ⟨hsome, by omega⟩
      · exact fun hsome => hsome.1
    · have hne := mt (eq_add_iff_offset (slot_lt dirty) he hn).2 (by rwa [← slot_add])
      rw [hdesc e heq, hskb e heq, h.owned_iff e he]
      refine and_congr_right fun _ => not_congr ?_
      omega

/-- A first slot that holds a buffer leaves the range. -/
theorem drop (h : RxShape pvt dirty (n + 1) w) {pvt' : Pvt β}
    (hskb : ∀ e, e ≠ slot dirty → pvt'.rxSkbuff e = pvt.rxSkbuff e)
    (hdesc : ∀ e, e ≠ slot dirty → pvt'.rxDesc e = pvt.rxDesc e)
    (hsome : pvt'.rxSkbuff (slot dirty) ≠ none) (howned : (pvt'.rxDesc (slot dirty)).Owned) :
    RxShape pvt' (dirty + 1) n w := by
  have hle := h.le
  refine ⟨by omega, ?_, fun e he => ?_⟩
  · rw [slot_succ]
    exact h.filled.drop (slot_lt dirty) hsome hskb
  · have hsucc := offset_succ (slot_lt dirty) he
    rw [← slot_succ] at hsucc
    by_cases heq : e = slot dirty
    · rw [if_pos heq] at hsucc
      rw [heq] at hsucc ⊢
      exact iff_of_true howned ⟨hsome, by omega⟩
    · rw [if_neg heq] at hsucc
      rw [hdesc e heq, hskb e heq, h.owned_iff e he]
      refine and_congr_right fun _ => not_congr ?_
      omega

/-- A first slot of the range that holds a buffer is owned by the NIC. -/
theorem first_owned (h : RxShape pvt dirty (n + 1) w) (hsome : pvt.rxSkbuff (slot dirty) ≠ none) :
    (pvt.rxDesc (slot dirty)).Owned := by
  rw [h.owned_iff _ (slot_lt dirty), offset_self]
  exact ⟨hsome, by omega⟩

end RxShape

/-! ## The loops -/

/-- A turn of the loop of `rtl8101_rx_interrupt` with a slot that the NIC has given back. -/
theorem rxLoop_turn (left : Nat) {cur : UInt32} {pvt : Pvt β}
    (hfree : ¬ (pvt.rxDesc (slot cur)).Owned) (hsome : pvt.rxSkbuff (slot cur) ≠ none) :
    ∃ pvt', rxLoop (left + 1) cur pvt = rxLoop left (cur + 1) pvt' ∧
      (∀ e, e ≠ slot cur → pvt'.rxSkbuff e = pvt.rxSkbuff e) ∧
      (∀ e, e ≠ slot cur → pvt'.rxDesc e = pvt.rxDesc e) ∧
      ((pvt'.rxDesc (slot cur)).Owned ↔ pvt'.rxSkbuff (slot cur) ≠ none) ∧
      pvt'.delivered = pvt.delivered ++
        (frameOf (pvt.rxSkbuff (slot cur)) (pvt.rxDesc (slot cur)).opts1).toList := by
  rw [rxLoop, if_neg hfree]
  unfold frameOf
  split
  · refine ⟨_, rfl, fun e _ => rfl, fun e he => Function.update_of_ne he _ _, ?_, ?_⟩
    · simp only [Function.update_self]
      exact iff_of_true (markToAsic_owned _ _) hsome
    · exact (List.append_nil _).symm
  · refine ⟨_, rfl, fun e he => Function.update_of_ne he _ _, fun e _ => rfl, ?_, rfl⟩
    simp [hfree]

/-- **The loop** of `rtl8101_rx_interrupt` passes up the waiting packets in order. -/
theorem rxLoop_frames (left : Nat) {pvt : Pvt β} {dirty : UInt32} {n w : Nat}
    (h : RxShape pvt dirty n w) (hleft : n + left ≤ 1024) :
    ∃ m ≤ w, (w ≤ left → m = w) ∧
      (rxLoop left (dirty + .ofNat n) pvt).1 = dirty + .ofNat (n + m) ∧
      RxShape (rxLoop left (dirty + .ofNat n) pvt).2 dirty (n + m) (w - m) ∧
      (rxLoop left (dirty + .ofNat n) pvt).2.delivered ++
          waitingFrames (rxLoop left (dirty + .ofNat n) pvt).2 (dirty + .ofNat (n + m)) (w - m) =
        pvt.delivered ++ waitingFrames pvt (dirty + .ofNat n) w := by
  induction left generalizing pvt n w with
  | zero => exact ⟨0, Nat.zero_le w, by omega, rfl, h, rfl⟩
  | succ left ih =>
    have hle := h.le
    have hn : n < 1024 := by omega
    have hoff : offset 1024 (slot dirty) (slot (dirty + .ofNat n)) = n := by
      rw [slot_add]
      exact offset_slot_add dirty hn
    have hsome : pvt.rxSkbuff (slot (dirty + .ofNat n)) ≠ none :=
      h.filled _ (slot_lt _) (by omega)
    have hnext : dirty + .ofNat n + 1 = dirty + .ofNat (n + 1) := by
      rw [UInt32.ofNat_add, UInt32.add_assoc]
      rfl
    cases w with
    | zero =>
      have howned : (pvt.rxDesc (slot (dirty + .ofNat n))).Owned :=
        (h.owned_iff _ (slot_lt _)).2 ⟨hsome, by omega⟩
      rw [rxLoop]
      simp only [howned, ↓reduceIte]
      exact ⟨0, Nat.le_refl 0, fun _ => rfl, rfl, h, rfl⟩
    | succ w =>
      have hfree : ¬ (pvt.rxDesc (slot (dirty + .ofNat n))).Owned := by
        rw [h.owned_iff _ (slot_lt _), hoff]
        omega
      obtain ⟨pvt', hturn, hskb, hdesc, hslot, hdelivered⟩ := rxLoop_turn left hfree hsome
      obtain ⟨m, hm, hall, hcur, hshape, hframes⟩ := ih (h.take hskb hdesc hslot) (by omega)
      -- the packets behind the first one stay as they are
      have hrest : waitingFrames pvt' (dirty + .ofNat (n + 1)) w =
          waitingFrames pvt (dirty + .ofNat (n + 1)) w := by
        apply waitingFrames_congr
        intro k hk
        have hne : slot (dirty + .ofNat (n + 1) + .ofNat k) ≠ slot (dirty + .ofNat n) := by
          rw [← hnext, add_ofNat_succ]
          exact slot_add_ne _ (by omega) (by omega)
        exact ⟨hskb _ hne, hdesc _ hne⟩
      have hsum : n + (m + 1) = n + 1 + m := by omega
      rw [hturn, hnext, waitingFrames_succ, hnext]
      refine ⟨m + 1, by omega, by omega, ?_⟩
      rw [hsum, Nat.add_sub_add_right]
      refine ⟨hcur, hshape, hframes.trans ?_⟩
      rw [hrest, hdelivered, List.append_assoc]

/-- **The loop** of `rtl8101_rx_fill` gives the NIC new buffers for the first slots of the range,
and leaves the waiting packets alone. -/
theorem rxFillLoop_shape (allocs : Allocs β) {pvt : Pvt β} {dirty : UInt32} {n w : Nat}
    (h : RxShape pvt dirty n w) :
    ∃ k ≤ n, (rxFillLoop allocs n dirty pvt).1 = dirty + .ofNat (n - k) ∧
      RxShape (rxFillLoop allocs n dirty pvt).2 (dirty + .ofNat (n - k)) k w ∧
      (0 < k → (rxFillLoop allocs n dirty pvt).2.rxSkbuff (slot (dirty + .ofNat (n - k))) = none) ∧
      (rxFillLoop allocs n dirty pvt).2.delivered = pvt.delivered ∧
      waitingFrames (rxFillLoop allocs n dirty pvt).2 (dirty + .ofNat n) w =
        waitingFrames pvt (dirty + .ofNat n) w := by
  induction n generalizing pvt dirty with
  | zero =>
    refine ⟨0, Nat.le_refl 0, by simp [rxFillLoop], ?_, by omega, rfl, rfl⟩
    simpa [rxFillLoop] using h
  | succ n ih =>
    have hle := h.le
    -- one slot further on
    have hnext (k : Nat) (hk : k ≤ n) :
        dirty + 1 + .ofNat (n - k) = dirty + .ofNat (n + 1 - k) := by
      rw [add_ofNat_succ, Nat.succ_sub hk]
    rw [rxFillLoop]
    split
    · next hsome =>
      have hsome' : pvt.rxSkbuff (slot dirty) ≠ none := by
        simpa [Option.isSome_iff_ne_none] using hsome
      obtain ⟨k, hk, hstop, hshape, hgap, hdelivered, hwaiting⟩ :=
        ih (h.drop (fun _ _ => rfl) (fun _ _ => rfl) hsome' (h.first_owned hsome'))
      rw [hnext k hk] at hstop hshape hgap
      rw [add_ofNat_succ] at hwaiting
      exact ⟨k, by omega, hstop, hshape, hgap, hdelivered, hwaiting⟩
    · next hnone =>
      split
      · refine ⟨n + 1, Nat.le_refl _, by simp, by simpa using h, fun _ => ?_, rfl, rfl⟩
        simpa using hnone
      · next skb mapping halloc =>
        let pvt' : Pvt β := { pvt with
          rxSkbuff := Function.update pvt.rxSkbuff (slot dirty) (some skb)
          rxDesc := Function.update pvt.rxDesc (slot dirty)
            (mapToAsic (pvt.rxDesc (slot dirty)) mapping pvt.rxBufSz) }
        have hskb (e : Nat) (he : e ≠ slot dirty) : pvt'.rxSkbuff e = pvt.rxSkbuff e :=
          Function.update_of_ne he _ _
        have hdesc (e : Nat) (he : e ≠ slot dirty) : pvt'.rxDesc e = pvt.rxDesc e :=
          Function.update_of_ne he _ _
        have hshape' : RxShape pvt' (dirty + 1) n w := by
          refine h.drop hskb hdesc ?_ ?_
          · simp [pvt']
          · simp only [pvt', Function.update_self, mapToAsic]
            exact markToAsic_owned _ _
        obtain ⟨k, hk, hstop, hshape, hgap, hdelivered, hwaiting⟩ := ih hshape'
        rw [hnext k hk] at hstop hshape hgap
        rw [add_ofNat_succ] at hwaiting
        refine ⟨k, by omega, hstop, hshape, hgap, hdelivered, hwaiting.trans ?_⟩
        apply waitingFrames_congr
        intro j hj
        have hne : slot (dirty + .ofNat (n + 1) + .ofNat j) ≠ slot dirty := by
          rw [UInt32.add_assoc, ← UInt32.ofNat_add]
          exact slot_add_ne _ (by omega) (by omega)
        exact ⟨hskb _ hne, hdesc _ hne⟩

/-! ## The invariant -/

/-- What the driver has looked at and what it has not, with the first slot of the range empty. -/
structure RxQueue (pvt : Pvt β) (n w : Nat) : Prop where
  shape : RxShape pvt pvt.dirtyRx n w
  cur_eq : pvt.curRx = pvt.dirtyRx + .ofNat n
  gap : 0 < n → pvt.rxSkbuff (slot pvt.dirtyRx) = none

/-- What was received and what was passed up, or will be. -/
def queued (pvt : Pvt β) (w : Nat) : List (Option β × Int) :=
  pvt.delivered ++ waitingFrames pvt pvt.curRx w

/-- The receive side of the driver. -/
structure SameRing (pvt pvt' : Pvt β) : Prop where
  curRx : pvt'.curRx = pvt.curRx
  dirtyRx : pvt'.dirtyRx = pvt.dirtyRx
  rxDesc : pvt'.rxDesc = pvt.rxDesc
  rxSkbuff : pvt'.rxSkbuff = pvt.rxSkbuff
  delivered : pvt'.delivered = pvt.delivered

theorem startXmit_sameRing (maxSkbFrags : Nat) (packet : Packet β) (pvt : Pvt β) :
    SameRing pvt (startXmit maxSkbFrags packet pvt).2 := by
  unfold startXmit errStop
  simp only
  split
  · exact ⟨rfl, rfl, rfl, rfl, rfl⟩
  · split
    · exact ⟨rfl, rfl, rfl, rfl, rfl⟩
    · split <;> exact ⟨rfl, rfl, rfl, rfl, rfl⟩

theorem txInterrupt_sameRing (maxSkbFrags : Nat) (pvt : Pvt β) :
    SameRing pvt (txInterrupt maxSkbFrags pvt) := by
  have h := txInterrupt_sameRx maxSkbFrags pvt
  exact ⟨h.curRx, h.dirtyRx, (txInterrupt_handsNone maxSkbFrags pvt).rx, h.rxSkbuff, h.delivered⟩

theorem txClear_sameRing (pvt : Pvt β) : SameRing pvt (txClear pvt) := by
  have h := txClear_sameRx pvt
  exact ⟨h.curRx, h.dirtyRx, (txClear_handsNone pvt).rx, h.rxSkbuff, h.delivered⟩

section

variable {pvt pvt' : Pvt β} {n w : Nat}

theorem SameRing.queue (hsame : SameRing pvt pvt') (h : RxQueue pvt n w) : RxQueue pvt' n w where
  shape := by
    rw [hsame.dirtyRx]
    refine ⟨h.shape.le, ?_, ?_⟩
    · rw [hsame.rxSkbuff]
      exact h.shape.filled
    · rw [hsame.rxSkbuff, hsame.rxDesc]
      exact h.shape.owned_iff
  cur_eq := by rw [hsame.curRx, hsame.dirtyRx, h.cur_eq]
  gap := by
    rw [hsame.rxSkbuff, hsame.dirtyRx]
    exact h.gap

theorem SameRing.queued_eq (hsame : SameRing pvt pvt') (w : Nat) :
    queued pvt' w = queued pvt w := by
  unfold queued waitingFrames
  rw [hsame.delivered, hsame.curRx, hsame.rxSkbuff, hsame.rxDesc]

/-- The driver fills the range, from its start on. -/
theorem RxShape.refill (h : RxShape pvt pvt.dirtyRx n w)
    (hcur : pvt.curRx = pvt.dirtyRx + .ofNat n) (allocs : Allocs β) :
    let r := rxFill allocs pvt.dirtyRx pvt.curRx pvt
    let pvt' := { r.2 with dirtyRx := r.2.dirtyRx + r.1 }
    (∃ k, RxQueue pvt' k w) ∧ queued pvt' w = queued pvt w ∧ pvt'.curRx = pvt.curRx := by
  have hle := h.le
  obtain ⟨k, hk, hstop, hshape, hgap, hdelivered, hwaiting⟩ := rxFillLoop_shape allocs h
  obtain ⟨_, _, _, honly⟩ := rxFillLoop_rxSlots allocs n pvt.dirtyRx pvt
  have hrange : (pvt.dirtyRx + .ofNat n - pvt.dirtyRx).toNat = n := toNat_add_sub (by omega)
  simp only [rxFill, hcur, hrange]
  generalize rxFillLoop allocs n pvt.dirtyRx pvt = r at hstop hshape hgap hdelivered hwaiting honly
  have hdirty : r.2.dirtyRx + (r.1 - pvt.dirtyRx) = pvt.dirtyRx + .ofNat (n - k) := by
    rw [honly, hstop, UInt32.add_comm pvt.dirtyRx (_ - _), UInt32.sub_add_cancel]
  have hkept : r.2.curRx = pvt.curRx := by rw [honly]
  refine ⟨⟨k, ⟨?_, ?_, ?_⟩⟩, ?_, hkept.trans hcur⟩
  · simp only [hdirty]
    exact ⟨hshape.le, hshape.filled, hshape.owned_iff⟩
  · simp only [hdirty, hkept, hcur]
    rw [UInt32.add_assoc, ← UInt32.ofNat_add, Nat.sub_add_cancel hk]
  · simp only [hdirty]
    exact hgap
  · unfold queued
    simp only [hkept, hdelivered]
    rw [hcur]
    exact congrArg _ hwaiting

/-- **`rtl8101_rx_interrupt`** passes up the first waiting packets, and all of them when its budget
is not the limit. -/
theorem RxQueue.rxInterrupt (h : RxQueue pvt n w) (budget : UInt32) (allocs : Allocs β) :
    ∃ n' w', RxQueue (Rtl8101.rxInterrupt budget allocs pvt) n' w' ∧
      queued (Rtl8101.rxInterrupt budget allocs pvt) w' = queued pvt w ∧
      slot ((Rtl8101.rxInterrupt budget allocs pvt).curRx + .ofNat w') =
        slot (pvt.curRx + .ofNat w) ∧
      (1024 ≤ budget.toNat → w' = 0) := by
  have hle := h.shape.le
  have hroom : (1024 + pvt.dirtyRx - pvt.curRx).toNat = 1024 - n := by
    have hlt := pvt.dirtyRx.toNat_lt
    rw [h.cur_eq, UInt32.toNat_sub, UInt32.toNat_add, UInt32.toNat_add, UInt32.toNat_ofNat']
    simp only [UInt32.reduceToNat]
    omega
  have hleft : (min (1024 + pvt.dirtyRx - pvt.curRx) budget).toNat =
    min (1024 - n) budget.toNat := by
    rw [← hroom]
    change (if 1024 + pvt.dirtyRx - pvt.curRx ≤ budget then 1024 + pvt.dirtyRx - pvt.curRx
      else budget).toNat = _
    split
    · next hbudget =>
      rw [UInt32.le_iff_toNat_le] at hbudget
      omega
    · next hbudget =>
      rw [UInt32.le_iff_toNat_le] at hbudget
      omega
  obtain ⟨m, hm, hall, hcur, hshape, hframes⟩ :=
    rxLoop_frames (min (1024 - n) budget.toNat) h.shape (by omega)
  rw [← h.cur_eq] at hcur hshape hframes
  obtain ⟨_, _, _, honly⟩ := rxLoop_rxSlots (min (1024 - n) budget.toNat) pvt.curRx pvt
  simp only [Rtl8101.rxInterrupt, hleft]
  generalize rxLoop (min (1024 - n) budget.toNat) pvt.curRx pvt = r at hcur hshape hframes honly
  have hdirty : r.2.dirtyRx = pvt.dirtyRx := by rw [honly]
  have hlooked : RxShape { r.2 with curRx := r.1 } r.2.dirtyRx (n + m) (w - m) := by
    rw [hdirty]
    exact ⟨hshape.le, hshape.filled, hshape.owned_iff⟩
  have hcur' : r.1 = r.2.dirtyRx + .ofNat (n + m) := by rw [hdirty, hcur]
  obtain ⟨⟨k, hqueue⟩, hqueued, hkept⟩ := hlooked.refill hcur' allocs
  simp only at hqueue hqueued hkept
  generalize rxFill allocs r.2.dirtyRx r.1 _ = filled at hqueue hqueued hkept ⊢
  refine ⟨k, w - m, hqueue, hqueued.trans ?_, ?_, fun hbudget => ?_⟩
  · rw [← hcur] at hframes
    exact hframes
  · rw [hkept, hcur, h.cur_eq, UInt32.add_assoc, UInt32.add_assoc, ← UInt32.ofNat_add,
      ← UInt32.ofNat_add, Nat.add_assoc, Nat.add_sub_cancel' hm]
  · have := hall (by omega)
    omega

end

/-! ## Runs -/

/-- The NIC stands behind what the driver has not looked at. -/
structure RxOrder (s : Nic β) (n w : Nat) : Prop where
  queue : RxQueue s.pvt n w
  frames : s.frames = queued s.pvt w
  next : s.enabled = true → s.rxNext = slot (s.pvt.curRx + .ofNat w)
  marks : Marks s.pvt

/-- The link comes up while the driver stands at the first slot, and goes down while no buffer is
missing; nothing waits in either case. -/
def RxRestart (s : Nic β) : NicAct β → Prop
  | .linkTimer true => s.pvt.carrier = false →
      slot s.pvt.curRx = 0 ∧ (s.pvt.rxDesc (slot s.pvt.curRx)).Owned
  | .linkTimer false => s.pvt.carrier = true →
      s.pvt.dirtyRx = s.pvt.curRx ∧ (s.pvt.rxDesc (slot s.pvt.curRx)).Owned
  | _ => True

section

variable {maxSkbFrags : Nat} {s : Nic β} {n w : Nat}

namespace RxOrder

/-- When the NIC owns the slot that the driver looks at next, nothing waits. -/
theorem eq_zero (h : RxQueue s.pvt n w) (howned : (s.pvt.rxDesc (slot s.pvt.curRx)).Owned) :
    w = 0 := by
  have hle := h.shape.le
  have hmem := (h.shape.owned_iff _ (slot_lt s.pvt.curRx)).1 howned
  rw [h.cur_eq, slot_add] at hmem
  by_cases hn : n < 1024
  · rw [offset_slot_add _ hn] at hmem
    omega
  · omega

/-- What only the transmit side and the flags change. -/
theorem sameRing (h : RxOrder s n w) {pvt' : Pvt β} (hmarks : Marks pvt')
    (hsame : SameRing s.pvt pvt') {enabled : Bool} (henabled : enabled = true → s.enabled = true)
    {txNext : Nat} {wire dropped : List β} :
    RxOrder ⟨pvt', enabled, txNext, s.rxNext, wire, s.frames, dropped⟩ n w where
  queue := hsame.queue h.queue
  frames := by
    rw [hsame.queued_eq]
    exact h.frames
  next hon := by
    simp only [hsame.curRx]
    exact h.next (henabled hon)
  marks := hmarks

theorem rxInterrupt (h : RxOrder s n w) (budget : UInt32) (allocs : Allocs β) :
    ∃ n' w', RxOrder { s with pvt := Rtl8101.rxInterrupt budget allocs s.pvt } n' w' ∧
      (1024 ≤ budget.toNat → w' = 0) := by
  obtain ⟨n', w', hqueue, hqueued, hslot, hall⟩ := h.queue.rxInterrupt budget allocs
  refine ⟨n', w', ⟨hqueue, h.frames.trans hqueued.symm, fun hon => ?_, ?_⟩, hall⟩
  · simp only [hslot]
    exact h.next hon
  · exact h.marks.keepsEnds (rxInterrupt_keepsEnds budget allocs s.pvt h.marks.size)

/-- The NIC receives a packet behind the waiting ones. -/
theorem receive (h : RxOrder s n w) (status opts2 : UInt32) :
    ∃ w', RxOrder (s.receive status opts2) n w' := by
  unfold Nic.receive
  split
  · next hon =>
    obtain ⟨henabled, howned⟩ := hon
    have hle := h.queue.shape.le
    have hnext := h.next henabled
    have hnextlt : s.rxNext < 1024 := by
      rw [hnext]
      exact slot_lt _
    have hslot : s.rxNext = (slot s.pvt.dirtyRx + (n + w)) % 1024 := by
      rw [hnext, h.queue.cur_eq, UInt32.add_assoc, ← UInt32.ofNat_add, slot_add]
    have hmem := (h.queue.shape.owned_iff _ hnextlt).1 howned
    have hlt : n + w < 1024 := by
      by_contra hfull
      have hfirst : s.rxNext = slot s.pvt.dirtyRx := by
        rw [hslot, show n + w = 1024 by omega, Nat.add_mod_right, Nat.mod_eq_of_lt (slot_lt _)]
      rw [hfirst, offset_self] at hmem
      by_cases hn : 0 < n
      · exact hmem.1 (h.queue.gap hn)
      · omega
    have hoff : offset 1024 (slot s.pvt.dirtyRx) s.rxNext = n + w := by
      rw [hslot]
      exact offset_slot_add _ hlt
    have hgo : (s.pvt.rxDesc s.rxNext).next s.rxNext = (s.rxNext + 1) % 1024 := by
      have hmarked : RingMarked s.pvt.rxDesc := fun i hi _ => h.marks.rx i hi
      exact hmarked.goesAround _ hnextlt howned
    have hdesc : (release s.rxNext status opts2 s.pvt .rx).rxDesc = Function.update s.pvt.rxDesc
        s.rxNext ((s.pvt.rxDesc s.rxNext).writtenBack status opts2) := by
      simp only [release, howned, ↓reduceIte]
    have hsame : (release s.rxNext status opts2 s.pvt .rx).curRx = s.pvt.curRx ∧
        (release s.rxNext status opts2 s.pvt .rx).dirtyRx = s.pvt.dirtyRx ∧
        (release s.rxNext status opts2 s.pvt .rx).rxSkbuff = s.pvt.rxSkbuff ∧
        (release s.rxNext status opts2 s.pvt .rx).delivered = s.pvt.delivered := by
      simp only [release, howned, ↓reduceIte, and_self]
    obtain ⟨hcur, hdirty, hskb, hdelivered⟩ := hsame
    have hmarks := h.marks.release s.rxNext status opts2 .rx
    generalize release s.rxNext status opts2 s.pvt .rx = pvt' at *
    have hold : waitingFrames pvt' s.pvt.curRx w = waitingFrames s.pvt s.pvt.curRx w := by
      apply waitingFrames_congr
      intro k hk
      have hne : slot (s.pvt.curRx + .ofNat k) ≠ s.rxNext := by
        rw [hnext, slot_add, slot_add]
        omega
      rw [hskb, hdesc, Function.update_of_ne hne]
      exact ⟨rfl, rfl⟩
    refine ⟨w + 1, ⟨⟨⟨by omega, ?_, fun e he => ?_⟩, ?_, ?_⟩, ?_, fun _ => ?_, hmarks⟩⟩
    · simp only [hdirty, hskb]
      exact h.queue.shape.filled
    · simp only [hdirty, hskb, hdesc]
      by_cases heq : e = s.rxNext
      · rw [heq, Function.update_self, hoff]
        exact iff_of_false (not_owned_writtenBack _ _ _) (by omega)
      · have hne : offset 1024 (slot s.pvt.dirtyRx) e ≠ n + w := by
          rw [← hoff] at hlt
          intro hsum
          exact heq (((eq_add_iff_offset (slot_lt _) he (by omega)).2 hsum).trans hslot.symm)
        rw [Function.update_of_ne heq, h.queue.shape.owned_iff e he]
        refine and_congr_right fun _ => not_congr ?_
        omega
    · simp only [hcur, hdirty]
      exact h.queue.cur_eq
    · simp only [hdirty, hskb]
      exact h.queue.gap
    · unfold queued
      simp only [hcur, hdelivered]
      rw [waitingFrames_concat, hold, h.frames, ← hnext, hskb, hdesc, Function.update_self]
      unfold queued
      rw [List.append_assoc]
    · simp only [hgo, hcur]
      rw [hnext, slot_add, slot_add]
      omega
  · exact ⟨w, h⟩

/-- The driver and the NIC start again at the first slot of a ring that is full. -/
theorem restart (h : RxOrder s 0 0) {pvt' : Pvt β} (hmarks : Marks pvt')
    (hskb : pvt'.rxSkbuff = s.pvt.rxSkbuff) (hdesc : pvt'.rxDesc = s.pvt.rxDesc)
    (hdelivered : pvt'.delivered = s.pvt.delivered) (hcur : slot pvt'.curRx = 0)
    (hdirty : pvt'.dirtyRx = pvt'.curRx) {enabled : Bool} {txNext rxNext : Nat}
    (hnext : enabled = true → rxNext = 0) {wire dropped : List β} :
    RxOrder ⟨pvt', enabled, txNext, rxNext, wire, s.frames, dropped⟩ 0 0 := by
  have hfilled : ∀ e < 1024, s.pvt.rxSkbuff e ≠ none := fun e he =>
    h.queue.shape.filled e he (Nat.zero_le _)
  have howned : ∀ e < 1024, (s.pvt.rxDesc e).Owned := fun e he =>
    (h.queue.shape.owned_iff e he).2 ⟨hfilled e he, by omega⟩
  refine ⟨⟨⟨Nat.zero_le _, ?_, fun e he => ?_⟩, ?_, fun hpos => absurd hpos (Nat.lt_irrefl 0)⟩, ?_,
    fun hon => ?_, hmarks⟩
  · rw [hskb]
    exact fun e he _ => hfilled e he
  · rw [hskb, hdesc]
    exact iff_of_true (howned e he) ⟨hfilled e he, by omega⟩
  · rw [hdirty]
    exact (UInt32.add_zero _).symm
  · have hsame : queued pvt' 0 = queued s.pvt 0 := by
      unfold queued
      rw [hdelivered]
      rfl
    exact h.frames.trans hsame.symm
  · have hzero : pvt'.curRx + .ofNat 0 = pvt'.curRx := UInt32.add_zero _
    simp only [hzero, hcur]
    exact hnext hon

/-- The range is empty when the driver stands at its start. -/
theorem eq_zero_of_same (h : RxOrder s n w) (hsame : s.pvt.dirtyRx = s.pvt.curRx) : n = 0 := by
  have hle := h.queue.shape.le
  have hroom : (s.pvt.curRx - s.pvt.dirtyRx).toNat = n := by
    rw [h.queue.cur_eq]
    exact toNat_add_sub (by omega)
  rw [hsame, UInt32.sub_self] at hroom
  exact hroom.symm

theorem linkTimer (h : RxOrder s n w) {linkStatusOn : Bool}
    (hrestart : RxRestart s (.linkTimer linkStatusOn)) :
    ∃ n' w', RxOrder (Rtl8101.linkTimer linkStatusOn s) n' w' := by
  unfold Rtl8101.linkTimer
  simp only
  split
  · next hsame =>
    have hkept : checkLinkStatus linkStatusOn s.pvt = s.pvt := by simp [checkLinkStatus, hsame]
    rw [hkept]
    exact ⟨n, w, h⟩
  · next hchange =>
    cases linkStatusOn with
    | true =>
      have hoff : s.pvt.carrier = false := by simpa using hchange
      have hup : checkLinkStatus true s.pvt = { hwInit s.pvt with carrier := true } := by
        simp [checkLinkStatus, hoff]
      obtain ⟨hcur, howned⟩ := hrestart hoff
      obtain rfl := eq_zero h.queue howned
      have hmarks : Marks { hwInit s.pvt with carrier := true } :=
        ⟨h.marks.rx, h.marks.tx, h.marks.size⟩
      rw [hup]
      refine ⟨n, 0, ⟨?_, ?_, ?_⟩, h.frames, fun _ => ?_, hmarks⟩
      · exact ⟨h.queue.shape.le, h.queue.shape.filled, h.queue.shape.owned_iff⟩
      · exact h.queue.cur_eq
      · exact h.queue.gap
      · exact hcur.symm.trans (congrArg slot (UInt32.add_zero s.pvt.curRx).symm)
    | false =>
      have hon : s.pvt.carrier = true := by simpa using hchange
      obtain ⟨hsame, howned⟩ := hrestart hon
      obtain rfl := eq_zero h.queue howned
      obtain rfl := h.eq_zero_of_same hsame
      obtain ⟨-, -, -, hmarks⟩ := checkLinkStatus_down hon
      have hclear := txClear_sameRing { s.pvt with carrier := false, stopped := true }
      have hdown : checkLinkStatus false s.pvt =
          initRingIndexes (txClear { s.pvt with carrier := false, stopped := true }) := by
        simp [checkLinkStatus, hon]
      have hmarks' := hmarks h.marks
      rw [hdown] at hmarks' ⊢
      generalize txClear { s.pvt with carrier := false, stopped := true } = after
        at hclear hmarks' ⊢
      refine ⟨0, 0, h.restart hmarks' hclear.rxSkbuff hclear.rxDesc hclear.delivered rfl rfl ?_⟩
      exact fun hf => absurd (show false = true from hf) (by decide)

theorem resetTask (h : RxOrder s n w) (allocs : Allocs β) :
    ∃ n' w', RxOrder (nicResetTask allocs s) n' w' := by
  obtain ⟨n', w', horder, hall⟩ := h.rxInterrupt 0xFFFFFFFF allocs
  obtain rfl := hall (by decide)
  have hmarks := (resetTask_fields allocs s.pvt).2.2.2 h.marks
  have hsame := txClear_sameRing (Rtl8101.rxInterrupt 0xFFFFFFFF allocs s.pvt)
  simp only [nicResetTask, Rtl8101.resetTask] at hmarks ⊢
  generalize unsent (Rtl8101.rxInterrupt 0xFFFFFFFF allocs s.pvt) = missing
  rw [hsame.dirtyRx, hsame.curRx] at hmarks ⊢
  generalize txClear (Rtl8101.rxInterrupt 0xFFFFFFFF allocs s.pvt) = after at hsame hmarks ⊢
  generalize Rtl8101.rxInterrupt 0xFFFFFFFF allocs s.pvt = looked at horder hsame hmarks ⊢
  by_cases hfull : looked.dirtyRx = looked.curRx
  · obtain rfl := horder.eq_zero_of_same hfull
    simp only [if_pos hfull] at hmarks ⊢
    exact ⟨0, 0, horder.restart hmarks hsame.rxSkbuff hsame.rxDesc hsame.delivered rfl rfl
      fun _ => rfl⟩
  · simp only [if_neg hfull] at hmarks ⊢
    exact ⟨n', 0, horder.sameRing hmarks hsame id⟩

/-- One step keeps the order. -/
theorem step (h : RxOrder s n w) {act : NicAct β} (hallowed : NicAllowed s act)
    (hrestart : RxRestart s act) : ∃ n' w', RxOrder (nicStep maxSkbFrags s act) n' w' := by
  cases act with
  | startXmit packet =>
    have hmarks := h.marks.startXmit maxSkbFrags hallowed.2.2.2.2
    exact ⟨n, w, h.sameRing hmarks (startXmit_sameRing maxSkbFrags packet s.pvt) id⟩
  | send =>
    unfold nicStep Nic.send
    simp only
    split
    · exact ⟨n, w, h.sameRing (h.marks.transmitted s.txNext) ⟨rfl, rfl, rfl, rfl, rfl⟩ id⟩
    · exact ⟨n, w, h⟩
  | receive status opts2 => exact ⟨n, h.receive status opts2⟩
  | poll budget allocs =>
    obtain ⟨n', w', horder, -⟩ := h.rxInterrupt budget allocs
    have hmarks := horder.marks.handsNone (txInterrupt_handsNone maxSkbFrags _)
    exact ⟨n', w', horder.sameRing hmarks (txInterrupt_sameRing maxSkbFrags _) id⟩
  | linkTimer linkStatusOn => exact h.linkTimer hrestart
  | txTimeout =>
    exact ⟨n, w, h.sameRing h.marks ⟨rfl, rfl, rfl, rfl, rfl⟩ fun hf =>
      absurd (show false = true from hf) (by decide)⟩
  | resetTask allocs => exact h.resetTask allocs

end RxOrder

theorem opened_rxOrder {pvt : Pvt β} {allocs : Allocs β} {irq : Int}
    (hopen : rtl8101Open allocs irq = .ok pvt) : RxOrder (opened pvt) 0 0 := by
  have hshape : RxShape (cleared : Pvt β) 0 1024 0 := by
    refine ⟨Nat.le_refl _, fun e he hle => ?_, fun e _ => ?_⟩
    · have := offset_lt (slot_lt 0) he
      omega
    · refine iff_of_false ?_ fun hsome => hsome.1 rfl
      simp only [cleared, clearedDescs, Desc.Owned]
      split <;> decide
  obtain ⟨k, hk, hstop, hfilled, -, hdelivered, -⟩ := rxFillLoop_shape allocs hshape
  obtain ⟨_, _, _, honly⟩ := rxFillLoop_rxSlots allocs 1024 0 (cleared : Pvt β)
  have hrange : ((1024 : UInt32) - 0).toNat = 1024 := by decide
  unfold rtl8101Open at hopen
  split at hopen
  · cases hopen
  · next pvt' hinit =>
    have hmarks := initBuffers_marks hinit
    unfold initBuffers rxFill at hinit
    rw [hrange] at hinit
    generalize rxFillLoop allocs 1024 0 cleared = r at hinit hstop hfilled hdelivered honly
    simp only at hinit
    split at hinit
    · cases hinit
    · next hall =>
      split at hopen
      · cases hopen
      · rw [Except.ok.injEq] at hinit hopen
        subst hinit hopen
        have hzero : k = 0 := by
          have hnat := congrArg UInt32.toNat (not_not.1 hall)
          rw [hstop, UInt32.sub_zero, UInt32.zero_add, UInt32.toNat_ofNat'] at hnat
          simp only [UInt32.reduceToNat] at hnat
          omega
        obtain rfl := hzero
        have hdirty : r.2.dirtyRx = 0 := by rw [honly]; rfl
        have hcur : r.2.curRx = 0 := by rw [honly]; rfl
        have hslot : slot (0 + .ofNat (1024 - 0)) = slot 0 := by decide
        refine ⟨⟨⟨Nat.zero_le _, ?_, ?_⟩, ?_, fun hpos => absurd hpos (Nat.lt_irrefl 0)⟩, ?_,
          fun _ => ?_, hmarks.rx, hmarks.tx, hmarks.size⟩
        · simp only [opened, hwInit, hdirty]
          rw [← hslot]
          exact hfilled.filled
        · simp only [opened, hwInit, hdirty]
          rw [← hslot]
          exact hfilled.owned_iff
        · simp only [opened, hwInit, hdirty, hcur]
          rfl
        · simp only [opened, hwInit, queued, hdelivered]
          rfl
        · simp only [opened, hwInit, hcur]
          rfl

/-- **The stack gets what was received.** In every state of every run the driver has passed up a
first part of the packets that were received without an error, each once and in order, and an
interrupt whose budget is not smaller than the ring passes up the rest. -/
theorem frames_in_order {pvt : Pvt β} {allocs : Allocs β} {irq : Int}
    (hopen : rtl8101Open allocs irq = .ok pvt) {acts : List (NicAct β)}
    (hallowed : Along (nicStep maxSkbFrags) NicAllowed (opened pvt) acts)
    (hrestart : Along (nicStep maxSkbFrags) RxRestart (opened pvt) acts) :
    let s := run (nicStep maxSkbFrags) (opened pvt) acts
    s.pvt.delivered <+: s.frames ∧ ∀ (budget : UInt32) (allocs : Allocs β), 1024 ≤ budget.toNat →
      (rxInterrupt budget allocs s.pvt).delivered = s.frames := by
  intro s
  obtain ⟨n, w, h⟩ := Along.invariant (I := fun s => ∃ n w, RxOrder s n w)
    (fun s act ⟨_, _, h⟩ ha => h.step ha.1 ha.2) ⟨0, 0, opened_rxOrder hopen⟩
    (hallowed.and hrestart)
  refine ⟨⟨_, h.frames.symm⟩, fun budget allocs hbudget => ?_⟩
  obtain ⟨n', w', -, hqueued, -, hall⟩ := h.queue.rxInterrupt budget allocs
  obtain rfl := hall hbudget
  rw [h.frames, ← hqueued]
  exact (List.append_nil _).symm

end

theorem frames_in_order_one : ∃ pvt, rtl8101Open plenty 0 = .ok pvt ∧
    let s := run (nicStep 18) (opened pvt) oneEachWay
    s.pvt.delivered <+: s.frames ∧ ∀ (budget : UInt32) (allocs : Allocs Unit), 1024 ≤ budget.toNat →
      (rxInterrupt budget allocs s.pvt).delivered = s.frames := by
  obtain ⟨pvt, hopen⟩ := plenty_opens
  have horder := opened_rxOrder hopen
  have hslot : slot pvt.curRx = 0 :=
    (congrArg slot (UInt32.add_zero pvt.curRx).symm).trans (horder.next rfl).symm
  have howned : (pvt.rxDesc (slot pvt.curRx)).Owned := by
    refine (horder.queue.shape.owned_iff _ (slot_lt _)).2 ⟨?_, by omega⟩
    exact horder.queue.shape.filled _ (slot_lt _) (Nat.zero_le _)
  refine ⟨pvt, hopen, frames_in_order hopen (oneEachWay_allowed hopen) ?_⟩
  exact ⟨fun _ => ⟨hslot, howned⟩, trivial, trivial, trivial, trivial, trivial⟩

end LinuxDrivers.Rtl8101
