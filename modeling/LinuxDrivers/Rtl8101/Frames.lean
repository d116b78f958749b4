import LinuxDrivers.Rtl8101.Driver

/-!
# What the two rings leave alone

The slots of the counters, and the fields that the functions of either ring do not touch.
-/

namespace LinuxDrivers.Rtl8101

/-! ## Counters -/

theorem slot_eq (counter : UInt32) : slot counter = counter.toNat % 1024 := by
  unfold slot
  rw [UInt32.toNat_mod]
  rfl

theorem slot_lt (counter : UInt32) : slot counter < 1024 := by
  rw [slot_eq]
  omega

/-- The slots go on past the wrap of a counter, since 1024 divides `2 ^ 32`. -/
theorem slot_add (counter : UInt32) (k : Nat) :
    slot (counter + .ofNat k) = (slot counter + k) % 1024 := by
  rw [slot_eq, slot_eq, UInt32.toNat_add, UInt32.toNat_ofNat']
  omega

theorem slot_succ (counter : UInt32) : slot (counter + 1) = (slot counter + 1) % 1024 :=
  slot_add counter 1

theorem add_ofNat_succ (counter : UInt32) (k : Nat) :
    counter + 1 + .ofNat k = counter + .ofNat (k + 1) := by
  rw [UInt32.ofNat_add, UInt32.add_assoc, UInt32.add_comm 1]
  rfl

/-- How far a counter is ahead of another one. -/
theorem toNat_add_sub {counter : UInt32} {k : Nat} (hk : k < 2 ^ 32) :
    (counter + .ofNat k - counter).toNat = k := by
  rw [UInt32.toNat_sub, UInt32.toNat_add, UInt32.toNat_ofNat']
  have := counter.toNat_lt
  omega

variable {β : Type}

/-! ## The transmit ring -/

/-- What the release of packets changes. -/
def TxOnly (pvt pvt' : Pvt β) : Prop :=
  ∃ txDesc txSkb released, pvt' = { pvt with txDesc, txSkb, released }

theorem TxOnly.refl (pvt : Pvt β) : TxOnly pvt pvt := ⟨_, _, _, rfl⟩

theorem TxOnly.trans {pvt pvt' pvt'' : Pvt β} (h : TxOnly pvt pvt') (h' : TxOnly pvt' pvt'') :
    TxOnly pvt pvt'' := by
  obtain ⟨d, s, r, rfl⟩ := h
  obtain ⟨d', s', r', rfl⟩ := h'
  exact ⟨d', s', r', rfl⟩

theorem txLoop_txOnly (left : Nat) (dirty : UInt32) (pvt : Pvt β) :
    TxOnly pvt (txLoop left dirty pvt).2 := by
  induction left generalizing dirty pvt with
  | zero => exact .refl pvt
  | succ left ih =>
    rw [txLoop]
    simp only
    split
    · exact .refl pvt
    · refine .trans ?_ (ih _ _)
      split <;> exact ⟨_, _, _, rfl⟩

theorem txClearLoop_txOnly (turns : Nat) (i : UInt32) (pvt : Pvt β) :
    TxOnly pvt (txClearLoop turns i pvt) := by
  induction turns generalizing i pvt with
  | zero => exact .refl pvt
  | succ turns ih =>
    rw [txClearLoop]
    split
    · refine .trans ?_ (ih _ _)
      unfold clearSlot
      split <;> exact ⟨_, _, _, rfl⟩
    · exact .refl pvt

/-! ## The receive ring -/

/-- What the loops over the receive ring change. -/
def RxSlots (pvt pvt' : Pvt β) : Prop :=
  ∃ rxDesc rxSkbuff delivered, pvt' = { pvt with rxDesc, rxSkbuff, delivered }

theorem RxSlots.refl (pvt : Pvt β) : RxSlots pvt pvt := ⟨_, _, _, rfl⟩

theorem RxSlots.trans {pvt pvt' pvt'' : Pvt β} (h : RxSlots pvt pvt') (h' : RxSlots pvt' pvt'') :
    RxSlots pvt pvt'' := by
  obtain ⟨r, s, l, rfl⟩ := h
  obtain ⟨r', s', l', rfl⟩ := h'
  exact ⟨r', s', l', rfl⟩

theorem rxLoop_rxSlots (left : Nat) (cur : UInt32) (pvt : Pvt β) :
    RxSlots pvt (rxLoop left cur pvt).2 := by
  induction left generalizing cur pvt with
  | zero => exact .refl pvt
  | succ left ih =>
    rw [rxLoop]
    split
    · exact .refl pvt
    · split
      · exact .trans ⟨_, _, _, rfl⟩ (ih _ _)
      · exact .trans ⟨_, _, _, rfl⟩ (ih _ _)

theorem rxFillLoop_rxSlots (allocs : Allocs β) (left : Nat) (cur : UInt32) (pvt : Pvt β) :
    RxSlots pvt (rxFillLoop allocs left cur pvt).2 := by
  induction left generalizing cur pvt with
  | zero => exact .refl pvt
  | succ left ih =>
    rw [rxFillLoop]
    split
    · exact ih _ _
    · split
      · exact .refl pvt
      · exact .trans ⟨_, _, _, rfl⟩ (ih _ _)

theorem rxFill_rxSlots (allocs : Allocs β) (start stop : UInt32) (pvt : Pvt β) :
    RxSlots pvt (rxFill allocs start stop pvt).2 :=
  rxFillLoop_rxSlots allocs _ start pvt

/-- What the receive handler changes. -/
def RxOnly (pvt pvt' : Pvt β) : Prop :=
  ∃ curRx dirtyRx rxDesc rxSkbuff delivered,
    pvt' = { pvt with curRx, dirtyRx, rxDesc, rxSkbuff, delivered }

theorem RxSlots.rxOnly {pvt pvt' : Pvt β} (h : RxSlots pvt pvt') : RxOnly pvt pvt' := by
  obtain ⟨r, s, l, rfl⟩ := h
  exact ⟨_, _, r, s, l, rfl⟩

theorem RxOnly.trans {pvt pvt' pvt'' : Pvt β} (h : RxOnly pvt pvt') (h' : RxOnly pvt' pvt'') :
    RxOnly pvt pvt'' := by
  obtain ⟨c, d, r, s, l, rfl⟩ := h
  obtain ⟨c', d', r', s', l', rfl⟩ := h'
  exact ⟨c', d', r', s', l', rfl⟩

theorem RxOnly.dirtyTx {pvt pvt' : Pvt β} (h : RxOnly pvt pvt') : pvt'.dirtyTx = pvt.dirtyTx := by
  obtain ⟨_, _, _, _, _, rfl⟩ := h
  rfl

theorem RxOnly.txSkb {pvt pvt' : Pvt β} (h : RxOnly pvt pvt') : pvt'.txSkb = pvt.txSkb := by
  obtain ⟨_, _, _, _, _, rfl⟩ := h
  rfl

theorem rxInterrupt_rxOnly (budget : UInt32) (allocs : Allocs β) (pvt : Pvt β) :
    RxOnly pvt (rxInterrupt budget allocs pvt) := by
  have hloop := rxLoop_rxSlots (min (1024 + pvt.dirtyRx - pvt.curRx) budget).toNat pvt.curRx pvt
  simp only [rxInterrupt]
  generalize rxLoop _ pvt.curRx pvt = r at hloop
  have hcur : RxOnly r.2 { r.2 with curRx := r.1 } := ⟨_, _, _, _, _, rfl⟩
  have hfill := rxFill_rxSlots allocs r.2.dirtyRx r.1 { r.2 with curRx := r.1 }
  generalize rxFill allocs r.2.dirtyRx r.1 { r.2 with curRx := r.1 } = r' at hfill
  have hdirty : RxOnly r'.2 { r'.2 with dirtyRx := r'.2.dirtyRx + r'.1 } := ⟨_, _, _, _, _, rfl⟩
  exact ((hloop.rxOnly.trans hcur).trans hfill.rxOnly).trans hdirty

/-! ## Opening -/

/-- When memory does not run short, then the whole range is filled. -/
theorem rxFillLoop_all {allocs : Allocs β} (h : ∀ k, allocs k ≠ none) (left : Nat) (cur : UInt32)
    (pvt : Pvt β) : (rxFillLoop allocs left cur pvt).1 = cur + .ofNat left := by
  induction left generalizing cur pvt with
  | zero => simp [rxFillLoop]
  | succ left ih =>
    rw [rxFillLoop, ← add_ofNat_succ]
    split
    · exact ih _ _
    · split
      · next hnone => exact absurd hnone (h left)
      · exact ih _ _

theorem rtl8101Open_all {allocs : Allocs β} (h : ∀ k, allocs k ≠ none) {irq : Int}
    (hirq : 0 ≤ irq) : ∃ pvt, rtl8101Open allocs irq = .ok pvt := by
  have hfilled : (rxFill allocs 0 1024 cleared).1 = 1024 := by
    unfold rxFill
    simp only [rxFillLoop_all h]
    decide
  refine ⟨hwInit (rxFill allocs 0 1024 cleared).2, ?_⟩
  unfold rtl8101Open initBuffers
  generalize rxFill allocs 0 1024 cleared = r at hfilled
  obtain ⟨filled, pvt⟩ := r
  simp only at hfilled
  simp [hfilled, hirq]

end LinuxDrivers.Rtl8101
