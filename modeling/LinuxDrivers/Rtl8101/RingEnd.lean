import LinuxDrivers.Lib.Bits
import LinuxDrivers.Lib.Run
import LinuxDrivers.Rtl8101.Transmit

/-!
# The marks at the ends of the rings

The NIC goes from one descriptor to the next and back to the first one behind a descriptor with
`RingEnd`. In the receive ring the mark is set once, and whoever rewrites a status word keeps it. In
the transmit ring it is cleared with the rest of a descriptor and set again with each packet.
-/

namespace LinuxDrivers.Rtl8101

variable {β : Type}

/-! ## Taking the receive buffers back -/

/-- `rtl8101_make_unusable_by_asic`. -/
def makeUnusableByAsic (desc : Desc) : Desc :=
  { desc with
    addr := 0x0badbadbadbadbad
    opts1 := desc.opts1 &&& ~~~(descOwn ||| 0x3fffc000) }

/-- `rtl8101_free_rx_skb` of a slot. -/
def freeRxSkb (pvt : Pvt β) (entry : Nat) : Pvt β :=
  { pvt with
    rxSkbuff := Function.update pvt.rxSkbuff entry none
    rxDesc := Function.update pvt.rxDesc entry (makeUnusableByAsic (pvt.rxDesc entry)) }

/-- The body of the loop of `rtl8101_rx_clear`. -/
def clearRxSlot (pvt : Pvt β) (entry : Nat) : Pvt β :=
  if (pvt.rxSkbuff entry).isSome then freeRxSkb pvt entry else pvt

/-- `rtl8101_rx_clear`. -/
def rxClear (pvt : Pvt β) : Pvt β := (List.range 1024).foldl clearRxSlot pvt

/-! ## The NIC -/

/-- What the NIC writes back when it releases a descriptor: `DescOwn` is clear and `RingEnd` is
kept, the other bits may be anything. -/
def Desc.writtenBack (desc : Desc) (status opts2 : UInt32) : Desc :=
  { desc with
    opts1 := (status &&& ~~~(descOwn ||| ringEnd)) ||| (desc.opts1 &&& ringEnd)
    opts2 }

/-- The index that the NIC takes behind a descriptor. -/
def Desc.next (desc : Desc) (entry : Nat) : Nat :=
  if desc.opts1 &&& ringEnd ≠ 0 then 0 else entry + 1

inductive Ring where
  | rx
  | tx

/-- The NIC releases a descriptor that it owns. -/
def release (entry : Nat) (status opts2 : UInt32) (pvt : Pvt β) : Ring → Pvt β
  | .rx =>
    if (pvt.rxDesc entry).Owned then
      { pvt with
        rxDesc := Function.update pvt.rxDesc entry
          ((pvt.rxDesc entry).writtenBack status opts2) }
    else pvt
  | .tx =>
    if (pvt.txDesc entry).Owned then
      { pvt with
        txDesc := Function.update pvt.txDesc entry
          ((pvt.txDesc entry).writtenBack status opts2) }
    else pvt

/-! ## Runs -/

/-- What happens to the rings while there are any. -/
inductive RingOp (β : Type) where
  | rxFill (allocs : Allocs β) (start stop : UInt32)
  | rxInterrupt (budget : UInt32) (allocs : Allocs β)
  | rxClear
  /-- The length of a packet is below `2 ^ 14`. -/
  | startXmit (packet : Packet β) (short : packet.len < 0x4000)
  | txInterrupt
  | txClear
  | release (ring : Ring) (entry : Nat) (status opts2 : UInt32)

def ringOp (maxSkbFrags : Nat) (pvt : Pvt β) : RingOp β → Pvt β
  | .rxFill allocs start stop => (rxFill allocs start stop pvt).2
  | .rxInterrupt budget allocs => rxInterrupt budget allocs pvt
  | .rxClear => rxClear pvt
  | .startXmit packet _ => (startXmit maxSkbFrags packet pvt).2
  | .txInterrupt => txInterrupt maxSkbFrags pvt
  | .txClear => txClear pvt
  | .release ring entry status opts2 => release entry status opts2 pvt ring

inductive RingAct (β : Type) where
  /-- `rtl8101_init_buffers`; the flags tell whether the two rings can be allocated. -/
  | initBuffers (tx rx : Bool) (allocs : Allocs β)
  | op (op : RingOp β)

/-- The rings after `rtl8101_init_buffers`; when it fails, it clears and frees them again. -/
def allocBuffers (tx rx : Bool) (allocs : Allocs β) : Option (Pvt β) :=
  if tx ∧ rx then (initBuffers allocs).toOption else none

/-- One step; there may be no rings. -/
def ringStep (maxSkbFrags : Nat) (state : Option (Pvt β)) : RingAct β → Option (Pvt β)
  | .initBuffers tx rx allocs => allocBuffers tx rx allocs
  | .op op => state.map (ringOp maxSkbFrags · op)

/-- The marks that the NIC meets: a descriptor that it owns has `RingEnd` exactly when it is the
last one. -/
def RingMarked (descs : Nat → Desc) : Prop :=
  ∀ i < 1024, (descs i).Owned → ((descs i).opts1 &&& ringEnd ≠ 0 ↔ i = 1023)

/-- The NIC goes around the ring. -/
def GoesAround (descs : Nat → Desc) : Prop :=
  ∀ i < 1024, (descs i).Owned → (descs i).next i = (i + 1) % 1024

theorem RingMarked.goesAround {descs : Nat → Desc} (h : RingMarked descs) : GoesAround descs := by
  intro i hi howned
  unfold Desc.next
  split
  · next hend =>
    rw [(h i hi howned).1 hend]
  · next hend =>
    have hne : i ≠ 1023 := fun heq => hend ((h i hi howned).2 heq)
    omega

/-! ## Status words -/

theorem and_or_ringEnd (x y : UInt32) : (x ||| y) &&& ringEnd =
    (x &&& ringEnd) ||| (y &&& ringEnd) :=
  UInt32.toBitVec_inj.1 BitVec.and_or_distrib_right

theorem ringEnd_markToAsic (desc : Desc) {rxBufSz : UInt32} (hsize : rxBufSz &&& ringEnd = 0) :
    (markToAsic desc rxBufSz).opts1 &&& ringEnd = desc.opts1 &&& ringEnd := by
  have hself : (desc.opts1 &&& ringEnd) &&& ringEnd = desc.opts1 &&& ringEnd := by
    rw [UInt32.and_assoc, UInt32.and_self]
  have hown : descOwn &&& ringEnd = 0 := by decide
  simp only [markToAsic, and_or_ringEnd, hself, hown, hsize, UInt32.zero_or, UInt32.or_zero]

theorem ringEnd_mapToAsic (desc : Desc) (mapping : UInt64) {rxBufSz : UInt32}
    (hsize : rxBufSz &&& ringEnd = 0) :
    (mapToAsic desc mapping rxBufSz).opts1 &&& ringEnd = desc.opts1 &&& ringEnd :=
  ringEnd_markToAsic { desc with addr := mapping } hsize

/-- The mask of `rtl8101_make_unusable_by_asic` leaves out `RingEnd`. -/
theorem ringEnd_makeUnusableByAsic (desc : Desc) :
    (makeUnusableByAsic desc).opts1 &&& ringEnd = desc.opts1 &&& ringEnd :=
  UInt32.toBitVec_inj.1 (Bits.clear_and_of_disjoint (by decide))

/-- The bits of a written status word. -/
theorem cleared_and (status : UInt32) {m : UInt32} (hm : (descOwn ||| ringEnd) &&& m = m) :
    (status &&& ~~~(descOwn ||| ringEnd)) &&& m = 0 :=
  UInt32.toBitVec_inj.1 (Bits.and_eq_zero_of_subset
    (Bits.clear_and_self status.toBitVec (descOwn ||| ringEnd).toBitVec)
    (UInt32.toBitVec_inj.2 hm))

theorem ringEnd_writtenBack (desc : Desc) (status opts2 : UInt32) :
    (desc.writtenBack status opts2).opts1 &&& ringEnd = desc.opts1 &&& ringEnd := by
  have hstatus := cleared_and status (m := ringEnd) (by decide)
  simp only [Desc.writtenBack, and_or_ringEnd, hstatus, UInt32.zero_or, UInt32.and_assoc,
    UInt32.and_self]

theorem not_owned_writtenBack (desc : Desc) (status opts2 : UInt32) :
    ¬ (desc.writtenBack status opts2).Owned := by
  have hstatus := cleared_and status (m := descOwn) (by decide)
  have hend : desc.opts1 &&& ringEnd &&& descOwn = 0 := by
    rw [UInt32.and_assoc]
    exact UInt32.and_zero
  intro howned
  rcases or_and_ne_zero_iff.1 howned with h | h
  · exact h hstatus
  · exact h hend

/-- A packet below `2 ^ 14` bytes leaves the mark to its slot. -/
theorem ringEnd_txDesc {packet : Packet β} (hshort : packet.len < 0x4000) {entry : Nat}
    (hentry : entry < 1024) :
    (txDesc packet entry).opts1 &&& ringEnd ≠ 0 ↔ entry = 1023 := by
  have hlen : packet.len &&& ringEnd = 0 := by
    have hlow : packet.len &&& 0x3fff = packet.len := by
      apply UInt32.toNat_inj.1
      rw [UInt32.toNat_and]
      exact Nat.and_two_pow_sub_one_of_lt_two_pow (n := 14) (UInt32.lt_iff_toNat_lt.1 hshort)
    rw [← hlow, UInt32.and_assoc]
    exact UInt32.and_zero
  have hflags : (descOwn ||| (firstFrag ||| lastFrag)) &&& ringEnd = 0 := by decide
  have hword : (txDesc packet entry).opts1 &&& ringEnd =
      (if (entry + 1) % 1024 = 0 then ringEnd else 0) &&& ringEnd := by
    rw [txDesc, and_or_ringEnd, hflags, and_or_ringEnd, hlen, UInt32.zero_or, UInt32.zero_or]
  rw [hword]
  split
  · next hlast => exact iff_of_true (by decide) (by omega)
  · next hlast => exact iff_of_false (fun h => h UInt32.zero_and) (by omega)

/-! ## The receive ring -/

/-- Every mark of the receive ring is kept, and the transmit ring is left alone. -/
structure KeepsEnds (pvt pvt' : Pvt β) : Prop where
  ends : ∀ i, (pvt'.rxDesc i).opts1 &&& ringEnd = (pvt.rxDesc i).opts1 &&& ringEnd
  tx : pvt'.txDesc = pvt.txDesc
  size : pvt'.rxBufSz = pvt.rxBufSz

section

variable {pvt pvt' pvt'' : Pvt β}

theorem KeepsEnds.refl (pvt : Pvt β) : KeepsEnds pvt pvt := ⟨fun _ => rfl, rfl, rfl⟩

theorem KeepsEnds.trans (h : KeepsEnds pvt pvt') (h' : KeepsEnds pvt' pvt'') :
    KeepsEnds pvt pvt'' :=
  ⟨fun i => (h'.ends i).trans (h.ends i), h'.tx.trans h.tx, h'.size.trans h.size⟩

/-- A slot is rewritten and keeps its mark. -/
theorem KeepsEnds.update {entry : Nat} {desc : Desc}
    (hdesc : desc.opts1 &&& ringEnd = (pvt.rxDesc entry).opts1 &&& ringEnd)
    (hrx : pvt'.rxDesc = Function.update pvt.rxDesc entry desc) (htx : pvt'.txDesc = pvt.txDesc)
    (hsize : pvt'.rxBufSz = pvt.rxBufSz) : KeepsEnds pvt pvt' := by
  refine ⟨fun i => ?_, htx, hsize⟩
  rw [hrx]
  by_cases hi : i = entry
  · rw [hi, Function.update_self, hdesc]
  · rw [Function.update_of_ne hi]

theorem rxFillLoop_keepsEnds (allocs : Allocs β) (left : Nat) (cur : UInt32) (pvt : Pvt β)
    (hsize : pvt.rxBufSz &&& ringEnd = 0) :
    KeepsEnds pvt (rxFillLoop allocs left cur pvt).2 := by
  induction left generalizing cur pvt with
  | zero => exact .refl pvt
  | succ left ih =>
    rw [rxFillLoop]
    split
    · exact ih _ _ hsize
    · split
      · exact .refl pvt
      · refine .trans ?_ (ih _ _ ?_)
        · exact .update (ringEnd_mapToAsic _ _ hsize) rfl rfl rfl
        · exact hsize

theorem rxFill_keepsEnds (allocs : Allocs β) (start stop : UInt32) (pvt : Pvt β)
    (hsize : pvt.rxBufSz &&& ringEnd = 0) : KeepsEnds pvt (rxFill allocs start stop pvt).2 :=
  rxFillLoop_keepsEnds allocs _ start pvt hsize

theorem rxLoop_keepsEnds (left : Nat) (cur : UInt32) (pvt : Pvt β)
    (hsize : pvt.rxBufSz &&& ringEnd = 0) : KeepsEnds pvt (rxLoop left cur pvt).2 := by
  induction left generalizing cur pvt with
  | zero => exact .refl pvt
  | succ left ih =>
    rw [rxLoop]
    split
    · exact .refl pvt
    · split
      · refine .trans ?_ (ih _ _ ?_)
        · exact .update (ringEnd_markToAsic _ hsize) rfl rfl rfl
        · exact hsize
      · refine .trans ?_ (ih _ _ ?_)
        · exact ⟨fun _ => rfl, rfl, rfl⟩
        · exact hsize

theorem rxInterrupt_keepsEnds (budget : UInt32) (allocs : Allocs β) (pvt : Pvt β)
    (hsize : pvt.rxBufSz &&& ringEnd = 0) : KeepsEnds pvt (rxInterrupt budget allocs pvt) := by
  have hloop := rxLoop_keepsEnds (min (1024 + pvt.dirtyRx - pvt.curRx) budget).toNat pvt.curRx pvt
    hsize
  simp only [rxInterrupt]
  generalize rxLoop _ pvt.curRx pvt = r at hloop
  have hcur : KeepsEnds r.2 { r.2 with curRx := r.1 } := ⟨fun _ => rfl, rfl, rfl⟩
  have hfill := rxFill_keepsEnds allocs r.2.dirtyRx r.1 { r.2 with curRx := r.1 }
    (hloop.size ▸ hsize)
  generalize rxFill allocs r.2.dirtyRx r.1 { r.2 with curRx := r.1 } = r' at hfill
  have hdirty : KeepsEnds r'.2 { r'.2 with dirtyRx := r'.2.dirtyRx + r'.1 } :=
    ⟨fun _ => rfl, rfl, rfl⟩
  exact ((hloop.trans hcur).trans hfill).trans hdirty

theorem clearRxSlots_keepsEnds (entries : List Nat) (pvt : Pvt β) :
    KeepsEnds pvt (entries.foldl clearRxSlot pvt) := by
  induction entries generalizing pvt with
  | nil => exact .refl pvt
  | cons entry entries ih =>
    refine .trans ?_ (ih (clearRxSlot pvt entry))
    unfold clearRxSlot
    split
    · exact .update (ringEnd_makeUnusableByAsic _) rfl rfl rfl
    · exact .refl pvt

/-! ## The transmit ring -/

/-- No transmit descriptor is handed over to the NIC, and the receive ring is left alone. -/
structure HandsNone (pvt pvt' : Pvt β) : Prop where
  kept : ∀ i, pvt'.txDesc i = pvt.txDesc i ∨ ¬ (pvt'.txDesc i).Owned
  rx : pvt'.rxDesc = pvt.rxDesc
  size : pvt'.rxBufSz = pvt.rxBufSz

theorem HandsNone.refl (pvt : Pvt β) : HandsNone pvt pvt := ⟨fun _ => .inl rfl, rfl, rfl⟩

theorem HandsNone.trans (h : HandsNone pvt pvt') (h' : HandsNone pvt' pvt'') :
    HandsNone pvt pvt'' := by
  refine ⟨fun i => ?_, h'.rx.trans h.rx, h'.size.trans h.size⟩
  rcases h'.kept i with heq | hfree
  · rw [heq]
    exact h.kept i
  · exact .inr hfree

/-- A slot is rewritten without `DescOwn`. -/
theorem HandsNone.update {entry : Nat} {desc : Desc} (hdesc : ¬ desc.Owned)
    (htx : pvt'.txDesc = Function.update pvt.txDesc entry desc) (hrx : pvt'.rxDesc = pvt.rxDesc)
    (hsize : pvt'.rxBufSz = pvt.rxBufSz) : HandsNone pvt pvt' := by
  refine ⟨fun i => ?_, hrx, hsize⟩
  rw [htx]
  by_cases hi : i = entry
  · rw [hi, Function.update_self]
    exact .inr hdesc
  · exact .inl (Function.update_of_ne hi _ _)

theorem unmapTxSkb_handsNone (pvt : Pvt β) (entry : Nat) :
    HandsNone pvt (unmapTxSkb pvt entry) :=
  .update (show ¬ (⟨0, 0, 0⟩ : Desc).Owned by decide) rfl rfl rfl

theorem freeTxSkb_handsNone (pvt : Pvt β) (entry : Nat) : HandsNone pvt (freeTxSkb pvt entry) :=
  ⟨fun _ => .inl rfl, rfl, rfl⟩

theorem txLoop_handsNone (left : Nat) (dirty : UInt32) (pvt : Pvt β) :
    HandsNone pvt (txLoop left dirty pvt).2 := by
  induction left generalizing dirty pvt with
  | zero => exact .refl pvt
  | succ left ih =>
    rw [txLoop]
    simp only
    split
    · exact .refl pvt
    · refine .trans (unmapTxSkb_handsNone pvt (slot dirty)) (.trans ?_ (ih _ _))
      split
      · exact freeTxSkb_handsNone _ _
      · exact .refl _

theorem txClearLoop_handsNone (turns : Nat) (i : UInt32) (pvt : Pvt β) :
    HandsNone pvt (txClearLoop turns i pvt) := by
  induction turns generalizing i pvt with
  | zero => exact .refl pvt
  | succ turns ih =>
    rw [txClearLoop]
    split
    · refine .trans ?_ (ih _ _)
      unfold clearSlot
      split
      · exact (unmapTxSkb_handsNone pvt _).trans (freeTxSkb_handsNone _ _)
      · exact .refl pvt
    · exact .refl pvt

theorem txInterrupt_handsNone (maxSkbFrags : Nat) (pvt : Pvt β) :
    HandsNone pvt (txInterrupt maxSkbFrags pvt) := by
  have hloop := txLoop_handsNone (pvt.curTx - pvt.dirtyTx).toNat pvt.dirtyTx pvt
  unfold txInterrupt
  generalize txLoop _ pvt.dirtyTx pvt = r at hloop
  obtain ⟨dirty, after⟩ := r
  simp only
  split
  · split
    · exact ⟨hloop.kept, hloop.rx, hloop.size⟩
    · exact ⟨hloop.kept, hloop.rx, hloop.size⟩
  · exact hloop

theorem txClear_handsNone (pvt : Pvt β) : HandsNone pvt (txClear pvt) := by
  have hloop := txClearLoop_handsNone 1024 pvt.dirtyTx pvt
  unfold txClear
  generalize txClearLoop 1024 pvt.dirtyTx pvt = after at hloop
  exact ⟨hloop.kept, hloop.rx, hloop.size⟩

/-! ## The marks -/

/-- The receive ring always has its mark; the transmit ring has it where the NIC looks. -/
structure Marks (pvt : Pvt β) : Prop where
  rx : ∀ i < 1024, (pvt.rxDesc i).opts1 &&& ringEnd ≠ 0 ↔ i = 1023
  tx : RingMarked pvt.txDesc
  size : pvt.rxBufSz &&& ringEnd = 0

theorem Marks.keepsEnds (h : Marks pvt) (hkeeps : KeepsEnds pvt pvt') : Marks pvt' where
  rx i hi := by
    rw [hkeeps.ends i]
    exact h.rx i hi
  tx := hkeeps.tx ▸ h.tx
  size := hkeeps.size ▸ h.size

theorem Marks.handsNone (h : Marks pvt) (hnone : HandsNone pvt pvt') : Marks pvt' where
  rx := hnone.rx ▸ h.rx
  tx i hi howned := by
    rcases hnone.kept i with heq | hfree
    · rw [heq] at howned ⊢
      exact h.tx i hi howned
    · exact absurd howned hfree
  size := hnone.size ▸ h.size

theorem cleared_marks : Marks (cleared : Pvt β) where
  rx i _ := by
    simp only [cleared, clearedDescs]
    split
    · next hi => exact iff_of_true (by decide) hi
    · next hi => exact iff_of_false (fun h => h UInt32.zero_and) hi
  tx i _ howned := by
    simp only [cleared, clearedDescs, Desc.Owned] at howned
    split at howned
    · exact absurd howned (by decide)
    · exact absurd UInt32.zero_and howned
  size := show (0x05F3 : UInt32) &&& ringEnd = 0 by decide

theorem initBuffers_marks {allocs : Allocs β} (hinit : initBuffers allocs = .ok pvt) :
    Marks pvt := by
  have hfill := rxFill_keepsEnds allocs 0 1024 (cleared : Pvt β) cleared_marks.size
  simp only [initBuffers] at hinit
  split at hinit
  · cases hinit
  · cases hinit
    exact cleared_marks.keepsEnds hfill

theorem Marks.startXmit (h : Marks pvt) (maxSkbFrags : Nat) {packet : Packet β}
    (hshort : packet.len < 0x4000) : Marks (startXmit maxSkbFrags packet pvt).2 := by
  have hmarked : RingMarked (Function.update pvt.txDesc (slot pvt.curTx)
      (txDesc packet (slot pvt.curTx))) := by
    intro i hi howned
    by_cases hslot : i = slot pvt.curTx
    · rw [hslot, Function.update_self]
      exact ringEnd_txDesc hshort (slot_lt _)
    · rw [Function.update_of_ne hslot] at howned ⊢
      exact h.tx i hi howned
  unfold Rtl8101.startXmit errStop
  simp only
  split
  · exact ⟨h.rx, h.tx, h.size⟩
  · split
    · exact ⟨h.rx, h.tx, h.size⟩
    · split
      · exact ⟨h.rx, hmarked, h.size⟩
      · exact ⟨h.rx, hmarked, h.size⟩

theorem Marks.release (h : Marks pvt) (entry : Nat) (status opts2 : UInt32) (ring : Ring) :
    Marks (release entry status opts2 pvt ring) := by
  cases ring with
  | rx =>
    unfold Rtl8101.release
    simp only
    split
    · exact h.keepsEnds (.update (ringEnd_writtenBack _ _ _) rfl rfl rfl)
    · exact h
  | tx =>
    unfold Rtl8101.release
    simp only
    split
    · exact h.handsNone (.update (not_owned_writtenBack _ _ _) rfl rfl rfl)
    · exact h

theorem Marks.op (h : Marks pvt) (maxSkbFrags : Nat) (op : RingOp β) :
    Marks (ringOp maxSkbFrags pvt op) := by
  cases op with
  | rxFill allocs start stop => exact h.keepsEnds (rxFill_keepsEnds allocs start stop pvt h.size)
  | rxInterrupt budget allocs =>
    exact h.keepsEnds (rxInterrupt_keepsEnds budget allocs pvt h.size)
  | rxClear => exact h.keepsEnds (clearRxSlots_keepsEnds _ pvt)
  | startXmit packet short => exact h.startXmit maxSkbFrags short
  | txInterrupt => exact h.handsNone (txInterrupt_handsNone maxSkbFrags pvt)
  | txClear => exact h.handsNone (txClear_handsNone pvt)
  | release ring entry status opts2 => exact h.release entry status opts2 ring

/-- The marks of the rings, if there are any. -/
def RingsMarks (state : Option (Pvt β)) : Prop := ∀ pvt, state = some pvt → Marks pvt

theorem ringStep_marks (maxSkbFrags : Nat) {state : Option (Pvt β)} (act : RingAct β)
    (h : RingsMarks state) : RingsMarks (ringStep maxSkbFrags state act) := by
  intro after hafter
  cases act with
  | initBuffers tx rx allocs =>
    simp only [ringStep, allocBuffers] at hafter
    split at hafter
    · cases hinit : initBuffers allocs with
      | error e => simp [hinit, Except.toOption] at hafter
      | ok pvt =>
        simp only [hinit, Except.toOption, Option.some.injEq] at hafter
        exact hafter ▸ initBuffers_marks hinit
    · cases hafter
  | op op =>
    obtain ⟨pvt, hpvt, rfl⟩ := Option.map_eq_some_iff.1 hafter
    exact (h pvt hpvt).op maxSkbFrags op

end

/-- In every state of every run the NIC finds the mark exactly at the end of either ring, so it
never runs past a ring or turns back early. -/
theorem ringMarked_run (maxSkbFrags : Nat) (acts : List (RingAct β)) :
    match run (ringStep maxSkbFrags) none acts with
    | none => True
    | some pvt => (RingMarked pvt.rxDesc ∧ RingMarked pvt.txDesc) ∧
        GoesAround pvt.rxDesc ∧ GoesAround pvt.txDesc := by
  have hmarks : RingsMarks (run (ringStep maxSkbFrags) none acts) :=
    Along.invariant (P := fun _ _ => True)
      (fun _ act h _ => ringStep_marks maxSkbFrags act h) (fun _ h => by cases h)
      (along_of_forall fun _ _ => trivial)
  cases hrun : run (ringStep maxSkbFrags) none acts with
  | none => trivial
  | some pvt =>
    have hrx : RingMarked pvt.rxDesc := fun i hi _ => (hmarks pvt hrun).rx i hi
    have htx : RingMarked pvt.txDesc := (hmarks pvt hrun).tx
    exact ⟨⟨hrx, htx⟩, hrx.goesAround, htx.goesAround⟩

end LinuxDrivers.Rtl8101
