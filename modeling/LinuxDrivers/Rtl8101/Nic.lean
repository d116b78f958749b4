import LinuxDrivers.Rtl8101.RingEnd

/-!
# The driver with its NIC

The NIC keeps an index into either ring. It sends the packet of its next transmit descriptor and
fills the buffer of its next receive descriptor, when it owns them. `rtl8101_hw_init` sets both
indexes to the first slot, `rtl8101_hw_reset` stops the NIC. Whatever happens, the NIC owns only
descriptors whose slot holds a buffer.
-/

namespace LinuxDrivers.Rtl8101

variable {β : Type}

/-! ## The NIC -/

/-- The driver and its NIC. -/
structure Nic (β : Type) where
  pvt : Pvt β
  /-- `CmdTxEnb` and `CmdRxEnb` are set. -/
  enabled : Bool
  txNext : Nat
  rxNext : Nat
  /-- The packets that were sent. -/
  wire : List β
  /-- The packets that were received without an error: their buffers and sizes. -/
  frames : List (Option β × Int)
  /-- The packets that the NIC still had to send when the transmit ring was cleared. -/
  dropped : List β

/-- What a good packet is passed up as; nothing for an erroneous one. -/
def frameOf (skb : Option β) (status : UInt32) : Option (Option β × Int) :=
  if status &&& rxRES ≠ 0 then none else some (skb, ((status &&& 0x00003FFF).toNat : Int) - 4)

namespace Nic

/-- `rtl8101_hw_reset` -/
def hwReset (s : Nic β) : Nic β := { s with enabled := false }

/-- The NIC at the end of `rtl8101_hw_init`. -/
def hwStart (s : Nic β) : Nic β := { s with enabled := true, txNext := 0, rxNext := 0 }

@[simp] theorem hwReset_pvt (s : Nic β) : s.hwReset.pvt = s.pvt := rfl

@[simp] theorem hwStart_pvt (s : Nic β) : s.hwStart.pvt = s.pvt := rfl

/-- The NIC sends its next packet. -/
def send (s : Nic β) : Nic β :=
  if s.enabled ∧ (s.pvt.txDesc s.txNext).Owned then
    { s with
      pvt := transmitted s.txNext s.pvt
      txNext := (s.pvt.txDesc s.txNext).next s.txNext
      wire := s.wire ++ (s.pvt.txSkb s.txNext).skb.toList }
  else s

/-- The NIC fills the next buffer. -/
def receive (status opts2 : UInt32) (s : Nic β) : Nic β :=
  if s.enabled ∧ (s.pvt.rxDesc s.rxNext).Owned then
    { s with
      pvt := release s.rxNext status opts2 s.pvt .rx
      rxNext := (s.pvt.rxDesc s.rxNext).next s.rxNext
      frames := s.frames ++ (frameOf (s.pvt.rxSkbuff s.rxNext)
        ((s.pvt.rxDesc s.rxNext).writtenBack status opts2).opts1).toList }
  else s

end Nic

/-- The packets in the transmit ring that the NIC still owns. -/
def unsent (pvt : Pvt β) : List β :=
  (List.range (pvt.curTx - pvt.dirtyTx).toNat).filterMap fun k =>
    let entry := slot (pvt.dirtyTx + .ofNat k)
    if (pvt.txDesc entry).Owned then (pvt.txSkb entry).skb else none

/-- `rtl8101_poll` -/
def rtl8101Poll (maxSkbFrags : Nat) (budget : UInt32) (allocs : Allocs β) (pvt : Pvt β) : Pvt β :=
  txInterrupt maxSkbFrags (rxInterrupt budget allocs pvt)

/-- What happens to the driver and to its NIC. -/
inductive NicAct (β : Type) where
  | startXmit (packet : Packet β)
  | send
  | receive (status opts2 : UInt32)
  | poll (budget : UInt32) (allocs : Allocs β)
  | linkTimer (linkStatusOn : Bool)
  /-- `rtl8101_tx_timeout` -/
  | txTimeout
  | resetTask (allocs : Allocs β)

/-- The link timer runs `rtl8101_check_link_status`. -/
def linkTimer (linkStatusOn : Bool) (s : Nic β) : Nic β :=
  let s' := { s with pvt := checkLinkStatus linkStatusOn s.pvt }
  if s.pvt.carrier = linkStatusOn then s'
  else if linkStatusOn then s'.hwStart
  else { s'.hwReset with dropped := s.dropped ++ unsent s.pvt }

/-- `rtl8101_reset_task`; it starts the NIC again unless the receive ring is short of buffers. -/
def nicResetTask (allocs : Allocs β) (s : Nic β) : Nic β :=
  let pvt := rxInterrupt 0xFFFFFFFF allocs s.pvt
  let s' := { s with pvt := resetTask allocs s.pvt, dropped := s.dropped ++ unsent pvt }
  if pvt.dirtyRx = pvt.curRx then s'.hwStart else s'

theorem linkTimer_pvt (linkStatusOn : Bool) (s : Nic β) :
    (linkTimer linkStatusOn s).pvt = checkLinkStatus linkStatusOn s.pvt := by
  simp only [linkTimer]
  split
  · rfl
  · split
    · exact Nic.hwStart_pvt _
    · exact Nic.hwReset_pvt _

theorem nicResetTask_pvt (allocs : Allocs β) (s : Nic β) :
    (nicResetTask allocs s).pvt = resetTask allocs s.pvt := by
  simp only [nicResetTask]
  split
  · rw [Nic.hwStart_pvt]
  · simp only

def nicStep (maxSkbFrags : Nat) (s : Nic β) : NicAct β → Nic β
  | .startXmit packet => { s with pvt := (startXmit maxSkbFrags packet s.pvt).2 }
  | .send => s.send
  | .receive status opts2 => s.receive status opts2
  | .poll budget allocs => { s with pvt := rtl8101Poll maxSkbFrags budget allocs s.pvt }
  | .linkTimer linkStatusOn => linkTimer linkStatusOn s
  | .txTimeout => s.hwReset
  | .resetTask allocs => nicResetTask allocs s

/-- The device when it has just been opened. -/
def opened (pvt : Pvt β) : Nic β := ⟨pvt, true, 0, 0, [], [], []⟩

/-- The link comes up, and a packet is sent and another one received. -/
def oneEachWay : List (NicAct Unit) :=
  [.linkTimer true, .startXmit packet64, .send, .receive 100 0, .poll 64 plenty]

/-! ## Buffers of the NIC -/

/-- The NIC owns only descriptors whose slot holds a buffer, and an empty receive slot does not look
like one with an erroneous packet. -/
structure DmaSafe (pvt : Pvt β) : Prop where
  tx : ∀ e, (pvt.txSkb e).skb = none → ¬ (pvt.txDesc e).Owned
  rx : ∀ e, pvt.rxSkbuff e = none → ¬ (pvt.rxDesc e).Owned ∧ (pvt.rxDesc e).opts1 &&& rxRES = 0

/-- The two rings, which are all that matters. -/
theorem DmaSafe.congr {pvt pvt' : Pvt β} (h : DmaSafe pvt) (htx : pvt'.txDesc = pvt.txDesc)
    (htxSkb : pvt'.txSkb = pvt.txSkb) (hrx : pvt'.rxDesc = pvt.rxDesc)
    (hrxSkb : pvt'.rxSkbuff = pvt.rxSkbuff) : DmaSafe pvt' :=
  ⟨by rw [htx, htxSkb]; exact h.tx, by rw [hrx, hrxSkb]; exact h.rx⟩

section

variable {pvt : Pvt β}

/-! ### The transmit ring -/

/-- A transmit slot is given a descriptor and a buffer that go together. -/
theorem DmaSafe.setTx (h : DmaSafe pvt) {entry : Nat} {desc : Desc} {info : RingInfo β}
    {pvt' : Pvt β} (hok : info.skb = none → ¬ desc.Owned)
    (htx : pvt'.txDesc = Function.update pvt.txDesc entry desc)
    (htxSkb : pvt'.txSkb = Function.update pvt.txSkb entry info) (hrx : pvt'.rxDesc = pvt.rxDesc)
    (hrxSkb : pvt'.rxSkbuff = pvt.rxSkbuff) : DmaSafe pvt' := by
  refine ⟨fun e => ?_, by rw [hrx, hrxSkb]; exact h.rx⟩
  rw [htx, htxSkb]
  by_cases he : e = entry
  · rw [he, Function.update_self, Function.update_self]
    exact hok
  · rw [Function.update_of_ne he, Function.update_of_ne he]
    exact h.tx e

theorem DmaSafe.unmapTxSkb (h : DmaSafe pvt) (entry : Nat) : DmaSafe (unmapTxSkb pvt entry) :=
  h.setTx (fun _ => by decide) rfl rfl rfl rfl

/-- A slot is unmapped before its buffer is freed. -/
theorem DmaSafe.releaseSlot (h : DmaSafe pvt) (entry : Nat) : DmaSafe (releaseSlot pvt entry) := by
  refine ⟨fun e => ?_, h.rx⟩
  rw [releaseSlot_txSkb, releaseSlot_txDesc]
  split
  · exact fun _ => by decide
  · exact h.tx e

theorem DmaSafe.txLoop (h : DmaSafe pvt) (left : Nat) (dirty : UInt32) :
    DmaSafe (txLoop left dirty pvt).2 := by
  induction left generalizing dirty pvt with
  | zero => exact h
  | succ left ih =>
    rw [Rtl8101.txLoop]
    simp only
    split
    · exact h
    · apply ih
      split
      · exact h.releaseSlot (slot dirty)
      · exact h.unmapTxSkb (slot dirty)

theorem DmaSafe.txInterrupt (h : DmaSafe pvt) (maxSkbFrags : Nat) :
    DmaSafe (txInterrupt maxSkbFrags pvt) := by
  have hloop := h.txLoop (pvt.curTx - pvt.dirtyTx).toNat pvt.dirtyTx
  simp only [Rtl8101.txInterrupt]
  generalize Rtl8101.txLoop _ pvt.dirtyTx pvt = r at hloop
  split
  · split
    · exact hloop.congr rfl rfl rfl rfl
    · exact hloop.congr rfl rfl rfl rfl
  · exact hloop

theorem DmaSafe.txClear (h : DmaSafe pvt) : DmaSafe (txClear pvt) := by
  have hloop (turns : Nat) (i : UInt32) {pvt : Pvt β} (h : DmaSafe pvt) :
      DmaSafe (txClearLoop turns i pvt) := by
    induction turns generalizing i pvt with
    | zero => exact h
    | succ turns ih =>
      rw [txClearLoop]
      split
      · apply ih
        unfold clearSlot
        split
        · exact h.releaseSlot (slot i)
        · exact h
      · exact h
  have hcleared := hloop 1024 pvt.dirtyTx h
  unfold Rtl8101.txClear
  generalize txClearLoop 1024 pvt.dirtyTx pvt = after at hcleared
  exact hcleared.congr rfl rfl rfl rfl

theorem DmaSafe.startXmit (h : DmaSafe pvt) (maxSkbFrags : Nat) (packet : Packet β) :
    DmaSafe (startXmit maxSkbFrags packet pvt).2 := by
  unfold Rtl8101.startXmit errStop
  simp only
  split
  · exact h.congr rfl rfl rfl rfl
  · split
    · exact h.congr rfl rfl rfl rfl
    · split
      · exact h.setTx (by simp) rfl rfl rfl rfl
      · exact h.setTx (by simp) rfl rfl rfl rfl

theorem DmaSafe.transmitted (h : DmaSafe pvt) (entry : Nat) : DmaSafe (transmitted entry pvt) := by
  refine ⟨fun e => ?_, h.rx⟩
  simp only [Rtl8101.transmitted]
  by_cases he : e = entry
  · rw [he, Function.update_self]
    exact fun _ => by simp [Desc.Owned, UInt32.and_assoc]
  · rw [Function.update_of_ne he]
    exact h.tx e

/-! ### The receive ring -/

/-- A receive slot is given a descriptor and a buffer that go together. -/
theorem DmaSafe.setRx (h : DmaSafe pvt) {entry : Nat} {desc : Desc} {skb : Option β} {pvt' : Pvt β}
    (hok : skb = none → ¬ desc.Owned ∧ desc.opts1 &&& rxRES = 0)
    (hrx : pvt'.rxDesc = Function.update pvt.rxDesc entry desc)
    (hrxSkb : pvt'.rxSkbuff = Function.update pvt.rxSkbuff entry skb)
    (htx : pvt'.txDesc = pvt.txDesc) (htxSkb : pvt'.txSkb = pvt.txSkb) : DmaSafe pvt' := by
  refine ⟨by rw [htx, htxSkb]; exact h.tx, fun e => ?_⟩
  rw [hrx, hrxSkb]
  by_cases he : e = entry
  · rw [he, Function.update_self, Function.update_self]
    exact hok
  · rw [Function.update_of_ne he, Function.update_of_ne he]
    exact h.rx e

theorem DmaSafe.rxLoop (h : DmaSafe pvt) (left : Nat) (cur : UInt32) :
    DmaSafe (rxLoop left cur pvt).2 := by
  induction left generalizing cur pvt with
  | zero => exact h
  | succ left ih =>
    rw [Rtl8101.rxLoop]
    split
    · exact h
    · next howned =>
      split
      · next hres =>
        -- an erroneous packet: the slot has a buffer, which the NIC gets back
        have hsome : pvt.rxSkbuff (slot cur) ≠ none := fun hnone => hres (h.rx _ hnone).2
        apply ih
        exact h.setRx (fun hnone => absurd hnone hsome) rfl
          (Function.update_eq_self _ _).symm rfl rfl
      · next hres =>
        apply ih
        exact h.setRx (fun _ => ⟨howned, not_not.1 hres⟩) (Function.update_eq_self _ _).symm rfl rfl
          rfl

theorem DmaSafe.rxFillLoop (h : DmaSafe pvt) (allocs : Allocs β) (left : Nat) (cur : UInt32) :
    DmaSafe (rxFillLoop allocs left cur pvt).2 := by
  induction left generalizing cur pvt with
  | zero => exact h
  | succ left ih =>
    rw [Rtl8101.rxFillLoop]
    split
    · exact ih h _
    · split
      · exact h
      · apply ih
        exact h.setRx (fun hnone => absurd hnone (Option.some_ne_none _)) rfl rfl rfl rfl

theorem DmaSafe.rxInterrupt (h : DmaSafe pvt) (budget : UInt32) (allocs : Allocs β) :
    DmaSafe (rxInterrupt budget allocs pvt) := by
  have hloop := h.rxLoop (min (1024 + pvt.dirtyRx - pvt.curRx) budget).toNat pvt.curRx
  simp only [Rtl8101.rxInterrupt, rxFill]
  generalize Rtl8101.rxLoop _ pvt.curRx pvt = r at hloop
  have hcur : DmaSafe { r.2 with curRx := r.1 } := hloop.congr rfl rfl rfl rfl
  exact (hcur.rxFillLoop allocs (r.1 - r.2.dirtyRx).toNat r.2.dirtyRx).congr rfl rfl rfl rfl

theorem DmaSafe.release (h : DmaSafe pvt) (entry : Nat) (status opts2 : UInt32) :
    DmaSafe (release entry status opts2 pvt .rx) := by
  unfold Rtl8101.release
  simp only
  split
  · next howned =>
    have hsome : pvt.rxSkbuff entry ≠ none := fun hnone => (h.rx _ hnone).1 howned
    exact h.setRx (fun hnone => absurd hnone hsome) rfl (Function.update_eq_self _ _).symm rfl rfl
  · exact h

/-! ### Runs -/

theorem DmaSafe.initRingIndexes (h : DmaSafe pvt) : DmaSafe (initRingIndexes pvt) :=
  h.congr rfl rfl rfl rfl

theorem DmaSafe.checkLinkStatus (h : DmaSafe pvt) (linkStatusOn : Bool) :
    DmaSafe (checkLinkStatus linkStatusOn pvt) := by
  unfold Rtl8101.checkLinkStatus
  split
  · split
    · exact h.congr rfl rfl rfl rfl
    · have hdown : DmaSafe { pvt with carrier := false, stopped := true } := h.congr rfl rfl rfl rfl
      exact hdown.txClear.initRingIndexes
  · exact h

theorem DmaSafe.resetTask (h : DmaSafe pvt) (allocs : Allocs β) :
    DmaSafe (resetTask allocs pvt) := by
  have hclear := (h.rxInterrupt 0xFFFFFFFF allocs).txClear
  unfold Rtl8101.resetTask
  simp only
  generalize Rtl8101.txClear (Rtl8101.rxInterrupt 0xFFFFFFFF allocs pvt) = after at hclear
  split
  · exact hclear.congr rfl rfl rfl rfl
  · exact hclear

theorem DmaSafe.step {s : Nic β} (h : DmaSafe s.pvt) (maxSkbFrags : Nat) (act : NicAct β) :
    DmaSafe (nicStep maxSkbFrags s act).pvt := by
  cases act with
  | startXmit packet => exact h.startXmit maxSkbFrags packet
  | send =>
    unfold nicStep Nic.send
    simp only
    split
    · exact h.transmitted s.txNext
    · exact h
  | receive status opts2 =>
    unfold nicStep Nic.receive
    simp only
    split
    · exact h.release s.rxNext status opts2
    · exact h
  | poll budget allocs =>
    simp only [nicStep, rtl8101Poll]
    exact (h.rxInterrupt budget allocs).txInterrupt maxSkbFrags
  | linkTimer linkStatusOn =>
    simp only [nicStep, linkTimer_pvt]
    exact h.checkLinkStatus linkStatusOn
  | txTimeout => exact h
  | resetTask allocs =>
    simp only [nicStep, nicResetTask_pvt]
    exact h.resetTask allocs

theorem rtl8101Open_dmaSafe {allocs : Allocs β} {irq : Int}
    (hopen : rtl8101Open allocs irq = .ok pvt) : DmaSafe pvt := by
  have hcleared : DmaSafe (cleared : Pvt β) := by
    have hfree (e : Nat) : ¬ (clearedDescs e).Owned ∧ (clearedDescs e).opts1 &&& rxRES = 0 := by
      unfold clearedDescs Desc.Owned
      split <;> decide
    exact ⟨fun e _ => (hfree e).1, fun e _ => hfree e⟩
  have hfill := hcleared.rxFillLoop allocs (1024 - 0 : UInt32).toNat 0
  unfold rtl8101Open initBuffers rxFill at hopen
  generalize Rtl8101.rxFillLoop allocs _ 0 cleared = r at hopen hfill
  simp only at hopen
  split at hopen
  · cases hopen
  · next pvt' hinit =>
    split at hinit
    · cases hinit
    · split at hopen
      · cases hopen
      · cases hinit
        cases hopen
        exact hfill.congr rfl rfl rfl rfl

/-- **Buffers of the NIC.** In every state of every run the NIC owns only descriptors whose slot
holds a buffer: it sends from no buffer that was freed and writes to none that was passed up. -/
theorem dmaSafe_run {allocs : Allocs β} {irq : Int} (hopen : rtl8101Open allocs irq = .ok pvt)
    (maxSkbFrags : Nat) (acts : List (NicAct β)) :
    (∀ e, ((run (nicStep maxSkbFrags) (opened pvt) acts).pvt.txDesc e).Owned →
        ((run (nicStep maxSkbFrags) (opened pvt) acts).pvt.txSkb e).skb ≠ none) ∧
      ∀ e, ((run (nicStep maxSkbFrags) (opened pvt) acts).pvt.rxDesc e).Owned →
        (run (nicStep maxSkbFrags) (opened pvt) acts).pvt.rxSkbuff e ≠ none := by
  have hsafe : DmaSafe (run (nicStep maxSkbFrags) (opened pvt) acts).pvt :=
    Along.invariant (P := fun _ _ => True) (I := fun s : Nic β => DmaSafe s.pvt)
      (fun _ act h _ => h.step maxSkbFrags act) (rtl8101Open_dmaSafe hopen)
      (along_of_forall fun _ _ => trivial)
  exact ⟨fun e howned hnone => hsafe.tx e hnone howned,
    fun e howned hnone => (hsafe.rx e hnone).1 howned⟩

end

theorem dmaSafe_run_plenty : ∃ pvt, rtl8101Open plenty 0 = .ok pvt ∧ ∀ acts,
    (∀ e, ((run (nicStep 18) (opened pvt) acts).pvt.txDesc e).Owned →
        ((run (nicStep 18) (opened pvt) acts).pvt.txSkb e).skb ≠ none) ∧
      ∀ e, ((run (nicStep 18) (opened pvt) acts).pvt.rxDesc e).Owned →
        (run (nicStep 18) (opened pvt) acts).pvt.rxSkbuff e ≠ none := by
  obtain ⟨pvt, hopen⟩ := plenty_opens
  exact ⟨pvt, hopen, fun acts => dmaSafe_run hopen 18 acts⟩

end LinuxDrivers.Rtl8101
