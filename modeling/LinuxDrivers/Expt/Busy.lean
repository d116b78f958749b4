import LinuxDrivers.Expt.Driver

/-!
# The busy count

`expt_write` raises `pkt_tx_busy` before it looks at the user's buffer and the interrupt lowers it
when the packet is sent. A copy that fails leaves the count raised although nothing was handed to
the NIC, and from then on every write is refused.
-/

namespace LinuxDrivers.Expt

/-- The transmit descriptor was handed to the NIC, and the interrupt that reports the packet as sent
has not been handled. -/
def InFlight (dpv : DevPriv) : Prop :=
  dpv.descTx &&& DescOwn ≠ 0 ∨ dpv.intrStatus &&& INTR_TX_OK_BIT ≠ 0

instance (dpv : DevPriv) : Decidable (InFlight dpv) := inferInstanceAs (Decidable (_ ∨ _))

/-- The busy count tells whether a packet is in flight, and only then is a write refused. -/
structure BusyTracks (dpv : DevPriv) : Prop where
  busy_eq : dpv.pktTxBusy = if InFlight dpv then 1 else 0
  refused : ∀ buf faults, (exptWrite buf faults dpv).1 = .error (-EBUSY) → InFlight dpv

/-- A write that is not refused copies the user's bytes. -/
def CopiesIfFree (s : State) : Event → Prop
  | .write _ faults => s.dpv.pktTxBusy = 0 → faults = false
  | _ => True

instance (s : State) : ∀ e, Decidable (CopiesIfFree s e)
  | .write _ _ => inferInstanceAs (Decidable (_ → _))
  | .read _ _ _ | .transmit | .receive _ | .irq => isTrue trivial

/-- The count is right, and a packet that is sent does not belong to the NIC any more. -/
structure Counted (dpv : DevPriv) : Prop where
  busy_eq : dpv.pktTxBusy = if InFlight dpv then 1 else 0
  once : dpv.descTx &&& DescOwn ≠ 0 → dpv.intrStatus &&& INTR_TX_OK_BIT = 0

theorem Counted.tracks {dpv : DevPriv} (h : Counted dpv) : BusyTracks dpv := by
  refine ⟨h.busy_eq, fun buf faults hbusy => ?_⟩
  by_contra hfree
  have hzero := h.busy_eq
  rw [if_neg hfree] at hzero
  unfold exptWrite at hbusy
  simp only [hzero, Int.zero_add, ne_eq, not_true_eq_false, ↓reduceIte] at hbusy
  cases faults with
  | true => exact absurd (Except.error.inj hbusy) (by decide)
  | false => cases hbusy

/-- What only concerns the receive side keeps the count. -/
theorem Counted.congr {dpv dpv' : DevPriv} (h : Counted dpv)
    (hbusy : dpv'.pktTxBusy = dpv.pktTxBusy) (hdesc : dpv'.descTx = dpv.descTx)
    (hstatus : dpv'.intrStatus &&& INTR_TX_OK_BIT = dpv.intrStatus &&& INTR_TX_OK_BIT) :
    Counted dpv' := by
  have hflight : InFlight dpv' ↔ InFlight dpv := by
    unfold InFlight
    rw [hdesc, hstatus]
  refine ⟨?_, ?_⟩
  · simp only [hflight, hbusy]
    exact h.busy_eq
  · rw [hdesc, hstatus]
    exact h.once

/-- A write that is accepted hands a packet over. -/
theorem exptWrite_free (buf : List UInt8) {dpv : DevPriv} (h : dpv.pktTxBusy = 0) :
    exptWrite buf false dpv = (.ok buf.length, { dpv with
      pktTxBusy := 1
      pktTx := dpv.pktTx.store 0 (txLen buf) (.ofList buf)
      descTx := dpv.descTx ||| DescOwn ||| .ofNat 32 (txLen buf) }) := by
  unfold exptWrite
  simp only [h, Int.zero_add, ne_eq, not_true_eq_false, ↓reduceIte, Bool.false_eq_true]
  rfl

/-- A write that is refused changes nothing. -/
theorem exptWrite_busy {buf : List UInt8} {faults : Bool} {dpv : DevPriv} (h : dpv.pktTxBusy = 1) :
    exptWrite buf faults dpv = (.error (-EBUSY), dpv) := by
  unfold exptWrite
  simp only [h, Int.reduceAdd, ne_eq, Int.reduceEq, not_false_eq_true, ↓reduceIte, Int.reduceSub]
  rw [← h]

/-- The descriptor of an accepted write belongs to the NIC. -/
theorem own_handed (x : BitVec 32) (n : Nat) : (x ||| DescOwn ||| .ofNat 32 n) &&& DescOwn ≠ 0 := by
  rw [Bits.and_eq_of_set (Bits.set_and_self x DescOwn)]
  decide

/-! ## One event -/

theorem Counted.write {dpv : DevPriv} (h : Counted dpv) {buf : List UInt8} {faults : Bool}
    (hcopy : dpv.pktTxBusy = 0 → faults = false) : Counted (exptWrite buf faults dpv).2 := by
  by_cases hflight : InFlight dpv
  · have hone := h.busy_eq
    rw [if_pos hflight] at hone
    rw [exptWrite_busy hone]
    exact h
  · have hzero := h.busy_eq
    rw [if_neg hflight] at hzero
    rw [hcopy hzero, exptWrite_free buf hzero]
    have hown := own_handed dpv.descTx (txLen buf)
    have hnew : InFlight { dpv with
        pktTxBusy := 1
        pktTx := dpv.pktTx.store 0 (txLen buf) (.ofList buf)
        descTx := dpv.descTx ||| DescOwn ||| .ofNat 32 (txLen buf) } := .inl hown
    refine ⟨(if_pos hnew).symm, fun _ => ?_⟩
    by_contra htx
    exact hflight (.inr htx)

theorem Counted.transmit {dpv : DevPriv} (h : Counted dpv) : Counted (nicTransmit dpv) := by
  unfold nicTransmit
  split
  · next hown =>
    have hone := h.busy_eq
    rw [if_pos (.inl hown)] at hone
    have htx : (dpv.intrStatus ||| INTR_TX_OK_BIT) &&& INTR_TX_OK_BIT ≠ 0 := by
      rw [Bits.set_and_self]
      decide
    have hnew : InFlight { dpv with
        descTx := dpv.descTx &&& ~~~DescOwn
        intrStatus := dpv.intrStatus ||| INTR_TX_OK_BIT } := .inr htx
    refine ⟨hone.trans (if_pos hnew).symm, fun hown' => ?_⟩
    exact absurd (Bits.clear_and_self dpv.descTx DescOwn) hown'
  · exact h

theorem Counted.irq {dpv : DevPriv} (h : Counted dpv) : Counted (exptPciIntrHandler dpv) := by
  have hdesc := (exptPciIntrHandler_desc dpv).1
  have hstatus := exptPciIntrHandler_status dpv
  refine ⟨?_, fun _ => hstatus⟩
  have hflight : InFlight (exptPciIntrHandler dpv) ↔ dpv.descTx &&& DescOwn ≠ 0 := by
    unfold InFlight
    rw [hdesc, hstatus]
    simp
  rw [exptPciIntrHandler_busy, h.busy_eq]
  by_cases htx : dpv.intrStatus &&& INTR_TX_OK_BIT ≠ 0
  · -- the packet is reported, and the NIC does not own another one
    have hnot : ¬ InFlight (exptPciIntrHandler dpv) := fun hf => htx (h.once (hflight.1 hf))
    rw [if_pos htx, if_neg hnot, if_pos (.inr htx)]
    rfl
  · have hsame : InFlight dpv ↔ InFlight (exptPciIntrHandler dpv) := by
      rw [hflight]
      exact or_iff_left htx
    rw [if_neg htx]
    simp only [hsame]

theorem Counted.receive {dpv : DevPriv} (h : Counted dpv) (packet : List UInt8) :
    Counted (nicReceive packet dpv) := by
  unfold nicReceive
  split
  · exact h.congr rfl rfl (Bits.set_and_of_disjoint (by decide))
  · exact h.congr rfl rfl (Bits.set_and_of_disjoint (by decide))

theorem Counted.read {dpv : DevPriv} (h : Counted dpv) (len off : Nat) (faults : Bool) :
    Counted (exptRead len off faults dpv).2.2 := by
  unfold exptRead
  split
  · exact h
  · split
    · exact h.congr rfl rfl rfl
    · simp only
      split <;> exact h

@[simp] theorem step_write_dpv (s : State) (buf : List UInt8) (faults : Bool) :
    (step s (.write buf faults)).dpv = (exptWrite buf faults s.dpv).2 := by
  simp only [step]
  split <;> next he => rw [he]

theorem Counted.step {s : State} (h : Counted s.dpv) {e : Event} (hcopy : CopiesIfFree s e) :
    Counted (step s e).dpv := by
  cases e with
  | write buf faults =>
    rw [step_write_dpv]
    exact h.write hcopy
  | read len off faults => exact h.read len off faults
  | transmit => exact h.transmit
  | receive packet => exact h.receive packet
  | irq => exact h.irq

/-- A copy that fails raises the count without a packet in flight. -/
theorem not_busyTracks_step {s : State} (h : Counted s.dpv) {e : Event}
    (hcopy : ¬ CopiesIfFree s e) : ¬ BusyTracks (step s e).dpv := by
  cases e with
  | write buf faults =>
    obtain ⟨hzero, hfault⟩ : s.dpv.pktTxBusy = 0 ∧ faults = true := by
      simpa [CopiesIfFree] using hcopy
    have hfree : ¬ InFlight s.dpv := by
      intro hflight
      have hone := h.busy_eq
      rw [if_pos hflight, hzero] at hone
      cases hone
    have hwrite : (exptWrite buf faults s.dpv).2 = { s.dpv with pktTxBusy := 1 } := by
      unfold exptWrite
      simp only [hzero, hfault, Int.zero_add, ne_eq, not_true_eq_false, ↓reduceIte]
    rw [step_write_dpv, hwrite]
    intro htracks
    have hfree' : ¬ InFlight { s.dpv with pktTxBusy := 1 } := hfree
    exact absurd (htracks.busy_eq.trans (if_neg hfree')) Int.one_ne_zero
  | read _ _ _ | transmit | receive _ | irq => exact absurd trivial hcopy

theorem counted_start (pktTx pktRx : Mem) : Counted (setupBuffers pktTx pktRx) := by
  have hown : (RingEnd ||| FirstFrag ||| LastFrag) &&& DescOwn = 0 := by decide
  have hfree : ¬ InFlight (setupBuffers pktTx pktRx) := by
    rintro (h | h)
    · exact h hown
    · exact h BitVec.zero_and
  exact ⟨(if_neg hfree).symm, fun _ => BitVec.zero_and⟩

/-- **The busy count** is one exactly while a packet is in flight, in every state of a run, exactly
when no write that is not refused fails to copy. -/
theorem busyTracks_run_iff (pktTx pktRx : Mem) (events : List Event) :
    (∀ pre, pre <+: events → BusyTracks (run step (.start pktTx pktRx) pre).dpv) ↔
      Along step CopiesIfFree (.start pktTx pktRx) events :=
  Along.safe_iff (I := fun s : State => Counted s.dpv) (V := fun _ _ => True)
    (fun _ hs => hs.tracks) (fun _ _ hs _ hcopy => hs.step hcopy)
    (fun _ _ hs _ hcopy => not_busyTracks_step hs hcopy)
    (counted_start pktTx pktRx) (along_of_forall fun _ _ => trivial)

/-- After a write whose copy fails, nothing is in flight and the next write is refused. -/
theorem not_busyTracks_fault :
    let s := run step (.start (fun _ => 0) fun _ => 0) [.write [1] true]
    ¬ InFlight s.dpv ∧ s.dpv.pktTxBusy = 1 ∧ ¬ BusyTracks s.dpv ∧
      (exptWrite [1] false s.dpv).1 = .error (-EBUSY) := by
  intro s
  have hfree : ¬ InFlight s.dpv := by decide
  have hbusy : s.dpv.pktTxBusy = 1 := by decide
  have hrefused : (exptWrite [1] false s.dpv).1 = .error (-EBUSY) := by rfl
  exact ⟨hfree, hbusy, fun h => hfree (h.refused [1] false hrefused), hrefused⟩

end LinuxDrivers.Expt
