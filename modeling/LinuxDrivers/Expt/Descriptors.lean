import LinuxDrivers.Expt.Busy

/-!
# What the NIC is offered

Both descriptors are offered by setting bits of the `opts1` that is there, and the length of the
previous packet is still in it. The length field of a transmit descriptor is the bitwise or of all
lengths so far; the size field of a receive descriptor is that of the buffer only if the last packet
filled the buffer.
-/

namespace LinuxDrivers.Expt

/-- The length field after a descriptor was offered with `n` more. -/
theorem len_offered (x : BitVec 32) {n : Nat} (hn : n ≤ 256) :
    (x ||| DescOwn ||| .ofNat 32 n) &&& lenMask = (x &&& lenMask) ||| .ofNat 32 n := by
  have hlow : BitVec.ofNat 32 n &&& lenMask = .ofNat 32 n := Bits.ofNat_and_low (by omega)
  have hown : DescOwn &&& lenMask = 0 := by decide
  rw [BitVec.and_or_distrib_right, Bits.set_and_of_disjoint hown, hlow]

theorem toNat_ofNat_le {n : Nat} (hn : n ≤ 256) : (BitVec.ofNat 32 n).toNat = n := by
  rw [BitVec.toNat_ofNat]
  omega

/-! ## Transmit lengths -/

/-- The flags of a descriptor of a whole packet. -/
def wholeFlags : BitVec 32 := DescOwn ||| RingEnd ||| FirstFrag ||| LastFrag

/-- Every descriptor handed over so far has its flags and the length of its packet. -/
def ExactLengths (s : State) : Prop :=
  ∀ h ∈ s.handed, h.1 &&& wholeFlags = wholeFlags ∧ (h.1 &&& lenMask).toNat = h.2

instance (s : State) : Decidable (ExactLengths s) :=
  inferInstanceAs (Decidable (∀ h ∈ s.handed, _))

/-- A write whose copy succeeds, followed by the NIC sending the packet and its interrupt. -/
def round (s : State) (buf : List UInt8) : State :=
  step (step (step s (.write buf false)) .transmit) .irq

/-- Between rounds nothing is in flight, and all flags but `DescOwn` are set. -/
structure Quiet (s : State) : Prop where
  busy_eq : s.dpv.pktTxBusy = 0
  flags : s.dpv.descTx &&& (RingEnd ||| FirstFrag ||| LastFrag) =
    RingEnd ||| FirstFrag ||| LastFrag

theorem txLen_le (buf : List UInt8) : txLen buf ≤ 256 := Nat.min_le_right _ _

/-- **One round.** The write is accepted, and the length is added to those that were there. -/
theorem round_eq {s : State} (h : Quiet s) (buf : List UInt8) :
    Quiet (round s buf) ∧
      (round s buf).handed =
        s.handed ++ [(s.dpv.descTx ||| DescOwn ||| .ofNat 32 (txLen buf), txLen buf)] ∧
      (round s buf).dpv.descTx &&& lenMask =
      (s.dpv.descTx &&& lenMask) ||| .ofNat 32 (txLen buf) := by
  have hwrite := exptWrite_free buf h.busy_eq
  obtain ⟨d, hd⟩ : ∃ d : DevPriv, d = { s.dpv with
      pktTxBusy := 1
      pktTx := s.dpv.pktTx.store 0 (txLen buf) (.ofList buf)
      descTx := s.dpv.descTx ||| DescOwn ||| .ofNat 32 (txLen buf) } := ⟨_, rfl⟩
  rw [← hd] at hwrite
  have hdesc : d.descTx = s.dpv.descTx ||| DescOwn ||| .ofNat 32 (txLen buf) := by rw [hd]
  have hown : d.descTx &&& DescOwn ≠ 0 := by
    rw [hdesc]
    exact own_handed _ _
  have hsent : nicTransmit d = { d with
      descTx := d.descTx &&& ~~~DescOwn
      intrStatus := d.intrStatus ||| INTR_TX_OK_BIT } := if_pos hown
  have hround : round s buf = { s with
      dpv := exptPciIntrHandler (nicTransmit d)
      handed := s.handed ++ [(d.descTx, txLen buf)] } := by
    unfold round step
    simp only [hwrite]
  have hfinal : (exptPciIntrHandler (nicTransmit d)).descTx = d.descTx &&& ~~~DescOwn := by
    rw [(exptPciIntrHandler_desc _).1, hsent]
  rw [hround]
  refine ⟨⟨?_, ?_⟩, ?_, ?_⟩
  · have htx : (nicTransmit d).intrStatus &&& INTR_TX_OK_BIT ≠ 0 := by
      rw [hsent]
      show (d.intrStatus ||| INTR_TX_OK_BIT) &&& INTR_TX_OK_BIT ≠ 0
      rw [Bits.set_and_self]
      decide
    simp only [exptPciIntrHandler_busy]
    rw [if_pos htx, hsent, hd]
    rfl
  · simp only [hfinal]
    rw [Bits.clear_and_of_disjoint (by decide), hdesc, BitVec.or_assoc]
    exact Bits.and_eq_of_set h.flags
  · rw [hdesc]
  · simp only [hfinal]
    rw [Bits.clear_and_of_disjoint (by decide), hdesc, len_offered _ (txLen_le buf)]

/-- The length field that the last write left in the descriptor. -/
def txField (s : State) : Nat := (s.dpv.descTx &&& lenMask).toNat

/-- All bits of `a` are set in `b`. -/
def Contained (a b : Nat) : Prop := a ||| b = b

instance (a b : Nat) : Decidable (Contained a b) := inferInstanceAs (Decidable (_ = _))

theorem txField_round {s : State} (h : Quiet s) (buf : List UInt8) :
    txField (round s buf) = txField s ||| txLen buf := by
  unfold txField
  rw [(round_eq h buf).2.2, BitVec.toNat_or, toNat_ofNat_le (txLen_le buf)]

/-- The descriptor that a write hands over is exact if its length contains the one that
was there. -/
theorem handed_iff {s : State} (h : Quiet s) (buf : List UInt8) :
    ((s.dpv.descTx ||| DescOwn ||| .ofNat 32 (txLen buf)) &&& wholeFlags = wholeFlags ∧
      ((s.dpv.descTx ||| DescOwn ||| .ofNat 32 (txLen buf)) &&& lenMask).toNat = txLen buf) ↔
      Contained (txField s) (txLen buf) := by
  have hflags : (s.dpv.descTx ||| DescOwn ||| .ofNat 32 (txLen buf)) &&& wholeFlags =
      wholeFlags := by
    have hsplit : wholeFlags = DescOwn ||| (RingEnd ||| FirstFrag ||| LastFrag) := by decide
    have hown := Bits.and_eq_of_set (y := BitVec.ofNat 32 (txLen buf))
      (Bits.set_and_self s.dpv.descTx DescOwn)
    have hrest := Bits.and_eq_of_set (y := DescOwn ||| BitVec.ofNat 32 (txLen buf)) h.flags
    rw [← BitVec.or_assoc] at hrest
    rw [hsplit, BitVec.and_or_distrib_left, hown, hrest]
  rw [len_offered _ (txLen_le buf), BitVec.toNat_or, toNat_ofNat_le (txLen_le buf)]
  exact and_iff_right hflags

/-- In a run of rounds, what each write finds in the descriptor is the length of the one before. -/
theorem along_contained_iff {s : State} (h : Quiet s) (bufs : List (List UInt8)) :
    Along round (fun s buf => Contained (txField s) (txLen buf)) s bufs ↔
      (txField s :: bufs.map txLen).IsChain Contained := by
  induction bufs generalizing s with
  | nil => simp
  | cons buf bufs ih =>
    rw [along_cons, List.map_cons, List.isChain_cons_cons, ih (round_eq h buf).1,
      txField_round h buf]
    apply and_congr_right
    intro hcont
    rw [hcont]

/-- Every write of a run of rounds is accepted. -/
theorem handed_run {s : State} (h : Quiet s) (bufs : List (List UInt8)) :
    (run round s bufs).handed.map Prod.snd = s.handed.map Prod.snd ++ bufs.map txLen := by
  induction bufs generalizing s with
  | nil => simp
  | cons buf bufs ih =>
    obtain ⟨hquiet, hhanded, -⟩ := round_eq h buf
    rw [run_cons, ih hquiet, hhanded]
    simp

theorem quiet_start (pktTx pktRx : Mem) : Quiet (.start pktTx pktRx) :=
  ⟨rfl, BitVec.and_self⟩

/-- **Transmit lengths.** Every write is accepted, and every descriptor handed over has its flags
and the length of its packet, exactly when each length contains the bits of the one before. -/
theorem exactLengths_run_iff (pktTx pktRx : Mem) (bufs : List (List UInt8)) :
    (run round (.start pktTx pktRx) bufs).handed.map Prod.snd = bufs.map txLen ∧
      ((∀ pre, pre <+: bufs → ExactLengths (run round (.start pktTx pktRx) pre)) ↔
        (bufs.map txLen).IsChain Contained) := by
  have hquiet := quiet_start pktTx pktRx
  refine ⟨handed_run hquiet bufs, ?_⟩
  have hzero : txField (.start pktTx pktRx) = 0 := by
    have hfield : (RingEnd ||| FirstFrag ||| LastFrag) &&& lenMask = 0 := by decide
    exact congrArg BitVec.toNat hfield
  have hchain : (txField (.start pktTx pktRx) :: bufs.map txLen).IsChain Contained ↔
      (bufs.map txLen).IsChain Contained := by
    rw [hzero]
    cases bufs with
    | nil => simp
    | cons buf bufs =>
      rw [List.map_cons, List.isChain_cons_cons]
      exact and_iff_right (Nat.zero_or _)
  rw [← hchain, ← along_contained_iff hquiet bufs]
  refine Along.safe_iff (I := fun s => Quiet s ∧ ExactLengths s) (V := fun _ _ => True)
    (fun s hs => hs.2) ?_ ?_ ⟨hquiet, fun h hh => absurd hh List.not_mem_nil⟩
    (along_of_forall fun _ _ => trivial)
  · intro s buf hs _ hcont
    obtain ⟨hnext, hhanded, -⟩ := round_eq hs.1 buf
    refine ⟨hnext, fun h hh => ?_⟩
    rw [hhanded, List.mem_append, List.mem_singleton] at hh
    rcases hh with hold | rfl
    · exact hs.2 h hold
    · exact (handed_iff hs.1 buf).2 hcont
  · intro s buf hs _ hcont hexact
    refine hcont ((handed_iff hs.1 buf).1 (hexact (_, txLen buf) ?_))
    rw [(round_eq hs.1 buf).2.1]
    exact List.mem_append_right _ (List.mem_singleton_self _)

/-- A packet of three bytes and then one of four: the second descriptor says seven. -/
theorem not_exactLengths_shorter :
    let s := run round (.start (fun _ => 0) fun _ => 0) [[1, 2, 3], [1, 2, 3, 4]]
    s.handed.map (fun h => ((h.1 &&& lenMask).toNat, h.2)) = [(3, 3), (7, 4)] ∧
      ¬ ExactLengths s := by
  decide +kernel

/-! ## Receive sizes -/

/-- The receive descriptor was always offered with the size of its buffer. -/
def OffersBuffer (s : State) : Prop := ∀ f ∈ s.offered, f = .ofNat 32 RX_PKT_SIZE

instance (s : State) : Decidable (OffersBuffer s) :=
  inferInstanceAs (Decidable (∀ f ∈ s.offered, _))

/-- The length that the NIC wrote to the receive descriptor. -/
def rxField (dpv : DevPriv) : Nat := (dpv.descRx &&& lenMask).toNat

/-- A packet whose buffer is given back filled it. -/
def FilledBuffer (s : State) : Event → Prop
  | .read _ off _ => GivesBack s.dpv off → rxField s.dpv = RX_PKT_SIZE
  | _ => True

instance (s : State) : ∀ e, Decidable (FilledBuffer s e)
  | .read _ _ _ => inferInstanceAs (Decidable (_ → _))
  | .write _ _ | .transmit | .receive _ | .irq => isTrue trivial

/-- The packets that the NIC receives have 1 to 256 bytes. -/
def FitsBuffer : Event → Prop
  | .receive packet => 1 ≤ packet.length ∧ packet.length ≤ RX_PKT_SIZE
  | _ => True

instance : ∀ e, Decidable (FitsBuffer e)
  | .receive _ => inferInstanceAs (Decidable (_ ∧ _))
  | .write _ _ | .read _ _ _ | .transmit | .irq => isTrue trivial

/-- The field holds the length of a packet, and all offers were right. -/
structure RxSound (s : State) : Prop where
  offers : OffersBuffer s
  pos : 1 ≤ rxField s.dpv
  le : rxField s.dpv ≤ RX_PKT_SIZE

/-- Events that leave the receive descriptor and the offers alone. -/
theorem RxSound.congr {s s' : State} (h : RxSound s) (hdesc : s'.dpv.descRx = s.dpv.descRx)
    (hoffered : s'.offered = s.offered) : RxSound s' := by
  have hfield : rxField s'.dpv = rxField s.dpv := by rw [rxField, hdesc, rxField]
  refine ⟨?_, ?_, ?_⟩
  · rw [OffersBuffer, hoffered]
    exact h.offers
  · rw [hfield]
    exact h.pos
  · rw [hfield]
    exact h.le

theorem exptWrite_descRx (buf : List UInt8) (faults : Bool) (dpv : DevPriv) :
    (exptWrite buf faults dpv).2.descRx = dpv.descRx := by
  unfold exptWrite
  simp only
  split
  · rfl
  · split <;> rfl

/-- A received packet leaves its length in the field. -/
theorem rxField_receive {packet : List UInt8} (h : packet.length ≤ 256) (dpv : DevPriv) :
    rxField (nicReceive packet dpv) = packet.length ∨
      (nicReceive packet dpv).descRx = dpv.descRx := by
  unfold nicReceive
  split
  · left
    have hclear : dpv.descRx &&& ~~~(DescOwn ||| lenMask) &&& lenMask = 0 :=
      Bits.and_eq_zero_of_subset (Bits.clear_and_self dpv.descRx (DescOwn ||| lenMask))
        (Bits.set_and_self DescOwn lenMask)
    have hlow : BitVec.ofNat 32 packet.length &&& lenMask = .ofNat 32 packet.length :=
      Bits.ofNat_and_low (by omega)
    simp only [rxField]
    rw [BitVec.and_or_distrib_right, hclear, hlow]
    show (0#32 ||| BitVec.ofNat 32 packet.length).toNat = packet.length
    rw [BitVec.zero_or, toNat_ofNat_le h]
  · right
    rfl

/-- A read either changes nothing or gives the buffer back. -/
theorem exptRead_dpv (len off : Nat) (faults : Bool) (dpv : DevPriv) :
    (exptRead len off faults dpv).2.2 = if GivesBack dpv off then giveBack dpv else dpv := by
  unfold exptRead
  by_cases havail : dpv.pktRxAvail = 0
  · have hback : ¬ GivesBack dpv off := fun h => h.1 havail
    rw [if_pos havail, if_neg hback]
  · rw [if_neg havail]
    by_cases hoff : off ≥ dpv.rxPktSize
    · have hback : GivesBack dpv off := ⟨havail, hoff⟩
      rw [if_pos hoff, if_pos hback]
    · have hback : ¬ GivesBack dpv off := fun h => hoff h.2
      rw [if_neg hoff, if_neg hback]
      simp only
      split <;> rfl

/-- The size field with which the buffer is given back. -/
theorem rxField_giveBack (dpv : DevPriv) :
    (giveBack dpv).descRx &&& lenMask = (dpv.descRx &&& lenMask) ||| .ofNat 32 RX_PKT_SIZE :=
  len_offered dpv.descRx (Nat.le_refl _)

/-- It is that of the buffer only for a packet that filled the buffer. -/
theorem offer_iff {dpv : DevPriv} (hpos : 1 ≤ rxField dpv) (hle : rxField dpv ≤ RX_PKT_SIZE) :
    (giveBack dpv).descRx &&& lenMask = .ofNat 32 RX_PKT_SIZE ↔ rxField dpv = RX_PKT_SIZE := by
  rw [rxField_giveBack, ← BitVec.toNat_inj, BitVec.toNat_or]
  change rxField dpv ||| 256 = 256 ↔ rxField dpv = 256
  have hle' : rxField dpv ≤ 256 := hle
  rcases Nat.lt_or_eq_of_le hle' with hlt | heq
  · have hsum : 2 ^ 8 * 1 + rxField dpv = 2 ^ 8 * 1 ||| rxField dpv :=
      Nat.two_pow_add_eq_or_of_lt hlt 1
    change 256 + rxField dpv = 256 ||| rxField dpv at hsum
    rw [Nat.or_comm, ← hsum]
    omega
  · rw [heq]
    decide

theorem RxSound.read {s : State} (h : RxSound s) {len off : Nat} {faults : Bool} :
    (FilledBuffer s (.read len off faults) → RxSound (step s (.read len off faults))) ∧
      (¬ FilledBuffer s (.read len off faults) →
      ¬ OffersBuffer (step s (.read len off faults))) := by
  have hdpv := exptRead_dpv len off faults s.dpv
  have hiff := offer_iff h.pos h.le
  by_cases hback : GivesBack s.dpv off
  · rw [if_pos hback] at hdpv
    have hstep : step s (.read len off faults) = { s with
        dpv := giveBack s.dpv
        offered := s.offered ++ [(giveBack s.dpv).descRx &&& lenMask] } := by
      simp only [step, hdpv, if_pos hback]
    rw [hstep]
    constructor
    · intro hfull
      have hsize := hiff.2 (hfull hback)
      have hfield : rxField (giveBack s.dpv) = RX_PKT_SIZE := by
        rw [rxField, hsize]
        rfl
      refine ⟨fun f hf => ?_, ?_, ?_⟩
      · rw [List.mem_append, List.mem_singleton] at hf
        rcases hf with hold | rfl
        · exact h.offers f hold
        · exact hsize
      · rw [hfield]
        decide
      · exact Nat.le_of_eq hfield
    · intro hnot hoffers
      refine hnot fun _ => hiff.1 (hoffers _ ?_)
      exact List.mem_append_right _ (List.mem_singleton_self _)
  · rw [if_neg hback] at hdpv
    have hstep : step s (.read len off faults) = s := by
      simp only [step, hdpv, if_neg hback]
    rw [hstep]
    exact ⟨fun _ => h, fun hnot => absurd (fun hb => absurd hb hback) hnot⟩

theorem RxSound.step {s : State} (h : RxSound s) {e : Event} (hfits : FitsBuffer e)
    (hfull : FilledBuffer s e) : RxSound (step s e) := by
  cases e with
  | write buf faults =>
    refine h.congr ?_ ?_
    · rw [step_write_dpv, exptWrite_descRx]
    · simp only [Expt.step]
      split <;> rfl
  | read len off faults => exact h.read.1 hfull
  | transmit =>
    refine h.congr ?_ rfl
    simp only [Expt.step, nicTransmit]
    split <;> rfl
  | receive packet =>
    rcases rxField_receive hfits.2 s.dpv with hlen | hdesc
    · refine ⟨h.offers, ?_, ?_⟩
      · simp only [Expt.step, hlen]
        exact hfits.1
      · simp only [Expt.step, hlen]
        exact hfits.2
    · exact h.congr hdesc rfl
  | irq => exact h.congr (exptPciIntrHandler_desc s.dpv).2 rfl

/-- **Receive sizes.** The NIC is never offered more than the buffer, in any state of a run with
packets of 1 to 256 bytes, exactly when every packet whose buffer is given back filled it. -/
theorem offersBuffer_run_iff (pktTx pktRx : Mem) {events : List Event}
    (hfits : ∀ e ∈ events, FitsBuffer e) :
    (∀ pre, pre <+: events → OffersBuffer (run step (.start pktTx pktRx) pre)) ↔
      Along step FilledBuffer (.start pktTx pktRx) events := by
  have hfield : rxField (State.start pktTx pktRx).dpv = RX_PKT_SIZE := by
    have h : (DescOwn ||| RingEnd ||| BitVec.ofNat 32 RX_PKT_SIZE) &&& lenMask =
        .ofNat 32 RX_PKT_SIZE := by decide
    exact congrArg BitVec.toNat h
  refine Along.safe_iff (I := RxSound) (fun s hs => hs.offers)
    (fun s e hs hfit hfull => hs.step hfit hfull) ?_
    ⟨fun f hf => absurd hf List.not_mem_nil, by rw [hfield]; decide, Nat.le_of_eq hfield⟩
    (along_of_forall hfits)
  intro s e hs _ hnot
  cases e with
  | read len off faults => exact hs.read.2 hnot
  | write _ _ | transmit | receive _ | irq => exact absurd trivial hnot

/-- A packet that fills the buffer is read and its buffer given back. -/
theorem offersBuffer_run_iff_full :
    let events : List Event := [.receive (.replicate 256 7), .irq, .read 300 0 false,
      .read 300 256 false]
    (∀ e ∈ events, FitsBuffer e) ∧
      (run step (.start (fun _ => 0) fun _ => 0) events).offered = [256] ∧
      ∀ pre, pre <+: events → OffersBuffer (run step (.start (fun _ => 0) fun _ => 0) pre) :=
  ⟨by decide +kernel, by decide +kernel,
    (offersBuffer_run_iff (fun _ => 0) (fun _ => 0) (by decide +kernel)).2 (by decide +kernel)⟩

/-- After a packet of 60 bytes the NIC is offered 316. -/
theorem not_offersBuffer_short :
    let events : List Event := [.receive (.replicate 60 7), .irq, .read 300 0 false,
      .read 300 60 false]
    (∀ e ∈ events, FitsBuffer e) ∧
      (run step (.start (fun _ => 0) fun _ => 0) events).offered = [316] ∧
      ¬ OffersBuffer (run step (.start (fun _ => 0) fun _ => 0) events) := by
  intro events
  have hoffered : (run step (.start (fun _ => 0) fun _ => 0) events).offered = [316] := by
    decide +kernel
  refine ⟨by decide +kernel, hoffered, ?_⟩
  rw [OffersBuffer, hoffered]
  intro hall
  have heq : (316 : BitVec 32) = .ofNat 32 RX_PKT_SIZE := hall 316 (List.mem_singleton_self _)
  exact absurd (congrArg BitVec.toNat heq) (by simp [RX_PKT_SIZE])

end LinuxDrivers.Expt
