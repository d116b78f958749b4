import LinuxDrivers.Lib.Ring
import LinuxDrivers.Lib.Run
import LinuxDrivers.Rtl8101.Frames

/-!
# The transmit ring

The slots from `dirty_tx` up to `cur_tx` hold the packets that were accepted and are not released
yet. The queue is stopped before the ring runs full, so that no packet is refused and none is
overwritten. All of this survives the wrap of the counters but for one place: the loop of
`rtl8101_tx_clear` compares its counter with `dirty_tx + NUM_TX_DESC`, which is below `dirty_tx` in
the last round of the counter. Then the slots are not cleared although the counters are.
-/

namespace LinuxDrivers.Rtl8101

variable {β : Type}

/-! ## Releasing packets -/

/-- The ring holds `pending` from the counter `dirty` on. -/
structure Core (pvt : Pvt β) (dirty : UInt32) (pending : List β) : Prop where
  accepted_eq : pvt.accepted = pvt.released ++ pending
  holds : Ring.Holds 1024 (fun e => (pvt.txSkb e).skb) (slot dirty) pending
  len_iff : ∀ e < 1024, (pvt.txSkb e).len = 0 ↔ (pvt.txSkb e).skb = none
  not_owned : ∀ e < 1024, (pvt.txSkb e).skb = none → ¬ (pvt.txDesc e).Owned
  last : ∀ e < 1024, (pvt.txSkb e).skb ≠ none → (pvt.txDesc e).opts1 &&& lastFrag ≠ 0

/-- The release of the packet in a slot. -/
def releaseSlot (pvt : Pvt β) (entry : Nat) : Pvt β := freeTxSkb (unmapTxSkb pvt entry) entry

theorem releaseSlot_txSkb (pvt : Pvt β) (entry e : Nat) :
    (releaseSlot pvt entry).txSkb e = if e = entry then ⟨none, 0⟩ else pvt.txSkb e := by
  unfold releaseSlot freeTxSkb unmapTxSkb
  by_cases he : e = entry
  · subst he
    simp
  · simp [he]

theorem releaseSlot_txDesc (pvt : Pvt β) (entry e : Nat) :
    (releaseSlot pvt entry).txDesc e = if e = entry then ⟨0, 0, 0⟩ else pvt.txDesc e := by
  unfold releaseSlot freeTxSkb unmapTxSkb
  by_cases he : e = entry
  · subst he
    simp
  · simp [he]

theorem releaseSlot_released (pvt : Pvt β) (entry : Nat) :
    (releaseSlot pvt entry).released = pvt.released ++ (pvt.txSkb entry).skb.toList := by
  simp [releaseSlot, freeTxSkb, unmapTxSkb]

namespace Core

variable {pvt : Pvt β} {dirty : UInt32} {x : β} {pending : List β}

/-- The other fields do not matter. -/
theorem congr {pvt' : Pvt β} (h : Core pvt dirty pending) (hdesc : pvt'.txDesc = pvt.txDesc)
    (hskb : pvt'.txSkb = pvt.txSkb) (haccepted : pvt'.accepted = pvt.accepted)
    (hreleased : pvt'.released = pvt.released) : Core pvt' dirty pending where
  accepted_eq := by rw [haccepted, hreleased, h.accepted_eq]
  holds := by rw [hskb]; exact h.holds
  len_iff := by rw [hskb]; exact h.len_iff
  not_owned := by rw [hdesc, hskb]; exact h.not_owned
  last := by rw [hdesc, hskb]; exact h.last

theorem head (h : Core pvt dirty (x :: pending)) : (pvt.txSkb (slot dirty)).skb = some x := by
  have := h.holds.get (slot_lt dirty) (show 0 < 1024 by omega)
  rwa [Nat.add_zero, Nat.mod_eq_of_lt (slot_lt dirty)] at this

/-- The first packet is released. -/
theorem release (h : Core pvt dirty (x :: pending)) (hlt : pending.length < 1024) :
    Core (releaseSlot pvt (slot dirty)) (dirty + 1) pending where
  accepted_eq := by
    rw [releaseSlot_released, h.head]
    simpa [releaseSlot, freeTxSkb, unmapTxSkb] using h.accepted_eq
  holds := by
    rw [slot_succ]
    have hpop := h.holds.pop (slot_lt dirty) hlt
    convert hpop using 1
    funext e
    rw [releaseSlot_txSkb]
    by_cases he : e = slot dirty
    · rw [he, Function.update_self, if_pos rfl]
    · rw [Function.update_of_ne he, if_neg he]
  len_iff e he := by
    rw [releaseSlot_txSkb]
    split
    · simp
    · exact h.len_iff e he
  not_owned e he := by
    rw [releaseSlot_txSkb, releaseSlot_txDesc]
    split
    · intro _
      simp [Desc.Owned]
    · exact h.not_owned e he
  last e he := by
    rw [releaseSlot_txSkb, releaseSlot_txDesc]
    split
    · intro hne
      exact absurd rfl hne
    · exact h.last e he

/-- An empty ring may start anywhere. -/
theorem restart (h : Core pvt dirty []) (dirty' : UInt32) : Core pvt dirty' [] :=
  { h with holds := Ring.holds_nil_iff.2 (Ring.holds_nil_iff.1 h.holds) }

end Core

/-! ## The loops -/

/-- **The loop** of `rtl8101_tx_interrupt` releases packets in order. -/
theorem txLoop_core {pvt : Pvt β} {dirty : UInt32} {pending : List β} (h : Core pvt dirty pending)
    (hlt : pending.length ≤ 1024) :
    ∃ done rest, pending = done ++ rest ∧
      (txLoop pending.length dirty pvt).1 = dirty + .ofNat done.length ∧
      Core (txLoop pending.length dirty pvt).2 (dirty + .ofNat done.length) rest := by
  induction pending generalizing pvt dirty with
  | nil => exact ⟨[], [], rfl, by simp [txLoop], by simpa [txLoop] using h⟩
  | cons x pending ih =>
    rw [List.length_cons, txLoop]
    by_cases hown : (pvt.txDesc (slot dirty)).Owned
    · simp only [hown, ↓reduceIte]
      exact ⟨[], x :: pending, rfl, by simp, by simpa using h⟩
    · have hlast := h.last (slot dirty) (slot_lt dirty) (by simp [h.head])
      simp only [hown, hlast, ↓reduceIte, ne_eq, not_false_eq_true]
      rw [List.length_cons] at hlt
      obtain ⟨done, rest, rfl, hdirty, hcore⟩ := ih (h.release (by omega)) (by omega)
      rw [add_ofNat_succ] at hdirty hcore
      exact ⟨x :: done, rest, rfl, hdirty, hcore⟩

/-- The loop of `rtl8101_tx_clear` leaves empty slots alone. -/
theorem txClearLoop_empty {pvt : Pvt β} {dirty : UInt32} (h : Core pvt dirty []) (turns : Nat)
    (i : UInt32) : txClearLoop turns i pvt = pvt := by
  induction turns generalizing i with
  | zero => rfl
  | succ turns ih =>
    have hnone : (pvt.txSkb (slot i)).skb = none := Ring.holds_nil_iff.1 h.holds _ (slot_lt i)
    have hclear : clearSlot pvt (slot i) = pvt := by
      rw [clearSlot, if_neg (not_not.2 ((h.len_iff _ (slot_lt i)).2 hnone))]
    rw [txClearLoop, hclear, ih, ite_self]

/-- **The loop** of `rtl8101_tx_clear` releases all packets, unless its bound wraps. -/
theorem txClearLoop_core {pvt : Pvt β} {i : UInt32} {pending : List β} (h : Core pvt i pending)
    {turns : Nat} (hle : pending.length ≤ turns)
    (hi : i.toNat + turns = pvt.dirtyTx.toNat + 1024) (hturns : turns ≤ 1024)
    (hwrap : pvt.dirtyTx.toNat + 1024 < 2 ^ 32) :
    Core (txClearLoop turns i pvt) i [] := by
  induction turns generalizing pvt i pending with
  | zero =>
    rw [List.length_eq_zero_iff.1 (Nat.le_zero.1 hle)] at h
    exact h
  | succ turns ih =>
    have hlt : i < pvt.dirtyTx + 1024 := by
      rw [UInt32.lt_iff_toNat_lt, UInt32.toNat_add]
      simp only [UInt32.reduceToNat]
      omega
    have hnext : (i + 1).toNat + turns = pvt.dirtyTx.toNat + 1024 := by
      rw [UInt32.toNat_add]
      simp only [UInt32.reduceToNat]
      omega
    cases pending with
    | nil => rwa [txClearLoop_empty h]
    | cons x pending =>
      have hlen : (pvt.txSkb (slot i)).len ≠ 0 := by
        rw [Ne, h.len_iff _ (slot_lt i), h.head]
        simp
      have hclear : clearSlot pvt (slot i) = releaseSlot pvt (slot i) := by
        rw [clearSlot, if_pos hlen, releaseSlot]
      rw [List.length_cons] at hle
      rw [txClearLoop, if_pos hlt, hclear]
      exact (ih (h.release (by omega)) (by omega) hnext (by omega) hwrap).restart i

/-- `rtl8101_tx_clear` empties the ring, unless the bound of its loop wraps. -/
theorem txClear_core {pvt : Pvt β} {pending : List β} (h : Core pvt pvt.dirtyTx pending)
    (hle : pending.length ≤ 1024) (hclear : pvt.dirtyTx.toNat + 1024 < 2 ^ 32 ∨ pending = []) :
    Core (txClear pvt) 0 [] := by
  have hloop : Core (txClearLoop 1024 pvt.dirtyTx pvt) 0 [] := by
    rcases hclear with hwrap | rfl
    · exact (txClearLoop_core h hle rfl (Nat.le_refl _) hwrap).restart 0
    · rw [txClearLoop_empty h]
      exact h.restart 0
  unfold txClear
  generalize txClearLoop 1024 pvt.dirtyTx pvt = cleared at hloop
  exact ⟨hloop.1, hloop.2, hloop.3, hloop.4, hloop.5⟩

/-- When the bound of the loop wraps, then no slot is cleared. -/
theorem txClear_wrap {pvt : Pvt β} (h : 2 ^ 32 ≤ pvt.dirtyTx.toNat + 1024) :
    txClear pvt = { pvt with curTx := 0, dirtyTx := 0 } := by
  have hge : ¬ pvt.dirtyTx < pvt.dirtyTx + 1024 := by
    have := pvt.dirtyTx.toNat_lt
    rw [UInt32.lt_iff_toNat_lt, UInt32.toNat_add]
    simp only [UInt32.reduceToNat]
    omega
  rw [txClear, txClearLoop, if_neg hge]

/-! ## The invariant -/

/-- The ring holds `pending`, which leaves enough room while the queue is awake; without a carrier
it is empty. -/
structure TxInv (maxSkbFrags : Nat) (pvt : Pvt β) (pending : List β) : Prop where
  core : Core pvt pvt.dirtyTx pending
  cur_eq : pvt.curTx = pvt.dirtyTx + .ofNat pending.length
  room : pending.length + maxSkbFrags ≤ 1024
  awake : pvt.stopped = false → pending.length + maxSkbFrags < 1024
  off : pvt.carrier = false → pending = []

theorem toNat_txBuffsAvail {pvt : Pvt β} {k : Nat} (h : pvt.curTx = pvt.dirtyTx + .ofNat k)
    (hk : k < 1024) : (txBuffsAvail pvt).toNat = 1023 - k := by
  unfold txBuffsAvail
  rw [h, UInt32.toNat_sub, UInt32.toNat_sub, UInt32.toNat_add, UInt32.toNat_add,
    UInt32.toNat_ofNat']
  simp only [UInt32.reduceToNat]
  omega

theorem or_and_ne_zero_iff {a b m : UInt32} :
    (a ||| b) &&& m ≠ 0 ↔ a &&& m ≠ 0 ∨ b &&& m ≠ 0 := by
  have hdistrib : (a ||| b) &&& m = (a &&& m) ||| (b &&& m) :=
    UInt32.toBitVec_inj.1 BitVec.and_or_distrib_right
  rw [hdistrib, Ne, UInt32.or_eq_zero_iff, Decidable.not_and_iff_not_or_not]

theorem txDesc_lastFrag (packet : Packet β) (entry : Nat) :
    (txDesc packet entry).opts1 &&& lastFrag ≠ 0 := by
  unfold txDesc
  rw [or_and_ne_zero_iff, or_and_ne_zero_iff]
  exact .inl (.inr (by decide))

/-- A packet is put behind the others. -/
theorem Core.push {pvt : Pvt β} {dirty : UInt32} {pending : List β} (h : Core pvt dirty pending)
    (hlt : pending.length < 1024) {entry : Nat}
    (hentry : entry = (slot dirty + pending.length) % 1024)
    {packet : Packet β} (hlen : packet.len ≠ 0) (curTx : UInt32) :
    Core { pvt with
      txSkb := Function.update pvt.txSkb entry ⟨some packet.skb, packet.len⟩
      txDesc := Function.update pvt.txDesc entry (txDesc packet entry)
      curTx
      accepted := pvt.accepted ++ [packet.skb] } dirty (pending ++ [packet.skb]) where
  accepted_eq := by simp only [h.accepted_eq, List.append_assoc]
  holds := by
    have hpush := h.holds.push (slot_lt dirty) hlt packet.skb
    rw [← hentry] at hpush
    convert hpush using 1
    funext e
    by_cases he : e = entry
    · simp [he]
    · simp [he]
  len_iff e he := by
    by_cases heq : e = entry
    · simp [heq, hlen]
    · simp only [Function.update_of_ne heq]
      exact h.len_iff e he
  not_owned e he := by
    by_cases heq : e = entry
    · simp [heq]
    · simp only [Function.update_of_ne heq]
      exact h.not_owned e he
  last e he := by
    by_cases heq : e = entry
    · intro _
      simp only [heq, Function.update_self]
      exact txDesc_lastFrag packet entry
    · simp only [Function.update_of_ne heq]
      exact h.last e he

namespace TxInv

variable {maxSkbFrags : Nat} {pvt : Pvt β} {pending : List β}

/-- The slot of the next packet is free. -/
theorem free (h : TxInv maxSkbFrags pvt pending) (hlt : pending.length < 1024) :
    (pvt.txSkb (slot pvt.curTx)).skb = none := by
  have hget := h.core.holds.get (slot_lt pvt.dirtyTx) hlt
  rw [← slot_add, ← h.cur_eq] at hget
  rw [hget]
  exact List.getElem?_eq_none (Nat.le_refl _)

theorem eq_nil (h : TxInv maxSkbFrags pvt pending) (hsame : pvt.curTx = pvt.dirtyTx) :
    pending = [] := by
  have hroom := h.room
  have hused := congrArg UInt32.toNat (congrArg (· - pvt.dirtyTx) h.cur_eq)
  rw [toNat_add_sub (by omega), hsame, UInt32.sub_self] at hused
  exact List.length_eq_zero_iff.1 hused.symm

/-- **`rtl8101_start_xmit`** accepts the packet. -/
theorem startXmit (h : TxInv maxSkbFrags pvt pending) (hfrags : 0 < maxSkbFrags)
    (hawake : pvt.stopped = false) (hcarrier : pvt.carrier = true) {packet : Packet β}
    (hnone : packet.frags = 0) (hlen : packet.len ≠ 0) :
    (Rtl8101.startXmit maxSkbFrags packet pvt).1 = .ok ∧
      TxInv maxSkbFrags (Rtl8101.startXmit maxSkbFrags packet pvt).2 (pending ++ [packet.skb]) := by
  have hroom := h.awake hawake
  have hfree := h.free (by omega)
  have howned := h.core.not_owned _ (slot_lt pvt.curTx) hfree
  have hcur : pvt.curTx + 1 = pvt.dirtyTx + .ofNat (pending.length + 1) := by
    rw [h.cur_eq, UInt32.ofNat_add, UInt32.add_assoc]
    rfl
  have hnew := h.core.push (by omega) (by rw [← slot_add, ← h.cur_eq]) hlen (pvt.curTx + 1)
  unfold Rtl8101.startXmit
  simp only [hnone, Nat.not_lt_zero, ↓reduceIte, howned, true_and]
  split
  · next hfull =>
    exact ⟨⟨hnew.1, hnew.2, hnew.3, hnew.4, hnew.5⟩, by simpa using hcur, by simp; omega,
      by simp, by simp [hcarrier]⟩
  · next hfull =>
    rw [toNat_txBuffsAvail hcur (by omega)] at hfull
    exact ⟨⟨hnew.1, hnew.2, hnew.3, hnew.4, hnew.5⟩, by simpa using hcur, by simp; omega,
      by simp; omega, by simp [hcarrier]⟩

/-- The NIC changes the ownership of a descriptor only. -/
theorem transmitted (h : TxInv maxSkbFrags pvt pending) (entry : Nat) :
    TxInv maxSkbFrags (Rtl8101.transmitted entry pvt) pending := by
  have hbits : ∀ opts1 : UInt32, (opts1 &&& ~~~descOwn) &&& lastFrag = opts1 &&& lastFrag := by
    intro opts1
    rw [UInt32.and_assoc]
    rfl
  refine ⟨⟨h.core.1, h.core.2, h.core.3, ?_, ?_⟩, h.cur_eq, h.room, h.awake, h.off⟩
  · intro e he hnone
    unfold Rtl8101.transmitted
    by_cases heq : e = entry
    · subst heq
      simp [Desc.Owned, UInt32.and_assoc]
    · simp only [Function.update_of_ne heq]
      exact h.core.not_owned e he hnone
  · intro e he hsome
    unfold Rtl8101.transmitted
    by_cases heq : e = entry
    · subst heq
      simp only [Function.update_self, hbits]
      exact h.core.last e he hsome
    · simp only [Function.update_of_ne heq]
      exact h.core.last e he hsome

/-- **`rtl8101_tx_interrupt`** releases some of the first packets. -/
theorem txInterrupt (h : TxInv maxSkbFrags pvt pending) (hfrags : 0 < maxSkbFrags) :
    ∃ rest, TxInv maxSkbFrags (Rtl8101.txInterrupt maxSkbFrags pvt) rest := by
  have hroom := h.room
  have hleft : (pvt.curTx - pvt.dirtyTx).toNat = pending.length := by
    rw [h.cur_eq, toNat_add_sub (by omega)]
  obtain ⟨done, rest, hpending, hdirty, hcore⟩ := txLoop_core h.core (by omega)
  obtain ⟨txDesc, txSkb, released, honly⟩ := txLoop_txOnly pending.length pvt.dirtyTx pvt
  have hlen : pending.length = done.length + rest.length := by rw [hpending, List.length_append]
  have hcur : pvt.curTx = pvt.dirtyTx + .ofNat done.length + .ofNat rest.length := by
    rw [h.cur_eq, hlen, UInt32.ofNat_add, UInt32.add_assoc]
  have hoff : pvt.carrier = false → rest = [] := by
    intro hcarrier
    have hnil := h.off hcarrier
    rw [hpending] at hnil
    exact (List.append_eq_nil_iff.1 hnil).2
  unfold Rtl8101.txInterrupt
  rw [hleft]
  generalize txLoop pending.length pvt.dirtyTx pvt = r at hdirty hcore honly
  obtain ⟨dirtyTx, pvt'⟩ := r
  simp only at hdirty hcore honly
  subst hdirty honly
  refine ⟨rest, ?_⟩
  simp only
  have hawake : pvt.stopped = false → rest.length + maxSkbFrags < 1024 := by
    intro hstopped
    have := h.awake hstopped
    omega
  split
  · split
    · -- the queue is woken
      next hwake =>
      rw [toNat_txBuffsAvail hcur (by omega)] at hwake
      exact ⟨hcore.congr rfl rfl rfl rfl, hcur, by omega, fun _ => by omega, hoff⟩
    · exact ⟨hcore.congr rfl rfl rfl rfl, hcur, by omega, hawake, hoff⟩
  · next hsame =>
    have hsame' : pvt.dirtyTx = pvt.dirtyTx + .ofNat done.length := not_not.1 hsame
    rw [← hsame'] at hcore hcur
    exact ⟨hcore.congr rfl rfl rfl rfl, hcur, by omega, hawake, hoff⟩

theorem rxOnly (h : TxInv maxSkbFrags pvt pending) {pvt' : Pvt β} (honly : RxOnly pvt pvt') :
    TxInv maxSkbFrags pvt' pending := by
  obtain ⟨_, _, _, _, _, rfl⟩ := honly
  exact ⟨h.core.congr rfl rfl rfl rfl, h.cur_eq, h.room, h.awake, h.off⟩

/-- An empty ring. -/
theorem empty {pvt : Pvt β} (hcore : Core pvt 0 []) (hcur : pvt.curTx = 0)
    (hdirty : pvt.dirtyTx = 0)
    (hfrags : maxSkbFrags < 1024) : TxInv maxSkbFrags pvt [] := by
  refine ⟨by rw [hdirty]; exact hcore, by rw [hcur, hdirty]; rfl, ?_, fun _ => ?_, fun _ => rfl⟩
  · rw [List.length_nil]
    omega
  · rw [List.length_nil]
    omega

end TxInv

/-! ## The condition -/

/-- `rtl8101_tx_clear` has nothing to clear, or its bound does not wrap. -/
def ClearsAll (pvt : Pvt β) : Prop :=
  pvt.dirtyTx.toNat + 1024 < 2 ^ 32 ∨ pvt.curTx = pvt.dirtyTx

instance (pvt : Pvt β) : Decidable (ClearsAll pvt) := inferInstanceAs (Decidable (_ ∨ _))

/-- Every step that clears the ring clears all of it. -/
def TxCleared (pvt : Pvt β) : Act β → Prop
  | .checkLinkStatus linkStatusOn => pvt.carrier = true → linkStatusOn = false → ClearsAll pvt
  | .resetTask _ => ClearsAll pvt
  | _ => True

/-- A packet is handed over only while the queue is awake and the carrier is on; it has no fragments
and its length is not zero and below `2 ^ 14`. -/
def TxAllowed (pvt : Pvt β) : Act β → Prop
  | .startXmit packet => pvt.stopped = false ∧ pvt.carrier = true ∧ packet.frags = 0 ∧
      0 < packet.len ∧ packet.len < 0x4000
  | _ => True

/-- **The accounting** of the transmit ring. -/
structure TxSound (maxSkbFrags : Nat) (pvt : Pvt β) : Prop where
  used_le : (pvt.curTx - pvt.dirtyTx).toNat ≤ 1024 - maxSkbFrags
  /-- The slots from `dirty_tx` on hold the packets that are not released yet, in order, and all
  other slots are empty. -/
  holds : ∃ pending, pvt.accepted = pvt.released ++ pending ∧
    pending.length = (pvt.curTx - pvt.dirtyTx).toNat ∧
    Ring.Holds 1024 (fun e => (pvt.txSkb e).skb) (slot pvt.dirtyTx) pending
  len_iff : ∀ e < 1024, (pvt.txSkb e).len = 0 ↔ (pvt.txSkb e).skb = none
  awake : pvt.stopped = false → maxSkbFrags ≤ (txBuffsAvail pvt).toNat
  /-- A packet is accepted, and its slot is empty. -/
  accepts : ∀ packet, TxAllowed pvt (.startXmit packet) →
    (startXmit maxSkbFrags packet pvt).1 = .ok ∧ (pvt.txSkb (slot pvt.curTx)).skb = none

theorem TxInv.sound {maxSkbFrags : Nat} {pvt : Pvt β} {pending : List β}
    (h : TxInv maxSkbFrags pvt pending) (hfrags : 0 < maxSkbFrags) : TxSound maxSkbFrags pvt := by
  have hroom := h.room
  have hused : (pvt.curTx - pvt.dirtyTx).toNat = pending.length := by
    rw [h.cur_eq, toNat_add_sub (by omega)]
  refine ⟨by omega, ⟨pending, h.core.accepted_eq, hused.symm, h.core.holds⟩, h.core.len_iff, ?_, ?_⟩
  · intro hstopped
    have := h.awake hstopped
    rw [toNat_txBuffsAvail h.cur_eq (by omega)]
    omega
  · rintro packet ⟨hstopped, hcarrier, hnone, hpos, -⟩
    have hlen : packet.len ≠ 0 := by
      intro hzero
      rw [hzero] at hpos
      exact absurd hpos (by decide)
    exact ⟨(h.startXmit hfrags hstopped hcarrier hnone hlen).1, h.free (by omega)⟩

/-! ## Runs -/

section

variable {maxSkbFrags : Nat} {pvt : Pvt β} {pending : List β}

/-- A step whose `rtl8101_tx_clear` clears all of the ring keeps the invariant. -/
theorem TxInv.step (h : TxInv maxSkbFrags pvt pending) (hpos : 0 < maxSkbFrags)
    (hlt : maxSkbFrags < 1024) {act : Act β} (hallowed : TxAllowed pvt act)
    (hcleared : TxCleared pvt act) :
    ∃ pending', TxInv maxSkbFrags (Rtl8101.step maxSkbFrags pvt act) pending' := by
  -- what `ClearsAll` says of the packets in the ring
  have hall : ClearsAll pvt → pvt.dirtyTx.toNat + 1024 < 2 ^ 32 ∨ pending = [] := by
    rintro (hwrap | hsame)
    · exact .inl hwrap
    · exact .inr (h.eq_nil hsame)
  have hroom := h.room
  cases act with
  | startXmit packet =>
    obtain ⟨hstopped, hcarrier, hnone, hlen, -⟩ := hallowed
    have hlen' : packet.len ≠ 0 := by
      intro hzero
      rw [hzero] at hlen
      exact absurd hlen (by decide)
    exact ⟨_, (h.startXmit hpos hstopped hcarrier hnone hlen').2⟩
  | transmitted entry => exact ⟨_, h.transmitted entry⟩
  | txInterrupt => exact h.txInterrupt hpos
  | received entry status =>
    refine ⟨_, h.rxOnly ?_⟩
    unfold Rtl8101.step received
    simp only
    split <;> exact ⟨_, _, _, _, _, rfl⟩
  | rxInterrupt budget allocs => exact ⟨_, h.rxOnly (rxInterrupt_rxOnly budget allocs pvt)⟩
  | checkLinkStatus linkStatusOn =>
    simp only [Rtl8101.step, checkLinkStatus]
    split
    · next hchange =>
      split
      · -- the link is up again, and the ring has been empty without it
        next hon =>
        have hoff : pvt.carrier = false := by
          rw [hon] at hchange
          simpa using hchange
        have hnil := h.off hoff
        subst hnil
        refine ⟨[], h.core.congr rfl rfl rfl rfl, h.cur_eq, hroom, ?_,
          fun _ => rfl⟩
        intro _
        rw [List.length_nil]
        omega
      · next hon =>
        have hoff : linkStatusOn = false := by simpa using hon
        have hcarrier : pvt.carrier = true := by
          rw [hoff] at hchange
          simpa using hchange
        have hcore : Core { pvt with carrier := false, stopped := true } pvt.dirtyTx pending :=
          h.core.congr rfl rfl rfl rfl
        have hclear := txClear_core hcore (by omega) (hall (hcleared hcarrier hoff))
        generalize txClear { pvt with carrier := false, stopped := true } = cleared at hclear
        refine ⟨[], .empty ?_ rfl rfl hlt⟩
        exact hclear.congr rfl rfl rfl rfl
    · exact ⟨pending, h⟩
  | resetTask allocs =>
    have hrx := h.rxOnly (rxInterrupt_rxOnly 0xFFFFFFFF allocs pvt)
    have hdirty := (rxInterrupt_rxOnly 0xFFFFFFFF allocs pvt).dirtyTx
    have hclear := txClear_core hrx.core (by omega) (by rw [hdirty]; exact hall hcleared)
    have hcur : (txClear (rxInterrupt 0xFFFFFFFF allocs pvt)).curTx = 0 := rfl
    have hdirty' : (txClear (rxInterrupt 0xFFFFFFFF allocs pvt)).dirtyTx = 0 := rfl
    simp only [Rtl8101.step, resetTask]
    generalize txClear (rxInterrupt 0xFFFFFFFF allocs pvt) = cleared at hclear hcur hdirty'
    split
    · refine ⟨[], .empty ?_ rfl rfl hlt⟩
      exact hclear.congr rfl rfl rfl rfl
    · exact ⟨[], .empty hclear hcur hdirty' hlt⟩

/-- When the counters are reset and the slots are not cleared, then a slot outside of them is not
empty. -/
theorem TxInv.not_sound (h : TxInv maxSkbFrags pvt pending) (hne : pvt.curTx ≠ pvt.dirtyTx)
    {pvt' : Pvt β} (hskb : pvt'.txSkb = pvt.txSkb) (hsame : pvt'.curTx = pvt'.dirtyTx) :
    ¬ TxSound maxSkbFrags pvt' := by
  intro hsound
  obtain ⟨pending', -, hlen, hholds⟩ := hsound.holds
  rw [hsame, UInt32.sub_self] at hlen
  rw [List.length_eq_zero_iff.1 hlen, Ring.holds_nil_iff, hskb] at hholds
  have hnone := hholds _ (slot_lt pvt.dirtyTx)
  cases pending with
  | nil => exact hne (by rw [h.cur_eq]; exact UInt32.add_zero _)
  | cons x pending =>
    rw [h.core.head] at hnone
    exact absurd hnone (by simp)

/-- A step that does not clear all of the ring leads out of the accounting. -/
theorem TxInv.step_not_sound (h : TxInv maxSkbFrags pvt pending) {act : Act β}
    (hnot : ¬ TxCleared pvt act) : ¬ TxSound maxSkbFrags (Rtl8101.step maxSkbFrags pvt act) := by
  have hparts : ¬ ClearsAll pvt →
      2 ^ 32 ≤ pvt.dirtyTx.toNat + 1024 ∧ pvt.curTx ≠ pvt.dirtyTx := by
    intro hclears
    unfold ClearsAll at hclears
    rw [not_or] at hclears
    exact ⟨Nat.le_of_not_lt hclears.1, hclears.2⟩
  cases act with
  | checkLinkStatus linkStatusOn =>
    simp only [TxCleared, Classical.not_imp] at hnot
    obtain ⟨hcarrier, rfl, hclears⟩ := hnot
    obtain ⟨hwrap, hne⟩ := hparts hclears
    have hwrap' : 2 ^ 32 ≤ ({ pvt with carrier := false, stopped := true } : Pvt β).dirtyTx.toNat +
      1024 := hwrap
    refine h.not_sound hne ?_ ?_
    · simp [Rtl8101.step, checkLinkStatus, hcarrier, txClear_wrap hwrap', initRingIndexes]
    · simp [Rtl8101.step, checkLinkStatus, hcarrier, initRingIndexes]
  | resetTask allocs =>
    obtain ⟨hwrap, hne⟩ := hparts hnot
    have honly := rxInterrupt_rxOnly 0xFFFFFFFF allocs pvt
    simp only [Rtl8101.step, resetTask]
    generalize rxInterrupt 0xFFFFFFFF allocs pvt = pvt₁ at honly
    rw [txClear_wrap (by rw [honly.dirtyTx]; exact hwrap)]
    split
    · exact h.not_sound hne honly.txSkb rfl
    · exact h.not_sound hne honly.txSkb rfl
  | _ => exact absurd trivial hnot

/-- The ring is empty when the device has been opened. -/
theorem rtl8101Open_txInv {allocs : Allocs β} {irq : Int}
    (hopen : rtl8101Open allocs irq = .ok pvt) (hlt : maxSkbFrags < 1024) :
    TxInv maxSkbFrags pvt [] ∧ pvt.curTx = 0 ∧ pvt.dirtyTx = 0 ∧ pvt.carrier = false := by
  have hcore : Core (cleared : Pvt β) 0 [] := by
    refine ⟨rfl, Ring.holds_nil_iff.2 fun _ _ => rfl, fun _ _ => by simp [cleared], ?_, ?_⟩
    · intro e _ _
      simp only [cleared, clearedDescs, Desc.Owned]
      split <;> decide
    · intro e _ hne
      exact absurd rfl hne
  have hinv : TxInv maxSkbFrags (cleared : Pvt β) [] := .empty hcore rfl rfl hlt
  have honly := (rxFill_rxSlots allocs 0 1024 cleared).rxOnly
  unfold rtl8101Open initBuffers at hopen
  generalize rxFill allocs 0 1024 cleared = r at hopen honly
  obtain ⟨filled, pvt₁⟩ := r
  have hinv₁ := hinv.rxOnly honly
  obtain ⟨_, _, _, _, _, rfl⟩ := honly
  simp only at hopen
  split at hopen
  · exact absurd hopen (by simp)
  · next pvt₂ heq =>
    split at heq
    · exact absurd heq (by simp)
    · split at hopen
      · exact absurd hopen (by simp)
      · rw [Except.ok.injEq] at heq hopen
        subst heq hopen
        exact ⟨⟨hinv₁.core.congr rfl rfl rfl rfl,
          hinv₁.cur_eq, hinv₁.room, fun _ => by simpa using hlt, fun _ => rfl⟩, rfl, rfl, rfl⟩

/-- **The transmit ring** is in order in every state that is reached from an opened device, exactly
when every clearing of the ring clears all of it. -/
theorem txSound_run_iff {allocs : Allocs β} {irq : Int} (hopen : rtl8101Open allocs irq = .ok pvt)
    (hpos : 0 < maxSkbFrags) (hlt : maxSkbFrags < 1024) {acts : List (Act β)}
    (hacts : Along (Rtl8101.step maxSkbFrags) TxAllowed pvt acts) :
    (∀ pre, pre <+: acts → TxSound maxSkbFrags (run (Rtl8101.step maxSkbFrags) pvt pre)) ↔
      Along (Rtl8101.step maxSkbFrags) TxCleared pvt acts := by
  refine Along.safe_iff (I := fun pvt => ∃ pending, TxInv maxSkbFrags pvt pending) ?_ ?_ ?_
    ⟨[], (rtl8101Open_txInv hopen hlt).1⟩ hacts
  · rintro pvt ⟨pending, h⟩
    exact h.sound hpos
  · rintro pvt act ⟨pending, h⟩ hallowed hcleared
    exact h.step hpos hlt hallowed hcleared
  · rintro pvt act ⟨pending, h⟩ - hnot
    exact h.step_not_sound hnot

/-! ## The last round of the counters -/

theorem txInterrupt_one (maxSkbFrags : Nat) (hleft : (pvt.curTx - pvt.dirtyTx).toNat = 1)
    (howned : ¬ (pvt.txDesc (slot pvt.dirtyTx)).Owned) (hstopped : pvt.stopped = false) :
    (Rtl8101.txInterrupt maxSkbFrags pvt).dirtyTx = pvt.dirtyTx + 1 ∧
      (Rtl8101.txInterrupt maxSkbFrags pvt).curTx = pvt.curTx ∧
      (Rtl8101.txInterrupt maxSkbFrags pvt).stopped = false ∧
      (Rtl8101.txInterrupt maxSkbFrags pvt).carrier = pvt.carrier := by
  obtain ⟨txDesc, txSkb, released, honly⟩ := txLoop_txOnly 1 pvt.dirtyTx pvt
  have hdirty : (txLoop 1 pvt.dirtyTx pvt).1 = pvt.dirtyTx + 1 := by
    simp only [txLoop, howned, ↓reduceIte]
  unfold Rtl8101.txInterrupt
  rw [hleft]
  generalize txLoop 1 pvt.dirtyTx pvt = r at hdirty honly
  obtain ⟨dirtyTx, pvt'⟩ := r
  simp only at hdirty honly
  subst hdirty honly
  have hne : pvt.dirtyTx ≠ pvt.dirtyTx + 1 := by
    intro heq
    have hnat := congrArg UInt32.toNat heq
    have hbound := pvt.dirtyTx.toNat_lt
    rw [UInt32.toNat_add] at hnat
    simp only [UInt32.reduceToNat] at hnat
    omega
  simp [hne, hstopped]

/-- A packet is accepted, transmitted and released. -/
def roundActs (packet : Packet β) (entry : Nat) : List (Act β) :=
  [.startXmit packet, .transmitted entry, .txInterrupt]

/-- The device is ready to send, and nothing is in the ring. -/
structure Ready (maxSkbFrags : Nat) (pvt : Pvt β) : Prop where
  inv : TxInv maxSkbFrags pvt []
  awake : pvt.stopped = false
  carrier : pvt.carrier = true

/-- The counters after a packet has been put into the empty ring. -/
theorem Ready.startXmit (h : Ready maxSkbFrags pvt) (hlt : maxSkbFrags < 1023) {packet : Packet β}
    (hnone : packet.frags = 0) :
    let pvt' := (Rtl8101.startXmit maxSkbFrags packet pvt).2
    pvt'.curTx = pvt.curTx + 1 ∧ pvt'.dirtyTx = pvt.dirtyTx ∧ pvt'.stopped = false ∧
      pvt'.carrier = true := by
  have howned := h.inv.core.not_owned _ (slot_lt pvt.curTx) (h.inv.free (by simp))
  have hcur : pvt.curTx + 1 = pvt.dirtyTx + .ofNat 1 := by
    rw [h.inv.cur_eq]
    simp
  unfold Rtl8101.startXmit
  simp only [hnone, Nat.not_lt_zero, ↓reduceIte, howned]
  split
  · next hfull =>
    rw [toNat_txBuffsAvail hcur (by omega)] at hfull
    omega
  · exact ⟨rfl, rfl, h.awake, h.carrier⟩

theorem Ready.round (h : Ready maxSkbFrags pvt) (hpos : 0 < maxSkbFrags)
    (hlt : maxSkbFrags < 1023) {packet : Packet β}
    (hpacket : packet.frags = 0 ∧ 0 < packet.len ∧ packet.len < 0x4000) :
    let acts := roundActs packet (slot pvt.curTx)
    Along (Rtl8101.step maxSkbFrags) TxAllowed pvt acts ∧
      Ready maxSkbFrags (run (Rtl8101.step maxSkbFrags) pvt acts) ∧
      (run (Rtl8101.step maxSkbFrags) pvt acts).curTx = pvt.curTx + 1 := by
  intro acts
  have hallowed : TxAllowed pvt (.startXmit packet) := ⟨h.awake, h.carrier, hpacket⟩
  have hacts : Along (Rtl8101.step maxSkbFrags) TxAllowed pvt acts :=
    ⟨hallowed, trivial, trivial, trivial⟩
  have hcleared : Along (Rtl8101.step maxSkbFrags) TxCleared pvt acts :=
    ⟨trivial, trivial, trivial, trivial⟩
  obtain ⟨pending, hinv⟩ :=
    Along.invariant (I := fun pvt => ∃ pending, TxInv maxSkbFrags pvt pending)
    (fun pvt act ⟨_, h⟩ hboth => h.step hpos (by omega) hboth.1 hboth.2) ⟨[], h.inv⟩
    (hacts.and hcleared)
  obtain ⟨hcur, hdirty, hstopped, hcarrier⟩ := h.startXmit hlt hpacket.1
  have hsame : pvt.curTx = pvt.dirtyTx := by
    rw [h.inv.cur_eq]
    exact UInt32.add_zero _
  -- the state in which the interrupt handler runs
  let pvt₂ := transmitted (slot pvt.curTx) (Rtl8101.startXmit maxSkbFrags packet pvt).2
  have hleft : (pvt₂.curTx - pvt₂.dirtyTx).toNat = 1 := by
    change ((Rtl8101.startXmit maxSkbFrags packet pvt).2.curTx -
      (Rtl8101.startXmit maxSkbFrags packet pvt).2.dirtyTx).toNat = 1
    rw [hcur, hdirty, hsame]
    exact toNat_add_sub (k := 1) (by omega)
  have howned : ¬ (pvt₂.txDesc (slot pvt₂.dirtyTx)).Owned := by
    have hslot : slot pvt₂.dirtyTx = slot pvt.curTx := by
      rw [hsame, ← hdirty]
      rfl
    rw [hslot]
    simp [pvt₂, transmitted, Desc.Owned, UInt32.and_assoc]
  obtain ⟨hdirty', hcur', hstopped', hcarrier'⟩ :=
    txInterrupt_one maxSkbFrags hleft howned hstopped
  have hrun : run (Rtl8101.step maxSkbFrags) pvt acts = Rtl8101.txInterrupt maxSkbFrags pvt₂ := rfl
  rw [hrun] at hinv ⊢
  have hnext : (Rtl8101.txInterrupt maxSkbFrags pvt₂).curTx = pvt.curTx + 1 := hcur'.trans hcur
  have hnil : pending = [] := by
    apply hinv.eq_nil
    rw [hnext, hdirty', hsame, ← hdirty]
    rfl
  subst hnil
  exact ⟨hacts, ⟨hinv, hstopped', hcarrier'.trans hcarrier⟩, hnext⟩

/-- When the link is up for the first time, then the device is ready to send. -/
theorem Ready.linkUp {allocs : Allocs β} {irq : Int} (hopen : rtl8101Open allocs irq = .ok pvt)
    (hlt : maxSkbFrags < 1024) :
    let pvt' := Rtl8101.step maxSkbFrags pvt (.checkLinkStatus true)
    Ready maxSkbFrags pvt' ∧ pvt'.curTx = 0 ∧ pvt'.dirtyTx = 0 := by
  obtain ⟨hinv, hcur, hdirty, hcarrier⟩ := rtl8101Open_txInv hopen hlt
  have hup : Rtl8101.step maxSkbFrags pvt (.checkLinkStatus true) =
      { hwInit pvt with carrier := true } := by
    simp [Rtl8101.step, checkLinkStatus, hcarrier]
  rw [hup]
  refine ⟨⟨.empty ?_ hcur hdirty hlt, rfl, rfl⟩, hcur, hdirty⟩
  have hcore := hinv.core.restart 0
  exact hcore.congr rfl rfl rfl rfl

/-- `n` packets go through the ring, one after the other. -/
def roundsActs (packet : Packet β) (n : Nat) : List (Act β) :=
  (List.range n).flatMap fun k => roundActs packet (k % 1024)

theorem Ready.rounds (h : Ready maxSkbFrags pvt) (hcur : pvt.curTx = 0) (hpos : 0 < maxSkbFrags)
    (hlt : maxSkbFrags < 1023) {packet : Packet β}
    (hpacket : packet.frags = 0 ∧ 0 < packet.len ∧ packet.len < 0x4000) (n : Nat) :
    Along (Rtl8101.step maxSkbFrags) TxAllowed pvt (roundsActs packet n) ∧
      Ready maxSkbFrags (run (Rtl8101.step maxSkbFrags) pvt (roundsActs packet n)) ∧
      (run (Rtl8101.step maxSkbFrags) pvt (roundsActs packet n)).curTx = .ofNat n := by
  induction n with
  | zero => exact ⟨trivial, h, hcur⟩
  | succ n ih =>
    obtain ⟨hacts, hready, hcur'⟩ := ih
    have hslot : slot (run (Rtl8101.step maxSkbFrags) pvt (roundsActs packet n)).curTx =
      n % 1024 := by
      rw [hcur', slot_eq, UInt32.toNat_ofNat']
      omega
    obtain ⟨hacts', hready', hnext⟩ := hready.round hpos hlt hpacket
    rw [hslot] at hacts' hready' hnext
    have hsplit : roundsActs packet (n + 1) =
      roundsActs packet n ++ roundActs packet (n % 1024) := by
      simp [roundsActs, List.range_succ]
    rw [hsplit, along_append, run_append]
    exact ⟨⟨hacts, hacts'⟩, hready', by rw [hnext, hcur', UInt32.ofNat_add]; rfl⟩

end

/-! ## Two runs -/

/-- A packet of 64 bytes. -/
def packet64 : Packet Unit := ⟨(), 64, 0, 0⟩

/-- Memory does not run short. -/
def plenty : Allocs Unit := fun _ => some ((), 0)

theorem plenty_opens : ∃ pvt, rtl8101Open plenty 0 = .ok pvt :=
  rtl8101Open_all (fun _ => by simp [plenty]) (Int.le_refl 0)

/-- The link goes up and down with a packet in the ring, at the start of the counters. -/
theorem txSound_run_iff_early : ∃ pvt, rtl8101Open plenty 0 = .ok pvt ∧
    ∀ pre, pre <+: [.checkLinkStatus true, .startXmit packet64, .checkLinkStatus false] →
      TxSound 18 (run (step 18) pvt pre) := by
  obtain ⟨pvt, hopen⟩ := plenty_opens
  obtain ⟨hready, hcur, hdirty⟩ := Ready.linkUp hopen (show 18 < 1024 by decide)
  obtain ⟨-, hdirty', -⟩ := hready.startXmit (by decide) (show packet64.frags = 0 from rfl)
  refine ⟨pvt, hopen, (txSound_run_iff hopen (by decide) (by decide) ?_).2 ?_⟩
  · exact ⟨trivial, ⟨hready.awake, hready.carrier, by decide⟩, trivial, trivial⟩
  · refine ⟨fun _ hoff => absurd hoff (by decide), trivial, fun _ _ => .inl ?_, trivial⟩
    change (startXmit 18 packet64 (step 18 pvt (.checkLinkStatus true))).2.dirtyTx.toNat + 1024 <
      2 ^ 32
    rw [hdirty', hdirty]
    decide

/-- The link goes down with a packet in the ring, behind `n` other packets. -/
def downActs (n : Nat) : List (Act Unit) :=
  .checkLinkStatus true :: (roundsActs packet64 n ++ [.startXmit packet64, .checkLinkStatus false])

/-- In the last round of the counters the packet stays in its slot, although the counters say that
the ring is empty. -/
theorem downActs_not_sound {pvt : Pvt Unit} (hopen : rtl8101Open plenty 0 = .ok pvt) {n : Nat}
    (hn : n + 1024 = 2 ^ 32) :
    Along (step 18) TxAllowed pvt (downActs n) ∧ ¬ TxSound 18 (run (step 18) pvt (downActs n)) := by
  obtain ⟨hready, hcur, -⟩ := Ready.linkUp hopen (show 18 < 1024 by decide)
  have hpacket : packet64.frags = 0 ∧ 0 < packet64.len ∧ packet64.len < 0x4000 := by decide
  obtain ⟨hacts, hready', hcur'⟩ := hready.rounds hcur (by decide) (by decide) hpacket n
  unfold downActs
  rw [along_cons, along_append, run_cons, run_append]
  generalize run (step 18) (step 18 pvt (.checkLinkStatus true)) (roundsActs packet64 n) = pvt₁
    at hready' hcur'
  obtain ⟨hcur₂, hdirty₂, -, hcarrier₂⟩ := hready'.startXmit (by decide) hpacket.1
  have hallowed : TxAllowed pvt₁ (.startXmit packet64) := ⟨hready'.awake, hready'.carrier, hpacket⟩
  obtain ⟨pending, hinv⟩ := hready'.inv.step (by decide) (by decide) hallowed trivial
  have hdirty₁ : pvt₁.dirtyTx = .ofNat n := by
    rw [← hcur', hready'.inv.cur_eq]
    exact (UInt32.add_zero _).symm
  have hnot : ¬ TxCleared (step 18 pvt₁ (.startXmit packet64)) (.checkLinkStatus false) := by
    intro hcleared
    rcases hcleared hcarrier₂ rfl with hwrap | hsame
    · change (startXmit 18 packet64 pvt₁).2.dirtyTx.toNat + 1024 < 2 ^ 32 at hwrap
      rw [hdirty₂, hdirty₁, UInt32.toNat_ofNat'] at hwrap
      omega
    · change (startXmit 18 packet64 pvt₁).2.curTx = (startXmit 18 packet64 pvt₁).2.dirtyTx at hsame
      have hnat := congrArg UInt32.toNat hsame
      rw [hcur₂, hdirty₂, hcur', hdirty₁, UInt32.toNat_add, UInt32.toNat_ofNat'] at hnat
      simp only [UInt32.reduceToNat] at hnat
      omega
  refine ⟨⟨trivial, hacts, hallowed, trivial, trivial⟩, ?_⟩
  rw [run_cons, run_cons, run_nil]
  exact hinv.step_not_sound hnot

theorem not_txSound_wrap : ∃ pvt, rtl8101Open plenty 0 = .ok pvt ∧
    Along (step 18) TxAllowed pvt (downActs 4294966272) ∧
    ¬ TxSound 18 (run (step 18) pvt (downActs 4294966272)) := by
  obtain ⟨pvt, hopen⟩ := plenty_opens
  exact ⟨pvt, hopen, downActs_not_sound hopen (by omega)⟩

end LinuxDrivers.Rtl8101
