import LinuxDrivers.Rtl8101.Nic

/-!
# Packets on the wire

The transmit ring holds the packets that were sent and are not released yet, and behind them those
that the NIC still owns. The NIC stands between the two. Whenever it is started, its index and
`dirty_tx` are set to the first slot together, so it sends the accepted packets in order.
-/

namespace LinuxDrivers.Rtl8101

open LinuxDrivers.Ring (offset offset_lt offset_succ eq_add_iff_offset)

variable {β : Type}

/-! ## The part that the NIC owns -/

/-- From the slot of `dirty` on, the NIC owns the descriptors `g` up to `n`. -/
def OwnsFrom (descs : Nat → Desc) (dirty : UInt32) (g n : Nat) : Prop :=
  ∀ e < 1024, (descs e).Owned ↔ g ≤ offset 1024 (slot dirty) e ∧ offset 1024 (slot dirty) e < n

theorem offset_slot_add (dirty : UInt32) {k : Nat} (hk : k < 1024) :
    offset 1024 (slot dirty) ((slot dirty + k) % 1024) = k :=
  (eq_add_iff_offset (slot_lt dirty) (Nat.mod_lt _ (by omega)) hk).1 rfl

theorem offset_self (dirty : UInt32) : offset 1024 (slot dirty) (slot dirty) = 0 := by
  simp [offset]

/-- The NIC owns nothing. -/
theorem OwnsFrom.nil {descs : Nat → Desc} (h : ∀ e < 1024, ¬ (descs e).Owned) (dirty : UInt32) :
    OwnsFrom descs dirty 0 0 :=
  fun e he => iff_of_false (h e he) (by omega)

/-- A descriptor behind the others is handed over. -/
theorem OwnsFrom.push {descs : Nat → Desc} {dirty : UInt32} {g n : Nat}
    (h : OwnsFrom descs dirty g n)
    (hg : g ≤ n) (hn : n < 1024) {desc : Desc} (howned : desc.Owned) :
    OwnsFrom (Function.update descs ((slot dirty + n) % 1024) desc) dirty g (n + 1) := by
  intro e he
  by_cases heq : e = (slot dirty + n) % 1024
  · rw [heq, Function.update_self, offset_slot_add dirty hn]
    exact iff_of_true howned (by omega)
  · have hne := mt (eq_add_iff_offset (slot_lt dirty) he hn).2 heq
    rw [Function.update_of_ne heq, h e he]
    omega

/-- The first descriptor that the NIC owns is given back. -/
theorem OwnsFrom.sent {descs : Nat → Desc} {dirty : UInt32} {g n : Nat}
    (h : OwnsFrom descs dirty g n)
    (hg : g < n) (hn : n ≤ 1024) {desc : Desc} (hfree : ¬ desc.Owned) :
    OwnsFrom (Function.update descs ((slot dirty + g) % 1024) desc) dirty (g + 1) n := by
  intro e he
  by_cases heq : e = (slot dirty + g) % 1024
  · rw [heq, Function.update_self, offset_slot_add dirty (by omega)]
    exact iff_of_false hfree (by omega)
  · have hne := mt (eq_add_iff_offset (slot_lt dirty) he (show g < 1024 by omega)).2 heq
    rw [Function.update_of_ne heq, h e he]
    omega

/-- The first slot is released. -/
theorem OwnsFrom.pop {pvt : Pvt β} {dirty : UInt32} {g n : Nat}
    (h : OwnsFrom pvt.txDesc dirty (g + 1) (n + 1)) (hn : n < 1023) :
    OwnsFrom (releaseSlot pvt (slot dirty)).txDesc (dirty + 1) g n := by
  intro e he
  have hsucc := offset_succ (slot_lt dirty) he
  rw [← slot_succ] at hsucc
  rw [releaseSlot_txDesc]
  by_cases heq : e = slot dirty
  · rw [if_pos heq] at hsucc ⊢
    exact iff_of_false (by decide) (by omega)
  · rw [if_neg heq] at hsucc ⊢
    rw [h e he]
    omega

/-- **The loop** of `rtl8101_tx_interrupt` releases exactly the packets that were sent. -/
theorem txLoop_gone {pvt : Pvt β} {dirty : UInt32} {gone waiting : List β}
    (h : Core pvt dirty (gone ++ waiting)) (hlt : gone.length + waiting.length < 1024)
    (howns : OwnsFrom pvt.txDesc dirty gone.length (gone.length + waiting.length)) :
    (txLoop (gone.length + waiting.length) dirty pvt).1 = dirty + .ofNat gone.length ∧
      Core (txLoop (gone.length + waiting.length) dirty pvt).2 (dirty + .ofNat gone.length)
        waiting ∧
      OwnsFrom (txLoop (gone.length + waiting.length) dirty pvt).2.txDesc
        (dirty + .ofNat gone.length) 0 waiting.length := by
  induction gone generalizing pvt dirty with
  | nil =>
    have hstop : txLoop waiting.length dirty pvt = (dirty, pvt) := by
      cases waiting with
      | nil => rfl
      | cons x waiting =>
        have howned : (pvt.txDesc (slot dirty)).Owned :=
          (howns _ (slot_lt dirty)).2 (by rw [offset_self]; simp)
        rw [List.length_cons, txLoop]
        simp only [howned, ↓reduceIte]
    simp only [List.length_nil, Nat.zero_add] at howns ⊢
    rw [hstop]
    refine ⟨by simp, ?_, ?_⟩
    · simpa using h
    · simpa using howns
  | cons x gone ih =>
    simp only [List.length_cons] at hlt howns ⊢
    have hfree : ¬ (pvt.txDesc (slot dirty)).Owned := by
      rw [howns _ (slot_lt dirty), offset_self]
      omega
    rw [List.cons_append] at h
    have hlast := h.last (slot dirty) (slot_lt dirty) (by rw [h.head]; simp)
    have hlen : (gone ++ waiting).length < 1024 := by
      rw [List.length_append]
      omega
    have hpop : OwnsFrom (releaseSlot pvt (slot dirty)).txDesc (dirty + 1) gone.length
        (gone.length + waiting.length) := by
      apply OwnsFrom.pop
      · rw [Nat.add_right_comm]
        exact howns
      · omega
    obtain ⟨hdirty, hcore, howns'⟩ := ih (h.release hlen) (by omega) hpop
    rw [add_ofNat_succ] at hdirty hcore howns'
    have hturn : txLoop (gone.length + 1 + waiting.length) dirty pvt =
        txLoop (gone.length + waiting.length) (dirty + 1) (releaseSlot pvt (slot dirty)) := by
      rw [Nat.add_right_comm, txLoop]
      simp only [hfree, hlast, ↓reduceIte, ne_eq, not_false_eq_true]
      rfl
    rw [hturn]
    exact ⟨hdirty, hcore, howns'⟩

/-! ## Handlers -/

/-- What the handler leaves of the ring is what its loop leaves. -/
theorem txInterrupt_fields (maxSkbFrags : Nat) (pvt : Pvt β) :
    let r := txLoop (pvt.curTx - pvt.dirtyTx).toNat pvt.dirtyTx pvt
    (txInterrupt maxSkbFrags pvt).txDesc = r.2.txDesc ∧
      (txInterrupt maxSkbFrags pvt).dirtyTx = r.1 ∧
      (txInterrupt maxSkbFrags pvt).released = r.2.released ∧
      (txInterrupt maxSkbFrags pvt).accepted = pvt.accepted ∧
      (txInterrupt maxSkbFrags pvt).carrier = pvt.carrier := by
  obtain ⟨txDesc, txSkb, released, honly⟩ :=
    txLoop_txOnly (pvt.curTx - pvt.dirtyTx).toNat pvt.dirtyTx pvt
  simp only [txInterrupt]
  generalize txLoop (pvt.curTx - pvt.dirtyTx).toNat pvt.dirtyTx pvt = r at honly
  obtain ⟨dirty, pvt'⟩ := r
  simp only at honly
  subst honly
  split
  · split <;> exact ⟨rfl, rfl, rfl, rfl, rfl⟩
  · next hsame => exact ⟨rfl, not_not.1 hsame, rfl, rfl, rfl⟩

/-- A packet that is accepted, and what else changes. -/
theorem startXmit_fields {maxSkbFrags : Nat} {packet : Packet β} {pvt : Pvt β}
    (hok : (startXmit maxSkbFrags packet pvt).1 = .ok) :
    (startXmit maxSkbFrags packet pvt).2.txDesc =
        Function.update pvt.txDesc (slot pvt.curTx) (txDesc packet (slot pvt.curTx)) ∧
      (startXmit maxSkbFrags packet pvt).2.dirtyTx = pvt.dirtyTx ∧
      (startXmit maxSkbFrags packet pvt).2.accepted = pvt.accepted ++ [packet.skb] ∧
      (startXmit maxSkbFrags packet pvt).2.carrier = pvt.carrier := by
  unfold startXmit errStop at hok ⊢
  simp only at hok ⊢
  split
  · next hfull => simp [hfull] at hok
  · next hfull =>
    split
    · next howned => simp [hfull, howned] at hok
    · split <;> exact ⟨rfl, rfl, rfl, rfl⟩

theorem txDesc_owned (packet : Packet β) (entry : Nat) : (txDesc packet entry).Owned := by
  unfold Desc.Owned txDesc
  rw [or_and_ne_zero_iff, or_and_ne_zero_iff]
  exact .inl (.inl (by decide))

theorem Marks.transmitted {pvt : Pvt β} (h : Marks pvt) (entry : Nat) :
    Marks (transmitted entry pvt) := by
  have hfree : ¬ ({ pvt.txDesc entry with
      opts1 := (pvt.txDesc entry).opts1 &&& ~~~descOwn } : Desc).Owned := by
    simp [Desc.Owned, UInt32.and_assoc]
  exact h.handsNone (.update hfree rfl rfl rfl)

theorem filterMap_range_getElem (xs : List β) :
    (List.range xs.length).filterMap (fun k => xs[k]?) = xs := by
  induction xs with
  | nil => rfl
  | cons x xs ih =>
    rw [List.length_cons, List.range_succ_eq_map]
    simp only [List.filterMap_cons, List.getElem?_cons_zero, List.filterMap_map, Function.comp_def,
      List.getElem?_cons_succ, ih]

/-! ## The invariant -/

/-- The ring holds `gone`, which were sent, and then `waiting`, which the NIC owns. -/
structure TxOrder (maxSkbFrags : Nat) (s : Nic β) (gone waiting : List β) : Prop where
  inv : TxInv maxSkbFrags s.pvt (gone ++ waiting)
  owns : OwnsFrom s.pvt.txDesc s.pvt.dirtyTx gone.length (gone.length + waiting.length)
  marks : Marks s.pvt
  next : s.enabled = true → s.txNext = (slot s.pvt.dirtyTx + gone.length) % 1024
  off : s.pvt.carrier = false → s.pvt.dirtyTx = 0
  sublist : (s.wire ++ waiting).Sublist s.pvt.accepted
  perm : s.pvt.accepted.Perm (s.wire ++ s.dropped ++ waiting)
  suffix : gone <:+ s.wire

section

variable {maxSkbFrags : Nat} {s : Nic β} {gone waiting : List β}

namespace TxOrder

theorem length_lt (h : TxOrder maxSkbFrags s gone waiting) (hpos : 0 < maxSkbFrags) :
    gone.length + waiting.length < 1024 := by
  have hroom := h.inv.room
  rw [List.length_append] at hroom
  omega

/-- What the receive side does not touch. -/
theorem rxOnly (h : TxOrder maxSkbFrags s gone waiting) {pvt' : Pvt β} (honly : RxOnly s.pvt pvt')
    (hmarks : Marks pvt') {frames : List (Option β × Int)} {rxNext : Nat} :
    TxOrder maxSkbFrags { s with pvt := pvt', frames, rxNext } gone waiting := by
  have hinv := h.inv.rxOnly honly
  obtain ⟨_, _, _, _, _, rfl⟩ := honly
  exact ⟨hinv, h.owns, hmarks, h.next, h.off, h.sublist, h.perm, h.suffix⟩

theorem startXmit (h : TxOrder maxSkbFrags s gone waiting) (hpos : 0 < maxSkbFrags)
    {packet : Packet β} (hallowed : TxAllowed s.pvt (.startXmit packet)) :
    TxOrder maxSkbFrags { s with pvt := (Rtl8101.startXmit maxSkbFrags packet s.pvt).2 } gone
      (waiting ++ [packet.skb]) := by
  obtain ⟨hstopped, hcarrier, hnone, hlen, hshort⟩ := hallowed
  have hlen' : packet.len ≠ 0 := by
    intro hzero
    rw [hzero] at hlen
    exact absurd hlen (by decide)
  obtain ⟨hok, hinv⟩ := h.inv.startXmit hpos hstopped hcarrier hnone hlen'
  obtain ⟨hdesc, hdirty, haccepted, hcar⟩ := startXmit_fields hok
  have hslot : slot s.pvt.curTx = (slot s.pvt.dirtyTx + (gone.length + waiting.length)) % 1024 := by
    rw [h.inv.cur_eq, slot_add, List.length_append]
  have howns : OwnsFrom (Rtl8101.startXmit maxSkbFrags packet s.pvt).2.txDesc s.pvt.dirtyTx
      gone.length (gone.length + waiting.length + 1) := by
    rw [hdesc, hslot]
    exact h.owns.push (Nat.le_add_right _ _) (h.length_lt hpos) (txDesc_owned packet _)
  refine ⟨?_, ?_, h.marks.startXmit maxSkbFrags hshort, ?_, ?_, ?_, ?_, h.suffix⟩
  · rw [← List.append_assoc]
    exact hinv
  · rw [List.length_append, List.length_singleton]
    simp only [hdirty]
    exact howns
  · simp only [hdirty]
    exact h.next
  · simp only [hdirty, hcar]
    exact h.off
  · simp only [haccepted]
    rw [← List.append_assoc]
    exact h.sublist.append_right _
  · simp only [haccepted]
    rw [← List.append_assoc]
    exact h.perm.append_right _

/-- The NIC sends the first packet that it owns. -/
theorem send (h : TxOrder maxSkbFrags s gone waiting) (hpos : 0 < maxSkbFrags) :
    ∃ gone' waiting', TxOrder maxSkbFrags s.send gone' waiting' := by
  have hlt := h.length_lt hpos
  unfold Nic.send
  split
  · next hon =>
    obtain ⟨henabled, howned⟩ := hon
    have hnext := h.next henabled
    have hnextlt : s.txNext < 1024 := by
      rw [hnext]
      exact Nat.mod_lt _ (by omega)
    have hoff : offset 1024 (slot s.pvt.dirtyTx) s.txNext = gone.length := by
      rw [hnext]
      exact offset_slot_add _ (by omega)
    have hmem := (h.owns _ hnextlt).1 howned
    rw [hoff] at hmem
    cases waiting with
    | nil =>
      rw [List.length_nil] at hmem
      omega
    | cons x waiting =>
      rw [List.length_cons] at hlt
      have hskb : (s.pvt.txSkb s.txNext).skb = some x := by
        have hget := h.inv.core.holds.get (slot_lt s.pvt.dirtyTx) (show gone.length < 1024 by omega)
        rw [← hnext] at hget
        rw [hget]
        simp
      have hgo : (s.pvt.txDesc s.txNext).next s.txNext = (s.txNext + 1) % 1024 :=
        h.marks.tx.goesAround _ hnextlt howned
      have hfree : ¬ ({ s.pvt.txDesc s.txNext with
          opts1 := (s.pvt.txDesc s.txNext).opts1 &&& ~~~descOwn } : Desc).Owned := by
        simp [Desc.Owned, UInt32.and_assoc]
      have howns := h.owns.sent (by rw [List.length_cons]; omega)
        (by rw [List.length_cons]; omega) hfree
      rw [← hnext] at howns
      refine ⟨gone ++ [x], waiting, ?_, ?_, h.marks.transmitted s.txNext, ?_, h.off, ?_, ?_, ?_⟩
      · rw [List.append_assoc]
        exact h.inv.transmitted s.txNext
      · rw [List.length_append, List.length_singleton, Nat.add_right_comm]
        exact howns
      · intro _
        simp only [hgo]
        rw [hnext, List.length_append, List.length_singleton]
        simp only [Rtl8101.transmitted]
        omega
      · simp only [hskb, Option.toList_some, List.append_assoc]
        exact h.sublist
      · simp only [hskb, Option.toList_some]
        refine h.perm.trans ?_
        simp only [List.append_assoc, List.singleton_append]
        exact (List.perm_middle).append_left s.wire
      · simp only [hskb, Option.toList_some]
        obtain ⟨before, hbefore⟩ := h.suffix
        exact ⟨before, by rw [← List.append_assoc, hbefore]⟩
  · exact ⟨gone, waiting, h⟩

/-- `rtl8101_tx_interrupt` releases what was sent. -/
theorem txInterrupt (h : TxOrder maxSkbFrags s gone waiting) (hpos : 0 < maxSkbFrags) :
    TxOrder maxSkbFrags { s with pvt := Rtl8101.txInterrupt maxSkbFrags s.pvt } [] waiting := by
  have hlt := h.length_lt hpos
  have hleft : (s.pvt.curTx - s.pvt.dirtyTx).toNat = gone.length + waiting.length := by
    rw [h.inv.cur_eq, List.length_append]
    exact toNat_add_sub (by omega)
  obtain ⟨hdirty, hcore, howns⟩ := txLoop_gone h.inv.core hlt h.owns
  obtain ⟨fdesc, fdirty, freleased, faccepted, fcarrier⟩ := txInterrupt_fields maxSkbFrags s.pvt
  rw [hleft] at fdesc fdirty freleased
  rw [hdirty] at fdirty
  obtain ⟨rest, hinv⟩ := h.inv.txInterrupt hpos
  have hrest : rest = waiting := by
    have haccepted := hinv.core.accepted_eq
    obtain ⟨_, _, _, honly⟩ := txLoop_txOnly (gone.length + waiting.length) s.pvt.dirtyTx s.pvt
    have haccepted' := hcore.accepted_eq
    have hkept : (txLoop (gone.length + waiting.length) s.pvt.dirtyTx s.pvt).2.accepted =
        s.pvt.accepted := by
      rw [honly]
    rw [hkept] at haccepted'
    rw [faccepted, freleased, haccepted'] at haccepted
    exact (List.append_cancel_left haccepted).symm
  subst hrest
  have hcarrier : s.pvt.carrier = false → gone = [] := fun hoff =>
    (List.append_eq_nil_iff.1 (h.inv.off hoff)).1
  refine ⟨hinv, ?_, h.marks.handsNone (txInterrupt_handsNone maxSkbFrags s.pvt), ?_, ?_, ?_, ?_,
    List.nil_suffix⟩
  · simp only [fdesc, fdirty, List.length_nil, Nat.zero_add]
    exact howns
  · intro henabled
    simp only [fdirty, List.length_nil, Nat.add_zero]
    rw [slot_add, Nat.mod_mod, h.next henabled]
  · simp only [fcarrier, fdirty]
    intro hoff
    rw [hcarrier hoff, h.off hoff]
    rfl
  · simp only [faccepted]
    exact h.sublist
  · simp only [faccepted]
    exact h.perm

/-- What the NIC still owns is what waits. -/
theorem unsent_eq (h : TxOrder maxSkbFrags s gone waiting) (hpos : 0 < maxSkbFrags) :
    unsent s.pvt = waiting := by
  have hlt := h.length_lt hpos
  have hleft : (s.pvt.curTx - s.pvt.dirtyTx).toNat = gone.length + waiting.length := by
    rw [h.inv.cur_eq, List.length_append]
    exact toNat_add_sub (by omega)
  have hslot (k : Nat) (hk : k < 1024) :
      (s.pvt.txSkb (slot (s.pvt.dirtyTx + .ofNat k))).skb = (gone ++ waiting)[k]? ∧
        ((s.pvt.txDesc (slot (s.pvt.dirtyTx + .ofNat k))).Owned ↔
          gone.length ≤ k ∧ k < gone.length + waiting.length) := by
    have hmem : (slot s.pvt.dirtyTx + k) % 1024 < 1024 := Nat.mod_lt _ (by omega)
    rw [slot_add, h.inv.core.holds.get (slot_lt _) hk, h.owns _ hmem, offset_slot_add _ hk]
    exact ⟨rfl, Iff.rfl⟩
  unfold unsent
  rw [hleft, List.range_add, List.filterMap_append, List.filterMap_map]
  have hgone : (List.range gone.length).filterMap (fun k =>
      if (s.pvt.txDesc (slot (s.pvt.dirtyTx + .ofNat k))).Owned then
        (s.pvt.txSkb (slot (s.pvt.dirtyTx + .ofNat k))).skb else none) = [] := by
    rw [List.filterMap_eq_nil_iff]
    intro k hk
    rw [List.mem_range] at hk
    rw [if_neg]
    rw [(hslot k (by omega)).2]
    omega
  have hwaiting : (List.range waiting.length).filterMap ((fun k =>
      if (s.pvt.txDesc (slot (s.pvt.dirtyTx + .ofNat k))).Owned then
        (s.pvt.txSkb (slot (s.pvt.dirtyTx + .ofNat k))).skb else none) ∘ (gone.length + ·)) =
      (List.range waiting.length).filterMap fun k => waiting[k]? := by
    apply List.filterMap_congr
    intro k hk
    rw [List.mem_range] at hk
    obtain ⟨hskb, howns⟩ := hslot (gone.length + k) (by omega)
    rw [Function.comp_apply, if_pos (howns.2 (by omega)), hskb,
      List.getElem?_append_right (by omega), Nat.add_sub_cancel_left]
  rw [hgone, hwaiting, List.nil_append]
  exact filterMap_range_getElem waiting

/-- The ring is cleared; what waited in it is dropped. -/
theorem clear (h : TxOrder maxSkbFrags s gone waiting) {pvt' : Pvt β}
    (hinv : TxInv maxSkbFrags pvt' []) (hmarks : Marks pvt') (hdirty : pvt'.dirtyTx = 0)
    (haccepted : pvt'.accepted = s.pvt.accepted) {enabled : Bool} {txNext rxNext : Nat}
    (hnext : enabled = true → txNext = 0) {frames : List (Option β × Int)} :
    TxOrder maxSkbFrags ⟨pvt', enabled, txNext, rxNext, s.wire, frames, s.dropped ++ waiting⟩
      [] [] := by
  have hfree : ∀ e < 1024, ¬ (pvt'.txDesc e).Owned := fun e he =>
    hinv.core.not_owned e he (Ring.holds_nil_iff.1 hinv.core.holds e he)
  refine ⟨hinv, OwnsFrom.nil hfree _, hmarks, fun henabled => ?_, fun _ => hdirty, ?_, ?_,
    List.nil_suffix⟩
  · simp only [hdirty]
    exact hnext henabled
  · simp only [haccepted, List.append_nil]
    exact (List.sublist_append_left s.wire waiting).trans h.sublist
  · simp only [haccepted, List.append_nil]
    rw [← List.append_assoc]
    exact h.perm

end TxOrder

end

/-! ## Runs -/

/-- The stack hands packets over as it may. -/
def NicAllowed (s : Nic β) : NicAct β → Prop
  | .startXmit packet => TxAllowed s.pvt (.startXmit packet)
  | _ => True

/-- Every clearing of the transmit ring clears all of it, and the reset task, which
`rtl8101_tx_timeout` schedules when it has stopped the NIC, finds it stopped or starts it again. -/
def TxRestart (s : Nic β) : NicAct β → Prop
  | .linkTimer linkStatusOn => TxCleared s.pvt (.checkLinkStatus linkStatusOn)
  | .resetTask allocs => ClearsAll s.pvt ∧ (s.enabled = false ∨
      (rxInterrupt 0xFFFFFFFF allocs s.pvt).dirtyRx = (rxInterrupt 0xFFFFFFFF allocs s.pvt).curRx)
  | _ => True

section

variable {maxSkbFrags : Nat} {s : Nic β} {gone waiting : List β}

theorem txClear_kept (pvt : Pvt β) : (txClear pvt).accepted = pvt.accepted := by
  obtain ⟨_, _, _, honly⟩ := txClearLoop_txOnly 1024 pvt.dirtyTx pvt
  unfold txClear
  rw [honly]

/-- `rtl8101_reset_task`, as far as the transmit ring is concerned. -/
theorem resetTask_fields (allocs : Allocs β) (pvt : Pvt β) :
    (resetTask allocs pvt).curTx = 0 ∧ (resetTask allocs pvt).dirtyTx = 0 ∧
      (resetTask allocs pvt).accepted = pvt.accepted ∧
      (Marks pvt → Marks (resetTask allocs pvt)) := by
  have haccepted : (txClear (rxInterrupt 0xFFFFFFFF allocs pvt)).accepted = pvt.accepted := by
    obtain ⟨_, _, _, _, _, honly⟩ := rxInterrupt_rxOnly 0xFFFFFFFF allocs pvt
    rw [txClear_kept, honly]
  have hmarks (h : Marks pvt) : Marks (txClear (rxInterrupt 0xFFFFFFFF allocs pvt)) :=
    (h.keepsEnds (rxInterrupt_keepsEnds 0xFFFFFFFF allocs pvt h.size)).handsNone
      (txClear_handsNone _)
  have hcur : (txClear (rxInterrupt 0xFFFFFFFF allocs pvt)).curTx = 0 := rfl
  have hdirty : (txClear (rxInterrupt 0xFFFFFFFF allocs pvt)).dirtyTx = 0 := rfl
  simp only [resetTask]
  generalize txClear (rxInterrupt 0xFFFFFFFF allocs pvt) = after at haccepted hmarks hcur hdirty
  split
  · exact ⟨rfl, rfl, haccepted, fun h => ⟨(hmarks h).rx, (hmarks h).tx, (hmarks h).size⟩⟩
  · exact ⟨hcur, hdirty, haccepted, hmarks⟩

/-- The link goes down. -/
theorem checkLinkStatus_down {pvt : Pvt β} (hcarrier : pvt.carrier = true) :
    (checkLinkStatus false pvt).curTx = 0 ∧ (checkLinkStatus false pvt).dirtyTx = 0 ∧
      (checkLinkStatus false pvt).accepted = pvt.accepted ∧
      (Marks pvt → Marks (checkLinkStatus false pvt)) := by
  have haccepted := txClear_kept { pvt with carrier := false, stopped := true }
  have hmarks (h : Marks pvt) : Marks (txClear { pvt with carrier := false, stopped := true }) := by
    have hstopped : Marks { pvt with carrier := false, stopped := true } := ⟨h.rx, h.tx, h.size⟩
    exact hstopped.handsNone (txClear_handsNone _)
  have hdown : checkLinkStatus false pvt =
      initRingIndexes (txClear { pvt with carrier := false, stopped := true }) := by
    simp [checkLinkStatus, hcarrier]
  rw [hdown]
  generalize txClear { pvt with carrier := false, stopped := true } = after at haccepted hmarks
  exact ⟨rfl, rfl, haccepted, fun h => ⟨(hmarks h).rx, (hmarks h).tx, (hmarks h).size⟩⟩

/-- The NIC receives. -/
theorem TxOrder.receive (h : TxOrder maxSkbFrags s gone waiting) (status opts2 : UInt32) :
    TxOrder maxSkbFrags (s.receive status opts2) gone waiting := by
  unfold Nic.receive
  split
  · refine h.rxOnly ?_ (h.marks.release s.rxNext status opts2 .rx)
    unfold release
    simp only
    split <;> exact ⟨_, _, _, _, _, rfl⟩
  · exact h

/-- `rtl8101_poll` releases what was sent. -/
theorem TxOrder.poll (h : TxOrder maxSkbFrags s gone waiting) (hpos : 0 < maxSkbFrags)
    (budget : UInt32) (allocs : Allocs β) :
    TxOrder maxSkbFrags { s with pvt := rtl8101Poll maxSkbFrags budget allocs s.pvt } []
      waiting := by
  have hrx := rxInterrupt_rxOnly budget allocs s.pvt
  have hmarks := h.marks.keepsEnds (rxInterrupt_keepsEnds budget allocs s.pvt h.marks.size)
  have horder : TxOrder maxSkbFrags { s with pvt := rxInterrupt budget allocs s.pvt } gone
      waiting := h.rxOnly hrx hmarks
  exact horder.txInterrupt hpos

/-- The link comes up; nothing waits while it is down. -/
theorem TxOrder.linkUp (h : TxOrder maxSkbFrags s gone waiting) {pending : List β}
    (hinv : TxInv maxSkbFrags (checkLinkStatus true s.pvt) pending) (hoff : s.pvt.carrier = false) :
    TxOrder maxSkbFrags { s with pvt := checkLinkStatus true s.pvt }.hwStart [] [] := by
  obtain ⟨rfl, rfl⟩ := List.append_eq_nil_iff.1 (h.inv.off hoff)
  have hup : checkLinkStatus true s.pvt = { hwInit s.pvt with carrier := true } := by
    simp [checkLinkStatus, hoff]
  have hnil : pending = [] := by
    apply hinv.eq_nil
    rw [hup]
    exact h.inv.cur_eq.trans (UInt32.add_zero _)
  subst hnil
  have hclear : TxOrder maxSkbFrags ⟨checkLinkStatus true s.pvt, true, 0, 0, s.wire, s.frames,
      s.dropped ++ []⟩ [] [] := h.clear hinv
    (by rw [hup]; exact ⟨h.marks.rx, h.marks.tx, h.marks.size⟩)
    (by rw [hup]; exact h.off hoff)
    (by rw [hup]; rfl) fun _ => rfl
  rw [List.append_nil] at hclear
  exact hclear

/-- The link goes down, and what waits is dropped. -/
theorem TxOrder.linkDown (h : TxOrder maxSkbFrags s gone waiting) {pending : List β}
    (hinv : TxInv maxSkbFrags (checkLinkStatus false s.pvt) pending) (hon : s.pvt.carrier = true) :
    TxOrder maxSkbFrags
      { ({ s with pvt := checkLinkStatus false s.pvt } : Nic β).hwReset with
        dropped := s.dropped ++ waiting } [] [] := by
  obtain ⟨hcur, hdirty, haccepted, hmarks⟩ := checkLinkStatus_down hon
  have hnil : pending = [] := by
    apply hinv.eq_nil
    rw [hcur, hdirty]
  subst hnil
  exact h.clear hinv (hmarks h.marks) hdirty haccepted fun hf =>
    absurd (show false = true from hf) (by decide)

/-- `rtl8101_check_link_status` of the link timer. -/
theorem TxOrder.linkTimer (h : TxOrder maxSkbFrags s gone waiting) (hpos : 0 < maxSkbFrags)
    (linkStatusOn : Bool) {pending : List β}
    (hinv : TxInv maxSkbFrags (checkLinkStatus linkStatusOn s.pvt) pending) :
    ∃ gone' waiting', TxOrder maxSkbFrags (linkTimer linkStatusOn s) gone' waiting' := by
  unfold Rtl8101.linkTimer
  simp only
  split
  · next hsame =>
    have hkept : checkLinkStatus linkStatusOn s.pvt = s.pvt := by
      simp [checkLinkStatus, hsame]
    rw [hkept]
    exact ⟨gone, waiting, h⟩
  · next hchange =>
    cases linkStatusOn with
    | true => exact ⟨[], [], h.linkUp hinv (by simpa using hchange)⟩
    | false =>
      rw [h.unsent_eq hpos]
      exact ⟨[], [], h.linkDown hinv (by simpa using hchange)⟩

/-- `rtl8101_reset_task` drops what waits; it must find the NIC stopped, or start it again. -/
theorem TxOrder.resetTask (h : TxOrder maxSkbFrags s gone waiting) (hpos : 0 < maxSkbFrags)
    {allocs : Allocs β} {pending : List β}
    (hinv : TxInv maxSkbFrags (resetTask allocs s.pvt) pending)
    (hstart : s.enabled = false ∨ (rxInterrupt 0xFFFFFFFF allocs s.pvt).dirtyRx =
      (rxInterrupt 0xFFFFFFFF allocs s.pvt).curRx) :
    TxOrder maxSkbFrags (nicResetTask allocs s) [] [] := by
  obtain ⟨hcur, hdirty, haccepted, hmarks⟩ := resetTask_fields allocs s.pvt
  have hnil : pending = [] := by
    apply hinv.eq_nil
    rw [hcur, hdirty]
  subst hnil
  have hunsent : unsent (rxInterrupt 0xFFFFFFFF allocs s.pvt) = waiting := by
    rw [← h.unsent_eq hpos]
    obtain ⟨_, _, _, _, _, honly⟩ := rxInterrupt_rxOnly 0xFFFFFFFF allocs s.pvt
    rw [honly]
    rfl
  have hmarks' := hmarks h.marks
  simp only [nicResetTask, hunsent]
  generalize Rtl8101.resetTask allocs s.pvt = after at hinv hdirty haccepted hmarks'
  split
  · exact h.clear hinv hmarks' hdirty haccepted fun _ => rfl
  · next hshort =>
    have hstopped : s.enabled = false := hstart.resolve_right hshort
    exact h.clear hinv hmarks' hdirty haccepted fun hf => by
      rw [hstopped] at hf
      cases hf

/-- One step keeps the order. -/
theorem TxOrder.step (h : TxOrder maxSkbFrags s gone waiting) (hpos : 0 < maxSkbFrags)
    (hlt : maxSkbFrags < 1024) {act : NicAct β} (hallowed : NicAllowed s act)
    (hrestart : TxRestart s act) :
    ∃ gone' waiting', TxOrder maxSkbFrags (nicStep maxSkbFrags s act) gone' waiting' := by
  cases act with
  | startXmit packet => exact ⟨gone, _, h.startXmit hpos hallowed⟩
  | send => exact h.send hpos
  | receive status opts2 => exact ⟨gone, waiting, h.receive status opts2⟩
  | poll budget allocs => exact ⟨[], waiting, h.poll hpos budget allocs⟩
  | linkTimer linkStatusOn =>
    obtain ⟨pending, hinv⟩ := h.inv.step hpos hlt
      (show TxAllowed s.pvt (.checkLinkStatus linkStatusOn) from trivial) hrestart
    exact h.linkTimer hpos linkStatusOn hinv
  | txTimeout =>
    have hnext (hf : (nicStep maxSkbFrags s .txTimeout).enabled = true) :
        (nicStep maxSkbFrags s .txTimeout).txNext = (slot s.pvt.dirtyTx + gone.length) % 1024 :=
      absurd hf (by simp [nicStep, Nic.hwReset])
    exact ⟨gone, waiting, h.inv, h.owns, h.marks, hnext, h.off, h.sublist, h.perm, h.suffix⟩
  | resetTask allocs =>
    obtain ⟨hclears, hstart⟩ := hrestart
    obtain ⟨pending, hinv⟩ := h.inv.step hpos hlt
      (show TxAllowed s.pvt (.resetTask allocs) from trivial) hclears
    exact ⟨[], [], h.resetTask hpos hinv hstart⟩

theorem opened_txOrder {pvt : Pvt β} {allocs : Allocs β} {irq : Int}
    (hopen : rtl8101Open allocs irq = .ok pvt) (hlt : maxSkbFrags < 1024) :
    TxOrder maxSkbFrags (opened pvt) [] [] := by
  obtain ⟨hinv, hcur, hdirty, hcarrier⟩ := rtl8101Open_txInv hopen hlt
  have haccepted : pvt.accepted = [] ∧ Marks pvt := by
    unfold rtl8101Open at hopen
    split at hopen
    · cases hopen
    · next pvt' hinit =>
      split at hopen
      · cases hopen
      · cases hopen
        have hmarks := initBuffers_marks hinit
        refine ⟨?_, hmarks.rx, hmarks.tx, hmarks.size⟩
        have honly := (rxFill_rxSlots allocs 0 1024 (cleared : Pvt β))
        unfold initBuffers at hinit
        generalize rxFill allocs 0 1024 cleared = r at hinit honly
        obtain ⟨_, _, _, honly⟩ := honly
        simp only at hinit
        split at hinit
        · cases hinit
        · cases hinit
          simp only [hwInit, honly]
          rfl
  obtain ⟨hnone, hmarks⟩ := haccepted
  have hfree : ∀ e < 1024, ¬ (pvt.txDesc e).Owned := fun e he =>
    hinv.core.not_owned e he (Ring.holds_nil_iff.1 hinv.core.holds e he)
  refine ⟨hinv, OwnsFrom.nil hfree _, hmarks, fun _ => ?_, fun _ => hdirty, ?_, ?_, List.nil_suffix⟩
  · simp only [opened, hdirty]
    rfl
  · simp only [opened, hnone]
    exact List.Sublist.refl []
  · simp only [opened, hnone]
    exact List.Perm.refl []

/-- **The wire.** In every state of every run the packets on the wire, and behind them those in the
ring that the NIC still owns, are accepted packets in their order, and no packet is among them
twice. Only what the NIC had not sent when the ring was cleared is missing. A buffer that is not
released yet waits or was sent. -/
theorem wire_in_order {pvt : Pvt β} {allocs : Allocs β} {irq : Int}
    (hopen : rtl8101Open allocs irq = .ok pvt) (hpos : 0 < maxSkbFrags) (hlt : maxSkbFrags < 1024)
    {acts : List (NicAct β)} (hallowed : Along (nicStep maxSkbFrags) NicAllowed (opened pvt) acts)
    (hrestart : Along (nicStep maxSkbFrags) TxRestart (opened pvt) acts) :
    let s := run (nicStep maxSkbFrags) (opened pvt) acts
    ∃ gone, s.pvt.accepted = s.pvt.released ++ (gone ++ unsent s.pvt) ∧ gone <:+ s.wire ∧
      (s.wire ++ unsent s.pvt).Sublist s.pvt.accepted ∧
      s.pvt.accepted.Perm (s.wire ++ s.dropped ++ unsent s.pvt) ∧
      (s.dropped = [] → s.pvt.accepted = s.wire ++ unsent s.pvt) := by
  intro s
  obtain ⟨gone, waiting, h⟩ := Along.invariant
    (I := fun s => ∃ gone waiting, TxOrder maxSkbFrags s gone waiting)
    (fun s act ⟨_, _, h⟩ ha => h.step hpos hlt ha.1 ha.2)
    ⟨[], [], opened_txOrder hopen hlt⟩ (hallowed.and hrestart)
  rw [h.unsent_eq hpos]
  refine ⟨gone, h.inv.core.accepted_eq, h.suffix, h.sublist, h.perm, fun hnone => ?_⟩
  have hlen := h.perm.length_eq
  rw [hnone, List.append_nil] at hlen
  exact (h.sublist.eq_of_length hlen.symm).symm

end

theorem oneEachWay_allowed {pvt : Pvt Unit} (hopen : rtl8101Open plenty 0 = .ok pvt) :
    Along (nicStep 18) NicAllowed (opened pvt) oneEachWay := by
  obtain ⟨hready, -, -⟩ := Ready.linkUp hopen (show 18 < 1024 by decide)
  have hpvt : (nicStep 18 (opened pvt) (.linkTimer true)).pvt =
      step 18 pvt (.checkLinkStatus true) := linkTimer_pvt true (opened pvt)
  refine ⟨trivial, ?_, trivial, trivial, trivial, trivial⟩
  simp only [NicAllowed, TxAllowed, hpvt]
  exact ⟨hready.awake, hready.carrier, by decide⟩

theorem wire_in_order_one : ∃ pvt, rtl8101Open plenty 0 = .ok pvt ∧
    let s := run (nicStep 18) (opened pvt) oneEachWay
    ∃ gone, s.pvt.accepted = s.pvt.released ++ (gone ++ unsent s.pvt) ∧ gone <:+ s.wire ∧
      (s.wire ++ unsent s.pvt).Sublist s.pvt.accepted ∧
      s.pvt.accepted.Perm (s.wire ++ s.dropped ++ unsent s.pvt) ∧
      (s.dropped = [] → s.pvt.accepted = s.wire ++ unsent s.pvt) := by
  obtain ⟨pvt, hopen⟩ := plenty_opens
  refine ⟨pvt, hopen, wire_in_order hopen (by decide) (by decide) (oneEachWay_allowed hopen) ?_⟩
  exact ⟨fun _ hoff => absurd hoff (by decide), trivial, trivial, trivial, trivial, trivial⟩

end LinuxDrivers.Rtl8101
