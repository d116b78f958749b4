import LinuxDrivers.Ddk.Storage

/-!
# The packets at the end of the buffer

Every message of a transfer is given `MAX_PKT_SIZE` bytes of the caller's buffer, however many are
still wanted. As long as the packets are moved whole, the last one ends where the buffer does. After
a short packet the later ones are out of step, and one that starts in the last seven bytes reaches
over the end.
-/

namespace LinuxDrivers.Ddk

/-- The messages that `ddk_storage_write` makes, behind those before it. -/
def ddkStorageWriteOffers {σ : Type} (usb : Usb σ) (sectorOff : UInt64) (buffer : Mem)
    (sectors : UInt32) (bus : Bus σ) : List Offer :=
  (ddkStorageWrite usb sectorOff buffer sectors bus).2.2.offers

/-- The messages that `ddk_storage_read` makes, behind those before it. -/
def ddkStorageReadOffers {σ : Type} (usb : Usb σ) (sectorOff : UInt64) (buffer : Mem)
    (sectors : UInt32) (bus : Bus σ) : List Offer :=
  (ddkStorageRead usb sectorOff buffer sectors bus).2.2.offers

/-! ## Replies -/

/-- What the USB layer answers in one transfer: whether the device is there, the result of
`_set_off`, and what each packet brings. -/
structure Script where
  present : Bool
  setOff : Except Errno Nat
  packets : Nat → Except Errno Packet

/-- The USB layer that answers so; its state is the number of packets so far. -/
def Script.usb (sc : Script) : Usb Nat where
  present j := (sc.present, j)
  controlOut _ _ j := (sc.setOff, j)
  controlIn _ j := ((0, 0), j)
  interruptOut _ j := ((sc.packets j).map fun p => ⟨p.bytes.length, Nat.lt_succ_of_le p.le_eight⟩,
    j + 1)
  interruptIn j := (sc.packets j, j + 1)

/-- How many bytes the first `j` packets bring, if none of them fails or is empty. -/
def Script.moved (sc : Script) : Nat → Option Nat
  | 0 => some 0
  | j + 1 =>
    match sc.moved j, sc.packets j with
    | some m, .ok p => if p.bytes.length = 0 then none else some (m + p.bytes.length)
    | _, _ => none

theorem Script.moved_none {sc : Script} {j i : Nat} (h : sc.moved j = none) (hle : j ≤ i) :
    sc.moved i = none := by
  induction hle with
  | refl => exact h
  | step _ ih => rw [Script.moved, ih]

theorem Script.moved_mono {sc : Script} {j i k m : Nat} (hk : sc.moved j = some k)
    (hle : j ≤ i) (hm : sc.moved i = some m) : k ≤ m := by
  induction hle generalizing m with
  | refl =>
    rw [hk, Option.some.injEq] at hm
    exact Nat.le_of_eq hm
  | step _ ih =>
    rw [Script.moved] at hm
    split at hm
    · next m' p hm' _ =>
      split at hm
      · cases hm
      · have hkm := ih hm'
        cases hm
        omega
    · cases hm

/-- One packet, in either direction. -/
theorem movePacket_script (sc : Script) (dir : Dir) (k : Nat) (buffer : Mem) (bus : Bus Nat) :
    ∃ buffer' bus', movePacket sc.usb dir k buffer bus =
        ((sc.packets bus.state).map fun p => p.bytes.length, buffer', bus') ∧
      bus'.state = bus.state + 1 ∧ bus'.offers = bus.offers ++ [⟨k, 8⟩] := by
  cases dir with
  | write =>
    unfold movePacket
    simp only [Script.usb, Bus.offer]
    cases sc.packets bus.state with
    | error e => exact ⟨_, _, rfl, rfl, rfl⟩
    | ok p => exact ⟨_, _, rfl, rfl, rfl⟩
  | read =>
    unfold movePacket
    simp only [Script.usb, Bus.offer]
    cases sc.packets bus.state with
    | error e => exact ⟨_, _, rfl, rfl, rfl⟩
    | ok p => exact ⟨_, _, rfl, rfl, rfl⟩

/-- `P` holds of all messages that start where the packets from number `j` on end, below `cnt`. -/
def Script.AllOffers (sc : Script) (cnt : Int) (P : Offer → Prop) (j : Nat) : Prop :=
  ∀ i m, j ≤ i → sc.moved i = some m → (m : Int) < cnt → P ⟨m, 8⟩

/-- Behind the end of the count there are no messages. -/
theorem Script.allOffers_of_ge {sc : Script} {cnt : Int} {P : Offer → Prop} {j k : Nat}
    (hk : sc.moved j = some k) (hle : cnt ≤ k) : sc.AllOffers cnt P j := by
  intro i m hji hm hlt
  have hkm := Script.moved_mono hk hji hm
  omega

/-- The message at `k`, and those behind the next packet. -/
theorem Script.allOffers_iff {sc : Script} {cnt : Int} {P : Offer → Prop} {j k : Nat}
    (hk : sc.moved j = some k) (hlt : (k : Int) < cnt) :
    sc.AllOffers cnt P j ↔ P ⟨k, 8⟩ ∧ sc.AllOffers cnt P (j + 1) := by
  constructor
  · intro hall
    exact ⟨hall j k (Nat.le_refl j) hk hlt, fun i m hji => hall i m (by omega)⟩
  · rintro ⟨hP, hrest⟩ i m hji hm hlt'
    rcases Nat.eq_or_lt_of_le hji with rfl | hji'
    · rw [hk, Option.some.injEq] at hm
      exact hm ▸ hP
    · exact hrest i m hji' hm hlt'

/-- A packet that fails or is empty is the last one. -/
theorem Script.allOffers_of_none {sc : Script} {cnt : Int} {P : Offer → Prop} {j : Nat}
    (h : sc.moved j = none) : sc.AllOffers cnt P j := by
  intro i m hji hm
  rw [Script.moved_none h hji] at hm
  cases hm

/-- **The messages of the loop** start where some number of packets ends, none of which fails or is
empty. -/
theorem packetLoop_offers (sc : Script) (dir : Dir) {cnt : Int} {P : Offer → Prop} {fuel k : Nat}
    (buffer : Mem) (bus : Bus Nat) (hk : sc.moved bus.state = some k) (hfuel : cnt ≤ k + fuel) :
    (∀ r ∈ (packetLoop sc.usb dir cnt fuel k buffer bus).2.2.offers, P r) ↔
      (∀ r ∈ bus.offers, P r) ∧ sc.AllOffers cnt P bus.state := by
  induction fuel generalizing k buffer bus with
  | zero =>
    have hend := Script.allOffers_of_ge (P := P) hk (show cnt ≤ k by omega)
    simp [packetLoop, hend]
  | succ fuel ih =>
    unfold packetLoop
    split
    · next hlt =>
      rw [Script.allOffers_iff hk hlt]
      obtain ⟨buffer', bus', hmove, hstate, hoffers⟩ := movePacket_script sc dir k buffer bus
      have hlog : (∀ r ∈ bus'.offers, P r) ↔ (∀ r ∈ bus.offers, P r) ∧ P ⟨k, 8⟩ := by
        rw [hoffers]
        simp only [List.forall_mem_append, List.forall_mem_singleton]
      rw [hmove]
      cases hp : sc.packets bus.state with
      | error e =>
        have hstop : sc.moved (bus.state + 1) = none := by rw [Script.moved, hk, hp]
        simp only [Except.map, hlog, Script.allOffers_of_none hstop, and_true]
      | ok p =>
        simp only [Except.map]
        split
        · next hzero =>
          have hstop : sc.moved (bus.state + 1) = none := by
            rw [Script.moved, hk, hp]
            exact if_pos hzero
          simp only [hlog, Script.allOffers_of_none hstop, and_true]
        · next hpos =>
          have hnext : sc.moved bus'.state = some (k + p.bytes.length) := by
            rw [hstate, Script.moved, hk, hp]
            exact if_neg hpos
          rw [ih buffer' bus' hnext (by omega), hlog, hstate, and_assoc]
    · have hend := Script.allOffers_of_ge (P := P) hk (show cnt ≤ k by omega)
      simp only [hend, and_true]

/-! ## The end of the buffer -/

/-- All messages stay inside a buffer of so many sectors. -/
def StaysInside (sectors : UInt32) (offers : List Offer) : Prop :=
  ∀ r ∈ offers, r.start + r.len ≤ 512 * sectors.toNat

instance (sectors : UInt32) (offers : List Offer) : Decidable (StaysInside sectors offers) :=
  inferInstanceAs (Decidable (∀ _ ∈ _, _))

/-- No number of packets ends within the last seven of `size` bytes. -/
def Script.EndsWhole (sc : Script) (size : Nat) : Prop :=
  ∀ j m, sc.moved j = some m → m + 8 ≤ size ∨ size ≤ m

/-- When the transfer is safe: no packet is asked for, the `int` count is not that of the buffer, or
no packet ends within its last seven bytes. -/
def Script.Whole (sc : Script) (sectors : UInt32) : Prop :=
  sc.present = false ∨ (∃ e, sc.setOff = .error e) ∨ 2 ^ 22 ≤ sectors.toNat ∨
    sc.EndsWhole (512 * sectors.toNat)

/-- The `int` count: from `2 ^ 22` sectors on it is below the number of bytes, or negative. -/
theorem cnt_cases (sectors : UInt32) :
    (sectors.toNat < 2 ^ 22 ∧ (sectors * 512).toInt32.toInt = 512 * sectors.toNat) ∨
      (2 ^ 22 ≤ sectors.toNat ∧ (sectors * 512).toInt32.toInt + 8 ≤ 512 * sectors.toNat) := by
  have hint : (sectors * 512).toInt32.toInt = (sectors * 512).toBitVec.toInt := rfl
  have hnat : (sectors * 512).toBitVec.toNat = sectors.toNat * 512 % 2 ^ 32 := UInt32.toNat_mul ..
  have hlt := sectors.toNat_lt
  rw [BitVec.toInt_eq_toNat_cond, hnat] at hint
  rw [hint]
  split <;> omega

theorem storageMove_staysInside_iff (sc : Script) (dir : Dir) (sectorOff : UInt64) (buffer : Mem)
    (sectors : UInt32) (replies : List Reply) :
    StaysInside sectors
        (ddkStorageMove sc.usb dir sectorOff buffer sectors ⟨0, replies, []⟩).2.2.offers ↔
      sc.Whole sectors := by
  have hp : sc.usb.present 0 = (sc.present, 0) := rfl
  have hs : setOff sc.usb dir (sectorOff * 512).toUInt32 0 = (sc.setOff, 0) := rfl
  unfold ddkStorageMove Script.Whole
  simp only [hp]
  cases sc.present with
  | false => simp [StaysInside, Bus.record]
  | true =>
    simp only [hs]
    cases sc.setOff with
    | error e => simp [StaysInside, Bus.record]
    | ok n =>
      have hfuel : (sectors * 512).toInt32.toInt ≤
          (0 : Nat) + (sectors * 512).toInt32.toInt.toNat := by omega
      have hoffers := packetLoop_offers sc dir (P := fun r => r.start + r.len ≤ 512 * sectors.toNat)
        buffer (Bus.record ⟨0, replies, []⟩ 0 .done) (rfl : sc.moved 0 = some 0) hfuel
      refine hoffers.trans ?_
      simp only [Bus.record, List.not_mem_nil, false_imp_iff, implies_true, true_and,
        Bool.true_eq_false, reduceCtorEq, exists_false, false_or]
      rcases cnt_cases sectors with ⟨hsmall, hcnt⟩ | ⟨hlarge, hcnt⟩
      · have hnot : ¬ 2 ^ 22 ≤ sectors.toNat := by omega
        simp only [hnot, false_or, Script.EndsWhole, Script.AllOffers, Nat.zero_le, forall_const]
        refine forall₂_congr fun j m => imp_congr_right fun hm => ?_
        omega
      · simp only [hlarge, true_or, iff_true]
        intro j m _ hm hlt
        simp only
        omega

/-- **Inside the buffer.** The messages of a read and of a write stay inside the caller's buffer
exactly when no packet ends within its last seven bytes (or the transfer makes none, or the count is
cut). -/
theorem staysInside_iff (sc : Script) (sectorOff : UInt64) (buffer : Mem) (sectors : UInt32)
    (replies : List Reply) :
    let bus : Bus Nat := ⟨0, replies, []⟩
    (StaysInside sectors (ddkStorageReadOffers sc.usb sectorOff buffer sectors bus) ↔
        sc.Whole sectors) ∧
      (StaysInside sectors (ddkStorageWriteOffers sc.usb sectorOff buffer sectors bus) ↔
        sc.Whole sectors) :=
  ⟨storageMove_staysInside_iff sc .read sectorOff buffer sectors replies,
    storageMove_staysInside_iff sc .write sectorOff buffer sectors replies⟩

/-- A packet of one byte, and whole packets behind it. -/
def oneShort : Script where
  present := true
  setOff := .ok 0
  packets j := .ok (if j = 0 then ⟨[1], by decide⟩ else ⟨.replicate 8 0, by decide⟩)

/-- The message at 505 of 512 bytes is given eight of them. -/
theorem not_staysInside_oneShort :
    ⟨505, 8⟩ ∈ ddkStorageReadOffers oneShort.usb 0 (fun _ => 0) 1 ⟨0, [], []⟩ ∧
      ¬ StaysInside 1 (ddkStorageReadOffers oneShort.usb 0 (fun _ => 0) 1 ⟨0, [], []⟩) ∧
      ¬ StaysInside 1 (ddkStorageWriteOffers oneShort.usb 0 (fun _ => 0) 1 ⟨0, [], []⟩) := by
  decide +kernel

end LinuxDrivers.Ddk
