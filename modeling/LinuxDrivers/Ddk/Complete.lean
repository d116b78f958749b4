import Mathlib.Algebra.BigOperators.Group.List.Basic
import Mathlib.Data.UInt
import LinuxDrivers.Ddk.Storage

/-!
# Complete transfers

The loops over the packets stop at an empty packet and return the bytes moved so far, which is not
an error, and `ddk_transfer` looks only at errors. A request whose segments fit and for which no
call fails is ended with status 0; its bytes have all been moved exactly when no packet was empty
and the lengths fit in an `int`.
-/

namespace LinuxDrivers.Ddk

variable {σ : Type}

/-- The call did not work. -/
def Reply.Bad : Reply → Prop
  | .gone | .failed _ => True
  | .done | .moved _ => False

instance (r : Reply) : Decidable r.Bad := by
  rcases r with _ | _ | _ | _ <;> dsimp only [Reply.Bad] <;> infer_instance

/-- The reply is an empty packet. -/
def Reply.Empty : Reply → Prop
  | .moved size => size = 0
  | _ => False

instance (r : Reply) : Decidable r.Empty := by
  rcases r with _ | _ | _ | _ <;> dsimp only [Reply.Empty] <;> infer_instance

/-! ## One segment -/

/-- The replies `new` explain the result `r` of moving `cnt` bytes: it is negative when a call did
not work, and otherwise reaches `cnt` when no packet was empty. -/
structure Explains (cnt : Int) (new : List Reply) (r : Int) : Prop where
  neg_iff : r < 0 ↔ ∃ x ∈ new, x.Bad
  le_iff : 0 ≤ r → (cnt ≤ r ↔ ∀ x ∈ new, ¬ x.Empty)

theorem Explains.cons {cnt : Int} {new : List Reply} {r : Int} (h : Explains cnt new r)
    {x : Reply} (hbad : ¬ x.Bad) (hempty : ¬ x.Empty) : Explains cnt (x :: new) r := by
  constructor
  · rw [h.neg_iff]
    simp [hbad]
  · intro hr
    rw [h.le_iff hr]
    simp [hempty]

/-- What a packet reports is recorded. -/
theorem movePacket_replies (usb : Usb σ) (dir : Dir) (k : Nat) (buffer : Mem) (bus : Bus σ) :
    (∃ e buffer' s, movePacket usb dir k buffer bus =
      (.error e, buffer', (bus.offer ⟨k, 8⟩).record s (.failed e))) ∨
    ∃ size buffer' s, movePacket usb dir k buffer bus =
      (.ok size, buffer', (bus.offer ⟨k, 8⟩).record s (.moved size)) := by
  unfold movePacket
  cases dir with
  | write =>
    simp only
    split
    · exact .inl ⟨_, _, _, rfl⟩
    · exact .inr ⟨_, _, _, rfl⟩
  | read =>
    simp only
    split
    · exact .inl ⟨_, _, _, rfl⟩
    · exact .inr ⟨_, _, _, rfl⟩

/-- **The loop** over the packets. -/
theorem packetLoop_replies (usb : Usb σ) (dir : Dir) (cnt : Int) {fuel k : Nat} (buffer : Mem)
    (bus : Bus σ) (hfuel : cnt ≤ k + fuel) :
    ∃ r buffer' s new offers, packetLoop usb dir cnt fuel k buffer bus =
      (r, buffer', ⟨s, bus.replies ++ new, offers⟩) ∧ Explains cnt new r := by
  induction fuel generalizing k buffer bus with
  | zero =>
    refine ⟨k, buffer, bus.state, [], bus.offers, by simp [packetLoop], ?_, fun _ => ?_⟩
    · simp
    · simpa using hfuel
  | succ fuel ih =>
    unfold packetLoop
    by_cases hk : (k : Int) < cnt
    · rw [if_pos hk]
      obtain ⟨e, buffer', s, hmove⟩ | ⟨size, buffer', s, hmove⟩ :=
        movePacket_replies usb dir k buffer bus
      · -- a failed packet
        rw [hmove]
        refine ⟨e.val, buffer', s, [.failed e], _, rfl, ?_, fun hr => ?_⟩
        · simp [e.neg, Reply.Bad]
        · have := e.neg
          omega
      · rw [hmove]
        by_cases hsize : size = 0
        · -- an empty packet ends the loop before `cnt` is reached
          simp only [hsize, ↓reduceIte]
          refine ⟨k, buffer', s, [.moved 0], _, rfl, ?_, fun _ => ?_⟩
          · simp [Reply.Bad]
          · simp [Reply.Empty, hk]
        · simp only [hsize, ↓reduceIte]
          obtain ⟨r, buffer'', s', new, offers, hrun, hex⟩ := ih (k := k + size) buffer'
            ((bus.offer ⟨k, 8⟩).record s (.moved size)) (by omega)
          refine ⟨r, buffer'', s', .moved size :: new, offers, ?_, hex.cons id hsize⟩
          rw [hrun]
          simp [Bus.record, Bus.offer]
    · rw [if_neg hk]
      refine ⟨k, buffer, bus.state, [], bus.offers, by simp, ?_, fun _ => ?_⟩
      · simp
      · simpa using hk

/-- The `int` that counts the bytes of a segment. -/
def byteCnt (sectors : UInt32) : Int := (sectors * 512).toInt32.toInt

/-- `ddk_storage_write` and `ddk_storage_read`. -/
theorem ddkStorageMove_replies (usb : Usb σ) (dir : Dir) (sectorOff : UInt64) (buffer : Mem)
    (sectors : UInt32) (bus : Bus σ) :
    ∃ r buffer' s new offers, ddkStorageMove usb dir sectorOff buffer sectors bus =
      (r, buffer', ⟨s, bus.replies ++ new, offers⟩) ∧ Explains (byteCnt sectors) new r ∧
      (byteCnt sectors ≤ 0 → r ≤ 0) := by
  unfold ddkStorageMove
  simp only
  cases usb.present bus.state with
  | mk present s =>
    cases present with
    | false =>
      refine ⟨-ENODEV, buffer, s, [.gone], bus.offers, rfl, ⟨?_, fun hr => absurd hr (by decide)⟩,
        fun _ => by decide⟩
      simp [ENODEV, Reply.Bad]
    | true =>
      simp only
      cases setOff usb dir (sectorOff * 512).toUInt32 s with
      | mk res s =>
        cases res with
        | error e =>
          have hneg := e.neg
          refine ⟨e.val, buffer, s, [.failed e], bus.offers, rfl, ⟨?_, fun hr => by omega⟩,
            fun _ => by omega⟩
          simp [e.neg, Reply.Bad]
        | ok n =>
          have hfuel : byteCnt sectors ≤ (0 : Nat) + ((byteCnt sectors).toNat : Int) := by omega
          obtain ⟨r, buffer', s', new, offers, hrun, hex⟩ := packetLoop_replies usb dir
            (byteCnt sectors) buffer (bus.record s .done) hfuel
          refine ⟨r, buffer', s', .done :: new, offers, ?_, hex.cons id id, fun hle => ?_⟩
          · change packetLoop usb dir (byteCnt sectors) (byteCnt sectors).toNat 0 buffer _ = _
            rw [hrun]
            simp [Bus.record]
          · rw [Int.toNat_eq_zero.2 hle] at hrun
            have hr : ((0 : Nat) : Int) = r := congrArg Prod.fst hrun
            omega

/-! ## All segments -/

/-- The bytes of a segment have all been moved. -/
def Whole (m : Segment × Int) : Prop := 512 * m.1.sectors.toNat ≤ m.2

theorem toNat_sectors (seg : Segment) : seg.sectors.toNat = seg.len.toNat / 512 := by
  unfold Segment.sectors
  rw [UInt32.toNat_div]
  rfl

/-- The count is exact for lengths below `2 ^ 31`, and negative above. -/
theorem byteCnt_eq (seg : Segment) : byteCnt seg.sectors =
    if seg.len.toNat < 2 ^ 31 then 512 * (seg.sectors.toNat : Int)
    else 512 * (seg.sectors.toNat : Int) - 2 ^ 32 := by
  have hlen := seg.len.toNat_lt
  have hsec := toNat_sectors seg
  have hmul : (seg.sectors * 512).toNat = 512 * seg.sectors.toNat := by
    rw [UInt32.toNat_mul]
    simp only [UInt32.reduceToNat]
    omega
  have hint : byteCnt seg.sectors = (seg.sectors * 512).toBitVec.toInt := rfl
  rw [hint, BitVec.toInt_eq_toNat_cond, UInt32.toNat_toBitVec, hmul]
  split <;> split <;> omega

/-- A segment for which no call failed is whole exactly when no packet was empty and its length fits
in an `int`. -/
theorem Explains.whole_iff {seg : Segment} {new : List Reply} {r : Int}
    (h : Explains (byteCnt seg.sectors) new r) (hle : byteCnt seg.sectors ≤ 0 → r ≤ 0)
    (hgood : ∀ x ∈ new, ¬ x.Bad) (buffer : Mem) :
    Whole ({ seg with buffer }, r) ↔ (∀ x ∈ new, ¬ x.Empty) ∧ seg.len.toNat < 2 ^ 31 := by
  have hpos : 0 ≤ r := by
    by_contra hneg
    obtain ⟨x, hx, hbad⟩ := h.neg_iff.1 (by omega)
    exact hgood x hx hbad
  have hcnt := byteCnt_eq seg
  change 512 * (seg.sectors.toNat : Int) ≤ r ↔ _
  by_cases hlen : seg.len.toNat < 2 ^ 31
  · rw [if_pos hlen] at hcnt
    rw [← hcnt, h.le_iff hpos, and_iff_left hlen]
  · -- the count is negative and nothing is moved
    rw [if_neg hlen] at hcnt
    have hsec := toNat_sectors seg
    have hlt := seg.len.toNat_lt
    have hr := hle (by omega)
    constructor
    · intro hwhole
      omega
    · intro hand
      exact absurd hand.2 hlen

/-- **The loop** over the segments. -/
theorem ddkSegments_replies (usb : Usb σ) (dir : Dir) (start : UInt64) (segs : List Segment)
    (off : UInt64) (ret : Int) (bus : Bus σ) :
    ∃ ret' moved s new offers, ddkSegments usb dir start segs off ret bus =
        ((off + (segs.map fun seg => seg.sectors.toUInt64).sum, ret'), moved,
          ⟨s, bus.replies ++ new, offers⟩) ∧
      moved.map (fun m => m.1.len) = segs.map (fun seg => seg.len) ∧
      (ret' = 0 ↔ ret = 0 ∧ (∀ seg ∈ segs, seg.len % 512 = 0) ∧ ∀ x ∈ new, ¬ x.Bad) ∧
      ((∀ x ∈ new, ¬ x.Bad) → ((∀ m ∈ moved, Whole m) ↔
        (∀ x ∈ new, ¬ x.Empty) ∧ ∀ seg ∈ segs, seg.len.toNat < 2 ^ 31)) := by
  induction segs generalizing off ret bus with
  | nil => exact ⟨ret, [], bus.state, [], bus.offers, by simp [ddkSegments], rfl, by simp, by simp⟩
  | cons seg segs ih =>
    obtain ⟨r, buffer, s, new, offers, hmove, hex, hle⟩ :=
      ddkStorageMove_replies usb dir (start + off) seg.buffer seg.sectors bus
    let ret₁ : Int := if r < 0 then r else if seg.len % 512 ≠ 0 then - EIO else ret
    obtain ⟨ret', moved, s', new', offers', hrun, hlens, hret, hwhole⟩ :=
      ih (off + seg.sectors.toUInt64) ret₁ ⟨s, bus.replies ++ new, offers⟩
    -- the status is kept only by a segment that is a number of sectors and meets no error
    have hret₁ : ret₁ = 0 ↔ ret = 0 ∧ seg.len % 512 = 0 ∧ ∀ x ∈ new, ¬ x.Bad := by
      have hbad : (∀ x ∈ new, ¬ x.Bad) ↔ ¬ r < 0 := by
        rw [hex.neg_iff]
        simp only [not_exists, not_and]
      rw [hbad]
      by_cases hr : r < 0
      · simp only [ret₁, hr, ↓reduceIte, not_true_eq_false, and_false, iff_false]
        omega
      · by_cases hlen : seg.len % 512 = 0
        · simp [ret₁, hr, hlen]
        · simp [ret₁, hr, hlen, EIO]
    refine ⟨ret', ({ seg with buffer }, r) :: moved, s', new ++ new', offers', ?_, ?_, ?_,
      fun hgood => ?_⟩
    · rw [ddkSegments_cons hmove, hrun]
      simp [List.append_assoc, UInt64.add_assoc]
    · rw [List.map_cons, List.map_cons, hlens]
    · rw [hret, hret₁]
      simp only [List.forall_mem_cons, List.forall_mem_append]
      constructor
      · rintro ⟨⟨hret₀, hlen, hnew⟩, hlens, hnew'⟩
        exact ⟨hret₀, ⟨hlen, hlens⟩, hnew, hnew'⟩
      · rintro ⟨hret₀, ⟨hlen, hlens⟩, hnew, hnew'⟩
        exact ⟨⟨hret₀, hlen, hnew⟩, hlens, hnew'⟩
    · have hgood₁ : ∀ x ∈ new, ¬ x.Bad := fun x hx => hgood x (List.mem_append_left _ hx)
      have hgood₂ : ∀ x ∈ new', ¬ x.Bad := fun x hx => hgood x (List.mem_append_right _ hx)
      simp only [List.forall_mem_cons, List.forall_mem_append]
      rw [hex.whole_iff hle hgood₁ buffer, hwhole hgood₂]
      exact and_and_and_comm

/-! ## Requests -/

/-- All of a request has been transferred: its segments are whole sectors, they add up to the
request, and every byte of them has been moved. -/
structure Transferred (req : Request) (o : Outcome σ) : Prop where
  sectors : ∀ seg ∈ req.segments, seg.len % 512 = 0
  sum_eq : sectorSum req.segments = req.sectorCnt.toNat
  lens_eq : o.moved.map (fun m => m.1.len) = req.segments.map (fun seg => seg.len)
  whole : ∀ m ∈ o.moved, Whole m

/-- The request passes the checks of `ddk_transfer`, and no call of the USB layer fails. -/
structure Passes (req : Request) (replies : List Reply) : Prop where
  sectors : ∀ seg ∈ req.segments, seg.len % 512 = 0
  sum_eq : sectorSum req.segments % 2 ^ 64 = req.sectorCnt.toNat
  good : ∀ x ∈ replies, ¬ x.Bad

/-- No packet is empty, and the lengths fit in the types that count them. -/
structure Steady (req : Request) (replies : List Reply) : Prop where
  nonempty : ∀ x ∈ replies, ¬ x.Empty
  len_lt : ∀ seg ∈ req.segments, seg.len.toNat < 2 ^ 31
  sum_lt : sectorSum req.segments < 2 ^ 64

theorem toNat_sum_sectors (segs : List Segment) :
    (segs.map fun seg : Segment => seg.sectors.toUInt64).sum.toNat = sectorSum segs % 2 ^ 64 := by
  induction segs with
  | nil => rfl
  | cons seg segs ih =>
    rw [List.map_cons, List.sum_cons, sectorSum_cons, UInt64.toNat_add, ih, UInt32.toNat_toUInt64]
    omega

/-- **Complete transfers.** A request that is ended with status 0 has been transferred completely,
for exactly those requests and behaviours of the USB layer that are steady or do not pass. -/
theorem status_zero_iff (usb : Usb σ) (req : Request) (s : σ) :
    let o := ddkTransfer usb req ⟨s, [], []⟩
    (o.status = 0 → Transferred req o) ↔ (Passes req o.bus.replies → Steady req o.bus.replies) := by
  obtain ⟨ret, moved, s', new, offers, hrun, hlens, hret, hwhole⟩ :=
    ddkSegments_replies usb req.dir req.startSector req.segments 0 0 ⟨s, [], []⟩
  intro o
  have ho : o = ⟨if 0 + (req.segments.map fun seg => seg.sectors.toUInt64).sum ≠
      req.sectorCnt.toUInt64 then - EIO else ret, moved, ⟨s', new, offers⟩⟩ := by
    simp only [o, ddkTransfer, hrun, List.nil_append]
  rw [ho]
  have hsum : 0 + (req.segments.map fun seg => seg.sectors.toUInt64).sum =
      req.sectorCnt.toUInt64 ↔ sectorSum req.segments % 2 ^ 64 = req.sectorCnt.toNat := by
    rw [UInt64.zero_add, ← UInt64.toNat_inj, toNat_sum_sectors, UInt32.toNat_toUInt64]
  have hstatus : (if 0 + (req.segments.map fun seg => seg.sectors.toUInt64).sum ≠
      req.sectorCnt.toUInt64 then - EIO else ret) = 0 ↔ Passes req new := by
    simp only [ne_eq, hsum]
    by_cases hmod : sectorSum req.segments % 2 ^ 64 = req.sectorCnt.toNat
    · rw [if_neg (not_not.2 hmod), hret]
      exact ⟨fun h => ⟨h.2.1, hmod, h.2.2⟩, fun h => ⟨rfl, h.sectors, h.good⟩⟩
    · rw [if_pos hmod]
      exact ⟨fun h => absurd h (by decide), fun h => absurd h.sum_eq hmod⟩
  simp only [hstatus]
  refine forall_congr' fun hpass => ?_
  have hcnt := req.sectorCnt.toNat_lt
  have hmod := hpass.sum_eq
  constructor
  · intro h
    obtain ⟨hempty, hlen⟩ := (hwhole hpass.good).1 h.whole
    exact ⟨hempty, hlen, by rw [h.sum_eq]; omega⟩
  · intro h
    have hlt := h.sum_lt
    exact ⟨hpass.sectors, by omega, hlens, (hwhole hpass.good).2 ⟨h.nonempty, h.len_lt⟩⟩

/-! ## A layer that stalls -/

/-- A device that is always there and takes `size` bytes of every packet. -/
def constantUsb (size : Fin 9) : Usb Unit where
  present s := (true, s)
  controlOut _ _ s := (.ok 0, s)
  controlIn _ s := ((2, 512), s)
  interruptOut _ s := (.ok size, s)
  interruptIn s := (.ok ⟨List.replicate size 0, by simp; omega⟩, s)

/-- One sector to be written. -/
def oneSector : Request := ⟨.write, 0, 1, [⟨512, fun _ => 0⟩]⟩

/-- Packets that are taken completely. -/
theorem status_zero_iff_full : let o := ddkTransfer (constantUsb 8) oneSector ⟨(), [], []⟩
    o.status = 0 → Transferred oneSector o := by
  have hnonempty : ∀ x ∈ (ddkTransfer (constantUsb 8) oneSector ⟨(), [], []⟩).bus.replies,
      ¬ x.Empty := by decide +kernel
  have hlen : ∀ seg ∈ oneSector.segments, seg.len.toNat < 2 ^ 31 := by simp [oneSector]
  exact (status_zero_iff (constantUsb 8) oneSector ()).2 fun _ => ⟨hnonempty, hlen, by decide⟩

/-- The first packet is empty: nothing has been written, and the request is ended with status 0. -/
theorem not_transferred_empty : let o := ddkTransfer (constantUsb 0) oneSector ⟨(), [], []⟩
    o.status = 0 ∧ (o.moved.map fun m => (m.1.sectors, m.2)) = [(1, 0)] ∧
      ¬ Transferred oneSector o := by
  intro o
  have hmoved : (o.moved.map fun m => (m.1.sectors, m.2)) = [(1, 0)] := by decide +kernel
  refine ⟨by decide +kernel, hmoved, fun h => ?_⟩
  obtain ⟨m, hm, hfields⟩ : ∃ m ∈ o.moved, (m.1.sectors, m.2) = ((1 : UInt32), (0 : Int)) :=
    List.mem_map.1 (hmoved ▸ List.mem_singleton_self _)
  have hwhole := h.whole m hm
  simp only [Prod.mk.injEq] at hfields
  rw [Whole, hfields.1, hfields.2] at hwhole
  exact absurd hwhole (by decide)

end LinuxDrivers.Ddk
