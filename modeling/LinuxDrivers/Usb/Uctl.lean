import LinuxDrivers.Usb.LeftOver

/-!
# The two interfaces of the uCtl board

`uctl_open` and `uctl_read` of `uctl_usb.c`. Each interface has its own endpoint and buffer, but
`uctl_read` counts what is left over in `buf_left_over[TX_INTF][EP_IN]`, whatever the interface. The
streams of the interfaces are apart only as long as no interface is read while bytes of the other
one are left over.
-/

namespace LinuxDrivers.Uctl

open Ddk (Errno ENODEV)
open DdkMem (EFAULT)
open Usb

/-! ## The driver -/

abbrev MAX_INTERFACES : Nat := 2

def TX_INTF : Fin MAX_INTERFACES := 1

def EP_OUT : Fin 2 := 0

def EP_IN : Fin 2 := 1

def USB_ENDPOINT_XFER_BULK : Int := 2

/-- `struct uctl_device`. -/
structure Device where
  ep : Fin 2 → Int
  attrib : Fin 2 → Int
  bufSize : Fin 2 → Nat
  buf : Fin 2 → Mem

/-- The tables of the driver, and the IN endpoints of the board. -/
structure Driver where
  uctlDev : Fin MAX_INTERFACES → Device
  isActive : Fin MAX_INTERFACES → Bool
  bufLeftOver : Fin MAX_INTERFACES → Fin 2 → Nat
  inEp : Fin MAX_INTERFACES → Endpoint

/-- `buf_left_over[intf][ep] = n`. -/
def Driver.setLeftOver (drv : Driver) (intf : Fin MAX_INTERFACES) (ep : Fin 2) (n : Nat) : Driver :=
  { drv with
    bufLeftOver := Function.update drv.bufLeftOver intf
      (Function.update (drv.bufLeftOver intf) ep n) }

/-- The bytes of `uctl_dev[intf].buf[EP_IN]` become `buf`. -/
def Driver.setBuf (drv : Driver) (intf : Fin MAX_INTERFACES) (buf : Mem) : Driver :=
  { drv with
    uctlDev := Function.update drv.uctlDev intf
      { drv.uctlDev intf with buf := Function.update (drv.uctlDev intf).buf EP_IN buf } }

/-- `uctl_open`. -/
def uctlOpen (intf : Fin MAX_INTERFACES) (drv : Driver) : Int × Driver :=
  if !drv.isActive intf then (-1, drv)
  else (0, (drv.setLeftOver intf EP_IN 0).setLeftOver intf EP_OUT 0)

/-- The middle of `uctl_read`: how many bytes stand in the buffer, left over or received. -/
def fetch (intf : Fin MAX_INTERFACES) (drv : Driver) : Except Errno Nat × Driver :=
  if drv.bufLeftOver TX_INTF EP_IN ≠ 0 then
    (.ok (drv.bufLeftOver TX_INTF EP_IN), drv.setLeftOver TX_INTF EP_IN 0)
  else
    match (drv.inEp intf).receive with
    | (.error retval, ep) => (.error retval, { drv with inEp := Function.update drv.inEp intf ep })
    | (.ok packet, ep) =>
      (.ok packet.length,
        { drv with inEp := Function.update drv.inEp intf ep }.setBuf intf
          (((drv.uctlDev intf).buf EP_IN).store 0 packet.length (.ofList packet)))

/-- The end of `uctl_read`: the bytes in the buffer are handed over. -/
def finish (intf : Fin MAX_INTERFACES) (cnt : Nat) (faults : Bool) (readSize : Nat)
    (drv : Driver) : Except Int (List UInt8) × Driver :=
  match handOver cnt faults readSize ((drv.uctlDev intf).buf EP_IN) with
  | (none, buf, left) => (.error (-EFAULT), (drv.setBuf intf buf).setLeftOver TX_INTF EP_IN left)
  | (some bytes, buf, left) => (.ok bytes, (drv.setBuf intf buf).setLeftOver TX_INTF EP_IN left)

/-- `uctl_read`: the bytes copied to the user, or the error returned. -/
def uctlRead (intf : Fin MAX_INTERFACES) (cnt : Nat) (faults : Bool) (drv : Driver) :
    Except Int (List UInt8) × Driver :=
  if !drv.isActive intf then (.error (-ENODEV), drv)
  else if (drv.uctlDev intf).attrib EP_IN ≠ USB_ENDPOINT_XFER_BULK ∨
      (drv.uctlDev intf).ep EP_IN = 0 then (.error (-EINVAL), drv)
  else
    match fetch intf drv with
    | (.error retval, drv) => (.error retval.val, drv)
    | (.ok readSize, drv) => finish intf cnt faults readSize drv

/-! ## Sessions -/

/-- A read on one of the interfaces. -/
structure Read where
  intf : Fin MAX_INTERFACES
  call : Call

/-- The driver with the results of all reads on each interface, and the interface last read. -/
structure Session where
  drv : Driver
  results : Fin MAX_INTERFACES → List (Except Int (List UInt8))
  last : Fin MAX_INTERFACES

/-- Both interfaces have just been opened. -/
def Session.start (drv : Driver) : Session where
  drv := (uctlOpen 1 (uctlOpen 0 drv).2).2
  results := fun _ => []
  last := 0

/-- The session after a read. -/
def step (s : Session) (r : Read) : Session where
  drv := (uctlRead r.intf r.call.cnt r.call.faults s.drv).2
  results := Function.update s.results r.intf
    (s.results r.intf ++ [(uctlRead r.intf r.call.cnt r.call.faults s.drv).1])
  last := r.intf

/-- The bytes returned on an interface. -/
def Session.returned (s : Session) (intf : Fin MAX_INTERFACES) : List UInt8 :=
  (s.results intf).flatMap bytesOf

/-- Both interfaces are active and have a bulk IN endpoint, whose packets fit in the buffer. -/
structure Ready (drv : Driver) : Prop where
  active : ∀ i, drv.isActive i = true
  bulk : ∀ i, (drv.uctlDev i).attrib EP_IN = USB_ENDPOINT_XFER_BULK
  ep_ne : ∀ i, (drv.uctlDev i).ep EP_IN ≠ 0
  fits : ∀ i, (drv.inEp i).Fits ((drv.uctlDev i).bufSize EP_IN)

/-- No bytes of the other interface are left over. -/
def Own (s : Session) (r : Read) : Prop :=
  s.drv.bufLeftOver TX_INTF EP_IN ≠ 0 → s.last = r.intf

instance (s : Session) (r : Read) : Decidable (Own s r) :=
  inferInstanceAs (Decidable (_ → _))

/-! ## One read -/

/-- What a read on an interface takes for its stream. -/
def Driver.stream (drv : Driver) (intf : Fin MAX_INTERFACES) : InStream :=
  ⟨((drv.uctlDev intf).buf EP_IN).load 0 (drv.bufLeftOver TX_INTF EP_IN), drv.inEp intf⟩

/-- What a read on `intf` leaves as it is. -/
structure SameElse (intf : Fin MAX_INTERFACES) (drv drv' : Driver) : Prop where
  active : drv'.isActive = drv.isActive
  attrib : ∀ i, (drv'.uctlDev i).attrib = (drv.uctlDev i).attrib
  ep : ∀ i, (drv'.uctlDev i).ep = (drv.uctlDev i).ep
  bufSize : ∀ i, (drv'.uctlDev i).bufSize = (drv.uctlDev i).bufSize
  script : ∀ i, (drv'.inEp i).script = (drv.inEp i).script
  endpoint : ∀ i, i ≠ intf → drv'.inEp i = drv.inEp i

namespace SameElse

variable {intf : Fin MAX_INTERFACES} {drv drv' drv'' : Driver}

theorem trans (h : SameElse intf drv drv') (h' : SameElse intf drv' drv'') :
    SameElse intf drv drv'' where
  active := h'.active.trans h.active
  attrib i := (h'.attrib i).trans (h.attrib i)
  ep i := (h'.ep i).trans (h.ep i)
  bufSize i := (h'.bufSize i).trans (h.bufSize i)
  script i := (h'.script i).trans (h.script i)
  endpoint i hi := (h'.endpoint i hi).trans (h.endpoint i hi)

theorem setLeftOver (drv : Driver) (intf i : Fin MAX_INTERFACES) (ep : Fin 2) (n : Nat) :
    SameElse intf drv (drv.setLeftOver i ep n) :=
  ⟨rfl, fun _ => rfl, fun _ => rfl, fun _ => rfl, fun _ => rfl, fun _ _ => rfl⟩

theorem setBuf (drv : Driver) (intf : Fin MAX_INTERFACES) (buf : Mem) :
    SameElse intf drv (drv.setBuf intf buf) := by
  refine ⟨rfl, ?_, ?_, ?_, fun _ => rfl, fun _ _ => rfl⟩ <;>
  · intro i
    by_cases hi : i = intf
    · subst hi
      simp only [Driver.setBuf, Function.update_self]
    · simp only [Driver.setBuf, Function.update_of_ne hi]

theorem receive (drv : Driver) (intf : Fin MAX_INTERFACES) :
    SameElse intf drv
      { drv with inEp := Function.update drv.inEp intf (drv.inEp intf).receive.2 } := by
  refine ⟨rfl, fun _ => rfl, fun _ => rfl, fun _ => rfl, ?_, ?_⟩
  · intro i
    by_cases hi : i = intf
    · subst hi
      simp only [Function.update_self, Endpoint.receive]
    · simp only [Function.update_of_ne hi]
  · intro i hi
    simp only [Function.update_of_ne hi]

theorem ready (h : SameElse intf drv drv') (hdrv : Ready drv) : Ready drv' := by
  refine ⟨?_, ?_, ?_, ?_⟩
  · intro i
    rw [h.active]
    exact hdrv.active i
  · intro i
    rw [h.attrib]
    exact hdrv.bulk i
  · intro i
    rw [h.ep]
    exact hdrv.ep_ne i
  · intro i k packet hk
    rw [h.script] at hk
    rw [h.bufSize]
    exact hdrv.fits i k packet hk

end SameElse

/-- The end of a read is `hand` of the bytes that stand in the buffer. -/
theorem finish_stream (intf : Fin MAX_INTERFACES) (cnt : Nat) (faults : Bool) (n : Nat)
    (drv : Driver) :
    SameElse intf drv (finish intf cnt faults n drv).2 ∧
      ((finish intf cnt faults n drv).1, (finish intf cnt faults n drv).2.stream intf) =
        InStream.hand cnt faults (((drv.uctlDev intf).buf EP_IN).load 0 n) (drv.inEp intf) := by
  have hstream : ∀ (buf : Mem) (left : Nat),
      ((drv.setBuf intf buf).setLeftOver TX_INTF EP_IN left).stream intf =
        ⟨buf.load 0 left, drv.inEp intf⟩ := by
    intro buf left
    simp only [Driver.stream, Driver.setLeftOver, Driver.setBuf, Function.update_self]
  have hsame : ∀ (buf : Mem) (left : Nat),
      SameElse intf drv ((drv.setBuf intf buf).setLeftOver TX_INTF EP_IN left) :=
    fun buf left => (SameElse.setBuf drv intf buf).trans (SameElse.setLeftOver ..)
  rcases hover : handOver cnt faults n ((drv.uctlDev intf).buf EP_IN) with ⟨out, buf, left⟩
  rw [InStream.hand_eq hover, ← hstream]
  unfold finish
  rw [hover]
  cases out with
  | none => exact ⟨hsame _ _, rfl⟩
  | some bytes => exact ⟨hsame _ _, rfl⟩

/-- **`uctl_read`** on an active interface is a read of its endpoint, with the bytes in front that
are left over on any interface. -/
theorem uctlRead_stream {drv : Driver} (hdrv : Ready drv) (intf : Fin MAX_INTERFACES) (cnt : Nat)
    (faults : Bool) :
    SameElse intf drv (uctlRead intf cnt faults drv).2 ∧
      ((uctlRead intf cnt faults drv).1, (uctlRead intf cnt faults drv).2.stream intf) =
        InStream.read id cnt faults (drv.stream intf) := by
  have hpending : (drv.stream intf).pending ≠ [] ↔ drv.bufLeftOver TX_INTF EP_IN ≠ 0 := by
    rw [← List.length_pos_iff, Nat.pos_iff_ne_zero, Driver.stream, Mem.length_load]
  have hgate : ¬ ((drv.uctlDev intf).attrib EP_IN ≠ USB_ENDPOINT_XFER_BULK ∨
      (drv.uctlDev intf).ep EP_IN = 0) := by
    rintro (h | h)
    · exact h (hdrv.bulk intf)
    · exact hdrv.ep_ne intf h
  unfold uctlRead
  rw [hdrv.active intf, if_neg (by decide), if_neg hgate]
  unfold fetch InStream.read
  by_cases hleft : drv.bufLeftOver TX_INTF EP_IN ≠ 0
  · rw [if_pos hleft, if_pos (hpending.2 hleft)]
    obtain ⟨hsame, hhand⟩ := finish_stream intf cnt faults (drv.bufLeftOver TX_INTF EP_IN)
      (drv.setLeftOver TX_INTF EP_IN 0)
    exact ⟨(SameElse.setLeftOver ..).trans hsame, hhand⟩
  · rw [if_neg hleft, if_neg fun h => hleft (hpending.1 h)]
    have hsame := SameElse.receive drv intf
    rcases hmsg : (drv.inEp intf).receive with ⟨reply, ep⟩
    rw [hmsg] at hsame
    have hview : (drv.stream intf).ep.receive = (reply, ep) := hmsg
    rw [hview]
    cases reply with
    | error retval =>
      refine ⟨hsame, ?_⟩
      simp only [Driver.stream, not_not.1 hleft, Function.update_self]
      rfl
    | ok packet =>
      have hload : (((drv.uctlDev intf).buf EP_IN).store 0 packet.length (.ofList packet)).load 0
          packet.length = packet := Mem.load_store_ofList _ _ _
      obtain ⟨hfin, hhand⟩ := finish_stream intf cnt faults packet.length
        ({ drv with inEp := Function.update drv.inEp intf ep }.setBuf intf
          (((drv.uctlDev intf).buf EP_IN).store 0 packet.length (.ofList packet)))
      refine ⟨(hsame.trans (SameElse.setBuf ..)).trans hfin, ?_⟩
      simp only [Driver.setBuf, Function.update_self, hload] at hhand
      exact hhand

/-! ## Runs -/

/-- The stream of an interface: bytes are left over on it only if it was read last. -/
def Session.view (s : Session) (intf : Fin MAX_INTERFACES) : InStream :=
  if s.last = intf then s.drv.stream intf else ⟨[], s.drv.inEp intf⟩

theorem Session.view_of_own {s : Session} {r : Read} (hown : Own s r) :
    s.view r.intf = s.drv.stream r.intf := by
  unfold Session.view
  split
  · rfl
  · next hne =>
    have hzero : s.drv.bufLeftOver TX_INTF EP_IN = 0 := by
      by_contra h
      exact hne (hown h)
    simp only [Driver.stream, hzero]
    rfl

/-- On the other interfaces a read changes nothing. -/
theorem step_other {s : Session} {r : Read} (hs : Ready s.drv) (hown : Own s r)
    {j : Fin MAX_INTERFACES} (hj : j ≠ r.intf) :
    (step s r).results j = s.results j ∧ (step s r).view j = s.view j := by
  obtain ⟨hsame, -⟩ := uctlRead_stream hs r.intf r.call.cnt r.call.faults
  refine ⟨Function.update_of_ne hj _ _, ?_⟩
  have hview : s.view j = ⟨[], s.drv.inEp j⟩ := by
    unfold Session.view
    split
    · next hlast =>
      -- `j` was read last and is not read now, so nothing is left over
      have hzero : s.drv.bufLeftOver TX_INTF EP_IN = 0 := by
        by_contra h
        exact hj (hlast.symm.trans (hown h))
      simp only [Driver.stream, hzero]
      rfl
    · rfl
  have hlast : (step s r).last ≠ j := Ne.symm hj
  rw [hview, Session.view, if_neg hlast, step, hsame.endpoint j hj]

/-- On its own interface it is a read of the stream. -/
theorem step_own {s : Session} {r : Read} (hs : Ready s.drv) (hown : Own s r) :
    (step s r).results r.intf =
        s.results r.intf ++ [(InStream.read id r.call.cnt r.call.faults (s.view r.intf)).1] ∧
      (step s r).view r.intf =
        (InStream.read id r.call.cnt r.call.faults (s.view r.intf)).2 := by
  obtain ⟨-, hread⟩ := uctlRead_stream hs r.intf r.call.cnt r.call.faults
  rw [Session.view_of_own hown, ← hread]
  constructor
  · simp only [step, Function.update_self]
  · simp only [Session.view, step, ↓reduceIte]

/-- The reads on one interface. -/
def callsOn (j : Fin MAX_INTERFACES) (reads : List Read) : List Call :=
  (reads.filter (·.intf = j)).map (·.call)

/-- **The stream of one interface** is read by its own reads only. -/
theorem results_run {s : Session} {reads : List Read} (hs : Ready s.drv)
    (hown : Along step Own s reads) (j : Fin MAX_INTERFACES) :
    (run step s reads).results j =
        s.results j ++ ((s.view j).reads id (callsOn j reads)).1 ∧
      (run step s reads).view j = ((s.view j).reads id (callsOn j reads)).2 := by
  induction reads generalizing s with
  | nil => simp [callsOn, InStream.reads, runWith]
  | cons r reads ih =>
    have hready : Ready (step s r).drv :=
      (uctlRead_stream hs r.intf r.call.cnt r.call.faults).1.ready hs
    obtain ⟨hres, hview⟩ := ih hready hown.2
    rw [run_cons, hres, hview]
    by_cases hj : j = r.intf
    · obtain ⟨hown₁, hown₂⟩ := step_own hs hown.1
      have hcalls : callsOn j (r :: reads) = r.call :: callsOn j reads := by
        simp [callsOn, hj]
      rw [hcalls, hj, hown₁, hown₂]
      simp [InStream.reads, runWith]
    · obtain ⟨hres', hview'⟩ := step_other hs hown.1 hj
      have hcalls : callsOn j (r :: reads) = callsOn j reads := by
        simp [callsOn, Ne.symm hj]
      rw [hcalls, hres', hview']
      exact ⟨rfl, rfl⟩

theorem Ready.start {drv : Driver} (hdrv : Ready drv) : Ready (Session.start drv).drv := by
  have hopen : ∀ {drv : Driver} (i : Fin MAX_INTERFACES), Ready drv → Ready (uctlOpen i drv).2 := by
    intro drv i h
    unfold uctlOpen
    rw [h.active i, if_neg (by decide)]
    exact ((SameElse.setLeftOver drv i ..).trans (SameElse.setLeftOver ..)).ready h
  exact hopen 1 (hopen 0 hdrv)

/-- After the opens nothing is left over. -/
theorem start_view {drv : Driver} (hdrv : Ready drv) (j : Fin MAX_INTERFACES) :
    (Session.start drv).drv.bufLeftOver TX_INTF EP_IN = 0 ∧
      (Session.start drv).view j = ⟨[], drv.inEp j⟩ := by
  have hleft : (Session.start drv).drv.bufLeftOver TX_INTF EP_IN = 0 ∧
      (Session.start drv).drv.inEp j = drv.inEp j := by
    simp only [Session.start, uctlOpen, hdrv.active, Bool.not_true, Bool.false_eq_true, ↓reduceIte,
      Driver.setLeftOver]
    exact ⟨rfl, trivial⟩
  refine ⟨hleft.1, ?_⟩
  unfold Session.view
  split
  · simp only [Driver.stream, hleft]
    rfl
  · rw [hleft.2]

/-- Reads on a single interface find only their own bytes left over. -/
theorem own_single {s : Session} {j : Fin MAX_INTERFACES} {reads : List Read}
    (hreads : ∀ r ∈ reads, r.intf = j)
    (hs : s.drv.bufLeftOver TX_INTF EP_IN = 0 ∨ s.last = j) : Along step Own s reads := by
  induction reads generalizing s with
  | nil => trivial
  | cons r reads ih =>
    have hr : r.intf = j := hreads r List.mem_cons_self
    refine ⟨?_, ih (fun r' h => hreads r' (List.mem_cons_of_mem r h)) (.inr hr)⟩
    intro hne
    rw [hr]
    exact hs.resolve_left hne

/-- **The interfaces are apart** while no read finds bytes of the other one left over: on each the
bytes returned are a prefix of those received, and its results are those of its own reads alone, on
any board with the same packets on that interface. -/
theorem interfaces_apart {drv : Driver} (hdrv : Ready drv) {reads : List Read}
    (hown : Along step Own (.start drv) reads) (j : Fin MAX_INTERFACES) :
    ((run step (.start drv) reads).returned j <+:
        ((run step (.start drv) reads).drv.inEp j).receivedSince (drv.inEp j).asked) ∧
      ∀ drv', Ready drv' → drv'.inEp j = drv.inEp j →
        (run step (.start drv') (reads.filter (·.intf = j))).results j =
          (run step (.start drv) reads).results j := by
  obtain ⟨-, hview⟩ := start_view hdrv j
  obtain ⟨hres, hend⟩ := results_run hdrv.start hown j
  constructor
  · -- what the stream delivers is a prefix of what it has received
    have hinit : (Session.start drv).view j |>.Delivered (drv.inEp j).asked
        ((drv.uctlDev j).bufSize EP_IN) [] := by
      rw [hview]
      exact ⟨Nat.le_refl _, hdrv.fits j, ((drv.inEp j).receivedSince_self).symm, Nat.zero_le _⟩
    have hid : ∀ reply, Endpoint.bytes (id reply) = Endpoint.bytes reply := fun _ => rfl
    have hdel := hinit.reads hid (callsOn j reads)
    have hep : ((run step (.start drv) reads).view j).ep =
        (run step (.start drv) reads).drv.inEp j := by
      unfold Session.view
      split <;> rfl
    rw [← hend] at hdel
    have hstream := hdel.stream
    rw [hep, List.nil_append] at hstream
    rw [← hstream, Session.returned, hres]
    exact List.prefix_append _ _
  · intro drv' hdrv' hsame
    obtain ⟨hzero, hview'⟩ := start_view hdrv' j
    have hsingle : Along step Own (.start drv') (reads.filter (·.intf = j)) :=
      own_single (fun r hr => by simpa using (List.mem_filter.1 hr).2) (.inl hzero)
    have hcalls : callsOn j (reads.filter (·.intf = j)) = callsOn j reads := by
      simp [callsOn, List.filter_filter]
    rw [(results_run hdrv'.start hsingle j).1, hres, hcalls, hview, hview', hsame]
    rfl

/-- Packets of 1, 2, 3 on interface 0; a packet of 4, 5, 6 and then packets of 7 on interface 1. -/
def board : Driver where
  uctlDev _ := ⟨fun _ => 1, fun _ => USB_ENDPOINT_XFER_BULK, fun _ => 4, fun _ _ => 0⟩
  isActive _ := true
  bufLeftOver _ _ := 0
  inEp i := ⟨fun k => .ok (if i = 0 then [1, 2, 3] else if k = 0 then [4, 5, 6] else [7]), 0⟩

theorem board_ready : Ready board := by
  refine ⟨fun _ => rfl, fun _ => rfl, fun _ => Int.one_ne_zero, ?_⟩
  intro i k packet h
  cases h
  show (if i = 0 then [1, 2, 3] else if k = 0 then [4, 5, 6] else [7]).length ≤ 4
  split
  · decide
  · split <;> decide

/-- Interface 0 is read to the end of its packet before interface 1 is read. -/
theorem interfaces_apart_board :
    let reads : List Read := [⟨0, 2, false⟩, ⟨0, 8, false⟩, ⟨1, 2, false⟩, ⟨1, 8, false⟩]
    let s := run step (.start board) reads
    Along step Own (.start board) reads ∧
      (s.returned 0 = [1, 2, 3] ∧ s.returned 1 = [4, 5, 6]) ∧
      (s.returned 1 <+: (s.drv.inEp 1).receivedSince 0) ∧
      ∀ drv', Ready drv' → drv'.inEp 1 = board.inEp 1 →
        (run step (.start drv') (reads.filter (·.intf = 1))).results 1 = s.results 1 :=
  ⟨by decide +kernel, by decide +kernel, interfaces_apart board_ready (by decide +kernel) 1⟩

/-- Interface 1 is read while two bytes of interface 0 are left over: it returns the first two bytes
of its own buffer a second time. -/
theorem not_interfaces_apart_short :
    ¬ ∀ drv, Ready drv → ∀ reads j, ∃ n, (run step (.start drv) reads).returned j <+:
      (drv.inEp j).packets (drv.inEp j).asked n := by
  intro h
  obtain ⟨n, hn⟩ := h board board_ready [⟨1, 8, false⟩, ⟨0, 1, false⟩, ⟨1, 8, false⟩] 1
  have hret : (run step (.start board) [⟨1, 8, false⟩, ⟨0, 1, false⟩, ⟨1, 8, false⟩]).returned 1 =
      [4, 5, 6, 4, 5] := by
    decide +kernel
  rw [hret] at hn
  match n with
  | 0 => exact absurd hn (by decide)
  | 1 => exact absurd hn (by decide)
  | n + 2 =>
    have hpackets : (board.inEp 1).packets (board.inEp 1).asked (n + 2) =
        4 :: 5 :: 6 :: 7 :: (board.inEp 1).packets 2 n := by
      simp [Endpoint.packets, board, List.range'_succ, Endpoint.bytes]
    rw [hpackets] at hn
    simp at hn

end LinuxDrivers.Uctl
