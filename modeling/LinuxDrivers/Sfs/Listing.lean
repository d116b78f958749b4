import Mathlib.Data.List.Infix
import LinuxDrivers.Sfs.Atomic

/-!
# Listing the directory

`sfs_list` saves a position that counts the entries in use, not one that names an entry. As long as
entries are filled and cleared only behind the ones already listed, the count keeps its meaning, and
every file that stays is emitted once. The device may fail any read: a call that cannot read an
entry ends there, and the next one goes on from the saved position.
-/

namespace LinuxDrivers.Sfs

namespace Info

/-- The number of entries in use in front of entry `i`. -/
def rank (info : Info) (i : Nat) : Nat :=
  (List.range' 0 i).countP fun j : Nat => (info.entry j).live

/-- What is emitted for entry `i`. -/
def dirent (info : Info) (i : Nat) : Dirent :=
  ⟨(info.entry i).nameString, .ofInt (s2vInodeNum i), 8⟩

/-- What is emitted for the `n` entries from `i` on. -/
def dirents (info : Info) (n i : Nat) : List Dirent :=
  ((List.range' i n).filter fun j : Nat => (info.entry j).live).map info.dirent

/-- The listing up to entry `n`. -/
def listing (info : Info) (n : Nat) : List Dirent :=
  dots (.ofInt rootInodeNum) (.ofInt rootInodeNum) ++ info.dirents n 0

theorem rank_mono (info : Info) {i j : Nat} (h : i ≤ j) : info.rank i ≤ info.rank j := by
  obtain ⟨k, rfl⟩ := Nat.exists_eq_add_of_le h
  unfold rank
  rw [List.range'_append_1.symm, List.countP_append]
  exact Nat.le_add_right _ _

theorem length_listing (info : Info) (n : Nat) : (info.listing n).length = info.rank n + 2 := by
  unfold listing dirents rank
  rw [List.length_append, List.length_map, ← List.countP_eq_length_filter, Nat.add_comm]
  rfl

theorem dirents_of_dead {info : Info} {i : Nat} (h : (info.entry i).live = false) (n : Nat) :
    info.dirents (n + 1) i = info.dirents n (i + 1) := by
  unfold dirents
  rw [List.range'_succ, List.filter_cons_of_neg (by simp [h])]

theorem dirents_of_live {info : Info} {i : Nat} (h : (info.entry i).live = true) (n : Nat) :
    info.dirents (n + 1) i = info.dirent i :: info.dirents n (i + 1) := by
  unfold dirents
  rw [List.range'_succ, List.filter_cons_of_pos (by simp [h]), List.map_cons]

theorem dirents_add (info : Info) (m n i : Nat) :
    info.dirents (m + n) i = info.dirents m i ++ info.dirents n (i + m) := by
  unfold dirents
  rw [List.range'_append_1.symm, List.filter_append, List.map_append]

theorem listing_split {info : Info} {i n : Nat} (hi : i < n) (hlive : (info.entry i).live = true) :
    info.listing n = info.listing i ++ info.dirent i :: info.dirents (n - i - 1) (i + 1) := by
  obtain ⟨m, rfl⟩ : ∃ m, n = i + (m + 1) := ⟨n - i - 1, by omega⟩
  unfold listing
  rw [dirents_add, Nat.zero_add, dirents_of_live hlive, List.append_assoc,
    show i + (m + 1) - i - 1 = m by omega]

theorem rank_lt {info : Info} {i n : Nat} (hi : i < n) (hlive : (info.entry i).live = true) :
    info.rank i < info.rank n := by
  have hsplit := congrArg List.length (listing_split hi hlive)
  rw [List.length_append, List.length_cons, length_listing, length_listing] at hsplit
  omega

/-- Entries of a table that does not wrap around have different numbers. -/
theorem ino_ne {i j : Nat} (hi : i < 2 ^ 26) (hj : j < 2 ^ 26) (hne : j ≠ i) :
    UInt32.ofInt (s2vInodeNum j) ≠ .ofInt (s2vInodeNum i) := by
  intro he
  have hi' := toNat_ofInt (s2vInodeNum i)
  have hj' := toNat_ofInt (s2vInodeNum j)
  rw [he] at hj'
  unfold s2vInodeNum rootInodeNum at hi' hj'
  omega

theorem ino_of_mem_dirents {info : Info} {n i j : Nat} (hj : j < 2 ^ 26) (hn : i + n ≤ 2 ^ 26)
    (hout : j < i ∨ i + n ≤ j) {x : Dirent} (hx : x ∈ info.dirents n i) :
    (x.ino == .ofInt (s2vInodeNum j)) = false := by
  obtain ⟨k, hk, rfl⟩ := List.mem_map.1 hx
  have hk' := List.mem_range'_1.1 (List.mem_filter.1 hk).1
  exact beq_eq_false_iff_ne.2 (ino_ne hj (by omega) (by omega))

theorem ino_of_mem_listing {info : Info} {n j : Nat} (hj : j < 2 ^ 26) (hn : n ≤ j) {x : Dirent}
    (hx : x ∈ info.listing n) : (x.ino == .ofInt (s2vInodeNum j)) = false := by
  rcases List.mem_append.1 hx with hdot | hfile
  · have hroot : x.ino = .ofInt rootInodeNum := by
      unfold dots at hdot
      simp only [List.mem_cons, List.not_mem_nil, or_false] at hdot
      rcases hdot with rfl | rfl <;> rfl
    rw [hroot]
    refine beq_eq_false_iff_ne.2 fun he => ?_
    have h1 := toNat_ofInt rootInodeNum
    have h2 := toNat_ofInt (s2vInodeNum j)
    rw [he] at h1
    unfold s2vInodeNum rootInodeNum at h1 h2
    omega
  · exact ino_of_mem_dirents hj (by omega) (.inr (by omega)) hfile

/-- What part of the listing has of entry `i`. -/
theorem filter_listing {info : Info} {i n : Nat} (hi : i < 2 ^ 26) (hn : n ≤ 2 ^ 26)
    (hlive : (info.entry i).live = true) (p r : Nat) :
    (((info.listing n).drop p).take r).filter (fun d => d.ino == .ofInt (s2vInodeNum i)) =
      if i < n ∧ p ≤ info.rank i + 2 ∧ info.rank i + 2 < p + r then [info.dirent i] else [] := by
  by_cases hin : i < n
  · have hself : ((info.dirent i).ino == .ofInt (s2vInodeNum i)) = true := beq_self_eq_true _
    have hbefore := fun x => @ino_of_mem_listing info i i hi (Nat.le_refl i) x
    have hafter := fun x => @ino_of_mem_dirents info (n - i - 1) (i + 1) i hi (by omega)
      (.inl (by omega)) x
    have hslice := @filter_take_drop Dirent (fun d => d.ino == .ofInt (s2vInodeNum i)) _ _ _ hself
      hbefore hafter p r
    rw [listing_split hin hlive, hslice, length_listing]
    simp only [hin, true_and]
  · rw [if_neg (fun hand => hin hand.1)]
    refine List.filter_eq_nil_iff.2 fun x hx => ?_
    rw [ino_of_mem_listing hi (by omega) (List.mem_of_mem_drop (List.mem_of_mem_take hx))]
    decide

end Info

/-! ## The table on an unreliable device -/

section Table

variable {info : Info} (h : Sized info)

include h

omit h in
/-- What a search of the table can come to: the first entry that it looks for, or an end at the last
entry or at one that cannot be read. -/
theorem findFreeEntry_cases (h : Sized info) (n ino : Nat) (fe : FileEntry) :
    (∃ i k, findFrom (fun j => !(info.entry j).live) n ino = some i ∧
      findFreeEntry n ino fe info = ((some i, info.entry i), info.ticks k)) ∨
    ∃ fe' k, findFreeEntry n ino fe info = ((none, fe'), info.ticks k) := by
  induction n generalizing info ino fe with
  | zero => exact .inr ⟨fe, 0, rfl⟩
  | succ n ih =>
    unfold findFreeEntry findFrom
    rcases readEntry_cases h ino with hread | ⟨e, k, -, hread⟩
    · rw [hread]
      by_cases hlive : (info.entry ino).live = true
      · simp only [hlive, Bool.not_true, Bool.false_eq_true, ↓reduceIte]
        have hnext : Sized (info.ticks 1) := h.ticks 1
        rcases ih hnext (ino + 1) (info.entry ino) with ⟨i, k, hfind, hrun⟩ | ⟨fe', k, hrun⟩
        · rw [Info.ticks_ticks, Info.entry_ticks] at hrun
          exact .inl ⟨i, 1 + k, hfind, hrun⟩
        · rw [Info.ticks_ticks] at hrun
          exact .inr ⟨fe', 1 + k, hrun⟩
      · simp only [hlive, Bool.not_false, ↓reduceIte]
        exact .inl ⟨ino, 1, rfl, rfl⟩
    · rw [hread]
      exact .inr ⟨fe, k, rfl⟩

/-- `sfs_create` fills the first free entry or changes nothing. -/
theorem sfsCreate_cases (fn : CStr) (perms now : Int) (fe : FileEntry) :
    ∃ k, (sfsCreate info fn perms now fe).2 = info.ticks k ∨
      ∃ i fe', info.freeEntry = some i ∧
        (sfsCreate info fn perms now fe).2 = (info.ticks k).setEntry i fe' := by
  unfold sfsCreate
  rcases findFreeEntry_cases h info.sb.entryCount.toNat 0 fe with ⟨i, k, hfree, hrun⟩ |
    ⟨fe', k, hrun⟩
  · rw [hrun]
    have hnext : Sized (info.ticks k) := h.ticks k
    rcases writeEntry_cases hnext i ((info.entry i).created fn perms now) with hwrite | hwrite
    · refine ⟨k + 1, .inr ⟨i, (info.entry i).created fn perms now, hfree, ?_⟩⟩
      simp only [hwrite]
      rfl
    · refine ⟨k + 1, .inl ?_⟩
      simp only [hwrite]
      rfl
  · rw [hrun]
    exact ⟨k, .inl rfl⟩

theorem entry_setEntry_of_ne (hle : info.sb.entryCount.toNat ≤ 2 ^ 26) {i j : Nat}
    (hi : i < info.sb.entryCount.toNat) (hj : j < info.sb.entryCount.toNat) (hne : i ≠ j)
    (fe : FileEntry) : (info.setEntry i fe).entry j = info.entry j := by
  rw [Info.entry_setEntry h, if_neg fun he => ?_]
  have hij := entryAddr_inj h.sbBlockSize hle ⟨by omega, by omega⟩ ⟨by omega, by omega⟩ he
  exact hne (by omega)

/-- `sfs_remove` clears the first entry of that name or changes no entry. -/
theorem sfsRemove_cases (fn : CStr) :
    ∃ k used, (sfsRemove info fn).2 = (info.ticks k).setUsed used ∨
      ∃ i, info.find fn = some i ∧
        (sfsRemove info fn).2 = ((info.ticks k).setUsed used).setEntry i .zero := by
  by_cases hfinds : ∃ i, info.Finds fn info.sb.entryCount.toNat 0 i
  · obtain ⟨i, hi⟩ := hfinds
    have hfind : info.find fn = some i := by
      have hfound := hi.1
      simp only [found_eq_entry h] at hfound
      exact hfound
    rw [sfsRemove_finds hi]
    generalize clear info.usedBlocks (info.found i).chain = used
    have hnext : Sized ((info.ticks (i + 1)).setUsed used) := (h.ticks _).setUsed _
    refine ⟨i + 1 + 1, used, ?_⟩
    rcases writeEntry_cases hnext i .zero with hwrite | hwrite
    · refine .inr ⟨i, hfind, ?_⟩
      rw [hwrite]
      rfl
    · refine .inl ?_
      rw [hwrite]
      rfl
  · obtain ⟨k, hk⟩ := sfsRemove_not_finds fun i hi => hfinds ⟨i, hi⟩
    rw [hk]
    exact ⟨k, info.usedBlocks, .inl rfl⟩

end Table

/-! ## One call -/

/-- The loop emits the entries in front of the first one that cannot be read, and all of them when
it returns zero. -/
theorem listFrom_eq {info : Info} (h : Sized info) (n ino : Nat) (pos : Int) (ctx : DirContext) :
    ∃ m r k, m ≤ n ∧ (r = 0 → m = n ∧ (ctx.emitAll (pos + 1) (info.dirents m ino)).1 = true) ∧
      listFrom n ino pos ctx info =
        (r, (ctx.emitAll (pos + 1) (info.dirents m ino)).2, info.ticks k) := by
  induction n generalizing info ino pos ctx with
  | zero => exact ⟨0, 0, 0, Nat.le_refl 0, fun _ => ⟨rfl, rfl⟩, rfl⟩
  | succ n ih =>
    have hnext : Sized (info.ticks 1) := h.ticks 1
    unfold listFrom
    rcases readEntry_cases h ino with hread | ⟨e, k, he, hread⟩
    · rw [hread]
      by_cases hlive : (info.entry ino).live = true
      · simp only [hlive, Bool.not_true, Bool.false_eq_true, ↓reduceIte]
        have hdirent : (⟨(info.entry ino).nameString, .ofInt (s2vInodeNum ino), 8⟩ : Dirent) =
            info.dirent ino := rfl
        rw [hdirent]
        cases hemit : ctx.emitAt (pos + 1) (info.dirent ino) with
        | mk ok ctx' =>
          have hall : ∀ m, ctx.emitAll (pos + 1) (info.dirents (m + 1) ino) =
              if ok then ctx'.emitAll (pos + 1 + 1) (info.dirents m (ino + 1))
              else (false, ctx') := by
            intro m
            rw [Info.dirents_of_live hlive, DirContext.emitAll, hemit]
            cases ok <;> rfl
          cases ok with
          | false =>
            refine ⟨0 + 1, -ENOSPC, 1, by omega, fun h0 => absurd h0 (by decide), ?_⟩
            rw [hall, if_neg Bool.false_ne_true]
          | true =>
            obtain ⟨m, r, k, hm, hzero, hrun⟩ := ih hnext (ino + 1) (pos + 1) ctx'
            refine ⟨m + 1, r, 1 + k, by omega, fun h0 => ?_, ?_⟩
            · rw [hall, if_pos rfl]
              exact ⟨by rw [(hzero h0).1], (hzero h0).2⟩
            · rw [hall, if_pos rfl]
              rw [Info.ticks_ticks] at hrun
              exact hrun
      · have hdead := Bool.eq_false_iff.2 hlive
        simp only [hdead, Bool.not_false, ↓reduceIte]
        obtain ⟨m, r, k, hm, hzero, hrun⟩ := ih hnext (ino + 1) pos ctx
        refine ⟨m + 1, r, 1 + k, by omega, fun h0 => ?_, ?_⟩
        · rw [Info.dirents_of_dead hdead]
          exact ⟨by rw [(hzero h0).1], (hzero h0).2⟩
        · rw [Info.dirents_of_dead hdead]
          rw [Info.ticks_ticks] at hrun
          exact hrun
    · rw [hread]
      exact ⟨0, e, k, Nat.zero_le _, fun h0 => absurd h0 (by omega), rfl⟩

/-- A call emits the listing up to the first entry that cannot be read. -/
theorem sfsIterate_eq {info : Info} (h : Sized info) (ctx : DirContext) :
    ∃ n r k, n ≤ info.sb.entryCount.toNat ∧
      (r = 0 → n = info.sb.entryCount.toNat ∧ (ctx.emitAll 0 (info.listing n)).1 = true) ∧
      sfsIterate info ctx = (r, (ctx.emitAll 0 (info.listing n)).2, info.ticks k) := by
  unfold sfsIterate Info.listing
  simp only [emitDots_eq, DirContext.emitAll_append]
  cases ctx.emitAll 0 (dots (.ofInt rootInodeNum) (.ofInt rootInodeNum)) with
  | mk ok ctx' =>
    cases ok with
    | false => exact ⟨0, -ENOSPC, 0, Nat.zero_le _, fun h0 => absurd h0 (by decide), rfl⟩
    | true => exact listFrom_eq h info.sb.entryCount.toNat 0 1 ctx'

/-! ## Listings -/

/-- A listing under way: the volume, the saved position, what has been emitted so far, and what the
last call returned. -/
structure Listing where
  info : Info
  pos : Int
  entries : List Dirent
  ret : Int

/-- The next call: one of the listing, with room for `room` entries in the buffer, or one that
changes the table. -/
inductive ListAct where
  | list (room : Nat)
  | create (fn : CStr) (perms now : Int)
  | remove (fn : CStr)

namespace ListAct

def exec (s : Listing) : ListAct → Listing
  | .list room =>
    match sfsIterate s.info ⟨s.pos, room, s.entries⟩ with
    | (ret, ctx, info) => ⟨info, ctx.pos, ctx.entries, ret⟩
  | .create fn perms now => { s with info := (sfsCreate s.info fn perms now .zero).2 }
  | .remove fn => { s with info := (sfsRemove s.info fn).2 }

/-- A call of the listing emits entries from the saved position on; it returns zero only when it has
come to the end of the table. -/
theorem exec_list {s : Listing} (h : Sized s.info) (hpos : 0 ≤ s.pos) (room : Nat) :
    ∃ n p r k, ((p : Nat) : Int) = s.pos ∧ n ≤ s.info.sb.entryCount.toNat ∧
      (r = 0 → n = s.info.sb.entryCount.toNat ∧ s.info.rank n + 2 - p ≤ room) ∧
      exec s (.list room) = ⟨s.info.ticks k,
        s.pos + (min room (s.info.rank n + 2 - p) : Nat),
        s.entries ++ ((s.info.listing n).drop p).take room, r⟩ := by
  obtain ⟨n, r, k, hn, hzero, hrun⟩ := sfsIterate_eq h ⟨s.pos, room, s.entries⟩
  rw [DirContext.emitAll_eq hpos] at hzero hrun
  have hlength : ((s.info.listing n).drop (s.pos - 0).toNat).length =
      s.info.rank n + 2 - (s.pos - 0).toNat := by
    rw [List.length_drop, Info.length_listing]
  refine ⟨n, (s.pos - 0).toNat, r, k, by omega, hn, fun h0 => ⟨(hzero h0).1, ?_⟩, ?_⟩
  · have hroom := of_decide_eq_true (hzero h0).2
    rw [hlength] at hroom
    exact hroom
  · simp only [exec, hrun, hlength]

/-- The entry that the call may fill or clear stands behind those that are listed already. -/
def Behind (s : Listing) : ListAct → Prop
  | .list _ => True
  | .create _ _ _ => ∀ i ∈ s.info.freeEntry, s.pos ≤ s.info.rank i + 2
  | .remove fn => ∀ i ∈ s.info.find fn, s.pos ≤ s.info.rank i + 2

instance (s : Listing) (a : ListAct) : Decidable (a.Behind s) := by
  rcases a with _ | _ | _ <;> dsimp only [Behind] <;> infer_instance

end ListAct

/-- Entry `i` is in use. -/
def Listing.Live (i : Nat) (s : Listing) : Prop := (s.info.entry i).live = true

instance (i : Nat) (s : Listing) : Decidable (s.Live i) := inferInstanceAs (Decidable (_ = _))

/-- A listing that has not begun. -/
def Info.opened (info : Info) : Listing := ⟨info, 0, [], 0⟩

/-- What has been emitted under the number of entry `i`. -/
def Listing.emitted (s : Listing) (i : Nat) : List Dirent :=
  s.entries.filter fun d => d.ino == .ofInt (s2vInodeNum i)

/-- Every file that is there from the first call to the last one, which comes to the end of the
table, is emitted once. -/
def ListedOnce (info : Info) (acts : List ListAct) (room : Nat) : Prop :=
  let s := run ListAct.exec info.opened (acts ++ [.list room])
  s.ret = 0 → ∀ i : Nat, i < info.sb.entryCount.toNat →
    (∀ pre, pre <+: acts → (run ListAct.exec info.opened pre).Live i) →
      s.emitted i = [info.dirent i]

/-! ## The invariant -/

/-- Entry `i`, which is described by `d`, has been emitted if the saved position is behind it. -/
structure Counts (i : Nat) (sb : SuperBlock) (d : Dirent) (s : Listing) : Prop where
  sized : Sized s.info
  sb_eq : s.info.sb = sb
  pos_nonneg : 0 ≤ s.pos
  dirent_eq : s.info.dirent i = d
  emitted_eq : s.emitted i = if (s.info.rank i : Int) + 2 < s.pos then [d] else []

namespace Counts

variable {i : Nat} {sb : SuperBlock} {d : Dirent} {s : Listing}

/-- Another entry, not listed yet, is filled or cleared. -/
theorem changed (h : Counts i sb d s) (hi : i < sb.entryCount.toNat) {j : Nat}
    (hj : j < sb.entryCount.toNat) (hij : j ≠ i) (hbehind : s.pos ≤ s.info.rank j + 2)
    {info : Info} (hsized : Sized info) (hsb : info.sb = sb)
    (hentry : ∀ k : Nat, k < sb.entryCount.toNat → k ≠ j → info.entry k = s.info.entry k) :
    Counts i sb d { s with info } := by
  have hrank : ∀ k, k ≤ j → info.rank k = s.info.rank k := by
    intro k hkj
    refine List.countP_congr fun l hl => ?_
    have hl' := List.mem_range'_1.1 hl
    rw [hentry l (by omega) (by omega)]
  have hdirent : info.dirent i = d := by
    rw [← h.dirent_eq]
    unfold Info.dirent
    rw [hentry i hi (Ne.symm hij)]
  have hsame : (info.rank i : Int) + 2 < s.pos ↔ (s.info.rank i : Int) + 2 < s.pos := by
    rcases Nat.lt_or_gt_of_ne hij with hlt | hgt
    · have hj := hrank j (Nat.le_refl j)
      have h1 := info.rank_mono hlt.le
      have h2 := s.info.rank_mono hlt.le
      omega
    · rw [hrank i hgt.le]
  refine ⟨hsized, hsb, h.pos_nonneg, hdirent, ?_⟩
  have hem := h.emitted_eq
  rw [if_congr hsame rfl rfl]
  exact hem

/-- Nothing is changed but the counters of the device and `used_blocks`. -/
theorem unchanged (h : Counts i sb d s) {info : Info} (hsized : Sized info) (hsb : info.sb = sb)
    (hentry : ∀ k : Nat, info.entry k = s.info.entry k) : Counts i sb d { s with info } := by
  have hrank : info.rank i = s.info.rank i := by
    unfold Info.rank
    simp only [hentry]
  refine ⟨hsized, hsb, h.pos_nonneg, ?_, ?_⟩
  · rw [← h.dirent_eq]
    unfold Info.dirent
    rw [hentry i]
  · rw [hrank]
    exact h.emitted_eq

/-- A call of the listing emits the files from the saved position on and moves it behind them. -/
theorem list (h : Counts i sb d s) (hle : sb.entryCount.toNat ≤ 2 ^ 26)
    (hi : i < sb.entryCount.toNat) (hlive : s.Live i) (room : Nat) :
    Counts i sb d (ListAct.exec s (.list room)) ∧
      ((ListAct.exec s (.list room)).ret = 0 →
        (ListAct.exec s (.list room)).emitted i = [d]) := by
  obtain ⟨n, p, r, k, hp, hn, hzero, hexec⟩ := ListAct.exec_list h.sized h.pos_nonneg room
  rw [h.sb_eq] at hn hzero
  have hemitted : (ListAct.exec s (.list room)).emitted i = s.emitted i ++
      if i < n ∧ p ≤ s.info.rank i + 2 ∧ s.info.rank i + 2 < p + room then [d] else [] := by
    rw [hexec, ← h.dirent_eq, ← Info.filter_listing (by omega) (by omega) hlive]
    exact List.filter_append ..
  have hcount : (ListAct.exec s (.list room)).emitted i =
      if (s.info.rank i : Int) + 2 < (ListAct.exec s (.list room)).pos then [d] else [] := by
    rw [hemitted, h.emitted_eq, hexec]
    simp only
    -- an entry that the call has not come to is behind everything that it counts
    by_cases hin : i < n
    · have hlt := Info.rank_lt hin hlive
      split <;> split <;> split <;> first | rfl | omega
    · have hle := s.info.rank_mono (Nat.le_of_not_lt hin)
      split <;> split <;> split <;> first | rfl | omega
  refine ⟨⟨?_, ?_, ?_, ?_, ?_⟩, fun hret => ?_⟩
  · rw [hexec]
    exact h.sized.ticks k
  · rw [hexec]
    exact h.sb_eq
  · rw [hexec]
    have := h.pos_nonneg
    simp only
    omega
  · rw [hexec]
    exact h.dirent_eq
  · rw [hcount, hexec]
    rfl
  · rw [hexec] at hret
    obtain ⟨rfl, hroom⟩ := hzero hret
    have hlt := Info.rank_lt hi hlive
    rw [hcount, hexec, if_pos]
    simp only
    omega

theorem exec_create (h : Counts i sb d s) (hle : sb.entryCount.toNat ≤ 2 ^ 26)
    (hi : i < sb.entryCount.toNat) {fn : CStr} {perms now : Int}
    (hbehind : (ListAct.create fn perms now).Behind s) (hlive : s.Live i) :
    Counts i sb d (ListAct.exec s (.create fn perms now)) := by
  obtain ⟨k, hsame | ⟨j, fe, hfree, hset⟩⟩ := sfsCreate_cases h.sized fn perms now .zero
  · simp only [ListAct.exec, hsame]
    exact h.unchanged (h.sized.ticks k) h.sb_eq fun _ => rfl
  · obtain ⟨hj, hdead⟩ := Info.freeEntry_eq_some hfree
    rw [h.sb_eq] at hj
    have hij : j ≠ i := by
      rintro rfl
      exact absurd hlive (by rw [Listing.Live, hdead]; decide)
    simp only [ListAct.exec, hset]
    refine h.changed hi hj hij (hbehind j hfree) ((h.sized.ticks k).setEntry j fe) h.sb_eq
      fun l hl hlj => ?_
    exact entry_setEntry_of_ne (h.sized.ticks k) (by rw [Info.sb_ticks, h.sb_eq]; exact hle)
      (by rw [Info.sb_ticks, h.sb_eq]; exact hj) (by rw [Info.sb_ticks, h.sb_eq]; exact hl)
      hlj.symm fe

theorem exec_remove (h : Counts i sb d s) (hle : sb.entryCount.toNat ≤ 2 ^ 26)
    (hi : i < sb.entryCount.toNat) {fn : CStr} (hbehind : (ListAct.remove fn).Behind s)
    (hlive : (ListAct.exec s (.remove fn)).Live i) :
    Counts i sb d (ListAct.exec s (.remove fn)) := by
  obtain ⟨k, used, hsame | ⟨j, hfind, hset⟩⟩ := sfsRemove_cases h.sized fn
  · simp only [ListAct.exec, hsame]
    exact h.unchanged ((h.sized.ticks k).setUsed used) h.sb_eq fun _ => rfl
  · have hsized : Sized ((s.info.ticks k).setUsed used) := (h.sized.ticks k).setUsed used
    have hj := (Info.find_eq_some hfind).1
    rw [h.sb_eq] at hj
    simp only [ListAct.exec, hset] at hlive ⊢
    have hij : j ≠ i := by
      rintro rfl
      rw [Listing.Live, Info.entry_setEntry hsized, if_pos rfl, FileEntry.live_zero] at hlive
      cases hlive
    refine h.changed hi hj hij (hbehind j hfind) (hsized.setEntry j .zero) h.sb_eq
      fun l hl hlj => ?_
    have hsb : ((s.info.ticks k).setUsed used).sb = sb := h.sb_eq
    exact entry_setEntry_of_ne hsized (by rw [hsb]; exact hle) (by rw [hsb]; exact hj)
      (by rw [hsb]; exact hl) hlj.symm .zero

/-- **One step.** A call that changes the table behind the listed files keeps the count. -/
theorem exec (h : Counts i sb d s) (hle : sb.entryCount.toNat ≤ 2 ^ 26)
    (hi : i < sb.entryCount.toNat) {a : ListAct} (hbehind : a.Behind s) (hlive : s.Live i)
    (hlive' : (ListAct.exec s a).Live i) : Counts i sb d (ListAct.exec s a) := by
  cases a with
  | list room => exact (h.list hle hi hlive room).1
  | create fn perms now => exact h.exec_create hle hi hbehind hlive
  | remove fn => exact h.exec_remove hle hi hbehind hlive'

end Counts

/-- **Listings.** When every call between two calls of the listing changes the table behind the
files already listed, every file that stays is emitted once. -/
theorem listedOnce_run {info : Info} (h : Sized info) (hle : info.sb.entryCount.toNat ≤ 2 ^ 26)
    {acts : List ListAct}
    (hbehind : Along ListAct.exec (fun s a => a.Behind s) info.opened acts) (room : Nat) :
    ListedOnce info acts room := by
  intro hret i hi hlive
  have hstart : Counts i info.sb (info.dirent i) info.opened :=
    ⟨h, rfl, Int.le_refl 0, rfl, (if_neg (by simp only [Info.opened]; omega)).symm⟩
  have hcounts : Counts i info.sb (info.dirent i) (run ListAct.exec info.opened acts) :=
    Along.invariant (fun s a hs ha => hs.exec hle hi ha.1 ha.2.1 ha.2.2) hstart
      (hbehind.and (along_of_states hlive))
  have hlast := hcounts.list hle hi (hlive acts (List.prefix_refl acts)) room
  rw [run_append] at hret ⊢
  exact hlast.2 hret

/-- A ten-block volume with the files `a`, `b` and `c`. -/
def threeFiles : Info :=
  run Op.exec (formatted 5120) [.create (.ofList [97]) 6 0, .create (.ofList [98]) 6 0,
    .create (.ofList [99]) 6 0]

theorem threeFiles_sized : Sized threeFiles ∧ threeFiles.sb.entryCount.toNat ≤ 2 ^ 26 := by
  have h : threeFiles.dev.blocksize = 512 ∧ threeFiles.bdBlockSize = 512 ∧
      threeFiles.sb.blockSize = 512 ∧ threeFiles.sb.entryCount.toNat ≤ 2 ^ 26 := by decide +kernel
  exact ⟨⟨h.1, h.2.1, h.2.2.1⟩, h.2.2.2⟩

/-- After `.`, `..` and `a` have been listed, `c` is removed and `d` takes its entry. -/
theorem listedOnce_run_threeFiles :
    let acts : List ListAct := [.list 3, .remove ⟨[99], by decide⟩, .create ⟨[100], by decide⟩ 6 0]
    ListedOnce threeFiles acts 9 ∧
      (run ListAct.exec threeFiles.opened (acts ++ [.list 9])).ret = 0 := by
  intro acts
  have hbehind : Along ListAct.exec (fun s a => a.Behind s) threeFiles.opened acts := by
    decide +kernel
  exact ⟨listedOnce_run threeFiles_sized.1 threeFiles_sized.2 hbehind 9, by decide +kernel⟩

/-- After `.`, `..`, `a` and `b` have been listed, `a` is removed: `c` has moved in front of the
saved position and is not listed. -/
theorem not_listedOnce_threeFiles :
    let acts : List ListAct := [.list 4, .remove ⟨[97], by decide⟩]
    let s := run ListAct.exec threeFiles.opened (acts ++ [.list 9])
    s.ret = 0 ∧ (∀ pre, pre <+: acts → (run ListAct.exec threeFiles.opened pre).Live 2) ∧
      s.emitted 2 = [] ∧ ¬ ListedOnce threeFiles acts 9 := by
  intro acts s
  have hret : s.ret = 0 := by decide +kernel
  have hmissed : s.emitted 2 = [] := by decide +kernel
  have hlive : ∀ pre, pre <+: acts → (run ListAct.exec threeFiles.opened pre).Live 2 := by
    have hall : ∀ pre ∈ acts.inits, (run ListAct.exec threeFiles.opened pre).Live 2 := by
      decide +kernel
    exact fun pre hpre => hall pre ((List.mem_inits _ _).2 hpre)
  refine ⟨hret, hlive, hmissed, fun honce => ?_⟩
  have hlisted := honce hret 2 (by decide +kernel) hlive
  exact absurd (hmissed.symm.trans hlisted) (List.cons_ne_nil _ _).symm

end LinuxDrivers.Sfs
