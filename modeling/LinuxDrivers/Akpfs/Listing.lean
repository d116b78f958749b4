import LinuxDrivers.Akpfs.DriverSpec

/-!
# Listing a directory

`akpfs_file_iterate` counts the entries of a directory behind `.` and `..` and emits the one at the
saved position, then the next ones, until the buffer of the caller is full. So a call emits the rest
of one fixed listing, as far as it fits, and calls that go on from the saved position emit the whole
of it.
-/

namespace LinuxDrivers.Akpfs

/-- What is emitted for an entry of a directory. -/
def direntOf (sb : Sb) (data : Mem) (ino : UInt32) : Dirent where
  name := (inode sb data ino).name
  ino
  type := getFileType (inode sb data ino)

/-- What is emitted for the `n` entries from `i` on of the directory `ino`. -/
def dirents (sb : Sb) (data : Mem) (ino : UInt32) (n i : Nat) : List Dirent :=
  (((List.range' i n).map (inode sb data ino).slot).filter (· != 0)).map (direntOf sb data)

/-- The whole listing of a directory. -/
def listing (sb : Sb) (data : Mem) (ino parent : UInt32) : List Dirent :=
  dots ino parent ++ dirents sb data ino 27 0

/-! ## Any inode numbers

An entry of a directory may hold any number; `akpfs_get_inode` takes what stands at the address it
computes for it. -/

namespace Fs

/-- The address that `akpfs_get_inode` computes. -/
def nodeAddr (fs : Fs) (ino : UInt32) : Nat :=
  fs.blockAddr (fs.sb.inodesBlockStart + ino / fs.sb.inodesPerBlock) +
    (ino % fs.sb.inodesPerBlock).toNat * 128

/-- The inode that `akpfs_get_inode` finds. -/
def node (fs : Fs) (ino : UInt32) : Inode := fs.inodeAt (fs.nodeAddr ino)

/-- The numbers in the `n` entries from `i` on of the directory `ino` that are not zero. -/
def dirEntries (fs : Fs) (ino : UInt32) (n i : Nat) : List UInt32 :=
  ((List.range' i n).map (fs.node ino).slot).filter (· != 0)

/-- What is emitted for an entry of a directory. -/
def dirent (fs : Fs) (ino : UInt32) : Dirent where
  name := (fs.node ino).name
  ino
  type := getFileType (fs.node ino)

/-- The whole listing of a directory. -/
def listing (fs : Fs) (ino parent : UInt32) : List Dirent :=
  dots ino parent ++ (fs.dirEntries ino 27 0).map fs.dirent

variable {fs : Fs} {ino : UInt32} {n i : Nat}

theorem after_listing (fs : Fs) (k : Nat) (ino parent : UInt32) :
    (fs.after k fs.dev.data).listing ino parent = fs.listing ino parent := rfl

theorem dirEntries_of_zero (h : (fs.node ino).slot i = 0) :
    fs.dirEntries ino (n + 1) i = fs.dirEntries ino n (i + 1) := by
  unfold dirEntries
  rw [List.range'_succ, List.map_cons, List.filter_cons_of_neg (by simp [h])]

theorem dirEntries_of_ne (h : (fs.node ino).slot i ≠ 0) :
    fs.dirEntries ino (n + 1) i = (fs.node ino).slot i :: fs.dirEntries ino n (i + 1) := by
  unfold dirEntries
  rw [List.range'_succ, List.map_cons, List.filter_cons_of_pos (by simpa using h)]

theorem word_slotAddr (hi : i < 27) :
    fs.word (slotAddr (fs.nodeAddr ino) i) = (fs.node ino).slot i := by
  rw [slotAddr_natCast]
  unfold Fs.word node inodeAt
  rw [Inode.slot_ofMem _ hi, Mem.word_window, Nat.add_assoc]

theorem getInode_node (h : fs.dev.Reliable) (ino : UInt32) :
    getInode fs ino = (some (fs.nodeAddr ino), fs.after 1 fs.dev.data) := by
  unfold getInode
  simp only [sbBread_of_ok (h _)]
  rfl

theorem length_listing_le (fs : Fs) (ino parent : UInt32) :
    (fs.listing ino parent).length ≤ 29 := by
  have hle := List.length_filter_le (· != 0) ((List.range' 0 27).map (fs.node ino).slot)
  rw [List.length_map, List.length_range'] at hle
  simp only [listing, dots, dirEntries, List.length_append, List.length_cons, List.length_map,
    List.length_nil]
  omega

end Fs

section Iterate

variable {fs : Fs} {ino : UInt32}

/-- The loop emits the entries of the directory. -/
theorem iterateFrom_eq (h : fs.dev.Reliable) {n i : Nat} (hn : i + n ≤ 27) (pos : Int)
    (ctx : DirContext) :
    ∃ k, iterateFrom (fs.nodeAddr ino) n i pos ctx fs =
      (if (ctx.emitAll (pos + 1) ((fs.dirEntries ino n i).map fs.dirent)).1 then 0 else -ENOSPC,
        (ctx.emitAll (pos + 1) ((fs.dirEntries ino n i).map fs.dirent)).2,
        fs.after k fs.dev.data) := by
  induction n generalizing i pos ctx fs with
  | zero => exact ⟨0, rfl⟩
  | succ n ih =>
    have hslot : fs.word (slotAddr (fs.nodeAddr ino) i) = (fs.node ino).slot i :=
      Fs.word_slotAddr (by omega)
    unfold iterateFrom
    simp only [hslot]
    by_cases hzero : (fs.node ino).slot i = 0
    · rw [if_pos hzero, Fs.dirEntries_of_zero hzero]
      exact ih h (by omega) pos ctx
    · rw [if_neg hzero, Fs.getInode_node h, Fs.dirEntries_of_ne hzero]
      simp only [List.map_cons, DirContext.emitAll]
      have hdirent : (⟨((fs.after 1 fs.dev.data).inodeAt (fs.nodeAddr ((fs.node ino).slot i))).name,
          (fs.node ino).slot i, getFileType ((fs.after 1 fs.dev.data).inodeAt
            (fs.nodeAddr ((fs.node ino).slot i)))⟩ : Dirent) =
          fs.dirent ((fs.node ino).slot i) := rfl
      rw [hdirent]
      generalize ctx.emitAt (pos + 1) (fs.dirent ((fs.node ino).slot i)) = r
      obtain ⟨ok, ctx⟩ := r
      cases ok with
      | false => exact ⟨1, rfl⟩
      | true =>
        have hread : (fs.after 1 fs.dev.data).dev.Reliable := h
        obtain ⟨k, hk⟩ := ih hread (i := i + 1) (by omega) (pos + 1) ctx
        refine ⟨1 + k, ?_⟩
        rw [Fs.after_after] at hk
        exact hk

/-- The whole call in front of the last position. -/
theorem fileIterate_emitAll (h : fs.dev.Reliable) (parent : UInt32) {ctx : DirContext}
    (hpos : ¬ ctx.pos ≥ 2 + 27) :
    ∃ k, fileIterate fs ino parent ctx =
      (if (ctx.emitAll 0 (fs.listing ino parent)).1 then 0 else -ENOSPC,
        (ctx.emitAll 0 (fs.listing ino parent)).2, fs.after k fs.dev.data) := by
  unfold fileIterate Fs.listing
  rw [if_neg hpos, emitDots_eq, DirContext.emitAll_append]
  generalize ctx.emitAll 0 (dots ino parent) = r
  obtain ⟨ok, ctx⟩ := r
  cases ok with
  | false => exact ⟨0, rfl⟩
  | true =>
    have hread : (fs.after 1 fs.dev.data).dev.Reliable := h
    simp only [Fs.getInode_node h]
    obtain ⟨k, hk⟩ := @iterateFrom_eq _ ino hread 27 0 (Nat.zero_add 27).le 1 ctx
    refine ⟨1 + k, ?_⟩
    rw [Fs.after_after] at hk
    exact hk

/-- `akpfs_file_iterate` emits what stands behind the saved position in the listing, as far as it
fits. -/
theorem fileIterate_rest (h : fs.dev.Reliable) (parent : UInt32) {ctx : DirContext}
    (hpos : 0 ≤ ctx.pos) :
    let rest := (fs.listing ino parent).drop ctx.pos.toNat
    ∃ k, fileIterate fs ino parent ctx = (if rest.length ≤ ctx.room then 0 else -ENOSPC,
      { pos := ctx.pos + (min ctx.room rest.length : Nat)
        room := ctx.room - rest.length
        entries := ctx.entries ++ rest.take ctx.room }, fs.after k fs.dev.data) := by
  intro rest
  by_cases hend : ctx.pos ≥ 2 + 27
  · have hrest : rest = [] := by
      apply List.drop_eq_nil_of_le
      have hle := fs.length_listing_le ino parent
      omega
    refine ⟨0, ?_⟩
    unfold fileIterate
    rw [if_pos hend, hrest, ← Fs.after_zero]
    simp
  · obtain ⟨k, hk⟩ := fileIterate_emitAll h parent hend
    refine ⟨k, ?_⟩
    rw [hk, DirContext.emitAll_eq hpos, Int.sub_zero]
    simp only [decide_eq_true_eq]
    rfl

/-- On a working volume an inode of the table stands where it should. -/
theorem Working.node_eq (h : Working fs) (hino : InTable fs.sb ino) :
    fs.node ino = inode fs.sb fs.dev.data ino := by
  have hget := getInode_eq h hino
  rw [Fs.getInode_node h.reliable, Prod.mk.injEq, Option.some_inj] at hget
  unfold Fs.node Fs.inodeAt inode
  rw [hget.1]

theorem Working.listing_eq (h : Working fs) (hino : InTable fs.sb ino)
    (hentries : ∀ j, (inode fs.sb fs.dev.data ino).slot j ≠ 0 →
      InTable fs.sb ((inode fs.sb fs.dev.data ino).slot j)) (parent : UInt32) :
    fs.listing ino parent = listing fs.sb fs.dev.data ino parent := by
  unfold Fs.listing listing dirents Fs.dirEntries
  rw [h.node_eq hino]
  refine congrArg (dots ino parent ++ ·) (List.map_congr_left fun e he => ?_)
  obtain ⟨hmem, hne⟩ := List.mem_filter.1 he
  obtain ⟨j, -, rfl⟩ := List.mem_map.1 hmem
  unfold Fs.dirent direntOf
  rw [h.node_eq (hentries j (by simpa using hne))]

theorem fileIterate_eq (h : Working fs) (hino : InTable fs.sb ino)
    (hentries : ∀ j, (inode fs.sb fs.dev.data ino).slot j ≠ 0 →
      InTable fs.sb ((inode fs.sb fs.dev.data ino).slot j))
    (parent : UInt32) {ctx : DirContext} (hpos : 0 ≤ ctx.pos) :
    let rest := (listing fs.sb fs.dev.data ino parent).drop ctx.pos.toNat
    ∃ k, fileIterate fs ino parent ctx = (if rest.length ≤ ctx.room then 0 else -ENOSPC,
      { pos := ctx.pos + (min ctx.room rest.length : Nat)
        room := ctx.room - rest.length
        entries := ctx.entries ++ rest.take ctx.room }, fs.after k fs.dev.data) := by
  rw [← h.listing_eq hino hentries]
  exact fileIterate_rest h.reliable parent hpos

end Iterate

/-! ## Several calls -/

/-- The calls of a listing, each with the room that the caller has for it; the position is the one
that the call before has saved. -/
def iterateCalls (ino parent : UInt32) : List Nat → DirContext → Fs → DirContext × Fs
  | [], ctx, fs => (ctx, fs)
  | room :: rooms, ctx, fs =>
    match fileIterate fs ino parent { ctx with room } with
    | (_, ctx, fs) => iterateCalls ino parent rooms ctx fs

/-- The context of a listing whose first `n` entries have been emitted. -/
structure Emitted (ds : List Dirent) (n : Nat) (ctx : DirContext) : Prop where
  le : n ≤ ds.length
  pos : ctx.pos = n
  entries : ctx.entries = ds.take n

section Calls

variable {fs : Fs} {ino parent : UInt32} {ctx : DirContext}

/-- A call moves a listing on by the room that it has. -/
theorem Emitted.step (h : fs.dev.Reliable) {n : Nat} (hctx : Emitted (fs.listing ino parent) n ctx)
    (room : Nat) : ∃ ctx' k r, fileIterate fs ino parent { ctx with room } =
      (r, ctx', fs.after k fs.dev.data) ∧
      Emitted (fs.listing ino parent) (min (n + room) (fs.listing ino parent).length) ctx' ∧
      ((fs.listing ino parent).length ≤ n + room → r = 0) := by
  have hle := hctx.le
  have hpos : (0 : Int) ≤ ctx.pos := by
    rw [hctx.pos]
    exact Int.natCast_nonneg n
  have hn : ctx.pos.toNat = n := by
    rw [hctx.pos]
    rfl
  obtain ⟨k, hk⟩ := @fileIterate_rest _ ino h parent { ctx with room } hpos
  simp only [hn, List.length_drop] at hk
  refine ⟨_, k, _, hk, ⟨Nat.min_le_right _ _, ?_, ?_⟩, fun hall => ?_⟩
  · simp only [hctx.pos]
    omega
  · simp only [hctx.entries]
    rw [← List.take_add, ← List.take_take, List.take_length]
  · rw [if_pos (by omega)]

theorem Emitted.calls (h : fs.dev.Reliable) {n : Nat} (hctx : Emitted (fs.listing ino parent) n ctx)
    (rooms : List Nat) : ∃ k, (iterateCalls ino parent rooms ctx fs).2 = fs.after k fs.dev.data ∧
      Emitted (fs.listing ino parent) (min (n + rooms.sum) (fs.listing ino parent).length)
        (iterateCalls ino parent rooms ctx fs).1 := by
  induction rooms generalizing fs ctx n with
  | nil =>
    refine ⟨0, rfl, ?_⟩
    rw [List.sum_nil, Nat.add_zero, Nat.min_eq_left hctx.le]
    exact hctx
  | cons room rooms ih =>
    obtain ⟨ctx', k, r, hcall, hctx', -⟩ := hctx.step h room
    have hread : (fs.after k fs.dev.data).dev.Reliable := h
    obtain ⟨l, hl, hrest⟩ := ih hread hctx'
    have hsum : min (min (n + room) (fs.listing ino parent).length + rooms.sum)
        (fs.listing ino parent).length =
        min (n + (room :: rooms).sum) (fs.listing ino parent).length := by
      rw [List.sum_cons]
      omega
    unfold iterateCalls
    rw [hcall]
    refine ⟨k + l, ?_, ?_⟩
    · rw [hl, Fs.after_data, Fs.after_after]
    · rw [← hsum]
      exact hrest

theorem length_le_sum {rooms : List Nat} (h : ∀ room ∈ rooms, 1 ≤ room) :
    rooms.length ≤ rooms.sum := by
  induction rooms with
  | nil => exact Nat.le_refl 0
  | cons room rooms ih =>
    have hroom := h room List.mem_cons_self
    have hrest := ih fun r hr => h r (List.mem_cons_of_mem _ hr)
    rw [List.length_cons, List.sum_cons]
    omega

/-- However a listing is cut into calls, the entries that are emitted are the first ones of the
listing, as many as the calls have room for; calls with room for one entry each emit all of it in
the end, and a further call emits nothing and succeeds. -/
theorem iterateCalls_listing (h : fs.dev.Reliable) (ino parent : UInt32) (rooms : List Nat)
    (hrooms : ∀ room ∈ rooms, 1 ≤ room) :
    (iterateCalls ino parent rooms ⟨0, 0, []⟩ fs).1.entries =
        (fs.listing ino parent).take rooms.sum ∧
      ((fs.listing ino parent).length ≤ rooms.length →
        (iterateCalls ino parent rooms ⟨0, 0, []⟩ fs).1.entries = fs.listing ino parent ∧
        ∀ room, (fileIterate (iterateCalls ino parent rooms ⟨0, 0, []⟩ fs).2 ino parent
            { (iterateCalls ino parent rooms ⟨0, 0, []⟩ fs).1 with room }).1 = 0 ∧
          (fileIterate (iterateCalls ino parent rooms ⟨0, 0, []⟩ fs).2 ino parent
            { (iterateCalls ino parent rooms ⟨0, 0, []⟩ fs).1 with room }).2.1.entries =
            fs.listing ino parent) := by
  have hstart : Emitted (fs.listing ino parent) 0 ⟨0, 0, []⟩ := ⟨Nat.zero_le _, rfl, rfl⟩
  obtain ⟨k, hfs, hctx⟩ := hstart.calls h rooms
  rw [Nat.zero_add] at hctx
  have hentries := hctx.entries
  rw [← List.take_take, List.take_length] at hentries
  refine ⟨hentries, fun hlen => ?_⟩
  have hsum := length_le_sum hrooms
  rw [Nat.min_eq_right (by omega)] at hctx
  refine ⟨by rw [hctx.entries, List.take_length], fun room => ?_⟩
  have hread : (fs.after k fs.dev.data).dev.Reliable := h
  obtain ⟨ctx', l, r, hcall, hctx', hr⟩ := Emitted.step hread hctx room
  rw [Fs.after_listing] at hctx' hr
  rw [hfs, hcall]
  refine ⟨hr (Nat.le_add_right _ _), ?_⟩
  have hall := hctx'.entries
  rw [Nat.min_eq_right (Nat.le_add_right _ _)] at hall
  rw [hall]
  exact List.take_length

end Calls

/-- A volume with a directory, inode 1, that holds a file with a name of one letter in its first
entry and one whose name fills its field in its third entry. -/
def dirVolume : Fs where
  dev := {
    data := (((Mem.store (fun _ => 0) 4224 128 (Inode.bytes ⟨.replicate 16 0, akpfsDir,
      (Vector.replicate 27 0).setIfInBounds 0 2 |>.setIfInBounds 2 3⟩)).store 4352 1
      (.ofList (ascii "a")))).store 4480 16 (.ofList (ascii "abcdefghijklmnop"))
    blocksize := 4096
    fails := fun _ => false
    reads := 0 }
  sb := {
    fsType := akpfsSuperMagic
    blockSize := 4096
    blockCnt := 4
    inodesPerBlock := 32
    inodesBlockStart := 1
    inodesBlockCnt := 1
    freeBitsPerBlock := 32768
    freeBitsBlockStart := 2
    freeBitsBlockCnt := 1
    dataBlockStart := 3
    dataBlockCnt := 1
    rootInode := 1 }

theorem dirVolume_listing : dirVolume.listing 1 1 =
    [⟨ascii ".", 1, 4⟩, ⟨ascii "..", 1, 4⟩, ⟨ascii "a", 2, 0o100000⟩,
      ⟨ascii "abcdefghijklmnop", 3, 0o100000⟩] := by
  decide +kernel

theorem iterateCalls_listing_dirVolume :
    (iterateCalls 1 1 [1, 1, 2, 1] ⟨0, 0, []⟩ dirVolume).1.entries =
      [⟨ascii ".", 1, 4⟩, ⟨ascii "..", 1, 4⟩, ⟨ascii "a", 2, 0o100000⟩,
        ⟨ascii "abcdefghijklmnop", 3, 0o100000⟩] := by
  have hall := (@iterateCalls_listing dirVolume (fun _ => rfl) 1 1 [1, 1, 2, 1] (by decide)).2
    (by rw [dirVolume_listing]; decide)
  rw [hall.1, dirVolume_listing]

end LinuxDrivers.Akpfs
