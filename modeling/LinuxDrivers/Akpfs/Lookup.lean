import LinuxDrivers.Akpfs.Listing

/-!
# Looking up a name

`akpfs_inode_lookup` compares the first 16 bytes of a name with the name field of each inode of the
directory, `akpfs_file_iterate` emits the field up to its end. The two agree on the names that fit
the field. A longer name is found as the file whose name is its first 16 bytes, and is never listed.
-/

namespace LinuxDrivers.Akpfs

theorem Inode.name_ofMem (m : Mem) : (Inode.ofMem m).name = cstr m 16 := by
  have hbytes : (Vector.ofFn fun k : Fin 16 => m k).toList = m.load 0 16 := by
    apply List.ext_getElem
    · simp
    · intro k hk hk'
      simp [Mem.load]
  unfold name cstr Inode.ofMem
  rw [hbytes]

theorem Inode.length_name_le (inode : Inode) : inode.name.length ≤ 16 := by
  have hle := (List.takeWhile_sublist (l := inode.fileName.toList) (· != 0)).length_le
  rwa [Vector.length_toList] at hle

namespace Fs

theorem dirent_name (fs : Fs) (e : UInt32) : (fs.dirent e).name = (fs.node e).name := by
  rw [dirent]

/-- The first entry of a directory whose inode has that name. -/
def named (fs : Fs) (ino : UInt32) (name : List UInt8) : Option UInt32 :=
  (fs.dirEntries ino 27 0).find? fun e => (fs.node e).name = name

end Fs

section

variable {fs : Fs} {ino parent : UInt32} {name : CStr}

/-- The loop finds the first entry whose name is the first 16 bytes of the one it looks for. -/
theorem lookupFrom_eq (h : fs.dev.Reliable) {n i : Nat} (hn : i + n ≤ 27) :
    ∃ k, lookupFrom (fs.nodeAddr ino) name n i fs =
      (match (fs.dirEntries ino n i).find? fun e => (fs.node e).name = name.bytes.take 16 with
        | some e => .ok (e, fs.node e)
        | none => .error (-ENOENT), fs.after k fs.dev.data) := by
  induction n generalizing i fs with
  | zero => exact ⟨0, rfl⟩
  | succ n ih =>
    have hslot : fs.word (slotAddr (fs.nodeAddr ino) i) = (fs.node ino).slot i :=
      Fs.word_slotAddr (by omega)
    unfold lookupFrom
    simp only [hslot]
    by_cases hzero : (fs.node ino).slot i = 0
    · rw [if_pos hzero, Fs.dirEntries_of_zero hzero]
      exact ih h (by omega)
    · have hcmp : strncmp (.ofList name.bytes)
          ((fs.after 1 fs.dev.data).dev.data.window (fs.nodeAddr ((fs.node ino).slot i))) 16 0 = 0 ↔
          (fs.node ((fs.node ino).slot i)).name = name.bytes.take 16 := by
        rw [strncmp_eq_zero name.nul_not_mem, List.drop_zero]
        unfold Fs.node Fs.inodeAt
        rw [Inode.name_ofMem]
        rfl
      rw [if_neg hzero, Fs.getInode_node h, Fs.dirEntries_of_ne hzero, List.find?_cons]
      simp only
      by_cases hname : (fs.node ((fs.node ino).slot i)).name = name.bytes.take 16
      · rw [if_neg (not_not.2 (hcmp.2 hname))]
        simp only [hname, decide_true]
        exact ⟨1, rfl⟩
      · have hread : (fs.after 1 fs.dev.data).dev.Reliable := h
        rw [if_pos (mt hcmp.1 hname)]
        obtain ⟨k, hk⟩ := ih hread (i := i + 1) (by omega)
        rw [Fs.after_after] at hk
        simp only [hname, decide_false]
        exact ⟨1 + k, hk⟩

/-- `akpfs_inode_lookup` takes the first entry whose name is the first 16 bytes of the one it looks
for. -/
theorem inodeLookup_eq (h : fs.dev.Reliable) (iget : Iget) : (inodeLookup fs ino name iget).1 =
    match fs.named ino (name.bytes.take 16), iget with
    | none, _ => .error (-ENOENT)
    | some _, .failed => .error (-EACCES)
    | some e, .fresh => .ok ⟨e, some ((fs.node e).fileSize, getInodeFlags (fs.node e))⟩
    | some e, .cached => .ok ⟨e, none⟩ := by
  have hread : (fs.after 1 fs.dev.data).dev.Reliable := h
  obtain ⟨k, hk⟩ := @lookupFrom_eq _ ino name hread 27 0 (Nat.zero_add 27).le
  have hnamed : fs.named ino (name.bytes.take 16) =
      ((fs.after 1 fs.dev.data).dirEntries ino 27 0).find? fun e =>
        ((fs.after 1 fs.dev.data).node e).name = name.bytes.take 16 := rfl
  have haddr : (fs.after 1 fs.dev.data).nodeAddr ino = fs.nodeAddr ino := rfl
  unfold inodeLookup
  rw [Fs.getInode_node h]
  rw [haddr, ← hnamed] at hk
  simp only [hk]
  cases fs.named ino (name.bytes.take 16) with
  | none => rfl
  | some e => cases iget <;> rfl

/-- The name leads to that inode, when the inode can be had. -/
def Finds (fs : Fs) (ino : UInt32) (name : CStr) (e : UInt32) : Prop :=
  ∀ iget, iget ≠ .failed → ∃ r, (inodeLookup fs ino name iget).1 = .ok r ∧ r.ino = e

/-- The name leads to no inode. -/
def FindsNone (fs : Fs) (ino : UInt32) (name : CStr) : Prop :=
  ∀ iget, (inodeLookup fs ino name iget).1 = .error (-ENOENT)

theorem finds_iff (h : fs.dev.Reliable) (e : UInt32) :
    Finds fs ino name e ↔ fs.named ino (name.bytes.take 16) = some e := by
  unfold Finds
  simp only [inodeLookup_eq h]
  cases fs.named ino (name.bytes.take 16) with
  | none =>
    simp only [reduceCtorEq, false_and, exists_false, iff_false, not_forall]
    exact ⟨.cached, by decide, not_false⟩
  | some e' =>
    constructor
    · intro hfinds
      obtain ⟨r, hr, he⟩ := hfinds .cached (by decide)
      simp only [Except.ok.injEq] at hr
      rw [← he, ← hr]
    · rintro he iget higet
      obtain rfl := Option.some.inj he
      cases iget with
      | failed => exact absurd rfl higet
      | fresh => exact ⟨_, rfl, rfl⟩
      | cached => exact ⟨_, rfl, rfl⟩

theorem findsNone_iff (h : fs.dev.Reliable) :
    FindsNone fs ino name ↔ fs.named ino (name.bytes.take 16) = none := by
  unfold FindsNone
  simp only [inodeLookup_eq h]
  cases fs.named ino (name.bytes.take 16) with
  | none => simp
  | some e =>
    simp only [reduceCtorEq, iff_false, not_forall]
    exact ⟨.cached, fun he => by cases he⟩

/-- What a call of `akpfs_file_iterate` with room for a whole listing emits. -/
def listed (fs : Fs) (ino parent : UInt32) : List Dirent :=
  (fileIterate fs ino parent ⟨0, 29, []⟩).2.1.entries

theorem listed_eq (h : fs.dev.Reliable) : listed fs ino parent = fs.listing ino parent := by
  have hle := fs.length_listing_le ino parent
  obtain ⟨k, hk⟩ := @fileIterate_rest _ ino h parent ⟨0, 29, []⟩ (Int.le_refl 0)
  unfold listed
  rw [hk]
  simp only [Int.toNat_zero, List.drop_zero, List.nil_append]
  exact List.take_of_length_le hle

/-- The first entry of that name in the listing. -/
theorem find?_listing (bytes : List UInt8) : (fs.listing ino parent).find? (·.name = bytes) =
    if bytes = [46] then some ⟨[46], ino, 4⟩
    else if bytes = [46, 46] then some ⟨[46, 46], parent, 4⟩
    else (fs.named ino bytes).map fs.dirent := by
  unfold Fs.listing dots Fs.named
  rw [List.find?_append, List.find?_cons, List.find?_cons, List.find?_nil, List.find?_map]
  by_cases hdot : bytes = [46]
  · simp [hdot]
  · by_cases hdots : bytes = [46, 46]
    · simp [hdots]
    · have hpred : ((fun d : Dirent => decide (d.name = bytes)) ∘ fs.dirent) =
          fun e => decide ((fs.node e).name = bytes) := by
        funext e
        rw [Function.comp_apply, Fs.dirent_name]
      simp only [hdot, hdots, Ne.symm hdot, Ne.symm hdots, decide_false, ↓reduceIte,
        Option.none_or, hpred]

/-- What a lookup finds is the first entry of that name in the listing. -/
def LookupAgrees (fs : Fs) (ino parent : UInt32) (name : CStr) : Prop :=
  match (listed fs ino parent).find? (·.name = name.bytes) with
  | some d => Finds fs ino name d.ino
  | none => FindsNone fs ino name

/-- No longer name starts with the name of an inode of the directory; and where `.` and `..` are
looked up at all, the directory has entries of its own for them. -/
structure NameFits (fs : Fs) (ino parent : UInt32) (name : CStr) : Prop where
  long : 16 < name.bytes.length → fs.named ino (name.bytes.take 16) = none
  dot : name.bytes = [46] → fs.named ino [46] = some ino
  dotDot : name.bytes = [46, 46] → fs.named ino [46, 46] = some parent

/-- No inode has a name that is longer than its field. -/
theorem Fs.named_long {bytes : List UInt8} (h : 16 < bytes.length) : fs.named ino bytes = none := by
  unfold Fs.named
  rw [List.find?_eq_none]
  intro e _ he
  have hle := (fs.node e).length_name_le
  rw [of_decide_eq_true he] at hle
  omega

theorem lookupAgrees_iff (h : fs.dev.Reliable) (ino parent : UInt32) (name : CStr) :
    LookupAgrees fs ino parent name ↔ NameFits fs ino parent name := by
  unfold LookupAgrees
  rw [listed_eq h, find?_listing]
  by_cases hdot : name.bytes = [46]
  · have htake : name.bytes.take 16 = [46] := by rw [hdot]; rfl
    rw [if_pos hdot]
    simp only
    rw [finds_iff h, htake]
    constructor
    · intro hnamed
      refine ⟨fun hlong => ?_, fun _ => hnamed, fun hdots => ?_⟩
      · rw [hdot] at hlong
        exact absurd hlong (by decide)
      · rw [hdot] at hdots
        cases hdots
    · intro hfits
      exact hfits.dot hdot
  · rw [if_neg hdot]
    by_cases hdots : name.bytes = [46, 46]
    · have htake : name.bytes.take 16 = [46, 46] := by rw [hdots]; rfl
      rw [if_pos hdots]
      simp only
      rw [finds_iff h, htake]
      constructor
      · intro hnamed
        refine ⟨fun hlong => ?_, fun he => absurd he hdot, fun _ => hnamed⟩
        rw [hdots] at hlong
        exact absurd hlong (by decide)
      · intro hfits
        exact hfits.dotDot hdots
    · rw [if_neg hdots]
      by_cases hlong : 16 < name.bytes.length
      · rw [Fs.named_long hlong]
        simp only [Option.map_none]
        rw [findsNone_iff h]
        exact ⟨fun hnone => ⟨fun _ => hnone, fun he => absurd he hdot, fun he => absurd he hdots⟩,
          fun hfits => hfits.long hlong⟩
      · have htake : name.bytes.take 16 = name.bytes := List.take_of_length_le (by omega)
        have hfits : NameFits fs ino parent name :=
          ⟨fun hl => absurd hl hlong, fun he => absurd he hdot, fun he => absurd he hdots⟩
        refine iff_of_true ?_ hfits
        cases hnamed : fs.named ino name.bytes with
        | none =>
          simp only [Option.map_none]
          rw [findsNone_iff h, htake, hnamed]
        | some e =>
          simp only [Option.map_some]
          rw [finds_iff h, htake, hnamed]
          rfl

end

theorem lookupAgrees_iff_dirVolume :
    LookupAgrees dirVolume 1 1 ⟨ascii "abcdefghijklmnop", by decide⟩ :=
  (@lookupAgrees_iff dirVolume (fun _ => rfl) 1 1 ⟨ascii "abcdefghijklmnop", by decide⟩).2
    ⟨by decide, by decide, by decide⟩

/-- A name of 17 bytes leads to the file whose name is its first 16 bytes, and is not listed. -/
theorem lookupAgrees_false :
    (inodeLookup dirVolume 1 ⟨ascii "abcdefghijklmnopq", by decide⟩ .cached).1 = .ok ⟨3, none⟩ ∧
      (∀ d ∈ listed dirVolume 1 1, d.name ≠ ascii "abcdefghijklmnopq") ∧
      ¬ LookupAgrees dirVolume 1 1 ⟨ascii "abcdefghijklmnopq", by decide⟩ := by
  have hfound : (inodeLookup dirVolume 1 ⟨ascii "abcdefghijklmnopq", by decide⟩ .cached).1 =
      .ok ⟨3, none⟩ := by
    decide +kernel
  have hlisted : ∀ d ∈ listed dirVolume 1 1, d.name ≠ ascii "abcdefghijklmnopq" := by decide +kernel
  refine ⟨hfound, hlisted, fun hagrees => ?_⟩
  have hnone : (listed dirVolume 1 1).find? (·.name = ascii "abcdefghijklmnopq") = none := by
    rw [List.find?_eq_none]
    intro d hd
    simpa using hlisted d hd
  unfold LookupAgrees at hagrees
  rw [hnone] at hagrees
  have herror := hagrees .cached
  rw [hfound] at herror
  cases herror

end LinuxDrivers.Akpfs
