import LinuxDrivers.Sfs.Ownership

/-!
# The directory

What the table is for: a partial injective map from names to inode numbers. `Represents` ties the
entries in use to that map, and every call is one step of the map (`Op.Spec`). Names are arrays of
16 bytes compared with `strcmp`; the names that `sfs_create` writes are terminated, so rewriting the
other fields of an entry does not change them.
-/

namespace LinuxDrivers.Sfs

/-- A directory: each name has at most one inode number and no number has two names. -/
structure Directory where
  find : CStr → Option Int
  inj : ∀ {m n : CStr} {ino : Int}, find m = some ino → find n = some ino → m = n

@[ext] theorem Directory.ext {d d' : Directory} (h : d.find = d'.find) : d = d' := by
  cases d
  cases d'
  cases h
  rfl

/-- The names of the entries in use, with the inode numbers of their entries, are the map. -/
def Represents (info : Info) (d : Directory) : Prop :=
  ∀ (n : CStr) (ino : Int), d.find n = some ino ↔ ∃ i : Nat, i < info.sb.entryCount.toNat ∧
    (info.entry i).live = true ∧ (info.entry i).nameString = n.bytes ∧ ino = s2vInodeNum i

/-- The number of entries in use. -/
def Info.liveCount (info : Info) : Nat :=
  (List.range info.sb.entryCount.toNat).countP fun i : Nat => (info.entry i).live

/-- A file name that fits into an entry. -/
def IsName (fn : CStr) : Prop := 1 ≤ fn.bytes.length ∧ fn.bytes.length ≤ 15

instance (fn : CStr) : Decidable (IsName fn) := inferInstanceAs (Decidable (_ ∧ _))

namespace Op

/-- Names fit, and `sfs_create` is called only after `sfs_lookup` has not found the name. -/
def Admissible (info : Info) : Op → Prop
  | .create fn _ _ => IsName fn ∧ (sfsLookup info fn .zero).1.1 = invInode
  | .lookup fn => IsName fn
  | .remove fn => IsName fn
  | _ => True

instance (info : Info) (op : Op) : Decidable (op.Admissible info) := by
  rcases op with _ | _ | _ | _ | _ <;> dsimp only [Admissible] <;> infer_instance

/-- What a call has to do to the map. -/
def Spec (info : Info) (d d' : Directory) : Op → Prop
  | .create fn perms now => ∀ fe, let ino := (sfsCreate info fn perms now fe).1.1
    (ino ≠ invInode ↔ info.liveCount < info.sb.entryCount.toNat) ∧
      (ino ≠ invInode → (∀ n, d.find n ≠ some ino) ∧
        d'.find = Function.update d.find fn (some ino)) ∧
      (ino = invInode → d' = d)
  | .lookup fn => ∀ fe, let r := (sfsLookup info fn fe).1
    r.1 = (d.find fn).getD invInode ∧
      (∀ ino, d.find fn = some ino → r.2 = info.entry (v2sInodeNum ino)) ∧ d' = d
  | .remove fn => let ino := (sfsRemove info fn).1
    (ino ≠ invInode ↔ d.find fn ≠ none) ∧ ino = (d.find fn).getD invInode ∧
      d'.find = Function.update d.find fn none
  | .update _ _ _ _ => d' = d
  | .getBlock _ _ _ => d' = d

end Op

/-! ## Names -/

theorem FileEntry.bytes_of_lt (fe : FileEntry) {k : Nat} (hk : k < 16) :
    fe.bytes k = fe.name[k] := by
  simp [bytes, hk, Vector.getD]

/-- A terminated name does not depend on the fields behind it. -/
theorem FileEntry.nameString_congr {fe fe' : FileEntry} (hname : fe.name = fe'.name)
    (hend : fe.name[15] = 0) : fe.nameString = fe'.nameString := by
  refine cstr_congr_of_nul (k := 15) (by omega) ?_ fun j hj => ?_
  · rw [fe.bytes_of_lt (by omega), hend]
  · rw [fe.bytes_of_lt (by omega), fe'.bytes_of_lt (by omega)]
    simp only [hname]

theorem FileEntry.name_created_end (fe : FileEntry) (fn : CStr) (perms now : Int) :
    (fe.created fn perms now).name[15] = 0 := by
  simp [created]

/-- An entry keeps the first 15 bytes of its name. -/
theorem FileEntry.nameString_created_take (fe : FileEntry) (fn : CStr) (perms now : Int) :
    (fe.created fn perms now).nameString = fn.bytes.take 15 := by
  have hlen : (fn.bytes.take 15).length = min 15 fn.bytes.length := List.length_take
  refine cstr_eq (fun hmem => fn.nul_not_mem (List.mem_of_mem_take hmem)) (by omega)
    (fun k hk => ?_) ?_
  · rw [bytes_of_lt _ (by omega)]
    simp [created, strncpy, show k ≠ 15 by omega, show k < 15 by omega]
  · rw [bytes_of_lt _ (by omega)]
    simp only [created, strncpy, Vector.getElem_ofFn, hlen]
    split
    · rfl
    · rw [if_pos (by omega), List.getD_eq_getElem?_getD, List.getElem?_eq_none (by omega)]
      rfl

theorem FileEntry.nameString_created {fn : CStr} (hfn : IsName fn) (fe : FileEntry)
    (perms now : Int) : (fe.created fn perms now).nameString = fn.bytes := by
  rw [nameString_created_take, List.take_of_length_le hfn.2]

theorem FileEntry.live_created {fn : CStr} (h1 : 1 ≤ fn.bytes.length) (fe : FileEntry)
    (perms now : Int) : (fe.created fn perms now).live = true := by
  have hmem : fn.bytes[0] ∈ fn.bytes := List.getElem_mem _
  have hne : fn.bytes[0] ≠ 0 := fun e => fn.nul_not_mem (e ▸ hmem)
  simp [live, created, strncpy, List.getElem?_eq_getElem h1, hne]

/-! ## The invariant -/

/-- Names in use are terminated and stand in one entry each. -/
structure NamedOnce (info : Info) : Prop extends Mounted info where
  terminated : ∀ i : Nat, i < info.sb.entryCount.toNat → (info.entry i).live = true →
    (info.entry i).name[15] = 0
  once : ∀ i j : Nat, i < info.sb.entryCount.toNat → j < info.sb.entryCount.toNat →
    (info.entry i).live = true → (info.entry j).live = true →
    (info.entry i).nameString = (info.entry j).nameString → i = j

namespace NamedOnce

variable {info info' : Info}

theorem find_iff (h : NamedOnce info) (fn : CStr) (i : Nat) : info.find fn = some i ↔
    i < info.sb.entryCount.toNat ∧ (info.entry i).live = true ∧
      (info.entry i).nameString = fn.bytes := by
  constructor
  · exact Info.find_eq_some
  · rintro ⟨hi, hlive, hname⟩
    obtain ⟨j, hj⟩ := findFrom_isSome_of (p := fun i => (info.entry i).named fn)
      (n := info.sb.entryCount.toNat) (Nat.zero_le i) (by omega)
      (by simp [FileEntry.named, hlive, hname])
    obtain ⟨hj1, hj2, hj3⟩ := Info.find_eq_some hj
    rw [h.once i j hi hj1 hlive hj2 (hname.trans hj3.symm)]
    exact hj

/-- The map that a table with unique names stands for. -/
def directory (info : Info) (h : NamedOnce info) : Directory where
  find n := (info.find n).map fun i : Nat => s2vInodeNum i
  inj {m n ino} hm hn := by
    simp only [Option.map_eq_some_iff] at hm hn
    obtain ⟨i, hi, rfl⟩ := hm
    obtain ⟨j, hj, hij⟩ := hn
    have hij' : j = i := by unfold s2vInodeNum at hij; omega
    subst hij'
    obtain ⟨-, -, hmi⟩ := (h.find_iff m j).1 hi
    obtain ⟨-, -, hnj⟩ := (h.find_iff n j).1 hj
    exact CStr.bytes_inj (hmi.symm.trans hnj)

theorem represents (h : NamedOnce info) : Represents info h.directory := by
  intro n ino
  simp only [directory, Option.map_eq_some_iff, h.find_iff]
  constructor
  · rintro ⟨i, ⟨hi, hlive, hname⟩, rfl⟩
    exact ⟨i, hi, hlive, hname, rfl⟩
  · rintro ⟨i, hi, hlive, hname, rfl⟩
    exact ⟨i, ⟨hi, hlive, hname⟩, rfl⟩

/-- Calls that rewrite entries under their old names keep the map. -/
theorem of_names (h : NamedOnce info) (hm : Mounted info') (hsb : info'.sb = info.sb)
    (hname : ∀ i : Nat, i < info.sb.entryCount.toNat →
      (info'.entry i).name = (info.entry i).name) :
    ∃ h' : NamedOnce info', h'.directory = h.directory := by
  have hlive : ∀ i : Nat, i < info.sb.entryCount.toNat →
      (info'.entry i).live = (info.entry i).live := fun i hi => by
    simp only [FileEntry.live, hname i hi]
  have hstring : ∀ i : Nat, i < info.sb.entryCount.toNat → (info.entry i).live = true →
      (info'.entry i).nameString = (info.entry i).nameString := fun i hi hl =>
    (FileEntry.nameString_congr (hname i hi).symm (h.terminated i hi hl)).symm
  refine ⟨⟨hm, fun i hi hl => ?_, fun i j hi hj hli hlj he => ?_⟩, ?_⟩
  · rw [hsb] at hi
    rw [hlive i hi] at hl
    rw [hname i hi]
    exact h.terminated i hi hl
  · rw [hsb] at hi hj
    rw [hlive i hi] at hli
    rw [hlive j hj] at hlj
    rw [hstring i hi hli, hstring j hj hlj] at he
    exact h.once i j hi hj hli hlj he
  · apply Directory.ext
    funext n
    have hfind : info'.find n = info.find n := by
      unfold Info.find
      rw [hsb]
      apply findFrom_congr
      intro i _ hi
      unfold FileEntry.named
      rw [hlive i (by omega)]
      by_cases hl : (info.entry i).live = true
      · rw [hstring i (by omega) hl]
      · simp [hl]
    simp only [directory, hfind]

end NamedOnce

/-- An entry rewritten under its old name changes no name, whatever its index. -/
theorem name_setEntry {info : Info} (h : Plain info) {ino : Int} {fe : FileEntry}
    (hfe : fe.name = (info.entry ino).name) (i : Int) :
    ((info.setEntry ino fe).entry i).name = (info.entry i).name := by
  rw [Info.entry_setEntry h.sized]
  split
  · next haddr =>
    have hsame : info.entry ino = info.entry i := by unfold Info.entry; rw [haddr]
    rw [hfe, hsame]
  · rfl

/-! ## One step -/

namespace NamedOnce

variable {info : Info}

theorem other_name (h : NamedOnce info) {fn : CStr} (hnone : info.find fn = none) {j : Nat}
    (hj : j < info.sb.entryCount.toNat) (hl : (info.entry j).live = true) :
    (info.entry j).nameString ≠ fn.bytes := by
  intro he
  rw [(h.find_iff fn j).2 ⟨hj, hl, he⟩] at hnone
  cases hnone

/-- A free entry may be filled with a name that is not in use. -/
theorem created (h : NamedOnce info) (k : Nat) {fn : CStr} (hfn : IsName fn)
    (hnone : info.find fn = none) {i : Nat} (hi : i < info.sb.entryCount.toNat) (perms now : Int) :
    NamedOnce ((info.ticks k).setEntry i ((info.entry i).created fn perms now)) := by
  have hentry : ∀ {j : Nat}, j < info.sb.entryCount.toNat →
      ((info.ticks k).setEntry i ((info.entry i).created fn perms now)).entry j =
        if i = j then (info.entry i).created fn perms now else info.entry j := fun hj =>
    (h.toMounted.ticks k).entry_setEntry hi hj _
  have hstring := FileEntry.nameString_created hfn (info.entry i) perms now
  refine ⟨(h.toMounted.ticks k).setEntry _ _, fun j hj hl => ?_, fun j l hj hl hlj hll he => ?_⟩
  · rw [hentry hj] at hl ⊢
    split
    · exact FileEntry.name_created_end _ _ _ _
    · next hij =>
      rw [if_neg hij] at hl
      exact h.terminated j hj hl
  · rw [hentry hj] at hlj he
    rw [hentry hl] at hll he
    by_cases hij : i = j <;> by_cases hil : i = l
    · rw [← hij, ← hil]
    · rw [if_neg hil] at hll he
      rw [if_pos hij, hstring] at he
      exact absurd he.symm (h.other_name hnone hl hll)
    · rw [if_neg hij] at hlj he
      rw [if_pos hil, hstring] at he
      exact absurd he (h.other_name hnone hj hlj)
    · rw [if_neg hij] at hlj he
      rw [if_neg hil] at hll he
      exact h.once j l hj hl hlj hll he

/-- Filling a free entry adds its name. -/
theorem create (h : NamedOnce info) (k : Nat) {fn : CStr} (hfn : IsName fn)
    (hnone : info.find fn = none) {i : Nat} (hfree : info.freeEntry = some i) (perms now : Int) :
    ∃ h' : NamedOnce ((info.ticks k).setEntry i ((info.entry i).created fn perms now)),
      h'.directory.find = Function.update h.directory.find fn (some (s2vInodeNum i)) := by
  obtain ⟨hi, hdead⟩ := Info.freeEntry_eq_some hfree
  have hentry : ∀ {j : Nat}, j < info.sb.entryCount.toNat →
      ((info.ticks k).setEntry i ((info.entry i).created fn perms now)).entry j =
        if i = j then (info.entry i).created fn perms now else info.entry j := fun hj =>
    (h.toMounted.ticks k).entry_setEntry hi hj _
  have hstring := FileEntry.nameString_created hfn (info.entry i) perms now
  have h' := h.created k hfn hnone hi perms now
  refine ⟨h', ?_⟩
  funext n
  apply Option.ext
  intro ino
  rw [h'.represents n ino, Function.update_apply]
  by_cases hn : n = fn
  · subst hn
    simp only [↓reduceIte, Option.some.injEq]
    constructor
    · rintro ⟨j, hj, hlj, hnj, rfl⟩
      rw [hentry hj] at hlj hnj
      by_cases hij : i = j
      · rw [hij]
      · rw [if_neg hij] at hlj hnj
        exact absurd hnj (h.other_name hnone hj hlj)
    · rintro rfl
      refine ⟨i, hi, ?_, ?_, rfl⟩ <;> rw [hentry hi, if_pos rfl]
      · exact FileEntry.live_created hfn.1 _ _ _
      · exact hstring
  · rw [if_neg hn, h.represents n ino]
    constructor
    · rintro ⟨j, hj, hlj, hnj, rfl⟩
      rw [hentry hj] at hlj hnj
      by_cases hij : i = j
      · rw [if_pos hij, hstring] at hnj
        exact absurd (CStr.bytes_inj hnj).symm hn
      · rw [if_neg hij] at hlj hnj
        exact ⟨j, hj, hlj, hnj, rfl⟩
    · rintro ⟨j, hj, hlj, hnj, rfl⟩
      have hij : i ≠ j := by
        rintro rfl
        rw [hdead] at hlj
        cases hlj
      refine ⟨j, hj, ?_, ?_, rfl⟩ <;> rw [hentry hj, if_neg hij]
      · exact hlj
      · exact hnj

/-- Clearing the entry of a name deletes the name. -/
theorem remove (h : NamedOnce info) {info' : Info} (hm : Mounted info') (hsb : info'.sb = info.sb)
    (hold : ∀ j : Nat, info'.entry j = info.entry j) {fn : CStr} {i : Nat}
    (hfind : info.find fn = some i) :
    ∃ h' : NamedOnce (info'.setEntry i .zero),
      h'.directory.find = Function.update h.directory.find fn none := by
  obtain ⟨hi, hl, hname⟩ := Info.find_eq_some hfind
  have hentry : ∀ {j : Nat}, j < info.sb.entryCount.toNat →
      (info'.setEntry i .zero).entry j = if i = j then .zero else info.entry j := fun {j} hj => by
    rw [hm.entry_setEntry (by rw [hsb]; exact hi) (by rw [hsb]; exact hj), hold]
  have hlive : ∀ {j : Nat}, j < info.sb.entryCount.toNat →
      ((info'.setEntry i .zero).entry j).live = true →
      i ≠ j ∧ (info.entry j).live = true := fun {j} hj hlj => by
    rw [hentry hj] at hlj
    split at hlj
    · rw [FileEntry.live_zero] at hlj
      cases hlj
    · next hij => exact ⟨hij, hlj⟩
  have h' : NamedOnce (info'.setEntry i .zero) := by
    refine ⟨hm.setEntry _ _, fun j hj hlj => ?_, fun j l hj hl hlj hll he => ?_⟩
    · rw [Info.sb_setEntry, hsb] at hj
      obtain ⟨hij, hlj'⟩ := hlive hj hlj
      rw [hentry hj, if_neg hij]
      exact h.terminated j hj hlj'
    · rw [Info.sb_setEntry, hsb] at hj hl
      obtain ⟨hij, hlj'⟩ := hlive hj hlj
      obtain ⟨hil, hll'⟩ := hlive hl hll
      rw [hentry hj, if_neg hij, hentry hl, if_neg hil] at he
      exact h.once j l hj hl hlj' hll' he
  refine ⟨h', ?_⟩
  funext n
  apply Option.ext
  intro ino
  rw [h'.represents n ino, Function.update_apply, Info.sb_setEntry, hsb]
  by_cases hn : n = fn
  · subst hn
    simp only [↓reduceIte, reduceCtorEq, iff_false]
    rintro ⟨j, hj, hlj, hnj, -⟩
    obtain ⟨hij, hlj'⟩ := hlive hj hlj
    rw [hentry hj, if_neg hij] at hnj
    exact hij (h.once i j hi hj hl hlj' (hname.trans hnj.symm))
  · rw [if_neg hn, h.represents n ino]
    constructor
    · rintro ⟨j, hj, hlj, hnj, rfl⟩
      obtain ⟨hij, hlj'⟩ := hlive hj hlj
      rw [hentry hj, if_neg hij] at hnj
      exact ⟨j, hj, hlj', hnj, rfl⟩
    · rintro ⟨j, hj, hlj, hnj, rfl⟩
      have hij : i ≠ j := by
        rintro rfl
        exact hn (CStr.bytes_inj (hnj.symm.trans hname))
      refine ⟨j, hj, ?_, ?_, rfl⟩ <;> rw [hentry hj, if_neg hij]
      · exact hlj
      · exact hnj

end NamedOnce

theorem Info.freeEntry_ne_none_iff (info : Info) :
    info.freeEntry ≠ none ↔ info.liveCount < info.sb.entryCount.toNat := by
  have hle := List.countP_le_length (p := fun i : Nat => (info.entry i).live)
    (l := List.range info.sb.entryCount.toNat)
  have hall : info.liveCount = info.sb.entryCount.toNat ↔
      ∀ i < info.sb.entryCount.toNat, (info.entry i).live = true := by
    have := List.countP_eq_length (p := fun i : Nat => (info.entry i).live)
      (l := List.range info.sb.entryCount.toNat)
    simpa [Info.liveCount] using this
  have hnone : info.freeEntry = none ↔
      ∀ i < info.sb.entryCount.toNat, (info.entry i).live = true := by
    unfold Info.freeEntry
    rw [findFrom_eq_none]
    simp
  rw [List.length_range] at hle
  change info.liveCount ≤ _ at hle
  rw [ne_eq, hnone, ← hall]
  omega

/-- `sfs_lookup` reads the map. -/
theorem NamedOnce.lookup_spec {info : Info} (h : NamedOnce info) (fn : CStr) (fe : FileEntry) :
    (sfsLookup info fn fe).1.1 = (h.directory.find fn).getD invInode ∧
      ∀ ino, h.directory.find fn = some ino →
        (sfsLookup info fn fe).1.2 = info.entry (v2sInodeNum ino) := by
  obtain ⟨k, fe', hk⟩ := sfsLookup_eq h.toPlain fn fe
  simp only [hk, NamedOnce.directory]
  cases info.find fn with
  | none => exact ⟨rfl, fun _ he => by cases he⟩
  | some i =>
    refine ⟨rfl, fun ino he => ?_⟩
    cases he
    rw [v2sInodeNum_s2vInodeNum]

namespace NamedOnce

variable {info : Info}

theorem exec_lookup (h : NamedOnce info) (fn : CStr) :
    ∃ h' : NamedOnce ((Op.lookup fn).exec info),
      (Op.lookup fn).Spec info h.directory h'.directory := by
  obtain ⟨k, fe', hk⟩ := sfsLookup_eq h.toPlain fn .zero
  have hexec : (Op.lookup fn).exec info = info.ticks k := by simp only [Op.exec, hk]
  rw [hexec]
  obtain ⟨h', hd⟩ := h.of_names (h.toMounted.ticks k) rfl fun _ _ => rfl
  refine ⟨h', fun fe => ?_⟩
  obtain ⟨h1, h2⟩ := h.lookup_spec fn fe
  exact ⟨h1, h2, hd⟩

theorem find_of_lookup (h : NamedOnce info) {fn : CStr}
    (hlook : (sfsLookup info fn .zero).1.1 = invInode) : info.find fn = none := by
  obtain ⟨k, fe', hk⟩ := sfsLookup_eq h.toPlain fn .zero
  rw [hk] at hlook
  cases hfind : info.find fn with
  | none => rfl
  | some i =>
    rw [hfind] at hlook
    exact absurd hlook (s2vInodeNum_ne_invInode i)

theorem exec_create (h : NamedOnce info) {fn : CStr} (hfn : IsName fn)
    (hlook : (sfsLookup info fn .zero).1.1 = invInode) (perms now : Int) :
    ∃ h' : NamedOnce ((Op.create fn perms now).exec info),
      (Op.create fn perms now).Spec info h.directory h'.directory := by
  have hnone := h.find_of_lookup hlook
  have hiff := info.freeEntry_ne_none_iff
  obtain ⟨k, fe', hk⟩ := sfsCreate_eq h.toPlain fn perms now .zero
  cases hfree : info.freeEntry with
  | none =>
    rw [hfree] at hiff
    have hexec : (Op.create fn perms now).exec info = info.ticks k := by
      simp only [Op.exec, hk, hfree]
    rw [hexec]
    obtain ⟨h', hd⟩ := h.of_names (h.toMounted.ticks k) rfl fun _ _ => rfl
    refine ⟨h', fun fe => ?_⟩
    obtain ⟨k₂, fe₂, hk₂⟩ := sfsCreate_eq h.toPlain fn perms now fe
    have hino : (sfsCreate info fn perms now fe).1.1 = invInode := by simp only [hk₂, hfree]
    simp only [hino]
    exact ⟨by rw [← hiff]; simp, fun hne => absurd rfl hne, fun _ => hd⟩
  | some i =>
    rw [hfree] at hiff
    have hexec : (Op.create fn perms now).exec info =
        (info.ticks k).setEntry i ((info.entry i).created fn perms now) := by
      simp only [Op.exec, hk, hfree]
    rw [hexec]
    obtain ⟨h', hd⟩ := h.create k hfn hnone hfree perms now
    refine ⟨h', fun fe => ?_⟩
    obtain ⟨k₂, fe₂, hk₂⟩ := sfsCreate_eq h.toPlain fn perms now fe
    have hino : (sfsCreate info fn perms now fe).1.1 = s2vInodeNum i := by simp only [hk₂, hfree]
    have hne := s2vInodeNum_ne_invInode i
    simp only [hino]
    refine ⟨by rw [← hiff]; simp [hne], fun _ => ⟨fun n hn => ?_, hd⟩, fun he => absurd he hne⟩
    -- the number was not in use because its entry was free
    obtain ⟨j, -, hl, -, hij⟩ := (h.represents n _).1 hn
    have : i = j := by unfold s2vInodeNum at hij; omega
    rw [← this, (Info.freeEntry_eq_some hfree).2] at hl
    cases hl

theorem exec_remove (h : NamedOnce info) (fn : CStr) :
    ∃ h' : NamedOnce ((Op.remove fn).exec info),
      (Op.remove fn).Spec info h.directory h'.directory := by
  obtain ⟨k, hk⟩ := sfsRemove_eq h.toPlain fn
  unfold Op.Spec
  cases hfind : info.find fn with
  | none =>
    have hino : (sfsRemove info fn).1 = invInode := by simp only [hk, hfind]
    have hexec : (Op.remove fn).exec info = info.ticks k := by simp only [Op.exec, hk, hfind]
    have hd0 : h.directory.find fn = none := by simp only [directory, hfind]; rfl
    rw [hexec]
    obtain ⟨h', hd⟩ := h.of_names (h.toMounted.ticks k) rfl fun _ _ => rfl
    refine ⟨h', ?_⟩
    simp only [hd, hd0, hino]
    refine ⟨by simp, rfl, ?_⟩
    rw [← hd0, Function.update_eq_self]
  | some i =>
    have hino : (sfsRemove info fn).1 = s2vInodeNum i := by simp only [hk, hfind]
    have hexec : (Op.remove fn).exec info = ((info.ticks k).setUsed
        (clear info.usedBlocks (info.entry i).chain)).setEntry i .zero := by
      simp only [Op.exec, hk, hfind]
    have hd0 : h.directory.find fn = some (s2vInodeNum i) := by
      simp only [directory, hfind]
      rfl
    rw [hexec]
    obtain ⟨h', hd⟩ := h.remove ((h.toMounted.ticks k).setUsed
      (clear info.usedBlocks (info.entry i).chain)) rfl (fun _ => rfl) hfind
    refine ⟨h', ?_⟩
    simp only [hd0, hino]
    exact ⟨by simp [s2vInodeNum_ne_invInode], rfl, hd⟩

theorem exec_update (h : NamedOnce info) (ino size : Int) (timestamp perms : Option Int) :
    ∃ h' : NamedOnce ((Op.update ino size timestamp perms).exec info),
      h'.directory = h.directory := by
  obtain ⟨k, hk⟩ := sfsUpdate_eq h.toPlain ino (some size) timestamp perms
  have hm := Op.exec_mounted h.toMounted (.update ino size timestamp perms)
  simp only [Op.exec, hk] at hm ⊢
  refine h.of_names hm rfl fun i _ => ?_
  rw [name_setEntry ((h.toPlain.ticks k).setUsed _) (by simp)]
  rfl

theorem exec_getBlock (h : NamedOnce info) (ino : Int) (iblock : Nat) (cr : Bool) :
    ∃ h' : NamedOnce ((Op.getBlock ino iblock cr).exec info), h'.directory = h.directory := by
  have hm := Op.exec_mounted h.toMounted (.getBlock ino iblock cr)
  obtain ⟨k, he | ⟨_, _, _, _, hne, -⟩ | ⟨_, _, hne, -⟩ | ⟨_, _, _, _, _, _, hne, -⟩ |
    ⟨ino', iblock', b, hop', -, -, -, he⟩⟩ := Op.exec_cases h.toPlain (.getBlock ino iblock cr)
  · rw [he]
    exact h.of_names (h.toMounted.ticks k) rfl fun _ _ => rfl
  · cases hne
  · cases hne
  · cases hne
  · rw [he] at hm ⊢
    refine h.of_names hm rfl fun i _ => ?_
    rw [name_setEntry ((h.toPlain.ticks k).setUsed _) (by simp)]
    rfl

/-- **One step.** Every admissible call keeps names unique and acts on the map as it should. -/
theorem exec (h : NamedOnce info) {op : Op} (hop : op.Admissible info) :
    ∃ h' : NamedOnce (op.exec info), op.Spec info h.directory h'.directory := by
  cases op with
  | lookup fn => exact h.exec_lookup fn
  | create fn perms now => exact h.exec_create hop.1 hop.2 perms now
  | remove fn => exact h.exec_remove fn
  | update ino size timestamp perms => exact h.exec_update ino size timestamp perms
  | getBlock ino iblock cr => exact h.exec_getBlock ino iblock cr

end NamedOnce

/-! ## Runs -/

/-- A mounted 512-byte volume in which no entry is in use. -/
structure MountedUnnamed (info : Info) : Prop where
  mounted : ∃ vmallocOk info₀, Blocks512 info₀ ∧ initBrowsing vmallocOk info₀ = (0, info)
  blockSize : info.sb.blockSize = 512
  unnamed : ∀ i : Nat, i < info.sb.entryCount.toNat → (info.entry i).live = false

theorem MountedUnnamed.namedOnce {info : Info} (h : MountedUnnamed info) : NamedOnce info := by
  obtain ⟨vmallocOk, info₀, hdev, hmount⟩ := h.mounted
  obtain ⟨hplain, hsb, htype, -⟩ := mounted_of_initBrowsing hdev hmount h.blockSize
  refine ⟨⟨hplain, table_le_of_dead hplain hsb htype h.unnamed⟩, fun i hi hl => ?_,
    fun i j hi _ hl _ _ => ?_⟩ <;>
  · rw [h.unnamed i hi] at hl
    cases hl

/-- **The directory.** After any admissible calls on an empty table the entries in use represent an
injective map from names to inode numbers, and the next call, whichever it is, reads or changes that
map as it should. -/
theorem directory_refines {info : Info} (h : MountedUnnamed info) {ops : List Op}
    (hops : Along Op.exec (fun s op => op.Admissible s) info ops) :
    let s := run Op.exec info ops
    ∃ d : Directory, Represents s d ∧ ∀ op : Op, op.Admissible s →
      ∃ d' : Directory, Represents (op.exec s) d' ∧ op.Spec s d d' := by
  have hrun : NamedOnce (run Op.exec info ops) :=
    Along.invariant (I := NamedOnce) (fun _ _ hs hop => (hs.exec hop).1) h.namedOnce hops
  refine ⟨hrun.directory, hrun.represents, fun op hop => ?_⟩
  obtain ⟨h', hspec⟩ := hrun.exec hop
  exact ⟨h'.directory, h'.represents, hspec⟩

/-- Two files on a ten-block volume, one of them removed and its entry taken again. -/
theorem directory_refines_formatted :
    let ops : List Op := [.create ⟨[97], by decide⟩ 6 0, .create ⟨[98, 99], by decide⟩ 6 0,
      .getBlock 3 0 true, .remove ⟨[97], by decide⟩, .update (-7) 40 none none,
      .create ⟨[100], by decide⟩ 6 0]
    MountedUnnamed (formatted 5120) ∧
      Along Op.exec (fun s op => op.Admissible s) (formatted 5120) ops ∧
      ∃ d : Directory, Represents (run Op.exec (formatted 5120) ops) d ∧
        d.find ⟨[100], by decide⟩ = some 2 := by
  obtain ⟨-, hempty⟩ := mountedEmpty_formatted 5120 (by decide) (by decide)
  have h : MountedUnnamed (formatted 5120) := ⟨hempty.mounted, hempty.blockSize, fun i hi => by
    rw [hempty.table_empty i hi, FileEntry.live_zero]⟩
  have hops : Along Op.exec (fun s op => op.Admissible s) (formatted 5120)
      [.create ⟨[97], by decide⟩ 6 0, .create ⟨[98, 99], by decide⟩ 6 0, .getBlock 3 0 true,
        .remove ⟨[97], by decide⟩, .update (-7) 40 none none, .create ⟨[100], by decide⟩ 6 0] := by
    decide +kernel
  obtain ⟨d, hd, -⟩ := directory_refines h hops
  exact ⟨h, hops, d, hd, (hd _ _).2 ⟨0, by decide +kernel⟩⟩

end LinuxDrivers.Sfs
