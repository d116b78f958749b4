import LinuxDrivers.Shell.BrowseSpec

/-!
# The write command

`sfs_write` collects standard input in the block buffer, whatever pieces `read` delivers, and stores
one block whenever the buffer is full. `storeBlocks` says what that comes down to: the full blocks
of the input go to free blocks, one after the other, until the input, the nine slots or the free
blocks run out. `storeTail` is the partial block at the end.
-/

namespace LinuxDrivers.Shell

open Sfs (FileEntry Info clear)

/-- The bytes stored at the start of block `b`. -/
def writeAt (info : Info) (b : Nat) (bytes : List UInt8) : Info :=
  { info with dev := { info.dev with
      data := info.dev.data.store (b * 512) bytes.length (.ofList bytes) } }

/-- Block `b` is taken and filled. -/
def fillBlock (info : Info) (b : Nat) (bytes : List UInt8) : Info :=
  writeAt (info.setUsed (Function.update info.usedBlocks b 1)) b bytes

/-- Stores the first `q` blocks of `d` in the slots from `n` on; the flag tells whether all of them
could be stored. -/
def storeBlocks : Nat → Nat → List UInt8 → FileEntry → Info → Bool × Nat × FileEntry × Info
  | 0, n, _, fe, info => (true, n, fe, info)
  | q + 1, n, d, fe, info =>
    if n = 9 then (false, n, fe, info)
    else
      match info.freeBlock with
      | none => (false, n, fe, info)
      | some b => storeBlocks q (n + 1) (d.drop 512) (fe.setBlock n (.ofInt b))
          (fillBlock info b (d.take 512))

/-- Stores the partial block `d` in slot `n`; the size of the file, its entry and the volume. -/
def storeTail (n : Nat) (d : List UInt8) (fe : FileEntry) (info : Info) :
    Nat × FileEntry × Info :=
  if n = 9 then (512 * n, fe, info)
  else
    match info.freeBlock with
    | none => (512 * n, fe.setBlock n (.ofInt (-1)), info)
    | some b => (512 * n + d.length, fe.setBlock n (.ofInt b), fillBlock info b d)

/-- All of the input: its full blocks and, when they could all be stored, the rest. -/
def storeInput (d : List UInt8) (fe : FileEntry) (info : Info) : Nat × FileEntry × Info :=
  match storeBlocks (d.length / 512) 0 d fe info with
  | (eof, n, fe, info) =>
    if eof && d.length % 512 != 0 then storeTail n (d.drop (d.length / 512 * 512)) fe info
    else (512 * n, fe, info)

/-! ## Addresses

The offset of a block is a 32-bit product, so only blocks below `2 ^ 23` are written where they
belong. -/

/-- The number of free data blocks with a 32-bit offset. -/
def lowFree (info : Info) : Nat :=
  countFrom (info.usedBlocks · == 0)
    (min info.sb.partitionSize.toNat (2 ^ 23) - info.sb.dataBlockStart.toNat)
    info.sb.dataBlockStart.toNat

/-- The next `n` blocks that are taken have 32-bit offsets. -/
def Addressable (info : Info) (n : Nat) : Prop :=
  info.sb.partitionSize.toNat ≤ 2 ^ 23 ∨ n ≤ lowFree info

instance (info : Info) (n : Nat) : Decidable (Addressable info n) :=
  inferInstanceAs (Decidable (_ ∨ _))

/-- The number of blocks that `d` takes from slot `n` on. -/
def blocksFor (n : Nat) (d : List UInt8) : Nat := min (9 - n) ((d.length + 511) / 512)

theorem countFrom_fillBlock {info : Info} {n i b : Nat}
    (hfree : findFrom (info.usedBlocks · == 0) n i = some b) (bytes : List UInt8) :
    countFrom ((fillBlock info b bytes).usedBlocks · == 0) n i + 1 =
      countFrom (info.usedBlocks · == 0) n i := by
  rw [← countFrom_of_some hfree]
  congr 1
  apply countFrom_congr
  intro k _ _
  change (Function.update info.usedBlocks b 1 k == 0) = _
  by_cases hk : k = b
  · subst hk
    simp
  · simp [hk]

/-- **One allocation.** It gives a block with a 32-bit offset and leaves one less. -/
theorem Addressable.take {info : Info} {n b : Nat} (h : Addressable info n) (hn : 0 < n)
    (hfree : info.freeBlock = some b) (bytes : List UInt8) :
    b < 2 ^ 23 ∧ Addressable (fillBlock info b bytes) (n - 1) := by
  obtain ⟨-, hb, -⟩ := Info.freeBlock_eq_some hfree
  rcases h with h | h
  · exact ⟨by omega, .inl h⟩
  · -- the first free block is the first one with a 32-bit offset
    cases hlow : findFrom (info.usedBlocks · == 0)
        (min info.sb.partitionSize.toNat (2 ^ 23) - info.sb.dataBlockStart.toNat)
        info.sb.dataBlockStart.toNat with
    | none =>
      have hzero : lowFree info = 0 := countFrom_of_none hlow
      omega
    | some c =>
      obtain ⟨h1, h2, h3, h4⟩ := findFrom_eq_some hlow
      have hbc : info.freeBlock = some c := findFrom_of_first h1 (by omega) h3 h4
      rw [hfree, Option.some.injEq] at hbc
      subst hbc
      have hcount : lowFree (fillBlock info b bytes) + 1 = lowFree info :=
        countFrom_fillBlock hlow bytes
      exact ⟨by omega, .inr (by omega)⟩

theorem Addressable.mono {info : Info} {m n : Nat} (h : Addressable info n) (hmn : m ≤ n) :
    Addressable info m :=
  h.imp_right hmn.trans

/-- Once all full blocks are stored, so can the partial one be. -/
theorem Addressable.storeBlocks {info info' : Info} {n n' : Nat} {d : List UInt8}
    {fe fe' : FileEntry} (h : Addressable info (blocksFor n d)) (hn : n ≤ 9)
    (hrun : storeBlocks (d.length / 512) n d fe info = (true, n', fe', info'))
    (hrest : d.length % 512 ≠ 0) (hn' : n' ≠ 9) : Addressable info' 1 := by
  obtain ⟨q, hq⟩ : ∃ q, d.length / 512 = q := ⟨_, rfl⟩
  rw [hq] at hrun
  induction q generalizing n d fe info with
  | zero =>
    simp only [Shell.storeBlocks, Prod.mk.injEq, true_and] at hrun
    obtain ⟨rfl, -, rfl⟩ := hrun
    exact h.mono (by unfold blocksFor; omega)
  | succ q ih =>
    unfold Shell.storeBlocks at hrun
    split at hrun
    · cases hrun
    · next hne =>
      split at hrun
      · cases hrun
      · next b hfree =>
        have hlen : (d.drop 512).length = d.length - 512 := List.length_drop
        obtain ⟨-, hnext⟩ := h.take (by unfold blocksFor; omega) hfree (d.take 512)
        have hless : blocksFor (n + 1) (d.drop 512) ≤ blocksFor n d - 1 := by
          unfold blocksFor
          omega
        exact ih (hnext.mono hless) (by omega) (by omega) hrun (by omega)

/-! ## Standard input -/

theorem readStdin_eq {c : List UInt8} {cs : Stdin} {n : Nat} (hc : c ≠ []) (hn : 0 < n) :
    ∃ bytes rest, readStdin n (c :: cs) = (bytes, rest) ∧ 0 < bytes.length ∧
      bytes.length ≤ n ∧ bytes ++ rest.flatten = c ++ cs.flatten ∧
      ((∀ x ∈ cs, x ≠ []) → ∀ x ∈ rest, x ≠ []) := by
  have hpos : 0 < c.length := List.length_pos_iff.2 hc
  simp only [readStdin]
  by_cases hle : c.length ≤ n
  · rw [if_pos hle]
    exact ⟨c, cs, rfl, hpos, hle, rfl, id⟩
  · rw [if_neg hle]
    refine ⟨_, _, rfl, ?_, ?_, ?_, ?_⟩
    · rw [List.length_take]
      omega
    · rw [List.length_take]
      omega
    · rw [List.flatten_cons, ← List.append_assoc, List.take_append_drop]
    · intro hcs x hx
      rcases List.mem_cons.1 hx with rfl | hx
      · exact List.ne_nil_of_length_pos (by rw [List.length_drop]; omega)
      · exact hcs x hx

/-! ## The loop -/

section Loop

variable {s : State}

theorem toNat_low {b : Nat} (hb : b < 2 ^ 23) :
    (UInt32.ofInt b).toNat = b ∧ (UInt32.ofInt b * 512).toNat = b * 512 := by
  have hbn := toNat_ofInt b
  have hn : (UInt32.ofInt b).toNat = b := by omega
  exact ⟨hn, by rw [toNat_mul_512 (by omega), hn]⟩

/-- What the loop leaves behind when `d` is pending at its start. -/
structure Wrote (w : Writer) (s : State) (d : List UInt8) (eof : Bool) (w' : Writer) (s' : State) :
    Prop where
  stored : (eof, w'.blockI, w'.fe, s'.info) =
    storeBlocks (d.length / 512) w.blockI d w.fe s.info
  out_eq : s'.out = s.out
  total : w'.totalSize + 512 * w.blockI = w.totalSize + 512 * w'.blockI
  pending : eof = true → w'.curReadI = d.length % 512 ∧
    s'.block.load 0 w'.curReadI = d.drop (d.length / 512 * 512)

/-- A loop that stops early stores what it has stored so far. -/
theorem Wrote.stop {w : Writer} {d : List UInt8} {q : Nat} (hq : d.length / 512 = q + 1)
    (hstop : w.blockI = 9 ∨ s.info.freeBlock = none) {block : Mem} :
    Wrote w s d false w { s with block } := by
  refine ⟨?_, rfl, rfl, fun h => by cases h⟩
  rw [hq]
  unfold storeBlocks
  by_cases h9 : w.blockI = 9
  · rw [if_pos h9]
    rfl
  · rw [if_neg h9, hstop.resolve_left h9]
    rfl

/-- A stored block is the first one of what is pending. -/
theorem Wrote.step {w : Writer} {d : List UInt8} {q b : Nat} (hq : d.length / 512 = q + 1)
    (h9 : w.blockI ≠ 9) (hfree : s.info.freeBlock = some b) {w₁ : Writer} {s₁ : State}
    (hw₁ : (w₁.blockI, w₁.totalSize, w₁.fe) =
      (w.blockI + 1, w.totalSize + 512, w.fe.setBlock w.blockI (.ofInt b)))
    (hs₁ : s₁.info = fillBlock s.info b (d.take 512)) (hout : s₁.out = s.out) {eof : Bool}
    {w' : Writer} {s' : State} (h : Wrote w₁ s₁ (d.drop 512) eof w' s') :
    Wrote w s d eof w' s' := by
  simp only [Prod.mk.injEq] at hw₁
  obtain ⟨hblock, htotal, hfe⟩ := hw₁
  have hlen : (d.drop 512).length = d.length - 512 := List.length_drop
  have hq' : (d.drop 512).length / 512 = q := by omega
  refine ⟨?_, h.out_eq.trans hout, ?_, fun he => ?_⟩
  · rw [h.stored, hq', hq, hblock, hfe, hs₁]
    unfold storeBlocks
    rw [if_neg h9, hfree]
    cases q <;> rfl
  · have := h.total
    omega
  · obtain ⟨h1, h2⟩ := h.pending he
    refine ⟨by omega, ?_⟩
    rw [h2, List.drop_drop, hq', hq]
    congr 1
    omega

/-- Writing the full buffer to a block that was just taken stores its bytes there. -/
theorem info_writeFull (s : State) {block : Mem} {data : List UInt8} (h : block.load 0 512 = data)
    (b pos : Nat) :
    State.info { s with
      fd := ⟨s.fd.data.store (b * 512) 512 block, pos⟩
      block := block
      usedBlocks := Function.update s.usedBlocks b 1 } = fillBlock s.info b data := by
  have hlen : data.length = 512 := by rw [← h, Mem.length_load]
  have hbuf : ∀ k < 512, block k = Mem.ofList data k := by
    intro k hk
    rw [← h, Mem.ofList_load hk]
  unfold fillBlock writeAt State.info Info.setUsed
  simp only [hlen, Mem.store_congr hbuf]

section Full

variable {fuel : Nat} {w : Writer} {stdin rest : Stdin} {bytes : List UInt8}

/-- A full buffer that finds no slot or no block ends the loop. -/
theorem writeLoop_full_stop (hread : readStdin w.toRead stdin = (bytes, rest))
    (hpos : 0 < bytes.length) (hfull : bytes.length = w.toRead)
    (hstop : w.blockI = 9 ∨ s.info.freeBlock = none) :
    ∃ block, writeLoop (fuel + 1) w stdin s = (false, w, { s with block }) := by
  unfold writeLoop
  simp only [hread]
  rw [if_neg (by omega), if_pos hfull]
  by_cases h9 : w.blockI = 9
  · rw [if_pos h9]
    exact ⟨_, rfl⟩
  · have hget := getDataBlock_eq { s with
      block := s.block.store w.curReadI bytes.length (Mem.ofList bytes) }
    have hinfo : State.info { s with
      block := s.block.store w.curReadI bytes.length (Mem.ofList bytes) } = s.info := rfl
    rw [hinfo, hstop.resolve_left h9] at hget
    rw [if_neg h9, hget]
    exact ⟨_, rfl⟩

/-- A full buffer goes to the first free block, and the loop goes on with an empty one. -/
theorem writeLoop_full_store {P : List UInt8} {b : Nat} (hsize : s.sb.blockSize = 512)
    (hread : readStdin w.toRead stdin = (bytes, rest)) (hpos : 0 < bytes.length)
    (hfull : bytes.length = w.toRead) (h512 : w.curReadI + bytes.length = 512)
    (hP : s.block.load 0 w.curReadI = P) (h9 : w.blockI ≠ 9) (hfree : s.info.freeBlock = some b)
    (hlow : b < 2 ^ 23) :
    ∃ s₁, writeLoop (fuel + 1) w stdin s =
        writeLoop fuel
          ⟨0, 512, w.totalSize + 512, w.blockI + 1, w.fe.setBlock w.blockI (.ofInt b)⟩ rest s₁ ∧
      s₁.info = fillBlock s.info b (P ++ bytes) ∧ s₁.out = s.out := by
  obtain ⟨-, haddr⟩ := toNat_low hlow
  have hblock := Mem.load_store_append s.block w.curReadI bytes
  rw [hP, h512] at hblock
  have hget := getDataBlock_eq { s with
    block := s.block.store w.curReadI bytes.length (Mem.ofList bytes) }
  have hinfo : State.info { s with
    block := s.block.store w.curReadI bytes.length (Mem.ofList bytes) } = s.info := rfl
  rw [hinfo, hfree] at hget
  rw [writeLoop]
  simp only [hread]
  rw [if_neg (by omega), if_pos hfull, if_neg h9, hget]
  simp only [natCast_ne_neg_one, ↓reduceIte, State.lseek, Fd.lseek, Fd.write, hsize, haddr,
    UInt32.reduceToNat]
  exact ⟨_, rfl, info_writeFull s hblock b (b * 512 + 512), rfl⟩

end Full

/-- What the loop does, for every way the input arrives. -/
theorem writeLoop_eq {fuel : Nat} {w : Writer} {stdin : Stdin} {P : List UInt8}
    (hsize : s.sb.blockSize = 512)
    (hroom : Addressable s.info (blocksFor w.blockI (P ++ stdin.flatten)))
    (hnine : w.blockI ≤ 9) (hstdin : ∀ c ∈ stdin, c ≠ []) (hfuel : stdin.flatten.length < fuel)
    (hP : s.block.load 0 w.curReadI = P) (hcur : w.curReadI < 512)
    (hto : w.toRead = 512 - w.curReadI) :
    ∃ eof w' s', writeLoop fuel w stdin s = (eof, w', s') ∧
      Wrote w s (P ++ stdin.flatten) eof w' s' := by
  induction fuel generalizing w stdin P s with
  | zero => omega
  | succ fuel ih =>
    have hPlen : P.length = w.curReadI := by rw [← hP, Mem.length_load]
    cases stdin with
    | nil =>
      -- the end of the input: less than a block is pending
      refine ⟨true, w, s, rfl, ?_⟩
      rw [List.flatten_nil, List.append_nil]
      have hq : P.length / 512 = 0 := by omega
      refine ⟨?_, rfl, rfl, fun _ => ⟨by omega, ?_⟩⟩
      · rw [hq]
        rfl
      · rw [hq, hP, Nat.zero_mul, List.drop_zero]
    | cons c cs =>
      obtain ⟨bytes, rest, hread, hpos, hle, hflat, hrest⟩ :=
        readStdin_eq (hstdin c List.mem_cons_self) (by omega : 0 < w.toRead)
      have hrest' := hrest fun x hx => hstdin x (List.mem_cons_of_mem c hx)
      have hdata : P ++ (c :: cs).flatten = (P ++ bytes) ++ rest.flatten := by
        rw [List.flatten_cons, ← hflat, List.append_assoc]
      have hlen : (c :: cs).flatten.length = bytes.length + rest.flatten.length := by
        rw [List.flatten_cons, ← hflat, List.length_append]
      rw [hdata] at hroom ⊢
      by_cases hfull : bytes.length = w.toRead
      · -- the buffer is full: its 512 bytes are the first block of what is pending
        have h512 : (P ++ bytes).length = 512 := by rw [List.length_append]; omega
        have htake : ((P ++ bytes) ++ rest.flatten).take 512 = P ++ bytes := List.take_left' h512
        have hdrop : ((P ++ bytes) ++ rest.flatten).drop 512 = rest.flatten := List.drop_left' h512
        have hq : ((P ++ bytes) ++ rest.flatten).length / 512 = rest.flatten.length / 512 + 1 := by
          rw [List.length_append, h512]
          omega
        by_cases hstop : w.blockI = 9 ∨ s.info.freeBlock = none
        · obtain ⟨block, hrun⟩ := writeLoop_full_stop hread hpos hfull hstop
          exact ⟨_, _, _, hrun, Wrote.stop hq hstop⟩
        · obtain ⟨h9, hsome⟩ := not_or.1 hstop
          obtain ⟨b, hfree⟩ := Option.ne_none_iff_exists'.1 hsome
          obtain ⟨hlow, hnext⟩ := hroom.take (by unfold blocksFor; omega) hfree (P ++ bytes)
          obtain ⟨s₁, hstep, hfill, hout⟩ := writeLoop_full_store hsize hread hpos
            hfull (by omega) hP h9 hfree hlow
          have hroom' : blocksFor (w.blockI + 1) ([] ++ rest.flatten) ≤
              blocksFor w.blockI ((P ++ bytes) ++ rest.flatten) - 1 := by
            unfold blocksFor
            rw [List.nil_append, List.length_append, h512]
            omega
          have hsize₁ : s₁.sb.blockSize = 512 := by
            have hsb : s₁.info.sb = s.info.sb := by rw [hfill]; rfl
            exact (congrArg (·.blockSize) hsb).trans hsize
          obtain ⟨eof, w', s', hrun, hw⟩ := ih (P := [])
            (w := ⟨0, 512, w.totalSize + 512, w.blockI + 1, w.fe.setBlock w.blockI (.ofInt b)⟩)
            hsize₁ (by rw [hfill]; exact hnext.mono hroom') (by simp only; omega) hrest'
            (by omega) rfl (by simp) rfl
          rw [List.nil_append, ← hdrop] at hw
          exact ⟨eof, w', s', hstep.trans hrun,
            Wrote.step hq h9 hfree (by rfl) (by rw [hfill, htake]) hout hw⟩
      · -- less than a block so far: it stays in the buffer
        have hblock := Mem.load_store_append s.block w.curReadI bytes
        rw [hP] at hblock
        unfold writeLoop
        simp only [hread]
        rw [if_neg (by omega), if_neg hfull]
        obtain ⟨eof, w', s', hrun, hw⟩ := ih (P := P ++ bytes)
          (w := { w with
            curReadI := w.curReadI + bytes.length
            toRead := w.toRead - bytes.length })
          (s := { s with block := s.block.store w.curReadI bytes.length (Mem.ofList bytes) })
          hsize hroom hnine hrest' (by omega) hblock (by simp only; omega) (by simp only; omega)
        exact ⟨eof, w', s', hrun, hw.stored, hw.out_eq, hw.total, hw.pending⟩

end Loop

/-! ## The command -/

theorem writePartial_eq {s : State} {w : Writer} {d : List UInt8} (hsize : s.sb.blockSize = 512)
    (hroom : w.blockI ≠ 9 → Addressable s.info 1) (h9 : w.blockI ≤ 9)
    (htotal : w.totalSize = 512 * w.blockI) (hd : s.block.load 0 w.curReadI = d) :
    ((writePartial w s).1.totalSize, (writePartial w s).1.fe, (writePartial w s).2.info) =
      storeTail w.blockI d w.fe s.info ∧ (writePartial w s).2.out = s.out := by
  have hlen : d.length = w.curReadI := by rw [← hd, Mem.length_load]
  unfold writePartial storeTail
  by_cases he : w.blockI = 9
  · rw [if_pos he, if_pos he, htotal]
    exact ⟨rfl, rfl⟩
  · rw [if_neg he, if_neg he, getDataBlock_eq]
    have hlt : w.blockI < 9 := by omega
    cases hfree : s.info.freeBlock with
    | none =>
      simp only [FileEntry.block_setBlock, hlt, and_self, ↓reduceIte, htotal]
    | some b =>
      obtain ⟨hlow, -⟩ := (hroom he).take Nat.one_pos hfree []
      obtain ⟨hbn, haddr⟩ := toNat_low hlow
      have hne : UInt32.ofInt b ≠ UInt32.ofInt (-1) :=
        Sfs.ofInt_natCast_ne_invBlock (by omega)
      have hbuf : ∀ k < w.curReadI, s.block k = Mem.ofList d k := by
        intro k hk
        rw [← hd, Mem.ofList_load hk]
      simp only [FileEntry.block_setBlock, hlt, and_self, ↓reduceIte, hne, hsize, haddr, htotal,
        State.lseek, Fd.lseek, Fd.write, hlen, Mem.store_congr hbuf]
      unfold fillBlock writeAt State.info Info.setUsed
      simp only [hlen, and_self]

/-- The slots run out at nine. -/
theorem storeBlocks_le {q n : Nat} (hn : n ≤ 9) (d : List UInt8) (fe : FileEntry) (info : Info) :
    (storeBlocks q n d fe info).2.1 ≤ 9 := by
  induction q generalizing n d fe info with
  | zero => exact hn
  | succ q ih =>
    unfold storeBlocks
    split
    · exact hn
    · split
      · exact hn
      · exact ih (by omega) _ _ _

theorem storeBlocks_sb (q n : Nat) (d : List UInt8) (fe : FileEntry) (info : Info) :
    (storeBlocks q n d fe info).2.2.2.sb = info.sb := by
  induction q generalizing n d fe info with
  | zero => rfl
  | succ q ih =>
    unfold storeBlocks
    split
    · rfl
    · split
      · rfl
      · exact ih _ _ _ _

theorem storeTail_sb (n : Nat) (d : List UInt8) (fe : FileEntry) (info : Info) :
    (storeTail n d fe info).2.2.sb = info.sb := by
  unfold storeTail
  split
  · rfl
  · split <;> rfl

theorem storeInput_sb (d : List UInt8) (fe : FileEntry) (info : Info) :
    (storeInput d fe info).2.2.sb = info.sb := by
  unfold storeInput
  split
  · next hrun =>
    have hsb := storeBlocks_sb (d.length / 512) 0 d fe info
    rw [hrun] at hsb
    split
    · rw [storeTail_sb]
      exact hsb
    · exact hsb

theorem writeInput_eq {s : State} (h : Layout s.sb) (i : Int) (fe : FileEntry) {stdin : Stdin}
    (hroom : Addressable s.info (blocksFor 0 stdin.flatten)) (hstdin : ∀ c ∈ stdin, c ≠ [])
    (now : Int) :
    (writeInput s i fe stdin now).info =
      (storeInput stdin.flatten fe s.info).2.2.setEntry i
        { (storeInput stdin.flatten fe s.info).2.1 with
          size := .ofNat (storeInput stdin.flatten fe s.info).1, timestamp := .ofInt now } ∧
      (writeInput s i fe stdin now).out = s.out := by
  obtain ⟨eof, w', s', hrun, hw⟩ := writeLoop_eq (P := []) (w := ⟨0, 512, 0, 0, fe⟩) h.blockSize
    hroom (Nat.zero_le 9) hstdin (Nat.lt_succ_self _) rfl (by simp) rfl
  rw [List.nil_append] at hw
  have hstored := hw.stored
  have h9 : w'.blockI ≤ 9 := by
    have := storeBlocks_le (q := stdin.flatten.length / 512) (Nat.zero_le 9) stdin.flatten fe s.info
    rw [← hstored] at this
    exact this
  have htotal : w'.totalSize = 512 * w'.blockI := by
    have := hw.total
    simp only at this
    omega
  have hs' : s'.sb = s.sb := by
    have := storeBlocks_sb (stdin.flatten.length / 512) 0 stdin.flatten fe s.info
    rw [← hstored] at this
    exact this
  have hl' : Layout s'.sb := hs' ▸ h
  have hinput : writeInput s i fe stdin now = finishWrite i now eof w' s' := by
    unfold writeInput
    simp only [h.blockSize, UInt32.reduceToNat, hrun]
  rw [hinput]
  unfold finishWrite storeInput
  rw [← hstored]
  simp only
  by_cases hrest : eof = true ∧ stdin.flatten.length % 512 ≠ 0
  · -- a partial block is pending
    obtain ⟨rfl, hne⟩ := hrest
    obtain ⟨hcur, hblock⟩ := hw.pending rfl
    obtain ⟨htail, hout⟩ := writePartial_eq hl'.blockSize
      (hroom.storeBlocks (Nat.zero_le 9) hstored.symm hne) h9 htotal hblock
    have hcond : (true && w'.curReadI != 0) = true := by simpa [hcur] using hne
    have hcond' : (true && stdin.flatten.length % 512 != 0) = true := by simpa using hne
    have hl : Layout (writePartial w' s').2.sb := by
      have := storeTail_sb w'.blockI (stdin.flatten.drop (stdin.flatten.length / 512 * 512)) w'.fe
        s'.info
      rw [← htail] at this
      have hsb : (writePartial w' s').2.sb = s'.sb := this
      rw [hsb]
      exact hl'
    rw [if_pos hcond, if_pos hcond', ← htail]
    exact ⟨hl.info_writeEntry _ _, hout.trans hw.out_eq⟩
  · have hcond : ¬ (eof && w'.curReadI != 0) = true := by
      intro hc
      rw [Bool.and_eq_true, bne_iff_ne] at hc
      exact hrest ⟨hc.1, (hw.pending hc.1).1 ▸ hc.2⟩
    have hcond' : ¬ (eof && stdin.flatten.length % 512 != 0) = true := by
      intro hc
      rw [Bool.and_eq_true, bne_iff_ne] at hc
      exact hrest hc
    rw [if_neg hcond, if_neg hcond', htotal]
    exact ⟨hl'.info_writeEntry _ _, hw.out_eq⟩

/-- `sfs_write` of the shell releases the chain of the file and stores the input in free blocks. -/
theorem sfsWrite_eq {s : State} (h : Layout s.sb) (fn : CStr) {stdin : Stdin}
    (hroom : ∀ i : Nat, s.info.find fn = some i → (s.info.entry i).perms &&& 2 ≠ 0 →
      Addressable (s.info.setUsed (clear s.usedBlocks (s.info.entry i).chain))
        (blocksFor 0 stdin.flatten))
    (hstdin : ∀ c ∈ stdin, c ≠ []) (now : Int) :
    match s.info.find fn with
    | some i =>
      if (s.info.entry i).perms &&& 2 = 0 then
        (sfsWrite s fn stdin now).info = s.info ∧
          (sfsWrite s fn stdin now).out = s.out ++ notWritable fn
      else
        let r := storeInput stdin.flatten (s.info.entry i)
          (s.info.setUsed (clear s.usedBlocks (s.info.entry i).chain))
        (sfsWrite s fn stdin now).info =
          r.2.2.setEntry i { r.2.1 with size := .ofNat r.1, timestamp := .ofInt now } ∧
          (sfsWrite s fn stdin now).out = s.out
    | none => (sfsWrite s fn stdin now).info = s.info ∧
        (sfsWrite s fn stdin now).out = s.out ++ missing fn := by
  obtain ⟨pos, fe', hk⟩ := sfsLookup_eq h fn .zero
  unfold sfsWrite
  rw [hk]
  cases hfind : s.info.find fn with
  | none => exact ⟨rfl, rfl⟩
  | some i =>
    simp only [natCast_ne_neg_one, ↓reduceIte]
    by_cases hperm : (s.info.entry i).perms &&& 2 = 0
    · rw [if_pos hperm, if_pos hperm]
      exact ⟨rfl, rfl⟩
    · rw [if_neg hperm, if_neg hperm, putBlocks_eq]
      have hroom' := hroom i hfind hperm
      have hused : clear (s.lseek pos).usedBlocks
          (List.takeWhile (· != 0) (s.info.entry i).blocks.toList) =
            clear s.usedBlocks (s.info.entry i).chain := rfl
      rw [hused]
      generalize clear s.usedBlocks (s.info.entry i).chain = used at hroom' ⊢
      exact writeInput_eq (s := { s.lseek pos with usedBlocks := used }) h i _ hroom' hstdin now

end LinuxDrivers.Shell
