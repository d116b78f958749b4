import LinuxDrivers.Akpfs.DriverSpec
import LinuxDrivers.Akpfs.Mkfs

/-!
# The image that the formatter writes

On a device of at least four blocks the areas that `compute_akpfs_sb` computes follow one another
and fit, so every write of `make_akpfs` goes to an area of its own, and the image can be read off
area by area.
-/

namespace LinuxDrivers.Akpfs

/-! ## The super block -/

/-- The fields of the super block of a device of `n` blocks. -/
structure Computed (sb : Sb) (n : Nat) : Prop where
  blockSize : sb.blockSize = 4096
  blockCnt : sb.blockCnt.toNat = n
  inodesPerBlock : sb.inodesPerBlock = 32
  inodesBlockStart : sb.inodesBlockStart = 1
  inodesBlockCnt : sb.inodesBlockCnt.toNat = (n + 31) / 32
  freeBitsPerBlock : sb.freeBitsPerBlock = 32768
  freeBitsBlockStart : sb.freeBitsBlockStart.toNat = 1 + (n + 31) / 32
  freeBitsBlockCnt : sb.freeBitsBlockCnt.toNat = (n + 32767) / 32768
  dataBlockStart : sb.dataBlockStart.toNat = 1 + (n + 31) / 32 + (n + 32767) / 32768
  rootInode : sb.rootInode = 1

/-- A number of areas, rounded up, does not wrap around. -/
theorem toNat_roundUp {n : Nat} (hn : n < 2 ^ 19) {d : UInt32} (hd : 0 < d.toNat)
    (hle : d.toNat ≤ 32768) :
    ((UInt32.ofNat n + d - 1) / d).toNat = (n + (d.toNat - 1)) / d.toNat := by
  have hsum : (UInt32.ofNat n + d - 1).toNat = n + (d.toNat - 1) := by
    simp only [UInt32.toNat_add, UInt32.toNat_sub, UInt32.toNat_ofNat', UInt32.reduceToNat]
    omega
  rw [UInt32.toNat_div, hsum]

theorem computed_sb {devSize : Nat} (h : devSize < 2 ^ 31) :
    Computed (computeAkpfsSb devSize 4096) (devSize / 4096) := by
  have h32 : UInt32.ofNat (4096 / 128) = 32 := rfl
  have h8 : UInt32.ofNat (4096 * 8) = 32768 := rfl
  have h1 : (4096 + 4096 - 1) / 4096 = 1 := rfl
  have hn : devSize / 4096 < 2 ^ 19 := by omega
  unfold computeAkpfsSb
  simp only [h32, h8, h1, Nat.div_one]
  generalize devSize / 4096 = n at hn ⊢
  have hcnt : (UInt32.ofNat n).toNat = n := by
    rw [UInt32.toNat_ofNat']
    omega
  have hinodes : ((UInt32.ofNat n + 32 - 1) / 32).toNat = (n + 31) / 32 :=
    toNat_roundUp hn (by decide) (by decide)
  have hbits : ((UInt32.ofNat n + 32768 - 1) / 32768).toNat = (n + 32767) / 32768 :=
    toNat_roundUp hn (by decide) (by decide)
  generalize (UInt32.ofNat n + 32 - 1) / 32 = inodes at hinodes ⊢
  generalize (UInt32.ofNat n + 32768 - 1) / 32768 = bits at hbits ⊢
  refine ⟨rfl, hcnt, rfl, rfl, hinodes, rfl, ?_, hbits, ?_, rfl⟩
  · rw [UInt32.toNat_add, hinodes]
    simp only [UInt32.reduceToNat]
    omega
  · rw [UInt32.toNat_add, UInt32.toNat_add, hinodes, hbits]
    simp only [UInt32.reduceToNat]
    omega

theorem Computed.geometry {sb : Sb} {n : Nat} (h : Computed sb n) : Geometry sb := by
  have h1 := h.blockCnt
  have h2 := h.inodesBlockCnt
  have h3 := h.freeBitsBlockStart
  have h4 := h.freeBitsBlockCnt
  have h5 := h.dataBlockStart
  have h6 : sb.inodesBlockStart.toNat = 1 := by rw [h.inodesBlockStart]; rfl
  exact ⟨h.blockSize, h.inodesPerBlock, h.freeBitsPerBlock, by omega, by omega, by omega, by omega⟩

theorem Computed.bitsNumbered {sb : Sb} {n : Nat} (h : Computed sb n) (hn : n < 2 ^ 19) :
    BitsNumbered sb := by
  have hcnt := h.freeBitsBlockCnt
  unfold BitsNumbered
  omega

/-! ## The areas -/

/-- Clearing the inode blocks touches nothing else. -/
theorem clearInodeBlocks_ok {sb : Sb} {emptyInode : Mem} {n : Nat} {bc : UInt32}
    {o o' : CheckedFd} (h : clearInodeBlocks sb 4096 emptyInode n bc o = .ok o')
    (hper : sb.inodesPerBlock = 32) (hbc : bc.toNat + n < 2 ^ 20) {x : Nat}
    (hx : x < 4096 * bc.toNat ∨ 4096 * (bc.toNat + n) ≤ x) : o'.fd.data x = o.fd.data x := by
  induction n generalizing bc o with
  | zero =>
    cases h
    rfl
  | succ n ih =>
    rw [clearInodeBlocks, CheckedFd.bind_eq_ok] at h
    obtain ⟨o₁, hwrite, hrest⟩ := h
    have hnext : (bc + 1).toNat = bc.toNat + 1 := by
      rw [UInt32.toNat_add]
      simp only [UInt32.reduceToNat]
      omega
    have hstep : o'.fd.data x = o₁.fd.data x := by
      refine ih hrest ?_ ?_
      · rw [hnext]
        omega
      · rw [hnext]
        omega
    have hpos : (bc * UInt32.ofNat 4096).toNat = 4096 * bc.toNat := by
      rw [UInt32.toNat_mul]
      simp only [UInt32.toNat_ofNat']
      omega
    rw [hstep, CheckedFd.writeMany_ok hwrite, Fd.writeMany_outside]
    · rfl
    · rw [hper, CheckedFd.fd_lseek, hpos]
      simp only [Fd.lseek, UInt32.reduceToNat]
      omega

/-- The number of bytes of free bits that are written. -/
def bitBytes (freeBlocksStart blockCnt : Nat) : Nat :=
  max ((freeBlocksStart + 7) / 8) (blockCnt / 8) + if blockCnt % 8 ≠ 0 then 1 else 0

section FreeBits

variable {sb : Sb} {F : UInt32} {o o' : CheckedFd}

/-- The descriptors that the free bits are written through. -/
theorem writeFreeBits_ok (h : writeFreeBits sb F o = .ok o') : ∃ fd₁ fd₂ fd₃,
    fd₁ = Fd.writeMany 1 (fun _ => 0xFF) (F.toNat / 8) o.fd ∧
    fd₂ = (if F.toNat % 8 != 0 then fd₁.write 1 fun _ => 0xFF >>> UInt8.ofNat (8 - F.toNat % 8)
      else fd₁) ∧
    fd₃ = Fd.writeMany 1 (fun _ => 0) (sb.blockCnt.toNat / 8 - (F.toNat + 7) / 8) fd₂ ∧
    o'.fd = if sb.blockCnt.toNat % 8 != 0 then fd₃.write 1 fun _ => 0 else fd₃ := by
  have hdiv : ∀ w : UInt32, (w / 8).toNat = w.toNat / 8 := fun w => by
    rw [UInt32.toNat_div]
    rfl
  have hmod : ∀ w : UInt32, (w % 8).toNat = w.toNat % 8 := fun w => by
    rw [UInt32.toNat_mod]
    rfl
  have hi : F.toNat / 8 + (if F.toNat % 8 != 0 then 1 else 0) = (F.toNat + 7) / 8 := by
    simp only [bne_iff_ne]
    split <;> omega
  unfold writeFreeBits at h
  simp only [CheckedFd.bind_eq_ok, hdiv, hmod, hi, UInt8.zero_shiftRight] at h
  obtain ⟨o₁, h₁, o₂, h₂, o₃, h₃, h₄⟩ := h
  exact ⟨o₁.fd, o₂.fd, o₃.fd, CheckedFd.writeMany_ok h₁, CheckedFd.writeIf_ok h₂,
    CheckedFd.writeMany_ok h₃, CheckedFd.writeIf_ok h₄⟩

/-- The bytes of the free bits, and nothing else. -/
theorem writeFreeBits_bytes (h : writeFreeBits sb F o = .ok o') :
    (∀ x, x < o.fd.pos ∨ o.fd.pos + bitBytes F.toNat sb.blockCnt.toNat ≤ x →
      o'.fd.data x = o.fd.data x) ∧
    (∀ e < F.toNat / 8, o'.fd.data (o.fd.pos + e) = 0xFF) ∧
    (F.toNat % 8 ≠ 0 → o'.fd.data (o.fd.pos + F.toNat / 8) =
      0xFF >>> UInt8.ofNat (8 - F.toNat % 8)) ∧
    ∀ e, (F.toNat + 7) / 8 ≤ e → e < bitBytes F.toNat sb.blockCnt.toNat →
      o'.fd.data (o.fd.pos + e) = 0 := by
  obtain ⟨fd₁, fd₂, fd₃, h₁, h₂, h₃, h₄⟩ := writeFreeBits_ok h
  have p₁ : fd₁.pos = o.fd.pos + F.toNat / 8 := by rw [h₁, Fd.writeMany_pos, Nat.mul_one]
  have p₂ : fd₂.pos = o.fd.pos + (F.toNat + 7) / 8 := by
    rw [h₂]
    simp only [bne_iff_ne]
    split
    · simp only [Fd.write_pos]
      omega
    · omega
  have p₃ : fd₃.pos = o.fd.pos + max ((F.toNat + 7) / 8) (sb.blockCnt.toNat / 8) := by
    rw [h₃, Fd.writeMany_pos, Nat.mul_one]
    omega
  have p₄ : o'.fd.pos = o.fd.pos + bitBytes F.toNat sb.blockCnt.toNat := by
    unfold bitBytes
    rw [h₄]
    simp only [bne_iff_ne]
    split
    · simp only [Fd.write_pos]
      omega
    · omega
  -- what each of the writes leaves alone
  have k₁ : ∀ x, x < o.fd.pos ∨ fd₁.pos ≤ x → fd₁.data x = o.fd.data x := by
    intro x hx
    rw [h₁]
    exact Fd.writeMany_outside (by omega)
  have k₂ : ∀ x, x < fd₁.pos ∨ fd₂.pos ≤ x → fd₂.data x = fd₁.data x := by
    intro x hx
    rw [h₂] at hx ⊢
    exact Fd.writeIf_outside hx
  have k₃ : ∀ x, x < fd₂.pos ∨ fd₃.pos ≤ x → fd₃.data x = fd₂.data x := by
    intro x hx
    rw [h₃]
    exact Fd.writeMany_outside (by omega)
  have k₄ : ∀ x, x < fd₃.pos ∨ o.fd.pos + bitBytes F.toNat sb.blockCnt.toNat ≤ x →
      o'.fd.data x = fd₃.data x := by
    intro x hx
    rw [← p₄, h₄] at hx
    rw [h₄]
    exact Fd.writeIf_outside hx
  refine ⟨fun x hx => ?_, fun e he => ?_, fun hr => ?_, fun e h1 h2 => ?_⟩
  · have hb : max ((F.toNat + 7) / 8) (sb.blockCnt.toNat / 8) ≤
        bitBytes F.toNat sb.blockCnt.toNat := Nat.le_add_right _ _
    rw [k₄ x (by omega), k₃ x (by omega), k₂ x (by omega), k₁ x (by omega)]
  · rw [k₄ _ (.inl (by omega)), k₃ _ (.inl (by omega)), k₂ _ (.inl (by omega)), h₁]
    have := @Fd.writeMany_inside 1 (fun _ => 0xFF) (F.toNat / 8) o.fd e 0 he (by omega)
    rwa [Nat.mul_one, Nat.add_zero] at this
  · have hx : o.fd.pos + F.toNat / 8 < fd₂.pos := by omega
    rw [k₄ _ (.inl (by omega)), k₃ _ (.inl hx), h₂, if_pos (by simpa using hr), ← p₁,
      Fd.write_data]
    exact Mem.store_of_mem ⟨Nat.le_refl _, Nat.lt_succ_self _⟩
  · by_cases he : e < max ((F.toNat + 7) / 8) (sb.blockCnt.toNat / 8)
    · obtain ⟨j, rfl⟩ : ∃ j, e = (F.toNat + 7) / 8 + j := ⟨e - (F.toNat + 7) / 8, by omega⟩
      rw [k₄ _ (by omega), h₃, ← Nat.add_assoc, ← p₂]
      have := @Fd.writeMany_inside 1 (fun _ => 0)
        (sb.blockCnt.toNat / 8 - (F.toNat + 7) / 8) fd₂ j 0 (by omega) (by omega)
      rwa [Nat.mul_one, Nat.add_zero] at this
    · unfold bitBytes at h2
      have hr : sb.blockCnt.toNat % 8 ≠ 0 := by
        intro h0
        rw [if_neg (not_not.2 h0)] at h2
        omega
      rw [if_pos hr] at h2
      rw [h₄, if_pos (by simpa using hr), Fd.write_data, show o.fd.pos + e = fd₃.pos by omega]
      exact Mem.store_of_mem ⟨Nat.le_refl _, Nat.lt_succ_self _⟩

/-- Exactly the bits below `F` are set. -/
theorem writeFreeBits_bits (h : writeFreeBits sb F o = .ok o')
    (hF : F.toNat ≤ sb.blockCnt.toNat) {b : Nat} (hb : b < sb.blockCnt.toNat) :
    o'.fd.data.bit o.fd.pos b = decide (b < F.toNat) := by
  obtain ⟨-, hones, hrest, hzeros⟩ := writeFreeBits_bytes h
  have hmod : b % 8 < 8 := Nat.mod_lt _ (by omega)
  unfold Mem.bit
  by_cases h1 : b / 8 < F.toNat / 8
  · rw [hones _ h1, eq_ff_iff.1 rfl _ hmod, decide_eq_true (by omega)]
  · by_cases h2 : (F.toNat + 7) / 8 ≤ b / 8
    · have hlt : b / 8 < bitBytes F.toNat sb.blockCnt.toNat := by
        unfold bitBytes
        split <;> omega
      rw [hzeros _ h2 hlt, bitSet_zero hmod, decide_eq_false (by omega)]
    · have he : b / 8 = F.toNat / 8 := by omega
      rw [he, hrest (by omega), bitSet_ff_shiftRight (by omega) hmod]
      congr 1
      rw [eq_iff_iff]
      omega

end FreeBits

/-! ## The image -/

/-- What is on a formatted device. -/
structure Formatted (sb : Sb) (data : Mem) : Prop where
  sb_eq : Sb.ofMem data = sb
  root_eq : inode sb data 1 = rootInodeOf sb
  file_eq : inode sb data 2 = fileInodeOf sb
  bits : ∀ b < sb.blockCnt.toNat,
    data.bit (bitsAddr sb) b = decide (b < sb.dataBlockStart.toNat + 1)
  text : data.load (sb.dataBlockStart.toNat * 4096) fileData.length = fileData

/-- The free bits end in front of the data blocks. -/
theorem bitBytes_le {n : Nat} (h : 4 ≤ n) :
    bitBytes (1 + (n + 31) / 32 + (n + 32767) / 32768 + 1) n ≤ 4096 * ((n + 32767) / 32768) := by
  unfold bitBytes
  split <;> omega

theorem clearInodeBlocks_succeeds (sb : Sb) (blockSize : Nat) (emptyInode : Mem) {n : Nat}
    {bc : UInt32} {o : CheckedFd} (h : o.Reliable) :
    CheckedFd.Succeeds (clearInodeBlocks sb blockSize emptyInode n bc o) := by
  induction n generalizing bc o with
  | zero => exact ⟨o, rfl, h⟩
  | succ n ih =>
    have hseek : (o.lseek (bc * .ofNat blockSize).toNat).Reliable := h
    exact (hseek.writeMany _ _ _ _).bind fun o ho => ih ho

/-- Without write failures `make_akpfs` returns zero. -/
theorem makeAkpfs_succeeds {o : CheckedFd} (h : o.Reliable) (devSize blockSize : Nat)
    (stack : Mem) :
    CheckedFd.Succeeds (makeAkpfs o devSize blockSize stack) := by
  have hseek : ∀ (o : CheckedFd) (off : Nat), o.Reliable → (o.lseek off).Reliable :=
    fun _ _ ho => ho
  unfold makeAkpfs
  refine ((hseek _ _ h).write _ _ _).bind fun o ho => ?_
  refine (clearInodeBlocks_succeeds _ _ _ ho).bind fun o ho => ?_
  refine ((hseek _ _ ho).write _ _ _).bind fun o ho => ?_
  refine (ho.write _ _ _).bind fun o ho => ?_
  refine ((hseek _ _ ho).write _ _ _).bind fun o ho => ?_
  unfold writeFreeBits
  refine ((hseek _ _ ho).writeMany _ _ _ _).bind fun o ho => ?_
  refine (ho.writeIf _ _ _ _).bind fun o ho => ?_
  refine (ho.writeMany _ _ _ _).bind fun o ho => ?_
  exact ho.writeIf _ _ _ _

/-- The bytes of a formatted device, area by area. -/
structure Written (sb : Sb) (data : Mem) : Prop where
  sb_bytes : ∀ k < 44, data k = sb.bytes k
  root_bytes : ∀ k < 128, data (4224 + k) = (rootInodeOf sb).bytes k
  file_bytes : ∀ k < 128, data (4352 + k) = (fileInodeOf sb).bytes k
  bits : ∀ b < sb.blockCnt.toNat,
    data.bit (bitsAddr sb) b = decide (b < sb.dataBlockStart.toNat + 1)
  text_bytes : ∀ k < fileData.length,
    data (4096 * sb.dataBlockStart.toNat + k) = Mem.ofList fileData k

/-- Every write of `make_akpfs` goes to an area of its own. -/
theorem makeAkpfs_written {o o' : CheckedFd} {devSize : Nat} {stack : Mem}
    (hsize : devSize < 2 ^ 31) (h4 : 4 ≤ devSize / 4096)
    (h : makeAkpfs o devSize 4096 stack = .ok o') :
    Written (computeAkpfsSb devSize 4096) o'.fd.data := by
  have hc := computed_sb hsize
  unfold makeAkpfs at h
  simp only [CheckedFd.bind_eq_ok] at h
  generalize computeAkpfsSb devSize 4096 = sb at hc h ⊢
  obtain ⟨o₁, h₁, o₂, h₂, o₃, h₃, o₄, h₄, o₅, h₅, h₆⟩ := h
  have hroot : ((sb.inodesBlockStart + sb.rootInode / sb.inodesPerBlock) * UInt32.ofNat 4096 +
      sb.rootInode % sb.inodesPerBlock * 128).toNat = 4224 := by
    rw [hc.inodesBlockStart, hc.rootInode, hc.inodesPerBlock]
    rfl
  have hibs : sb.inodesBlockStart.toNat = 1 := by rw [hc.inodesBlockStart]; rfl
  have hibc := hc.inodesBlockCnt
  have hfbs := hc.freeBitsBlockStart
  have hdbs := hc.dataBlockStart
  have hbits := bitBytes_le h4
  have hmul : ∀ w : UInt32, w.toNat < 2 ^ 20 → (w * UInt32.ofNat 4096).toNat = 4096 * w.toNat := by
    intro w hw
    rw [UInt32.toNat_mul]
    simp only [UInt32.toNat_ofNat']
    omega
  have hF : (sb.dataBlockStart + 1).toNat = sb.dataBlockStart.toNat + 1 := by
    rw [UInt32.toNat_add]
    simp only [UInt32.reduceToNat]
    omega
  -- the successive images
  have e₁ : o₁.fd.data = o.fd.data.store 0 44 sb.bytes := by
    rw [CheckedFd.lseek_write_ok h₁, UInt32.zero_mul]
    rfl
  have e₃ := CheckedFd.lseek_write_ok h₃
  rw [hroot] at e₃
  have e₄ : o₄.fd.data = o₃.fd.data.store 4352 128 (fileInodeOf sb).bytes := by
    rw [CheckedFd.write_ok h₄, Fd.write_data, e₃]
  have e₅ := CheckedFd.lseek_write_ok h₅
  rw [hmul _ (by omega)] at e₅
  have hpos : (o₅.lseek (sb.freeBitsBlockStart * UInt32.ofNat 4096).toNat).fd.pos =
      bitsAddr sb := by
    rw [CheckedFd.fd_lseek, hmul _ (by omega), Nat.mul_comm]
    rfl
  have hlen : fileData.length = 21 := rfl
  have haddr : bitsAddr sb = 4096 * sb.freeBitsBlockStart.toNat := Nat.mul_comm _ _
  -- what each step leaves alone
  have k₂ : ∀ x, x < 4096 ∨ 4096 * (1 + sb.inodesBlockCnt.toNat) ≤ x →
      o₂.fd.data x = o₁.fd.data x := fun x hx =>
    clearInodeBlocks_ok h₂ hc.inodesPerBlock (by omega) (by rw [hibs]; omega)
  have k₃ : ∀ x, x < 4224 ∨ 4352 ≤ x → o₃.fd.data x = o₂.fd.data x := fun x hx => by
    rw [e₃]
    exact Mem.store_of_not_mem (by omega)
  have k₄ : ∀ x, x < 4352 ∨ 4480 ≤ x → o₄.fd.data x = o₃.fd.data x := fun x hx => by
    rw [e₄]
    exact Mem.store_of_not_mem (by omega)
  have k₅ : ∀ x, x < 4096 * sb.dataBlockStart.toNat → o₅.fd.data x = o₄.fd.data x := fun x hx => by
    rw [e₅]
    exact Mem.store_of_not_mem (by omega)
  have k₆ : ∀ x, x < bitsAddr sb ∨ 4096 * sb.dataBlockStart.toNat ≤ x →
      o'.fd.data x = o₅.fd.data x := fun x hx => by
    refine (writeFreeBits_bytes h₆).1 x ?_
    rw [hpos, hF, hc.blockCnt]
    rw [← hdbs] at hbits
    omega
  refine ⟨fun k hk => ?_, fun k hk => ?_, fun k hk => ?_, fun b hb => ?_, fun k hk => ?_⟩
  · rw [k₆ k (by omega), k₅ k (by omega), k₄ k (by omega), k₃ k (by omega), k₂ k (by omega), e₁,
      Mem.store_of_mem (by omega), Nat.sub_zero]
  · rw [k₆ _ (by omega), k₅ _ (by omega), k₄ _ (by omega), e₃]
    exact Mem.store_window hk
  · rw [k₆ _ (by omega), k₅ _ (by omega), e₄]
    exact Mem.store_window hk
  · have hbit := writeFreeBits_bits h₆ (by rw [hF, hdbs, hc.blockCnt]; omega) hb
    rw [hpos, hF] at hbit
    exact hbit
  · rw [k₆ _ (by omega), e₅]
    exact Mem.store_window hk

theorem makeAkpfs_formatted {o o' : CheckedFd} {devSize : Nat} {stack : Mem}
    (hsize : devSize < 2 ^ 31) (h4 : 4 ≤ devSize / 4096)
    (h : makeAkpfs o devSize 4096 stack = .ok o') :
    Formatted (computeAkpfsSb devSize 4096) o'.fd.data := by
  have hw := makeAkpfs_written hsize h4 h
  have hc := computed_sb hsize
  generalize computeAkpfsSb devSize 4096 = sb at hc hw ⊢
  have haddr : ∀ ino : UInt32, inodeAddr sb ino = 4096 + ino.toNat * 128 := by
    intro ino
    unfold inodeAddr
    rw [hc.inodesBlockStart]
    rfl
  refine ⟨?_, ?_, ?_, hw.bits, ?_⟩
  · rw [← Sb.ofMem_bytes sb]
    exact Sb.ofMem_congr hw.sb_bytes
  · unfold inode
    rw [haddr, ← Inode.ofMem_bytes (rootInodeOf sb)]
    exact Inode.ofMem_congr hw.root_bytes
  · unfold inode
    rw [haddr, ← Inode.ofMem_bytes (fileInodeOf sb)]
    exact Inode.ofMem_congr hw.file_bytes
  · rw [Nat.mul_comm]
    exact Mem.load_ofList hw.text_bytes

end LinuxDrivers.Akpfs
