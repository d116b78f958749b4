import Mathlib.Data.List.Basic

/-!
# Directory listings

`struct dir_context` with `dir_emit` and `dir_emit_dots`. A listing is made of several calls; each
one counts the entries from the start again, emits the one at the saved position and the ones behind
it, and stops when the buffer of the caller is full. So a call emits the rest of the entries it
counts, as far as it fits.
-/

namespace LinuxDrivers

/-- What `dir_emit` hands to the caller. -/
structure Dirent where
  name : List UInt8
  ino : UInt32
  type : Nat
  deriving DecidableEq

/-- `struct dir_context` with the entries emitted so far and the number that still fit. -/
structure DirContext where
  pos : Int
  room : Nat
  entries : List Dirent
  deriving DecidableEq

namespace DirContext

/-- `dir_emit`: fails when the buffer of the caller is full. -/
def emit (ctx : DirContext) (d : Dirent) : Bool × DirContext :=
  if ctx.room = 0 then (false, ctx)
  else (true, { ctx with room := ctx.room - 1, entries := ctx.entries ++ [d] })

/-- Emits `d` when the listing stands at `pos`, and moves on. -/
def emitAt (ctx : DirContext) (pos : Int) (d : Dirent) : Bool × DirContext :=
  if ctx.pos ≠ pos then (true, ctx)
  else
    match ctx.emit d with
    | (false, ctx) => (false, ctx)
    | (true, ctx) => (true, { ctx with pos := pos + 1 })

/-- `dir_emit_dots`, with the inode numbers of the directory and of its parent; `DT_DIR` is 4. -/
def emitDots (ctx : DirContext) (ino parent : UInt32) : Bool × DirContext :=
  match ctx.emitAt 0 ⟨[46], ino, 4⟩ with
  | (false, ctx) => (false, ctx)
  | (true, ctx) => ctx.emitAt 1 ⟨[46, 46], parent, 4⟩

/-- Emits the entries of `ds`, which stand at the positions from `pos` on. -/
def emitAll (ctx : DirContext) (pos : Int) : List Dirent → Bool × DirContext
  | [] => (true, ctx)
  | d :: ds =>
    match ctx.emitAt pos d with
    | (false, ctx) => (false, ctx)
    | (true, ctx) => emitAll ctx (pos + 1) ds

theorem emitAll_append (ctx : DirContext) (pos : Int) (ds es : List Dirent) :
    ctx.emitAll pos (ds ++ es) =
      match ctx.emitAll pos ds with
      | (false, ctx) => (false, ctx)
      | (true, ctx) => ctx.emitAll (pos + ds.length) es := by
  induction ds generalizing ctx pos with
  | nil => simp [emitAll]
  | cons d ds ih =>
    simp only [List.cons_append, emitAll]
    cases ctx.emitAt pos d with
    | mk ok ctx =>
      cases ok with
      | false => rfl
      | true =>
        simp only [ih]
        have hnext : pos + 1 + (ds.length : Int) = pos + ((ds.length + 1 : Nat) : Int) := by omega
        rw [List.length_cons, hnext]

/-- The entries behind the saved position are emitted as far as they fit. -/
theorem emitAll_eq {ctx : DirContext} {pos : Int} {ds : List Dirent} (h : pos ≤ ctx.pos) :
    ctx.emitAll pos ds =
      (decide ((ds.drop (ctx.pos - pos).toNat).length ≤ ctx.room),
        { pos := ctx.pos + (min ctx.room (ds.drop (ctx.pos - pos).toNat).length : Nat)
          room := ctx.room - (ds.drop (ctx.pos - pos).toNat).length
          entries := ctx.entries ++ (ds.drop (ctx.pos - pos).toNat).take ctx.room }) := by
  induction ds generalizing ctx pos with
  | nil => simp [emitAll]
  | cons d ds ih =>
    unfold emitAll emitAt
    by_cases hpos : ctx.pos = pos
    · have hzero : (ctx.pos - pos).toNat = 0 := by omega
      rw [if_neg (not_not.2 hpos), hzero, List.drop_zero]
      unfold emit
      by_cases hroom : ctx.room = 0
      · cases ctx
        simp_all
      · simp only [if_neg hroom]
        rw [ih (by simp)]
        obtain ⟨r, hr⟩ : ∃ r, ctx.room = r + 1 := ⟨ctx.room - 1, by omega⟩
        simp only [hr, Nat.add_sub_cancel, Int.sub_self, Int.toNat_zero, List.drop_zero,
          List.length_cons, List.take_succ_cons, List.append_assoc, List.singleton_append,
          Nat.add_le_add_iff_right, Nat.add_sub_add_right, hpos]
        congr 2
        omega
    · have hnext : (ctx.pos - pos).toNat = (ctx.pos - (pos + 1)).toNat + 1 := by omega
      rw [if_pos hpos, hnext, List.drop_succ_cons]
      exact ih (by omega)

end DirContext

/-- What part of a list has of an element that stands in it once. -/
theorem filter_take_drop {α : Type*} {p : α → Bool} {ds es : List α} {d : α} (hd : p d = true)
    (hds : ∀ x ∈ ds, p x = false) (hes : ∀ x ∈ es, p x = false) (n r : Nat) :
    (((ds ++ d :: es).drop n).take r).filter p =
      if n ≤ ds.length ∧ ds.length < n + r then [d] else [] := by
  have hnone : ∀ {l : List α}, (∀ x ∈ l, p x = false) → l.filter p = [] := fun hl =>
    List.filter_eq_nil_iff.2 fun x hx => by rw [hl x hx]; decide
  by_cases hn : n ≤ ds.length
  · rw [List.drop_append_of_le_length hn, List.take_append, List.filter_append,
      hnone fun x hx => hds x (List.mem_of_mem_drop (List.mem_of_mem_take hx)), List.nil_append,
      List.length_drop]
    cases hr : r - (ds.length - n) with
    | zero =>
      rw [List.take_zero, if_neg (by omega)]
      rfl
    | succ m =>
      rw [List.take_succ_cons, List.filter_cons_of_pos hd,
        hnone fun x hx => hes x (List.mem_of_mem_take hx), if_pos (by omega)]
  · have hdrop : (ds ++ d :: es).drop n = es.drop (n - ds.length - 1) := by
      rw [List.drop_append, List.drop_eq_nil_of_le (by omega), List.nil_append,
        show n - ds.length = n - ds.length - 1 + 1 by omega, List.drop_succ_cons]
      rfl
    rw [hdrop, hnone fun x hx => hes x (List.mem_of_mem_drop (List.mem_of_mem_take hx)),
      if_neg (by omega)]

/-- The entries in front of those of the directory. -/
def dots (ino parent : UInt32) : List Dirent := [⟨[46], ino, 4⟩, ⟨[46, 46], parent, 4⟩]

theorem emitDots_eq (ctx : DirContext) (ino parent : UInt32) :
    ctx.emitDots ino parent = ctx.emitAll 0 (dots ino parent) := by
  unfold DirContext.emitDots dots
  simp only [DirContext.emitAll, Int.zero_add]
  cases ctx.emitAt 0 ⟨[46], ino, 4⟩ with
  | mk ok ctx =>
    cases ok with
    | false => rfl
    | true =>
      simp only
      cases ctx.emitAt 1 ⟨[46, 46], parent, 4⟩ with
      | mk ok ctx => cases ok <;> rfl

end LinuxDrivers
