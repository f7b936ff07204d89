import Netflow.Lib.Cursor

set_option autoImplicit false

/-! # The pointer ring (`fifo.c`)

A ring of `length` entries with one entry always unused: the ring is empty when the cursors agree
and full when the write cursor stands right behind the read cursor. `FifoRing.contents` is the
list of the pointers between the cursors; a pop takes its first and a push appends to it.
-/

namespace Netflow

inductive Ret where
  | RET_OK
  | RET_FAIL
deriving DecidableEq

/-- `struct _FifoRing`. Both cursors stay below `length`, which is also why it is not zero. -/
structure FifoRing (α : Type) where
  r_cursor : Nat
  w_cursor : Nat
  length : Nat
  data : Nat → α
  r_lt : r_cursor < length
  w_lt : w_cursor < length

section Fifo

variable {α : Type}

/-- A cursor that goes on stays below `length`. -/
theorem FifoRing.next_lt (f : FifoRing α) (n : Nat) : n % f.length < f.length :=
  Nat.mod_lt n (Nat.zero_lt_of_lt f.r_lt)

theorem FifoRing.r_next_lt (f : FifoRing α) : (f.r_cursor + 1) % f.length < f.length := f.next_lt _

/-- `FifoNew` on a length above one; the entries hold whatever `malloc` returns. -/
def FifoNew (length : Nat) (h : 1 < length) (data : Nat → α) : FifoRing α where
  r_cursor := 0
  w_cursor := 0
  length := length
  data := data
  r_lt := by omega
  w_lt := by omega

/-- `FifoPop`; `none` is `RET_FAIL`. -/
def FifoPop (thiz : FifoRing α) : Option (α × FifoRing α) :=
  if thiz.r_cursor ≠ thiz.w_cursor then
    some (thiz.data thiz.r_cursor,
      { thiz with r_cursor := (thiz.r_cursor + 1) % thiz.length
                  r_lt := thiz.r_next_lt })
  else none

/-- `FifoPush`. -/
def FifoPush (thiz : FifoRing α) (data : α) : Ret × FifoRing α :=
  let w_cursor := (thiz.w_cursor + 1) % thiz.length
  if w_cursor ≠ thiz.r_cursor then
    (.RET_OK, { thiz with data := Function.update thiz.data thiz.w_cursor data
                          w_cursor := w_cursor
                          w_lt := thiz.next_lt _ })
  else (.RET_FAIL, thiz)

/-- Number of pointers in the ring. -/
def FifoRing.count (f : FifoRing α) : Nat := ahead f.length f.r_cursor f.w_cursor

/-- The pointers in the ring, the next one to be popped first. -/
def FifoRing.contents (f : FifoRing α) : List α :=
  segment f.length f.data f.r_cursor f.count

@[simp] theorem FifoRing.length_contents (f : FifoRing α) : f.contents.length = f.count :=
  length_segment _ _ _

theorem FifoRing.count_lt (f : FifoRing α) : f.count < f.length :=
  Nat.mod_lt _ (Nat.zero_lt_of_lt f.r_lt)

/-- The write cursor is the read cursor advanced by the number of pointers. -/
theorem FifoRing.w_cursor_eq (f : FifoRing α) :
    f.w_cursor = (f.r_cursor + f.count) % f.length := by
  have hr := f.r_lt
  have hw := f.w_lt
  rw [FifoRing.count, ahead, Nat.add_mod_mod,
    show f.r_cursor + (f.w_cursor + f.length - f.r_cursor) = f.w_cursor + f.length by omega,
    Nat.add_mod_right, Nat.mod_eq_of_lt hw]

/-- `count` is the only distance below `length` that leads from one cursor to the other. -/
theorem FifoRing.count_eq {f : FifoRing α} {a d : Nat} (hr : f.r_cursor = a % f.length)
    (hw : f.w_cursor = (a + d) % f.length) (hd : d < f.length) : f.count = d := by
  rw [FifoRing.count, hr, hw, ahead_mod (by omega) (by omega)]
  omega

theorem FifoRing.cursors_eq_iff (f : FifoRing α) : f.r_cursor = f.w_cursor ↔ f.count = 0 := by
  have hr := f.r_lt
  have hmod : f.r_cursor % f.length = f.r_cursor := Nat.mod_eq_of_lt hr
  constructor
  · intro h
    exact f.count_eq hmod.symm (by rw [← h, Nat.add_zero, hmod]) (by omega)
  · intro h
    rw [f.w_cursor_eq, h, Nat.add_zero, hmod]

/-! ## The contents of a new ring, after a pop and after a push -/

theorem contents_FifoNew {length : Nat} (h : 1 < length) (data : Nat → α) :
    (FifoNew length h data).contents = [] := by
  have hcount : (FifoNew length h data).count = 0 :=
    (FifoRing.cursors_eq_iff _).mp rfl
  rw [FifoRing.contents, hcount, segment_zero]

theorem FifoPop_eq_none_iff (f : FifoRing α) : FifoPop f = none ↔ f.contents = [] := by
  rw [← List.length_eq_zero_iff, f.length_contents, ← f.cursors_eq_iff, FifoPop]
  split <;> simp_all

/-- A pop returns the first pointer and leaves the others. -/
theorem contents_FifoPop {f f' : FifoRing α} {x : α} (h : FifoPop f = some (x, f')) :
    f.contents = x :: f'.contents ∧ f'.length = f.length := by
  rw [FifoPop] at h
  split at h
  · rename_i hne
    have hpos : f.count ≠ 0 := fun h0 => hne (f.cursors_eq_iff.mpr h0)
    have hlt := f.count_lt
    simp only [Option.some.injEq, Prod.mk.injEq] at h
    obtain ⟨rfl, rfl⟩ := h
    refine ⟨?_, rfl⟩
    have hcount : FifoRing.count { f with
        r_cursor := (f.r_cursor + 1) % f.length
        r_lt := Nat.mod_lt _ (Nat.zero_lt_of_lt f.r_lt) } = f.count - 1 := by
      refine FifoRing.count_eq (a := f.r_cursor + 1) rfl ?_ (show f.count - 1 < f.length by omega)
      show f.w_cursor = (f.r_cursor + 1 + (f.count - 1)) % f.length
      rw [f.w_cursor_eq]
      congr 1
      omega
    rw [FifoRing.contents, FifoRing.contents, hcount,
      show f.count = f.count - 1 + 1 by omega, segment_succ, Nat.mod_eq_of_lt f.r_lt, segment_mod]
    rfl
  · cases h

/-- The write cursor may advance exactly when one entry besides the next one is unused. -/
theorem FifoRing.push_room_iff (f : FifoRing α) :
    (f.w_cursor + 1) % f.length ≠ f.r_cursor ↔ f.count + 1 < f.length := by
  have hr : f.r_cursor % f.length = f.r_cursor := Nat.mod_eq_of_lt f.r_lt
  have hlt := f.count_lt
  have hnext : (f.w_cursor + 1) % f.length = (f.r_cursor + (f.count + 1)) % f.length := by
    rw [f.w_cursor_eq, mod_succ, Nat.add_assoc]
  rw [hnext]
  constructor
  · intro hne
    by_contra hfull
    rw [show f.count + 1 = f.length by omega, Nat.add_mod_right, hr] at hne
    exact hne rfl
  · intro hroom heq
    have hne : f.r_cursor % f.length ≠ (f.r_cursor + (f.count + 1)) % f.length :=
      mod_ne (by omega) (by omega)
    exact hne (by rw [hr, heq])

/-- A push into a ring with room appends. -/
theorem FifoPush_of_room {f : FifoRing α} (x : α) (h : f.count + 1 < f.length) :
    (FifoPush f x).1 = .RET_OK ∧ (FifoPush f x).2.contents = f.contents ++ [x] ∧
      (FifoPush f x).2.length = f.length := by
  rw [FifoPush, if_pos (f.push_room_iff.mpr h)]
  refine ⟨rfl, ?_, rfl⟩
  have hcount : FifoRing.count { f with
      data := Function.update f.data f.w_cursor x
      w_cursor := (f.w_cursor + 1) % f.length
      w_lt := Nat.mod_lt _ (Nat.zero_lt_of_lt f.w_lt) } = f.count + 1 := by
    refine FifoRing.count_eq (a := f.r_cursor) (Nat.mod_eq_of_lt f.r_lt).symm ?_ h
    show (f.w_cursor + 1) % f.length = (f.r_cursor + (f.count + 1)) % f.length
    rw [f.w_cursor_eq, mod_succ, Nat.add_assoc]
  rw [FifoRing.contents, FifoRing.contents, hcount, segment_append_one]
  congr 1
  · show segment f.length (Function.update f.data f.w_cursor x) f.r_cursor f.count = _
    rw [f.w_cursor_eq]
    exact segment_update _ _ (by omega) (by omega)
  · show [Function.update f.data f.w_cursor x ((f.r_cursor + f.count) % f.length)] = [x]
    rw [← f.w_cursor_eq, Function.update_self]

/-- A push into a full ring is refused and changes nothing. -/
theorem FifoPush_of_full {f : FifoRing α} (x : α) (h : f.length ≤ f.count + 1) :
    FifoPush f x = (.RET_FAIL, f) := by
  have hfull : ¬ (f.w_cursor + 1) % f.length ≠ f.r_cursor := fun hne => by
    have := f.push_room_iff.mp hne
    omega
  rw [FifoPush, if_neg hfull]

end Fifo

end Netflow
