import Netflow.Fifo.Basic

set_option autoImplicit false

/-! # The pointer ring, step by step

A pop compares the cursors, reads the entry and stores the read cursor; a push computes the next write
cursor and compares it, stores the entry and stores the write cursor. `PopAt` and `PushAt` say what
a call knows of the ring between its steps. As long as one call at most pops and one at most pushes,
each keeps what the other knows: the entries between the cursors are a queue.
-/

namespace Netflow

/-- Where a call stands: not begun, or behind its first or its second step. -/
inductive CallPc (α : Type) where
  | idle
  | popFound
  | popRead (x : α)
  | pushRoom (x : α) (w_cursor : Nat)
  | pushStored (x : α) (w_cursor : Nat)
deriving DecidableEq

section Split

variable {α : Type}

namespace FifoRing

/-- `thiz->r_cursor = (thiz->r_cursor + 1) % thiz->length`. -/
def advanceRead (f : FifoRing α) : FifoRing α :=
  { f with r_cursor := (f.r_cursor + 1) % f.length
           r_lt := f.r_next_lt }

/-- The local `w_cursor` of `FifoPush`. -/
def nextWrite (f : FifoRing α) : Nat := (f.w_cursor + 1) % f.length

/-- `thiz->data[thiz->w_cursor] = data`. -/
def storeEntry (f : FifoRing α) (x : α) : FifoRing α :=
  { f with data := Function.update f.data f.w_cursor x }

/-- `thiz->w_cursor = w_cursor`; the local was computed modulo `length`. -/
def advanceWrite (f : FifoRing α) (w_cursor : Nat) : FifoRing α :=
  { f with w_cursor := w_cursor % f.length
           w_lt := f.next_lt _ }

end FifoRing

/-- The steps of a pop, one behind the other, are `FifoPop`. -/
theorem FifoPop_eq_steps (f : FifoRing α) : FifoPop f =
    if f.r_cursor ≠ f.w_cursor then some (f.data f.r_cursor, f.advanceRead) else none := rfl

/-- The steps of a push, one behind the other, are `FifoPush`. -/
theorem FifoPush_eq_steps (f : FifoRing α) (x : α) : FifoPush f x =
    if f.nextWrite ≠ f.r_cursor then (.RET_OK, (f.storeEntry x).advanceWrite f.nextWrite)
    else (.RET_FAIL, f) := by
  have hnext : f.nextWrite % f.length = f.nextWrite := Nat.mod_mod _ _
  by_cases hne : f.nextWrite ≠ f.r_cursor
  · have hne' : (f.w_cursor + 1) % f.length ≠ f.r_cursor := hne
    rw [if_pos hne, FifoPush, if_pos hne']
    simp only [FifoRing.advanceWrite, FifoRing.storeEntry, hnext]
    rfl
  · have hne' : ¬(f.w_cursor + 1) % f.length ≠ f.r_cursor := hne
    rw [if_neg hne, FifoPush, if_neg hne']

/-- What a pop knows. -/
def PopAt (f : FifoRing α) : CallPc α → Prop
  | .popFound => f.contents ≠ []
  | .popRead x => f.contents.head? = some x
  | _ => True

/-- What a push knows. -/
def PushAt (f : FifoRing α) : CallPc α → Prop
  | .pushRoom _ w => w = f.nextWrite ∧ f.count + 1 < f.length
  | .pushStored x w => w = f.nextWrite ∧ f.count + 1 < f.length ∧ f.data f.w_cursor = x
  | _ => True

variable {f : FifoRing α} {x : α} {w : Nat} {pc : CallPc α}

/-! ## The steps of a pop -/

theorem popFound_of_ne (h : f.r_cursor ≠ f.w_cursor) : f.contents ≠ [] := by
  intro hnil
  rw [← List.length_eq_zero_iff, f.length_contents, ← f.cursors_eq_iff] at hnil
  exact h hnil

/-- The entry at the read cursor is the first one. -/
theorem head_contents (h : f.contents ≠ []) : f.contents.head? = some (f.data f.r_cursor) := by
  have hpos : f.count ≠ 0 := fun h0 =>
    h (List.length_eq_zero_iff.mp (f.length_contents.trans h0))
  rw [FifoRing.contents, show f.count = f.count - 1 + 1 by omega, segment_succ,
    Nat.mod_eq_of_lt f.r_lt, List.head?_cons]

theorem advanceRead_contents (h : f.contents ≠ []) :
    f.contents = f.data f.r_cursor :: f.advanceRead.contents := by
  have hne : f.r_cursor ≠ f.w_cursor := by
    rw [Ne, f.cursors_eq_iff, ← f.length_contents, List.length_eq_zero_iff]
    exact h
  exact (contents_FifoPop (f := f) (if_pos hne)).1

/-- A pop takes the first entry. -/
theorem advanceRead_of_head (h : f.contents.head? = some x) :
    f.contents = x :: f.advanceRead.contents := by
  have hne : f.contents ≠ [] := by
    rintro hnil
    rw [hnil] at h
    cases h
  have hhead := (head_contents hne).symm.trans h
  rw [advanceRead_contents hne, Option.some.inj hhead]

/-- A pop leaves a push its room. -/
theorem PushAt.advanceRead (h : PushAt f pc) (hne : f.contents ≠ []) :
    PushAt f.advanceRead pc := by
  have hcount : f.advanceRead.count ≤ f.count := by
    have hcontents := congrArg List.length (advanceRead_contents hne)
    rw [List.length_cons, FifoRing.length_contents, FifoRing.length_contents] at hcontents
    omega
  have hlength : f.advanceRead.length = f.length := rfl
  cases pc with
  | pushRoom x w =>
      obtain ⟨hw, hroom⟩ := h
      exact ⟨hw, by omega⟩
  | pushStored x w =>
      obtain ⟨hw, hroom, hdata⟩ := h
      exact ⟨hw, by omega, hdata⟩
  | _ => trivial

/-! ## The steps of a push -/

/-- The entry is stored behind the last one. -/
theorem contents_storeEntry (h : f.count + 1 < f.length) :
    (f.storeEntry x).contents = f.contents := by
  show segment f.length (Function.update f.data f.w_cursor x) f.r_cursor f.count = _
  rw [f.w_cursor_eq]
  exact segment_update _ _ (Nat.le_refl _) (by omega)

theorem PopAt.of_contents {g : FifoRing α} (h : PopAt f pc) (heq : g.contents = f.contents) :
    PopAt g pc := by
  cases pc with
  | popFound =>
      show g.contents ≠ []
      rw [heq]
      exact h
  | popRead x =>
      show g.contents.head? = some x
      rw [heq]
      exact h
  | _ => trivial

theorem PushAt.storeEntry (h : PushAt f (.pushRoom x w)) :
    PushAt (f.storeEntry x) (.pushStored x w) :=
  ⟨h.1, h.2, Function.update_self ..⟩

/-- The stored entry is the last one once the write cursor is stored. -/
theorem contents_advanceWrite (h : PushAt f (.pushStored x w)) :
    (f.advanceWrite w).contents = f.contents ++ [x] := by
  obtain ⟨rfl, hroom, hdata⟩ := h
  have hpush := (FifoPush_of_room (f := f) x hroom).2.1
  have hne : f.nextWrite ≠ f.r_cursor := f.push_room_iff.mpr hroom
  rw [FifoPush_eq_steps, if_pos hne] at hpush
  rw [← hpush]
  congr 1
  -- the entry is there already
  simp only [FifoRing.advanceWrite, FifoRing.storeEntry]
  congr 1
  rw [← hdata, Function.update_eq_self]

/-- A push leaves a pop the first entry. -/
theorem PopAt.append {g : FifoRing α} (h : PopAt f pc) (heq : g.contents = f.contents ++ [x]) :
    PopAt g pc := by
  cases pc with
  | popFound =>
      show g.contents ≠ []
      rw [heq]
      exact List.append_ne_nil_of_right_ne_nil _ (List.cons_ne_nil x [])
  | popRead y =>
      have hhead : f.contents.head? = some y := h
      show g.contents.head? = some y
      rw [heq, List.head?_append, hhead]
      rfl
  | _ => trivial

end Split

end Netflow
