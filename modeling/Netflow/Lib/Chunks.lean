import Mathlib.Data.List.Induction

set_option autoImplicit false

/-! # A text that comes in pieces

A machine reads a text letter by letter (`step`) and tidies up at the end of each piece (`tidy`): it
hands over what it has held back so far. Any of the two may fail. When tidying up at the ends of the
pieces makes no difference to the piece behind, a text is read to the same end as in one piece
(`foldlM_readPiece`). It makes none anywhere when it makes none in front of a letter, once the machine
has tidied up behind it (`Tidy.tidy_step`), and what it forgets makes none when no letter tells the
states apart (`readPiece_congr`).
-/

namespace Netflow

section Chunks

variable {σ β : Type} (step : σ → β → Option σ) (tidy : σ → Option σ)

/-- The letters of a piece and its end. -/
def readPiece (s : σ) (l : List β) : Option σ := (l.foldlM step s).bind tidy

variable {step tidy}

/-- **The pieces of a text do not matter** when tidying up at the end of each makes no difference to
the next one. -/
theorem foldlM_readPiece {s : σ} (htidy : tidy s = some s) {pieces : List (List β)}
    (hcut : ∀ before l after, pieces = before ++ l :: after → ∀ t, before.flatten.foldlM step s = some t →
      ((tidy t).bind fun u => readPiece step tidy u l) = readPiece step tidy t l) :
    pieces.foldlM (readPiece step tidy) s = readPiece step tidy s pieces.flatten := by
  induction pieces using List.reverseRecOn with
  | nil => exact htidy.symm
  | append_singleton before l ih =>
      have hbefore := ih fun a m b heq => hcut a m (b ++ [l]) (by rw [heq, List.append_assoc]; rfl)
      have hall : readPiece step tidy s (before ++ [l]).flatten =
          (before.flatten.foldlM step s).bind fun t => readPiece step tidy t l := by
        rw [List.flatten_append, List.flatten_singleton, readPiece, List.foldlM_append]
        exact Option.bind_assoc ..
      have hlast : ∀ u, [l].foldlM (readPiece step tidy) u = readPiece step tidy u l := by
        intro u
        rw [List.foldlM_cons]
        exact Option.bind_fun_some _
      rw [hall, List.foldlM_append, hbefore]
      simp only [hlast]
      rw [readPiece, Option.bind_eq_bind, Option.bind_assoc]
      refine Option.bind_congr fun t ht => ?_
      exact hcut before l [] rfl t ht

/-- States that no letter tells apart, nor the end of a piece, are the same to a piece. -/
theorem readPiece_congr {R : σ → σ → Prop}
    (hstep : ∀ {s t : σ} (c : β), R s t → Option.Rel R (step s c) (step t c))
    (htidy : ∀ {s t : σ}, R s t → tidy s = tidy t) {s t : σ} (h : R s t) (l : List β) :
    readPiece step tidy s l = readPiece step tidy t l := by
  induction l generalizing s t with
  | nil => exact htidy h
  | cons c l ih =>
      rw [readPiece, readPiece, List.foldlM_cons, List.foldlM_cons]
      have hrel := hstep c h
      generalize step s c = a at hrel ⊢
      generalize step t c = b at hrel ⊢
      cases hrel with
      | none => rfl
      | some h' => exact ih h'

variable (step tidy) in
/-- Tidying up twice is the same as once, and so is tidying up before and after a letter. -/
structure Tidy (Inv : σ → Prop) : Prop where
  inv_step : ∀ {s s' : σ} {c : β}, Inv s → step s c = some s' → Inv s'
  inv_tidy : ∀ {s s' : σ}, Inv s → tidy s = some s' → Inv s'
  tidy_tidy : ∀ {s s' : σ}, Inv s → tidy s = some s' → tidy s' = some s'
  tidy_step : ∀ {s : σ} (c : β), Inv s →
    ((tidy s).bind fun t => (step t c).bind tidy) = (step s c).bind tidy

namespace Tidy

variable {Inv : σ → Prop} (h : Tidy step tidy Inv)

include h

theorem inv_foldlM {s s' : σ} {l : List β} (hs : Inv s) (hread : l.foldlM step s = some s') :
    Inv s' := by
  induction l generalizing s with
  | nil =>
      cases hread
      exact hs
  | cons c l ih =>
      rw [List.foldlM_cons] at hread
      obtain ⟨t, hstep, hrest⟩ := Option.bind_eq_some_iff.mp hread
      exact ih (h.inv_step hs hstep) hrest

/-- **Tidying up in front of a piece** makes no difference. -/
theorem tidy_readPiece {s : σ} (hs : Inv s) (l : List β) :
    ((tidy s).bind fun t => readPiece step tidy t l) = readPiece step tidy s l := by
  induction l generalizing s with
  | nil =>
      show ((tidy s).bind fun t => tidy t) = tidy s
      cases htidy : tidy s with
      | none => rfl
      | some t => exact h.tidy_tidy hs htidy
  | cons c l ih =>
      have hcons : ∀ t, readPiece step tidy t (c :: l) =
          (step t c).bind fun u => readPiece step tidy u l := by
        intro t
        rw [readPiece, List.foldlM_cons]
        exact Option.bind_assoc ..
      -- the end of the first letter may be tidied up as well
      have hmore : ∀ t, Inv t → ((step t c).bind fun u => readPiece step tidy u l) =
          ((step t c).bind tidy).bind fun u => readPiece step tidy u l := by
        intro t ht
        rw [Option.bind_assoc]
        cases hstep : step t c with
        | none => rfl
        | some u => exact (ih (h.inv_step ht hstep)).symm
      rw [hcons s, hmore s hs, ← h.tidy_step c hs, Option.bind_assoc]
      cases htidy : tidy s with
      | none => rfl
      | some t =>
          show readPiece step tidy t (c :: l) =
            ((step t c).bind tidy).bind fun u => readPiece step tidy u l
          rw [hcons t, hmore t (h.inv_tidy hs htidy)]

end Tidy

end Chunks

/-! ## Texts in a row -/

section Arrived

variable {α β : Type}

/-- The texts that are whole in the first `n` letters of them all; `len` is the length of one. -/
def arrived (len : α → Nat) : Nat → List α → List α
  | _, [] => []
  | n, x :: rest => if len x ≤ n then x :: arrived len (n - len x) rest else []

theorem map_arrived (len : β → Nat) (f : α → β) (n : Nat) (xs : List α) :
    (arrived (fun x => len (f x)) n xs).map f = arrived len n (xs.map f) := by
  induction xs generalizing n with
  | nil => rfl
  | cons x rest ih =>
      rw [arrived, List.map_cons, arrived]
      split
      · rw [List.map_cons, ih]
      · rfl

/-- A prefix of two texts in a row is one of the first, or all of the first and one of the second. -/
theorem prefix_append_cases {l a b : List α} (h : l <+: a ++ b) :
    (l <+: a ∧ l.length < a.length) ∨ ∃ l', l = a ++ l' ∧ l' <+: b := by
  by_cases hlt : l.length < a.length
  · exact Or.inl ⟨List.prefix_of_prefix_length_le h (List.prefix_append a b) (Nat.le_of_lt hlt), hlt⟩
  · right
    obtain ⟨l', rfl⟩ := List.prefix_of_prefix_length_le (List.prefix_append a b) h (Nat.le_of_not_lt hlt)
    exact ⟨l', rfl, (List.prefix_append_right_inj a).mp h⟩

end Arrived

end Netflow
