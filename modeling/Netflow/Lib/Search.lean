import Mathlib.Data.List.Chain

set_option autoImplicit false

/-! # The first occurrence of a word in a text

`List.dropInfix?` splits a text at the first occurrence of a word. A word that has `y` right behind
`x` does not occur in a text in which `y` never stands right behind `x` (`Apart x y`). A text that
does not end with `x` either is `Sealed x y`: sealed texts, one behind the other, are sealed, so a text
put together from pieces is judged piece by piece.
-/

namespace Netflow

section Search

variable {α : Type} [BEq α] [LawfulBEq α] {text before word after : List α}

theorem dropInfix?_eq_none_iff : text.dropInfix? word = none ↔ ¬word <:+: text := by
  constructor
  · rintro hnone ⟨before, after, htext⟩
    -- some occurrence is a first one
    induction hn : before.length using Nat.strong_induction_on generalizing before after with
    | _ n ih =>
        by_cases hfirst : ∃ before' after' : List α,
            before'.length < n ∧ before' ++ word ++ after' = text
        · obtain ⟨before', after', hlt, htext'⟩ := hfirst
          exact ih before'.length hlt before' after' htext' rfl
        · have hsome : text.dropInfix? word = some (before, after) := by
            rw [List.dropInfix?_eq_some_iff]
            refine ⟨⟨word, htext.symm, BEq.rfl⟩, fun before' word' after' htext' hword => ?_⟩
            cases eq_of_beq hword
            by_contra hlt
            exact hfirst ⟨before', after', by omega, htext'.symm⟩
          rw [hnone] at hsome
          cases hsome
  · intro hnot
    cases hsplit : text.dropInfix? word with
    | none => rfl
    | some split =>
        obtain ⟨⟨word', htext, hword⟩, -⟩ := List.dropInfix?_eq_some_iff.mp hsplit
        cases eq_of_beq hword
        exact absurd ⟨split.1, split.2, htext.symm⟩ hnot

/-- **The first occurrence** of a word, when the word is nowhere in the text up to its last letter. -/
theorem dropInfix?_append (h : ¬word <:+: before ++ word.dropLast) :
    (before ++ word ++ after).dropInfix? word = some (before, after) := by
  have hne : word ≠ [] := by
    rintro rfl
    exact h List.nil_infix
  rw [List.dropInfix?_eq_some_iff]
  refine ⟨⟨word, rfl, BEq.rfl⟩, fun before' word' after' htext hword => ?_⟩
  cases eq_of_beq hword
  by_contra hlt
  -- an earlier occurrence ends before the last letter of this one
  have hearlier : before' ++ word <+: before ++ word ++ after := ⟨after', htext.symm⟩
  have hcut : before ++ word.dropLast <+: before ++ word ++ after :=
    ((List.prefix_append_right_inj before).mpr word.dropLast_prefix).trans (List.prefix_append _ _)
  have hlength : (before' ++ word).length ≤ (before ++ word.dropLast).length := by
    have hpos := List.length_pos_iff.mpr hne
    simp only [List.length_append, List.length_dropLast]
    omega
  have hprefix := List.prefix_of_prefix_length_le hearlier hcut hlength
  exact h ((List.suffix_append before' word).isInfix.trans hprefix.isInfix)

end Search

section Apart

variable {α : Type} {x y : α} {l l₁ l₂ u v : List α}

/-- `y` never stands right behind `x`. -/
def Apart (x y : α) (l : List α) : Prop := l.IsChain fun a b => ¬(a = x ∧ b = y)

instance [DecidableEq α] : Decidable (Apart x y l) :=
  inferInstanceAs (Decidable (l.IsChain fun a b => ¬(a = x ∧ b = y)))

/-- The end is not an `x`, so that `y` may follow. -/
structure Sealed (x y : α) (l : List α) : Prop where
  apart : Apart x y l
  last : l.getLast? ≠ some x

instance [DecidableEq α] : Decidable (Sealed x y l) :=
  decidable_of_iff (Apart x y l ∧ l.getLast? ≠ some x) ⟨fun h => ⟨h.1, h.2⟩, fun h => ⟨h.1, h.2⟩⟩

/-- A word with `y` right behind `x` does not occur. -/
theorem Apart.absent (h : Apart x y l) : ¬u ++ x :: y :: v <:+: l := by
  rintro ⟨before, after, rfl⟩
  have hword : (u ++ x :: y :: v).IsChain fun a b => ¬(a = x ∧ b = y) :=
    (List.IsChain.left_of_append h).right_of_append
  exact (List.isChain_cons_cons.mp hword.right_of_append).1 ⟨rfl, rfl⟩

theorem Apart.of_not_mem (h : x ∉ l) : Apart x y l := by
  refine List.Pairwise.isChain (List.pairwise_of_forall_mem_list fun a ha b _ hab => ?_)
  exact h (hab.1 ▸ ha)

theorem Apart.of_not_mem_right (h : y ∉ l) : Apart x y l := by
  refine List.Pairwise.isChain (List.pairwise_of_forall_mem_list fun a _ b hb hab => ?_)
  exact h (hab.2 ▸ hb)

theorem apart_cons_cons {a b : α} :
    Apart x y (a :: b :: l) ↔ ¬(a = x ∧ b = y) ∧ Apart x y (b :: l) :=
  List.isChain_cons_cons

theorem Apart.drop (h : Apart x y l) (n : Nat) : Apart x y (l.drop n) := List.IsChain.drop h n

theorem Apart.append_of_head (h₁ : Apart x y l₁) (h₂ : Apart x y l₂) (hhead : l₂.head? ≠ some y) :
    Apart x y (l₁ ++ l₂) :=
  List.IsChain.append h₁ h₂ fun _ _ _ hb hab => hhead (hab.2 ▸ hb)

theorem Sealed.of_not_mem (h : x ∉ l) : Sealed x y l :=
  ⟨.of_not_mem h, fun hlast => h (List.mem_of_getLast? hlast)⟩

theorem Sealed.append_apart (h₁ : Sealed x y l₁) (h₂ : Apart x y l₂) : Apart x y (l₁ ++ l₂) :=
  List.IsChain.append h₁.apart h₂ fun _ ha _ _ hab => h₁.last (hab.1 ▸ ha)

/-- The end of two texts is one of their ends. -/
theorem getLast?_append_ne (h₁ : l₁.getLast? ≠ some x) (h₂ : l₂.getLast? ≠ some x) :
    (l₁ ++ l₂).getLast? ≠ some x := by
  rw [List.getLast?_append]
  cases hlast : l₂.getLast? with
  | none => exact h₁
  | some b =>
      rw [hlast] at h₂
      exact h₂

/-- **Sealed pieces** make a sealed text. -/
theorem Sealed.append (h₁ : Sealed x y l₁) (h₂ : Sealed x y l₂) : Sealed x y (l₁ ++ l₂) :=
  ⟨h₁.append_apart h₂.apart, getLast?_append_ne h₁.last h₂.last⟩

/-- A sealed text behind one that may end with `x`, when it does not start with `y`. -/
theorem Apart.append_sealed (h₁ : Apart x y l₁) (h₂ : Sealed x y l₂) (hhead : l₂.head? ≠ some y)
    (hne : l₂ ≠ []) : Sealed x y (l₁ ++ l₂) := by
  refine ⟨h₁.append_of_head h₂.apart hhead, ?_⟩
  rw [List.getLast?_append_of_ne_nil l₁ hne]
  exact h₂.last

end Apart

end Netflow
