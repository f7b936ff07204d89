import Mathlib.Data.Finset.Card
import Mathlib.Logic.Relation
import Mathlib.Tactic.Common

set_option autoImplicit false

/-! # Following a pointer

A node points to the next one (`next : ν → Option ν`), and following the pointers from a node leads
to others (`Leads`), along circles or into nodes that point nowhere: no shape is assumed.

`seek` follows the pointers up to the first node at which it is to stop, in a bounded number of turns.
With a turn for every node that may be passed, and one for the last, it finds exactly the nodes that
the pointers lead to before another stop (`seek_eq_some_iff`): a walk that takes more turns comes back
to a node and never ends.
-/

namespace Netflow

open Relation

section Follow

variable {ν β : Type} {next next' : ν → Option ν} {a b : ν}

/-- Following the pointers from `a` leads to `b`. -/
def Leads (next : ν → Option ν) : ν → ν → Prop := ReflTransGen fun x y => next x = some y

/-- The first step of a way to another node. -/
theorem Leads.cases_ne (h : Leads next a b) (hab : a ≠ b) :
    ∃ x, next a = some x ∧ Leads next x b := by
  obtain heq | hstep := h.cases_head
  · exact absurd heq hab
  · exact hstep

/-- A node that points nowhere leads to itself only. -/
theorem Leads.eq_of_none (h : Leads next a b) (ha : next a = none) : a = b := by
  by_contra hab
  obtain ⟨x, hx, -⟩ := h.cases_ne hab
  rw [ha] at hx
  cases hx

/-- A way along changed pointers, from a node `a`, follows the old ones up to the first node that was
changed. -/
theorem Leads.of_changed (next : ν → Option ν) (h : Leads next' a b) :
    Leads next a b ∨ ∃ x, Leads next a x ∧ next' x ≠ next x := by
  induction h with
  | refl => exact Or.inl ReflTransGen.refl
  | @tail x y _ hstep ih =>
      rcases ih with hx | hchanged
      · by_cases hsame : next' x = next x
        · exact Or.inl (hx.tail (hsame ▸ hstep))
        · exact Or.inr ⟨x, hx, hsame⟩
      · exact Or.inr hchanged

/-- Following `next` from `a`, at most `turns` nodes, up to one at which `stop` gives a result. -/
def seek (stop : ν → Option β) (next : ν → Option ν) : Nat → ν → Option β
  | 0, _ => none
  | turns + 1, a =>
      match stop a with
      | some r => some r
      | none => (next a).bind (seek stop next turns)

variable {stop : ν → Option β} {r : β}

/-- A step at a node at which the walk does not stop. -/
def Passes (stop : ν → Option β) (next : ν → Option ν) (x y : ν) : Prop :=
  stop x = none ∧ next x = some y

theorem seek_of_stop {turns : Nat} (h : stop a = some r) : seek stop next (turns + 1) a = some r := by
  rw [seek, h]

theorem seek_of_pass {turns : Nat} (h : Passes stop next a b) :
    seek stop next (turns + 1) a = seek stop next turns b := by
  rw [seek, h.1, h.2, Option.bind_some]

/-- The first turn of a walk with a result. -/
theorem seek_succ_eq_some {turns : Nat} (h : seek stop next (turns + 1) a = some r) :
    stop a = some r ∨ ∃ b, Passes stop next a b ∧ seek stop next turns b = some r := by
  rw [seek] at h
  split at h
  · next hstop => exact Or.inl (hstop.trans h)
  · next hstop =>
      obtain ⟨b, hb, hrest⟩ := Option.bind_eq_some_iff.mp h
      exact Or.inr ⟨b, ⟨hstop, hb⟩, hrest⟩

theorem seek_mono {turns turns' : Nat} (h : seek stop next turns a = some r) (hle : turns ≤ turns') :
    seek stop next turns' a = some r := by
  induction turns generalizing a turns' with
  | zero => cases h
  | succ turns ih =>
      obtain ⟨turns', rfl⟩ := Nat.exists_eq_succ_of_ne_zero (by omega : turns' ≠ 0)
      obtain hstop | ⟨b, hb, hrest⟩ := seek_succ_eq_some h
      · exact seek_of_stop hstop
      · rw [seek_of_pass hb]
        exact ih hrest (Nat.le_of_succ_le_succ hle)

/-- A walk with a result comes to a stop. -/
theorem seek_sound {turns : Nat} (h : seek stop next turns a = some r) :
    ∃ b, ReflTransGen (Passes stop next) a b ∧ stop b = some r := by
  induction turns generalizing a with
  | zero => cases h
  | succ turns ih =>
      obtain hstop | ⟨x, hx, hrest⟩ := seek_succ_eq_some h
      · exact ⟨a, .refl, hstop⟩
      · obtain ⟨b, hb, hstop⟩ := ih hrest
        exact ⟨b, hb.head hx, hstop⟩

theorem seek_complete (h : ReflTransGen (Passes stop next) a b) (hstop : stop b = some r) :
    ∃ turns, seek stop next turns a = some r := by
  induction h using ReflTransGen.head_induction_on with
  | refl => exact ⟨1, seek_of_stop hstop⟩
  | head hx _ ih =>
      obtain ⟨turns, hseek⟩ := ih
      exact ⟨turns + 1, (seek_of_pass hx).trans hseek⟩

/-- **A walk that comes back** to a node never stops. -/
theorem seek_of_circle (h : TransGen (Passes stop next) a a) (turns : Nat) :
    seek stop next turns a = none := by
  -- every node that leads to `a` is passed, and so is `a`
  suffices hall : ∀ x, ReflTransGen (Passes stop next) x a → seek stop next turns x = none from
    hall a .refl
  induction turns with
  | zero => exact fun _ _ => rfl
  | succ turns ih =>
      intro x hx
      obtain ⟨y, hy, hya⟩ : ∃ y, Passes stop next x y ∧ ReflTransGen (Passes stop next) y a := by
        obtain rfl | hstep := hx.cases_head
        · exact TransGen.head'_iff.mp h
        · exact hstep
      rw [seek_of_pass hy]
      exact ih y hya

/-- A turn for every node that may be passed, and one for the last, are enough. -/
theorem seek_of_card [DecidableEq ν] {turns : Nat} {nodes : Finset ν}
    (hnodes : ∀ x, ReflTransGen (Passes stop next) a x → stop x = none → (next x).isSome = true →
      x ∈ nodes)
    (h : seek stop next turns a = some r) : seek stop next (nodes.card + 1) a = some r := by
  induction turns generalizing a nodes with
  | zero => cases h
  | succ turns ih =>
      obtain hstop | ⟨b, hb, hrest⟩ := seek_succ_eq_some h
      · exact seek_of_stop hstop
      · have ha : a ∈ nodes := hnodes a .refl hb.1 (Option.isSome_of_eq_some hb.2)
        -- `a` is not passed again
        have hothers : ∀ x, ReflTransGen (Passes stop next) b x → stop x = none →
            (next x).isSome = true → x ∈ nodes.erase a := by
          intro x hx hstop hsome
          refine Finset.mem_erase.mpr ⟨?_, hnodes x (hx.head hb) hstop hsome⟩
          rintro rfl
          rw [seek_of_circle (TransGen.head' hb hx)] at h
          cases h
        rw [seek_of_pass hb, ← Finset.card_erase_add_one ha]
        exact ih hothers hrest

/-- **A bounded walk** finds exactly the stops that the pointers lead to before another one. -/
theorem seek_eq_some_iff [DecidableEq ν] {turns : Nat} {nodes : Finset ν}
    (hnodes : ∀ x, stop x = none → (next x).isSome = true → x ∈ nodes)
    (hturns : nodes.card < turns) :
    seek stop next turns a = some r ↔
      ∃ b, ReflTransGen (Passes stop next) a b ∧ stop b = some r := by
  refine ⟨seek_sound, ?_⟩
  rintro ⟨b, hb, hstop⟩
  obtain ⟨n, hn⟩ := seek_complete hb hstop
  exact seek_mono (seek_of_card (fun x _ => hnodes x) hn) hturns

theorem Passes.leads {x y : ν} (h : ReflTransGen (Passes stop next) x y) : Leads next x y :=
  h.lift id fun _ _ hstep => hstep.2

/-! ## Looking for a node from a head on -/

/-- The walk stops at the head it started from, without success, and at the node it looks for. -/
def lookFor [DecidableEq ν] (head target x : ν) : Option Bool :=
  if x = head then some false else if x = target then some true else none

variable [DecidableEq ν] {head target : ν}

theorem lookFor_eq_none {x : ν} (hx : x ≠ head) (hx' : x ≠ target) : lookFor head target x = none := by
  rw [lookFor, if_neg hx, if_neg hx']

/-- A way to the target that passes the head can be started at the head. -/
theorem Leads.passes_target {x pos : ν} (hpos : next head = some pos) (h : Leads next x target) :
    ReflTransGen (Passes (lookFor head target) next) x target ∨
      ReflTransGen (Passes (lookFor head target) next) pos target := by
  induction h using ReflTransGen.head_induction_on with
  | refl => exact Or.inl .refl
  | @head x y hstep _ ih =>
      rcases ih with hy | hfrom
      · by_cases hx : x = head
        · rw [hx, hpos] at hstep
          cases hstep
          exact Or.inr hy
        · by_cases hx' : x = target
          · exact Or.inl (hx' ▸ .refl)
          · exact Or.inl (hy.head ⟨lookFor_eq_none hx hx', hstep⟩)
      · exact Or.inr hfrom

/-- A way to the head that never comes to the target. -/
theorem Leads.passes_head {x : ν} (h : Leads next x head) (hnot : ¬Leads next x target) :
    ReflTransGen (Passes (lookFor head target) next) x head := by
  induction h using ReflTransGen.head_induction_on with
  | refl => exact .refl
  | @head x y hstep _ ih =>
      by_cases hx : x = head
      · exact hx ▸ .refl
      · have hx' : x ≠ target := fun heq => hnot (heq ▸ ReflTransGen.refl)
        exact (ih fun hy => hnot (hy.head hstep)).head ⟨lookFor_eq_none hx hx', hstep⟩

/-- **The search of a list** that may have lost its shape: it finds the target when the head leads to it,
it comes back to the head without success when the head leads back and not to the target, and else it
does not end. -/
theorem seek_lookFor {pos : ν} {turns : Nat} {nodes : Finset ν} (hne : head ≠ target)
    (hpos : next head = some pos)
    (hnodes : ∀ x, x ≠ head → x ≠ target → (next x).isSome = true → x ∈ nodes)
    (hturns : nodes.card < turns) :
    (seek (lookFor head target) next turns pos = some true ↔ Leads next head target) ∧
      (seek (lookFor head target) next turns pos = some false ↔
        Leads next pos head ∧ ¬Leads next head target) := by
  have hiff : ∀ r, seek (lookFor head target) next turns pos = some r ↔
      ∃ b, ReflTransGen (Passes (lookFor head target) next) pos b ∧
        lookFor head target b = some r := by
    refine fun r => seek_eq_some_iff (fun x hstop hsome => hnodes x ?_ ?_ hsome) hturns
    · rintro rfl
      rw [lookFor, if_pos rfl] at hstop
      cases hstop
    · rintro rfl
      rw [lookFor, if_neg hne.symm, if_pos rfl] at hstop
      cases hstop
  have htrue : seek (lookFor head target) next turns pos = some true ↔ Leads next head target := by
    rw [hiff]
    constructor
    · rintro ⟨b, hb, hstop⟩
      rw [lookFor] at hstop
      split at hstop
      · cases hstop
      · split at hstop
        · next hb' => exact (hb' ▸ Passes.leads hb).head hpos
        · cases hstop
    · intro h
      refine ⟨target, ?_, by rw [lookFor, if_neg hne.symm, if_pos rfl]⟩
      rcases h.passes_target hpos with hhead | hfrom
      · -- the walk does not pass the head
        obtain heq | ⟨x, hx, -⟩ := hhead.cases_head
        · exact absurd heq hne
        · rw [Passes, lookFor, if_pos rfl] at hx
          cases hx.1
      · exact hfrom
  refine ⟨htrue, ?_, ?_⟩
  · intro h
    refine ⟨?_, fun hlead => by rw [htrue.mpr hlead] at h; cases h⟩
    obtain ⟨b, hb, hstop⟩ := (hiff false).mp h
    rw [lookFor] at hstop
    split at hstop
    · next hb' => exact hb' ▸ Passes.leads hb
    · split at hstop
      · cases hstop
      · cases hstop
  · rintro ⟨hback, hnot⟩
    refine (hiff false).mpr ⟨head, hback.passes_head fun h => hnot (h.head hpos), ?_⟩
    rw [lookFor, if_pos rfl]

end Follow

end Netflow
