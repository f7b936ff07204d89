import Mathlib.Data.List.Basic
import Mathlib.Tactic.Common

set_option autoImplicit false

/-! # Stores into a block of memory

A block is the list of its elements. `store block p src` writes `src` over the block from the offset
`p` on, and is `none` when `src` does not lie inside the block. Stores at consecutive offsets are one
store of all of them, so what a loop that writes one element after the other leaves behind is read off
at once, with the condition under which it stays inside.
-/

namespace Netflow

section Block

variable {α : Type}

/-- `src` over `block` from the offset `p` on. -/
def overlay (block : List α) (p : Nat) (src : List α) : List α :=
  block.take p ++ src ++ block.drop (p + src.length)

def store (block : List α) (p : Nat) (src : List α) : Option (List α) :=
  if p + src.length ≤ block.length then some (overlay block p src) else none

variable {block block' src src' : List α} {p : Nat}

theorem length_overlay (h : p + src.length ≤ block.length) :
    (overlay block p src).length = block.length := by
  simp only [overlay, List.length_append, List.length_take, List.length_drop]
  omega

theorem drop_overlay (h : p ≤ block.length) :
    (overlay block p src).drop p = src ++ block.drop (p + src.length) := by
  have hp : (block.take p).length = p := by simp [h]
  rw [overlay, List.append_assoc, List.drop_append_of_le_length (by omega),
    List.drop_of_length_le (by omega), List.nil_append]

theorem store_eq_some (h : p + src.length ≤ block.length) :
    store block p src = some (overlay block p src) := if_pos h

theorem store_eq_some_iff :
    store block p src = some block' ↔ p + src.length ≤ block.length ∧ overlay block p src = block' := by
  rw [store]
  split
  · next h => simp [h]
  · next h => simp [h]

theorem store_nil (h : p ≤ block.length) : store block p [] = some block := by
  have hle : p + ([] : List α).length ≤ block.length := h
  rw [store_eq_some hle, overlay, List.append_nil, List.length_nil, Nat.add_zero,
    List.take_append_drop]

/-- Two overlays, one behind the other. -/
theorem overlay_append (h : p + src.length ≤ block.length) :
    overlay (overlay block p src) (p + src.length) src' = overlay block p (src ++ src') := by
  have hp : (block.take p ++ src).length = p + src.length := by
    rw [List.length_append, List.length_take, Nat.min_eq_left (by omega)]
  have htake : (overlay block p src).take (p + src.length) = block.take p ++ src := by
    rw [overlay, List.take_append_of_le_length (by omega), List.take_of_length_le (by omega)]
  have hrest : (overlay block p src).drop (p + src.length) = block.drop (p + src.length) := by
    rw [overlay, List.drop_append_of_le_length (by omega), List.drop_of_length_le (by omega),
      List.nil_append]
  have hdrop : (overlay block p src).drop (p + src.length + src'.length) =
      block.drop (p + (src ++ src').length) := by
    rw [← List.drop_drop, hrest, List.drop_drop, List.length_append, Nat.add_assoc]
  rw [overlay, htake, hdrop, overlay, List.append_assoc (block.take p)]

/-- **Stores at consecutive offsets** are one store. -/
theorem store_append (block : List α) (p : Nat) (src src' : List α) :
    store block p (src ++ src') =
      (store block p src).bind fun block' => store block' (p + src.length) src' := by
  by_cases h : p + src.length ≤ block.length
  · rw [store_eq_some h, Option.bind_some, store, store, length_overlay h, overlay_append h,
      List.length_append, Nat.add_assoc]
  · rw [store, store, if_neg h, Option.bind_none, if_neg]
    rw [List.length_append]
    omega

theorem store_cons (a : α) :
    store block p (a :: src) = (store block p [a]).bind fun block' => store block' (p + 1) src :=
  store_append block p [a] src

end Block

end Netflow
