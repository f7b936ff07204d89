import Mathlib.Data.Nat.ModEq
import Mathlib.Logic.Function.Basic

set_option autoImplicit false

/-! # Circular arrays seen through unbounded positions

An array of length `N` used as a ring is indexed by cursors that wrap around. The arithmetic is
simplest on unbounded positions: a cursor is the remainder of a position, positions only grow, and
two positions less than `N` apart are equal when their cursors are (`mod_inj`).

`segment N data a n` is the list of the `n` entries from position `a` on.
-/

namespace Netflow

section Cursor

variable {α : Type} {N : Nat}

/-- Two positions of one lap are equal when their cursors are. -/
theorem mod_inj {a b : Nat} (hab : a ≤ b) (hb : b < a + N) (h : a % N = b % N) : a = b := by
  have hdvd : N ∣ b - a := (Nat.modEq_iff_dvd' hab).mp h
  have hzero : b - a = 0 := Nat.eq_zero_of_dvd_of_lt hdvd (by omega)
  omega

theorem mod_ne {a b : Nat} (hab : a < b) (hb : b < a + N) : a % N ≠ b % N := by
  intro h
  have := mod_inj (by omega) hb h
  omega

/-- Advancing a cursor advances its position. -/
theorem mod_succ (a : Nat) : (a % N + 1) % N = (a + 1) % N := by
  rw [Nat.mod_add_mod]

/-- How far the cursor `w` is ahead of the cursor `r`. -/
def ahead (N r w : Nat) : Nat := (w + N - r) % N

/-- The distance of two cursors is the distance of their positions. -/
theorem ahead_mod {a b : Nat} (hab : a ≤ b) (hb : b < a + N) : ahead N (a % N) (b % N) = b - a := by
  obtain ⟨d, rfl⟩ := Nat.exists_eq_add_of_le hab
  have hN : 0 < N := by omega
  have hr : a % N < N := Nat.mod_lt _ hN
  have hmod : (a + d) % N = (a % N + d) % N := by rw [Nat.mod_add_mod]
  rw [ahead, hmod]
  by_cases hlt : a % N + d < N
  · rw [Nat.mod_eq_of_lt hlt, show a % N + d + N - a % N = d + N by omega, Nat.add_mod_right,
      Nat.mod_eq_of_lt (by omega)]
    omega
  · have hwrap : (a % N + d) % N = a % N + d - N := by
      rw [Nat.mod_eq_sub_mod (by omega), Nat.mod_eq_of_lt (by omega)]
    rw [hwrap, show a % N + d - N + N - a % N = d by omega, Nat.mod_eq_of_lt (by omega)]
    omega

/-- The `n` entries from position `a` on. -/
def segment (N : Nat) (data : Nat → α) (a n : Nat) : List α :=
  (List.range n).map fun k => data ((a + k) % N)

@[simp] theorem segment_zero (data : Nat → α) (a : Nat) : segment N data a 0 = [] := rfl

@[simp] theorem length_segment (data : Nat → α) (a n : Nat) :
    (segment N data a n).length = n := by
  simp [segment]

/-- A segment is its first entry and the segment behind it. -/
theorem segment_succ (data : Nat → α) (a n : Nat) :
    segment N data a (n + 1) = data (a % N) :: segment N data (a + 1) n := by
  simp only [segment, List.range_succ_eq_map, List.map_cons, List.map_map, Nat.add_zero]
  congr 1
  apply List.map_congr_left
  intro k _
  show data ((a + (k + 1)) % N) = data ((a + 1 + k) % N)
  rw [show a + (k + 1) = a + 1 + k by omega]

/-- A segment is extended at its end by the entry at the next position. -/
theorem segment_append_one (data : Nat → α) (a n : Nat) :
    segment N data a (n + 1) = segment N data a n ++ [data ((a + n) % N)] := by
  simp [segment, List.range_succ]

/-- A segment only depends on the cursor it starts at. -/
theorem segment_mod (data : Nat → α) (a n : Nat) :
    segment N data (a % N) n = segment N data a n := by
  apply List.map_congr_left
  intro k _
  rw [Nat.mod_add_mod]

/-- A store behind a segment, within one lap, leaves the segment as it was. -/
theorem segment_update (data : Nat → α) {a n p : Nat} (x : α) (hp : a + n ≤ p)
    (hlap : p < a + N) :
    segment N (Function.update data (p % N) x) a n = segment N data a n := by
  apply List.map_congr_left
  intro k hk
  have hkn : k < n := List.mem_range.mp hk
  exact Function.update_of_ne (mod_ne (by omega) (by omega)) _ _

end Cursor

end Netflow
