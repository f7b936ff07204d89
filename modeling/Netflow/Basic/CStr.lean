import Mathlib.Data.List.Infix
import Mathlib.Data.List.TakeWhile
import Mathlib.Tactic.Common

set_option autoImplicit false

/-! # C strings

A C string is the bytes of a `char` array up to its first NUL. `CStr` carries the fact that no
NUL is among them, so `strlen` is the length, `strcmp` is equality, and what `snprintf` and
`strncpy` leave in a buffer of `n` bytes is a prefix of at most `n - 1` of them.
-/

namespace Netflow

/-- A byte, C's `unsigned char`. -/
abbrev Byte := UInt8

/-- The characters of a C string, without its terminating NUL. -/
structure CStr where
  chars : List Byte
  nul_free : (0 : Byte) ∉ chars
deriving DecidableEq

namespace CStr

@[ext] theorem ext {s t : CStr} (h : s.chars = t.chars) : s = t := by
  cases s
  cases t
  simpa using h

/-- The string a `char` array holds: its bytes up to the first NUL. -/
def ofChars (l : List Byte) : CStr :=
  ⟨l.takeWhile (· ≠ 0), fun h => by simpa using List.mem_takeWhile_imp h⟩

theorem ofChars_chars_of_nul_free {l : List Byte} (h : (0 : Byte) ∉ l) :
    (ofChars l).chars = l := by
  simp only [ofChars, List.takeWhile_eq_self_iff]
  intro b hb
  have : b ≠ 0 := fun hb0 => h (hb0 ▸ hb)
  simpa using this

theorem ofChars_chars (s : CStr) : ofChars s.chars = s :=
  ext (ofChars_chars_of_nul_free s.nul_free)

/-- The text of an array is told by its bytes up to the first NUL. -/
theorem ofChars_eq_iff {l : List Byte} {s : CStr} (h : s.chars.length < l.length) :
    ofChars l = s ↔ l.take (s.chars.length + 1) = s.chars ++ [0] := by
  obtain ⟨chars, hnul⟩ := s
  rw [CStr.ext_iff]
  show l.takeWhile (· ≠ 0) = chars ↔ l.take (chars.length + 1) = chars ++ [0]
  replace h : chars.length < l.length := h
  induction chars generalizing l with
  | nil =>
      cases l with
      | nil => exact absurd h (Nat.lt_irrefl 0)
      | cons b l => by_cases hb : b = 0 <;> simp [hb]
  | cons a chars ih =>
      cases l with
      | nil => cases h
      | cons b l =>
          simp only [List.mem_cons, not_or] at hnul
          have hrest := ih (l := l) hnul.2 (Nat.lt_of_succ_lt_succ h)
          simp only [List.length_cons, List.take_succ_cons, List.cons_append, List.cons.injEq]
          by_cases hb : b = 0
          · rw [List.takeWhile_cons_of_neg (by simp [hb])]
            simp only [reduceCtorEq, false_iff, not_and]
            exact fun hba => absurd (hb.symm.trans hba) hnul.1
          · rw [List.takeWhile_cons_of_pos (by simpa using hb), List.cons.injEq]
            exact and_congr_right fun _ => hrest

/-- A NUL ends the string in front of it. -/
theorem ofChars_nul (s : CStr) (rest : List Byte) : ofChars (s.chars ++ 0 :: rest) = s := by
  refine (ofChars_eq_iff ?_).mpr ?_
  · rw [List.length_append, List.length_cons]
    omega
  · rw [List.take_append, List.take_of_length_le (Nat.le_succ _), Nat.add_sub_cancel_left,
      List.take_succ_cons, List.take_zero]

/-- A string literal of the source; all of them are ASCII. -/
def lit (s : String) : CStr := ofChars (s.toList.map fun c => UInt8.ofNat c.toNat)

/-- The bytes of a literal from its characters. The kernel reads a literal as the `String.ofList` of
its characters, and does so much faster than it runs `String.toList`. -/
theorem lit_eq {s : String} {l : List Char} (h : s = String.ofList l) :
    lit s = ofChars (l.map fun c => UInt8.ofNat c.toNat) := by
  rw [h, lit, String.toList_ofList]

def append (s t : CStr) : CStr :=
  ⟨s.chars ++ t.chars, by simp [s.nul_free, t.nul_free]⟩

instance : Append CStr := ⟨append⟩

@[simp] theorem chars_append (s t : CStr) : (s ++ t).chars = s.chars ++ t.chars := rfl

def take (n : Nat) (s : CStr) : CStr :=
  ⟨s.chars.take n, fun h => s.nul_free (List.mem_of_mem_take h)⟩

@[simp] theorem chars_take (n : Nat) (s : CStr) : (s.take n).chars = s.chars.take n := rfl

def drop (n : Nat) (s : CStr) : CStr :=
  ⟨s.chars.drop n, fun h => s.nul_free (List.mem_of_mem_drop h)⟩

@[simp] theorem chars_drop (n : Nat) (s : CStr) : (s.drop n).chars = s.chars.drop n := rfl

/-- What `snprintf(buf, n, "%s…")` leaves in `buf` when the full text is `s` and `0 < n`: the
text cut to the `n - 1` bytes that fit before the NUL. -/
def snprintf (n : Nat) (s : CStr) : CStr := s.take (n - 1)

theorem snprintf_of_fits {n : Nat} {s : CStr} (h : s.chars.length < n) : snprintf n s = s :=
  ext (List.take_of_length_le (Nat.le_sub_one_of_lt h))

/-- What `strncpy(field, s, sizeof(field) - 1)` leaves in a zeroed field of `n` bytes. -/
def strncpy (n : Nat) (s : CStr) : CStr := s.take (n - 1)

theorem strncpy_of_fits {n : Nat} {s : CStr} (h : s.chars.length < n) : strncpy n s = s :=
  snprintf_of_fits h

/-- What `%d` prints of an unsigned argument: its low 32 bits, read as a signed number. -/
def percentD (n : Nat) : CStr :=
  let low := n % 4294967296
  if low < 2147483648 then lit (toString low) else lit (toString ((low : Int) - 4294967296))

/-- `strstr(s, t) != NULL`. -/
def contains (s t : CStr) : Bool := s.chars.tails.any (t.chars.isPrefixOf ·)

theorem contains_iff (s t : CStr) : s.contains t = true ↔ t.chars <:+: s.chars := by
  simp only [contains, List.any_eq_true, List.mem_tails, List.isPrefixOf_iff_prefix,
    List.infix_iff_prefix_suffix]
  exact ⟨fun ⟨r, hr, ht⟩ => ⟨r, ht, hr⟩, fun ⟨r, ht, hr⟩ => ⟨r, hr, ht⟩⟩

/-- What is in a copy is in the string. -/
theorem contains_of_strncpy {n : Nat} {s t : CStr} (h : (strncpy n s).contains t = true) :
    s.contains t = true := by
  rw [contains_iff] at h ⊢
  exact h.trans (List.take_prefix _ _).isInfix

end CStr

end Netflow
