import Netflow.Basic.CStr
import Mathlib.Algebra.Group.Nat.Defs

set_option autoImplicit false

/-! # Decimal numbers in texts

What `%d` prints and what `atoi` reads back. A number outside the range of `int` is undefined
behaviour for `atoi` and gives `none`.
-/

namespace Netflow

/-- `isspace`. -/
def isspace (c : Byte) : Bool := c = 32 || (9 ≤ c && c ≤ 13)

/-- `isdigit`. -/
def isdigit (c : Byte) : Bool := 48 ≤ c && c ≤ 57

/-- The number the leading digits of a text stand for; 0 when there are none. -/
def leadingNumber (l : List Byte) : Nat :=
  (l.takeWhile isdigit).foldl (fun n c => 10 * n + (c.toNat - 48)) 0

/-- The number a text stands for, with or without a sign. -/
def signedNumber : List Byte → Int
  | [] => 0
  | c :: rest =>
      if c = 45 then -leadingNumber rest
      else if c = 43 then leadingNumber rest
      else leadingNumber (c :: rest)

def atoi (s : CStr) : Option Int :=
  let n := signedNumber (s.chars.dropWhile isspace)
  if -2147483648 ≤ n ∧ n < 2147483648 then some n else none

/-! ## Digits -/

theorem isdigit_bounds {c : Byte} (h : isdigit c = true) : 48 ≤ c.toNat ∧ c.toNat ≤ 57 := by
  rw [isdigit, Bool.and_eq_true, decide_eq_true_eq, decide_eq_true_eq, UInt8.le_iff_toNat_le,
    UInt8.le_iff_toNat_le] at h
  exact h

/-- A digit is none of the other characters. -/
theorem ne_of_isdigit {c d : Byte} (h : isdigit c = true) (hd : isdigit d = false) : c ≠ d := by
  rintro rfl
  rw [hd] at h
  cases h

theorem isspace_of_isdigit {c : Byte} (h : isdigit c = true) : isspace c = false := by
  have hlow := (isdigit_bounds h).1
  rw [isspace, Bool.or_eq_false_iff, Bool.and_eq_false_iff, decide_eq_false_iff_not,
    decide_eq_false_iff_not, decide_eq_false_iff_not, UInt8.le_iff_toNat_le]
  exact ⟨ne_of_isdigit h rfl, Or.inr (Nat.not_le.mpr (Nat.lt_of_lt_of_le (by decide) hlow))⟩

/-- The digits of a number. -/
def digitBytes (n : Nat) : List Byte := (Nat.toDigits 10 n).map fun c => UInt8.ofNat c.toNat

theorem length_digitBytes_le {n k : Nat} (hk : 0 < k) (h : n < 10 ^ k) :
    (digitBytes n).length ≤ k := by
  rw [digitBytes, List.length_map]
  exact (Nat.length_toDigits_le_iff (by decide) hk).mpr h

/-- The byte of a digit. -/
theorem byte_of_digit {c : Char} (h : c.isDigit = true) :
    (UInt8.ofNat c.toNat).toNat = c.toNat ∧ 48 ≤ c.toNat ∧ c.toNat ≤ 57 := by
  rw [Char.isDigit, Bool.and_eq_true, decide_eq_true_eq, decide_eq_true_eq] at h
  have hlow : 48 ≤ c.toNat := UInt32.le_iff_toNat_le.mp h.1
  have hhigh : c.toNat ≤ 57 := UInt32.le_iff_toNat_le.mp h.2
  refine ⟨?_, hlow, hhigh⟩
  rw [UInt8.toNat_ofNat']
  omega

theorem isdigit_digitBytes {n : Nat} {c : Byte} (h : c ∈ digitBytes n) : isdigit c = true := by
  obtain ⟨d, hd, rfl⟩ := List.mem_map.mp h
  obtain ⟨heq, hlow, hhigh⟩ :=
    byte_of_digit (Nat.isDigit_of_mem_toDigits (by decide) (by decide) hd)
  rw [isdigit, Bool.and_eq_true, decide_eq_true_eq, decide_eq_true_eq, UInt8.le_iff_toNat_le,
    UInt8.le_iff_toNat_le, heq]
  exact ⟨hlow, hhigh⟩

theorem digitBytes_nul_free (n : Nat) : (0 : Byte) ∉ digitBytes n := fun h =>
  ne_of_isdigit (isdigit_digitBytes h) rfl rfl

theorem digitBytes_ne_nil (n : Nat) : digitBytes n ≠ [] := by
  rw [digitBytes, ne_eq, List.map_eq_nil_iff]
  exact Nat.toDigits_ne_nil

/-- The digits of a number stand for it. -/
theorem leadingNumber_digitBytes (n : Nat) : leadingNumber (digitBytes n) = n := by
  have hall : (digitBytes n).takeWhile isdigit = digitBytes n :=
    List.takeWhile_eq_self_iff.mpr fun _ h => isdigit_digitBytes h
  have hfold : ∀ (l : List Char) (init : Nat), (∀ c ∈ l, c.isDigit = true) →
      (l.map fun c => UInt8.ofNat c.toNat).foldl (fun n c => 10 * n + (c.toNat - 48)) init =
        Nat.ofDigitChars 10 l init := by
    intro l
    induction l with
    | nil => intro init _; rfl
    | cons c rest ih =>
        intro init h
        rw [List.map_cons, List.foldl_cons, (byte_of_digit (h c List.mem_cons_self)).1,
          Nat.ofDigitChars_cons]
        exact ih _ fun d hd => h d (List.mem_cons_of_mem c hd)
  rw [leadingNumber, hall, digitBytes,
    hfold _ _ fun c hc => Nat.isDigit_of_mem_toDigits (by decide) (by decide) hc,
    Nat.ofDigitChars_ten_toDigits]

/-! ## What `%d` prints -/

namespace CStr

theorem lit_repr (n : Nat) : (lit n.repr).chars = digitBytes n := by
  rw [lit, Nat.toList_repr]
  exact ofChars_chars_of_nul_free (digitBytes_nul_free n)

theorem lit_repr_neg (n : Nat) : (lit ("-" ++ n.repr)).chars = 45 :: digitBytes n := by
  rw [lit, String.toList_append, Nat.toList_repr, List.map_append]
  refine ofChars_chars_of_nul_free (l := 45 :: digitBytes n) fun h => ?_
  exact digitBytes_nul_free n ((List.mem_cons.mp h).resolve_left (by decide))

theorem percentD_of_lt {n : Nat} (h : n < 2147483648) : (percentD n).chars = digitBytes n := by
  have hlow : n % 4294967296 = n := Nat.mod_eq_of_lt (by omega)
  rw [percentD, hlow]
  show (if n < 2147483648 then lit (toString n) else _).chars = _
  rw [if_pos h]
  exact lit_repr n

/-- `%d` prints a number of at most ten digits, with or without a sign. -/
theorem percentD_cases (n : Nat) : ∃ m, m < 10 ^ 10 ∧
    ((percentD n).chars = digitBytes m ∨ (percentD n).chars = 45 :: digitBytes m) := by
  have hlt : n % 4294967296 < 4294967296 := Nat.mod_lt _ (by decide)
  by_cases h : n % 4294967296 < 2147483648
  · refine ⟨n % 4294967296, by omega, Or.inl ?_⟩
    show (if n % 4294967296 < 2147483648 then lit (toString (n % 4294967296)) else _).chars = _
    rw [if_pos h]
    exact lit_repr _
  · refine ⟨4294967296 - n % 4294967296, by omega, Or.inr ?_⟩
    show (if n % 4294967296 < 2147483648 then _ else
      lit (toString (((n % 4294967296 : Nat) : Int) - 4294967296))).chars = _
    rw [if_neg h, Int.toString_eq_repr, Int.repr_eq_if, if_neg (by omega)]
    rw [show (-(((n % 4294967296 : Nat) : Int) - 4294967296)).toNat =
      4294967296 - n % 4294967296 by omega]
    exact lit_repr_neg _

theorem length_percentD_le (n : Nat) : (percentD n).chars.length ≤ 11 := by
  obtain ⟨m, hm, h | h⟩ := percentD_cases n
  · rw [h]
    exact (length_digitBytes_le (by decide) hm).trans (by decide)
  · rw [h, List.length_cons]
    exact Nat.succ_le_succ (length_digitBytes_le (by decide) hm)

theorem length_percentD_le_of_lt {n k : Nat} (hk : 0 < k) (h : n < 10 ^ k) (hn : n < 2147483648) :
    (percentD n).chars.length ≤ k := by
  rw [percentD_of_lt hn]
  exact length_digitBytes_le hk h

theorem mem_percentD {n : Nat} {c : Byte} (h : c ∈ (percentD n).chars) :
    c = 45 ∨ isdigit c = true := by
  obtain ⟨m, -, hm | hm⟩ := percentD_cases n
  · exact Or.inr (isdigit_digitBytes (hm ▸ h))
  · rw [hm, List.mem_cons] at h
    exact h.imp id isdigit_digitBytes

end CStr

/-- **`atoi` reads what `%d` prints.** -/
theorem atoi_percentD {n : Nat} (h : n < 2147483648) : atoi (CStr.percentD n) = some (n : Int) := by
  obtain ⟨c, rest, hl⟩ := List.exists_cons_of_ne_nil (digitBytes_ne_nil n)
  have hc : isdigit c = true := isdigit_digitBytes (hl ▸ List.mem_cons_self)
  have hdrop : (c :: rest).dropWhile isspace = c :: rest :=
    List.dropWhile_cons_of_neg (by rw [isspace_of_isdigit hc]; decide)
  have hnumber : signedNumber (c :: rest) = (n : Int) := by
    rw [signedNumber, if_neg (ne_of_isdigit hc rfl), if_neg (ne_of_isdigit hc rfl), ← hl,
      leadingNumber_digitBytes]
  rw [atoi, CStr.percentD_of_lt h, hl, hdrop, hnumber]
  exact if_pos (by omega)

end Netflow
