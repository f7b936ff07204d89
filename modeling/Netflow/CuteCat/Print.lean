import Netflow.Iksemel.Sax
import Netflow.Lib.Block
import Netflow.Lib.Search
import Netflow.Stream.Basic

set_option autoImplicit false

/-! # The trace of the sequence numbers (`print.c`)

`find_and_printf_sn` looks for `sn=` in the text a client received and prints what stands in the
apostrophes behind it. It goes on at the apostrophe, so it searches all of the text, the payloads of the
messages too.

A pointer into the buffer is its offset. Reading a string that no NUL ends, storing behind the end of a
block and reading `head` before it is set are undefined behaviour and give `none`; so does a loop that
is not done after `turns` turns. On a text with more turns than characters the loops are done.
-/

namespace Netflow

/-! ## The code -/

/-- The string at an offset of a block, which a NUL ends. -/
def readString (block : List Byte) (p : Nat) : Option CStr :=
  if (0 : Byte) ∈ block.drop p then some (stringAt block p) else none

/-- `strstr(s, t) - s`. -/
def CStr.strstr (s t : CStr) : Option Nat :=
  (s.chars.dropInfix? t.chars).map fun split => split.1.length

/-- `strchr(s, c) - s`; `c` is not NUL. -/
def CStr.strchr (s : CStr) (c : Byte) : Option Nat := s.chars.idxOf? c

/-- `sscanf(str, "sn='%[^']", sn)`: what is in `sn` then, and how many bytes were stored. The conversion
takes at least one character. -/
def sscanfSn (str : CStr) (sn : List Byte) : Option (List Byte × Nat) :=
  let format := (CStr.lit "sn='").chars
  let taken := (str.chars.drop format.length).takeWhile (· ≠ ascii '\'')
  if format <+: str.chars ∧ taken ≠ [] then
    (store sn 0 (taken ++ [0])).map fun sn => (sn, taken.length + 1)
  else some (sn, 0)

/-- What `printf("\t sn=[%s]", sn)` prints. -/
def snLine (sn : CStr) : List Byte := (CStr.lit "\t sn=[" ++ sn ++ CStr.lit "]").chars

/-- The locals of `find_and_printf_sn`, how many bytes each `sscanf` stored, and the output. -/
structure SnTrace where
  head : Nat
  sn : List Byte
  stored : List Nat
  printed : List Byte

namespace SnTrace

/-- A turn of the inner loop. -/
def hit (buf : List Byte) (ptr : Nat) (t : SnTrace) : Option SnTrace := do
  let str ← readString buf ptr
  let (sn, n) ← sscanfSn str t.sn
  let tmp := match str.strchr (ascii '\'') with
    | some i => ptr + i
    | none => ptr + 3
  some {
    head := tmp
    sn := sn
    stored := t.stored ++ [n]
    printed := t.printed ++ snLine (← readString sn 0) }

/-- The inner loop. -/
def hits (buf : List Byte) : Nat → SnTrace → Option SnTrace
  | 0, _ => none
  | turns + 1, t => do
      match (← readString buf t.head).strstr (CStr.lit "sn=") with
      | some i => hits buf turns (← t.hit buf (t.head + i))
      | none => some t

/-- The outer loop; `turns` is for the inner one. -/
def scan (buf : List Byte) (limit turns : Nat) : Nat → SnTrace → Option SnTrace
  | 0, _ => none
  | left + 1, t =>
      if t.head < limit then do
        let t ← t.hits buf turns
        scan buf limit turns left { t with head := t.head + 1 }
      else some t

end SnTrace

/-- `find_and_printf_sn`, and the buffer afterwards. -/
def find_and_printf_sn (turns : Nat) (buf : List Byte) (len : Nat) : Option (List Byte × SnTrace) :=
  if 0 < len then do
    let buf ← store buf len [0]
    let t ← SnTrace.scan buf (len - 1) turns turns
      { head := 0, sn := List.replicate 16 0, stored := [], printed := [] }
    some (buf, t)
  else none

/-! ## Reading the buffer -/

section Strings

variable {s t u : CStr}

/-- The rest of the string behind the bytes that are done. -/
theorem readString_drop (done junk : List Byte) {s : CStr} {k : Nat} (h : k ≤ s.chars.length) :
    readString (done ++ (s.chars ++ 0 :: junk)) (done.length + k) = some (s.drop k) := by
  have hdrop : (done ++ (s.chars ++ 0 :: junk)).drop (done.length + k) =
      (s.drop k).chars ++ 0 :: junk := by
    rw [← List.drop_drop, List.drop_left, List.drop_append_of_le_length h, CStr.chars_drop]
  rw [readString, stringAt, hdrop, if_pos, CStr.ofChars_nul]
  exact List.mem_append_right _ List.mem_cons_self

theorem readString_append (done junk : List Byte) (s : CStr) :
    readString (done ++ (s.chars ++ 0 :: junk)) done.length = some s :=
  readString_drop done junk (Nat.zero_le _)

theorem CStr.strstr_eq_none (h : ¬t.chars <:+: s.chars) : s.strstr t = none := by
  rw [CStr.strstr, dropInfix?_eq_none_iff.mpr h, Option.map_none]

/-- The first occurrence, when there is none up to its last character. -/
theorem CStr.strstr_append (h : ¬t.chars <:+: s.chars ++ t.chars.dropLast) :
    (s ++ t ++ u).strstr t = some s.chars.length := by
  rw [CStr.strstr, CStr.chars_append, CStr.chars_append, dropInfix?_append h, Option.map_some]

theorem CStr.strstr_eq_some {i : Nat} (h : s.strstr t = some i) :
    t.chars <+: s.chars.drop i ∧ i ≤ s.chars.length := by
  obtain ⟨split, hsplit, rfl⟩ := Option.map_eq_some_iff.mp h
  obtain ⟨⟨word, htext, hword⟩, -⟩ := List.dropInfix?_eq_some_iff.mp hsplit
  cases eq_of_beq hword
  rw [htext, List.append_assoc, List.drop_left]
  exact ⟨List.prefix_append _ _, by rw [List.length_append]; omega⟩


/-- `sscanf` on a number in apostrophes. -/
theorem sscanfSn_eq {str num : CStr} {rest sn : List Byte}
    (hstr : str.chars = (CStr.lit "sn='").chars ++ (num.chars ++ ascii '\'' :: rest))
    (hquote : ascii '\'' ∉ num.chars) (hne : num.chars ≠ []) (hroom : num.chars.length < sn.length) :
    sscanfSn str sn = some (overlay sn 0 (num.chars ++ [0]), num.chars.length + 1) := by
  have htaken : (num.chars ++ ascii '\'' :: rest).takeWhile (· ≠ ascii '\'') = num.chars := by
    rw [List.takeWhile_append_of_pos, List.takeWhile_cons_of_neg, List.append_nil]
    · simp
    · intro c hc
      rw [decide_eq_true_eq]
      rintro rfl
      exact hquote hc
  have hin : 0 + (num.chars ++ [0]).length ≤ sn.length := by
    rw [List.length_append, List.length_singleton]
    omega
  rw [sscanfSn, hstr, List.drop_left, htaken, if_pos ⟨List.prefix_append _ _, hne⟩, store_eq_some hin,
    Option.map_some]

end Strings

/-! ## The number of turns

`head` moves on in every turn of both loops, so they end on any text, and how many turns they were
given does not matter. -/

namespace SnTrace

section Turns

variable {s : CStr} {junk : List Byte} {t t' : SnTrace}

theorem readString_text (junk : List Byte) {s : CStr} {p : Nat} (h : p ≤ s.chars.length) :
    readString (s.chars ++ 0 :: junk) p = some (s.drop p) := by
  have hread := readString_drop [] junk h
  rwa [List.nil_append, List.length_nil, Nat.zero_add] at hread

/-- **A turn of the inner loop** leaves `head` behind the hit and in the text. -/
theorem hit_head {ptr : Nat} (hptr : ptr ≤ s.chars.length)
    (hword : (CStr.lit "sn=").chars <+: s.chars.drop ptr)
    (h : t.hit (s.chars ++ 0 :: junk) ptr = some t') :
    ptr + 3 ≤ t'.head ∧ t'.head ≤ s.chars.length := by
  obtain ⟨rest, hrest⟩ := hword
  have hliteral : (CStr.lit "sn=").chars.length = 3 ∧
      (CStr.lit "sn=").chars.findIdx? (· == ascii '\'') = none := by
    decide +kernel
  have hlength : 3 + rest.length = s.chars.length - ptr := by
    rw [← hliteral.1, ← List.length_append, hrest, List.length_drop]
  have hchr : (s.drop ptr).strchr (ascii '\'') =
      (rest.findIdx? (· == ascii '\'')).map (· + 3) := by
    rw [CStr.strchr, CStr.chars_drop, ← hrest, List.idxOf?, List.findIdx?_append, hliteral.2,
      Option.none_or, hliteral.1]
  rw [hit, readString_text junk hptr, Option.bind_eq_bind, Option.bind_some] at h
  obtain ⟨⟨sn, n⟩, -, h⟩ := Option.bind_eq_some_iff.mp h
  obtain ⟨shown, -, h⟩ := Option.bind_eq_some_iff.mp h
  cases h
  show ptr + 3 ≤ (match (s.drop ptr).strchr (ascii '\'') with
    | some i => ptr + i
    | none => ptr + 3) ∧ _ ≤ _
  rw [hchr]
  cases hfind : rest.findIdx? (· == ascii '\'') with
  | none =>
      show ptr + 3 ≤ ptr + 3 ∧ ptr + 3 ≤ _
      omega
  | some i =>
      have hi := (List.findIdx?_eq_some_iff_getElem.mp hfind).choose
      show ptr + 3 ≤ ptr + (i + 3) ∧ ptr + (i + 3) ≤ _
      omega

/-- A turn of the inner loop and the turns behind it. -/
theorem hits_succ (turns : Nat) (hhead : t.head ≤ s.chars.length) :
    t.hits (s.chars ++ 0 :: junk) (turns + 1) =
      match (s.drop t.head).strstr (CStr.lit "sn=") with
      | some i => (t.hit (s.chars ++ 0 :: junk) (t.head + i)).bind (hits (s.chars ++ 0 :: junk) turns)
      | none => some t := by
  rw [hits, readString_text junk hhead]
  rfl

/-- What a hit leaves of the text. -/
theorem hit_of_strstr {i : Nat} (hhead : t.head ≤ s.chars.length)
    (hstr : (s.drop t.head).strstr (CStr.lit "sn=") = some i)
    (h : t.hit (s.chars ++ 0 :: junk) (t.head + i) = some t') :
    t.head < t'.head ∧ t'.head ≤ s.chars.length := by
  obtain ⟨hword, hi⟩ := CStr.strstr_eq_some hstr
  rw [CStr.chars_drop, List.drop_drop] at hword
  rw [CStr.chars_drop, List.length_drop] at hi
  have hmoved := hit_head (by omega) hword h
  omega

theorem hits_head {turns : Nat} (hhead : t.head ≤ s.chars.length)
    (h : t.hits (s.chars ++ 0 :: junk) turns = some t') :
    t.head ≤ t'.head ∧ t'.head ≤ s.chars.length := by
  induction turns generalizing t with
  | zero => cases h
  | succ turns ih =>
      rw [hits_succ turns hhead] at h
      cases hstr : (s.drop t.head).strstr (CStr.lit "sn=") with
      | none =>
          rw [hstr] at h
          cases h
          exact ⟨Nat.le_refl _, hhead⟩
      | some i =>
          rw [hstr] at h
          obtain ⟨t₁, hhit, hrest⟩ := Option.bind_eq_some_iff.mp h
          have hmoved := hit_of_strstr hhead hstr hhit
          have hend := ih hmoved.2 hrest
          omega

theorem hits_turns {turns turns' : Nat} (hhead : t.head ≤ s.chars.length)
    (hturns : s.chars.length < t.head + turns) (hturns' : s.chars.length < t.head + turns') :
    t.hits (s.chars ++ 0 :: junk) turns = t.hits (s.chars ++ 0 :: junk) turns' := by
  induction turns generalizing t turns' with
  | zero => omega
  | succ left ih =>
      obtain ⟨left', rfl⟩ : ∃ left', turns' = left' + 1 := ⟨turns' - 1, by omega⟩
      rw [hits_succ left hhead, hits_succ left' hhead]
      cases hstr : (s.drop t.head).strstr (CStr.lit "sn=") with
      | none => rfl
      | some i =>
          show (t.hit (s.chars ++ 0 :: junk) (t.head + i)).bind (hits (s.chars ++ 0 :: junk) left) =
            (t.hit (s.chars ++ 0 :: junk) (t.head + i)).bind (hits (s.chars ++ 0 :: junk) left')
          refine Option.bind_congr fun t₁ hhit => ?_
          have hmoved := hit_of_strstr hhead hstr hhit
          exact ih hmoved.2 (by omega) (by omega)

theorem scan_turns {limit turns turns' left left' : Nat} (hlimit : limit ≤ s.chars.length)
    (hturns : s.chars.length < turns) (hturns' : s.chars.length < turns')
    (hleft : limit - t.head < left) (hleft' : limit - t.head < left') :
    t.scan (s.chars ++ 0 :: junk) limit turns left =
      t.scan (s.chars ++ 0 :: junk) limit turns' left' := by
  induction left generalizing t left' with
  | zero => omega
  | succ left ih =>
      obtain ⟨rest, rfl⟩ : ∃ rest, left' = rest + 1 := ⟨left' - 1, by omega⟩
      rw [scan, scan]
      by_cases hlt : t.head < limit
      · have hhead : t.head ≤ s.chars.length := by omega
        have hsame : t.hits (s.chars ++ 0 :: junk) turns = t.hits (s.chars ++ 0 :: junk) turns' :=
          hits_turns hhead (by omega) (by omega)
        rw [if_pos hlt, if_pos hlt, hsame]
        refine Option.bind_congr fun t₁ hhits => ?_
        have hmoved := hits_head hhead hhits
        exact ih (show limit - (t₁.head + 1) < left by omega)
          (show limit - (t₁.head + 1) < rest by omega)
      · rw [if_neg hlt, if_neg hlt]

end Turns

end SnTrace

/-- The NUL that `find_and_printf_sn` writes behind a text is there already. -/
theorem store_nul (s : CStr) (junk : List Byte) :
    store (s.chars ++ 0 :: junk) s.chars.length [0] = some (s.chars ++ 0 :: junk) := by
  rw [store_eq_some, overlay, List.take_left, List.append_assoc, List.drop_append]
  · simp
  · simp

/-- **The trace ends on any text**: more turns than the text has characters give the same result. -/
theorem find_and_printf_sn_turns (s : CStr) (junk : List Byte) {turns turns' : Nat}
    (hturns : s.chars.length < turns) (hturns' : s.chars.length < turns') :
    find_and_printf_sn turns (s.chars ++ 0 :: junk) s.chars.length =
      find_and_printf_sn turns' (s.chars ++ 0 :: junk) s.chars.length := by
  by_cases hlen : 0 < s.chars.length
  · rw [find_and_printf_sn, find_and_printf_sn, if_pos hlen, if_pos hlen, store_nul,
      Option.bind_eq_bind, Option.bind_some, Option.bind_some,
      SnTrace.scan_turns (Nat.sub_le _ _) hturns hturns'
        (show s.chars.length - 1 - 0 < turns by omega)
        (show s.chars.length - 1 - 0 < turns' by omega)]
  · rw [find_and_printf_sn, find_and_printf_sn, if_neg hlen, if_neg hlen]

end Netflow
