import Mathlib.Tactic.IntervalCases
import Netflow.Basic.Base64

set_option autoImplicit false

/-! # `iks_base64_decode` (`iksemel/base64.c`)

The decoder stores into a block of zeros with `|=`, six bits a character, and takes a character that
is not in the table for the first one of it. So the `=` of a last group stand for zero bits, and the
bytes after the payload are zeros. A store outside the block is undefined behaviour and gives `none`;
the block itself is taken to be there.
-/

namespace Netflow

/-- `strchr(base64_charset, c) - base64_charset`; 0 when the character is not in the table. -/
def base64Val (c : Byte) : Byte :=
  if c ∈ base64_charset then UInt8.ofNat (base64_charset.idxOf c) else 0

/-- The block at `save`, the offset of `res` in it and `index`. -/
structure Decoder where
  save : List Byte
  res : Nat
  index : Nat

namespace Decoder

/-- `*res |= v`. -/
def orRes (v : Byte) (d : Decoder) : Option Decoder :=
  if d.res < d.save.length then some { d with save := d.save.modify d.res (· ||| v) } else none

/-- `*res++ |= v`. -/
def orResInc (v : Byte) (d : Decoder) : Option Decoder :=
  (d.orRes v).map fun d => { d with res := d.res + 1 }

/-- The body of the loop on a character. -/
def step (d : Decoder) (c : Byte) : Option Decoder :=
  let val := base64Val c
  match d.index with
  | 0 => (d.orRes (val <<< 2)).map fun d => { d with index := 1 }
  | 1 => (d.orResInc (val >>> 4)).bind fun d =>
      (d.orRes (val <<< 4)).map fun d => { d with index := 2 }
  | 2 => (d.orResInc (val >>> 2)).bind fun d =>
      (d.orRes (val <<< 6)).map fun d => { d with index := 3 }
  | _ => (d.orResInc val).map fun d => { d with index := 0 }

/-- `*res = 0`. -/
def terminate (d : Decoder) : Option (List Byte) :=
  if d.res < d.save.length then some (d.save.set d.res 0) else none

end Decoder

/-- The block the decoder returns. -/
def iks_base64_decode (buf : CStr) : Option (List Byte) := do
  let len := buf.chars.length * 6 / 8 + 1
  let d ← buf.chars.foldlM Decoder.step { save := List.replicate len 0, res := 0, index := 0 }
  d.terminate

/-! ## The table -/

theorem length_base64_charset : base64_charset.length = 64 := by
  decide +kernel

theorem base64Char_mem {t : Byte} (h : t.toNat < 64) : base64Char t ∈ base64_charset := by
  rw [base64Char, List.getD_eq_getElem?_getD, List.getElem?_eq_getElem (length_base64_charset ▸ h)]
  exact List.getElem_mem _

/-- A character of the table stands for its place in it. -/
theorem base64Val_base64Char {t : Byte} (h : t.toNat < 64) : base64Val (base64Char t) = t := by
  have hall : ∀ n : Fin 64, base64Val (base64Char (UInt8.ofNat n)) = UInt8.ofNat n := by
    decide +kernel
  have ht := hall ⟨t.toNat, h⟩
  rwa [UInt8.ofNat_toNat] at ht

theorem base64Val_pad : base64Val base64Pad = 0 := by
  decide +kernel

/-! ## The values of a group -/

/-- Bytes with the same bits are the same. -/
theorem byte_ext {a b : Byte} (h : ∀ i < 8, a.toBitVec.getLsbD i = b.toBitVec.getLsbD i) : a = b :=
  UInt8.eq_of_toBitVec_eq (BitVec.eq_of_getLsbD_eq h)

theorem lt_64_of_shift {t : Byte} (h : t >>> 6 = 0) : t.toNat < 64 := by
  have hnat := congrArg UInt8.toNat h
  rw [UInt8.toNat_shiftRight, show (6 : Byte).toNat % 8 = 6 from rfl, Nat.shiftRight_eq_div_pow] at hnat
  have hzero : (0 : Byte).toNat = 0 := rfl
  omega

section Values

variable (b0 b1 b2 : Byte)

theorem value0_lt : (b0 >>> 2).toNat < 64 := by
  refine lt_64_of_shift (byte_ext fun i hi => ?_)
  interval_cases i <;> simp

theorem value1_lt : (((b0 &&& 0x03) <<< 4) ||| (b1 >>> 4)).toNat < 64 := by
  refine lt_64_of_shift (byte_ext fun i hi => ?_)
  interval_cases i <;> simp

theorem value2_lt : (((b1 &&& 0x0F) <<< 2) ||| (b2 >>> 6)).toNat < 64 := by
  refine lt_64_of_shift (byte_ext fun i hi => ?_)
  interval_cases i <;> simp

theorem value3_lt : (b2 &&& 0x3F).toNat < 64 := by
  refine lt_64_of_shift (byte_ext fun i hi => ?_)
  interval_cases i <;> simp

/-- The first two values hold the first byte. -/
theorem values_byte0 :
    ((b0 >>> 2) <<< 2) ||| ((((b0 &&& 0x03) <<< 4) ||| (b1 >>> 4)) >>> 4) = b0 := by
  refine byte_ext fun i hi => ?_
  interval_cases i <;> simp

theorem values_byte1 :
    ((((b0 &&& 0x03) <<< 4) ||| (b1 >>> 4)) <<< 4) |||
      ((((b1 &&& 0x0F) <<< 2) ||| (b2 >>> 6)) >>> 2) = b1 := by
  refine byte_ext fun i hi => ?_
  interval_cases i <;> simp

theorem values_byte2 : ((((b1 &&& 0x0F) <<< 2) ||| (b2 >>> 6)) <<< 6) ||| (b2 &&& 0x3F) = b2 := by
  refine byte_ext fun i hi => ?_
  interval_cases i <;> simp

end Values

/-! ## Groups -/

/-- The encoding of a group of three bytes, of which the last ones may be left out. -/
theorem base64Groups_cons (b0 b1 b2 : Byte) (rest : List Byte) :
    base64Groups (b0 :: b1 :: b2 :: rest) =
      [base64Char (b0 >>> 2), base64Char (((b0 &&& 0x03) <<< 4) ||| (b1 >>> 4)),
        base64Char (((b1 &&& 0x0F) <<< 2) ||| (b2 >>> 6)), base64Char (b2 &&& 0x3F)] ++
      base64Groups rest := by
  rw [base64Groups]
  rfl

theorem length_base64Groups (l : List Byte) : (base64Groups l).length = 4 * ((l.length + 2) / 3) := by
  induction l using base64Groups.induct with
  | case1 b0 b1 b2 rest ih =>
      rw [base64Groups_cons, List.length_append, ih]
      simp only [List.length_cons, List.length_nil]
      omega
  | case2 b0 b1 => simp [base64Groups]
  | case3 b0 => simp [base64Groups]
  | case4 => rfl

/-- Every character of an encoding is one of the table or the filling one. -/
theorem mem_base64Groups {l : List Byte} {c : Byte} (h : c ∈ base64Groups l) :
    c ∈ base64_charset ∨ c = base64Pad := by
  induction l using base64Groups.induct with
  | case1 b0 b1 b2 rest ih =>
      rw [base64Groups_cons, List.mem_append] at h
      obtain h | h := h
      · simp only [List.mem_cons, List.not_mem_nil, or_false] at h
        rcases h with rfl | rfl | rfl | rfl
        · exact Or.inl (base64Char_mem (value0_lt b0))
        · exact Or.inl (base64Char_mem (value1_lt b0 b1))
        · exact Or.inl (base64Char_mem (value2_lt b1 b2))
        · exact Or.inl (base64Char_mem (value3_lt b2))
      · exact ih h
  | case2 b0 b1 =>
      simp only [base64Groups, List.mem_cons, List.not_mem_nil, or_false] at h
      rcases h with rfl | rfl | rfl | rfl
      · exact Or.inl (base64Char_mem (value0_lt b0))
      · exact Or.inl (base64Char_mem (value1_lt b0 b1))
      · have hlt := value2_lt b1 0
        rw [UInt8.zero_shiftRight, UInt8.or_zero] at hlt
        exact Or.inl (base64Char_mem hlt)
      · exact Or.inr rfl
  | case3 b0 =>
      simp only [base64Groups, List.mem_cons, List.not_mem_nil, or_false] at h
      rcases h with rfl | rfl | rfl | rfl
      · exact Or.inl (base64Char_mem (value0_lt b0))
      · have hlt := value1_lt b0 0
        rw [UInt8.zero_shiftRight, UInt8.or_zero] at hlt
        exact Or.inl (base64Char_mem hlt)
      · exact Or.inr rfl
      · exact Or.inr rfl
  | case4 => cases h

/-! ## The loop -/

namespace Decoder

theorem orRes_append {done rest : List Byte} {b v : Byte} {index : Nat} :
    orRes v { save := done ++ b :: rest, res := done.length, index := index } =
      some { save := done ++ (b ||| v) :: rest, res := done.length, index := index } := by
  have hlt : done.length < (done ++ b :: rest).length := by
    rw [List.length_append, List.length_cons]
    omega
  rw [orRes, if_pos hlt]
  exact congrArg (fun save => some (Decoder.mk save done.length index))
    (List.modifyTailIdx_add (List.modifyHead (· ||| v)) 0 done (b :: rest))

/-- The store ends the bytes done. -/
theorem orResInc_append {done rest : List Byte} {b v : Byte} {index : Nat} :
    orResInc v { save := done ++ b :: rest, res := done.length, index := index } =
      some { save := (done ++ [b ||| v]) ++ rest, res := (done ++ [b ||| v]).length,
             index := index } := by
  rw [orResInc, orRes_append, Option.map_some, List.append_assoc, List.length_append]
  rfl

/-- **Four characters** store three bytes into zeros. -/
theorem foldlM_four (done rest : List Byte) (c0 c1 c2 c3 : Byte) :
    [c0, c1, c2, c3].foldlM step
        { save := done ++ 0 :: 0 :: 0 :: rest, res := done.length, index := 0 } =
      some {
        save := done ++ [base64Val c0 <<< 2 ||| base64Val c1 >>> 4,
          base64Val c1 <<< 4 ||| base64Val c2 >>> 2, base64Val c2 <<< 6 ||| base64Val c3] ++ rest
        res := done.length + 3
        index := 0 } := by
  simp only [List.foldlM_cons, List.foldlM_nil, step, orRes_append, orResInc_append, Option.map_some,
    Option.bind_eq_bind, Option.bind_some, UInt8.zero_or]
  simp only [List.append_assoc, List.cons_append, List.nil_append, List.length_append,
    List.length_cons, List.length_nil]
  rfl

/-- The bytes the groups of `n` bytes are decoded to. -/
def groupBytes (n : Nat) : Nat := 3 * ((n + 2) / 3)

theorem le_groupBytes (n : Nat) : n ≤ groupBytes n := by
  rw [groupBytes]
  omega

theorem groupBytes_add (n : Nat) : groupBytes (n + 3) = groupBytes n + 3 := by
  rw [groupBytes, groupBytes]
  omega

/-- **The loop** on an encoding stores the bytes into zeros. -/
theorem foldlM_base64Groups (l done rest : List Byte) :
    (base64Groups l).foldlM step {
        save := done ++ List.replicate (groupBytes l.length) 0 ++ rest
        res := done.length
        index := 0 } =
      some {
        save := done ++ l ++ List.replicate (groupBytes l.length - l.length) 0 ++ rest
        res := done.length + groupBytes l.length
        index := 0 } := by
  induction l using base64Groups.induct generalizing done with
  | case1 b0 b1 b2 l ih =>
      have hzeros : done ++ List.replicate (groupBytes (b0 :: b1 :: b2 :: l).length) 0 ++ rest =
          done ++ 0 :: 0 :: 0 :: (List.replicate (groupBytes l.length) 0 ++ rest) := by
        rw [show (b0 :: b1 :: b2 :: l).length = l.length + 3 from rfl, groupBytes_add,
          List.append_assoc]
        rfl
      rw [base64Groups_cons, List.foldlM_append, hzeros, foldlM_four, Option.bind_eq_bind,
        Option.bind_some, base64Val_base64Char (value0_lt b0),
        base64Val_base64Char (value1_lt b0 b1), base64Val_base64Char (value2_lt b1 b2),
        base64Val_base64Char (value3_lt b2), values_byte0, values_byte1, values_byte2,
        ← List.append_assoc]
      have hstep := ih (done ++ [b0, b1, b2])
      rw [List.length_append] at hstep
      refine hstep.trans ?_
      rw [show (b0 :: b1 :: b2 :: l).length = l.length + 3 from rfl, groupBytes_add,
        Nat.add_sub_add_right, List.append_assoc done [b0, b1, b2] l, List.length_cons,
        List.length_cons, List.length_cons, List.length_nil, Nat.add_assoc, Nat.add_comm 3]
      rfl
  | case2 b0 b1 =>
      -- the group is decoded as one whose last byte is 0
      have hlt := value2_lt b1 0
      have hbyte1 := values_byte1 b0 b1 0
      have hbyte2 := values_byte2 b1 0
      rw [UInt8.zero_shiftRight, UInt8.or_zero] at hlt hbyte1 hbyte2
      rw [UInt8.zero_and] at hbyte2
      have hthree : groupBytes 2 = 3 := by decide
      rw [show [b0, b1].length = 2 from rfl, hthree, base64Groups, List.append_assoc done]
      refine (foldlM_four done rest _ _ _ _).trans ?_
      rw [ base64Val_base64Char (value0_lt b0),
        base64Val_base64Char (value1_lt b0 b1), base64Val_base64Char hlt, base64Val_pad,
        values_byte0, hbyte1, hbyte2, List.append_assoc done [b0, b1]]
      rfl
  | case3 b0 =>
      have hlt := value1_lt b0 0
      have hbyte0 := values_byte0 b0 0
      rw [UInt8.zero_shiftRight, UInt8.or_zero] at hlt hbyte0
      have hbyte1 : ((b0 &&& 0x03) <<< 4) <<< 4 ||| (0 : Byte) >>> 2 = 0 := by
        simpa using values_byte1 b0 0 0
      have hbyte2 : (0 : Byte) <<< 6 ||| 0 = 0 := rfl
      have hthree : groupBytes 1 = 3 := by decide
      rw [show [b0].length = 1 from rfl, hthree, base64Groups, List.append_assoc done]
      refine (foldlM_four done rest _ _ _ _).trans ?_
      rw [base64Val_base64Char (value0_lt b0), base64Val_base64Char hlt, base64Val_pad, hbyte0,
        hbyte1, hbyte2, List.append_assoc done [b0]]
      rfl
  | case4 => simp [groupBytes, base64Groups]

theorem terminate_append (done rest : List Byte) (b : Byte) (index : Nat) :
    terminate { save := done ++ b :: rest, res := done.length, index := index } =
      some (done ++ 0 :: rest) := by
  have hlt : done.length < (done ++ b :: rest).length := by
    rw [List.length_append, List.length_cons]
    omega
  rw [terminate, if_pos hlt]
  simp

end Decoder

/-! ## The round trip -/

theorem base64Groups_nul_free (l : List Byte) : (0 : Byte) ∉ base64Groups l := by
  intro h
  have htable : (0 : Byte) ∉ base64_charset ∧ (0 : Byte) ≠ base64Pad := by decide +kernel
  exact (mem_base64Groups h).elim htable.1 htable.2

theorem base64_encode_eq {buf : List Byte} {len : Nat} (hpos : 0 < len) (hlen : len ≤ buf.length) :
    ∃ str, base64_encode buf len = some str ∧ str.chars = base64Groups (buf.take len) := by
  refine ⟨CStr.ofChars (base64Groups (buf.take len)), ?_,
    CStr.ofChars_chars_of_nul_free (base64Groups_nul_free _)⟩
  rw [base64_encode, if_pos hpos, Option.bind_eq_bind, Option.bind_some]
  exact if_pos hlen

/-- **The round trip**: the block decoded from an encoding is the bytes encoded and zeros, at least
one. -/
theorem iks_base64_decode_groups {str : CStr} {l : List Byte} (h : str.chars = base64Groups l) :
    iks_base64_decode str =
      some (l ++ List.replicate (Decoder.groupBytes l.length - l.length + 1) 0) := by
  have hlen : (base64Groups l).length * 6 / 8 + 1 = Decoder.groupBytes l.length + 1 := by
    rw [length_base64Groups, Decoder.groupBytes]
    omega
  have hle := Decoder.le_groupBytes l.length
  obtain ⟨z, hz⟩ : ∃ z, z = Decoder.groupBytes l.length - l.length := ⟨_, rfl⟩
  have hloop := Decoder.foldlM_base64Groups l [] [0]
  have hres : Decoder.groupBytes l.length = (l ++ List.replicate z (0 : Byte)).length := by
    rw [List.length_append, List.length_replicate]
    omega
  rw [List.nil_append, List.nil_append, List.length_nil, Nat.zero_add,
    ← List.replicate_succ', ← hz] at hloop
  rw [iks_base64_decode, h, hlen, hloop, Option.bind_eq_bind, Option.bind_some, ← hz]
  have hend := Decoder.terminate_append (l ++ List.replicate z 0) [] 0 0
  rw [← hres] at hend
  rw [hend, List.replicate_succ', List.append_assoc]

end Netflow
