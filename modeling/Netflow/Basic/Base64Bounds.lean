import Netflow.Basic.Base64Decode
import Netflow.Lib.Block

set_option autoImplicit false

/-! # `base64_encode` and `base64_decode` in their blocks (`cdogBase64.c`)

`base64_encode_block` is the encoder store by store, into the block `iks_malloc` returned for it; a
store outside the block is undefined behaviour and gives `none`, and so does an `int` overflow in the
size of the block. The decoder of the server is the one of the library.
-/

namespace Netflow

/-- A block of `n` bytes from `iks_malloc`, with whatever `junk` is in it. -/
def iks_malloc (junk : Nat → Byte) (n : Nat) : List Byte := (List.range n).map junk

theorem length_iks_malloc (junk : Nat → Byte) (n : Nat) : (iks_malloc junk n).length = n := by
  rw [iks_malloc, List.length_map, List.length_range]

/-- The block at `save` and the offset of `res` in it. -/
structure Encoder where
  save : List Byte
  res : Nat

namespace Encoder

/-- `*res++ = c`. -/
def put (e : Encoder) (c : Byte) : Option Encoder :=
  (store e.save e.res [c]).map fun save => { save := save, res := e.res + 1 }

/-- The `k` loop and the `switch`. -/
def groups : List Byte → Encoder → Option Encoder
  | b0 :: b1 :: b2 :: rest, e => do
      let e ← e.put (base64Char (b0 >>> 2))
      let e ← e.put (base64Char (((b0 &&& 0x03) <<< 4) ||| (b1 >>> 4)))
      let e ← e.put (base64Char (((b1 &&& 0x0F) <<< 2) ||| (b2 >>> 6)))
      let e ← e.put (base64Char (b2 &&& 0x3F))
      groups rest e
  | [b0, b1], e => do
      let e ← e.put (base64Char (b0 >>> 2))
      let e ← e.put (base64Char (((b0 &&& 0x03) <<< 4) ||| (b1 >>> 4)))
      let e ← e.put (base64Char ((b1 &&& 0x0F) <<< 2))
      e.put base64Pad
  | [b0], e => do
      let e ← e.put (base64Char (b0 >>> 2))
      let e ← e.put (base64Char ((b0 &&& 0x03) <<< 4))
      let e ← e.put base64Pad
      e.put base64Pad
  | [], e => some e

end Encoder

/-- The block the encoder returns. -/
def base64_encode_block (junk : Nat → Byte) (buf : List Byte) (len : Nat) : Option (List Byte) := do
  let len ← if 0 < len then some len else strlenIn buf
  if len * 8 < 2147483648 then
    if len ≤ buf.length then
      let e ← Encoder.groups (buf.take len) { save := iks_malloc junk (len * 8 / 6 + 4), res := 0 }
      store e.save e.res [0]
    else none
  else none

def base64_decode (buf : CStr) : Option (List Byte) := iks_base64_decode buf

/-! ## The stores -/

namespace Encoder

/-- A list of characters stored one after the other. -/
def puts (e : Encoder) (cs : List Byte) : Option Encoder :=
  (store e.save e.res cs).map fun save => { save := save, res := e.res + cs.length }

theorem puts_nil {e : Encoder} (h : e.res ≤ e.save.length) : e.puts [] = some e := by
  rw [puts, store_nil h, Option.map_some]
  rfl

theorem puts_cons (e : Encoder) (c : Byte) (cs : List Byte) :
    e.puts (c :: cs) = (e.put c).bind fun e => e.puts cs := by
  rw [puts, put, store_cons]
  cases store e.save e.res [c] with
  | none => rfl
  | some save =>
      simp only [Option.bind_some, Option.map_some, puts, List.length_cons, Nat.add_assoc,
        Nat.add_comm 1]

/-- A store leaves `res` inside the block or right behind it. -/
theorem res_le_of_put {e e' : Encoder} {c : Byte} (h : e.put c = some e') :
    e'.res ≤ e'.save.length := by
  rw [put, Option.map_eq_some_iff] at h
  obtain ⟨save, hstore, rfl⟩ := h
  obtain ⟨hin, rfl⟩ := store_eq_some_iff.mp hstore
  show e.res + 1 ≤ _
  rw [length_overlay hin]
  exact hin

theorem put_puts_nil (e : Encoder) (c : Byte) : (e.put c).bind (fun e => e.puts []) = e.put c := by
  cases hput : e.put c with
  | none => rfl
  | some e' => exact puts_nil (res_le_of_put hput)

/-- **The loop stores the encoding.** -/
theorem groups_eq (l : List Byte) {e : Encoder} (h : e.res ≤ e.save.length) :
    groups l e = e.puts (base64Groups l) := by
  induction l using base64Groups.induct generalizing e with
  | case1 b0 b1 b2 rest ih =>
      simp only [groups, base64Groups, puts_cons, Option.bind_eq_bind]
      refine Option.bind_congr fun e1 _ => ?_
      refine Option.bind_congr fun e2 _ => ?_
      refine Option.bind_congr fun e3 _ => ?_
      refine Option.bind_congr fun e4 h4 => ?_
      exact ih (res_le_of_put h4)
  | case2 b0 b1 => simp only [groups, base64Groups, puts_cons, put_puts_nil, Option.bind_eq_bind]
  | case3 b0 => simp only [groups, base64Groups, puts_cons, put_puts_nil, Option.bind_eq_bind]
  | case4 => rw [groups, base64Groups, puts_nil h]

end Encoder

/-- The block has room for every encoding and its NUL. -/
theorem base64_block_fits (len : Nat) : 4 * ((len + 2) / 3) + 1 ≤ len * 8 / 6 + 4 := by
  omega

/-- **The encoder in its block**: the encoding and its NUL stand at the start of the block, and what
was behind them is still there. -/
theorem base64_encode_block_eq (junk : Nat → Byte) {buf : List Byte} {len : Nat} (hpos : 0 < len)
    (hlen : len ≤ buf.length) (hint : len * 8 < 2147483648) :
    base64_encode_block junk buf len =
      some (base64Groups (buf.take len) ++ 0 ::
        (iks_malloc junk (len * 8 / 6 + 4)).drop (4 * ((len + 2) / 3) + 1)) := by
  obtain ⟨block, hblock⟩ : ∃ block, block = iks_malloc junk (len * 8 / 6 + 4) := ⟨_, rfl⟩
  have hsize : block.length = len * 8 / 6 + 4 := by rw [hblock, length_iks_malloc]
  have htext : (base64Groups (buf.take len)).length = 4 * ((len + 2) / 3) := by
    rw [length_base64Groups, List.length_take, Nat.min_eq_left hlen]
  have hroom : 0 + (base64Groups (buf.take len)).length ≤ block.length := by
    have hfits := base64_block_fits len
    omega
  have hall : 0 + (base64Groups (buf.take len) ++ [0]).length ≤ block.length := by
    have hfits := base64_block_fits len
    rw [List.length_append, List.length_singleton]
    omega
  have hgroups := Encoder.groups_eq (buf.take len) (e := ⟨block, 0⟩) (Nat.zero_le _)
  have htwo := store_append block 0 (base64Groups (buf.take len)) [0]
  rw [store_eq_some hroom, Option.bind_some, store_eq_some hall] at htwo
  rw [Encoder.puts, store_eq_some hroom, Option.map_some] at hgroups
  simp only [base64_encode_block, if_pos hpos, if_pos hint, if_pos hlen, Option.bind_eq_bind,
    Option.bind_some, ← hblock, hgroups, ← htwo]
  rw [overlay, List.take_zero, List.nil_append, Nat.zero_add, List.length_append, htext,
    List.append_assoc]
  rfl

/-! ## The round trip -/

/-- **Base64 round trip within bounds.** The encoding of `len` bytes has `4 * ⌈len / 3⌉` characters
and stands with its NUL in the encoder's block; the decoder stays in its own block and leaves there
the bytes and zeros up to `3 * ⌈len / 3⌉`; no other bytes of the same number have this encoding. -/
theorem base64_round_trip (junk : Nat → Byte) (b : List Byte) (hpos : 1 ≤ b.length)
    (hint : b.length * 8 < 2147483648) :
    ∃ str block, base64_encode b b.length = some str ∧
      str.chars.length = 4 * ((b.length + 2) / 3) ∧
      str.chars.length + 1 ≤ b.length * 8 / 6 + 4 ∧
      base64_encode_block junk b b.length =
        some (str.chars ++ 0 ::
          (iks_malloc junk (b.length * 8 / 6 + 4)).drop (str.chars.length + 1)) ∧
      base64_decode str = some block ∧
      block.length = str.chars.length * 6 / 8 + 1 ∧
      block.take b.length = b ∧
      (∀ k, b.length ≤ k → k < 3 * ((b.length + 2) / 3) → block[k]? = some 0) ∧
      ∀ b', b'.length = b.length → base64_encode b' b.length = some str → b' = b := by
  obtain ⟨str, hencode, hchars⟩ := base64_encode_eq hpos (Nat.le_refl b.length)
  rw [List.take_length] at hchars
  have hlength : str.chars.length = 4 * ((b.length + 2) / 3) := by rw [hchars, length_base64Groups]
  have hdecode : base64_decode str = _ := iks_base64_decode_groups hchars
  have hle := Decoder.le_groupBytes b.length
  refine ⟨str, _, hencode, hlength, ?_, ?_, hdecode, ?_, ?_, ?_, ?_⟩
  · rw [hlength]
    exact base64_block_fits b.length
  · rw [base64_encode_block_eq junk hpos (Nat.le_refl _) hint, List.take_length, ← hchars, hlength]
  · rw [List.length_append, List.length_replicate, hlength]
    rw [Decoder.groupBytes] at hle ⊢
    omega
  · rw [List.take_append_of_le_length (Nat.le_refl _), List.take_length]
  · intro k hk hlt
    rw [List.getElem?_append_right hk, List.getElem?_replicate, if_pos]
    rw [Decoder.groupBytes]
    omega
  · -- the decoder gives both back
    intro b' hlen' hencode'
    obtain ⟨str', hstr', hchars'⟩ := base64_encode_eq hpos (Nat.le_of_eq hlen'.symm)
    rw [hencode', Option.some_inj] at hstr'
    rw [← hlen', List.take_length, ← hstr'] at hchars'
    have hdecode' := iks_base64_decode_groups hchars'
    have hblocks := Option.some.inj (hdecode.symm.trans hdecode')
    exact (List.append_inj hblocks hlen'.symm).1.symm

/-- Two bytes, one of them above 127 and one of them 0. -/
theorem base64_round_trip_two : ∃ str block, base64_encode [200, 0] 2 = some str ∧
    str.chars.length = 4 ∧ base64_decode str = some block ∧ block.take 2 = [200, 0] := by
  obtain ⟨str, block, hencode, hlength, -, -, hdecode, -, hbytes, -⟩ :=
    base64_round_trip (fun _ => 0) [200, 0] (by decide) (by decide)
  exact ⟨str, block, hencode, hlength, hdecode, hbytes⟩

end Netflow
