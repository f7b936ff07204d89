import Netflow.Basic.CStr

set_option autoImplicit false

/-! # `base64_encode` (`cdogBase64.c`)

The encoder reads its input in groups of three bytes. A length that is not positive stands for the
length of the string at `buf`. Reading beyond the memory at `buf` is undefined behaviour and gives
`none`; the block for the result is taken to be there.
-/

namespace Netflow

def base64_charset : List Byte :=
  (CStr.lit "ABCDEFGHIJKLMNOPQRSTUVWXYZabcdefghijklmnopqrstuvwxyz0123456789+/").chars

/-- `base64_charset[t]`. -/
def base64Char (t : Byte) : Byte := base64_charset.getD t.toNat 0

/-- The character `=` that fills the last group. -/
def base64Pad : Byte := 61

/-- The `k` loop and the `switch` on the bytes that are left. -/
def base64Groups : List Byte → List Byte
  | b0 :: b1 :: b2 :: rest =>
      base64Char (b0 >>> 2) :: base64Char (((b0 &&& 0x03) <<< 4) ||| (b1 >>> 4)) ::
        base64Char (((b1 &&& 0x0F) <<< 2) ||| (b2 >>> 6)) :: base64Char (b2 &&& 0x3F) ::
        base64Groups rest
  | [b0, b1] =>
      [base64Char (b0 >>> 2), base64Char (((b0 &&& 0x03) <<< 4) ||| (b1 >>> 4)),
        base64Char ((b1 &&& 0x0F) <<< 2), base64Pad]
  | [b0] => [base64Char (b0 >>> 2), base64Char ((b0 &&& 0x03) <<< 4), base64Pad, base64Pad]
  | [] => []

/-- `strlen(buf)`; `none` when no NUL ends the string. -/
def strlenIn (buf : List Byte) : Option Nat :=
  if (0 : Byte) ∈ buf then some (CStr.ofChars buf).chars.length else none

def base64_encode (buf : List Byte) (len : Nat) : Option CStr := do
  let len ← if 0 < len then some len else strlenIn buf
  if len ≤ buf.length then some (CStr.ofChars (base64Groups (buf.take len))) else none

end Netflow
