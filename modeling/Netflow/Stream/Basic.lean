import Netflow.Lib.Block
import Netflow.Basic.CStr
import Mathlib.Tactic.Ring

set_option autoImplicit false

/-! # Stream buffers (`stream.c`)

A stream is a growable byte buffer with a copy cursor (`chunk_ptr`, used by `copy_stream`) and a
write cursor (`chunk_write`, used by the `push` functions). Pointers into the buffer are offsets
from the start of the block that `chunk_buf` points into. The fields `chunk_read`, `syncword` and
`endword` are never read and are left out.

Lengths go through C integers: `int` and `unsigned int` of 32 bits, `size_t` of 64.
-/

namespace Netflow

def MIN_MALLOC_LEN : Nat := 32

/-- Conversion of a length to `unsigned int`. -/
def toUInt (n : Nat) : Nat := n % 4294967296

/-- The `size_t` a length becomes after it was stored in an `int`: a length from `2^31` on turns
negative there and is extended to 64 bits with its sign. -/
def intToSize (n : Nat) : Nat :=
  if toUInt n < 2147483648 then toUInt n else toUInt n + 18446744069414584320

theorem toUInt_of_lt {n : Nat} (h : n < 4294967296) : toUInt n = n := Nat.mod_eq_of_lt h

theorem intToSize_of_lt {n : Nat} (h : n < 2147483648) : intToSize n = n := by
  have hn : toUInt n = n := toUInt_of_lt (by omega)
  rw [intToSize, hn, if_pos h]

/-- `struct tagStream`. `block` is the memory from which `chunk_ptr`, `chunk_buf` and
`chunk_write` are offsets; `mem_null` says that `chunk_mem` is NULL, which it becomes when a
`realloc` fails (it points to the start of `block` otherwise). -/
structure Stream where
  size : Nat
  block : List Byte
  mem_null : Bool
  chunk_ptr : Nat
  chunk_buf : Nat
  chunk_write : Nat
deriving DecidableEq

/-- `memcpy(block + p, src, src.length)`. -/
def memcpy (block : List Byte) (p : Nat) (src : List Byte) : List Byte :=
  block.take p ++ src ++ block.drop (p + src.length)

/-- The C string at offset `p` of a block. -/
def stringAt (block : List Byte) (p : Nat) : CStr := CStr.ofChars (block.drop p)

/-- `init_stream(size)` when `malloc` returns a block at an address that is `align` modulo 16:
the block is zeroed and `chunk_buf` advances to the next multiple of 16. -/
def init_stream (align size : Nat) : Stream :=
  let chunk_buf := (16 - align % 16) % 16
  { size := size, block := List.replicate (size + MIN_MALLOC_LEN) 0, mem_null := false,
    chunk_ptr := chunk_buf, chunk_buf := chunk_buf, chunk_write := chunk_buf }

/-- `copy_stream(current, end)` on the bytes between `current` and `end`: copies what fits below
`chunk_buf + size` and returns the bytes from the new `current` on. -/
def copy_stream (src : List Byte) (st : Stream) : List Byte × Stream :=
  let len_t := toUInt (min (st.chunk_buf + st.size - st.chunk_ptr) src.length)
  (src.drop len_t,
    { st with block := memcpy st.block st.chunk_ptr (src.take len_t),
              chunk_ptr := st.chunk_ptr + len_t })

/-- `reset_stream`: the cursors go back to `chunk_buf`; the bytes stay. -/
def reset_stream (st : Stream) : Stream :=
  { st with chunk_ptr := st.chunk_buf, chunk_write := st.chunk_buf }

/-- `check_write_free`: whether `push_len` more bytes fit, and the bytes written so far. -/
def check_write_free (st : Stream) (push_len : Nat) : Bool × Nat :=
  let wrotelen := toUInt (st.chunk_write - st.chunk_buf)
  let len_t := toUInt (wrotelen + push_len)
  (decide (len_t ≤ st.size), wrotelen)

/-- What the allocator answers to a `realloc`: NULL, or a block whose bytes behind the kept ones
are `junk`. -/
abbrev Answer := Option (List Byte)

/-- `realloc_stream_size`. The block `realloc` returns starts with the bytes of the old block
(nothing, when `chunk_mem` was NULL), and `chunk_buf` becomes its first byte. A failed `realloc`
leaves the old block in place and stores NULL in `chunk_mem`. -/
def realloc_stream_size (st : Stream) (wrotesize writtingsize : Nat) (answer : Answer) :
    Bool × Stream :=
  let len_t := toUInt (st.size + writtingsize)
  let size := toUInt (len_t + len_t / 4)
  match answer with
  | none => (false, { st with mem_null := true })
  | some junk =>
      let kept := if st.mem_null then [] else st.block.take size
      let fresh := (junk ++ List.replicate size 0).take (size - kept.length)
      (true, { size := size, block := kept ++ fresh, mem_null := false,
               chunk_ptr := wrotesize, chunk_buf := 0, chunk_write := wrotesize })

/-- Room for `len` more bytes, growing the block when they do not fit. -/
def make_room (st : Stream) (len : Nat) (answer : Answer) : Bool × Stream :=
  let free := check_write_free st len
  if free.1 then (true, st) else realloc_stream_size st free.2 len answer

/-- `push_stream_buf(buf, len)` with `buf` the bytes that the `int` `len` counts. -/
def push_stream_buf (st : Stream) (buf : List Byte) (len : Int) (answer : Answer) : Stream :=
  if len ≤ 0 then st
  else
    let room := make_room st len.toNat answer
    if room.1 then
      { room.2 with
        block := memcpy room.2.block room.2.chunk_write (buf.take len.toNat)
        chunk_write := room.2.chunk_write + len.toNat }
    else room.2

/-- `push_stream_string(str)`: the string and its NUL are written at `chunk_write`. -/
def push_stream_string (st : Stream) (str : CStr) (answer : Answer) : Stream :=
  let len := intToSize str.chars.length
  let room := make_room st (toUInt len) answer
  if room.1 then
    { room.2 with
      block := memcpy room.2.block room.2.chunk_write (str.chars.take len ++ [0])
      chunk_write := room.2.chunk_write + (len + 1) }
  else room.2

/-- `get_data_ptr` and `get_stream_ptr`: the offset the text of a stream is read from. -/
def get_stream_ptr (st : Stream) : Nat := st.chunk_buf

/-- The text of a stream, the C string at `get_stream_ptr`. -/
def Stream.text (st : Stream) : CStr := stringAt st.block (get_stream_ptr st)

/-- `get_stream_len`. -/
def get_stream_len (st : Stream) : Nat := st.text.chars.length

/-! ## Copies into a block -/

theorem length_memcpy {block src : List Byte} {p : Nat} (h : p + src.length ≤ block.length) :
    (memcpy block p src).length = block.length := length_overlay h

theorem drop_memcpy {block src : List Byte} {p : Nat} (h : p ≤ block.length) :
    (memcpy block p src).drop p = src ++ (block.drop p).drop src.length := by
  rw [List.drop_drop]
  exact drop_overlay h

/-! ## A push into a stream that was just reset -/

theorem check_write_free_reset (st : Stream) {len : Nat} (h : len < 4294967296) :
    check_write_free (reset_stream st) len = (decide (len ≤ st.size), 0) := by
  simp only [check_write_free, reset_stream, Nat.sub_self, toUInt_of_lt (Nat.zero_lt_succ _),
    zero_add, toUInt_of_lt h]

/-- A string that fits is written at `chunk_buf`, whatever the allocator would have answered. -/
theorem push_reset_of_fits (st : Stream) {str : CStr} (answer : Answer)
    (hlen : str.chars.length < 2147483648) (hfit : str.chars.length ≤ st.size) :
    push_stream_string (reset_stream st) str answer =
      { reset_stream st with
        block := memcpy st.block st.chunk_buf (str.chars ++ [0])
        chunk_write := st.chunk_buf + (str.chars.length + 1) } := by
  have hroom : make_room (reset_stream st) str.chars.length answer = (true, reset_stream st) := by
    rw [make_room, check_write_free_reset st (by omega), decide_eq_true hfit]
    rfl
  rw [push_stream_string, intToSize_of_lt hlen, toUInt_of_lt (by omega), hroom, List.take_length]
  rfl

end Netflow
