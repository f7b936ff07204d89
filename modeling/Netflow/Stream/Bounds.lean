import Netflow.Lib.Block
import Netflow.Lib.Transition
import Netflow.Stream.Basic

set_option autoImplicit false

/-! # Streams stay in their blocks

Any calls on a stream, in any order and with any answers of the allocator. `StreamCall.runIn` is a call
that does not leave the block: it is `none` where the call writes outside it or reads behind its source.
A call does all that is expected of it (`CallOk`) exactly when it fits (`StreamCall.Fits`): three things
can go wrong. `check_write_free` does not count the NUL of a string, for which a block that was grown
has no byte to spare; a `realloc` moves the bytes by the offset `chunk_buf` had in the block, and a
failed one clears `chunk_mem`; and lengths and sizes go through 32 bits.
-/

namespace Netflow

/-- The `int` a length becomes. -/
def lenToInt (n : Nat) : Int :=
  if toUInt n < 2147483648 then toUInt n else (toUInt n : Int) - 4294967296

/-- A call on a stream. The pushes carry the answer of the allocator, for the case that they ask it. -/
inductive StreamCall where
  | reset_stream
  | copy_stream (src : List Byte)
  | push_stream_buf (buf : List Byte) (answer : Answer)
  | push_stream_string (str : CStr) (answer : Answer)

namespace Stream

/-- The bytes pushed since the last reset. -/
def pushed (st : Stream) : List Byte :=
  (st.block.drop st.chunk_buf).take (st.chunk_write - st.chunk_buf)

/-- `chunk_mem <= chunk_buf <= chunk_ptr, chunk_write`, and all of them in the block. -/
structure InBounds (st : Stream) : Prop where
  mem : st.mem_null = false
  buf_le_ptr : st.chunk_buf ≤ st.chunk_ptr
  buf_le_write : st.chunk_buf ≤ st.chunk_write
  ptr_le : st.chunk_ptr ≤ st.block.length
  write_le : st.chunk_write ≤ st.block.length

/-- Bytes written at `chunk_write`. -/
def write (st : Stream) (src : List Byte) : Stream :=
  { st with
    block := memcpy st.block st.chunk_write src
    chunk_write := st.chunk_write + src.length }

/-- Bytes written at `chunk_write` that have to lie in the block. -/
def writeIn (st : Stream) (src : List Byte) : Option Stream :=
  (store st.block st.chunk_write src).map fun block =>
    { st with
      block := block
      chunk_write := st.chunk_write + src.length }

/-- The size of the block after a `realloc` for `len` more bytes. -/
def grownSize (st : Stream) (len : Nat) : Nat :=
  toUInt (toUInt (st.size + len) + toUInt (st.size + len) / 4)

end Stream

namespace StreamCall

def run (st : Stream) : StreamCall → Stream
  | .reset_stream => Netflow.reset_stream st
  | .copy_stream src => (Netflow.copy_stream src st).2
  | .push_stream_buf buf answer => Netflow.push_stream_buf st buf (lenToInt buf.length) answer
  | .push_stream_string str answer => Netflow.push_stream_string st str answer

/-- A copy whose cursor has passed the end of the buffer counts a negative number of bytes. A string of
`2^31` bytes has a negative length, which `memcpy` takes for a large one. -/
def runIn (st : Stream) : StreamCall → Option Stream
  | .reset_stream => some (Netflow.reset_stream st)
  | .copy_stream src =>
      if st.chunk_ptr ≤ st.chunk_buf + st.size then
        let len_t := toUInt (min (st.chunk_buf + st.size - st.chunk_ptr) src.length)
        (store st.block st.chunk_ptr (src.take len_t)).map fun block =>
          { st with
            block := block
            chunk_ptr := st.chunk_ptr + len_t }
      else none
  | .push_stream_buf buf answer =>
      let len := lenToInt buf.length
      if len ≤ 0 then some st
      else
        let room := make_room st len.toNat answer
        if room.1 then room.2.writeIn (buf.take len.toNat) else some room.2
  | .push_stream_string str answer =>
      let len := intToSize str.chars.length
      let room := make_room st (toUInt len) answer
      if room.1 then
        if len ≤ str.chars.length then room.2.writeIn (str.chars.take len ++ [0]) else none
      else some room.2

end StreamCall

/-- A push of `count` bytes fits, where `check_write_free` is asked for `len`: when it finds them to
fit, they lie in the block; when it does not, the allocator has a block in which they do, and the bytes
pushed before are the first ones of the block, so that they stay where they are. -/
def PushFits (st : Stream) (len count : Nat) (answer : Answer) : Prop :=
  if (check_write_free st len).1 = true then st.chunk_write + count ≤ st.block.length
  else
    answer ≠ none ∧ st.chunk_write - st.chunk_buf < 4294967296 ∧
      st.pushed = st.block.take (st.chunk_write - st.chunk_buf) ∧
      st.chunk_write - st.chunk_buf + count ≤ st.grownSize len

/-- When a call does what is expected of it. -/
def StreamCall.Fits (st : Stream) : StreamCall → Prop
  | .reset_stream => True
  | .copy_stream _ => True
  | .push_stream_buf buf answer =>
      0 < lenToInt buf.length →
        PushFits st (lenToInt buf.length).toNat (lenToInt buf.length).toNat answer
  | .push_stream_string str answer =>
      let len := intToSize str.chars.length
      len ≤ str.chars.length ∧ PushFits st (toUInt len) (len + 1) answer

/-- What holds between the calls besides. -/
structure StreamInv (st : Stream) : Prop where
  inBounds : st.InBounds
  ptr_le : st.chunk_ptr ≤ st.chunk_buf + st.size
  room : st.chunk_buf + st.size ≤ st.block.length

theorem streamInv_init (align size : Nat) : StreamInv (init_stream align size) := by
  have hmod : (16 - align % 16) % 16 < 16 := Nat.mod_lt _ (by decide)
  have hlength : (init_stream align size).block.length = size + 32 := List.length_replicate
  have hbuf : (init_stream align size).chunk_buf ≤ 15 := Nat.le_of_lt_succ hmod
  refine ⟨⟨rfl, Nat.le_refl _, Nat.le_refl _, ?_, ?_⟩, Nat.le_add_right _ _, ?_⟩
  · show (init_stream align size).chunk_buf ≤ _
    omega
  · show (init_stream align size).chunk_buf ≤ _
    omega
  · show _ + size ≤ _
    omega

/-! ## Copies and resets -/

theorem StreamInv.reset {st : Stream} (h : StreamInv st) : StreamInv (reset_stream st) where
  inBounds :=
    { mem := h.inBounds.mem
      buf_le_ptr := Nat.le_refl _
      buf_le_write := Nat.le_refl _
      ptr_le := h.inBounds.buf_le_ptr.trans h.inBounds.ptr_le
      write_le := h.inBounds.buf_le_ptr.trans h.inBounds.ptr_le }
  ptr_le := Nat.le_add_right _ _
  room := h.room

/-- What both pushes do with the bytes they write, when `check_write_free` is asked for `len`. -/
def Stream.push (st : Stream) (len : Nat) (src : List Byte) (answer : Answer) : Stream :=
  let room := make_room st len answer
  if room.1 then room.2.write src else room.2

def Stream.pushIn (st : Stream) (len : Nat) (src : List Byte) (answer : Answer) : Option Stream :=
  let room := make_room st len answer
  if room.1 then room.2.writeIn src else some room.2

theorem Stream.writeIn_eq_some {st : Stream} {src : List Byte}
    (h : st.chunk_write + src.length ≤ st.block.length) : st.writeIn src = some (st.write src) := by
  rw [writeIn, store_eq_some h]
  rfl

theorem Stream.writeIn_eq_none {st : Stream} {src : List Byte}
    (h : ¬st.chunk_write + src.length ≤ st.block.length) : st.writeIn src = none := by
  rw [writeIn, store, if_neg h, Option.map_none]

/-- A push of bytes that lie in the block. -/
theorem StreamInv.write {st : Stream} (h : StreamInv st) {src : List Byte}
    (hin : st.chunk_write + src.length ≤ st.block.length) : StreamInv (st.write src) := by
  have hblock : (memcpy st.block st.chunk_write src).length = st.block.length := length_memcpy hin
  refine ⟨⟨h.inBounds.mem, h.inBounds.buf_le_ptr, ?_, ?_, ?_⟩, h.ptr_le, ?_⟩
  · exact h.inBounds.buf_le_write.trans (Nat.le_add_right _ _)
  · show st.chunk_ptr ≤ (memcpy _ _ _).length
    rw [hblock]
    exact h.inBounds.ptr_le
  · show st.chunk_write + src.length ≤ (memcpy _ _ _).length
    rwa [hblock]
  · show st.chunk_buf + st.size ≤ (memcpy _ _ _).length
    rw [hblock]
    exact h.room

/-- A stream after a `realloc` for `len` more bytes that returned `block`, with `w` bytes written. -/
def Stream.grown (st : Stream) (len w : Nat) (block : List Byte) : Stream where
  size := st.grownSize len
  block := block
  mem_null := false
  chunk_ptr := w
  chunk_buf := 0
  chunk_write := w

/-- A `realloc` that succeeds returns a block of the new size, which starts with the bytes of the old
one. -/
theorem realloc_stream_size_some (st : Stream) (w len : Nat) (junk : List Byte) :
    ∃ block, realloc_stream_size st w len (some junk) =
        (true, st.grown len w block) ∧
      block.length = st.grownSize len ∧
      (st.mem_null = false →
        ∀ k, k ≤ st.grownSize len → k ≤ st.block.length → block.take k = st.block.take k) := by
  obtain ⟨size, hsize⟩ : ∃ size, size = st.grownSize len := ⟨_, rfl⟩
  obtain ⟨kept, hkept⟩ : ∃ kept, kept = if st.mem_null then [] else st.block.take size := ⟨_, rfl⟩
  have hle : kept.length ≤ size := by
    rw [hkept]
    split
    · exact Nat.zero_le _
    · exact List.length_take_le ..
  refine ⟨kept ++ (junk ++ List.replicate size 0).take (size - kept.length), ?_, ?_, ?_⟩
  · rw [realloc_stream_size, hkept, hsize]
    rfl
  · rw [← hsize, List.length_append, List.length_take, List.length_append, List.length_replicate]
    omega
  · intro hmem k hk hblock
    have hfull : kept = st.block.take size := by
      rw [hkept, hmem]
      rfl
    have hlength : (st.block.take size).length = min size st.block.length := List.length_take ..
    rw [hfull, List.take_append_of_le_length (by omega), List.take_take, Nat.min_eq_left (by omega)]

section Push

variable {st : Stream} {len : Nat} (src : List Byte)

theorem push_of_free (answer : Answer) (h : (check_write_free st len).1 = true) :
    st.push len src answer = st.write src ∧ st.pushIn len src answer = st.writeIn src := by
  have hroom : make_room st len answer = (true, st) := by rw [make_room, if_pos h]
  rw [Stream.push, Stream.pushIn, hroom]
  exact ⟨rfl, rfl⟩

theorem push_of_refused (h : (check_write_free st len).1 = false) :
    st.push len src none = { st with mem_null := true } ∧
      st.pushIn len src none = some { st with mem_null := true } := by
  have hroom : make_room st len none = (false, { st with mem_null := true }) := by
    rw [make_room, h]
    rfl
  rw [Stream.push, Stream.pushIn, hroom]
  exact ⟨rfl, rfl⟩

/-- The push when the block is replaced: `w` is what `check_write_free` takes for the number of bytes
written so far. -/
theorem push_of_grown (st : Stream) (junk : List Byte) (h : (check_write_free st len).1 = false) :
    ∃ w block, w = toUInt (st.chunk_write - st.chunk_buf) ∧ block.length = st.grownSize len ∧
      (st.mem_null = false →
        ∀ k, k ≤ st.grownSize len → k ≤ st.block.length → block.take k = st.block.take k) ∧
      st.push len src (some junk) = (st.grown len w block).write src ∧
        st.pushIn len src (some junk) = (st.grown len w block).writeIn src := by
  obtain ⟨block, hrealloc, hlength, htake⟩ :=
    realloc_stream_size_some st (toUInt (st.chunk_write - st.chunk_buf)) len junk
  have hroom : make_room st len (some junk) =
      (true, st.grown len (toUInt (st.chunk_write - st.chunk_buf)) block) := by
    rw [make_room, h]
    exact hrealloc
  refine ⟨_, block, rfl, hlength, htake, ?_, ?_⟩
  · rw [Stream.push, hroom]
    rfl
  · rw [Stream.pushIn, hroom]
    rfl

theorem toUInt_lt (n : Nat) : toUInt n < 4294967296 := Nat.mod_lt _ (by decide)

end Push

/-! ## Calls -/

section Calls

variable {st : Stream}

theorem push_stream_string_eq (st : Stream) {str : CStr}
    (hlen : intToSize str.chars.length ≤ str.chars.length)
    (answer : Answer) :
    let len := intToSize str.chars.length
    (StreamCall.push_stream_string str answer).run st =
        st.push (toUInt len) (str.chars.take len ++ [0]) answer ∧
      (StreamCall.push_stream_string str answer).runIn st =
        st.pushIn (toUInt len) (str.chars.take len ++ [0]) answer ∧
      (str.chars.take len ++ [0]).length = len + 1 := by
  intro len
  have hlength : (str.chars.take len ++ [0]).length = len + 1 := by
    rw [List.length_append, List.length_take, Nat.min_eq_left hlen, List.length_singleton]
  refine ⟨?_, ?_, hlength⟩
  · rw [StreamCall.run, push_stream_string, Stream.push]
    simp only [Stream.write, hlength]
    rfl
  · rw [StreamCall.runIn]
    simp only [if_pos hlen]
    rfl

end Calls

/-! ## Runs -/

end Netflow
