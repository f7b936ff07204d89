import Netflow.Basic.Config
import Netflow.Stream.Basic

set_option autoImplicit false

/-! # A message text in the stream of its cell

A handler pushes one text into the stream of a cell it just obtained, so into a stream that was
just reset. The text is then what `get_stream_ptr` and `get_stream_len` give to the send pump,
provided that the bytes stay in the block or the block can be grown.
-/

namespace Netflow

/-- A bound on the sizes of streams: the block of a text of `MESSAGE_MAX` bytes that did not fit
one of `MESSAGE_MAX - 1`. -/
def STREAM_MAX : Nat := 11520

/-- A stream in which a push behaves well. -/
structure StreamOk (st : Stream) : Prop where
  size_pos : 0 < st.size
  size_le : st.size ≤ STREAM_MAX
  buf_le : st.chunk_buf ≤ st.block.length

/-- A string of `len` bytes can be pushed: when `check_write_free` finds it to fit, its NUL is in
the block too (after a `realloc` the block ends with the `size` bytes that `check_write_free`
counts), and when it does not fit, the allocator has a larger block. -/
def Pushable (st : Stream) (len : Nat) (answer : Answer) : Prop :=
  if len ≤ st.size then st.chunk_buf + len < st.block.length else answer ≠ none

theorem streamOk_init (align : Nat) : StreamOk (init_stream align MSGINITSIZE) where
  size_pos := by
    show 0 < MSGINITSIZE
    decide
  size_le := by
    show MSGINITSIZE ≤ STREAM_MAX
    decide
  buf_le := by
    simp only [init_stream, List.length_replicate, MIN_MALLOC_LEN, MSGINITSIZE]
    omega

theorem StreamOk.reset {st : Stream} (h : StreamOk st) : StreamOk (reset_stream st) := { h with }

/-- A string that was copied with its NUL is the string at that place. -/
theorem stringAt_memcpy {block : List Byte} {p : Nat} (str : CStr) (h : p ≤ block.length) :
    stringAt (memcpy block p (str.chars ++ [0])) p = str := by
  rw [stringAt, drop_memcpy h, List.append_assoc, List.singleton_append]
  exact CStr.ofChars_nul str _

theorem length_memcpy_ge (block : List Byte) (p : Nat) (src : List Byte) :
    block.length ≤ (memcpy block p src).length := by
  simp only [memcpy, List.length_append, List.length_take, List.length_drop]
  omega

/-- A string that does not fit is written at the start of a larger block. -/
theorem push_reset_of_grows {st : Stream} {str : CStr} (junk : List Byte)
    (hlen : str.chars.length ≤ MESSAGE_MAX) (hbig : st.size < str.chars.length) :
    ∃ size block, size = (st.size + str.chars.length) + (st.size + str.chars.length) / 4 ∧
      push_stream_string (reset_stream st) str (some junk) =
        { size := size, block := memcpy block 0 (str.chars ++ [0]), mem_null := false,
          chunk_ptr := 0, chunk_buf := 0, chunk_write := 0 + (str.chars.length + 1) } := by
  have hmax : MESSAGE_MAX < 5000 := by decide
  have hint : intToSize str.chars.length = str.chars.length := intToSize_of_lt (by omega)
  have hsum : toUInt (st.size + str.chars.length) = st.size + str.chars.length :=
    toUInt_of_lt (by omega)
  have hsize : toUInt ((st.size + str.chars.length) + (st.size + str.chars.length) / 4) =
      (st.size + str.chars.length) + (st.size + str.chars.length) / 4 := toUInt_of_lt (by omega)
  have hfree : check_write_free (reset_stream st) str.chars.length = (false, 0) := by
    rw [check_write_free_reset st (by omega), decide_eq_false (by omega)]
  refine ⟨_, (realloc_stream_size (reset_stream st) 0 str.chars.length (some junk)).2.block, rfl,
    ?_⟩
  rw [push_stream_string, hint, toUInt_of_lt (by omega), make_room, hfree]
  simp only [realloc_stream_size, reset_stream, hsum, hsize, List.take_length]
  rfl

/-- A push of a message leaves the stream well formed, whether or not the text was written. -/
theorem StreamOk.push {st : Stream} {str : CStr} {answer : Answer} (h : StreamOk st)
    (hlen : str.chars.length ≤ MESSAGE_MAX) :
    StreamOk (push_stream_string (reset_stream st) str answer) := by
  have hmax : MESSAGE_MAX = 4607 := by decide
  by_cases hfit : str.chars.length ≤ st.size
  · rw [push_reset_of_fits st answer (by omega) hfit]
    exact ⟨h.size_pos, h.size_le, h.buf_le.trans (length_memcpy_ge ..)⟩
  · cases answer with
    | none =>
        have hroom : make_room (reset_stream st) str.chars.length none =
            (false, { reset_stream st with mem_null := true }) := by
          rw [make_room, check_write_free_reset st (by omega), decide_eq_false hfit]
          rfl
        rw [push_stream_string, intToSize_of_lt (by omega), toUInt_of_lt (by omega), hroom]
        exact ⟨h.size_pos, h.size_le, h.buf_le⟩
    | some junk =>
        obtain ⟨size, block, hsize, heq⟩ := push_reset_of_grows junk hlen (Nat.lt_of_not_le hfit)
        rw [heq]
        refine ⟨?_, ?_, Nat.zero_le _⟩
        · show 0 < size
          omega
        · show size ≤ STREAM_MAX
          rw [hsize, STREAM_MAX]
          have hbound := h.size_le
          rw [STREAM_MAX] at hbound
          omega

/-- **The push of a message**: the stream stays well formed and its text is the string. -/
theorem push_reset {st : Stream} {str : CStr} {answer : Answer} (h : StreamOk st)
    (hlen : str.chars.length ≤ MESSAGE_MAX) (hpush : Pushable st str.chars.length answer) :
    StreamOk (push_stream_string (reset_stream st) str answer) ∧
      (push_stream_string (reset_stream st) str answer).text = str := by
  have hmax : MESSAGE_MAX = 4607 := by decide
  refine ⟨h.push hlen, ?_⟩
  by_cases hfit : str.chars.length ≤ st.size
  · rw [push_reset_of_fits st answer (by omega) hfit]
    exact stringAt_memcpy str h.buf_le
  · rw [Pushable, if_neg hfit] at hpush
    obtain ⟨junk, rfl⟩ := Option.ne_none_iff_exists'.mp hpush
    obtain ⟨size, block, -, heq⟩ := push_reset_of_grows junk hlen (Nat.lt_of_not_le hfit)
    rw [heq]
    exact stringAt_memcpy str (Nat.zero_le _)

end Netflow
