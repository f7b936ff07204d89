import Netflow.Basic.Config
import Netflow.Stream.Basic

set_option autoImplicit false

/-! # A recycled cell between `recv` and `iks_parse`

A `Cat2Dog` cell is filled by `copy_stream`, which counts bytes, and read as a C string, which
stops at a NUL. `reset_stream` clears nothing, so the text the parser gets also depends on what
earlier uses of the cell wrote behind the latest chunk.

Every use overlays the buffer with a list of bytes from its first byte on (`Use.bytes`); the byte
at offset `n` is therefore the one the latest use that reaches `n` wrote there (`byteAt_history`).
-/

namespace Netflow

/-- `PACK_NEW_SOCKETCLOSE_STREAM`. -/
def SOCKETSHUTDOWN : CStr := CStr.lit "<SOCKETSHUTDOWN>"

/-- A received chunk: not empty, without NUL, and not longer than the space of a cell. -/
structure Chunk where
  text : CStr
  nonempty : text.chars ≠ []
  fits : text.chars.length ≤ MSGINITSIZE
deriving DecidableEq

/-- One use of a cell: `reset_stream` and one `copy_stream`, or `reset_stream` and the
`push_stream_string` of the shutdown string. -/
inductive Use where
  | chunk (c : Chunk)
  | shutdown
deriving DecidableEq

namespace Use

/-- The stream after a use. The shutdown string always fits, so its `realloc` answer is not
looked at. -/
def run (u : Use) (st : Stream) : Stream :=
  match u with
  | chunk c => (copy_stream c.text.chars (reset_stream st)).2
  | shutdown => push_stream_string (reset_stream st) SOCKETSHUTDOWN none

/-- The bytes a use writes from `chunk_buf` on. -/
def bytes : Use → List Byte
  | chunk c => c.text.chars
  | shutdown => SOCKETSHUTDOWN.chars ++ [0]

/-- Whether a use writes the byte at offset `n`. -/
def reaches (n : Nat) (u : Use) : Bool := decide (n < u.bytes.length)

end Use

/-- The stream of a cell after a history of uses, the latest use first. `align` is the address of
its block modulo 16. -/
def cellAfter (align : Nat) : List Use → Stream
  | [] => init_stream align MSGINITSIZE
  | u :: earlier => u.run (cellAfter align earlier)

/-- The chunk the latest `copy_stream` of a history put into the cell. -/
def latestChunk : List Use → Option CStr
  | [] => none
  | .chunk c :: _ => some c.text
  | .shutdown :: earlier => latestChunk earlier

/-- The text `IOProcessParser` hands to `iks_parse` (length `0`, so up to the first NUL) is the
chunk the latest `copy_stream` put into the cell. -/
def ParserSeesLatestChunk (align : Nat) (history : List Use) : Prop :=
  ∀ c, latestChunk history = some c → (cellAfter align history).text = c

/-- No byte of an earlier use shows behind the latest one. For a chunk of length `n`: the latest
earlier use that wrote at offset `n` is a shutdown string whose NUL stands there, or there is
none. For the shutdown string, which replaces what a `copy_stream` put there: the last chunk
spelled that very string. -/
def NothingShows : List Use → Prop
  | [] => True
  | .chunk c :: earlier =>
      ∀ u, earlier.find? (Use.reaches c.text.chars.length) = some u →
        u = .shutdown ∧ c.text.chars.length = 16
  | .shutdown :: earlier => ∀ c, latestChunk earlier = some c → c = SOCKETSHUTDOWN

/-! ## The buffer as the overlay of the uses -/

/-- The memory from `chunk_buf` on. -/
def Stream.buffer (st : Stream) : List Byte := st.block.drop st.chunk_buf

/-- The shape every use keeps. -/
structure CellOk (st : Stream) : Prop where
  size_eq : st.size = MSGINITSIZE
  buf_lt : st.chunk_buf < 16
  block_length : st.block.length = MSGINITSIZE + MIN_MALLOC_LEN

theorem cellOk_init (align : Nat) : CellOk (init_stream align MSGINITSIZE) where
  size_eq := rfl
  buf_lt := Nat.mod_lt _ (by decide)
  block_length := List.length_replicate

theorem CellOk.buffer_length {st : Stream} (h : CellOk st) :
    MSGINITSIZE + 16 < st.buffer.length := by
  have h1 := h.buf_lt
  have h2 : st.buffer.length = MSGINITSIZE + MIN_MALLOC_LEN - st.chunk_buf := by
    rw [Stream.buffer, List.length_drop, h.block_length]
  simp only [MSGINITSIZE, MIN_MALLOC_LEN] at *
  omega

/-- How much a copy into a stream that was reset takes from its source. -/
theorem CellOk.copied_length {st : Stream} (h : CellOk st) (n : Nat) :
    toUInt (min (st.chunk_buf + st.size - st.chunk_buf) n) = min MSGINITSIZE n := by
  have hmax : MSGINITSIZE < 4294967296 := by decide
  rw [Nat.add_sub_cancel_left, h.size_eq, toUInt_of_lt (by omega)]

theorem Use.bytes_length_le (u : Use) : u.bytes.length ≤ MSGINITSIZE := by
  cases u with
  | chunk c => exact c.fits
  | shutdown => decide

/-- A use changes nothing of a cell but its block and its cursors, and the block by one `memcpy`
at `chunk_buf`. -/
theorem Use.run_eq (u : Use) {st : Stream} (h : CellOk st) :
    (u.run st).block = memcpy st.block st.chunk_buf u.bytes ∧
      (u.run st).chunk_buf = st.chunk_buf ∧ (u.run st).size = st.size := by
  cases u with
  | chunk c =>
      have hfits := c.fits
      have hmin : toUInt (min (st.chunk_buf + st.size - st.chunk_buf) c.text.chars.length)
          = c.text.chars.length := by
        rw [h.copied_length, Nat.min_eq_right hfits]
      refine ⟨?_, rfl, rfl⟩
      simp only [Use.run, copy_stream, reset_stream, Use.bytes, hmin, List.take_length]
  | shutdown =>
      have hlen : SOCKETSHUTDOWN.chars.length = 16 := by decide
      have hfit : SOCKETSHUTDOWN.chars.length ≤ st.size := by
        rw [h.size_eq, hlen]
        decide
      rw [Use.run, push_reset_of_fits st none (by omega) hfit]
      exact ⟨rfl, rfl, rfl⟩

theorem Use.cellOk_run (u : Use) {st : Stream} (h : CellOk st) : CellOk (u.run st) := by
  obtain ⟨hblock, hbuf, hsize⟩ := u.run_eq h
  refine ⟨hsize.trans h.size_eq, hbuf ▸ h.buf_lt, ?_⟩
  rw [hblock, length_memcpy, h.block_length]
  have h1 := u.bytes_length_le
  have h2 := h.buf_lt
  rw [h.block_length]
  simp only [MSGINITSIZE, MIN_MALLOC_LEN] at *
  omega

/-- **A use overlays the buffer.** -/
theorem Use.buffer_run (u : Use) {st : Stream} (h : CellOk st) :
    (u.run st).buffer = u.bytes ++ st.buffer.drop u.bytes.length := by
  obtain ⟨hblock, hbuf, -⟩ := u.run_eq h
  have hle : st.chunk_buf ≤ st.block.length := by
    have := h.buf_lt
    rw [h.block_length]
    simp only [MSGINITSIZE, MIN_MALLOC_LEN]
    omega
  rw [Stream.buffer, hblock, hbuf, drop_memcpy hle, Stream.buffer]

theorem cellOk_cellAfter (align : Nat) (history : List Use) : CellOk (cellAfter align history) := by
  induction history with
  | nil => exact cellOk_init align
  | cons u earlier ih => exact u.cellOk_run ih

/-- The byte the uses of a history leave at offset `n`: the one the latest use that reaches `n`
wrote, and NUL when none does. -/
def byteAt (n : Nat) (history : List Use) : Byte :=
  match history.find? (Use.reaches n) with
  | none => 0
  | some u => u.bytes[n]?.getD 0

theorem byteAt_history (align : Nat) (history : List Use) {n : Nat} (hn : n ≤ MSGINITSIZE) :
    (cellAfter align history).buffer[n]? = some (byteAt n history) := by
  induction history with
  | nil =>
      have hlt := (cellOk_init align).buffer_length
      have hbuf : (init_stream align MSGINITSIZE).buffer[n]? = some 0 := by
        rw [Stream.buffer, init_stream, List.getElem?_drop, List.getElem?_replicate, if_pos]
        rw [Stream.buffer, List.length_drop, (cellOk_init align).block_length] at hlt
        simp only [init_stream] at hlt ⊢
        omega
      exact hbuf
  | cons u earlier ih =>
      have hok := cellOk_cellAfter align earlier
      rw [cellAfter, u.buffer_run hok, byteAt, List.find?_cons]
      by_cases hr : n < u.bytes.length
      · rw [List.getElem?_append_left hr]
        simp [Use.reaches, hr]
      · rw [List.getElem?_append_right (by omega), List.getElem?_drop,
          show u.bytes.length + (n - u.bytes.length) = n by omega, ih]
        simp [Use.reaches, hr, byteAt]

/-! ## The text of the latest use -/

/-- A chunk is followed in the buffer by what earlier uses left behind it. -/
theorem text_chunk (align : Nat) (c : Chunk) (earlier : List Use) :
    (cellAfter align (.chunk c :: earlier)).text.chars =
      c.text.chars ++
        ((cellAfter align earlier).buffer.drop c.text.chars.length).takeWhile (· ≠ 0) := by
  have hbuf := (Use.chunk c).buffer_run (cellOk_cellAfter align earlier)
  have hne : ∀ b ∈ c.text.chars, decide (b ≠ 0) = true := by
    intro b hb
    simpa using fun h0 : b = 0 => c.text.nul_free (h0 ▸ hb)
  show (((Use.chunk c).run (cellAfter align earlier)).buffer).takeWhile (· ≠ 0) = _
  rw [hbuf, Use.bytes, List.takeWhile_append_of_pos hne]

theorem text_shutdown (align : Nat) (earlier : List Use) :
    (cellAfter align (.shutdown :: earlier)).text = SOCKETSHUTDOWN := by
  have hbuf := Use.shutdown.buffer_run (cellOk_cellAfter align earlier)
  show CStr.ofChars (Use.shutdown.run (cellAfter align earlier)).buffer = _
  rw [hbuf, Use.bytes, List.append_assoc, List.singleton_append]
  exact CStr.ofChars_nul SOCKETSHUTDOWN _

/-- The parser gets exactly the latest chunk when the byte behind it is NUL. -/
theorem text_chunk_eq_iff (align : Nat) (c : Chunk) (earlier : List Use) :
    (cellAfter align (.chunk c :: earlier)).text = c.text ↔
      byteAt c.text.chars.length earlier = 0 := by
  have hbyte := byteAt_history align earlier (n := c.text.chars.length) c.fits
  rw [CStr.ext_iff, text_chunk, List.append_right_eq_self]
  have hhead : ((cellAfter align earlier).buffer.drop c.text.chars.length).head?
      = some (byteAt c.text.chars.length earlier) := by
    rw [List.head?_drop, hbyte]
  cases htail : (cellAfter align earlier).buffer.drop c.text.chars.length with
  | nil => simp [htail] at hhead
  | cons b rest =>
      rw [htail, List.head?_cons, Option.some_inj] at hhead
      rw [← hhead]
      by_cases hb : b = 0 <;> simp [hb]

/-- The byte a use wrote at an offset it reaches is NUL only at the end of the shutdown string. -/
theorem Use.getElem?_bytes_eq_zero_iff {u : Use} {n : Nat} (h : u.reaches n = true) :
    u.bytes[n]?.getD 0 = 0 ↔ u = .shutdown ∧ n = 16 := by
  have hlt : n < u.bytes.length := by simpa [Use.reaches] using h
  cases u with
  | chunk c =>
      replace hlt : n < c.text.chars.length := hlt
      have hmem : c.text.chars[n] ∈ c.text.chars := List.getElem_mem hlt
      simp only [Use.bytes, reduceCtorEq, false_and, iff_false]
      rw [List.getElem?_eq_getElem hlt]
      exact fun h0 => c.text.nul_free (h0 ▸ hmem)
  | shutdown =>
      have hall : ∀ k < 17, (Use.shutdown.bytes[k]?.getD 0 = 0 ↔ k = 16) := by decide
      simpa using hall n hlt

/-- **When the parser sees exactly the latest chunk.** -/
theorem parserSeesLatestChunk_iff (align : Nat) (history : List Use) :
    ParserSeesLatestChunk align history ↔ NothingShows history := by
  cases history with
  | nil => simp [ParserSeesLatestChunk, NothingShows, latestChunk]
  | cons u earlier =>
      cases u with
      | chunk c =>
          simp only [ParserSeesLatestChunk, latestChunk, Option.some_inj, forall_eq',
            text_chunk_eq_iff, NothingShows, byteAt]
          cases hfind : earlier.find? (Use.reaches c.text.chars.length) with
          | none => simp
          | some u =>
              have hr := List.find?_some hfind
              simp [Use.getElem?_bytes_eq_zero_iff hr]
      | shutdown =>
          simp only [ParserSeesLatestChunk, latestChunk, text_shutdown, NothingShows]
          exact forall₂_congr fun c _ => eq_comm

/-- A one-byte chunk in a cell that held a four-byte chunk: the parser gets four bytes. -/
theorem parser_sees_earlier_chunk :
    ¬ ParserSeesLatestChunk 0 [.chunk ⟨CStr.lit "b", by decide, by decide⟩,
        .chunk ⟨CStr.lit "<aa>", by decide, by decide⟩] := by
  intro h
  have htext := h _ rfl
  rw [text_chunk_eq_iff 0 ⟨CStr.lit "b", by decide, by decide⟩] at htext
  revert htext
  decide

end Netflow
