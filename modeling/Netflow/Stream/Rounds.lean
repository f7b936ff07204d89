import Netflow.Stream.Bounds
import Netflow.Stream.Push

set_option autoImplicit false

/-! # The rounds of a message cell

A `Dog2Cat` cell is used in rounds: `IoGetSendMsgCell` resets its stream, one text is pushed into it,
and the receive thread picks up `get_stream_len` bytes at `get_stream_ptr`. Whatever the texts of the
earlier rounds were, the latest text is picked up exactly when the round fits: its length is a positive
`int`, and its NUL is in the block too, which it is not when the text has the size to which an earlier
text made the buffer grow.
-/

namespace Netflow

/-- A round: the text, and the bytes `realloc` leaves behind those it keeps. -/
structure Round where
  text : CStr
  junk : List Byte

namespace Round

def run (st : Stream) (r : Round) : Stream :=
  push_stream_string (reset_stream st) r.text (some r.junk)

/-- The round, when it stays in the block. -/
def runIn (st : Stream) (r : Round) : Option Stream :=
  (StreamCall.push_stream_string r.text (some r.junk)).runIn (reset_stream st)

/-- A text that fits the recorded size has its NUL in the block, and for a longer one the new size is
counted in 32 bits. -/
def Fits (st : Stream) (r : Round) : Prop :=
  r.text.chars.length < 2147483648 ∧
    if r.text.chars.length ≤ st.size then st.chunk_buf + r.text.chars.length < st.block.length
    else st.size + r.text.chars.length + (st.size + r.text.chars.length) / 4 < 4294967296

end Round

/-- The bytes that are picked up are the text of the round. -/
def SendsLatest (st : Stream) (r : Round) : Prop :=
  r.runIn st = some (r.run st) ∧
    get_stream_len (r.run st) = r.text.chars.length ∧
    ((r.run st).block.drop (get_stream_ptr (r.run st))).take (get_stream_len (r.run st)) = r.text.chars

def roundStep (st : Stream) (r : Round) : Option Stream := some (r.run st)

/-- What holds between the rounds. -/
structure RoundInv (st : Stream) : Prop where
  stream : StreamInv st
  size_pos : 0 < st.size
  size_lt : st.size < 4294967296
  block_lt : st.block.length < 8589934592

theorem roundInv_init (align : Nat) : RoundInv (init_stream align MSGINITSIZE) where
  stream := streamInv_init align MSGINITSIZE
  size_pos := by
    show 0 < MSGINITSIZE
    decide
  size_lt := by
    show MSGINITSIZE < 4294967296
    decide
  block_lt := by
    show (List.replicate (MSGINITSIZE + MIN_MALLOC_LEN) (0 : Byte)).length < 8589934592
    rw [List.length_replicate]
    decide

/-! ## What a round does -/

/-- The stream into which the text of a round is written: the old one, or one with a larger block. -/
structure Opened (st : Stream) (len : Nat) (base : Stream) : Prop where
  write_eq : base.chunk_write = base.chunk_buf
  stays : len ≤ st.size → base = reset_stream st
  grows : st.size < len → base.chunk_buf = 0 ∧ base.size = st.grownSize len ∧
    base.block.length = st.grownSize len ∧ base.chunk_ptr = 0 ∧ base.mem_null = false

/-- **What a round does**: `src` is written at the start of the buffer. -/
theorem push_opens (st : Stream) {len : Nat} (hlen : len < 4294967296)
    (src junk : List Byte) :
    ∃ base, Opened st len base ∧ (reset_stream st).push len src (some junk) = base.write src ∧
      (reset_stream st).pushIn len src (some junk) = base.writeIn src := by
  have hcheck := check_write_free_reset st hlen
  by_cases hfit : len ≤ st.size
  · have hfree : (check_write_free (reset_stream st) len).1 = true := by
      rw [hcheck]
      exact decide_eq_true hfit
    obtain ⟨hpush, hpushIn⟩ := push_of_free src (some junk) hfree
    exact ⟨_, ⟨rfl, fun _ => rfl, fun hlt => absurd hfit (by omega)⟩, hpush, hpushIn⟩
  · have hfree : (check_write_free (reset_stream st) len).1 = false := by
      rw [hcheck]
      exact decide_eq_false hfit
    obtain ⟨w, block, hw, hlength, -, hpush, hpushIn⟩ :=
      push_of_grown src (reset_stream st) junk hfree
    have hzero : w = 0 := by
      rw [hw]
      show toUInt (st.chunk_buf - st.chunk_buf) = 0
      rw [Nat.sub_self]
      rfl
    subst hzero
    exact ⟨_, ⟨rfl, fun hle => absurd hle hfit, fun _ => ⟨rfl, rfl, hlength, rfl, rfl⟩⟩, hpush, hpushIn⟩

/-- The text written at the start of the buffer is picked up. -/
theorem pickUp_write {base : Stream} (hstart : base.chunk_write = base.chunk_buf) (str : CStr)
    (hin : base.chunk_write + (str.chars ++ [0]).length ≤ base.block.length) :
    (base.write (str.chars ++ [0])).text = str ∧
      ((base.write (str.chars ++ [0])).block.drop base.chunk_buf).take str.chars.length =
        str.chars := by
  have hle : base.chunk_buf ≤ base.block.length := by omega
  refine ⟨?_, ?_⟩
  · show stringAt (memcpy base.block base.chunk_write (str.chars ++ [0])) base.chunk_buf = str
    rw [hstart, stringAt_memcpy str hle]
  · show ((memcpy base.block base.chunk_write (str.chars ++ [0])).drop base.chunk_buf).take _ = _
    rw [hstart, drop_memcpy hle, List.append_assoc, List.take_left' rfl]

/-- A text of a positive length is picked up exactly when it is written inside the block. -/
theorem round_opens (st : Stream) {r : Round}
    (hlen : r.text.chars.length < 2147483648) :
    ∃ base, Opened st r.text.chars.length base ∧ r.run st = base.write (r.text.chars ++ [0]) ∧
      (SendsLatest st r ↔ base.chunk_buf + r.text.chars.length < base.block.length) := by
  obtain ⟨n, hn⟩ : ∃ n, n = r.text.chars.length := ⟨_, rfl⟩
  have hint : intToSize r.text.chars.length = n := by rw [intToSize_of_lt hlen, hn]
  have huint : toUInt n = n := toUInt_of_lt (by omega)
  obtain ⟨hrun, hrunIn, hlength⟩ := push_stream_string_eq (reset_stream st)
    (by rw [hint, hn]) (some r.junk)
  have htake : r.text.chars.take n = r.text.chars := by rw [hn, List.take_length]
  rw [hint, huint, htake] at hrun hrunIn
  obtain ⟨base, hopened, hpush, hpushIn⟩ := push_opens st
    (show n < 4294967296 by omega) (r.text.chars ++ [0]) r.junk
  have hwritten : r.run st = base.write (r.text.chars ++ [0]) := hrun.trans hpush
  have hwrittenIn : r.runIn st = base.writeIn (r.text.chars ++ [0]) := hrunIn.trans hpushIn
  have hstart := hopened.write_eq
  have hsrc : (r.text.chars ++ [0]).length = n + 1 := by rw [List.length_append, hn]; rfl
  rw [← hn]
  refine ⟨base, hopened, hwritten, fun h => ?_, fun hroom => ?_⟩
  · by_contra hout
    have hin := h.1
    rw [hwrittenIn, Stream.writeIn_eq_none (by omega)] at hin
    cases hin
  · have hin : base.chunk_write + (r.text.chars ++ [0]).length ≤ base.block.length := by omega
    obtain ⟨htext, hbytes⟩ := pickUp_write hstart r.text hin
    have hcount : get_stream_len (r.run st) = r.text.chars.length := by
      rw [get_stream_len, hwritten, htext]
    refine ⟨by rw [hwrittenIn, hwritten, Stream.writeIn_eq_some hin], hcount, ?_⟩
    rw [hcount, hwritten]
    exact hbytes

/-- The room a round needs, in terms of the stream it finds. -/
theorem room_iff {st base : Stream} (hinv : RoundInv st) {n : Nat} (hn : n < 2147483648)
    (h : Opened st n base) :
    base.chunk_buf + n < base.block.length ↔
      if n ≤ st.size then st.chunk_buf + n < st.block.length
      else st.size + n + (st.size + n) / 4 < 4294967296 := by
  have hpos := hinv.size_pos
  by_cases hfit : n ≤ st.size
  · rw [if_pos hfit, h.stays hfit]
    exact Iff.rfl
  · have hlt : st.size < n := by omega
    obtain ⟨hbuf, -, hlength, -, -⟩ := h.grows hlt
    have hsum : toUInt (st.size + n) = st.size + n := toUInt_of_lt (by omega)
    rw [if_neg hfit, hbuf, hlength, Stream.grownSize, hsum, toUInt]
    -- a size that does not fit 32 bits leaves less than the text needs
    omega

/-- A string with a negative length is not picked up: it leaves the block, or a part of it is sent. -/
theorem not_sendsLatest_of_long {st : Stream} (hinv : RoundInv st) {r : Round}
    (hlen : 2147483648 ≤ r.text.chars.length) : ¬SendsLatest st r := by
  intro h
  obtain ⟨n, hn⟩ : ∃ n, n = r.text.chars.length := ⟨_, rfl⟩
  by_cases hneg : intToSize r.text.chars.length ≤ r.text.chars.length
  · obtain ⟨hrun, hrunIn, hlength⟩ := push_stream_string_eq (reset_stream st) hneg (some r.junk)
    obtain ⟨len, hlen'⟩ : ∃ len, len = intToSize r.text.chars.length := ⟨_, rfl⟩
    rw [← hlen'] at hrun hrunIn hlength
    obtain ⟨base, hopened, hpush, hpushIn⟩ := push_opens st (toUInt_lt len)
      (r.text.chars.take len ++ [0]) r.junk
    have hin : base.chunk_write + (len + 1) ≤ base.block.length := by
      by_contra hout
      have hinside := h.1
      rw [Round.runIn, hrunIn, hpushIn, Stream.writeIn_eq_none (by rw [hlength]; exact hout)] at hinside
      cases hinside
    have hblock : base.block.length < 8589934592 := by
      by_cases hfit : toUInt len ≤ st.size
      · rw [hopened.stays hfit]
        exact hinv.block_lt
      · have hgrown := (hopened.grows (by omega)).2.2.1
        have hsize : st.grownSize (toUInt len) < 4294967296 := toUInt_lt _
        omega
    -- so the length is positive, and only its low 32 bits are copied
    have hsmall : len < 2147483648 := by
      rw [intToSize] at hlen'
      split at hlen' <;> omega
    have htext : (r.run st).text = r.text.take len := by
      have hwritten : r.run st = base.write ((r.text.take len).chars ++ [0]) := hrun.trans hpush
      rw [hwritten]
      exact (pickUp_write hopened.write_eq (r.text.take len) (by
        rw [CStr.chars_take, hlength]
        exact hin)).1
    have hcount := h.2.1
    rw [get_stream_len, htext, CStr.chars_take, List.length_take] at hcount
    omega
  · have hinside := h.1
    rw [Round.runIn, StreamCall.runIn] at hinside
    simp only [if_neg hneg] at hinside
    split at hinside
    · cases hinside
    · next hroom =>
        refine hroom ?_
        rw [make_room]
        split
        · rfl
        · rfl

/-- **The round sends its text exactly when it fits.** -/
theorem sendsLatest_iff {st : Stream} (hinv : RoundInv st) (r : Round) :
    SendsLatest st r ↔ r.Fits st := by
  by_cases hlen : r.text.chars.length < 2147483648
  · obtain ⟨base, hopened, -, hiff⟩ := round_opens st hlen
    rw [hiff, room_iff hinv hlen hopened, Round.Fits, and_iff_right hlen]
  · refine ⟨fun h => absurd h (not_sendsLatest_of_long hinv (by omega)), fun h => ?_⟩
    exact absurd h.1 hlen

theorem RoundInv.round {st : Stream} (hinv : RoundInv st) {r : Round} (h : r.Fits st) :
    RoundInv (r.run st) := by
  obtain ⟨base, hopened, hrun, -⟩ := round_opens st h.1
  have hroom := (room_iff hinv h.1 hopened).mpr h.2
  have hin : base.chunk_write + (r.text.chars ++ [0]).length ≤ base.block.length := by
    rw [hopened.write_eq, List.length_append, List.length_singleton]
    exact hroom
  have hblock : (memcpy base.block base.chunk_write (r.text.chars ++ [0])).length = base.block.length :=
    length_memcpy hin
  rw [hrun]
  by_cases hfit : r.text.chars.length ≤ st.size
  · obtain rfl := hopened.stays hfit
    refine ⟨hinv.stream.reset.write hin, hinv.size_pos, hinv.size_lt, ?_⟩
    show (memcpy _ _ _).length < _
    rw [hblock]
    exact hinv.block_lt
  · obtain ⟨hbuf, hsize, hlength, hptr, hmem⟩ := hopened.grows (by omega)
    have hgrown : st.grownSize r.text.chars.length < 4294967296 := toUInt_lt _
    have hstart := hopened.write_eq
    have hbase : StreamInv base := by
      refine ⟨⟨hmem, ?_, ?_, ?_, ?_⟩, ?_, ?_⟩ <;> omega
    refine ⟨hbase.write hin, ?_, ?_, ?_⟩
    · show 0 < base.size
      omega
    · show base.size < _
      omega
    · show (memcpy _ _ _).length < _
      omega

/-! ## Rounds after rounds -/

theorem roundInv_reach {align : Nat} {st : Stream}
    (h : Reach roundStep (fun st r => r.Fits st) (init_stream align MSGINITSIZE) st) : RoundInv st := by
  refine h.invariant (roundInv_init align) ?_
  intro st r st' hinv hfits hstep
  cases hstep
  exact hinv.round hfits

/-- **A reused cell sends the latest message**: after any rounds that fit, the text of the next round is
picked up exactly when that round fits. -/
theorem latest_message_sent {align : Nat} {st : Stream}
    (h : Reach roundStep (fun st r => r.Fits st) (init_stream align MSGINITSIZE) st) (r : Round) :
    SendsLatest st r ↔ r.Fits st :=
  sendsLatest_iff (roundInv_reach h) r

/-- A round with a text of `n` times the same character. -/
def Round.fill (n : Nat) : Round where
  text := ⟨List.replicate n 97, fun h => by cases List.eq_of_mem_replicate h⟩
  junk := []

theorem length_fill (n : Nat) : (Round.fill n).text.chars.length = n := List.length_replicate

/-- A text of 2000 bytes makes the buffer grow to 3780 bytes. -/
theorem grown_by_2000 (align : Nat) : ∃ st, Reach roundStep (fun st r => r.Fits st)
    (init_stream align MSGINITSIZE) st ∧ st.size = 3780 ∧ st.chunk_buf = 0 ∧ st.block.length = 3780 := by
  have hinv := roundInv_init align
  have hsize : (init_stream align MSGINITSIZE).size = 1024 := rfl
  have hfits : (Round.fill 2000).Fits (init_stream align MSGINITSIZE) := by
    rw [Round.Fits, length_fill, hsize]
    refine ⟨by decide, ?_⟩
    rw [if_neg (by decide)]
    decide
  obtain ⟨base, hopened, hrun, hiff⟩ := round_opens (init_stream align MSGINITSIZE) hfits.1
  obtain ⟨hbuf, hgrown, hlength, -, -⟩ := hopened.grows (by rw [length_fill, hsize]; decide)
  have hnew : (init_stream align MSGINITSIZE).grownSize (Round.fill 2000).text.chars.length = 3780 := by
    rw [Stream.grownSize, length_fill, hsize]
    decide
  have hroom := hiff.mp ((sendsLatest_iff hinv _).mpr hfits)
  refine ⟨_, Reach.start.next hfits rfl, ?_⟩
  rw [hrun]
  refine ⟨hgrown.trans hnew, hbuf, ?_⟩
  show (memcpy base.block base.chunk_write ((Round.fill 2000).text.chars ++ [0])).length = 3780
  have hstart := hopened.write_eq
  rw [length_memcpy (by rw [List.length_append, List.length_singleton]; omega), hlength, hnew]

/-- After a text of 2000 bytes a short one is sent as it is. -/
theorem latest_message_sent_short : ∃ st, Reach roundStep (fun st r => r.Fits st)
    (init_stream 8 MSGINITSIZE) st ∧ st.size = 3780 ∧ SendsLatest st (Round.fill 5) := by
  obtain ⟨st, hreach, hsize, hbuf, hlength⟩ := grown_by_2000 8
  refine ⟨st, hreach, hsize, (latest_message_sent hreach (Round.fill 5)).mpr ?_⟩
  rw [Round.Fits, length_fill, hsize, hbuf, hlength]
  decide

/-- After a text of 2000 bytes one of 3780 bytes has its NUL behind the block. -/
theorem exact_text_not_sent : ¬∀ align st, Reach roundStep AnyStep (init_stream align MSGINITSIZE) st →
    ∀ r, SendsLatest st r := by
  intro h
  obtain ⟨st, hreach, hsize, hbuf, hlength⟩ := grown_by_2000 0
  have hfits := (sendsLatest_iff (roundInv_reach hreach) (Round.fill 3780)).mp (h 0 st hreach.any _)
  rw [Round.Fits, length_fill, hsize, hbuf, hlength] at hfits
  revert hfits
  decide

end Netflow
