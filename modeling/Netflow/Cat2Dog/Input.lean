import Netflow.Cat2Dog.Ring
import Netflow.Server.State
import Netflow.Stream.Reuse

set_option autoImplicit false

/-! # What is received and what is published

The receive thread splits a received buffer into chunks: for each it takes a cell of the `Cat2Dog`
ring, copies what fits and publishes the cell, while the IO thread gives cells back at any moment.
When the ring is full the loop is left, and the bytes it had not copied are gone; nothing is noted of
it, so the next buffer of the same client is published behind the gap.

`Receiver` adds to the ring the cells, the clients and the buffer. Connections are numbered; the
session number of a connection is its number in 32 bits.
-/

namespace Netflow

namespace Cat2Dog

/-- `CAT2DOGIOMSG`. -/
structure CAT2DOGIOMSG where
  iSessionID : Nat
  pClientInfo : Slot
  hStream : Stream

/-- What the receive thread is doing: splitting a buffer of a client, of which `lpBuf` is not copied
yet, or publishing the shutdown text at `CLIENTTOEND`. -/
inductive Job where
  | idle
  | data (i : Slot) (lpBuf : List Byte)
  | toEnd (i : Slot)
deriving DecidableEq

def Job.slot : Job → Option Slot
  | idle => none
  | data i _ => some i
  | toEnd i => some i

/-- The ring, its cells, and the receive thread. `conn` is the connection a slot serves (`0` is
none). `received`, `published` and `dropped` are histories by connection: what `recv` returned, the
chunks that were published, and whether a buffer loop was left with bytes that were not copied. -/
structure Receiver where
  ring : State
  cells : Cell → CAT2DOGIOMSG
  pCurCat2DogIOMsg : Slot → Ptr
  job : Job
  conn : Slot → Nat
  accepted : Nat
  received : Nat → List Byte
  published : List (Nat × List Byte)
  dropped : Nat → Bool

/-- The start; `align` gives the addresses of the streams' blocks modulo 16. -/
def inputInit (align : Cell → Nat) : Receiver where
  ring := init
  cells c := { iSessionID := 0, pClientInfo := ⟨0, CLIENTNUM_pos⟩,
               hStream := init_stream (align c) MSGINITSIZE }
  pCurCat2DogIOMsg _ := none
  job := .idle
  conn _ := 0
  accepted := 0
  received _ := []
  published := []
  dropped _ := false

/-- The chunk in a stream: what `copy_stream` put behind `chunk_buf`. -/
def chunkOf (st : Stream) : List Byte :=
  (st.block.drop st.chunk_buf).take (st.chunk_ptr - st.chunk_buf)

namespace Receiver

/-- The loop is left because the ring is full. -/
def leave (r : Receiver) : Receiver :=
  match r.job with
  | .data i _ => { r with job := .idle, dropped := Function.update r.dropped (r.conn i) true }
  | _ => { r with job := .idle }

/-- A cell that was taken for a client is stamped and its stream reset. -/
def stamp (i : Slot) (c : Cell) (r : Receiver) : Receiver :=
  { r with
    pCurCat2DogIOMsg := Function.update r.pCurCat2DogIOMsg i (some c)
    cells := Function.update r.cells c
      { iSessionID := r.conn i % 4294967296
        pClientInfo := i
        hStream := reset_stream (r.cells c).hStream } }

/-- The stream of a cell is written to. -/
def setStream (c : Cell) (st : Stream) (r : Receiver) : Receiver :=
  { r with cells := Function.update r.cells c { r.cells c with hStream := st } }

/-- A chunk of the buffer, or the shutdown text, is put into the cell; `lpBuf` is `endbuf` then. The
shutdown text always fits, so the answer to a `realloc` is not looked at. -/
def fill (c : Cell) (r : Receiver) : Receiver :=
  match r.job with
  | .idle => r
  | .data i lpBuf =>
      let copied := copy_stream lpBuf (r.cells c).hStream
      { r.setStream c copied.2 with job := .data i copied.1 }
  | .toEnd _ => r.setStream c (push_stream_string (r.cells c).hStream SOCKETSHUTDOWN none)

/-- The cell is published; the loop goes on while bytes are left. -/
def publish (c : Cell) (r : Receiver) : Receiver :=
  match r.job with
  | .idle => r
  | .data i lpBuf =>
      { r with
        published := r.published ++ [(r.conn i, chunkOf (r.cells c).hStream)]
        job := if lpBuf = [] then .idle else .data i lpBuf }
  | .toEnd _ => { r with job := .idle }

end Receiver

/-- The steps: the receive thread between two jobs (`accept`, `recycle`, `recv`, `toEnd`) and inside
one (`test`, `take`, `store`, `publish`), and the IO thread's. -/
inductive InputAction where
  | accept (i : Slot)
  | recycle (i : Slot)
  | recv (i : Slot) (buf : List Byte)
  | toEnd (i : Slot)
  | test
  | take
  | store
  | publish
  | ioTest
  | ioRead
  | ioAdvance

/-- A step of the ring alone. -/
def Receiver.ringStep (r : Receiver) (a : Action) : Option Receiver :=
  (step r.ring a).map fun ring => { r with ring := ring }

def inputStep (r : Receiver) : InputAction → Option Receiver
  | .accept i =>
      if r.job = .idle ∧ r.conn i = 0 then
        some { r with
          conn := Function.update r.conn i (r.accepted + 1)
          accepted := r.accepted + 1 }
      else none
  | .recycle i =>
      if r.job = .idle then some { r with conn := Function.update r.conn i 0 } else none
  | .recv i buf =>
      if r.job = .idle ∧ r.conn i ≠ 0 ∧ buf ≠ [] ∧ buf.length ≤ 256 * 1024 then
        some { r with
          job := .data i buf
          received := Function.update r.received (r.conn i) (r.received (r.conn i) ++ buf) }
      else none
  | .toEnd i =>
      if r.job = .idle ∧ r.conn i ≠ 0 then some { r with job := .toEnd i } else none
  | .test => do
      let i ← r.job.slot
      if r.pCurCat2DogIOMsg i = none then
        let r ← r.ringStep .testFull
        if r.ring.recv = .room then some r else some r.leave
      else none
  | .take => do
      let i ← r.job.slot
      let c ← r.ring.Cat2DogIOMsg r.ring.uiCliGetMsgIndex
      let r ← r.ringStep .take
      some (r.stamp i c)
  | .store => do
      let i ← r.job.slot
      let c ← r.pCurCat2DogIOMsg i
      let r ← r.ringStep (.store (some c))
      some { r.fill c with pCurCat2DogIOMsg := Function.update r.pCurCat2DogIOMsg i none }
  | .publish =>
      match r.ring.recv with
      | .stored (some c) => (r.ringStep .advancePut).map (Receiver.publish c)
      | _ => none
  | .ioTest => r.ringStep .ioTest
  | .ioRead => r.ringStep .ioRead
  | .ioAdvance => r.ringStep .ioAdvance

/-- The chunks published for a connection, one behind the other. -/
def Receiver.publishedFor (r : Receiver) (n : Nat) : List Byte :=
  ((r.published.filter fun p => p.1 = n).map Prod.snd).flatten

/-- The guard: no cell is taken for a connection of which bytes were dropped; when such a connection
has a buffer, the ring is still full. -/
def NothingBehindGap (r : Receiver) : InputAction → Prop
  | .test => ∀ i lpBuf, r.job = .data i lpBuf → r.dropped (r.conn i) = true →
      r.ring.uiCliGetMsgNextIndex = r.ring.uiIoGetMsgIndex
  | _ => True

/-! ## The steps of the ring the receive thread makes -/

section Ring

variable {s s' : State}

theorem testFull_eq_some (h : step s .testFull = some s') : s.recv = .idle ∧
    ((s.uiCliGetMsgNextIndex = s.uiIoGetMsgIndex ∧ s'.recv = .idle) ∨
      (s.uiCliGetMsgNextIndex ≠ s.uiIoGetMsgIndex ∧ s'.recv = .room)) := by
  unfold step at h
  dsimp only at h
  split at h
  · next hidle =>
      split at h
      · next hfull =>
          cases h
          exact ⟨hidle, Or.inl ⟨hfull, hidle⟩⟩
      · next hroom =>
          cases h
          exact ⟨hidle, Or.inr ⟨hroom, rfl⟩⟩
  · cases h

theorem take_eq_some (h : step s .take = some s') : s.recv = .room ∧ s'.recv = .idle := by
  unfold step at h
  dsimp only at h
  split at h
  · next hroom =>
      cases h
      exact ⟨hroom, rfl⟩
  · cases h

theorem store_eq_some {c : Ptr} (h : step s (.store c) = some s') :
    s.recv = .idle ∧ s'.recv = .stored c := by
  unfold step at h
  dsimp only at h
  split at h
  · next hidle =>
      split at h
      · cases h
        exact ⟨hidle, rfl⟩
      · cases h
  · cases h

theorem advancePut_eq_some (h : step s .advancePut = some s') : s'.recv = .idle := by
  unfold step at h
  dsimp only at h
  split at h
  · cases h
    rfl
  · cases h

/-- The IO thread does not move the receive thread. -/
theorem recv_io {a : Action} (ha : a = .ioTest ∨ a = .ioRead ∨ a = .ioAdvance)
    (h : step s a = some s') : s'.recv = s.recv := by
  rcases ha with rfl | rfl | rfl
  all_goals
    unfold step at h
    dsimp only at h
    split at h
  · split at h
    · cases h
      rfl
    · cases h
      rfl
  · cases h
  · cases h
    rfl
  · cases h
  · cases h
    rfl
  · cases h

end Ring

/-! ## The steps of the receive thread -/

section Steps

variable {r r' : Receiver}

theorem ringStep_eq_some {a : Action} (h : r.ringStep a = some r') :
    ∃ ring, step r.ring a = some ring ∧ r' = { r with ring := ring } := by
  rw [Receiver.ringStep, Option.map_eq_some_iff] at h
  obtain ⟨ring, hstep, rfl⟩ := h
  exact ⟨ring, hstep, rfl⟩

/-- The test: with room the thread goes on, else the loop is left. -/
theorem inputStep_test (h : inputStep r .test = some r') : ∃ i ring, r.job.slot = some i ∧
    r.pCurCat2DogIOMsg i = none ∧ step r.ring .testFull = some ring ∧ r.ring.recv = .idle ∧
      ((ring.recv = .idle ∧ r' = Receiver.leave { r with ring := ring }) ∨
        (r.ring.uiCliGetMsgNextIndex ≠ r.ring.uiIoGetMsgIndex ∧ ring.recv = .room ∧
          r' = { r with ring := ring })) := by
  simp only [inputStep, Option.bind_eq_bind, Option.bind_eq_some_iff] at h
  obtain ⟨i, hslot, h⟩ := h
  split at h
  · next hcur =>
      simp only [Option.bind_eq_some_iff] at h
      obtain ⟨r₁, hring, h⟩ := h
      obtain ⟨ring, htest, rfl⟩ := ringStep_eq_some hring
      obtain ⟨hidle, ⟨-, hfull⟩ | ⟨hne, hroom⟩⟩ := testFull_eq_some htest
      · rw [if_neg (by rw [hfull]; exact nofun)] at h
        cases h
        exact ⟨i, ring, hslot, hcur, htest, hidle, Or.inl ⟨hfull, rfl⟩⟩
      · rw [if_pos hroom] at h
        cases h
        exact ⟨i, ring, hslot, hcur, htest, hidle, Or.inr ⟨hne, hroom, rfl⟩⟩
  · cases h

/-- A cell is taken and is in hand. -/
theorem inputStep_take (h : inputStep r .take = some r') : ∃ i c ring, r.job.slot = some i ∧
    step r.ring .take = some ring ∧ r' = Receiver.stamp i c { r with ring := ring } := by
  simp only [inputStep, Option.bind_eq_bind, Option.bind_eq_some_iff] at h
  obtain ⟨i, hslot, c, -, r₁, hring, h⟩ := h
  obtain ⟨ring, htake, rfl⟩ := ringStep_eq_some hring
  cases h
  exact ⟨i, c, ring, hslot, htake, rfl⟩

/-- The cell in hand is stored: `job` is the job then, and `st` the stream of the cell. -/
theorem inputStep_store (h : inputStep r .store = some r') : ∃ i c ring st job,
    r.pCurCat2DogIOMsg i = some c ∧ step r.ring (.store (some c)) = some ring ∧
      ((r.job = .toEnd i ∧ job = r.job ∧
          st = push_stream_string (r.cells c).hStream SOCKETSHUTDOWN none) ∨
        ∃ lpBuf, r.job = .data i lpBuf ∧
          job = .data i (copy_stream lpBuf (r.cells c).hStream).1 ∧
          st = (copy_stream lpBuf (r.cells c).hStream).2) ∧
      r' = { r.setStream c st with
        ring := ring, job := job
        pCurCat2DogIOMsg := Function.update r.pCurCat2DogIOMsg i none } := by
  simp only [inputStep, Option.bind_eq_bind, Option.bind_eq_some_iff] at h
  obtain ⟨i, hslot, c, hcur, r₁, hring, h⟩ := h
  obtain ⟨ring, hstore, rfl⟩ := ringStep_eq_some hring
  cases hjob : r.job with
  | idle =>
      rw [hjob] at hslot
      cases hslot
  | toEnd k =>
      simp only [Receiver.fill, hjob] at h
      cases h
      rw [hjob] at hslot
      cases hslot
      exact ⟨i, c, ring, _, _, hcur, hstore, Or.inl ⟨rfl, rfl, rfl⟩, by rw [← hjob]; rfl⟩
  | data k lpBuf =>
      simp only [Receiver.fill, hjob] at h
      cases h
      rw [hjob] at hslot
      cases hslot
      exact ⟨i, c, ring, _, _, hcur, hstore, Or.inr ⟨lpBuf, rfl, rfl, rfl⟩, rfl⟩

/-- The stored cell is published. -/
theorem inputStep_publish (h : inputStep r .publish = some r') : ∃ c ring,
    r.ring.recv = .stored (some c) ∧ step r.ring .advancePut = some ring ∧
      r' = Receiver.publish c { r with ring := ring } := by
  simp only [inputStep] at h
  split at h
  · next c hstored =>
      rw [Option.map_eq_some_iff] at h
      obtain ⟨r₁, hring, rfl⟩ := h
      obtain ⟨ring, hadvance, rfl⟩ := ringStep_eq_some hring
      exact ⟨c, ring, hstored, hadvance, rfl⟩
  · cases h

end Steps

/-! ## Chunks -/

theorem cellOk_reset {st : Stream} (h : CellOk st) : CellOk (reset_stream st) :=
  ⟨h.size_eq, h.buf_lt, h.block_length⟩

/-- A copy into a stream that was reset makes the beginning of the buffer its chunk, as far as it fits. -/
theorem copy_stream_chunk {st : Stream} (h : CellOk st) (src : List Byte) :
    CellOk (copy_stream src (reset_stream st)).2 ∧
      chunkOf (copy_stream src (reset_stream st)).2 = src.take MSGINITSIZE ∧
      (copy_stream src (reset_stream st)).1 = src.drop MSGINITSIZE := by
  have hbuf := h.buf_lt
  have hfits : st.chunk_buf + (src.take (min MSGINITSIZE src.length)).length ≤ st.block.length := by
    rw [h.block_length, List.length_take]
    simp only [MSGINITSIZE, MIN_MALLOC_LEN]
    omega
  have hcopied := h.copied_length src.length
  have hblock : (copy_stream src (reset_stream st)).2.block =
      memcpy st.block st.chunk_buf (src.take (min MSGINITSIZE src.length)) := by
    show memcpy st.block st.chunk_buf
      (src.take (toUInt (min (st.chunk_buf + st.size - st.chunk_buf) _))) = _
    rw [hcopied]
  refine ⟨⟨h.size_eq, h.buf_lt, ?_⟩, ?_, ?_⟩
  · rw [hblock, length_memcpy hfits, h.block_length]
  · show ((copy_stream src (reset_stream st)).2.block.drop st.chunk_buf).take
      (st.chunk_buf + toUInt (min (st.chunk_buf + st.size - st.chunk_buf) src.length) -
        st.chunk_buf) = _
    rw [hblock, hcopied, Nat.add_sub_cancel_left, drop_memcpy (by omega),
      List.take_append_of_le_length (by rw [List.length_take]; omega), List.take_take,
      Nat.min_self, List.take_eq_take_iff]
    omega
  · show src.drop (toUInt (min (st.chunk_buf + st.size - st.chunk_buf) src.length)) = _
    rw [hcopied, List.drop_eq_drop_iff]
    omega

theorem copy_stream_reset {st : Stream} (h : CellOk st) (src : List Byte) :
    CellOk (copy_stream src (reset_stream st)).2 ∧
      chunkOf (copy_stream src (reset_stream st)).2 ++ (copy_stream src (reset_stream st)).1 = src := by
  obtain ⟨hok, hchunk, hrest⟩ := copy_stream_chunk h src
  exact ⟨hok, by rw [hchunk, hrest, List.take_append_drop]⟩

/-! ## The cells -/

/-- What holds of the cells between the steps. `hand` is about a cell that was taken and is not
stored yet. -/
structure CellsInv (r : Receiver) : Prop where
  cells : ∀ c, CellOk (r.cells c).hStream
  hand : ∀ i c, r.pCurCat2DogIOMsg i = some c → r.job.slot = some i ∧ r.ring.recv = .idle ∧
    ∃ st, CellOk st ∧ (r.cells c).hStream = reset_stream st
  busy : r.ring.recv ≠ .idle → r.job ≠ .idle

theorem cellsInv_init (align : Cell → Nat) : CellsInv (inputInit align) where
  cells c := cellOk_init (align c)
  hand i c h := by cases h
  busy h := absurd rfl h

section Cells

variable {r r' : Receiver}

/-- Between two jobs no cell is in hand. -/
theorem CellsInv.idle (h : CellsInv r) (hjob : r.job = .idle) :
    r.ring.recv = .idle ∧ ∀ i, r.pCurCat2DogIOMsg i = none := by
  constructor
  · by_contra hrecv
    exact h.busy hrecv hjob
  · intro i
    cases hcur : r.pCurCat2DogIOMsg i with
    | none => rfl
    | some c =>
        obtain ⟨hslot, -, -⟩ := h.hand i c hcur
        rw [hjob] at hslot
        cases hslot

/-- While the receive thread is inside the ring no cell is in hand. -/
theorem CellsInv.no_hand (h : CellsInv r) (hrecv : r.ring.recv ≠ .idle) (i : Slot) :
    r.pCurCat2DogIOMsg i = none := by
  cases hcur : r.pCurCat2DogIOMsg i with
  | none => rfl
  | some c => exact absurd (h.hand i c hcur).2.1 hrecv

/-- Only the client of the job may have a cell in hand. -/
theorem CellsInv.none_of_slot (h : CellsInv r) {i : Slot} (hslot : r.job.slot = some i)
    (hcur : r.pCurCat2DogIOMsg i = none) (j : Slot) : r.pCurCat2DogIOMsg j = none := by
  cases hj : r.pCurCat2DogIOMsg j with
  | none => rfl
  | some c =>
      have hslot' := (h.hand j c hj).1
      rw [hslot] at hslot'
      cases hslot'
      rw [hcur] at hj
      cases hj

/-- Another state of the receive thread, with the same cells of which none is in hand. -/
theorem CellsInv.empty (h : CellsInv r) (hcells : r'.cells = r.cells)
    (hcur : ∀ i, r'.pCurCat2DogIOMsg i = none) (hbusy : r'.ring.recv ≠ .idle → r'.job ≠ .idle) :
    CellsInv r' where
  cells := by
    rw [hcells]
    exact h.cells
  hand i c hi := by
    rw [hcur i] at hi
    cases hi
  busy := hbusy

/-- Another state of the ring in which the receive thread stands at the same place. -/
theorem CellsInv.setRing (h : CellsInv r) {ring : State} (hrecv : ring.recv = r.ring.recv) :
    CellsInv { r with ring := ring } where
  cells := h.cells
  hand i c hcur := by
    obtain ⟨hslot, hidle, hst⟩ := h.hand i c hcur
    exact ⟨hslot, hrecv.trans hidle, hst⟩
  busy hne := h.busy fun hidle => hne (hrecv.trans hidle)

theorem leave_cells (r : Receiver) : r.leave.cells = r.cells ∧
    r.leave.pCurCat2DogIOMsg = r.pCurCat2DogIOMsg ∧ r.leave.ring = r.ring ∧ r.leave.job = .idle := by
  unfold Receiver.leave
  cases r.job with
  | _ => exact ⟨rfl, rfl, rfl, rfl⟩

/-- With room the thread goes on to take a cell, else the loop is left. -/
theorem CellsInv.test (h : CellsInv r) (hstep : inputStep r .test = some r') : CellsInv r' := by
  obtain ⟨i, ring, hslot, hcur, -, -, ⟨hfull, rfl⟩ | ⟨-, -, rfl⟩⟩ := inputStep_test hstep
  · obtain ⟨hcells, hpcur, hleft, -⟩ := leave_cells { r with ring := ring }
    refine h.empty hcells (by rw [hpcur]; exact h.none_of_slot hslot hcur) fun hrecv => ?_
    rw [hleft] at hrecv
    exact absurd hfull hrecv
  · refine h.empty rfl (h.none_of_slot hslot hcur) fun _ hjob => ?_
    have hjob' : r.job = .idle := hjob
    rw [hjob'] at hslot
    cases hslot

/-- A taken cell is in hand, and reset. -/
theorem CellsInv.take (h : CellsInv r) (hstep : inputStep r .take = some r') : CellsInv r' := by
  obtain ⟨i, c, ring, hslot, htake, rfl⟩ := inputStep_take hstep
  obtain ⟨hroom, hidle⟩ := take_eq_some htake
  have hnone := h.no_hand (by rw [hroom]; exact nofun)
  refine ⟨fun d => ?_, fun j d hj => ?_, fun hne => absurd hidle hne⟩
  · show CellOk (Function.update r.cells c _ d).hStream
    by_cases hd : d = c
    · subst hd
      rw [Function.update_self]
      exact cellOk_reset (h.cells d)
    · rw [Function.update_of_ne hd]
      exact h.cells d
  · have hj' : Function.update r.pCurCat2DogIOMsg i (some c) j = some d := hj
    by_cases hji : j = i
    · subst hji
      rw [Function.update_self] at hj'
      cases hj'
      refine ⟨hslot, hidle, (r.cells c).hStream, h.cells c, ?_⟩
      show (Function.update r.cells c _ c).hStream = _
      rw [Function.update_self]
    · rw [Function.update_of_ne hji, hnone j] at hj'
      cases hj'

/-- What holds once a cell is filled and stored: `job` is the job then, and `st` its stream. -/
theorem CellsInv.stored (h : CellsInv r) {i : Slot} {c : Cell} {st : Stream} {job : Job}
    {ring : State} (hslot : r.job.slot = some i) (hst : CellOk st) (hjob : job.slot = some i) :
    CellsInv { r.setStream c st with
      ring := ring, job := job
      pCurCat2DogIOMsg := Function.update r.pCurCat2DogIOMsg i none } := by
  refine ⟨fun d => ?_, fun j d hj => ?_, fun _ hnone => ?_⟩
  · show CellOk (Function.update r.cells c _ d).hStream
    by_cases hd : d = c
    · rw [hd, Function.update_self]
      exact hst
    · rw [Function.update_of_ne hd]
      exact h.cells d
  · -- no cell is in hand any more
    have hj' : Function.update r.pCurCat2DogIOMsg i none j = some d := hj
    by_cases hji : j = i
    · rw [hji, Function.update_self] at hj'
      cases hj'
    · rw [Function.update_of_ne hji] at hj'
      have hslot' := (h.hand j d hj').1
      rw [hslot] at hslot'
      exact absurd (Option.some.inj hslot').symm hji
  · have hnone' : job = .idle := hnone
    rw [hnone'] at hjob
    cases hjob

/-- The streams a cell may be filled with: the shutdown text, or a chunk of what is left of the
buffer. -/
theorem CellsInv.filled (h : CellsInv r) {i : Slot} {c : Cell}
    (hcur : r.pCurCat2DogIOMsg i = some c) :
    CellOk (push_stream_string (r.cells c).hStream SOCKETSHUTDOWN none) ∧
      ∀ lpBuf, CellOk (copy_stream lpBuf (r.cells c).hStream).2 ∧
        chunkOf (copy_stream lpBuf (r.cells c).hStream).2 ++
          (copy_stream lpBuf (r.cells c).hStream).1 = lpBuf := by
  obtain ⟨-, -, st, hst, hreset⟩ := h.hand i c hcur
  rw [hreset]
  exact ⟨Use.shutdown.cellOk_run hst, copy_stream_reset hst⟩

theorem CellsInv.store (h : CellsInv r) (hstep : inputStep r .store = some r') : CellsInv r' := by
  obtain ⟨i, c, ring, st, job, hcur, -, hfill, rfl⟩ := inputStep_store hstep
  obtain ⟨hend, hdata⟩ := h.filled hcur
  obtain ⟨hjob, rfl, rfl⟩ | ⟨lpBuf, hjob, rfl, rfl⟩ := hfill
  · have hslot : r.job.slot = some i := by rw [hjob, Job.slot]
    exact h.stored hslot hend hslot
  · exact h.stored (by rw [hjob, Job.slot]) (hdata lpBuf).1 rfl

theorem CellsInv.publish (h : CellsInv r) (hstep : inputStep r .publish = some r') :
    CellsInv r' := by
  obtain ⟨c, ring, hstored, hadvance, rfl⟩ := inputStep_publish hstep
  have hnone := h.no_hand (by rw [hstored]; exact nofun)
  have hidle := advancePut_eq_some hadvance
  unfold Receiver.publish
  split
  · exact h.empty rfl hnone fun hne => absurd hidle hne
  · exact h.empty rfl hnone fun hne => absurd hidle hne
  · exact h.empty rfl hnone fun hne => absurd hidle hne

theorem CellsInv.io (h : CellsInv r) {a : Action} (ha : a = .ioTest ∨ a = .ioRead ∨ a = .ioAdvance)
    (hstep : r.ringStep a = some r') : CellsInv r' := by
  obtain ⟨ring, hring, rfl⟩ := ringStep_eq_some hstep
  exact h.setRing (recv_io ha hring)

/-- One step, whatever was dropped before. -/
theorem CellsInv.step (h : CellsInv r) {a : InputAction} (hstep : inputStep r a = some r') :
    CellsInv r' := by
  cases a with
  | test => exact h.test hstep
  | take => exact h.take hstep
  | store => exact h.store hstep
  | publish => exact h.publish hstep
  | ioTest => exact h.io (Or.inl rfl) hstep
  | ioRead => exact h.io (Or.inr (Or.inl rfl)) hstep
  | ioAdvance => exact h.io (Or.inr (Or.inr rfl)) hstep
  | _ =>
      simp only [inputStep] at hstep
      split at hstep
      · next hidle =>
          have hjob : r.job = .idle := by first | exact hidle | exact hidle.1
          obtain ⟨hrecv, hnone⟩ := h.idle hjob
          cases hstep
          exact h.empty rfl hnone fun hne => absurd hrecv hne
      · cases hstep

end Cells

/-! ## The bytes on their way -/

namespace Receiver

/-- The chunk that is stored and not yet published. -/
def inFlight (r : Receiver) : List Byte :=
  match r.ring.recv with
  | .stored (some c) => chunkOf (r.cells c).hStream
  | _ => []

/-- The bytes of a connection that were received and are neither published nor dropped. -/
def pending (r : Receiver) (n : Nat) : List Byte :=
  match r.job with
  | .data i lpBuf => if r.conn i = n then r.inFlight ++ lpBuf else []
  | _ => []

end Receiver

/-- What holds between the steps. `hand` is about a cell that was taken and is not stored yet. -/
structure InputInv (r : Receiver) : Prop where
  cells : ∀ c, CellOk (r.cells c).hStream
  hand : ∀ i c, r.pCurCat2DogIOMsg i = some c → r.job.slot = some i ∧ r.ring.recv = .idle ∧
    ∃ st, CellOk st ∧ (r.cells c).hStream = reset_stream st
  busy : r.ring.recv ≠ .idle → r.job ≠ .idle
  whole : ∀ n, r.dropped n = false → r.publishedFor n ++ r.pending n = r.received n
  part : ∀ n, r.dropped n = true → r.publishedFor n <+: r.received n
  still : ∀ i lpBuf, r.job = .data i lpBuf → r.dropped (r.conn i) = true →
    r.pCurCat2DogIOMsg i = none ∧ r.ring.recv = .idle

theorem inputInv_init (align : Cell → Nat) : InputInv (inputInit align) where
  cells c := cellOk_init (align c)
  hand i c h := by cases h
  busy h := absurd rfl h
  whole n _ := rfl
  part n h := by cases h
  still i lpBuf h := by cases h

section Inv

variable {r r' : Receiver}

theorem pending_of_idle (h : r.job = .idle) (n : Nat) : r.pending n = [] := by
  rw [Receiver.pending, h]

theorem pending_of_toEnd {i : Slot} (h : r.job = .toEnd i) (n : Nat) : r.pending n = [] := by
  rw [Receiver.pending, h]

theorem pending_of_data {i : Slot} {lpBuf : List Byte} (h : r.job = .data i lpBuf) (n : Nat) :
    r.pending n = if r.conn i = n then r.inFlight ++ lpBuf else [] := by
  rw [Receiver.pending, h]

theorem inFlight_of_idle (h : r.ring.recv = .idle) : r.inFlight = [] := by
  rw [Receiver.inFlight, h]

theorem inFlight_of_room (h : r.ring.recv = .room) : r.inFlight = [] := by
  rw [Receiver.inFlight, h]

/-- In both cases a connection has published a part of what it received. -/
theorem InputInv.prefix (h : InputInv r) (n : Nat) : r.publishedFor n <+: r.received n := by
  cases hn : r.dropped n with
  | false => exact ⟨r.pending n, h.whole n hn⟩
  | true => exact h.part n hn

theorem InputInv.cellsInv (h : InputInv r) : CellsInv r := ⟨h.cells, h.hand, h.busy⟩

theorem CellsInv.inputInv (h : CellsInv r)
    (whole : ∀ n, r.dropped n = false → r.publishedFor n ++ r.pending n = r.received n)
    (part : ∀ n, r.dropped n = true → r.publishedFor n <+: r.received n)
    (still : ∀ i lpBuf, r.job = .data i lpBuf → r.dropped (r.conn i) = true →
      r.pCurCat2DogIOMsg i = none ∧ r.ring.recv = .idle) : InputInv r :=
  ⟨h.cells, h.hand, h.busy, whole, part, still⟩

/-! ## The steps -/

theorem InputInv.setConn (h : InputInv r) (hjob : r.job = .idle) (conn : Slot → Nat)
    (accepted : Nat) : InputInv { r with conn := conn, accepted := accepted } where
  cells := h.cells
  hand := h.hand
  busy := h.busy
  whole n hn := by
    have hwhole := h.whole n hn
    rw [pending_of_idle hjob] at hwhole
    rw [pending_of_idle (r := { r with conn := conn, accepted := accepted }) hjob]
    exact hwhole
  part := h.part
  still i lpBuf hdata := by
    rw [hjob] at hdata
    cases hdata

theorem InputInv.recv (h : InputInv r) {i : Slot} {buf : List Byte} (hjob : r.job = .idle) :
    InputInv { r with
      job := .data i buf
      received := Function.update r.received (r.conn i) (r.received (r.conn i) ++ buf) } := by
  obtain ⟨hidle, hnone⟩ := h.cellsInv.idle hjob
  have hcells : CellsInv { r with
      job := .data i buf
      received := Function.update r.received (r.conn i) (r.received (r.conn i) ++ buf) } :=
    h.cellsInv.empty rfl hnone fun _ => nofun
  refine hcells.inputInv (fun n hn => ?_) (fun n hn => ?_) fun j lpBuf _ _ => ⟨hnone j, hidle⟩
  · have hwhole := h.whole n hn
    rw [pending_of_idle hjob, List.append_nil] at hwhole
    -- nothing is in flight, so all that was received is published, and the buffer is pending
    have hflight := inFlight_of_idle hidle
    have hpending := fun (r' : Receiver) (hr' : r'.job = .data i buf) => pending_of_data hr' n
    rw [hpending _ rfl]
    show r.publishedFor n ++ (if r.conn i = n then r.inFlight ++ buf else []) =
      Function.update r.received (r.conn i) (r.received (r.conn i) ++ buf) n
    rw [hflight, List.nil_append, hwhole]
    by_cases hi : r.conn i = n
    · subst hi
      rw [if_pos rfl, Function.update_self]
    · rw [if_neg hi, List.append_nil, Function.update_of_ne (Ne.symm hi)]
  · have hpart := h.part n hn
    show r.publishedFor n <+:
      Function.update r.received (r.conn i) (r.received (r.conn i) ++ buf) n
    by_cases hi : n = r.conn i
    · subst hi
      rw [Function.update_self]
      exact hpart.trans (List.prefix_append _ _)
    · rw [Function.update_of_ne hi]
      exact hpart

theorem InputInv.toEnd (h : InputInv r) {i : Slot} (hjob : r.job = .idle) :
    InputInv { r with job := .toEnd i } := by
  have hcells : CellsInv { r with job := .toEnd i } :=
    h.cellsInv.empty rfl (h.cellsInv.idle hjob).2 fun _ => nofun
  refine hcells.inputInv (fun n hn => ?_) h.part fun j lpBuf hdata => by cases hdata
  have hwhole := h.whole n hn
  rwa [pending_of_idle hjob] at hwhole

/-- Leaving the loop drops what is pending. -/
theorem leave_eq (r : Receiver) : ∃ dropped, r.leave = { r with job := .idle, dropped := dropped } ∧
    ∀ n, dropped n = false → r.dropped n = false ∧ r.pending n = [] := by
  unfold Receiver.leave
  cases hjob : r.job with
  | idle => exact ⟨r.dropped, rfl, fun n hn => ⟨hn, pending_of_idle hjob n⟩⟩
  | toEnd i => exact ⟨r.dropped, rfl, fun n hn => ⟨hn, pending_of_toEnd hjob n⟩⟩
  | data i lpBuf =>
      refine ⟨Function.update r.dropped (r.conn i) true, rfl, fun n hn => ?_⟩
      have hi : n ≠ r.conn i := by
        rintro rfl
        rw [Function.update_self] at hn
        cases hn
      rw [Function.update_of_ne hi] at hn
      exact ⟨hn, by rw [pending_of_data hjob, if_neg (Ne.symm hi)]⟩

theorem InputInv.leave (h : InputInv r) (hrecv : r.ring.recv = .idle)
    (hcur : ∀ i, r.pCurCat2DogIOMsg i = none) : InputInv r.leave := by
  obtain ⟨dropped, heq, hbefore⟩ := leave_eq r
  rw [heq]
  have hcells : CellsInv { r with job := .idle, dropped := dropped } :=
    h.cellsInv.empty rfl hcur fun hne => absurd hrecv hne
  refine hcells.inputInv (fun n hn => ?_) (fun n _ => h.prefix n) nofun
  obtain ⟨hkept, hnone⟩ := hbefore n hn
  have hwhole := h.whole n hkept
  rwa [hnone] at hwhole

/-- Another state of the ring in which the receive thread stands at the same place. -/
theorem InputInv.setRing (h : InputInv r) {ring : State} (hrecv : ring.recv = r.ring.recv) :
    InputInv { r with ring := ring } where
  cells := h.cells
  hand i c hcur := by
    obtain ⟨hslot, hidle, hst⟩ := h.hand i c hcur
    exact ⟨hslot, hrecv.trans hidle, hst⟩
  busy hne := h.busy fun hidle => hne (hrecv.trans hidle)
  whole n hn := by
    have hflight : Receiver.inFlight { r with ring := ring } = r.inFlight := by
      simp only [Receiver.inFlight, hrecv]
    have hpending : Receiver.pending { r with ring := ring } n = r.pending n := by
      simp only [Receiver.pending, hflight]
    rw [hpending]
    exact h.whole n hn
  part := h.part
  still i lpBuf hdata hdropped := by
    obtain ⟨hcur, hidle⟩ := h.still i lpBuf hdata hdropped
    exact ⟨hcur, hrecv.trans hidle⟩

theorem InputInv.test (h : InputInv r) (hguard : NothingBehindGap r .test)
    (hstep : inputStep r .test = some r') : InputInv r' := by
  have hcells := h.cellsInv.test hstep
  obtain ⟨i, ring, hslot, hcur, -, hidle, ⟨hfull, rfl⟩ | ⟨hne, hroom, rfl⟩⟩ := inputStep_test hstep
  · exact (h.setRing (hfull.trans hidle.symm)).leave hfull (h.cellsInv.none_of_slot hslot hcur)
  · have hflight : Receiver.inFlight { r with ring := ring } = r.inFlight := by
      rw [inFlight_of_idle hidle]
      exact inFlight_of_room hroom
    refine hcells.inputInv (fun n hn => ?_) h.part fun j lpBuf hdata hdropped => ?_
    · have hpending : Receiver.pending { r with ring := ring } n = r.pending n := by
        simp only [Receiver.pending, hflight]
      rw [hpending]
      exact h.whole n hn
    · -- the guard: behind a gap there is no room
      exact absurd (hguard j lpBuf hdata hdropped) hne

theorem InputInv.take (h : InputInv r) (hstep : inputStep r .take = some r') : InputInv r' := by
  have hcells := h.cellsInv.take hstep
  obtain ⟨i, c, ring, -, htake, rfl⟩ := inputStep_take hstep
  obtain ⟨hroom, hidle⟩ := take_eq_some htake
  refine hcells.inputInv (fun n hn => ?_) h.part fun j lpBuf hdata hdropped => ?_
  · -- nothing is stored before the step or after it
    have hwhole := h.whole n hn
    rw [Receiver.pending, inFlight_of_room hroom] at hwhole
    rw [Receiver.pending, inFlight_of_idle hidle]
    exact hwhole
  · have hstill := (h.still j lpBuf hdata hdropped).2
    rw [hroom] at hstill
    cases hstill

/-- What is still pending once a cell is filled and stored. -/
theorem InputInv.stored (h : InputInv r) {i : Slot} {c : Cell} {st : Stream} {job : Job}
    {ring : State} (hslot : r.job.slot = some i) (hcur : r.pCurCat2DogIOMsg i = some c)
    (hst : CellOk st) (hjob : job.slot = some i) (hring : ring.recv = .stored (some c))
    (hbytes : ∀ lpBuf, job = .data i lpBuf → r.job = .data i (chunkOf st ++ lpBuf))
    (hend : job = .toEnd i → r.job = .toEnd i) :
    InputInv { r.setStream c st with
      ring := ring, job := job
      pCurCat2DogIOMsg := Function.update r.pCurCat2DogIOMsg i none } := by
  -- no cell is on its way, for this one was in hand
  have hidle := (h.hand i c hcur).2.1
  refine (h.cellsInv.stored hslot hst hjob).inputInv (fun n hn => ?_) h.part
    fun j lpBuf hdata hdropped => ?_
  · have hwhole := h.whole n hn
    cases job with
    | idle => cases hjob
    | toEnd k =>
        cases hjob
        rwa [pending_of_toEnd (hend rfl)] at hwhole
    | data k lpBuf =>
        cases hjob
        rw [pending_of_data (hbytes lpBuf rfl), inFlight_of_idle hidle, List.nil_append] at hwhole
        rw [pending_of_data rfl, Receiver.inFlight, hring]
        show r.publishedFor n ++ (if r.conn i = n then
          chunkOf (Function.update r.cells c _ c).hStream ++ lpBuf else []) = r.received n
        rw [Function.update_self]
        exact hwhole
  · have hdata' : job = .data j lpBuf := hdata
    rw [hdata'] at hjob
    cases hjob
    have hnone := (h.still i _ (hbytes lpBuf hdata') hdropped).1
    rw [hcur] at hnone
    cases hnone

/-- What a cell is filled with is split off what is left of the buffer. -/
theorem InputInv.store (h : InputInv r) (hstep : inputStep r .store = some r') : InputInv r' := by
  obtain ⟨i, c, ring, st, job, hcur, hstore, hfill, rfl⟩ := inputStep_store hstep
  have hstored := (store_eq_some hstore).2
  obtain ⟨hend, hsplit⟩ := h.cellsInv.filled hcur
  obtain ⟨hjob, rfl, rfl⟩ | ⟨lpBuf, hjob, rfl, rfl⟩ := hfill
  · have hslot : r.job.slot = some i := by rw [hjob, Job.slot]
    refine h.stored hslot hcur hend hslot hstored (fun rest hdata => ?_) fun _ => hjob
    rw [hjob] at hdata
    cases hdata
  · refine h.stored (by rw [hjob, Job.slot]) hcur (hsplit lpBuf).1 rfl hstored
      (fun rest hdata => ?_) nofun
    cases hdata
    rw [hjob, (hsplit lpBuf).2]

/-- A chunk that is published is the last one of its connection. -/
theorem publishedFor_append {n m : Nat} {chunk : List Byte} {ring : State} {job : Job} :
    Receiver.publishedFor { r with
      ring := ring, published := r.published ++ [(m, chunk)], job := job } n =
        r.publishedFor n ++ if m = n then chunk else [] := by
  simp only [Receiver.publishedFor, List.filter_append, List.map_append, List.flatten_append]
  congr 1
  by_cases hm : m = n
  · simp [hm]
  · simp [hm]

/-- A published chunk is no longer pending. -/
theorem InputInv.publish (h : InputInv r) (hstep : inputStep r .publish = some r') :
    InputInv r' := by
  have hcells := h.cellsInv.publish hstep
  obtain ⟨c, ring, hstored, hadvance, hstep⟩ := inputStep_publish hstep
  have hidle := advancePut_eq_some hadvance
  have hflight : r.inFlight = chunkOf (r.cells c).hStream := by rw [Receiver.inFlight, hstored]
  cases hjob : r.job with
  | idle => exact absurd hjob (h.busy (by rw [hstored]; exact nofun))
  | toEnd i =>
      simp only [Receiver.publish, hjob] at hstep
      subst hstep
      refine hcells.inputInv (fun n hn => ?_) h.part nofun
      have hwhole := h.whole n hn
      rwa [pending_of_toEnd hjob] at hwhole
  | data i lpBuf =>
      -- a connection that lost bytes publishes nothing more
      have hlive : r.dropped (r.conn i) = false := by
        cases hdropped : r.dropped (r.conn i) with
        | false => rfl
        | true =>
            have hstill := (h.still i lpBuf hjob hdropped).2
            rw [hstored] at hstill
            cases hstill
      -- what is left of the buffer is pending alone
      have hafter : ∀ n, Receiver.pending { r with
          ring := ring
          published := r.published ++ [(r.conn i, chunkOf (r.cells c).hStream)]
          job := if lpBuf = [] then .idle else .data i lpBuf } n =
            if r.conn i = n then lpBuf else [] := by
        intro n
        by_cases hempty : lpBuf = []
        · rw [pending_of_idle (if_pos hempty), hempty, ite_self]
        · rw [pending_of_data (if_neg hempty), inFlight_of_idle hidle, List.nil_append]
      simp only [Receiver.publish, hjob] at hstep
      subst hstep
      refine hcells.inputInv (fun n hn => ?_) (fun n hn => ?_) fun j rest hdata hdropped => ?_
      · have hwhole := h.whole n hn
        rw [pending_of_data hjob, hflight] at hwhole
        rw [hafter, publishedFor_append]
        by_cases hi : r.conn i = n
        · rw [if_pos hi] at hwhole ⊢
          rw [if_pos hi, List.append_assoc]
          exact hwhole
        · rw [if_neg hi] at hwhole ⊢
          rw [if_neg hi, List.append_nil]
          exact hwhole
      · have hi : r.conn i ≠ n := by
          rintro rfl
          have hn' : r.dropped (r.conn i) = true := hn
          rw [hlive] at hn'
          cases hn'
        rw [publishedFor_append, if_neg hi, List.append_nil]
        exact h.part n hn
      · have hdata' : (if lpBuf = [] then Job.idle else .data i lpBuf) = .data j rest := hdata
        split at hdata'
        · cases hdata'
        · cases hdata'
          have hdropped' : r.dropped (r.conn i) = true := hdropped
          rw [hlive] at hdropped'
          cases hdropped'

theorem InputInv.io (h : InputInv r) {a : Action} (ha : a = .ioTest ∨ a = .ioRead ∨ a = .ioAdvance)
    (hstep : r.ringStep a = some r') : InputInv r' := by
  obtain ⟨ring, hring, rfl⟩ := ringStep_eq_some hstep
  exact h.setRing (recv_io ha hring)

/-- One step. -/
theorem InputInv.step (h : InputInv r) {a : InputAction} (ha : NothingBehindGap r a)
    (hstep : inputStep r a = some r') : InputInv r' := by
  cases a with
  | test => exact h.test ha hstep
  | take => exact h.take hstep
  | store => exact h.store hstep
  | publish => exact h.publish hstep
  | ioTest => exact h.io (Or.inl rfl) hstep
  | ioRead => exact h.io (Or.inr (Or.inl rfl)) hstep
  | ioAdvance => exact h.io (Or.inr (Or.inr rfl)) hstep
  | accept i =>
      simp only [inputStep] at hstep
      split at hstep
      · next hidle =>
          cases hstep
          exact h.setConn hidle.1 _ _
      · cases hstep
  | recycle i =>
      simp only [inputStep] at hstep
      split at hstep
      · next hidle =>
          cases hstep
          exact h.setConn hidle _ _
      · cases hstep
  | recv i buf =>
      simp only [inputStep] at hstep
      split at hstep
      · next hidle =>
          cases hstep
          exact h.recv hidle.1
      · cases hstep
  | toEnd i =>
      simp only [inputStep] at hstep
      split at hstep
      · next hidle =>
          cases hstep
          exact h.toEnd hidle.1
      · cases hstep

end Inv

/-- **No gap in a client's input**: what was published for a connection is at all times the
beginning of what was received on it. -/
theorem no_gap {align : Cell → Nat} {r : Receiver}
    (hrun : Reach inputStep NothingBehindGap (inputInit align) r) :
    ∀ n, r.publishedFor n <+: r.received n := by
  have h : InputInv r := hrun.invariant (inputInv_init align) fun _ _ _ hr ha hs => hr.step ha hs
  exact h.prefix

/-! ## A full ring -/

/-- The receive thread has no cell in hand; the IO thread is at the position `G` and the next cell is
published at `P`. -/
structure EmptyHanded (r : Receiver) (G P : Nat) (done : List Ptr) : Prop where
  ring : RingInv r.ring G P (P + 1) done
  recv : r.ring.recv = .idle
  cur : ∀ i, r.pCurCat2DogIOMsg i = none
  cells : ∀ c, CellOk (r.cells c).hStream

/-- The receive thread is between two jobs. -/
structure Resting (r : Receiver) (G P : Nat) (done : List Ptr) : Prop
    extends EmptyHanded r G P done where
  job : r.job = .idle

theorem resting_init (align : Cell → Nat) : Resting (inputInit align) 0 0 [] :=
  ⟨⟨ringInv_init, rfl, fun _ => rfl, fun c => cellOk_init (align c)⟩, rfl⟩

/-- The receiver once a turn of the loop over a buffer published the cell `c`. -/
def Receiver.turned (i : Slot) (lpBuf : List Byte) (c : Cell) (ring : State) (r : Receiver) :
    Receiver :=
  let copied := copy_stream lpBuf (reset_stream (r.cells c).hStream)
  { r with
    ring := ring
    cells := Function.update r.cells c
      { iSessionID := r.conn i % 4294967296, pClientInfo := i, hStream := copied.2 }
    pCurCat2DogIOMsg := Function.update r.pCurCat2DogIOMsg i none
    job := if copied.1 = [] then .idle else .data i copied.1
    published := r.published ++ [(r.conn i, chunkOf copied.2)] }

/-- The four steps of a turn, between the states `r`, `r₁`, `r₂`, `r₃` and `r'`. -/
structure BufferTurn (i : Slot) (lpBuf : List Byte) (c : Cell) (r r₁ r₂ r₃ r' : Receiver) : Prop where
  test : inputStep r .test = some r₁
  take : inputStep r₁ .take = some r₂
  store : inputStep r₂ .store = some r₃
  publish : inputStep r₃ .publish = some r'
  job : r₁.job = .data i lpBuf ∧ r₂.job = .data i lpBuf
  hand : r₂.pCurCat2DogIOMsg i = some c
  stream : (r₂.cells c).hStream = reset_stream (r.cells c).hStream
  dropped : r₁.dropped = r.dropped ∧ r₂.dropped = r.dropped ∧ r₃.dropped = r.dropped

section Deliver

variable {r : Receiver} {G P : Nat} {done : List Ptr}

/-- With room in the ring a cell is tested for, taken, stored and published; it was not queued. -/
theorem ring_deliver {s : State} (h : RingInv s G P (P + 1) done) (hidle : s.recv = .idle)
    (hroom : P + 2 < G + CAT2DOGIOMSGNUM) :
    ∃ (c : Cell) (s₁ s₂ s₃ s₄ : State), step s .testFull = some s₁ ∧ s₁.recv = .room ∧
      s₁.Cat2DogIOMsg s₁.uiCliGetMsgIndex = some c ∧ step s₁ .take = some s₂ ∧
      step s₂ (.store (some c)) = some s₃ ∧ step s₃ .advancePut = some s₄ ∧
      RingInv s₄ G (P + 1) (P + 2) done ∧ s₄.recv = .idle ∧ s₄.io = s.io ∧
      s₄.published = s.published ++ [some c] ∧ some c ∉ s.queued := by
  -- the next index is behind the get index of the IO thread, by less than the size of the ring
  have hne : s.uiCliGetMsgNextIndex ≠ s.uiIoGetMsgIndex := by
    have hle := h.io_le_put
    rw [h.next_eq, h.io_eq]
    exact (mod_ne (by omega) (by omega)).symm
  have htest : step s .testFull = some { s with recv := .room } := by
    simp only [step, hidle, if_neg hne]
  have h₁ := ringInv_testFull h htest
  have htake : step { s with recv := .room } .take = some { s with
      recv := .idle
      taken := s.Cat2DogIOMsg s.uiCliGetMsgIndex :: s.taken
      uiCliGetMsgIndex := s.uiCliGetMsgNextIndex
      uiCliGetMsgNextIndex := advance s.uiCliGetMsgNextIndex } := rfl
  have h₂ := ringInv_take h₁ htake
  obtain ⟨c, htaken, hfresh, -⟩ := h₁.take_fresh htake
  have hc : s.Cat2DogIOMsg s.uiCliGetMsgIndex = some c := (List.cons.inj htaken).1
  obtain ⟨s₃, hstore⟩ : ∃ s₃, step { s with
      recv := .idle
      taken := s.Cat2DogIOMsg s.uiCliGetMsgIndex :: s.taken
      uiCliGetMsgIndex := s.uiCliGetMsgNextIndex
      uiCliGetMsgNextIndex := advance s.uiCliGetMsgNextIndex } (.store (some c)) = some s₃ ∧
        s₃.io = s.io ∧ s₃.published = s.published := by
    refine ⟨_, if_pos ?_, rfl, rfl⟩
    show some c ∈ s.Cat2DogIOMsg s.uiCliGetMsgIndex :: s.taken
    rw [hc]
    exact List.mem_cons_self
  have h₃ := ringInv_store h₂ hstore.1
  have hstored := (store_eq_some hstore.1).2
  have hadvance : step s₃ .advancePut = some { s₃ with
      recv := .idle
      uiCliPutMsgIndex := Cat2Dog.advance s₃.uiCliPutMsgIndex
      published := s₃.published ++ [some c] } := by
    simp only [step, hstored]
  exact ⟨c, _, _, s₃, _, htest, rfl, hc, htake, hstore.1, hadvance,
    ringInv_advancePut h₃ hadvance, rfl, hstore.2.1, by rw [← hstore.2.2], hfresh⟩

/-- **A turn of the loop** with room in the ring publishes the beginning of what is left of the
buffer. -/
theorem turn_delivers (h : EmptyHanded r G P done) {i : Slot} {lpBuf : List Byte}
    (hjob : r.job = .data i lpBuf) (hroom : P + 2 < G + CAT2DOGIOMSGNUM) :
    ∃ c r₁ r₂ r₃ ring, BufferTurn i lpBuf c r r₁ r₂ r₃ (r.turned i lpBuf c ring) ∧
      EmptyHanded (r.turned i lpBuf c ring) G (P + 1) done ∧ ring.io = r.ring.io ∧
      ring.published = r.ring.published ++ [some c] ∧ some c ∉ r.ring.queued := by
  obtain ⟨c, s₁, s₂, s₃, s₄, htest, hs₁, hc, htake, hstore, hadvance, hring, hidle, hio, hpub,
    hfresh⟩ := ring_deliver h.ring h.recv hroom
  have hok := (copy_stream_chunk (h.cells c) lpBuf).1
  set copied := copy_stream lpBuf (reset_stream (r.cells c).hStream) with hcopied
  have h₁ : inputStep r .test = some { r with ring := s₁ } := by
    simp only [inputStep, hjob, Job.slot, h.cur i, Receiver.ringStep, htest, hs₁, Option.bind_eq_bind,
      Option.bind_some, Option.map_some, if_true]
  have h₂ : inputStep { r with ring := s₁ } .take =
      some (Receiver.stamp i c { r with ring := s₂ }) := by
    simp only [inputStep, hjob, Job.slot, hc, Receiver.ringStep, htake, Option.bind_eq_bind,
      Option.bind_some, Option.map_some]
  set r₂ : Receiver := Receiver.stamp i c { r with ring := s₂ } with hr₂
  have hcur₂ : r₂.pCurCat2DogIOMsg i = some c := Function.update_self ..
  have hcell₂ : r₂.cells c = CAT2DOGIOMSG.mk (r.conn i % 4294967296) i
      (reset_stream (r.cells c).hStream) := Function.update_self ..
  set r₃ : Receiver := { r₂.setStream c copied.2 with
    ring := s₃, job := .data i copied.1
    pCurCat2DogIOMsg := Function.update r₂.pCurCat2DogIOMsg i none } with hr₃
  have h₃ : inputStep r₂ .store = some r₃ := by
    have hring₂ : r₂.ringStep (.store (some c)) = some { r₂ with ring := s₃ } := by
      rw [Receiver.ringStep, show r₂.ring = s₂ from rfl, hstore, Option.map_some]
    have hjob₂ : r₂.job = .data i lpBuf := hjob
    have hfill : Receiver.fill c { r₂ with ring := s₃ } =
        { Receiver.setStream c copied.2 { r₂ with ring := s₃ } with job := .data i copied.1 } := by
      simp only [Receiver.fill, hjob₂, hcell₂, ← hcopied]
    have hslot : r₂.job.slot = some i := congrArg Job.slot hjob
    simp only [inputStep, hslot, hcur₂, hring₂, hfill, Option.bind_eq_bind, Option.bind_some]
    rfl
  have hcell₃ : (r₃.cells c).hStream = copied.2 := by
    show (Function.update r₂.cells c _ c).hStream = _
    rw [Function.update_self]
  -- the updates of `stamp` and of `fill` are on the same cell
  have hturned : { r₃ with
      ring := s₄, published := r.published ++ [(r.conn i, chunkOf copied.2)]
      job := if copied.1 = [] then .idle else .data i copied.1 } = r.turned i lpBuf c s₄ := by
    have hcells : r₃.cells = Function.update r.cells c
        { iSessionID := r.conn i % 4294967296, pClientInfo := i, hStream := copied.2 } := by
      show Function.update (Function.update r.cells c _) c _ = _
      rw [Function.update_idem, hcell₂]
    have hcur : r₃.pCurCat2DogIOMsg = Function.update r.pCurCat2DogIOMsg i none :=
      Function.update_idem ..
    rw [hcells, hcur]
    rfl
  have h₄ : inputStep r₃ .publish = some (r.turned i lpBuf c s₄) := by
    have hstored : r₃.ring.recv = .stored (some c) := (store_eq_some hstore).2
    have hring₃ : r₃.ringStep .advancePut = some { r₃ with ring := s₄ } := by
      rw [Receiver.ringStep, show r₃.ring = s₃ from rfl, hadvance, Option.map_some]
    have hpublish : Receiver.publish c { r₃ with ring := s₄ } = { r₃ with
        ring := s₄
        published := r.published ++ [(r.conn i, chunkOf (r₃.cells c).hStream)]
        job := if copied.1 = [] then .idle else .data i copied.1 } := rfl
    rw [hcell₃, hturned] at hpublish
    simp only [inputStep, hstored, hring₃, Option.map_some, hpublish]
  refine ⟨c, _, r₂, r₃, s₄, ⟨h₁, h₂, h₃, h₄, ⟨hjob, hjob⟩, hcur₂, by rw [hcell₂], rfl, rfl, rfl⟩,
    ⟨hring, hidle, fun j => ?_, fun d => ?_⟩, hio, hpub, hfresh⟩
  · show Function.update r.pCurCat2DogIOMsg i none j = none
    by_cases hj : j = i
    · rw [hj, Function.update_self]
    · rw [Function.update_of_ne hj, h.cur j]
  · show CellOk (Function.update r.cells c _ d).hStream
    by_cases hd : d = c
    · rw [hd, Function.update_self]
      exact hok
    · rw [Function.update_of_ne hd]
      exact h.cells d

/-- **A byte is delivered** while the ring has room: it is received and published, under any guard
that the connections which lost bytes decide. -/
theorem deliver (h : Resting r G P done) (hroom : P + 2 < G + CAT2DOGIOMSGNUM) {i : Slot}
    (hconn : r.conn i ≠ 0) (b : Byte) {C : Receiver → InputAction → Prop}
    (hC : ∀ s a, s.dropped = r.dropped → C s a) :
    ∃ r', Reach inputStep C r r' ∧ Resting r' G (P + 1) done ∧ r'.conn = r.conn ∧
      r'.dropped = r.dropped ∧ r'.ring.io = r.ring.io ∧
      r'.received = Function.update r.received (r.conn i) (r.received (r.conn i) ++ [b]) ∧
      r'.published = r.published ++ [(r.conn i, [b])] := by
  have hrecv : inputStep r (.recv i [b]) = some { r with
      job := .data i [b]
      received := Function.update r.received (r.conn i) (r.received (r.conn i) ++ [b]) } :=
    if_pos ⟨h.job, hconn, List.cons_ne_nil b [], by rw [List.length_singleton]; decide⟩
  set r₀ : Receiver := { r with
    job := .data i [b]
    received := Function.update r.received (r.conn i) (r.received (r.conn i) ++ [b]) } with hr₀
  have h₀ : EmptyHanded r₀ G P done := ⟨h.ring, h.recv, h.cur, h.cells⟩
  obtain ⟨c, r₁, r₂, r₃, ring, hturn, hafter, hio, -, -⟩ := turn_delivers h₀ rfl hroom
  obtain ⟨-, hchunk, hrest⟩ := copy_stream_chunk (h.cells c) [b]
  obtain ⟨hd₁, hd₂, hd₃⟩ := hturn.dropped
  have hrun : Reach inputStep C r (r₀.turned i [b] c ring) :=
    ((((Reach.start.next (hC _ _ rfl) hrecv).next (hC _ _ rfl) hturn.test).next (hC _ _ hd₁)
      hturn.take).next (hC _ _ hd₂) hturn.store).next (hC _ _ hd₃) hturn.publish
  refine ⟨_, hrun, ⟨hafter, if_pos hrest⟩, rfl, rfl, hio, rfl, ?_⟩
  show r.published ++ [(r.conn i, chunkOf _)] = _
  rw [hchunk]
  rfl

end Deliver

/-- A connection in slot 0 of which nothing was dropped, with `P` cells published and none handled. -/
structure Filling (align : Cell → Nat) (r : Receiver) (P : Nat) : Prop where
  run : Reach inputStep NothingBehindGap (inputInit align) r
  rest : Resting r 0 P []
  conn : r.conn 0 = 1
  dropped : ∀ n, r.dropped n = false
  io : r.ring.io = .idle

theorem Resting.accept {r : Receiver} {G P : Nat} {done : List Ptr} (h : Resting r G P done) {i : Slot}
    (hconn : r.conn i = 0) : ∃ r', inputStep r (.accept i) = some r' ∧ Resting r' G P done ∧
      r'.conn i = r.accepted + 1 ∧ r'.dropped = r.dropped ∧ r'.ring = r.ring ∧
      r'.published = r.published :=
  ⟨_, if_pos ⟨h.job, hconn⟩, ⟨⟨h.ring, h.recv, h.cur, h.cells⟩, h.job⟩, Function.update_self .., rfl,
    rfl, rfl⟩

theorem filling_start (align : Cell → Nat) : ∃ r, Filling align r 0 ∧ r.published = [] := by
  obtain ⟨r, hstep, hrest, hconn, hdropped, hring, hpublished⟩ :=
    (resting_init align).accept (i := 0) rfl
  refine ⟨r, ⟨Reach.start.next (a := .accept 0) trivial hstep, hrest, hconn, fun n => ?_, ?_⟩,
    hpublished⟩
  · rw [hdropped]
    rfl
  · rw [hring]
    rfl

theorem Filling.deliver {align : Cell → Nat} {r : Receiver} {P : Nat} (h : Filling align r P)
    (hroom : P + 2 < CAT2DOGIOMSGNUM) (b : Byte) :
    ∃ r', Filling align r' (P + 1) ∧ r'.published = r.published ++ [(1, [b])] := by
  have hguard : ∀ s a, s.dropped = r.dropped → NothingBehindGap s a := by
    intro s a hs
    cases a with
    | test =>
        intro i lpBuf _ hdropped
        rw [hs, h.dropped] at hdropped
        cases hdropped
    | _ => trivial
  obtain ⟨r', hrun, hrest, hconn, hdropped, hio, -, hpublished⟩ := Cat2Dog.deliver h.rest
    (by omega) (i := 0) (by rw [h.conn]; decide) b hguard
  rw [h.conn] at hpublished
  exact ⟨r', ⟨h.run.trans hrun, hrest, by rw [hconn, h.conn], fun n => by rw [hdropped, h.dropped],
    hio.trans h.io⟩, hpublished⟩

/-- **The ring can be full**: the IO thread handles nothing, and every cell but one is published. -/
theorem filling_all (align : Cell → Nat) {P : Nat} (hP : P + 2 ≤ CAT2DOGIOMSGNUM) :
    ∃ r, Filling align r P := by
  induction P with
  | zero =>
      obtain ⟨r, h, -⟩ := filling_start align
      exact ⟨r, h⟩
  | succ P ih =>
      obtain ⟨r, h⟩ := ih (by omega)
      obtain ⟨r', h', -⟩ := h.deliver (by omega) 0
      exact ⟨r', h'⟩

/-- Two buffers received and published. -/
theorem no_gap_two : ∃ r, Reach inputStep NothingBehindGap (inputInit fun _ => 0) r ∧
    r.published = [(1, [8]), (1, [9])] ∧ ∀ n, r.publishedFor n <+: r.received n := by
  obtain ⟨r₀, h₀, hnone⟩ := filling_start fun _ => 0
  obtain ⟨r₁, h₁, hfirst⟩ := h₀.deliver (by decide) 8
  obtain ⟨r, h, hsecond⟩ := h₁.deliver (by decide) 9
  rw [hfirst, hnone] at hsecond
  exact ⟨r, h.run, hsecond, no_gap h.run⟩

/-- The IO thread handles a cell. -/
theorem ring_handle {s : State} {G P T : Nat} {done : List Ptr} (h : RingInv s G P T done)
    (hio : s.io = .idle) (hlt : G < P) :
    ∃ s₁ s₂ s₃ c, step s .ioTest = some s₁ ∧ step s₁ .ioRead = some s₂ ∧
      step s₂ .ioAdvance = some s₃ ∧ RingInv s₃ (G + 1) P T (done ++ [c]) ∧ s₃.recv = s.recv := by
  have hne : s.uiCliPutMsgIndex ≠ s.uiIoGetMsgIndex := by
    have hhands := h.hands
    have hfree := h.free_left
    rw [h.put_eq, h.io_eq]
    exact (mod_ne hlt (by omega)).symm
  have htest : step s .ioTest = some { s with io := .found } := by
    simp only [step, hio, if_neg hne]
  have hread : step { s with io := .found } .ioRead = some { s with
      io := .processing (s.Cat2DogIOMsg s.uiIoGetMsgIndex)
      processed := s.processed ++ [s.Cat2DogIOMsg s.uiIoGetMsgIndex] } := rfl
  have hadvance : step { s with
      io := .processing (s.Cat2DogIOMsg s.uiIoGetMsgIndex)
      processed := s.processed ++ [s.Cat2DogIOMsg s.uiIoGetMsgIndex] } .ioAdvance = some { s with
        io := .idle
        processed := s.processed ++ [s.Cat2DogIOMsg s.uiIoGetMsgIndex]
        uiIoGetMsgIndex := advance s.uiIoGetMsgIndex } := rfl
  obtain ⟨c, hafter⟩ := ringInv_ioAdvance (ringInv_ioRead (ringInv_ioTest h htest) hread) hadvance
  exact ⟨_, _, _, c, htest, hread, hadvance, hafter, rfl⟩

/-- **A gap**: with the ring full a byte is dropped, the IO thread gives a cell back, and the next
byte of the same connection is published. -/
theorem gap_in_input : ∃ r n, Reach inputStep AnyStep (inputInit fun _ => 0) r ∧
    ¬r.publishedFor n <+: r.received n := by
  obtain ⟨r, h⟩ := filling_all (fun _ => 0) (P := CAT2DOGIOMSGNUM - 2) (by decide)
  obtain ⟨⟨hring, hidle, hcur, hcells⟩, hjob⟩ := h.rest
  have hinv : InputInv r := h.run.invariant (inputInv_init _) fun _ _ _ hr ha hs => hr.step ha hs
  have hsame : r.publishedFor 1 = r.received 1 := by
    rw [← hinv.whole 1 (h.dropped 1), pending_of_idle hjob, List.append_nil]
  -- the byte 7 is received and dropped
  have hrecv : inputStep r (.recv 0 [7]) = some { r with
      job := .data 0 [7], received := Function.update r.received 1 (r.received 1 ++ [7]) } := by
    simp only [inputStep, hjob, h.conn]
    rfl
  have hfull : step r.ring .testFull = some r.ring := by
    have hnext : r.ring.uiCliGetMsgNextIndex = r.ring.uiIoGetMsgIndex := by
      rw [hring.next_eq, hring.io_eq]
      rfl
    simp only [step, hidle, if_pos hnext]
  have hleave : inputStep { r with
      job := .data 0 [7], received := Function.update r.received 1 (r.received 1 ++ [7]) } .test =
        some { r with
          job := .idle, dropped := Function.update r.dropped 1 true
          received := Function.update r.received 1 (r.received 1 ++ [7]) } := by
    simp only [inputStep, Job.slot, hcur 0, Receiver.ringStep, hfull, hidle, Receiver.leave, h.conn,
      Option.bind_eq_bind, Option.bind_some, Option.map_some, if_true]
    rfl
  -- the IO thread handles one cell
  obtain ⟨s₁, s₂, s₃, c, htest, hread, hadvance, hafter, hrecv₃⟩ :=
    ring_handle hring h.io (by decide)
  set r₂ : Receiver := { r with
    job := .idle, dropped := Function.update r.dropped 1 true
    received := Function.update r.received 1 (r.received 1 ++ [7]) } with hr₂
  have hio : ∀ (ring : State) {a : Action} {s : State}, step ring a = some s →
      Receiver.ringStep { r₂ with ring := ring } a = some { r₂ with ring := s } := by
    intro ring a s hs
    rw [Receiver.ringStep, hs, Option.map_some]
  have h₁ : inputStep r₂ .ioTest = some { r₂ with ring := s₁ } := hio r.ring htest
  have h₂ : inputStep { r₂ with ring := s₁ } .ioRead = some { r₂ with ring := s₂ } := hio s₁ hread
  have h₃ : inputStep { r₂ with ring := s₂ } .ioAdvance = some { r₂ with ring := s₃ } :=
    hio s₂ hadvance
  have hrun : Reach inputStep AnyStep (inputInit fun _ => 0) { r₂ with ring := s₃ } :=
    ((((h.run.any.next trivial hrecv).next trivial hleave).next trivial h₁).next trivial h₂).next
      trivial h₃
  -- the byte 8 is received and published
  obtain ⟨r', hrun', -, -, -, -, hreceived, hpublished⟩ := deliver (r := { r₂ with ring := s₃ })
    (G := 1) (P := CAT2DOGIOMSGNUM - 2) ⟨⟨hafter, hrecv₃.trans hidle, hcur, hcells⟩, rfl⟩ (by decide)
    (i := 0) (by show r.conn 0 ≠ 0; rw [h.conn]; decide) 8 (C := AnyStep) fun _ _ _ => trivial
  refine ⟨r', 1, hrun.trans hrun', ?_⟩
  have hconn : Receiver.conn { r₂ with ring := s₃ } 0 = 1 := h.conn
  rw [hconn] at hreceived hpublished
  have hbehind : r'.publishedFor 1 = r.received 1 ++ [8] := by
    rw [← hsame]
    simp only [Receiver.publishedFor, hpublished, List.filter_append, List.map_append,
      List.flatten_append]
    rfl
  have hall : r'.received 1 = r.received 1 ++ [7, 8] := by
    have hbefore : Receiver.received { r₂ with ring := s₃ } 1 = r.received 1 ++ [7] := by
      show Function.update r.received 1 (r.received 1 ++ [7]) 1 = _
      rw [Function.update_self]
    rw [hreceived, Function.update_self, hbefore, List.append_assoc, List.singleton_append]
  rw [hbehind, hall, List.prefix_append_right_inj]
  decide

end Cat2Dog

end Netflow
