import Netflow.Cat2Dog.Input

set_option autoImplicit false

/-! # Who closes a session

`CLIENTTOEND` tells the IO thread that a client is gone by a cell whose text is
`<SOCKETSHUTDOWN>`, and `processIOThread` compares the text of every cell with that string. The bytes
a client sends travel in the same cells, so it can send the string itself, or a beginning of it into
a cell that still holds the rest.

`Watched` adds to the receiver what `processIOThread` does with the cell it read. `filled` and `sent`
are histories: what the last stored cell, and each published one, was filled with.
-/

namespace Netflow

namespace Cat2Dog

/-- What a cell was filled with: a chunk over the bytes that were `left` in its buffer, or the
shutdown text. -/
inductive Origin where
  | data (chunk left : List Byte)
  | toEnd
deriving DecidableEq

/-- The chunk and the bytes left behind it begin with the shutdown text and its NUL. -/
def Origin.SpellsShutdown : Origin → Prop
  | data chunk left => (chunk ++ left.drop chunk.length).take 17 = SOCKETSHUTDOWN.chars ++ [0]
  | toEnd => False

/-- Where the IO thread stands with the cell it read: before the comparison of the session numbers,
before the comparison of the text (with its local `pClientInfo`), or behind both. -/
inductive CheckPc where
  | none
  | session
  | text (pClientInfo : Slot)
  | over
deriving DecidableEq

/-- What the IO thread decided on the published cell number `place`: whether its session number is
that of its client, and whether the close branch was taken. -/
structure Decision where
  place : Nat
  matched : Bool
  closed : Bool
deriving DecidableEq

/-- `FunFreeObj` are the calls of it. -/
structure Watched where
  recv : Receiver
  filled : Origin
  sent : List Origin
  check : CheckPc
  lStatus : Slot → CLIENTSTATUS
  FunFreeObj : List Slot
  decisions : List Decision

def watchInit (align : Cell → Nat) : Watched where
  recv := inputInit align
  filled := .data [] []
  sent := []
  check := .none
  lStatus _ := .STATUS_UNKNOWN
  FunFreeObj := []
  decisions := []

/-- What a store fills the cell with. -/
def Receiver.origin (r : Receiver) : Origin :=
  match r.job with
  | .data i lpBuf =>
      match r.pCurCat2DogIOMsg i with
      | some c => .data (lpBuf.take MSGINITSIZE) (r.cells c).hStream.buffer
      | none => .data lpBuf []
  | _ => .toEnd

/-- The steps: those of the receive thread, and `processIOThread` with its two comparisons. -/
inductive WatchAction where
  | input (a : InputAction)
  | ioSession
  | ioText

namespace Watched

/-- The IO thread is done with its cell. -/
def conclude (matched closed : Bool) (s : Watched) : Watched :=
  { s with
    check := .over
    decisions := s.decisions ++
      [{ place := s.recv.ring.processed.length - 1, matched := matched, closed := closed }] }

/-- The close branch of `processIOThread`. -/
def close (i : Slot) (s : Watched) : Watched :=
  { s with
    lStatus := Function.update s.lStatus i .STATUS_IOCLOSEED
    FunFreeObj := s.FunFreeObj ++ [i] }

/-- The comparison of the session numbers. -/
def session (c : Cell) (s : Watched) : Watched :=
  let pCat2DogIOMsg := s.recv.cells c
  let pClientInfo := pCat2DogIOMsg.pClientInfo
  if pCat2DogIOMsg.iSessionID ≠ s.recv.conn pClientInfo % 4294967296 then s.conclude false false
  else if s.lStatus pClientInfo = .STATUS_IOCMDCLOSE then s.conclude true false
  else { s with check := .text pClientInfo }

/-- `IOProcessParser`, which only reads the stream, and the comparison of the text. -/
def text (pClientInfo : Slot) (c : Cell) (s : Watched) : Watched :=
  if (s.recv.cells c).hStream.text = SOCKETSHUTDOWN then (s.close pClientInfo).conclude true true
  else s.conclude true false

end Watched

/-- A step of the receiver alone. -/
def Watched.inputStep (s : Watched) (a : InputAction) : Option Watched :=
  (Cat2Dog.inputStep s.recv a).map fun recv => { s with recv := recv }

def watchStep (s : Watched) : WatchAction → Option Watched
  | .input (.accept i) =>
      (s.inputStep (.accept i)).map fun t =>
        { t with lStatus := Function.update t.lStatus i .STATUS_UNKNOWN }
  | .input (.recycle i) =>
      if s.lStatus i = .STATUS_IOCLOSEED then
        (s.inputStep (.recycle i)).map fun t =>
          { t with lStatus := Function.update t.lStatus i .STATUS_UNKNOWN }
      else none
  | .input (.toEnd i) =>
      -- `STATUS_SOCKET_CLOSED` is the number of `STATUS_UNKNOWN`
      (s.inputStep (.toEnd i)).map fun t =>
        { t with lStatus := Function.update t.lStatus i .STATUS_UNKNOWN }
  | .input .store => (s.inputStep .store).map fun t => { t with filled := s.recv.origin }
  | .input .publish => (s.inputStep .publish).map fun t => { t with sent := s.sent ++ [s.filled] }
  | .input .ioRead => (s.inputStep .ioRead).map fun t => { t with check := .session }
  | .input .ioAdvance =>
      if s.check = .over then (s.inputStep .ioAdvance).map fun t => { t with check := .none } else none
  | .input a => s.inputStep a
  | .ioSession =>
      match s.recv.ring.io, s.check with
      | .processing (some c), .session => some (s.session c)
      | _, _ => none
  | .ioText =>
      match s.recv.ring.io, s.check with
      | .processing (some c), .text pClientInfo => some (s.text pClientInfo c)
      | _, _ => none

/-- **Only genuine shutdowns close**: the close branch is taken for a cell exactly when `CLIENTTOEND`
published it and its session number was that of its client. -/
def OnlyShutdownsClose (s : Watched) : Prop :=
  ∀ d ∈ s.decisions, d.closed = true ↔ s.sent[d.place]? = some .toEnd ∧ d.matched = true

/-! ## The text of a cell -/

/-- What a cell is filled with makes its text the shutdown text. -/
def Origin.Closes (o : Origin) : Prop := o = .toEnd ∨ o.SpellsShutdown

theorem text_eq_shutdown_iff {st : Stream} (h : CellOk st) :
    st.text = SOCKETSHUTDOWN ↔ st.buffer.take 17 = SOCKETSHUTDOWN.chars ++ [0] := by
  have hlen := h.buffer_length
  have hshort : SOCKETSHUTDOWN.chars.length = 16 := by decide
  rw [Stream.text, stringAt, get_stream_ptr, ← Stream.buffer,
    CStr.ofChars_eq_iff (by simp only [MSGINITSIZE] at hlen; omega), hshort]

/-- A chunk copied into a stream that was reset lies over what was left there. -/
theorem buffer_copy_stream {st : Stream} (h : CellOk st) (lpBuf : List Byte) :
    (copy_stream lpBuf (reset_stream st)).2.buffer =
      lpBuf.take MSGINITSIZE ++ st.buffer.drop (lpBuf.take MSGINITSIZE).length := by
  have hbuf := h.buf_lt
  have hblock : (copy_stream lpBuf (reset_stream st)).2.block =
      memcpy st.block st.chunk_buf (lpBuf.take MSGINITSIZE) := by
    show memcpy st.block st.chunk_buf
      (lpBuf.take (toUInt (min (st.chunk_buf + st.size - st.chunk_buf) _))) = _
    rw [h.copied_length, ← List.take_take, List.take_length]
  rw [Stream.buffer, hblock]
  show (memcpy st.block st.chunk_buf _).drop st.chunk_buf = _
  rw [drop_memcpy (by rw [h.block_length]; simp only [MSGINITSIZE, MIN_MALLOC_LEN]; omega),
    Stream.buffer]

/-- **The text of a filled cell**: it is the shutdown text for `CLIENTTOEND`, and for a chunk that
spells it with what was left in the cell. -/
theorem text_filled {r : Receiver} (h : CellsInv r) {i : Slot} {c : Cell} {st : Stream}
    (hcur : r.pCurCat2DogIOMsg i = some c)
    (hfill : (r.job = .toEnd i ∧ st = push_stream_string (r.cells c).hStream SOCKETSHUTDOWN none) ∨
      ∃ lpBuf, r.job = .data i lpBuf ∧ st = (copy_stream lpBuf (r.cells c).hStream).2) :
    st.text = SOCKETSHUTDOWN ↔ r.origin.Closes := by
  obtain ⟨-, -, old, hold, hreset⟩ := h.hand i c hcur
  rw [hreset] at hfill
  obtain ⟨hjob, rfl⟩ | ⟨lpBuf, hjob, rfl⟩ := hfill
  · have horigin : r.origin = .toEnd := by simp only [Receiver.origin, hjob]
    have htext : push_stream_string (reset_stream old) SOCKETSHUTDOWN none = Use.shutdown.run old := rfl
    rw [htext, text_eq_shutdown_iff (Use.shutdown.cellOk_run hold), Use.shutdown.buffer_run hold,
      horigin]
    exact iff_of_true (List.take_left' rfl) (Or.inl rfl)
  · have horigin : r.origin = .data (lpBuf.take MSGINITSIZE) old.buffer := by
      simp only [Receiver.origin, hjob, hcur, hreset]
      rfl
    rw [text_eq_shutdown_iff (copy_stream_reset hold lpBuf).1, buffer_copy_stream hold, horigin]
    constructor
    · exact Or.inr
    · rintro (hend | hspells)
      · cases hend
      · exact hspells

/-! ## What is in the queue -/

/-- The cell holds the shutdown text exactly when it was filled with something that closes. -/
def Carries (cells : Cell → CAT2DOGIOMSG) (c : Cell) (o : Origin) : Prop :=
  (cells c).hStream.text = SOCKETSHUTDOWN ↔ o.Closes

/-- What holds between the steps, with the positions of `RingInv`. A published cell that the IO
thread has not advanced over still holds what it was filled with. -/
structure WatchInv (s : Watched) (G P T : Nat) (done : List Ptr) : Prop where
  ring : RingInv s.recv.ring G P T done
  cells : CellsInv s.recv
  length : s.sent.length = s.recv.ring.published.length
  queued : ∀ k c, done.length ≤ k → s.recv.ring.published[k]? = some (some c) →
    ∃ o, s.sent[k]? = some o ∧ Carries s.recv.cells c o
  stored : ∀ c, s.recv.ring.recv = .stored (some c) → Carries s.recv.cells c s.filled
  opened : ∀ i, s.lStatus i ≠ .STATUS_IOCMDCLOSE
  decisions : ∀ d ∈ s.decisions, ∃ o, s.sent[d.place]? = some o ∧
    (d.closed = true ↔ d.matched = true ∧ o.Closes)

theorem watchInv_init (align : Cell → Nat) : WatchInv (watchInit align) 0 0 1 [] where
  ring := ringInv_init
  cells := cellsInv_init align
  length := rfl
  queued k c _ h := by cases h
  stored c h := by cases h
  opened i := nofun
  decisions d h := by cases h

section Steps

variable {s s' : Watched} {G P T : Nat} {done : List Ptr}

/-- The cell the IO thread holds is the first one it has not advanced over. -/
theorem WatchInv.processing (h : WatchInv s G P T done) {c : Cell}
    (hio : s.recv.ring.io = .processing (some c)) :
    ∃ o, s.sent[s.recv.ring.processed.length - 1]? = some o ∧ Carries s.recv.cells c o := by
  have hprocessed : s.recv.ring.processed = done ++ [some c] := by
    rw [h.ring.processed_eq, State.beingProcessed, hio]
  have hplace : s.recv.ring.processed.length - 1 = done.length := by
    rw [hprocessed, List.length_append]
    rfl
  rw [hplace]
  refine h.queued done.length c (Nat.le_refl _) ?_
  rw [h.ring.published_eq_append, hprocessed, List.append_assoc,
    List.getElem?_append_right (Nat.le_refl _), Nat.sub_self]
  rfl

/-- A step of the receiver that publishes nothing and does not touch the cells in the queue. -/
theorem WatchInv.next (h : WatchInv s G P T done) {recv : Receiver} {filled : Origin}
    {G' P' T' : Nat} {done' : List Ptr} (hring : RingInv recv.ring G' P' T' done')
    (hcells : CellsInv recv) (hpublished : recv.ring.published = s.recv.ring.published)
    (hdone : done.length ≤ done'.length)
    (htext : ∀ c, some c ∈ s.recv.ring.queued →
      (recv.cells c).hStream.text = (s.recv.cells c).hStream.text)
    (hstored : ∀ c, recv.ring.recv = .stored (some c) → Carries recv.cells c filled) :
    WatchInv { s with recv := recv, filled := filled } G' P' T' done' where
  ring := hring
  cells := hcells
  length := by rw [hpublished, h.length]
  queued k c hk hc := by
    have hc' : s.recv.ring.published[k]? = some (some c) := by rw [← hpublished]; exact hc
    obtain ⟨o, ho, hcarries⟩ := h.queued k c (hdone.trans hk) hc'
    refine ⟨o, ho, ?_⟩
    have hqueued : some c ∈ s.recv.ring.queued := by
      rw [h.ring.published_eq, ← h.ring.queued_eq,
        List.getElem?_append_right (hdone.trans hk)] at hc'
      exact List.mem_of_getElem? hc'
    show (recv.cells c).hStream.text = SOCKETSHUTDOWN ↔ o.Closes
    rw [htext c hqueued]
    exact hcarries
  stored := hstored
  opened := h.opened
  decisions := h.decisions

/-- A step between two jobs, which touches neither the ring nor the cells. -/
theorem WatchInv.between (h : WatchInv s G P T done) {recv : Receiver} (hcells : CellsInv recv)
    (hring : recv.ring = s.recv.ring) (hsame : recv.cells = s.recv.cells) :
    WatchInv { s with recv := recv } G P T done := by
  refine h.next (by rw [hring]; exact h.ring) hcells (by rw [hring]) (Nat.le_refl _)
    (fun c _ => by rw [hsame]) fun c hc => ?_
  rw [hring] at hc
  rw [hsame]
  exact h.stored c hc

theorem WatchInv.setStatus (h : WatchInv s G P T done) {lStatus : Slot → CLIENTSTATUS}
    {check : CheckPc} {calls : List Slot} (hopened : ∀ i, lStatus i ≠ .STATUS_IOCMDCLOSE) :
    WatchInv { s with check := check, lStatus := lStatus, FunFreeObj := calls } G P T done :=
  ⟨h.ring, h.cells, h.length, h.queued, h.stored, hopened, h.decisions⟩

theorem WatchInv.opened_update (h : WatchInv s G P T done) (i : Slot) {status : CLIENTSTATUS}
    (hstatus : status ≠ .STATUS_IOCMDCLOSE) :
    ∀ j, Function.update s.lStatus i status j ≠ .STATUS_IOCMDCLOSE := by
  intro j
  by_cases hj : j = i
  · rw [hj, Function.update_self]
    exact hstatus
  · rw [Function.update_of_ne hj]
    exact h.opened j

/-- A decision that follows the text of the cell. -/
theorem WatchInv.conclude (h : WatchInv s G P T done) {c : Cell}
    (hio : s.recv.ring.io = .processing (some c)) {matched closed : Bool}
    (hclosed : closed = true ↔ matched = true ∧ (s.recv.cells c).hStream.text = SOCKETSHUTDOWN) :
    WatchInv (s.conclude matched closed) G P T done := by
  obtain ⟨o, ho, hcarries⟩ := h.processing hio
  refine ⟨h.ring, h.cells, h.length, h.queued, h.stored, h.opened, fun d hd => ?_⟩
  rcases List.mem_append.mp hd with hd | hd
  · exact h.decisions d hd
  · cases List.mem_singleton.mp hd
    exact ⟨o, ho, hclosed.trans (and_congr_right fun _ => hcarries)⟩

theorem WatchInv.session (h : WatchInv s G P T done) {c : Cell}
    (hio : s.recv.ring.io = .processing (some c)) : WatchInv (s.session c) G P T done := by
  unfold Watched.session
  dsimp only
  split
  · exact h.conclude hio (by simp)
  · split
    · next hcmd => exact absurd hcmd (h.opened _)
    · exact h.setStatus h.opened

theorem WatchInv.text (h : WatchInv s G P T done) {c : Cell} {i : Slot}
    (hio : s.recv.ring.io = .processing (some c)) : WatchInv (s.text i c) G P T done := by
  unfold Watched.text
  split
  · next htext =>
      have hclose : WatchInv (s.close i) G P T done :=
        h.setStatus (h.opened_update i nofun)
      exact hclose.conclude hio (iff_of_true rfl ⟨rfl, htext⟩)
  · next htext => exact h.conclude hio (by simpa using htext)

/-! ## The steps of the receiver -/

/-- Only `advancePut` publishes. -/
theorem published_of_step {r r' : State} {a : Action} (h : step r a = some r')
    (ha : a ≠ .advancePut) : r'.published = r.published := by
  cases a with
  | advancePut => exact absurd rfl ha
  | _ =>
      unfold step at h
      dsimp only at h
      repeat' split at h
      all_goals cases h <;> rfl

theorem inputStep_eq_some {a : InputAction} (h : s.inputStep a = some s') :
    ∃ recv, Cat2Dog.inputStep s.recv a = some recv ∧ s' = { s with recv := recv } := by
  rw [Watched.inputStep, Option.map_eq_some_iff] at h
  obtain ⟨recv, hstep, rfl⟩ := h
  exact ⟨recv, hstep, rfl⟩

theorem publish_cells (c : Cell) (r : Receiver) :
    (r.publish c).cells = r.cells ∧ (r.publish c).ring = r.ring := by
  unfold Receiver.publish
  cases r.job with
  | _ => exact ⟨rfl, rfl⟩

theorem taken_of_store {r r' : State} {c : Ptr} (h : step r (.store c) = some r') : c ∈ r.taken := by
  unfold step at h
  dsimp only at h
  split at h
  · split at h
    · next hc => exact hc
    · cases h
  · cases h

/-- A cell in the hands of the receive thread is not in the queue. -/
theorem RingInv.not_queued {r : State} (h : RingInv r G P T done) {c : Ptr} (hc : c ∈ r.inHand) :
    c ∉ r.queued := by
  have hnodup := h.perm_allCells.nodup_iff.mpr nodup_allCells
  intro hqueued
  exact List.disjoint_of_nodup_append (List.Nodup.of_append_right hnodup) hqueued hc

/-- A step of the IO thread in the ring. -/
theorem WatchInv.io (h : WatchInv s G P T done) {r : Receiver} {a : Action}
    (hring : s.recv.ringStep a = some r) (ha : a = .ioTest ∨ a = .ioRead ∨ a = .ioAdvance) :
    ∃ G' done', WatchInv { s with recv := r } G' P T done' := by
  obtain ⟨ring, hstep, rfl⟩ := ringStep_eq_some hring
  have hcells := h.cells.io ha hring
  have hrecv := recv_io ha hstep
  have hpublished : ring.published = s.recv.ring.published :=
    published_of_step hstep (by rcases ha with rfl | rfl | rfl <;> exact nofun)
  have hstored : ∀ c, ring.recv = .stored (some c) → Carries s.recv.cells c s.filled := by
    intro c hc
    exact h.stored c (hrecv.symm.trans hc)
  rcases ha with rfl | rfl | rfl
  · exact ⟨G, done, h.next (ringInv_ioTest h.ring hstep) hcells hpublished (Nat.le_refl _)
      (fun _ _ => rfl) hstored⟩
  · exact ⟨G, done, h.next (ringInv_ioRead h.ring hstep) hcells hpublished (Nat.le_refl _)
      (fun _ _ => rfl) hstored⟩
  · obtain ⟨c, hafter⟩ := ringInv_ioAdvance h.ring hstep
    exact ⟨G + 1, done ++ [c], h.next hafter hcells hpublished
      (by rw [List.length_append]; exact Nat.le_add_right _ _) (fun _ _ => rfl) hstored⟩

theorem WatchInv.test (h : WatchInv s G P T done) {r : Receiver}
    (hstep : inputStep s.recv .test = some r) : WatchInv { s with recv := r } G P T done := by
  have hcells := h.cells.test hstep
  obtain ⟨i, ring, -, -, htest, -, hafter⟩ := inputStep_test hstep
  have hsame : r.ring = ring ∧ r.cells = s.recv.cells ∧ ∀ c, ring.recv ≠ .stored c := by
    obtain ⟨hfull, rfl⟩ | ⟨-, hroom, rfl⟩ := hafter
    · obtain ⟨hleft, -, hring, -⟩ := leave_cells { s.recv with ring := ring }
      exact ⟨hring, hleft, fun c => by rw [hfull]; exact nofun⟩
    · exact ⟨rfl, rfl, fun c => by rw [hroom]; exact nofun⟩
  obtain ⟨rfl, hkept, hnone⟩ := hsame
  exact h.next (ringInv_testFull h.ring htest) hcells (published_of_step htest nofun)
    (Nat.le_refl _) (fun c _ => by rw [hkept]) fun c hc => absurd hc (hnone (some c))

/-- A cell that is taken keeps its text. -/
theorem WatchInv.take (h : WatchInv s G P T done) {r : Receiver}
    (hstep : inputStep s.recv .take = some r) : WatchInv { s with recv := r } G P (T + 1) done := by
  have hcells := h.cells.take hstep
  obtain ⟨i, c, ring, -, htake, rfl⟩ := inputStep_take hstep
  obtain ⟨-, hidle⟩ := take_eq_some htake
  refine h.next (ringInv_take h.ring htake) hcells (published_of_step htake nofun) (Nat.le_refl _)
    (fun d _ => ?_) fun d hd => ?_
  · show (Function.update s.recv.cells c _ d).hStream.text = _
    by_cases hd : d = c
    · subst hd
      rw [Function.update_self]
      rfl
    · rw [Function.update_of_ne hd]
  · have hd' : ring.recv = .stored (some d) := hd
    rw [hidle] at hd'
    cases hd'

/-- The cell in hand is not in the queue; it is filled. -/
theorem WatchInv.store (h : WatchInv s G P T done) {r : Receiver}
    (hstep : inputStep s.recv .store = some r) :
    WatchInv { s with recv := r, filled := s.recv.origin } G P T done := by
  have hcells := h.cells.store hstep
  obtain ⟨i, c, ring, st, job, hcur, hstore, hfill, rfl⟩ := inputStep_store hstep
  have hidle := (h.cells.hand i c hcur).2.1
  have htaken : some c ∈ s.recv.ring.inHand := by
    rw [State.inHand, hidle]
    exact taken_of_store hstore
  have hnotin : some c ∉ s.recv.ring.queued := h.ring.not_queued htaken
  refine h.next (ringInv_store h.ring hstore) hcells (published_of_step hstore fun hput => by cases hput)
    (Nat.le_refl _) (fun d hd => ?_) fun d hd => ?_
  · have hne : d ≠ c := by
      rintro rfl
      exact hnotin hd
    show (Function.update s.recv.cells c _ d).hStream.text = _
    rw [Function.update_of_ne hne]
  · have hd' : ring.recv = .stored (some d) := hd
    rw [(store_eq_some hstore).2] at hd'
    cases hd'
    show (Function.update s.recv.cells c _ c).hStream.text = SOCKETSHUTDOWN ↔ s.recv.origin.Closes
    rw [Function.update_self]
    refine text_filled h.cells hcur ?_
    obtain ⟨hjob, -, hst⟩ | ⟨lpBuf, hjob, -, hst⟩ := hfill
    · exact Or.inl ⟨hjob, hst⟩
    · exact Or.inr ⟨lpBuf, hjob, hst⟩

/-- The published cell is the last one of the queue. -/
theorem WatchInv.publish (h : WatchInv s G P T done) {r : Receiver}
    (hstep : inputStep s.recv .publish = some r) :
    WatchInv { s with recv := r, sent := s.sent ++ [s.filled] } G (P + 1) T done := by
  have hcells := h.cells.publish hstep
  obtain ⟨c, ring, hstored, hadvance, rfl⟩ := inputStep_publish hstep
  obtain ⟨hsame, hring'⟩ := publish_cells c { s.recv with ring := ring }
  have hidle := advancePut_eq_some hadvance
  have hpublished : ring.published = s.recv.ring.published ++ [some c] := by
    simp only [step, hstored] at hadvance
    cases hadvance
    rfl
  have hlength := h.length
  -- the published cell is the last place of the queue; the places before it are as they were
  refine ⟨by rw [hring']; exact ringInv_advancePut h.ring hadvance, hcells, ?_, fun k d hk hd => ?_,
    fun d hd => ?_, h.opened, fun d hd => ?_⟩
  · show (s.sent ++ [s.filled]).length = _
    rw [hring', hpublished, List.length_append, List.length_append, hlength]
    rfl
  · rw [hring', hpublished] at hd
    show ∃ o, (s.sent ++ [s.filled])[k]? = some o ∧ Carries (Receiver.publish c _).cells d o
    rw [hsame]
    by_cases hlt : k < s.recv.ring.published.length
    · rw [List.getElem?_append_left hlt] at hd
      rw [List.getElem?_append_left (by omega)]
      exact h.queued k d hk hd
    · rw [List.getElem?_append_right (by omega), List.getElem?_singleton] at hd
      split at hd
      · next hzero =>
          cases hd
          refine ⟨s.filled, ?_, h.stored c hstored⟩
          rw [List.getElem?_append_right (by omega), hlength, hzero]
          rfl
      · cases hd
  · rw [hring'] at hd
    cases hidle.symm.trans hd
  · obtain ⟨o, ho, hclosed⟩ := h.decisions d hd
    refine ⟨o, ?_, hclosed⟩
    show (s.sent ++ [s.filled])[d.place]? = some o
    rw [List.getElem?_append_left (List.getElem?_eq_some_iff.mp ho).1]
    exact ho

/-- A new client, one that is freed, a received buffer and a closed client leave the ring and the cells
alone. -/
theorem cells_of_between {r r' : Receiver} {a : InputAction} {i : Slot}
    (ha : a = .accept i ∨ a = .recycle i ∨ a = .toEnd i ∨ ∃ buf, a = .recv i buf)
    (h : Cat2Dog.inputStep r a = some r') : r'.ring = r.ring ∧ r'.cells = r.cells := by
  rcases ha with rfl | rfl | rfl | ⟨buf, rfl⟩
  all_goals
    simp only [Cat2Dog.inputStep] at h
    split at h
    · cases h
      exact ⟨rfl, rfl⟩
    · cases h

theorem WatchInv.between_input (h : WatchInv s G P T done) {a : InputAction} {i : Slot}
    (ha : a = .accept i ∨ a = .recycle i ∨ a = .toEnd i ∨ ∃ buf, a = .recv i buf)
    (hstep : s.inputStep a = some s') : WatchInv s' G P T done := by
  obtain ⟨r, hr, rfl⟩ := inputStep_eq_some hstep
  obtain ⟨hring, hsame⟩ := cells_of_between ha hr
  exact h.between (h.cells.step hr) hring hsame

/-- A client that is new, freed or closed gets a status other than `STATUS_IOCMDCLOSE` with it. -/
theorem WatchInv.between_status (h : WatchInv s G P T done) {a : InputAction} {i : Slot}
    {t : Watched} (ha : a = .accept i ∨ a = .recycle i ∨ a = .toEnd i ∨ ∃ buf, a = .recv i buf)
    (hstep : s.inputStep a = some t) :
    WatchInv { t with lStatus := Function.update t.lStatus i .STATUS_UNKNOWN } G P T done := by
  have hafter := h.between_input ha hstep
  exact hafter.setStatus (hafter.opened_update i fun hclose => by cases hclose)

/-- One step. -/
theorem WatchInv.step (h : WatchInv s G P T done) {a : WatchAction}
    (hstep : watchStep s a = some s') : ∃ G' P' T' done', WatchInv s' G' P' T' done' := by
  cases a with
  | ioSession =>
      simp only [watchStep] at hstep
      split at hstep
      · next hio _ =>
          cases hstep
          exact ⟨G, P, T, done, h.session hio⟩
      · cases hstep
  | ioText =>
      simp only [watchStep] at hstep
      split at hstep
      · next hio _ =>
          cases hstep
          exact ⟨G, P, T, done, h.text hio⟩
      · cases hstep
  | input a =>
      cases a with
      | accept i =>
          simp only [watchStep, Option.map_eq_some_iff] at hstep
          obtain ⟨t, ht, rfl⟩ := hstep
          exact ⟨G, P, T, done, h.between_status (Or.inl rfl) ht⟩
      | recycle i =>
          simp only [watchStep] at hstep
          split at hstep
          · obtain ⟨t, ht, rfl⟩ := Option.map_eq_some_iff.mp hstep
            exact ⟨G, P, T, done, h.between_status (Or.inr (Or.inl rfl)) ht⟩
          · cases hstep
      | recv i buf =>
          exact ⟨G, P, T, done, h.between_input (Or.inr (Or.inr (Or.inr ⟨buf, rfl⟩))) hstep⟩
      | toEnd i =>
          simp only [watchStep, Option.map_eq_some_iff] at hstep
          obtain ⟨t, ht, rfl⟩ := hstep
          exact ⟨G, P, T, done, h.between_status (Or.inr (Or.inr (Or.inl rfl))) ht⟩
      | test =>
          obtain ⟨r, hr, rfl⟩ := inputStep_eq_some hstep
          exact ⟨G, P, T, done, h.test hr⟩
      | take =>
          obtain ⟨r, hr, rfl⟩ := inputStep_eq_some hstep
          exact ⟨G, P, T + 1, done, h.take hr⟩
      | store =>
          simp only [watchStep, Option.map_eq_some_iff] at hstep
          obtain ⟨t, ht, rfl⟩ := hstep
          obtain ⟨r, hr, rfl⟩ := inputStep_eq_some ht
          exact ⟨G, P, T, done, h.store hr⟩
      | publish =>
          simp only [watchStep, Option.map_eq_some_iff] at hstep
          obtain ⟨t, ht, rfl⟩ := hstep
          obtain ⟨r, hr, rfl⟩ := inputStep_eq_some ht
          exact ⟨G, P + 1, T, done, h.publish hr⟩
      -- the IO thread moves on in the ring and decides in its own two steps
      | ioTest =>
          obtain ⟨r, hr, rfl⟩ := inputStep_eq_some hstep
          obtain ⟨G', done', hafter⟩ := h.io hr (Or.inl rfl)
          exact ⟨G', P, T, done', hafter⟩
      | ioRead =>
          simp only [watchStep, Option.map_eq_some_iff] at hstep
          obtain ⟨t, ht, rfl⟩ := hstep
          obtain ⟨r, hr, rfl⟩ := inputStep_eq_some ht
          obtain ⟨G', done', hafter⟩ := h.io hr (Or.inr (Or.inl rfl))
          exact ⟨G', P, T, done', hafter.setStatus hafter.opened⟩
      | ioAdvance =>
          simp only [watchStep] at hstep
          split at hstep
          · rw [Option.map_eq_some_iff] at hstep
            obtain ⟨t, ht, rfl⟩ := hstep
            obtain ⟨r, hr, rfl⟩ := inputStep_eq_some ht
            obtain ⟨G', done', hafter⟩ := h.io hr (Or.inr (Or.inr rfl))
            exact ⟨G', P, T, done', hafter.setStatus hafter.opened⟩
          · cases hstep

end Steps

/-- **What a decision depends on**, in every run: the close branch is taken for a cell of the client's
session that was filled with something that closes. -/
theorem decided {align : Cell → Nat} {s : Watched}
    (hrun : Reach watchStep AnyStep (watchInit align) s) {d : Decision} (hd : d ∈ s.decisions) :
    ∃ o, s.sent[d.place]? = some o ∧ (d.closed = true ↔ d.matched = true ∧ o.Closes) := by
  have h : ∃ G P T done, WatchInv s G P T done := by
    refine hrun.invariant (P := fun s => ∃ G P T done, WatchInv s G P T done)
      ⟨0, 0, 1, [], watchInv_init align⟩ ?_
    rintro s a s' ⟨G, P, T, done, h⟩ - hstep
    exact h.step hstep
  obtain ⟨G, P, T, done, h⟩ := h
  exact h.decisions d hd

/-- **When only genuine shutdowns close a session**: in a run, exactly when no cell of a live session
was filled with a chunk that spelled the shutdown text with what was left in the cell. -/
theorem only_shutdowns_close {align : Cell → Nat} {s : Watched}
    (hrun : Reach watchStep AnyStep (watchInit align) s) :
    OnlyShutdownsClose s ↔ ∀ d ∈ s.decisions, d.matched = true →
      ∀ o, s.sent[d.place]? = some o → ¬o.SpellsShutdown := by
  constructor
  · intro h d hd hmatched o ho hspells
    obtain ⟨o', ho', hclosed⟩ := decided hrun hd
    rw [ho] at ho'
    cases ho'
    obtain ⟨hend, -⟩ := (h d hd).mp (hclosed.mpr ⟨hmatched, Or.inr hspells⟩)
    rw [ho] at hend
    cases hend
    exact hspells
  · intro h d hd
    obtain ⟨o, ho, hclosed⟩ := decided hrun hd
    rw [hclosed, ho]
    constructor
    · rintro ⟨hmatched, rfl | hspells⟩
      · exact ⟨rfl, hmatched⟩
      · exact absurd hspells (h d hd hmatched o ho)
    · rintro ⟨hend, hmatched⟩
      cases hend
      exact ⟨hmatched, Or.inl rfl⟩

/-- A client that goes away closes its session. -/
theorem only_shutdowns_close_end : ∃ s, Reach watchStep AnyStep (watchInit fun _ => 0) s ∧
    s.decisions = [{ place := 0, matched := true, closed := true }] ∧ OnlyShutdownsClose s := by
  have hexec : (execAll watchStep [.input (.accept 0), .input (.toEnd 0), .input .test, .input .take,
      .input .store, .input .publish, .input .ioTest, .input .ioRead, .ioSession, .ioText]
      (watchInit fun _ => 0)).map (fun s => (s.decisions, s.sent)) =
        some ([{ place := 0, matched := true, closed := true }], [.toEnd]) := by
    decide +kernel
  obtain ⟨s, hs, hafter⟩ := Option.map_eq_some_iff.mp hexec
  obtain ⟨hdecisions, hsent⟩ := Prod.mk.inj hafter
  refine ⟨s, reach_of_execAll hs, hdecisions, (only_shutdowns_close (reach_of_execAll hs)).mpr ?_⟩
  intro d hd _ o ho
  rw [hdecisions] at hd
  cases List.mem_singleton.mp hd
  rw [hsent] at ho
  cases ho
  exact id

/-- A client that sends the sixteen bytes of the shutdown text closes its session. -/
theorem data_closes : ∃ s, Reach watchStep AnyStep (watchInit fun _ => 0) s ∧
    ¬OnlyShutdownsClose s := by
  have hexec : (execAll watchStep [.input (.accept 0), .input (.recv 0 SOCKETSHUTDOWN.chars),
      .input .test, .input .take, .input .store, .input .publish, .input .ioTest, .input .ioRead,
      .ioSession, .ioText] (watchInit fun _ => 0)).map
        (fun s => (s.decisions, s.sent.map fun o => decide (o = .toEnd))) =
          some ([{ place := 0, matched := true, closed := true }], [false]) := by
    decide +kernel
  obtain ⟨s, hs, hafter⟩ := Option.map_eq_some_iff.mp hexec
  obtain ⟨hdecisions, hsent⟩ := Prod.mk.inj hafter
  refine ⟨s, reach_of_execAll hs, fun h => ?_⟩
  obtain ⟨hend, -⟩ := (h _ (by rw [hdecisions]; exact List.mem_singleton_self _)).mp rfl
  have hdata : (s.sent.map fun o => decide (o = .toEnd))[0]? = some true := by
    rw [List.getElem?_map, hend]
    rfl
  rw [hsent] at hdata
  cases hdata

/-! ## One decision for each cell -/

/-- The IO thread has read a cell and not decided on it. -/
def CheckPc.pending : CheckPc → Bool
  | session => true
  | text _ => true
  | _ => false

/-- The decisions are those on the cells read so far, in order, and `FunFreeObj` was called for those
that close. -/
structure Counted (s : Watched) : Prop where
  reading : s.check.pending = true → ∃ c, s.recv.ring.io = .processing c
  places : s.decisions.map Decision.place = List.range s.decisions.length
  length : s.decisions.length + s.check.pending.toNat = s.recv.ring.processed.length
  calls : s.FunFreeObj.length = s.decisions.countP Decision.closed

section Count

variable {s s' : Watched}

theorem counted_init (align : Cell → Nat) : Counted (watchInit align) :=
  ⟨nofun, rfl, rfl, rfl⟩

theorem Counted.conclude (h : Counted s) (hpending : s.check.pending = true) {calls : List Slot}
    {lStatus : Slot → CLIENTSTATUS} {matched closed : Bool}
    (hcalls : calls.length = s.FunFreeObj.length + closed.toNat) :
    Counted (Watched.conclude matched closed { s with lStatus := lStatus, FunFreeObj := calls }) := by
  have hlength := h.length
  rw [hpending, Bool.toNat_true] at hlength
  refine ⟨nofun, ?_, ?_, ?_⟩
  · show (s.decisions ++ [_]).map Decision.place = List.range (s.decisions ++ [_]).length
    rw [List.map_append, h.places, List.length_append, List.length_singleton, List.range_succ]
    show _ ++ [s.recv.ring.processed.length - 1] = _
    rw [← hlength, Nat.add_sub_cancel]
  · show (s.decisions ++ [_]).length + 0 = s.recv.ring.processed.length
    rw [List.length_append, List.length_singleton, hlength]
  · show calls.length = (s.decisions ++ [_]).countP Decision.closed
    rw [hcalls, h.calls, List.countP_append]
    cases closed <;> rfl

theorem Counted.session (h : Counted s) (hpending : s.check.pending = true) (c : Cell) :
    Counted (s.session c) := by
  unfold Watched.session
  dsimp only
  split
  · exact h.conclude hpending rfl
  · split
    · exact h.conclude hpending rfl
    · refine ⟨fun _ => h.reading hpending, h.places, ?_, h.calls⟩
      rw [← h.length, hpending]
      rfl

theorem Counted.text (h : Counted s) (hpending : s.check.pending = true) (i : Slot) (c : Cell) :
    Counted (s.text i c) := by
  unfold Watched.text
  split
  · exact h.conclude hpending List.length_append
  · exact h.conclude hpending rfl

/-- A step in which the IO thread does not move. -/
theorem Counted.still (h : Counted s) {recv : Receiver} {filled : Origin} {sent : List Origin}
    {lStatus : Slot → CLIENTSTATUS} (hio : recv.ring.io = s.recv.ring.io)
    (hprocessed : recv.ring.processed = s.recv.ring.processed) :
    Counted { s with recv := recv, filled := filled, sent := sent, lStatus := lStatus } := by
  refine ⟨fun hpending => ?_, h.places, ?_, h.calls⟩
  · rw [hio]
    exact h.reading hpending
  · rw [hprocessed]
    exact h.length

/-- The receive thread does not move the IO thread. -/
theorem io_of_step {r r' : State} {a : Action} (h : step r a = some r')
    (ha : a ≠ .ioTest ∧ a ≠ .ioRead ∧ a ≠ .ioAdvance) :
    r'.io = r.io ∧ r'.processed = r.processed := by
  cases a with
  | ioTest => exact absurd rfl ha.1
  | ioRead => exact absurd rfl ha.2.1
  | ioAdvance => exact absurd rfl ha.2.2
  | _ =>
      unfold step at h
      dsimp only at h
      repeat' split at h
      all_goals cases h <;> exact ⟨rfl, rfl⟩

/-- What a step of the receiver does to the ring. -/
theorem ring_of_inputStep {r r' : Receiver} {a : InputAction} (h : inputStep r a = some r')
    (ha : a ≠ .ioTest ∧ a ≠ .ioRead ∧ a ≠ .ioAdvance) :
    r'.ring.io = r.ring.io ∧ r'.ring.processed = r.ring.processed := by
  cases a with
  | ioTest => exact absurd rfl ha.1
  | ioRead => exact absurd rfl ha.2.1
  | ioAdvance => exact absurd rfl ha.2.2
  | test =>
      obtain ⟨i, ring, -, -, htest, -, hafter⟩ := inputStep_test h
      have hsame := io_of_step htest ⟨nofun, nofun, nofun⟩
      obtain ⟨-, rfl⟩ | ⟨-, -, rfl⟩ := hafter
      · rw [(leave_cells _).2.2.1]
        exact hsame
      · exact hsame
  | take =>
      obtain ⟨i, c, ring, -, htake, rfl⟩ := inputStep_take h
      exact io_of_step htake ⟨nofun, nofun, nofun⟩
  | store =>
      obtain ⟨i, c, ring, st, job, -, hstore, -, rfl⟩ := inputStep_store h
      exact io_of_step hstore ⟨nofun, nofun, nofun⟩
  | publish =>
      obtain ⟨c, ring, -, hadvance, rfl⟩ := inputStep_publish h
      rw [(publish_cells _ _).2]
      exact io_of_step hadvance ⟨nofun, nofun, nofun⟩
  | _ =>
      simp only [inputStep] at h
      split at h
      · cases h
        exact ⟨rfl, rfl⟩
      · cases h

/-- Without a cell in its hands the IO thread has decided on all it read. -/
theorem Counted.not_pending (h : Counted s) (hio : ∀ c, s.recv.ring.io ≠ .processing c) :
    s.check.pending = false := by
  cases hpending : s.check.pending with
  | false => rfl
  | true =>
      obtain ⟨c, hc⟩ := h.reading hpending
      exact absurd hc (hio c)

theorem Counted.ioTest (h : Counted s) {r : Receiver} (hstep : s.recv.ringStep .ioTest = some r) :
    Counted { s with recv := r } := by
  obtain ⟨ring, htest, rfl⟩ := ringStep_eq_some hstep
  unfold step at htest
  dsimp only at htest
  split at htest
  · next hidle =>
      have hnone : s.check.pending = false := h.not_pending (by rw [hidle]; exact nofun)
      have hprocessed : ring.processed = s.recv.ring.processed := by
        split at htest
        all_goals cases htest; rfl
      refine ⟨fun hpending => ?_, h.places, by rw [hprocessed]; exact h.length, h.calls⟩
      rw [hnone] at hpending
      cases hpending
  · cases htest

theorem Counted.ioRead (h : Counted s) {r : Receiver} (hstep : s.recv.ringStep .ioRead = some r) :
    Counted { s with recv := r, check := .session } := by
  obtain ⟨ring, hread, rfl⟩ := ringStep_eq_some hstep
  unfold step at hread
  dsimp only at hread
  split at hread
  · next hfound =>
      have hlength := h.length
      rw [h.not_pending (by rw [hfound]; exact nofun)] at hlength
      cases hread
      refine ⟨fun _ => ⟨_, rfl⟩, h.places, ?_, h.calls⟩
      show s.decisions.length + 1 = (s.recv.ring.processed ++ [_]).length
      rw [List.length_append, ← hlength]
      rfl
  · cases hread

theorem Counted.ioAdvance (h : Counted s) {r : Receiver} (hover : s.check = .over)
    (hstep : s.recv.ringStep .ioAdvance = some r) : Counted { s with recv := r, check := .none } := by
  obtain ⟨ring, hadvance, rfl⟩ := ringStep_eq_some hstep
  unfold step at hadvance
  dsimp only at hadvance
  have hlength := h.length
  rw [hover] at hlength
  split at hadvance
  · cases hadvance
    exact ⟨nofun, h.places, hlength, h.calls⟩
  · cases hadvance

theorem Counted.step (h : Counted s) {a : WatchAction} (hstep : watchStep s a = some s') :
    Counted s' := by
  cases a with
  | ioSession =>
      simp only [watchStep] at hstep
      split at hstep
      · next c _ hcheck =>
          cases hstep
          exact h.session (by rw [hcheck]; rfl) c
      · cases hstep
  | ioText =>
      simp only [watchStep] at hstep
      split at hstep
      · next c i _ hcheck =>
          cases hstep
          exact h.text (by rw [hcheck]; rfl) i c
      · cases hstep
  | input a =>
      cases a with
      | ioTest =>
          obtain ⟨r, hr, rfl⟩ := inputStep_eq_some hstep
          exact h.ioTest hr
      | ioRead =>
          simp only [watchStep, Option.map_eq_some_iff] at hstep
          obtain ⟨t, ht, rfl⟩ := hstep
          obtain ⟨r, hr, rfl⟩ := inputStep_eq_some ht
          exact h.ioRead hr
      | ioAdvance =>
          simp only [watchStep] at hstep
          split at hstep
          · next hover =>
              rw [Option.map_eq_some_iff] at hstep
              obtain ⟨t, ht, rfl⟩ := hstep
              obtain ⟨r, hr, rfl⟩ := inputStep_eq_some ht
              exact h.ioAdvance hover hr
          · cases hstep
      | recycle i =>
          simp only [watchStep] at hstep
          split at hstep
          · rw [Option.map_eq_some_iff] at hstep
            obtain ⟨t, ht, rfl⟩ := hstep
            obtain ⟨r, hr, rfl⟩ := inputStep_eq_some ht
            obtain ⟨hio, hprocessed⟩ := ring_of_inputStep hr ⟨nofun, nofun, nofun⟩
            exact h.still hio hprocessed
          · cases hstep
      -- no other step of the receive thread touches what the IO thread has processed
      | _ =>
          obtain ⟨t, ht, hs'⟩ : ∃ t, s.inputStep _ = some t ∧ _ := by
            first
            | exact Option.map_eq_some_iff.mp hstep
            | exact ⟨s', hstep, rfl⟩
          obtain ⟨r, hr, rfl⟩ := inputStep_eq_some ht
          obtain ⟨hio, hprocessed⟩ := ring_of_inputStep hr ⟨nofun, nofun, nofun⟩
          cases hs'
          exact h.still hio hprocessed

end Count

/-- **Every cell is decided on once**: in every run the decisions are, in order, those on the cells
the IO thread read, but for the one it is at, and `FunFreeObj` was called once for each that closes. -/
theorem decided_once {align : Cell → Nat} {s : Watched}
    (hrun : Reach watchStep AnyStep (watchInit align) s) : Counted s :=
  hrun.invariant (counted_init align) fun _ _ _ h _ hstep => h.step hstep

end Cat2Dog

end Netflow
