import Netflow.Cat2Dog.Input

set_option autoImplicit false

/-! # A received buffer in cells

The `while` loop of `ClientRecSndThread` over `CliRecSocketBuf`, run to its end while the IO thread does
not move `uiIoGetMsgIndex`. Its turns are made of the steps of the receive thread; a copy that would
write outside the block of its cell is undefined behaviour here and gives `none`, and so does a loop
that makes more turns than it is given.
-/

namespace Netflow

namespace Cat2Dog

/-- `copy_stream` writes inside the block of the stream. -/
def CopiesInside (lpBuf : List Byte) (st : Stream) : Prop :=
  st.chunk_ptr + toUInt (min (st.chunk_buf + st.size - st.chunk_ptr) lpBuf.length) ≤ st.block.length

instance (lpBuf : List Byte) (st : Stream) : Decidable (CopiesInside lpBuf st) :=
  inferInstanceAs (Decidable (_ ≤ _))

namespace Receiver

/-- The copy into the cell in hand. -/
def storeInside (i : Slot) (lpBuf : List Byte) (r : Receiver) : Option Receiver := do
  let c ← r.pCurCat2DogIOMsg i
  if CopiesInside lpBuf (r.cells c).hStream then inputStep r .store else none

/-- A turn of the loop. With no cell in hand it tests for one first, and may be left there. -/
def splitTurn (r : Receiver) : Option Receiver :=
  match r.job with
  | .data i lpBuf =>
      if r.pCurCat2DogIOMsg i = none then do
        let r ← inputStep r .test
        if r.job = .idle then some r
        else do
          let r ← inputStep r .take
          let r ← r.storeInside i lpBuf
          inputStep r .publish
      else do
        let r ← r.storeInside i lpBuf
        inputStep r .publish
  | _ => none

/-- The loop, for at most a number of turns. -/
def splitLoop : Nat → Receiver → Option Receiver
  | 0, _ => none
  | turns + 1, r => if r.job = .idle then some r else r.splitTurn.bind (splitLoop turns)

end Receiver

/-- The cells that a buffer of a length needs. -/
def cellsFor (len : Nat) : Nat := (len + 1023) / 1024

/-- The `k`-th chunk of a buffer. -/
def bufferChunk (buf : List Byte) (k : Nat) : List Byte := (buf.drop (1024 * k)).take 1024

/-- From `r` to `r'` the first `n` chunks of a buffer of the client were published, each in a cell of
its own that carries the session of the client, and nothing else was written. -/
structure SplitInto (r r' : Receiver) (i : Slot) (buf : List Byte) (n : Nat) (cs : List Cell) :
    Prop where
  length : cs.length = n
  nodup : cs.Nodup
  fresh : ∀ c ∈ cs, some c ∉ r.ring.queued
  published : r'.published = r.published ++
    (List.range n).map fun k => (r.conn i, bufferChunk buf k)
  ring : r'.ring.published = r.ring.published ++ cs.map some
  cells : ∀ k c, cs[k]? = some c → (r'.cells c).iSessionID = r.conn i % 4294967296 ∧
    (r'.cells c).pClientInfo = i ∧ chunkOf (r'.cells c).hStream = bufferChunk buf k
  others : ∀ c, c ∉ cs → r'.cells c = r.cells c
  shape : ∀ c, CellOk (r'.cells c).hStream
  cur : ∀ j, r'.pCurCat2DogIOMsg j = none
  io : r'.ring.uiIoGetMsgIndex = r.ring.uiIoGetMsgIndex

/-! ## The cells in hand -/

/-- A taken cell is in the hand of one client, and there is one at most. -/
def HandTaken (r : Receiver) : Prop :=
  (r.ring.taken = [] ∧ ∀ i, r.pCurCat2DogIOMsg i = none) ∨
    ∃ i c, r.ring.taken = [some c] ∧ r.pCurCat2DogIOMsg = Function.update (fun _ => none) i (some c)

section Hand

/-- Only a take and a store change which cells are taken. -/
theorem taken_step {s s' : State} {a : Action} (h : step s a = some s') (htake : a ≠ .take)
    (hstore : ∀ c, a ≠ .store c) : s'.taken = s.taken := by
  cases a with
  | take => exact absurd rfl htake
  | store c => exact absurd rfl (hstore c)
  | testFull =>
      simp only [step] at h
      split at h
      · split at h
        · cases h
          rfl
        · cases h
          rfl
      · cases h
  | ioTest =>
      simp only [step] at h
      split at h
      · split at h
        · cases h
          rfl
        · cases h
          rfl
      · cases h
  | advancePut =>
      simp only [step] at h
      split at h
      · cases h
        rfl
      · cases h
  | ioRead =>
      simp only [step] at h
      split at h
      · cases h
        rfl
      · cases h
  | ioAdvance =>
      simp only [step] at h
      split at h
      · cases h
        rfl
      · cases h

variable {r r' : Receiver}

theorem HandTaken.congr (h : HandTaken r) (htaken : r'.ring.taken = r.ring.taken)
    (hcur : r'.pCurCat2DogIOMsg = r.pCurCat2DogIOMsg) : HandTaken r' := by
  unfold HandTaken
  rw [htaken, hcur]
  exact h

/-- With no cell in hand none is taken. -/
theorem HandTaken.nil (h : HandTaken r) (hcur : ∀ i, r.pCurCat2DogIOMsg i = none) :
    r.ring.taken = [] := by
  obtain ⟨htaken, -⟩ | ⟨i, c, -, heq⟩ := h
  · exact htaken
  · have hi := hcur i
    rw [heq, Function.update_self] at hi
    cases hi

theorem HandTaken.take (h : HandTaken r) (hcells : CellsInv r) (hstep : inputStep r .take = some r') :
    HandTaken r' := by
  simp only [inputStep, Option.bind_eq_bind, Option.bind_eq_some_iff] at hstep
  obtain ⟨i, -, c, hc, r₁, hring, hstep⟩ := hstep
  obtain ⟨ring, htake, rfl⟩ := ringStep_eq_some hring
  cases hstep
  have hroom := (take_eq_some htake).1
  -- a put that holds nothing may take, and then no client holds a cell either
  have hnone := hcells.no_hand (by rw [hroom]; exact fun hidle => by cases hidle)
  have htaken : ring.taken = r.ring.Cat2DogIOMsg r.ring.uiCliGetMsgIndex :: r.ring.taken := by
    simp only [step, hroom, Option.some.injEq] at htake
    rw [← htake]
  refine Or.inr ⟨i, c, ?_, ?_⟩
  · show ring.taken = [some c]
    rw [htaken, hc, h.nil hnone]
  · show Function.update r.pCurCat2DogIOMsg i (some c) = _
    rw [funext hnone]

theorem HandTaken.store (h : HandTaken r) (hstep : inputStep r .store = some r') :
    HandTaken r' := by
  obtain ⟨i, c, ring, st, job, hcur, hstore, -, rfl⟩ := inputStep_store hstep
  have htaken : ring.taken = r.ring.taken.erase (some c) := by
    simp only [step, (store_eq_some hstore).1] at hstore
    split at hstore
    · cases hstore
      rfl
    · cases hstore
  obtain ⟨-, hnone⟩ | ⟨k, d, hd, hk⟩ := h
  · rw [hnone i] at hcur
    cases hcur
  · -- the cell is in one hand only, so the client that stores is the one that took it
    have hik : i = k := by
      by_contra hne
      rw [hk, Function.update_of_ne hne] at hcur
      cases hcur
    subst hik
    rw [hk, Function.update_self] at hcur
    cases hcur
    refine Or.inl ⟨?_, fun j => ?_⟩
    · show ring.taken = []
      rw [htaken, hd, List.erase_cons_head]
    · show Function.update r.pCurCat2DogIOMsg i none j = none
      rw [hk, Function.update_idem]
      by_cases hj : j = i
      · rw [hj, Function.update_self]
      · rw [Function.update_of_ne hj]

theorem HandTaken.io (h : HandTaken r) {a : Action} (ha : a = .ioTest ∨ a = .ioRead ∨ a = .ioAdvance)
    (hstep : r.ringStep a = some r') : HandTaken r' := by
  obtain ⟨ring, hring, rfl⟩ := ringStep_eq_some hstep
  refine h.congr (taken_step hring ?_ ?_) rfl
  · rintro rfl
    simp at ha
  · rintro c rfl
    simp at ha

/-- One step. -/
theorem HandTaken.step (h : HandTaken r) (hcells : CellsInv r) {a : InputAction}
    (hstep : inputStep r a = some r') : HandTaken r' := by
  cases a with
  | take => exact h.take hcells hstep
  | store => exact h.store hstep
  | ioTest => exact h.io (Or.inl rfl) hstep
  | ioRead => exact h.io (Or.inr (Or.inl rfl)) hstep
  | ioAdvance => exact h.io (Or.inr (Or.inr rfl)) hstep
  | test =>
      obtain ⟨i, ring, -, -, htest, -, ⟨-, rfl⟩ | ⟨-, -, rfl⟩⟩ := inputStep_test hstep
      · -- a full ring ends the loop: the flags are left, no cell moves
        obtain ⟨-, hcur, hleft, -⟩ := leave_cells { r with ring := ring }
        refine h.congr ?_ hcur
        rw [hleft]
        exact taken_step htest nofun nofun
      · exact h.congr (taken_step htest nofun nofun) rfl
  | publish =>
      obtain ⟨c, ring, -, hadvance, rfl⟩ := inputStep_publish hstep
      have htaken := taken_step hadvance nofun nofun
      -- `publish` looks at what is left of the buffer, the hands are the same in all cases
      unfold Receiver.publish
      split
      · exact h.congr htaken rfl
      · exact h.congr htaken rfl
      · exact h.congr htaken rfl
  -- the other steps are of the receive thread alone and do not touch the ring
  | _ =>
      simp only [inputStep] at hstep
      split at hstep
      · cases hstep
        exact h.congr rfl rfl
      · cases hstep

end Hand

/-- A step of the receiver makes one step of the ring at most. -/
theorem inputStep_ring {r r' : Receiver} {a : InputAction} (h : inputStep r a = some r') :
    r'.ring = r.ring ∨ ∃ b, step r.ring b = some r'.ring := by
  have hio : ∀ {b}, r.ringStep b = some r' → ∃ b, step r.ring b = some r'.ring := by
    intro b hstep
    obtain ⟨ring, hring, rfl⟩ := ringStep_eq_some hstep
    exact ⟨b, hring⟩
  cases a with
  | ioTest => exact Or.inr (hio h)
  | ioRead => exact Or.inr (hio h)
  | ioAdvance => exact Or.inr (hio h)
  | test =>
      obtain ⟨i, ring, -, -, htest, -, ⟨-, rfl⟩ | ⟨-, -, rfl⟩⟩ := inputStep_test h
      · refine Or.inr ⟨.testFull, ?_⟩
        -- leaving the loop keeps the ring of the test
        rw [(leave_cells { r with ring := ring }).2.2.1]
        exact htest
      · exact Or.inr ⟨.testFull, htest⟩
  | take =>
      obtain ⟨i, c, ring, -, htake, rfl⟩ := inputStep_take h
      exact Or.inr ⟨.take, htake⟩
  | store =>
      obtain ⟨i, c, ring, st, job, -, hstore, -, rfl⟩ := inputStep_store h
      exact Or.inr ⟨.store (some c), hstore⟩
  | publish =>
      obtain ⟨c, ring, -, hadvance, rfl⟩ := inputStep_publish h
      refine Or.inr ⟨.advancePut, ?_⟩
      unfold Receiver.publish
      split
      · exact hadvance
      · exact hadvance
      · exact hadvance
  | _ =>
      simp only [inputStep] at h
      split at h
      · cases h
        exact Or.inl rfl
      · cases h

/-- **Between two jobs** the receive thread has no cell in hand, whatever the two threads did before. -/
theorem resting_reach {align : Cell → Nat} {r : Receiver}
    (h : Reach inputStep AnyStep (inputInit align) r) (hjob : r.job = .idle) :
    ∃ G P done, Resting r G P done := by
  obtain ⟨hcells, hhand, G, P, T, done, hring⟩ := h.invariant
    (P := fun r => CellsInv r ∧ HandTaken r ∧ ∃ G P T done, RingInv r.ring G P T done)
    ⟨cellsInv_init align, Or.inl ⟨rfl, fun _ => rfl⟩, 0, 0, 1, [], ringInv_init⟩
    fun r a r' hr _ hstep => by
      obtain ⟨hcells, hhand, G, P, T, done, hring⟩ := hr
      refine ⟨hcells.step hstep, hhand.step hcells hstep, ?_⟩
      obtain heq | ⟨b, hb⟩ := inputStep_ring hstep
      · rw [heq]
        exact ⟨G, P, T, done, hring⟩
      · exact ringInv_step hring hb
  obtain ⟨hidle, hnone⟩ := hcells.idle hjob
  -- nothing is taken, so the next cell is taken one place behind the put index
  have hhands := hring.hands
  have hinHand : r.ring.inHand = [] := by
    rw [State.inHand, hidle]
    exact hhand.nil hnone
  rw [hinHand, List.length_nil, Nat.add_zero] at hhands
  subst hhands
  exact ⟨G, P, done, ⟨hring, hidle, hnone, hcells.cells⟩, hjob⟩

/-! ## One turn -/

section Turn

variable {r : Receiver} {G P : Nat} {done : List Ptr} {i : Slot} {lpBuf : List Byte}

/-- A chunk that is copied into a stream that was reset stays inside its block. -/
theorem copiesInside_reset {st : Stream} (h : CellOk st) (lpBuf : List Byte) :
    CopiesInside lpBuf (reset_stream st) := by
  have hbuf := h.buf_lt
  show st.chunk_buf + toUInt (min (st.chunk_buf + st.size - st.chunk_buf) lpBuf.length) ≤
    st.block.length
  rw [h.copied_length, h.block_length]
  simp only [MSGINITSIZE, MIN_MALLOC_LEN]
  omega

/-- With room a turn is the four steps. -/
theorem splitTurn_of_turn (h : EmptyHanded r G P done) {c : Cell} {r₁ r₂ r₃ r' : Receiver}
    (hjob : r.job = .data i lpBuf) (hturn : BufferTurn i lpBuf c r r₁ r₂ r₃ r') :
    r.splitTurn = some r' := by
  have hjob₁ : r₁.job ≠ .idle := by
    rw [hturn.job.1]
    exact nofun
  have hstore : r₂.storeInside i lpBuf = some r₃ := by
    have hinside : CopiesInside lpBuf (r₂.cells c).hStream := by
      rw [hturn.stream]
      exact copiesInside_reset (h.cells c) lpBuf
    simp only [Receiver.storeInside, hturn.hand, Option.bind_eq_bind, Option.bind_some,
      if_pos hinside, hturn.store]
  simp only [Receiver.splitTurn, hjob, h.cur i, if_true, hturn.test, if_neg hjob₁, hturn.take,
    hstore, hturn.publish, Option.bind_eq_bind, Option.bind_some]

/-- Without room the loop is left. -/
theorem splitTurn_of_full (h : EmptyHanded r G P done) (hjob : r.job = .data i lpBuf)
    (hfull : G + CAT2DOGIOMSGNUM ≤ P + 2) : r.splitTurn = some r.leave := by
  have hleft := h.ring.free_left
  -- the put index has come to one place before the get index
  have hnext : r.ring.uiCliGetMsgNextIndex = r.ring.uiIoGetMsgIndex := by
    rw [h.ring.next_eq, h.ring.io_eq, show P + 1 + 1 = G + CAT2DOGIOMSGNUM by omega,
      Nat.add_mod_right]
  have hring : step r.ring .testFull = some r.ring := by
    simp only [step, h.recv, if_pos hnext]
  have hslot : r.job.slot = some i := congrArg Job.slot hjob
  have htest : inputStep r .test = some r.leave := by
    have hrecv : r.ring.recv ≠ .room := by
      rw [h.recv]
      exact fun hroom => by cases hroom
    simp only [inputStep, hslot, h.cur i, Receiver.ringStep, hring, Option.bind_eq_bind,
      Option.bind_some, Option.map_some, if_true, if_neg hrecv]
  simp only [Receiver.splitTurn, hjob, h.cur i, if_true, htest, (leave_cells r).2.2.2,
    Option.bind_eq_bind, Option.bind_some]

end Turn

/-! ## The loop -/

section Loop

variable {r r₁ r' : Receiver} {G P : Nat} {done : List Ptr} {i : Slot} {lpBuf : List Byte}

theorem bufferChunk_succ (buf : List Byte) (k : Nat) :
    bufferChunk buf (k + 1) = bufferChunk (buf.drop 1024) k := by
  rw [bufferChunk, bufferChunk, List.drop_drop, Nat.mul_succ, Nat.add_comm]

/-- Nothing is published when the loop is left at once. -/
theorem SplitInto.nil (h : EmptyHanded r G P done) (hcells : r'.cells = r.cells)
    (hcur : r'.pCurCat2DogIOMsg = r.pCurCat2DogIOMsg) (hring : r'.ring = r.ring)
    (hpublished : r'.published = r.published) (buf : List Byte) : SplitInto r r' i buf 0 [] where
  length := rfl
  nodup := List.nodup_nil
  fresh := nofun
  published := hpublished.trans (List.append_nil _).symm
  ring := by
    rw [hring]
    exact (List.append_nil _).symm
  cells := nofun
  others c _ := by rw [hcells]
  shape c := by
    rw [hcells]
    exact h.cells c
  cur j := by
    rw [hcur]
    exact h.cur j
  io := by rw [hring]

/-- A turn, and what the loop does after it. -/
theorem SplitInto.cons {c : Cell} {ring : State} {n : Nat} {cs : List Cell}
    (h : EmptyHanded r G P done) (hafter : EmptyHanded (r.turned i lpBuf c ring) G (P + 1) done)
    (hpublished : ring.published = r.ring.published ++ [some c]) (hfresh : some c ∉ r.ring.queued)
    (hrest : SplitInto (r.turned i lpBuf c ring) r' i (lpBuf.drop 1024) n cs) :
    SplitInto r r' i lpBuf (n + 1) (c :: cs) := by
  obtain ⟨-, hchunk, -⟩ := copy_stream_chunk (h.cells c) lpBuf
  -- the cell of the turn is queued now, so it is none of those that are taken later
  have hqueued : ring.queued = r.ring.queued ++ [some c] := by
    have hbefore := h.ring.published_eq
    have hbehind := hafter.ring.published_eq
    rw [← h.ring.queued_eq] at hbefore
    rw [← hafter.ring.queued_eq] at hbehind
    have heq : done ++ ring.queued = done ++ (r.ring.queued ++ [some c]) := by
      rw [← List.append_assoc, ← hbefore, ← hpublished]
      exact hbehind.symm
    exact List.append_cancel_left heq
  have hlater : ∀ d ∈ cs, some d ∉ r.ring.queued ++ [some c] := by
    intro d hd
    rw [← hqueued]
    exact hrest.fresh d hd
  have hcs : c ∉ cs := fun hc =>
    hlater c hc (List.mem_append_right _ List.mem_cons_self)
  have hcell : r'.cells c = { iSessionID := r.conn i % 4294967296, pClientInfo := i, hStream :=
    (copy_stream lpBuf (reset_stream (r.cells c).hStream)).2 } := by
    rw [hrest.others c hcs]
    exact Function.update_self ..
  refine ⟨congrArg Nat.succ hrest.length, List.nodup_cons.mpr ⟨hcs, hrest.nodup⟩, ?_, ?_, ?_, ?_, ?_,
    hrest.shape, hrest.cur, ?_⟩
  · intro d hd
    rcases List.mem_cons.mp hd with rfl | hd
    · exact hfresh
    · exact fun hmem => hlater d hd (List.mem_append_left _ hmem)
  · have hone : (r.turned i lpBuf c ring).published = r.published ++ [(r.conn i, bufferChunk lpBuf 0)] := by
      show r.published ++ [(r.conn i, chunkOf _)] = _
      rw [hchunk]
      rfl
    have hconn : (r.turned i lpBuf c ring).conn = r.conn := rfl
    rw [hrest.published, hone, hconn, List.range_succ_eq_map, List.map_cons, List.map_map,
      List.append_assoc, List.singleton_append]
    refine congrArg (fun l => r.published ++ _ :: l) (List.map_congr_left fun k _ => ?_)
    show _ = (r.conn i, bufferChunk lpBuf (k + 1))
    rw [bufferChunk_succ]
  · have hring : (r.turned i lpBuf c ring).ring.published = r.ring.published ++ [some c] := hpublished
    rw [hrest.ring, hring, List.append_assoc, List.singleton_append, List.map_cons]
  · intro k d hk
    cases k with
    | zero =>
        rw [List.getElem?_cons_zero] at hk
        cases hk
        rw [hcell]
        exact ⟨rfl, rfl, hchunk⟩
    | succ k =>
        rw [List.getElem?_cons_succ] at hk
        rw [bufferChunk_succ]
        exact hrest.cells k d hk
  · intro d hd
    rw [List.mem_cons, not_or] at hd
    rw [hrest.others d hd.2]
    exact Function.update_of_ne hd.1 _ _
  · rw [hrest.io, hafter.ring.io_eq, h.ring.io_eq]

/-- **The loop** publishes the chunks of the buffer one after the other, until the buffer is done or
the ring full. -/
theorem splitLoop_spec (h : EmptyHanded r G P done) (hjob : r.job = .data i lpBuf)
    (hne : lpBuf ≠ []) :
    ∃ r' cs, (∀ turns, lpBuf.length < turns → Receiver.splitLoop turns r = some r') ∧
      r'.job = .idle ∧
      SplitInto r r' i lpBuf
        (min (cellsFor lpBuf.length) (G + CAT2DOGIOMSGNUM - (P + 2))) cs := by
  -- the buffer gets shorter with every chunk
  induction hlen : lpBuf.length using Nat.strong_induction_on generalizing r P lpBuf with
  | _ len ih =>
  have hpos : 0 < len := by
    rw [← hlen]
    exact List.length_pos_of_ne_nil hne
  -- a turn that shortens the buffer uses up one turn of the count
  have hrun : ∀ {r₁ r' : Receiver} {m : Nat}, r.splitTurn = some r₁ → m < len →
      (∀ turns, m < turns → Receiver.splitLoop turns r₁ = some r') →
      ∀ turns, len < turns → Receiver.splitLoop turns r = some r' := by
    intro r₁ r' m hturn hm hloop turns hturns
    obtain ⟨turns, rfl⟩ := Nat.exists_eq_succ_of_ne_zero (Nat.ne_of_gt (Nat.lt_of_le_of_lt
      (Nat.zero_le len) hturns))
    have hjob' : r.job ≠ .idle := by
      rw [hjob]
      exact nofun
    rw [Receiver.splitLoop, if_neg hjob', hturn, Option.bind_some]
    exact hloop turns (by omega)
  have hidle : ∀ {r' : Receiver}, r'.job = .idle →
      ∀ turns, 0 < turns → Receiver.splitLoop turns r' = some r' := by
    intro r' hjob' turns hturns
    obtain ⟨turns, rfl⟩ := Nat.exists_eq_succ_of_ne_zero (Nat.ne_of_gt hturns)
    rw [Receiver.splitLoop, if_pos hjob']
  by_cases hroom : P + 2 < G + CAT2DOGIOMSGNUM
  · obtain ⟨c, r₁, r₂, r₃, ring, hturn, hafter, -, hpublished, hfresh⟩ :=
      turn_delivers h hjob hroom
    have hstep := splitTurn_of_turn h hjob hturn
    have hrest : (copy_stream lpBuf (reset_stream (r.cells c).hStream)).1 = lpBuf.drop 1024 :=
      (copy_stream_chunk (h.cells c) lpBuf).2.2
    have hjob₁ : (r.turned i lpBuf c ring).job =
        if lpBuf.drop 1024 = [] then .idle else .data i (lpBuf.drop 1024) := by
      rw [← hrest]
      rfl
    have hlength : (lpBuf.drop 1024).length = len - 1024 := by rw [List.length_drop, hlen]
    by_cases hlast : lpBuf.drop 1024 = []
    · -- the last chunk
      rw [if_pos hlast] at hjob₁
      have hshort : len ≤ 1024 := by
        rw [hlast, List.length_nil] at hlength
        omega
      have hone : min (cellsFor len) (G + CAT2DOGIOMSGNUM - (P + 2)) = 0 + 1 := by
        rw [cellsFor]
        omega
      refine ⟨_, [c], hrun hstep hpos (hidle hjob₁), hjob₁, ?_⟩
      rw [hone]
      exact SplitInto.cons h hafter hpublished hfresh (SplitInto.nil hafter rfl rfl rfl rfl _)
    · -- more chunks follow, and the ring has one free cell fewer
      rw [if_neg hlast] at hjob₁
      have hlong : 1024 < len := by
        by_contra hle
        exact hlast (List.drop_eq_nil_of_le (by omega))
      obtain ⟨r', cs, hloop, hjob', hsplit⟩ :=
        ih (len - 1024) (by omega) hafter hjob₁ hlast hlength
      have hmore : min (cellsFor len) (G + CAT2DOGIOMSGNUM - (P + 2)) =
          min (cellsFor (len - 1024)) (G + CAT2DOGIOMSGNUM - (P + 1 + 2)) + 1 := by
        rw [cellsFor, cellsFor]
        omega
      refine ⟨r', c :: cs, hrun hstep (by omega) hloop, hjob', ?_⟩
      rw [hmore]
      exact SplitInto.cons h hafter hpublished hfresh hsplit
  · -- no cell is free
    have hnone : min (cellsFor len) (G + CAT2DOGIOMSGNUM - (P + 2)) = 0 := by omega
    obtain ⟨hcells, hcur, hring, hjob'⟩ := leave_cells r
    have hpublished : r.leave.published = r.published := by
      obtain ⟨dropped, heq, -⟩ := leave_eq r
      rw [heq]
    refine ⟨r.leave, [], hrun (splitTurn_of_full h hjob (by omega)) hpos (hidle hjob'), hjob', ?_⟩
    rw [hnone]
    exact SplitInto.nil h hcells hcur hring hpublished lpBuf

end Loop

/-- The free cells, as the circular distance from `uiCliGetMsgIndex` to `uiIoGetMsgIndex`. -/
def State.freeCells (s : State) : Nat :=
  ahead CAT2DOGIOMSGNUM s.uiCliGetMsgIndex s.uiIoGetMsgIndex

/-- **A received buffer in cells.** From every state of the two threads in which a client's buffer was
received the loop ends, and it publishes the chunks of the buffer in the free cells but one. -/
theorem buffer_in_cells {align : Cell → Nat} {r r₀ : Receiver} {i : Slot} {buf : List Byte}
    (h : Reach inputStep AnyStep (inputInit align) r) (hrecv : inputStep r (.recv i buf) = some r₀) :
    ∃ r' cs, (∀ turns, buf.length < turns → Receiver.splitLoop turns r₀ = some r') ∧
      r'.job = .idle ∧
      SplitInto r r' i buf (min (cellsFor buf.length) (r.ring.freeCells - 1)) cs := by
  simp only [inputStep] at hrecv
  split at hrecv
  · next hready =>
      obtain ⟨hjob, -, hne, -⟩ := hready
      cases hrecv
      obtain ⟨G, P, done, hrest⟩ := resting_reach h hjob
      -- `free_eq` names the free cells by their places, and one of them is never used
      have hfree : r.ring.freeCells - 1 = G + CAT2DOGIOMSGNUM - (P + 2) := by
        have hlength := congrArg List.length hrest.ring.free_eq
        rw [State.free, length_segment, length_segment] at hlength
        rw [State.freeCells, hlength]
        omega
      obtain ⟨r', cs, hloop, hjob', hsplit⟩ := splitLoop_spec
        (r := { r with
          job := .data i buf
          received := Function.update r.received (r.conn i) (r.received (r.conn i) ++ buf) })
        (G := G) (P := P) ⟨hrest.ring, hrest.recv, hrest.cur, hrest.cells⟩ rfl hne
      rw [hfree]
      exact ⟨r', cs, hloop, hjob', { hsplit with }⟩
  · cases hrecv

/-- A buffer of 3000 bytes of the first client goes into three cells. -/
theorem buffer_in_cells_three : ∃ (r r₀ r' : Receiver) (buf : List Byte) (cs : List Cell),
    buf.length = 3000 ∧ inputStep r (.recv 0 buf) = some r₀ ∧
      (∀ turns, buf.length < turns → Receiver.splitLoop turns r₀ = some r') ∧ r'.job = .idle ∧
      SplitInto r r' 0 buf 3 cs := by
  obtain ⟨r, h, -⟩ := filling_start fun _ => 0
  obtain ⟨buf, hlength⟩ : ∃ buf : List Byte, buf.length = 3000 :=
    ⟨List.replicate 3000 8, List.length_replicate⟩
  have hconn : r.conn 0 ≠ 0 := by
    rw [h.conn]
    decide
  have hbuf : buf ≠ [] := List.ne_nil_of_length_pos (by omega)
  have hrecv : inputStep r (.recv 0 buf) = some _ :=
    if_pos ⟨h.rest.job, hconn, hbuf, by rw [hlength]; decide⟩
  obtain ⟨r', cs, hloop, hjob, hsplit⟩ := buffer_in_cells h.run.any hrecv
  -- the ring is empty: all its cells but one are free
  have hfree : r.ring.freeCells = 4095 := by
    rw [State.freeCells, h.rest.ring.get_eq, h.rest.ring.io_eq]
    rfl
  rw [hfree, hlength] at hsplit
  exact ⟨r, _, r', buf, cs, hlength, hrecv, hloop, hjob, hsplit⟩

end Cat2Dog

end Netflow
