import Netflow.Basic.Config
import Netflow.Lib.Cursor
import Netflow.Lib.Transition
import Mathlib.Data.List.FinRange
import Mathlib.Data.List.Perm.Basic
import Mathlib.Tactic.Common

set_option autoImplicit false

/-! # The `Cat2Dog` ring and its two threads

`Cat2DogIOMsg` is one circular array walked by four indices. The receive thread
(`ClientRecSndThread`) takes free cells at `uiCliGetMsgIndex` and publishes filled ones at
`uiCliPutMsgIndex`; the IO thread (`processIOThread`) processes at `uiIoGetMsgIndex`. Each read or
write of an index the other thread looks at is a step of its own, so the two threads interleave
between any two of them.

On unbounded positions (`Lib/Cursor.lean`) the indices are ordered
`io ≤ put < get < io + CAT2DOGIOMSGNUM`: behind `io` the cells published and not yet handled,
behind `put` the places of cells in the hands of the receive thread and one more, behind `get` the
free cells.
-/

namespace Netflow

namespace Cat2Dog

/-- A cell of `pCat2DogIOMsgForFree`. -/
abbrev Cell := Fin (CAT2DOGIOMSGNUM - 1)

/-- A pointer `PCAT2DOGIOMSG`; NULL is `none`. -/
abbrev Ptr := Option Cell

/-- Where the receive thread stands: between two of its blocks, behind a test that found room, or
between storing a cell and advancing `uiCliPutMsgIndex`. -/
inductive RecvPc where
  | idle
  | room
  | stored (c : Ptr)
deriving DecidableEq

/-- Where the IO thread stands: before its test, behind a test that found a cell, or with the cell
it read and processes. -/
inductive IoPc where
  | idle
  | found
  | processing (c : Ptr)
deriving DecidableEq

/-- The array, the indices, the control of the two threads and the cells taken but not yet
published (the `pCurCat2DogIOMsg` of the clients). `published` and `processed` are histories. -/
structure State where
  Cat2DogIOMsg : Nat → Ptr
  uiCliPutMsgIndex : Nat
  uiIoGetMsgIndex : Nat
  uiCliGetMsgIndex : Nat
  uiCliGetMsgNextIndex : Nat
  recv : RecvPc
  taken : List Ptr
  io : IoPc
  published : List Ptr
  processed : List Ptr

/-- `InitServer`: entry `i + 1` points to the cell `i`, entry `0` is NULL. -/
def init : State where
  Cat2DogIOMsg k := if h : 1 ≤ k ∧ k - 1 < CAT2DOGIOMSGNUM - 1 then some ⟨k - 1, h.2⟩ else none
  uiCliPutMsgIndex := 0
  uiIoGetMsgIndex := 0
  uiCliGetMsgIndex := 1
  uiCliGetMsgNextIndex := 2
  recv := .idle
  taken := []
  io := .idle
  published := []
  processed := []

/-- The atomic steps, the first four of the receive thread and the last three of the IO thread. -/
inductive Action where
  | testFull
  | take
  | store (c : Ptr)
  | advancePut
  | ioTest
  | ioRead
  | ioAdvance

def advance (i : Nat) : Nat := (i + 1) % CAT2DOGIOMSGNUM

def step (s : State) : Action → Option State
  | .testFull =>
      match s.recv with
      | .idle =>
          if s.uiCliGetMsgNextIndex = s.uiIoGetMsgIndex then some s
          else some { s with recv := .room }
      | _ => none
  | .take =>
      match s.recv with
      | .room =>
          some { s with
            recv := .idle
            taken := s.Cat2DogIOMsg s.uiCliGetMsgIndex :: s.taken
            uiCliGetMsgIndex := s.uiCliGetMsgNextIndex
            uiCliGetMsgNextIndex := advance s.uiCliGetMsgNextIndex }
      | _ => none
  | .store c =>
      match s.recv with
      | .idle =>
          if c ∈ s.taken then
            some { s with
              recv := .stored c
              taken := s.taken.erase c
              Cat2DogIOMsg := Function.update s.Cat2DogIOMsg s.uiCliPutMsgIndex c }
          else none
      | _ => none
  | .advancePut =>
      match s.recv with
      | .stored c =>
          some { s with
            recv := .idle
            uiCliPutMsgIndex := advance s.uiCliPutMsgIndex
            published := s.published ++ [c] }
      | _ => none
  | .ioTest =>
      match s.io with
      | .idle =>
          if s.uiCliPutMsgIndex = s.uiIoGetMsgIndex then some s
          else some { s with io := .found }
      | _ => none
  | .ioRead =>
      match s.io with
      | .found =>
          some { s with
            io := .processing (s.Cat2DogIOMsg s.uiIoGetMsgIndex)
            processed := s.processed ++ [s.Cat2DogIOMsg s.uiIoGetMsgIndex] }
      | _ => none
  | .ioAdvance =>
      match s.io with
      | .processing _ =>
          some { s with
            io := .idle
            uiIoGetMsgIndex := advance s.uiIoGetMsgIndex }
      | _ => none

/-! ## The parts of the ring -/

/-- The cells from `uiIoGetMsgIndex` up to `uiCliPutMsgIndex`: the one being processed, if any,
and those waiting. -/
def State.queued (s : State) : List Ptr :=
  segment CAT2DOGIOMSGNUM s.Cat2DogIOMsg s.uiIoGetMsgIndex
    (ahead CAT2DOGIOMSGNUM s.uiIoGetMsgIndex s.uiCliPutMsgIndex)

/-- The cell the IO thread processes. -/
def State.beingProcessed (s : State) : List Ptr :=
  match s.io with
  | .processing c => [c]
  | _ => []

/-- The published cells the IO thread has not read yet. -/
def State.waiting (s : State) : List Ptr := s.queued.drop s.beingProcessed.length

/-- The cells in the hands of the receive thread: taken, or stored but not yet published. -/
def State.inHand (s : State) : List Ptr :=
  match s.recv with
  | .stored c => c :: s.taken
  | _ => s.taken

/-- The cells from `uiCliGetMsgIndex` up to `uiIoGetMsgIndex`, free to be taken. -/
def State.free (s : State) : List Ptr :=
  segment CAT2DOGIOMSGNUM s.Cat2DogIOMsg s.uiCliGetMsgIndex
    (ahead CAT2DOGIOMSGNUM s.uiCliGetMsgIndex s.uiIoGetMsgIndex)

/-- All cells. -/
def allCells : List Ptr := (List.finRange (CAT2DOGIOMSGNUM - 1)).map some

/-! ## The invariant -/

/-- The order of the positions `G` (IO), `P` (put) and `T` (get), and what lies between them.
`done` are the cells the IO thread has advanced over. -/
structure RingInv (s : State) (G P T : Nat) (done : List Ptr) : Prop where
  io_eq : s.uiIoGetMsgIndex = G % CAT2DOGIOMSGNUM
  put_eq : s.uiCliPutMsgIndex = P % CAT2DOGIOMSGNUM
  get_eq : s.uiCliGetMsgIndex = T % CAT2DOGIOMSGNUM
  next_eq : s.uiCliGetMsgNextIndex = (T + 1) % CAT2DOGIOMSGNUM
  io_le_put : G ≤ P
  hands : P + 1 + s.inHand.length = T
  free_left : T < G + CAT2DOGIOMSGNUM
  room_left : s.recv = .room → T + 1 < G + CAT2DOGIOMSGNUM
  stored_eq : ∀ c, s.recv = .stored c → s.Cat2DogIOMsg (P % CAT2DOGIOMSGNUM) = c
  found_lt : s.io = .found → G < P
  processing_eq : ∀ c, s.io = .processing c → G < P ∧ s.Cat2DogIOMsg (G % CAT2DOGIOMSGNUM) = c
  published_eq : s.published = done ++ segment CAT2DOGIOMSGNUM s.Cat2DogIOMsg G (P - G)
  processed_eq : s.processed = done ++ s.beingProcessed
  cells : (segment CAT2DOGIOMSGNUM s.Cat2DogIOMsg T (G + CAT2DOGIOMSGNUM - T) ++
    (segment CAT2DOGIOMSGNUM s.Cat2DogIOMsg G (P - G) ++ s.inHand)).Perm allCells

theorem RingInv.queued_eq {s : State} {G P T : Nat} {done : List Ptr} (h : RingInv s G P T done) :
    s.queued = segment CAT2DOGIOMSGNUM s.Cat2DogIOMsg G (P - G) := by
  have hlt : P < G + CAT2DOGIOMSGNUM := by
    have h1 := h.hands
    have h2 := h.free_left
    omega
  rw [State.queued, h.io_eq, h.put_eq, ahead_mod h.io_le_put hlt, segment_mod]

theorem RingInv.free_eq {s : State} {G P T : Nat} {done : List Ptr} (h : RingInv s G P T done) :
    s.free = segment CAT2DOGIOMSGNUM s.Cat2DogIOMsg T (G + CAT2DOGIOMSGNUM - T) := by
  have h1 := h.hands
  have h2 := h.free_left
  have h3 := h.io_le_put
  rw [State.free, h.io_eq, h.get_eq, ← Nat.add_mod_right G,
    ahead_mod (show T ≤ G + CAT2DOGIOMSGNUM by omega) (by omega), segment_mod]

theorem ringInv_init : RingInv init 0 0 1 [] where
  io_eq := rfl
  put_eq := rfl
  get_eq := rfl
  next_eq := rfl
  io_le_put := Nat.le_refl 0
  hands := rfl
  free_left := by decide
  room_left h := by cases h
  stored_eq c h := by cases h
  found_lt h := by cases h
  processing_eq c h := by cases h
  published_eq := rfl
  processed_eq := rfl
  cells := by
    have hseg : segment CAT2DOGIOMSGNUM init.Cat2DogIOMsg 1 (CAT2DOGIOMSGNUM - 1) = allCells := by
      apply List.ext_getElem
      · simp [allCells]
      · intro k h1 h2
        have hk : k < CAT2DOGIOMSGNUM - 1 := by simpa using h1
        have hmod : (1 + k) % CAT2DOGIOMSGNUM = 1 + k := Nat.mod_eq_of_lt (by omega)
        simp only [segment, List.getElem_map, List.getElem_range, hmod, allCells,
          List.getElem_finRange]
        simp only [init]
        rw [dif_pos ⟨by omega, by omega⟩]
        congr 1
        exact Fin.ext (by simp)
    show (segment CAT2DOGIOMSGNUM init.Cat2DogIOMsg 1 (0 + CAT2DOGIOMSGNUM - 1) ++ _).Perm _
    rw [Nat.zero_add, hseg]
    simp [init, State.inHand]

/-! ## The steps of the receive thread -/

section Steps

variable {s s' : State} {G P T : Nat} {done : List Ptr}

theorem ringInv_testFull (h : RingInv s G P T done) (hs : step s .testFull = some s') :
    RingInv s' G P T done := by
  cases hrecv : s.recv with
  | idle =>
      simp only [step, hrecv] at hs
      split at hs
      · cases hs
        exact h
      · rename_i hne
        cases hs
        have hT : T + 1 ≠ G + CAT2DOGIOMSGNUM := by
          intro hT
          rw [h.next_eq, h.io_eq, hT, Nat.add_mod_right] at hne
          exact hne rfl
        have hhand : s.inHand = s.taken := by simp [State.inHand, hrecv]
        have hfree := h.free_left
        have hhands := h.hands
        have hcells := h.cells
        rw [hhand] at hhands hcells
        exact { h with
          hands := hhands
          room_left := fun _ => by omega
          stored_eq := fun c hc => by cases hc
          cells := hcells }
  | room => simp [step, hrecv] at hs
  | stored c => simp [step, hrecv] at hs

/-- A take hands out the first free cell. -/
theorem ringInv_take (h : RingInv s G P T done) (hs : step s .take = some s') :
    RingInv s' G P (T + 1) done := by
  cases hrecv : s.recv with
  | idle => simp [step, hrecv] at hs
  | stored c => simp [step, hrecv] at hs
  | room =>
      simp only [step, hrecv, Option.some.injEq] at hs
      subst hs
      have hroom := h.room_left hrecv
      have hhand : s.inHand = s.taken := by simp [State.inHand, hrecv]
      have hhands := h.hands
      have hcells := h.cells
      rw [hhand] at hhands hcells
      -- the first free cell is in hand now
      rw [show G + CAT2DOGIOMSGNUM - T = G + CAT2DOGIOMSGNUM - (T + 1) + 1 by omega,
        segment_succ, List.cons_append] at hcells
      refine { h with
        get_eq := h.next_eq
        next_eq := ?_
        hands := ?_
        free_left := hroom
        room_left := fun hc => by cases hc
        stored_eq := fun c hc => by cases hc
        cells := ?_ }
      · show advance s.uiCliGetMsgNextIndex = _
        rw [advance, h.next_eq, mod_succ]
      · show P + 1 + (s.taken.length + 1) = T + 1
        omega
      · refine List.Perm.trans ?_ hcells
        show (_ ++ (_ ++ s.Cat2DogIOMsg s.uiCliGetMsgIndex :: s.taken)).Perm _
        rw [h.get_eq, ← List.append_assoc, ← List.append_assoc]
        exact List.perm_middle

/-- A store overwrites a place between the queued and the free cells. -/
theorem ringInv_store {c : Ptr} (h : RingInv s G P T done) (hs : step s (.store c) = some s') :
    RingInv s' G P T done := by
  cases hrecv : s.recv with
  | room => simp [step, hrecv] at hs
  | stored c => simp [step, hrecv] at hs
  | idle =>
      simp only [step, hrecv] at hs
      split at hs
      · rename_i hc
        cases hs
        have hperm : (c :: s.taken.erase c).Perm s.inHand := by
          simpa [State.inHand, hrecv] using (List.perm_cons_erase hc).symm
        have hio := h.io_le_put
        have hhands := h.hands
        have hfree := h.free_left
        -- the place is behind the queued cells
        have hqueue : segment CAT2DOGIOMSGNUM
            (Function.update s.Cat2DogIOMsg s.uiCliPutMsgIndex c) G (P - G)
            = segment CAT2DOGIOMSGNUM s.Cat2DogIOMsg G (P - G) := by
          rw [h.put_eq]
          exact segment_update _ _ (by omega) (by omega)
        -- the place is one lap ahead of the last free cell's
        have hfreeSeg : segment CAT2DOGIOMSGNUM
            (Function.update s.Cat2DogIOMsg s.uiCliPutMsgIndex c) T (G + CAT2DOGIOMSGNUM - T)
            = segment CAT2DOGIOMSGNUM s.Cat2DogIOMsg T (G + CAT2DOGIOMSGNUM - T) := by
          rw [h.put_eq, ← Nat.add_mod_right P]
          exact segment_update _ _ (by omega) (by omega)
        refine { h with
          hands := ?_
          room_left := fun hc => by cases hc
          stored_eq := ?_
          processing_eq := ?_
          published_eq := ?_
          cells := ?_ }
        · show P + 1 + (c :: s.taken.erase c).length = T
          rw [hperm.length_eq]
          exact hhands
        · intro c' hc'
          cases hc'
          show Function.update s.Cat2DogIOMsg s.uiCliPutMsgIndex c _ = c
          rw [h.put_eq, Function.update_self]
        · intro c' hc'
          obtain ⟨hlt, heq⟩ := h.processing_eq c' hc'
          refine ⟨hlt, ?_⟩
          show Function.update s.Cat2DogIOMsg s.uiCliPutMsgIndex c _ = c'
          rw [h.put_eq, Function.update_of_ne (mod_ne hlt (by omega)), heq]
        · rw [hqueue]
          exact h.published_eq
        · rw [hqueue, hfreeSeg]
          exact ((hperm.append_left _).append_left _).trans h.cells
      · cases hs

/-- Advancing `uiCliPutMsgIndex` publishes the stored cell. -/
theorem ringInv_advancePut (h : RingInv s G P T done) (hs : step s .advancePut = some s') :
    RingInv s' G (P + 1) T done := by
  cases hrecv : s.recv with
  | idle => simp [step, hrecv] at hs
  | room => simp [step, hrecv] at hs
  | stored c =>
      simp only [step, hrecv, Option.some.injEq] at hs
      subst hs
      have hio := h.io_le_put
      have hhand : s.inHand = c :: s.taken := by simp [State.inHand, hrecv]
      have hhands := h.hands
      have hcells := h.cells
      rw [hhand] at hhands hcells
      rw [List.length_cons] at hhands
      -- the stored cell is the last one of the queue
      have hseg : segment CAT2DOGIOMSGNUM s.Cat2DogIOMsg G (P + 1 - G)
          = segment CAT2DOGIOMSGNUM s.Cat2DogIOMsg G (P - G) ++ [c] := by
        rw [show P + 1 - G = P - G + 1 by omega, segment_append_one,
          show G + (P - G) = P by omega, h.stored_eq c hrecv]
      refine { h with
        put_eq := ?_
        io_le_put := by omega
        hands := ?_
        room_left := fun hc => by cases hc
        stored_eq := fun c hc => by cases hc
        found_lt := fun hc => by have := h.found_lt hc; omega
        processing_eq := fun c hc => by
          obtain ⟨hlt, heq⟩ := h.processing_eq c hc
          exact ⟨by omega, heq⟩
        published_eq := ?_
        cells := ?_ }
      · show advance s.uiCliPutMsgIndex = _
        rw [advance, h.put_eq, mod_succ]
      · show P + 1 + 1 + s.taken.length = T
        omega
      · show s.published ++ [c] = _
        rw [hseg, ← List.append_assoc, ← h.published_eq]
      · rw [hseg, List.append_assoc]
        exact hcells

/-! ## The steps of the IO thread -/

theorem ringInv_ioTest (h : RingInv s G P T done) (hs : step s .ioTest = some s') :
    RingInv s' G P T done := by
  cases hio : s.io with
  | found => simp [step, hio] at hs
  | processing c => simp [step, hio] at hs
  | idle =>
      simp only [step, hio] at hs
      split at hs
      · cases hs
        exact h
      · rename_i hne
        cases hs
        -- the indices differ, so a cell is queued
        have hPG : P ≠ G := by
          intro hPG
          rw [h.put_eq, h.io_eq, hPG] at hne
          exact hne rfl
        have hle := h.io_le_put
        have hprocessed := h.processed_eq
        rw [State.beingProcessed, hio] at hprocessed
        exact { h with
          found_lt := fun _ => by omega
          processing_eq := fun c hc => by cases hc
          processed_eq := hprocessed }

theorem ringInv_ioRead (h : RingInv s G P T done) (hs : step s .ioRead = some s') :
    RingInv s' G P T done := by
  cases hio : s.io with
  | idle => simp [step, hio] at hs
  | processing c => simp [step, hio] at hs
  | found =>
      simp only [step, hio, Option.some.injEq] at hs
      subst hs
      have hprocessed := h.processed_eq
      rw [State.beingProcessed, hio, List.append_nil] at hprocessed
      refine { h with
        found_lt := fun hc => by cases hc
        processing_eq := ?_
        processed_eq := ?_ }
      · intro c hc
        cases hc
        exact ⟨h.found_lt hio, by rw [h.io_eq]⟩
      · show s.processed ++ _ = done ++ _
        rw [hprocessed]
        rfl

/-- Advancing `uiIoGetMsgIndex` makes the processed cell the last free one. -/
theorem ringInv_ioAdvance (h : RingInv s G P T done) (hs : step s .ioAdvance = some s') :
    ∃ c, RingInv s' (G + 1) P T (done ++ [c]) := by
  cases hio : s.io with
  | idle => simp [step, hio] at hs
  | found => simp [step, hio] at hs
  | processing c =>
      simp only [step, hio, Option.some.injEq] at hs
      subst hs
      obtain ⟨hlt, heq⟩ := h.processing_eq c hio
      have hhands := h.hands
      have hfree := h.free_left
      -- the processed cell leaves the queue at its front
      have hqueue : segment CAT2DOGIOMSGNUM s.Cat2DogIOMsg G (P - G)
          = c :: segment CAT2DOGIOMSGNUM s.Cat2DogIOMsg (G + 1) (P - (G + 1)) := by
        rw [show P - G = P - (G + 1) + 1 by omega, segment_succ, heq]
      -- and one lap later its place is the last free one
      have hfreeSeg : segment CAT2DOGIOMSGNUM s.Cat2DogIOMsg T (G + 1 + CAT2DOGIOMSGNUM - T)
          = segment CAT2DOGIOMSGNUM s.Cat2DogIOMsg T (G + CAT2DOGIOMSGNUM - T) ++ [c] := by
        rw [show G + 1 + CAT2DOGIOMSGNUM - T = G + CAT2DOGIOMSGNUM - T + 1 by omega,
          segment_append_one, show T + (G + CAT2DOGIOMSGNUM - T) = G + CAT2DOGIOMSGNUM by omega,
          Nat.add_mod_right, heq]
      have hcells := h.cells
      have hpublished := h.published_eq
      have hprocessed := h.processed_eq
      rw [hqueue] at hcells hpublished
      rw [State.beingProcessed, hio] at hprocessed
      refine ⟨c, { h with
        io_eq := ?_
        io_le_put := hlt
        free_left := by omega
        room_left := fun hc => by have := h.room_left hc; omega
        found_lt := fun hc => by cases hc
        processing_eq := fun c hc => by cases hc
        published_eq := ?_
        processed_eq := ?_
        cells := ?_ }⟩
      · show advance s.uiIoGetMsgIndex = _
        rw [advance, h.io_eq, mod_succ]
      · rw [List.append_assoc]
        exact hpublished
      · show s.processed = done ++ [c] ++ []
        rw [hprocessed, List.append_nil]
      · rw [hfreeSeg, List.append_assoc]
        exact hcells

theorem ringInv_step {a : Action} (h : RingInv s G P T done) (hs : step s a = some s') :
    ∃ G' P' T' done', RingInv s' G' P' T' done' := by
  cases a with
  | testFull => exact ⟨G, P, T, done, ringInv_testFull h hs⟩
  | take => exact ⟨G, P, T + 1, done, ringInv_take h hs⟩
  | store c => exact ⟨G, P, T, done, ringInv_store h hs⟩
  | advancePut => exact ⟨G, P + 1, T, done, ringInv_advancePut h hs⟩
  | ioTest => exact ⟨G, P, T, done, ringInv_ioTest h hs⟩
  | ioRead => exact ⟨G, P, T, done, ringInv_ioRead h hs⟩
  | ioAdvance =>
      obtain ⟨c, hc⟩ := ringInv_ioAdvance h hs
      exact ⟨G + 1, P, T, done ++ [c], hc⟩

end Steps

/-- The invariant holds in every state any interleaving reaches. -/
theorem ringInv_reach {s : State} (h : Reach step AnyStep init s) :
    ∃ G P T done, RingInv s G P T done := by
  refine Reach.invariant (P := fun s => ∃ G P T done, RingInv s G P T done) h
    ⟨0, 0, 1, [], ringInv_init⟩ ?_
  rintro s a s' ⟨G, P, T, done, hinv⟩ - hs
  exact ringInv_step hinv hs

/-! ## What the invariant says about the queue -/

section Queue

variable {s : State} {G P T : Nat} {done : List Ptr}

/-- The cell being processed is the first queued one. -/
theorem RingInv.queued_eq_append (h : RingInv s G P T done) :
    s.queued = s.beingProcessed ++ s.waiting := by
  cases hio : s.io with
  | idle => simp [State.waiting, State.beingProcessed, hio]
  | found => simp [State.waiting, State.beingProcessed, hio]
  | processing c =>
      obtain ⟨hlt, heq⟩ := h.processing_eq c hio
      simp only [State.waiting, State.beingProcessed, hio, h.queued_eq]
      rw [show P - G = P - (G + 1) + 1 by omega, segment_succ, heq]
      rfl

theorem RingInv.published_eq_append (h : RingInv s G P T done) :
    s.published = s.processed ++ s.waiting := by
  rw [h.published_eq, ← h.queued_eq, h.queued_eq_append, h.processed_eq, List.append_assoc]

theorem RingInv.empty_iff (h : RingInv s G P T done) :
    s.uiCliPutMsgIndex = s.uiIoGetMsgIndex ↔ s.queued = [] := by
  have hhands := h.hands
  have hfree := h.free_left
  have hle := h.io_le_put
  rw [← List.length_eq_zero_iff, h.queued_eq, length_segment, h.put_eq, h.io_eq]
  constructor
  · intro heq
    have := mod_inj hle (by omega) heq.symm
    omega
  · intro heq
    rw [show P = G by omega]

theorem RingInv.perm_allCells (h : RingInv s G P T done) :
    (s.free ++ (s.queued ++ s.inHand)).Perm allCells := by
  rw [h.free_eq, h.queued_eq]
  exact h.cells

theorem nodup_allCells : allCells.Nodup :=
  (List.nodup_finRange _).map (Option.some_injective _)

/-- The cell a take hands out is free: not queued and not in the hands of the receive thread. -/
theorem RingInv.take_fresh (h : RingInv s G P T done) {s' : State}
    (hs : step s .take = some s') :
    ∃ c : Cell, s'.taken = some c :: s.taken ∧ some c ∉ s.queued ∧ some c ∉ s.inHand := by
  cases hrecv : s.recv with
  | idle => simp [step, hrecv] at hs
  | stored c => simp [step, hrecv] at hs
  | room =>
      simp only [step, hrecv, Option.some.injEq] at hs
      subst hs
      have hroom := h.room_left hrecv
      have hfirst : s.free = s.Cat2DogIOMsg s.uiCliGetMsgIndex ::
          segment CAT2DOGIOMSGNUM s.Cat2DogIOMsg (T + 1) (G + CAT2DOGIOMSGNUM - (T + 1)) := by
        rw [h.free_eq, show G + CAT2DOGIOMSGNUM - T = G + CAT2DOGIOMSGNUM - (T + 1) + 1 by omega,
          segment_succ, h.get_eq]
      have hperm := h.perm_allCells
      have hnodup := hperm.nodup_iff.mpr nodup_allCells
      rw [hfirst, List.cons_append] at hperm hnodup
      have hmem := hperm.subset List.mem_cons_self
      obtain ⟨c, -, hc⟩ := List.mem_map.mp hmem
      have hnot := (List.nodup_cons.mp hnodup).1
      rw [← hc] at hnot
      simp only [List.mem_append, not_or] at hnot
      exact ⟨c, by rw [hc], hnot.2.1, hnot.2.2⟩

end Queue

/-- **The `Cat2Dog` ring is a queue.** In every state reached by any interleaving of the two
threads the cells processed so far, in order, are the first of the cells published, and the rest
waits in the ring; the IO thread's test finds the ring empty exactly when nothing is queued; a take
hands out a cell that is neither queued nor in the hands of the receive thread; and every cell is
exactly once free, queued or in those hands. -/
theorem cat2dog_ring_queue {s : State} (h : Reach step AnyStep init s) :
    s.published = s.processed ++ s.waiting ∧
      (s.uiCliPutMsgIndex = s.uiIoGetMsgIndex ↔ s.queued = []) ∧
      (∀ s', step s .take = some s' →
        ∃ c : Cell, s'.taken = some c :: s.taken ∧ some c ∉ s.queued ∧ some c ∉ s.inHand) ∧
      (s.free ++ (s.queued ++ s.inHand)).Perm allCells := by
  obtain ⟨G, P, T, done, hinv⟩ := ringInv_reach h
  exact ⟨hinv.published_eq_append, hinv.empty_iff, fun s' hs => hinv.take_fresh hs,
    hinv.perm_allCells⟩

/-- Two cells taken, published in the other order, and the first one published read. -/
theorem cat2dog_ring_queue_two : ∃ s, execAll step [.testFull, .take, .testFull, .take,
    .store (some ⟨1, by decide⟩), .advancePut, .store (some ⟨0, by decide⟩), .ioTest, .ioRead,
    .advancePut] init = some s ∧ s.published = s.processed ++ s.waiting := by
  obtain ⟨s, hs⟩ := Option.isSome_iff_exists.mp (show (execAll step [.testFull, .take, .testFull,
    .take, .store (some ⟨1, by decide⟩), .advancePut, .store (some ⟨0, by decide⟩), .ioTest,
    .ioRead, .advancePut] init).isSome = true by decide)
  exact ⟨s, hs, (cat2dog_ring_queue (reach_of_execAll hs)).1⟩

end Cat2Dog

end Netflow
