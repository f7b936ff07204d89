import Netflow.Fifo.Split
import Netflow.Lib.Transition
import Netflow.Server.State

set_option autoImplicit false

/-! # The message rings and the threads that share them

`IoGetSendMsgCell` pops `pFifoDogMsgFree` and `IoPutSendMsgCell` pushes into `pFifoDogMsg`; the IO
thread and the capture threads call both (the workers here). The receive thread alone pops
`pFifoDogMsg` and pushes into `pFifoDogMsgFree`. Every step of a call is a step of its own.

Two workers inside `IoGetSendMsgCell` at the same time can be given the same cell. When calls of one
kind do not overlap each other, both rings are queues: no cell is given out twice, and every cell
that was put is popped once, in order.
-/

namespace Netflow

/-- What happened, in order: a call of `IoGetSendMsgCell` returned a cell, a call of
`IoPutSendMsgCell` was made, the receive thread popped a cell, and gave one back. -/
inductive RingEvent (T : Type) where
  | got (t : T) (c : MsgCell)
  | put (t : T) (c : MsgCell)
  | popped (c : MsgCell)
  | back (c : MsgCell)

/-- The two rings and the threads: `worker` and `receiver` say where their calls stand, `held` are
the cells the workers were given and `drained` those in the hands of the receive thread. -/
structure Rings (T : Type) where
  pFifoDogMsg : FifoRing MsgCell
  pFifoDogMsgFree : FifoRing MsgCell
  worker : T → CallPc MsgCell
  receiver : CallPc MsgCell
  held : List (T × MsgCell)
  drained : List MsgCell
  hist : List (RingEvent T)

/-- The first step of a call, `get` and `put` of a worker, `drain` and `giveBack` of the receive
thread, or the next step of the call a thread is in. -/
inductive RingAction (T : Type) where
  | get (t : T)
  | put (t : T) (c : MsgCell)
  | drain
  | giveBack (c : MsgCell)
  | work (t : T)
  | receive

section Model

variable {T : Type}

/-- No thread has made a call yet. -/
def ringsOf (free : FifoRing MsgCell) : Rings T where
  pFifoDogMsg := newRing
  pFifoDogMsgFree := free
  worker _ := .idle
  receiver := .idle
  held := []
  drained := []
  hist := []

/-- `InitServer` hands out all cells. -/
theorem all_cells_le : DOG2CATIOMSGNUM - 1 ≤ DOG2CATIOMSGNUM - 1 := Nat.le_refl _

/-- The rings as `InitServer` leaves them, before the threads are started. -/
def ringsInit : Rings T := ringsOf (fillFree (DOG2CATIOMSGNUM - 1) all_cells_le).1

section Steps

variable [DecidableEq T]

namespace Rings

/-- Where the call of a worker stands now. -/
def setWorker (t : T) (pc : CallPc MsgCell) (s : Rings T) : Rings T :=
  { s with worker := Function.update s.worker t pc }

/-- The next step of a worker. -/
def work (t : T) (s : Rings T) : Option (Rings T) :=
  match s.worker t with
  | .idle => none
  | .popFound => some (s.setWorker t (.popRead (s.pFifoDogMsgFree.data s.pFifoDogMsgFree.r_cursor)))
  | .popRead c =>
      some { s.setWorker t .idle with
        pFifoDogMsgFree := s.pFifoDogMsgFree.advanceRead
        held := (t, c) :: s.held
        hist := s.hist ++ [.got t c] }
  | .pushRoom c w =>
      some { s.setWorker t (.pushStored c w) with pFifoDogMsg := s.pFifoDogMsg.storeEntry c }
  | .pushStored c w =>
      some { s.setWorker t .idle with
        pFifoDogMsg := s.pFifoDogMsg.advanceWrite w
        held := s.held.erase (t, c) }

/-- The next step of the receive thread. -/
def receive (s : Rings T) : Option (Rings T) :=
  match s.receiver with
  | .idle => none
  | .popFound => some { s with receiver := .popRead (s.pFifoDogMsg.data s.pFifoDogMsg.r_cursor) }
  | .popRead c =>
      some { s with
        receiver := .idle
        pFifoDogMsg := s.pFifoDogMsg.advanceRead
        drained := c :: s.drained
        hist := s.hist ++ [.popped c] }
  | .pushRoom c w =>
      some { s with
        receiver := .pushStored c w
        pFifoDogMsgFree := s.pFifoDogMsgFree.storeEntry c }
  | .pushStored c w =>
      some { s with
        receiver := .idle
        pFifoDogMsgFree := s.pFifoDogMsgFree.advanceWrite w
        drained := s.drained.erase c
        hist := s.hist ++ [.back c] }

end Rings

/-- One step. A `get` that finds the free ring empty returns NULL, and what a `put` into a full ring
is given is lost; nobody looks at the result. -/
def ringStep (s : Rings T) : RingAction T → Option (Rings T)
  | .get t =>
      if s.worker t = .idle then
        if s.pFifoDogMsgFree.r_cursor ≠ s.pFifoDogMsgFree.w_cursor then
          some (s.setWorker t .popFound)
        else some s
      else none
  | .put t c =>
      if s.worker t = .idle ∧ (t, c) ∈ s.held then
        let s := { s with hist := s.hist ++ [RingEvent.put t c] }
        if s.pFifoDogMsg.nextWrite ≠ s.pFifoDogMsg.r_cursor then
          some (s.setWorker t (.pushRoom c s.pFifoDogMsg.nextWrite))
        else some { s with held := s.held.erase (t, c) }
      else none
  | .drain =>
      if s.receiver = .idle then
        if s.pFifoDogMsg.r_cursor ≠ s.pFifoDogMsg.w_cursor then
          some { s with receiver := .popFound }
        else some s
      else none
  | .giveBack c =>
      if s.receiver = .idle ∧ c ∈ s.drained then
        if s.pFifoDogMsgFree.nextWrite ≠ s.pFifoDogMsgFree.r_cursor then
          some { s with receiver := .pushRoom c s.pFifoDogMsgFree.nextWrite }
        else some { s with drained := s.drained.erase c }
      else none
  | .work t => s.work t
  | .receive => s.receive

end Steps

/-! ## What is claimed of the history -/

/-- Whether the last thing that happened to a cell, as far as giving out goes, is that it was given
out. -/
def outAfter (c : MsgCell) (hist : List (RingEvent T)) : Bool :=
  hist.foldl (fun out e =>
    match e with
    | .got _ c' => if c' = c then true else out
    | .back c' => if c' = c then false else out
    | _ => out) false

/-- A cell is given out only when it was put back since it was last given out. -/
def GivenOnce (hist : List (RingEvent T)) : Prop :=
  ∀ before t c after, hist = before ++ .got t c :: after → outAfter c before = false

/-- The cells passed to `IoPutSendMsgCell`, in order. -/
def putCells (hist : List (RingEvent T)) : List MsgCell :=
  hist.filterMap fun
    | .put _ c => some c
    | _ => none

/-- The cells popped from `pFifoDogMsg`, in order. -/
def poppedCells (hist : List (RingEvent T)) : List MsgCell :=
  hist.filterMap fun
    | .popped c => some c
    | _ => none

/-- A worker is inside `IoGetSendMsgCell`. -/
def InGet : CallPc MsgCell → Prop
  | .popFound => True
  | .popRead _ => True
  | _ => False

/-- A worker is inside `IoPutSendMsgCell`. -/
def InPut : CallPc MsgCell → Prop
  | .pushRoom _ _ => True
  | .pushStored _ _ => True
  | _ => False

theorem InPut.steps {pc : CallPc MsgCell} (h : InPut pc) :
    (∃ c w, pc = .pushRoom c w) ∨ ∃ c w, pc = .pushStored c w := by
  cases pc with
  | pushRoom c w => exact Or.inl ⟨c, w, rfl⟩
  | pushStored c w => exact Or.inr ⟨c, w, rfl⟩
  | idle => exact False.elim h
  | popFound => exact False.elim h
  | popRead c => exact False.elim h

/-- The guard: no call of `IoGetSendMsgCell` begins while another one runs, and no call of
`IoPutSendMsgCell` while another one runs. -/
def Alone (s : Rings T) : RingAction T → Prop
  | .get _ => ∀ t, ¬InGet (s.worker t)
  | .put _ _ => ∀ t, ¬InPut (s.worker t)
  | _ => True

/-! ## The invariant -/

/-- At most one worker is where `P` says. -/
def AtMostOne (P : CallPc MsgCell → Prop) (worker : T → CallPc MsgCell) : Prop :=
  ∀ t t', P (worker t) → P (worker t') → t = t'

/-- A push of a worker is about a cell the worker holds, and it is the last one that was put. -/
def PutOf (s : Rings T) (t : T) : CallPc MsgCell → Prop
  | .pushRoom c _ => (t, c) ∈ s.held ∧
      putCells s.hist = poppedCells s.hist ++ s.pFifoDogMsg.contents ++ [c]
  | .pushStored c _ => (t, c) ∈ s.held ∧
      putCells s.hist = poppedCells s.hist ++ s.pFifoDogMsg.contents ++ [c]
  | _ => True

/-- A push of the receive thread is about a cell in its hands. -/
def BackOf (s : Rings T) : CallPc MsgCell → Prop
  | .pushRoom c _ => c ∈ s.drained
  | .pushStored c _ => c ∈ s.drained
  | _ => True

/-- `own`: every cell is in one of the rings or in the hands of one thread, and only once. -/
structure RingsInv (s : Rings T) : Prop where
  length : s.pFifoDogMsg.length = DOG2CATIOMSGNUM
  lengthFree : s.pFifoDogMsgFree.length = DOG2CATIOMSGNUM
  own : (s.pFifoDogMsgFree.contents ++ (s.held.map Prod.snd ++
    (s.pFifoDogMsg.contents ++ s.drained))).Perm (List.finRange (DOG2CATIOMSGNUM - 1))
  oneGet : AtMostOne InGet s.worker
  onePut : AtMostOne InPut s.worker
  getAt : ∀ t, PopAt s.pFifoDogMsgFree (s.worker t)
  putAt : ∀ t, PushAt s.pFifoDogMsg (s.worker t)
  putOf : ∀ t, PutOf s t (s.worker t)
  drainAt : PopAt s.pFifoDogMsg s.receiver
  backAt : PushAt s.pFifoDogMsgFree s.receiver
  backOf : BackOf s s.receiver
  order : (∀ t, ¬InPut (s.worker t)) →
    putCells s.hist = poppedCells s.hist ++ s.pFifoDogMsg.contents
  out : ∀ c, outAfter c s.hist = true ↔ c ∉ s.pFifoDogMsgFree.contents
  given : GivenOnce s.hist

/-! ## What one step preserves -/

section Facts

variable {P : CallPc MsgCell → Prop} {worker : T → CallPc MsgCell} {t : T} {pc : CallPc MsgCell}

theorem AtMostOne.update [DecidableEq T] (h : AtMostOne P worker)
    (hpc : P pc → P (worker t) ∨ ∀ t', ¬P (worker t')) :
    AtMostOne P (Function.update worker t pc) := by
  intro a b ha hb
  by_cases hat : a = t
  · by_cases hbt : b = t
    · exact hat.trans hbt.symm
    · rw [hat, Function.update_self] at ha
      rw [Function.update_of_ne hbt] at hb
      rcases hpc ha with htt | hno
      · exact hat.trans (h t b htt hb)
      · exact absurd hb (hno b)
  · rw [Function.update_of_ne hat] at ha
    by_cases hbt : b = t
    · rw [hbt, Function.update_self] at hb
      rcases hpc hb with htt | hno
      · exact (h a t ha htt).trans hbt.symm
      · exact absurd ha (hno a)
    · rw [Function.update_of_ne hbt] at hb
      exact h a b ha hb

/-- What holds of every worker still does when one of them moved to where it holds. -/
theorem forall_set [DecidableEq T] {Q : T → CallPc MsgCell → Prop} (h : ∀ t', Q t' (worker t'))
    (hpc : Q t pc) :
    ∀ t', Q t' (Function.update worker t pc t') := by
  intro t'
  by_cases htt : t' = t
  · rw [htt, Function.update_self]
    exact hpc
  · rw [Function.update_of_ne htt]
    exact h t'

/-- The worker that is where `P` says is the only one. -/
theorem AtMostOne.others (h : AtMostOne P worker) (ht : P (worker t)) {t' : T} (hne : t' ≠ t) :
    ¬P (worker t') :=
  fun ht' => hne (h t' t ht' ht)

/-- What the one worker for which it matters is given holds of all. -/
theorem AtMostOne.forall_set [DecidableEq T] {Q : T → CallPc MsgCell → Prop} (h : AtMostOne P worker)
    (ht : P (worker t)) (hQ : ∀ t' pc', ¬P pc' → Q t' pc') (hpc : Q t pc) :
    ∀ t', Q t' (Function.update worker t pc t') := by
  intro t'
  by_cases htt : t' = t
  · rw [htt, Function.update_self]
    exact hpc
  · rw [Function.update_of_ne htt]
    exact hQ t' _ (h.others ht htt)

theorem none_of_update [DecidableEq T] (h : ∀ t', ¬P (Function.update worker t pc t'))
    (ht : ¬P (worker t)) :
    ∀ t', ¬P (worker t') := by
  intro t'
  by_cases htt : t' = t
  · rw [htt]
    exact ht
  · have hne := h t'
    rw [Function.update_of_ne htt] at hne
    exact hne

theorem popAt_of_not {f : FifoRing MsgCell} (h : ¬InGet pc) : PopAt f pc := by
  cases pc with
  | popFound => exact absurd trivial h
  | popRead _ => exact absurd trivial h
  | _ => trivial

theorem pushAt_of_not {f : FifoRing MsgCell} (h : ¬InPut pc) : PushAt f pc := by
  cases pc with
  | pushRoom _ _ => exact absurd trivial h
  | pushStored _ _ => exact absurd trivial h
  | _ => trivial

theorem putOf_of_not {s : Rings T} (h : ¬InPut pc) : PutOf s t pc := by
  cases pc with
  | pushRoom _ _ => exact absurd trivial h
  | pushStored _ _ => exact absurd trivial h
  | _ => trivial

theorem PutOf.imp {s s' : Rings T} (h : PutOf s t pc)
    (hheld : ∀ c, (t, c) ∈ s.held → (t, c) ∈ s'.held)
    (hput : putCells s'.hist = putCells s.hist)
    (hqueue : poppedCells s'.hist ++ s'.pFifoDogMsg.contents =
      poppedCells s.hist ++ s.pFifoDogMsg.contents) : PutOf s' t pc := by
  cases pc with
  | pushRoom c w => exact ⟨hheld c h.1, by rw [hput, hqueue]; exact h.2⟩
  | pushStored c w => exact ⟨hheld c h.1, by rw [hput, hqueue]; exact h.2⟩
  | _ => trivial

theorem BackOf.imp {s s' : Rings T} (h : BackOf s pc) (hdrained : ∀ c ∈ s.drained, c ∈ s'.drained) :
    BackOf s' pc := by
  cases pc with
  | pushRoom c w => exact hdrained c h
  | pushStored c w => exact hdrained c h
  | _ => trivial

end Facts

section History

variable {hist : List (RingEvent T)} {c c' : MsgCell} {t : T}

@[simp] theorem outAfter_got :
    outAfter c (hist ++ [.got t c']) = if c' = c then true else outAfter c hist := by
  simp only [outAfter, List.foldl_append, List.foldl_cons, List.foldl_nil]

@[simp] theorem outAfter_back :
    outAfter c (hist ++ [.back c']) = if c' = c then false else outAfter c hist := by
  simp only [outAfter, List.foldl_append, List.foldl_cons, List.foldl_nil]

@[simp] theorem outAfter_put : outAfter c (hist ++ [.put t c']) = outAfter c hist := by
  simp only [outAfter, List.foldl_append, List.foldl_cons, List.foldl_nil]

@[simp] theorem outAfter_popped : outAfter c (hist ++ [.popped c']) = outAfter c hist := by
  simp only [outAfter, List.foldl_append, List.foldl_cons, List.foldl_nil]

theorem putCells_append {e : RingEvent T} :
    putCells (hist ++ [e]) = putCells hist ++ putCells [e] :=
  List.filterMap_append

theorem poppedCells_append {e : RingEvent T} :
    poppedCells (hist ++ [e]) = poppedCells hist ++ poppedCells [e] :=
  List.filterMap_append

/-- A history that goes on keeps its promise unless a cell is given out that is out. -/
theorem GivenOnce.append (h : GivenOnce hist) {e : RingEvent T}
    (he : ∀ t c, e = .got t c → outAfter c hist = false) : GivenOnce (hist ++ [e]) := by
  intro before t c after heq
  rcases List.eq_nil_or_concat' after with rfl | ⟨after', e', rfl⟩
  · obtain ⟨rfl, hlast⟩ := List.append_inj' heq rfl
    exact he t c (List.cons.inj hlast).1
  · rw [← List.cons_append, ← List.append_assoc] at heq
    obtain ⟨hinit, -⟩ := List.append_inj' heq rfl
    exact h before t c after' hinit

end History

end Model

end Netflow
