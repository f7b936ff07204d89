import Netflow.Lib.Transition
import Netflow.Server.State

set_option autoImplicit false

/-! # Message cells and the receive thread (`cdogEar.c`)

The blocks that move message cells: `IoGetSendMsgCell` and `IoPutSendMsgCell`, the drain of
`pFifoDogMsg` into the clients' `ListSendMsg`, the pick-up of a message before `select`, the send
pump, and the recycling and reuse of a client slot.
-/

namespace Netflow

namespace Server

/-- A cell that was taken out of the free ring is stamped with a slot and its session, and its
stream is reset. -/
def stampCell (pClientInfo : Slot) (pSendMsg : MsgCell) (ring : FifoRing MsgCell) (s : Server) :
    Server :=
  let session := (s.ClientInfo pClientInfo).iSessionID
  { s with
    pFifoDogMsgFree := ring
    cells := Function.update s.cells pSendMsg
      { iSessionID := session
        pClientInfo := pClientInfo
        hStream := reset_stream (s.cells pSendMsg).hStream }
    hist := { s.hist with
      msg := Function.update s.hist.msg pSendMsg
        { id := s.hist.obtained, slot := pClientInfo, session := session,
          conn := s.hist.conn pClientInfo, text := CStr.lit "" }
      obtained := s.hist.obtained + 1 } }

/-- `IoGetSendMsgCell`: a free cell for the slot; the result is NULL when no cell is free. -/
def IoGetSendMsgCell (pClientInfo : Slot) (s : Server) : Option MsgCell × Server :=
  match FifoPop s.pFifoDogMsgFree with
  | none => (none, s)
  | some (pSendMsg, ring) => (some pSendMsg, s.stampCell pClientInfo pSendMsg ring)

/-- `push_stream_string(hRespStream, str)` on the stream of a cell. -/
def pushString (c : MsgCell) (str : CStr) (s : Server) : Server :=
  { s with
    cells := Function.update s.cells c
      { s.cells c with hStream := push_stream_string (s.cells c).hStream str (s.heap c) }
    hist := { s.hist with
      msg := Function.update s.hist.msg c { s.hist.msg c with text := str } } }

/-- `IoPutSendMsgCell`. -/
def IoPutSendMsgCell (c : MsgCell) (s : Server) : Server :=
  let s := s.pushMsg c
  { s with hist := { s.hist with put := s.hist.put ++ [s.hist.msg c] } }

/-- One turn of `POP_DOGMSG_2LISTTAIL`: a message whose session is over goes back to the free
ring, any other to the end of its client's list; `none` when `pFifoDogMsg` is empty. -/
def popDogMsg (s : Server) : Option Server :=
  match FifoPop s.pFifoDogMsg with
  | none => none
  | some (c, ring) =>
      let s := { s with pFifoDogMsg := ring }
      let i := (s.cells c).pClientInfo
      -- the session of the client may be over, and its slot given to another one
      if (s.cells c).iSessionID ≠ (s.ClientInfo i).iSessionID ∨
          (s.ClientInfo i).lSocketStatus ≠ .STATUS_SOCKET_CONNECT then
        some (s.pushFree c)
      else
        some (s.setClient i fun ci => { ci with ListSendMsg := ci.ListSendMsg ++ [c] })

/-- `POP_DOGMSG_2LISTTAIL`: every turn takes one message out of the ring, so the loop makes as many
turns as there are messages. -/
def POP_DOGMSG_2LISTTAIL (s : Server) : Server :=
  let rec turns : Nat → Server → Server
    | 0, s => s
    | n + 1, s =>
        match popDogMsg s with
        | none => s
        | some s' => turns n s'
  turns s.pFifoDogMsg.count s

/-- A client whose current message is now the cell `c` with the stream `st`. -/
def withCurrent (c : MsgCell) (st : Stream) (rest : List MsgCell) (ci : CLIENTINFO) : CLIENTINFO :=
  { ci with
    iCurSendLen := get_stream_len st
    pSndData := some (c, get_stream_ptr st)
    pCurSendMsg := some c
    ListSendMsg := rest }

/-- The cell `c` becomes the current one of a client, and `rest` is left in its list. -/
def startMessage (i : Slot) (c : MsgCell) (rest : List MsgCell) (s : Server) : Server :=
  { s.setClient i (withCurrent c (s.cells c).hStream rest) with
    hist := { s.hist with
      picked := s.hist.picked ++
        [{ slot := i, session := (s.ClientInfo i).iSessionID, conn := s.hist.conn i,
           msg := s.hist.msg c }] } }

/-- The first message of a client's list becomes its current one. -/
def pickUp (i : Slot) (s : Server) : Server :=
  match (s.ClientInfo i).ListSendMsg with
  | [] => s
  | c :: rest => s.startMessage i c rest

/-- The first pass over `WorkClientList` at a client that is not in `STATUS_IOCLOSEED`: a client
with nothing left to send gets its next message. -/
def firstPass (i : Slot) (s : Server) : Server :=
  let ci := s.ClientInfo i
  if ci.lSocketStatus = .STATUS_SOCKET_CLOSED then s
  else if 0 < ci.iCurSendLen then s
  else s.pickUp i

/-- The first pass at a client in `STATUS_IOCLOSEED`: its cells go back to the free ring, its
socket is closed and its slot becomes the first free one. `iCurSendLen`, `pSndData`, `CuteDog` and
the node `list1` keep their values. -/
def recycle (i : Slot) (s : Server) : Server :=
  let s := (s.ClientInfo i).ListSendMsg.foldl pushFree s
  let s := s.setClient i fun ci => { ci with ListSendMsg := [] }
  let s := match (s.ClientInfo i).pCurSendMsg with
    | none => s
    | some c => (s.pushFree c).setClient i fun ci => { ci with pCurSendMsg := none }
  let s := s.setClient i fun ci =>
    { ci with
      iSessionID := 0
      lSocketStatus := .STATUS_SOCKET_CLOSED
      lStatus := .STATUS_UNKNOWN
      lType := .CLIENT_UNKNOWN
      Prs := false }
  { s with
    WorkClientList := s.WorkClientList.erase i
    FreeClientList := i :: s.FreeClientList
    hist := { s.hist with conn := Function.update s.hist.conn i 0 } }

/-- A client whose slot was given to a new connection. `iCurSendLen`, `pSndData`, `pCurSendMsg`,
`CuteDog` and the node `list1` keep their values. -/
def connected (sd_accept iSessionID : Nat) (ci : CLIENTINFO) : CLIENTINFO :=
  { ci with
    Socket := sd_accept
    iSessionID := iSessionID
    iMsgNumID := 0
    lSocketStatus := .STATUS_SOCKET_CONNECT
    lStatus := .STATUS_UNKNOWN
    lType := .CLIENT_UNKNOWN
    Prs := true }

/-- The accept block: the new connection gets the first free slot, or is closed again when there is
none. -/
def acceptClient (sd_accept : Nat) (s : Server) : Server :=
  match s.FreeClientList with
  | [] => s
  | i :: rest =>
      let iSessionID := (s.iSessionID + 1) % 4294967296
      let s := s.setClient i (connected sd_accept iSessionID)
      { s with
        iSessionID := iSessionID
        FreeClientList := rest
        WorkClientList := i :: s.WorkClientList
        hist := { s.hist with
          accepted := s.hist.accepted + 1
          conn := Function.update s.hist.conn i (s.hist.accepted + 1) } }

/-- The part of `CLIENTTOEND` that changes the client. -/
def CLIENTTOEND (i : Slot) (s : Server) : Server :=
  s.setClient i fun ci => { ci with lStatus := .STATUS_UNKNOWN }

/-- The first `n` bytes `send` reads at a client's `pSndData`. -/
def bytesToSend (i : Slot) (n : Nat) (s : Server) : List Byte :=
  match (s.ClientInfo i).pSndData with
  | none => []
  | some p => ((s.cells p.1).hStream.block.drop p.2).take n

/-- The record that the connection of a slot accepted some bytes. -/
def logSent (i : Slot) (bytes : List Byte) (s : Server) : Server :=
  { s with hist := { s.hist with sent := s.hist.sent ++ [(s.hist.conn i, bytes)] } }

/-- The completion of a message in the send pump: its cell goes back to the free ring and the next
message, if any, is picked up; a client that was told to close ends when none is left. -/
def sendCompleted (i : Slot) (s : Server) : Server :=
  let s := match (s.ClientInfo i).pCurSendMsg with
    | none => s
    | some c => s.pushFree c
  let s := s.setClient i fun ci => { ci with iCurSendLen := 0, pCurSendMsg := none }
  -- the close command waits until all messages are sent
  if (s.ClientInfo i).ListSendMsg ≠ [] then s.pickUp i
  else if (s.ClientInfo i).lStatus = .STATUS_IOCMDCLOSE then s.CLIENTTOEND i
  else s

/-- The send pump when `send` has accepted `sn` bytes, `0 < sn ≤ iCurSendLen`. -/
def sendPump (i : Slot) (sn : Nat) (s : Server) : Server :=
  let s := s.logSent i (s.bytesToSend i sn)
  let s := s.setClient i fun ci => { ci with iCurSendLen := ci.iCurSendLen - sn }
  if 0 < (s.ClientInfo i).iCurSendLen then
    s.setClient i fun ci => { ci with pSndData := ci.pSndData.map fun p => (p.1, p.2 + sn) }
  else s.sendCompleted i

/-- The IO thread's store of `STATUS_IOCLOSEED`. -/
def ioClosed (i : Slot) (s : Server) : Server :=
  s.setClient i fun ci => { ci with lStatus := .STATUS_IOCLOSEED }

/-! ## What the blocks do -/

@[simp] theorem setClient_ClientInfo_self (s : Server) (i : Slot) (f : CLIENTINFO → CLIENTINFO) :
    (s.setClient i f).ClientInfo i = f (s.ClientInfo i) := Function.update_self ..

theorem setClient_ClientInfo_of_ne (s : Server) {i j : Slot} (f : CLIENTINFO → CLIENTINFO)
    (h : j ≠ i) : (s.setClient i f).ClientInfo j = s.ClientInfo j := Function.update_of_ne h ..

@[simp] theorem stampCell_cells_self (s : Server) (i : Slot) (c : MsgCell)
    (ring : FifoRing MsgCell) :
    (s.stampCell i c ring).cells c =
      { iSessionID := (s.ClientInfo i).iSessionID
        pClientInfo := i
        hStream := reset_stream (s.cells c).hStream } := Function.update_self ..

theorem stampCell_cells_of_ne (s : Server) (i : Slot) (ring : FifoRing MsgCell) {c d : MsgCell}
    (h : d ≠ c) : (s.stampCell i c ring).cells d = s.cells d := Function.update_of_ne h ..

/-- A cell with the string pushed into its stream. -/
theorem putString_cells_self (s : Server) (c : MsgCell) (str : CStr) :
    ((s.pushString c str).IoPutSendMsgCell c).cells c =
      { s.cells c with hStream := push_stream_string (s.cells c).hStream str (s.heap c) } :=
  Function.update_self ..

theorem putString_cells_of_ne (s : Server) (str : CStr) {c d : MsgCell} (h : d ≠ c) :
    ((s.pushString c str).IoPutSendMsgCell c).cells d = s.cells d := Function.update_of_ne h ..

@[simp] theorem stampCell_msg_self (s : Server) (i : Slot) (c : MsgCell)
    (ring : FifoRing MsgCell) :
    (s.stampCell i c ring).hist.msg c =
      { id := s.hist.obtained, slot := i, session := (s.ClientInfo i).iSessionID,
        conn := s.hist.conn i, text := CStr.lit "" } := Function.update_self ..

theorem stampCell_msg_of_ne (s : Server) (i : Slot) (ring : FifoRing MsgCell) {c d : MsgCell}
    (h : d ≠ c) : (s.stampCell i c ring).hist.msg d = s.hist.msg d := Function.update_of_ne h ..

/-- The server with another free ring and other push results. -/
def withFree (s : Server) (ring : FifoRing MsgCell) (pushed : List Ret) : Server :=
  { s with pFifoDogMsgFree := ring, hist := { s.hist with pushed := pushed } }

/-- `ring` and `pushed` are what pushing the cells `cs` makes of the free ring and of the push
results: when there is room for all of them they are appended and no push is refused. -/
structure Freed (s : Server) (cs : List MsgCell) (ring : FifoRing MsgCell) (pushed : List Ret) :
    Prop where
  length_eq : ring.length = s.pFifoDogMsgFree.length
  contents_eq : s.pFifoDogMsgFree.count + cs.length < s.pFifoDogMsgFree.length →
    ring.contents = s.pFifoDogMsgFree.contents ++ cs
  pushed_ok : s.pFifoDogMsgFree.count + cs.length < s.pFifoDogMsgFree.length →
    (∀ r ∈ s.hist.pushed, r = .RET_OK) → ∀ r ∈ pushed, r = .RET_OK

theorem freed_nil (s : Server) : Freed s [] s.pFifoDogMsgFree s.hist.pushed where
  length_eq := rfl
  contents_eq _ := (List.append_nil _).symm
  pushed_ok _ h := h

theorem pushFree_spec (s : Server) (c : MsgCell) :
    ∃ ring pushed, s.pushFree c = s.withFree ring pushed ∧ Freed s [c] ring pushed := by
  refine ⟨_, _, rfl, length_FifoPush _ _, ?_, ?_⟩
  · intro hroom
    exact (FifoPush_of_room c hroom).2.1
  · intro hroom hok r hr
    rcases List.mem_append.mp hr with hr | hr
    · exact hok r hr
    · rw [List.mem_singleton.mp hr]
      exact (FifoPush_of_room c hroom).1

/-- Pushing cells one after the other is pushing them all. -/
theorem Freed.append {s : Server} {cs ds : List MsgCell} {ring ring' : FifoRing MsgCell}
    {pushed pushed' : List Ret} (h : Freed s cs ring pushed)
    (h' : Freed (s.withFree ring pushed) ds ring' pushed') : Freed s (cs ++ ds) ring' pushed' where
  length_eq := h'.length_eq.trans h.length_eq
  contents_eq hroom := by
    rw [List.length_append] at hroom
    have hcontents := h.contents_eq (by omega)
    have hcount : ring.count = s.pFifoDogMsgFree.count + cs.length := by
      rw [← FifoRing.length_contents, hcontents, List.length_append, FifoRing.length_contents]
    have h1 := h'.contents_eq (by
      show ring.count + ds.length < ring.length
      rw [hcount, h.length_eq]
      omega)
    rw [h1, ← List.append_assoc, ← hcontents]
    rfl
  pushed_ok hroom hok := by
    rw [List.length_append] at hroom
    have hcontents := h.contents_eq (by omega)
    have hcount : ring.count = s.pFifoDogMsgFree.count + cs.length := by
      rw [← FifoRing.length_contents, hcontents, List.length_append, FifoRing.length_contents]
    refine h'.pushed_ok ?_ (h.pushed_ok (by omega) hok)
    show ring.count + ds.length < ring.length
    rw [hcount, h.length_eq]
    omega

theorem foldl_pushFree_spec (s : Server) (cs : List MsgCell) :
    ∃ ring pushed, cs.foldl pushFree s = s.withFree ring pushed ∧ Freed s cs ring pushed := by
  induction cs generalizing s with
  | nil => exact ⟨_, _, rfl, freed_nil s⟩
  | cons c cs ih =>
      obtain ⟨ring, pushed, hpush, hfreed⟩ := pushFree_spec s c
      obtain ⟨ring', pushed', hfold, hfreed'⟩ := ih (s.withFree ring pushed)
      refine ⟨ring', pushed', ?_, hfreed.append hfreed'⟩
      rw [List.foldl_cons, hpush, hfold]
      rfl

/-- A slot after its recycling. -/
def recycled (ci : CLIENTINFO) : CLIENTINFO :=
  { ci with
    ListSendMsg := []
    pCurSendMsg := none
    iSessionID := 0
    lSocketStatus := .STATUS_SOCKET_CLOSED
    lStatus := .STATUS_UNKNOWN
    lType := .CLIENT_UNKNOWN
    Prs := false }

/-- The cells in a client's list and its current one. -/
def cellsOf (ci : CLIENTINFO) : List MsgCell := ci.ListSendMsg ++ ci.pCurSendMsg.toList

theorem recycle_spec (i : Slot) (s : Server) :
    ∃ ring pushed, Freed s (cellsOf (s.ClientInfo i)) ring pushed ∧
      s.recycle i =
        { (s.withFree ring pushed).setClient i recycled with
          WorkClientList := s.WorkClientList.erase i
          FreeClientList := i :: s.FreeClientList
          hist := { s.hist with conn := Function.update s.hist.conn i 0, pushed := pushed } } := by
  obtain ⟨ring, pushed, hfold, hfreed⟩ := foldl_pushFree_spec s (s.ClientInfo i).ListSendMsg
  cases hcur : (s.ClientInfo i).pCurSendMsg with
  | none =>
      refine ⟨ring, pushed, by simpa [cellsOf, hcur] using hfreed, ?_⟩
      simp only [recycle, hfold, withFree, setClient, Function.update_self, hcur,
        Function.update_idem, recycled]
  | some c =>
      obtain ⟨ring', pushed', hpush, hfreed'⟩ := pushFree_spec (s.withFree ring pushed) c
      refine ⟨ring', pushed', by simpa [cellsOf, hcur] using hfreed.append hfreed', ?_⟩
      have hpush' : ∀ ci, pushFree { s.withFree ring pushed with ClientInfo := ci } c
          = { s.withFree ring' pushed' with ClientInfo := ci } := by
        intro ci
        have hring : (FifoPush ring c).2 = ring' := congrArg Server.pFifoDogMsgFree hpush
        have hpushed : pushed ++ [(FifoPush ring c).1] = pushed' :=
          congrArg (fun s : Server => s.hist.pushed) hpush
        simp only [pushFree, withFree, hring, hpushed]
      simp only [recycle, hfold, setClient, Function.update_self]
      simp only [withFree] at hpush' ⊢
      simp only [hcur, hpush', Function.update_self, Function.update_idem, recycled]

theorem sendPump_of_lt {i : Slot} {sn : Nat} {s : Server}
    (h : sn < (s.ClientInfo i).iCurSendLen) :
    s.sendPump i sn = (s.logSent i (s.bytesToSend i sn)).setClient i fun ci =>
      { ci with
        iCurSendLen := ci.iCurSendLen - sn
        pSndData := ci.pSndData.map fun p => (p.1, p.2 + sn) } := by
  have hpos : 0 < (s.ClientInfo i).iCurSendLen - sn := by omega
  simp only [sendPump, setClient, logSent, Function.update_self, hpos, if_true,
    Function.update_idem]

/-- A completed send: the current cell is freed and nothing is left to send, then the next message
is picked up. -/
theorem sendPump_of_le {i : Slot} {sn : Nat} {s : Server}
    (h : (s.ClientInfo i).iCurSendLen ≤ sn) :
    ∃ ring pushed, Freed s (s.ClientInfo i).pCurSendMsg.toList ring pushed ∧
      let base := ((s.withFree ring pushed).logSent i (s.bytesToSend i sn)).setClient i fun ci =>
        { ci with iCurSendLen := 0, pCurSendMsg := none }
      s.sendPump i sn =
        if (s.ClientInfo i).ListSendMsg ≠ [] then base.pickUp i
        else if (s.ClientInfo i).lStatus = .STATUS_IOCMDCLOSE then base.CLIENTTOEND i
        else base := by
  have hzero : (s.ClientInfo i).iCurSendLen - sn = 0 := by omega
  cases hcur : (s.ClientInfo i).pCurSendMsg with
  | none =>
      refine ⟨_, _, freed_nil s, ?_⟩
      simp only [sendPump, sendCompleted, setClient, logSent, withFree, Function.update_self,
        Function.update_idem, hzero, hcur, Nat.lt_irrefl, if_false]
  | some c =>
      obtain ⟨ring, pushed, hpush, hfreed⟩ := pushFree_spec s c
      refine ⟨ring, pushed, hfreed, ?_⟩
      have hring : (FifoPush s.pFifoDogMsgFree c).2 = ring :=
        congrArg Server.pFifoDogMsgFree hpush
      have hpushed : s.hist.pushed ++ [(FifoPush s.pFifoDogMsgFree c).1] = pushed :=
        congrArg (fun s : Server => s.hist.pushed) hpush
      simp only [sendPump, sendCompleted, setClient, logSent, withFree, Function.update_self,
        Function.update_idem, hzero, hcur, Nat.lt_irrefl, if_false, pushFree, hring, hpushed]

/-- A connection gets the first free slot. -/
theorem acceptClient_of_cons {s : Server} {i : Slot} {rest : List Slot} (sd : Nat)
    (h : s.FreeClientList = i :: rest) :
    s.acceptClient sd =
      { s.setClient i (connected sd ((s.iSessionID + 1) % 4294967296)) with
        iSessionID := (s.iSessionID + 1) % 4294967296
        FreeClientList := rest
        WorkClientList := i :: s.WorkClientList
        hist := { s.hist with
          accepted := s.hist.accepted + 1
          conn := Function.update s.hist.conn i (s.hist.accepted + 1) } } := by
  rw [acceptClient, h]
  rfl

/-! ## The drain of the queue -/

theorem popDogMsg_eq_none_iff (s : Server) : s.popDogMsg = none ↔ s.pFifoDogMsg.contents = [] := by
  rw [← FifoPop_eq_none_iff, popDogMsg]
  cases FifoPop s.pFifoDogMsg with
  | none => exact iff_of_true rfl rfl
  | some popped =>
      dsimp only
      split <;> exact iff_of_false (fun h => by cases h) (fun h => by cases h)

theorem contents_popDogMsg {s s' : Server} (h : s.popDogMsg = some s') :
    ∃ c, s.pFifoDogMsg.contents = c :: s'.pFifoDogMsg.contents := by
  rw [popDogMsg] at h
  cases hpop : FifoPop s.pFifoDogMsg with
  | none =>
      rw [hpop] at h
      cases h
  | some popped =>
      obtain ⟨c, ring⟩ := popped
      rw [hpop] at h
      dsimp only at h
      refine ⟨c, ?_⟩
      split at h <;> (cases h; exact (contents_FifoPop hpop).1)

section Drain

variable {σ α : Type} {step : σ → α → Option σ} {drain : α} (put : Server → σ)
  (hdrain : ∀ s, step (put s) drain = s.popDogMsg.map put)
include hdrain

/-- **`POP_DOGMSG_2LISTTAIL` is a run** of the single turns of the loop in any system that has them as a
step, and it leaves `pFifoDogMsg` empty. -/
theorem reach_POP_DOGMSG_2LISTTAIL (s : Server) :
    Reach step (fun _ a => a = drain) (put s) (put s.POP_DOGMSG_2LISTTAIL) ∧
      s.POP_DOGMSG_2LISTTAIL.pFifoDogMsg.contents = [] := by
  have hturns : ∀ (n : Nat) (s : Server), s.pFifoDogMsg.contents.length = n →
      Reach step (fun _ a => a = drain) (put s) (put (POP_DOGMSG_2LISTTAIL.turns n s)) ∧
        (POP_DOGMSG_2LISTTAIL.turns n s).pFifoDogMsg.contents = [] := by
    intro n
    induction n with
    | zero => exact fun s hlen => ⟨.start, List.eq_nil_of_length_eq_zero hlen⟩
    | succ n ih =>
        intro s hlen
        rw [POP_DOGMSG_2LISTTAIL.turns]
        cases hpop : s.popDogMsg with
        | none => exact ⟨.start, (popDogMsg_eq_none_iff s).mp hpop⟩
        | some s' =>
            obtain ⟨c, hc⟩ := contents_popDogMsg hpop
            rw [hc, List.length_cons] at hlen
            obtain ⟨hrun, hempty⟩ := ih s' (Nat.succ.inj hlen)
            have hturn : step (put s) drain = some (put s') := by rw [hdrain, hpop, Option.map_some]
            have hfirst : Reach step (fun _ a => a = drain) (put s) (put s') := Reach.start.next rfl hturn
            exact ⟨hfirst.trans hrun, hempty⟩
  exact hturns _ s s.pFifoDogMsg.length_contents

end Drain

end Server

end Netflow
