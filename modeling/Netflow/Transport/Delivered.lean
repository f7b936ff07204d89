import Netflow.Stream.Push
import Netflow.Transport.Step

set_option autoImplicit false

/-! # A message gets through

With nothing else under way, the text that is put for a client with nothing left to send is drained
into its list, picked up and sent on its connection, and its cell goes back to the free ring. What one
block after the other does is said of the server, so that it serves runs of any guard.
-/

namespace Netflow

/-- The first `get_stream_len` bytes at `get_stream_ptr` are the text. -/
theorem take_stream_len (st : Stream) :
    (st.block.drop (get_stream_ptr st)).take (get_stream_len st) = st.text.chars := by
  have hprefix : st.text.chars <+: st.block.drop (get_stream_ptr st) := List.takeWhile_prefix _
  exact (List.prefix_iff_eq_take.mp hprefix).symm

/-- A client that has nothing left to send, in a server with no message under way. -/
structure Idle (s : Server) (i : Slot) : Prop where
  ring : s.pFifoDogMsg.contents = []
  room : 1 < s.pFifoDogMsg.length
  work : i ∈ s.WorkClientList
  list : (s.ClientInfo i).ListSendMsg = []
  len : (s.ClientInfo i).iCurSendLen = 0
  current : (s.ClientInfo i).pCurSendMsg = none
  status : (s.ClientInfo i).lSocketStatus = .STATUS_SOCKET_CONNECT
  open' : (s.ClientInfo i).lStatus ≠ .STATUS_IOCLOSEED

/-- A cell that is stamped with a slot and the session it has now. -/
structure Addressed (s : Server) (c : MsgCell) (i : Slot) : Prop where
  slot : (s.cells c).pClientInfo = i
  session : (s.cells c).iSessionID = (s.ClientInfo i).iSessionID

namespace Server

/-- The string was put in the cell `c` and picked up by the client `i`, which has all of it to send. -/
structure UnderWay (s : Server) (c : MsgCell) (i : Slot) (str : CStr) (s' : Server) : Prop where
  work : i ∈ s'.WorkClientList
  len : (s'.ClientInfo i).iCurSendLen = str.chars.length
  bytes : s'.bytesToSend i str.chars.length = str.chars
  current : (s'.ClientInfo i).pCurSendMsg = some c
  list : (s'.ClientInfo i).ListSendMsg = []
  accepted : s'.hist.accepted = s.hist.accepted
  conn : s'.hist.conn = s.hist.conn
  put : s'.hist.put = s.hist.put ++ [{ s.hist.msg c with text := str }]
  picked : s'.hist.picked = s.hist.picked ++
    [{ slot := i, session := (s.ClientInfo i).iSessionID, conn := s.hist.conn i,
       msg := { s.hist.msg c with text := str } }]
  sent : s'.hist.sent = s.hist.sent
  pushed : s'.hist.pushed.length = s.hist.pushed.length + 1

/-- The string was put in the cell `c`, picked up by the client `i` and sent, and the cell was pushed
into the free ring. -/
structure Delivered (s : Server) (c : MsgCell) (i : Slot) (str : CStr) (s' : Server) : Prop where
  accepted : s'.hist.accepted = s.hist.accepted
  put : s'.hist.put = s.hist.put ++ [{ s.hist.msg c with text := str }]
  picked : s'.hist.picked = s.hist.picked ++
    [{ slot := i, session := (s.ClientInfo i).iSessionID, conn := s.hist.conn i,
       msg := { s.hist.msg c with text := str } }]
  sent : s'.hist.sent = s.hist.sent ++ [(s.hist.conn i, str.chars)]
  pushed : s'.hist.pushed.length = s.hist.pushed.length + 2

/-- A message for the session of a connected slot goes to the end of its list. -/
theorem popDogMsg_current {s : Server} {c : MsgCell} {ring : FifoRing MsgCell} {i : Slot}
    (hpop : FifoPop s.pFifoDogMsg = some (c, ring)) (haddressed : Addressed s c i)
    (hstatus : (s.ClientInfo i).lSocketStatus = .STATUS_SOCKET_CONNECT) :
    s.popDogMsg = some (({ s with pFifoDogMsg := ring } : Server).setClient i fun ci =>
      { ci with ListSendMsg := ci.ListSendMsg ++ [c] }) := by
  rw [popDogMsg, hpop]
  simp only [haddressed.slot, haddressed.session, hstatus, ne_eq, not_true_eq_false, or_self, if_false]

end Server

namespace Idle

variable {s : Server} {c : MsgCell} {i : Slot} {str : CStr}

/-- What is put is the only message in the ring. -/
theorem popped (h : Idle s i) (c : MsgCell) (str : CStr) :
    ∃ ring, FifoPop ((s.pushString c str).IoPutSendMsgCell c).pFifoDogMsg = some (c, ring) := by
  have hcontents : ((s.pushString c str).IoPutSendMsgCell c).pFifoDogMsg.contents = [c] := by
    have hpush := (FifoPush_of_room (f := s.pFifoDogMsg) c (by
      rw [← FifoRing.length_contents, h.ring]
      exact h.room)).2.1
    rw [h.ring] at hpush
    exact hpush
  cases hpop : FifoPop ((s.pushString c str).IoPutSendMsgCell c).pFifoDogMsg with
  | none =>
      rw [FifoPop_eq_none_iff, hcontents] at hpop
      cases hpop
  | some r =>
      obtain ⟨d, ring⟩ := r
      have hhead := (contents_FifoPop hpop).1
      rw [hcontents] at hhead
      rw [(List.cons_eq_cons.mp hhead).1]
      exact ⟨ring, rfl⟩

/-- **A message is drained and picked up**: the receive thread moves what was put for an idle client to
its list, and the first pass makes it the current message. -/
theorem picked_up (h : Idle s i) (hc : Addressed s c i)
    (htext : (push_stream_string (s.cells c).hStream str (s.heap c)).text = str) :
    ∃ s₂, ((s.pushString c str).IoPutSendMsgCell c).popDogMsg = some s₂ ∧
      i ∈ s₂.WorkClientList ∧ (s₂.ClientInfo i).lStatus ≠ .STATUS_IOCLOSEED ∧
      (s₂.ClientInfo i).pCurSendMsg = none ∧ s.UnderWay c i str (s₂.firstPass i) := by
  set s₁ := (s.pushString c str).IoPutSendMsgCell c with hs₁
  have hcell : s₁.cells c = { s.cells c with
      hStream := push_stream_string (s.cells c).hStream str (s.heap c) } :=
    Server.putString_cells_self s c str
  obtain ⟨ring, hpop⟩ := h.popped c str
  have haddressed : Addressed s₁ c i := ⟨by rw [hcell]; exact hc.slot, by rw [hcell]; exact hc.session⟩
  refine ⟨_, Server.popDogMsg_current hpop haddressed h.status, h.work, ?_, ?_, ?_⟩
  · rw [Server.setClient_ClientInfo_self]
    exact h.open'
  · rw [Server.setClient_ClientInfo_self]
    exact h.current
  set s₂ := ({ s₁ with pFifoDogMsg := ring } : Server).setClient i (fun ci =>
    { ci with ListSendMsg := ci.ListSendMsg ++ [c] }) with hs₂
  have hclient : s₂.ClientInfo i =
      { s.ClientInfo i with ListSendMsg := (s.ClientInfo i).ListSendMsg ++ [c] } :=
    Server.setClient_ClientInfo_self ..
  have hpass : s₂.firstPass i = s₂.startMessage i c [] := by
    simp only [Server.firstPass, Server.pickUp, hclient, h.status, h.len, h.list, List.nil_append]
    rfl
  have hcurrent : (s₂.startMessage i c []).ClientInfo i =
      Server.withCurrent c (s₁.cells c).hStream [] (s₂.ClientInfo i) :=
    Server.setClient_ClientInfo_self ..
  have hstream : (s₁.cells c).hStream.text = str := by
    rw [hcell]
    exact htext
  have hmsg : s₂.hist.msg c = { s.hist.msg c with text := str } := Function.update_self ..
  rw [hpass]
  refine ⟨h.work, ?_, ?_, by rw [hcurrent]; rfl, by rw [hcurrent]; rfl, rfl, rfl, ?_, ?_, rfl, ?_⟩
  · rw [hcurrent]
    exact congrArg (fun t : CStr => t.chars.length) hstream
  · -- what is left to send is the text in the stream of the cell
    have htake := take_stream_len (s₁.cells c).hStream
    rw [get_stream_len, hstream] at htake
    simp only [Server.bytesToSend, hcurrent, Server.withCurrent]
    exact htake
  · exact congrArg (fun m => s.hist.put ++ [m]) hmsg
  · refine congrArg (fun e => s.hist.picked ++ [e]) ?_
    rw [hmsg, hclient]
    rfl
  · show (s.hist.pushed ++ [_]).length = _
    rw [List.length_append]
    rfl

end Idle

namespace Server.UnderWay

variable {s s' : Server} {c : MsgCell} {i : Slot} {str : CStr}

/-- **A message is sent** by a `send` that takes all of it. -/
theorem delivered (h : s.UnderWay c i str s') :
    s.Delivered c i str (s'.sendPump i str.chars.length) := by
  set n := str.chars.length with hn
  -- the completion of the message, with no other one to pick up
  obtain ⟨status, hsent⟩ : ∃ status, s'.sendPump i n =
      (((s'.logSent i (s'.bytesToSend i n)).pushFree c).setClient i fun ci =>
        { ci with iCurSendLen := 0, pCurSendMsg := none, lStatus := status }) := by
    have hzero : (s'.ClientInfo i).iCurSendLen - n = 0 := by
      rw [h.len, Nat.sub_self]
    by_cases hclose : (s'.ClientInfo i).lStatus = .STATUS_IOCMDCLOSE
    · refine ⟨.STATUS_UNKNOWN, ?_⟩
      simp only [Server.sendPump, Server.sendCompleted, Server.setClient, Server.logSent,
        Server.pushFree, Server.CLIENTTOEND, Function.update_self, Function.update_idem, hzero,
        Nat.lt_irrefl, if_false, h.current, h.list, ne_eq, not_true_eq_false, hclose, if_true]
    · refine ⟨(s'.ClientInfo i).lStatus, ?_⟩
      simp only [Server.sendPump, Server.sendCompleted, Server.setClient, Server.logSent,
        Server.pushFree, Function.update_self, Function.update_idem, hzero, Nat.lt_irrefl, if_false,
        h.current, h.list, ne_eq, not_true_eq_false, hclose]
  rw [hsent]
  refine ⟨h.accepted, h.put, h.picked, ?_, ?_⟩
  · show s'.hist.sent ++ [(s'.hist.conn i, s'.bytesToSend i n)] = _
    rw [h.sent, h.conn, h.bytes]
  · show (s'.hist.pushed ++ [_]).length = _
    rw [List.length_append, h.pushed]
    rfl

end Server.UnderWay

/-! ## Runs of the transport -/

/-- What the receive thread does with the messages of a client. -/
def TransportAction.Receives (i : Slot) : TransportAction → Prop
  | .drain => True
  | .pickUp j | .send j _ => j = i
  | _ => False

section Runs

variable {C : Pool → TransportAction → Prop} {p : Pool} {c : MsgCell} {i : Slot} {str : MsgText}

/-- A text that a handler puts for an idle client is picked up. -/
theorem put_picked_up (hidle : Idle p.srv i) (hc : Addressed p.srv c i) (hheld : c ∈ p.held)
    (htext : (push_stream_string (p.srv.cells c).hStream str.text (p.srv.heap c)).text = str.text)
    (hput : C p (.put c str)) (hreceive : ∀ (q : Pool) (a : TransportAction), a.Receives i → C q a) :
    ∃ p', Reach transportStep C p p' ∧ p.srv.UnderWay c i str.text p'.srv := by
  obtain ⟨s₂, hpop, hwork, hopen, -, hunderWay⟩ := hidle.picked_up hc htext
  have h₁ : Reach transportStep C p ⟨(p.srv.pushString c str.text).IoPutSendMsgCell c, p.held.erase c⟩ :=
    Reach.start.next hput (if_pos hheld)
  have h₂ := h₁.next (a := .drain) (hreceive _ .drain trivial)
    (show _ = some (⟨s₂, p.held.erase c⟩ : Pool) by simp only [transportStep, hpop, Option.map_some])
  exact ⟨_, h₂.next (a := .pickUp i) (hreceive _ (.pickUp i) rfl) (if_pos ⟨hwork, hopen⟩), hunderWay⟩

/-- **A text that a handler puts for an idle client is sent on its connection.** -/
theorem put_delivered (hidle : Idle p.srv i) (hc : Addressed p.srv c i) (hheld : c ∈ p.held)
    (htext : (push_stream_string (p.srv.cells c).hStream str.text (p.srv.heap c)).text = str.text)
    (hne : str.text.chars ≠ []) (hput : C p (.put c str))
    (hreceive : ∀ (q : Pool) (a : TransportAction), a.Receives i → C q a) :
    ∃ p', Reach transportStep C p p' ∧ p.srv.Delivered c i str.text p'.srv := by
  obtain ⟨q, hq, hunderWay⟩ := put_picked_up hidle hc hheld htext hput hreceive
  have hsend := transportStep_send hunderWay.work (List.length_pos_of_ne_nil hne)
    (Nat.le_of_eq hunderWay.len.symm)
  exact ⟨_, hq.next (hreceive q (.send i _) rfl) hsend, hunderWay.delivered⟩

/-! ## The first connection -/

/-- The first connection has the slot 15, and a handler holds the cell `c` for it. -/
structure FirstCell (p : Pool) (c : MsgCell) : Prop where
  held : c ∈ p.held
  idle : Idle p.srv 15
  addressed : Addressed p.srv c 15
  stream : (p.srv.cells c).hStream = reset_stream (init_stream 0 MSGINITSIZE)
  conn : p.srv.hist.conn 15 = 1
  session : (p.srv.ClientInfo 15).iSessionID = 1
  msg : (p.srv.hist.msg c).conn = 1
  accepted : p.srv.hist.accepted = 1
  put : p.srv.hist.put = []
  picked : p.srv.hist.picked = []
  sent : p.srv.hist.sent = []

/-- A client connects and a cell is obtained for it. -/
theorem exists_firstCell {filled : FifoRing MsgCell × List Ret} (hfilled : filled.1.contents ≠ [])
    (haccept : C ⟨initialServer (fun _ => 0) filled, []⟩ (.accept 7)) (hget : ∀ q, C q (.get 15)) :
    ∃ p c, Reach transportStep C ⟨initialServer (fun _ => 0) filled, []⟩ p ∧ FirstCell p c ∧
      p.srv.hist.pushed = filled.2 := by
  set s := (initialServer (fun _ => 0) filled).acceptClient 7 with hs
  have hfree : FifoPop s.pFifoDogMsgFree ≠ none := by
    rw [ne_eq, FifoPop_eq_none_iff]
    exact hfilled
  obtain ⟨⟨c, ring⟩, hpop⟩ := Option.ne_none_iff_exists'.mp hfree
  have hgot : s.IoGetSendMsgCell 15 = (some c, s.stampCell 15 c ring) := by
    rw [Server.IoGetSendMsgCell, hpop]
  have h₁ : Reach transportStep C ⟨initialServer (fun _ => 0) filled, []⟩ ⟨s, []⟩ :=
    Reach.start.next (a := .accept 7) haccept rfl
  have h₂ := h₁.next (a := .get 15) (hget _)
    (show _ = some (⟨s.stampCell 15 c ring, [c]⟩ : Pool) by
      simp only [transportStep, hgot, Option.toList_some, List.append_nil])
  have hcell := Server.stampCell_cells_self s 15 c ring
  have hidle : Idle (s.stampCell 15 c ring) 15 := ⟨contents_newRing,
    by show 1 < DOG2CATIOMSGNUM; decide, List.mem_cons_self, rfl, rfl, rfl, rfl,
    fun h => CLIENTSTATUS.noConfusion h⟩
  refine ⟨_, c, h₂, ⟨List.mem_cons_self, hidle, ⟨by rw [hcell], by rw [hcell]; rfl⟩, by rw [hcell]; rfl,
    rfl, rfl, ?_, rfl, rfl, rfl, rfl⟩, rfl⟩
  show ((s.stampCell 15 c ring).hist.msg c).conn = 1
  rw [Server.stampCell_msg_self]
  rfl

end Runs

/-- A text for the first connection. -/
def hello : MsgText := ⟨CStr.lit "hello", by decide⟩

/-- A fresh stream takes what fits its size. -/
theorem pushable_init {len : Nat} (h : len ≤ MSGINITSIZE) (answer : Answer) :
    Pushable (reset_stream (init_stream 0 MSGINITSIZE)) len answer := by
  rw [Pushable, if_pos (show len ≤ (reset_stream (init_stream 0 MSGINITSIZE)).size from h)]
  simp only [reset_stream, init_stream, List.length_replicate, MIN_MALLOC_LEN, MSGINITSIZE] at h ⊢
  omega

theorem pushable_hello (answer : Answer) :
    Pushable (reset_stream (init_stream 0 MSGINITSIZE)) hello.text.chars.length answer :=
  pushable_init (by decide) answer

theorem FirstCell.text {p : Pool} {c : MsgCell} (h : FirstCell p c) :
    (push_stream_string (p.srv.cells c).hStream hello.text (p.srv.heap c)).text = hello.text := by
  rw [h.stream]
  exact (push_reset (streamOk_init 0) hello.fits (pushable_hello _)).2

theorem fillFree_ne_nil : (fillFree (DOG2CATIOMSGNUM - 1) (Nat.le_refl _)).1.contents ≠ [] := by
  intro hnil
  have hlen := congrArg List.length (fillFree_spec (DOG2CATIOMSGNUM - 1) (Nat.le_refl _)).2.1
  rw [hnil, List.length_range] at hlen
  exact absurd hlen (by decide)

/-- **The first text gets through**: from the start a client connects, a handler puts a text for it, and
the receive thread sends it, under any guard that these steps meet. -/
theorem hello_delivered {C : Pool → TransportAction → Prop}
    (haccept : C (transportInit fun _ => 0) (.accept 7)) (hget : ∀ q, C q (.get 15))
    (hput : ∀ (q : Pool) (c : MsgCell),
      (q.srv.cells c).hStream = reset_stream (init_stream 0 MSGINITSIZE) → C q (.put c hello))
    (hreceive : ∀ (q : Pool) (a : TransportAction), a.Receives 15 → C q a) :
    ∃ p q c, FirstCell q c ∧ q.srv.hist.pushed = (transportInit fun _ => 0).srv.hist.pushed ∧
      q.srv.Delivered c 15 hello.text p.srv ∧
      Reach transportStep C (transportInit fun _ => 0) p := by
  obtain ⟨q, c, hq, hcell, hpushed⟩ := exists_firstCell fillFree_ne_nil haccept hget
  obtain ⟨p, hp, hdelivered⟩ := put_delivered hcell.idle hcell.addressed hcell.held hcell.text
    (by decide) (hput q c hcell.stream) hreceive
  exact ⟨p, q, c, hcell, hpushed, hdelivered, hq.trans hp⟩

end Netflow
