import Netflow.Stream.Push
import Netflow.Transport.Session

set_option autoImplicit false

/-! # The bytes sent on a connection

The send pump keeps its progress in `iCurSendLen`, `pSndData` and `pCurSendMsg`. `Sending` says what
they mean: for a slot that serves a connection, the bytes sent on the connection followed by the
`iCurSendLen` bytes at `pSndData` are the texts of the messages picked up for it. A recycled slot
keeps `iCurSendLen` and `pSndData`, so this fails when a connection is accepted into a slot that was
closed with bytes left to send: the new connection gets them.
-/

namespace Netflow

/-- The bytes of the texts of some messages. -/
def bytesOf (ms : List Msg) : List Byte := ms.flatMap fun m => m.text.chars

theorem bytesOf_append (ms ns : List Msg) : bytesOf (ms ++ ns) = bytesOf ms ++ bytesOf ns :=
  List.flatMap_append

theorem bytesOf_mono {ms ns : List Msg} (h : ms <+: ns) : bytesOf ms <+: bytesOf ns := by
  obtain ⟨rest, rfl⟩ := h
  rw [bytesOf_append]
  exact List.prefix_append _ _

namespace Server

/-- The bytes `send` has accepted on connection `n`. -/
def sentTo (s : Server) (n : Nat) : List Byte :=
  (s.hist.sent.filter fun e => decide (e.1 = n)).flatMap Prod.snd

/-- The messages put for connection `n`. -/
def putFor (s : Server) (n : Nat) : List Msg := Mailroom.forConn Msg.conn n s.hist.put

/-- The messages picked up by connection `n`. -/
def pickedFor (s : Server) (n : Nat) : List Msg := (s.mail []).takenBy n

/-- The bytes a slot has left to send. -/
def unsent (s : Server) (i : Slot) : List Byte := s.bytesToSend i (s.ClientInfo i).iCurSendLen

end Server

/-- Output bytes belong to their connection. -/
def OutputOk (p : Pool) : Prop := ∀ n, p.srv.sentTo n <+: bytesOf (p.srv.putFor n)

/-- An accept takes a slot with nothing left to send, under a fresh session, and a text is put only
when its push finds room. -/
def CleanReuse (p : Pool) : TransportAction → Prop
  | .accept sd => FreshSession p (.accept sd) ∧
      ∀ i ∈ p.srv.FreeClientList.head?, (p.srv.ClientInfo i).iCurSendLen = 0
  | .put c str => Pushable (p.srv.cells c).hStream str.text.chars.length (p.srv.heap c)
  | _ => True

/-- What the fields of the send pump mean. -/
structure Sending (s : Server) (held : List MsgCell) : Prop where
  streams : ∀ c, StreamOk (s.cells c).hStream
  held_reset : ∀ c ∈ held, reset_stream (s.cells c).hStream = (s.cells c).hStream
  ready : ∀ c, (c ∈ s.pFifoDogMsg.contents ∨ ∃ i, c ∈ Server.cellsOf (s.ClientInfo i)) →
    (s.cells c).hStream.text = (s.hist.msg c).text
  current : ∀ i, s.hist.conn i ≠ 0 → 0 < (s.ClientInfo i).iCurSendLen →
    ∃ c off, (s.ClientInfo i).pCurSendMsg = some c ∧ (s.ClientInfo i).pSndData = some (c, off)
  flow : ∀ i, s.hist.conn i ≠ 0 →
    bytesOf (s.pickedFor (s.hist.conn i)) = s.sentTo (s.hist.conn i) ++ s.unsent i
  sent_pre : ∀ n, s.sentTo n <+: bytesOf (s.pickedFor n)

namespace Server

theorem unsent_eq_nil {s : Server} {i : Slot} (h : (s.ClientInfo i).iCurSendLen = 0) :
    s.unsent i = [] := by
  unfold unsent bytesToSend
  rw [h]
  cases (s.ClientInfo i).pSndData with
  | none => rfl
  | some p => exact List.take_zero

/-- What a slot has left to send does not depend on cells that are not its own. -/
theorem unsent_of_other_cell {s s' : Server} {i : Slot} {c : MsgCell}
    (hclient : s'.ClientInfo i = s.ClientInfo i)
    (hcells : ∀ d, d ≠ c → (s'.cells d).hStream = (s.cells d).hStream)
    (hc : c ∉ cellsOf (s.ClientInfo i))
    (hcurrent : 0 < (s.ClientInfo i).iCurSendLen →
      ∃ d off, (s.ClientInfo i).pCurSendMsg = some d ∧ (s.ClientInfo i).pSndData = some (d, off)) :
    s'.unsent i = s.unsent i := by
  by_cases hzero : (s.ClientInfo i).iCurSendLen = 0
  · rw [unsent_eq_nil hzero, unsent_eq_nil (by rw [hclient]; exact hzero)]
  · obtain ⟨d, off, hcur, hsnd⟩ := hcurrent (Nat.pos_of_ne_zero hzero)
    have hd : d ≠ c := by
      rintro rfl
      apply hc
      rw [cellsOf, hcur]
      exact List.mem_append_right _ List.mem_cons_self
    simp only [unsent, bytesToSend, hclient, hsnd, hcells d hd]

theorem sentTo_logSent (s : Server) (i : Slot) (bytes : List Byte) (n : Nat) :
    (s.logSent i bytes).sentTo n = s.sentTo n ++ if s.hist.conn i = n then bytes else [] := by
  unfold sentTo logSent
  rw [List.filter_append, List.flatMap_append]
  by_cases h : s.hist.conn i = n
  · simp [h]
  · simp [h]

/-- The first `n` bytes left to send and the others. -/
theorem bytesToSend_append (s : Server) (i : Slot) {n : Nat}
    (h : n ≤ (s.ClientInfo i).iCurSendLen) :
    s.unsent i = s.bytesToSend i n ++
      match (s.ClientInfo i).pSndData with
      | none => []
      | some p => ((s.cells p.1).hStream.block.drop (p.2 + n)).take
          ((s.ClientInfo i).iCurSendLen - n) := by
  unfold unsent bytesToSend
  cases (s.ClientInfo i).pSndData with
  | none => rfl
  | some p =>
      show List.take _ _ = List.take n _ ++ List.take _ _
      rw [← List.drop_drop]
      generalize (s.cells p.1).hStream.block.drop p.2 = bytes
      obtain ⟨rest, hrest⟩ := Nat.exists_eq_add_of_le h
      rw [hrest, List.take_add, Nat.add_sub_cancel_left]

end Server

/-- A client that just picked a message up has its text left to send. -/
theorem Server.unsent_startMessage (s : Server) (i : Slot) (c : MsgCell) (rest : List MsgCell) :
    (s.startMessage i c rest).unsent i = (s.cells c).hStream.text.chars := by
  have hclient : (s.startMessage i c rest).ClientInfo i =
      withCurrent c (s.cells c).hStream rest (s.ClientInfo i) := setClient_ClientInfo_self s i _
  rw [← take_stream_len]
  simp only [unsent, bytesToSend, hclient, withCurrent]
  rfl

/-! ## The steps of the send pump -/

namespace Sending

variable {s : Server} {held : List MsgCell}

/-- A change of a client that keeps the fields of the send pump and brings it no other cells. -/
theorem setClient (h : Sending s held) (i : Slot) {f : CLIENTINFO → CLIENTINFO}
    (hcells : ∀ c ∈ Server.cellsOf (f (s.ClientInfo i)),
      c ∈ s.pFifoDogMsg.contents ∨ ∃ j, c ∈ Server.cellsOf (s.ClientInfo j))
    (hlen : (f (s.ClientInfo i)).iCurSendLen = (s.ClientInfo i).iCurSendLen)
    (hsnd : (f (s.ClientInfo i)).pSndData = (s.ClientInfo i).pSndData)
    (hcur : (f (s.ClientInfo i)).pCurSendMsg = (s.ClientInfo i).pCurSendMsg) :
    Sending (s.setClient i f) held := by
  refine { h with ready := ?_, current := ?_, flow := ?_ }
  · rintro c (hc | ⟨j, hc⟩)
    · exact h.ready c (Or.inl hc)
    · by_cases hj : j = i
      · rw [hj, Server.setClient_ClientInfo_self] at hc
        exact h.ready c (hcells c hc)
      · rw [Server.setClient_ClientInfo_of_ne s f hj] at hc
        exact h.ready c (Or.inr ⟨j, hc⟩)
  · intro j hj hpos
    by_cases hji : j = i
    · subst hji
      simp only [Server.setClient_ClientInfo_self, hlen, hsnd, hcur] at hpos ⊢
      exact h.current j hj hpos
    · simp only [Server.setClient_ClientInfo_of_ne s f hji] at hpos ⊢
      exact h.current j hj hpos
  · intro j hj
    have hunsent : (s.setClient i f).unsent j = s.unsent j := by
      by_cases hji : j = i
      · subst hji
        simp only [Server.unsent, Server.bytesToSend, Server.setClient_ClientInfo_self, hlen, hsnd]
        rfl
      · simp only [Server.unsent, Server.bytesToSend, Server.setClient_ClientInfo_of_ne s f hji]
        rfl
    rw [hunsent]
    exact h.flow j hj

/-- A pick-up by a slot with nothing left to send. -/
theorem startMessage (h : Sending s held) (hmail : MailOk (s.mail held)) {i : Slot} {c : MsgCell}
    {rest : List MsgCell} (hlist : (s.ClientInfo i).ListSendMsg = c :: rest)
    (hzero : (s.ClientInfo i).iCurSendLen = 0) : Sending (s.startMessage i c rest) held := by
  have hmem : ∀ d ∈ c :: rest, d ∈ Server.cellsOf (s.ClientInfo i) := by
    intro d hd
    rw [Server.cellsOf, hlist]
    exact List.mem_append_left _ hd
  have htext := h.ready c (Or.inr ⟨i, hmem c List.mem_cons_self⟩)
  have hclient : (s.startMessage i c rest).ClientInfo i =
      Server.withCurrent c (s.cells c).hStream rest (s.ClientInfo i) :=
    Server.setClient_ClientInfo_self s i _
  have hother : ∀ j, j ≠ i → (s.startMessage i c rest).ClientInfo j = s.ClientInfo j :=
    fun j hj => Server.setClient_ClientInfo_of_ne s _ hj
  have hpicked : ∀ n, (s.startMessage i c rest).pickedFor n = s.pickedFor n ++
      if s.hist.conn i = n then [s.hist.msg c] else [] := by
    intro n
    have htaken := Mailroom.takenBy_append (s.mail [])
      { slot := i, conn := s.hist.conn i, msg := s.hist.msg c } n
    refine Eq.trans ?_ htaken
    simp only [Server.pickedFor, Mailroom.takenBy, Server.mail, Server.startMessage,
      List.map_append, List.map_singleton, PickedUp.taken]
  refine { h with ready := ?_, current := ?_, flow := ?_, sent_pre := ?_ }
  · rintro d (hd | ⟨j, hd⟩)
    · exact h.ready d (Or.inl hd)
    · by_cases hj : j = i
      · rw [hj, hclient] at hd
        refine h.ready d (Or.inr ⟨i, hmem d ?_⟩)
        rcases List.mem_append.mp hd with hd | hd
        · exact List.mem_cons_of_mem _ hd
        · exact List.mem_cons.mpr (Or.inl (List.mem_singleton.mp hd))
      · rw [hother j hj] at hd
        exact h.ready d (Or.inr ⟨j, hd⟩)
  · intro j hj hpos
    by_cases hji : j = i
    · rw [hji, hclient]
      exact ⟨c, _, rfl, rfl⟩
    · rw [hother j hji] at hpos ⊢
      exact h.current j hj hpos
  · intro j hj
    have hflow := h.flow j hj
    show bytesOf ((s.startMessage i c rest).pickedFor (s.hist.conn j)) =
      s.sentTo (s.hist.conn j) ++ (s.startMessage i c rest).unsent j
    rw [hpicked, bytesOf_append, hflow]
    by_cases hji : j = i
    · -- nothing was left to send: what is left now is the text of the message
      rw [hji, if_pos rfl, Server.unsent_startMessage, htext, Server.unsent_eq_nil hzero]
      simp [bytesOf]
    · have hne : s.hist.conn i ≠ s.hist.conn j := fun heq => hji (hmail.conn_inj j i hj heq.symm)
      have hunsent : (s.startMessage i c rest).unsent j = s.unsent j := by
        simp only [Server.unsent, Server.bytesToSend, hother j hji]
        rfl
      rw [if_neg hne, hunsent]
      exact List.append_nil _
  · intro n
    rw [hpicked, bytesOf_append]
    exact (h.sent_pre n).trans (List.prefix_append _ _)

theorem pickUp (h : Sending s held) (hmail : MailOk (s.mail held)) {i : Slot}
    (hzero : (s.ClientInfo i).iCurSendLen = 0) : Sending (s.pickUp i) held := by
  unfold Server.pickUp
  cases hlist : (s.ClientInfo i).ListSendMsg with
  | nil => exact h
  | cons c rest => exact h.startMessage hmail hlist hzero

/-- Bytes that slot `i` had left are sent, and its record is changed by `f`. -/
theorem sent (h : Sending s held) (hmail : MailOk (s.mail held)) {i : Slot}
    (hi : s.hist.conn i ≠ 0) {data : List Byte} {f : CLIENTINFO → CLIENTINFO}
    (hleft : s.unsent i = data ++ ((s.logSent i data).setClient i f).unsent i)
    (hcells : ∀ c ∈ Server.cellsOf (f (s.ClientInfo i)), c ∈ Server.cellsOf (s.ClientInfo i))
    (hcurrent : 0 < (f (s.ClientInfo i)).iCurSendLen → ∃ c off,
      (f (s.ClientInfo i)).pCurSendMsg = some c ∧ (f (s.ClientInfo i)).pSndData = some (c, off)) :
    Sending ((s.logSent i data).setClient i f) held := by
  set s' := (s.logSent i data).setClient i f with hs'
  have hclient : s'.ClientInfo i = f (s.ClientInfo i) := Server.setClient_ClientInfo_self ..
  have hother : ∀ j, j ≠ i → s'.ClientInfo j = s.ClientInfo j :=
    fun j hj => Server.setClient_ClientInfo_of_ne _ _ hj
  have hsent : ∀ n, s'.sentTo n = s.sentTo n ++ if s.hist.conn i = n then data else [] :=
    Server.sentTo_logSent s i data
  refine { h with ready := ?_, current := ?_, flow := ?_, sent_pre := ?_ }
  · rintro c (hc | ⟨j, hc⟩)
    · exact h.ready c (Or.inl hc)
    · by_cases hj : j = i
      · rw [hj, hclient] at hc
        exact h.ready c (Or.inr ⟨i, hcells c hc⟩)
      · rw [hother j hj] at hc
        exact h.ready c (Or.inr ⟨j, hc⟩)
  · intro j hj hpos
    by_cases hji : j = i
    · rw [hji, hclient] at hpos ⊢
      exact hcurrent hpos
    · rw [hother j hji] at hpos ⊢
      exact h.current j hj hpos
  · intro j hj
    show bytesOf (s.pickedFor (s.hist.conn j)) = s'.sentTo (s.hist.conn j) ++ s'.unsent j
    rw [hsent, h.flow j hj]
    by_cases hji : j = i
    · rw [hji, if_pos rfl, hleft, List.append_assoc]
    · -- another slot has another connection, and what it has left is not touched
      have hne : s.hist.conn i ≠ s.hist.conn j := fun heq => hji (hmail.conn_inj j i hj heq.symm)
      have hunsent : s'.unsent j = s.unsent j := by
        simp only [Server.unsent, Server.bytesToSend, hother j hji]
        rfl
      rw [if_neg hne, hunsent, List.append_nil]
  · intro n
    show s'.sentTo n <+: bytesOf (s.pickedFor n)
    rw [hsent]
    by_cases hn : s.hist.conn i = n
    · rw [if_pos hn, ← hn, h.flow i hi, hleft, ← List.append_assoc]
      exact List.prefix_append _ _
    · rw [if_neg hn, List.append_nil]
      exact h.sent_pre n

/-- A send that leaves bytes of the message. -/
theorem sendPump_part (h : Sending s held) (hmail : MailOk (s.mail held)) {i : Slot} {sn : Nat}
    (hi : s.hist.conn i ≠ 0) (hlt : sn < (s.ClientInfo i).iCurSendLen) :
    Sending (s.sendPump i sn) held := by
  rw [Server.sendPump_of_lt hlt]
  set s' := (s.logSent i (s.bytesToSend i sn)).setClient i (fun ci =>
    { ci with
      iCurSendLen := ci.iCurSendLen - sn
      pSndData := ci.pSndData.map fun p => (p.1, p.2 + sn) }) with hs'
  have hclient : s'.ClientInfo i =
      { s.ClientInfo i with
        iCurSendLen := (s.ClientInfo i).iCurSendLen - sn
        pSndData := (s.ClientInfo i).pSndData.map fun p => (p.1, p.2 + sn) } :=
    Server.setClient_ClientInfo_self ..
  refine h.sent hmail hi ?_ (fun c hc => hc) fun _ => ?_
  · -- what was left is what was sent now and what is left then
    rw [Server.bytesToSend_append s i (Nat.le_of_lt hlt)]
    refine congrArg _ ?_
    rw [← hs']
    simp only [Server.unsent, Server.bytesToSend, hclient]
    cases (s.ClientInfo i).pSndData with
    | none => rfl
    | some p => rfl
  · obtain ⟨c, off, hcur, hsnd⟩ := h.current i hi (by omega)
    exact ⟨c, off + sn, hcur, by rw [hsnd]; rfl⟩

/-- The message is sent: nothing of it is left and its cell is given up. -/
theorem sent_all (h : Sending s held) (hmail : MailOk (s.mail held)) {i : Slot}
    (hi : s.hist.conn i ≠ 0) (ring : FifoRing MsgCell) (pushed : List Ret) :
    Sending (((s.withFree ring pushed).logSent i (s.unsent i)).setClient i fun ci =>
      { ci with iCurSendLen := 0, pCurSendMsg := none }) held := by
  have hfree : Sending (s.withFree ring pushed) held := { h with }
  set s' := ((s.withFree ring pushed).logSent i (s.unsent i)).setClient i (fun ci =>
    { ci with iCurSendLen := 0, pCurSendMsg := none }) with hs'
  have hnil : s'.unsent i = [] :=
    Server.unsent_eq_nil (by rw [hs', Server.setClient_ClientInfo_self])
  refine hfree.sent hmail hi ?_ (fun c hc => ?_) fun hpos => absurd hpos (Nat.lt_irrefl 0)
  · rw [← hs', hnil, List.append_nil]
    rfl
  · simp only [Server.cellsOf, Option.toList_none, List.append_nil] at hc
    exact List.mem_append_left _ hc

theorem sendPump (h : Sending s held) (hmail : MailOk (s.mail held)) {i : Slot} {sn : Nat}
    (hi : s.hist.conn i ≠ 0) (hsn : sn ≤ (s.ClientInfo i).iCurSendLen) :
    Sending (s.sendPump i sn) held := by
  by_cases hlt : sn < (s.ClientInfo i).iCurSendLen
  · exact h.sendPump_part hmail hi hlt
  · obtain ⟨ring, pushed, -, heq⟩ := Server.sendPump_of_le (Nat.le_of_not_lt hlt)
    have hall : s.bytesToSend i sn = s.unsent i := by
      rw [Server.unsent, show sn = (s.ClientInfo i).iCurSendLen by omega]
    rw [heq, hall]
    have hbase := h.sent_all hmail hi ring pushed
    have hbasemail : MailOk (Server.mail (((s.withFree ring pushed).logSent i
        (s.unsent i)).setClient i fun ci => { ci with iCurSendLen := 0, pCurSendMsg := none })
        held) := by
      rw [Server.mail_setClient]
      · exact hmail
      · rfl
    split
    · exact hbase.pickUp hbasemail (by rw [Server.setClient_ClientInfo_self])
    · split
      · refine hbase.setClient i (f := fun ci => { ci with lStatus := .STATUS_UNKNOWN }) ?_ rfl rfl
          rfl
        intro c hc
        exact Or.inr ⟨i, hc⟩
      · exact hbase

end Sending

/-! ## The steps of the transport -/

theorem sending_get {p : Pool} (h : Sending p.srv p.held) (hplaced : Placed p) (i : Slot) :
    Sending (p.srv.IoGetSendMsgCell i).2 ((p.srv.IoGetSendMsgCell i).1.toList ++ p.held) := by
  unfold Server.IoGetSendMsgCell
  cases hpop : FifoPop p.srv.pFifoDogMsgFree with
  | none => exact h
  | some r =>
      obtain ⟨c, ring⟩ := r
      have hc : c ∈ p.srv.pFifoDogMsgFree.contents := by
        rw [(contents_FifoPop hpop).1]
        exact List.mem_cons_self
      obtain ⟨hqueue, hcells, hheld⟩ := hplaced.free_apart hc
      refine { h with streams := ?_, held_reset := ?_, ready := ?_, flow := ?_ }
      · intro d
        by_cases hd : d = c
        · rw [hd, Server.stampCell_cells_self]
          exact (h.streams c).reset
        · rw [Server.stampCell_cells_of_ne _ _ _ hd]
          exact h.streams d
      · intro d hd
        by_cases hdc : d = c
        · rw [hdc, Server.stampCell_cells_self]
          rfl
        · rw [Server.stampCell_cells_of_ne _ _ _ hdc]
          rcases List.mem_cons.mp hd with hd | hd
          · exact absurd hd hdc
          · exact h.held_reset d hd
      · intro d hd
        -- a free cell is queued nowhere, so no text that waits is reset
        have hdc : d ≠ c := by
          rintro rfl
          rcases hd with hd | ⟨j, hd⟩
          · exact hqueue hd
          · exact hcells j hd
        rw [Server.stampCell_cells_of_ne _ _ _ hdc, Server.stampCell_msg_of_ne _ _ _ hdc]
        exact h.ready d hd
      · intro j hj
        refine (h.flow j hj).trans (congrArg _ (Eq.symm ?_))
        refine Server.unsent_of_other_cell rfl ?_ (hcells j) (h.current j hj)
        intro d hd
        rw [Server.stampCell_cells_of_ne _ _ _ hd]

theorem sending_put {p : Pool} (h : Sending p.srv p.held) (hplaced : Placed p) {c : MsgCell}
    (hc : c ∈ p.held) (str : MsgText)
    (hpush : Pushable (p.srv.cells c).hStream str.text.chars.length (p.srv.heap c)) :
    Sending ((p.srv.pushString c str.text).IoPutSendMsgCell c) (p.held.erase c) := by
  obtain ⟨hqueue, hcells, hheld⟩ := hplaced.held_apart hc
  have hcontents : (FifoPush p.srv.pFifoDogMsg c).2.contents = p.srv.pFifoDogMsg.contents ++ [c] :=
    (FifoPush_of_room c (hplaced.msg_room_held hc)).2.1
  -- the stream was reset when the cell was taken, so it holds the string and nothing else
  have hpushed := push_reset (h.streams c) str.fits hpush
  rw [h.held_reset c hc] at hpushed
  refine { h with streams := ?_, held_reset := ?_, ready := ?_, flow := ?_ }
  · intro d
    by_cases hd : d = c
    · rw [hd, Server.putString_cells_self]
      exact hpushed.1
    · rw [Server.putString_cells_of_ne _ _ hd]
      exact h.streams d
  · intro d hd
    have hdc : d ≠ c := by
      rintro rfl
      exact hheld hd
    rw [Server.putString_cells_of_ne _ _ hdc]
    exact h.held_reset d (List.mem_of_mem_erase hd)
  · intro d hd
    by_cases hdc : d = c
    · subst hdc
      have hmsg : (((p.srv.pushString d str.text).IoPutSendMsgCell d).hist.msg d).text = str.text := by
        exact congrArg Msg.text (Function.update_self d _ p.srv.hist.msg)
      rw [Server.putString_cells_self, hmsg]
      exact hpushed.2
    · have hmsg : ((p.srv.pushString c str.text).IoPutSendMsgCell c).hist.msg d =
          p.srv.hist.msg d := Function.update_of_ne hdc ..
      rw [Server.putString_cells_of_ne _ _ hdc, hmsg]
      refine h.ready d ?_
      rcases hd with hd | hd
      · left
        have hmem : d ∈ (FifoPush p.srv.pFifoDogMsg c).2.contents := hd
        rw [hcontents] at hmem
        rcases List.mem_append.mp hmem with hmem | hmem
        · exact hmem
        · exact absurd (List.mem_singleton.mp hmem) hdc
      · exact Or.inr hd
  · intro j hj
    refine (h.flow j hj).trans (congrArg _ (Eq.symm ?_))
    refine Server.unsent_of_other_cell rfl ?_ (hcells j) (h.current j hj)
    intro d hd
    rw [Server.putString_cells_of_ne _ _ hd]

theorem sending_drain {s s' : Server} {held : List MsgCell} (h : Sending s held)
    (hs : s.popDogMsg = some s') : Sending s' held := by
  unfold Server.popDogMsg at hs
  cases hpop : FifoPop s.pFifoDogMsg with
  | none => simp [hpop] at hs
  | some r =>
      obtain ⟨c, ring⟩ := r
      have hcontents := (contents_FifoPop hpop).1
      simp only [hpop] at hs
      split at hs
      · cases hs
        refine { h with ready := ?_ }
        rintro d (hd | hd)
        · refine h.ready d (Or.inl ?_)
          rw [hcontents]
          exact List.mem_cons_of_mem _ hd
        · exact h.ready d (Or.inr hd)
      · cases hs
        -- the cell is still in the ring of `s` while the client gets it
        have hset := h.setClient (s.cells c).pClientInfo
          (f := fun ci => { ci with ListSendMsg := ci.ListSendMsg ++ [c] }) ?_ rfl rfl rfl
        · refine { hset with ready := ?_ }
          rintro d (hd | hd)
          · refine hset.ready d (Or.inl ?_)
            show d ∈ s.pFifoDogMsg.contents
            rw [hcontents]
            exact List.mem_cons_of_mem _ hd
          · exact hset.ready d (Or.inr hd)
        · intro d hd
          simp only [Server.cellsOf, List.append_assoc, List.mem_append] at hd
          rcases hd with hd | hd | hd
          · exact Or.inr ⟨_, List.mem_append_left _ hd⟩
          · left
            rw [hcontents, List.mem_singleton.mp hd]
            exact List.mem_cons_self
          · exact Or.inr ⟨_, List.mem_append_right _ hd⟩

theorem sending_recycle {s : Server} {held : List MsgCell} (h : Sending s held) (i : Slot) :
    Sending (s.recycle i) held := by
  obtain ⟨ring, pushed, -, heq⟩ := Server.recycle_spec i s
  rw [heq]
  -- a slot that still serves a connection is another one and is unchanged
  have hopen : ∀ j, Function.update s.hist.conn i 0 j ≠ 0 → j ≠ i := by
    rintro j hj rfl
    exact hj (Function.update_self ..)
  refine { h with ready := ?_, current := ?_, flow := ?_ }
  · rintro c (hc | ⟨j, hc⟩)
    · exact h.ready c (Or.inl hc)
    · by_cases hj : j = i
      · simp only [hj, Server.setClient_ClientInfo_self] at hc
        cases hc
      · simp only [Server.setClient_ClientInfo_of_ne _ _ hj] at hc
        exact h.ready c (Or.inr ⟨j, hc⟩)
  · intro j hj hpos
    have hji := hopen j hj
    simp only [Function.update_of_ne hji, Server.setClient_ClientInfo_of_ne _ _ hji] at hj hpos ⊢
    exact h.current j hj hpos
  · intro j hj
    have hji := hopen j hj
    simp only [Function.update_of_ne hji, Server.unsent, Server.bytesToSend,
      Server.setClient_ClientInfo_of_ne _ _ hji] at hj ⊢
    exact h.flow j hj

theorem sending_accept {s : Server} {held : List MsgCell} (h : Sending s held)
    (hmail : MailOk (s.mail held)) (sd : Nat)
    (hzero : ∀ i ∈ s.FreeClientList.head?, (s.ClientInfo i).iCurSendLen = 0) :
    Sending (s.acceptClient sd) held := by
  unfold Server.acceptClient
  cases hfree : s.FreeClientList with
  | nil => exact h
  | cons i rest =>
      have hi : (s.ClientInfo i).iCurSendLen = 0 := hzero i (by rw [hfree]; rfl)
      -- nothing was picked up for the new connection or sent on it
      have hpicked : s.pickedFor (s.hist.accepted + 1) = [] := by
        have hpre := hmail.pre (s.hist.accepted + 1)
        have hput : Mailroom.forConn Msg.conn (s.hist.accepted + 1) (s.mail held).put = [] :=
          Mailroom.forConn_eq_nil fun m hm => Nat.lt_succ_of_le (hmail.put_le m hm)
        rw [hput] at hpre
        exact List.prefix_nil.mp hpre
      have hsent : s.sentTo (s.hist.accepted + 1) = [] := by
        have hpre := h.sent_pre (s.hist.accepted + 1)
        rw [hpicked] at hpre
        exact List.prefix_nil.mp hpre
      refine { h with ready := ?_, current := ?_, flow := ?_ }
      · rintro c (hc | ⟨j, hc⟩)
        · exact h.ready c (Or.inl hc)
        · by_cases hj : j = i
          · simp only [hj, Server.setClient_ClientInfo_self] at hc
            exact h.ready c (Or.inr ⟨i, hc⟩)
          · simp only [Server.setClient_ClientInfo_of_ne _ _ hj] at hc
            exact h.ready c (Or.inr ⟨j, hc⟩)
      · intro j hj hpos
        by_cases hji : j = i
        · simp only [hji, Server.setClient_ClientInfo_self, Server.connected, hi] at hpos
          exact absurd hpos (Nat.lt_irrefl 0)
        · simp only [Function.update_of_ne hji, Server.setClient_ClientInfo_of_ne _ _ hji]
            at hj hpos ⊢
          exact h.current j hj hpos
      · intro j hj
        by_cases hji : j = i
        · rw [hji, Server.unsent_eq_nil]
          · simp only [Function.update_self]
            show bytesOf (s.pickedFor (s.hist.accepted + 1)) = s.sentTo (s.hist.accepted + 1) ++ []
            rw [hpicked, hsent]
            rfl
          · simp only [Server.setClient_ClientInfo_self, Server.connected, hi]
        · simp only [Function.update_of_ne hji, Server.unsent, Server.bytesToSend,
            Server.setClient_ClientInfo_of_ne _ _ hji] at hj ⊢
          exact h.flow j hj

/-- A clean step keeps the send pump right. -/
theorem sending_step {p p' : Pool} {a : TransportAction} (h : Sending p.srv p.held)
    (hplaced : Placed p) (hstamped : Server.Stamped p.srv) (hmail : MailOk p.mail)
    (hclean : CleanReuse p a) (hs : transportStep p a = some p') : Sending p'.srv p'.held := by
  cases transportStep_eq_some hs with
  | get i => exact sending_get h hplaced i
  | put c str hc => exact sending_put h hplaced hc str hclean
  | abandon _ _ =>
      exact { h with held_reset := fun d hd => h.held_reset d (List.mem_of_mem_erase hd) }
  | drain hpop => exact sending_drain h hpop
  | pickUp i _ _ =>
      show Sending (p.srv.firstPass i) p.held
      simp only [Server.firstPass]
      split
      · exact h
      · split
        · exact h
        · exact h.pickUp hmail (by omega)
  | send i sn hi _ hle => exact h.sendPump hmail ((hstamped.work_iff i).mp hi) hle
  | toEnd i _ =>
      exact h.setClient i (f := fun ci => { ci with lStatus := .STATUS_UNKNOWN })
        (fun c hc => Or.inr ⟨i, hc⟩) rfl rfl rfl
  | ioClosed i =>
      exact h.setClient i (f := fun ci => { ci with lStatus := .STATUS_IOCLOSEED })
        (fun c hc => Or.inr ⟨i, hc⟩) rfl rfl rfl
  | recycle i _ _ => exact sending_recycle h i
  | accept sd => exact sending_accept h hmail sd hclean.2
  | allocator answer => exact { h with }

theorem sending_init (align : MsgCell → Nat) (filled : FifoRing MsgCell × List Ret) :
    Sending (initialServer align filled) [] where
  streams c := streamOk_init (align c)
  held_reset _ h := by cases h
  ready c h := by
    rcases h with h | ⟨i, h⟩
    · rw [show (initialServer align filled).pFifoDogMsg.contents = [] from contents_newRing] at h
      cases h
    · cases h
  current _ h := absurd rfl h
  flow _ h := absurd rfl h
  sent_pre _ := List.prefix_refl _

theorem CleanReuse.fresh {p : Pool} {a : TransportAction} (h : CleanReuse p a) :
    FreshSession p a := by
  cases a with
  | accept sd => exact h.1
  | _ => trivial

/-- **Output bytes belong to their connection** in every run whose steps are clean. -/
theorem output_ok {align : MsgCell → Nat} {p : Pool}
    (h : Reach transportStep CleanReuse (transportInit align) p) : OutputOk p := by
  have hfresh : ∀ q, Reach transportStep CleanReuse (transportInit align) q → MailOk q.mail :=
    fun q hq => mailOk_reach (hq.mono fun _ _ => CleanReuse.fresh)
  have hall := h.strengthen (P := fun q => Placed q ∧ Server.Stamped q.srv ∧ MailOk q.mail)
    fun q hq => ⟨placed_reach hq, stamped_reach hq, hfresh q hq⟩
  have hsending := hall.invariant (P := fun q => Sending q.srv q.held) (sending_init align _)
    fun q a q' hq ⟨hclean, hplaced, hstamped, hmail⟩ hs =>
      sending_step hq hplaced hstamped hmail hclean hs
  intro n
  exact (hsending.sent_pre n).trans (bytesOf_mono ((hfresh p h).pre n))

/-- A text that was put for the first connection, picked up and sent. -/
theorem output_ok_hello : ∃ p : Pool, p.srv.sentTo 1 = hello.text.chars ∧
    bytesOf (p.srv.putFor 1) = hello.text.chars ∧ OutputOk p := by
  have haccept : CleanReuse (transportInit fun _ => 0) (.accept 7) := by
    refine ⟨?_, fun _ _ => rfl⟩
    intro i _ c hc
    rw [show (transportInit fun _ => 0).srv.pFifoDogMsg.contents = [] from contents_newRing] at hc
    cases hc
  have hput : ∀ (q : Pool) (c : MsgCell),
      (q.srv.cells c).hStream = reset_stream (init_stream 0 MSGINITSIZE) →
      CleanReuse q (.put c hello) := by
    intro q c hstream
    show Pushable (q.srv.cells c).hStream _ _
    rw [hstream]
    exact pushable_hello _
  have hreceive : ∀ (q : Pool) (a : TransportAction), a.Receives 15 → CleanReuse q a := by
    intro q a ha
    cases a with
    | drain | pickUp _ | send _ _ => trivial
    | _ => cases ha
  obtain ⟨p, q, c, hcell, -, hdelivered, hreach⟩ := hello_delivered haccept (fun _ => trivial) hput
    hreceive
  refine ⟨p, ?_, ?_, output_ok hreach⟩
  · rw [Server.sentTo, hdelivered.sent, hcell.sent, hcell.conn]
    rfl
  · rw [Server.putFor, Mailroom.forConn, hdelivered.put, hcell.put, List.nil_append,
      List.filter_singleton, show Msg.conn _ = 1 from hcell.msg]
    rfl

end Netflow
