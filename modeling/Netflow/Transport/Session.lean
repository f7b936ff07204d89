import Netflow.Lib.Mailroom
import Netflow.Transport.Places
import Netflow.Transport.Stamps

set_option autoImplicit false

/-! # Messages reach the session they were obtained for

`Pool.mail` forgets the cells of a pool and keeps the messages they carry. With the stamps right
and no cell in two places, every step of the transport is a step of a `Mailroom` or leaves it as it
is, and what a mailroom guarantees holds of the transport.
-/

namespace Netflow

/-- The cells in the clients' `ListSendMsg`. -/
def Server.lists (s : Server) (i : Slot) : List MsgCell := (s.ClientInfo i).ListSendMsg

/-- The record of a pick-up without the session. -/
def PickedUp.taken (e : PickedUp) : Taken Slot Msg := { slot := e.slot, conn := e.conn, msg := e.msg }

/-- The messages of a server and of the cells `held`, without the cells. -/
def Server.mail (s : Server) (held : List MsgCell) : Mailroom Slot Msg where
  opened := s.hist.accepted
  conn := s.hist.conn
  held := held.map s.hist.msg
  queue := s.pFifoDogMsg.contents.map s.hist.msg
  box i := (s.lists i).map s.hist.msg
  put := s.hist.put
  taken := s.hist.picked.map PickedUp.taken

def Pool.mail (p : Pool) : Mailroom Slot Msg := p.srv.mail p.held

/-- A step of the mailroom of messages: session ids are 32 bits wide. -/
abbrev MailStep : Mailroom Slot Msg → Mailroom Slot Msg → Prop :=
  Mailroom.Step Msg.slot Msg.conn 4294967296

/-- The invariant of the mailroom of messages. -/
abbrev MailOk : Mailroom Slot Msg → Prop := Mailroom.Ok Msg.slot Msg.conn 4294967296

/-- An accept takes a slot under a session id that no message on its way to the slot carries. -/
def FreshSession (p : Pool) : TransportAction → Prop
  | .accept _ => ∀ i ∈ p.srv.FreeClientList.head?, ∀ c ∈ p.held ++ p.srv.pFifoDogMsg.contents,
      (p.srv.cells c).pClientInfo = i →
        (p.srv.cells c).iSessionID ≠ (p.srv.iSessionID + 1) % 4294967296
  | _ => True

/-! ## The messages after each block -/

theorem map_update_of_not_mem {α β : Type} [DecidableEq α] {f : α → β} {a : α} {b : β} {l : List α}
    (h : a ∉ l) : l.map (Function.update f a b) = l.map f := by
  refine List.map_congr_left fun x hx => Function.update_of_ne ?_ ..
  rintro rfl
  exact h hx

namespace Server

theorem lists_setClient (s : Server) (i : Slot) (f : CLIENTINFO → CLIENTINFO) :
    (s.setClient i f).lists =
      Function.update s.lists i (f (s.ClientInfo i)).ListSendMsg := by
  funext j
  unfold lists
  by_cases hj : j = i
  · rw [hj, setClient_ClientInfo_self, Function.update_self]
  · rw [setClient_ClientInfo_of_ne s f hj, Function.update_of_ne hj]

/-- A change of a client that keeps its list changes no message. -/
theorem mail_setClient (s : Server) (held : List MsgCell) (i : Slot) {f : CLIENTINFO → CLIENTINFO}
    (h : (f (s.ClientInfo i)).ListSendMsg = (s.ClientInfo i).ListSendMsg) :
    (s.setClient i f).mail held = s.mail held := by
  have hlists : (s.setClient i f).lists = s.lists := by
    rw [lists_setClient, h]
    exact Function.update_eq_self ..
  simp only [mail, hlists]
  rfl

theorem mem_lists_cellsOf {s : Server} {i : Slot} {c : MsgCell}
    (h : c ∉ cellsOf (s.ClientInfo i)) : c ∉ s.lists i := by
  intro hc
  exact h (List.mem_append_left _ hc)

/-- Reading the messages of one changed list. -/
theorem box_update (lists : Slot → List MsgCell) (msg : MsgCell → Msg) (i : Slot)
    (cs : List MsgCell) :
    (fun j => (Function.update lists i cs j).map msg) =
      Function.update (fun j => (lists j).map msg) i (cs.map msg) := by
  funext j
  by_cases hj : j = i
  · rw [hj, Function.update_self, Function.update_self]
  · rw [Function.update_of_ne hj, Function.update_of_ne hj]

/-- A pick-up takes the first message of a box, or changes nothing. -/
theorem mail_pickUp (s : Server) (held : List MsgCell) (i : Slot) :
    (s.pickUp i).mail held = s.mail held ∨ MailStep (s.mail held) ((s.pickUp i).mail held) := by
  unfold pickUp
  cases hlist : (s.ClientInfo i).ListSendMsg with
  | nil => exact Or.inl rfl
  | cons c rest =>
      right
      have hbox : (s.mail held).box i = s.hist.msg c :: rest.map s.hist.msg := by
        simp only [mail, lists, hlist, List.map_cons]
      have hlists : (s.setClient i (withCurrent c (s.cells c).hStream rest)).lists =
          Function.update s.lists i rest := lists_setClient s i _
      have hmail : (s.startMessage i c rest).mail held =
          { s.mail held with
            box := Function.update (s.mail held).box i (rest.map s.hist.msg)
            taken := (s.mail held).taken ++
              [{ slot := i, conn := (s.mail held).conn i, msg := s.hist.msg c }] } := by
        simp only [startMessage, mail, List.map_append, List.map_singleton, PickedUp.taken,
          Mailroom.mk.injEq, true_and, and_true, ← box_update, ← hlists]
        exact ⟨rfl, rfl⟩
      exact (Mailroom.Step.take _ i _ _ hbox).of_eq hmail

/-- A send completes or not; a completed one picks up the next message. -/
theorem mail_sendPump (s : Server) (held : List MsgCell) (i : Slot) (sn : Nat) :
    (s.sendPump i sn).mail held = s.mail held ∨
      MailStep (s.mail held) ((s.sendPump i sn).mail held) := by
  by_cases hlt : sn < (s.ClientInfo i).iCurSendLen
  · left
    rw [sendPump_of_lt hlt]
    exact mail_setClient (s.logSent i (s.bytesToSend i sn)) held i rfl
  · obtain ⟨ring, pushed, -, heq⟩ := sendPump_of_le (Nat.le_of_not_lt hlt)
    have hbase := mail_setClient ((s.withFree ring pushed).logSent i (s.bytesToSend i sn)) held i
      (f := fun ci => { ci with iCurSendLen := 0, pCurSendMsg := none }) rfl
    have hlog : ((s.withFree ring pushed).logSent i (s.bytesToSend i sn)).mail held =
        s.mail held := rfl
    rw [heq]
    split
    · have hpick := mail_pickUp
        (((s.withFree ring pushed).logSent i (s.bytesToSend i sn)).setClient i fun ci =>
          { ci with iCurSendLen := 0, pCurSendMsg := none }) held i
      rw [hbase, hlog] at hpick
      exact hpick
    · left
      split
      · exact (mail_setClient _ held i rfl).trans (hbase.trans hlog)
      · exact hbase.trans hlog

/-- Recycling a slot closes it. -/
theorem mail_recycle (s : Server) (held : List MsgCell) (i : Slot) :
    MailStep (s.mail held) ((s.recycle i).mail held) := by
  obtain ⟨ring, pushed, -, heq⟩ := recycle_spec i s
  have hlists : ((s.withFree ring pushed).setClient i recycled).lists =
      Function.update s.lists i [] := lists_setClient _ i _
  have hmail : (s.recycle i).mail held =
      { s.mail held with
        conn := Function.update (s.mail held).conn i 0
        box := Function.update (s.mail held).box i (([] : List MsgCell).map s.hist.msg) } := by
    rw [heq]
    simp only [mail, ← box_update, ← hlists]
    rfl
  rw [hmail]
  exact Mailroom.Step.close _ i

/-- Accepting a connection opens a slot, or finds none. -/
theorem mail_acceptClient {s : Server} (held : List MsgCell) (sd : Nat) (hstamped : Stamped s)
    (hfresh : FreshSession { srv := s, held := held } (.accept sd)) :
    (s.acceptClient sd).mail held = s.mail held ∨
      MailStep (s.mail held) ((s.acceptClient sd).mail held) := by
  unfold acceptClient
  cases hfree : s.FreeClientList with
  | nil => exact Or.inl rfl
  | cons i rest =>
      right
      have hclosed : s.hist.conn i = 0 :=
        hstamped.free_closed i (by rw [hfree]; exact List.mem_cons_self)
      have hway : ∀ m ∈ (s.mail held).held ++ (s.mail held).queue, m.slot = i →
          m.conn % 4294967296 ≠ ((s.mail held).opened + 1) % 4294967296 := by
        intro m hm hslot hsame
        simp only [mail, ← List.map_append, List.mem_map] at hm
        obtain ⟨c, hc, rfl⟩ := hm
        refine hfresh i (by rw [hfree]; rfl) c hc ?_ ?_
        · rw [← hslot]
          exact hstamped.cell_slot c
        · show (s.cells c).iSessionID = (s.iSessionID + 1) % 4294967296
          rw [hstamped.cell_session, hstamped.msg_session, hsame, hstamped.counter]
          show (s.hist.accepted + 1) % 4294967296 = _
          omega
      have hlists : (s.setClient i (connected sd ((s.iSessionID + 1) % 4294967296))).lists =
          s.lists := by
        rw [lists_setClient]
        exact Function.update_eq_self ..
      refine (Mailroom.Step.open (s.mail held) i hclosed hway).of_eq ?_
      simp only [mail, ← hlists]
      rfl

end Server

/-! ## The steps -/

theorem mail_get {p : Pool} (hplaced : Placed p) (i : Slot) :
    (p.srv.IoGetSendMsgCell i).2.mail ((p.srv.IoGetSendMsgCell i).1.toList ++ p.held) = p.mail ∨
      MailStep p.mail
        ((p.srv.IoGetSendMsgCell i).2.mail ((p.srv.IoGetSendMsgCell i).1.toList ++ p.held)) := by
  unfold Server.IoGetSendMsgCell
  cases hpop : FifoPop p.srv.pFifoDogMsgFree with
  | none => exact Or.inl rfl
  | some r =>
      right
      obtain ⟨c, ring⟩ := r
      have hc : c ∈ p.srv.pFifoDogMsgFree.contents := by
        rw [(contents_FifoPop hpop).1]
        exact List.mem_cons_self
      obtain ⟨hqueue, hlists, hheld⟩ := hplaced.free_apart hc
      have hbox : ∀ j, c ∉ p.srv.lists j := fun j => Server.mem_lists_cellsOf (hlists j)
      refine (Mailroom.Step.obtain p.mail
        { id := p.srv.hist.obtained, slot := i, session := (p.srv.ClientInfo i).iSessionID,
          conn := p.srv.hist.conn i, text := CStr.lit "" } rfl).of_eq ?_
      simp only [Pool.mail, Server.mail, Server.stampCell, Option.toList_some,
        List.singleton_append, List.map_cons, Function.update_self, map_update_of_not_mem hqueue,
        map_update_of_not_mem hheld]
      simp only [Mailroom.mk.injEq, true_and, and_true]
      funext j
      exact map_update_of_not_mem (hbox j)

theorem mail_put {p : Pool} (hplaced : Placed p) {c : MsgCell} (hc : c ∈ p.held) (str : CStr) :
    MailStep p.mail
      (((p.srv.pushString c str).IoPutSendMsgCell c).mail (p.held.erase c)) := by
  obtain ⟨hqueue, hlists, hheld⟩ := hplaced.held_apart hc
  have hbox : ∀ j, c ∉ p.srv.lists j := fun j => Server.mem_lists_cellsOf (hlists j)
  have hcontents : (FifoPush p.srv.pFifoDogMsg c).2.contents = p.srv.pFifoDogMsg.contents ++ [c] :=
    (FifoPush_of_room c (hplaced.msg_room_held hc)).2.1
  refine (Mailroom.Step.put p.mail (p.srv.hist.msg c) { p.srv.hist.msg c with text := str }
    ((p.held.erase c).map p.srv.hist.msg) (List.mem_map_of_mem hc) rfl rfl
    (List.map_subset _ (List.erase_subset ..))).of_eq ?_
  simp only [Pool.mail, Server.mail, Server.IoPutSendMsgCell, Server.pushMsg, Server.pushString,
    hcontents, List.map_append, List.map_singleton, Function.update_self,
    map_update_of_not_mem hqueue, map_update_of_not_mem hheld, Mailroom.mk.injEq, true_and,
    and_true]
  funext j
  exact map_update_of_not_mem (hbox j)

/-- The test of `POP_DOGMSG_2LISTTAIL` is the acceptance test of the mailroom. -/
theorem current_iff_accepts {s : Server} (held : List MsgCell) (hstamped : Server.Stamped s)
    (c : MsgCell) :
    (¬ ((s.cells c).iSessionID ≠ (s.ClientInfo (s.hist.msg c).slot).iSessionID ∨
      (s.ClientInfo (s.hist.msg c).slot).lSocketStatus ≠ .STATUS_SOCKET_CONNECT)) ↔
      Mailroom.Accepts Msg.slot Msg.conn 4294967296 (s.mail held) (s.hist.msg c) := by
  rw [not_or, not_ne_iff, not_ne_iff, hstamped.status_iff, hstamped.cell_session,
    hstamped.msg_session, hstamped.session_eq, and_comm]
  rfl

/-- A turn of the drain routes the head of the queue or discards it. -/
theorem mail_drain {s s' : Server} (held : List MsgCell) (hstamped : Server.Stamped s)
    (hs : s.popDogMsg = some s') : MailStep (s.mail held) (s'.mail held) := by
  unfold Server.popDogMsg at hs
  cases hpop : FifoPop s.pFifoDogMsg with
  | none => simp [hpop] at hs
  | some r =>
      obtain ⟨c, ring⟩ := r
      simp only [hpop, hstamped.cell_slot c] at hs
      have hqueue : (s.mail held).queue = s.hist.msg c :: ring.contents.map s.hist.msg := by
        simp only [Server.mail, (contents_FifoPop hpop).1, List.map_cons]
      split at hs
      · rename_i hstale
        cases hs
        have hreject := fun haccepts =>
          (current_iff_accepts held hstamped c).mpr haccepts hstale
        exact (Mailroom.Step.discard _ _ _ hqueue hreject).of_eq rfl
      · rename_i hcurrent
        cases hs
        have haccepts := (current_iff_accepts held hstamped c).mp hcurrent
        have hlists := Server.lists_setClient { s with pFifoDogMsg := ring } (s.hist.msg c).slot
          (fun ci => { ci with ListSendMsg := ci.ListSendMsg ++ [c] })
        have hbox := congrArg (fun (l : Slot → List MsgCell) j => (l j).map s.hist.msg) hlists
        simp only [Server.box_update, List.map_append, List.map_singleton] at hbox
        exact (Mailroom.Step.route _ _ _ hqueue haccepts).of_eq
          (congrArg (fun box => ({ s.mail held with
            queue := ring.contents.map s.hist.msg, box := box } : Mailroom Slot Msg)) hbox)

/-- Every step of the transport is a step of the mailroom or leaves the messages as they are. -/
theorem mail_step {p p' : Pool} {a : TransportAction} (hplaced : Placed p)
    (hstamped : Server.Stamped p.srv) (hfresh : FreshSession p a)
    (hs : transportStep p a = some p') : p'.mail = p.mail ∨ MailStep p.mail p'.mail := by
  cases transportStep_eq_some hs with
  | get i => exact mail_get hplaced i
  | put c str hc => exact Or.inr (mail_put hplaced hc str.text)
  | abandon c _ =>
      right
      exact (Mailroom.Step.abandon p.mail ((p.held.erase c).map p.srv.hist.msg)
        (List.map_subset _ (List.erase_subset ..))).of_eq rfl
  | drain hpop => exact Or.inr (mail_drain p.held hstamped hpop)
  | pickUp i _ _ =>
      show (p.srv.firstPass i).mail p.held = _ ∨ MailStep _ ((p.srv.firstPass i).mail p.held)
      simp only [Server.firstPass]
      split
      · exact Or.inl rfl
      · split
        · exact Or.inl rfl
        · exact Server.mail_pickUp p.srv p.held i
  | send i sn _ _ _ => exact Server.mail_sendPump p.srv p.held i sn
  | toEnd i _ => exact Or.inl (Server.mail_setClient p.srv p.held i rfl)
  | ioClosed i => exact Or.inl (Server.mail_setClient p.srv p.held i rfl)
  | recycle i _ _ => exact Or.inr (Server.mail_recycle p.srv p.held i)
  | accept sd => exact Server.mail_acceptClient p.held sd hstamped hfresh
  | allocator answer => exact Or.inl rfl

theorem mailOk_init (align : MsgCell → Nat) (filled : FifoRing MsgCell × List Ret) :
    MailOk ((initialServer align filled).mail []) where
  conn_le _ := Nat.le_refl _
  conn_inj _ _ h := absurd rfl h
  msg_le _ h := by
    simp only [Server.mail, initialServer, contents_newRing, List.map_nil, List.append_nil,
      List.not_mem_nil] at h
  msg_slot _ _ _ hj := absurd rfl hj
  msg_conn _ _ haccepts := absurd rfl haccepts.1
  box_mine _ _ h := by cases h
  put_le _ h := by cases h
  taken_mine _ h := by cases h
  flow _ h := absurd rfl h
  pre _ := List.prefix_refl _

/-- The invariant of the mailroom holds in every run in which sessions are fresh. -/
theorem mailOk_reach {align : MsgCell → Nat} {p : Pool}
    (h : Reach transportStep FreshSession (transportInit align) p) : MailOk p.mail := by
  have hall := h.strengthen (P := fun p => Placed p ∧ Server.Stamped p.srv)
    fun _ hr => ⟨placed_reach hr, stamped_reach hr⟩
  refine hall.invariant (P := fun p => MailOk p.mail) (mailOk_init align _) ?_
  intro p a p' hok ⟨hfresh, hplaced, hstamped⟩ hs
  rcases mail_step hplaced hstamped hfresh hs with heq | hstep
  · rw [heq]
    exact hok
  · exact hok.step hstep

/-! ## Runs with few connections -/

theorem accepted_le_step {p p' : Pool} {a : TransportAction} (hplaced : Placed p)
    (hstamped : Server.Stamped p.srv) (hs : transportStep p a = some p') :
    p.srv.hist.accepted ≤ p'.srv.hist.accepted := by
  have hmail : FreshSession p a → p.srv.hist.accepted ≤ p'.srv.hist.accepted := by
    intro hfresh
    rcases mail_step hplaced hstamped hfresh hs with heq | hstep
    · exact Nat.le_of_eq (congrArg Mailroom.opened heq).symm
    · exact hstep.opened_le
  cases a with
  | accept sd =>
      cases hs
      simp only [Server.acceptClient]
      split
      · exact Nat.le_refl _
      · exact Nat.le_succ _
  | _ => exact hmail trivial

/-- An accept after fewer than `2^32 - 1` others takes a fresh session. -/
theorem fresh_of_few {p p' : Pool} {a : TransportAction} (hstamped : Server.Stamped p.srv)
    (hok : MailOk p.mail) (hs : transportStep p a = some p')
    (hfew : p'.srv.hist.accepted < 4294967296) : FreshSession p a := by
  cases a with
  | accept sd =>
      cases hs
      intro i hi c hc _
      have hnext : p.srv.hist.accepted + 1 < 4294967296 := by
        simp only [Server.acceptClient] at hfew
        split at hfew
        · rename_i hnil
          rw [hnil] at hi
          cases hi
        · exact hfew
      have hway : p.srv.hist.msg c ∈ p.mail.held ++ p.mail.queue := by
        simp only [Pool.mail, Server.mail, ← List.map_append]
        exact List.mem_map_of_mem hc
      have hle : (p.srv.hist.msg c).conn ≤ p.srv.hist.accepted := hok.msg_le _ hway
      rw [hstamped.cell_session, hstamped.msg_session, hstamped.counter]
      omega
  | _ => trivial

theorem reach_fresh {align : MsgCell → Nat} {p : Pool}
    (h : Reach transportStep AnyStep (transportInit align) p)
    (hfew : p.srv.hist.accepted < 4294967296) :
    Reach transportStep FreshSession (transportInit align) p := by
  induction h with
  | start => exact Reach.start
  | next hr _ hs ih =>
      have hle := accepted_le_step (placed_reach hr) (stamped_reach hr) hs
      have hfresh := ih (by omega)
      exact hfresh.next (fresh_of_few (stamped_reach hr) (mailOk_reach hfresh) hs hfew) hs

/-! ## Sessions -/

/-- The messages put so far that were obtained for session `n`. -/
def Server.putForSession (s : Server) (n : Nat) : List Msg :=
  s.hist.put.filter fun m => decide (m.session = n)

/-- The messages picked up so far by session `n`. -/
def Server.pickedBySession (s : Server) (n : Nat) : List Msg :=
  (s.hist.picked.filter fun e => decide (e.session = n)).map PickedUp.msg

/-- No connected slot has session `n`. -/
def Server.SessionOver (s : Server) (n : Nat) : Prop :=
  ∀ i, (s.ClientInfo i).lSocketStatus = .STATUS_SOCKET_CONNECT → (s.ClientInfo i).iSessionID ≠ n

/-- Every pick-up was of a message for the session the slot had, in the order of the puts; the
message of a session that is over goes back to the free ring, out of the message ring at its drain
and out of the slot at its recycling. -/
structure SessionsKept (p : Pool) : Prop where
  picked_mine : ∀ e ∈ p.srv.hist.picked, e.msg.session = e.session ∧ e.msg.slot = e.slot
  picked_prefix : ∀ n, p.srv.pickedBySession n <+: p.srv.putForSession n
  listed_mine : ∀ i, ∀ c ∈ p.srv.lists i,
    (p.srv.hist.msg c).session = (p.srv.ClientInfo i).iSessionID
  drained_free : ∀ c p', p.srv.pFifoDogMsg.contents.head? = some c →
    p.srv.SessionOver (p.srv.hist.msg c).session → transportStep p .drain = some p' →
    p'.srv.pFifoDogMsgFree.contents = p.srv.pFifoDogMsgFree.contents ++ [c] ∧
      p'.srv.ClientInfo = p.srv.ClientInfo
  recycled_free : ∀ i p', transportStep p (.recycle i) = some p' →
    p'.srv.pFifoDogMsgFree.contents =
      p.srv.pFifoDogMsgFree.contents ++ Server.cellsOf (p.srv.ClientInfo i) ∧
    Server.cellsOf (p'.srv.ClientInfo i) = []

/-- A message of a session that is over leaves the message ring for the free ring. -/
theorem drained_free {p p' : Pool} {c : MsgCell} (hplaced : Placed p)
    (hstamped : Server.Stamped p.srv) (hc : p.srv.pFifoDogMsg.contents.head? = some c)
    (hover : p.srv.SessionOver (p.srv.hist.msg c).session)
    (hs : transportStep p .drain = some p') :
    p'.srv.pFifoDogMsgFree.contents = p.srv.pFifoDogMsgFree.contents ++ [c] ∧
      p'.srv.ClientInfo = p.srv.ClientInfo := by
  simp only [transportStep, Option.map_eq_some_iff] at hs
  obtain ⟨s', hpop, rfl⟩ := hs
  unfold Server.popDogMsg at hpop
  cases hring : FifoPop p.srv.pFifoDogMsg with
  | none => simp [hring] at hpop
  | some r =>
      obtain ⟨d, ring⟩ := r
      have hcontents := (contents_FifoPop hring).1
      rw [hcontents] at hc
      cases hc
      simp only [hring] at hpop
      split at hpop
      · cases hpop
        refine ⟨(FifoPush_of_room c (hplaced.free_room_ring (c := c) ?_)).2.1, rfl⟩
        rw [hcontents]
        exact List.mem_cons_self
      · rename_i hcurrent
        rw [not_or, not_ne_iff, not_ne_iff, hstamped.cell_session] at hcurrent
        exact absurd hcurrent.1.symm (hover _ hcurrent.2)

/-- The cells of a recycled slot go to the free ring. -/
theorem recycled_free {p p' : Pool} {i : Slot} (hplaced : Placed p)
    (hs : transportStep p (.recycle i) = some p') :
    p'.srv.pFifoDogMsgFree.contents =
      p.srv.pFifoDogMsgFree.contents ++ Server.cellsOf (p.srv.ClientInfo i) ∧
    Server.cellsOf (p'.srv.ClientInfo i) = [] := by
  simp only [transportStep] at hs
  split at hs
  · cases hs
    obtain ⟨ring, pushed, hfreed, heq⟩ := Server.recycle_spec i p.srv
    rw [heq]
    refine ⟨hfreed.contents_eq (hplaced.free_room_slot i), ?_⟩
    rw [Server.setClient_ClientInfo_self]
    rfl
  · cases hs

/-- In a run with fewer than `2^32` connections a session id is a connection number. -/
theorem picked_eq_taken {p : Pool} (hstamped : Server.Stamped p.srv) (hok : MailOk p.mail)
    (hfew : p.srv.hist.accepted < 4294967296) :
    (∀ m ∈ p.srv.hist.put, m.session = m.conn) ∧
      ∀ e ∈ p.srv.hist.picked, e.session = e.conn ∧ e.msg.session = e.msg.conn := by
  have hput : ∀ m ∈ p.srv.hist.put, m.conn < 4294967296 :=
    fun m hm => Nat.lt_of_le_of_lt (hok.put_le m hm) hfew
  constructor
  · intro m hm
    rw [hstamped.put_session m hm, Nat.mod_eq_of_lt (hput m hm)]
  · intro e he
    -- a message picked up was put
    have hmine := hok.taken_mine e.taken (List.mem_map_of_mem he)
    have htaken : e.msg ∈ p.mail.takenBy e.conn := by
      refine List.mem_map.mpr ⟨e.taken, List.mem_filter.mpr ⟨List.mem_map_of_mem he, ?_⟩, rfl⟩
      exact decide_eq_true rfl
    have hmem := List.mem_of_mem_filter ((hok.pre e.conn).subset htaken)
    have hlt := hput e.msg hmem
    obtain ⟨h1, h2⟩ := hstamped.picked_session e he
    have hconn : e.msg.conn = e.conn := hmine.2.1
    rw [h1, h2, hconn, Nat.mod_eq_of_lt (hconn ▸ hlt)]
    exact ⟨rfl, rfl⟩

/-- **Session filtering**: in every run with fewer than `2^32` accepted connections, sessions are
kept. -/
theorem sessions_kept {align : MsgCell → Nat} {p : Pool}
    (h : Reach transportStep AnyStep (transportInit align) p)
    (hfew : p.srv.hist.accepted < 4294967296) : SessionsKept p := by
  have hplaced := placed_reach h
  have hstamped := stamped_reach h
  have hok := mailOk_reach (reach_fresh h hfew)
  obtain ⟨hput, hpicked⟩ := picked_eq_taken hstamped hok hfew
  refine ⟨?_, ?_, ?_, ?_, ?_⟩
  · intro e he
    obtain ⟨-, hconn, hslot⟩ := hok.taken_mine e.taken (List.mem_map_of_mem he)
    obtain ⟨h1, h2⟩ := hpicked e he
    exact ⟨h2.trans (hconn.trans h1.symm), hslot⟩
  · intro n
    have hpre := hok.pre n
    have hleft : p.srv.pickedBySession n = p.mail.takenBy n := by
      show _ = List.map Taken.msg ((p.srv.hist.picked.map PickedUp.taken).filter _)
      rw [List.filter_map, List.map_map, Server.pickedBySession]
      refine congrArg (List.map PickedUp.msg) (List.filter_congr fun e he => ?_)
      rw [(hpicked e he).1]
      rfl
    have hright : p.srv.putForSession n = Mailroom.forConn Msg.conn n p.mail.put := by
      refine List.filter_congr fun m hm => ?_
      rw [hput m hm]
    rw [hleft, hright]
    exact hpre
  · intro i c hc
    have hmine := hok.box_mine i (p.srv.hist.msg c) (List.mem_map_of_mem hc)
    rw [hstamped.msg_session, hstamped.session_eq, hmine.2.1]
    rfl
  · intro c p' hc hover hs
    exact drained_free hplaced hstamped hc hover hs
  · intro i p' hs
    exact recycled_free hplaced hs

/-- A message that was put for the first connection, drained and picked up by it. -/
theorem sessions_kept_hello : ∃ p : Pool, p.srv.hist.accepted < 4294967296 ∧
    p.srv.hist.picked.map (fun e => (e.slot, e.session, e.msg.text)) = [(15, 1, hello.text)] ∧
    SessionsKept p := by
  obtain ⟨p, q, c, hcell, -, hdelivered, hreach⟩ := hello_delivered (C := AnyStep) trivial
    (fun _ => trivial) (fun _ _ _ => trivial) fun _ _ _ => trivial
  have hfew : p.srv.hist.accepted < 4294967296 := by
    rw [hdelivered.accepted, hcell.accepted]
    decide
  refine ⟨p, hfew, ?_, sessions_kept hreach hfew⟩
  rw [hdelivered.picked, hcell.picked, hcell.session]
  rfl

end Netflow
