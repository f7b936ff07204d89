import Netflow.Transport.Output

set_option autoImplicit false

/-! # A slot that is closed with bytes left to send

`recycle` leaves `iCurSendLen` and `pSndData` as they are, and a recycled slot is the first one that
`acceptClient` gives out. So every run that reaches a client with bytes left to send can go on to
send them on another connection, and such runs exist.
-/

namespace Netflow

namespace Server

theorem sentTo_pickUp (s : Server) (i : Slot) (n : Nat) :
    (s.pickUp i).sentTo n = s.sentTo n := by
  unfold pickUp
  cases (s.ClientInfo i).ListSendMsg with
  | nil => rfl
  | cons c rest => rfl

theorem putFor_pickUp (s : Server) (i : Slot) (n : Nat) :
    (s.pickUp i).putFor n = s.putFor n := by
  unfold pickUp
  cases (s.ClientInfo i).ListSendMsg with
  | nil => rfl
  | cons c rest => rfl

/-- A send of everything that is left: the bytes go to the connection the slot serves. -/
theorem sendPump_all (s : Server) (i : Slot) (n : Nat) :
    (s.sendPump i (s.ClientInfo i).iCurSendLen).sentTo n =
      s.sentTo n ++ (if s.hist.conn i = n then s.unsent i else []) ∧
    (s.sendPump i (s.ClientInfo i).iCurSendLen).putFor n = s.putFor n := by
  obtain ⟨ring, pushed, -, heq⟩ := sendPump_of_le (Nat.le_refl (s.ClientInfo i).iCurSendLen)
  have hlog := sentTo_logSent (s.withFree ring pushed) i (s.unsent i) n
  rw [heq]
  split
  · rw [sentTo_pickUp, putFor_pickUp]
    exact ⟨hlog, rfl⟩
  · split
    · exact ⟨hlog, rfl⟩
    · exact ⟨hlog, rfl⟩

/-- What a slot has left to send after it was closed, recycled and accepted again. -/
theorem unsent_reused (s : Server) (i : Slot) (sd : Nat) :
    let s' := ((s.ioClosed i).recycle i).acceptClient sd
    s'.unsent i = s.unsent i ∧ s'.hist.conn i = s.hist.accepted + 1 ∧ i ∈ s'.WorkClientList ∧
      (s'.ClientInfo i).iCurSendLen = (s.ClientInfo i).iCurSendLen ∧
      s'.putFor (s.hist.accepted + 1) = s.putFor (s.hist.accepted + 1) := by
  obtain ⟨ring, pushed, -, hrecycle⟩ := recycle_spec i (s.ioClosed i)
  have hfree : ((s.ioClosed i).recycle i).FreeClientList = i :: s.FreeClientList := by
    rw [hrecycle]
    rfl
  simp only [acceptClient_of_cons sd hfree]
  simp only [hrecycle]
  refine ⟨?_, Function.update_self .., List.mem_cons_self, ?_, rfl⟩
  · simp only [unsent, bytesToSend, setClient, Function.update_self, connected, recycled,
      withFree, ioClosed]
  · simp only [setClient, Function.update_self, connected, recycled, withFree, ioClosed]

end Server

/-- A connected client with bytes left to send can be closed and recycled, and the next connection
accepted: it gets the slot and is sent those bytes. -/
theorem stale_output {p : Pool} (hmail : MailOk p.mail) {i : Slot} (hi : i ∈ p.srv.WorkClientList)
    (hleft : p.srv.unsent i ≠ []) :
    ∃ p', Reach transportStep AnyStep p p' ∧ ¬ OutputOk p' := by
  have hlen : 0 < (p.srv.ClientInfo i).iCurSendLen := by
    refine Nat.pos_of_ne_zero fun hzero => ?_
    exact hleft (Server.unsent_eq_nil hzero)
  have hclosed : ((p.srv.ioClosed i).ClientInfo i).lStatus = .STATUS_IOCLOSEED := by
    rw [Server.ioClosed, Server.setClient_ClientInfo_self]
  obtain ⟨hunsent, hconn, hwork, hcur, hput⟩ := Server.unsent_reused p.srv i 0
  set s := ((p.srv.ioClosed i).recycle i).acceptClient 0 with hs
  obtain ⟨hsent, hsame⟩ := s.sendPump_all i (p.srv.hist.accepted + 1)
  refine ⟨{ p with srv := s.sendPump i (s.ClientInfo i).iCurSendLen }, ?_, ?_⟩
  · have h1 : Reach transportStep AnyStep p { p with srv := p.srv.ioClosed i } :=
      Reach.start.next (a := .ioClosed i) trivial rfl
    have h2 := h1.next (a := .recycle i) trivial 
      (transportStep_recycle (p := { p with srv := p.srv.ioClosed i }) hi hclosed)
    have h3 := h2.next (a := .accept 0) trivial rfl
    exact h3.next (a := .send i (s.ClientInfo i).iCurSendLen) trivial
      (transportStep_send hwork (by rw [hcur]; exact hlen) (Nat.le_refl _))
  · intro hok
    -- nothing was put for the new connection, and yet the bytes were sent on it
    have hpre := hok (p.srv.hist.accepted + 1)
    have hnone : p.srv.putFor (p.srv.hist.accepted + 1) = [] :=
      Mailroom.forConn_eq_nil fun m hm => Nat.lt_succ_of_le (hmail.put_le m hm)
    rw [hsent, hsame, hput, hnone, if_pos hconn, hunsent] at hpre
    have hnil := List.prefix_nil.mp hpre
    exact hleft (List.append_eq_nil_iff.mp hnil).2

/-- A client connects and a text is put for it: it has the text left to send. -/
theorem exists_unsent : ∃ p, Reach transportStep FreshSession (transportInit fun _ => 0) p ∧
    15 ∈ p.srv.WorkClientList ∧ p.srv.unsent 15 ≠ [] := by
  have haccept : FreshSession (transportInit fun _ => 0) (.accept 7) := by
    intro i _ c hc
    rw [show (transportInit fun _ => 0).srv.pFifoDogMsg.contents = [] from contents_newRing] at hc
    cases hc
  have hreceive : ∀ (q : Pool) (a : TransportAction), a.Receives 15 → FreshSession q a := by
    intro q a ha
    cases a with
    | drain | pickUp _ | send _ _ => trivial
    | _ => cases ha
  obtain ⟨q, c, hq, hcell, -⟩ := exists_firstCell fillFree_ne_nil haccept fun _ => trivial
  obtain ⟨p, hp, hunderWay⟩ := put_picked_up (C := FreshSession) hcell.idle hcell.addressed hcell.held
    hcell.text trivial hreceive
  refine ⟨p, hq.trans hp, hunderWay.work, ?_⟩
  rw [Server.unsent, hunderWay.len, hunderWay.bytes]
  decide

/-- A run in which a connection is sent bytes of a message that was put for another one. -/
theorem output_on_other_connection :
    ¬ ∀ p, Reach transportStep AnyStep (transportInit fun _ => 0) p → OutputOk p := by
  intro hall
  obtain ⟨p, hp, hwork, hleft⟩ := exists_unsent
  obtain ⟨p', hp', hbad⟩ := stale_output (mailOk_reach hp) hwork hleft
  exact hbad (hall p' (hp.any.trans hp'))

end Netflow
