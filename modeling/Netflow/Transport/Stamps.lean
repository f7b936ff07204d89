import Netflow.Transport.Step

set_option autoImplicit false

/-! # The stamps of slots and cells

`Stamped` connects the fields the code compares (`iSessionID`, `lSocketStatus`, the lists of
clients) with the number of the connection a slot serves: a session id is that number modulo
`2^32`. It holds in every run.
-/

namespace Netflow

namespace Server

/-- What the stamps in slots and cells say about connections. -/
structure Stamped (s : Server) : Prop where
  counter : s.iSessionID = s.hist.accepted % 4294967296
  session_eq : ∀ i, (s.ClientInfo i).iSessionID = s.hist.conn i % 4294967296
  status_iff : ∀ i, (s.ClientInfo i).lSocketStatus = .STATUS_SOCKET_CONNECT ↔ s.hist.conn i ≠ 0
  work_iff : ∀ i, i ∈ s.WorkClientList ↔ s.hist.conn i ≠ 0
  free_closed : ∀ i ∈ s.FreeClientList, s.hist.conn i = 0
  work_nodup : s.WorkClientList.Nodup
  free_nodup : s.FreeClientList.Nodup
  cell_session : ∀ c, (s.cells c).iSessionID = (s.hist.msg c).session
  cell_slot : ∀ c, (s.cells c).pClientInfo = (s.hist.msg c).slot
  msg_session : ∀ c, (s.hist.msg c).session = (s.hist.msg c).conn % 4294967296
  put_session : ∀ m ∈ s.hist.put, m.session = m.conn % 4294967296
  picked_session : ∀ e ∈ s.hist.picked,
    e.session = e.conn % 4294967296 ∧ e.msg.session = e.msg.conn % 4294967296

theorem stamped_initialServer (align : MsgCell → Nat) (filled : FifoRing MsgCell × List Ret) :
    Stamped (initialServer align filled) where
  counter := rfl
  session_eq _ := rfl
  status_iff _ := by simp [initialServer, CLIENTINFO.zero]
  work_iff _ := by simp [initialServer]
  free_closed _ _ := rfl
  work_nodup := List.nodup_nil
  free_nodup := List.nodup_reverse.mpr (List.nodup_finRange _)
  cell_session _ := rfl
  cell_slot _ := rfl
  msg_session _ := rfl
  put_session _ h := by cases h
  picked_session _ h := by cases h

/-- A change of a client that keeps its session and its socket status. -/
theorem Stamped.setClient {s : Server} (h : Stamped s) (i : Slot) {f : CLIENTINFO → CLIENTINFO}
    (hsession : (f (s.ClientInfo i)).iSessionID = (s.ClientInfo i).iSessionID)
    (hstatus : (f (s.ClientInfo i)).lSocketStatus = (s.ClientInfo i).lSocketStatus) :
    Stamped (s.setClient i f) := by
  refine { h with session_eq := ?_, status_iff := ?_ }
  · intro j
    by_cases hj : j = i
    · rw [hj, setClient_ClientInfo_self, hsession]
      exact h.session_eq i
    · rw [setClient_ClientInfo_of_ne s f hj]
      exact h.session_eq j
  · intro j
    by_cases hj : j = i
    · rw [hj, setClient_ClientInfo_self, hstatus]
      exact h.status_iff i
    · rw [setClient_ClientInfo_of_ne s f hj]
      exact h.status_iff j

theorem Stamped.withFree {s : Server} (h : Stamped s) (ring : FifoRing MsgCell)
    (pushed : List Ret) : Stamped (s.withFree ring pushed) := { h with }

theorem Stamped.stampCell {s : Server} (h : Stamped s) (i : Slot) (c : MsgCell)
    (ring : FifoRing MsgCell) : Stamped (s.stampCell i c ring) := by
  refine { h with cell_session := ?_, cell_slot := ?_, msg_session := ?_ }
  · intro d
    by_cases hd : d = c
    · rw [hd, stampCell_cells_self, stampCell_msg_self]
    · rw [stampCell_cells_of_ne _ _ _ hd, stampCell_msg_of_ne _ _ _ hd]
      exact h.cell_session d
  · intro d
    by_cases hd : d = c
    · rw [hd, stampCell_cells_self, stampCell_msg_self]
    · rw [stampCell_cells_of_ne _ _ _ hd, stampCell_msg_of_ne _ _ _ hd]
      exact h.cell_slot d
  · intro d
    by_cases hd : d = c
    · rw [hd, stampCell_msg_self]
      exact h.session_eq i
    · rw [stampCell_msg_of_ne _ _ _ hd]
      exact h.msg_session d

theorem Stamped.IoGetSendMsgCell {s : Server} (h : Stamped s) (i : Slot) :
    Stamped (s.IoGetSendMsgCell i).2 := by
  unfold Server.IoGetSendMsgCell
  cases FifoPop s.pFifoDogMsgFree with
  | none => exact h
  | some r => exact h.stampCell i r.1 r.2

theorem Stamped.pushString {s : Server} (h : Stamped s) (c : MsgCell) (str : CStr) :
    Stamped (s.pushString c str) := by
  refine { h with cell_session := ?_, cell_slot := ?_, msg_session := ?_ }
  · intro d
    by_cases hd : d = c
    · simp only [Server.pushString, hd, Function.update_self]
      exact h.cell_session c
    · simp only [Server.pushString, Function.update_of_ne hd]
      exact h.cell_session d
  · intro d
    by_cases hd : d = c
    · simp only [Server.pushString, hd, Function.update_self]
      exact h.cell_slot c
    · simp only [Server.pushString, Function.update_of_ne hd]
      exact h.cell_slot d
  · intro d
    by_cases hd : d = c
    · simp only [Server.pushString, hd, Function.update_self]
      exact h.msg_session c
    · simp only [Server.pushString, Function.update_of_ne hd]
      exact h.msg_session d

theorem Stamped.IoPutSendMsgCell {s : Server} (h : Stamped s) (c : MsgCell) :
    Stamped (s.IoPutSendMsgCell c) := by
  refine { h with put_session := ?_ }
  intro m hm
  rcases List.mem_append.mp hm with hm | hm
  · exact h.put_session m hm
  · rw [List.mem_singleton.mp hm]
    exact h.msg_session c

theorem Stamped.popDogMsg {s s' : Server} (h : Stamped s) (hs : s.popDogMsg = some s') :
    Stamped s' := by
  unfold Server.popDogMsg at hs
  cases hpop : FifoPop s.pFifoDogMsg with
  | none => simp [hpop] at hs
  | some r =>
      simp only [hpop] at hs
      have hpopped : Stamped { s with pFifoDogMsg := r.2 } := { h with }
      split at hs
      · cases hs
        exact hpopped.withFree _ _
      · cases hs
        exact hpopped.setClient _ rfl rfl

theorem Stamped.pickUp {s : Server} (h : Stamped s) (i : Slot) : Stamped (s.pickUp i) := by
  unfold Server.pickUp
  cases (s.ClientInfo i).ListSendMsg with
  | nil => exact h
  | cons c rest =>
      have hset := h.setClient i (f := withCurrent c (s.cells c).hStream rest) rfl rfl
      refine { hset with picked_session := ?_ }
      intro e he
      rcases List.mem_append.mp he with he | he
      · exact h.picked_session e he
      · rw [List.mem_singleton.mp he]
        exact ⟨h.session_eq i, h.msg_session c⟩

theorem Stamped.firstPass {s : Server} (h : Stamped s) (i : Slot) : Stamped (s.firstPass i) := by
  simp only [Server.firstPass]
  split
  · exact h
  · split
    · exact h
    · exact h.pickUp i

theorem Stamped.sendPump {s : Server} (h : Stamped s) (i : Slot) (sn : Nat) :
    Stamped (s.sendPump i sn) := by
  by_cases hlt : sn < (s.ClientInfo i).iCurSendLen
  · rw [sendPump_of_lt hlt]
    have hlog : Stamped (s.logSent i (s.bytesToSend i sn)) := { h with }
    exact hlog.setClient i rfl rfl
  · obtain ⟨ring, pushed, -, heq⟩ := sendPump_of_le (Nat.le_of_not_lt hlt)
    have hlog : Stamped ((s.withFree ring pushed).logSent i (s.bytesToSend i sn)) := { h with }
    have hbase := hlog.setClient i
      (f := fun ci => { ci with iCurSendLen := 0, pCurSendMsg := none }) rfl rfl
    rw [heq]
    split
    · exact hbase.pickUp i
    · split
      · exact hbase.setClient i rfl rfl
      · exact hbase

theorem Stamped.recycle {s : Server} (h : Stamped s) {i : Slot} (hi : i ∈ s.WorkClientList) :
    Stamped (s.recycle i) := by
  obtain ⟨ring, pushed, -, heq⟩ := recycle_spec i s
  rw [heq]
  -- the working slots are those with a connection, and this one is given up
  have hopen := (h.work_iff i).mp hi
  refine { h with
    session_eq := ?_, status_iff := ?_, work_iff := ?_, free_closed := ?_, work_nodup := ?_,
    free_nodup := ?_ }
  · intro j
    by_cases hj : j = i
    · simp only [hj, setClient_ClientInfo_self, recycled, Function.update_self, Nat.zero_mod]
    · simp only [setClient_ClientInfo_of_ne _ _ hj, Function.update_of_ne hj]
      exact h.session_eq j
  · intro j
    by_cases hj : j = i
    · simp [hj, setClient_ClientInfo_self, recycled]
    · simp only [setClient_ClientInfo_of_ne _ _ hj, Function.update_of_ne hj]
      exact h.status_iff j
  · intro j
    show j ∈ s.WorkClientList.erase i ↔ Function.update s.hist.conn i 0 j ≠ 0
    rw [h.work_nodup.mem_erase_iff]
    by_cases hj : j = i
    · simp [hj]
    · rw [Function.update_of_ne hj, h.work_iff j]
      exact and_iff_right hj
  · intro j hj
    show Function.update s.hist.conn i 0 j = 0
    by_cases hji : j = i
    · rw [hji, Function.update_self]
    · rw [Function.update_of_ne hji]
      rcases List.mem_cons.mp hj with hj | hj
      · exact absurd hj hji
      · exact h.free_closed j hj
  · exact h.work_nodup.erase i
  · refine List.nodup_cons.mpr ⟨?_, h.free_nodup⟩
    intro hfree
    exact hopen (h.free_closed i hfree)

theorem Stamped.acceptClient {s : Server} (h : Stamped s) (sd : Nat) :
    Stamped (s.acceptClient sd) := by
  unfold Server.acceptClient
  cases hfree : s.FreeClientList with
  | nil => exact h
  | cons i rest =>
      have hclosed : s.hist.conn i = 0 := h.free_closed i (by rw [hfree]; exact List.mem_cons_self)
      have hnodup := h.free_nodup
      rw [hfree] at hnodup
      obtain ⟨hi, hrest⟩ := List.nodup_cons.mp hnodup
      -- the counter of the source wraps, the number of the accepted ones does not
      have hnext : (s.iSessionID + 1) % 4294967296 = (s.hist.accepted + 1) % 4294967296 := by
        rw [h.counter]
        omega
      refine { h with
        counter := ?_, session_eq := ?_, status_iff := ?_, work_iff := ?_, free_closed := ?_,
        work_nodup := ?_, free_nodup := ?_ }
      · exact hnext
      · intro j
        by_cases hj : j = i
        · simp only [hj, setClient_ClientInfo_self, connected, Function.update_self]
          exact hnext
        · simp only [setClient_ClientInfo_of_ne _ _ hj, Function.update_of_ne hj]
          exact h.session_eq j
      · intro j
        by_cases hj : j = i
        · simp [hj, setClient_ClientInfo_self, connected]
        · simp only [setClient_ClientInfo_of_ne _ _ hj, Function.update_of_ne hj]
          exact h.status_iff j
      · intro j
        show j ∈ i :: s.WorkClientList ↔ Function.update s.hist.conn i (s.hist.accepted + 1) j ≠ 0
        by_cases hj : j = i
        · simp [hj]
        · rw [Function.update_of_ne hj, List.mem_cons, h.work_iff j]
          exact or_iff_right hj
      · intro j hj
        have hji : j ≠ i := by
          rintro rfl
          exact hi hj
        simp only [Function.update_of_ne hji]
        exact h.free_closed j (by rw [hfree]; exact List.mem_cons_of_mem _ hj)
      · refine List.nodup_cons.mpr ⟨?_, h.work_nodup⟩
        intro hwork
        exact (h.work_iff i).mp hwork hclosed
      · exact hrest

end Server

/-- Every step keeps the stamps. -/
theorem stamped_step {p p' : Pool} {a : TransportAction} (h : Server.Stamped p.srv)
    (hs : transportStep p a = some p') : Server.Stamped p'.srv := by
  cases transportStep_eq_some hs with
  | get i => exact h.IoGetSendMsgCell i
  | put c str _ => exact (h.pushString c str.text).IoPutSendMsgCell c
  | abandon _ _ => exact h
  | drain hpop => exact h.popDogMsg hpop
  | pickUp i _ _ => exact h.firstPass i
  | send i sn _ _ _ => exact h.sendPump i sn
  | toEnd i _ => exact h.setClient i (f := fun ci => { ci with lStatus := .STATUS_UNKNOWN }) rfl rfl
  | ioClosed i =>
      exact h.setClient i (f := fun ci => { ci with lStatus := .STATUS_IOCLOSEED }) rfl rfl
  | recycle i hi _ => exact h.recycle hi
  | accept sd => exact h.acceptClient sd
  | allocator answer => exact { h with }

theorem stamped_reach {align : MsgCell → Nat} {C : Pool → TransportAction → Prop} {p : Pool}
    (h : Reach transportStep C (transportInit align) p) : Server.Stamped p.srv :=
  h.invariant (P := fun p => Server.Stamped p.srv) (Server.stamped_initialServer align _)
    fun _ _ _ hp _ hs => stamped_step hp hs

end Netflow
