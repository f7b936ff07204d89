import Netflow.Registry.Follows
import Mathlib.Logic.Relation

set_option autoImplicit false

/-! # The moves of the IO thread and the capture threads

The handlers, the end of a session and the fan-out of a packet are made of few elementary moves: an
answer to a client, a change of the fields of a client that the receive thread does not write, and a
change of what is no client and no message. What every move keeps, every such function keeps; only
the cells that are obtained and not put fall outside.
-/

namespace Netflow

open Iksemel Relation

/-- The fields of a client that only the receive thread writes. -/
structure RecvFields where
  lSocketStatus : CLIENTSOCKETSTATUS
  Socket : Nat
  iSessionID : Nat
  iCurSendLen : Nat
  pSndData : Option (MsgCell × Nat)
  pCurSendMsg : Option MsgCell
  ListSendMsg : List MsgCell

def CLIENTINFO.recv (ci : CLIENTINFO) : RecvFields where
  lSocketStatus := ci.lSocketStatus
  Socket := ci.Socket
  iSessionID := ci.iSessionID
  iCurSendLen := ci.iCurSendLen
  pSndData := ci.pSndData
  pCurSendMsg := ci.pCurSendMsg
  ListSendMsg := ci.ListSendMsg

namespace Server

/-- The elementary moves. -/
inductive Move (s : Server) : Server → Prop where
  | answer (i : Slot) (str : CStr) : Move s (s.answer i str).2
  | client (i : Slot) (f : CLIENTINFO → CLIENTINFO) :
      (∀ ci, (f ci).recv = ci.recv) → Move s (s.setClient i f)
  | world (links : LinkMem HookNode) (CuteDogList : List DogPtr) (dogs : DogPtr → Option CUTEDOG)
      (FunCallBack : CallBack) (pcap_handle : Option PcapHandle) (tidp : ThreadId)
      (threads : List Capture) (opened : List PcapHandle) :
      Move s { s with
        links := links, CuteDogList := CuteDogList, dogs := dogs, FunCallBack := FunCallBack
        pcap_handle := pcap_handle, tidp := tidp, threads := threads, opened := opened }

abbrev Moves : Server → Server → Prop := ReflTransGen Move

variable {s s' : Server}

theorem moves_answer (i : Slot) (str : CStr) (s : Server) : Moves s (s.answer i str).2 :=
  .single (.answer i str)

theorem moves_of_answer {j : Slot} {str : CStr} {b : Bool} (h : s.answer j str = (b, s')) :
    Moves s s' := by
  have hanswer := moves_answer j str s
  rwa [h] at hanswer

theorem moves_setCuteDog (i : Slot) (d : Option DogPtr) (s : Server) : Moves s (s.setCuteDog i d) :=
  .single (.client i _ fun _ => rfl)

theorem moves_setType (i : Slot) (lType : CLIENTTYPE) (s : Server) : Moves s (s.setType i lType) :=
  .single (.client i _ fun _ => rfl)

theorem moves_links (links : LinkMem HookNode) (s : Server) : Moves s { s with links := links } :=
  .single (.world links _ _ _ _ _ _ _)

theorem moves_SetCapFilter (Handle : Option PcapHandle) (i : Slot) (o : Outcome) (s : Server) :
    Moves s (s.SetCapFilter Handle i o).2 := by
  unfold SetCapFilter
  split
  · exact .refl
  · split
    · exact moves_answer i _ s
    · exact moves_answer i _ s

/-! ## The loops over hookers -/

theorem moves_dropHookers {d : DogPtr} {message : CStr} {turns : Nat} {pos : HookNode}
    {next : Option HookNode} {b : Bool}
    (h : dropHookers d message turns pos next s = some (b, s')) : Moves s s' := by
  induction turns generalizing pos next s with
  | zero => cases h
  | succ turns ih =>
      unfold dropHookers at h
      split at h
      · cases h
        exact .refl
      · split at h
        · cases h
        · split at h
          · next heq =>
              cases h
              exact moves_of_answer heq
          · next s₁ heq =>
              simp only [Option.bind_eq_bind, Option.bind_eq_some_iff] at h
              obtain ⟨links, -, pos', -, l, -, h⟩ := h
              exact ((moves_of_answer heq).trans (moves_links links s₁)).trans (ih h)

theorem moves_fanOut {d : DogPtr} {message : CStr} {turns : Nat} {pos : HookNode} {b : Bool}
    (h : fanOut d message turns pos s = some (b, s')) : Moves s s' := by
  induction turns generalizing pos s with
  | zero => cases h
  | succ turns ih =>
      unfold fanOut at h
      split at h
      · cases h
        exact .refl
      · split at h
        · cases h
        · split at h
          · next heq =>
              cases h
              exact moves_of_answer heq
          · next s₁ heq =>
              simp only [Option.bind_eq_bind, Option.bind_eq_some_iff] at h
              obtain ⟨l, -, pos', -, h⟩ := h
              exact (moves_of_answer heq).trans (ih h)

theorem moves_sendToHookers {i : Slot} {message : CStr} {b : Bool}
    (h : s.sendToHookers i message = some (b, s')) : Moves s s' := by
  unfold sendToHookers at h
  simp only [Option.bind_eq_bind, Option.bind_eq_some_iff] at h
  obtain ⟨d, -, head, -, notempty, -, h⟩ := h
  split at h
  · simp only [Option.bind_eq_some_iff] at h
    obtain ⟨pos, -, h⟩ := h
    exact moves_fanOut h
  · cases h
    exact .refl

theorem IoGetSendMsgCell_none {i : Slot} {s₁ : Server} (h : s.IoGetSendMsgCell i = (none, s₁)) :
    s₁ = s := by
  rw [IoGetSendMsgCell] at h
  cases hpop : FifoPop s.pFifoDogMsgFree with
  | none =>
      rw [hpop] at h
      exact (Prod.mk.inj h).2.symm
  | some r =>
      rw [hpop] at h
      cases (Prod.mk.inj h).1

/-- A cell that is obtained, written and put is an answer. -/
theorem moves_send {i : Slot} {c : MsgCell} {s₁ : Server} (str : CStr)
    (h : s.IoGetSendMsgCell i = (some c, s₁)) :
    Moves s ((s₁.pushString c str).IoPutSendMsgCell c) := by
  have hanswer := moves_answer i str s
  rwa [answer_of_some (c := c) (by rw [h]), h] at hanswer

theorem moves_SendTcp2Cats {p : Packet} {i : Slot} {b : Bool}
    (h : s.SendTcp2Cats p i = some (b, s')) : Moves s s' := by
  unfold SendTcp2Cats at h
  split at h
  · next hget =>
      cases h
      rw [IoGetSendMsgCell_none hget]
  · next c s₁ hget =>
      simp only [Option.bind_eq_bind, Option.bind_eq_some_iff] at h
      obtain ⟨body, -, h⟩ := h
      -- counting the message first or last makes no difference
      have hcount : ∀ str, Moves s (((s₁.setClient i fun ci =>
          { ci with iMsgNumID := (ci.iMsgNumID + 1) % 4294967296 }).pushString c str).IoPutSendMsgCell
            c) := by
        intro str
        exact (moves_send str hget).tail (.client i (fun ci =>
          { ci with iMsgNumID := (ci.iMsgNumID + 1) % 4294967296 }) fun _ => rfl)
      exact (hcount _).trans (moves_sendToHookers h)

/-! ## Dogs -/

theorem moves_DelHookersWithCuteDog {d : DogPtr} {b : Bool}
    (h : s.DelHookersWithCuteDog d = some (b, s')) : Moves s s' := by
  unfold DelHookersWithCuteDog at h
  simp only [Option.bind_eq_bind, Option.bind_eq_some_iff] at h
  obtain ⟨dog, -, head, -, notempty, -, h⟩ := h
  split at h
  · simp only [Option.bind_eq_some_iff] at h
    obtain ⟨pos, -, l, -, h⟩ := h
    exact moves_dropHookers h
  · cases h
    exact .refl

theorem moves_DelCuteDogInList {i : Slot} {b : Bool} (h : s.DelCuteDogInList i = some (b, s')) :
    Moves s s' := by
  unfold DelCuteDogInList at h
  split at h
  · cases h
    exact .refl
  · next d _ =>
      simp only [Option.bind_eq_bind, Option.bind_eq_some_iff] at h
      obtain ⟨⟨b', s₁⟩, hdrop, h⟩ := h
      split at h
      · cases h
        have hfree := (moves_DelHookersWithCuteDog hdrop).tail (.world
          (Function.update s₁.links (.ListHooker d) none) (s₁.CuteDogList.erase d)
          (Function.update s₁.dogs d none) s₁.FunCallBack s₁.pcap_handle s₁.tidp s₁.threads s₁.opened)
        exact hfree.trans (moves_setCuteDog i none _)
      · cases h

theorem moves_DelHookerInCuteDog {i : Slot} {b : Bool} (h : s.DelHookerInCuteDog i = some (b, s')) :
    Moves s s' := by
  obtain ⟨-, -, rfl⟩ | ⟨links, -, -, -, rfl⟩ := DelHookerInCuteDog_eq_some h
  · exact .refl
  · exact moves_links links s

theorem moves_stopCapture (s : Server) (k : PcapHandle) (d : DogPtr) (dog : CUTEDOG)
    (Thid : PthreadPtr) (Ret : Int) :
    Moves s ({ s with opened := s.opened.erase k }.stopCapture d dog Thid Ret) := by
  cases Thid
  unfold stopCapture pthread_cancel
  dsimp only
  split
  · exact .single (.world _ _ _ _ _ _ _ _)
  · split
    · exact .single (.world _ _ _ _ _ _ _ _)
    · exact .single (.world _ _ _ _ _ _ _ _)

theorem moves_StopDogNose {i : Slot} {o : Outcome} {Ret : Int}
    (h : s.StopDogNose i o = some (Ret, s')) : Moves s s' := by
  obtain ⟨-, rfl⟩ | ⟨d, dog, -, -, ⟨-, rfl⟩ | ⟨k, Thid, -, -, rfl⟩⟩ := StopDogNose_eq_some h
  · exact .refl
  · exact .refl
  · exact (moves_stopCapture s k d dog Thid o.pthread_cancel).trans (moves_answer i _ _)

theorem moves_setCallBack (F : CStr) (s : Server) : Moves s (s.setCallBack F) := by
  unfold setCallBack
  dsimp only
  split
  · exact .single (.world _ _ _ _ _ _ _ _)
  · exact .single (.world _ _ _ _ _ _ _ _)

theorem moves_withHandle (s : Server) (F : CStr) (k : PcapHandle) : Moves s (s.withHandle F k) :=
  (moves_setCallBack F s).tail (.world _ _ _ _ (some k) _ _ (k :: s.opened))

theorem moves_listDog (s : Server) (d : DogPtr) (dog : CUTEDOG) (i : Slot) :
    Moves s (s.listDog d dog i) :=
  (moves_setCuteDog i (some d) s).tail (.world (INIT_LIST_HEAD s.links (.ListHooker d))
    (d :: s.CuteDogList) (Function.update s.dogs d (some dog)) s.FunCallBack s.pcap_handle s.tidp
    s.threads s.opened)

theorem moves_StartDogNose {F : CStr} {N : Option CStr} {i : Slot} {m : Nat} {o : Outcome}
    {ret : Int} (h : s.StartDogNose F N i m o = some (ret, s')) : Moves s s' := by
  have hset : ∀ {k : PcapHandle} {b : Bool} {s₂ : Server},
      (s.withHandle F k).SetCapFilter (some k) i o = (b, s₂) → Moves s s₂ := by
    intro k b s₂ heq
    have hmoves := moves_SetCapFilter (some k) i o (s.withHandle F k)
    rw [heq] at hmoves
    exact (moves_withHandle s F k).trans hmoves
  cases StartDogNose_eq_some h with
  | notOpened _ =>
      exact (moves_setCallBack F s).tail (.world _ _ _ _ none _ _ _)
  | refused _ _ heq _ => exact hset heq
  | noThread _ _ heq _ _ _ _ => exact (hset heq).trans (moves_listDog _ _ _ i)
  | started _ _ heq _ _ _ _ _ =>
      exact ((hset heq).trans (moves_listDog _ _ _ i)).tail (.world _ _ _ _ _ _ _ _)

/-! ## Requests -/

section Handlers

variable {ι : Type} [Iksemel ι]

/-- A login with a user name is an answer. -/
theorem moves_RespCatLogin0 {x : Option ι} {i : Slot} {b : Bool}
    (h : s.RespCatLogin0 x i = some (b, s')) :
    Moves s s' ∨ (iks_find_cdata x (CStr.lit "username") = none ∧
      s' = (s.IoGetSendMsgCell i).2) := by
  unfold RespCatLogin0 at h
  dsimp only at h
  split at h
  · next hget =>
      cases h
      rw [IoGetSendMsgCell_none hget]
      exact Or.inl .refl
  · next c s₁ hget =>
      split at h
      · next hnone =>
          cases h
          rw [hget]
          exact Or.inr ⟨hnone, rfl⟩
      · simp only [Option.bind_eq_bind, Option.bind_eq_some_iff] at h
        obtain ⟨inList, -, h⟩ := h
        cases h
        exact Or.inl (moves_send _ hget)

theorem moves_RespCatAllFilters {x : Option ι} {i : Slot}
    (h : s.RespCatAllFilters x i = some s') : Moves s s' := by
  unfold RespCatAllFilters at h
  simp only [Option.bind_eq_bind, Option.bind_eq_some_iff] at h
  obtain ⟨show', -, h⟩ := h
  split at h
  · simp only [Option.bind_eq_some_iff] at h
    obtain ⟨Filter, -, h⟩ := h
    split at h
    · cases h
      exact moves_answer i _ s
    · cases h
      exact .refl
  · cases h
    exact .refl

theorem moves_RespCatSetHooker {x : Option ι} {i : Slot} (h : s.RespCatSetHooker x i = some s') :
    Moves s s' := by
  unfold RespCatSetHooker at h
  dsimp only at h
  split at h
  · simp only [Option.bind_eq_bind, Option.bind_eq_some_iff] at h
    obtain ⟨⟨b, s₁⟩, hadd, h⟩ := h
    obtain ⟨rfl, rfl, -⟩ | ⟨Name, d, links, rfl, -, -, -, rfl⟩ := AddHooker2CuteDog_eq_some hadd
    · cases h
      exact moves_answer i _ s₁
    · cases h
      have hhook := (moves_links links s).trans (moves_setCuteDog i (some d) _)
      exact (hhook.trans (moves_setType i .CLIENT_USER_HOOKER _)).trans (moves_answer i _ _)
  · split at h
    · simp only [Option.bind_eq_bind, Option.bind_eq_some_iff] at h
      obtain ⟨⟨b, s₁⟩, hdel, h⟩ := h
      have hmoves := moves_DelHookerInCuteDog hdel
      cases b with
      | true =>
          cases h
          exact hmoves.trans (moves_answer i _ s₁)
      | false =>
          cases h
          exact hmoves.trans (moves_answer i _ s₁)
    · cases h
      exact .refl

/-- A create or a cancel up to its broadcast. -/
theorem moves_createOrCancel {x : Option ι} {i : Slot} {o : Outcome} {b : Bool}
    (h : s.createOrCancel x i o = some (b, s')) : Moves s s' := by
  unfold createOrCancel at h
  dsimp only at h
  split at h
  · split at h
    · cases h
      exact .refl
    · simp only [Option.bind_eq_bind, Option.bind_eq_some_iff] at h
      obtain ⟨⟨ret, s₁⟩, hstart, h⟩ := h
      have hmoves := moves_StartDogNose hstart
      split at h
      · next heq =>
          cases h
          cases heq
          exact hmoves
      · next heq =>
          cases h
          cases heq
          exact hmoves.trans (moves_setType i _ _)
  · split at h
    · simp only [Option.bind_eq_bind, Option.bind_eq_some_iff] at h
      obtain ⟨⟨Ret, s₁⟩, hstop, ⟨b', s₂⟩, hdel, h⟩ := h
      cases h
      exact (moves_StopDogNose hstop).trans (moves_DelCuteDogInList hdel)
    · cases h
      exact .refl

/-- A stanza is a sequence of moves, but for the cell of a login without a user name and those of a
broadcast. -/
theorem moves_IOProcessCatMsg {i : Slot} {type : IksNodeType} {node : ι} {o : Outcome}
    (h : s.IOProcessCatMsg i type node o = some s') :
    ∃ s₁, Moves s s₁ ∧ Talks s₁ s' := by
  obtain ⟨-, -, rfl | rfl⟩ | ⟨handler, x, hof, h⟩ := IOProcessCatMsg_eq_some h
  · exact ⟨s', .refl, Talks.refl s'⟩
  · exact ⟨_, moves_answer i _ s, Talks.refl _⟩
  · cases handler with
    | RespCatLogin0 =>
        simp only [runHandler, Option.map_eq_some_iff] at h
        obtain ⟨⟨b, s₁⟩, hlogin, rfl⟩ := h
        obtain hmoves | ⟨-, rfl⟩ := moves_RespCatLogin0 hlogin
        · exact ⟨s₁, hmoves, Talks.refl s₁⟩
        · exact ⟨s, .refl, talks_IoGetSendMsgCell i s⟩
    | RespCatAllFilters => exact ⟨s', moves_RespCatAllFilters h, Talks.refl s'⟩
    | RespCatSetHooker => exact ⟨s', moves_RespCatSetHooker h, Talks.refl s'⟩
    | RespCatCreateFilter =>
        simp only [runHandler, RespCatCreateFilter, Option.bind_eq_bind,
          Option.bind_eq_some_iff] at h
        obtain ⟨⟨b, s₁⟩, hfirst, h⟩ := h
        have hmoves := moves_createOrCancel hfirst
        cases b with
        | true => exact ⟨s₁, hmoves, talks_CuteDogBroadCast h⟩
        | false =>
            cases h
            exact ⟨s', hmoves, Talks.refl s'⟩

end Handlers

/-- The end of a session marks the client and makes moves. -/
theorem moves_shutdown {i : Slot} {o : Outcome} (h : s.shutdown i o = some s') : Moves s s' := by
  have hclosed : Moves s ((s.ioClosed i).setClient i fun ci => { ci with Prs := false }) :=
    ReflTransGen.tail (.single (.client i (fun ci => { ci with lStatus := .STATUS_IOCLOSEED })
      fun _ => rfl)) (.client i (fun ci => { ci with Prs := false }) fun _ => rfl)
  unfold shutdown FreeObj at h
  simp only [Option.bind_eq_bind] at h
  split at h
  · simp only [Option.bind_eq_some_iff] at h
    obtain ⟨⟨Ret, s₁⟩, hstop, ⟨b, s₂⟩, hdel, h⟩ := h
    cases h
    exact (hclosed.trans (moves_StopDogNose hstop)).trans (moves_DelCuteDogInList hdel)
  · simp only [Option.bind_eq_some_iff] at h
    obtain ⟨⟨b, s₁⟩, hdel, h⟩ := h
    cases h
    exact hclosed.trans (moves_DelHookerInCuteDog hdel)
  · cases h
    exact hclosed

/-! ## What the moves keep -/

/-- The receive thread's fields of every client, the client lists and the session counter are the
same. -/
structure Quiet (s s' : Server) : Prop where
  recv : ∀ i, (s'.ClientInfo i).recv = (s.ClientInfo i).recv
  free : s'.FreeClientList = s.FreeClientList
  work : s'.WorkClientList = s.WorkClientList
  iSessionID : s'.iSessionID = s.iSessionID

theorem Quiet.refl (s : Server) : Quiet s s := ⟨fun _ => rfl, rfl, rfl, rfl⟩

theorem Quiet.trans {s₁ : Server} (h : Quiet s s₁) (h' : Quiet s₁ s') : Quiet s s' :=
  ⟨fun i => (h'.recv i).trans (h.recv i), h'.free.trans h.free, h'.work.trans h.work,
    h'.iSessionID.trans h.iSessionID⟩

theorem Talks.quiet (h : Talks s s') : Quiet s s' := by
  obtain ⟨_, _, _, _, rfl⟩ := h
  exact ⟨fun _ => rfl, rfl, rfl, rfl⟩

theorem Move.quiet (h : Move s s') : Quiet s s' := by
  cases h with
  | answer i str => exact (talks_answer i str s).quiet
  | client i f hf =>
      refine ⟨fun j => ?_, rfl, rfl, rfl⟩
      by_cases hj : j = i
      · rw [hj, setClient_ClientInfo_self, hf]
      · rw [setClient_ClientInfo_of_ne s f hj]
  | world _ _ _ _ _ _ _ _ => exact ⟨fun _ => rfl, rfl, rfl, rfl⟩

theorem Moves.quiet (h : Moves s s') : Quiet s s' := by
  induction h with
  | refl => exact Quiet.refl s
  | tail _ hmove ih => exact ih.trans hmove.quiet

/-- **Requests leave the receive thread's data alone.** -/
theorem quiet_IOProcessCatMsg {ι : Type} [Iksemel ι] {i : Slot} {type : IksNodeType} {node : ι}
    {o : Outcome} (h : s.IOProcessCatMsg i type node o = some s') : Quiet s s' := by
  obtain ⟨s₁, hmoves, htalks⟩ := moves_IOProcessCatMsg h
  exact (Moves.quiet hmoves).trans htalks.quiet

end Server

end Netflow
