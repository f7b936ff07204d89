import Netflow.Registry.Drained
import Netflow.Registry.HookRuns
import Netflow.Registry.Moves
import Netflow.Transport.Answered
import Netflow.Transport.Places

set_option autoImplicit false

/-! # Message cells that are lost

An operation that obtains a cell either puts it or drops the only pointer to it. The cell of a login
without a user name and the first of the two cells of every turn of `CuteDogBroadCast` are dropped,
and a pick-up overwrites a current message. All other paths keep every cell in its ring, its list or
its client (`Keeps`), so in runs that take these paths only the pool stays complete.
-/

namespace Netflow

open Iksemel

namespace Server

/-- No cell is lost and none is doubled, and no push is refused. -/
def Keeps (s s' : Server) : Prop :=
  RingsOk s → s.places.Nodup → RingsOk s' ∧ s'.places = s.places

variable {s s' : Server}

theorem Keeps.refl (s : Server) : Keeps s s := fun hok _ => ⟨hok, rfl⟩

theorem Keeps.trans {s₁ : Server} (h : Keeps s s₁) (h' : Keeps s₁ s') : Keeps s s' := by
  intro hok hnodup
  obtain ⟨hok₁, hplaces⟩ := h hok hnodup
  obtain ⟨hok', hplaces'⟩ := h' hok₁ (hplaces ▸ hnodup)
  exact ⟨hok', hplaces'.trans hplaces⟩

/-! ## Answers -/

/-- A cell that is obtained, written and put is not lost. -/
theorem keeps_send {i : Slot} {c : MsgCell} {s₁ : Server} (str : CStr)
    (h : s.IoGetSendMsgCell i = (some c, s₁)) :
    Keeps s ((s₁.pushString c str).IoPutSendMsgCell c) := by
  intro hok hnodup
  obtain ⟨hok₁, hplaces⟩ := places_IoGetSendMsgCell s i hok
  rw [h] at hok₁ hplaces
  have hplaces' : s₁.places + {c} = s.places := hplaces
  have hpush : (s₁.pushString c str).places = s₁.places := rfl
  have hnodup' : ((s₁.pushString c str).places + {c}).Nodup := by
    rwa [hpush, hplaces']
  obtain ⟨hok₂, hput⟩ := places_IoPutSendMsgCell (s := s₁.pushString c str)
    ⟨hok₁.free_length, hok₁.msg_length, hok₁.pushed_ok⟩ hnodup'
  refine ⟨hok₂, hput.trans ?_⟩
  rw [hpush, hplaces']

theorem keeps_answer (i : Slot) (str : CStr) (s : Server) : Keeps s (s.answer i str).2 := by
  cases hget : s.IoGetSendMsgCell i with
  | mk c s₁ =>
      cases c with
      | none =>
          rw [answer_of_none (by rw [hget]), hget, IoGetSendMsgCell_none hget]
          exact Keeps.refl s
      | some c =>
          rw [answer_of_some (c := c) (by rw [hget]), hget]
          exact keeps_send str hget

theorem cellsOf_of_recv {ci ci' : CLIENTINFO} (h : ci'.recv = ci.recv) : cellsOf ci' = cellsOf ci := by
  have hlist : ci'.ListSendMsg = ci.ListSendMsg := congrArg RecvFields.ListSendMsg h
  have hcur : ci'.pCurSendMsg = ci.pCurSendMsg := congrArg RecvFields.pCurSendMsg h
  rw [cellsOf, cellsOf, hlist, hcur]

/-- The elementary moves lose no cell. -/
theorem Move.keeps (h : Move s s') : Keeps s s' := by
  cases h with
  | answer i str => exact keeps_answer i str s
  | client i f hf =>
      exact fun hok _ => ⟨⟨hok.free_length, hok.msg_length, hok.pushed_ok⟩,
        places_setClient_same s i (cellsOf_of_recv (hf _))⟩
  | world _ _ _ _ _ _ _ _ =>
      exact fun hok _ => ⟨⟨hok.free_length, hok.msg_length, hok.pushed_ok⟩, rfl⟩

theorem Moves.keeps (h : Moves s s') : Keeps s s' := by
  induction h with
  | refl => exact Keeps.refl s
  | tail _ hmove ih => exact ih.trans hmove.keeps

/-! ## The cells a request drops -/

/-- When no cell is free the broadcast does nothing. -/
theorem CuteDogBroadCast_of_empty (h : s.CuteDogBroadCast = some s')
    (hempty : ¬Registry.CellFree s) : s' = s := by
  have hget : ∀ i, s.IoGetSendMsgCell i = (none, s) := by
    intro i
    rw [IoGetSendMsgCell, (FifoPop_eq_none_iff _).mpr (not_not.mp hempty)]
  rw [CuteDogBroadCast, Option.bind_eq_bind, Option.bind_eq_some_iff] at h
  obtain ⟨Rows, -, h⟩ := h
  cases h
  cases s.WorkClientList with
  | nil => rfl
  | cons i rest => rw [broadcastTo, hget]

end Server

/-! ## Runs -/

section Run

variable {ι : Type} [Iksemel ι]

/-- A cancel of the client finds no more free cells than it has answers to send. -/
def AnswersTakeAll (s : Server) (i : Slot) : Prop :=
  match (s.ClientInfo i).CuteDog with
  | none => s.pFifoDogMsgFree.count = 0
  | some d => ∃ js : List Slot, Circle s.links (.ListHooker d) (js.map .list1) ∧
      s.pFifoDogMsgFree.count ≤ 1 + js.length

/-- The guard: a login without a user name finds no free cell, a request whose dogs are broadcast has
used the free cells up by then, and a message is picked up when none is current. -/
def CellsKept (s : Server) : ServerAction ι → Prop
  | .stanza i type node o =>
      ((handlerOf type node).1 = some .RespCatLogin0 →
        iks_find_cdata (handlerOf type node).2 (CStr.lit "username") = none →
          ¬Registry.CellFree s) ∧
        match requestOf type node with
        | .create (some _) _ m => (∃ h, o.captures m h) → o.pthread_create.isSome = true →
            s.pFifoDogMsgFree.count ≤ 1
        | .cancel => AnswersTakeAll s i
        | _ => True
  | .pickUp i => (s.ClientInfo i).lSocketStatus ≠ .STATUS_SOCKET_CLOSED →
      (s.ClientInfo i).iCurSendLen = 0 → (s.ClientInfo i).ListSendMsg ≠ [] →
        (s.ClientInfo i).pCurSendMsg = none
  | _ => True

namespace Server

variable {s s' : Server}

/-- A filter that was set was answered with one cell. -/
theorem count_SetCapFilter {h : PcapHandle} {i : Slot} {o : Outcome}
    (hset : s.SetCapFilter (some h) i o = (true, s')) :
    s'.pFifoDogMsgFree.count + 1 = s.pFifoDogMsgFree.count := by
  unfold SetCapFilter at hset
  dsimp only at hset
  split at hset
  · obtain ⟨heq, -⟩ | ⟨s₁, heq, -, hcount⟩ := answer_spec i (CStr.lit
      "<iq type='result'><query xmlns='filter:new' action='create'><error id='OK' content=''/></query></iq>") s
    · rw [heq] at hset
      cases hset
    · rw [heq] at hset
      cases hset
      exact hcount
  · cases hset

theorem not_cellFree_of_count (h : s.pFifoDogMsgFree.count = 0) : ¬Registry.CellFree s := by
  rw [← FifoRing.length_contents] at h
  exact not_not.mpr (List.eq_nil_of_length_eq_zero h)

/-- A create that goes on to its broadcast has used the free cells up. -/
theorem createOrCancel_create {x : Option ι} {i : Slot} {o : Outcome} {F N : Option CStr} {m : Nat}
    (h : s.createOrCancel x i o = some (true, s')) (hreq : filterRequest x = .create F N m)
    (hguard : ∀ F', F = some F' → (∃ h, o.captures m h) → o.pthread_create.isSome = true →
      s.pFifoDogMsgFree.count ≤ 1) : ¬Registry.CellFree s' := by
  obtain ⟨hcreate, hF, hN, hm⟩ := filterRequest_eq_create hreq
  unfold createOrCancel at h
  simp only [hcreate, hF, hN, hm, if_true] at h
  split at h
  · cases h
  · next F' =>
      simp only [Option.bind_eq_bind, Option.bind_eq_some_iff] at h
      obtain ⟨⟨ret, s₁⟩, hstart, h⟩ := h
      cases StartDogNose_eq_some hstart with
      | notOpened _ => cases h
      | refused _ _ _ _ => cases h
      | noThread _ _ _ _ _ _ _ => cases h
      | @started k n s₂ tid hlive _ heq hlink _ _ hthread _ =>
          cases h
          have hfst := SetCapFilter_fst k i o (s.withHandle F' k)
          rw [heq] at hfst
          have hle := hguard F' rfl ⟨k, hlive, (hfst.mp rfl).1, hlink⟩ (by rw [hthread]; rfl)
          have hcount := count_SetCapFilter heq
          rw [pFifoDogMsgFree_withHandle] at hcount
          refine not_cellFree_of_count ?_
          show s₂.pFifoDogMsgFree.count = 0
          omega

theorem count_answer (i : Slot) (str : CStr) (s : Server) :
    (s.answer i str).2.pFifoDogMsgFree.count = s.pFifoDogMsgFree.count - 1 := by
  obtain ⟨heq, hnone⟩ | ⟨s₁, heq, -, hcount⟩ := answer_spec i str s
  · rw [heq, ← FifoRing.length_contents, hnone, List.length_nil, Nat.zero_sub]
  · rw [heq]
    show s₁.pFifoDogMsgFree.count = _
    omega

/-- A cancel has used the free cells up when it goes on to its broadcast. -/
theorem createOrCancel_cancel {x : Option ι} {i : Slot} {o : Outcome} (hs : s.registry.Sound)
    (h : s.createOrCancel x i o = some (true, s')) (hreq : filterRequest x = .cancel)
    (hguard : AnswersTakeAll s i) : ¬Registry.CellFree s' := by
  obtain ⟨hcreate, hcancel⟩ := filterRequest_eq_cancel hreq
  simp only [createOrCancel, if_neg hcreate, hcancel, if_true, Option.bind_eq_bind,
    Option.bind_eq_some_iff] at h
  obtain ⟨⟨Ret, s₁⟩, hstop, ⟨b, s₂⟩, hdel, h⟩ := h
  cases h
  obtain ⟨hlinks, -, hclients, hdogs⟩ := StopDogNose_frame hstop
  unfold AnswersTakeAll at hguard
  obtain ⟨hnone, rfl⟩ | ⟨d, dog, hd, hdog, hcase⟩ := StopDogNose_eq_some hstop
  · rw [hnone] at hguard
    simp only [DelCuteDogInList, hnone] at hdel
    cases hdel
    exact not_cellFree_of_count hguard
  · rw [hd] at hguard
    obtain ⟨js, hcircle, hle⟩ := hguard
    obtain ⟨k, hopen, hhandle⟩ := hs.handles d dog hdog
    -- the answer to the client takes one cell, each hooker one more
    have hcount₁ : s₁.pFifoDogMsgFree.count = s.pFifoDogMsgFree.count - 1 := by
      obtain ⟨hno, -⟩ | ⟨k', Thid, -, -, rfl⟩ := hcase
      · rw [hhandle] at hno
        cases hno
      · rw [count_answer, pFifoDogMsgFree_stopCapture]
    rw [← hclients] at hd
    rw [← hlinks] at hcircle
    simp only [DelCuteDogInList, hd, Option.bind_eq_bind, Option.bind_eq_some_iff] at hdel
    obtain ⟨⟨b', s₃⟩, hdrop, hdel⟩ := hdel
    obtain ⟨dog', hdog'⟩ := Option.isSome_iff_exists.mp (hdogs d (by rw [hdog]; rfl))
    obtain ⟨b'', s₄, hdrop', hdropped⟩ := DelHookersWithCuteDog_circle hcircle hdog'
    have hcount₄ := hdropped.cells
    rw [hdrop] at hdrop'
    cases hdrop'
    split at hdel
    · cases hdel
      refine not_cellFree_of_count ?_
      show s₃.pFifoDogMsgFree.count = 0
      omega
    · cases hdel

/-- Only creates and cancels are broadcast. -/
theorem filterRequest_of_true {x : Option ι} {i : Slot} {o : Outcome}
    (h : s.createOrCancel x i o = some (true, s')) :
    filterRequest x = .cancel ∨ ∃ F N m, filterRequest x = .create F N m := by
  unfold createOrCancel at h
  unfold filterRequest
  dsimp only at h ⊢
  split at h
  · next hcreate =>
      rw [if_pos hcreate]
      exact Or.inr ⟨_, _, _, rfl⟩
  · next hcreate =>
      rw [if_neg hcreate]
      split at h
      · next hcancel => exact Or.inl (if_pos hcancel)
      · cases h

theorem keeps_IOProcessCatMsg {i : Slot} {type : IksNodeType} {node : ι} {o : Outcome}
    (hs : s.registry.Sound) (h : s.IOProcessCatMsg i type node o = some s')
    (hguard : CellsKept s (.stanza i type node o)) : Keeps s s' := by
  obtain ⟨hlogin, hreq⟩ := hguard
  obtain ⟨-, -, rfl | rfl⟩ | ⟨handler, x, hof, h⟩ := IOProcessCatMsg_eq_some h
  · exact Keeps.refl s'
  · exact keeps_answer i _ s
  · rw [hof] at hlogin
    cases handler with
    | RespCatLogin0 =>
        simp only [runHandler, Option.map_eq_some_iff] at h
        obtain ⟨⟨b, s₁⟩, hlog, rfl⟩ := h
        obtain hmoves | ⟨hnone, heq⟩ := moves_RespCatLogin0 hlog
        · exact Moves.keeps hmoves
        · -- no cell is free, so none was obtained
          have hempty := not_not.mp (hlogin rfl hnone)
          have hsame : s₁ = s := by
            rw [heq, IoGetSendMsgCell, (FifoPop_eq_none_iff _).mpr hempty]
          rw [hsame]
          exact Keeps.refl s
    | RespCatAllFilters => exact Moves.keeps (moves_RespCatAllFilters h)
    | RespCatSetHooker => exact Moves.keeps (moves_RespCatSetHooker h)
    | RespCatCreateFilter =>
        simp only [runHandler, RespCatCreateFilter, Option.bind_eq_bind,
          Option.bind_eq_some_iff] at h
        obtain ⟨⟨b, s₁⟩, hfirst, h⟩ := h
        have hkeeps := Moves.keeps (moves_createOrCancel hfirst)
        cases b with
        | false =>
            cases h
            exact hkeeps
        | true =>
            have hof' : requestOf type node = filterRequest x := by rw [requestOf, hof]
            rw [hof'] at hreq
            -- with no free cell the broadcast abandons none
            have hempty : ¬Registry.CellFree s₁ := by
              obtain hq | ⟨F, N, m, hq⟩ := filterRequest_of_true hfirst
              · rw [hq] at hreq
                exact createOrCancel_cancel hs hfirst hq hreq
              · rw [hq] at hreq
                refine createOrCancel_create hfirst hq fun F' hF' => ?_
                subst hF'
                exact hreq
            rw [CuteDogBroadCast_of_empty h hempty]
            exact hkeeps

theorem keeps_firstPass {i : Slot} (hguard : CellsKept s (.pickUp i : ServerAction ι)) :
    Keeps s (s.firstPass i) := by
  intro hok _
  unfold firstPass
  dsimp only
  split
  · exact ⟨hok, rfl⟩
  · next hsocket =>
      split
      · exact ⟨hok, rfl⟩
      · next hlen =>
          obtain ⟨hok', hsame, -⟩ := places_pickUp s i hok
          refine ⟨hok', ?_⟩
          by_cases hlist : (s.ClientInfo i).ListSendMsg = []
          · rw [pickUp, hlist]
          · exact hsame (hguard hsocket (by omega) hlist)

end Server

/-- One operation keeps every cell. -/
theorem keeps_serverStep {s s' : Server} {a : ServerAction ι} (hs : s.registry.Sound)
    (hguard : CellsKept s a) (h : serverStep s a = some s') : s.Keeps s' := by
  cases serverStep_eq_some h with
  | accept sd => exact fun hok _ => Server.places_acceptClient s sd hok
  | stanza i type node o _ _ _ hmsg => exact Server.keeps_IOProcessCatMsg hs hmsg hguard
  | shutdown i o _ _ hclose => exact Server.Moves.keeps (Server.moves_shutdown hclose)
  | packet t p _ hsend => exact Server.Moves.keeps (Server.moves_SendTcp2Cats hsend)
  | loopReturns t _ =>
      exact fun hok _ => ⟨⟨hok.free_length, hok.msg_length, hok.pushed_ok⟩, rfl⟩
  | drain hpop => exact fun hok hnodup => Server.places_popDogMsg hok hnodup hpop
  | pickUp i _ _ => exact Server.keeps_firstPass hguard
  | send i sn _ _ _ => exact fun hok hnodup => Server.places_sendPump i sn hok hnodup
  | toEnd i _ =>
      exact (Server.Move.client i (fun ci => { ci with lStatus := .STATUS_UNKNOWN })
        fun _ => rfl).keeps
  | recycle i _ _ => exact fun hok hnodup => Server.places_recycle i hok hnodup
  | allocator answer =>
      exact fun hok _ => ⟨⟨hok.free_length, hok.msg_length, hok.pushed_ok⟩, rfl⟩

/-- Every message cell is in one of the rings, in a list or the current message of a client. -/
def NoCellLost (s : Server) : Prop :=
  ∀ c : MsgCell, c ∈ s.pFifoDogMsgFree.contents ∨ c ∈ s.pFifoDogMsg.contents ∨
    ∃ i, c ∈ (s.ClientInfo i).ListSendMsg ∨ (s.ClientInfo i).pCurSendMsg = some c

theorem Server.mem_places (s : Server) (c : MsgCell) :
    c ∈ s.places ↔ c ∈ s.pFifoDogMsgFree.contents ∨ c ∈ s.pFifoDogMsg.contents ∨
      ∃ i, c ∈ (s.ClientInfo i).ListSendMsg ∨ (s.ClientInfo i).pCurSendMsg = some c := by
  simp only [Server.places, Multiset.mem_add, Multiset.mem_coe, Multiset.mem_sum, Finset.mem_univ,
    true_and, Server.cellsOf, List.mem_append, Option.mem_toList, or_assoc]

/-- The pool is complete: the rings are in order, and every cell is in exactly one place. -/
structure PoolComplete (s : Server) : Prop where
  rings : Server.RingsOk s
  nodup : s.places.Nodup
  all : ∀ c, c ∈ s.places

theorem poolComplete_InitServer (align : MsgCell → Nat) : PoolComplete (InitServer align) := by
  have hplaced : Placed { srv := InitServer align, held := [] } := placed_init align
  refine ⟨hplaced.rings, Multiset.nodup_of_le (Multiset.le_add_right _ _) hplaced.nodup, fun c => ?_⟩
  have hfill : ∀ filled, (initialServer align filled).pFifoDogMsgFree = filled.1 := fun _ => rfl
  rw [Server.mem_places, InitServer, hfill]
  left
  have hmem : c.val ∈ (fillFree (DOG2CATIOMSGNUM - 1) (Nat.le_refl _)).1.contents.map Fin.val := by
    rw [(fillFree_spec _ _).2.1]
    exact List.mem_range.mpr c.isLt
  obtain ⟨c', hc', heq⟩ := List.mem_map.mp hmem
  exact Fin.ext heq ▸ hc'

theorem PoolComplete.keeps {s s' : Server} (hp : PoolComplete s) (h : s.Keeps s') :
    PoolComplete s' := by
  obtain ⟨hok, hplaces⟩ := h hp.rings hp.nodup
  exact ⟨hok, hplaces ▸ hp.nodup, fun c => hplaces ▸ hp.all c⟩

/-- In a run whose steps keep their cells no message cell is lost. -/
theorem no_cell_lost {align : MsgCell → Nat} {s : Server}
    (h : Reach (serverStep (ι := ι)) CellsKept (InitServer align) s) : NoCellLost s := by
  have hinv : s.registry.Sound ∧ PoolComplete s := by
    refine h.invariant (P := fun s => s.registry.Sound ∧ PoolComplete s)
      ⟨sound_InitServer align, poolComplete_InitServer align⟩ ?_
    intro s a s' hs hguard hstep
    exact ⟨hs.1.follows (serverStep_follows hstep), hs.2.keeps (keeps_serverStep hs.1 hguard hstep)⟩
  exact fun c => (s.mem_places c).mp (hinv.2.all c)

/-- **A login without a user name loses a cell** whenever one is free. -/
theorem login_loses_cell {s : Server} {i : Slot} {type : IksNodeType} {node : ι} {o : Outcome}
    (hp : PoolComplete s) (hready : Ready s i) (hcell : Registry.CellFree s)
    (hlogin : (handlerOf type node).1 = some .RespCatLogin0)
    (hname : iks_find_cdata (handlerOf type node).2 (CStr.lit "username") = none) :
    ∃ s', serverStep s (.stanza i type node o) = some s' ∧ ¬NoCellLost s' := by
  obtain ⟨-, hplaces⟩ := Server.places_IoGetSendMsgCell s i hp.rings
  refine ⟨_, login_takes_cell hready hlogin hname, fun hlost => ?_⟩
  obtain ⟨-, hnone⟩ | ⟨c, ring, hget⟩ := Server.IoGetSendMsgCell_cases i s
  · exact hcell hnone
  · rw [hget] at hplaces hlost
    have hsplit : (s.stampCell i c ring).places + {c} = s.places := hplaces
    have hnodup := hp.nodup
    rw [← hsplit] at hnodup
    have hmem := ((s.stampCell i c ring).mem_places c).mpr (hlost c)
    exact (Multiset.disjoint_singleton.mp (Multiset.nodup_add.mp hnodup).2.2) hmem

end Run

/-- The answer to a login under a name that no dog has. -/
def loginOk : CStr :=
  CStr.lit "<iq type='result'><query xmlns='jabber:iq:auth'><error id='OK'/></query></iq>"

/-- A login under a name that no dog has is an answer. -/
theorem login_answered {s : Server} {i : Slot} {node : Iks} {o : Outcome} {name : CStr}
    (hready : Ready s i) (hlogin : (handlerOf .IKS_NODE_NORMAL node).1 = some .RespCatLogin0)
    (hname : iks_find_cdata (handlerOf .IKS_NODE_NORMAL node).2 (CStr.lit "username") = some name)
    (hfresh : ∀ s₁, Server.Talks s s₁ → s₁.CheckNameInList name = some false) :
    serverStep s (.stanza i .IKS_NODE_NORMAL node o) = some (s.answer i loginOk).2 := by
  have hof : handlerOf .IKS_NODE_NORMAL node =
      (some .RespCatLogin0, (handlerOf .IKS_NODE_NORMAL node).2) := Prod.ext hlogin rfl
  have hmsg : s.IOProcessCatMsg i .IKS_NODE_NORMAL node o = some (s.answer i loginOk).2 := by
    rw [IOProcessCatMsg_of_handler hof, Server.answer]
    have htalks := Server.talks_IoGetSendMsgCell i s
    cases hget : s.IoGetSendMsgCell i with
    | mk c s₁ =>
        rw [hget] at htalks
        cases c with
        | none => simp only [Server.runHandler, Server.RespCatLogin0, hget, Option.map_some]
        | some c =>
            have hcheck := hfresh s₁ htalks
            simp only [Server.runHandler, Server.RespCatLogin0, hget, hname, hcheck,
              Option.bind_eq_bind, Option.bind_some, Bool.not_false, if_true, Option.map_some]
            rfl
  exact (if_pos hready).trans hmsg

/-- A login under a name: the cell of its answer was obtained, put, drained, picked up, sent and given
back. -/
theorem no_cell_lost_login : ∃ s : Server, s.hist.sent = [(1, loginOk.chars)] ∧ NoCellLost s := by
  have hname : iks_find_cdata (handlerOf .IKS_NODE_NORMAL
      (iqSet "jabber:iq:auth" "" [textNode "username" "rex"])).2 (CStr.lit "username") =
      some (CStr.lit "rex") := by decide +kernel
  have hguard : CellsKept ((InitServer fun _ => 0).acceptClient 7)
      (.stanza 15 .IKS_NODE_NORMAL (iqSet "jabber:iq:auth" "" [textNode "username" "rex"])
        .allSucceed) := by
    refine ⟨fun _ hnone => ?_, ?_⟩
    · rw [hname] at hnone
      cases hnone
    · have hreq : requestOf .IKS_NODE_NORMAL
          (iqSet "jabber:iq:auth" "" [textNode "username" "rex"]) = .other := by decide +kernel
      rw [hreq]
      trivial
  obtain ⟨s, hreach, hsent⟩ := first_answer (C := CellsKept (ι := Iks))
    (fillFree (DOG2CATIOMSGNUM - 1) (Nat.le_refl _)) loginOk fillFree_ne_nil trivial hguard
    (login_answered ⟨List.mem_cons_self, rfl, fun h => CLIENTSTATUS.noConfusion h⟩
      (by decide +kernel) hname fun s₁ htalks => by
        rw [Server.CheckNameInList, htalks.CuteDogList]
        rfl)
    (by decide +kernel) (by decide +kernel)
    ⟨fun _ => trivial, fun s hnone _ _ _ => hnone, fun _ _ => trivial⟩
  exact ⟨s, hsent, no_cell_lost hreach⟩

/-- The cell of a login without a user name is in no place afterwards. -/
theorem cell_lost_by_login : ¬∀ s, Reach (serverStep (ι := Iks)) AnyStep (InitServer fun _ => 0) s →
    NoCellLost s := by
  intro hall
  have hreach := (reach_twoClients fun _ => 0).any
  have h2 := onlyTwo fun _ => 0
  have hready := ready_of_seat (by rw [h2.work]; decide) (h2.seat 15 (by decide))
  have hp : PoolComplete (twoClients fun _ => 0) := by
    have hkeeps : ∀ (s : Server) (sd : Nat), s.Keeps (s.acceptClient sd) :=
      fun s sd hok _ => Server.places_acceptClient s sd hok
    exact ((poolComplete_InitServer _).keeps (hkeeps _ 7)).keeps (hkeeps _ 8)
  have hcell : Registry.CellFree (twoClients fun _ => 0) := by
    refine cellFree_of_count ?_
    rw [twoClients, pFifoDogMsgFree_acceptClient, pFifoDogMsgFree_acceptClient, count_InitServer]
    exact Nat.zero_lt_succ _
  obtain ⟨s', hstep, hlost⟩ := login_loses_cell (o := Outcome.allSucceed) hp hready hcell
    (show (handlerOf .IKS_NODE_NORMAL (iqSet "jabber:iq:auth" "" [])).1 = _ by decide +kernel)
    (by decide +kernel)
  exact hlost (hall s' (hreach.next trivial hstep))

end Netflow
