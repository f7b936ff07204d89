import Netflow.Registry.Wording
import Netflow.Transport.Output

set_option autoImplicit false

/-! # The server in the transport of messages

Every operation of the server is a run of the transport, with changes aside that the transport does not
look at: an answer obtains a cell and puts it, a cell that is obtained and not put is abandoned. So what
is proved of the runs of the transport holds of the runs of the server: the bytes that are sent on a
connection are those of the messages that were put for it.
-/

namespace Netflow

open Iksemel Relation

/-- A step of the transport that meets `G`, or a change aside. -/
inductive Pool.Goes (G : Pool → TransportAction → Prop) (p : Pool) : Pool → Prop where
  | step {p' : Pool} (a : TransportAction) : G p a → transportStep p a = some p' → Goes G p p'
  | aside {s' : Server} : Server.Aside p.srv s' → Goes G p { p with srv := s' }

/-- A server between two operations: no handler holds a cell. -/
def Server.pool (s : Server) : Pool := { srv := s, held := [] }

/-! ## What holds in the transport -/

/-- The invariants of the transport. -/
structure Carried (p : Pool) : Prop where
  placed : Placed p
  stamped : Server.Stamped p.srv
  mail : MailOk p.mail
  sending : Sending p.srv p.held

theorem carried_init (align : MsgCell → Nat) : Carried (InitServer align).pool :=
  ⟨placed_init align, Server.stamped_initialServer align _, mailOk_init align _, sending_init align _⟩

namespace Server.Aside

variable {s s' : Server} (h : Aside s s')

include h

theorem cellsOf (i : Slot) : Server.cellsOf (s'.ClientInfo i) = Server.cellsOf (s.ClientInfo i) := by
  have hlist := congrArg RecvFields.ListSendMsg (h.recv i)
  have hcurrent := congrArg RecvFields.pCurSendMsg (h.recv i)
  exact congrArg₂ (fun l c => l ++ Option.toList c) hlist hcurrent

theorem unsent (i : Slot) : s'.unsent i = s.unsent i := by
  have hlen : (s'.ClientInfo i).iCurSendLen = (s.ClientInfo i).iCurSendLen :=
    congrArg RecvFields.iCurSendLen (h.recv i)
  have hdata : (s'.ClientInfo i).pSndData = (s.ClientInfo i).pSndData :=
    congrArg RecvFields.pSndData (h.recv i)
  simp only [Server.unsent, bytesToSend, hlen, hdata, h.cells]

theorem placed {held : List MsgCell} (hp : Placed { srv := s, held := held }) :
    Placed { srv := s', held := held } := by
  refine ⟨⟨?_, ?_, ?_⟩, ?_⟩
  · rw [h.freeRing]
    exact hp.rings.free_length
  · rw [h.msgs]
    exact hp.rings.msg_length
  · rw [h.hist]
    exact hp.rings.pushed_ok
  · have hplaces : s'.places = s.places := by
      simp only [Server.places, h.freeRing, h.msgs, h.cellsOf]
    have hnodup := hp.nodup
    rw [Pool.places] at hnodup ⊢
    rwa [hplaces]

theorem stamped (hs : Stamped s) : Stamped s' where
  counter := by
    rw [h.iSessionID, h.hist]
    exact hs.counter
  session_eq i := by
    rw [show (s'.ClientInfo i).iSessionID = _ from congrArg RecvFields.iSessionID (h.recv i), h.hist]
    exact hs.session_eq i
  status_iff i := by
    rw [show (s'.ClientInfo i).lSocketStatus = _ from congrArg RecvFields.lSocketStatus (h.recv i),
      h.hist]
    exact hs.status_iff i
  work_iff i := by
    rw [h.work, h.hist]
    exact hs.work_iff i
  free_closed i hi := by
    rw [h.free] at hi
    rw [h.hist]
    exact hs.free_closed i hi
  work_nodup := h.work ▸ hs.work_nodup
  free_nodup := h.free ▸ hs.free_nodup
  cell_session c := by
    rw [h.cells, h.hist]
    exact hs.cell_session c
  cell_slot c := by
    rw [h.cells, h.hist]
    exact hs.cell_slot c
  msg_session c := by
    rw [h.hist]
    exact hs.msg_session c
  put_session m hm := by
    rw [h.hist] at hm
    exact hs.put_session m hm
  picked_session e he := by
    rw [h.hist] at he
    exact hs.picked_session e he

theorem mail (held : List MsgCell) : s'.mail held = s.mail held := by
  have hlists : s'.lists = s.lists :=
    funext fun i => congrArg RecvFields.ListSendMsg (h.recv i)
  simp only [Server.mail, h.hist, h.msgs, hlists]

theorem sending {held : List MsgCell} (hs : Sending s held) : Sending s' held where
  streams c := h.cells ▸ hs.streams c
  held_reset c hc := h.cells ▸ hs.held_reset c hc
  ready c hc := by
    rw [h.cells, h.hist]
    refine hs.ready c ?_
    simpa only [h.msgs, h.cellsOf] using hc
  current i hi hlen := by
    rw [h.hist] at hi
    rw [show (s'.ClientInfo i).iCurSendLen = _ from congrArg RecvFields.iCurSendLen (h.recv i)] at hlen
    rw [show (s'.ClientInfo i).pCurSendMsg = _ from congrArg RecvFields.pCurSendMsg (h.recv i),
      show (s'.ClientInfo i).pSndData = _ from congrArg RecvFields.pSndData (h.recv i)]
    exact hs.current i hi hlen
  flow i hi := by
    rw [h.hist] at hi
    have hflow := hs.flow i hi
    rw [← h.unsent i] at hflow
    simpa only [pickedFor, sentTo, h.mail, h.hist] using hflow
  sent_pre n := by
    have hpre := hs.sent_pre n
    simpa only [pickedFor, sentTo, h.mail, h.hist] using hpre

end Server.Aside

/-- **The invariants of the transport are kept** by what the server does. -/
theorem Carried.goes {p p' : Pool} (h : Carried p) (hp : Pool.Goes CleanReuse p p') : Carried p' := by
  cases hp with
  | step a hclean hstep =>
      refine ⟨placed_step h.placed hstep, stamped_step h.stamped hstep, ?_,
        sending_step h.sending h.placed h.stamped h.mail hclean hstep⟩
      rcases mail_step h.placed h.stamped hclean.fresh hstep with heq | hmail
      · rw [heq]
        exact h.mail
      · exact h.mail.step hmail
  | @aside s' haside =>
      have hmail : Pool.mail { p with srv := s' } = p.mail := haside.mail p.held
      exact ⟨haside.placed h.placed, haside.stamped h.stamped, hmail ▸ h.mail, haside.sending h.sending⟩

theorem Carried.run {p p' : Pool} (h : Carried p) (hp : ReflTransGen (Pool.Goes CleanReuse) p p') :
    Carried p' := by
  induction hp with
  | refl => exact h
  | tail _ hgoes ih => exact ih.goes hgoes

/-! ## The deeds -/

namespace Server

variable {T : CStr → Prop} {s s₁ s' : Server}

/-- Every text that was put on the way from `s` to `s'` found room in the cell that was obtained for
it. -/
def RoomForTexts (s s' : Server) : Prop :=
  ∀ c ∈ s.pFifoDogMsgFree.contents, c ∉ s'.pFifoDogMsgFree.contents →
    s'.hist.msg c ∈ newMessages s s' →
    Pushable (s.cells c).hStream (s'.hist.msg c).text.chars.length (s.heap c)

/-- Cells were taken from the front of the free ring: the others and their streams are the same, and so
are the messages of the cells that were not free. -/
structure FreeKept (s s' : Server) : Prop where
  free : s'.pFifoDogMsgFree.contents <:+ s.pFifoDogMsgFree.contents
  cells : ∀ c ∈ s'.pFifoDogMsgFree.contents, (s'.cells c).hStream = (s.cells c).hStream
  msg : ∀ c ∉ s.pFifoDogMsgFree.contents, s'.hist.msg c = s.hist.msg c
  put : s.hist.put <+: s'.hist.put
  heap : s'.heap = s.heap

theorem FreeKept.refl (s : Server) : FreeKept s s where
  free := List.suffix_refl _
  cells _ _ := rfl
  msg _ _ := rfl
  put := List.prefix_refl _
  heap := rfl

theorem FreeKept.trans (h : FreeKept s s₁) (h' : FreeKept s₁ s') : FreeKept s s' where
  free := h'.free.trans h.free
  cells c hc := (h'.cells c hc).trans (h.cells c (h'.free.subset hc))
  msg c hc := (h'.msg c fun hfree => hc (h.free.subset hfree)).trans (h.msg c hc)
  put := h.put.trans h'.put
  heap := h'.heap.trans h.heap

theorem mem_newMessages_left (h : s.hist.put <+: s₁.hist.put) (h' : s₁.hist.put <+: s'.hist.put)
    {m : Msg} (hm : m ∈ newMessages s s₁) : m ∈ newMessages s s' := by
  obtain ⟨ms, hms⟩ := h
  obtain ⟨ms', hms'⟩ := h'
  rw [newMessages, ← hms, List.drop_left] at hm
  rw [newMessages, ← hms', ← hms, List.append_assoc, List.drop_left]
  exact List.mem_append_left _ hm

theorem mem_newMessages_right (h : s.hist.put <+: s₁.hist.put) (h' : s₁.hist.put <+: s'.hist.put)
    {m : Msg} (hm : m ∈ newMessages s₁ s') : m ∈ newMessages s s' := by
  obtain ⟨ms, hms⟩ := h
  obtain ⟨ms', hms'⟩ := h'
  rw [newMessages, ← hms', List.drop_left] at hm
  rw [newMessages, ← hms', ← hms, List.append_assoc, List.drop_left]
  exact List.mem_append_right _ hm

/-- What found room on the whole way found it on the first part, -/
theorem RoomForTexts.left (hroom : RoomForTexts s s') (h : FreeKept s s₁) (h' : FreeKept s₁ s') :
    RoomForTexts s s₁ := by
  intro c hc htaken hm
  have hmsg := h'.msg c htaken
  have hall := hroom c hc (fun hfree => htaken (h'.free.subset hfree))
    (hmsg ▸ mem_newMessages_left h.put h'.put hm)
  rwa [hmsg] at hall

/-- and on the rest of it. -/
theorem RoomForTexts.right (hroom : RoomForTexts s s') (h : FreeKept s s₁) (h' : FreeKept s₁ s') :
    RoomForTexts s₁ s' := by
  intro c hc htaken hm
  have hall := hroom c (h.free.subset hc) htaken (mem_newMessages_right h.put h'.put hm)
  rwa [← h.cells c hc, ← h.heap] at hall

/-- A cell is obtained, or none is free and nothing happens. -/
theorem goes_get (hnodup : s.pFifoDogMsgFree.contents.Nodup) (i : Slot) :
    s.IoGetSendMsgCell i = (none, s) ∨ ∃ c ring,
      s.IoGetSendMsgCell i = (some c, s.stampCell i c ring) ∧
      s.pFifoDogMsgFree.contents = c :: ring.contents ∧ c ∉ ring.contents ∧
      transportStep s.pool (.get i) = some { srv := s.stampCell i c ring, held := [c] } := by
  cases hpop : FifoPop s.pFifoDogMsgFree with
  | none =>
      left
      rw [IoGetSendMsgCell, hpop]
  | some r =>
      obtain ⟨c, ring⟩ := r
      have hcontents := (contents_FifoPop hpop).1
      have hget : s.IoGetSendMsgCell i = (some c, s.stampCell i c ring) := by
        rw [IoGetSendMsgCell, hpop]
      rw [hcontents] at hnodup
      refine Or.inr ⟨c, ring, hget, hcontents, (List.nodup_cons.mp hnodup).1, ?_⟩
      show some (⟨(s.IoGetSendMsgCell i).2, (s.IoGetSendMsgCell i).1.toList ++ []⟩ : Pool) = _
      rw [hget]
      rfl

theorem freeKept_stampCell {c : MsgCell} {ring : FifoRing MsgCell}
    (hcontents : s.pFifoDogMsgFree.contents = c :: ring.contents) (hc : c ∉ ring.contents) (i : Slot) :
    FreeKept s (s.stampCell i c ring) where
  free := by
    rw [hcontents]
    exact List.suffix_cons c _
  cells d hd := by
    have hdc : d ≠ c := by
      rintro rfl
      exact hc hd
    rw [stampCell_cells_of_ne _ _ _ hdc]
  msg d hd := by
    have hdc : d ≠ c := by
      rintro rfl
      exact hd (hcontents ▸ List.mem_cons_self)
    rw [stampCell_msg_of_ne _ _ _ hdc]
  put := List.prefix_refl _
  heap := rfl

theorem freeKept_answer {c : MsgCell} {ring : FifoRing MsgCell}
    (hcontents : s.pFifoDogMsgFree.contents = c :: ring.contents) (hc : c ∉ ring.contents) (i : Slot)
    (str : CStr) : FreeKept s (((s.stampCell i c ring).pushString c str).IoPutSendMsgCell c) where
  free := (freeKept_stampCell hcontents hc i).free
  cells d hd := by
    have hdc : d ≠ c := by
      rintro rfl
      exact hc hd
    rw [putString_cells_of_ne _ _ hdc, stampCell_cells_of_ne _ _ _ hdc]
  msg d hd := by
    have hdc : d ≠ c := by
      rintro rfl
      exact hd (hcontents ▸ List.mem_cons_self)
    show Function.update _ c _ d = _
    rw [Function.update_of_ne hdc, stampCell_msg_of_ne _ _ _ hdc]
  put := List.prefix_append _ _
  heap := rfl

/-- A deed takes cells from the front of the free ring. -/
theorem Deed.freeKept (hnodup : s.pFifoDogMsgFree.contents.Nodup) (h : Deed T s s') : FreeKept s s' := by
  cases h with
  | answer i str _ =>
      obtain hget | ⟨c, ring, hget, hcontents, hc, -⟩ := goes_get hnodup i
      · rw [answer_of_none (by rw [hget]), hget]
        exact FreeKept.refl s
      · rw [answer_of_some (c := c) (by rw [hget]), hget]
        exact freeKept_answer hcontents hc i str
  | obtain i =>
      obtain hget | ⟨c, ring, hget, hcontents, hc, -⟩ := goes_get hnodup i
      · rw [hget]
        exact FreeKept.refl s
      · rw [hget]
        exact freeKept_stampCell hcontents hc i
  | aside haside =>
      refine ⟨?_, fun c _ => by rw [haside.cells], fun c _ => by rw [haside.hist], ?_, haside.heap⟩
      · rw [haside.freeRing]
      · rw [haside.hist]

theorem Deeds.freeKept (hnodup : s.pFifoDogMsgFree.contents.Nodup) (h : Deeds T s s') :
    FreeKept s s' := by
  induction h with
  | refl => exact FreeKept.refl s
  | tail _ hdeed ih => exact ih.trans (hdeed.freeKept (ih.free.sublist.nodup hnodup))

/-- **A deed is a run of the transport**: an answer obtains a cell and puts it, a cell that is obtained
and not put is abandoned. -/
theorem Deed.goes (hnodup : s.pFifoDogMsgFree.contents.Nodup)
    (hT : ∀ str, T str → str.chars.length ≤ MESSAGE_MAX) (h : Deed T s s') (hroom : RoomForTexts s s') :
    ReflTransGen (Pool.Goes CleanReuse) s.pool s'.pool := by
  cases h with
  | answer i str hstr =>
      obtain hget | ⟨c, ring, hget, hcontents, hc, hstep⟩ := goes_get hnodup i
      · rw [answer_of_none (by rw [hget]), hget]
      · rw [answer_of_some (c := c) (by rw [hget]), hget] at hroom ⊢
        set s' := ((s.stampCell i c ring).pushString c str).IoPutSendMsgCell c with hs'
        have hmsg : s'.hist.msg c = { (s.stampCell i c ring).hist.msg c with text := str } :=
          Function.update_self ..
        have hnew : newMessages s s' = [s'.hist.msg c] := by
          show (s.hist.put ++ [s'.hist.msg c]).drop s.hist.put.length = _
          rw [List.drop_left]
        have hpush := hroom c (hcontents ▸ List.mem_cons_self) hc (hnew ▸ List.mem_singleton_self _)
        rw [hmsg] at hpush
        have hclean : CleanReuse { srv := s.stampCell i c ring, held := [c] }
            (.put c ⟨str, hT str hstr⟩) := by
          show Pushable ((s.stampCell i c ring).cells c).hStream str.chars.length (s.heap c)
          rw [stampCell_cells_self]
          exact hpush
        have hput : transportStep { srv := s.stampCell i c ring, held := [c] }
            (.put c ⟨str, hT str hstr⟩) = some s'.pool := by
          show (if c ∈ [c] then some _ else none) = some _
          rw [if_pos List.mem_cons_self, List.erase_cons_head]
          rfl
        exact (ReflTransGen.single (.step (.get i) trivial hstep)).tail (.step _ hclean hput)
  | obtain i =>
      obtain hget | ⟨c, ring, hget, -, -, hstep⟩ := goes_get hnodup i
      · rw [hget]
      · have habandon : transportStep { srv := s.stampCell i c ring, held := [c] } (.abandon c) =
            some (s.stampCell i c ring).pool := by
          show (if c ∈ [c] then some _ else none) = some _
          rw [if_pos List.mem_cons_self, List.erase_cons_head]
          rfl
        rw [hget]
        exact (ReflTransGen.single (.step (.get i) trivial hstep)).tail
          (.step (.abandon c) trivial habandon)
  | aside haside => exact .single (.aside haside)

/-- **Deeds are a run of the transport** when their texts find room. -/
theorem Deeds.goes (hnodup : s.pFifoDogMsgFree.contents.Nodup)
    (hT : ∀ str, T str → str.chars.length ≤ MESSAGE_MAX) (h : Deeds T s s') (hroom : RoomForTexts s s') :
    ReflTransGen (Pool.Goes CleanReuse) s.pool s'.pool := by
  induction h with
  | refl => exact .refl
  | tail hdeeds hdeed ih =>
      have hkept := Deeds.freeKept hnodup hdeeds
      have hnodup₁ := hkept.free.sublist.nodup hnodup
      have hkept' := hdeed.freeKept hnodup₁
      exact (ih (hroom.left hkept hkept')).trans (hdeed.goes hnodup₁ hT (hroom.right hkept hkept'))

end Server

theorem Carried.nodup_free {p : Pool} (h : Carried p) : p.srv.pFifoDogMsgFree.contents.Nodup := by
  have hle : (p.srv.pFifoDogMsgFree.contents : Multiset MsgCell) ≤ p.places :=
    (Multiset.le_add_right _ _).trans ((Multiset.le_add_right _ _).trans (Multiset.le_add_right _ _))
  exact Multiset.coe_nodup.mp (Multiset.nodup_of_le hle h.placed.nodup)

/-! ## The server -/

section Runs

variable {ι : Type} [Iksemel ι] {P : CStr → CStr → Prop} {Q : Packet → Prop} {s s' : Server}

/-- The texts of the server fit the buffers they are composed in. -/
theorem ServerText.length_le {str : CStr} (h : ServerText P Q str) : str.chars.length ≤ MESSAGE_MAX := by
  have hsnprintf : ∀ (n : Nat) (t : CStr), n ≤ 4608 → (CStr.snprintf n t).chars.length ≤ MESSAGE_MAX := by
    intro n t hn
    have hle : (CStr.snprintf n t).chars.length ≤ n - 1 := List.length_take_le _ _
    show _ ≤ 4096 + 512 - 1
    omega
  cases h with
  | handShake => decide +kernel
  | answer a ha =>
      cases a with
      | login ok | hook ok | unhook ok | create ok | cancel ok => cases ok <;> decide +kernel
      | filters blank row => cases ha
      | lose Name => cases ha
  | noFilters => exact hsnprintf _ _ (by decide)
  | filters blank dog _ => exact hsnprintf _ _ (by decide)
  | lose dog _ => exact hsnprintf _ _ (by decide)
  | packet p iMsgNumID _ _ hmessage =>
      obtain ⟨pEnBody, -, rfl⟩ := Option.map_eq_some_iff.mp hmessage
      exact hsnprintf _ _ (by decide)

/-- An accept takes a slot with nothing left to send, under a fresh session, and every text that is put
finds room in the cell that was obtained for it. -/
def CleanServing (s : Server) : ServerAction ι → Prop
  | .accept sd => CleanReuse s.pool (.accept sd)
  | a => ∀ s', serverStep s a = some s' → s.RoomForTexts s'

/-- **Every operation of the server is a run of the transport.** -/
theorem goes_serverStep {a : ServerAction ι} (hcarried : Carried s.pool)
    (hclean : CleanServing s a) (h : serverStep s a = some s') :
    ReflTransGen (Pool.Goes CleanReuse) s.pool s'.pool := by
  have hall : s.DogsHave fun _ _ => True := fun _ _ _ => trivial
  have hall' : s'.DogsHave fun _ _ => True := fun _ _ _ => trivial
  -- a step of the transport of the same name
  have hsame : ∀ t, CleanReuse s.pool t → transportStep s.pool t = some s'.pool →
      ReflTransGen (Pool.Goes CleanReuse) s.pool s'.pool := fun t hC hs => .single (.step t hC hs)
  have hdeeds : s.RoomForTexts s' → Server.Deeds (ServerText (fun _ _ => True) fun _ => True) s s' →
      ReflTransGen (Pool.Goes CleanReuse) s.pool s'.pool :=
    fun hroom hrun => hrun.goes hcarried.nodup_free (fun _ htext => htext.length_le) hroom
  cases serverStep_eq_some h with
  | accept sd => exact hsame (.accept sd) hclean rfl
  | stanza i type node o _ _ _ hmsg =>
      exact hdeeds (hclean s' h) (deeds_IOProcessCatMsg hall hall' hmsg)
  | shutdown i o _ _ hclose => exact hdeeds (hclean s' h) (deeds_shutdown hall hclose)
  | packet t p _ hsend => exact hdeeds (hclean _ h) (Server.deeds_SendTcp2Cats trivial hsend)
  | loopReturns t _ =>
      exact .single (.aside (Server.aside_world s s.links s.CuteDogList s.dogs s.FunCallBack
        s.pcap_handle s.tidp (s.threads.erase t) s.opened))
  | drain hpop => exact hsame .drain trivial (by
      show s.popDogMsg.map _ = _
      rw [hpop]
      rfl)
  | pickUp i hi hopen => exact hsame (.pickUp i) trivial (if_pos ⟨hi, hopen⟩)
  | send i sn hi hpos hle => exact hsame (.send i sn) trivial (if_pos ⟨hi, hpos, hle⟩)
  | toEnd i hi => exact hsame (.toEnd i) trivial (if_pos hi)
  | recycle i hi hclosed => exact hsame (.recycle i) trivial (if_pos ⟨hi, hclosed⟩)
  | allocator answer => exact hsame (.allocator answer) trivial rfl

/-- **The invariants of the transport hold in every clean run of the server.** -/
theorem carried_reach {align : MsgCell → Nat}
    (h : Reach serverStep (CleanServing (ι := ι)) (InitServer align) s) : Carried s.pool :=
  h.invariant (P := fun s => Carried s.pool) (carried_init align)
    fun _ _ _ hcarried hclean hstep => hcarried.run (goes_serverStep hcarried hclean hstep)

/-- The cells that wait for the connection of a slot: those in its list, then those for it in the ring. -/
def Server.waiting (s : Server) (i : Slot) : List MsgCell :=
  (s.ClientInfo i).ListSendMsg ++
    s.pFifoDogMsg.contents.filter fun c => decide ((s.hist.msg c).conn = s.hist.conn i)

/-- **No byte is lost and none is sent twice.** In every clean run of the server, what was put for an
open connection is what was sent on it, then what is left of the message under way, then the texts in
the streams of the cells that wait for it; and what was sent on any connection, open or closed, is the
first part of what was put for it. -/
theorem server_output {align : MsgCell → Nat}
    (h : Reach serverStep (CleanServing (ι := ι)) (InitServer align) s) :
    (∀ i, s.hist.conn i ≠ 0 → bytesOf (s.putFor (s.hist.conn i)) =
      s.sentTo (s.hist.conn i) ++ s.unsent i ++
        (s.waiting i).flatMap fun c => (s.cells c).hStream.text.chars) ∧
      ∀ n, s.sentTo n <+: bytesOf (s.putFor n) := by
  have hcarried := carried_reach h
  refine ⟨fun i hi => ?_, fun n =>
    (hcarried.sending.sent_pre n).trans (bytesOf_mono (hcarried.mail.pre n))⟩
  -- the messages that wait, with the texts of their cells
  have hready : ∀ c ∈ s.waiting i, (s.cells c).hStream.text = (s.hist.msg c).text := by
    intro c hc
    refine hcarried.sending.ready c ?_
    rcases List.mem_append.mp hc with hc | hc
    · exact Or.inr ⟨i, List.mem_append_left _ hc⟩
    · exact Or.inl (List.mem_of_mem_filter hc)
  have htexts : ((s.waiting i).flatMap fun c => (s.cells c).hStream.text.chars) =
      bytesOf ((s.waiting i).map s.hist.msg) := by
    rw [bytesOf, List.flatMap_map]
    exact List.flatMap_congr fun c hc => congrArg CStr.chars (hready c hc)
  have hwaiting : (s.waiting i).map s.hist.msg = (s.lists i).map s.hist.msg ++
      Mailroom.forConn Msg.conn (s.hist.conn i) (s.pFifoDogMsg.contents.map s.hist.msg) := by
    rw [Server.waiting, List.map_append, Mailroom.forConn, List.filter_map]
    rfl
  have hput : s.putFor (s.hist.conn i) =
      s.pickedFor (s.hist.conn i) ++ (s.waiting i).map s.hist.msg := by
    rw [hwaiting, ← List.append_assoc]
    exact hcarried.mail.flow i hi
  have hflow : bytesOf (s.pickedFor (s.hist.conn i)) = s.sentTo (s.hist.conn i) ++ s.unsent i :=
    hcarried.sending.flow i hi
  rw [hput, bytesOf_append, hflow, htexts]

end Runs

end Netflow
