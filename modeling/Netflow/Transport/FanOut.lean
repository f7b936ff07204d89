import Netflow.CuteCat.Message
import Netflow.Nose.Captured
import Netflow.Registry.Shared
import Netflow.Stream.Rounds
import Netflow.Transport.Serving
import Mathlib.Data.List.Forall2

set_option autoImplicit false

/-! # The fan-out of a captured packet

`SendTcp2Cats` takes one message cell for the client and one for each hooker of its dog, pushes the same
text into each and puts them, in this order. With enough free cells and room in the message ring all of
them are put, whatever the cursors of the rings are. Each carries the text when its push finds room;
`push_stream_string` returns nothing, so a cell whose buffer could not be made larger is put with the
text of an earlier message, and one whose buffer the text fills exactly loses its NUL.
-/

namespace Netflow

/-! ## A text in a recycled cell -/

/-- The text is pushed into a stream that was just reset: the push stays in the block, and the text of
the stream is then the string. -/
def Carries (st st' : Stream) (str : CStr) (answer : Answer) : Prop :=
  (StreamCall.push_stream_string str answer).runIn (reset_stream st) = some st' ∧ st'.text = str

/-- What a stream needs for a text: a byte for the NUL behind a text that fits, and a larger block for
one that does not, unless it is the text that was left in the stream. -/
def TakesText (st : Stream) (str : CStr) (answer : Answer) : Prop :=
  if str.chars.length ≤ st.size then st.chunk_buf + str.chars.length < st.block.length
  else answer ≠ none ∨ st.text = str

/-- A text that is written at the start of the buffer. -/
theorem carries_write {base : Stream} (hstart : base.chunk_write = base.chunk_buf) (str : CStr) :
    (base.writeIn (str.chars ++ [0]) = some (base.write (str.chars ++ [0])) ∧
        (base.write (str.chars ++ [0])).text = str) ↔
      base.chunk_buf + str.chars.length < base.block.length := by
  have hsrc : (str.chars ++ [0]).length = str.chars.length + 1 := List.length_append
  constructor
  · rintro ⟨hin, -⟩
    by_contra hout
    rw [Stream.writeIn_eq_none (by omega)] at hin
    cases hin
  · intro hroom
    have hin : base.chunk_write + (str.chars ++ [0]).length ≤ base.block.length := by omega
    exact ⟨Stream.writeIn_eq_some hin, (pickUp_write hstart str hin).1⟩

/-- A push carries its text exactly when the stream takes it. -/
theorem carries_push_iff {st : Stream} {str : CStr} {answer : Answer} (h : StreamOk st)
    (hlen : str.chars.length ≤ MESSAGE_MAX) :
    Carries st (push_stream_string (reset_stream st) str answer) str answer ↔
      TakesText st str answer := by
  have hmax : MESSAGE_MAX = 4607 := by decide
  obtain ⟨n, hn⟩ : ∃ n, n = str.chars.length := ⟨_, rfl⟩
  have hint : intToSize str.chars.length = n := by rw [intToSize_of_lt (by omega), hn]
  have huint : toUInt n = n := toUInt_of_lt (by omega)
  obtain ⟨hrun, hrunIn, -⟩ := push_stream_string_eq (reset_stream st) (by rw [hint, hn]) answer
  have htake : str.chars.take n = str.chars := by rw [hn, List.take_length]
  rw [hint, huint, htake] at hrun hrunIn
  have hrun' : push_stream_string (reset_stream st) str answer =
      (reset_stream st).push n (str.chars ++ [0]) answer := hrun
  have hcheck := check_write_free_reset st (show n < 4294967296 by omega)
  rw [Carries, TakesText, hrun', hrunIn]
  -- a text that fits is written where it is, and else a block is asked for
  by_cases hfit : n ≤ st.size
  · have hroom : (check_write_free (reset_stream st) n).1 = true := by
      rw [hcheck]
      exact decide_eq_true hfit
    obtain ⟨hpush, hpushIn⟩ := push_of_free (str.chars ++ [0]) answer hroom
    rw [if_pos (by omega), hpush, hpushIn]
    exact carries_write rfl str
  · rw [if_neg (by omega)]
    cases answer with
    | none =>
        have hroom : (check_write_free (reset_stream st) n).1 = false := by
          rw [hcheck]
          exact decide_eq_false hfit
        obtain ⟨hpush, hpushIn⟩ := push_of_refused (str.chars ++ [0]) hroom
        rw [hpush, hpushIn]
        exact ⟨fun hc => Or.inr hc.2, fun hc => ⟨rfl, hc.resolve_left fun hne => hne rfl⟩⟩
    | some junk =>
        obtain ⟨base, hopened, hpush, hpushIn⟩ :=
          push_opens st (show n < 4294967296 by omega) (str.chars ++ [0]) junk
        obtain ⟨hbuf, -, hlength, -, -⟩ := hopened.grows (by omega)
        have hbound := h.size_le
        rw [STREAM_MAX] at hbound
        have hpos := h.size_pos
        have hgrown : st.grownSize n = (st.size + n) + (st.size + n) / 4 := by
          rw [Stream.grownSize, toUInt_of_lt (show st.size + n < 4294967296 by omega),
            toUInt_of_lt (by omega)]
        -- the grown block has a quarter to spare, so the NUL is inside
        rw [hpush, hpushIn, carries_write hopened.write_eq]
        exact iff_of_true (by omega) (Or.inl (Option.some_ne_none junk))

theorem pushIn_eq_some {st st' : Stream} {len : Nat} {src : List Byte} {answer : Answer}
    (h : st.pushIn len src answer = some st') : st' = st.push len src answer := by
  rw [Stream.pushIn] at h
  rw [Stream.push]
  split at h
  · next hroom =>
      rw [if_pos hroom]
      by_cases hin : (make_room st len answer).2.chunk_write + src.length ≤
          (make_room st len answer).2.block.length
      · rw [Stream.writeIn_eq_some hin] at h
        exact (Option.some.inj h).symm
      · rw [Stream.writeIn_eq_none hin] at h
        cases h
  · next hroom =>
      rw [if_neg hroom]
      exact (Option.some.inj h).symm

/-- **A stream carries a text** exactly when the text was pushed and the stream takes it. -/
theorem carries_iff {st st' : Stream} {str : CStr} {answer : Answer} (h : StreamOk st)
    (hlen : str.chars.length ≤ MESSAGE_MAX) :
    Carries st st' str answer ↔
      st' = push_stream_string (reset_stream st) str answer ∧ TakesText st str answer := by
  have hmax : MESSAGE_MAX = 4607 := by decide
  constructor
  · intro hc
    have hst : st' = push_stream_string (reset_stream st) str answer := by
      obtain ⟨hrun, hrunIn, -⟩ := push_stream_string_eq (reset_stream st)
        (show intToSize str.chars.length ≤ str.chars.length by rw [intToSize_of_lt (by omega)]) answer
      exact (pushIn_eq_some (hrunIn.symm.trans hc.1)).trans hrun.symm
    refine ⟨hst, (carries_push_iff h hlen).mp ?_⟩
    rwa [hst] at hc
  · rintro ⟨rfl, htakes⟩
    exact (carries_push_iff h hlen).mpr htakes

/-! ## The cells of the pool -/

/-- What holds of the message cells in every run: their streams are well formed and the free ring holds
different cells. -/
structure PoolOk (s : Server) : Prop where
  streams : ∀ c, StreamOk (s.cells c).hStream
  nodup : s.pFifoDogMsgFree.contents.Nodup
  msg_length : s.pFifoDogMsg.length = DOG2CATIOMSGNUM

/-- The cells that handlers hold have a stream that was just reset. -/
structure CellsOk (p : Pool) : Prop where
  streams : ∀ c, StreamOk (p.srv.cells c).hStream
  held : ∀ c ∈ p.held, reset_stream (p.srv.cells c).hStream = (p.srv.cells c).hStream

/-- A step that changes no cell and after which no more cells are held. -/
theorem CellsOk.same {p p' : Pool} (h : CellsOk p) (hcells : p'.srv.cells = p.srv.cells)
    (hheld : ∀ c ∈ p'.held, c ∈ p.held) : CellsOk p' where
  streams c := hcells ▸ h.streams c
  held c hc := hcells ▸ h.held c (hheld c hc)

namespace Server

theorem cells_pickUp (s : Server) (i : Slot) : (s.pickUp i).cells = s.cells := by
  unfold pickUp
  split
  · rfl
  · rfl

theorem cells_firstPass (s : Server) (i : Slot) : (s.firstPass i).cells = s.cells := by
  unfold firstPass
  dsimp only
  split
  · rfl
  · split
    · rfl
    · exact cells_pickUp s i

theorem cells_sendPump (s : Server) (i : Slot) (sn : Nat) : (s.sendPump i sn).cells = s.cells := by
  by_cases hlt : sn < (s.ClientInfo i).iCurSendLen
  · rw [sendPump_of_lt hlt]
    rfl
  · obtain ⟨ring, pushed, -, heq⟩ := sendPump_of_le (Nat.le_of_not_lt hlt)
    rw [heq]
    split
    · rw [cells_pickUp]
      rfl
    · split
      · rfl
      · rfl

theorem cells_popDogMsg {s s' : Server} (h : s.popDogMsg = some s') : s'.cells = s.cells := by
  unfold popDogMsg at h
  split at h
  · cases h
  · dsimp only at h
    split at h
    · cases h
      rfl
    · cases h
      rfl

theorem cells_recycle (s : Server) (i : Slot) : (s.recycle i).cells = s.cells := by
  obtain ⟨ring, pushed, -, heq⟩ := recycle_spec i s
  rw [heq]
  rfl

theorem cells_acceptClient (s : Server) (sd : Nat) : (s.acceptClient sd).cells = s.cells := by
  unfold acceptClient
  split
  · rfl
  · rfl

end Server

theorem CellsOk.get {p : Pool} (h : CellsOk p) (i : Slot) :
    CellsOk { srv := (p.srv.IoGetSendMsgCell i).2
              held := (p.srv.IoGetSendMsgCell i).1.toList ++ p.held } := by
  unfold Server.IoGetSendMsgCell
  cases hpop : FifoPop p.srv.pFifoDogMsgFree with
  | none => exact h
  | some r =>
      obtain ⟨c, ring⟩ := r
      refine ⟨fun d => ?_, fun d hd => ?_⟩
      · show StreamOk ((p.srv.stampCell i c ring).cells d).hStream
        by_cases hdc : d = c
        · rw [hdc, Server.stampCell_cells_self]
          exact (h.streams c).reset
        · rw [Server.stampCell_cells_of_ne _ _ _ hdc]
          exact h.streams d
      · show reset_stream ((p.srv.stampCell i c ring).cells d).hStream = _
        by_cases hdc : d = c
        · rw [hdc, Server.stampCell_cells_self]
          rfl
        · rw [Server.stampCell_cells_of_ne _ _ _ hdc]
          exact h.held d ((List.mem_cons.mp hd).resolve_left hdc)

/-- The cell that is put is no longer held. -/
theorem CellsOk.put {p : Pool} (h : CellsOk p) (hplaced : Placed p) {c : MsgCell} (hc : c ∈ p.held)
    (str : MsgText) :
    CellsOk { srv := (p.srv.pushString c str.text).IoPutSendMsgCell c, held := p.held.erase c } := by
  obtain ⟨-, -, hheld⟩ := hplaced.held_apart hc
  refine ⟨fun d => ?_, fun d hd => ?_⟩
  · by_cases hdc : d = c
    · rw [hdc, Server.putString_cells_self, ← h.held c hc]
      exact (h.streams c).push str.fits
    · rw [Server.putString_cells_of_ne _ _ hdc]
      exact h.streams d
  · have hdc : d ≠ c := by
      rintro rfl
      exact hheld hd
    rw [Server.putString_cells_of_ne _ _ hdc]
    exact h.held d (List.mem_of_mem_erase hd)

theorem CellsOk.step {p p' : Pool} {a : TransportAction} (h : CellsOk p) (hplaced : Placed p)
    (hstep : transportStep p a = some p') : CellsOk p' := by
  cases transportStep_eq_some hstep with
  | get i => exact h.get i
  | put c str hc => exact h.put hplaced hc str
  | abandon _ _ => exact h.same rfl fun d hd => List.mem_of_mem_erase hd
  | drain hpop => exact h.same (Server.cells_popDogMsg hpop) fun _ hd => hd
  | pickUp i _ _ => exact h.same (Server.cells_firstPass _ i) fun _ hd => hd
  | send i sn _ _ _ => exact h.same (Server.cells_sendPump _ i sn) fun _ hd => hd
  | toEnd _ _ => exact h.same rfl fun _ hd => hd
  | ioClosed i => exact h.same rfl fun _ hd => hd
  | recycle i _ _ => exact h.same (Server.cells_recycle _ i) fun _ hd => hd
  | accept sd => exact h.same (Server.cells_acceptClient _ sd) fun _ hd => hd
  | allocator answer => exact h.same rfl fun _ hd => hd

theorem cellsOk_reach {align : MsgCell → Nat} {p : Pool}
    (h : Reach transportStep AnyStep (transportInit align) p) : CellsOk p := by
  have hinit : CellsOk (transportInit align) :=
    ⟨fun c => streamOk_init (align c), fun c hc => by cases hc⟩
  have hguarded := h.strengthen (P := Placed) fun p hp => placed_reach hp
  exact hguarded.invariant hinit fun p a p' hp hguard hstep => hp.step hguard.2 hstep

/-- **In every run of the transport** the pool is as the fan-out expects it. -/
theorem poolOk_reach {align : MsgCell → Nat} {p : Pool}
    (h : Reach transportStep AnyStep (transportInit align) p) : PoolOk p.srv := by
  have hplaced := placed_reach h
  refine ⟨(cellsOk_reach h).streams, ?_, hplaced.rings.msg_length⟩
  have hle : (p.srv.pFifoDogMsgFree.contents : Multiset MsgCell) ≤ p.places :=
    (Multiset.le_add_right _ _).trans ((Multiset.le_add_right _ _).trans (Multiset.le_add_right _ _))
  exact Multiset.coe_nodup.mp (Multiset.nodup_of_le hle hplaced.nodup)

/-! ## The messages of a loop -/

namespace Server

/-- The cell `c` with a message for the client `j`. -/
def toldCell (s : Server) (c : MsgCell) (j : Slot) (message : CStr) : DOG2CATIOMSG where
  iSessionID := (s.ClientInfo j).iSessionID
  pClientInfo := j
  hStream := push_stream_string (reset_stream (s.cells c).hStream) message (s.heap c)

/-- The clients `js` are told the message, in this order and with the cells `cs`. -/
structure Told (message : CStr) (js : List Slot) (cs : List MsgCell) (s s' : Server) : Prop where
  free : s.pFifoDogMsgFree.contents = cs ++ s'.pFifoDogMsgFree.contents
  appended : s'.pFifoDogMsg.contents = s.pFifoDogMsg.contents ++ cs
  length : s'.pFifoDogMsg.length = s.pFifoDogMsg.length
  cells : List.Forall₂ (fun c j => s'.cells c = s.toldCell c j message) cs js
  others : ∀ c ∉ cs, s'.cells c = s.cells c
  talks : Talks s s'

theorem told_nil (message : CStr) (s : Server) : Told message [] [] s s where
  free := rfl
  appended := (List.append_nil _).symm
  length := rfl
  cells := .nil
  others _ _ := rfl
  talks := Talks.refl s

theorem Talks.toldCell {s s' : Server} (h : Talks s s') {c : MsgCell} (hcell : s'.cells c = s.cells c)
    (j : Slot) (message : CStr) : s'.toldCell c j message = s.toldCell c j message := by
  have hheap : s'.heap = s.heap := by
    obtain ⟨_, _, _, _, rfl⟩ := h
    rfl
  rw [Server.toldCell, Server.toldCell, h.ClientInfo, hcell, hheap]

/-- One answer, when a cell is free and the message ring has room. -/
theorem told_answer {s : Server} {c : MsgCell} {rest : List MsgCell} (j : Slot) (message : CStr)
    (hfree : s.pFifoDogMsgFree.contents = c :: rest)
    (hroom : s.pFifoDogMsg.count + 1 < s.pFifoDogMsg.length) :
    ∃ s', s.answer j message = (true, s') ∧ Told message [j] [c] s s' := by
  cases hpop : FifoPop s.pFifoDogMsgFree with
  | none =>
      rw [(FifoPop_eq_none_iff _).mp hpop] at hfree
      cases hfree
  | some r =>
      obtain ⟨e, ring⟩ := r
      obtain ⟨hcontents, -⟩ := contents_FifoPop hpop
      rw [hfree] at hcontents
      -- the cell that is popped is the first free one
      obtain ⟨rfl, hrest⟩ := List.cons.inj hcontents
      have hget : s.IoGetSendMsgCell j = (some c, s.stampCell j c ring) := by
        rw [IoGetSendMsgCell, hpop]
      have htalks := talks_answer j message s
      have hanswer : s.answer j message =
          (true, ((s.stampCell j c ring).pushString c message).IoPutSendMsgCell c) := by
        rw [answer_of_some (c := c) (by rw [hget]), hget]
      rw [hanswer] at htalks
      obtain ⟨-, hpush, hlength⟩ := FifoPush_of_room (f := s.pFifoDogMsg) c hroom
      refine ⟨_, hanswer, ?_, hpush, hlength, ?_, ?_, htalks⟩
      · show s.pFifoDogMsgFree.contents = [c] ++ ring.contents
        rw [hfree, hrest]
        rfl
      · refine .cons ?_ .nil
        rw [putString_cells_self, stampCell_cells_self]
        rfl
      · intro d hd
        have hdc : d ≠ c := fun heq => hd (heq ▸ List.mem_singleton_self c)
        rw [putString_cells_of_ne _ _ hdc, stampCell_cells_of_ne _ _ _ hdc]

/-- One more client is told. -/
theorem Told.cons {message : CStr} {j : Slot} {js : List Slot} {c : MsgCell} {cs : List MsgCell}
    {s s₁ s' : Server} (h : Told message [j] [c] s s₁) (h' : Told message js cs s₁ s')
    (hc : c ∉ cs) : Told message (j :: js) (c :: cs) s s' where
  free := by rw [h.free, h'.free, List.cons_append, List.nil_append, List.cons_append]
  appended := by rw [h'.appended, h.appended, List.append_assoc, List.singleton_append]
  length := h'.length.trans h.length
  cells := by
    refine .cons ?_ ?_
    · rw [h'.others c hc]
      exact (List.forall₂_cons.mp h.cells).1
    · have hsame : ∀ d ∈ cs, s₁.cells d = s.cells d := by
        intro d hd
        refine h.others d fun hmem => hc ?_
        rwa [List.mem_singleton.mp hmem] at hd
      refine ((List.forall₂_and_left cs js).mpr ⟨hsame, h'.cells⟩).imp ?_
      rintro d k ⟨hd, hcell⟩
      rw [hcell, h.talks.toldCell hd]
  others d hd := by
    rw [h'.others d fun hmem => hd (List.mem_cons_of_mem c hmem)]
    exact h.others d fun hmem => hd (List.mem_singleton.mp hmem ▸ List.mem_cons_self)
  talks := h.talks.trans h'.talks

/-- **The loop over the hookers** tells each of them the message, in the order of the list. -/
theorem told_fanOut {d : DogPtr} (message : CStr) {a : HookNode} {js : List Slot} {s : Server}
    {turns : Nat} (h : Path s.links a (js.map .list1) (.ListHooker d)) (hturns : js.length < turns)
    (hfree : js.length ≤ s.pFifoDogMsgFree.count) (hnodup : s.pFifoDogMsgFree.contents.Nodup)
    (hroom : s.pFifoDogMsg.count + js.length < s.pFifoDogMsg.length) :
    ∃ s', fanOut d message turns ((js.map HookNode.list1).headD (.ListHooker d)) s = some (true, s') ∧
      Told message js (s.pFifoDogMsgFree.contents.take js.length) s s' := by
  induction js generalizing s turns a with
  | nil =>
      obtain ⟨turns, rfl⟩ := Nat.exists_eq_succ_of_ne_zero (by omega : turns ≠ 0)
      exact ⟨s, by simp [fanOut], by simpa using told_nil message s⟩
  | cons j js ih =>
      obtain ⟨turns, rfl⟩ := Nat.exists_eq_succ_of_ne_zero (by omega : turns ≠ 0)
      rw [List.length_cons] at hturns hfree hroom
      cases hcontents : s.pFifoDogMsgFree.contents with
      | nil =>
          rw [← FifoRing.length_contents, hcontents] at hfree
          cases hfree
      | cons c rest =>
          -- the first hooker takes the first free cell, and the links stay as they are
          obtain ⟨s₁, hanswer, htold⟩ := told_answer j message hcontents (by omega)
          have hlinks : s₁.links = s.links := htold.talks.links
          have hrest : Path s₁.links (.list1 j) (js.map .list1) (.ListHooker d) := by
            rw [hlinks]
            exact h.2
          have hleft : s₁.pFifoDogMsgFree.contents = rest := by
            have hsplit := htold.free
            rw [hcontents] at hsplit
            exact (List.cons.inj hsplit).2.symm
          rw [hcontents] at hnodup
          obtain ⟨hc, hrestNodup⟩ := List.nodup_cons.mp hnodup
          have hcount : js.length ≤ s₁.pFifoDogMsgFree.count := by
            rw [← FifoRing.length_contents, hcontents, List.length_cons] at hfree
            rw [← FifoRing.length_contents, hleft]
            omega
          -- one cell fewer is free and one more waits, so the sum does not change
          have hmsg : s₁.pFifoDogMsg.count = s.pFifoDogMsg.count + 1 := by
            rw [← FifoRing.length_contents, htold.appended, List.length_append,
              FifoRing.length_contents]
            rfl
          have hfew : js.length < turns := by omega
          obtain ⟨s', hloop, htold'⟩ := ih hrest hfew hcount (hleft ▸ hrestNodup)
            (by rw [hmsg, htold.length]; omega)
          rw [hleft] at htold'
          exact ⟨s', (fanOut_cons h.2 hanswer hlinks turns).trans hloop,
            htold.cons htold' fun hmem => hc (List.mem_of_mem_take hmem)⟩

/-! ## The packet -/

/-- The client after one more message number was given out. -/
def counted (i : Slot) (s : Server) : Server :=
  s.setClient i fun ci => { ci with iMsgNumID := (ci.iMsgNumID + 1) % 4294967296 }

/-- The first cell may as well be obtained after the message was counted. -/
theorem SendTcp2Cats_of_message {p : Packet} {i : Slot} {s : Server} {c : MsgCell}
    {rest : List MsgCell} {message : CStr} (hfree : s.pFifoDogMsgFree.contents = c :: rest)
    (hmessage : p.message (((s.ClientInfo i).iMsgNumID + 1) % 4294967296) = some message) :
    s.SendTcp2Cats p i = ((s.counted i).answer i message).2.sendToHookers i message := by
  cases hpop : FifoPop s.pFifoDogMsgFree with
  | none =>
      rw [(FifoPop_eq_none_iff _).mp hpop] at hfree
      cases hfree
  | some r =>
      obtain ⟨e, ring⟩ := r
      have hget : s.IoGetSendMsgCell i = (some e, s.stampCell i e ring) := by
        rw [IoGetSendMsgCell, hpop]
      have hget' : (s.counted i).IoGetSendMsgCell i = (some e, (s.counted i).stampCell i e ring) := by
        have hpop' : FifoPop (s.counted i).pFifoDogMsgFree = some (e, ring) := hpop
        rw [IoGetSendMsgCell, hpop']
      have hsession : ((s.counted i).ClientInfo i).iSessionID = (s.ClientInfo i).iSessionID := by
        rw [counted, setClient_ClientInfo_self]
      -- counting the message and stamping the cell are changes of two different records
      have hstamp : (s.counted i).stampCell i e ring = (s.stampCell i e ring).counted i := by
        rw [stampCell, hsession]
        rfl
      have hsame : (s.stampCell i e ring).ClientInfo i = s.ClientInfo i := rfl
      rw [SendTcp2Cats_eq, hget]
      dsimp only
      rw [hsame, hmessage, Option.bind_some, answer_of_some (c := e) (by rw [hget']), hget', hstamp]
      rfl

/-- **The packet is told** to the client and to the hookers of its dog. -/
theorem told_SendTcp2Cats {s : Server} {i : Slot} {d : DogPtr} {js : List Slot} {p : Packet}
    {message : CStr} (hpool : PoolOk s) (hd : (s.ClientInfo i).CuteDog = some d)
    (hooked : Circle s.links (.ListHooker d) (js.map .list1))
    (hfree : js.length + 1 ≤ s.pFifoDogMsgFree.count)
    (htotal : s.pFifoDogMsgFree.count + s.pFifoDogMsg.count ≤ 4095)
    (hmessage : p.message (((s.ClientInfo i).iMsgNumID + 1) % 4294967296) = some message) :
    ∃ s', s.SendTcp2Cats p i = some (true, s') ∧
      Told message (i :: js) (s.pFifoDogMsgFree.contents.take (js.length + 1)) (s.counted i) s' := by
  have hlength : s.pFifoDogMsg.length = 4096 := hpool.msg_length
  cases hcontents : s.pFifoDogMsgFree.contents with
  | nil =>
      rw [← FifoRing.length_contents, hcontents] at hfree
      cases hfree
  | cons c rest =>
      have hnodup := hpool.nodup
      rw [hcontents] at hnodup
      obtain ⟨hc, hrestNodup⟩ := List.nodup_cons.mp hnodup
      have hcount : s.pFifoDogMsgFree.count = rest.length + 1 := by
        rw [← FifoRing.length_contents, hcontents, List.length_cons]
      obtain ⟨s₁, hanswer, htold⟩ := told_answer (s := s.counted i) i message hcontents
        (show s.pFifoDogMsg.count + 1 < s.pFifoDogMsg.length by omega)
      have hleft : s₁.pFifoDogMsgFree.contents = rest := by
        have hsplit := htold.free
        rw [show (s.counted i).pFifoDogMsgFree = s.pFifoDogMsgFree from rfl, hcontents] at hsplit
        exact (List.cons.inj hsplit).2.symm
      have hmsg : s₁.pFifoDogMsg.count = s.pFifoDogMsg.count + 1 := by
        rw [← FifoRing.length_contents, htold.appended, List.length_append, FifoRing.length_contents]
        rfl
      have hlinks : s₁.links = s.links := htold.talks.links
      rw [← hlinks] at hooked
      obtain ⟨l, hl, hfirst⟩ := hooked.first
      have hpoints : (s₁.ClientInfo i).CuteDog = some d := by
        rw [htold.talks.ClientInfo, counted, setClient_ClientInfo_self]
        exact hd
      have hcount₁ : s₁.pFifoDogMsgFree.count = rest.length := by
        rw [← FifoRing.length_contents, hleft]
      have hlength₁ : s₁.pFifoDogMsg.length = 4096 := htold.length.trans hlength
      obtain ⟨s', hloop, htold'⟩ := told_fanOut message hooked.path
        (show js.length < s₁.pFifoDogMsgFree.count + 1 by omega) (by omega) (hleft ▸ hrestNodup)
        (by omega)
      rw [hleft] at htold'
      have hc' : c ∉ rest.take js.length := fun hmem => hc (List.mem_of_mem_take hmem)
      refine ⟨s', ?_, htold.cons htold' hc'⟩
      rw [SendTcp2Cats_of_message hcontents hmessage, hanswer]
      simp only [sendToHookers, hpoints, hl, hooked.list_notempty, hfirst, Option.bind_eq_bind,
        Option.bind_some]
      -- `list_notempty` is asked before the loop
      by_cases hnil : js = []
      · subst hnil
        rw [if_neg (by simp)]
        have hhere : (([] : List Slot).map HookNode.list1).headD (.ListHooker d) =
            .ListHooker d := rfl
        rw [hhere] at hloop
        simpa [fanOut] using hloop
      · rw [if_pos (by simpa using hnil)]
        exact hloop

end Server

/-! ## What is expected -/

/-- The message of a cell: it is stamped with its client and the session the client has, and its text is
the message, pushed into the buffer of the cell. -/
structure CellTells (s s' : Server) (message : CStr) (c : MsgCell) (j : Slot) : Prop where
  client : (s'.cells c).pClientInfo = j
  session : (s'.cells c).iSessionID = (s.ClientInfo j).iSessionID
  text : Carries (s.cells c).hStream (s'.cells c).hStream message (s.heap c)

/-- **What is expected of a packet** of the client `i` whose dog has the hookers `js`: one message for
each of them is appended, one cell for each is taken, the client's message number is the next one, and
no other client, no other cell and no list changes. -/
structure FansOut (s s' : Server) (p : Packet) (i : Slot) (js : List Slot) (message : CStr)
    (cs : List MsgCell) : Prop where
  composed : p.message (((s.ClientInfo i).iMsgNumID + 1) % 4294967296) = some message
  taken : s.pFifoDogMsgFree.contents = cs ++ s'.pFifoDogMsgFree.contents
  appended : s'.pFifoDogMsg.contents = s.pFifoDogMsg.contents ++ cs
  messages : List.Forall₂ (CellTells s s' message) cs (i :: js)
  others : ∀ c ∉ cs, s'.cells c = s.cells c
  clients : s'.ClientInfo = Function.update s.ClientInfo i
    { s.ClientInfo i with iMsgNumID := ((s.ClientInfo i).iMsgNumID + 1) % 4294967296 }
  links : s'.links = s.links
  dogs : s'.CuteDogList = s.CuteDogList ∧ s'.dogs = s.dogs
  slots : s'.WorkClientList = s.WorkClientList ∧ s'.FreeClientList = s.FreeClientList

theorem length_message_le {p : Packet} {iMsgNumID : Nat} {message : CStr}
    (h : p.message iMsgNumID = some message) : message.chars.length ≤ MESSAGE_MAX := by
  rw [Packet.message, Option.map_eq_some_iff] at h
  obtain ⟨pEnBody, -, rfl⟩ := h
  rw [chars_packetMessage]
  exact List.length_take_le _ _

section Packet

variable {s : Server} {i : Slot} {d : DogPtr} {js : List Slot} (p : Packet)

/-- What is left to be seen of a packet that was told to its client and the hookers. -/
theorem fansOut_iff {s' : Server} {message : CStr} {cs cs' : List MsgCell}
    (hstreams : ∀ c, StreamOk (s.cells c).hStream)
    (hmessage : p.message (((s.ClientInfo i).iMsgNumID + 1) % 4294967296) = some message)
    (htold : Server.Told message (i :: js) cs (s.counted i) s') :
    FansOut s s' p i js message cs' ↔
      cs' = cs ∧ ∀ c ∈ cs, TakesText (s.cells c).hStream message (s.heap c) := by
  have hlen := length_message_le hmessage
  have hfree : s.pFifoDogMsgFree.contents = cs ++ s'.pFifoDogMsgFree.contents := htold.free
  constructor
  · intro h
    -- the free cells are the same list with either prefix
    have hcs : cs' = cs := List.append_cancel_right (h.taken.symm.trans hfree)
    subst hcs
    have hboth : List.Forall₂ (fun c j => TakesText (s.cells c).hStream message (s.heap c) ∧
        CellTells s s' message c j) cs' (i :: js) :=
      h.messages.imp fun c j hc => ⟨((carries_iff (hstreams c) hlen).mp hc.text).2, hc⟩
    exact ⟨rfl, ((List.forall₂_and_left cs' (i :: js)).mp hboth).1⟩
  · rintro ⟨rfl, htakes⟩
    refine ⟨hmessage, hfree, htold.appended, ?_, htold.others, htold.talks.ClientInfo, ?_, ?_, ?_⟩
    · refine ((List.forall₂_and_left cs' (i :: js)).mpr ⟨htakes, htold.cells⟩).imp ?_
      rintro c j ⟨htake, hcell⟩
      have hsession : ((s.counted i).ClientInfo j).iSessionID = (s.ClientInfo j).iSessionID := by
        by_cases hji : j = i
        · rw [hji, Server.counted, Server.setClient_ClientInfo_self]
        · rw [Server.counted, Server.setClient_ClientInfo_of_ne _ _ hji]
      refine ⟨by rw [hcell]; rfl, by rw [hcell]; exact hsession, ?_⟩
      exact (carries_iff (hstreams c) hlen).mpr ⟨by rw [hcell]; rfl, htake⟩
    · exact htold.talks.links
    · exact ⟨htold.talks.CuteDogList, htold.talks.dogs⟩
    · obtain ⟨_, _, _, _, rfl⟩ := htold.talks
      exact ⟨rfl, rfl⟩

/-- The cells of a packet that fans out take its text. -/
theorem FansOut.takes {p : Packet} {s' : Server} {message : CStr} {cs : List MsgCell}
    (hfans : FansOut s s' p i js message cs) (hpool : PoolOk s) (hd : (s.ClientInfo i).CuteDog = some d)
    (hooked : Circle s.links (.ListHooker d) (js.map .list1))
    (hfree : js.length + 1 ≤ s.pFifoDogMsgFree.count)
    (htotal : s.pFifoDogMsgFree.count + s.pFifoDogMsg.count ≤ 4095)
    (hsend : s.SendTcp2Cats p i = some (true, s')) :
    ∀ c ∈ s.pFifoDogMsgFree.contents.take (js.length + 1),
      TakesText (s.cells c).hStream message (s.heap c) := by
  obtain ⟨s'', hsend', htold⟩ :=
    Server.told_SendTcp2Cats hpool hd hooked hfree htotal hfans.composed
  rw [hsend] at hsend'
  cases hsend'
  exact ((fansOut_iff p hpool.streams hfans.composed htold).mp hfans).2

/-- **A packet fans out** exactly when the memory that the encoder reads is there and each of the cells
it gets takes the text. -/
theorem packet_fans_out (hpool : PoolOk s) (hd : (s.ClientInfo i).CuteDog = some d)
    (hooked : Circle s.links (.ListHooker d) (js.map .list1))
    (hfree : js.length + 1 ≤ s.pFifoDogMsgFree.count)
    (htotal : s.pFifoDogMsgFree.count + s.pFifoDogMsg.count ≤ 4095) :
    (∃ s' message cs, s.SendTcp2Cats p i = some (true, s') ∧ FansOut s s' p i js message cs) ↔
      ∃ message, p.message (((s.ClientInfo i).iMsgNumID + 1) % 4294967296) = some message ∧
        ∀ c ∈ s.pFifoDogMsgFree.contents.take (js.length + 1),
          TakesText (s.cells c).hStream message (s.heap c) := by
  constructor
  · rintro ⟨s', message, cs, hsend, hfans⟩
    exact ⟨message, hfans.composed, hfans.takes hpool hd hooked hfree htotal hsend⟩
  · rintro ⟨message, hmessage, htakes⟩
    obtain ⟨s', hsend, htold⟩ := Server.told_SendTcp2Cats hpool hd hooked hfree htotal hmessage
    exact ⟨s', message, _, hsend, (fansOut_iff p hpool.streams hmessage htold).mpr ⟨rfl, htakes⟩⟩

end Packet

/-! ## A server that has sent nothing -/

/-- No cell was used twice: the pool is as the fan-out expects it, and the free cells are as they were
set up. -/
structure Unused (s : Server) : Prop where
  pool : PoolOk s
  total : s.pFifoDogMsgFree.count + s.pFifoDogMsg.count ≤ 4095
  fresh : ∀ c ∈ s.pFifoDogMsgFree.contents, (s.cells c).hStream = init_stream 0 MSGINITSIZE
  heap : ∀ c, s.heap c = none

theorem acceptClient_rest (s : Server) (sd : Nat) :
    (s.acceptClient sd).pFifoDogMsg = s.pFifoDogMsg ∧ (s.acceptClient sd).heap = s.heap := by
  unfold Server.acceptClient
  split
  · exact ⟨rfl, rfl⟩
  · exact ⟨rfl, rfl⟩

theorem unused_init : Unused (InitServer fun _ => 0) := by
  have hmsg : (InitServer fun _ => 0).pFifoDogMsg = newRing := rfl
  have hcount : (InitServer fun _ => 0).pFifoDogMsg.count = 0 := by
    rw [hmsg, ← FifoRing.length_contents, contents_newRing]
    rfl
  refine ⟨poolOk_reach (p := transportInit fun _ => 0) Reach.start, ?_, fun _ _ => rfl, fun _ => rfl⟩
  rw [count_InitServer, hcount]
  decide

theorem Unused.accept {s : Server} (h : Unused s) (sd : Nat) : Unused (s.acceptClient sd) := by
  obtain ⟨hmsg, hheap⟩ := acceptClient_rest s sd
  have hcells := Server.cells_acceptClient s sd
  have hfree := pFifoDogMsgFree_acceptClient s sd
  refine ⟨⟨?_, ?_, ?_⟩, ?_, ?_, fun c => (congrFun hheap c).trans (h.heap c)⟩
  · rw [hcells]
    exact h.pool.streams
  · rw [hfree]
    exact h.pool.nodup
  · rw [hmsg]
    exact h.pool.msg_length
  · rw [hfree, hmsg]
    exact h.total
  · rw [hfree, hcells]
    exact h.fresh

/-- A push into a ring adds one message at most. -/
theorem count_FifoPush_le {α : Type} (f : FifoRing α) (x : α) : (FifoPush f x).2.count ≤ f.count + 1 := by
  by_cases hroom : f.count + 1 < f.length
  · rw [← FifoRing.length_contents, (FifoPush_of_room x hroom).2.1, List.length_append,
      FifoRing.length_contents]
    rfl
  · rw [FifoPush_of_full x (Nat.le_of_not_lt hroom)]
    exact Nat.le_succ _

/-- **A deed keeps a server unused**: it takes cells from the front of the free ring. -/
theorem Unused.deed {s s' : Server} {T : CStr → Prop} (h : Unused s)
    (hT : ∀ str, T str → str.chars.length ≤ MESSAGE_MAX) (hdeed : Server.Deed T s s') : Unused s' := by
  have hkept := hdeed.freeKept h.pool.nodup
  have hfresh : ∀ c ∈ s'.pFifoDogMsgFree.contents, (s'.cells c).hStream = init_stream 0 MSGINITSIZE :=
    fun c hc => (hkept.cells c hc).trans (h.fresh c (hkept.free.subset hc))
  have hnodup := hkept.free.sublist.nodup h.pool.nodup
  have hheap : ∀ c, s'.heap c = none := fun c => (congrFun hkept.heap c).trans (h.heap c)
  have hstamped : ∀ (i : Slot) (c d : MsgCell) (ring : FifoRing MsgCell),
      StreamOk ((s.stampCell i c ring).cells d).hStream := by
    intro i c d ring
    by_cases hd : d = c
    · rw [hd, Server.stampCell_cells_self]
      exact (h.pool.streams c).reset
    · rw [Server.stampCell_cells_of_ne _ _ _ hd]
      exact h.pool.streams d
  have htotal := h.total
  cases hdeed with
  | answer i str hstr =>
      obtain hget | ⟨c, ring, hget, hcontents, -, -⟩ := Server.goes_get h.pool.nodup i
      · rw [Server.answer_of_none (by rw [hget]), hget]
        exact h
      · rw [Server.answer_of_some (c := c) (by rw [hget]), hget] at hfresh hnodup hheap ⊢
        have hpush := count_FifoPush_le s.pFifoDogMsg c
        have hcount : s.pFifoDogMsgFree.count = ring.count + 1 := by
          rw [← FifoRing.length_contents, hcontents, List.length_cons, FifoRing.length_contents]
        refine ⟨⟨fun d => ?_, hnodup, (length_FifoPush _ _).trans h.pool.msg_length⟩, ?_, hfresh, hheap⟩
        · by_cases hd : d = c
          · rw [hd, Server.putString_cells_self, Server.stampCell_cells_self]
            exact (h.pool.streams c).push (hT str hstr)
          · rw [Server.putString_cells_of_ne _ _ hd]
            exact hstamped i c d ring
        · show ring.count + (FifoPush s.pFifoDogMsg c).2.count ≤ 4095
          omega
  | obtain i =>
      obtain hget | ⟨c, ring, hget, hcontents, -, -⟩ := Server.goes_get h.pool.nodup i
      · rw [hget]
        exact h
      · rw [hget] at hfresh hnodup hheap ⊢
        have hcount : s.pFifoDogMsgFree.count = ring.count + 1 := by
          rw [← FifoRing.length_contents, hcontents, List.length_cons, FifoRing.length_contents]
        refine ⟨⟨fun d => hstamped i c d ring, hnodup, h.pool.msg_length⟩, ?_, hfresh, hheap⟩
        show ring.count + s.pFifoDogMsg.count ≤ 4095
        omega
  | aside haside =>
      refine ⟨⟨?_, hnodup, ?_⟩, ?_, hfresh, hheap⟩
      · rw [haside.cells]
        exact h.pool.streams
      · rw [haside.msgs]
        exact h.pool.msg_length
      · rw [haside.freeRing, haside.msgs]
        exact htotal

theorem Unused.stanza {s s' : Server} {i : Slot} {node : Iks} {o : Outcome} (h : Unused s)
    (hstep : serverStep s (.stanza i .IKS_NODE_NORMAL node o) = some s') : Unused s' := by
  have hdogs : ∀ s₁ : Server, s₁.DogsHave fun _ _ => True := fun _ _ _ _ => trivial
  cases serverStep_eq_some hstep with
  | stanza _ _ _ _ _ _ _ hmsg =>
      have hdeeds : Server.Deeds (ServerText (fun _ _ => True) fun _ => True) s s' :=
        deeds_IOProcessCatMsg (hdogs s) (hdogs s') hmsg
      clear hstep hmsg
      induction hdeeds with
      | refl => exact h
      | tail _ hdeed ih => exact ih.deed (fun _ htext => htext.length_le) hdeed

/-! ## A dog without hookers -/

/-- A client is connected and has a dog that nobody hooks. -/
def lonelyDog : Server :=
  ((InitServer fun _ => 0).acceptClient 7).listDog 0
    (newDog 0 .tidp (CStr.lit "a") (CStr.lit "tcp") 15) 15

/-- A packet of the bytes `tcpData`. -/
def packetOf (tcpData : List Byte) : Packet :=
  capturedPacket ⟨10, 0, 0, 1⟩ ⟨10, 0, 0, 2⟩ 80 1234 tcpData tcpData.length

structure LonelyDog (s : Server) : Prop where
  unused : Unused s
  points : (s.ClientInfo 15).CuteDog = some 0
  hooked : Circle s.links (.ListHooker 0) []
  free : s.pFifoDogMsgFree.count = 4095

theorem lonelyDog_spec : LonelyDog lonelyDog := by
  obtain ⟨s, hs⟩ : ∃ s, s = (InitServer fun _ => 0).acceptClient 7 := ⟨_, rfl⟩
  have hunused : Unused s := hs ▸ unused_init.accept 7
  have hfree : s.pFifoDogMsgFree.count = 4095 := by
    rw [hs, pFifoDogMsgFree_acceptClient, count_InitServer]
    rfl
  rw [lonelyDog, ← hs]
  refine ⟨⟨⟨hunused.pool.streams, hunused.pool.nodup, hunused.pool.msg_length⟩, hunused.total,
    hunused.fresh, hunused.heap⟩, ?_, circle_INIT_LIST_HEAD _ _, hfree⟩
  rw [Server.listDog, Server.setCuteDog, Server.setClient_ClientInfo_self]

/-- The message of a packet, with the length of its text. -/
theorem message_packetOf {tcpData : List Byte} (hpos : 0 < tcpData.length)
    (hle : tcpData.length ≤ 3072) (n : Nat) :
    ∃ message, (packetOf tcpData).message n = some message ∧
      4 * ((tcpData.length + 2) / 3) ≤ message.chars.length ∧
      message.chars.length ≤ 4 * ((tcpData.length + 2) / 3) + 156 := by
  have hsize : (packetOf tcpData).size1 = tcpData.length :=
    (size1_eq _).trans (Nat.min_eq_left hle)
  have hmem : (packetOf tcpData).tcpData = tcpData := rfl
  obtain ⟨str, hencode, hchars⟩ := base64_encode_eq hpos (Nat.le_refl tcpData.length)
  have hbody : str.chars.length = 4 * ((tcpData.length + 2) / 3) := by
    rw [hchars, length_base64Groups, List.take_length]
  have hshort : (packetText (packetOf tcpData) tcpData.length n str).chars.length < 4096 + 512 :=
    length_packetText_le (length_inet_ntoa_le _) (length_port_le _) (length_inet_ntoa_le _)
      (length_port_le _) (by omega)
  refine ⟨_, by rw [Packet.message, hsize, hmem, hencode, Option.map_some], ?_⟩
  rw [packetMessage_eq hshort]
  have hsource := length_inet_ntoa_le ⟨10, 0, 0, 1⟩
  have hdest := length_inet_ntoa_le ⟨10, 0, 0, 2⟩
  have hfp := length_port_le 80
  have htp := length_port_le 1234
  have hsize' := CStr.length_percentD_le tcpData.length
  have hsn := CStr.length_percentD_le n
  rw [length_packetText]
  simp only [packetOf, capturedPacket]
  omega

/-- One byte of payload, for the master of a dog and the client that hooks it. -/
theorem packet_fans_out_shared : ∃ s s' message c₁ c₂,
    s.SendTcp2Cats (packetOf [65]) 15 = some (true, s') ∧
      FansOut s s' (packetOf [65]) 15 [14] message [c₁, c₂] := by
  have hsucceed := Outcome.allSucceed_succeeds
  obtain ⟨h, hcap⟩ := hsucceed.captures 0
  obtain ⟨tid, htid⟩ := Option.isSome_iff_exists.mp hsucceed.create
  obtain ⟨s₁, howned⟩ := owned_dog (fun _ => 0) hcap htid
  obtain ⟨s, hstep, -, hshared⟩ := howned.hook
  have hunused : Unused s := (((unused_init.accept 7).accept 8).stanza howned.step).stanza hstep
  obtain ⟨hookers, hooked, hjs⟩ := hshared.hooked
  have hcircle : Circle s.links (.ListHooker 0) ([14].map .list1) := by
    rw [← hjs]
    refine hooked.circle _ ?_
    rw [hshared.list]
    exact List.mem_singleton_self _
  have hcells := hshared.cells
  obtain ⟨message, hmessage, -, hle⟩ := message_packetOf
    (show 0 < [(65 : Byte)].length by decide) (by decide)
    (((s.ClientInfo 15).iMsgNumID + 1) % 4294967296)
  rw [show [(65 : Byte)].length = 1 from rfl] at hle
  have hcount : ([14] : List Slot).length + 1 ≤ s.pFifoDogMsgFree.count := by
    show 2 ≤ _
    omega
  have htakes : ∀ c ∈ s.pFifoDogMsgFree.contents.take (([14] : List Slot).length + 1),
      TakesText (s.cells c).hStream message (s.heap c) := by
    intro c hc
    rw [hunused.fresh c (List.mem_of_mem_take hc), TakesText,
      if_pos (by show message.chars.length ≤ 1024; omega)]
    show 0 + message.chars.length < (List.replicate (1024 + 32) (0 : Byte)).length
    rw [List.length_replicate]
    omega
  obtain ⟨s', message', cs, hsend, hfans⟩ := (packet_fans_out (packetOf [65]) hunused.pool
    hshared.points.2 hcircle hcount hunused.total).mpr ⟨message, hmessage, htakes⟩
  obtain ⟨c₁, c₂, rfl⟩ := List.length_eq_two.mp hfans.messages.length_eq
  exact ⟨s, s', message', c₁, c₂, hsend, hfans⟩

/-- With no memory for a larger buffer the cell of a long message is put without the text. -/
theorem packet_text_lost : ¬∀ (s : Server) (i : Slot) (d : DogPtr) (js : List Slot) (p : Packet),
    PoolOk s → (s.ClientInfo i).CuteDog = some d →
      Circle s.links (.ListHooker d) (js.map .list1) → js.length + 1 ≤ s.pFifoDogMsgFree.count →
        s.pFifoDogMsgFree.count + s.pFifoDogMsg.count ≤ 4095 →
          (∀ n, p.message n ≠ none) →
            ∃ s' message cs, s.SendTcp2Cats p i = some (true, s') ∧
              FansOut s s' p i js message cs := by
  intro hall
  obtain ⟨⟨hpool, htotal, hfresh, hheap⟩, hpoints, hooked, hfree⟩ := lonelyDog_spec
  obtain ⟨tcpData, hdata⟩ : ∃ tcpData : List Byte, tcpData.length = 1000 :=
    ⟨List.replicate 1000 65, List.length_replicate⟩
  have hmessage := fun n => message_packetOf (show 0 < tcpData.length by omega) (by omega) n
  have hcount : ([] : List Slot).length + 1 ≤ lonelyDog.pFifoDogMsgFree.count := by
    rw [hfree]
    decide
  have hfans := hall lonelyDog 15 0 [] (packetOf tcpData) hpool hpoints hooked hcount htotal
    (fun n => by
      obtain ⟨message, hm, -⟩ := hmessage n
      rw [hm]
      exact Option.some_ne_none message)
  obtain ⟨s', message, cs, hsend, hfans⟩ := hfans
  have htakes := hfans.takes hpool hpoints hooked hcount htotal hsend
  obtain ⟨message', hm, hlong, -⟩ := hmessage (((lonelyDog.ClientInfo 15).iMsgNumID + 1) % 4294967296)
  rw [hfans.composed] at hm
  cases hm
  cases hcontents : lonelyDog.pFifoDogMsgFree.contents with
  | nil =>
      rw [← FifoRing.length_contents, hcontents] at hfree
      cases hfree
  | cons c rest =>
      have htake := htakes c (by rw [hcontents]; exact List.mem_cons_self)
      rw [TakesText, hfresh c (by rw [hcontents]; exact List.mem_cons_self),
        if_neg (by show ¬message.chars.length ≤ 1024; omega), hheap] at htake
      obtain hne | htext := htake
      · exact hne rfl
      · have hempty : (init_stream 0 MSGINITSIZE).text.chars = [] := by
          show (List.replicate 1056 (0 : Byte)).takeWhile (· ≠ 0) = []
          rw [List.replicate_succ]
          rfl
        rw [htext] at hempty
        rw [hempty, hdata] at hlong
        exact absurd hlong (by decide)

end Netflow
