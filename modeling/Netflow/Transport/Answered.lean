import Netflow.Server.Run
import Netflow.Server.Talk
import Netflow.Transport.Delivered

set_option autoImplicit false

/-! # An answer gets through

The answer an idle client gets to a stanza is sent on its connection, in runs of the server.
-/

namespace Netflow

open Iksemel

section Runs

variable {ι : Type} [Iksemel ι] {C : Server → ServerAction ι → Prop} {s : Server} {i : Slot} {str : CStr}

/-- A guard that is met by what the receive thread does with the messages of a client. -/
structure Receives (C : Server → ServerAction ι → Prop) (i : Slot) : Prop where
  drain : ∀ s, C s .drain
  pickUp : ∀ s, (s.ClientInfo i).pCurSendMsg = none → C s (.pickUp i)
  send : ∀ s n, C s (.send i n)

/-- The text is read back from every free cell it is pushed into. -/
def ReadsBack (s : Server) (str : CStr) : Prop :=
  ∀ c ∈ s.pFifoDogMsgFree.contents,
    (push_stream_string (reset_stream (s.cells c).hStream) str (s.heap c)).text = str

/-- **An answer gets through**: what an idle client is answered is sent on its connection after a
drain, a pick-up and a send. -/
theorem answer_delivered (h : Idle s i) (hfree : s.pFifoDogMsgFree.contents ≠ [])
    (htext : ReadsBack s str) (hne : str.chars ≠ []) (hC : Receives C i) :
    ∃ c ring s', Reach serverStep C (s.answer i str).2 s' ∧
      (s.stampCell i c ring).Delivered c i str s' := by
  cases hpop : FifoPop s.pFifoDogMsgFree with
  | none => exact absurd ((FifoPop_eq_none_iff _).mp hpop) hfree
  | some r =>
      obtain ⟨c, ring⟩ := r
      have hget : s.IoGetSendMsgCell i = (some c, s.stampCell i c ring) := by
        rw [Server.IoGetSendMsgCell, hpop]
      have hc : c ∈ s.pFifoDogMsgFree.contents := by
        rw [(contents_FifoPop hpop).1]
        exact List.mem_cons_self
      have hcell := Server.stampCell_cells_self s i c ring
      have hidle : Idle (s.stampCell i c ring) i := { h with }
      have haddressed : Addressed (s.stampCell i c ring) c i := ⟨by rw [hcell], by rw [hcell]; rfl⟩
      have hread : (push_stream_string ((s.stampCell i c ring).cells c).hStream str
          ((s.stampCell i c ring).heap c)).text = str := by
        rw [hcell]
        exact htext c hc
      obtain ⟨s₂, hdrain, hwork, hopen, hcurrent, hunderWay⟩ := hidle.picked_up haddressed hread
      refine ⟨c, ring, _, ?_, hunderWay.delivered⟩
      rw [Server.answer_of_some (c := c) (by rw [hget]), hget]
      have h₂ : Reach serverStep C _ s₂ := Reach.start.next (a := .drain) (hC.drain _) hdrain
      have hpick : serverStep s₂ (.pickUp i : ServerAction ι) = some (s₂.firstPass i) :=
        if_pos ⟨hwork, hopen⟩
      have h₃ := h₂.next (hC.pickUp s₂ hcurrent) hpick
      exact h₃.next (a := .send i str.chars.length) (hC.send _ _) (if_pos ⟨hunderWay.work,
        List.length_pos_of_ne_nil hne, Nat.le_of_eq hunderWay.len.symm⟩)

/-- The first client, just connected. -/
theorem idle_first (filled : FifoRing MsgCell × List Ret) (sd : Nat) :
    Idle ((initialServer (fun _ => 0) filled).acceptClient sd) 15 := by
  refine ⟨contents_newRing, ?_, List.mem_cons_self, rfl, rfl, rfl, rfl, ?_⟩
  · show 1 < DOG2CATIOMSGNUM
    decide
  · exact fun h => CLIENTSTATUS.noConfusion h

/-- **The first answer gets through**: from the start a client connects, its stanza is answered with a
text that fits, and the receive thread sends it, under any guard that these steps meet. -/
theorem first_answer (filled : FifoRing MsgCell × List Ret) (str : CStr) {a : ServerAction ι}
    (hfilled : filled.1.contents ≠ []) (haccept : C (initialServer (fun _ => 0) filled) (.accept 7))
    (ha : C ((initialServer (fun _ => 0) filled).acceptClient 7) a)
    (hstep : serverStep ((initialServer (fun _ => 0) filled).acceptClient 7) a =
      some (((initialServer (fun _ => 0) filled).acceptClient 7).answer 15 str).2)
    (hfits : str.chars.length ≤ MSGINITSIZE) (hne : str.chars ≠ []) (hC : Receives C 15) :
    ∃ s, Reach serverStep C (initialServer (fun _ => 0) filled) s ∧ s.hist.sent = [(1, str.chars)] := by
  set s := (initialServer (fun _ => 0) filled).acceptClient 7 with hs
  have htext : ReadsBack s str := by
    intro c _
    have hmax : str.chars.length ≤ MESSAGE_MAX := hfits.trans (by decide)
    exact (push_reset (streamOk_init 0) hmax (pushable_init hfits none)).2
  obtain ⟨c, ring, s', hreach, hdelivered⟩ := answer_delivered (C := C) (idle_first filled 7) hfilled
    htext hne hC
  have haccepted : Reach serverStep C (initialServer (fun _ => 0) filled) s :=
    Reach.start.next (a := .accept 7) haccept rfl
  exact ⟨s', (haccepted.next ha hstep).trans hreach, hdelivered.sent⟩

end Runs

end Netflow
