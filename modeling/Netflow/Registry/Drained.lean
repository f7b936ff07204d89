import Netflow.Registry.Shared

set_option autoImplicit false

/-! # No message cell is left

A login without a user name obtains a cell and returns without putting it. A client that sends enough
of them takes all cells, and nothing else of the server changes.
-/

namespace Netflow

open Iksemel

section Login

variable {ι : Type} [Iksemel ι] {s : Server} {i : Slot} {type : IksNodeType} {node : ι} {o : Outcome}

/-- A login without a user name takes a cell. -/
theorem login_takes_cell (hready : Ready s i)
    (hlogin : (handlerOf type node).1 = some .RespCatLogin0)
    (hname : iks_find_cdata (handlerOf type node).2 (CStr.lit "username") = none) :
    serverStep s (.stanza i type node o) = some (s.IoGetSendMsgCell i).2 := by
  have hof : handlerOf type node = (some .RespCatLogin0, (handlerOf type node).2) :=
    Prod.ext hlogin rfl
  have hmsg : s.IOProcessCatMsg i type node o = some (s.IoGetSendMsgCell i).2 := by
    rw [IOProcessCatMsg_of_handler hof]
    cases hget : s.IoGetSendMsgCell i with
    | mk c s₁ =>
        cases c with
        | none => simp only [Server.runHandler, Server.RespCatLogin0, hget, Option.map_some]
        | some c =>
            simp only [Server.runHandler, Server.RespCatLogin0, hget, hname, Option.map_some]
  exact (if_pos hready).trans hmsg

end Login

theorem Server.count_IoGetSendMsgCell {s : Server} (i : Slot) :
    (s.IoGetSendMsgCell i).2.pFifoDogMsgFree.count = s.pFifoDogMsgFree.count - 1 := by
  rw [IoGetSendMsgCell]
  cases hpop : FifoPop s.pFifoDogMsgFree with
  | none =>
      rw [← FifoRing.length_contents, (FifoPop_eq_none_iff _).mp hpop]
      rfl
  | some r =>
      obtain ⟨c, ring⟩ := r
      show ring.count = s.pFifoDogMsgFree.count - 1
      rw [← FifoRing.length_contents, ← FifoRing.length_contents, (contents_FifoPop hpop).1,
        List.length_cons, Nat.add_sub_cancel]

theorem Ready.talks {s s' : Server} {i : Slot} (h : Ready s i) (htalks : Server.Talks s s') :
    Ready s' i := by
  rw [Ready, htalks.WorkClientList, htalks.ClientInfo]
  exact h

/-- A login without a user name, as an element tree. -/
def namelessLogin : Iks := iqSet "jabber:iq:auth" "" []

/-- **All cells are taken** by the logins of one client. -/
theorem reach_drained {s₀ s : Server} {i : Slot}
    (h : Reach (serverStep (ι := Iks)) AnyStep s₀ s) (hready : Ready s i) :
    ∃ s', Reach (serverStep (ι := Iks)) AnyStep s₀ s' ∧ Server.Talks s s' ∧
      s'.pFifoDogMsgFree.count = 0 := by
  -- by induction on the cells that are left
  obtain ⟨n, hn⟩ : ∃ n, s.pFifoDogMsgFree.count = n := ⟨_, rfl⟩
  induction n generalizing s with
  | zero => exact ⟨s, h, Server.Talks.refl s, hn⟩
  | succ n ih =>
      have hstep := login_takes_cell (o := Outcome.allSucceed) hready
        (show (handlerOf .IKS_NODE_NORMAL namelessLogin).1 = _ by decide +kernel)
        (by decide +kernel)
      have htalks := Server.talks_IoGetSendMsgCell i s
      have hcount := Server.count_IoGetSendMsgCell (s := s) i
      rw [hn, Nat.add_sub_cancel] at hcount
      obtain ⟨s', hreach, htalks', hzero⟩ := ih (h.next trivial hstep) (hready.talks htalks) hcount
      exact ⟨s', hreach, htalks.trans htalks', hzero⟩

end Netflow
