import Netflow.Server.Io

set_option autoImplicit false

/-! # What answering a client changes

An answer takes a message cell from the free ring, writes to its stream and puts it into the message
ring: the clients, the dogs and their links stay as they were (`Talks`). So do the loops that only
send texts.
-/

namespace Netflow

namespace Server

/-- `s'` differs from `s` in message cells, rings and history at most. -/
def Talks (s s' : Server) : Prop :=
  ∃ cells msg free hist, s' =
    { s with cells := cells, pFifoDogMsg := msg, pFifoDogMsgFree := free, hist := hist }

theorem Talks.refl (s : Server) : Talks s s := ⟨_, _, _, _, rfl⟩

theorem Talks.trans {s s₁ s₂ : Server} (h₁ : Talks s s₁) (h₂ : Talks s₁ s₂) : Talks s s₂ := by
  obtain ⟨_, _, _, _, rfl⟩ := h₁
  obtain ⟨_, _, _, _, rfl⟩ := h₂
  exact ⟨_, _, _, _, rfl⟩

section Frame

variable {s s' : Server} (h : Talks s s')

include h

theorem Talks.ClientInfo : s'.ClientInfo = s.ClientInfo := by
  obtain ⟨_, _, _, _, rfl⟩ := h
  rfl

theorem Talks.links : s'.links = s.links := by
  obtain ⟨_, _, _, _, rfl⟩ := h
  rfl

theorem Talks.dogs : s'.dogs = s.dogs := by
  obtain ⟨_, _, _, _, rfl⟩ := h
  rfl

theorem Talks.CuteDogList : s'.CuteDogList = s.CuteDogList := by
  obtain ⟨_, _, _, _, rfl⟩ := h
  rfl

theorem Talks.WorkClientList : s'.WorkClientList = s.WorkClientList := by
  obtain ⟨_, _, _, _, rfl⟩ := h
  rfl

theorem Talks.FunCallBack : s'.FunCallBack = s.FunCallBack := by
  obtain ⟨_, _, _, _, rfl⟩ := h
  rfl

end Frame

theorem talks_IoGetSendMsgCell (i : Slot) (s : Server) : Talks s (s.IoGetSendMsgCell i).2 := by
  rw [IoGetSendMsgCell]
  split
  · exact Talks.refl s
  · exact ⟨_, _, _, _, rfl⟩

theorem talks_pushString (c : MsgCell) (str : CStr) (s : Server) : Talks s (s.pushString c str) :=
  ⟨_, _, _, _, rfl⟩

theorem talks_IoPutSendMsgCell (c : MsgCell) (s : Server) : Talks s (s.IoPutSendMsgCell c) :=
  ⟨_, _, _, _, rfl⟩

theorem talks_send (c : MsgCell) (str : CStr) (s : Server) :
    Talks s ((s.pushString c str).IoPutSendMsgCell c) :=
  (talks_pushString c str s).trans (talks_IoPutSendMsgCell c _)

theorem answer_of_none {i : Slot} {str : CStr} {s : Server}
    (h : (s.IoGetSendMsgCell i).1 = none) : s.answer i str = (false, (s.IoGetSendMsgCell i).2) := by
  rw [answer]
  split
  · next heq => rw [heq]
  · next heq =>
      rw [heq] at h
      cases h

theorem answer_of_some {i : Slot} {str : CStr} {s : Server} {c : MsgCell}
    (h : (s.IoGetSendMsgCell i).1 = some c) :
    s.answer i str =
      (true, ((s.IoGetSendMsgCell i).2.pushString c str).IoPutSendMsgCell c) := by
  rw [answer]
  split
  · next heq =>
      rw [heq] at h
      cases h
  · next heq =>
      rw [heq] at h ⊢
      cases h
      rfl

theorem talks_answer (i : Slot) (str : CStr) (s : Server) : Talks s (s.answer i str).2 := by
  have hget := talks_IoGetSendMsgCell i s
  cases hcell : (s.IoGetSendMsgCell i).1 with
  | none =>
      rw [answer_of_none hcell]
      exact hget
  | some c =>
      rw [answer_of_some hcell]
      exact hget.trans (talks_send c str _)

theorem talks_of_answer {s s' : Server} {j : Slot} {str : CStr} {b : Bool}
    (h : s.answer j str = (b, s')) : Talks s s' := by
  have hanswer := talks_answer j str s
  rwa [h] at hanswer

theorem talks_broadcastTo (Body : CStr) (l : List Slot) (s : Server) :
    Talks s (broadcastTo Body l s) := by
  induction l generalizing s with
  | nil => exact Talks.refl s
  | cons i rest ih =>
      have hget := talks_IoGetSendMsgCell i s
      rw [broadcastTo]
      split
      · next heq =>
          rw [heq] at hget
          exact hget
      · next heq =>
          rw [heq] at hget
          split
          · next heq' => exact hget.trans (talks_of_answer heq')
          · next heq' => exact (hget.trans (talks_of_answer heq')).trans (ih _)

theorem talks_CuteDogBroadCast {s s' : Server} (h : s.CuteDogBroadCast = some s') :
    Talks s s' := by
  rw [CuteDogBroadCast, Option.bind_eq_bind, Option.bind_eq_some_iff] at h
  obtain ⟨Rows, -, h⟩ := h
  cases h
  exact talks_broadcastTo _ _ s

theorem talks_SetCapFilter (Handle : Option PcapHandle) (i : Slot) (o : Outcome) (s : Server) :
    Talks s (s.SetCapFilter Handle i o).2 := by
  unfold SetCapFilter
  split
  · exact Talks.refl s
  · split
    · exact talks_answer i _ s
    · exact talks_answer i _ s

/-- A cell is obtained and stamped, or none is free and nothing changes. -/
theorem IoGetSendMsgCell_cases (i : Slot) (s : Server) :
    (s.IoGetSendMsgCell i = (none, s) ∧ s.pFifoDogMsgFree.contents = []) ∨
      ∃ c ring, s.IoGetSendMsgCell i = (some c, s.stampCell i c ring) := by
  cases hpop : FifoPop s.pFifoDogMsgFree with
  | none =>
      refine Or.inl ⟨?_, (FifoPop_eq_none_iff _).mp hpop⟩
      rw [IoGetSendMsgCell, hpop]
  | some r =>
      obtain ⟨c, ring⟩ := r
      refine Or.inr ⟨c, ring, ?_⟩
      rw [IoGetSendMsgCell, hpop]

/-- An answer finds a cell exactly when one is free. -/
theorem answer_fst (i : Slot) (str : CStr) (s : Server) :
    (s.answer i str).1 = true ↔ s.pFifoDogMsgFree.contents ≠ [] := by
  rw [answer, IoGetSendMsgCell]
  cases hpop : FifoPop s.pFifoDogMsgFree with
  | none => simpa using (FifoPop_eq_none_iff _).mp hpop
  | some r =>
      obtain ⟨c, ring⟩ := r
      simp [(contents_FifoPop hpop).1]

/-- An answer takes one cell from the free ring; when there is none it does nothing. -/
theorem answer_spec (i : Slot) (str : CStr) (s : Server) :
    (s.answer i str = (false, s) ∧ s.pFifoDogMsgFree.contents = []) ∨
      ∃ s', s.answer i str = (true, s') ∧ Talks s s' ∧
        s'.pFifoDogMsgFree.count + 1 = s.pFifoDogMsgFree.count := by
  cases hpop : FifoPop s.pFifoDogMsgFree with
  | none =>
      have hget : s.IoGetSendMsgCell i = (none, s) := by rw [IoGetSendMsgCell, hpop]
      left
      refine ⟨?_, (FifoPop_eq_none_iff _).mp hpop⟩
      rw [answer_of_none (by rw [hget]), hget]
  | some r =>
      obtain ⟨c, ring⟩ := r
      have hget : s.IoGetSendMsgCell i = (some c, s.stampCell i c ring) := by
        rw [IoGetSendMsgCell, hpop]
      have hanswer : s.answer i str =
          (true, ((s.stampCell i c ring).pushString c str).IoPutSendMsgCell c) := by
        rw [answer_of_some (c := c) (by rw [hget]), hget]
      have htalks := talks_answer i str s
      rw [hanswer] at htalks
      refine Or.inr ⟨_, hanswer, htalks, ?_⟩
      show ring.count + 1 = s.pFifoDogMsgFree.count
      rw [← FifoRing.length_contents, ← FifoRing.length_contents, (contents_FifoPop hpop).1,
        List.length_cons]

/-- A message for a client with a given text. -/
def Tells (i : Slot) (text : CStr) (m : Msg) : Prop := m.slot = i ∧ m.text = text

/-- An answer is put. -/
theorem put_answer {s s' : Server} {i : Slot} {str : CStr} (h : s.answer i str = (true, s')) :
    ∃ m, s'.hist.put = s.hist.put ++ [m] ∧ Tells i str m := by
  cases hpop : FifoPop s.pFifoDogMsgFree with
  | none =>
      rw [answer, IoGetSendMsgCell, hpop] at h
      cases (Prod.mk.inj h).1
  | some r =>
      obtain ⟨c, ring⟩ := r
      have hget : s.IoGetSendMsgCell i = (some c, s.stampCell i c ring) := by
        rw [IoGetSendMsgCell, hpop]
      rw [answer_of_some (c := c) (by rw [hget]), hget] at h
      cases h
      refine ⟨((s.stampCell i c ring).pushString c str).hist.msg c, rfl, ?_⟩
      simp only [Tells, pushString, stampCell, Function.update_self, and_self]

/-! ## The cells it takes -/

/-- At most `n` message cells are taken from the free ring. -/
def Spends (n : Nat) (s s' : Server) : Prop :=
  s.pFifoDogMsgFree.count ≤ s'.pFifoDogMsgFree.count + n

theorem Spends.mono {n m : Nat} {s s' : Server} (h : Spends n s s') (hnm : n ≤ m) :
    Spends m s s' := Nat.le_trans h (Nat.add_le_add_left hnm _)

theorem Spends.trans {n m : Nat} {s s₁ s₂ : Server} (h : Spends n s s₁) (h' : Spends m s₁ s₂) :
    Spends (n + m) s s₂ := by
  have h1 : s.pFifoDogMsgFree.count ≤ s₁.pFifoDogMsgFree.count + n := h
  have h2 : s₁.pFifoDogMsgFree.count ≤ s₂.pFifoDogMsgFree.count + m := h'
  show s.pFifoDogMsgFree.count ≤ s₂.pFifoDogMsgFree.count + (n + m)
  omega

theorem spends_answer (i : Slot) (str : CStr) (s : Server) : Spends 1 s (s.answer i str).2 := by
  obtain ⟨heq, -⟩ | ⟨s', heq, -, hcount⟩ := answer_spec i str s
  · rw [heq]
    exact Nat.le_add_right _ _
  · rw [heq]
    exact Nat.le_of_eq hcount.symm

theorem spends_SetCapFilter (Handle : Option PcapHandle) (i : Slot) (o : Outcome) (s : Server) :
    Spends 1 s (s.SetCapFilter Handle i o).2 := by
  unfold SetCapFilter
  split
  · exact Nat.le_add_right _ _
  · split
    · exact spends_answer i _ s
    · exact spends_answer i _ s

theorem spends_IoGetSendMsgCell (i : Slot) (s : Server) :
    Spends 1 s (s.IoGetSendMsgCell i).2 := by
  rw [IoGetSendMsgCell]
  cases hpop : FifoPop s.pFifoDogMsgFree with
  | none => exact Nat.le_add_right _ _
  | some r =>
      obtain ⟨c, ring⟩ := r
      show s.pFifoDogMsgFree.count ≤ ring.count + 1
      rw [← FifoRing.length_contents, ← FifoRing.length_contents, (contents_FifoPop hpop).1,
        List.length_cons]

/-- The broadcast takes two cells for each client. -/
theorem spends_broadcastTo (Body : CStr) (l : List Slot) (s : Server) :
    Spends (2 * l.length) s (broadcastTo Body l s) := by
  induction l generalizing s with
  | nil => exact Nat.le_add_right _ _
  | cons i rest ih =>
      have hget := spends_IoGetSendMsgCell i s
      rw [broadcastTo, List.length_cons]
      split
      · next heq =>
          rw [heq] at hget
          exact hget.mono (by omega)
      · next heq =>
          rw [heq] at hget
          have hanswer := spends_answer i Body (s.IoGetSendMsgCell i).2
          rw [heq] at hanswer
          split
          · next heq' =>
              rw [heq'] at hanswer
              exact (hget.trans hanswer).mono (by omega)
          · next heq' =>
              rw [heq'] at hanswer
              exact ((hget.trans hanswer).trans (ih _)).mono (by omega)

theorem SetCapFilter_fst (h : PcapHandle) (i : Slot) (o : Outcome) (s : Server) :
    (s.SetCapFilter (some h) i o).1 = true ↔
      o.pcap_setfilter = 0 ∧ s.pFifoDogMsgFree.contents ≠ [] := by
  unfold SetCapFilter
  dsimp only
  split
  · next hset => rw [answer_fst, and_iff_right hset]
  · next hset =>
      constructor
      · intro h
        cases h
      · intro h
        exact absurd h.1 hset

end Server

end Netflow
