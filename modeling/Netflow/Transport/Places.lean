import Netflow.Transport.Delivered
import Mathlib.Algebra.BigOperators.Group.Finset.Basic
import Mathlib.Algebra.Order.BigOperators.Group.Finset
import Mathlib.Algebra.Order.Group.Multiset
import Mathlib.Data.Fintype.Card
import Mathlib.Tactic.Abel

set_option autoImplicit false

/-! # Where the message cells are

`Pool.places` counts every cell in the two rings, the clients' lists, their current messages and
the hands of the handlers. No step creates a cell: the places after a step are those before it, or
fewer when a handler abandons a cell or a pick-up overwrites a current message. Since no cell is
in two places at the start, none ever is, and a ring that is pushed into has room, because the
pushed cell itself is not in it.
-/

namespace Netflow

open Finset in
/-- A sum over all indices after one value changed. -/
theorem sum_update_add {ι α M : Type} [Fintype ι] [DecidableEq ι] [AddCommMonoid M] (f : α → M)
    (g : ι → α) (i : ι) (v : α) :
    (∑ j, f (Function.update g i v j)) + f (g i) = (∑ j, f (g j)) + f v := by
  rw [← add_sum_erase univ _ (mem_univ i), ← add_sum_erase univ (fun j => f (g j)) (mem_univ i)]
  have hrest : ∑ j ∈ univ.erase i, f (Function.update g i v j) = ∑ j ∈ univ.erase i, f (g j) := by
    refine sum_congr rfl fun j hj => ?_
    rw [Function.update_of_ne (ne_of_mem_erase hj)]
  rw [hrest, Function.update_self]
  abel

namespace Server

/-- The cells in the rings and at the clients. -/
def places (s : Server) : Multiset MsgCell :=
  (s.pFifoDogMsgFree.contents : Multiset MsgCell) + (s.pFifoDogMsg.contents : Multiset MsgCell) +
    ∑ i, (cellsOf (s.ClientInfo i) : Multiset MsgCell)

theorem places_setClient (s : Server) (i : Slot) (f : CLIENTINFO → CLIENTINFO) :
    (s.setClient i f).places + (cellsOf (s.ClientInfo i) : Multiset MsgCell) =
      s.places + (cellsOf (f (s.ClientInfo i)) : Multiset MsgCell) := by
  have hsum := sum_update_add (fun ci => (cellsOf ci : Multiset MsgCell)) s.ClientInfo i
    (f (s.ClientInfo i))
  simp only [places, setClient, add_assoc] at hsum ⊢
  rw [hsum]

/-- Changing a client without touching its cells leaves all places as they were. -/
theorem places_setClient_same (s : Server) (i : Slot) {f : CLIENTINFO → CLIENTINFO}
    (h : cellsOf (f (s.ClientInfo i)) = cellsOf (s.ClientInfo i)) :
    (s.setClient i f).places = s.places := by
  have hplaces := places_setClient s i f
  rw [h] at hplaces
  exact add_right_cancel hplaces

/-- The rings have their length, and every push so far was accepted. -/
structure RingsOk (s : Server) : Prop where
  free_length : s.pFifoDogMsgFree.length = DOG2CATIOMSGNUM
  msg_length : s.pFifoDogMsg.length = DOG2CATIOMSGNUM
  pushed_ok : ∀ r ∈ s.hist.pushed, r = .RET_OK

/-- Fewer cells than the rings are long. -/
theorem card_lt_of_nodup {m : Multiset MsgCell} (h : m.Nodup) :
    Multiset.card m < DOG2CATIOMSGNUM := by
  have hle : (⟨m, h⟩ : Finset MsgCell).card ≤ Fintype.card MsgCell := Finset.card_le_univ _
  rw [Fintype.card_fin] at hle
  have hcard : (⟨m, h⟩ : Finset MsgCell).card = Multiset.card m := rfl
  have hnum : 0 < DOG2CATIOMSGNUM := by decide
  omega

/-- The free ring has room for cells that are elsewhere. -/
theorem free_room {s : Server} {m : Multiset MsgCell} {cs : List MsgCell} (hok : RingsOk s)
    (hle : (s.pFifoDogMsgFree.contents : Multiset MsgCell) + (cs : Multiset MsgCell) ≤ m)
    (hm : m.Nodup) :
    s.pFifoDogMsgFree.count + cs.length < s.pFifoDogMsgFree.length := by
  have hcard := card_lt_of_nodup (Multiset.nodup_of_le hle hm)
  rw [Multiset.card_add, Multiset.coe_card, Multiset.coe_card, FifoRing.length_contents] at hcard
  rw [hok.free_length]
  exact hcard

/-- The message ring has room for a cell that is elsewhere. -/
theorem msg_room {s : Server} {m : Multiset MsgCell} {c : MsgCell} (hok : RingsOk s)
    (hle : (s.pFifoDogMsg.contents : Multiset MsgCell) + {c} ≤ m) (hm : m.Nodup) :
    s.pFifoDogMsg.count + 1 < s.pFifoDogMsg.length := by
  have hcard := card_lt_of_nodup (Multiset.nodup_of_le hle hm)
  rw [Multiset.card_add, Multiset.coe_card, Multiset.card_singleton,
    FifoRing.length_contents] at hcard
  rw [hok.msg_length]
  exact hcard

theorem free_le_places (s : Server) :
    (s.pFifoDogMsgFree.contents : Multiset MsgCell) ≤ s.places := by
  rw [places, add_assoc]
  exact Multiset.le_add_right _ _

theorem msg_le_places (s : Server) :
    (s.pFifoDogMsg.contents : Multiset MsgCell) ≤ s.places := by
  rw [places, add_comm (s.pFifoDogMsgFree.contents : Multiset MsgCell), add_assoc]
  exact Multiset.le_add_right _ _

theorem free_add_cells_le_places (s : Server) (i : Slot) :
    (s.pFifoDogMsgFree.contents : Multiset MsgCell) +
      (cellsOf (s.ClientInfo i) : Multiset MsgCell) ≤ s.places := by
  rw [places, add_assoc]
  refine add_le_add_right (le_trans ?_ (le_add_of_nonneg_left (Multiset.zero_le _))) _
  exact Finset.single_le_sum (f := fun i => (cellsOf (s.ClientInfo i) : Multiset MsgCell))
    (fun j _ => Multiset.zero_le _) (Finset.mem_univ i)

/-! ## The blocks, one by one -/

theorem places_IoGetSendMsgCell (s : Server) (i : Slot) (hok : RingsOk s) :
    RingsOk (s.IoGetSendMsgCell i).2 ∧
      (s.IoGetSendMsgCell i).2.places + ((s.IoGetSendMsgCell i).1.toList : Multiset MsgCell) =
        s.places := by
  rw [IoGetSendMsgCell]
  cases hpop : FifoPop s.pFifoDogMsgFree with
  | none => exact ⟨hok, add_zero _⟩
  | some r =>
      obtain ⟨c, ring⟩ := r
      obtain ⟨hcontents, hlen⟩ := contents_FifoPop hpop
      refine ⟨⟨hlen.trans hok.free_length, hok.msg_length, hok.pushed_ok⟩, ?_⟩
      simp only [places, stampCell, hcontents, Option.toList_some, Multiset.coe_singleton]
      rw [← Multiset.cons_coe, ← Multiset.singleton_add]
      abel

/-- Putting a cell that is nowhere else moves it into the message ring. -/
theorem places_IoPutSendMsgCell {s : Server} {c : MsgCell} (hok : RingsOk s)
    (hnodup : (s.places + {c}).Nodup) :
    RingsOk (s.IoPutSendMsgCell c) ∧ (s.IoPutSendMsgCell c).places = s.places + {c} := by
  have hroom := msg_room hok (add_le_add_left (msg_le_places s) {c}) hnodup
  obtain ⟨h1, h2, h3⟩ := FifoPush_of_room c hroom
  refine ⟨⟨hok.free_length, h3.trans hok.msg_length, ?_⟩, ?_⟩
  · intro r hr
    rcases List.mem_append.mp hr with hr | hr
    · exact hok.pushed_ok r hr
    · rw [List.mem_singleton.mp hr]
      exact h1
  · show (s.pFifoDogMsgFree.contents : Multiset MsgCell) +
        ((FifoPush s.pFifoDogMsg c).2.contents : Multiset MsgCell) +
        (∑ i, (cellsOf (s.ClientInfo i) : Multiset MsgCell)) = s.places + {c}
    rw [h2, ← Multiset.coe_add, Multiset.coe_singleton, places]
    abel

/-- Freeing cells that are nowhere else moves them into the free ring. -/
theorem places_withFree {s : Server} {cs : List MsgCell} {ring : FifoRing MsgCell}
    {pushed : List Ret} (hok : RingsOk s) (hfreed : Freed s cs ring pushed)
    (hroom : s.pFifoDogMsgFree.count + cs.length < s.pFifoDogMsgFree.length) :
    RingsOk (s.withFree ring pushed) ∧
      (s.withFree ring pushed).places = s.places + (cs : Multiset MsgCell) := by
  refine ⟨⟨hfreed.length_eq.trans hok.free_length, hok.msg_length,
    hfreed.pushed_ok hroom hok.pushed_ok⟩, ?_⟩
  show (ring.contents : Multiset MsgCell) + _ + _ = _
  rw [hfreed.contents_eq hroom, ← Multiset.coe_add, places]
  simp only [withFree]
  abel

/-- A turn of the drain moves a cell from the message ring to the free ring or to a list. -/
theorem places_popDogMsg {s s' : Server} (hok : RingsOk s) (hnodup : s.places.Nodup)
    (h : s.popDogMsg = some s') : RingsOk s' ∧ s'.places = s.places := by
  rw [popDogMsg] at h
  cases hpop : FifoPop s.pFifoDogMsg with
  | none => simp [hpop] at h
  | some r =>
      obtain ⟨c, ring⟩ := r
      obtain ⟨hcontents, hlen⟩ := contents_FifoPop hpop
      simp only [hpop] at h
      set s1 : Server := { s with pFifoDogMsg := ring } with hs1
      have hok1 : RingsOk s1 := ⟨hok.free_length, hlen.trans hok.msg_length, hok.pushed_ok⟩
      -- the popped cell is in none of the places for a moment
      have hplaces : s1.places + {c} = s.places := by
        simp only [places, hs1, hcontents]
        rw [← Multiset.cons_coe, ← Multiset.singleton_add]
        abel
      split at h
      · cases h
        obtain ⟨ring', pushed, hpush, hfreed⟩ := pushFree_spec s1 c
        -- the free ring and this cell are part of the places, so the push finds room
        have hle : (s1.pFifoDogMsgFree.contents : Multiset MsgCell) +
            (([c] : List MsgCell) : Multiset MsgCell) ≤ s.places := by
          rw [← hplaces]
          exact add_le_add_left (free_le_places s1) _
        have hroom := free_room hok1 hle hnodup
        obtain ⟨hok2, hplaces2⟩ := places_withFree hok1 hfreed hroom
        rw [hpush]
        exact ⟨hok2, hplaces2.trans hplaces⟩
      · cases h
        refine ⟨⟨hok1.free_length, hok1.msg_length, hok1.pushed_ok⟩, ?_⟩
        have hset := places_setClient s1 (s.cells c).pClientInfo
          (fun ci => { ci with ListSendMsg := ci.ListSendMsg ++ [c] })
        rw [← hplaces]
        refine add_right_cancel (b := (cellsOf (s1.ClientInfo (s.cells c).pClientInfo) :
          Multiset MsgCell)) (hset.trans ?_)
        rw [add_assoc, add_right_inj]
        simp only [cellsOf, ← Multiset.coe_add, Multiset.coe_singleton]
        abel

/-- A pick-up moves the first cell of the list to the current message; the cell that was current
before, if any, is overwritten. -/
theorem places_pickUp (s : Server) (i : Slot) (hok : RingsOk s) :
    RingsOk (s.pickUp i) ∧
      ((s.ClientInfo i).pCurSendMsg = none → (s.pickUp i).places = s.places) ∧
      (s.pickUp i).places ≤ s.places := by
  rw [pickUp]
  cases hlist : (s.ClientInfo i).ListSendMsg with
  | nil => exact ⟨hok, fun _ => rfl, le_refl _⟩
  | cons c rest =>
      refine ⟨⟨hok.free_length, hok.msg_length, hok.pushed_ok⟩, ?_⟩
      have hadd : (s.setClient i (withCurrent c (s.cells c).hStream rest)).places +
          ((s.ClientInfo i).pCurSendMsg.toList : Multiset MsgCell) = s.places := by
        refine add_right_cancel (b := (rest : Multiset MsgCell) + {c}) ?_
        have hset := places_setClient s i (withCurrent c (s.cells c).hStream rest)
        simp only [cellsOf, withCurrent, Option.toList_some, ← Multiset.coe_add,
          Multiset.coe_singleton] at hset
        rw [hlist, ← Multiset.cons_coe, ← Multiset.singleton_add] at hset
        rw [← hset]
        abel
      show ((s.ClientInfo i).pCurSendMsg = none →
          (s.setClient i (withCurrent c (s.cells c).hStream rest)).places = s.places) ∧
        (s.setClient i (withCurrent c (s.cells c).hStream rest)).places ≤ s.places
      constructor
      · intro hnone
        rw [hnone, Option.toList_none, Multiset.coe_nil, add_zero] at hadd
        exact hadd
      · rw [← hadd]
        exact Multiset.le_add_right _ _

/-- Recycling a slot moves all its cells to the free ring. -/
theorem places_recycle {s : Server} (i : Slot) (hok : RingsOk s) (hnodup : s.places.Nodup) :
    RingsOk (s.recycle i) ∧ (s.recycle i).places = s.places := by
  obtain ⟨ring, pushed, hfreed, heq⟩ := recycle_spec i s
  have hroom := free_room hok (free_add_cells_le_places s i) hnodup
  obtain ⟨hok', hplaces⟩ := places_withFree hok hfreed hroom
  rw [heq]
  refine ⟨⟨hok'.free_length, hok'.msg_length, hok'.pushed_ok⟩, ?_⟩
  have hset := places_setClient (s.withFree ring pushed) i recycled
  have hempty : cellsOf (recycled ((s.withFree ring pushed).ClientInfo i)) = [] := rfl
  rw [hempty, hplaces, Multiset.coe_nil, add_zero] at hset
  exact add_right_cancel hset

/-- The send pump frees the cell of a completed message and keeps all others, but for a current
message that the pick-up of the next one overwrites. -/
theorem places_sendPump {s : Server} (i : Slot) (sn : Nat) (hok : RingsOk s)
    (hnodup : s.places.Nodup) :
    RingsOk (s.sendPump i sn) ∧ (s.sendPump i sn).places = s.places := by
  by_cases hlt : sn < (s.ClientInfo i).iCurSendLen
  · rw [sendPump_of_lt hlt]
    refine ⟨⟨hok.free_length, hok.msg_length, hok.pushed_ok⟩, ?_⟩
    exact places_setClient_same _ i rfl
  · obtain ⟨ring, pushed, hfreed, heq⟩ := sendPump_of_le (Nat.le_of_not_lt hlt)
    -- the cell of the sent message is no free one
    have hle : (s.pFifoDogMsgFree.contents : Multiset MsgCell) +
        ((s.ClientInfo i).pCurSendMsg.toList : Multiset MsgCell) ≤ s.places := by
      refine le_trans (add_le_add_right ?_ _) (free_add_cells_le_places s i)
      rw [cellsOf, ← Multiset.coe_add]
      exact le_add_of_nonneg_left (Multiset.zero_le _)
    have hroom := free_room hok hle hnodup
    obtain ⟨hok', hplaces⟩ := places_withFree hok hfreed hroom
    set base := ((s.withFree ring pushed).logSent i (s.bytesToSend i sn)).setClient i fun ci =>
      { ci with iCurSendLen := 0, pCurSendMsg := none } with hbase
    have hokb : RingsOk base := ⟨hok'.free_length, hok'.msg_length, hok'.pushed_ok⟩
    have hplacesb : base.places = s.places := by
      have hset := places_setClient ((s.withFree ring pushed).logSent i (s.bytesToSend i sn)) i
        (fun ci => { ci with iCurSendLen := 0, pCurSendMsg := none })
      have hlog : ((s.withFree ring pushed).logSent i (s.bytesToSend i sn)).places =
          (s.withFree ring pushed).places := rfl
      rw [hlog, hplaces] at hset
      simp only [cellsOf, Option.toList_none, List.append_nil, ← Multiset.coe_add] at hset
      refine add_right_cancel (b := ((s.ClientInfo i).ListSendMsg : Multiset MsgCell) +
        ((s.ClientInfo i).pCurSendMsg.toList : Multiset MsgCell)) (hset.trans ?_)
      simp only [logSent, withFree]
      abel
    rw [heq]
    -- no message is current now, so the pick-up overwrites nothing
    have hnone : (base.ClientInfo i).pCurSendMsg = none := by
      rw [hbase, setClient_ClientInfo_self]
    split
    · obtain ⟨hok2, hsame, -⟩ := places_pickUp base i hokb
      exact ⟨hok2, (hsame hnone).trans hplacesb⟩
    · split
      · refine ⟨⟨hokb.free_length, hokb.msg_length, hokb.pushed_ok⟩, ?_⟩
        rw [CLIENTTOEND, places_setClient_same]
        · exact hplacesb
        · rfl
      · exact ⟨hokb, hplacesb⟩

theorem places_acceptClient (s : Server) (sd : Nat) (hok : RingsOk s) :
    RingsOk (s.acceptClient sd) ∧ (s.acceptClient sd).places = s.places := by
  rw [acceptClient]
  cases hfree : s.FreeClientList with
  | nil => exact ⟨hok, rfl⟩
  | cons i rest =>
      refine ⟨⟨hok.free_length, hok.msg_length, hok.pushed_ok⟩, ?_⟩
      have hsame : cellsOf (connected sd ((s.iSessionID + 1) % 4294967296) (s.ClientInfo i)) =
          cellsOf (s.ClientInfo i) := rfl
      exact places_setClient_same s i hsame

theorem places_firstPass (s : Server) (i : Slot) (hok : RingsOk s) :
    RingsOk (s.firstPass i) ∧ (s.firstPass i).places ≤ s.places := by
  simp only [firstPass]
  split
  · exact ⟨hok, le_refl _⟩
  · split
    · exact ⟨hok, le_refl _⟩
    · obtain ⟨hok', -, hle⟩ := places_pickUp s i hok
      exact ⟨hok', hle⟩

end Server

/-! ## The invariant over a run -/

/-- All places of the message cells, the hands of the handlers included. -/
def Pool.places (p : Pool) : Multiset MsgCell := p.srv.places + (p.held : Multiset MsgCell)

/-- No cell is in two places, and every push so far was accepted. -/
structure Placed (p : Pool) : Prop where
  rings : Server.RingsOk p.srv
  nodup : p.places.Nodup

/-- A pool whose free ring was filled with different cells. -/
theorem placed_initialServer (align : MsgCell → Nat) {filled : FifoRing MsgCell × List Ret}
    (hlen : filled.1.length = DOG2CATIOMSGNUM) (hnodup : filled.1.contents.Nodup)
    (hok : ∀ r ∈ filled.2, r = .RET_OK) :
    Placed { srv := initialServer align filled, held := [] } := by
  refine ⟨⟨hlen, rfl, hok⟩, ?_⟩
  have hslots : ∑ i : Slot, (Server.cellsOf ((initialServer align filled).ClientInfo i) :
      Multiset MsgCell) = 0 := Finset.sum_eq_zero fun i _ => rfl
  show ((filled.1.contents : Multiset MsgCell) +
    ((newRing : FifoRing MsgCell).contents : Multiset MsgCell) + _ +
    (([] : List MsgCell) : Multiset MsgCell)).Nodup
  rw [contents_newRing, hslots]
  simpa using hnodup

theorem nodup_fillFree :
    (fillFree (DOG2CATIOMSGNUM - 1) (Nat.le_refl _)).1.contents.Nodup := by
  refine List.Nodup.of_map Fin.val ?_
  rw [(fillFree_spec _ _).2.1]
  exact List.nodup_range

theorem placed_init (align : MsgCell → Nat) : Placed (transportInit align) :=
  placed_initialServer align (fillFree_spec _ _).1 nodup_fillFree (fillFree_spec _ _).2.2

theorem placed_step {p p' : Pool} {a : TransportAction} (h : Placed p)
    (hs : transportStep p a = some p') : Placed p' := by
  have hsrv : p.srv.places.Nodup :=
    Multiset.nodup_of_le (Multiset.le_add_right _ _) h.nodup
  cases transportStep_eq_some hs with
  | get i =>
      obtain ⟨hok, hplaces⟩ := Server.places_IoGetSendMsgCell p.srv i h.rings
      refine ⟨hok, ?_⟩
      show (_ + (((p.srv.IoGetSendMsgCell i).1.toList ++ p.held : List MsgCell) :
        Multiset MsgCell)).Nodup
      rw [← Multiset.coe_add, ← add_assoc, hplaces]
      exact h.nodup
  | put c str hc =>
      have hheld : ((p.held.erase c : List MsgCell) : Multiset MsgCell) + {c} = p.held := by
        rw [add_comm, Multiset.singleton_add, Multiset.cons_coe]
        exact Multiset.coe_eq_coe.mpr (List.perm_cons_erase hc).symm
      -- the cell leaves the hands of its handler for the message ring
      have hnodup : ((p.srv.places + {c}) + ((p.held.erase c : List MsgCell) :
          Multiset MsgCell)).Nodup := by
        rw [add_assoc, add_comm ({c} : Multiset MsgCell), hheld]
        exact h.nodup
      obtain ⟨hok, hplaces⟩ := Server.places_IoPutSendMsgCell
        (s := p.srv.pushString c str.text) ⟨h.rings.free_length, h.rings.msg_length,
          h.rings.pushed_ok⟩ (Multiset.nodup_of_le (Multiset.le_add_right _ _) hnodup)
      refine ⟨hok, ?_⟩
      show (_ + _ : Multiset MsgCell).Nodup
      rw [hplaces]
      exact hnodup
  | abandon c _ =>
      refine ⟨h.rings, Multiset.nodup_of_le ?_ h.nodup⟩
      exact add_le_add_right (Multiset.coe_le.mpr (List.erase_sublist.subperm)) _
  | drain hpop =>
      obtain ⟨hok, hplaces⟩ := Server.places_popDogMsg h.rings hsrv hpop
      refine ⟨hok, ?_⟩
      show (_ + _ : Multiset MsgCell).Nodup
      rw [hplaces]
      exact h.nodup
  | pickUp i _ _ =>
      obtain ⟨hok, hle⟩ := Server.places_firstPass p.srv i h.rings
      exact ⟨hok, Multiset.nodup_of_le (add_le_add_left hle _) h.nodup⟩
  | send i sn _ _ _ =>
      obtain ⟨hok, hplaces⟩ := Server.places_sendPump i sn h.rings hsrv
      refine ⟨hok, ?_⟩
      show (_ + _ : Multiset MsgCell).Nodup
      rw [hplaces]
      exact h.nodup
  | toEnd i _ =>
      refine ⟨⟨h.rings.free_length, h.rings.msg_length, h.rings.pushed_ok⟩, ?_⟩
      show (_ + _ : Multiset MsgCell).Nodup
      rw [Server.CLIENTTOEND, Server.places_setClient_same p.srv i rfl]
      exact h.nodup
  | ioClosed i =>
      refine ⟨⟨h.rings.free_length, h.rings.msg_length, h.rings.pushed_ok⟩, ?_⟩
      show (_ + _ : Multiset MsgCell).Nodup
      rw [Server.ioClosed, Server.places_setClient_same p.srv i rfl]
      exact h.nodup
  | recycle i _ _ =>
      obtain ⟨hok, hplaces⟩ := Server.places_recycle i h.rings hsrv
      refine ⟨hok, ?_⟩
      show (_ + _ : Multiset MsgCell).Nodup
      rw [hplaces]
      exact h.nodup
  | accept sd =>
      obtain ⟨hok, hplaces⟩ := Server.places_acceptClient p.srv sd h.rings
      refine ⟨hok, ?_⟩
      show (_ + _ : Multiset MsgCell).Nodup
      rw [hplaces]
      exact h.nodup
  | allocator answer =>
      exact ⟨⟨h.rings.free_length, h.rings.msg_length, h.rings.pushed_ok⟩, h.nodup⟩

theorem placed_reach {align : MsgCell → Nat} {C : Pool → TransportAction → Prop} {p : Pool}
    (h : Reach transportStep C (transportInit align) p) : Placed p :=
  h.invariant (placed_init align) fun _ _ _ hp _ hs => placed_step hp hs

theorem Pool.count_places (p : Pool) (c : MsgCell) :
    p.places.count c = p.srv.pFifoDogMsgFree.contents.count c + p.srv.pFifoDogMsg.contents.count c +
      (∑ i, (Server.cellsOf (p.srv.ClientInfo i)).count c) + p.held.count c := by
  simp only [Pool.places, Server.places, Multiset.count_add, Multiset.count_sum',
    Multiset.coe_count]

/-- A cell is in one of the rings, in one of the lists or held, and there once. -/
theorem Placed.count_le {p : Pool} (h : Placed p) (c : MsgCell) (i : Slot) :
    p.srv.pFifoDogMsgFree.contents.count c + p.srv.pFifoDogMsg.contents.count c +
      (Server.cellsOf (p.srv.ClientInfo i)).count c + p.held.count c ≤ 1 := by
  have hcount := Multiset.nodup_iff_count_le_one.mp h.nodup c
  rw [Pool.count_places] at hcount
  have hle := Finset.single_le_sum
    (f := fun i => (Server.cellsOf (p.srv.ClientInfo i)).count c)
    (fun j _ => Nat.zero_le _) (Finset.mem_univ i)
  omega

/-- A cell of the free ring is nowhere else. -/
theorem Placed.free_apart {p : Pool} (h : Placed p) {c : MsgCell}
    (hc : c ∈ p.srv.pFifoDogMsgFree.contents) :
    c ∉ p.srv.pFifoDogMsg.contents ∧ (∀ i, c ∉ Server.cellsOf (p.srv.ClientInfo i)) ∧
      c ∉ p.held := by
  have hfree := List.count_pos_iff.mpr hc
  have hcount := h.count_le c
  refine ⟨List.count_eq_zero.mp ?_, fun i => List.count_eq_zero.mp ?_, List.count_eq_zero.mp ?_⟩
  · have h0 := hcount 0
    omega
  · have hi := hcount i
    omega
  · have h0 := hcount 0
    omega

/-- A held cell is nowhere else, and held once. -/
theorem Placed.held_apart {p : Pool} (h : Placed p) {c : MsgCell} (hc : c ∈ p.held) :
    c ∉ p.srv.pFifoDogMsg.contents ∧ (∀ i, c ∉ Server.cellsOf (p.srv.ClientInfo i)) ∧
      c ∉ p.held.erase c := by
  have hheld := List.count_pos_iff.mpr hc
  have hcount := h.count_le c
  refine ⟨List.count_eq_zero.mp ?_, fun i => List.count_eq_zero.mp ?_, List.count_eq_zero.mp ?_⟩
  · have h0 := hcount 0
    omega
  · have hi := hcount i
    omega
  · have h0 := hcount 0
    rw [List.count_erase_self]
    omega

/-- The message ring has room for a held cell. -/
theorem Placed.msg_room_held {p : Pool} (h : Placed p) {c : MsgCell} (hc : c ∈ p.held) :
    p.srv.pFifoDogMsg.count + 1 < p.srv.pFifoDogMsg.length := by
  refine Server.msg_room (m := p.places) (c := c) h.rings ?_ h.nodup
  exact add_le_add (Server.msg_le_places p.srv) (Multiset.singleton_le.mpr hc)

/-- The free ring has room for a cell of the message ring. -/
theorem Placed.free_room_ring {p : Pool} (h : Placed p) {c : MsgCell}
    (hc : c ∈ p.srv.pFifoDogMsg.contents) :
    p.srv.pFifoDogMsgFree.count + 1 < p.srv.pFifoDogMsgFree.length := by
  have hle : (p.srv.pFifoDogMsgFree.contents : Multiset MsgCell) +
      (([c] : List MsgCell) : Multiset MsgCell) ≤ p.places := by
    refine le_trans ?_ (Multiset.le_add_right _ _)
    rw [Server.places]
    refine le_trans ?_ (Multiset.le_add_right _ _)
    exact add_le_add (le_refl _) (Multiset.singleton_le.mpr hc)
  exact Server.free_room h.rings hle h.nodup

/-- The free ring has room for the cells of a slot. -/
theorem Placed.free_room_slot {p : Pool} (h : Placed p) (i : Slot) :
    p.srv.pFifoDogMsgFree.count + (Server.cellsOf (p.srv.ClientInfo i)).length <
      p.srv.pFifoDogMsgFree.length := by
  refine Server.free_room (m := p.places) h.rings ?_ h.nodup
  exact le_trans (Server.free_add_cells_le_places p.srv i) (Multiset.le_add_right _ _)

/-- In every run each cell is in at most one place, and no `FIFOPUSH` is refused. -/
theorem cell_in_one_place {align : MsgCell → Nat} {p : Pool}
    (h : Reach transportStep AnyStep (transportInit align) p) :
    (∀ c, p.places.count c ≤ 1) ∧ ∀ r ∈ p.srv.hist.pushed, r = .RET_OK := by
  have hp := placed_reach h
  constructor
  · intro c
    exact Multiset.nodup_iff_count_le_one.mp hp.nodup c
  · exact hp.rings.pushed_ok

/-- A cell that was obtained, put, drained, picked up and given back: two pushes since the start. -/
theorem cell_in_one_place_hello : ∃ p : Pool, p.srv.hist.sent = [(1, hello.text.chars)] ∧
    p.srv.hist.pushed.length = (transportInit fun _ => 0).srv.hist.pushed.length + 2 ∧
    (∀ c, p.places.count c ≤ 1) ∧ ∀ r ∈ p.srv.hist.pushed, r = .RET_OK := by
  obtain ⟨p, q, c, hcell, hpushed, hdelivered, hreach⟩ := hello_delivered (C := AnyStep) trivial
    (fun _ => trivial) (fun _ _ _ => trivial) fun _ _ _ => trivial
  refine ⟨p, ?_, ?_, cell_in_one_place hreach⟩
  · rw [hdelivered.sent, hcell.sent, hcell.conn, List.nil_append]
  · rw [hdelivered.pushed, hpushed]

end Netflow
