import Netflow.Lib.Transition
import Netflow.Server.Net

set_option autoImplicit false

/-! # The transport of messages, step by step

Handlers in the IO thread and in the capture threads obtain message cells and put them; the receive
thread drains, picks up, sends, recycles and accepts. `transportStep` makes each of these blocks
one atomic step, so that a run of it is any interleaving of the threads at that grain. A cell
between `IoGetSendMsgCell` and `IoPutSendMsgCell` is held by the handler that obtained it; a handler
that returns early abandons it.
-/

namespace Netflow

/-- The server and the cells that handlers hold. -/
structure Pool where
  srv : Server
  held : List MsgCell

/-- A text a handler pushes into a cell. -/
structure MsgText where
  text : CStr
  fits : text.chars.length ≤ MESSAGE_MAX

/-- The atomic steps. `accept` carries the descriptor, `send` how many bytes the socket accepted,
and `allocator` changes what the next `realloc` will return for each cell. -/
inductive TransportAction where
  | get (i : Slot)
  | put (c : MsgCell) (str : MsgText)
  | abandon (c : MsgCell)
  | drain
  | pickUp (i : Slot)
  | send (i : Slot) (sn : Nat)
  | toEnd (i : Slot)
  | ioClosed (i : Slot)
  | recycle (i : Slot)
  | accept (sd : Nat)
  | allocator (answer : MsgCell → Answer)

/-- A step of the transport. The IO thread may store `STATUS_IOCLOSEED` at any moment and for any
slot; the receive thread works on the clients of `WorkClientList`. -/
def transportStep (p : Pool) : TransportAction → Option Pool
  | .get i =>
      let r := p.srv.IoGetSendMsgCell i
      some { srv := r.2, held := r.1.toList ++ p.held }
  | .put c str =>
      if c ∈ p.held then
        some { srv := (p.srv.pushString c str.text).IoPutSendMsgCell c, held := p.held.erase c }
      else none
  | .abandon c => if c ∈ p.held then some { p with held := p.held.erase c } else none
  | .drain => p.srv.popDogMsg.map fun s => { p with srv := s }
  | .pickUp i =>
      if i ∈ p.srv.WorkClientList ∧ (p.srv.ClientInfo i).lStatus ≠ .STATUS_IOCLOSEED then
        some { p with srv := p.srv.firstPass i }
      else none
  | .send i sn =>
      if i ∈ p.srv.WorkClientList ∧ 0 < sn ∧ sn ≤ (p.srv.ClientInfo i).iCurSendLen then
        some { p with srv := p.srv.sendPump i sn }
      else none
  | .toEnd i =>
      if i ∈ p.srv.WorkClientList then some { p with srv := p.srv.CLIENTTOEND i } else none
  | .ioClosed i => some { p with srv := p.srv.ioClosed i }
  | .recycle i =>
      if i ∈ p.srv.WorkClientList ∧ (p.srv.ClientInfo i).lStatus = .STATUS_IOCLOSEED then
        some { p with srv := p.srv.recycle i }
      else none
  | .accept sd => some { p with srv := p.srv.acceptClient sd }
  | .allocator answer => some { p with srv := { p.srv with heap := answer } }

/-- What each action does to the pool, with what its step asks for. -/
inductive Transported (p : Pool) : TransportAction → Pool → Prop where
  | get (i : Slot) : Transported p (.get i)
      { srv := (p.srv.IoGetSendMsgCell i).2, held := (p.srv.IoGetSendMsgCell i).1.toList ++ p.held }
  | put (c : MsgCell) (str : MsgText) : c ∈ p.held → Transported p (.put c str)
      { srv := (p.srv.pushString c str.text).IoPutSendMsgCell c, held := p.held.erase c }
  | abandon (c : MsgCell) : c ∈ p.held →
      Transported p (.abandon c) { p with held := p.held.erase c }
  | drain {s : Server} : p.srv.popDogMsg = some s → Transported p .drain { p with srv := s }
  | pickUp (i : Slot) : i ∈ p.srv.WorkClientList →
      (p.srv.ClientInfo i).lStatus ≠ .STATUS_IOCLOSEED →
      Transported p (.pickUp i) { p with srv := p.srv.firstPass i }
  | send (i : Slot) (sn : Nat) : i ∈ p.srv.WorkClientList → 0 < sn →
      sn ≤ (p.srv.ClientInfo i).iCurSendLen →
      Transported p (.send i sn) { p with srv := p.srv.sendPump i sn }
  | toEnd (i : Slot) : i ∈ p.srv.WorkClientList →
      Transported p (.toEnd i) { p with srv := p.srv.CLIENTTOEND i }
  | ioClosed (i : Slot) : Transported p (.ioClosed i) { p with srv := p.srv.ioClosed i }
  | recycle (i : Slot) : i ∈ p.srv.WorkClientList →
      (p.srv.ClientInfo i).lStatus = .STATUS_IOCLOSEED →
      Transported p (.recycle i) { p with srv := p.srv.recycle i }
  | accept (sd : Nat) : Transported p (.accept sd) { p with srv := p.srv.acceptClient sd }
  | allocator (answer : MsgCell → Answer) :
      Transported p (.allocator answer) { p with srv := { p.srv with heap := answer } }

/-- The transport after `InitServer`. -/
def transportInit (align : MsgCell → Nat) : Pool where
  srv := InitServer align
  held := []

/-! ## The steps -/

theorem transportStep_eq_some {p p' : Pool} {a : TransportAction} (h : transportStep p a = some p') :
    Transported p a p' := by
  cases a with
  | get i =>
      cases h
      exact .get i
  | put c str =>
      simp only [transportStep, Option.ite_none_right_eq_some] at h
      obtain ⟨hc, ⟨⟩⟩ := h
      exact .put c str hc
  | abandon c =>
      simp only [transportStep, Option.ite_none_right_eq_some] at h
      obtain ⟨hc, ⟨⟩⟩ := h
      exact .abandon c hc
  | drain =>
      simp only [transportStep, Option.map_eq_some_iff] at h
      obtain ⟨s, hpop, rfl⟩ := h
      exact .drain hpop
  | pickUp i =>
      simp only [transportStep, Option.ite_none_right_eq_some] at h
      obtain ⟨⟨hi, hopen⟩, ⟨⟩⟩ := h
      exact .pickUp i hi hopen
  | send i sn =>
      simp only [transportStep, Option.ite_none_right_eq_some] at h
      obtain ⟨⟨hi, hpos, hle⟩, ⟨⟩⟩ := h
      exact .send i sn hi hpos hle
  | toEnd i =>
      simp only [transportStep, Option.ite_none_right_eq_some] at h
      obtain ⟨hi, ⟨⟩⟩ := h
      exact .toEnd i hi
  | ioClosed i =>
      cases h
      exact .ioClosed i
  | recycle i =>
      simp only [transportStep, Option.ite_none_right_eq_some] at h
      obtain ⟨⟨hi, hclosed⟩, ⟨⟩⟩ := h
      exact .recycle i hi hclosed
  | accept sd =>
      cases h
      exact .accept sd
  | allocator answer =>
      cases h
      exact .allocator answer

/-- The receive thread drains the queue in one go. -/
theorem transportStep_drains (p : Pool) :
    Reach transportStep (fun _ a => a = .drain) p { p with srv := p.srv.POP_DOGMSG_2LISTTAIL } :=
  (Server.reach_POP_DOGMSG_2LISTTAIL (fun s => { p with srv := s }) (fun _ => rfl) p.srv).1

theorem transportStep_recycle {p : Pool} {i : Slot} (hi : i ∈ p.srv.WorkClientList)
    (hclosed : (p.srv.ClientInfo i).lStatus = .STATUS_IOCLOSEED) :
    transportStep p (.recycle i) = some { p with srv := p.srv.recycle i } :=
  if_pos ⟨hi, hclosed⟩

theorem transportStep_send {p : Pool} {i : Slot} {sn : Nat} (hi : i ∈ p.srv.WorkClientList)
    (hpos : 0 < sn) (hle : sn ≤ (p.srv.ClientInfo i).iCurSendLen) :
    transportStep p (.send i sn) = some { p with srv := p.srv.sendPump i sn } :=
  if_pos ⟨hi, hpos, hle⟩

end Netflow
