import Netflow.Lib.Transition
import Netflow.Server.Io

set_option autoImplicit false

/-! # Runs of the server

The steps of `serverStep` are whole operations: the IO thread handles one stanza or one shutdown
text, a capture thread sends one packet, and the receive thread accepts, drains one message, picks
one up, sends, or recycles one slot. A run is any sequence of them. `requestOf` reads off a stanza
what it asks for, by the tests of the code.
-/

namespace Netflow

open Iksemel

/-- The operations. `stanza` carries what the parser reported for a client and `shutdown` is the
shutdown text, both with the answers from outside; `packet` is a call of `SendTcp2Cats` in a
capture thread, and `loopReturns` the end of such a thread. -/
inductive ServerAction (ι : Type) where
  | accept (sd : Nat)
  | stanza (i : Slot) (type : IksNodeType) (node : ι) (o : Outcome)
  | shutdown (i : Slot) (o : Outcome)
  | packet (t : Capture) (p : Packet)
  | loopReturns (t : Capture)
  | drain
  | pickUp (i : Slot)
  | send (i : Slot) (sn : Nat)
  | toEnd (i : Slot)
  | recycle (i : Slot)
  | allocator (answer : MsgCell → Answer)

section Steps

variable {ι : Type} [Iksemel ι]

/-- One operation. A stanza is handled for a connected client that has its parser, a shutdown text
also after the parser is gone; the receive thread works on the clients of `WorkClientList`. -/
def serverStep (s : Server) : ServerAction ι → Option Server
  | .accept sd => some (s.acceptClient sd)
  | .stanza i type node o =>
      if i ∈ s.WorkClientList ∧ (s.ClientInfo i).Prs = true ∧
          (s.ClientInfo i).lStatus ≠ .STATUS_IOCMDCLOSE then
        s.IOProcessCatMsg i type node o
      else none
  | .shutdown i o =>
      if i ∈ s.WorkClientList ∧ (s.ClientInfo i).lStatus ≠ .STATUS_IOCMDCLOSE then
        s.shutdown i o
      else none
  | .packet t p => if t ∈ s.threads then (s.SendTcp2Cats p t.pClientInfo).map Prod.snd else none
  | .loopReturns t => if t ∈ s.threads then some { s with threads := s.threads.erase t } else none
  | .drain => s.popDogMsg
  | .pickUp i =>
      if i ∈ s.WorkClientList ∧ (s.ClientInfo i).lStatus ≠ .STATUS_IOCLOSEED then
        some (s.firstPass i)
      else none
  | .send i sn =>
      if i ∈ s.WorkClientList ∧ 0 < sn ∧ sn ≤ (s.ClientInfo i).iCurSendLen then
        some (s.sendPump i sn)
      else none
  | .toEnd i => if i ∈ s.WorkClientList then some (s.CLIENTTOEND i) else none
  | .recycle i =>
      if i ∈ s.WorkClientList ∧ (s.ClientInfo i).lStatus = .STATUS_IOCLOSEED then
        some (s.recycle i)
      else none
  | .allocator answer => some { s with heap := answer }

/-- What each operation does, with what it asks for. -/
inductive Operated (s : Server) : ServerAction ι → Server → Prop where
  | accept (sd : Nat) : Operated s (.accept sd) (s.acceptClient sd)
  | stanza {s' : Server} (i : Slot) (type : IksNodeType) (node : ι) (o : Outcome) :
      i ∈ s.WorkClientList → (s.ClientInfo i).Prs = true →
      (s.ClientInfo i).lStatus ≠ .STATUS_IOCMDCLOSE →
      s.IOProcessCatMsg i type node o = some s' → Operated s (.stanza i type node o) s'
  | shutdown {s' : Server} (i : Slot) (o : Outcome) : i ∈ s.WorkClientList →
      (s.ClientInfo i).lStatus ≠ .STATUS_IOCMDCLOSE → s.shutdown i o = some s' →
      Operated s (.shutdown i o) s'
  | packet {b : Bool} {s' : Server} (t : Capture) (p : Packet) : t ∈ s.threads →
      s.SendTcp2Cats p t.pClientInfo = some (b, s') → Operated s (.packet t p) s'
  | loopReturns (t : Capture) : t ∈ s.threads →
      Operated s (.loopReturns t) { s with threads := s.threads.erase t }
  | drain {s' : Server} : s.popDogMsg = some s' → Operated s .drain s'
  | pickUp (i : Slot) : i ∈ s.WorkClientList → (s.ClientInfo i).lStatus ≠ .STATUS_IOCLOSEED →
      Operated s (.pickUp i) (s.firstPass i)
  | send (i : Slot) (sn : Nat) : i ∈ s.WorkClientList → 0 < sn →
      sn ≤ (s.ClientInfo i).iCurSendLen → Operated s (.send i sn) (s.sendPump i sn)
  | toEnd (i : Slot) : i ∈ s.WorkClientList → Operated s (.toEnd i) (s.CLIENTTOEND i)
  | recycle (i : Slot) : i ∈ s.WorkClientList → (s.ClientInfo i).lStatus = .STATUS_IOCLOSEED →
      Operated s (.recycle i) (s.recycle i)
  | allocator (answer : MsgCell → Answer) : Operated s (.allocator answer) { s with heap := answer }

theorem serverStep_eq_some {s s' : Server} {a : ServerAction ι} (h : serverStep s a = some s') :
    Operated s a s' := by
  cases a with
  | accept sd =>
      cases h
      exact .accept sd
  | stanza i type node o =>
      simp only [serverStep, Option.ite_none_right_eq_some] at h
      obtain ⟨⟨hi, hPrs, hopen⟩, hmsg⟩ := h
      exact .stanza i type node o hi hPrs hopen hmsg
  | shutdown i o =>
      simp only [serverStep, Option.ite_none_right_eq_some] at h
      obtain ⟨⟨hi, hopen⟩, hclose⟩ := h
      exact .shutdown i o hi hopen hclose
  | packet t p =>
      simp only [serverStep, Option.ite_none_right_eq_some, Option.map_eq_some_iff] at h
      obtain ⟨ht, ⟨b, s₁⟩, hsend, rfl⟩ := h
      exact .packet t p ht hsend
  | loopReturns t =>
      simp only [serverStep, Option.ite_none_right_eq_some] at h
      obtain ⟨ht, ⟨⟩⟩ := h
      exact .loopReturns t ht
  | drain => exact .drain h
  | pickUp i =>
      simp only [serverStep, Option.ite_none_right_eq_some] at h
      obtain ⟨⟨hi, hopen⟩, ⟨⟩⟩ := h
      exact .pickUp i hi hopen
  | send i sn =>
      simp only [serverStep, Option.ite_none_right_eq_some] at h
      obtain ⟨⟨hi, hpos, hle⟩, ⟨⟩⟩ := h
      exact .send i sn hi hpos hle
  | toEnd i =>
      simp only [serverStep, Option.ite_none_right_eq_some] at h
      obtain ⟨hi, ⟨⟩⟩ := h
      exact .toEnd i hi
  | recycle i =>
      simp only [serverStep, Option.ite_none_right_eq_some] at h
      obtain ⟨⟨hi, hclosed⟩, ⟨⟩⟩ := h
      exact .recycle i hi hclosed
  | allocator answer =>
      cases h
      exact .allocator answer

/-- The receive thread drains the queue in one go. -/
theorem serverStep_drains (s : Server) :
    Reach (serverStep (ι := ι)) (fun _ a => a = .drain) s s.POP_DOGMSG_2LISTTAIL :=
  (Server.reach_POP_DOGMSG_2LISTTAIL id (fun s => (Option.map_id_apply (x := s.popDogMsg)).symm) s).1

/-- What a stanza asks for, as far as it changes the registry of dogs. -/
inductive Request where
  | hook (Item : Option CStr)
  | unhook
  | create (FilterStr DogName : Option CStr) (iModel : Nat)
  | cancel
  | other
deriving DecidableEq

/-- The handler a stanza is passed to, with the element it is given. -/
def handlerOf (type : IksNodeType) (node : ι) : Option IqHandler × Option ι :=
  let x := iks_find (some node) (CStr.lit "query")
  if type = .IKS_NODE_NORMAL ∧ iks_packet node = .IKS_PAK_IQ then
    ((iqHandler (iks_find_attrib (some node) (CStr.lit "type"))
      (iks_find_attrib x (CStr.lit "xmlns"))).join, x)
  else (none, x)

def hookRequest (x : Option ι) : Request :=
  let action := iks_find_attrib x (CStr.lit "action")
  if iks_strcmp ι action (some (CStr.lit "hook")) = 0 then .hook (iks_find_cdata x (CStr.lit "item"))
  else if iks_strcmp ι action (some (CStr.lit "cancel")) = 0 then .unhook
  else .other

def filterRequest (x : Option ι) : Request :=
  let action := iks_find_attrib x (CStr.lit "action")
  if iks_strcmp ι action (some (CStr.lit "create")) = 0 then
    .create (iks_find_cdata x (CStr.lit "filterstring")) (iks_find_cdata x (CStr.lit "username"))
      (Server.modelOf x)
  else if iks_strcmp ι action (some (CStr.lit "cancel")) = 0 then .cancel
  else .other

def requestOf (type : IksNodeType) (node : ι) : Request :=
  match handlerOf type node with
  | (some .RespCatSetHooker, x) => hookRequest x
  | (some .RespCatCreateFilter, x) => filterRequest x
  | _ => .other

/-- A stanza is answered by a handshake or not at all, or it is passed to its handler. -/
theorem IOProcessCatMsg_eq_some {s s' : Server} {i : Slot} {type : IksNodeType} {node : ι}
    {o : Outcome} (h : s.IOProcessCatMsg i type node o = some s') :
    (requestOf type node = .other ∧ (handlerOf type node).1 = none ∧
        (s' = s ∨ s' = (s.CatHandShake i).2)) ∨
      ∃ handler x, handlerOf type node = (some handler, x) ∧
        s.runHandler handler x i o = some s' := by
  cases type with
  | IKS_NODE_START =>
      cases h
      exact Or.inl ⟨by simp [requestOf, handlerOf], by simp [handlerOf], Or.inr rfl⟩
  | IKS_NODE_ERROR =>
      cases h
      exact Or.inl ⟨by simp [requestOf, handlerOf], by simp [handlerOf], Or.inl rfl⟩
  | IKS_NODE_STOP =>
      cases h
      exact Or.inl ⟨by simp [requestOf, handlerOf], by simp [handlerOf], Or.inl rfl⟩
  | IKS_NODE_NORMAL =>
      simp only [Server.IOProcessCatMsg] at h
      split at h
      · next hpak =>
          simp only [Server.IOXMLIq, Option.bind_eq_bind, Option.bind_eq_some_iff] at h
          obtain ⟨handler, hhandler, h⟩ := h
          have hof : handlerOf .IKS_NODE_NORMAL node =
              (handler, iks_find (some node) (CStr.lit "query")) := by
            simp only [handlerOf, hpak, and_self, if_true, hhandler, Option.join_some]
          cases handler with
          | none =>
              cases h
              exact Or.inl ⟨by rw [requestOf, hof], by rw [hof], Or.inl rfl⟩
          | some handler => exact Or.inr ⟨handler, _, hof, h⟩
      · next hpak =>
          cases h
          have hnot : iks_packet node ≠ .IKS_PAK_IQ := fun heq => hpak heq
          exact Or.inl ⟨by simp [requestOf, handlerOf, hnot], by simp [handlerOf, hnot], Or.inl rfl⟩

end Steps

end Netflow
