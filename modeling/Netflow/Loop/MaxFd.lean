import Netflow.Registry.Moves
import Netflow.Registry.Shared
import Netflow.Transport.Places

set_option autoImplicit false

/-! # The descriptors `select` examines

The receive thread puts the listening socket and the sockets of the connected clients into the sets
it gives to `select`, and `select(maxfd + 1, …)` examines the descriptors up to `maxfd`. An accepted
connection gets any descriptor that is not open, and `maxfd` is set to it even when a connected
client has a higher one.
-/

namespace Netflow

/-- The receive thread: the server, its listening socket, the local `maxfd`, and the descriptors that
are open. -/
structure ReceiveLoop where
  srv : Server
  SocketListen : Nat
  maxfd : Nat
  fds : List Nat

/-- `int maxfd = server.SocketListen` on entry to the thread. -/
def receiveInit (align : MsgCell → Nat) (SocketListen : Nat) : ReceiveLoop where
  srv := InitServer align
  SocketListen := SocketListen
  maxfd := SocketListen
  fds := [SocketListen]

namespace ReceiveLoop

/-- `rFds` at the call of `select`. -/
def rFds (l : ReceiveLoop) : List Nat :=
  l.SocketListen :: (l.srv.WorkClientList.filter fun i =>
    (l.srv.ClientInfo i).lSocketStatus ≠ .STATUS_SOCKET_CLOSED ∧
      (l.srv.ClientInfo i).lStatus ≠ .STATUS_IOCMDCLOSE).map fun i => (l.srv.ClientInfo i).Socket

/-- `wFds` at the call of `select`. -/
def wFds (l : ReceiveLoop) : List Nat :=
  (l.srv.WorkClientList.filter fun i =>
    (l.srv.ClientInfo i).lSocketStatus ≠ .STATUS_SOCKET_CLOSED ∧
      0 < (l.srv.ClientInfo i).iCurSendLen).map fun i => (l.srv.ClientInfo i).Socket

end ReceiveLoop

/-! ## Sockets and connected clients stay as they are -/

namespace Server

/-- The sockets and the connected clients are the same. -/
structure SameSockets (s s' : Server) : Prop where
  socket : ∀ i, (s'.ClientInfo i).Socket = (s.ClientInfo i).Socket
  work : s'.WorkClientList = s.WorkClientList
  free : s'.FreeClientList = s.FreeClientList

variable {s s' : Server}

theorem SameSockets.refl (s : Server) : SameSockets s s := ⟨fun _ => rfl, rfl, rfl⟩

theorem SameSockets.trans {s₁ : Server} (h : SameSockets s s₁) (h' : SameSockets s₁ s') :
    SameSockets s s' :=
  ⟨fun i => (h'.socket i).trans (h.socket i), h'.work.trans h.work, h'.free.trans h.free⟩

theorem Quiet.sameSockets (h : Quiet s s') : SameSockets s s' :=
  ⟨fun i => congrArg RecvFields.Socket (h.recv i), h.work, h.free⟩

theorem sameSockets_setClient (s : Server) (i : Slot) {f : CLIENTINFO → CLIENTINFO}
    (h : ∀ ci, (f ci).Socket = ci.Socket) : SameSockets s (s.setClient i f) := by
  refine ⟨fun j => ?_, rfl, rfl⟩
  by_cases hj : j = i
  · rw [hj, setClient_ClientInfo_self, h]
  · rw [setClient_ClientInfo_of_ne s f hj]

theorem sameSockets_popDogMsg (h : s.popDogMsg = some s') : SameSockets s s' := by
  unfold popDogMsg at h
  split at h
  · cases h
  · dsimp only at h
    split at h
    · cases h
      exact ⟨fun _ => rfl, rfl, rfl⟩
    · cases h
      obtain ⟨hsocket, hwork, hfree⟩ := sameSockets_setClient { s with pFifoDogMsg := _ }
        (s.cells _).pClientInfo (f := fun ci => { ci with ListSendMsg := ci.ListSendMsg ++ [_] })
        fun _ => rfl
      exact ⟨hsocket, hwork, hfree⟩

theorem sameSockets_pickUp (s : Server) (i : Slot) : SameSockets s (s.pickUp i) := by
  unfold pickUp
  split
  · exact SameSockets.refl s
  · next c rest _ =>
      obtain ⟨hsocket, hwork, hfree⟩ := sameSockets_setClient s i
        (f := withCurrent c (s.cells c).hStream rest) fun _ => rfl
      exact ⟨hsocket, hwork, hfree⟩

theorem sameSockets_firstPass (s : Server) (i : Slot) : SameSockets s (s.firstPass i) := by
  unfold firstPass
  dsimp only
  split
  · exact SameSockets.refl s
  · split
    · exact SameSockets.refl s
    · exact sameSockets_pickUp s i

theorem sameSockets_sendPump (s : Server) (i : Slot) (sn : Nat) :
    SameSockets s (s.sendPump i sn) := by
  by_cases hlt : sn < (s.ClientInfo i).iCurSendLen
  · rw [sendPump_of_lt hlt]
    obtain ⟨hsocket, hwork, hfree⟩ := sameSockets_setClient (s.logSent i (s.bytesToSend i sn)) i
      (f := fun ci => { ci with
        iCurSendLen := ci.iCurSendLen - sn
        pSndData := ci.pSndData.map fun p => (p.1, p.2 + sn) }) fun _ => rfl
    exact ⟨hsocket, hwork, hfree⟩
  · obtain ⟨ring, pushed, -, heq⟩ := sendPump_of_le (Nat.le_of_not_lt hlt)
    have hdone : SameSockets s (((s.withFree ring pushed).logSent i (s.bytesToSend i sn)).setClient i
        fun ci => { ci with iCurSendLen := 0, pCurSendMsg := none }) := by
      obtain ⟨hsocket, hwork, hfree⟩ := sameSockets_setClient
        ((s.withFree ring pushed).logSent i (s.bytesToSend i sn)) i
        (f := fun ci => { ci with iCurSendLen := 0, pCurSendMsg := none }) fun _ => rfl
      exact ⟨hsocket, hwork, hfree⟩
    rw [heq]
    split
    · exact hdone.trans (sameSockets_pickUp _ i)
    · split
      · exact hdone.trans (sameSockets_setClient _ i fun _ => rfl)
      · exact hdone

end Server

section Steps

variable {ι : Type} [Iksemel ι]

/-- An operation of the server, with the descriptors: `accept` returns one that is not open, and the
new socket is closed again when no slot is free; recycling a slot closes its socket. -/
def receiveStep (l : ReceiveLoop) : ServerAction ι → Option ReceiveLoop
  | .accept sd_accept =>
      if sd_accept ∈ l.fds then none
      else match l.srv.FreeClientList with
        | [] => some l
        | _ :: _ =>
            some { l with
              srv := l.srv.acceptClient sd_accept
              maxfd := sd_accept
              fds := sd_accept :: l.fds }
  | .recycle i =>
      (serverStep (ι := ι) l.srv (.recycle i)).map fun s =>
        { l with srv := s, fds := l.fds.erase (l.srv.ClientInfo i).Socket }
  | a => (serverStep l.srv a).map fun s => { l with srv := s }

/-- `maxfd` is at least every descriptor in the sets. -/
def SelectCovers (l : ReceiveLoop) : Prop :=
  l.SocketListen ≤ l.maxfd ∧ ∀ i ∈ l.srv.WorkClientList, (l.srv.ClientInfo i).Socket ≤ l.maxfd

/-- The guard: a connection that gets a slot has a descriptor above those of the listening socket and
of the connected clients. -/
def AcceptsAbove (l : ReceiveLoop) : ServerAction ι → Prop
  | .accept sd => l.srv.FreeClientList ≠ [] →
      l.SocketListen ≤ sd ∧ ∀ i ∈ l.srv.WorkClientList, (l.srv.ClientInfo i).Socket ≤ sd
  | _ => True

/-- Only accepts and the recycling of a slot change the sockets. -/
theorem sameSockets_serverStep {s s' : Server} {a : ServerAction ι} (h : serverStep s a = some s')
    (haccept : ∀ sd, a ≠ .accept sd) (hrecycle : ∀ i, a ≠ .recycle i) : s.SameSockets s' := by
  cases serverStep_eq_some h with
  | accept sd => exact absurd rfl (haccept sd)
  | recycle i _ _ => exact absurd rfl (hrecycle i)
  | stanza i type node o _ _ _ hmsg => exact (Server.quiet_IOProcessCatMsg hmsg).sameSockets
  | shutdown i o _ _ hclose =>
      exact (Server.Moves.quiet (Server.moves_shutdown hclose)).sameSockets
  | packet t p _ hsend =>
      exact (Server.Moves.quiet (Server.moves_SendTcp2Cats hsend)).sameSockets
  | loopReturns t _ => exact ⟨fun _ => rfl, rfl, rfl⟩
  | drain hpop => exact Server.sameSockets_popDogMsg hpop
  | pickUp i _ _ => exact Server.sameSockets_firstPass s i
  | send i sn _ _ _ => exact Server.sameSockets_sendPump s i sn
  | toEnd i _ =>
      exact Server.sameSockets_setClient s i (f := fun ci => { ci with lStatus := .STATUS_UNKNOWN })
        fun _ => rfl
  | allocator answer => exact ⟨fun _ => rfl, rfl, rfl⟩

/-- What is covered is examined. -/
theorem SelectCovers.examined {l : ReceiveLoop} (h : SelectCovers l) :
    ∀ fd ∈ l.rFds ++ l.wFds, fd < l.maxfd + 1 := by
  intro fd hfd
  refine Nat.lt_succ_of_le ?_
  rcases List.mem_append.mp hfd with hr | hw
  · rcases List.mem_cons.mp hr with rfl | hr
    · exact h.1
    · obtain ⟨i, hi, rfl⟩ := List.mem_map.mp hr
      exact h.2 i (List.mem_of_mem_filter hi)
  · obtain ⟨i, hi, rfl⟩ := List.mem_map.mp hw
    exact h.2 i (List.mem_of_mem_filter hi)

theorem selectCovers_step {l l' : ReceiveLoop} {a : ServerAction ι} (hl : SelectCovers l)
    (hguard : AcceptsAbove l a) (h : receiveStep l a = some l') : SelectCovers l' := by
  cases a with
  | accept sd =>
      simp only [receiveStep] at h
      split at h
      · cases h
      · split at h
        · cases h
          exact hl
        · next i rest hfree =>
            cases h
            -- the accepted descriptor is the largest now
            obtain ⟨hlisten, hwork⟩ := hguard (by rw [hfree]; exact List.cons_ne_nil i rest)
            rw [Server.acceptClient_of_cons sd hfree]
            refine ⟨hlisten, fun j hj => ?_⟩
            by_cases hji : j = i
            · rw [hji]
              show ((l.srv.setClient i (Server.connected sd _)).ClientInfo i).Socket ≤ sd
              rw [Server.setClient_ClientInfo_self]
              exact Nat.le_refl sd
            · show ((l.srv.setClient i (Server.connected sd _)).ClientInfo j).Socket ≤ sd
              rw [Server.setClient_ClientInfo_of_ne _ _ hji]
              exact hwork j ((List.mem_cons.mp hj).resolve_left hji)
  | recycle i =>
      simp only [receiveStep, Option.map_eq_some_iff] at h
      obtain ⟨s, hs, rfl⟩ := h
      simp only [serverStep] at hs
      split at hs
      · cases hs
        obtain ⟨ring, pushed, -, heq⟩ := Server.recycle_spec i l.srv
        refine ⟨hl.1, fun j hj => ?_⟩
        rw [heq] at hj ⊢
        -- recycling keeps `Socket`, and the slot leaves the working list
        have hsocket := (Server.sameSockets_setClient (l.srv.withFree ring pushed) i
          (f := Server.recycled) fun _ => rfl).socket j
        refine (Nat.le_of_eq hsocket).trans ?_
        exact hl.2 j (List.mem_of_mem_erase hj)
      · cases hs
  | _ =>
      simp only [receiveStep, Option.map_eq_some_iff] at h
      obtain ⟨s, hs, rfl⟩ := h
      obtain ⟨hsocket, hwork, -⟩ := sameSockets_serverStep hs (fun _ h => by cases h)
        (fun _ h => by cases h)
      refine ⟨hl.1, fun j hj => ?_⟩
      rw [hsocket]
      exact hl.2 j (hwork ▸ hj)

/-- In a run in which every connection gets a descriptor above those in use, `select` examines every
descriptor in its sets. -/
theorem select_covers {align : MsgCell → Nat} {SocketListen : Nat} {l : ReceiveLoop}
    (h : Reach (receiveStep (ι := ι)) AcceptsAbove (receiveInit align SocketListen) l) :
    SelectCovers l ∧ ∀ fd ∈ l.rFds ++ l.wFds, fd < l.maxfd + 1 := by
  have hcovers : SelectCovers l :=
    h.invariant (P := SelectCovers) ⟨Nat.le_refl _, fun i hi => by cases hi⟩
      fun _ _ _ hl hguard hstep => selectCovers_step hl hguard hstep
  exact ⟨hcovers, hcovers.examined⟩

end Steps

/-- Two connections are accepted, 7 and then 8. -/
theorem select_covers_two : ∃ l : ReceiveLoop, l.rFds ++ l.wFds = [3, 8, 7] ∧
    SelectCovers l ∧ ∀ fd ∈ l.rFds ++ l.wFds, fd < l.maxfd + 1 := by
  have hrun : ∀ filled, ∃ l, Reach (receiveStep (ι := Iks)) AcceptsAbove
      { srv := initialServer (fun _ => 0) filled, SocketListen := 3, maxfd := 3, fds := [3] } l ∧
        l.rFds ++ l.wFds = [3, 8, 7] := by
    intro filled
    obtain ⟨l₁, l, h7, hbelow, h8, hfds⟩ : ∃ l₁ l,
        receiveStep (ι := Iks) ⟨initialServer (fun _ => 0) filled, 3, 3, [3]⟩ (.accept 7) = some l₁ ∧
        (l₁.SocketListen ≤ 8 ∧ ∀ i ∈ l₁.srv.WorkClientList, (l₁.srv.ClientInfo i).Socket ≤ 8) ∧
        receiveStep (ι := Iks) l₁ (.accept 8) = some l ∧ l.rFds ++ l.wFds = [3, 8, 7] := by
      refine ⟨_, _, rfl, ⟨show 3 ≤ 8 by decide, fun i hi => ?_⟩, rfl, rfl⟩
      rw [List.mem_singleton.mp (show i ∈ [15] from hi)]
      show 7 ≤ 8
      decide
    have hfirst : AcceptsAbove (ι := Iks) ⟨initialServer (fun _ => 0) filled, 3, 3, [3]⟩
        (.accept 7) := fun _ => ⟨show 3 ≤ 7 by decide, fun i hi => (by cases hi)⟩
    have hsecond : AcceptsAbove (ι := Iks) l₁ (.accept 8) := fun _ => hbelow
    exact ⟨l, (Reach.start.next hfirst h7).next hsecond h8, hfds⟩
  obtain ⟨l, hreach, hfds⟩ := hrun (fillFree (DOG2CATIOMSGNUM - 1) (Nat.le_refl _))
  exact ⟨l, hfds, select_covers hreach⟩

/-- The connections 7 and 8 are accepted, 7 is closed and its slot recycled, and the next connection
gets the descriptor 7 again: `maxfd` is then below the descriptor 8 of a connected client. -/
theorem select_misses_client : ¬∀ l, Reach (receiveStep (ι := Iks)) AnyStep
    (receiveInit (fun _ => 0) 3) l → SelectCovers l := by
  intro hall
  have hrun : ∀ filled, ∃ l, Reach (receiveStep (ι := Iks)) AnyStep
      { srv := initialServer (fun _ => 0) filled, SocketListen := 3, maxfd := 3, fds := [3] } l ∧
        ¬SelectCovers l := by
    intro filled
    refine ⟨_, reach_of_execAll (show execAll receiveStep [.accept 7, .accept 8,
      .shutdown 15 .allSucceed, .recycle 15, .accept 7] _ = some _ from rfl), fun h => ?_⟩
    have hmem : (14 : Slot) ∈ [(15 : Slot), 14] := List.mem_cons_of_mem _ List.mem_cons_self
    have hle : 8 ≤ 7 := h.2 14 hmem
    omega
  obtain ⟨l, hreach, hmiss⟩ := hrun (fillFree (DOG2CATIOMSGNUM - 1) (Nat.le_refl _))
  exact hmiss (hall l hreach)

end Netflow
