import Netflow.Registry.Moves
import Netflow.Registry.Repeated

set_option autoImplicit false

/-! # What a free slot carries over

`FreeObj` cleans the pioneer's side of a client or the hooker's side, whichever was its last role;
the recycling and the accept block reset other fields. What none of them resets is `CuteDog` of a
client that was no pioneer, a hook link of a client that was no hooker, and `iCurSendLen`. In the
runs in which a session that ends has nothing of these, every free slot is clean.
-/

namespace Netflow

/-- Nothing of an earlier session is left in the slot. -/
structure Clean (s : Server) (i : Slot) : Prop where
  CuteDog : (s.ClientInfo i).CuteDog = none
  iCurSendLen : (s.ClientInfo i).iCurSendLen = 0
  pCurSendMsg : (s.ClientInfo i).pCurSendMsg = none
  ListSendMsg : (s.ClientInfo i).ListSendMsg = []
  Prs : (s.ClientInfo i).Prs = false
  list1 : ¬Linked s i

section Guard

variable {ι : Type} [Iksemel ι]

/-- A session that ends leaves nothing: a client whose `CuteDog` is set is a pioneer, one that is
linked is a hooker, and a slot is recycled when nothing is left to send. -/
def EndsClean (s : Server) : ServerAction ι → Prop
  | .shutdown i _ =>
      ((s.ClientInfo i).CuteDog = none ∨ (s.ClientInfo i).lType = .CLIENT_USER_PIONEER) ∧
        (Linked s i → (s.ClientInfo i).lType = .CLIENT_USER_HOOKER)
  | .recycle i => (s.ClientInfo i).iCurSendLen = 0
  | _ => True

/-- The guard; only clients that are linked nowhere hook a dog. -/
def LeavesNothing (s : Server) (a : ServerAction ι) : Prop := HooksUnlinked s a ∧ EndsClean s a

end Guard

/-! ## The invariant -/

/-- The receive thread's part of a slot nobody uses. -/
structure Vacant (ci : CLIENTINFO) : Prop where
  Prs : ci.Prs = false
  lSocketStatus : ci.lSocketStatus = .STATUS_SOCKET_CLOSED
  iCurSendLen : ci.iCurSendLen = 0
  pCurSendMsg : ci.pCurSendMsg = none
  ListSendMsg : ci.ListSendMsg = []

/-- Only clients that have their parser point to a dog or are linked, and the end of a session takes
the parser away. -/
structure SlotsInv (s : Server) : Prop where
  sound : s.registry.Sound
  hooked : HookedIn (fun i => (s.ClientInfo i).Prs = true) s
  dog : ∀ i, (s.ClientInfo i).Prs = false → (s.ClientInfo i).CuteDog = none
  closed : ∀ i, (s.ClientInfo i).lStatus = .STATUS_IOCLOSEED → (s.ClientInfo i).Prs = false
  free : ∀ i ∈ s.FreeClientList, Vacant (s.ClientInfo i)

section Facts

variable {s s' : Server} {i : Slot}

/-- The client of a list node that is linked is in the list of hookers. -/
theorem HookedIn.of_linked {P : Slot → Prop} (h : HookedIn P s) (hi : Linked s i) : P i := by
  obtain ⟨hookers, hooked, hP⟩ := h
  obtain ⟨d, hd, xs, hcircle, hmem⟩ := hi
  rw [hcircle.unique (hooked.circle d hd), List.mem_map] at hmem
  obtain ⟨j, hj, hji⟩ := hmem
  cases hji
  exact hP d hd i hj

/-- A client that is not linked may be left out. -/
theorem HookedIn.without {P : Slot → Prop} (h : HookedIn P s) (hi : ¬Linked s i) :
    HookedIn (fun j => P j ∧ j ≠ i) s := by
  obtain ⟨hookers, hooked, hP⟩ := h
  refine ⟨hookers, hooked, fun d hd j hj => ⟨hP d hd j hj, ?_⟩⟩
  rintro rfl
  exact hooked.not_mem hi d hd hj

/-- **Free slots are clean.** -/
theorem SlotsInv.clean (h : SlotsInv s) (hi : i ∈ s.FreeClientList) : Clean s i where
  CuteDog := h.dog i (h.free i hi).Prs
  iCurSendLen := (h.free i hi).iCurSendLen
  pCurSendMsg := (h.free i hi).pCurSendMsg
  ListSendMsg := (h.free i hi).ListSendMsg
  Prs := (h.free i hi).Prs
  list1 hlinked := by
    have hPrs := h.hooked.of_linked hlinked
    rw [(h.free i hi).Prs] at hPrs
    cases hPrs

theorem Vacant.of_recv {ci ci' : CLIENTINFO} (h : Vacant ci) (hrecv : ci'.recv = ci.recv)
    (hPrs : ci'.Prs = false) : Vacant ci' where
  Prs := hPrs
  lSocketStatus := (congrArg RecvFields.lSocketStatus hrecv).trans h.lSocketStatus
  iCurSendLen := (congrArg RecvFields.iCurSendLen hrecv).trans h.iCurSendLen
  pCurSendMsg := (congrArg RecvFields.pCurSendMsg hrecv).trans h.pCurSendMsg
  ListSendMsg := (congrArg RecvFields.ListSendMsg hrecv).trans h.ListSendMsg

/-- An operation that leaves the seats alone, as far as the invariant reads them, and the vacant
slots. -/
theorem SlotsInv.of_same (h : SlotsInv s) (hs : s'.registry.Sound)
    (hooked : HookedIn (fun j => (s.ClientInfo j).Prs = true) s')
    (hPrs : ∀ j, (s'.ClientInfo j).Prs = (s.ClientInfo j).Prs)
    (hdog : ∀ j, (s'.ClientInfo j).CuteDog = (s.ClientInfo j).CuteDog)
    (hstatus : ∀ j, (s'.ClientInfo j).lStatus = .STATUS_IOCLOSEED →
      (s.ClientInfo j).lStatus = .STATUS_IOCLOSEED)
    (hfree : ∀ j ∈ s'.FreeClientList, Vacant (s'.ClientInfo j)) : SlotsInv s' where
  sound := hs
  hooked := hooked.mono fun j hj => (hPrs j).trans hj
  dog j hj := by
    rw [hPrs] at hj
    rw [hdog]
    exact h.dog j hj
  closed j hj := by
    rw [hPrs]
    exact h.closed j (hstatus j hj)
  free := hfree

/-- The registry is the same, and the vacant slots are. -/
theorem SlotsInv.of_registry (h : SlotsInv s) (hreg : s'.registry = s.registry)
    (hooked : HookedIn (fun j => (s.ClientInfo j).Prs = true) s')
    (hfree : ∀ j ∈ s.FreeClientList, Vacant (s'.ClientInfo j)) : SlotsInv s' := by
  have hseat : ∀ j, (s'.ClientInfo j).seat = (s.ClientInfo j).seat := fun j =>
    congrFun (congrArg Registry.seat hreg) j
  have hlist : s'.FreeClientList = s.FreeClientList := congrArg Registry.FreeClientList hreg
  refine h.of_same (hreg ▸ h.sound) hooked (fun j => congrArg Seat.Prs (hseat j))
    (fun j => congrArg Seat.CuteDog (hseat j))
    (fun j hj => (congrArg Seat.lStatus (hseat j)).symm.trans hj) ?_
  rw [hlist]
  exact hfree

/-- So is it when the status of one client is cleared. -/
theorem SlotsInv.of_toEnd (h : SlotsInv s) (hs : s'.registry.Sound)
    (hreg : s'.registry = s.registry.toEnd i)
    (hooked : HookedIn (fun j => (s.ClientInfo j).Prs = true) s')
    (hfree : ∀ j ∈ s.FreeClientList, Vacant (s'.ClientInfo j)) : SlotsInv s' := by
  have hseat : ∀ j, (s'.ClientInfo j).seat = (s.registry.toEnd i).seat j := fun j =>
    congrFun (congrArg Registry.seat hreg) j
  have hother : ∀ j, j ≠ i → (s'.ClientInfo j).seat = (s.ClientInfo j).seat := by
    intro j hji
    rw [hseat, Registry.toEnd, Registry.seat_setSeat_of_ne _ _ hji]
    rfl
  have hself : (s'.ClientInfo i).seat =
      { (s.ClientInfo i).seat with lStatus := .STATUS_UNKNOWN } := by
    rw [hseat, Registry.toEnd, Registry.seat_setSeat_self]
    rfl
  have hlist : s'.FreeClientList = s.FreeClientList := congrArg Registry.FreeClientList hreg
  refine h.of_same hs hooked (fun j => ?_) (fun j => ?_) (fun j hj => ?_) ?_
  · by_cases hji : j = i
    · rw [hji]
      exact congrArg Seat.Prs hself
    · exact congrArg Seat.Prs (hother j hji)
  · by_cases hji : j = i
    · rw [hji]
      exact congrArg Seat.CuteDog hself
    · exact congrArg Seat.CuteDog (hother j hji)
  · by_cases hji : j = i
    · have hnone : (s'.ClientInfo i).lStatus = .STATUS_UNKNOWN := congrArg Seat.lStatus hself
      rw [hji, hnone] at hj
      cases hj
    · exact (congrArg Seat.lStatus (hother j hji)).symm.trans hj
  · rw [hlist]
    exact hfree

/-! ## The receive thread -/

namespace Server

theorem ClientInfo_pickUp_of_ne {j : Slot} (hji : j ≠ i) :
    (s.pickUp i).ClientInfo j = s.ClientInfo j := by
  unfold pickUp
  split
  · rfl
  · exact setClient_ClientInfo_of_ne s _ hji

theorem ClientInfo_firstPass_of_ne {j : Slot} (hji : j ≠ i) :
    (s.firstPass i).ClientInfo j = s.ClientInfo j := by
  unfold firstPass
  dsimp only
  split
  · rfl
  · split
    · rfl
    · exact ClientInfo_pickUp_of_ne hji

theorem ClientInfo_sendPump_of_ne {j : Slot} (hji : j ≠ i) (sn : Nat) :
    (s.sendPump i sn).ClientInfo j = s.ClientInfo j := by
  by_cases hlt : sn < (s.ClientInfo i).iCurSendLen
  · rw [sendPump_of_lt hlt, setClient_ClientInfo_of_ne _ _ hji]
    rfl
  · obtain ⟨ring, pushed, -, heq⟩ := sendPump_of_le (Nat.le_of_not_lt hlt)
    have hbase := setClient_ClientInfo_of_ne ((s.withFree ring pushed).logSent i (s.bytesToSend i sn))
      (fun ci => { ci with iCurSendLen := 0, pCurSendMsg := none }) hji
    rw [heq]
    split
    · rw [ClientInfo_pickUp_of_ne hji]
      exact hbase
    · split
      · rw [CLIENTTOEND, setClient_ClientInfo_of_ne _ _ hji]
        exact hbase
      · exact hbase

/-- A drained message reaches no vacant slot. -/
theorem vacant_popDogMsg {j : Slot} (hj : Vacant (s.ClientInfo j)) (h : s.popDogMsg = some s') :
    Vacant (s'.ClientInfo j) := by
  unfold popDogMsg at h
  split at h
  · cases h
  · dsimp only at h
    split at h
    · cases h
      exact hj
    · next hconnected =>
        cases h
        rw [not_or, not_not, not_not] at hconnected
        rw [setClient_ClientInfo_of_ne]
        · exact hj
        · rintro rfl
          have hclosed := hconnected.2.symm.trans hj.lSocketStatus
          cases hclosed

theorem ClientInfo_recycle (i : Slot) (s : Server) :
    (s.recycle i).ClientInfo = Function.update s.ClientInfo i (recycled (s.ClientInfo i)) := by
  obtain ⟨ring, pushed, -, heq⟩ := recycle_spec i s
  rw [heq]
  rfl

end Server

/-- A slot is recycled when nothing is left to send. -/
theorem SlotsInv.recycle (h : SlotsInv s) (hs : (s.recycle i).registry.Sound)
    (hclosed : (s.ClientInfo i).lStatus = .STATUS_IOCLOSEED)
    (hlen : (s.ClientInfo i).iCurSendLen = 0) : SlotsInv (s.recycle i) := by
  have hself : (s.recycle i).ClientInfo i = Server.recycled (s.ClientInfo i) := by
    rw [Server.ClientInfo_recycle, Function.update_self]
  have hother : ∀ j, j ≠ i → (s.recycle i).ClientInfo j = s.ClientInfo j := by
    intro j hji
    rw [Server.ClientInfo_recycle, Function.update_of_ne hji]
  have hnone : (s.ClientInfo i).Prs = false := h.closed i hclosed
  refine h.of_same hs (Server.hookedIn_recycle h.hooked i) (fun j => ?_) (fun j => ?_)
    (fun j hj => ?_) (fun j hj => ?_)
  · by_cases hji : j = i
    · rw [hji, hself, hnone]
      rfl
    · rw [hother j hji]
  · by_cases hji : j = i
    · rw [hji, hself]
      rfl
    · rw [hother j hji]
  · by_cases hji : j = i
    · rw [hji, hself] at hj
      cases hj
    · rwa [hother j hji] at hj
  · obtain ⟨ring, pushed, -, heq⟩ := Server.recycle_spec i s
    rw [heq] at hj
    by_cases hji : j = i
    · rw [hji, hself]
      exact ⟨rfl, rfl, hlen, rfl, rfl⟩
    · rw [hother j hji]
      exact h.free j ((List.mem_cons.mp hj).resolve_left hji)

/-- A connection gets a free slot. -/
theorem SlotsInv.accept (h : SlotsInv s) (sd : Nat) (hs : (s.acceptClient sd).registry.Sound) :
    SlotsInv (s.acceptClient sd) := by
  cases hfree : s.FreeClientList with
  | nil =>
      rw [Server.acceptClient, hfree]
      exact h
  | cons i rest =>
      -- the slot leaves the free list, so nothing is asked of it any more
      have hnodup : (i :: rest).Nodup := by
        have hslots := h.sound.slots
        rw [show s.registry.FreeClientList = i :: rest from hfree] at hslots
        exact (List.nodup_append.mp hslots).1
      rw [Server.acceptClient_of_cons sd hfree] at hs ⊢
      refine ⟨hs, ?_, fun j hj => ?_, fun j hj => ?_, fun j hj => ?_⟩
      · refine HookedIn.mono (P := fun j => (s.ClientInfo j).Prs = true) h.hooked fun j hj => ?_
        by_cases hji : j = i
        · show ((s.setClient i _).ClientInfo j).Prs = true
          rw [hji, Server.setClient_ClientInfo_self]
          rfl
        · show ((s.setClient i _).ClientInfo j).Prs = true
          rw [Server.setClient_ClientInfo_of_ne _ _ hji]
          exact hj
      · by_cases hji : j = i
        · rw [hji, Server.setClient_ClientInfo_self] at hj
          cases hj
        · rw [Server.setClient_ClientInfo_of_ne _ _ hji] at hj ⊢
          exact h.dog j hj
      · by_cases hji : j = i
        · rw [hji, Server.setClient_ClientInfo_self] at hj
          cases hj
        · rw [Server.setClient_ClientInfo_of_ne _ _ hji] at hj ⊢
          exact h.closed j hj
      · have hji : j ≠ i := by
          rintro rfl
          exact (List.nodup_cons.mp hnodup).1 hj
        rw [Server.setClient_ClientInfo_of_ne _ _ hji]
        refine h.free j ?_
        rw [hfree]
        exact List.mem_cons_of_mem i hj

/-! ## The IO thread -/

/-- A request of a client that has its parser. -/
theorem SlotsInv.stanza {ι : Type} [Iksemel ι] {type : IksNodeType} {node : ι} {o : Outcome}
    (h : SlotsInv s) (hs : s'.registry.Sound) (hPrs : (s.ClientInfo i).Prs = true)
    (hguard : HooksUnlinked s (.stanza i type node o))
    (hstep : s.IOProcessCatMsg i type node o = some s') : SlotsInv s' := by
  have hchanged := Server.changed_IOProcessCatMsg hstep
  have hquiet := Server.quiet_IOProcessCatMsg hstep
  have hother : ∀ j, j ≠ i → (s'.ClientInfo j).seat = (s.ClientInfo j).seat := fun j hji =>
    hchanged.seat_of_ne hji
  have hparser : ∀ j, (s'.ClientInfo j).Prs = (s.ClientInfo j).Prs := fun j =>
    (hchanged.status_eq j).1
  refine ⟨hs, ?_, fun j hj => ?_, fun j hj => ?_, fun j hj => ?_⟩
  · refine HookedIn.mono (P := fun j => (s.ClientInfo j).Prs = true) ?_ fun j hj =>
      (hparser j).trans hj
    exact Server.hookedIn_IOProcessCatMsg h.hooked h.sound hPrs hstep hguard
  · rw [hparser] at hj
    -- a slot without a parser is not the one whose stanza is read
    have hji : j ≠ i := by
      rintro rfl
      rw [hPrs] at hj
      cases hj
    exact (congrArg Seat.CuteDog (hother j hji)).trans (h.dog j hj)
  · rw [hparser]
    exact h.closed j ((hchanged.status_eq j).2.symm.trans hj)
  · rw [hquiet.free] at hj
    exact (h.free j hj).of_recv (hquiet.recv j) ((hparser j).trans (h.free j hj).Prs)

/-- **The end of a session** that leaves nothing. -/
theorem SlotsInv.shutdown {o : Outcome} (h : SlotsInv s) (hs : s'.registry.Sound)
    (hdog : (s.ClientInfo i).CuteDog = none ∨ (s.ClientInfo i).lType = .CLIENT_USER_PIONEER)
    (hlinked : Linked s i → (s.ClientInfo i).lType = .CLIENT_USER_HOOKER)
    (hstep : s.shutdown i o = some s') : SlotsInv s' := by
  obtain ⟨r₁, hreg, hcase⟩ := Server.shutdown_follows hstep True
  have hquiet := (Server.moves_shutdown hstep).quiet
  have hseat : ∀ j, (s'.ClientInfo j).seat = (r₁.close i).seat j := fun j =>
    congrFun (congrArg Registry.seat hreg) j
  have hself : (s'.ClientInfo i).seat =
      { r₁.seat i with Prs := false, lStatus := .STATUS_IOCLOSEED } := by
    rw [hseat, Registry.close, Registry.seat_setSeat_self]
  -- a pioneer's dog is freed and its pointer cleared; any other client has none by the guard
  have hnone : (r₁.seat i).CuteDog = none := by
    split at hcase
    · exact hcase.cancel_CuteDog
    · next hrole =>
        rw [hcase]
        exact hdog.resolve_right hrole
  have hother : ∀ j, j ≠ i → (s'.ClientInfo j).seat = (s.ClientInfo j).seat := by
    intro j hji
    rw [hseat, Registry.close, Registry.seat_setSeat_of_ne _ _ hji]
    split at hcase
    · exact hcase.seat_of_ne hji
    · rw [hcase]
      rfl
  -- a hooker is unlinked, and no one else is linked
  have hunlinked : HookedIn (fun j => (s.ClientInfo j).Prs = true ∧ j ≠ i) s' := by
    by_cases hi : Linked s i
    · exact (Server.hookedIn_shutdown h.hooked h.sound hstep).2 (hlinked hi)
    · exact (Server.hookedIn_shutdown (h.hooked.without hi) h.sound hstep).1
  refine ⟨hs, hunlinked.mono fun j hj => ?_, fun j hj => ?_, fun j hj => ?_, fun j hj => ?_⟩
  · exact (congrArg Seat.Prs (hother j hj.2)).trans hj.1
  · by_cases hji : j = i
    · rw [hji]
      exact (congrArg Seat.CuteDog hself).trans hnone
    · have hsame := hother j hji
      exact (congrArg Seat.CuteDog hsame).trans (h.dog j ((congrArg Seat.Prs hsame).symm.trans hj))
  · by_cases hji : j = i
    · rw [hji]
      exact congrArg Seat.Prs hself
    · have hsame := hother j hji
      exact (congrArg Seat.Prs hsame).trans (h.closed j ((congrArg Seat.lStatus hsame).symm.trans hj))
  · rw [hquiet.free] at hj
    refine (h.free j hj).of_recv (hquiet.recv j) ?_
    by_cases hji : j = i
    · rw [hji]
      exact congrArg Seat.Prs hself
    · exact (congrArg Seat.Prs (hother j hji)).trans (h.free j hj).Prs

end Facts

/-! ## Runs -/

section Runs

variable {ι : Type} [Iksemel ι] {align : MsgCell → Nat} {s s' : Server}

theorem slotsInv_InitServer (align : MsgCell → Nat) : SlotsInv (InitServer align) where
  sound := sound_InitServer align
  hooked :=
    ⟨fun _ => [],
      { circle := fun d hd => by cases hd
        apart := fun d hd => by cases hd
        nodes := fun _ => rfl }, fun d hd => by cases hd⟩
  dog _ _ := rfl
  closed _ h := by cases h
  free _ _ := ⟨rfl, rfl, rfl, rfl, rfl⟩

/-- **One operation** keeps the free slots clean. -/
theorem SlotsInv.step (h : SlotsInv s) {a : ServerAction ι} (hguard : LeavesNothing s a)
    (hstep : serverStep s a = some s') : SlotsInv s' := by
  have hs := h.sound.follows (serverStep_follows hstep)
  have hfollows := serverStep_follows hstep
  have hooked : (∀ i type node o, a ≠ .stanza i type node o) →
      HookedIn (fun j => (s.ClientInfo j).Prs = true) s' := fun hne =>
    hookedIn_step h.hooked h.sound hguard.1
      (fun i type node o heq => absurd heq (hne i type node o)) hstep
  -- the slots that are worked on are not free
  have hapart : ∀ i ∈ s.WorkClientList, ∀ j ∈ s.FreeClientList, j ≠ i := by
    rintro i hi j hj rfl
    exact h.sound.not_free hi hj
  cases serverStep_eq_some hstep with
  | accept sd => exact h.accept sd hs
  | stanza i type node o _ hPrs _ hmsg => exact h.stanza hs hPrs hguard.1 hmsg
  | shutdown i o _ _ hclose => exact h.shutdown hs hguard.2.1 hguard.2.2 hclose
  | packet t p _ hsend =>
      have hlinks := hooked (fun _ _ _ _ heq => by cases heq)
      have hquiet := (Server.moves_SendTcp2Cats hsend).quiet
      have hPrs : ∀ j, (s'.ClientInfo j).Prs = (s.ClientInfo j).Prs := fun j =>
        congrArg Seat.Prs (congrFun (congrArg Registry.seat hfollows) j)
      exact h.of_registry hfollows hlinks fun j hj =>
        (h.free j hj).of_recv (hquiet.recv j) ((hPrs j).trans (h.free j hj).Prs)
  | loopReturns t _ => exact ⟨hs, h.hooked, h.dog, h.closed, h.free⟩
  | drain hpop =>
      have hlinks := hooked (fun _ _ _ _ heq => by cases heq)
      exact h.of_registry hfollows hlinks fun j hj => Server.vacant_popDogMsg (h.free j hj) hpop
  | pickUp i hi _ =>
      have hlinks := hooked (fun _ _ _ _ heq => by cases heq)
      refine h.of_registry hfollows hlinks fun j hj => ?_
      rw [Server.ClientInfo_firstPass_of_ne (hapart i hi j hj)]
      exact h.free j hj
  | send i sn hi _ _ =>
      have hlinks := hooked (fun _ _ _ _ heq => by cases heq)
      have hfree : ∀ j ∈ s.FreeClientList, Vacant ((s.sendPump i sn).ClientInfo j) := by
        intro j hj
        rw [Server.ClientInfo_sendPump_of_ne (hapart i hi j hj)]
        exact h.free j hj
      obtain hreg | hreg := hfollows
      · exact h.of_registry hreg hlinks hfree
      · exact h.of_toEnd hs hreg hlinks hfree
  | toEnd i hi =>
      have hlinks := hooked (fun _ _ _ _ heq => by cases heq)
      refine h.of_toEnd hs hfollows hlinks fun j hj => ?_
      rw [Server.CLIENTTOEND, Server.setClient_ClientInfo_of_ne _ _ (hapart i hi j hj)]
      exact h.free j hj
  | recycle i _ hclosed => exact h.recycle hs hclosed hguard.2
  | allocator answer => exact ⟨hs, h.hooked, h.dog, h.closed, h.free⟩

/-- A connection that gets a clean slot starts from the record every connection starts from;
`pSndData` is not read before it is stored, since nothing is left to send. -/
theorem Clean.connected {i : Slot} {rest : List Slot} (hclean : Clean s i)
    (hfree : s.FreeClientList = i :: rest) (sd : Nat) :
    (s.acceptClient sd).ClientInfo i =
      { Server.connected sd ((s.iSessionID + 1) % 4294967296) CLIENTINFO.zero with
        pSndData := (s.ClientInfo i).pSndData } := by
  rw [Server.acceptClient_of_cons sd hfree, Server.setClient_ClientInfo_self, Server.connected,
    hclean.CuteDog, hclean.iCurSendLen, hclean.pCurSendMsg, hclean.ListSendMsg]
  rfl

/-- **Free slots.** In every run in which a session that ends leaves nothing, every free slot is
clean, and a connection that gets one starts as if the slot had never been used. -/
theorem free_slots_clean (h : Reach (serverStep (ι := ι)) LeavesNothing (InitServer align) s) :
    (∀ i ∈ s.FreeClientList, Clean s i) ∧
      ∀ i rest sd, s.FreeClientList = i :: rest →
        (s.acceptClient sd).ClientInfo i =
          { Server.connected sd ((s.iSessionID + 1) % 4294967296) CLIENTINFO.zero with
            pSndData := (s.ClientInfo i).pSndData } := by
  have hinv := h.invariant (slotsInv_InitServer align)
    (fun _ _ _ hinv hguard hstep => hinv.step hguard hstep)
  refine ⟨fun i hi => hinv.clean hi, fun i rest sd hfree => ?_⟩
  refine (hinv.clean ?_).connected hfree sd
  rw [hfree]
  exact List.mem_cons_self

/-! ## Runs of one session -/

/-- The end of a session of a hooker unlinks its node and keeps its pointer. -/
theorem shutdown_hooker {i : Slot} (o : Outcome) (hs : s.registry.Sound) (hw : WellHooked s)
    (htype : (s.ClientInfo i).lType = .CLIENT_USER_HOOKER) : ∃ links, s.shutdown i o =
      some { (s.ioClosed i).setClient i fun ci => { ci with Prs := false } with links := links } := by
  obtain ⟨s₁, hs₁⟩ : ∃ s₁, s₁ = (s.ioClosed i).setClient i fun ci => { ci with Prs := false } :=
    ⟨_, rfl⟩
  have hkept : (s₁.ClientInfo i).lType = .CLIENT_USER_HOOKER := by
    rw [hs₁, Server.setClient_ClientInfo_self, Server.ioClosed, Server.setClient_ClientInfo_self]
    exact htype
  obtain ⟨hookers, hooked⟩ := hw
  have hooked₁ : Hooked s₁.links s₁.CuteDogList hookers := by
    rw [hs₁]
    exact hooked
  have hdogs : ∀ d ∈ s₁.CuteDogList, (s₁.dogs d).isSome = true := by
    rw [hs₁]
    exact fun d hd => (hs.listed d).mpr hd
  obtain ⟨b, links, hookers', hdel, -⟩ := Server.DelHookerInCuteDog_hooked hooked₁ hdogs i
  refine ⟨links, ?_⟩
  rw [Server.shutdown, Server.FreeObj, ← hs₁]
  simp only [hkept, hdel]
  rfl

/-- A session ends and its slot is recycled. -/
theorem reach_recycled {i : Slot} {o : Outcome} (hready : Ready s i)
    (hguard : LeavesNothing s (.shutdown i o : ServerAction ι)) (hclose : s.shutdown i o = some s')
    (hlen : (s.ClientInfo i).iCurSendLen = 0) :
    Reach (serverStep (ι := ι)) LeavesNothing s (s'.recycle i) ∧
      i ∈ (s'.recycle i).FreeClientList := by
  obtain ⟨r₁, hreg, -⟩ := Server.shutdown_follows hclose True
  have hquiet := (Server.moves_shutdown hclose).quiet
  have hclosed : (s'.ClientInfo i).lStatus = .STATUS_IOCLOSEED := by
    have hseat : (s'.ClientInfo i).seat = (r₁.close i).seat i := congrFun (congrArg Registry.seat hreg) i
    rw [Registry.close, Registry.seat_setSeat_self] at hseat
    exact congrArg Seat.lStatus hseat
  have hlen' : (s'.ClientInfo i).iCurSendLen = 0 :=
    (congrArg RecvFields.iCurSendLen (hquiet.recv i)).trans hlen
  have hshutdown : serverStep s (.shutdown i o : ServerAction ι) = some s' :=
    (if_pos ⟨hready.1, hready.2.2⟩).trans hclose
  have hrecycle : serverStep s' (.recycle i : ServerAction ι) = some (s'.recycle i) :=
    if_pos ⟨hquiet.work ▸ hready.1, hclosed⟩
  have hguard' : LeavesNothing s' (.recycle i : ServerAction ι) := ⟨trivial, hlen'⟩
  refine ⟨(Reach.start.next hguard hshutdown).next hguard' hrecycle, ?_⟩
  obtain ⟨ring, pushed, -, heq⟩ := Server.recycle_spec i s'
  rw [heq]
  exact List.mem_cons_self

/-- A client creates a filter and disconnects: its slot is clean again. -/
theorem free_slots_clean_owner : ∃ s s', Reach (serverStep (ι := Iks)) LeavesNothing
    (InitServer fun _ => 0) s ∧ (s.ClientInfo 15).CuteDog = some 0 ∧
      Reach (serverStep (ι := Iks)) LeavesNothing s s' ∧ 15 ∈ s'.FreeClientList ∧ Clean s' 15 := by
  obtain ⟨s, hs⟩ := owned_dog (fun _ => 0) (o := .allSucceed) (h := 0) ⟨rfl, rfl, rfl⟩
    (show Outcome.allSucceed.pthread_create = some 1 from rfl)
  have hcreate : LeavesNothing (twoClients fun _ => 0)
      (.stanza 15 .IKS_NODE_NORMAL (createFilter "a" "tcp") .allSucceed) := by
    refine ⟨fun name d hreq => ?_, trivial⟩
    rw [requestOf_createFilter] at hreq
    cases hreq
  have hreach := hs.run (C := LeavesNothing) (fun _ _ => ⟨trivial, trivial⟩) hcreate
  have hptr := hs.points 15
  rw [if_pos rfl] at hptr
  obtain ⟨hclosable, hopen⟩ := closable_of_sound (i := 15) (sound_reach hreach) ⟨_, hs.hooked⟩
    (fun d hd => by
      rw [hptr] at hd
      cases hd
      rw [hs.list]
      exact List.mem_cons_self)
  -- the end of the session returns
  have hsame : ((s.ioClosed 15).ClientInfo 15).CuteDog = (s.ClientInfo 15).CuteDog := by
    rw [Server.ioClosed, Server.setClient_ClientInfo_self]
  have hclosable' : (s.ioClosed 15).Closable 15 :=
    ⟨hclosable.dogs, hclosable.lists, hclosable.nodes, fun d hd => hclosable.listed d (hsame ▸ hd)⟩
  obtain ⟨⟨r, s₂⟩, hreleases⟩ := Option.isSome_iff_exists.mp
    (hclosable'.returns (fun d dog h hd => hopen d dog h (hsame ▸ hd)) .allSucceed)
  -- its guard: a pioneer that is linked nowhere
  have hunlinked : ¬Linked s 15 := by
    rintro ⟨d, hd, xs, hcircle, hmem⟩
    rw [hcircle.unique (hs.hooked.circle d hd)] at hmem
    cases hmem
  have hguard : LeavesNothing s (.shutdown 15 .allSucceed : ServerAction Iks) :=
    ⟨trivial, Or.inr (congrArg Seat.lType hs.owner), fun hlinked => absurd hlinked hunlinked⟩
  have hlen : (s.ClientInfo 15).iCurSendLen = 0 := by
    cases serverStep_eq_some hs.step with
    | stanza _ _ _ _ _ _ _ hmsg =>
        have hrecv := (Server.quiet_IOProcessCatMsg hmsg).recv 15
        exact (congrArg RecvFields.iCurSendLen hrecv).trans rfl
  obtain ⟨hended, hmem⟩ := reach_recycled hs.ready hguard (Server.FreeObj_of_releases hreleases) hlen
  exact ⟨s, _, hreach, hptr, hended, hmem, (free_slots_clean (hreach.trans hended)).1 15 hmem⟩

/-- **A hooker leaves its pointer**: a client hooks the dog of another one and disconnects, and the
free slot still points to the dog. -/
theorem hooker_left_behind : ∃ s, Reach (serverStep (ι := Iks)) AnyStep (InitServer fun _ => 0) s ∧
    ∃ i ∈ s.FreeClientList, ¬Clean s i := by
  obtain ⟨s₁, dog, hreach, hshared⟩ := shared_dog (fun _ => 0) Outcome.allSucceed_succeeds
  have hready := hshared.ready.1
  have htype : (s₁.ClientInfo 14).lType = .CLIENT_USER_HOOKER := congrArg Seat.lType hshared.hooker
  obtain ⟨hookers, hooked, -⟩ := hshared.hooked
  obtain ⟨links, hclose⟩ :=
    shutdown_hooker Outcome.allSucceed (sound_reach hreach) ⟨hookers, hooked⟩ htype
  obtain ⟨t, ht⟩ : ∃ t, t = (s₁.ioClosed 14).setClient 14 fun ci => { ci with Prs := false } :=
    ⟨_, rfl⟩
  rw [← ht] at hclose
  obtain ⟨s₂, hs₂⟩ : ∃ s₂, s₂ = { t with links := links } := ⟨_, rfl⟩
  rw [← hs₂] at hclose
  have hstep : serverStep s₁ (.shutdown 14 Outcome.allSucceed : ServerAction Iks) = some s₂ := by
    rw [serverStep, if_pos ⟨hready.1, hready.2.2⟩]
    exact hclose
  -- unlinking the hooker leaves its pointer
  have hseat : (s₂.ClientInfo 14).CuteDog = (s₁.ClientInfo 14).CuteDog ∧
      (s₂.ClientInfo 14).lStatus = .STATUS_IOCLOSEED := by
    have hclosed : s₂.ClientInfo 14 =
        { s₁.ClientInfo 14 with lStatus := .STATUS_IOCLOSEED, Prs := false } := by
      rw [hs₂]
      show t.ClientInfo 14 = _
      rw [ht, Server.setClient_ClientInfo_self, Server.ioClosed, Server.setClient_ClientInfo_self]
    rw [hclosed]
    exact ⟨rfl, rfl⟩
  have hwork : 14 ∈ s₂.WorkClientList := by
    rw [hs₂, ht]
    exact hready.1
  have hrecycle : serverStep s₂ (.recycle 14 : ServerAction Iks) = some (s₂.recycle 14) :=
    if_pos ⟨hwork, hseat.2⟩
  refine ⟨s₂.recycle 14, (hreach.any.next trivial hstep).next trivial hrecycle, 14, ?_, ?_⟩
  · obtain ⟨ring, pushed, -, heq⟩ := Server.recycle_spec 14 s₂
    rw [heq]
    exact List.mem_cons_self
  · intro hclean
    have hnone := hclean.CuteDog
    rw [Server.ClientInfo_recycle, Function.update_self] at hnone
    have hkept : (s₂.ClientInfo 14).CuteDog = none := hnone
    rw [hseat.1, hshared.points.1] at hkept
    cases hkept

end Runs

end Netflow
