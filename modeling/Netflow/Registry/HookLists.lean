import Netflow.Registry.Loops

set_option autoImplicit false

/-! # Requests on the lists of hookers

A client has one node for all hook lists, and `list_add` does not look whether it is linked. As long
as only clients that are linked nowhere hook a dog, every operation leaves the lists circular and
apart, and no client but the one that hooks is linked newly (`HookedIn`).
-/

namespace Netflow

/-- The lists of hookers are circular lists of client nodes, and no client is in two of them. -/
def WellHooked (s : Server) : Prop := ∃ hookers, Hooked s.links s.CuteDogList hookers

/-- So they are, and every client in one of them is one of `P`. -/
def HookedIn (P : Slot → Prop) (s : Server) : Prop :=
  ∃ hookers, Hooked s.links s.CuteDogList hookers ∧ ∀ d ∈ s.CuteDogList, ∀ i ∈ hookers d, P i

/-- The client is linked in the list of a listed dog. -/
def Linked (s : Server) (i : Slot) : Prop :=
  ∃ d ∈ s.CuteDogList, ∃ xs, Circle s.links (.ListHooker d) xs ∧ .list1 i ∈ xs

/-- The guard: a client that hooks a listed dog is linked in the list of none. -/
def HooksUnlinked {ι : Type} [Iksemel ι] (s : Server) : ServerAction ι → Prop
  | .stanza i type node _ => ∀ Item d, requestOf type node = .hook (some Item) →
      s.dogNamed Item s.CuteDogList = some (some d) → ¬Linked s i
  | _ => True

theorem Hooked.not_mem {s : Server} {hookers : DogPtr → List Slot}
    (h : Hooked s.links s.CuteDogList hookers) {i : Slot} (hi : ¬Linked s i) :
    ∀ d ∈ s.CuteDogList, i ∉ hookers d := fun d hd hid =>
  hi ⟨d, hd, _, h.circle d hd, List.mem_map_of_mem hid⟩

theorem wellHooked_iff {s : Server} : WellHooked s ↔ HookedIn (fun _ => True) s := by
  constructor
  · rintro ⟨hookers, hooked⟩
    exact ⟨hookers, hooked, fun _ _ _ _ => trivial⟩
  · rintro ⟨hookers, hooked, -⟩
    exact ⟨hookers, hooked⟩

theorem HookedIn.mono {P Q : Slot → Prop} {s : Server} (h : HookedIn P s) (hPQ : ∀ i, P i → Q i) :
    HookedIn Q s := by
  obtain ⟨hookers, hooked, hP⟩ := h
  exact ⟨hookers, hooked, fun d hd i hi => hPQ i (hP d hd i hi)⟩

namespace Server

theorem Talks.hookedIn {P : Slot → Prop} {s s' : Server} (h : Talks s s') (hw : HookedIn P s) :
    HookedIn P s' := by
  obtain ⟨hookers, hooked, hP⟩ := hw
  refine ⟨hookers, ?_, ?_⟩
  · rwa [h.links, h.CuteDogList]
  · rwa [h.CuteDogList]

/-! ## Deleting a dog -/

/-- Stopping a capture touches no list and frees no dog. -/
theorem stopCapture_frame (s : Server) (d : DogPtr) (dog : CUTEDOG) (Thid : PthreadPtr) (Ret : Int) :
    (s.stopCapture d dog Thid Ret).links = s.links ∧
      (s.stopCapture d dog Thid Ret).CuteDogList = s.CuteDogList ∧
      (s.stopCapture d dog Thid Ret).ClientInfo = s.ClientInfo ∧
      ∀ e, (s.dogs e).isSome = true → ((s.stopCapture d dog Thid Ret).dogs e).isSome = true := by
  cases Thid
  unfold stopCapture pthread_cancel
  dsimp only
  split
  · exact ⟨rfl, rfl, rfl, fun e he => he⟩
  · next hRet =>
      rw [if_pos (not_not.mp hRet)]
      refine ⟨rfl, rfl, rfl, fun e he => ?_⟩
      show (Function.update s.dogs d _ e).isSome = true
      by_cases hed : e = d
      · rw [hed, Function.update_self]
        rfl
      · rwa [Function.update_of_ne hed]

theorem StopDogNose_frame {s s' : Server} {i : Slot} {o : Outcome} {Ret : Int}
    (h : s.StopDogNose i o = some (Ret, s')) :
    s'.links = s.links ∧ s'.CuteDogList = s.CuteDogList ∧ s'.ClientInfo = s.ClientInfo ∧
      ∀ e, (s.dogs e).isSome = true → (s'.dogs e).isSome = true := by
  obtain ⟨-, rfl⟩ | ⟨d, dog, -, -, ⟨-, rfl⟩ | ⟨k, Thid, -, -, rfl⟩⟩ := StopDogNose_eq_some h
  · exact ⟨rfl, rfl, rfl, fun e he => he⟩
  · exact ⟨rfl, rfl, rfl, fun e he => he⟩
  · obtain ⟨h1, h2, h3, h4⟩ := stopCapture_frame { s with opened := s.opened.erase k } d dog Thid
      o.pthread_cancel
    have htalks := talks_answer i (stopAnswer o.pthread_cancel)
      ({ s with opened := s.opened.erase k }.stopCapture d dog Thid o.pthread_cancel)
    refine ⟨htalks.links.trans h1, htalks.CuteDogList.trans h2, htalks.ClientInfo.trans h3, ?_⟩
    intro e he
    rw [htalks.dogs]
    exact h4 e he

/-- **`DelCuteDogInList` returns** when the client points to a listed dog, and the other lists stay. -/
theorem DelCuteDogInList_hooked {s : Server} {hookers : DogPtr → List Slot}
    (h : Hooked s.links s.CuteDogList hookers) (hnodup : s.CuteDogList.Nodup)
    {i : Slot} {d : DogPtr} (hd : (s.ClientInfo i).CuteDog = some d) (hmem : d ∈ s.CuteDogList)
    (hdog : (s.dogs d).isSome = true) :
    ∃ b s', s.DelCuteDogInList i = some (b, s') ∧ Hooked s'.links s'.CuteDogList hookers ∧
      s'.pFifoDogMsgFree.count = s.pFifoDogMsgFree.count - (hookers d).length := by
  obtain ⟨dog, hdog⟩ := Option.isSome_iff_exists.mp hdog
  obtain ⟨b, s₁, hdrop, hdropped⟩ := DelHookersWithCuteDog_circle (h.circle d hmem) hdog
  have hlist : s₁.CuteDogList = s.CuteDogList :=
    congrArg Registry.CuteDogList (registry_DelHookersWithCuteDog hdrop)
  refine ⟨true, s₁.freeDog d i, ?_, ?_, hdropped.cells⟩
  · simp only [DelCuteDogInList, hd, hdrop, Option.bind_eq_bind, Option.bind_some, hlist, if_pos hmem]
  · have hlinks : (s₁.freeDog d i).links = Function.update s₁.links (.ListHooker d) none := rfl
    have hlist' : (s₁.freeDog d i).CuteDogList = s.CuteDogList.erase d := by
      rw [← hlist]
      rfl
    rw [hlinks, hlist']
    refine h.frame (fun e he => List.mem_of_mem_erase he) (fun e he n hn => ?_) (fun j => ?_)
    · have he' := (hnodup.mem_erase_iff.mp he)
      have hn' := h.nodes_apart hmem he'.2 he'.1 hn
      have hne : n ≠ .ListHooker d := by
        rintro rfl
        exact hn' (mem_hookNodes.mpr (Or.inl rfl))
      rw [Function.update_of_ne hne, hdropped.same n hn']
    · rw [Function.update_of_ne (list1_ne_ListHooker j d), hdropped.allocated]
      exact h.nodes j

/-! ## Creating a dog -/

theorem links_withHandle (s : Server) (F : CStr) (k : PcapHandle) :
    (s.withHandle F k).links = s.links := by
  unfold withHandle setCallBack
  dsimp only
  split
  · rfl
  · rfl

/-- A create request leaves the lists alone, or it lists a new dog with an empty list. -/
theorem StartDogNose_lists {s s' : Server} {F : CStr} {N : Option CStr} {i : Slot} {m : Nat}
    {o : Outcome} {ret : Int} (h : s.StartDogNose F N i m o = some (ret, s')) :
    (s'.links = s.links ∧ s'.CuteDogList = s.CuteDogList) ∨
      (s.dogs o.malloc = none ∧ s'.links = INIT_LIST_HEAD s.links (.ListHooker o.malloc) ∧
        s'.CuteDogList = o.malloc :: s.CuteDogList) := by
  have hset : ∀ {k : PcapHandle} {b : Bool} {s₂ : Server},
      (s.withHandle F k).SetCapFilter (some k) i o = (b, s₂) →
      s₂.links = s.links ∧ s₂.CuteDogList = s.CuteDogList ∧ s₂.dogs = s.dogs := by
    intro k b s₂ heq
    have htalks := talks_SetCapFilter (some k) i o (s.withHandle F k)
    rw [heq] at htalks
    have hreg := htalks.registry.trans (registry_withHandle s F k)
    exact ⟨htalks.links.trans (links_withHandle s F k), congrArg Registry.CuteDogList hreg,
      congrArg Registry.dogs hreg⟩
  cases StartDogNose_eq_some h with
  | notOpened _ =>
      exact Or.inl ⟨links_withHandle s F 0, congrArg Registry.CuteDogList (registry_setCallBack s F)⟩
  | refused _ _ heq _ =>
      obtain ⟨hlinks, hlist, -⟩ := hset heq
      exact Or.inl ⟨hlinks, hlist⟩
  | noThread _ _ heq _ _ hnew _ =>
      obtain ⟨hlinks, hlist, hdogs⟩ := hset heq
      rw [hdogs] at hnew
      exact Or.inr ⟨hnew, congrArg (INIT_LIST_HEAD · _) hlinks, congrArg (o.malloc :: ·) hlist⟩
  | started _ _ heq _ _ hnew _ _ =>
      obtain ⟨hlinks, hlist, hdogs⟩ := hset heq
      rw [hdogs] at hnew
      exact Or.inr ⟨hnew, congrArg (INIT_LIST_HEAD · _) hlinks, congrArg (o.malloc :: ·) hlist⟩

/-! ## The handlers -/

section Handlers

variable {ι : Type} [Iksemel ι] {P : Slot → Prop} {s s' : Server} {i : Slot} {o : Outcome}

/-- Unlinking a client: it is in none of the lists. -/
theorem hookedIn_DelHookerInCuteDog {b : Bool} (hw : HookedIn P s) (hs : s.registry.Sound)
    (h : s.DelHookerInCuteDog i = some (b, s')) : HookedIn (fun j => P j ∧ j ≠ i) s' := by
  obtain ⟨hookers, hooked, hP⟩ := hw
  obtain ⟨b', links, hookers', hdel, hooked', hi, hsub⟩ := DelHookerInCuteDog_hooked hooked
    (fun d hd => (hs.listed d).mpr hd) i
  rw [h] at hdel
  cases hdel
  refine ⟨hookers', hooked', fun d hd j hj => ⟨hP d hd j (hsub d hd j hj), ?_⟩⟩
  rintro rfl
  exact hi d hd hj

theorem hookedIn_cancel {Ret : Int} {b : Bool} {s₁ : Server} (hw : HookedIn P s)
    (hs : s.registry.Sound) (hstop : s.StopDogNose i o = some (Ret, s₁))
    (hdel : s₁.DelCuteDogInList i = some (b, s')) : HookedIn P s' := by
  obtain ⟨hookers, hooked, hP⟩ := hw
  obtain ⟨hlinks, hlist, hclients, hdogs⟩ := StopDogNose_frame hstop
  rw [← hlist] at hP
  rw [← hlinks, ← hlist] at hooked
  obtain ⟨-, rfl⟩ | ⟨d, hd, hmem, hreg⟩ := registry_DelCuteDogInList hdel
  · exact ⟨hookers, hooked, hP⟩
  · have hnodup : s₁.CuteDogList.Nodup := hlist ▸ hs.nodup
    have hmem' : d ∈ s.CuteDogList := hlist ▸ hmem
    have hdog : (s₁.dogs d).isSome = true := hdogs d ((hs.listed d).mpr hmem')
    obtain ⟨b', s₂, hdel', hooked', -⟩ := DelCuteDogInList_hooked hooked hnodup hd hmem hdog
    rw [hdel] at hdel'
    cases hdel'
    have hlist' : s'.CuteDogList = s₁.CuteDogList.erase d := congrArg Registry.CuteDogList hreg
    refine ⟨hookers, hooked', fun e he => hP e ?_⟩
    rw [hlist'] at he
    exact List.mem_of_mem_erase he

theorem hookedIn_RespCatSetHooker {x : Option ι} (hw : HookedIn P s) (hs : s.registry.Sound)
    (hi : P i) (h : s.RespCatSetHooker x i = some s')
    (hguard : ∀ Item d, hookRequest x = .hook (some Item) →
      s.dogNamed Item s.CuteDogList = some (some d) → ¬Linked s i) : HookedIn P s' := by
  unfold RespCatSetHooker at h
  unfold hookRequest at hguard
  dsimp only at h hguard
  split at h
  · next hhook =>
      rw [if_pos hhook] at hguard
      simp only [Option.bind_eq_bind, Option.bind_eq_some_iff] at h
      obtain ⟨⟨b, s₁⟩, hadd, h⟩ := h
      obtain ⟨rfl, rfl, -⟩ | ⟨Name, d, links, rfl, hItem, hfound, hlinks, rfl⟩ :=
        AddHooker2CuteDog_eq_some hadd
      · -- the client becomes the first hooker of `d`, and it was linked nowhere
        cases h
        exact (talks_answer i _ _).hookedIn hw
      · cases h
        obtain ⟨hookers, hooked, hP⟩ := hw
        have hooked' := hooked.add (dogNamed_eq_some hfound).1
          (hooked.not_mem (hguard Name d (by rw [hItem]) hfound)) hlinks
        refine (talks_answer i _ _).hookedIn ⟨_, hooked', fun e he j hj => ?_⟩
        by_cases hed : e = d
        · rw [hed, Function.update_self] at hj
          rcases List.mem_cons.mp hj with rfl | hj
          · exact hi
          · exact hP d (hed ▸ he) j hj
        · rw [Function.update_of_ne hed] at hj
          exact hP e he j hj
  · split at h
    · simp only [Option.bind_eq_bind, Option.bind_eq_some_iff] at h
      obtain ⟨⟨b, s₁⟩, hdel, h⟩ := h
      have hw₁ := (hookedIn_DelHookerInCuteDog hw hs hdel).mono fun _ h => h.1
      cases b with
      | true =>
          cases h
          exact (talks_answer i _ _).hookedIn hw₁
      | false =>
          cases h
          exact (talks_answer i _ _).hookedIn hw₁
    · cases h
      exact hw

theorem hookedIn_createOrCancel {x : Option ι} {b : Bool} (hw : HookedIn P s)
    (hs : s.registry.Sound) (h : s.createOrCancel x i o = some (b, s')) : HookedIn P s' := by
  unfold createOrCancel at h
  dsimp only at h
  split at h
  · split at h
    · cases h
      exact hw
    · next F hF =>
        simp only [Option.bind_eq_bind, Option.bind_eq_some_iff] at h
        obtain ⟨⟨ret, s₁⟩, hstart, h⟩ := h
        have hw₁ : HookedIn P s₁ := by
          obtain ⟨hookers, hooked, hP⟩ := hw
          obtain ⟨hlinks, hlist⟩ | ⟨hnew, hlinks, hlist⟩ := StartDogNose_lists hstart
          · rw [← hlist] at hP
            rw [← hlinks, ← hlist] at hooked
            exact ⟨hookers, hooked, hP⟩
          · -- a new dog starts with an empty list
            have hfresh : o.malloc ∉ s.CuteDogList := by
              intro hmem
              obtain ⟨dog, hdog⟩ := hs.dog hmem
              have hdog' : s.dogs o.malloc = some dog := hdog
              rw [hnew] at hdog'
              cases hdog'
            have hooked' := hooked.init hfresh
            rw [← hlinks, ← hlist] at hooked'
            refine ⟨_, hooked', fun e he j hj => ?_⟩
            by_cases hed : e = o.malloc
            · rw [hed, Function.update_self] at hj
              cases hj
            · rw [Function.update_of_ne hed] at hj
              rw [hlist] at he
              exact hP e ((List.mem_cons.mp he).resolve_left hed) j hj
        split at h
        · next heq =>
            cases h
            cases heq
            exact hw₁
        · next heq =>
            cases h
            cases heq
            exact hw₁
  · split at h
    · simp only [Option.bind_eq_bind, Option.bind_eq_some_iff] at h
      obtain ⟨⟨Ret, s₁⟩, hstop, ⟨b', s₂⟩, hdel, h⟩ := h
      cases h
      exact hookedIn_cancel hw hs hstop hdel
    · cases h
      exact hw

/-- **A request** links its own client at most. -/
theorem hookedIn_IOProcessCatMsg {type : IksNodeType} {node : ι} (hw : HookedIn P s)
    (hs : s.registry.Sound) (hi : P i) (h : s.IOProcessCatMsg i type node o = some s')
    (hguard : HooksUnlinked s (.stanza i type node o)) : HookedIn P s' := by
  obtain ⟨-, -, rfl | rfl⟩ | ⟨handler, x, hof, h⟩ := IOProcessCatMsg_eq_some h
  · exact hw
  · exact (talks_answer i _ s).hookedIn hw
  · cases handler with
    | RespCatLogin0 =>
        simp only [runHandler, Option.map_eq_some_iff] at h
        obtain ⟨⟨b, s₁⟩, hlogin, rfl⟩ := h
        exact (talks_RespCatLogin0 hlogin).hookedIn hw
    | RespCatAllFilters => exact (talks_RespCatAllFilters h).hookedIn hw
    | RespCatSetHooker =>
        refine hookedIn_RespCatSetHooker hw hs hi h fun Item d hreq => hguard Item d ?_
        rw [requestOf, hof]
        exact hreq
    | RespCatCreateFilter =>
        simp only [runHandler, RespCatCreateFilter, Option.bind_eq_bind,
          Option.bind_eq_some_iff] at h
        obtain ⟨⟨b, s₁⟩, hfirst, h⟩ := h
        have hw₁ := hookedIn_createOrCancel hw hs hfirst
        cases b with
        | true => exact (talks_CuteDogBroadCast h).hookedIn hw₁
        | false =>
            cases h
            exact hw₁

/-- The end of a session unlinks a hooker and links nobody. -/
theorem hookedIn_shutdown (hw : HookedIn P s) (hs : s.registry.Sound)
    (h : s.shutdown i o = some s') : HookedIn P s' ∧
      ((s.ClientInfo i).lType = .CLIENT_USER_HOOKER → HookedIn (fun j => P j ∧ j ≠ i) s') := by
  have htype : (((s.ioClosed i).setClient i fun ci => { ci with Prs := false }).ClientInfo i).lType =
      (s.ClientInfo i).lType := by
    rw [setClient_ClientInfo_self, ioClosed, setClient_ClientInfo_self]
  unfold shutdown FreeObj at h
  set s₁ := (s.ioClosed i).setClient i fun ci => { ci with Prs := false } with hs₁
  have hw₁ : HookedIn P s₁ := hw
  have hsound : s₁.registry.Sound := by
    rw [hs₁, registry_setClient, ioClosed, registry_setClient]
    exact (hs.setSeat i _).setSeat i _
  simp only [htype, Option.bind_eq_bind] at h
  split at h
  · next hpioneer =>
      simp only [Option.bind_eq_some_iff] at h
      obtain ⟨⟨Ret, s₂⟩, hstop, ⟨b, s₃⟩, hdel, h⟩ := h
      cases h
      refine ⟨hookedIn_cancel hw₁ hsound hstop hdel, fun hhooker => ?_⟩
      rw [hpioneer] at hhooker
      cases hhooker
  · simp only [Option.bind_eq_some_iff] at h
    obtain ⟨⟨b, s₂⟩, hdel, h⟩ := h
    cases h
    have hunlinked := hookedIn_DelHookerInCuteDog hw₁ hsound hdel
    exact ⟨hunlinked.mono fun _ h => h.1, fun _ => hunlinked⟩
  · next hunknown =>
      rw [← Option.some.inj h]
      refine ⟨hw₁, fun hhooker => ?_⟩
      rw [hunknown] at hhooker
      cases hhooker

end Handlers

/-! ## The receive thread and the capture threads -/

section Receive

variable {P : Slot → Prop} {s s' : Server}

theorem hookedIn_SendTcp2Cats {p : Packet} {i : Slot} {b : Bool} (hw : HookedIn P s)
    (h : s.SendTcp2Cats p i = some (b, s')) : HookedIn P s' := by
  have hget := talks_IoGetSendMsgCell i s
  unfold SendTcp2Cats at h
  split at h
  · next heq =>
      cases h
      rw [heq] at hget
      exact hget.hookedIn hw
  · next c s₁ heq =>
      rw [heq] at hget
      simp only [Option.bind_eq_bind, Option.bind_eq_some_iff] at h
      obtain ⟨body, -, h⟩ := h
      have hcount : HookedIn P (s₁.setClient i fun ci =>
          { ci with iMsgNumID := (ci.iMsgNumID + 1) % 4294967296 }) := hget.hookedIn hw
      exact ((talks_send _ _ _).trans (talks_sendToHookers h)).hookedIn hcount

theorem hookedIn_popDogMsg (hw : HookedIn P s) (h : s.popDogMsg = some s') : HookedIn P s' := by
  unfold popDogMsg at h
  split at h
  · cases h
  · dsimp only at h
    split at h
    · cases h
      exact hw
    · cases h
      exact hw

theorem hookedIn_pickUp (hw : HookedIn P s) (i : Slot) : HookedIn P (s.pickUp i) := by
  unfold pickUp
  split
  · exact hw
  · exact hw

theorem hookedIn_firstPass (hw : HookedIn P s) (i : Slot) : HookedIn P (s.firstPass i) := by
  unfold firstPass
  dsimp only
  split
  · exact hw
  · split
    · exact hw
    · exact hookedIn_pickUp hw i

theorem hookedIn_sendPump (hw : HookedIn P s) (i : Slot) (sn : Nat) :
    HookedIn P (s.sendPump i sn) := by
  by_cases hlt : sn < (s.ClientInfo i).iCurSendLen
  · rw [sendPump_of_lt hlt]
    exact hw
  · obtain ⟨ring, pushed, -, heq⟩ := sendPump_of_le (Nat.le_of_not_lt hlt)
    rw [heq]
    split
    · refine hookedIn_pickUp ?_ i
      exact hw
    · split
      · exact hw
      · exact hw

theorem hookedIn_recycle (hw : HookedIn P s) (i : Slot) : HookedIn P (s.recycle i) := by
  obtain ⟨ring, pushed, -, heq⟩ := recycle_spec i s
  rw [heq]
  exact hw

theorem hookedIn_acceptClient (hw : HookedIn P s) (sd : Nat) : HookedIn P (s.acceptClient sd) := by
  unfold acceptClient
  split
  · exact hw
  · exact hw

end Receive

end Server

/-! ## Operations -/

/-- **One operation** links the client of its stanza at most. -/
theorem hookedIn_step {ι : Type} [Iksemel ι] {P : Slot → Prop} {s s' : Server} {a : ServerAction ι}
    (hw : HookedIn P s) (hs : s.registry.Sound) (hguard : HooksUnlinked s a)
    (hP : ∀ i type node o, a = .stanza i type node o → i ∈ s.WorkClientList →
      (s.ClientInfo i).Prs = true → P i)
    (h : serverStep s a = some s') : HookedIn P s' := by
  cases serverStep_eq_some h with
  | accept sd => exact Server.hookedIn_acceptClient hw sd
  | stanza i type node o hi hPrs _ hmsg =>
      exact Server.hookedIn_IOProcessCatMsg hw hs (hP i type node o rfl hi hPrs) hmsg hguard
  | shutdown i o _ _ hclose => exact (Server.hookedIn_shutdown hw hs hclose).1
  | packet t p _ hsend => exact Server.hookedIn_SendTcp2Cats hw hsend
  | loopReturns t _ => exact hw
  | drain hpop => exact Server.hookedIn_popDogMsg hw hpop
  | pickUp i _ _ => exact Server.hookedIn_firstPass hw i
  | send i sn _ _ _ => exact Server.hookedIn_sendPump hw i sn
  | toEnd i _ => exact hw
  | recycle i _ _ => exact Server.hookedIn_recycle hw i
  | allocator answer => exact hw

end Netflow
