import Netflow.Registry.HookLists

set_option autoImplicit false

/-! # Requests that are handled

From a state with listed dogs in memory and well-formed hook lists a request whose answers from
outside are fresh is handled to its end, and it takes no more message cells than it has texts to
send. With `serverStep_follows` this says what the next state is.
-/

namespace Netflow

open Iksemel

section Requests

variable {ι : Type} [Iksemel ι] {type : IksNodeType} {node : ι}

/-! ## From what is asked for to the handler -/

theorem hookRequest_eq_hook {x : Option ι} {Item : Option CStr} (h : hookRequest x = .hook Item) :
    iks_strcmp ι (iks_find_attrib x (CStr.lit "action")) (some (CStr.lit "hook")) = 0 ∧
      iks_find_cdata x (CStr.lit "item") = Item := by
  unfold hookRequest at h
  dsimp only at h
  split at h
  · next hhook => exact ⟨hhook, Request.hook.inj h⟩
  · split at h
    · cases h
    · cases h

theorem hookRequest_eq_unhook {x : Option ι} (h : hookRequest x = .unhook) :
    iks_strcmp ι (iks_find_attrib x (CStr.lit "action")) (some (CStr.lit "hook")) ≠ 0 ∧
      iks_strcmp ι (iks_find_attrib x (CStr.lit "action")) (some (CStr.lit "cancel")) = 0 := by
  unfold hookRequest at h
  dsimp only at h
  split at h
  · cases h
  · next hhook =>
      split at h
      · next hcancel => exact ⟨hhook, hcancel⟩
      · cases h

theorem hookRequest_ne {x : Option ι} {F N : Option CStr} {m : Nat} :
    hookRequest x ≠ .create F N m ∧ hookRequest x ≠ .cancel := by
  unfold hookRequest
  dsimp only
  split
  · exact ⟨nofun, nofun⟩
  · split
    · exact ⟨nofun, nofun⟩
    · exact ⟨nofun, nofun⟩

theorem filterRequest_eq_create {x : Option ι} {F N : Option CStr} {m : Nat}
    (h : filterRequest x = .create F N m) :
    iks_strcmp ι (iks_find_attrib x (CStr.lit "action")) (some (CStr.lit "create")) = 0 ∧
      iks_find_cdata x (CStr.lit "filterstring") = F ∧
      iks_find_cdata x (CStr.lit "username") = N ∧ Server.modelOf x = m := by
  unfold filterRequest at h
  dsimp only at h
  split at h
  · next hcreate =>
      obtain ⟨hF, hN, hm⟩ := Request.create.inj h
      exact ⟨hcreate, hF, hN, hm⟩
  · split at h
    · cases h
    · cases h

theorem filterRequest_eq_cancel {x : Option ι} (h : filterRequest x = .cancel) :
    iks_strcmp ι (iks_find_attrib x (CStr.lit "action")) (some (CStr.lit "create")) ≠ 0 ∧
      iks_strcmp ι (iks_find_attrib x (CStr.lit "action")) (some (CStr.lit "cancel")) = 0 := by
  unfold filterRequest at h
  dsimp only at h
  split at h
  · cases h
  · next hcreate =>
      split at h
      · next hcancel => exact ⟨hcreate, hcancel⟩
      · cases h

theorem filterRequest_ne_hook {x : Option ι} {Item : Option CStr} :
    filterRequest x ≠ .hook Item := by
  unfold filterRequest
  dsimp only
  split
  · exact nofun
  · split
    · exact nofun
    · exact nofun

theorem requestOf_eq_hook {Item : Option CStr} (h : requestOf type node = .hook Item) :
    ∃ x, handlerOf type node = (some .RespCatSetHooker, x) ∧ hookRequest x = .hook Item := by
  unfold requestOf at h
  split at h
  · next x heq => exact ⟨x, heq, h⟩
  · exact absurd h filterRequest_ne_hook
  · cases h

theorem requestOf_eq_create {F N : Option CStr} {m : Nat}
    (h : requestOf type node = .create F N m) :
    ∃ x, handlerOf type node = (some .RespCatCreateFilter, x) ∧ filterRequest x = .create F N m := by
  unfold requestOf at h
  split at h
  · exact absurd h hookRequest_ne.1
  · next x heq => exact ⟨x, heq, h⟩
  · cases h

theorem requestOf_eq_cancel (h : requestOf type node = .cancel) :
    ∃ x, handlerOf type node = (some .RespCatCreateFilter, x) ∧ filterRequest x = .cancel := by
  unfold requestOf at h
  split at h
  · exact absurd h (hookRequest_ne (F := none) (N := none) (m := 0)).2
  · next x heq => exact ⟨x, heq, h⟩
  · cases h

theorem IOProcessCatMsg_of_handler {handler : IqHandler} {x : Option ι} {s : Server} {i : Slot}
    {o : Outcome} (h : handlerOf type node = (some handler, x)) :
    s.IOProcessCatMsg i type node o = s.runHandler handler x i o := by
  unfold handlerOf at h
  dsimp only at h
  split at h
  · next hiq =>
      obtain ⟨rfl, hpak⟩ := hiq
      obtain ⟨hjoin, hx⟩ := Prod.mk.inj h
      subst hx
      have hhandler := Option.join_eq_some_iff.mp hjoin
      simp only [Server.IOProcessCatMsg, hpak, Server.IOXMLIq, hhandler, Option.bind_eq_bind,
        Option.bind_some]
  · cases h

end Requests

namespace Server

variable {s : Server}

/-! ## The functions that return -/

theorem GetAllCuteDogsFilterString_isSome (size : Nat)
    (hdogs : ∀ d ∈ s.CuteDogList, (s.dogs d).isSome = true) :
    ∃ Rows, s.GetAllCuteDogsFilterString size = some Rows := by
  have hfold : ∀ (l : List DogPtr) (str : CStr), (∀ d ∈ l, (s.dogs d).isSome = true) →
      ∃ Rows, l.foldlM (fun _ d => (s.dogs d).map fun pCuteDog =>
        CStr.snprintf size (filterRow pCuteDog)) str = some Rows := by
    intro l
    induction l with
    | nil => exact fun str _ => ⟨str, rfl⟩
    | cons d rest ih =>
        intro str hl
        obtain ⟨dog, hdog⟩ := Option.isSome_iff_exists.mp (hl d List.mem_cons_self)
        obtain ⟨Rows, hRows⟩ := ih (CStr.snprintf size (filterRow dog))
          fun e he => hl e (List.mem_cons_of_mem d he)
        refine ⟨Rows, ?_⟩
        rw [List.foldlM_cons, hdog]
        exact hRows
  exact hfold s.CuteDogList _ hdogs

theorem CuteDogBroadCast_isSome (hdogs : ∀ d ∈ s.CuteDogList, (s.dogs d).isSome = true) :
    ∃ s', s.CuteDogBroadCast = some s' ∧ Spends (2 * s.WorkClientList.length) s s' := by
  obtain ⟨Rows, hRows⟩ := GetAllCuteDogsFilterString_isSome 1024 hdogs
  rw [CuteDogBroadCast, hRows]
  exact ⟨_, rfl, spends_broadcastTo _ _ s⟩

theorem dogNamed_isSome {Name : CStr} {l : List DogPtr}
    (hdogs : ∀ d ∈ l, (s.dogs d).isSome = true) : ∃ found, s.dogNamed Name l = some found := by
  induction l with
  | nil => exact ⟨none, rfl⟩
  | cons d rest ih =>
      obtain ⟨dog, hdog⟩ := Option.isSome_iff_exists.mp (hdogs d List.mem_cons_self)
      obtain ⟨found, hfound⟩ := ih fun e he => hdogs e (List.mem_cons_of_mem d he)
      rw [dogNamed, hdog, Option.bind_eq_bind, Option.bind_some]
      split
      · exact ⟨some d, rfl⟩
      · exact ⟨found, hfound⟩

/-- The server once the capture `h` was opened and its filter set. -/
def withCapture (F : CStr) (h : PcapHandle) (i : Slot) (o : Outcome) (s : Server) : Server :=
  ((s.withHandle F h).SetCapFilter (some h) i o).2

theorem registry_withCapture (F : CStr) (h : PcapHandle) (i : Slot) (o : Outcome) :
    (s.withCapture F h i o).registry = s.registry.opens h :=
  (talks_SetCapFilter _ _ _ _).registry.trans (registry_withHandle s F h)

theorem links_withCapture (F : CStr) (h : PcapHandle) (i : Slot) (o : Outcome) :
    (s.withCapture F h i o).links = s.links :=
  (talks_SetCapFilter _ _ _ _).links.trans (links_withHandle s F h)

theorem createThread_eq {d : DogPtr} {dog : CUTEDOG} {h : PcapHandle} (tid : ThreadId)
    (hdog : s.dogs d = some dog) (hhandle : dog.Handle = some h) :
    s.createThread tid d =
      if tid ∈ s.threads.map Capture.tid then none
      else some (s.withThread { tid := tid, handle := h, dog := d, pClientInfo := dog.Master }) := by
  rw [createThread]
  split
  · rfl
  · simp only [StartDogNoseThread, hdog, hhandle, Option.bind_eq_bind, Option.bind_some]
    rfl

theorem pFifoDogMsgFree_withHandle (F : CStr) (h : PcapHandle) :
    (s.withHandle F h).pFifoDogMsgFree = s.pFifoDogMsgFree := pFifoDogMsgFree_setCallBack s F

theorem spends_withCapture (F : CStr) (h : PcapHandle) (i : Slot) (o : Outcome) :
    Spends 1 s (s.withCapture F h i o) := by
  have hspends := spends_SetCapFilter (some h) i o (s.withHandle F h)
  rwa [Spends, pFifoDogMsgFree_withHandle] at hspends

theorem openLive_withHandle {F : CStr} {h : PcapHandle} (hopen : h ∉ s.opened) :
    (s.setCallBack F).openLive (some h) = some (s.withHandle F h) := by
  rw [openLive, opened_setCallBack, if_neg hopen]
  rfl

/-- A capture that is opened with its filter set gets its dog, and a thread when there is one. -/
theorem StartDogNose_of_captures {F N : CStr} {i : Slot} {m : Nat} {o : Outcome} {h : PcapHandle}
    (hcap : o.captures m h) (hcell : Registry.CellFree s) (hopen : h ∉ s.opened)
    (hnew : s.dogs o.malloc = none) :
    s.StartDogNose F (some N) i m o =
      match o.pthread_create with
      | none => some (0, (s.withCapture F h i o).listDog o.malloc (newDog h .tidp N F i) i)
      | some tid =>
          if tid ∈ s.threads.map Capture.tid then none
          else some (1, ((s.withCapture F h i o).listDog o.malloc (newDog h .tidp N F i) i).withThread
            { tid := tid, handle := h, dog := o.malloc, pClientInfo := i }) := by
  obtain ⟨hlive, hfilter, hlink⟩ := hcap
  have hset : (s.withHandle F h).SetCapFilter (some h) i o = (true, s.withCapture F h i o) := by
    refine Prod.ext ((SetCapFilter_fst h i o _).mpr ⟨hfilter, ?_⟩) rfl
    rw [pFifoDogMsgFree_withHandle]
    exact hcell
  have hhandle : (s.withCapture F h i o).pcap_handle = some h :=
    pcap_handle_SetCapFilter (s.withHandle F h) (some h) i o
  have hreg := registry_withCapture (s := s) F h i o
  have hdogs : (s.withCapture F h i o).dogs o.malloc = none := by
    rw [← hnew]
    exact congrFun (congrArg Registry.dogs hreg) o.malloc
  have hthreads : (s.withCapture F h i o).threads = s.threads := congrArg Registry.threads hreg
  have hadd : (s.withCapture F h i o).AddCuteDog2List (some h) .tidp (some N) F i o.malloc =
      some (some o.malloc, (s.withCapture F h i o).listDog o.malloc (newDog h .tidp N F i) i) := by
    simp [AddCuteDog2List, hdogs]
  have hset' : (s.withHandle F h).SetCapFilter (s.withHandle F h).pcap_handle i o =
      (true, s.withCapture F h i o) := hset
  simp only [StartDogNose, hlive, Option.bind_eq_bind, openLive_withHandle hopen, Option.bind_some,
    hset', hlink, ne_eq, not_true_eq_false, if_false, hhandle, hadd]
  cases hthread : o.pthread_create with
  | none => rfl
  | some tid =>
      have hdog : ((s.withCapture F h i o).listDog o.malloc (newDog h .tidp N F i) i).dogs o.malloc =
          some (newDog h .tidp N F i) := Function.update_self ..
      have hthreads' : ((s.withCapture F h i o).listDog o.malloc (newDog h .tidp N F i) i).threads =
          s.threads := hthreads
      have hcreate := createThread_eq tid hdog rfl
      rw [hthreads'] at hcreate
      simp only [hcreate]
      split
      · rfl
      · rfl

theorem pFifoDogMsgFree_stopCapture (s : Server) (k : PcapHandle) (d : DogPtr) (dog : CUTEDOG)
    (Thid : PthreadPtr) (Ret : Int) :
    ({ s with opened := s.opened.erase k }.stopCapture d dog Thid Ret).pFifoDogMsgFree =
      s.pFifoDogMsgFree := by
  cases Thid
  unfold stopCapture pthread_cancel
  dsimp only
  split
  · rfl
  · split
    · rfl
    · rfl

/-- **`StopDogNose` returns** when the handle of the dog is open. -/
theorem StopDogNose_of_open {i : Slot} {o : Outcome} {d : DogPtr} {dog : CUTEDOG}
    (hd : (s.ClientInfo i).CuteDog = some d) (hdog : s.dogs d = some dog)
    (hopen : ∀ h, dog.Handle = some h → h ∈ s.opened ∧ dog.Thid = some .tidp) :
    ∃ Ret s', s.StopDogNose i o = some (Ret, s') ∧ Spends 1 s s' := by
  cases hhandle : dog.Handle with
  | none =>
      refine ⟨0, s, ?_, Nat.le_add_right _ _⟩
      simp only [StopDogNose, hd, hdog, hhandle, Option.bind_eq_bind, Option.bind_some]
  | some h =>
      obtain ⟨hmem, hthid⟩ := hopen h hhandle
      have hclose : s.pcap_close h = some { s with opened := s.opened.erase h } := if_pos hmem
      have hspends := spends_answer i (stopAnswer o.pthread_cancel)
        (({ s with opened := s.opened.erase h }).stopCapture d dog .tidp o.pthread_cancel)
      rw [Spends, pFifoDogMsgFree_stopCapture] at hspends
      simp only [StopDogNose, hd, hdog, hhandle, hclose, hthid, Option.bind_eq_bind,
        Option.bind_some]
      split
      · next heq =>
          rw [heq] at hspends
          exact ⟨_, _, rfl, hspends⟩
      · next heq =>
          rw [heq] at hspends
          exact ⟨_, _, rfl, hspends⟩

theorem StopDogNose_isSome {i : Slot} {o : Outcome} {d : DogPtr} (hs : s.registry.Sound)
    (hd : (s.ClientInfo i).CuteDog = some d) (hmem : d ∈ s.CuteDogList) :
    ∃ Ret s', s.StopDogNose i o = some (Ret, s') ∧ Spends 1 s s' := by
  obtain ⟨dog, hdog⟩ := hs.dog hmem
  refine StopDogNose_of_open hd hdog fun h hhandle => ?_
  obtain ⟨k, hopen, hk⟩ := hs.handles d dog hdog
  rw [hhandle] at hk
  cases hk
  exact ⟨hopen, hs.thid d dog hdog⟩

end Server

/-! ## The steps -/

section Steps

variable {ι : Type} [Iksemel ι] {s : Server} {i : Slot} {type : IksNodeType} {node : ι} {o : Outcome}

/-- Stanzas of the client are handled. -/
def Ready (s : Server) (i : Slot) : Prop :=
  i ∈ s.WorkClientList ∧ (s.ClientInfo i).Prs = true ∧
    (s.ClientInfo i).lStatus ≠ .STATUS_IOCMDCLOSE

/-- The cells that a create or a cancel takes for its answers. -/
def answersOf (s : Server) : Nat := CLIENTNUM + 1 + 2 * s.WorkClientList.length

section Create

variable {F N : CStr} {m : Nat} {h : PcapHandle} (hs : s.registry.Sound) (hready : Ready s i)
  (hreq : requestOf type node = .create (some F) (some N) m) (hcap : o.captures m h)
  (hcell : Registry.CellFree s) (hopen : h ∉ s.opened) (hnew : s.dogs o.malloc = none)

include hs hready hreq hcap hcell hopen hnew

/-- **A filter is created**: the capture runs and the client is its master. -/
theorem create_starts {tid : ThreadId} (hthread : o.pthread_create = some tid)
    (hfresh : tid ∉ s.threads.map Capture.tid) :
    ∃ s', serverStep s (.stanza i type node o) = some s' ∧
      s'.registry = ((s.registry.opens h).list i o.malloc (newDog h .tidp N F i)).start
        { tid := tid, handle := h, dog := o.malloc, pClientInfo := i } ∧
      s'.links = INIT_LIST_HEAD s.links (.ListHooker o.malloc) ∧
      Server.Spends (answersOf s) s s' := by
  obtain ⟨x, hof, hfilter⟩ := requestOf_eq_create hreq
  obtain ⟨hcreate, hF, hN, hm⟩ := filterRequest_eq_create hfilter
  have hstart := Server.StartDogNose_of_captures (N := N) (F := F) (i := i) hcap hcell hopen hnew
  rw [hthread] at hstart
  simp only [if_neg hfresh] at hstart
  set s₁ := (((s.withCapture F h i o).listDog o.malloc (newDog h .tidp N F i) i).withThread
    { tid := tid, handle := h, dog := o.malloc, pClientInfo := i }) with hs₁
  have hfirst : s.createOrCancel x i o = some (true, s₁.setType i .CLIENT_USER_PIONEER) := by
    simp only [Server.createOrCancel, hcreate, hF, hN, hm, hstart, Option.bind_eq_bind,
      Option.bind_some, if_true]
  have hsound := hs.changed (Server.changed_createOrCancel hfirst)
  obtain ⟨s', hbroad, hspends⟩ := Server.CuteDogBroadCast_isSome
    (s := s₁.setType i .CLIENT_USER_PIONEER) fun d hd => (hsound.listed d).mpr hd
  have hmsg : s.IOProcessCatMsg i type node o = some s' := by
    rw [IOProcessCatMsg_of_handler hof]
    simp only [Server.runHandler, Server.RespCatCreateFilter, hfirst, Option.bind_eq_bind,
      Option.bind_some, hbroad]
  refine ⟨s', (if_pos hready).trans hmsg, ?_, ?_, ?_⟩
  · rw [(Server.talks_CuteDogBroadCast hbroad).registry, Server.registry_setType,
      ← Server.registry_withCapture F h i o, ← Server.registry_listDog]
    rfl
  · rw [(Server.talks_CuteDogBroadCast hbroad).links]
    show INIT_LIST_HEAD (s.withCapture F h i o).links _ = _
    rw [Server.links_withCapture]
  · have hwork : s₁.WorkClientList = s.WorkClientList :=
      congrArg Registry.WorkClientList (Server.registry_withCapture F h i o)
    have hfilled : Server.Spends 1 s (s₁.setType i .CLIENT_USER_PIONEER) :=
      Server.spends_withCapture F h i o
    have htotal := hfilled.trans hspends
    refine htotal.mono ?_
    show 1 + 2 * s₁.WorkClientList.length ≤ answersOf s
    rw [hwork, answersOf]
    omega

omit hs in
/-- A filter is created and no thread for it: the dog is listed, and no client is told. -/
theorem create_lists (hthread : o.pthread_create = none) :
    serverStep s (.stanza i type node o) =
      some ((s.withCapture F h i o).listDog o.malloc (newDog h .tidp N F i) i) := by
  obtain ⟨x, hof, hfilter⟩ := requestOf_eq_create hreq
  obtain ⟨hcreate, hF, hN, hm⟩ := filterRequest_eq_create hfilter
  have hstart := Server.StartDogNose_of_captures (N := N) (F := F) (i := i) hcap hcell hopen hnew
  rw [hthread] at hstart
  have hmsg : s.IOProcessCatMsg i type node o =
      some ((s.withCapture F h i o).listDog o.malloc (newDog h .tidp N F i) i) := by
    rw [IOProcessCatMsg_of_handler hof]
    simp only [Server.runHandler, Server.RespCatCreateFilter, Server.createOrCancel, hcreate, hF, hN,
      hm, hstart, Option.bind_eq_bind, Option.bind_some, if_true]
  exact (if_pos hready).trans hmsg

end Create

/-- **A client hooks a dog** it is not linked to. -/
theorem hook_hooks {Item : CStr} {d : DogPtr} {links : LinkMem HookNode} (hready : Ready s i)
    (hreq : requestOf type node = .hook (some Item))
    (hfound : s.dogNamed Item s.CuteDogList = some (some d))
    (hadd : list_add s.links (.list1 i) (.ListHooker d) = some links) :
    ∃ s', serverStep s (.stanza i type node o) = some s' ∧ s'.registry = s.registry.hook i d ∧
      s'.links = links ∧ Server.Spends 1 s s' := by
  obtain ⟨x, hof, hhook⟩ := requestOf_eq_hook hreq
  obtain ⟨haction, hItem⟩ := hookRequest_eq_hook hhook
  set s₁ := ({ s with links := links }.setCuteDog i (some d)).setType i .CLIENT_USER_HOOKER with hs₁
  obtain ⟨str, hmsg⟩ : ∃ str, s.IOProcessCatMsg i type node o = some (s₁.answer i str).2 := by
    refine ⟨CStr.snprintf 512 (CStr.lit
      "<iq type='result'><query xmlns='filter:hook' action='hook'><error id='OK'/></query></iq>"), ?_⟩
    rw [IOProcessCatMsg_of_handler hof]
    simp only [Server.runHandler, Server.RespCatSetHooker, haction, hItem, Server.AddHooker2CuteDog,
      hfound, hadd, Option.bind_eq_bind, Option.bind_some, if_true]
    rfl
  refine ⟨_, (if_pos hready).trans hmsg, ?_, ?_, Server.spends_answer i str s₁⟩
  · rw [(Server.talks_answer i str s₁).registry, hs₁, Server.registry_setType,
      Server.registry_setCuteDog, Registry.setSeat_setSeat]
    rfl
  · rw [(Server.talks_answer i str s₁).links]
    rfl

theorem Registry.WorkClientList_stop (r : Registry) (Handle : Option PcapHandle) (Ret : Int) :
    (r.stop Handle Ret).WorkClientList = r.WorkClientList := by
  cases Handle with
  | none => rfl
  | some h => rfl

/-- A cancel by a client that points to a dog deletes it. -/
theorem Registry.Changed.deletes {r r' : Registry} {cell : Prop} {d : DogPtr}
    (h : Changed i o cell .cancel r r') (hd : (r.seat i).CuteDog = some d) :
    ∃ dog, r.dogs d = some dog ∧ r' = (r.stop dog.Handle o.pthread_cancel).free i d := by
  cases h with
  | kept hnone =>
      have hnone' : (r.seat i).CuteDog = none := hnone
      rw [hd] at hnone'
      cases hnone'
  | @cancelled _ e dog he _ hdog _ =>
      rw [hd] at he
      cases he
      exact ⟨dog, hdog, rfl⟩

/-- The request to cancel of a client that points to a listed dog stops and deletes it. -/
theorem createOrCancel_cancel {hookers : DogPtr → List Slot} {d : DogPtr} {x : Option ι}
    (hs : s.registry.Sound) (hooked : Hooked s.links s.CuteDogList hookers)
    (hfilter : filterRequest x = .cancel) (hd : (s.ClientInfo i).CuteDog = some d)
    (hmem : d ∈ s.CuteDogList) :
    ∃ s₂, s.createOrCancel x i o = some (true, s₂) ∧ Server.Spends (1 + CLIENTNUM) s s₂ := by
  obtain ⟨hcreate, hcancel⟩ := filterRequest_eq_cancel hfilter
  obtain ⟨Ret, s₁, hstop, hspends₁⟩ := Server.StopDogNose_isSome (o := o) hs hd hmem
  obtain ⟨hlinks, hlist, hclients, hdogs⟩ := Server.StopDogNose_frame hstop
  have hsome : (s.dogs d).isSome = true := (hs.listed d).mpr hmem
  rw [← hlinks, ← hlist] at hooked
  rw [← hclients] at hd
  rw [← hlist] at hmem
  obtain ⟨b, s₂, hdel, -, hcount₂⟩ := Server.DelCuteDogInList_hooked hooked
    (hlist ▸ hs.nodup) hd hmem (hdogs d hsome)
  have hspends₂ : Server.Spends CLIENTNUM s₁ s₂ := by
    have hle := Server.length_hookers_le (hooked.circle d hmem)
    rw [Server.Spends, hcount₂]
    omega
  refine ⟨s₂, ?_, hspends₁.trans hspends₂⟩
  simp only [Server.createOrCancel, if_neg hcreate, hcancel, hstop, hdel, Option.bind_eq_bind,
    Option.bind_some, if_true]

/-- **A filter is cancelled**: the dog of the client is stopped and deleted. -/
theorem cancel_cancels {hookers : DogPtr → List Slot} {d : DogPtr} {dog : CUTEDOG}
    (hs : s.registry.Sound) (hooked : Hooked s.links s.CuteDogList hookers) (hready : Ready s i)
    (hreq : requestOf type node = .cancel) (hd : (s.ClientInfo i).CuteDog = some d)
    (hdog : s.dogs d = some dog) :
    ∃ s', serverStep s (.stanza i type node o) = some s' ∧
      s'.registry = (s.registry.stop dog.Handle o.pthread_cancel).free i d ∧
      Server.Spends (answersOf s) s s' := by
  obtain ⟨x, hof, hfilter⟩ := requestOf_eq_cancel hreq
  obtain ⟨s₂, hfirst, hspends₂⟩ :=
    createOrCancel_cancel (o := o) hs hooked hfilter hd (hs.mem hdog)
  have hchanged := Server.changed_createOrCancel hfirst
  rw [hfilter] at hchanged
  have hsound := hs.changed hchanged
  obtain ⟨s', hbroad, hspends₃⟩ := Server.CuteDogBroadCast_isSome (s := s₂)
    fun d hd => (hsound.listed d).mpr hd
  have hmsg : s.IOProcessCatMsg i type node o = some s' := by
    rw [IOProcessCatMsg_of_handler hof]
    simp only [Server.runHandler, Server.RespCatCreateFilter, hfirst, Option.bind_eq_bind,
      Option.bind_some, hbroad]
  have hreg : s₂.registry = (s.registry.stop dog.Handle o.pthread_cancel).free i d := by
    obtain ⟨dog', hdog', hreg⟩ := hchanged.deletes hd
    have hsame : s.dogs d = some dog' := hdog'
    rw [hdog] at hsame
    cases hsame
    exact hreg
  refine ⟨s', (if_pos hready).trans hmsg, ?_, ?_⟩
  · rw [(Server.talks_CuteDogBroadCast hbroad).registry, hreg]
  · have hwork : s₂.WorkClientList = s.WorkClientList := by
      -- so does the broadcast after the cancel
      have hwork := congrArg Registry.WorkClientList hreg
      exact hwork.trans (Registry.WorkClientList_stop s.registry dog.Handle o.pthread_cancel)
    refine (hspends₂.trans hspends₃).mono ?_
    rw [hwork, answersOf]
    omega

end Steps

end Netflow
