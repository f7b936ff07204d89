import Netflow.Registry.Shared

set_option autoImplicit false

/-! # The names of the dogs

A login is answered `OK` when no listed dog has the name, and nothing reserves the name until the
create that follows, which stores at most 31 bytes of it. So the names in `CuteDogList` stay pairwise
different exactly in the runs in which every dog is listed under a stored name that is not yet in the
list (`CreatesNewName`). As long as they are, a hook request reaches the one dog of its name.
-/

namespace Netflow

open Iksemel

namespace Registry

/-- The listed dogs have pairwise different names. -/
def NamesUnique (r : Registry) : Prop :=
  ∀ d ∈ r.CuteDogList, ∀ e ∈ r.CuteDogList, ∀ dog dog', r.dogs d = some dog → r.dogs e = some dog' →
    dog.Name = dog'.Name → d = e

/-- What is stored of the name `N` is the name of no listed dog. -/
def NameFree (r : Registry) (N : CStr) : Prop :=
  ∀ d ∈ r.CuteDogList, ∀ dog, r.dogs d = some dog → dog.Name ≠ CStr.strncpy 32 N

/-- The guard: a create request that lists a dog has a name that is not yet stored. -/
def CreatesNewName {ι : Type} [Iksemel ι] (s : Server) : ServerAction ι → Prop
  | .stanza _ type node o =>
      match requestOf type node with
      | .create (some _) (some N) m =>
          (∃ h, o.captures m h) → CellFree s → NameFree s.registry N
      | _ => True
  | _ => True

variable {r : Registry}

/-! ## The operations on the names -/

/-- A list that lost dogs at most keeps the names apart. -/
theorem NamesUnique.of_fewer {r' : Registry} (hr : NamesUnique r)
    (hlist : ∀ d ∈ r'.CuteDogList, d ∈ r.CuteDogList)
    (hdogs : ∀ d dog, r'.dogs d = some dog → r.dogs d = some dog) : NamesUnique r' :=
  fun d hd e he dog dog' hdog hdog' =>
    hr d (hlist d hd) e (hlist e he) dog dog' (hdogs d dog hdog) (hdogs e dog' hdog')

theorem NamesUnique.same {r' : Registry} (hr : NamesUnique r)
    (hlist : r'.CuteDogList = r.CuteDogList) (hdogs : r'.dogs = r.dogs) : NamesUnique r' :=
  hr.of_fewer (fun _ hd => hlist ▸ hd) fun _ _ hdog => hdogs ▸ hdog

/-- A new dog under a name that is not yet stored. -/
theorem NamesUnique.list (hr : NamesUnique r) {d : DogPtr} {h : PcapHandle} {N F : CStr} {i : Slot}
    (hfree : NameFree r N) : NamesUnique (r.list i d (newDog h .tidp N F i)) := by
  have hold : ∀ {e : DogPtr}, e ≠ d → e ∈ (r.list i d (newDog h .tidp N F i)).CuteDogList →
      e ∈ r.CuteDogList := fun hne he => (List.mem_cons.mp he).resolve_left hne
  intro e he e' he' dog dog' hdog hdog' hname
  obtain ⟨rfl, rfl⟩ | ⟨hne, hdog⟩ := dogs_list hdog
  · obtain ⟨rfl, -⟩ | ⟨hne', hdog'⟩ := dogs_list hdog'
    · rfl
    · exact absurd hname.symm (hfree e' (hold hne' he') dog' hdog')
  · obtain ⟨-, rfl⟩ | ⟨hne', hdog'⟩ := dogs_list hdog'
    · exact absurd hname (hfree e (hold hne he) dog hdog)
    · exact hr e (hold hne he) e' (hold hne' he') dog dog' hdog hdog' hname

theorem NamesUnique.cancel (hr : NamesUnique r) (i : Slot) (d : DogPtr) (Handle : Option PcapHandle)
    (Ret : Int) : NamesUnique ((r.stop Handle Ret).free i d) := by
  refine hr.of_fewer (fun e he => ?_) fun e dog hdog => ?_
  · rw [← CuteDogList_stop r Handle Ret]
    exact List.mem_of_mem_erase he
  · have hkept := (dogs_free hdog).2
    rwa [dogs_stop] at hkept

theorem NamesUnique.changed (hr : NamesUnique r) {r' : Registry} {i : Slot} {o : Outcome} {cell : Prop}
    {q : Request} (h : Changed i o cell q r r')
    (hnew : ∀ F N m, q = .create (some F) (some N) m → (∃ h, o.captures m h) → cell → NameFree r N) :
    NamesUnique r' := by
  cases h with
  | kept _ => exact hr
  | hooked _ _ _ => exact hr.same rfl rfl
  | opened _ _ => exact hr.same rfl rfl
  | @listed _ F N m k hcap hcell _ _ _ =>
      exact NamesUnique.list (r := r.opens k) (hr.same rfl rfl) (hnew F N m rfl ⟨k, hcap⟩ hcell)
  | @started _ F N m k tid hcap hcell _ _ _ _ =>
      refine NamesUnique.same (r := (r.opens k).list i o.malloc (newDog k .tidp N F i)) ?_ rfl rfl
      exact NamesUnique.list (r := r.opens k) (hr.same rfl rfl) (hnew F N m rfl ⟨k, hcap⟩ hcell)
  | cancelled _ _ _ _ => exact hr.cancel _ _ _ _

/-- An operation that meets the guard keeps the names apart. -/
theorem NamesUnique.follows {ι : Type} [Iksemel ι] {s : Server} {r' : Registry} {a : ServerAction ι}
    (hr : NamesUnique s.registry) (h : Follows s r' a) (hguard : CreatesNewName s a) :
    NamesUnique r' := by
  cases a with
  | accept sd =>
      obtain ⟨-, rfl⟩ | ⟨i, rest, -, rfl⟩ := h
      · exact hr
      · exact hr.same rfl rfl
  | stanza i type node o =>
      refine hr.changed h.2.2 fun F N m hreq => ?_
      simp only [CreatesNewName, hreq] at hguard
      exact hguard
  | shutdown i o =>
      obtain ⟨-, r₁, rfl, hr₁⟩ := h
      refine NamesUnique.same (r := r₁) ?_ rfl rfl
      split at hr₁
      · exact hr.changed hr₁ nofun
      · rw [hr₁]
        exact hr
  | loopReturns t =>
      rw [h]
      exact hr.same rfl rfl
  | send i sn =>
      obtain rfl | rfl := h
      · exact hr
      · exact hr.same rfl rfl
  | toEnd i =>
      rw [h]
      exact hr.same rfl rfl
  | recycle i =>
      rw [h.2.2]
      exact hr.same rfl rfl
  | packet t p => exact h ▸ hr
  | drain => exact h ▸ hr
  | pickUp i => exact h ▸ hr
  | allocator answer => exact h ▸ hr

end Registry

/-! ## The dog a create request lists -/

/-- When the capture is opened with its filter and the answer finds a cell, the dog is listed. -/
theorem dogs_StartDogNose {s s' : Server} {F N : CStr} {i : Slot} {m : Nat} {o : Outcome}
    {h : PcapHandle} {ret : Int} (hcap : o.captures m h) (hcell : Registry.CellFree s)
    (hstart : s.StartDogNose F (some N) i m o = some (ret, s')) :
    s.dogs o.malloc = none ∧ s'.CuteDogList = o.malloc :: s.CuteDogList ∧
      s'.dogs = Function.update s.dogs o.malloc (some (newDog h .tidp N F i)) := by
  obtain ⟨hlive, hfilter, hlink⟩ := hcap
  have hlisted : ∀ {k : PcapHandle} {n : CStr} {s₂ : Server},
      o.pcap_open_live (netInterface m) = some k → some N = some n →
      s₂.registry = s.registry.opens k → s₂.dogs o.malloc = none →
      s.dogs o.malloc = none ∧ o.malloc :: s₂.CuteDogList = o.malloc :: s.CuteDogList ∧
        Function.update s₂.dogs o.malloc (some (newDog k .tidp n F i)) =
          Function.update s.dogs o.malloc (some (newDog h .tidp N F i)) := by
    intro k n s₂ hk hn hreg hnew
    rw [hlive] at hk
    cases hk
    cases hn
    have hdogs : s₂.dogs = s.dogs := congrArg Registry.dogs hreg
    have hlist : s₂.CuteDogList = s.CuteDogList := congrArg Registry.CuteDogList hreg
    rw [hdogs] at hnew
    exact ⟨hnew, by rw [hlist], by rw [hdogs]⟩
  cases Server.StartDogNose_eq_some hstart with
  | notOpened hnone =>
      rw [hlive] at hnone
      cases hnone
  | refused hk _ heq hwhy =>
      obtain hwhy | hwhy := hwhy
      · have hset := (Server.SetCapFilter_withHandle heq).2.mpr ⟨hfilter, hcell⟩
        rw [hwhy] at hset
        cases hset
      · exact absurd hlink hwhy
  | noThread hk _ heq _ hn hnew _ => exact hlisted hk hn (Server.SetCapFilter_withHandle heq).1 hnew
  | started hk _ heq _ hn hnew _ _ => exact hlisted hk hn (Server.SetCapFilter_withHandle heq).1 hnew

section Steps

variable {ι : Type} [Iksemel ι] {s s' : Server} {i : Slot} {type : IksNodeType} {node : ι} {o : Outcome}

/-- A stanza that is passed to a handler. -/
theorem handler_step {handler : IqHandler} {x : Option ι}
    (hof : handlerOf type node = (some handler, x))
    (hstep : serverStep s (.stanza i type node o) = some s') :
    s.runHandler handler x i o = some s' := by
  rw [serverStep] at hstep
  split at hstep
  · rwa [IOProcessCatMsg_of_handler hof] at hstep
  · cases hstep

/-- A create request that lists a dog. -/
theorem create_step {F N : CStr} {m : Nat} {h : PcapHandle}
    (hreq : requestOf type node = .create (some F) (some N) m) (hcap : o.captures m h)
    (hcell : Registry.CellFree s) (hstep : serverStep s (.stanza i type node o) = some s') :
    s.dogs o.malloc = none ∧ s'.CuteDogList = o.malloc :: s.CuteDogList ∧
      s'.dogs = Function.update s.dogs o.malloc (some (newDog h .tidp N F i)) := by
  obtain ⟨x, hof, hfilter⟩ := requestOf_eq_create hreq
  obtain ⟨hcreate, hF, hN, hm⟩ := filterRequest_eq_create hfilter
  have hrun := handler_step hof hstep
  simp only [Server.runHandler, Server.RespCatCreateFilter, Server.createOrCancel, hcreate, hF, hN, hm,
    if_true, Option.bind_eq_bind, Option.bind_eq_some_iff] at hrun
  obtain ⟨⟨b, s₂⟩, ⟨⟨ret, s₁⟩, hstart, hfirst⟩, hrun⟩ := hrun
  obtain ⟨hnew, hlist, hdogs⟩ := dogs_StartDogNose hcap hcell hstart
  have hs₂ : s₂.CuteDogList = s₁.CuteDogList ∧ s₂.dogs = s₁.dogs := by
    split at hfirst
    · next heq =>
        cases heq
        cases hfirst
        exact ⟨rfl, rfl⟩
    · next heq =>
        cases heq
        cases hfirst
        exact ⟨rfl, rfl⟩
  have hs' : s'.CuteDogList = s₂.CuteDogList ∧ s'.dogs = s₂.dogs := by
    cases b with
    | true =>
        have htalks := Server.talks_CuteDogBroadCast hrun
        exact ⟨htalks.CuteDogList, htalks.dogs⟩
    | false =>
        cases hrun
        exact ⟨rfl, rfl⟩
  exact ⟨hnew, hs'.1.trans (hs₂.1.trans hlist), hs'.2.trans (hs₂.2.trans hdogs)⟩

/-! ## Logins and hooks -/

/-- The reply to a login under a free name. -/
def loginAccepted : CStr :=
  CStr.lit "<iq type='result'><query xmlns='jabber:iq:auth'><error id='OK'/></query></iq>"

/-- A login under the name `N` is answered with `OK` in the step from `s` to `s'`. -/
structure LoginOk (s s' : Server) (type : IksNodeType) (node : ι) (N : CStr) : Prop where
  login : ∃ x, handlerOf type node = (some .RespCatLogin0, x) ∧
    iks_find_cdata x (CStr.lit "username") = some N
  answered : ∃ m, s'.hist.put = s.hist.put ++ [m] ∧ m.text = loginAccepted

/-- The message that is put last carries the text that was pushed. -/
theorem text_of_put {c : MsgCell} {str : CStr} {m : Msg}
    (h : ((s.pushString c str).IoPutSendMsgCell c).hist.put = s.hist.put ++ [m]) : m.text = str := by
  have hput : ((s.pushString c str).IoPutSendMsgCell c).hist.put =
      s.hist.put ++ [(s.pushString c str).hist.msg c] := rfl
  rw [hput] at h
  rw [← List.singleton_inj.mp (List.append_cancel_left h)]
  show (Function.update s.hist.msg c { s.hist.msg c with text := str } c).text = str
  rw [Function.update_self]

/-- A login is answered with `OK` when no listed dog has the name, and it lists no dog. -/
theorem login_ok {N : CStr} (hok : LoginOk s s' type node N)
    (hstep : serverStep s (.stanza i type node o) = some s') :
    s.dogNamed N s.CuteDogList = some none ∧ s'.registry = s.registry := by
  obtain ⟨⟨x, hof, hN⟩, m, hput, htext⟩ := hok
  have hrun := handler_step hof hstep
  rw [Server.runHandler, Option.map_eq_some_iff] at hrun
  obtain ⟨⟨b, s₂⟩, hlogin, rfl⟩ := hrun
  refine ⟨?_, (Server.talks_RespCatLogin0 hlogin).registry⟩
  have hget := Server.talks_IoGetSendMsgCell i s
  have hsame : (s.IoGetSendMsgCell i).2.hist.put = s.hist.put := by
    rw [Server.IoGetSendMsgCell]
    split
    · rfl
    · rfl
  unfold Server.RespCatLogin0 at hlogin
  simp only [hN] at hlogin
  split at hlogin
  · next heq =>
      cases hlogin
      rw [heq] at hsame
      rw [hsame] at hput
      simp at hput
  · next c s₁ heq =>
      rw [heq] at hget hsame
      simp only [Option.bind_eq_bind, Option.bind_eq_some_iff] at hlogin
      obtain ⟨known, hknown, hlogin⟩ := hlogin
      cases hlogin
      rw [Server.CheckNameInList, Option.map_eq_some_iff] at hknown
      obtain ⟨found, hfound, rfl⟩ := hknown
      rw [dogNamed_congr hget.dogs, hget.CuteDogList] at hfound
      cases found with
      | none => exact hfound
      | some d =>
          have hrefused : loginAccepted = CStr.lit
              "<iq type='result'><query xmlns='jabber:iq:auth'><error id='400'/></query></iq>" :=
            htext.symm.trans (text_of_put (hput.trans (congrArg (· ++ [m]) hsame.symm)))
          exact absurd hrefused (by decide +kernel)

/-- With different names the search finds the one dog of the name. -/
theorem dogNamed_of_unique (hs : s.registry.Sound) (hu : s.registry.NamesUnique) {d : DogPtr}
    {dog : CUTEDOG} (hd : d ∈ s.CuteDogList) (hdog : s.dogs d = some dog) :
    s.dogNamed dog.Name s.CuteDogList = some (some d) := by
  obtain ⟨found, hfound⟩ : ∃ found, s.dogNamed dog.Name s.CuteDogList = some found :=
    Server.dogNamed_isSome fun e he => (hs.listed e).mpr he
  cases found with
  | none => exact absurd rfl (Server.dogNamed_eq_none hfound d hd dog hdog)
  | some e =>
      obtain ⟨he, dog', hdog', hname⟩ := Server.dogNamed_eq_some hfound
      rw [hfound, hu e he d hd dog' dog hdog' hdog hname]

/-- A hook request links the client to the dog that the search finds. -/
theorem hook_step {Item : CStr} {d : DogPtr} (hreq : requestOf type node = .hook (some Item))
    (hfound : s.dogNamed Item s.CuteDogList = some (some d))
    (hstep : serverStep s (.stanza i type node o) = some s') :
    (s'.ClientInfo i).CuteDog = some d ∧
      list_add s.links (.list1 i) (.ListHooker d) = some s'.links := by
  obtain ⟨x, hof, hhook⟩ := requestOf_eq_hook hreq
  obtain ⟨haction, hItem⟩ := hookRequest_eq_hook hhook
  have hrun := handler_step hof hstep
  simp only [Server.runHandler, Server.RespCatSetHooker, haction, hItem, if_true, Option.bind_eq_bind,
    Option.bind_eq_some_iff] at hrun
  obtain ⟨⟨b, s₁⟩, hadd, hrun⟩ := hrun
  obtain ⟨-, -, hnone⟩ | ⟨Name, e, links, rfl, hName, he, hlinks, rfl⟩ :=
    Server.AddHooker2CuteDog_eq_some hadd
  · rw [hnone Item rfl] at hfound
    cases hfound
  · cases hName
    rw [hfound] at he
    cases he
    cases hrun
    rw [(Server.talks_answer i _ _).ClientInfo, (Server.talks_answer i _ _).links]
    refine ⟨?_, hlinks⟩
    rw [Server.setType, Server.setClient_ClientInfo_self, Server.setCuteDog,
      Server.setClient_ClientInfo_self]

end Steps

/-! ## The runs -/

section Runs

variable {ι : Type} [Iksemel ι] {align : MsgCell → Nat} {s : Server}

/-- **One operation** keeps the names apart exactly when it meets the guard. -/
theorem namesUnique_step_iff {s' : Server} {a : ServerAction ι} (hu : s.registry.NamesUnique)
    (hstep : serverStep s a = some s') :
    s'.registry.NamesUnique ↔ Registry.CreatesNewName s a := by
  refine ⟨fun hu' => ?_, hu.follows (serverStep_follows hstep)⟩
  cases a with
  | stanza i type node o =>
      simp only [Registry.CreatesNewName]
      split
      · next F N m hreq =>
          rintro ⟨h, hcap⟩ hcell e he dog hdog hname
          obtain ⟨hnew, hlist, hdogs⟩ := create_step hreq hcap hcell hstep
          have hne : e ≠ o.malloc := by
            rintro rfl
            exact Option.some_ne_none _ (hdog.symm.trans hnew)
          refine hne (hu' e ?_ o.malloc ?_ dog (newDog h .tidp N F i) ?_ ?_ hname)
          · show e ∈ s'.CuteDogList
            rw [hlist]
            exact List.mem_cons_of_mem _ he
          · show o.malloc ∈ s'.CuteDogList
            rw [hlist]
            exact List.mem_cons_self
          · show s'.dogs e = some dog
            rw [hdogs, Function.update_of_ne hne]
            exact hdog
          · show s'.dogs o.malloc = _
            rw [hdogs, Function.update_self]
      · trivial
  | accept _ | shutdown _ _ | packet _ _ | loopReturns _ | drain | pickUp _ => trivial
  | send _ _ | toEnd _ | recycle _ | allocator _ => trivial

theorem namesUnique_reach
    (h : Reach (serverStep (ι := ι)) Registry.CreatesNewName (InitServer align) s) :
    s.registry.NamesUnique :=
  h.invariant (P := fun s => s.registry.NamesUnique) (fun d hd => by cases hd)
    fun _ _ _ hu hguard hstep => hu.follows (serverStep_follows hstep) hguard

/-- **The names stay apart** in every run whose dogs are listed under new names, and only by such
operations. Then a create right after a login that was answered with `OK` keeps them apart when its
name has at most 31 bytes, and else exactly when the cut name is new; and a hook request reaches the
one dog of its name. -/
theorem dog_names_unique
    (h : Reach (serverStep (ι := ι)) Registry.CreatesNewName (InitServer align) s) :
    s.registry.NamesUnique ∧
      (∀ (a : ServerAction ι) s', serverStep s a = some s' →
        (s'.registry.NamesUnique ↔ Registry.CreatesNewName s a)) ∧
      (∀ i type (node : ι) o N s₁, serverStep s (.stanza i type node o) = some s₁ →
        LoginOk s s₁ type node N →
          ∀ j type' (node' : ι) o' F m s₂, requestOf type' node' = .create F (some N) m →
            serverStep s₁ (.stanza j type' node' o') = some s₂ →
              (N.chars.length ≤ 31 → s₂.registry.NamesUnique) ∧
                (s₂.registry.NamesUnique ↔
                  Registry.CreatesNewName s₁ (.stanza j type' node' o'))) ∧
      ∀ i type (node : ι) o Item s', requestOf type node = .hook (some Item) →
        serverStep s (.stanza i type node o) = some s' →
          ∀ d ∈ s.CuteDogList, ∀ dog, s.dogs d = some dog → dog.Name = Item →
            (s'.ClientInfo i).CuteDog = some d ∧
              list_add s.links (.list1 i) (.ListHooker d) = some s'.links := by
  have hs := sound_reach h
  have hu := namesUnique_reach h
  refine ⟨hu, fun a s' hstep => namesUnique_step_iff hu hstep, ?_, ?_⟩
  · intro i type node o N s₁ hstep hok j type' node' o' F m s₂ hreq hcreate
    obtain ⟨hfound, hreg⟩ := login_ok hok hstep
    have hu₁ : s₁.registry.NamesUnique := hreg ▸ hu
    refine ⟨fun hshort => ?_, namesUnique_step_iff hu₁ hcreate⟩
    rw [namesUnique_step_iff hu₁ hcreate, Registry.CreatesNewName, hreq]
    cases F with
    | none => trivial
    | some F =>
        intro _ _
        rw [hreg, Registry.NameFree, CStr.strncpy_of_fits (Nat.lt_succ_of_le hshort)]
        exact Server.dogNamed_eq_none hfound
  · rintro i type node o Item s' hreq hstep d hd dog hdog rfl
    exact hook_step hreq (dogNamed_of_unique hs hu hd hdog) hstep

end Runs

/-- Two clients create filters under different names, and the first one hooks the dog of the other by
its name. -/
theorem dog_names_unique_two : ∃ s s' : Server,
    s.CuteDogList = [1, 0] ∧ s.registry.NamesUnique ∧
      serverStep s (.stanza 15 .IKS_NODE_NORMAL (hookFilter "b") .allSucceed) = some s' ∧
      (s'.ClientInfo 15).CuteDog = some 1 ∧
      list_add s.links (.list1 15) (.ListHooker 1) = some s'.links := by
  obtain ⟨s₁, hs₁⟩ := owned_dog (fun _ => 0) (o := .allSucceed) (h := 0) ⟨rfl, rfl, rfl⟩
    (show Outcome.allSucceed.pthread_create = some 1 from rfl)
  obtain ⟨s, h⟩ := hs₁.second "b"
  -- no dog is listed before the first create request, and `a` only before the second
  have hfirst : Registry.NameFree (twoClients fun _ => 0).registry (CStr.lit "a") := by
    intro d hd
    have hnil : (twoClients fun _ => 0).registry.CuteDogList = [] := (onlyTwo fun _ => 0).list
    rw [hnil] at hd
    cases hd
  have hsecond : Registry.NameFree s₁.registry (CStr.lit "b") := by
    intro d hd dog hdog
    have hlist : s₁.registry.CuteDogList = [0] := hs₁.list
    rw [hlist, List.mem_singleton] at hd
    rw [hd] at hdog
    cases hs₁.dog.symm.trans hdog
    decide +kernel
  have hreach := h.run (C := Registry.CreatesNewName (ι := Iks)) (fun _ _ => trivial)
    (fun _ _ => hfirst) (fun _ _ => hsecond)
  obtain ⟨hunique, -, -, hhook⟩ := dog_names_unique hreach
  have hmem : (1 : DogPtr) ∈ s.CuteDogList := by
    rw [h.list]
    exact List.mem_cons_self
  have hname : (newDog 1 .tidp (CStr.lit "b") (CStr.lit "tcp") 14).Name = CStr.lit "b" := by
    decide +kernel
  obtain ⟨links, hadd, -⟩ := list_add_spec (h.hooked.circle 1 hmem) (h.hooked.nodes 15) (by simp)
  obtain ⟨s', hstep, -⟩ := hook_hooks (o := .allSucceed) h.ready (requestOf_hookFilter "b")
    (by rw [h.list]; exact dogNamed_head h.dogs.2 hname.symm) hadd
  obtain ⟨hpoints, hlinks⟩ := hhook 15 .IKS_NODE_NORMAL (hookFilter "b") .allSucceed _ s'
    (requestOf_hookFilter "b") hstep 1 hmem _ h.dogs.2 hname
  exact ⟨s, s', h.list, hunique, hstep, hpoints, hlinks⟩

/-- Two clients create a filter under one name: a create does not look at the names in use. -/
theorem names_collide : ¬∀ s, Reach (serverStep (ι := Iks)) AnyStep (InitServer fun _ => 0) s →
    s.registry.NamesUnique := by
  intro hall
  obtain ⟨s, hreach, hlist, hnew, hold⟩ := two_dogs
  have hlist' : s.registry.CuteDogList = [1, 0] := hlist
  have hsame := hall s hreach 1 (by rw [hlist']; decide) 0 (by rw [hlist']; decide) _ _ hnew hold rfl
  cases hsame

end Netflow
