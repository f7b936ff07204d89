import Netflow.Registry.Basic
import Netflow.Server.Talk

set_option autoImplicit false

/-! # The operations of the server on the registry

For each function of the server that works on the registry, what it does there; together they give
`serverStep_follows`: every operation does to the registry what `Registry.Follows` allows.
-/

namespace Netflow

open Iksemel

namespace Server

theorem Talks.registry {s s' : Server} (h : Talks s s') : s'.registry = s.registry := by
  obtain ⟨_, _, _, _, rfl⟩ := h
  rfl

theorem registry_setClient (s : Server) (i : Slot) (f : CLIENTINFO → CLIENTINFO) :
    (s.setClient i f).registry =
      s.registry.setSeat i fun _ => (f (s.ClientInfo i)).seat := by
  have hseat : (fun j => ((s.setClient i f).ClientInfo j).seat) =
      Function.update (fun j => (s.ClientInfo j).seat) i (f (s.ClientInfo i)).seat := by
    funext j
    by_cases hj : j = i
    · subst hj
      rw [setClient_ClientInfo_self, Function.update_self]
    · rw [setClient_ClientInfo_of_ne s f hj, Function.update_of_ne hj]
  rw [registry, hseat]
  rfl

/-- A change of a client that its seat does not show. -/
theorem registry_setClient_same (s : Server) (i : Slot) {f : CLIENTINFO → CLIENTINFO}
    (h : (f (s.ClientInfo i)).seat = (s.ClientInfo i).seat) :
    (s.setClient i f).registry = s.registry := by
  rw [registry_setClient, h, Registry.setSeat]
  exact congrArg (fun seat => { s.registry with seat := seat }) (Function.update_eq_self i _)

theorem registry_setCuteDog (s : Server) (i : Slot) (d : Option DogPtr) :
    (s.setCuteDog i d).registry = s.registry.setSeat i fun t => { t with CuteDog := d } :=
  registry_setClient s i _

theorem registry_setType (s : Server) (i : Slot) (lType : CLIENTTYPE) :
    (s.setType i lType).registry = s.registry.setSeat i fun t => { t with lType := lType } :=
  registry_setClient s i _

/-! ## Hookers -/

theorem dogNamed_eq_some {s : Server} {Name : CStr} {l : List DogPtr} {d : DogPtr}
    (h : s.dogNamed Name l = some (some d)) :
    d ∈ l ∧ ∃ dog, s.dogs d = some dog ∧ dog.Name = Name := by
  induction l with
  | nil => cases h
  | cons e rest ih =>
      rw [dogNamed, Option.bind_eq_bind, Option.bind_eq_some_iff] at h
      obtain ⟨dog, hdog, h⟩ := h
      split at h
      · next heq =>
          cases h
          exact ⟨List.mem_cons_self, dog, hdog, heq.symm⟩
      · obtain ⟨hmem, hrest⟩ := ih h
        exact ⟨List.mem_cons_of_mem e hmem, hrest⟩

theorem dogNamed_eq_none {s : Server} {Name : CStr} {l : List DogPtr}
    (h : s.dogNamed Name l = some none) : ∀ d ∈ l, ∀ dog, s.dogs d = some dog → dog.Name ≠ Name := by
  induction l with
  | nil => exact fun d hd => by cases hd
  | cons e rest ih =>
      rw [dogNamed, Option.bind_eq_bind, Option.bind_eq_some_iff] at h
      obtain ⟨dog, hdog, h⟩ := h
      split at h
      · cases h
      · next hne =>
          intro d hd dog' hdog'
          rcases List.mem_cons.mp hd with rfl | hd
          · rw [hdog] at hdog'
            cases hdog'
            exact fun heq => hne heq.symm
          · exact ih h d hd dog' hdog'

/-- A hook request links the client to the dog of the given name, or changes nothing. -/
theorem AddHooker2CuteDog_eq_some {s s' : Server} {Item : Option CStr} {i : Slot} {b : Bool}
    (h : s.AddHooker2CuteDog Item i = some (b, s')) :
    (b = false ∧ s' = s ∧ ∀ Name, Item = some Name → s.dogNamed Name s.CuteDogList = some none) ∨
      ∃ Name d links, b = true ∧ Item = some Name ∧
        s.dogNamed Name s.CuteDogList = some (some d) ∧
        list_add s.links (.list1 i) (.ListHooker d) = some links ∧
        s' = { s with links := links }.setCuteDog i (some d) := by
  cases Item with
  | none =>
      cases h
      exact Or.inl ⟨rfl, rfl, fun Name hn => by cases hn⟩
  | some Name =>
      simp only [AddHooker2CuteDog, Option.bind_eq_bind, Option.bind_eq_some_iff] at h
      obtain ⟨found, hfound, h⟩ := h
      cases found with
      | none =>
          cases h
          refine Or.inl ⟨rfl, rfl, fun Name' hn => ?_⟩
          cases hn
          exact hfound
      | some d =>
          simp only [Option.bind_eq_some_iff] at h
          obtain ⟨links, hlinks, h⟩ := h
          cases h
          exact Or.inr ⟨Name, d, links, rfl, rfl, hfound, hlinks, rfl⟩

/-- A cancel-hook request unlinks the client when its node is met, or changes nothing. -/
theorem DelHookerInCuteDog_eq_some {s s' : Server} {i : Slot} {b : Bool}
    (h : s.DelHookerInCuteDog i = some (b, s')) :
    (b = false ∧ s.hookerMet i s.CuteDogList = some false ∧ s' = s) ∨
      ∃ links, b = true ∧ s.hookerMet i s.CuteDogList = some true ∧
        list_del s.links (.list1 i) = some links ∧ s' = { s with links := links } := by
  simp only [DelHookerInCuteDog, Option.bind_eq_bind, Option.bind_eq_some_iff] at h
  obtain ⟨met, hmet, h⟩ := h
  cases met with
  | false =>
      cases h
      exact Or.inl ⟨rfl, hmet, rfl⟩
  | true =>
      simp only [if_true, Option.bind_eq_some_iff] at h
      obtain ⟨links, hlinks, h⟩ := h
      cases h
      exact Or.inr ⟨links, rfl, hmet, hlinks, rfl⟩

theorem registry_DelHookerInCuteDog {s s' : Server} {i : Slot} {b : Bool}
    (h : s.DelHookerInCuteDog i = some (b, s')) : s'.registry = s.registry := by
  obtain ⟨-, -, rfl⟩ | ⟨links, -, -, -, rfl⟩ := DelHookerInCuteDog_eq_some h
  · rfl
  · rfl

theorem registry_dropHookers {d : DogPtr} {message : CStr} {turns : Nat} {pos : HookNode}
    {next : Option HookNode} {s s' : Server} {b : Bool}
    (h : dropHookers d message turns pos next s = some (b, s')) : s'.registry = s.registry := by
  induction turns generalizing pos next s with
  | zero => cases h
  | succ turns ih =>
      unfold dropHookers at h
      split at h
      · cases h
        rfl
      · split at h
        · cases h
        · split at h
          · next heq =>
              cases h
              exact (talks_of_answer heq).registry
          · next heq =>
              simp only [Option.bind_eq_bind, Option.bind_eq_some_iff] at h
              obtain ⟨links, -, pos', -, l, -, h⟩ := h
              exact (ih h).trans (talks_of_answer heq).registry

theorem registry_DelHookersWithCuteDog {s s' : Server} {d : DogPtr} {b : Bool}
    (h : s.DelHookersWithCuteDog d = some (b, s')) : s'.registry = s.registry := by
  simp only [DelHookersWithCuteDog, Option.bind_eq_bind, Option.bind_eq_some_iff] at h
  obtain ⟨dog, -, head, -, notempty, -, h⟩ := h
  split at h
  · simp only [Option.bind_eq_some_iff] at h
    obtain ⟨pos, -, l, -, h⟩ := h
    exact registry_dropHookers h
  · cases h
    rfl

/-! ## Dogs -/

theorem registry_freeDog (s : Server) (d : DogPtr) (i : Slot) :
    (s.freeDog d i).registry = s.registry.free i d := registry_setCuteDog _ i none

theorem registry_listDog (s : Server) (d : DogPtr) (dog : CUTEDOG) (i : Slot) :
    (s.listDog d dog i).registry = s.registry.list i d dog := registry_setCuteDog _ i (some d)

theorem registry_DelCuteDogInList {s s' : Server} {i : Slot} {b : Bool}
    (h : s.DelCuteDogInList i = some (b, s')) :
    ((s.registry.seat i).CuteDog = none ∧ s' = s) ∨
      ∃ d, (s.registry.seat i).CuteDog = some d ∧ d ∈ s.CuteDogList ∧
        s'.registry = s.registry.free i d := by
  unfold DelCuteDogInList at h
  split at h
  · next hnone =>
      cases h
      exact Or.inl ⟨hnone, rfl⟩
  · next d hd =>
      simp only [Option.bind_eq_bind, Option.bind_eq_some_iff] at h
      obtain ⟨⟨b', s₁⟩, hdrop, h⟩ := h
      have hreg := registry_DelHookersWithCuteDog hdrop
      split at h
      · next hmem =>
          cases h
          refine Or.inr ⟨d, hd, ?_, ?_⟩
          · rwa [show s₁.CuteDogList = s.CuteDogList from congrArg Registry.CuteDogList hreg] at hmem
          · rw [registry_freeDog, hreg]
      · cases h

/-- A stopped capture on the registry; the dog may have lost its handle. -/
theorem registry_stopCapture {s : Server} {d : DogPtr} {dog : CUTEDOG} (hdog : s.dogs d = some dog)
    (k : PcapHandle) (Thid : PthreadPtr) (Ret : Int) :
    ∃ dog', ({ s with opened := s.opened.erase k }.stopCapture d dog Thid Ret).registry =
      { s.registry.stop (some k) Ret with dogs := Function.update s.dogs d (some dog') } := by
  cases Thid
  by_cases hRet : Ret = 0
  · refine ⟨{ dog with Handle := none }, ?_⟩
    simp only [stopCapture, hRet, ne_eq, not_true_eq_false, if_false]
    rfl
  · refine ⟨dog, ?_⟩
    simp only [stopCapture, hRet, ne_eq, not_false_eq_true, if_true, if_false, pthread_cancel,
      registry, Registry.stop, ← hdog, Function.update_eq_self]

theorem registry_StopDogNose {s s' : Server} {i : Slot} {o : Outcome} {Ret : Int}
    (h : s.StopDogNose i o = some (Ret, s')) :
    ((s.registry.seat i).CuteDog = none ∧ s' = s) ∨
      ∃ d dog dog', (s.registry.seat i).CuteDog = some d ∧ s.dogs d = some dog ∧
        (∀ h ∈ dog.Handle, h ∈ s.opened) ∧
        s'.registry = { s.registry.stop dog.Handle o.pthread_cancel with
          dogs := Function.update s.dogs d (some dog') } := by
  obtain ⟨hnone, rfl⟩ | ⟨d, dog, hd, hdog, hcase⟩ := StopDogNose_eq_some h
  · exact Or.inl ⟨hnone, rfl⟩
  · right
    obtain ⟨hhandle, rfl⟩ | ⟨k, Thid, hhandle, hopen, rfl⟩ := hcase
    · refine ⟨d, dog, dog, hd, hdog, fun h hh => ?_, ?_⟩
      · rw [hhandle] at hh
        cases hh
      · rw [hhandle, ← hdog, Function.update_eq_self]
        rfl
    · obtain ⟨dog', hreg⟩ := registry_stopCapture hdog k Thid o.pthread_cancel
      refine ⟨d, dog, dog', hd, hdog, fun h hh => ?_, ?_⟩
      · rw [hhandle] at hh
        cases hh
        exact hopen
      · rw [(talks_answer i _ _).registry, hreg, hhandle]

/-- A cancel, and the end of a pioneer's session. -/
theorem changed_cancel {s s₁ s₂ : Server} {i : Slot} {o : Outcome} {Ret : Int} {b : Bool}
    (hstop : s.StopDogNose i o = some (Ret, s₁))
    (hdel : s₁.DelCuteDogInList i = some (b, s₂)) (cell : Prop) :
    Registry.Changed i o cell .cancel s.registry s₂.registry := by
  obtain ⟨hnone, rfl⟩ | ⟨d, dog, dog', hd, hdog, hopen, hs₁⟩ := registry_StopDogNose hstop
  · obtain ⟨-, rfl⟩ | ⟨d, hd, -, -⟩ := registry_DelCuteDogInList hdel
    · exact .kept hnone
    · rw [hnone] at hd
      cases hd
  · have hseat : s₁.registry.seat = s.registry.seat := by
      rw [hs₁]
      exact Registry.seat_stop _ _ _
    have hlist : s₁.CuteDogList = s.CuteDogList :=
      (congrArg Registry.CuteDogList hs₁).trans (Registry.CuteDogList_stop _ _ _)
    obtain ⟨hnone, -⟩ | ⟨e, he, hmem, hs₂⟩ := registry_DelCuteDogInList hdel
    · rw [hseat, hd] at hnone
      cases hnone
    · rw [hseat, hd] at he
      cases he
      rw [hlist] at hmem
      have heq : s₂.registry = (s.registry.stop dog.Handle o.pthread_cancel).free i d := by
        rw [hs₂, hs₁]
        exact Registry.free_update_dogs _ _ _ _ _ _
      rw [heq]
      exact .cancelled hd hmem hdog hopen

/-! ## Creating a dog -/

theorem registry_setCallBack (s : Server) (F : CStr) :
    (s.setCallBack F).registry = s.registry := by
  unfold setCallBack
  split
  · rfl
  · rfl

theorem pFifoDogMsgFree_setCallBack (s : Server) (F : CStr) :
    (s.setCallBack F).pFifoDogMsgFree = s.pFifoDogMsgFree := by
  unfold setCallBack
  split
  · rfl
  · rfl

theorem registry_withHandle (s : Server) (F : CStr) (h : PcapHandle) :
    (s.withHandle F h).registry = s.registry.opens h :=
  congrArg (fun r : Registry => { r with opened := h :: s.opened }) (registry_setCallBack s F)

/-- The filter of a capture that was opened is set when it is accepted and the answer finds a cell. -/
theorem SetCapFilter_withHandle {s s₂ : Server} {F : CStr} {k : PcapHandle} {i : Slot} {o : Outcome}
    {b : Bool} (heq : (s.withHandle F k).SetCapFilter (some k) i o = (b, s₂)) :
    s₂.registry = s.registry.opens k ∧
      (b = true ↔ o.pcap_setfilter = 0 ∧ Registry.CellFree s) := by
  have htalks := talks_SetCapFilter (some k) i o (s.withHandle F k)
  have hfst := SetCapFilter_fst k i o (s.withHandle F k)
  rw [heq] at htalks hfst
  refine ⟨htalks.registry.trans (registry_withHandle s F k), hfst.trans ?_⟩
  show _ ∧ (s.setCallBack F).pFifoDogMsgFree.contents ≠ [] ↔ _
  rw [pFifoDogMsgFree_setCallBack]
  rfl

/-- A create request; the role of the client is set when `StartDogNose` returns nonzero. -/
theorem changed_StartDogNose {s s' : Server} {F : CStr} {N : Option CStr} {i : Slot} {m : Nat}
    {o : Outcome} {ret : Int} (h : s.StartDogNose F N i m o = some (ret, s')) :
    Registry.Changed i o (Registry.CellFree s) (.create (some F) N m) s.registry
      (if ret = 0 then s' else s'.setType i .CLIENT_USER_PIONEER).registry := by
  have hdogs : ∀ {k : PcapHandle} {s₂ : Server}, s₂.registry = s.registry.opens k → s₂.dogs = s.dogs :=
    fun heq => congrArg Registry.dogs heq
  cases StartDogNose_eq_some h with
  | notOpened hnone =>
      rw [if_pos rfl]
      have hreg : ({ s.setCallBack F with pcap_handle := none } : Server).registry = s.registry :=
        registry_setCallBack s F
      rw [hreg]
      exact .kept (Or.inr hnone)
  | @refused k b s₂ hlive hfresh heq hwhy =>
      obtain ⟨hreg, hfst⟩ := SetCapFilter_withHandle heq
      rw [if_pos rfl, hreg]
      refine .opened ?_ hfresh
      rintro ⟨hcap, hcell⟩
      -- with a filter that was set and a free cell the answer was sent
      have hb := hfst.mpr ⟨hcap.2.1, hcell⟩
      obtain hwhy | hwhy := hwhy
      · rw [hwhy] at hb
        cases hb
      · exact hwhy hcap.2.2
  | @noThread k n s₂ hlive hfresh heq hlink hN hnew hcreate =>
      obtain ⟨hreg, hfst⟩ := SetCapFilter_withHandle heq
      obtain ⟨hfilter, hcell⟩ := hfst.mp rfl
      rw [hdogs hreg] at hnew
      rw [if_pos rfl, registry_listDog, hreg, hN]
      exact .listed ⟨hlive, hfilter, hlink⟩ hcell hfresh hnew hcreate
  | @started k n s₂ tid hlive hfresh heq hlink hN hnew hcreate htid =>
      obtain ⟨hreg, hfst⟩ := SetCapFilter_withHandle heq
      obtain ⟨hfilter, hcell⟩ := hfst.mp rfl
      rw [hdogs hreg] at hnew
      have hthreads : s₂.threads = s.threads := congrArg Registry.threads hreg
      rw [hthreads] at htid
      have hstart : (((s₂.listDog o.malloc (newDog k .tidp n F i) i).withThread
          { tid := tid, handle := k, dog := o.malloc, pClientInfo := i }).setType i
            .CLIENT_USER_PIONEER).registry =
          ((s.registry.opens k).list i o.malloc (newDog k .tidp n F i)).start
            { tid := tid, handle := k, dog := o.malloc, pClientInfo := i } := by
        rw [registry_setType, ← hreg, ← registry_listDog]
        rfl
      rw [if_neg (by decide), hstart, hN]
      exact .started ⟨hlive, hfilter, hlink⟩ hcell hfresh hnew hcreate htid

/-! ## The handlers -/

section Handlers

variable {ι : Type} [Iksemel ι]

theorem talks_RespCatLogin0 {s s' : Server} {node : Option ι} {i : Slot} {b : Bool}
    (h : s.RespCatLogin0 node i = some (b, s')) : Talks s s' := by
  have hget := talks_IoGetSendMsgCell i s
  unfold RespCatLogin0 at h
  dsimp only at h
  split at h
  · next heq =>
      cases h
      rw [heq] at hget
      exact hget
  · next heq =>
      rw [heq] at hget
      split at h
      · cases h
        exact hget
      · simp only [Option.bind_eq_bind, Option.bind_eq_some_iff] at h
        obtain ⟨known, -, h⟩ := h
        cases h
        exact hget.trans (talks_send _ _ _)

theorem talks_RespCatAllFilters {s s' : Server} {node : Option ι} {i : Slot}
    (h : s.RespCatAllFilters node i = some s') : Talks s s' := by
  simp only [RespCatAllFilters, Option.bind_eq_bind, Option.bind_eq_some_iff] at h
  obtain ⟨isShow, -, h⟩ := h
  split at h
  · simp only [Option.bind_eq_some_iff] at h
    obtain ⟨Filter, -, h⟩ := h
    split at h
    · cases h
      exact talks_answer i _ s
    · cases h
      exact Talks.refl s
  · cases h
    exact Talks.refl s

theorem changed_RespCatSetHooker {s s' : Server} {x : Option ι} {i : Slot} {o : Outcome}
    {cell : Prop} (h : s.RespCatSetHooker x i = some s') :
    Registry.Changed i o cell (hookRequest x) s.registry s'.registry := by
  unfold RespCatSetHooker at h
  unfold hookRequest
  dsimp only at h ⊢
  split at h
  · next hhook =>
      rw [if_pos hhook]
      simp only [Option.bind_eq_bind, Option.bind_eq_some_iff] at h
      obtain ⟨⟨b, s₁⟩, hadd, h⟩ := h
      obtain ⟨rfl, rfl, hnone⟩ | ⟨Name, d, links, rfl, hItem, hfound, -, rfl⟩ :=
        AddHooker2CuteDog_eq_some hadd
      · cases h
        rw [(talks_answer i _ _).registry]
        refine .kept ?_
        cases hItem : iks_find_cdata x (CStr.lit "item") with
        | none => trivial
        | some Name => exact dogNamed_eq_none (hnone Name hItem)
      · cases h
        obtain ⟨hmem, dog, hdog, hname⟩ := dogNamed_eq_some hfound
        -- the two writes to the client are one change of its seat
        have hseat : (({ s with links := links }.setCuteDog i (some d)).setType i
            .CLIENT_USER_HOOKER).registry = s.registry.hook i d := by
          rw [registry_setType, registry_setCuteDog, Registry.setSeat_setSeat]
          rfl
        rw [(talks_answer i _ _).registry, hseat, hItem]
        exact .hooked hmem hdog hname
  · next hhook =>
      rw [if_neg hhook]
      split at h
      · next hcancel =>
          rw [if_pos hcancel]
          simp only [Option.bind_eq_bind, Option.bind_eq_some_iff] at h
          obtain ⟨⟨b, s₁⟩, hdel, h⟩ := h
          have hreg := registry_DelHookerInCuteDog hdel
          cases b with
          | true =>
              cases h
              rw [(talks_answer i _ _).registry, hreg]
              exact .kept trivial
          | false =>
              cases h
              rw [(talks_answer i _ _).registry, hreg]
              exact .kept trivial
      · next hcancel =>
          cases h
          rw [if_neg hcancel]
          exact .kept trivial

/-- A filter request up to its broadcast. -/
theorem changed_createOrCancel {s s' : Server} {x : Option ι} {i : Slot} {o : Outcome} {b : Bool}
    (h : s.createOrCancel x i o = some (b, s')) :
    Registry.Changed i o (Registry.CellFree s) (filterRequest x) s.registry s'.registry := by
  unfold createOrCancel at h
  unfold filterRequest
  dsimp only at h ⊢
  split at h
  · next hcreate =>
      rw [if_pos hcreate]
      split at h
      · next hF =>
          cases h
          exact .kept (Or.inl hF)
      · next F hF =>
          rw [hF]
          simp only [Option.bind_eq_bind, Option.bind_eq_some_iff] at h
          obtain ⟨⟨ret, s₁⟩, hstart, h⟩ := h
          have hchanged := changed_StartDogNose hstart
          split at h
          · next heq =>
              cases h
              cases heq
              exact hchanged
          · next hret heq =>
              cases h
              cases heq
              rw [if_neg hret] at hchanged
              exact hchanged
  · next hcreate =>
      rw [if_neg hcreate]
      split at h
      · next hcancel =>
          rw [if_pos hcancel]
          simp only [Option.bind_eq_bind, Option.bind_eq_some_iff] at h
          obtain ⟨⟨Ret, s₁⟩, hstop, ⟨b', s₂⟩, hdel, h⟩ := h
          cases h
          exact changed_cancel hstop hdel _
      · next hcancel =>
          cases h
          rw [if_neg hcancel]
          exact .kept trivial

theorem changed_RespCatCreateFilter {s s' : Server} {x : Option ι} {i : Slot} {o : Outcome}
    (h : s.RespCatCreateFilter x i o = some s') :
    Registry.Changed i o (Registry.CellFree s) (filterRequest x) s.registry s'.registry := by
  simp only [RespCatCreateFilter, Option.bind_eq_bind, Option.bind_eq_some_iff] at h
  obtain ⟨⟨b, s₁⟩, hfirst, h⟩ := h
  have hchanged := changed_createOrCancel hfirst
  cases b with
  | true =>
      rw [(talks_CuteDogBroadCast h).registry]
      exact hchanged
  | false =>
      cases h
      exact hchanged

/-- A stanza does what its request allows. -/
theorem changed_IOProcessCatMsg {s s' : Server} {i : Slot} {type : IksNodeType} {node : ι}
    {o : Outcome} (h : s.IOProcessCatMsg i type node o = some s') :
    Registry.Changed i o (Registry.CellFree s) (requestOf type node) s.registry s'.registry := by
  have kept : ∀ {q : Request} {s' : Server}, q = .other → Talks s s' →
      Registry.Changed i o (Registry.CellFree s) q s.registry s'.registry := by
    intro q s' hq htalks
    rw [htalks.registry, hq]
    exact .kept trivial
  obtain ⟨hreq, -, rfl | rfl⟩ | ⟨handler, x, hof, h⟩ := IOProcessCatMsg_eq_some h
  · exact kept hreq (Talks.refl _)
  · exact kept hreq (talks_answer i _ s)
  · rw [requestOf, hof]
    cases handler with
    | RespCatLogin0 =>
        simp only [runHandler, Option.map_eq_some_iff] at h
        obtain ⟨⟨b, s₁⟩, hlogin, rfl⟩ := h
        exact kept rfl (talks_RespCatLogin0 hlogin)
    | RespCatAllFilters => exact kept rfl (talks_RespCatAllFilters h)
    | RespCatSetHooker => exact changed_RespCatSetHooker h
    | RespCatCreateFilter => exact changed_RespCatCreateFilter h

end Handlers

/-! ## The receive thread and the capture threads -/

theorem registry_popDogMsg {s s' : Server} (h : s.popDogMsg = some s') :
    s'.registry = s.registry := by
  unfold popDogMsg at h
  split at h
  · cases h
  · next c ring hpop =>
      dsimp only at h
      split at h
      · cases h
        rfl
      · cases h
        exact registry_setClient_same _ _ rfl

theorem registry_pickUp (s : Server) (i : Slot) : (s.pickUp i).registry = s.registry := by
  unfold pickUp
  split
  · rfl
  · exact registry_setClient_same s i rfl

theorem registry_firstPass (s : Server) (i : Slot) : (s.firstPass i).registry = s.registry := by
  unfold firstPass
  dsimp only
  split
  · rfl
  · split
    · rfl
    · exact registry_pickUp s i

theorem registry_recycle (s : Server) (i : Slot) : (s.recycle i).registry = s.registry.recycle i := by
  obtain ⟨ring, pushed, -, heq⟩ := recycle_spec i s
  rw [heq]
  exact congrArg
    (fun r : Registry => { r with
      WorkClientList := s.WorkClientList.erase i
      FreeClientList := i :: s.FreeClientList })
    (registry_setClient (s.withFree ring pushed) i recycled)

theorem registry_acceptClient (s : Server) (sd : Nat) :
    (s.FreeClientList = [] ∧ (s.acceptClient sd).registry = s.registry) ∨
      ∃ i rest, s.FreeClientList = i :: rest ∧
        (s.acceptClient sd).registry = s.registry.accept i rest := by
  unfold acceptClient
  cases hfree : s.FreeClientList with
  | nil => exact Or.inl ⟨rfl, rfl⟩
  | cons i rest =>
      refine Or.inr ⟨i, rest, rfl, ?_⟩
      exact congrArg
        (fun r : Registry => { r with
          FreeClientList := rest
          WorkClientList := i :: s.WorkClientList })
        (registry_setClient s i (connected sd ((s.iSessionID + 1) % 4294967296)))

/-- The client of a new connection. -/
theorem seat_acceptClient {s : Server} {i : Slot} {rest : List Slot}
    (hfree : s.FreeClientList = i :: rest) (sd : Nat) :
    i ∈ (s.acceptClient sd).WorkClientList ∧
      ((s.acceptClient sd).ClientInfo i).seat =
        { (s.ClientInfo i).seat with
          lType := .CLIENT_UNKNOWN, lStatus := .STATUS_UNKNOWN, Prs := true } := by
  rw [acceptClient_of_cons sd hfree]
  refine ⟨List.mem_cons_self, ?_⟩
  show ((s.setClient i _).ClientInfo i).seat = _
  rw [setClient_ClientInfo_self]
  rfl

theorem registry_CLIENTTOEND (s : Server) (i : Slot) :
    (s.CLIENTTOEND i).registry = s.registry.toEnd i := registry_setClient s i _

theorem registry_sendPump (s : Server) (i : Slot) (sn : Nat) :
    (s.sendPump i sn).registry = s.registry ∨ (s.sendPump i sn).registry = s.registry.toEnd i := by
  by_cases hlt : sn < (s.ClientInfo i).iCurSendLen
  · rw [sendPump_of_lt hlt]
    exact Or.inl (registry_setClient_same _ i rfl)
  · obtain ⟨ring, pushed, -, heq⟩ := sendPump_of_le (Nat.le_of_not_lt hlt)
    rw [heq]
    have hbase := registry_setClient_same ((s.withFree ring pushed).logSent i (s.bytesToSend i sn)) i
      (f := fun ci => { ci with iCurSendLen := 0, pCurSendMsg := none }) rfl
    split
    · rw [registry_pickUp]
      exact Or.inl hbase
    · split
      · rw [registry_CLIENTTOEND, hbase]
        exact Or.inr rfl
      · exact Or.inl hbase

theorem talks_fanOut {d : DogPtr} {message : CStr} {turns : Nat} {pos : HookNode}
    {s s' : Server} {b : Bool} (h : fanOut d message turns pos s = some (b, s')) : Talks s s' := by
  induction turns generalizing pos s with
  | zero => cases h
  | succ turns ih =>
      unfold fanOut at h
      split at h
      · cases h
        exact Talks.refl _
      · split at h
        · cases h
        · split at h
          · next heq =>
              cases h
              exact talks_of_answer heq
          · next heq =>
              simp only [Option.bind_eq_bind, Option.bind_eq_some_iff] at h
              obtain ⟨l, -, pos', -, h⟩ := h
              exact (talks_of_answer heq).trans (ih h)

theorem talks_sendToHookers {s s' : Server} {i : Slot} {message : CStr} {b : Bool}
    (h : s.sendToHookers i message = some (b, s')) : Talks s s' := by
  simp only [sendToHookers, Option.bind_eq_bind, Option.bind_eq_some_iff] at h
  obtain ⟨d, -, head, -, notempty, -, h⟩ := h
  split at h
  · simp only [Option.bind_eq_some_iff] at h
    obtain ⟨pos, -, h⟩ := h
    exact talks_fanOut h
  · cases h
    exact Talks.refl _

theorem registry_SendTcp2Cats {s s' : Server} {p : Packet} {i : Slot} {b : Bool}
    (h : s.SendTcp2Cats p i = some (b, s')) : s'.registry = s.registry := by
  have hget := talks_IoGetSendMsgCell i s
  unfold SendTcp2Cats at h
  split at h
  · next heq =>
      cases h
      rw [heq] at hget
      exact hget.registry
  · next c s₁ heq =>
      rw [heq] at hget
      simp only [Option.bind_eq_bind, Option.bind_eq_some_iff] at h
      obtain ⟨body, -, h⟩ := h
      have hcount := registry_setClient_same s₁ i
        (f := fun ci => { ci with iMsgNumID := (ci.iMsgNumID + 1) % 4294967296 }) rfl
      have htalks := (talks_send _ _ _).trans (talks_sendToHookers h)
      rw [htalks.registry, hcount, hget.registry]

/-! ## The end of a session -/

theorem shutdown_follows {s s' : Server} {i : Slot} {o : Outcome} (h : s.shutdown i o = some s')
    (cell : Prop) :
    ∃ r₁, s'.registry = r₁.close i ∧
      if (s.ClientInfo i).lType = .CLIENT_USER_PIONEER then
        Registry.Changed i o cell .cancel s.registry r₁
      else r₁ = s.registry := by
  have hclose : ((s.ioClosed i).setClient i fun ci => { ci with Prs := false }).registry =
      s.registry.close i := by
    rw [registry_setClient, ioClosed, setClient_ClientInfo_self, registry_setClient,
      Registry.setSeat_setSeat]
    rfl
  have htype : (((s.ioClosed i).setClient i fun ci => { ci with Prs := false }).ClientInfo i).lType =
      (s.ClientInfo i).lType := by
    rw [setClient_ClientInfo_self, ioClosed, setClient_ClientInfo_self]
  unfold shutdown FreeObj at h
  simp only [htype, Option.bind_eq_bind] at h
  split at h
  · next hpioneer =>
      simp only [Option.bind_eq_some_iff] at h
      obtain ⟨⟨Ret, s₁⟩, hstop, ⟨b, s₂⟩, hdel, h⟩ := h
      cases h
      have hchanged := changed_cancel hstop hdel cell
      rw [hclose] at hchanged
      obtain ⟨r₁, hr₁, hcancel⟩ := hchanged.of_close
      exact ⟨r₁, hr₁, by rwa [if_pos hpioneer]⟩
  · next hhooker =>
      simp only [Option.bind_eq_some_iff] at h
      obtain ⟨⟨b, s₁⟩, hdel, h⟩ := h
      cases h
      rw [registry_DelHookerInCuteDog hdel, hclose]
      exact ⟨s.registry, rfl, by rw [hhooker, if_neg (by decide)]⟩
  · next hunknown =>
      cases h
      exact ⟨s.registry, hclose, by rw [hunknown, if_neg (by decide)]⟩

end Server

/-- **The registry follows the abstract one.** -/
theorem serverStep_follows {ι : Type} [Iksemel ι] {s s' : Server} {a : ServerAction ι}
    (h : serverStep s a = some s') : Registry.Follows s s'.registry a := by
  cases serverStep_eq_some h with
  | accept sd => exact Server.registry_acceptClient s sd
  | stanza i type node o hi hPrs _ hmsg => exact ⟨hi, hPrs, Server.changed_IOProcessCatMsg hmsg⟩
  | shutdown i o hi _ hclose => exact ⟨hi, Server.shutdown_follows hclose _⟩
  | packet t p _ hsend => exact Server.registry_SendTcp2Cats hsend
  | loopReturns t _ => rfl
  | drain hpop => exact Server.registry_popDogMsg hpop
  | pickUp i _ _ => exact Server.registry_firstPass s i
  | send i sn _ _ _ => exact Server.registry_sendPump s i sn
  | toEnd i _ => exact Server.registry_CLIENTTOEND s i
  | recycle i hi hclosed => exact ⟨hi, hclosed, Server.registry_recycle s i⟩
  | allocator answer => rfl

end Netflow
