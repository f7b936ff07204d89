import Netflow.Registry.HookLists
import Mathlib.Logic.Relation

set_option autoImplicit false

/-! # The nodes in memory

Whatever the lists of hookers have become, an operation changes them by the four steps of `Relink` only:
a client is linked behind a head, a client is unlinked, a new dog is listed with an empty list, and a dog
is freed. So the nodes in memory are those of the clients and the heads of the listed dogs, in every
state of every run (`allocated_reach`).
-/

namespace Netflow

open Relation

/-- One change of the lists of hookers, or of the list of dogs. -/
inductive Relink : LinkMem HookNode × List DogPtr → LinkMem HookNode × List DogPtr → Prop where
  | add {links links' : LinkMem HookNode} {list : List DogPtr} {i : Slot} {d : DogPtr} :
      list_add links (.list1 i) (.ListHooker d) = some links' → Relink (links, list) (links', list)
  | del {links links' : LinkMem HookNode} {list : List DogPtr} {i : Slot} :
      list_del links (.list1 i) = some links' → Relink (links, list) (links', list)
  | init {links : LinkMem HookNode} {list : List DogPtr} {d : DogPtr} :
      d ∉ list → Relink (links, list) (INIT_LIST_HEAD links (.ListHooker d), d :: list)
  | free {links : LinkMem HookNode} {list : List DogPtr} {d : DogPtr} :
      Relink (links, list) (Function.update links (.ListHooker d) none, list.erase d)

/-- The lists of hookers, and the dogs whose heads are in memory. -/
def Server.hookLists (s : Server) : LinkMem HookNode × List DogPtr := (s.links, s.CuteDogList)

/-- The lists are changed by steps of `Relink` only. -/
def Server.Relinks (s s' : Server) : Prop := ReflTransGen Relink s.hookLists s'.hookLists

/-- The nodes in memory are those of the clients and the heads of the listed dogs. -/
structure Allocated (links : LinkMem HookNode) (list : List DogPtr) : Prop where
  nodes : ∀ i, (links (.list1 i)).isSome = true
  heads : ∀ d, (links (.ListHooker d)).isSome = true ↔ d ∈ list
  nodup : list.Nodup

/-! ## The four steps -/

section Links

variable {links links' : LinkMem HookNode} {list list' : List DogPtr}

theorem isSome_setNext {mem mem' : LinkMem HookNode} {p v : Option HookNode}
    (h : mem.setNext p v = some mem') (n : HookNode) : (mem' n).isSome = (mem n).isSome := by
  unfold LinkMem.setNext at h
  split at h
  · cases h
  · split at h
    · cases h
      exact isSome_withNext ..
    · cases h

theorem isSome_setPrev {mem mem' : LinkMem HookNode} {p v : Option HookNode}
    (h : mem.setPrev p v = some mem') (n : HookNode) : (mem' n).isSome = (mem n).isSome := by
  unfold LinkMem.setPrev at h
  split at h
  · cases h
  · split at h
    · cases h
      exact isSome_withPrev ..
    · cases h

theorem isSome_list_add {new head : HookNode} (h : list_add links new head = some links')
    (n : HookNode) : (links' n).isSome = (links n).isSome := by
  simp only [list_add, __list_add, Option.bind_eq_bind, Option.bind_eq_some_iff] at h
  obtain ⟨l, -, mem₁, h₁, mem₂, h₂, mem₃, h₃, h₄⟩ := h
  rw [isSome_setNext h₄, isSome_setPrev h₃, isSome_setNext h₂, isSome_setPrev h₁]

theorem isSome_list_del {entry : HookNode} (h : list_del links entry = some links') (n : HookNode) :
    (links' n).isSome = (links n).isSome := by
  simp only [list_del, __list_del, Option.bind_eq_bind, Option.bind_eq_some_iff] at h
  obtain ⟨l, -, mem₂, ⟨mem₁, h₁, h₂⟩, mem₃, h₃, h₄⟩ := h
  rw [isSome_setPrev h₄, isSome_setNext h₃, isSome_setNext h₂, isSome_setPrev h₁]

theorem Allocated.of_isSome (h : Allocated links list)
    (hsame : ∀ n, (links' n).isSome = (links n).isSome) : Allocated links' list where
  nodes i := (hsame _).trans (h.nodes i)
  heads d := by
    rw [hsame]
    exact h.heads d
  nodup := h.nodup

theorem Allocated.relink (h : Allocated links list) (hstep : Relink (links, list) (links', list')) :
    Allocated links' list' := by
  cases hstep with
  | add hadd => exact h.of_isSome (isSome_list_add hadd)
  | del hdel => exact h.of_isSome (isSome_list_del hdel)
  | @init _ _ d hd =>
      refine ⟨fun i => ?_, fun e => ?_, List.nodup_cons.mpr ⟨hd, h.nodup⟩⟩
      · rw [INIT_LIST_HEAD, Function.update_of_ne (list1_ne_ListHooker i d)]
        exact h.nodes i
      · by_cases hed : e = d
        · subst hed
          rw [INIT_LIST_HEAD, Function.update_self]
          exact iff_of_true rfl List.mem_cons_self
        · rw [INIT_LIST_HEAD, Function.update_of_ne fun heq => hed (HookNode.ListHooker.inj heq),
            h.heads, List.mem_cons, or_iff_right hed]
  | @free _ _ d =>
      refine ⟨fun i => ?_, fun e => ?_, h.nodup.erase d⟩
      · rw [Function.update_of_ne (list1_ne_ListHooker i d)]
        exact h.nodes i
      · rw [h.nodup.mem_erase_iff]
        by_cases hed : e = d
        · subst hed
          rw [Function.update_self]
          exact iff_of_false (fun heq => by cases heq) fun hmem => hmem.1 rfl
        · rw [Function.update_of_ne fun heq => hed (HookNode.ListHooker.inj heq), h.heads,
            and_iff_right hed]

end Links

theorem Server.Relinks.allocated {s s' : Server} (h : s.Relinks s')
    (ha : Allocated s.links s.CuteDogList) : Allocated s'.links s'.CuteDogList := by
  suffices hall : ∀ l, ReflTransGen Relink s.hookLists l → Allocated l.1 l.2 from hall _ h
  intro l hl
  induction hl with
  | refl => exact ha
  | tail _ hstep ih => exact ih.relink hstep

/-! ## The functions -/

namespace Server

variable {s s' s₁ : Server} {i : Slot} {d : DogPtr} {b : Bool} {o : Outcome}

theorem Relinks.refl (s : Server) : s.Relinks s := ReflTransGen.refl

theorem Relinks.trans (h : s.Relinks s₁) (h' : s₁.Relinks s') : s.Relinks s' :=
  ReflTransGen.trans h h'

theorem Relinks.single (h : Relink s.hookLists s'.hookLists) : s.Relinks s' := ReflTransGen.single h

/-- What leaves the lists alone. -/
theorem Relinks.of_same (hlinks : s'.links = s.links) (hlist : s'.CuteDogList = s.CuteDogList) :
    s.Relinks s' := by
  rw [Relinks, hookLists, hookLists, hlinks, hlist]

theorem Talks.relinks (h : Talks s s') : s.Relinks s' := .of_same h.links h.CuteDogList

theorem relinks_dropHookers {message : CStr} {turns : Nat} {pos : HookNode} {next : Option HookNode}
    (h : dropHookers d message turns pos next s = some (b, s')) : s.Relinks s' := by
  induction turns generalizing pos next s with
  | zero => cases h
  | succ turns ih =>
      unfold dropHookers at h
      split at h
      · cases h
        exact ReflTransGen.refl
      · split at h
        · cases h
        · split at h
          · next heq =>
              cases h
              exact (talks_of_answer heq).relinks
          · next heq =>
              simp only [Option.bind_eq_bind, Option.bind_eq_some_iff] at h
              obtain ⟨links, hdel, pos', -, l, -, h⟩ := h
              exact ((talks_of_answer heq).relinks.tail (.del hdel)).trans (ih h)

theorem relinks_DelHookersWithCuteDog (h : s.DelHookersWithCuteDog d = some (b, s')) :
    s.Relinks s' := by
  simp only [DelHookersWithCuteDog, Option.bind_eq_bind, Option.bind_eq_some_iff] at h
  obtain ⟨dog, -, head, -, notempty, -, h⟩ := h
  split at h
  · simp only [Option.bind_eq_some_iff] at h
    obtain ⟨pos, -, l, -, h⟩ := h
    exact relinks_dropHookers h
  · cases h
    exact .refl s

theorem relinks_DelCuteDogInList (h : s.DelCuteDogInList i = some (b, s')) : s.Relinks s' := by
  unfold DelCuteDogInList at h
  split at h
  · cases h
    exact .refl s
  · simp only [Option.bind_eq_bind, Option.bind_eq_some_iff] at h
    obtain ⟨⟨b', s₁⟩, hdrop, h⟩ := h
    split at h
    · cases h
      exact (relinks_DelHookersWithCuteDog hdrop).tail .free
    · cases h

theorem relinks_DelHookerInCuteDog (h : s.DelHookerInCuteDog i = some (b, s')) : s.Relinks s' := by
  obtain ⟨-, -, rfl⟩ | ⟨links, -, -, hdel, rfl⟩ := DelHookerInCuteDog_eq_some h
  · exact .refl s'
  · exact .single (.del hdel)

theorem relinks_AddHooker2CuteDog {Item : Option CStr}
    (h : s.AddHooker2CuteDog Item i = some (b, s')) : s.Relinks s' := by
  obtain ⟨-, rfl, -⟩ | ⟨Name, d, links, -, -, -, hadd, rfl⟩ := AddHooker2CuteDog_eq_some h
  · exact .refl s'
  · exact .single (.add hadd)

theorem relinks_cancel {Ret : Int} (hstop : s.StopDogNose i o = some (Ret, s₁))
    (hdel : s₁.DelCuteDogInList i = some (b, s')) : s.Relinks s' := by
  obtain ⟨hlinks, hlist, -⟩ := StopDogNose_frame hstop
  exact (Relinks.of_same hlinks hlist).trans (relinks_DelCuteDogInList hdel)

theorem relinks_StartDogNose {F : CStr} {N : Option CStr} {m : Nat} {ret : Int}
    (hs : s.registry.Sound) (h : s.StartDogNose F N i m o = some (ret, s')) : s.Relinks s' := by
  obtain ⟨hlinks, hlist⟩ | ⟨hnew, hlinks, hlist⟩ := StartDogNose_lists h
  · exact .of_same hlinks hlist
  · have hfresh : o.malloc ∉ s.CuteDogList := fun hmem => by
      have hsome : (s.dogs o.malloc).isSome = true := (hs.listed _).mpr hmem
      rw [hnew] at hsome
      cases hsome
    refine .single ?_
    rw [hookLists, hookLists, hlinks, hlist]
    exact .init hfresh

section Handlers

variable {ι : Type} [Iksemel ι] {type : IksNodeType} {node : ι} {x : Option ι}

theorem relinks_createOrCancel (hs : s.registry.Sound) (h : s.createOrCancel x i o = some (b, s')) :
    s.Relinks s' := by
  unfold createOrCancel at h
  dsimp only at h
  split at h
  · split at h
    · cases h
      exact .refl s
    · simp only [Option.bind_eq_bind, Option.bind_eq_some_iff] at h
      obtain ⟨⟨ret, s₁⟩, hstart, h⟩ := h
      have hstarts := relinks_StartDogNose hs hstart
      split at h
      · next heq =>
          cases h
          cases heq
          exact hstarts
      · next heq =>
          cases h
          cases heq
          exact hstarts
  · split at h
    · simp only [Option.bind_eq_bind, Option.bind_eq_some_iff] at h
      obtain ⟨⟨Ret, s₁⟩, hstop, ⟨b', s₂⟩, hdel, h⟩ := h
      cases h
      exact relinks_cancel hstop hdel
    · cases h
      exact .refl s

theorem relinks_RespCatSetHooker (h : s.RespCatSetHooker x i = some s') : s.Relinks s' := by
  unfold RespCatSetHooker at h
  dsimp only at h
  split at h
  · simp only [Option.bind_eq_bind, Option.bind_eq_some_iff] at h
    obtain ⟨⟨b, s₁⟩, hadd, h⟩ := h
    have hadds := relinks_AddHooker2CuteDog hadd
    cases b with
    | true =>
        cases h
        have hrole : s₁.Relinks (s₁.setType i .CLIENT_USER_HOOKER) := .of_same rfl rfl
        exact (hadds.trans hrole).trans (talks_answer i _ _).relinks
    | false =>
        cases h
        exact hadds.trans (talks_answer i _ _).relinks
  · split at h
    · simp only [Option.bind_eq_bind, Option.bind_eq_some_iff] at h
      obtain ⟨⟨b, s₁⟩, hdel, h⟩ := h
      have hdels := relinks_DelHookerInCuteDog hdel
      cases b with
      | true =>
          cases h
          exact hdels.trans (talks_answer i _ _).relinks
      | false =>
          cases h
          exact hdels.trans (talks_answer i _ _).relinks
    · cases h
      exact ReflTransGen.refl

theorem relinks_IOProcessCatMsg (hs : s.registry.Sound)
    (h : s.IOProcessCatMsg i type node o = some s') : s.Relinks s' := by
  obtain ⟨-, -, rfl | rfl⟩ | ⟨handler, x, -, h⟩ := IOProcessCatMsg_eq_some h
  · exact .refl s'
  · exact (talks_answer i _ s).relinks
  · cases handler with
    | RespCatLogin0 =>
        simp only [runHandler, Option.map_eq_some_iff] at h
        obtain ⟨⟨b, s₁⟩, hlogin, rfl⟩ := h
        exact (talks_RespCatLogin0 hlogin).relinks
    | RespCatAllFilters => exact (talks_RespCatAllFilters h).relinks
    | RespCatSetHooker => exact relinks_RespCatSetHooker h
    | RespCatCreateFilter =>
        simp only [runHandler, RespCatCreateFilter, Option.bind_eq_bind,
          Option.bind_eq_some_iff] at h
        obtain ⟨⟨b, s₁⟩, hfirst, h⟩ := h
        have hfirsts := relinks_createOrCancel hs hfirst
        cases b with
        | true => exact hfirsts.trans (talks_CuteDogBroadCast h).relinks
        | false =>
            cases h
            exact hfirsts

end Handlers

theorem relinks_shutdown (h : s.shutdown i o = some s') : s.Relinks s' := by
  unfold shutdown FreeObj at h
  dsimp only at h
  split at h
  · simp only [Option.bind_eq_bind, Option.bind_eq_some_iff] at h
    obtain ⟨⟨Ret, s₂⟩, hstop, ⟨b, s₃⟩, hdel, h⟩ := h
    cases h
    exact relinks_cancel (s := (s.ioClosed i).setClient i fun ci => { ci with Prs := false })
      hstop hdel
  · simp only [Option.bind_eq_bind, Option.bind_eq_some_iff] at h
    obtain ⟨⟨b, s₂⟩, hdel, h⟩ := h
    cases h
    exact relinks_DelHookerInCuteDog
      (s := (s.ioClosed i).setClient i fun ci => { ci with Prs := false }) hdel
  · rw [← Option.some.inj h]
    exact .of_same rfl rfl

theorem relinks_SendTcp2Cats {p : Packet} (h : s.SendTcp2Cats p i = some (b, s')) :
    s.Relinks s' := by
  have hget := talks_IoGetSendMsgCell i s
  unfold SendTcp2Cats at h
  split at h
  · next heq =>
      cases h
      rw [heq] at hget
      exact hget.relinks
  · next c s₁ heq =>
      rw [heq] at hget
      simp only [Option.bind_eq_bind, Option.bind_eq_some_iff] at h
      obtain ⟨body, -, h⟩ := h
      refine hget.relinks.trans ?_
      exact Talks.relinks (s := s₁.setClient i fun ci =>
        { ci with iMsgNumID := (ci.iMsgNumID + 1) % 4294967296 })
          ((talks_send _ _ _).trans (talks_sendToHookers h))

theorem relinks_firstPass (i : Slot) (s : Server) : s.Relinks (s.firstPass i) := by
  unfold firstPass pickUp
  dsimp only
  split
  · exact .refl s
  · split
    · exact .of_same rfl rfl
    · split
      · exact .of_same rfl rfl
      · exact .of_same rfl rfl

theorem relinks_sendPump (i : Slot) (sn : Nat) (s : Server) : s.Relinks (s.sendPump i sn) := by
  by_cases hlt : sn < (s.ClientInfo i).iCurSendLen
  · rw [sendPump_of_lt hlt]
    exact .of_same rfl rfl
  · obtain ⟨ring, pushed, -, heq⟩ := sendPump_of_le (Nat.le_of_not_lt hlt)
    rw [heq]
    unfold pickUp
    split
    · split
      · exact .of_same rfl rfl
      · exact .of_same rfl rfl
    · split
      · exact .of_same rfl rfl
      · exact .of_same rfl rfl

end Server

/-! ## Runs -/

section Run

variable {ι : Type} [Iksemel ι]

/-- **One operation** changes the lists by the four steps only. -/
theorem relinks_step {s s' : Server} {a : ServerAction ι} (hs : s.registry.Sound)
    (h : serverStep s a = some s') : s.Relinks s' := by
  cases serverStep_eq_some h with
  | accept sd =>
      unfold Server.acceptClient
      split
      · exact .refl s
      · exact .of_same rfl rfl
  | stanza i type node o _ _ _ hmsg => exact Server.relinks_IOProcessCatMsg hs hmsg
  | shutdown i o _ _ hclose => exact Server.relinks_shutdown hclose
  | packet t p _ hsend => exact Server.relinks_SendTcp2Cats hsend
  | loopReturns t _ => exact .of_same rfl rfl
  | drain hpop =>
      unfold Server.popDogMsg at hpop
      split at hpop
      · cases hpop
      · dsimp only at hpop
        split at hpop
        · cases hpop
          exact .of_same rfl rfl
        · cases hpop
          exact .of_same rfl rfl
  | pickUp i _ _ => exact Server.relinks_firstPass i s
  | send i sn _ _ _ => exact Server.relinks_sendPump i sn s
  | toEnd i _ => exact .of_same rfl rfl
  | recycle i _ _ =>
      obtain ⟨ring, pushed, -, heq⟩ := Server.recycle_spec i s
      rw [heq]
      exact .of_same rfl rfl
  | allocator answer => exact .of_same rfl rfl

/-- **The nodes in memory** are those of the clients and the heads of the listed dogs. -/
theorem allocated_reach {align : MsgCell → Nat} {s : Server}
    (h : Reach (serverStep (ι := ι)) AnyStep (InitServer align) s) :
    Allocated s.links s.CuteDogList := by
  have hinit : Allocated (InitServer align).links (InitServer align).CuteDogList :=
    ⟨fun _ => rfl, fun _ => iff_of_false nofun nofun, List.nodup_nil⟩
  refine (h.invariant (P := fun s => s.registry.Sound ∧ Allocated s.links s.CuteDogList)
    ⟨sound_InitServer align, hinit⟩ ?_).2
  intro s a s' hs _ hstep
  exact ⟨hs.1.follows (serverStep_follows hstep), (relinks_step hs.1 hstep).allocated hs.2⟩

end Run

end Netflow
