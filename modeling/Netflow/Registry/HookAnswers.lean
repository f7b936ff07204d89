import Netflow.Registry.Broadcast
import Netflow.Registry.Drained
import Netflow.Registry.HookRuns
import Netflow.Registry.HookSearch

set_option autoImplicit false

/-! # The answer to a hook request

`RespCatSetHooker` links or unlinks the client first and obtains the cell for its answer afterwards.
With no cell free it returns, and what it changed stays. `list_add` does not look whether the client is
linked, so a client that hooks the dog it is linked to is answered `OK` as well, and leaves a list behind
in which the search of a cancel-hook request may never end.
-/

namespace Netflow

open Iksemel

/-- A request took effect: the client is newly linked under a dog of the name, or it was linked and is
linked nowhere any more. -/
def TookEffect (i : Slot) (s s' : Server) : Request → Prop
  | .hook Item => ∃ d ∈ s.CuteDogList, ∃ dog, s.dogs d = some dog ∧ Item = some dog.Name ∧
      ¬Under s.links d i ∧ Under s'.links d i
  | .unhook => LedTo s i ∧ ¬LedTo s' i
  | _ => False

/-- The answer to a request: `OK`, or the error `301`. -/
def answerTo (ok : Bool) : Request → CStr
  | .hook _ =>
      CStr.lit (if ok then
        "<iq type='result'><query xmlns='filter:hook' action='hook'><error id='OK'/></query></iq>"
      else
        "<iq type='result'><query xmlns='filter:hook' action='hook'><error id='301'/></query></iq>")
  | _ =>
      CStr.lit (if ok then
        "<iq type='result'><query xmlns='filter:hook' action='cancel'><error id='OK'/></query></iq>"
      else
        "<iq type='result'><query xmlns='filter:hook' action='cancel'><error id='301'/></query></iq>")

/-- The hook lists and what the client knows of its role stayed as they were. -/
def HooksKept (i : Slot) (s s' : Server) : Prop :=
  s'.links = s.links ∧ s'.CuteDogList = s.CuteDogList ∧
    (s'.ClientInfo i).CuteDog = (s.ClientInfo i).CuteDog ∧
    (s'.ClientInfo i).lType = (s.ClientInfo i).lType

/-- The client got one answer, `OK` when the request took effect and `301` when not; or no cell was
free, and nothing changed. -/
def AllOrNothing (i : Slot) (s s' : Server) (q : Request) : Prop :=
  (∃ m, newMessages s s' = [m] ∧
    (TookEffect i s s' q ∧ Server.Tells i (answerTo true q) m ∨
      ¬TookEffect i s s' q ∧ Server.Tells i (answerTo false q) m)) ∨
    ¬Registry.CellFree s ∧ HooksKept i s s'

/-- What a request needs to be answered as it took effect. A hook request that finds a dog needs the node
behind the dog's head in memory, and a free cell and a client that is not under the dog; or, without a free
cell, a client that hooked this dog more than once, to whom nothing changes. A cancel-hook request needs a
search that ends, and when the client is linked a free cell and a node that can be taken out and is not
led to afterwards. -/
def Answerable (i : Slot) (s : Server) : Request → Prop
  | .hook (some Item) => ∀ d, s.dogNamed Item s.CuteDogList = some (some d) →
      Addable s.links d ∧ (Registry.CellFree s ∧ ¬Under s.links d i ∨
        ¬Registry.CellFree s ∧ Settled s.links d i ∧ (s.ClientInfo i).CuteDog = some d ∧
          (s.ClientInfo i).lType = .CLIENT_USER_HOOKER)
  | .unhook => SearchEnds s.links i s.CuteDogList ∧
      (LedTo s i → Registry.CellFree s ∧ Detachable s.links i ∧
        ∀ d ∈ s.CuteDogList, ¬Leads (detached s.links i) (.ListHooker d) (.list1 i))
  | _ => True

theorem answerTo_ne (q : Request) : answerTo true q ≠ answerTo false q := by
  cases q with
  | hook _ =>
      simp only [answerTo, if_true, Bool.false_eq_true, if_false]
      rw [CStr.lit_eq rfl, CStr.lit_eq rfl]
      decide +kernel
  | _ =>
      simp only [answerTo, if_true, Bool.false_eq_true, if_false]
      rw [CStr.lit_eq rfl, CStr.lit_eq rfl]
      decide +kernel

/-- The answers fit into `Body`. -/
theorem snprintf_answerTo (ok : Bool) (q : Request) :
    CStr.snprintf 512 (answerTo ok q) = answerTo ok q := by
  refine CStr.snprintf_of_fits ?_
  cases q with
  | hook _ =>
      cases ok with
      | true =>
          simp only [answerTo, if_true]
          rw [CStr.lit_eq rfl]
          decide +kernel
      | false =>
          simp only [answerTo, Bool.false_eq_true, if_false]
          rw [CStr.lit_eq rfl]
          decide +kernel
  | _ =>
      cases ok with
      | true =>
          simp only [answerTo, if_true]
          rw [CStr.lit_eq rfl]
          decide +kernel
      | false =>
          simp only [answerTo, Bool.false_eq_true, if_false]
          rw [CStr.lit_eq rfl]
          decide +kernel

/-- What is answered changes no list. -/
theorem tookEffect_talks {s s₁ s' : Server} {i : Slot} (h : Server.Talks s₁ s') (q : Request) :
    TookEffect i s s' q ↔ TookEffect i s s₁ q := by
  cases q with
  | hook Item => simp only [TookEffect, h.links]
  | unhook => simp only [TookEffect, LedTo, h.links, h.CuteDogList]
  | _ => rfl

/-- A request that changes no list takes no effect. -/
theorem not_tookEffect_self (i : Slot) (s : Server) (q : Request) : ¬TookEffect i s s q := by
  cases q with
  | hook Item =>
      rintro ⟨d, -, dog, -, -, hnot, hunder⟩
      exact hnot hunder
  | unhook =>
      rintro ⟨hled, hnot⟩
      exact hnot hled
  | _ => exact id

namespace Server

variable {s s₁ : Server} {i : Slot} {q : Request}

/-- With a free cell the answer is the one message that is put, and else nothing happens. -/
theorem answer_new (str : CStr) (hput : s₁.hist.put = s.hist.put)
    (hfree : s₁.pFifoDogMsgFree = s.pFifoDogMsgFree) :
    (Registry.CellFree s ∧ ∃ m, newMessages s (s₁.answer i str).2 = [m] ∧ Tells i str m) ∨
      (¬Registry.CellFree s ∧ (s₁.answer i str).2 = s₁) := by
  obtain ⟨hanswer, hnone⟩ | ⟨s₂, hanswer, -⟩ := answer_spec i str s₁
  · refine Or.inr ⟨?_, by rw [hanswer]⟩
    rw [Registry.CellFree, ← hfree, hnone]
    exact fun h => h rfl
  · refine Or.inl ⟨?_, ?_⟩
    · have hcell := (answer_fst i str s₁).mp (by rw [hanswer])
      rwa [hfree] at hcell
    · obtain ⟨m, hm, htells⟩ := put_answer hanswer
      refine ⟨m, ?_, htells⟩
      rw [hanswer, newMessages]
      show s₂.hist.put.drop s.hist.put.length = [m]
      rw [hm, hput, List.drop_left]

/-- A request that changed nothing is answered `301`. -/
theorem allOrNothing_refused (q : Request) :
    AllOrNothing i s (s.answer i (answerTo false q)).2 q := by
  obtain ⟨-, m, hm, htells⟩ | ⟨hnone, hsame⟩ := answer_new (i := i) (answerTo false q)
    (show s.hist.put = s.hist.put from rfl) rfl
  · refine Or.inl ⟨m, hm, Or.inr ⟨?_, htells⟩⟩
    rw [tookEffect_talks (talks_answer i _ s)]
    exact not_tookEffect_self i s q
  · rw [hsame]
    exact Or.inr ⟨hnone, rfl, rfl, rfl, rfl⟩

/-- A request that is answered `OK` after its changes. -/
theorem allOrNothing_ok (hput : s₁.hist.put = s.hist.put)
    (hfree : s₁.pFifoDogMsgFree = s.pFifoDogMsgFree) :
    AllOrNothing i s (s₁.answer i (answerTo true q)).2 q ↔
      Registry.CellFree s ∧ TookEffect i s s₁ q ∨ ¬Registry.CellFree s ∧ HooksKept i s s₁ := by
  have htook := tookEffect_talks (s := s) (i := i) (talks_answer i (answerTo true q) s₁) q
  obtain ⟨hcell, m, hm, htells⟩ | ⟨hnone, hsame⟩ := answer_new (i := i) (answerTo true q) hput hfree
  · -- the answer is put: it says `OK`, and is true when the request took effect
    constructor
    · rintro (⟨m', hm', ⟨heffect, -⟩ | ⟨-, htells'⟩⟩ | ⟨hnone, -⟩)
      · exact Or.inl ⟨hcell, htook.mp heffect⟩
      · rw [hm] at hm'
        cases hm'
        exact absurd (htells.2.symm.trans htells'.2) (answerTo_ne q)
      · exact absurd hcell hnone
    · rintro (⟨-, heffect⟩ | ⟨hnone, -⟩)
      · exact Or.inl ⟨m, hm, Or.inl ⟨htook.mpr heffect, htells⟩⟩
      · exact absurd hcell hnone
  · rw [hsame]
    constructor
    · rintro (⟨m, hm, -⟩ | hkept)
      · rw [newMessages, hput, List.drop_length] at hm
        cases hm
      · exact Or.inr hkept
    · rintro (⟨hcell, -⟩ | hkept)
      · exact absurd hcell hnone
      · exact Or.inr hkept

end Server

/-! ## The two requests -/

section Requests

variable {ι : Type} [Iksemel ι] {s : Server} {i : Slot} {x : Option ι}

theorem RespCatSetHooker_hook {Item : Option CStr} (hreq : hookRequest x = .hook Item) :
    s.RespCatSetHooker x i = (s.AddHooker2CuteDog Item i).map fun r =>
      if r.1 then ((r.2.setType i .CLIENT_USER_HOOKER).answer i (answerTo true (.hook Item))).2
      else (r.2.answer i (answerTo false (.hook Item))).2 := by
  obtain ⟨haction, hItem⟩ := hookRequest_eq_hook hreq
  simp only [Server.RespCatSetHooker, haction, hItem, if_true]
  rw [← snprintf_answerTo true, ← snprintf_answerTo false]
  cases s.AddHooker2CuteDog Item i with
  | none => rfl
  | some r =>
      obtain ⟨b, s₁⟩ := r
      cases b with
      | true => rfl
      | false => rfl

theorem RespCatSetHooker_unhook (hreq : hookRequest x = .unhook) :
    s.RespCatSetHooker x i = (s.DelHookerInCuteDog i).map fun r =>
      (r.2.answer i (answerTo r.1 .unhook)).2 := by
  obtain ⟨hhook, hcancel⟩ := hookRequest_eq_unhook hreq
  simp only [Server.RespCatSetHooker, if_neg hhook, hcancel, if_true]
  cases s.DelHookerInCuteDog i with
  | none => rfl
  | some r =>
      obtain ⟨b, s₁⟩ := r
      rw [Option.map_some, ← snprintf_answerTo b]
      cases b with
      | true => rfl
      | false => rfl

/-- Linking the client under the dog that the name stands for takes effect exactly when the client was not
under it. -/
theorem hook_effect {Item : CStr} {d : DogPtr} {links : LinkMem HookNode} {s₁ : Server}
    (hnode : (s.links (.list1 i)).isSome = true)
    (hfound : s.dogNamed Item s.CuteDogList = some (some d))
    (hadd : list_add s.links (.list1 i) (.ListHooker d) = some links) (hlinks : s₁.links = links) :
    TookEffect i s s₁ (.hook (some Item)) ↔ ¬Under s.links d i := by
  obtain ⟨hd, dog, hdog, hname⟩ := Server.dogNamed_eq_some hfound
  obtain ⟨hunder, hother⟩ := list_add_under hnode hadd
  rw [← hlinks] at hunder hother
  constructor
  · rintro ⟨e, -, dog', -, -, hnot, hunder'⟩
    exact hother e hunder' hnot
  · intro hnot
    exact ⟨d, hd, dog, hdog, by rw [hname], hnot, hunder⟩

/-- The server when a hook took effect, before it is answered. -/
def hookedUnder (s : Server) (i : Slot) (d : DogPtr) (links : LinkMem HookNode) : Server :=
  ({ s with links := links }.setCuteDog i (some d)).setType i .CLIENT_USER_HOOKER

/-- Linking the client changes nothing when it is settled under the dog. -/
theorem hook_kept {d : DogPtr} {links : LinkMem HookNode}
    (hnode : (s.links (.list1 i)).isSome = true)
    (hadd : list_add s.links (.list1 i) (.ListHooker d) = some links) :
    HooksKept i s (hookedUnder s i d links) ↔ Settled s.links d i ∧
      (s.ClientInfo i).CuteDog = some d ∧ (s.ClientInfo i).lType = .CLIENT_USER_HOOKER := by
  have hclient : (hookedUnder s i d links).ClientInfo i = { s.ClientInfo i with
      CuteDog := some d, lType := .CLIENT_USER_HOOKER } := by
    rw [hookedUnder, Server.setType, Server.setClient_ClientInfo_self, Server.setCuteDog,
      Server.setClient_ClientInfo_self]
  have hlist : (hookedUnder s i d links).CuteDogList = s.CuteDogList := rfl
  rw [HooksKept, hclient, ← list_add_same_iff hnode hadd, and_iff_right hlist]
  exact and_congr Iff.rfl (and_congr eq_comm eq_comm)

theorem AddHooker2CuteDog_found {Item : CStr} {d : DogPtr}
    (hfound : s.dogNamed Item s.CuteDogList = some (some d)) :
    s.AddHooker2CuteDog (some Item) i = (list_add s.links (.list1 i) (.ListHooker d)).map fun links =>
      (true, { s with links := links }.setCuteDog i (some d)) := by
  simp only [Server.AddHooker2CuteDog, hfound, Option.bind_eq_bind, Option.bind_some]
  cases list_add s.links (.list1 i) (.ListHooker d) with
  | none => rfl
  | some links => rfl

/-- A hook request that finds no dog changes nothing and is refused. -/
theorem hook_refused {Item : Option CStr} (hreq : hookRequest x = .hook Item)
    (hadd : s.AddHooker2CuteDog Item i = some (false, s)) :
    ∃ s', s.RespCatSetHooker x i = some s' ∧ AllOrNothing i s s' (.hook Item) := by
  rw [RespCatSetHooker_hook hreq, hadd]
  exact ⟨_, rfl, Server.allOrNothing_refused _⟩

/-- A hook request that finds a dog. -/
theorem hook_found {Item : CStr} {d : DogPtr} (hnode : (s.links (.list1 i)).isSome = true)
    (hreq : hookRequest x = .hook (some Item))
    (hfound : s.dogNamed Item s.CuteDogList = some (some d)) :
    (∃ s', s.RespCatSetHooker x i = some s' ∧ AllOrNothing i s s' (.hook (some Item))) ↔
      Addable s.links d ∧ (Registry.CellFree s ∧ ¬Under s.links d i ∨
        ¬Registry.CellFree s ∧ Settled s.links d i ∧ (s.ClientInfo i).CuteDog = some d ∧
          (s.ClientInfo i).lType = .CLIENT_USER_HOOKER) := by
  rw [← list_add_isSome_iff hnode, RespCatSetHooker_hook hreq, AddHooker2CuteDog_found hfound]
  cases hadd : list_add s.links (.list1 i) (.ListHooker d) with
  | none =>
      refine iff_of_false ?_ fun h => by cases h.1
      rintro ⟨s', hrun, -⟩
      cases hrun
  | some links =>
      have hok : AllOrNothing i s ((hookedUnder s i d links).answer i
            (answerTo true (.hook (some Item)))).2 (.hook (some Item)) ↔
          Registry.CellFree s ∧ TookEffect i s (hookedUnder s i d links) (.hook (some Item)) ∨
            ¬Registry.CellFree s ∧ HooksKept i s (hookedUnder s i d links) :=
        Server.allOrNothing_ok rfl rfl
      rw [hook_effect hnode hfound hadd rfl, hook_kept hnode hadd] at hok
      rw [and_iff_right (show (some links).isSome = true from rfl), ← hok]
      constructor
      · rintro ⟨s', hrun, hall⟩
        cases hrun
        exact hall
      · exact fun hall => ⟨_, rfl, hall⟩

/-- **A hook request** of any client, in any state of the lists. -/
theorem hook_answered (hs : s.registry.Sound) (ha : Allocated s.links s.CuteDogList)
    {Item : Option CStr} (hreq : hookRequest x = .hook Item) :
    (∃ s', s.RespCatSetHooker x i = some s' ∧ AllOrNothing i s s' (.hook Item)) ↔
      Answerable i s (.hook Item) := by
  cases Item with
  | none => exact iff_of_true (hook_refused hreq rfl) trivial
  | some Item =>
      obtain ⟨found, hfound⟩ : ∃ found, s.dogNamed Item s.CuteDogList = some found :=
        Server.dogNamed_isSome fun d hd => (hs.listed d).mpr hd
      cases found with
      | none =>
          have hadd : s.AddHooker2CuteDog (some Item) i = some (false, s) := by
            simp only [Server.AddHooker2CuteDog, hfound, Option.bind_eq_bind, Option.bind_some]
          refine iff_of_true (hook_refused hreq hadd) fun d hd => ?_
          rw [hfound] at hd
          cases hd
      | some d =>
          rw [hook_found (ha.nodes i) hreq hfound]
          simp only [Answerable, hfound, Option.some.injEq, forall_eq']

/-- Taking out the node of a client to whom a list leads takes effect exactly when no list leads to it
any more. -/
theorem unhook_effect {links : LinkMem HookNode} (hled : LedTo s i)
    (hdel : list_del s.links (.list1 i) = some links) :
    TookEffect i s { s with links := links } .unhook ↔
      ∀ d ∈ s.CuteDogList, ¬Leads (detached s.links i) (.ListHooker d) (.list1 i) := by
  obtain ⟨hnext, -⟩ := next_list_del hdel
  rw [TookEffect, and_iff_right hled, LedTo]
  simp only [Under, hnext, not_exists, not_and]

theorem DelHookerInCuteDog_met {met : Bool} (hsearch : s.hookerMet i s.CuteDogList = some met) :
    s.DelHookerInCuteDog i = if met then (list_del s.links (.list1 i)).map fun links =>
      (true, { s with links := links }) else some (false, s) := by
  simp only [Server.DelHookerInCuteDog, hsearch, Option.bind_eq_bind, Option.bind_some]
  cases list_del s.links (.list1 i) with
  | none => rfl
  | some links => rfl

/-- A cancel-hook request of a client that the search finds. -/
theorem unhook_found (hreq : hookRequest x = .unhook)
    (hsearch : s.hookerMet i s.CuteDogList = some true) (hled : LedTo s i) :
    (∃ s', s.RespCatSetHooker x i = some s' ∧ AllOrNothing i s s' .unhook) ↔
      Registry.CellFree s ∧ Detachable s.links i ∧
        ∀ d ∈ s.CuteDogList, ¬Leads (detached s.links i) (.ListHooker d) (.list1 i) := by
  rw [RespCatSetHooker_unhook hreq, DelHookerInCuteDog_met hsearch, if_pos rfl, ← list_del_isSome_iff]
  cases hdel : list_del s.links (.list1 i) with
  | none =>
      refine iff_of_false ?_ fun h => by cases h.2.1
      rintro ⟨s', hrun, -⟩
      cases hrun
  | some links =>
      have hok : AllOrNothing i s (({ s with links := links } : Server).answer i
            (answerTo true .unhook)).2 .unhook ↔
          Registry.CellFree s ∧ TookEffect i s { s with links := links } .unhook ∨
            ¬Registry.CellFree s ∧ HooksKept i s { s with links := links } :=
        Server.allOrNothing_ok rfl rfl
      have hnotkept : ¬HooksKept i s { s with links := links } := fun hkept =>
        (next_list_del hdel).2 hkept.1
      rw [← unhook_effect hled hdel, and_iff_right (show (some links).isSome = true from rfl)]
      constructor
      · rintro ⟨s', hrun, hall⟩
        cases hrun
        exact (hok.mp hall).resolve_right fun h => hnotkept h.2
      · exact fun h => ⟨_, rfl, hok.mpr (Or.inl h)⟩

/-- **A cancel-hook request** of any client, in any state of the lists. -/
theorem unhook_answered (hs : s.registry.Sound) (ha : Allocated s.links s.CuteDogList)
    (hreq : hookRequest x = .unhook) :
    (∃ s', s.RespCatSetHooker x i = some s' ∧ AllOrNothing i s s' .unhook) ↔
      Answerable i s .unhook := by
  have hdogs : ∀ d ∈ s.CuteDogList, (s.dogs d).isSome = true := fun d hd => (hs.listed d).mpr hd
  rw [Answerable, ← hookerMet_isSome_iff ha hdogs]
  cases hsearch : s.hookerMet i s.CuteDogList with
  | none =>
      refine iff_of_false ?_ fun h => by cases h.1
      rintro ⟨s', hrun, -⟩
      rw [RespCatSetHooker_unhook hreq, Server.DelHookerInCuteDog, hsearch] at hrun
      cases hrun
  | some met =>
      obtain ⟨-, hled⟩ := (hookerMet_eq_some_iff ha hdogs (fun d hd => hd) met).mp hsearch
      rw [and_iff_right (show (some met).isSome = true from rfl)]
      cases met with
      | false =>
          have hnot : ¬LedTo s i := fun h => by cases hled.mpr h
          rw [RespCatSetHooker_unhook hreq, DelHookerInCuteDog_met hsearch]
          exact iff_of_true ⟨_, rfl, Server.allOrNothing_refused _⟩ fun h => absurd h hnot
      | true =>
          have hlinked : LedTo s i := hled.mp rfl
          rw [forall_prop_of_true hlinked]
          exact unhook_found hreq hsearch hlinked

/-- **All or nothing**: in every state that a run reaches, a hook and a cancel-hook request are answered
as they took effect, and change nothing when they are not answered, exactly when they are
`Answerable`. -/
theorem hook_all_or_nothing {align : MsgCell → Nat}
    (h : Reach (serverStep (ι := ι)) AnyStep (InitServer align) s) {q : Request}
    (hreq : hookRequest x = q) (hq : q ≠ .other) :
    (∃ s', s.RespCatSetHooker x i = some s' ∧ AllOrNothing i s s' q) ↔ Answerable i s q := by
  have hs := sound_reach h
  have ha := allocated_reach h
  cases q with
  | hook Item => exact hook_answered hs ha hreq
  | unhook => exact unhook_answered hs ha hreq
  | create F N m => exact absurd hreq hookRequest_ne.1
  | cancel => exact absurd hreq (hookRequest_ne (F := none) (N := none) (m := 0)).2
  | other => exact absurd rfl hq

end Requests

/-! ## Well-formed lists -/

section WellFormed

variable {s : Server} {i : Slot} {hookers : DogPtr → List Slot}

/-- With well-formed lists a hook request only needs a cell and a client that is not under the dog. -/
theorem Hooked.answerable_hook (h : Hooked s.links s.CuteDogList hookers) (Item : CStr) :
    Answerable i s (.hook (some Item)) ↔
      ∀ d, s.dogNamed Item s.CuteDogList = some (some d) →
        Registry.CellFree s ∧ ¬Under s.links d i := by
  refine forall_congr' fun d => imp_congr_right fun hfound => ?_
  have hd := (Server.dogNamed_eq_some hfound).1
  obtain ⟨n, -, hjoin⟩ := (h.circle d hd).head_joined
  have haddable : Addable s.links d := ⟨n, hjoin.1, hjoin.isSome.2⟩
  rw [and_iff_right haddable, or_iff_left fun hkept => h.not_settled hd hkept.2.1]

/-- And a cancel-hook request of a linked client only needs a cell. -/
theorem Hooked.answerable_unhook (h : Hooked s.links s.CuteDogList hookers) :
    Answerable i s .unhook ↔ (LedTo s i → Registry.CellFree s) := by
  rw [Answerable, and_iff_right (h.searchEnds i fun d hd => hd)]
  refine imp_congr_right fun hled => and_iff_left ?_
  obtain ⟨d, hd, hunder⟩ := hled
  have hi := (h.under_iff hd).mp hunder
  obtain ⟨links, hdel, js, hooked', hjs, -⟩ := h.del hd hi
  refine ⟨list_del_isSome_iff.mp (Option.isSome_of_eq_some hdel), fun e he hlead => ?_⟩
  rw [← (next_list_del hdel).1] at hlead
  exact h.not_in_updated hd hi hjs e he ((hooked'.under_iff he).mp hlead)

end WellFormed

/-! ## A hook that is not answered -/

/-- The `query` element of a request to hook the dog `a`. -/
def hookQuery : Option Iks := Iksemel.iks_find (some (hookFilter "a")) (CStr.lit "query")

theorem hookRequest_hookQuery : hookRequest hookQuery = .hook (some (CStr.lit "a")) := rfl

theorem OwnedDog.found {align : MsgCell → Nat} {o : Outcome} {s : Server} {h : PcapHandle}
    {tid : ThreadId} (hs : OwnedDog align o s h tid) :
    s.dogNamed (CStr.lit "a") s.CuteDogList = some (some o.malloc) := by
  rw [hs.list]
  refine dogNamed_head hs.dog ?_
  show CStr.lit "a" = CStr.strncpy 32 (CStr.lit "a")
  decide +kernel

/-- The client 14 hooks the dog of the client 15, and is told so. -/
theorem hook_all_or_nothing_owned : ∃ s s', OwnedDog (fun _ => 0) .allSucceed s 0 1 ∧
    s.RespCatSetHooker hookQuery 14 = some s' ∧
      TookEffect 14 s s' (.hook (some (CStr.lit "a"))) ∧
      AllOrNothing 14 s s' (.hook (some (CStr.lit "a"))) := by
  obtain ⟨s, hs⟩ := owned_dog (fun _ => 0) (o := Outcome.allSucceed) (h := 0) ⟨rfl, rfl, rfl⟩
    (show Outcome.allSucceed.pthread_create = some 1 from rfl)
  have hmem : Outcome.allSucceed.malloc ∈ s.CuteDogList := (Server.dogNamed_eq_some hs.found).1
  have hnot : ¬Under s.links Outcome.allSucceed.malloc 14 := fun hunder => by
    cases (hs.hooked.under_iff hmem).mp hunder
  have hanswerable : Answerable 14 s (.hook (some (CStr.lit "a"))) := by
    refine (hs.hooked.answerable_hook _).mpr fun d hd => ?_
    cases hs.found.symm.trans hd
    exact ⟨cellFree_of_count (Nat.lt_of_lt_of_le (by decide) hs.cells), hnot⟩
  obtain ⟨s', hrun, hall⟩ := (hook_all_or_nothing (hs.reach Outcome.allSucceed_succeeds).any
    hookRequest_hookQuery (fun h => by cases h)).mpr hanswerable
  refine ⟨s, s', hs, hrun, ?_, hall⟩
  obtain ⟨links, hadd, -⟩ := list_add_spec (hs.hooked.circle _ hmem) (hs.hooked.nodes 14) (by simp)
  rw [RespCatSetHooker_hook hookRequest_hookQuery, AddHooker2CuteDog_found hs.found, hadd] at hrun
  cases hrun
  refine (tookEffect_talks (Server.talks_answer 14 _ _) _).mpr ?_
  exact (hook_effect (hs.hooked.nodes 14) hs.found hadd rfl).mpr hnot

/-- **A hook that takes effect and is not answered**: the client 14 hooks the dog of the client 15 when
no cell is free. -/
theorem hook_unanswered : ¬∀ (s : Server) (i : Slot) (x : Option Iks) (q : Request),
    Reach (serverStep (ι := Iks)) AnyStep (InitServer fun _ => 0) s → hookRequest x = q → q ≠ .other →
      ∃ s', s.RespCatSetHooker x i = some s' ∧ AllOrNothing i s s' q := by
  intro hall
  obtain ⟨s₀, h₀⟩ := owned_dog (fun _ => 0) (o := Outcome.allSucceed) (h := 0) ⟨rfl, rfl, rfl⟩
    (show Outcome.allSucceed.pthread_create = some 1 from rfl)
  have hready : Ready s₀ 14 := ready_of_seat (by rw [h₀.work]; decide) h₀.other
  -- other clients' requests use up the cells and leave the dog where it is
  obtain ⟨s, hreach, htalks, hcount⟩ :=
    reach_drained (h₀.reach Outcome.allSucceed_succeeds).any hready
  have hooked : Hooked s.links s.CuteDogList fun _ => [] := by
    rw [htalks.links, htalks.CuteDogList]
    exact h₀.hooked
  have hfound : s.dogNamed (CStr.lit "a") s.CuteDogList = some (some Outcome.allSucceed.malloc) := by
    rw [htalks.CuteDogList, dogNamed_congr htalks.dogs]
    exact h₀.found
  have hanswerable := (hook_answered (i := 14) (sound_reach hreach) (allocated_reach hreach)
    hookRequest_hookQuery).mp (hall s 14 _ _ hreach hookRequest_hookQuery fun h => by cases h)
  have hcell := ((hooked.answerable_hook _).mp hanswerable _ hfound).1
  rw [Registry.CellFree] at hcell
  rw [← FifoRing.length_contents] at hcount
  exact hcell (List.length_eq_zero_iff.mp hcount)

end Netflow
