import Netflow.Registry.CreateAnswers
import Netflow.Registry.HookAnswers

set_option autoImplicit false

/-! # The strings a stanza is taken apart into

What a handler looks up in a stanza may be missing. `strcmp`, `strstr` and `strncpy` take no NULL, and
the handlers hand them some of the pointers they found unguarded. The calls of these functions are
listed in the order they are made; a NULL is equal to no string here, and what follows a call with NULL
is no longer the program's.
-/

namespace Netflow

open Iksemel

/-- A call of a string function. -/
inductive StrCall where
  | strcmp (str str' : Option CStr)
  | strstr (str str' : Option CStr)
  | strncpy (src : Option CStr) (n : Nat)
deriving DecidableEq

/-- No argument of the call is NULL. -/
def StrCall.NoNull : StrCall → Prop
  | strcmp str str' => str.isSome = true ∧ str'.isSome = true
  | strstr str str' => str.isSome = true ∧ str'.isSome = true
  | strncpy src _ => src.isSome = true

/-- No call of a list is given a NULL. -/
def NoNullPassed (calls : List StrCall) : Prop := ∀ c ∈ calls, c.NoNull

namespace Server

/-! ## The calls of the functions -/

/-- The comparisons of a name with the names of dogs: `CheckNameInList`, `AddHooker2CuteDog`. -/
def dogNamedCalls (Name : CStr) (s : Server) : List DogPtr → List StrCall
  | [] => []
  | d :: rest =>
      match s.dogs d with
      | none => []
      | some pCuteDog =>
          .strcmp (some Name) (some pCuteDog.Name) ::
            if Name = pCuteDog.Name then [] else dogNamedCalls Name s rest

def AddHooker2CuteDogCalls (CuteDogName : Option CStr) (s : Server) : List StrCall :=
  match CuteDogName with
  | none => []
  | some CuteDogName => s.dogNamedCalls CuteDogName s.CuteDogList

def AddCuteDog2ListCalls (Handle : Option PcapHandle) (Name : Option CStr) (FilterStr : CStr) :
    List StrCall :=
  match Handle with
  | none => []
  | some _ => [.strncpy Name 31, .strncpy (some FilterStr) 255]

def StartDogNoseCalls (FilterStr : CStr) (Name : Option CStr) (i : Slot) (model : Nat) (o : Outcome)
    (s : Server) : List StrCall :=
  .strstr (some FilterStr) (some (CStr.lit "udp")) ::
    match (s.setCallBack FilterStr).openLive (o.pcap_open_live (netInterface model)) with
    | none => []
    | some s =>
        match s.SetCapFilter s.pcap_handle i o with
        | (false, _) => []
        | (true, s) =>
            if o.pcap_datalink ≠ DLT_EN10MB then []
            else AddCuteDog2ListCalls s.pcap_handle Name FilterStr

section Handlers

variable {ι : Type} [Iksemel ι]

def RespCatLogin0Calls (node : Option ι) (i : Slot) (s : Server) : List StrCall :=
  match (s.IoGetSendMsgCell i).1, iks_find_cdata node (CStr.lit "username") with
  | some _, some DogName => s.dogNamedCalls DogName s.CuteDogList
  | _, _ => []

def RespCatAllFiltersCalls (node : Option ι) : List StrCall :=
  [.strcmp (iks_find_attrib node (CStr.lit "action")) (some (CStr.lit "show"))]

def RespCatSetHookerCalls (node : Option ι) (s : Server) : List StrCall :=
  if iks_strcmp ι (iks_find_attrib node (CStr.lit "action")) (some (CStr.lit "hook")) = 0 then
    s.AddHooker2CuteDogCalls (iks_find_cdata node (CStr.lit "item"))
  else []

def RespCatCreateFilterCalls (node : Option ι) (i : Slot) (o : Outcome) (s : Server) :
    List StrCall :=
  if iks_strcmp ι (iks_find_attrib node (CStr.lit "action")) (some (CStr.lit "create")) = 0 then
    match iks_find_cdata node (CStr.lit "filterstring") with
    | none => []
    | some FilterStr =>
        s.StartDogNoseCalls FilterStr (iks_find_cdata node (CStr.lit "username")) i (modelOf node) o
  else []

def runHandlerCalls (handler : IqHandler) (x : Option ι) (i : Slot) (o : Outcome) (s : Server) :
    List StrCall :=
  match handler with
  | .RespCatLogin0 => s.RespCatLogin0Calls x i
  | .RespCatAllFilters => RespCatAllFiltersCalls x
  | .RespCatSetHooker => s.RespCatSetHookerCalls x
  | .RespCatCreateFilter => s.RespCatCreateFilterCalls x i o

/-- The comparisons of `IOXMLIq`: the texts for `type` and `xmlns` of its tests, in order. -/
def testCalls (type xmlns : Option CStr) : List (CStr × CStr) → List StrCall
  | [] => []
  | (t, x) :: rest =>
      .strcmp type (some t) ::
        if type = some t then
          .strcmp xmlns (some x) :: if xmlns = some x then [] else testCalls type xmlns rest
        else testCalls type xmlns rest

/-- The texts `IOXMLIq` compares `type` and `xmlns` with. -/
def iqTests : List (CStr × CStr) :=
  [(CStr.lit "set", CStr.lit "jabber:iq:auth"), (CStr.lit "get", CStr.lit "filter:show"),
    (CStr.lit "set", CStr.lit "filter:hook"), (CStr.lit "set", CStr.lit "filter:new")]

def IOXMLIqCalls (node : ι) (i : Slot) (o : Outcome) (s : Server) : List StrCall :=
  let type := iks_find_attrib (some node) (CStr.lit "type")
  let x := iks_find (some node) (CStr.lit "query")
  let xmlns := iks_find_attrib x (CStr.lit "xmlns")
  testCalls type xmlns iqTests ++
    match iqHandler type xmlns with
    | some (some handler) => s.runHandlerCalls handler x i o
    | _ => []

def IOProcessCatMsgCalls (i : Slot) (type : IksNodeType) (node : ι) (o : Outcome) (s : Server) :
    List StrCall :=
  match type, iks_packet node with
  | .IKS_NODE_NORMAL, .IKS_PAK_IQ => s.IOXMLIqCalls node i o
  | _, _ => []

end Handlers

end Server

/-- The parts of an `iq` that are used unguarded: its type; the name space of the query of a `set` or
a `get`; the action of a request for the filters; and the user name of a filter to create, when its
capture is opened and answered. -/
structure PartsPresent {ι : Type} [Iksemel ι] (node : ι) (o : Outcome) (s : Server) : Prop where
  type : (iks_find_attrib (some node) (CStr.lit "type")).isSome = true
  xmlns : ∀ t ∈ [CStr.lit "set", CStr.lit "get"],
    iks_find_attrib (some node) (CStr.lit "type") = some t →
      (iks_find_attrib (iks_find (some node) (CStr.lit "query")) (CStr.lit "xmlns")).isSome = true
  action : (handlerOf .IKS_NODE_NORMAL node).1 = some .RespCatAllFilters →
    (iks_find_attrib (iks_find (some node) (CStr.lit "query")) (CStr.lit "action")).isSome = true
  username : ∀ F N m h, requestOf .IKS_NODE_NORMAL node = .create (some F) N m →
    o.captures m h → h ∉ s.opened → Registry.CellFree s → N.isSome = true

/-! ## When a call is given NULL -/

theorem noNullPassed_nil : NoNullPassed [] := nofun

theorem noNullPassed_cons {c : StrCall} {calls : List StrCall} :
    NoNullPassed (c :: calls) ↔ c.NoNull ∧ NoNullPassed calls := List.forall_mem_cons

theorem noNullPassed_append {calls calls' : List StrCall} :
    NoNullPassed (calls ++ calls') ↔ NoNullPassed calls ∧ NoNullPassed calls' :=
  List.forall_mem_append

namespace Server

variable {s : Server}

theorem noNull_dogNamedCalls (Name : CStr) (s : Server) (l : List DogPtr) :
    NoNullPassed (s.dogNamedCalls Name l) := by
  induction l with
  | nil => exact noNullPassed_nil
  | cons d rest ih =>
      rw [dogNamedCalls]
      split
      · exact noNullPassed_nil
      · refine noNullPassed_cons.mpr ⟨⟨rfl, rfl⟩, ?_⟩
        split
        · exact noNullPassed_nil
        · exact ih

/-- A name is copied once the capture was opened and its client answered. -/
theorem noNull_StartDogNoseCalls {F : CStr} {N : Option CStr} {i : Slot} {m : Nat} {o : Outcome} :
    NoNullPassed (s.StartDogNoseCalls F N i m o) ↔
      ∀ h, o.captures m h → h ∉ s.opened → Registry.CellFree s → N.isSome = true := by
  rw [StartDogNoseCalls, noNullPassed_cons, and_iff_right ⟨rfl, rfl⟩]
  cases hlive : o.pcap_open_live (netInterface m) with
  | none =>
      refine iff_of_true noNullPassed_nil fun h hcap => ?_
      rw [hcap.1] at hlive
      cases hlive
  | some h =>
      by_cases hopen : h ∈ s.opened
      · -- `pcap_open_live` returns no handle that is open
        have hnone : (s.setCallBack F).openLive (some h) = none := by
          rw [openLive, opened_setCallBack, if_pos hopen]
        rw [hnone]
        refine iff_of_true noNullPassed_nil fun k hcap hk => ?_
        rw [hcap.1] at hlive
        cases hlive
        exact absurd hopen hk
      · rw [openLive_withHandle hopen]
        have hset : (s.withHandle F h).SetCapFilter (s.withHandle F h).pcap_handle i o =
            (((s.withHandle F h).SetCapFilter (some h) i o).1, s.withCapture F h i o) := rfl
        have hfst := SetCapFilter_fst h i o (s.withHandle F h)
        rw [pFifoDogMsgFree_withHandle] at hfst
        simp only [hset]
        cases hb : ((s.withHandle F h).SetCapFilter (some h) i o).1 with
        | false =>
            refine iff_of_true noNullPassed_nil fun k hcap _ hcell => ?_
            rw [hfst.mpr ⟨hcap.2.1, hcell⟩] at hb
            cases hb
        | true =>
            obtain ⟨hfilter, hcell⟩ := hfst.mp hb
            have hhandle : (s.withCapture F h i o).pcap_handle = some h :=
              pcap_handle_SetCapFilter (s.withHandle F h) (some h) i o
            by_cases hlink : o.pcap_datalink = DLT_EN10MB
            · simp only [hlink, ne_eq, not_true_eq_false, if_false, hhandle, AddCuteDog2ListCalls]
              -- `strncpy` of the name, then of the filter
              rw [noNullPassed_cons, noNullPassed_cons]
              constructor
              · exact fun hcalls _ _ _ _ => hcalls.1
              · exact fun hname => ⟨hname h ⟨hlive, hfilter, hlink⟩ hopen hcell, rfl, noNullPassed_nil⟩
            · simp only [ne_eq, hlink, not_false_eq_true, if_true]
              exact iff_of_true noNullPassed_nil fun k hcap => absurd hcap.2.2 hlink

section Handlers

variable {ι : Type} [Iksemel ι] {i : Slot} {o : Outcome} {x : Option ι}

theorem noNull_RespCatLogin0Calls (x : Option ι) (i : Slot) (s : Server) :
    NoNullPassed (s.RespCatLogin0Calls x i) := by
  unfold RespCatLogin0Calls
  split
  · exact noNull_dogNamedCalls _ s _
  · exact noNullPassed_nil

theorem noNull_RespCatSetHookerCalls (x : Option ι) (s : Server) :
    NoNullPassed (s.RespCatSetHookerCalls x) := by
  unfold RespCatSetHookerCalls AddHooker2CuteDogCalls
  split
  · split
    · exact noNullPassed_nil
    · exact noNull_dogNamedCalls _ s _
  · exact noNullPassed_nil

theorem noNull_RespCatCreateFilterCalls :
    NoNullPassed (s.RespCatCreateFilterCalls x i o) ↔
      ∀ F N m h, filterRequest x = .create (some F) N m → o.captures m h → h ∉ s.opened →
        Registry.CellFree s → N.isSome = true := by
  unfold RespCatCreateFilterCalls
  split
  · next hcreate =>
      have hreq : filterRequest x = .create (iks_find_cdata x (CStr.lit "filterstring"))
          (iks_find_cdata x (CStr.lit "username")) (modelOf x) := if_pos hcreate
      rw [hreq]
      cases iks_find_cdata x (CStr.lit "filterstring") with
      | none =>
          refine iff_of_true noNullPassed_nil fun F N m h heq => ?_
          cases heq
      | some F =>
          rw [noNull_StartDogNoseCalls]
          constructor
          · intro hname _ _ _ h heq
            cases heq
            exact hname h
          · exact fun hname h => hname F _ _ h rfl
  · next hcreate =>
      refine iff_of_true noNullPassed_nil fun F N m h hreq => ?_
      exact absurd (filterRequest_eq_create hreq).1 hcreate

end Handlers

/-- The comparisons of `IOXMLIq` take the type, and the name space when the type is that of a test. -/
theorem noNull_testCalls {type xmlns : Option CStr} {l : List (CStr × CStr)} :
    NoNullPassed (testCalls type xmlns l) ↔
      (l ≠ [] → type.isSome = true) ∧ ∀ t ∈ l, type = some t.1 → xmlns.isSome = true := by
  induction l with
  | nil => exact iff_of_true noNullPassed_nil ⟨fun h => absurd rfl h, nofun⟩
  | cons t rest ih =>
      obtain ⟨t, x⟩ := t
      have hhead : (StrCall.strcmp type (some t)).NoNull ↔ type.isSome = true :=
        and_iff_left rfl
      rw [testCalls, noNullPassed_cons, hhead, List.forall_mem_cons]
      by_cases ht : type = some t
      · -- the type is equal, so `&&` goes on to the name space
        rw [if_pos ht, noNullPassed_cons]
        have hsome : type.isSome = true := Option.isSome_of_eq_some ht
        constructor
        · rintro ⟨-, ⟨hx, -⟩, -⟩
          exact ⟨fun _ => hsome, fun _ => hx, fun _ _ _ => hx⟩
        · rintro ⟨-, hx, hrest⟩
          refine ⟨hsome, ⟨hx ht, rfl⟩, ?_⟩
          -- an equal name space ends the tests
          split
          · exact noNullPassed_nil
          · exact ih.mpr ⟨fun _ => hsome, hrest⟩
      · rw [if_neg ht, ih]
        constructor
        · rintro ⟨hsome, -, hrest⟩
          exact ⟨fun _ => hsome, fun h => absurd h ht, hrest⟩
        · rintro ⟨hsome, -, hrest⟩
          exact ⟨hsome (List.cons_ne_nil _ _), fun _ => hsome (List.cons_ne_nil _ _), hrest⟩

end Server

section Stanza

variable {ι : Type} [Iksemel ι] {s : Server} {i : Slot} {o : Outcome} {type : IksNodeType} {node : ι}

/-- An `iq` is compared and handed to its handler. -/
theorem IOProcessCatMsgCalls_iq (hpak : iks_packet node = .IKS_PAK_IQ) :
    s.IOProcessCatMsgCalls i .IKS_NODE_NORMAL node o =
      Server.testCalls (iks_find_attrib (some node) (CStr.lit "type"))
          (iks_find_attrib (iks_find (some node) (CStr.lit "query")) (CStr.lit "xmlns"))
          Server.iqTests ++
        match handlerOf .IKS_NODE_NORMAL node with
        | (some handler, x) => s.runHandlerCalls handler x i o
        | (none, _) => [] := by
  simp only [Server.IOProcessCatMsgCalls, hpak, Server.IOXMLIqCalls, handlerOf, and_self, if_true]
  congr 1
  cases iqHandler (iks_find_attrib (some node) (CStr.lit "type"))
      (iks_find_attrib (iks_find (some node) (CStr.lit "query")) (CStr.lit "xmlns")) with
  | none => rfl
  | some handler =>
      cases handler with
      | none => rfl
      | some handler => rfl

theorem handlerOf_snd :
    (handlerOf .IKS_NODE_NORMAL node).2 = iks_find (some node) (CStr.lit "query") := by
  unfold handlerOf
  dsimp only
  split
  · rfl
  · rfl

/-- What a handler is given must be there when it is the list of filters or a new filter. -/
theorem noNull_handler (s : Server) (i : Slot) (o : Outcome) (node : ι) :
    NoNullPassed (match handlerOf .IKS_NODE_NORMAL node with
      | (some handler, x) => s.runHandlerCalls handler x i o
      | (none, _) => []) ↔
      ((handlerOf .IKS_NODE_NORMAL node).1 = some .RespCatAllFilters →
        (iks_find_attrib (iks_find (some node) (CStr.lit "query")) (CStr.lit "action")).isSome =
          true) ∧
      ∀ F N m h, requestOf .IKS_NODE_NORMAL node = .create (some F) N m →
        o.captures m h → h ∉ s.opened → Registry.CellFree s → N.isSome = true := by
  rw [← handlerOf_snd, requestOf]
  obtain ⟨handler, x⟩ := handlerOf .IKS_NODE_NORMAL node
  cases handler with
  | none =>
      exact iff_of_true noNullPassed_nil
        ⟨fun h => (by cases h), fun F N m h hreq => by cases hreq⟩
  | some handler =>
      cases handler with
      | RespCatLogin0 =>
          exact iff_of_true (Server.noNull_RespCatLogin0Calls x i s)
            ⟨fun h => (by cases h), fun F N m h hreq => by cases hreq⟩
      -- `action` is compared before anything else
      | RespCatAllFilters =>
          refine Iff.trans ?_ (and_iff_left fun F N m h hreq => by cases hreq).symm
          constructor
          · exact fun hcalls _ => (noNullPassed_cons.mp hcalls).1.1
          · exact fun haction => noNullPassed_cons.mpr ⟨⟨haction rfl, rfl⟩, noNullPassed_nil⟩
      | RespCatSetHooker =>
          refine iff_of_true (Server.noNull_RespCatSetHookerCalls x s) ⟨fun h => (by cases h), ?_⟩
          exact fun F N m h hreq => absurd hreq hookRequest_ne.1
      | RespCatCreateFilter =>
          exact Server.noNull_RespCatCreateFilterCalls.trans (and_iff_right fun h => by cases h).symm

/-- A stanza makes no string function take a NULL exactly when it is no `iq` or has the parts its
handler uses unguarded. -/
theorem strings_present_iff :
    NoNullPassed (s.IOProcessCatMsgCalls i type node o) ↔
      (type = .IKS_NODE_NORMAL → iks_packet node = .IKS_PAK_IQ → PartsPresent node o s) := by
  by_cases htype : type = .IKS_NODE_NORMAL
  · subst htype
    by_cases hpak : iks_packet node = .IKS_PAK_IQ
    · -- the types of the tests are two, each tested more than once
      have htests : ∀ P : CStr → Prop, (∀ t ∈ Server.iqTests, P t.1) ↔
          ∀ t ∈ [CStr.lit "set", CStr.lit "get"], P t := by
        intro P
        simp only [Server.iqTests, List.forall_mem_cons]
        tauto
      rw [IOProcessCatMsgCalls_iq hpak, noNullPassed_append, Server.noNull_testCalls,
        noNull_handler, htests fun t => iks_find_attrib (some node) (CStr.lit "type") = some t → _]
      constructor
      · rintro ⟨⟨htype, hxmlns⟩, haction, hname⟩ - -
        exact ⟨htype (List.cons_ne_nil _ _), hxmlns, haction, hname⟩
      · intro hparts
        have hp := hparts rfl hpak
        exact ⟨⟨fun _ => hp.type, hp.xmlns⟩, hp.action, hp.username⟩
    · have hnil : s.IOProcessCatMsgCalls i .IKS_NODE_NORMAL node o = [] := by
        unfold Server.IOProcessCatMsgCalls
        split
        · next heq => exact absurd heq hpak
        · rfl
      rw [hnil]
      exact iff_of_true noNullPassed_nil fun _ h => absurd h hpak
  · have hnil : s.IOProcessCatMsgCalls i type node o = [] := by
      unfold Server.IOProcessCatMsgCalls
      split
      · exact absurd rfl htype
      · rfl
    rw [hnil]
    exact iff_of_true noNullPassed_nil fun h => absurd h htype

/-! ## The calls and the dispatcher -/

end Stanza

/-! ## A stanza with a missing part -/

/-- `<iq><query xmlns='filter:show'/></iq>`. -/
def iqWithoutType : Iks :=
  .tag (CStr.lit "iq") [] [.tag (CStr.lit "query") [(CStr.lit "xmlns", CStr.lit "filter:show")] []]

/-- **A NULL is passed to `strcmp`** by an `iq` without a type. -/
theorem strcmp_of_null : ¬∀ (s : Server) (i : Slot) (type : IksNodeType) (node : Iks) (o : Outcome),
    Reach (serverStep (ι := Iks)) AnyStep (InitServer fun _ => 0) s → o.Fresh s →
      NoNullPassed (s.IOProcessCatMsgCalls i type node o) := by
  intro hall
  have hcalls := hall (twoClients fun _ => 0) 14 .IKS_NODE_NORMAL iqWithoutType .allSucceed
    (reach_twoClients fun _ => 0).any ((onlyTwo _).fresh _)
  have hiq : iks_packet iqWithoutType = .IKS_PAK_IQ := by decide +kernel
  rw [IOProcessCatMsgCalls_iq hiq, noNullPassed_append, Server.noNull_testCalls] at hcalls
  have htype := hcalls.1.1 (List.cons_ne_nil _ _)
  have hnone : iks_find_attrib (some iqWithoutType) (CStr.lit "type") = none := rfl
  rw [hnone] at htype
  cases htype

end Netflow
