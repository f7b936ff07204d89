import Netflow.CuteCat.Formats
import Netflow.CuteCat.Sender
import Netflow.Server.Run

set_option autoImplicit false

/-! # The requests of the client (`CuteCatDlg.cpp`)

The dialog writes its requests with `sprintf` from the texts of its fields, and the server takes them
apart again with its parser and the tests of `IOXMLIq`. Both sides are separate programs that share no
code: what a button asks for is what the server does.
-/

namespace Netflow

open IksParser Iksemel Format

/-- The two values of `m_EthModel`. -/
inductive ETHMODEL where
  | ETH_LO
  | ETH_NET
deriving DecidableEq

def ETHMODEL.text : ETHMODEL → CStr
  | .ETH_LO => CStr.lit "lo"
  | .ETH_NET => CStr.lit "net"

/-- What a request asks for. -/
inductive CatVerb where
  | login
  | filterShow
  | newCuteDog (m_EthModel : ETHMODEL)
  | delCuteDog
  | hookCuteDog
  | cancelHook
deriving DecidableEq

namespace CatVerb

/-- The type of the `iq`. -/
def type : CatVerb → String
  | .filterShow => "get"
  | _ => "set"

/-- The white space behind the type. -/
def blanks : CatVerb → List Byte
  | .login | .filterShow => [UInt8.ofNat ' '.toNat]
  | _ => []

def xmlns : CatVerb → String
  | .login => "jabber:iq:auth"
  | .filterShow => "filter:show"
  | .newCuteDog _ | .delCuteDog => "filter:new"
  | .hookCuteDog | .cancelHook => "filter:hook"

def action : CatVerb → Option String
  | .login => none
  | .filterShow => some "show"
  | .newCuteDog _ => some "create"
  | .delCuteDog | .cancelHook => some "cancel"
  | .hookCuteDog => some "hook"

def model : CatVerb → Option String
  | .newCuteDog .ETH_LO => some "lo"
  | .newCuteDog .ETH_NET => some "net"
  | _ => none

/-- The attributes of the `query`. -/
def attribs (v : CatVerb) : List (String × String) :=
  ("xmlns", v.xmlns) :: (v.action.map fun action => ("action", action)).toList ++
    (v.model.map fun model => ("model", model)).toList

/-- The `query` with what stands in it. -/
def query (v : CatVerb) (children : List Iks) : Iks :=
  queryNode (v.attribs.map fun att => (CStr.lit att.1, CStr.lit att.2)) children

/-- The handler that is meant. -/
def handler : CatVerb → IqHandler
  | .login => .RespCatLogin0
  | .filterShow => .RespCatAllFilters
  | .newCuteDog _ | .delCuteDog => .RespCatCreateFilter
  | .hookCuteDog | .cancelHook => .RespCatSetHooker

end CatVerb

/-- The requests, with the fields of the dialog they are written from. -/
inductive CatRequest where
  | login (m_Name : CStr)
  | filterShow
  | newCuteDog (m_EthModel : ETHMODEL) (m_Name m_Option : CStr)
  | delCuteDog (m_Name : CStr)
  | hookCuteDog (m_Name m_SelCuteDogName : CStr)
  | cancelHook (m_Name m_SelCuteDogName : CStr)
deriving DecidableEq

/-! ## The texts -/

def LOGIN_STREAM (m_Name : CStr) : CStr :=
  CStr.lit "<iq type='set' ><query xmlns='jabber:iq:auth'><username>" ++ m_Name ++
    CStr.lit "</username></query></iq>"

def NEW_CUTEDOG_STREAM (model m_Name m_Option : CStr) : CStr :=
  CStr.lit "<iq type='set'><query xmlns='filter:new' action='create' model='" ++ model ++
    CStr.lit "'><username>" ++ m_Name ++ CStr.lit "</username><filterstring>" ++ m_Option ++
    CStr.lit "</filterstring></query></iq>"

def DEL_CUTEDOG_STREAM (m_Name : CStr) : CStr :=
  CStr.lit "<iq type='set'><query xmlns='filter:new' action='cancel'><username>" ++ m_Name ++
    CStr.lit "</username></query></iq>"

def FILTER_SHOW : CStr :=
  CStr.lit "<iq type='get' ><query xmlns='filter:show' action='show'></query></iq>"

def HOOK_CUTEDOG (m_Name m_SelCuteDogName : CStr) : CStr :=
  CStr.lit "<iq type='set'><query xmlns='filter:hook' action='hook'><item cat='" ++ m_Name ++
    CStr.lit "'>" ++ m_SelCuteDogName ++ CStr.lit "</item></query></iq>"

def CANCEL_HOOK_CUTEDOG (m_Name m_SelCuteDogName : CStr) : CStr :=
  CStr.lit "<iq type='set'><query xmlns='filter:hook' action='cancel'><item cat='" ++ m_Name ++
    CStr.lit "'>" ++ m_SelCuteDogName ++ CStr.lit "</item></query></iq>"

namespace CatRequest

/-- What is written to `SndBuf`. -/
def text : CatRequest → CStr
  | .login m_Name => LOGIN_STREAM m_Name
  | .filterShow => FILTER_SHOW
  | .newCuteDog m_EthModel m_Name m_Option => NEW_CUTEDOG_STREAM m_EthModel.text m_Name m_Option
  | .delCuteDog m_Name => DEL_CUTEDOG_STREAM m_Name
  | .hookCuteDog m_Name m_SelCuteDogName => HOOK_CUTEDOG m_Name m_SelCuteDogName
  | .cancelHook m_Name m_SelCuteDogName => CANCEL_HOOK_CUTEDOG m_Name m_SelCuteDogName

/-- The fields hold a text that can stand between two tags, or an ASCII one that can stand in the
quotes of an attribute; `m_Name` and `m_SelCuteDogName` have 32 bytes and `m_Option` has 128. -/
def Clean : CatRequest → Prop
  | .login m_Name | .delCuteDog m_Name => m_Name.Verbatim ∧ m_Name.chars.length < 32
  | .filterShow => True
  | .newCuteDog _ m_Name m_Option => m_Name.Verbatim ∧ m_Name.chars.length < 32 ∧
      m_Option.Verbatim ∧ m_Option.chars.length < 128
  | .hookCuteDog m_Name m_SelCuteDogName | .cancelHook m_Name m_SelCuteDogName =>
      (∀ c ∈ m_Name.chars, c &&& 0x80 = 0 ∧ c ≠ ascii '\'') ∧ m_Name.chars.length < 32 ∧
        m_SelCuteDogName.Verbatim ∧ m_SelCuteDogName.chars.length < 32

/-- The fields are terminated in their buffers: `m_Name` and `m_SelCuteDogName` have 32 bytes and
`m_Option` has 128. -/
def Fits : CatRequest → Prop
  | .login m_Name | .delCuteDog m_Name => m_Name.chars.length < 32
  | .filterShow => True
  | .newCuteDog _ m_Name m_Option => m_Name.chars.length < 32 ∧ m_Option.chars.length < 128
  | .hookCuteDog m_Name m_SelCuteDogName | .cancelHook m_Name m_SelCuteDogName =>
      m_Name.chars.length < 32 ∧ m_SelCuteDogName.chars.length < 32

def verb : CatRequest → CatVerb
  | .login _ => .login
  | .filterShow => .filterShow
  | .newCuteDog m_EthModel _ _ => .newCuteDog m_EthModel
  | .delCuteDog _ => .delCuteDog
  | .hookCuteDog .. => .hookCuteDog
  | .cancelHook .. => .cancelHook

/-- What stands in the `query`. -/
def parts : CatRequest → List Markup
  | .login m_Name | .delCuteDog m_Name => [textMarkup "username" m_Name]
  | .filterShow => []
  | .newCuteDog _ m_Name m_Option => [textMarkup "username" m_Name, textMarkup "filterstring" m_Option]
  | .hookCuteDog m_Name m_SelCuteDogName | .cancelHook m_Name m_SelCuteDogName =>
      [.element (CStr.lit "item") [attr "cat" m_Name] [] [.text m_SelCuteDogName] []]

/-- The format of a request as it is written. -/
def markup (r : CatRequest) : Markup :=
  iqMarkup r.verb.type r.verb.blanks (r.verb.attribs.map fun att => attr att.1 (CStr.lit att.2)) []
    r.parts

/-- The `query` of a request. -/
def query (r : CatRequest) : Iks := r.verb.query (Markup.nodes r.parts)

/-- The element of a request. -/
def node (r : CatRequest) : Iks :=
  iqNode r.verb.type (r.verb.attribs.map fun att => (CStr.lit att.1, CStr.lit att.2))
    (Markup.nodes r.parts)

/-- **The format stands for the element.** -/
theorem node_markup (r : CatRequest) : r.markup.node [] = [r.node] := by
  rw [markup, node_iqMarkup, List.map_map]
  rfl

/-- The tags in front of what stands in the `query`. -/
def headRaw (v : CatVerb) : List Byte :=
  openRaw "iq" [attr "type" (CStr.lit v.type)] v.blanks ++
    openRaw "query" (v.attribs.map fun att => attr att.1 (CStr.lit att.2)) []

/-- The tags behind it. -/
def tailRaw : List Byte := closeRaw "query" ++ closeRaw "iq"

theorem raw_iq (r : CatRequest) :
    r.markup.raw = headRaw r.verb ++ (Markup.raws r.parts ++ tailRaw) := by
  rw [markup, raw_iqMarkup, headRaw, tailRaw, List.append_assoc]

/-- The parts of the formats between the values. -/
theorem formatParts :
    (CStr.lit "<iq type='set' ><query xmlns='jabber:iq:auth'><username>").chars =
      headRaw .login ++ openRaw "username" [] [] ∧
    (∀ m_EthModel : ETHMODEL,
      (CStr.lit "<iq type='set'><query xmlns='filter:new' action='create' model='").chars ++
        (m_EthModel.text.chars ++ (CStr.lit "'><username>").chars) =
      headRaw (.newCuteDog m_EthModel) ++ openRaw "username" [] []) ∧
    (CStr.lit "</username><filterstring>").chars = closeRaw "username" ++ openRaw "filterstring" [] [] ∧
    (CStr.lit "</filterstring></query></iq>").chars = closeRaw "filterstring" ++ tailRaw ∧
    (CStr.lit "<iq type='set'><query xmlns='filter:new' action='cancel'><username>").chars =
      headRaw .delCuteDog ++ openRaw "username" [] [] ∧
    (CStr.lit "</username></query></iq>").chars = closeRaw "username" ++ tailRaw ∧
    (CStr.lit "<iq type='set'><query xmlns='filter:hook' action='hook'><item cat='").chars =
      headRaw .hookCuteDog ++ (CStr.lit "<item cat='").chars ∧
    (CStr.lit "<iq type='set'><query xmlns='filter:hook' action='cancel'><item cat='").chars =
      headRaw .cancelHook ++ (CStr.lit "<item cat='").chars ∧
    (CStr.lit "</item></query></iq>").chars = closeRaw "item" ++ tailRaw := by
  refine ⟨by decide +kernel, ?_, by decide +kernel, by decide +kernel, by decide +kernel,
    by decide +kernel, by decide +kernel, by decide +kernel, by decide +kernel⟩
  intro m_EthModel
  cases m_EthModel with
  | ETH_LO => decide +kernel
  | ETH_NET => decide +kernel

/-- The start tag of an item. -/
theorem openRaw_item (m_Name : CStr) : openRaw "item" [attr "cat" m_Name] [] =
    (CStr.lit "<item cat='").chars ++ (m_Name.chars ++ (CStr.lit "'>").chars) := by
  have hparts : (CStr.lit "<item cat='").chars = ascii '<' :: (CStr.lit "item").chars ++
      ascii ' ' :: (CStr.lit "cat").chars ++ [ascii '=', ascii '\''] ∧
      (CStr.lit "'>").chars = [ascii '\'', ascii '>'] := by
    decide +kernel
  simp only [openRaw, Markup.startRaw, attr, AttribMarkup.raw, List.flatMap_cons, List.flatMap_nil,
    hparts, List.append_assoc, List.cons_append, List.nil_append, List.append_nil]

theorem raws_item (m_Name m_SelCuteDogName : CStr) :
    Markup.raws [.element (CStr.lit "item") [attr "cat" m_Name] [] [.text m_SelCuteDogName] []] =
      (CStr.lit "<item cat='").chars ++ (m_Name.chars ++ ((CStr.lit "'>").chars ++
        (m_SelCuteDogName.chars ++ closeRaw "item"))) := by
  simp only [raw_element, Markup.raws, raw_text, openRaw_item, List.append_nil, List.append_assoc]

/-- **The format writes the element.** -/
theorem raw_markup (r : CatRequest) : r.markup.raw = r.text.chars := by
  obtain ⟨hlogin, hnew, hfilter, hend, hdel, hname, hhook, hcancel, hitem⟩ := formatParts
  have hnil : Markup.raws [] = [] := rfl
  rw [raw_iq]
  cases r with
  | login m_Name =>
      show headRaw .login ++ (Markup.raws [textMarkup "username" m_Name] ++ tailRaw) = _
      simp only [raws_textMarkup, hnil, text, LOGIN_STREAM, CStr.chars_append, hlogin, hname,
        List.append_assoc, List.append_nil]
  | filterShow => decide +kernel
  | newCuteDog m_EthModel m_Name m_Option =>
      have htext : (NEW_CUTEDOG_STREAM m_EthModel.text m_Name m_Option).chars =
          ((CStr.lit "<iq type='set'><query xmlns='filter:new' action='create' model='").chars ++
            (m_EthModel.text.chars ++ (CStr.lit "'><username>").chars)) ++ (m_Name.chars ++
          ((CStr.lit "</username><filterstring>").chars ++ (m_Option.chars ++
            (CStr.lit "</filterstring></query></iq>").chars))) := by
        simp only [NEW_CUTEDOG_STREAM, CStr.chars_append, List.append_assoc]
      show headRaw (.newCuteDog m_EthModel) ++ (Markup.raws [textMarkup "username" m_Name,
        textMarkup "filterstring" m_Option] ++ tailRaw) = _
      rw [text, htext, hnew m_EthModel]
      simp only [raws_textMarkup, hnil, hfilter, hend, List.append_assoc, List.append_nil]
  | delCuteDog m_Name =>
      show headRaw .delCuteDog ++ (Markup.raws [textMarkup "username" m_Name] ++ tailRaw) = _
      simp only [raws_textMarkup, hnil, text, DEL_CUTEDOG_STREAM, CStr.chars_append, hdel, hname,
        List.append_assoc, List.append_nil]
  | hookCuteDog m_Name m_SelCuteDogName =>
      show headRaw .hookCuteDog ++ (Markup.raws [_] ++ tailRaw) = _
      simp only [raws_item, text, HOOK_CUTEDOG, CStr.chars_append, hhook, hitem, List.append_assoc]
  | cancelHook m_Name m_SelCuteDogName =>
      show headRaw .cancelHook ++ (Markup.raws [_] ++ tailRaw) = _
      simp only [raws_item, text, CANCEL_HOOK_CUTEDOG, CStr.chars_append, hcancel, hitem,
        List.append_assoc]

/-- The tags of the formats. -/
theorem validTags (v : CatVerb) :
    Markup.ValidTag (CStr.lit "iq") [attr "type" (CStr.lit v.type)] v.blanks ∧
      Markup.ValidTag (CStr.lit "query") (v.attribs.map fun att => attr att.1 (CStr.lit att.2)) [] := by
  cases v with
  | newCuteDog m_EthModel =>
      cases m_EthModel with
      | ETH_LO => decide +kernel
      | ETH_NET => decide +kernel
  | login | filterShow | delCuteDog | hookCuteDog | cancelHook => decide +kernel

theorem valid_item {m_Name m_SelCuteDogName : CStr}
    (hname : ∀ c ∈ m_Name.chars, c &&& 0x80 = 0 ∧ c ≠ ascii '\'') (hitem : m_SelCuteDogName.Verbatim) :
    (Markup.element (CStr.lit "item") [attr "cat" m_Name] [] [.text m_SelCuteDogName] []).Valid := by
  have hattr : (attr "cat" m_Name).Valid :=
    ⟨List.cons_ne_nil _ _, show ∀ c ∈ [ascii ' '], isWhitespace c = true by decide +kernel,
      show (CStr.lit "cat").Name by decide +kernel, Or.inl rfl, hname⟩
  have hfew : [attr "cat" m_Name].length < 12 := Nat.lt_add_left 10 (Nat.lt_succ_self 1)
  refine ⟨⟨by decide +kernel, ?_, hfew, List.nodup_singleton _, nofun⟩, ⟨hitem, trivial⟩, nofun⟩
  intro x hx
  rw [List.mem_singleton.mp hx]
  exact hattr

/-- The format is markup when the fields are clean. -/
theorem valid_markup {r : CatRequest} (h : r.Clean) : r.markup.Valid := by
  have husername : (CStr.lit "username").Name := by decide +kernel
  have hparts : Markup.AllValid r.parts := by
    cases r with
    | login m_Name | delCuteDog m_Name => exact ⟨valid_textMarkup husername h.1, trivial⟩
    | filterShow => trivial
    | newCuteDog m_EthModel m_Name m_Option =>
        exact ⟨valid_textMarkup husername h.1, valid_textMarkup (by decide +kernel) h.2.2.1, trivial⟩
    | hookCuteDog m_Name m_SelCuteDogName | cancelHook m_Name m_SelCuteDogName =>
        exact ⟨valid_item h.1 h.2.2.1, trivial⟩
  obtain ⟨hiq, hquery⟩ := validTags r.verb
  exact ⟨hiq, ⟨⟨hquery, hparts, nofun⟩, trivial⟩, nofun⟩

/-! ## What the server makes of them -/

/-- The server does what the request is for: it calls the handler, with the texts of the fields. -/
def Means (r : CatRequest) (node : Iks) : Prop :=
  match r with
  | .login m_Name => ∃ x, handlerOf .IKS_NODE_NORMAL node = (some .RespCatLogin0, x) ∧
      iks_find_cdata x (CStr.lit "username") = textOf m_Name
  | .filterShow => ∃ x, handlerOf .IKS_NODE_NORMAL node = (some .RespCatAllFilters, x) ∧
      iks_find_attrib x (CStr.lit "action") = some (CStr.lit "show")
  | .newCuteDog m_EthModel m_Name m_Option => requestOf .IKS_NODE_NORMAL node =
      .create (textOf m_Option) (textOf m_Name) (if m_EthModel = .ETH_NET then 1 else 0)
  | .delCuteDog _ => requestOf .IKS_NODE_NORMAL node = .cancel
  | .hookCuteDog _ m_SelCuteDogName => requestOf .IKS_NODE_NORMAL node = .hook (textOf m_SelCuteDogName)
  | .cancelHook _ _ => requestOf .IKS_NODE_NORMAL node = .unhook

/-- The attributes that the server looks up, and its tests on them. -/
theorem lookups (v : CatVerb) (children : List Iks) :
    Iks.findAttrib (some (v.query children)) (CStr.lit "xmlns") = some (CStr.lit v.xmlns) ∧
      Iks.findAttrib (some (v.query children)) (CStr.lit "action") = v.action.map CStr.lit ∧
      Iks.findAttrib (some (v.query children)) (CStr.lit "model") = v.model.map CStr.lit ∧
      iqHandler (some (CStr.lit v.type)) (some (CStr.lit v.xmlns)) = some (some v.handler) := by
  have hfind : ∀ name, Iks.findAttrib (some (v.query children)) name =
      ((v.attribs.map fun att => (CStr.lit att.1, CStr.lit att.2)).find? fun a =>
        a.1 = name).map Prod.snd := fun _ => rfl
  rw [hfind, hfind, hfind]
  cases v with
  | newCuteDog m_EthModel =>
      cases m_EthModel with
      | ETH_LO => decide +kernel
      | ETH_NET => decide +kernel
  | login | filterShow | delCuteDog | hookCuteDog | cancelHook => decide +kernel

/-- **The handler is the one that is meant.** -/
theorem handlerOf_node (r : CatRequest) :
    handlerOf .IKS_NODE_NORMAL r.node = (some r.verb.handler, some r.query) := by
  obtain ⟨hxmlns, -, -, htests⟩ := lookups r.verb (Markup.nodes r.parts)
  show (if IksNodeType.IKS_NODE_NORMAL = .IKS_NODE_NORMAL ∧ Iks.packet r.node = .IKS_PAK_IQ then
    ((iqHandler (Iks.findAttrib (some r.node) (CStr.lit "type"))
      (Iks.findAttrib (Iks.find (some r.node) (CStr.lit "query")) (CStr.lit "xmlns"))).join,
        Iks.find (some r.node) (CStr.lit "query"))
    else (none, Iks.find (some r.node) (CStr.lit "query"))) = _
  rw [node, if_pos ⟨rfl, packet_iqNode ..⟩, find_query, findAttrib_type]
  show ((iqHandler _ (Iks.findAttrib (some (r.verb.query (Markup.nodes r.parts))) _)).join, _) = _
  rw [hxmlns, htests]
  rfl

/-- A test of a handler on the action. -/
theorem compare_eq_zero {x : Option CStr} {text : String} (h : x = some (CStr.lit text)) (test : String) :
    Iks.compare x (some (CStr.lit test)) = 0 ↔ CStr.lit text = CStr.lit test := by
  rw [h]
  show (if CStr.lit text = CStr.lit test then (0 : Int) else 1) = 0 ↔ _
  split
  · next heq => exact iff_of_true rfl heq
  · next hne => exact iff_of_false (by decide) hne

/-- The text of an item. -/
theorem findCdata_item (s : CStr) (attribs atts : List (CStr × CStr)) :
    Iks.findCdata (some (.tag (CStr.lit "query") attribs [.tag (CStr.lit "item") atts
      (if s.chars = [] then [] else [.cdata s])])) (CStr.lit "item") = textOf s := by
  have hnamed : Iks.named (CStr.lit "item") (.tag (CStr.lit "item") atts
      (if s.chars = [] then [] else [.cdata s])) = true := by
    show decide (CStr.lit "item" = CStr.lit "item") = true
    exact decide_eq_true rfl
  rw [Iks.findCdata, Iks.find, Option.bind_some, Iks.children, List.find?_cons_of_pos hnamed,
    Option.bind_some, textOf]
  by_cases hempty : s.chars = []
  · simp only [Iks.children, if_pos hempty]
  · simp only [Iks.children, if_neg hempty]

/-- **A request means what it was written for.** -/
theorem means_node (r : CatRequest) : r.Means r.node := by
  have hhandler := handlerOf_node r
  obtain ⟨-, haction, hmodel, -⟩ := lookups r.verb (Markup.nodes r.parts)
  cases r with
  | login m_Name =>
      refine ⟨_, hhandler, ?_⟩
      show Iks.findCdata (some (.tag _ _ (Markup.nodes [textMarkup "username" m_Name]))) _ = _
      rw [nodes_textMarkup]
      exact findCdata_ofText _ _ _ _ _
  | filterShow => exact ⟨_, hhandler, haction⟩
  | newCuteDog m_EthModel m_Name m_Option =>
      show requestOf _ _ = _
      rw [requestOf, hhandler]
      have hcreate := (compare_eq_zero haction "create").mpr rfl
      refine (if_pos hcreate).trans ?_
      have hname : Iks.findCdata (some (CatRequest.newCuteDog m_EthModel m_Name m_Option).query)
          (CStr.lit "username") = textOf m_Name := by
        show Iks.findCdata (some (.tag _ _ (Markup.nodes [textMarkup "username" m_Name,
          textMarkup "filterstring" m_Option]))) _ = _
        rw [nodes_textMarkup]
        exact findCdata_ofText _ _ _ _ _
      have hfilter : Iks.findCdata (some (CatRequest.newCuteDog m_EthModel m_Name m_Option).query)
          (CStr.lit "filterstring") = textOf m_Option := by
        show Iks.findCdata (some (.tag _ _ (Markup.nodes [textMarkup "username" m_Name,
          textMarkup "filterstring" m_Option]))) _ = _
        rw [nodes_textMarkup, nodes_textMarkup, findCdata_ofText_of_ne _ _ _ _ (by decide +kernel)]
        exact findCdata_ofText _ _ _ _ _
      show Request.create (Iks.findCdata _ _) (Iks.findCdata _ _) (Server.modelOf _) = _
      rw [hname, hfilter]
      congr 1
      cases m_EthModel with
      | ETH_LO => exact if_pos ((compare_eq_zero hmodel "lo").mpr rfl)
      | ETH_NET =>
          exact (if_neg ((compare_eq_zero hmodel "lo").not.mpr (by decide +kernel))).trans
            (if_pos ((compare_eq_zero hmodel "net").mpr rfl))
  | delCuteDog m_Name =>
      show requestOf _ _ = _
      rw [requestOf, hhandler]
      have hcreate := (compare_eq_zero haction "create").not.mpr (by decide +kernel)
      have hcancel := (compare_eq_zero haction "cancel").mpr rfl
      exact (if_neg hcreate).trans (if_pos hcancel)
  | hookCuteDog m_Name m_SelCuteDogName =>
      show requestOf _ _ = _
      rw [requestOf, hhandler]
      have hhook := (compare_eq_zero haction "hook").mpr rfl
      refine (if_pos hhook).trans ?_
      show Request.hook (Iks.findCdata (some (.tag _ _ [.tag _ _
        (Markup.nodes [.text m_SelCuteDogName])])) (CStr.lit "item")) = _
      rw [nodes_text]
      exact congrArg Request.hook (findCdata_item _ _ _)
  | cancelHook m_Name m_SelCuteDogName =>
      show requestOf _ _ = _
      rw [requestOf, hhandler]
      have hhook := (compare_eq_zero haction "hook").not.mpr (by decide +kernel)
      have hcancel := (compare_eq_zero haction "cancel").mpr rfl
      exact (if_neg hhook).trans (if_pos hcancel)

end CatRequest

/-- A request whose fields are clean. -/
abbrev CleanRequest : Type := { r : CatRequest // r.Clean }

namespace CleanRequest

def text (r : CleanRequest) : List Byte := r.1.text.chars

/-- A request as a stanza. -/
def stanza (r : CleanRequest) : IksStanza :=
  .ofMarkup [] r.1.markup r.1.node trivial IksStanza.quiet_nil r.1.node_markup id
    (CatRequest.valid_markup r.2) (normal_iqNode ..)

theorem text_stanza (r : CleanRequest) : r.stanza.text = r.text := r.1.raw_markup

end CleanRequest

/-- The attributes of `HANDSHAKE_STREAM`. -/
def handShakeAttribs : List AttribMarkup :=
  [attr "to" (CStr.lit "dog"), attr "xmlns" (CStr.lit "jabber:cat"),
    attr "xmlns:stream" (CStr.lit "http://etherx.jabber.org/streams")]

/-- The handshake of the client. -/
def handShakeStanza : IksStanza :=
  .header [.instruction (CStr.lit "xml version='1.0' encoding='UTF-8'?")] handShakeAttribs []
    (by decide +kernel) (by decide) (by decide +kernel)

theorem text_handShakeStanza : handShakeStanza.text = CuteCat.HANDSHAKE_STREAM.chars := by
  decide +kernel

/-- Without resets the parser is the plain one. -/
theorem iks_parse_reset_never (p : IksParser StreamData) (data : CStr) :
    iks_parse_reset (fun _ => false) p data = p.iks_parse data := by
  have hstep : stepReset (fun _ => false) = step := by
    funext p c
    have hnever : ∀ q : IksParser StreamData, (if (p.newNodes q).any fun node => node.2.any fun _ => false
        then q.iks_parser_reset else q) = q := by
      intro q
      rw [if_neg]
      simp
    rw [stepReset]
    simp only [hnever, Option.map_id']
  rw [iks_parse_reset, hstep]
  rfl

/-- The start of a client's stream, as it is reported. -/
def handShakeNode : IksNodeType × Option Iks :=
  (.IKS_NODE_START, some (.tag (CStr.lit "stream:stream") (handShakeAttribs.map AttribMarkup.att) []))

/-- The requests that have come in whole in the first `n` bytes of a client's stream. -/
def CleanRequest.arrived (n : Nat) (rs : List CleanRequest) : List CleanRequest :=
  Netflow.arrived (fun r => r.text.length) (n - CuteCat.HANDSHAKE_STREAM.chars.length) rs

/-- **Requests arrive**: whatever pieces the handshake and the requests of a client come in, the
server's parser reports the start of the stream and then the requests whose last byte has come, in
their order, and each of them means to the server what it was written for. -/
theorem requests_of_pieces {rs : List CleanRequest} {pieces : List CStr}
    (hpieces : pieces.flatMap CStr.chars <+:
      CuteCat.HANDSHAKE_STREAM.chars ++ rs.flatMap CleanRequest.text) :
    let n := (pieces.flatMap CStr.chars).length
    ∃ (prs : IksParser StreamData) (nodes : List Iks),
      pieces.foldlM iks_parse (new ⟨[], []⟩) = some prs ∧
      prs.user_data.reported = (if CuteCat.HANDSHAKE_STREAM.chars.length ≤ n then
        handShakeNode :: nodes.map (fun node => (.IKS_NODE_NORMAL, some node)) else []) ∧
      List.Forall₂ (fun r node => CatRequest.Means r.1 node) (CleanRequest.arrived n rs) nodes := by
  intro n
  have hbytes : pieces.flatMap CStr.chars <+:
      (handShakeStanza :: rs.map CleanRequest.stanza).flatMap IksStanza.text := by
    rw [List.flatMap_cons, text_handShakeStanza, List.flatMap_map]
    simpa only [CleanRequest.text_stanza] using hpieces
  obtain ⟨prs, hprs, hreported⟩ := reported_of_pieces (fun _ => false) hbytes
  have hread : pieces.foldlM iks_parse (new ⟨[], []⟩) = some prs := by
    rw [← hprs]
    exact congrArg (fun f => pieces.foldlM f (new ⟨[], []⟩))
      (funext fun p => funext fun data => (iks_parse_reset_never p data).symm)
  refine ⟨prs, (CleanRequest.arrived n rs).map fun r => r.1.node, hread, ?_, ?_⟩
  · rw [hreported, IksStanza.arrived_cons, text_handShakeStanza]
    split
    · rw [IksStanza.arrived, ← map_arrived, List.map_cons, List.map_map, List.map_map]
      simp only [CleanRequest.text_stanza]
      rfl
    · rfl
  · rw [List.forall₂_map_right_iff, List.forall₂_same]
    exact fun r _ => r.1.means_node

end Netflow
