import Netflow.CuteCat.Dialog
import Netflow.CuteCat.Rows

set_option autoImplicit false

/-! # The answers of the server (`cdogio.c`, `cdogNose.c`, `cdogEar.c`, `CuteCatDlg.cpp`)

The texts the server answers with, and what the dialog makes of them.
-/

namespace Netflow

open IksParser Format

/-- The kinds of answers, by what they answer. -/
inductive AnswerKind where
  | login
  | hook
  | unhook
  | create
  | cancel
  | filters
  | lose
deriving DecidableEq

namespace AnswerKind

/-- The type of the `iq`. -/
def type : AnswerKind → String
  | .lose => "set"
  | _ => "result"

def xmlns : AnswerKind → String
  | .login => "jabber:iq:auth"
  | .hook | .unhook => "filter:hook"
  | .create | .cancel => "filter:new"
  | .filters => "filter:show"
  | .lose => "filter:notice"

def action : AnswerKind → Option String
  | .login | .filters => none
  | .hook => some "hook"
  | .create => some "create"
  | .unhook | .cancel => some "cancel"
  | .lose => some "lose"

/-- The attributes of the `query`. -/
def attribs (k : AnswerKind) : List (String × String) :=
  ("xmlns", k.xmlns) :: (k.action.map fun action => ("action", action)).toList

/-- The handler of the client that is meant. -/
def handler : AnswerKind → CatIqHandler
  | .login => .RespLogin
  | .hook | .unhook => .RespCatSetHooker
  | .create | .cancel => .RespFilterNew
  | .filters => .RespAllFilters
  | .lose => .RespFilterNotice

/-- The `query` with what stands in it. -/
def query (k : AnswerKind) (children : List Iks) : Iks :=
  queryNode (k.attribs.map fun att => (CStr.lit att.1, CStr.lit att.2)) children

end AnswerKind

/-- The answers, with the texts that are written into them. `filters` is the list of filters, with a
blank in its start tag where `RespCatAllFilters` writes it and where the list is empty. -/
inductive CatAnswer where
  | login (ok : Bool)
  | hook (ok : Bool)
  | unhook (ok : Bool)
  | create (ok : Bool)
  | cancel (ok : Bool)
  | filters (blank : Bool) (row : Option (CStr × CStr))
  | lose (Name : CStr)
deriving DecidableEq

namespace CatAnswer

def text : CatAnswer → CStr
  | .login true =>
      CStr.lit "<iq type='result'><query xmlns='jabber:iq:auth'><error id='OK'/></query></iq>"
  | .login false =>
      CStr.lit "<iq type='result'><query xmlns='jabber:iq:auth'><error id='400'/></query></iq>"
  | .hook true => CStr.lit
      "<iq type='result'><query xmlns='filter:hook' action='hook'><error id='OK'/></query></iq>"
  | .hook false => CStr.lit
      "<iq type='result'><query xmlns='filter:hook' action='hook'><error id='301'/></query></iq>"
  | .unhook true => CStr.lit
      "<iq type='result'><query xmlns='filter:hook' action='cancel'><error id='OK'/></query></iq>"
  | .unhook false => CStr.lit
      "<iq type='result'><query xmlns='filter:hook' action='cancel'><error id='301'/></query></iq>"
  | .create true => CStr.lit
      "<iq type='result'><query xmlns='filter:new' action='create'><error id='OK' content=''/></query></iq>"
  | .create false => CStr.lit
      "<iq type='result'><query xmlns='filter:new' action='create'><error id='401' content='set failed'/></query></iq>"
  | .cancel true => CStr.lit
      "<iq type='result'><query xmlns='filter:new' action='cancel'><error id='OK' content=''/></query></iq>"
  | .cancel false => CStr.lit
      "<iq type='result'><query xmlns='filter:new' action='cancel'><error id='401'/></query></iq>"
  | .filters blank row =>
      (if blank then CStr.lit "<iq type='result'><query xmlns='filter:show' >"
        else CStr.lit "<iq type='result'><query xmlns='filter:show'>") ++
      (row.elim (CStr.lit "") fun row => CStr.lit "<name>" ++ row.1 ++
        CStr.lit "</name><filterstring>" ++ row.2 ++ CStr.lit "</filterstring>") ++
      CStr.lit "</query></iq>"
  | .lose Name => CStr.lit "<iq type='set'><query xmlns='filter:notice' action='lose'><username>" ++
      Name ++ CStr.lit "</username></query></iq>"

/-- The texts in it can stand between two tags; the name in a notice fits into the message box. -/
def Clean : CatAnswer → Prop
  | .filters _ (some row) => row.1.Verbatim ∧ row.2.Verbatim
  | .lose Name => Name.Verbatim ∧ Name.chars.length ≤ 94
  | _ => True

/-! ## The elements -/

def kind : CatAnswer → AnswerKind
  | .login _ => .login
  | .hook _ => .hook
  | .unhook _ => .unhook
  | .create _ => .create
  | .cancel _ => .cancel
  | .filters _ _ => .filters
  | .lose _ => .lose

/-- `<error id='…'/>`, with a `content` or not. -/
def errorMarkup (id : String) (content : Option String) : Markup :=
  .single (CStr.lit "error") (attr "id" (CStr.lit id) ::
    (content.map fun content => attr "content" (CStr.lit content)).toList) []

/-- What stands in the `query`. -/
def parts : CatAnswer → List Markup
  | .login ok => [errorMarkup (if ok then "OK" else "400") none]
  | .hook ok | .unhook ok => [errorMarkup (if ok then "OK" else "301") none]
  | .create ok => [errorMarkup (if ok then "OK" else "401") (some (if ok then "" else "set failed"))]
  | .cancel ok => [errorMarkup (if ok then "OK" else "401") (if ok then some "" else none)]
  | .filters _ row => row.elim [] fun row => [textMarkup "name" row.1, textMarkup "filterstring" row.2]
  | .lose Name => [textMarkup "username" Name]

/-- The white space in the start tag of the `query`. -/
def blanks : CatAnswer → List Byte
  | .filters true _ => [ascii ' ']
  | _ => []

/-- The format of an answer as it is written. -/
def markup (a : CatAnswer) : Markup :=
  iqMarkup a.kind.type [] (a.kind.attribs.map fun att => attr att.1 (CStr.lit att.2)) a.blanks a.parts

/-- The element of an answer. -/
def node (a : CatAnswer) : Iks :=
  iqNode a.kind.type (a.kind.attribs.map fun att => (CStr.lit att.1, CStr.lit att.2))
    (Markup.nodes a.parts)

/-- **The format stands for the element.** -/
theorem node_markup (a : CatAnswer) : a.markup.node [] = [a.node] := by
  rw [markup, node_iqMarkup, List.map_map]
  rfl

/-- The parts of the formats between the values. -/
theorem formatParts :
    (∀ blank : Bool, (if blank then CStr.lit "<iq type='result'><query xmlns='filter:show' >"
        else CStr.lit "<iq type='result'><query xmlns='filter:show'>").chars =
      openRaw "iq" [attr "type" (CStr.lit "result")] [] ++
        openRaw "query" [attr "xmlns" (CStr.lit "filter:show")] (filters blank none).blanks) ∧
    (CStr.lit "<name>").chars = openRaw "name" [] [] ∧
    (CStr.lit "</name><filterstring>").chars = closeRaw "name" ++ openRaw "filterstring" [] [] ∧
    (CStr.lit "</filterstring>").chars = closeRaw "filterstring" ∧
    (CStr.lit "</query></iq>").chars = closeRaw "query" ++ closeRaw "iq" ∧
    (CStr.lit "<iq type='set'><query xmlns='filter:notice' action='lose'><username>").chars =
      openRaw "iq" [attr "type" (CStr.lit "set")] [] ++
        (openRaw "query" [attr "xmlns" (CStr.lit "filter:notice"), attr "action" (CStr.lit "lose")] [] ++
          openRaw "username" [] []) ∧
    (CStr.lit "</username></query></iq>").chars =
      closeRaw "username" ++ (closeRaw "query" ++ closeRaw "iq") := by
  decide +kernel

/-- **The format writes the element.** -/
theorem raw_markup (a : CatAnswer) : a.markup.raw = a.text.chars := by
  obtain ⟨hshow, hname, hmid, hrow, hend, hlose, huser⟩ := formatParts
  have hnil : Markup.raws [] = [] := rfl
  cases a with
  | login ok | hook ok | unhook ok | create ok | cancel ok => cases ok <;> decide +kernel
  | filters blank row =>
      have hblanks : (filters blank row).blanks = (filters blank none).blanks := by cases blank <;> rfl
      show (iqMarkup "result" [] [attr "xmlns" (CStr.lit "filter:show")] (filters blank row).blanks
        (filters blank row).parts).raw = _
      rw [raw_iqMarkup, hblanks]
      cases row with
      | none =>
          have hempty : (CStr.lit "").chars = [] := rfl
          simp only [parts, text, Option.elim_none, hnil, CStr.chars_append, hshow, hempty, hend,
            List.append_assoc, List.nil_append]
      | some row =>
          simp only [parts, text, Option.elim_some, raws_textMarkup, hnil, CStr.chars_append, hshow,
            hname, hmid, hrow, hend, List.append_assoc, List.nil_append]
  | lose Name =>
      show (iqMarkup "set" [] [attr "xmlns" (CStr.lit "filter:notice"),
        attr "action" (CStr.lit "lose")] [] [textMarkup "username" Name]).raw = _
      rw [raw_iqMarkup]
      simp only [raws_textMarkup, hnil, text, CStr.chars_append, hlose, huser, List.append_assoc,
        List.append_nil]

/-- The tags of the formats. -/
theorem validTags (k : AnswerKind) :
    Markup.ValidTag (CStr.lit "iq") [attr "type" (CStr.lit k.type)] [] ∧
      ∀ blank : Bool, Markup.ValidTag (CStr.lit "query")
        (k.attribs.map fun att => attr att.1 (CStr.lit att.2)) (filters blank none).blanks := by
  cases k <;> decide +kernel

/-- The format is markup when the texts are clean. -/
theorem valid_markup {a : CatAnswer} (h : a.Clean) : a.markup.Valid := by
  have hparts : Markup.AllValid a.parts := by
    cases a with
    | login ok | hook ok | unhook ok | create ok | cancel ok => cases ok <;> decide +kernel
    | filters blank row =>
        cases row with
        | none => trivial
        | some row => exact ⟨valid_textMarkup (by decide +kernel) h.1,
            valid_textMarkup (by decide +kernel) h.2, trivial⟩
    | lose Name => exact ⟨valid_textMarkup (by decide +kernel) h.1, trivial⟩
  have hblanks : ∃ blank, a.blanks = (filters blank none).blanks := by
    cases a with
    | filters blank row =>
        refine ⟨blank, ?_⟩
        cases blank <;> rfl
    | login ok | hook ok | unhook ok | create ok | cancel ok => exact ⟨false, rfl⟩
    | lose Name => exact ⟨false, rfl⟩
  obtain ⟨blank, hblank⟩ := hblanks
  obtain ⟨hiq, hquery⟩ := validTags a.kind
  exact ⟨hiq, ⟨⟨hblank ▸ hquery blank, hparts, nofun⟩, trivial⟩, nofun⟩

/-! ## What the dialog makes of them -/

/-- The rows that an answer shows. -/
def rows : Option (CStr × CStr) → List FilterItem
  | none => []
  | some row => if row = (CStr.lit "", CStr.lit "") then []
      else [{ Name := textOf row.1, option := textOf row.2 }]

/-- What an answer is for. -/
def effect (d : Dialog) : CatAnswer → Dialog
  | .login true => { d.PushSendStream .filterShow with m_Status := .RUN_AUTHED }
  | .login false => { d with m_Status := .RUN_UNAUTH }
  | .hook ok | .create ok => { d with m_Status := if ok then .RUN_RUNNING else .RUN_STOP }
  | .unhook ok | .cancel ok => if ok then { d with m_Status := .RUN_STOP } else d
  | .filters _ row => { d with m_ListView := rows row }
  | .lose _ => { d with m_Status := .RUN_STOP }

/-- The attributes that the client looks up, and its tests on them. -/
theorem lookups (k : AnswerKind) (children : List Iks) :
    Iks.findAttrib (some (k.query children)) (CStr.lit "xmlns") = some (CStr.lit k.xmlns) ∧
      Iks.findAttrib (some (k.query children)) (CStr.lit "action") = k.action.map CStr.lit ∧
      catIqHandler (some (CStr.lit k.type)) (some (CStr.lit k.xmlns)) = some (some k.handler) := by
  have hfind : ∀ name, Iks.findAttrib (some (k.query children)) name =
      ((k.attribs.map fun att => (CStr.lit att.1, CStr.lit att.2)).find? fun a =>
        a.1 = name).map Prod.snd := fun _ => rfl
  rw [hfind, hfind]
  cases k <;> decide +kernel

/-- A test on the action. -/
theorem actionIs_query (k : AnswerKind) (children : List Iks) (action : String) :
    Dialog.actionIs (some (k.query children)) action =
      k.action.any fun action' => CStr.lit action' = CStr.lit action := by
  rw [Dialog.actionIs, (lookups k children).2.1]
  cases k.action with
  | none => rfl
  | some action' =>
      show decide ((if CStr.lit action' = CStr.lit action then (0 : Int) else 1) = 0) = _
      rw [Option.any_some]
      split
      · next heq => rw [decide_eq_true heq, decide_eq_true rfl]
      · next hne => rw [decide_eq_false hne, decide_eq_false (by decide)]

/-- The test on the `id` of the `error`. -/
theorem idOk_query (k : AnswerKind) {children rest : List Iks} {id : String} {attribs : List (CStr × CStr)}
    (h : children = .tag (CStr.lit "error") ((CStr.lit "id", CStr.lit id) :: attribs) [] :: rest) :
    Dialog.idOk (some (k.query children)) = decide (CStr.lit id = CStr.lit "OK") := by
  have hnamed : Iks.named (CStr.lit "error")
      (.tag (CStr.lit "error") ((CStr.lit "id", CStr.lit id) :: attribs) []) = true := by
    show decide (CStr.lit "error" = CStr.lit "error") = true
    exact decide_eq_true rfl
  have hfind : Iks.find (some (k.query children)) (CStr.lit "error") =
      some (.tag (CStr.lit "error") ((CStr.lit "id", CStr.lit id) :: attribs) []) := by
    show children.find? (Iks.named (CStr.lit "error")) = _
    rw [h, List.find?_cons_of_pos hnamed]
  have hid : Iks.findAttrib (some (.tag (CStr.lit "error") ((CStr.lit "id", CStr.lit id) :: attribs) []))
      (CStr.lit "id") = some (CStr.lit id) := by
    show (((CStr.lit "id", CStr.lit id) :: attribs).find? fun a => decide (a.1 = CStr.lit "id")).map
      Prod.snd = _
    rw [List.find?_cons_of_pos (by exact decide_eq_true rfl)]
    rfl
  rw [Dialog.idOk, hfind, hid]
  show decide ((if CStr.lit id = CStr.lit "OK" then (0 : Int) else 1) = 0) = _
  split
  · next heq => rw [decide_eq_true heq, decide_eq_true rfl]
  · next hne => rw [decide_eq_false hne, decide_eq_false (by decide)]

/-- The handler is the one that is meant. -/
theorem IOXMLIQ_iqNode (k : AnswerKind) (children : List Iks) (d : Dialog) :
    d.IOXMLIQ (iqNode k.type (k.attribs.map fun att => (CStr.lit att.1, CStr.lit att.2)) children) =
      match k.handler with
      | .RespLogin => some (d.RespLogin (some (k.query children)))
      | .RespAllFilters => some { d with
          m_ListView := RespAllFilters [k.query children] d.m_ListView }
      | .RespCatSetHooker => some (d.RespCatSetHooker (some (k.query children)))
      | .RespFilterNew => some (d.RespFilterNew (some (k.query children)))
      | .RespFilterNotice => d.RespFilterNotice (some (k.query children)) := by
  obtain ⟨hxmlns, -, hhandler⟩ := lookups k children
  have hsiblings : findSiblings (iqNode k.type (k.attribs.map fun att => (CStr.lit att.1, CStr.lit att.2))
      children) (CStr.lit "query") = [k.query children] := by
    have hnamed : Iks.named (CStr.lit "query") (k.query children) = true := by
      show decide (CStr.lit "query" = CStr.lit "query") = true
      exact decide_eq_true rfl
    show [k.query children].dropWhile (fun y => !Iks.named (CStr.lit "query") y) = _
    rw [List.dropWhile_cons_of_neg]
    rw [hnamed]
    decide
  rw [Dialog.IOXMLIQ, find_query, findAttrib_type, hsiblings]
  show (catIqHandler _ (Iks.findAttrib (some (k.query children)) _)).bind _ = _
  rw [hxmlns, hhandler]
  cases k.handler <;> rfl

/-- The box with the name of the lost pioneer. -/
theorem loseMessage_fits {Name : CStr} (h : Name.chars.length ≤ 94) :
    (CStr.lit "Pioneer [" ++ Name ++ CStr.lit "] have exit,so stop now!").chars.length < 128 := by
  have hlengths : (CStr.lit "Pioneer [").chars.length = 9 ∧
      (CStr.lit "] have exit,so stop now!").chars.length = 24 := by decide +kernel
  simp only [CStr.chars_append, List.length_append, hlengths]
  omega

/-- What an answer says. -/
def ok? : CatAnswer → Option Bool
  | .login ok | .hook ok | .unhook ok | .create ok | .cancel ok => some ok
  | .filters _ _ | .lose _ => none

theorem idOk_parts {a : CatAnswer} {ok : Bool} (h : a.ok? = some ok) :
    Dialog.idOk (some (a.kind.query (Markup.nodes a.parts))) = ok := by
  have hids : ∀ id ∈ ["400", "301", "401"], CStr.lit id ≠ CStr.lit "OK" := by decide +kernel
  cases a with
  | login ok' | hook ok' | unhook ok' | create ok' | cancel ok' =>
      cases h
      cases ok with
      | true => exact (idOk_query _ rfl).trans (decide_eq_true rfl)
      | false => exact (idOk_query _ rfl).trans (decide_eq_false (hids _ (by decide)))
  | filters blank row => cases h
  | lose Name => cases h

/-- The tests of the handlers on the action. -/
theorem tests (k : AnswerKind) (children : List Iks) :
    Dialog.actionIs (some (k.query children)) "hook" = decide (k = .hook) ∧
      Dialog.actionIs (some (k.query children)) "create" = decide (k = .create) ∧
      Dialog.actionIs (some (k.query children)) "cancel" = decide (k = .unhook ∨ k = .cancel) ∧
      Dialog.actionIs (some (k.query children)) "lose" = decide (k = .lose) := by
  simp only [actionIs_query]
  cases k <;> decide +kernel

/-- The row of an answer to `filter:show`. -/
theorem toList_rowOf (blank : Bool) (row : Option (CStr × CStr)) :
    (rowOf (AnswerKind.filters.query (Markup.nodes (filters blank row).parts))).toList = rows row := by
  cases row with
  | none => exact congrArg Option.toList (rowOf_filterQuery_nil _)
  | some row =>
      have hrow : rowOf (AnswerKind.filters.query (Markup.nodes (filters blank (some row)).parts)) =
          if row = (CStr.lit "", CStr.lit "") then none
          else some { Name := textOf row.1, option := textOf row.2 } := by
        show rowOf (.tag (CStr.lit "query") _ (Markup.nodes [textMarkup "name" row.1,
          textMarkup "filterstring" row.2])) = _
        rw [nodes_textMarkup, nodes_textMarkup]
        exact rowOf_filterQuery _ row []
      rw [hrow, rows]
      split <;> rfl

/-- **An answer means what it was written for**: no comparison is with NULL, and no buffer is too
small. -/
theorem IOXMLIQ_node {a : CatAnswer} (h : a.Clean) (d : Dialog) : d.IOXMLIQ a.node = some (a.effect d) := by
  refine (IOXMLIQ_iqNode a.kind (Markup.nodes a.parts) d).trans ?_
  obtain ⟨hhook, hcreate, hcancel, hlose⟩ := tests a.kind (Markup.nodes a.parts)
  cases a with
  | login ok =>
      show some (d.RespLogin _) = _
      rw [Dialog.RespLogin, idOk_parts (a := .login ok) rfl]
      cases ok <;> rfl
  | hook ok =>
      show some (d.RespCatSetHooker _) = _
      rw [Dialog.RespCatSetHooker, hhook, idOk_parts (a := .hook ok) rfl]
      cases ok <;> rfl
  | unhook ok =>
      show some (d.RespCatSetHooker _) = _
      rw [Dialog.RespCatSetHooker, hhook, hcancel, idOk_parts (a := .unhook ok) rfl]
      cases ok <;> rfl
  | create ok =>
      show some (d.RespFilterNew _) = _
      rw [Dialog.RespFilterNew, hcreate, idOk_parts (a := .create ok) rfl]
      cases ok <;> rfl
  | cancel ok =>
      show some (d.RespFilterNew _) = _
      rw [Dialog.RespFilterNew, hcreate, hcancel, idOk_parts (a := .cancel ok) rfl]
      cases ok <;> rfl
  | filters blank row =>
      show some { d with m_ListView := RespAllFilters [_] d.m_ListView } = some { d with
        m_ListView := rows row }
      rw [RespAllFilters, showChildren, showChildren, showChild_eq, List.nil_append]
      exact congrArg (fun items => some { d with m_ListView := items }) (toList_rowOf blank row)
  | lose Name =>
      have hname : Iks.findCdata (some (AnswerKind.lose.query (Markup.nodes (lose Name).parts)))
          (CStr.lit "username") = textOf Name := by
        show Iks.findCdata (some (.tag _ _ (Markup.nodes [textMarkup "username" Name]))) _ = _
        rw [nodes_textMarkup]
        exact findCdata_ofText _ _ _ _ _
      show d.RespFilterNotice (some (AnswerKind.lose.query (Markup.nodes (lose Name).parts))) = _
      rw [Dialog.RespFilterNotice, hname]
      have hfits : (CStr.lit "Pioneer [" ++ (textOf Name).getD (CStr.lit "(null)") ++
          CStr.lit "] have exit,so stop now!").chars.length < 128 := by
        rw [textOf]
        split
        · exact loseMessage_fits (by decide +kernel)
        · exact loseMessage_fits h.2
      have haction : Dialog.actionIs (some (AnswerKind.lose.query (Markup.nodes (lose Name).parts)))
          "lose" = true := hlose
      rw [if_pos haction, if_pos hfits]
      rfl

end CatAnswer

/-- An answer whose texts are clean. -/
abbrev CleanAnswer : Type := { a : CatAnswer // a.Clean }

/-- An answer makes no row. -/
theorem CleanAnswer.quiet (a : CleanAnswer) (pDlg : CCuteCatDlg) :
    pDlg.IOProcessDogMsg (.IKS_NODE_NORMAL, some a.1.node) = some pDlg := by
  obtain ⟨hxmlns, -, hhandler⟩ := CatAnswer.lookups a.1.kind (Markup.nodes a.1.parts)
  rw [CCuteCatDlg.IOProcessDogMsg, CatAnswer.node, packet_iqNode]
  show CCuteCatDlg.passIQ _ _ = _
  rw [CCuteCatDlg.passIQ, find_query, findAttrib_type]
  show (catIqHandler _ (Iks.findAttrib (some (a.1.kind.query _)) _)).map _ = _
  rw [hxmlns, hhandler]
  rfl

/-! ## What comes from the server -/

/-- What the server writes to a client. -/
inductive DogMessage where
  | handShake
  | answer (a : CleanAnswer)
  | packet (x : Sniffed)

/-- The string of `CatHandShake`. -/
def dogHandShake : CStr := CStr.lit
  "<stream:stream from='dog' xmlns='jabber:cat' xmlns:stream='http://etherx.jabber.org/streams' id='00'>"

def dogHandShakeAttribs : List AttribMarkup :=
  [attr "from" (CStr.lit "dog"), attr "xmlns" (CStr.lit "jabber:cat"),
    attr "xmlns:stream" (CStr.lit "http://etherx.jabber.org/streams"), attr "id" (CStr.lit "00")]

namespace DogMessage

/-- The bytes of a message. -/
def text : DogMessage → List Byte
  | .handShake => dogHandShake.chars
  | .answer a => a.1.text.chars
  | .packet x => x.node.text

/-- The message as a stanza. -/
def stanza : DogMessage → IksStanza
  | .handShake => .header [] dogHandShakeAttribs [] trivial IksStanza.quiet_nil (by decide +kernel)
  | .answer a => .ofMarkup [] a.1.markup a.1.node trivial IksStanza.quiet_nil a.1.node_markup id
      (CatAnswer.valid_markup a.2) (normal_iqNode ..)
  | .packet x => x.stanza

theorem text_stanza (x : DogMessage) : x.stanza.text = x.text := by
  cases x with
  | handShake => decide +kernel
  | answer a => exact a.1.raw_markup
  | packet x => rfl

/-- What a message does to the dialog, but for the rows. -/
def effect (d : Dialog) : DogMessage → Dialog
  | .handShake => d.PushSendStream (.login d.m_Name)
  | .answer a => a.1.effect d
  | .packet _ => d

def packet? : DogMessage → Option Sniffed
  | .packet x => some x
  | .handShake | .answer _ => none

/-- What has come in whole in the first `n` bytes. -/
def arrived (n : Nat) (sent : List DogMessage) : List DogMessage :=
  Netflow.arrived (fun x => x.text.length) n sent

/-- **A message does what it is for.** -/
theorem IOProcessDogMsg_node (stopped : Bool) (d : Dialog) (x : DogMessage) :
    d.IOProcessDogMsg stopped x.stanza.node = some (x.effect d) := by
  cases x with
  | handShake => rfl
  | answer a =>
      show Dialog.IOProcessDogMsg stopped d (.IKS_NODE_NORMAL, some a.1.node) = _
      rw [Dialog.IOProcessDogMsg, CatAnswer.node, packet_iqNode]
      exact CatAnswer.IOXMLIQ_node a.2 d
  | packet x =>
      have hpacket : Iks.packet x.node = .IKS_PAK_MESSAGE := iks_packet_packetNode _ _ _ _
      show Dialog.IOProcessDogMsg stopped d (.IKS_NODE_NORMAL, some x.node) = _
      rw [Dialog.IOProcessDogMsg, hpacket]
      rfl

theorem foldlM_IOProcessDogMsg (stopped : Bool) (sent : List DogMessage) (d : Dialog) :
    (sent.map fun x => x.stanza.node).foldlM (Dialog.IOProcessDogMsg stopped) d =
      some (sent.foldl effect d) := by
  induction sent generalizing d with
  | nil => rfl
  | cons x rest ih =>
      rw [List.map_cons, List.foldlM_cons, IOProcessDogMsg_node]
      exact ih (x.effect d)

/-- For the rows all but the packets are the same. -/
def sentStanza : DogMessage → SentStanza
  | .handShake => .other (stanza .handShake) fun _ => rfl
  | .answer a => .other (stanza (.answer a)) a.quiet
  | .packet x => .packet x

theorem stanza_sentStanza (x : DogMessage) : x.sentStanza.stanza = x.stanza := by
  cases x with
  | handShake => rfl
  | answer a => rfl
  | packet x => rfl

theorem packet?_sentStanza (x : DogMessage) : x.sentStanza.packet? = x.packet? := by
  cases x with
  | handShake => rfl
  | answer a => rfl
  | packet x => rfl

end DogMessage

/-- **Answers arrive**: whatever pieces the stream of the server comes in and whatever resets
`IKS_RESET` makes, the dialog does what the messages whose last byte has come are for, in their order.
It compares no text with NULL and writes behind the end of no buffer. -/
theorem answers_arrive (big : Iks → Bool) {sent : List DogMessage} {pieces : List CStr}
    (hpieces : pieces.flatMap CStr.chars <+: sent.flatMap DogMessage.text) (stopped : Bool)
    (d : Dialog) :
    ∃ prs, pieces.foldlM (iks_parse_reset big) (new ⟨[], []⟩) = some prs ∧
      prs.user_data.reported.foldlM (Dialog.IOProcessDogMsg stopped) d =
        some ((DogMessage.arrived (pieces.flatMap CStr.chars).length sent).foldl DogMessage.effect d) := by
  have hbytes : pieces.flatMap CStr.chars <+: (sent.map DogMessage.stanza).flatMap IksStanza.text := by
    rw [List.flatMap_map]
    simpa only [DogMessage.text_stanza] using hpieces
  obtain ⟨prs, hprs, hreported⟩ := reported_of_pieces big hbytes
  refine ⟨prs, hprs, ?_⟩
  rw [hreported, IksStanza.arrived, ← map_arrived, List.map_map]
  simp only [DogMessage.text_stanza]
  exact DogMessage.foldlM_IOProcessDogMsg stopped _ d

/-- A handshake, the answer to a login and the one to a hook but for its last byte, in two pieces. -/
example :
    let bytes := dogHandShake.chars ++ ((CatAnswer.login true).text.chars ++
      (CatAnswer.hook true).text.chars.dropLast)
    ∃ prs, [CStr.ofChars (bytes.take 120), CStr.ofChars (bytes.drop 120)].foldlM
        (iks_parse_reset fun _ => true) (new ⟨[], []⟩) = some prs ∧
      prs.user_data.reported.foldlM (Dialog.IOProcessDogMsg false) Dialog.new =
        some { Dialog.new with
          m_Status := .RUN_AUTHED
          pushed := [.login (CStr.lit ""), .filterShow] } := by
  intro bytes
  obtain ⟨sent, hsent⟩ : ∃ sent, sent = [DogMessage.handShake, .answer ⟨.login true, trivial⟩,
      .answer ⟨.hook true, trivial⟩] := ⟨_, rfl⟩
  have hbytes : [CStr.ofChars (bytes.take 120), CStr.ofChars (bytes.drop 120)].flatMap CStr.chars <+:
      sent.flatMap DogMessage.text := by
    rw [hsent]
    exact List.isPrefixOf_iff_prefix.mp (by decide +kernel)
  obtain ⟨prs, hprs, hfold⟩ := answers_arrive (fun _ => true) hbytes false Dialog.new
  refine ⟨prs, hprs, hfold.trans ?_⟩
  rw [hsent]
  decide +kernel

end Netflow
