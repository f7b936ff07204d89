import Netflow.CuteCat.FilterList
import Netflow.Iksemel.Markup

set_option autoImplicit false

/-! # The formats of the messages (`cdogio.c`, `CuteCatDlg.cpp`)

Both sides write their messages with `sprintf`: an `iq` with one `query`, whose children are elements
with a text or empty elements.
-/

namespace Netflow

namespace Format

/-- An attribute of a format. -/
def attr (name : String) (value : CStr) : AttribMarkup :=
  ⟨[ascii ' '], CStr.lit name, ascii '\'', value⟩

/-- `<iq type='…'><query …>…</query></iq>`; some formats have a blank in one of the start tags. -/
def iqMarkup (type : String) (blanks : List Byte) (attribs : List AttribMarkup)
    (queryBlanks : List Byte) (children : List Markup) : Markup :=
  .element (CStr.lit "iq") [attr "type" (CStr.lit type)] blanks
    [.element (CStr.lit "query") attribs queryBlanks children []] []

def textMarkup (name : String) (s : CStr) : Markup := .element (CStr.lit name) [] [] [.text s] []

theorem nodes_text (s : CStr) : Markup.nodes [.text s] = if s.chars = [] then [] else [.cdata s] := by
  show (if s.chars = [] then [] else [Iks.cdata (CStr.ofChars s.chars)]) = _
  rw [CStr.ofChars_chars]

theorem nodes_textMarkup (name : String) (s : CStr) (rest : List Markup) :
    Markup.nodes (textMarkup name s :: rest) = ofText (CStr.lit name) s :: Markup.nodes rest := by
  show Iks.tag (CStr.lit name) [] (Markup.nodes [.text s]) :: Markup.nodes rest = _
  rw [nodes_text]
  rfl

/-- A start tag. -/
def openRaw (name : String) (attribs : List AttribMarkup) (blanks : List Byte) : List Byte :=
  Markup.startRaw (CStr.lit name) attribs blanks ++ [ascii '>']

/-- An end tag. -/
def closeRaw (name : String) : List Byte :=
  ascii '<' :: ascii '/' :: (CStr.lit name).chars ++ [ascii '>']

theorem raw_element (name : String) (attribs : List AttribMarkup) (blanks : List Byte)
    (children : List Markup) : (Markup.element (CStr.lit name) attribs blanks children []).raw =
      openRaw name attribs blanks ++ (Markup.raws children ++ closeRaw name) := by
  simp only [Markup.raw, openRaw, closeRaw, List.append_assoc, List.cons_append, List.nil_append]

theorem raw_text (s : CStr) : (Markup.text s).raw = s.chars := by rw [Markup.raw]

theorem raws_textMarkup (name : String) (s : CStr) (rest : List Markup) :
    Markup.raws (textMarkup name s :: rest) =
      openRaw name [] [] ++ (s.chars ++ (closeRaw name ++ Markup.raws rest)) := by
  simp only [textMarkup, raw_element, Markup.raws, raw_text, List.append_nil, List.append_assoc]

theorem valid_textMarkup {name : String} {s : CStr} (hname : (CStr.lit name).Name) (hs : s.Verbatim) :
    (textMarkup name s).Valid :=
  ⟨⟨hname, nofun, by decide, List.nodup_nil, nofun⟩, ⟨hs, trivial⟩, nofun⟩

theorem raw_iqMarkup (type : String) (blanks : List Byte) (attribs : List AttribMarkup)
    (queryBlanks : List Byte) (children : List Markup) :
    (iqMarkup type blanks attribs queryBlanks children).raw =
      openRaw "iq" [attr "type" (CStr.lit type)] blanks ++ (openRaw "query" attribs queryBlanks ++
        (Markup.raws children ++ (closeRaw "query" ++ closeRaw "iq"))) := by
  simp only [iqMarkup, raw_element, Markup.raws, List.append_nil, List.append_assoc]

/-! ## The elements -/

/-- The `query` of an `iq`. -/
def queryNode (attribs : List (CStr × CStr)) (children : List Iks) : Iks :=
  .tag (CStr.lit "query") attribs children

/-- The element of an `iq`. -/
def iqNode (type : String) (attribs : List (CStr × CStr)) (children : List Iks) : Iks :=
  .tag (CStr.lit "iq") [(CStr.lit "type", CStr.lit type)] [queryNode attribs children]

theorem node_iqMarkup (type : String) (blanks : List Byte) (attribs : List AttribMarkup)
    (queryBlanks : List Byte) (children : List Markup) :
    (iqMarkup type blanks attribs queryBlanks children).node [] =
      [iqNode type (attribs.map AttribMarkup.att) (Markup.nodes children)] := rfl

section Lookups

variable (type : String) (attribs : List (CStr × CStr)) (children : List Iks)

theorem packet_iqNode : Iks.packet (iqNode type attribs children) = .IKS_PAK_IQ := by
  rw [iqNode, Iks.packet, if_pos rfl]

theorem find_query : Iks.find (some (iqNode type attribs children)) (CStr.lit "query") =
    some (queryNode attribs children) := by
  have hnamed : Iks.named (CStr.lit "query") (queryNode attribs children) = true := by
    show decide (CStr.lit "query" = CStr.lit "query") = true
    exact decide_eq_true rfl
  show [queryNode attribs children].find? (Iks.named (CStr.lit "query")) = some _
  exact List.find?_cons_of_pos hnamed

theorem findAttrib_type : Iks.findAttrib (some (iqNode type attribs children)) (CStr.lit "type") =
    some (CStr.lit type) := by
  show ([(CStr.lit "type", CStr.lit type)].find? fun a => decide (a.1 = CStr.lit "type")).map
    Prod.snd = _
  rw [List.find?_cons_of_pos (by exact decide_eq_true rfl)]
  rfl

theorem normal_iqNode : (iqNode type attribs children).Normal :=
  show CStr.lit "iq" ≠ CStr.lit "stream:stream" ∧ CStr.lit "iq" ≠ CStr.lit "stream:error" ∧
    CStr.lit "iq" ≠ CStr.lit "challenge" by decide +kernel

end Lookups

end Format

end Netflow
