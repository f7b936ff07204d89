import Netflow.Basic.CStr

set_option autoImplicit false

/-! # The XML library (`iksemel.h`)

The server links the library that parses its clients' XML as a separate one, so the handlers are
written over any type `ι` of its elements and any answers of its look-up functions (`Iksemel`). A
NULL pointer is `none`.

`Iks` is a tree with the look-ups of `iks.c`, which the client brings along; it serves to run the
handlers on given stanzas, and the parser of `Netflow.Iksemel` builds it.
-/

namespace Netflow

/-- The kinds of node a parser reports. -/
inductive IksNodeType where
  | IKS_NODE_START
  | IKS_NODE_NORMAL
  | IKS_NODE_ERROR
  | IKS_NODE_STOP
deriving DecidableEq

/-- The kinds of packet `iks_packet` tells apart. -/
inductive IksPakType where
  | IKS_PAK_NONE
  | IKS_PAK_MESSAGE
  | IKS_PAK_PRESENCE
  | IKS_PAK_IQ
  | IKS_PAK_S10N
deriving DecidableEq

/-- The functions of the library that the handlers call on elements of type `ι`. `iks_packet` is
the `type` of the packet it returns. -/
class Iksemel (ι : Type) where
  iks_find : Option ι → CStr → Option ι
  iks_find_cdata : Option ι → CStr → Option CStr
  iks_find_attrib : Option ι → CStr → Option CStr
  iks_strcmp : Option CStr → Option CStr → Int
  iks_packet : ι → IksPakType

/-- An element tree. -/
inductive Iks where
  | tag (name : CStr) (attribs : List (CStr × CStr)) (children : List Iks)
  | cdata (text : CStr)

namespace Iks

/-- Whether an element is a tag of the given name. -/
def named (name : CStr) : Iks → Bool
  | tag n _ _ => n = name
  | cdata _ => false

def children : Iks → List Iks
  | tag _ _ c => c
  | cdata _ => []

/-- The first child tag of a given name. -/
def find (x : Option Iks) (name : CStr) : Option Iks := x.bind fun x => x.children.find? (named name)

/-- The text that is the first child of the first child tag of a given name. -/
def findCdata (x : Option Iks) (name : CStr) : Option CStr :=
  (find x name).bind fun y =>
    match y.children with
    | cdata text :: _ => some text
    | _ => none

/-- The value of an attribute. -/
def findAttrib (x : Option Iks) (name : CStr) : Option CStr :=
  x.bind fun
    | tag _ attribs _ => (attribs.find? fun a => a.1 = name).map Prod.snd
    | cdata _ => none

/-- Comparison for equality; NULL is equal to no string. -/
def compare : Option CStr → Option CStr → Int
  | some a, some b => if a = b then 0 else 1
  | _, _ => -1

/-- The kind of packet, by the name of the tag; a presence with a `type` is about a subscription unless
the `type` says that someone is gone or asks for him. -/
def packet : Iks → IksPakType
  | tag name attribs children =>
      if name = CStr.lit "iq" then .IKS_PAK_IQ
      else if name = CStr.lit "message" then .IKS_PAK_MESSAGE
      else if name = CStr.lit "presence" then
        match findAttrib (some (tag name attribs children)) (CStr.lit "type") with
        | none => .IKS_PAK_PRESENCE
        | some type =>
            if type = CStr.lit "unavailable" ∨ type = CStr.lit "probe" then .IKS_PAK_PRESENCE
            else .IKS_PAK_S10N
      else .IKS_PAK_NONE
  | cdata _ => .IKS_PAK_NONE

instance : Iksemel Iks where
  iks_find := find
  iks_find_cdata := findCdata
  iks_find_attrib := findAttrib
  iks_strcmp := compare
  iks_packet := packet

end Iks

end Netflow
