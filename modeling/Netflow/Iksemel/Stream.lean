import Netflow.Iksemel.Sax

set_option autoImplicit false

/-! # The hooks of a stream (`iksemel/stream.c`, `iksemel/iks.c`)

The hooks build the tree of an element and report it when its end tag is read. `stream_data` keeps a
pointer to the innermost open element; `StreamData` keeps the elements that are open, the innermost
one first, each without the child that is still open. The function the nodes are reported to returns
`IKS_OK`, and the nodes reported are kept as a history.
-/

namespace Netflow

/-- An element whose end tag is not read yet. -/
structure OpenTag where
  name : CStr
  attribs : List (CStr × CStr)
  children : List Iks

/-- `struct stream_data`. -/
structure StreamData where
  current : List OpenTag
  reported : List (IksNodeType × Option Iks)

namespace OpenTag

def iks (x : OpenTag) : Iks := .tag x.name x.attribs x.children

/-- `iks_insert_cdata`: text behind text is joined. -/
def iks_insert_cdata (x : OpenTag) (data : List Byte) : OpenTag :=
  match x.children.getLast? with
  | some (.cdata text) =>
      { x with children := x.children.dropLast ++ [.cdata (text ++ CStr.ofChars data)] }
  | _ => { x with children := x.children ++ [.cdata (CStr.ofChars data)] }

/-- A child that was read. -/
def insert (x : OpenTag) (y : Iks) : OpenTag := { x with children := x.children ++ [y] }

end OpenTag

/-- `iks_insert_attrib` with a value: an attribute of the same name gets the value. -/
def iks_insert_attrib (name value : CStr) : List (CStr × CStr) → List (CStr × CStr)
  | [] => [(name, value)]
  | y :: rest => if name = y.1 then (name, value) :: rest else y :: iks_insert_attrib name value rest

/-- `insert_attribs` into an element without attributes. -/
def insert_attribs (atts : List (CStr × CStr)) : List (CStr × CStr) :=
  atts.foldl (fun attribs att => iks_insert_attrib att.1 att.2 attribs) []

namespace StreamData

def report (type : IksNodeType) (x : Option Iks) (data : StreamData) : StreamData :=
  { data with reported := data.reported ++ [(type, x)] }

/-- The `IKS_CLOSE` case. A `challenge` is answered on the connection and not reported. -/
def close (name : CStr) (data : StreamData) : StreamData :=
  match data.current with
  | [] => data.report .IKS_NODE_STOP none
  | [x] =>
      if name = CStr.lit "challenge" then { data with current := [] }
      else if name = CStr.lit "stream:error" then
        { data with current := [] }.report .IKS_NODE_ERROR (some x.iks)
      else { data with current := [] }.report .IKS_NODE_NORMAL (some x.iks)
  | x :: parent :: rest => { data with current := parent.insert x.iks :: rest }

/-- The `IKS_OPEN` and the `IKS_SINGLE` case. -/
def openTag (name : CStr) (atts : List (CStr × CStr)) (single : Bool) (data : StreamData) :
    StreamData :=
  let x : OpenTag := { name := name, attribs := insert_attribs atts, children := [] }
  if data.current = [] ∧ name = CStr.lit "stream:stream" then
    data.report .IKS_NODE_START (some x.iks)
  else
    let data := { data with current := x :: data.current }
    if single then data.close name else data

def tagHook (data : StreamData) (name : CStr) (atts : List (CStr × CStr)) :
    IksTagType → StreamData
  | .IKS_OPEN => data.openTag name atts false
  | .IKS_SINGLE => data.openTag name atts true
  | .IKS_CLOSE => data.close name

def cdataHook (data : StreamData) (cdata : List Byte) : StreamData :=
  match data.current with
  | [] => data
  | x :: rest => { data with current := x.iks_insert_cdata cdata :: rest }

instance : IksHooks StreamData where
  tagHook data name atts type := some (data.tagHook name atts type)
  cdataHook data cdata := some (data.cdataHook cdata)

end StreamData

end Netflow
