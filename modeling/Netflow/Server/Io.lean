import Netflow.Server.Iks
import Netflow.Server.Nose

set_option autoImplicit false

/-! # The request handlers (`cdogio.c`) and the end of a session (`FreeObj`)

The handlers take the elements the parser delivers. `strcmp` with a NULL argument is undefined
behaviour; `iks_strcmp` takes NULL.
-/

namespace Netflow

open Iksemel

/-- `strcmp(str, str') == 0`. -/
def strEq (str : Option CStr) (str' : CStr) : Option Bool :=
  str.map fun str => decide (str = str')

/-- The handlers `IOXMLIq` calls. -/
inductive IqHandler where
  | RespCatLogin0
  | RespCatAllFilters
  | RespCatSetHooker
  | RespCatCreateFilter
deriving DecidableEq

/-- The tests of `IOXMLIq`, in order: `xmlns` is compared only when `type` was equal. -/
def iqHandler (type xmlns : Option CStr) : Option (Option IqHandler) := do
  let is (t x : CStr) : Option Bool := do
    if ← strEq type t then strEq xmlns x else some false
  if ← is (CStr.lit "set") (CStr.lit "jabber:iq:auth") then some (some .RespCatLogin0)
  else if ← is (CStr.lit "get") (CStr.lit "filter:show") then some (some .RespCatAllFilters)
  else if ← is (CStr.lit "set") (CStr.lit "filter:hook") then some (some .RespCatSetHooker)
  else if ← is (CStr.lit "set") (CStr.lit "filter:new") then some (some .RespCatCreateFilter)
  else some none

namespace Server

section Handlers

variable {ι : Type} [Iksemel ι]

def CatHandShake (i : Slot) (s : Server) : Bool × Server :=
  s.answer i (CStr.lit
    "<stream:stream from='dog' xmlns='jabber:cat' xmlns:stream='http://etherx.jabber.org/streams' id='00'>")

/-- A request without a user name returns between obtaining its cell and putting it. -/
def RespCatLogin0 (node : Option ι) (i : Slot) (s : Server) : Option (Bool × Server) :=
  let DogName := iks_find_cdata node (CStr.lit "username")
  match s.IoGetSendMsgCell i with
  | (none, s) => some (false, s)
  | (some pDogMsg, s) =>
      match DogName with
      | none => some (false, s)
      | some DogName => do
          let str :=
            if !(← s.CheckNameInList DogName) then
              CStr.lit "<iq type='result'><query xmlns='jabber:iq:auth'><error id='OK'/></query></iq>"
            else
              CStr.lit "<iq type='result'><query xmlns='jabber:iq:auth'><error id='400'/></query></iq>"
          some (true, (s.pushString pDogMsg str).IoPutSendMsgCell pDogMsg)

def RespCatAllFilters (node : Option ι) (i : Slot) (s : Server) : Option Server := do
  if ← strEq (iks_find_attrib node (CStr.lit "action")) (CStr.lit "show") then
    let Filter ← s.GetAllCuteDogsFilterString 1024
    if Filter.chars ≠ [] then
      some (s.answer i (CStr.snprintf 1152
        (CStr.lit "<iq type='result'><query xmlns='filter:show' >" ++ Filter ++
          CStr.lit "</query></iq>"))).2
    else some s
  else some s

/-- `pClientInfo->lType = …`. -/
def setType (i : Slot) (lType : CLIENTTYPE) (s : Server) : Server :=
  s.setClient i fun ci => { ci with lType := lType }

def RespCatSetHooker (node : Option ι) (i : Slot) (s : Server) : Option Server :=
  let action := iks_find_attrib node (CStr.lit "action")
  let Item := iks_find_cdata node (CStr.lit "item")
  if iks_strcmp ι action (some (CStr.lit "hook")) = 0 then do
    match ← s.AddHooker2CuteDog Item i with
    | (true, s) =>
        some ((s.setType i .CLIENT_USER_HOOKER).answer i (CStr.snprintf 512 (CStr.lit
          "<iq type='result'><query xmlns='filter:hook' action='hook'><error id='OK'/></query></iq>"))).2
    | (false, s) =>
        some (s.answer i (CStr.snprintf 512 (CStr.lit
          "<iq type='result'><query xmlns='filter:hook' action='hook'><error id='301'/></query></iq>"))).2
  else if iks_strcmp ι action (some (CStr.lit "cancel")) = 0 then do
    match ← s.DelHookerInCuteDog i with
    | (true, s) =>
        some (s.answer i (CStr.snprintf 512 (CStr.lit
          "<iq type='result'><query xmlns='filter:hook' action='cancel'><error id='OK'/></query></iq>"))).2
    | (false, s) =>
        some (s.answer i (CStr.snprintf 512 (CStr.lit
          "<iq type='result'><query xmlns='filter:hook' action='cancel'><error id='301'/></query></iq>"))).2
  else some s

/-- `iModel` of a filter request. -/
def modelOf (node : Option ι) : Nat :=
  let model := iks_find_attrib node (CStr.lit "model")
  if iks_strcmp ι model (some (CStr.lit "lo")) = 0 then 0
  else if iks_strcmp ι model (some (CStr.lit "net")) = 0 then 1
  else 0

/-- `RespCatCreateFilter` without its calls of `CuteDogBroadCast`: whether it calls it next. -/
def createOrCancel (node : Option ι) (i : Slot) (o : Outcome) (s : Server) :
    Option (Bool × Server) :=
  let action := iks_find_attrib node (CStr.lit "action")
  let DogName := iks_find_cdata node (CStr.lit "username")
  let FilterStr := iks_find_cdata node (CStr.lit "filterstring")
  if iks_strcmp ι action (some (CStr.lit "create")) = 0 then
    match FilterStr with
    | none => some (false, s)
    | some FilterStr => do
        match ← s.StartDogNose FilterStr DogName i (modelOf node) o with
        | (0, s) => some (false, s)
        | (_, s) => some (true, s.setType i .CLIENT_USER_PIONEER)
  else if iks_strcmp ι action (some (CStr.lit "cancel")) = 0 then do
    let (_, s) ← s.StopDogNose i o
    let (_, s) ← s.DelCuteDogInList i
    some (true, s)
  else some (false, s)

def RespCatCreateFilter (node : Option ι) (i : Slot) (o : Outcome) (s : Server) :
    Option Server := do
  match ← s.createOrCancel node i o with
  | (true, s) => s.CuteDogBroadCast
  | (false, s) => some s

/-- The call of a handler in `IOXMLIq`. -/
def runHandler (handler : IqHandler) (x : Option ι) (i : Slot) (o : Outcome) (s : Server) :
    Option Server :=
  match handler with
  | .RespCatLogin0 => (s.RespCatLogin0 x i).map Prod.snd
  | .RespCatAllFilters => s.RespCatAllFilters x i
  | .RespCatSetHooker => s.RespCatSetHooker x i
  | .RespCatCreateFilter => s.RespCatCreateFilter x i o

def IOXMLIq (node : ι) (i : Slot) (o : Outcome) (s : Server) : Option Server := do
  let type := iks_find_attrib (some node) (CStr.lit "type")
  let x := iks_find (some node) (CStr.lit "query")
  let xmlns := iks_find_attrib x (CStr.lit "xmlns")
  match ← iqHandler type xmlns with
  | some handler => s.runHandler handler x i o
  | none => some s

def IOProcessCatMsg (i : Slot) (type : IksNodeType) (node : ι) (o : Outcome) (s : Server) :
    Option Server :=
  match type with
  | .IKS_NODE_START => some (s.CatHandShake i).2
  | .IKS_NODE_NORMAL =>
      match iks_packet node with
      | .IKS_PAK_IQ => s.IOXMLIq node i o
      | _ => some s
  | .IKS_NODE_ERROR => some s
  | .IKS_NODE_STOP => some s

end Handlers

/-! ## The end of a session -/

def FreeObj (i : Slot) (o : Outcome) (s : Server) : Option Server :=
  let s := s.setClient i fun ci => { ci with Prs := false }
  match (s.ClientInfo i).lType with
  | .CLIENT_USER_PIONEER => do
      let (_, s) ← s.StopDogNose i o
      let (_, s) ← s.DelCuteDogInList i
      some s
  | .CLIENT_USER_HOOKER => do
      let (_, s) ← s.DelHookerInCuteDog i
      some s
  | .CLIENT_UNKNOWN => some s

/-- The branch of `processIOThread` for the shutdown text. -/
def shutdown (i : Slot) (o : Outcome) (s : Server) : Option Server := (s.ioClosed i).FreeObj i o

end Server

end Netflow
