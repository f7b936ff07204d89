import Netflow.CuteCat.Requests
import Netflow.Lib.Transition

set_option autoImplicit false

/-! # The dialog of the client (`CuteCatDlg.cpp`)

`m_Status` says how far the client is. The handlers of `IOXMLIQ` change it as the answers of the server
come in, and the buttons look at it before they push a request and change it, too. A handler is one
step; message boxes, the enabling of controls and the connection that the login button makes are left
out, and any button may be pressed at any time. Writing behind the end of a buffer gives `none`.
-/

namespace Netflow

/-- `m_Status`. -/
inductive RunStatus where
  | RUN_ERROR
  | RUN_UNKNOW
  | RUN_UNAUTH
  | RUN_AUTHED
  | RUN_START
  | RUN_RUNNING
  | RUN_STOP
deriving DecidableEq

/-- The members of `CCuteCatDlg` but those that the messages fill. `pushed` is a history: the requests
that were handed to `PushSendStream`. -/
structure Dialog where
  m_Status : RunStatus
  m_Name : CStr
  m_Option : CStr
  m_SelCuteDogName : CStr
  m_EthModel : ETHMODEL
  m_ListView : List FilterItem
  pushed : List CatRequest
deriving DecidableEq

namespace Dialog

/-- The dialog as `CCuteCatDlg` makes it. -/
def new : Dialog where
  m_Status := .RUN_UNKNOW
  m_Name := CStr.lit ""
  m_Option := CStr.lit ""
  m_SelCuteDogName := CStr.lit ""
  m_EthModel := .ETH_LO
  m_ListView := []
  pushed := []

/-- `PushSendStream(SndBuf, 0)` with the text of the request in `SndBuf`. -/
def PushSendStream (r : CatRequest) (d : Dialog) : Dialog := { d with pushed := d.pushed ++ [r] }

/-- The `id` of the `error` in an answer is `OK`. -/
def idOk (x : Option Iks) : Bool :=
  Iks.compare (Iks.findAttrib (Iks.find x (CStr.lit "error")) (CStr.lit "id")) (some (CStr.lit "OK")) = 0

def actionIs (x : Option Iks) (action : String) : Bool :=
  Iks.compare (Iks.findAttrib x (CStr.lit "action")) (some (CStr.lit action)) = 0

def RespLogin (x : Option Iks) (d : Dialog) : Dialog :=
  if idOk x then { d.PushSendStream .filterShow with m_Status := .RUN_AUTHED }
  else { d with m_Status := .RUN_UNAUTH }

def RespFilterNew (x : Option Iks) (d : Dialog) : Dialog :=
  if actionIs x "create" then
    if idOk x then { d with m_Status := .RUN_RUNNING } else { d with m_Status := .RUN_STOP }
  else if actionIs x "cancel" then
    if idOk x then { d with m_Status := .RUN_STOP } else d
  else d

/-- `Msg` has 128 bytes; `%s` writes a NULL pointer as `(null)`. -/
def RespFilterNotice (x : Option Iks) (d : Dialog) : Option Dialog :=
  let name := (Iks.findCdata x (CStr.lit "username")).getD (CStr.lit "(null)")
  if actionIs x "lose" then
    if (CStr.lit "Pioneer [" ++ name ++ CStr.lit "] have exit,so stop now!").chars.length < 128 then
      some { d with m_Status := .RUN_STOP }
    else none
  else some d

def RespCatSetHooker (x : Option Iks) (d : Dialog) : Dialog :=
  if actionIs x "hook" then
    if idOk x then { d with m_Status := .RUN_RUNNING } else { d with m_Status := .RUN_STOP }
  else if actionIs x "cancel" then
    if idOk x then { d with m_Status := .RUN_STOP } else d
  else d

def IOXMLIQ (node : Iks) (d : Dialog) : Option Dialog := do
  let type := Iks.findAttrib (some node) (CStr.lit "type")
  let x := Iks.find (some node) (CStr.lit "query")
  let xmlns := Iks.findAttrib x (CStr.lit "xmlns")
  match ← catIqHandler type xmlns with
  | some .RespLogin => some (d.RespLogin x)
  | some .RespAllFilters =>
      some { d with
        m_ListView := Netflow.RespAllFilters (findSiblings node (CStr.lit "query")) d.m_ListView }
  | some .RespCatSetHooker => some (d.RespCatSetHooker x)
  | some .RespFilterNew => some (d.RespFilterNew x)
  | some .RespFilterNotice => d.RespFilterNotice x
  | none => some d

/-- `IOProcessDogMsg`; the end of a stream counts when the connection is closed (`CLIENT_STOPPED`). -/
def IOProcessDogMsg (stopped : Bool) (d : Dialog) : IksNodeType × Option Iks → Option Dialog
  | (.IKS_NODE_START, _) => some (d.PushSendStream (.login d.m_Name))
  | (.IKS_NODE_NORMAL, some node) =>
      match Iks.packet node with
      | .IKS_PAK_IQ => d.IOXMLIQ node
      | _ => some d
  | (.IKS_NODE_NORMAL, none) => some d
  | (.IKS_NODE_ERROR, _) => some d
  | (.IKS_NODE_STOP, _) => some (if stopped then { d with m_Status := .RUN_UNAUTH } else d)

/-! ## The buttons -/

/-- `strncpy` writes 31 bytes; the constructor has written zeros to `m_Name`. -/
def OnBtnLogin (name : CStr) (d : Dialog) : Dialog :=
  if name.chars.length < 3 then d else { d with m_Name := CStr.strncpy 32 name }

/-- `strncpy` writes 127 bytes; nothing ever writes the last byte of `m_Option`, so a longer option is
not terminated. -/
def OnBtnPioneerStart (option : CStr) (d : Dialog) : Option Dialog :=
  if option.chars.length < 1 then some d
  else if option.chars.length < 127 then
    let d := { d with m_Option := option }
    if d.m_Status = .RUN_AUTHED ∨ d.m_Status = .RUN_STOP then
      some { d.PushSendStream (.newCuteDog d.m_EthModel d.m_Name d.m_Option) with
        m_Status := .RUN_START }
    else some d
  else none

def OnBtnPioneerStop (d : Dialog) : Dialog :=
  { (if d.m_Status = .RUN_RUNNING then d.PushSendStream (.delCuteDog d.m_Name) else d) with
    m_Status := .RUN_STOP }

def OnBtnHookerStart (d : Dialog) : Dialog :=
  if d.m_SelCuteDogName.chars ≠ [] ∧ (d.m_Status = .RUN_AUTHED ∨ d.m_Status = .RUN_STOP) then
    { d.PushSendStream (.hookCuteDog d.m_Name d.m_SelCuteDogName) with m_Status := .RUN_START }
  else d

def OnBtnHookerStop (d : Dialog) : Dialog :=
  if d.m_Status = .RUN_RUNNING then d.PushSendStream (.cancelHook d.m_Name d.m_SelCuteDogName) else d

/-- `nItem` is the row that was clicked; `strcpy` into `m_SelCuteDogName`, which has 32 bytes. -/
def OnClickListView (nItem : Nat) (d : Dialog) : Option Dialog :=
  match d.m_ListView[nItem]? with
  | none => some d
  | some item =>
      let tmpSelDog := item.Name.getD (CStr.lit "")
      if tmpSelDog.chars ≠ [] ∧ d.m_Status ≠ .RUN_RUNNING then
        if tmpSelDog.chars.length < 32 then some { d with m_SelCuteDogName := tmpSelDog } else none
      else some d

def ONEthModel (m_EthModel : ETHMODEL) (d : Dialog) : Dialog := { d with m_EthModel := m_EthModel }

end Dialog

/-- What the user does. -/
inductive Button where
  | login (name : CStr)
  | pioneerStart (option : CStr)
  | pioneerStop
  | hookerStart
  | hookerStop
  | clickListView (nItem : Nat)
  | ethModel (m_EthModel : ETHMODEL)

def Dialog.press (d : Dialog) : Button → Option Dialog
  | .login name => some (d.OnBtnLogin name)
  | .pioneerStart option => d.OnBtnPioneerStart option
  | .pioneerStop => some d.OnBtnPioneerStop
  | .hookerStart => some d.OnBtnHookerStart
  | .hookerStop => some d.OnBtnHookerStop
  | .clickListView nItem => d.OnClickListView nItem
  | .ethModel m_EthModel => some (d.ONEthModel m_EthModel)

/-- A button is pressed, or the parser reports a node of the server's stream. -/
inductive DialogEvent where
  | button (b : Button)
  | msg (stopped : Bool) (node : IksNodeType × Option Iks)

def Dialog.handle (d : Dialog) : DialogEvent → Option Dialog
  | .button b => d.press b
  | .msg stopped node => d.IOProcessDogMsg stopped node

/-! ## What is pushed fits the buffers -/

namespace Dialog

/-- The fields are terminated, and so were those that a request was written from. -/
structure Fits (d : Dialog) : Prop where
  name : d.m_Name.chars.length < 32
  option : d.m_Option.chars.length < 128
  dog : d.m_SelCuteDogName.chars.length < 32
  pushed : ∀ r ∈ d.pushed, r.Fits

variable {d d' : Dialog}

/-- Most handlers leave the fields alone. -/
theorem Fits.same (h : d.Fits) (hname : d'.m_Name = d.m_Name) (hoption : d'.m_Option = d.m_Option)
    (hdog : d'.m_SelCuteDogName = d.m_SelCuteDogName) (hpushed : d'.pushed = d.pushed) : d'.Fits where
  name := hname ▸ h.name
  option := hoption ▸ h.option
  dog := hdog ▸ h.dog
  pushed := hpushed ▸ h.pushed

theorem Fits.push (h : d.Fits) {r : CatRequest} (hr : r.Fits) : (d.PushSendStream r).Fits where
  name := h.name
  option := h.option
  dog := h.dog
  pushed := by
    intro r' hr'
    rcases List.mem_append.mp hr' with hr' | hr'
    · exact h.pushed r' hr'
    · cases List.mem_singleton.mp hr'
      exact hr

theorem Fits.status (h : d.Fits) (m_Status : RunStatus) : { d with m_Status := m_Status }.Fits :=
  h.same rfl rfl rfl rfl

section Handlers

variable (x : Option Iks)

end Handlers

section Buttons

end Buttons

end Dialog

end Netflow
