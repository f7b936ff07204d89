import Netflow.Basic.Base64
import Netflow.Server.Net

set_option autoImplicit false

/-! # The registry of dogs (`cdogEar.c`)

The functions that add, hook, unhook and delete dogs and that send texts to the clients. Their
result is `none` where the code has no defined behaviour (it follows a NULL pointer or a pointer
to freed memory, takes the head of a list for the node of a client) and where it does not return.

A loop over a list of hookers follows the links in memory. The loops that obtain a message cell in
every turn end at the latest when no cell is left, which bounds their turns; the loop that only
reads the links does not end when it makes more turns than there are nodes.
-/

namespace Netflow

/-- The longest payload that is sent whole. -/
def MAX_TCPDATA_SIZE : Nat := 3072

/-- The arguments of `SendTcp2Cats` but the client; `tcpData` is the memory at the pointer. -/
structure Packet where
  source : CStr
  fp : CStr
  dest : CStr
  tp : CStr
  tcpData : List Byte
  size : Nat

/-- The fields `AddCuteDog2List` fills in. -/
def newDog (Handle : PcapHandle) (Thid : PthreadPtr) (Name FilterStr : CStr) (i : Slot) :
    CUTEDOG where
  Name := CStr.strncpy 32 Name
  Filter := CStr.strncpy 256 FilterStr
  Master := i
  Handle := some Handle
  Thid := some Thid

namespace Server

/-- A cell is obtained for a slot, a string pushed into its stream and the cell put; `false` when no
cell is free. -/
def answer (i : Slot) (str : CStr) (s : Server) : Bool × Server :=
  match s.IoGetSendMsgCell i with
  | (none, s) => (false, s)
  | (some pDogMsg, s) => (true, (s.pushString pDogMsg str).IoPutSendMsgCell pDogMsg)

/-! ## The list of filters -/

/-- `Row` for a dog. -/
def filterRow (pCuteDog : CUTEDOG) : CStr :=
  CStr.snprintf 128 (CStr.lit "<name>" ++ pCuteDog.Name ++ CStr.lit "</name><filterstring>" ++
    pCuteDog.Filter ++ CStr.lit "</filterstring>")

/-- `pos` stays 0, so every row is written over the one before. -/
def GetAllCuteDogsFilterString (size : Nat) (s : Server) : Option CStr :=
  s.CuteDogList.foldlM (fun _ d => (s.dogs d).map fun pCuteDog =>
    CStr.snprintf size (filterRow pCuteDog)) (CStr.lit "")

/-- The loop of `CuteDogBroadCast`. It obtains two cells for each client, and the first of them is
not put. -/
def broadcastTo (Body : CStr) : List Slot → Server → Server
  | [], s => s
  | i :: rest, s =>
      match s.IoGetSendMsgCell i with
      | (none, s) => s
      | (some _, s) =>
          match s.answer i Body with
          | (false, s) => s
          | (true, s) => broadcastTo Body rest s

def CuteDogBroadCast (s : Server) : Option Server := do
  let Rows ← s.GetAllCuteDogsFilterString 1024
  let Body :=
    if Rows.chars ≠ [] then
      CStr.snprintf 1152 (CStr.lit "<iq type='result'><query xmlns='filter:show'>" ++ Rows ++
        CStr.lit "</query></iq>")
    else
      CStr.snprintf 1152 (CStr.lit "<iq type='result'><query xmlns='filter:show' ></query></iq>")
  some (broadcastTo Body s.WorkClientList s)

/-! ## Dogs and their hookers -/

/-- The loops over `CuteDogList` that look for a name. -/
def dogNamed (Name : CStr) (s : Server) : List DogPtr → Option (Option DogPtr)
  | [] => some none
  | d :: rest => do
      let pCuteDog ← s.dogs d
      if Name = pCuteDog.Name then some (some d) else dogNamed Name s rest

def CheckNameInList (Name : CStr) (s : Server) : Option Bool :=
  (s.dogNamed Name s.CuteDogList).map Option.isSome

/-- `pClientInfo->CuteDog = …`. -/
def setCuteDog (i : Slot) (CuteDog : Option DogPtr) (s : Server) : Server :=
  s.setClient i fun ci => { ci with CuteDog := CuteDog }

def AddHooker2CuteDog (CuteDogName : Option CStr) (i : Slot) (s : Server) :
    Option (Bool × Server) :=
  match CuteDogName with
  | none => some (false, s)
  | some CuteDogName => do
      match ← s.dogNamed CuteDogName s.CuteDogList with
      | none => some (false, s)
      | some d =>
          -- the node may be in a list already
          let links ← list_add s.links (.list1 i) (.ListHooker d)
          some (true, { s with links := links }.setCuteDog i (some d))

/-- The walk of `DelHookerInCuteDog` over the hookers of one dog, from the node `pos` on: whether it
meets the node of the client. -/
def meets (mem : LinkMem HookNode) (head : HookNode) (i : Slot) : Nat → HookNode → Option Bool
  | 0, _ => none
  | turns + 1, pos => do
      let l ← mem pos
      if pos = head then some false
      else if pos = .list1 i then some true
      else meets mem head i turns (← l.next)

/-- The loop of `DelHookerInCuteDog` over the dogs: whether the node of the client is met. -/
def hookerMet (i : Slot) (s : Server) : List DogPtr → Option Bool
  | [] => some false
  | d :: rest => do
      let _ ← s.dogs d
      let head ← s.links (.ListHooker d)
      if ← list_notempty s.links (.ListHooker d) then
        if ← meets s.links (.ListHooker d) i (CLIENTNUM + s.CuteDogList.length) (← head.next) then
          some true
        else hookerMet i s rest
      else hookerMet i s rest

def DelHookerInCuteDog (i : Slot) (s : Server) : Option (Bool × Server) := do
  if ← s.hookerMet i s.CuteDogList then
    let links ← list_del s.links (.list1 i)
    some (true, { s with links := links })
  else some (false, s)

/-- `message` of `DelHookersWithCuteDog`. -/
def loseNotice (pCuteDog : CUTEDOG) : CStr :=
  CStr.snprintf 512 (CStr.lit "<iq type='set'><query xmlns='filter:notice' action='lose'><username>" ++
    pCuteDog.Name ++ CStr.lit "</username></query></iq>")

/-- The loop of `DelHookersWithCuteDog`, from the node `pos` on; `next` was read before. -/
def dropHookers (d : DogPtr) (message : CStr) :
    Nat → HookNode → Option HookNode → Server → Option (Bool × Server)
  | 0, _, _, _ => none
  | turns + 1, pos, next, s =>
      if pos = .ListHooker d then some (true, s)
      else match pos with
        -- `list_entry` of a head is no client
        | .ListHooker _ => none
        | .list1 j =>
            match s.answer j message with
            | (false, s) => some (false, s)
            | (true, s) => do
                -- `list_for_each_safe`: the next node was read before this one is taken out
                let links ← list_del s.links (.list1 j)
                let pos ← next
                let l ← links pos
                dropHookers d message turns pos l.next { s with links := links }

def DelHookersWithCuteDog (d : DogPtr) (s : Server) : Option (Bool × Server) := do
  let pCuteDog ← s.dogs d
  let head ← s.links (.ListHooker d)
  if ← list_notempty s.links (.ListHooker d) then
    let pos ← head.next
    let l ← s.links pos
    dropHookers d (loseNotice pCuteDog) (s.pFifoDogMsgFree.count + 1) pos l.next s
  else some (true, s)

/-- `list_del(&pCuteDog->list)`, `free(pCuteDog)` and the client's pointer to it cleared. -/
def freeDog (d : DogPtr) (i : Slot) (s : Server) : Server :=
  { s with
    CuteDogList := s.CuteDogList.erase d
    dogs := Function.update s.dogs d none
    links := Function.update s.links (.ListHooker d) none }.setCuteDog i none

def DelCuteDogInList (i : Slot) (s : Server) : Option (Bool × Server) :=
  match (s.ClientInfo i).CuteDog with
  | none => some (false, s)
  | some d => do
      -- what it returns is not looked at: the dog is freed with hookers left when the cells ran out
      let (_, s) ← s.DelHookersWithCuteDog d
      if d ∈ s.CuteDogList then some (true, s.freeDog d i) else none

/-- The rest of `AddCuteDog2List` on the block `malloc` returned. -/
def listDog (d : DogPtr) (tmpCuteDog : CUTEDOG) (i : Slot) (s : Server) : Server :=
  { s with
    CuteDogList := d :: s.CuteDogList
    dogs := Function.update s.dogs d (some tmpCuteDog)
    links := INIT_LIST_HEAD s.links (.ListHooker d) }.setCuteDog i (some d)

/-- `d` is the address `malloc` returns; it returns none that is given out already. -/
def AddCuteDog2List (Handle : Option PcapHandle) (Thid : PthreadPtr) (Name : Option CStr)
    (FilterStr : CStr) (i : Slot) (d : DogPtr) (s : Server) : Option (Option DogPtr × Server) :=
  match Handle with
  | none => some (none, s)
  | some Handle => do
      let Name ← Name
      if (s.dogs d).isSome then none
      else some (some d, s.listDog d (newDog Handle Thid Name FilterStr i) i)

/-! ## Captured packets -/

/-- `message` of `SendTcp2Cats`. -/
def packetMessage (p : Packet) (size1 iMsgNumID : Nat) (pEnBody : CStr) : CStr :=
  CStr.snprintf (4096 + 512)
    (CStr.lit "<message from='" ++ p.source ++ CStr.lit "' fp='" ++ p.fp ++ CStr.lit "' to='" ++
      p.dest ++ CStr.lit "' tp='" ++ p.tp ++ CStr.lit "'><body size='" ++ CStr.percentD size1 ++
      CStr.lit "' rawsize='" ++ CStr.percentD p.size ++ CStr.lit "' sn='" ++
      CStr.percentD iMsgNumID ++ CStr.lit "'>" ++ pEnBody ++ CStr.lit "</body></message>")

/-- The loop of `SendTcp2Cats` over the hookers of a dog, from the node `pos` on. -/
def fanOut (d : DogPtr) (message : CStr) : Nat → HookNode → Server → Option (Bool × Server)
  | 0, _, _ => none
  | turns + 1, pos, s =>
      if pos = .ListHooker d then some (true, s)
      else match pos with
        | .ListHooker _ => none
        | .list1 j =>
            match s.answer j message with
            | (false, s) => some (false, s)
            | (true, s) => do
                let l ← s.links pos
                fanOut d message turns (← l.next) s

/-- The end of `SendTcp2Cats`: the message for the hookers of the client's dog. -/
def sendToHookers (i : Slot) (message : CStr) (s : Server) : Option (Bool × Server) := do
  let d ← (s.ClientInfo i).CuteDog
  let head ← s.links (.ListHooker d)
  if ← list_notempty s.links (.ListHooker d) then
    fanOut d message (s.pFifoDogMsgFree.count + 1) (← head.next) s
  else some (true, s)

def SendTcp2Cats (p : Packet) (i : Slot) (s : Server) : Option (Bool × Server) :=
  match s.IoGetSendMsgCell i with
  | (none, s) => some (false, s)
  | (some pDogMsg, s) => do
      let size1 := if MAX_TCPDATA_SIZE < p.size then MAX_TCPDATA_SIZE else p.size
      -- the cell is taken by now
      let pEnBody ← base64_encode p.tcpData size1
      let s := s.setClient i fun ci => { ci with iMsgNumID := (ci.iMsgNumID + 1) % 4294967296 }
      let message := packetMessage p size1 (s.ClientInfo i).iMsgNumID pEnBody
      let s := (s.pushString pDogMsg message).IoPutSendMsgCell pDogMsg
      s.sendToHookers i message

end Server

end Netflow
