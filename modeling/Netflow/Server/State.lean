import Netflow.Basic.Config
import Netflow.Fifo.Basic
import Netflow.Links.Basic
import Netflow.Stream.Basic
import Mathlib.Data.Fintype.Basic

set_option autoImplicit false

/-! # The server's state

The globals of `cdogEar.c` and `cdogNose.c`, the client slots, the message cells and the dogs. A
pointer to a client slot or to a message cell is its index in the array it points into; a pointer
to a dog is an address (`DogPtr`) and `dogs` says which addresses `malloc` has given out and `free`
has not taken back.

`FreeClientList`, `WorkClientList`, `CuteDogList` and every `ListSendMsg` are lists of pointers:
each of their nodes is in one list at a time. The lists of hookers are kept as links in memory
(`links`), since there the code links nodes that may be linked already.

The last group of fields is not read by the program. `threads` and `opened` are what the operating
system and `libpcap` know of the running captures, `heap` is the answer of the allocator to the next
`realloc` for the stream of each cell, and `hist` records what was obtained, put, picked up and sent.
-/

namespace Netflow

/-- A `PCLIENTINFO`, an index into `ClientInfo`. -/
abbrev Slot := Fin CLIENTNUM

/-- A `PDOG2CATIOMSG`, an index into `pDog2CatIOMsgForFree`. -/
abbrev MsgCell := Fin (DOG2CATIOMSGNUM - 1)

instance : LawfulBEq Slot := inferInstance

instance : LawfulBEq MsgCell := inferInstance

instance : NeZero CLIENTNUM := ⟨by decide⟩

instance : NeZero (DOG2CATIOMSGNUM - 1) := ⟨by decide⟩

theorem CLIENTNUM_pos : 0 < CLIENTNUM := NeZero.pos CLIENTNUM

/-- A `PCUTEDOG` other than NULL. -/
abbrev DogPtr := Nat

/-- A `pcap_t *` other than NULL. -/
abbrev PcapHandle := Nat

/-- A `pthread_t`. -/
abbrev ThreadId := Nat

inductive CLIENTSOCKETSTATUS where
  | STATUS_SOCKET_CLOSED
  | STATUS_SOCKET_CONNECT
deriving DecidableEq

/-- The values `lStatus` takes. The code also stores `STATUS_SOCKET_CLOSED` in it, which is the
number of `STATUS_UNKNOWN`. -/
inductive CLIENTSTATUS where
  | STATUS_UNKNOWN
  | STATUS_IOCMDCLOSE
  | STATUS_IOCLOSEED
deriving DecidableEq

inductive CLIENTTYPE where
  | CLIENT_UNKNOWN
  | CLIENT_USER_PIONEER
  | CLIENT_USER_HOOKER
deriving DecidableEq

/-- A node of a list of hookers: the `list1` of a client, or the head in a dog. -/
inductive HookNode where
  | list1 (c : Slot)
  | ListHooker (d : DogPtr)
deriving DecidableEq

/-- `struct tagCLIENTINFO` without its list nodes and the fields that are only logged. `Prs` says
whether the parser is there; `pSndData` is a cell and an offset into the block of its stream. -/
structure CLIENTINFO where
  lType : CLIENTTYPE
  lStatus : CLIENTSTATUS
  lSocketStatus : CLIENTSOCKETSTATUS
  Prs : Bool
  Socket : Nat
  iSessionID : Nat
  iMsgNumID : Nat
  iCurSendLen : Nat
  pSndData : Option (MsgCell × Nat)
  pCurSendMsg : Option MsgCell
  ListSendMsg : List MsgCell
  CuteDog : Option DogPtr

/-- `DOG2CATIOMSG`. -/
structure DOG2CATIOMSG where
  iSessionID : Nat
  pClientInfo : Slot
  hStream : Stream

/-- The global a dog's `Thid` points to: `StartDogNose` stores `&tidp` in every dog. -/
inductive PthreadPtr where
  | tidp
deriving DecidableEq

/-- `struct tagCUTEDOG` without its list nodes. -/
structure CUTEDOG where
  Name : CStr
  Filter : CStr
  Master : Slot
  Handle : Option PcapHandle
  Thid : Option PthreadPtr

/-- The decoders `FunCallBack` points to. -/
inductive CallBack where
  | udp_ethernet_protocol_packet_callback
  | tcp_ethernet_protocol_packet_callback
deriving DecidableEq

/-- A capture thread: its id, the handle it loops on, the dog it was started for and the client its
callback is given. -/
structure Capture where
  tid : ThreadId
  handle : PcapHandle
  dog : DogPtr
  pClientInfo : Slot
deriving DecidableEq

/-- A message from the moment its cell is obtained: the slot it is for, the session and the
connection the slot had then (connection `0` is none), and the text put into it. -/
structure Msg where
  id : Nat
  slot : Slot
  session : Nat
  conn : Nat
  text : CStr
deriving DecidableEq

/-- A message picked up for sending, with what the slot was at that moment. -/
structure PickedUp where
  slot : Slot
  session : Nat
  conn : Nat
  msg : Msg
deriving DecidableEq

/-- What happened so far. `accepted` counts the accepted connections and `conn` is the number of
the connection a slot serves; `msg` is the message a cell was last obtained for; `put`, `picked`
and `sent` are in order; `pushed` are the results of `FifoPush` that the macro `FIFOPUSH` drops. -/
structure History where
  accepted : Nat
  conn : Slot → Nat
  msg : MsgCell → Msg
  obtained : Nat
  put : List Msg
  picked : List PickedUp
  sent : List (Nat × List Byte)
  pushed : List Ret

structure Server where
  ClientInfo : Slot → CLIENTINFO
  FreeClientList : List Slot
  WorkClientList : List Slot
  CuteDogList : List DogPtr
  dogs : DogPtr → Option CUTEDOG
  links : LinkMem HookNode
  cells : MsgCell → DOG2CATIOMSG
  pFifoDogMsg : FifoRing MsgCell
  pFifoDogMsgFree : FifoRing MsgCell
  iSessionID : Nat
  FunCallBack : CallBack
  pcap_handle : Option PcapHandle
  tidp : ThreadId
  threads : List Capture
  opened : List PcapHandle
  heap : MsgCell → Answer
  hist : History

/-- `pClientInfo->… = …`. -/
def Server.setClient (s : Server) (i : Slot) (f : CLIENTINFO → CLIENTINFO) : Server :=
  { s with ClientInfo := Function.update s.ClientInfo i (f (s.ClientInfo i)) }

/-- `FIFOPUSH(pFifoDogMsgFree, c)`. -/
def Server.pushFree (s : Server) (c : MsgCell) : Server :=
  let r := FifoPush s.pFifoDogMsgFree c
  { s with
    pFifoDogMsgFree := r.2
    hist := { s.hist with pushed := s.hist.pushed ++ [r.1] } }

/-- `FIFOPUSH(pFifoDogMsg, c)`. -/
def Server.pushMsg (s : Server) (c : MsgCell) : Server :=
  let r := FifoPush s.pFifoDogMsg c
  { s with
    pFifoDogMsg := r.2
    hist := { s.hist with pushed := s.hist.pushed ++ [r.1] } }

/-! ## `InitServer` -/

/-- A slot after `memset` and before its first connection. -/
def CLIENTINFO.zero : CLIENTINFO where
  lType := .CLIENT_UNKNOWN
  lStatus := .STATUS_UNKNOWN
  lSocketStatus := .STATUS_SOCKET_CLOSED
  Prs := false
  Socket := 0
  iSessionID := 0
  iMsgNumID := 0
  iCurSendLen := 0
  pSndData := none
  pCurSendMsg := none
  ListSendMsg := []
  CuteDog := none

/-- A ring as `FifoNew(DOG2CATIOMSGNUM)` returns it. -/
def newRing : FifoRing MsgCell :=
  FifoNew DOG2CATIOMSGNUM (by decide) (fun _ => ⟨0, by decide⟩)

theorem contents_newRing : newRing.contents = [] := contents_FifoNew _ _

/-- The loop that pushes the first `n` cells into `pFifoDogMsgFree`, with the results of the
pushes. -/
def fillFree : (n : Nat) → n ≤ DOG2CATIOMSGNUM - 1 → FifoRing MsgCell × List Ret
  | 0, _ => (newRing, [])
  | n + 1, h =>
      let done := fillFree n (by omega)
      let r := FifoPush done.1 ⟨n, h⟩
      (r.2, done.2 ++ [r.1])

/-- The server once its slots, cells and rings are set up and `filled` is what the loop that fills
`pFifoDogMsgFree` did. All slots are free (each `list_add` puts the next slot first) and there is
no dog. `align` gives the addresses of the streams' blocks modulo 16. -/
def initialServer (align : MsgCell → Nat) (filled : FifoRing MsgCell × List Ret) : Server where
  ClientInfo _ := CLIENTINFO.zero
  FreeClientList := (List.finRange CLIENTNUM).reverse
  WorkClientList := []
  CuteDogList := []
  dogs _ := none
  links
    | .list1 _ => some { next := none, prev := none }
    | .ListHooker _ => none
  cells c := { iSessionID := 0, pClientInfo := ⟨0, by decide⟩,
               hStream := init_stream (align c) MSGINITSIZE }
  pFifoDogMsg := newRing
  pFifoDogMsgFree := filled.1
  iSessionID := 0
  FunCallBack := .tcp_ethernet_protocol_packet_callback
  pcap_handle := none
  tidp := 0
  threads := []
  opened := []
  heap := fun _ => none
  hist := { accepted := 0, conn := fun _ => 0,
            msg := fun _ => { id := 0, slot := ⟨0, by decide⟩, session := 0, conn := 0,
                              text := CStr.lit "" },
            obtained := 0, put := [], picked := [], sent := [],
            pushed := filled.2 }

/-- `InitServer`: every message cell is pushed into `pFifoDogMsgFree`. -/
def InitServer (align : MsgCell → Nat) : Server :=
  initialServer align (fillFree (DOG2CATIOMSGNUM - 1) (Nat.le_refl _))

/-- The rings never change their length. -/
theorem length_FifoPush {α : Type} (f : FifoRing α) (x : α) : (FifoPush f x).2.length = f.length := by
  rw [FifoPush]
  split <;> rfl

/-- The loop of `InitServer` fills the ring with the cells in order, and no push is refused. -/
theorem fillFree_spec (n : Nat) (h : n ≤ DOG2CATIOMSGNUM - 1) :
    (fillFree n h).1.length = DOG2CATIOMSGNUM ∧
      (fillFree n h).1.contents.map Fin.val = List.range n ∧
      ∀ r ∈ (fillFree n h).2, r = .RET_OK := by
  induction n with
  | zero =>
      refine ⟨rfl, ?_, fun r hr => by cases hr⟩
      simp only [fillFree, newRing, contents_FifoNew, List.map_nil, List.range_zero]
  | succ n ih =>
      obtain ⟨hlen, hmap, hok⟩ := ih (by omega)
      have hcount : (fillFree n (by omega)).1.count = n := by
        rw [← FifoRing.length_contents, ← List.length_map (f := Fin.val), hmap, List.length_range]
      obtain ⟨h1, h2, h3⟩ := FifoPush_of_room (f := (fillFree n (by omega)).1)
        (⟨n, h⟩ : MsgCell) (by omega)
      refine ⟨h3.trans hlen, ?_, ?_⟩
      · show (FifoPush _ _).2.contents.map Fin.val = _
        rw [h2, List.map_append, hmap, List.range_succ]
        rfl
      · intro r hr
        rcases List.mem_append.mp hr with hr | hr
        · exact hok r hr
        · rw [List.mem_singleton.mp hr]
          exact h1

-- the loop has 4095 turns: nothing below should run it
attribute [irreducible] fillFree

end Netflow
