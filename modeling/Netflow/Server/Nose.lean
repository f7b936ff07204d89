import Netflow.Server.Hook

set_option autoImplicit false

/-! # Starting and stopping a capture (`cdogNose.c`)

What `libpcap`, `malloc` and the thread library answer while one request is handled is an
`Outcome`. A new handle is none that is open already, and a new thread has no id of a thread that
runs; an outcome that says otherwise makes no step (`none`), like undefined behaviour.
-/

namespace Netflow

/-- The interface a capture is opened on: `"lo"`, or what `pcap_lookupdev` returns. -/
inductive NetInterface where
  | lo
  | pcap_lookupdev
deriving DecidableEq

/-- The answers from outside: `malloc` is the address of the new dog, `pthread_create` the id of the
new thread when it succeeds. -/
structure Outcome where
  pcap_open_live : NetInterface → Option PcapHandle
  pcap_setfilter : Int
  pcap_datalink : Int
  malloc : DogPtr
  pthread_create : Option ThreadId
  pthread_cancel : Int

def DLT_EN10MB : Int := 1

/-- `net_interface` for a model. -/
def netInterface (model : Nat) : NetInterface := if model = 0 then .lo else .pcap_lookupdev

namespace Server

def SetCapFilter (Handle : Option PcapHandle) (i : Slot) (o : Outcome) (s : Server) :
    Bool × Server :=
  match Handle with
  | none => (false, s)
  | some _ =>
      if o.pcap_setfilter = 0 then
        s.answer i (CStr.lit
          "<iq type='result'><query xmlns='filter:new' action='create'><error id='OK' content=''/></query></iq>")
      else
        (false, (s.answer i (CStr.lit
          "<iq type='result'><query xmlns='filter:new' action='create'><error id='401' content='set failed'/></query></iq>")).2)

/-- The choice of the decoder: the second assignment stands outside the `if`. -/
def setCallBack (FilterStr : CStr) (s : Server) : Server :=
  let s :=
    if FilterStr.contains (CStr.lit "udp") then
      { s with FunCallBack := .udp_ethernet_protocol_packet_callback }
    else s
  -- no `else`: the decoder for udp is overwritten
  { s with FunCallBack := .tcp_ethernet_protocol_packet_callback }

/-- `pcap_handle = pcap_open_live(net_interface, …)`. -/
def openLive (handle : Option PcapHandle) (s : Server) : Option Server :=
  match handle with
  | none => some { s with pcap_handle := none }
  | some h =>
      if h ∈ s.opened then none
      else some { s with pcap_handle := some h, opened := h :: s.opened }

/-- A capture thread from its start to its call of `pcap_loop`. -/
def StartDogNoseThread (tid : ThreadId) (d : DogPtr) (s : Server) : Option Server := do
  let pCuteDog ← s.dogs d
  match pCuteDog.Handle with
  | none => some s
  | some Handle =>
      some { s with
        threads := { tid := tid, handle := Handle, dog := d, pClientInfo := pCuteDog.Master } ::
          s.threads }

/-- `pthread_create(&tidp, NULL, StartDogNoseThread, pCuteDog)` that succeeds. -/
def createThread (tid : ThreadId) (d : DogPtr) (s : Server) : Option Server :=
  if tid ∈ s.threads.map Capture.tid then none
  else { s with tidp := tid }.StartDogNoseThread tid d

def StartDogNose (FilterStr : CStr) (Name : Option CStr) (i : Slot) (model : Nat) (o : Outcome)
    (s : Server) : Option (Int × Server) := do
  let s := s.setCallBack FilterStr
  let s ← s.openLive (o.pcap_open_live (netInterface model))
  match s.SetCapFilter s.pcap_handle i o with
  | (false, s) => some (0, s)
  | (true, s) =>
      -- the handle stays open from here on, whatever is returned
      if o.pcap_datalink ≠ DLT_EN10MB then some (0, s)
      else
        match ← s.AddCuteDog2List s.pcap_handle .tidp Name FilterStr i o.malloc with
        | (none, s) => some (-1, s)
        | (some pCuteDog, s) =>
            match o.pthread_create with
            -- the dog stays listed
            | none => some (0, s)
            | some tid => do
                let s ← s.createThread tid pCuteDog
                some (1, s)

/-- `pcap_close`. -/
def pcap_close (h : PcapHandle) (s : Server) : Option Server :=
  if h ∈ s.opened then some { s with opened := s.opened.erase h } else none

/-- `pthread_cancel(*Thid)` with the result `Ret`. -/
def pthread_cancel (Thid : PthreadPtr) (Ret : Int) (s : Server) : Server :=
  match Thid with
  | .tidp =>
      if Ret = 0 then { s with threads := s.threads.filter fun t => t.tid ≠ s.tidp } else s

/-- `pCuteDog->Handle = NULL`. -/
def clearHandle (d : DogPtr) (pCuteDog : CUTEDOG) (s : Server) : Server :=
  { s with dogs := Function.update s.dogs d (some { pCuteDog with Handle := none }) }

/-- The cancellation of the thread of a dog whose handle was closed. -/
def stopCapture (d : DogPtr) (pCuteDog : CUTEDOG) (Thid : PthreadPtr) (Ret : Int) (s : Server) :
    Server :=
  let s := s.pthread_cancel Thid Ret
  if Ret ≠ 0 then s else s.clearHandle d pCuteDog

/-- `Body` of `StopDogNose`. -/
def stopAnswer (Ret : Int) : CStr :=
  CStr.snprintf 512 (CStr.lit (
    if Ret ≠ 0 then
      "<iq type='result'><query xmlns='filter:new' action='cancel'><error id='401'/></query></iq>"
    else
      "<iq type='result'><query xmlns='filter:new' action='cancel'><error id='OK' content=''/></query></iq>"))

def StopDogNose (i : Slot) (o : Outcome) (s : Server) : Option (Int × Server) :=
  match (s.ClientInfo i).CuteDog with
  | none => some (0, s)
  | some d => do
      let pCuteDog ← s.dogs d
      match pCuteDog.Handle with
      | none => some (0, s)
      | some Handle =>
          -- closed first, and not opened again when the cancel fails
          let s ← s.pcap_close Handle
          let Thid ← pCuteDog.Thid
          let Ret := o.pthread_cancel
          match (s.stopCapture d pCuteDog Thid Ret).answer i (stopAnswer Ret) with
          -- no cell for the answer
          | (false, s) => some (0, s)
          | (true, s) => some (Ret, s)

/-! ## How they return -/

/-- The server in which `SetCapFilter` is called, once the capture was opened. -/
def withHandle (F : CStr) (h : PcapHandle) (s : Server) : Server :=
  { s.setCallBack F with pcap_handle := some h, opened := h :: s.opened }

/-- A capture thread was created for a dog. -/
def withThread (t : Capture) (s : Server) : Server :=
  { s with tidp := t.tid, threads := t :: s.threads }

/-- The ways `StartDogNose` returns. -/
inductive NoseStarted (F : CStr) (N : Option CStr) (i : Slot) (m : Nat) (o : Outcome) (s : Server) :
    Int → Server → Prop where
  | notOpened :
      o.pcap_open_live (netInterface m) = none →
      NoseStarted F N i m o s 0 { s.setCallBack F with pcap_handle := none }
  | refused {h : PcapHandle} {b : Bool} {s₂ : Server} :
      o.pcap_open_live (netInterface m) = some h → h ∉ s.opened →
      (s.withHandle F h).SetCapFilter (some h) i o = (b, s₂) →
      (b = false ∨ o.pcap_datalink ≠ DLT_EN10MB) → NoseStarted F N i m o s 0 s₂
  | noThread {h : PcapHandle} {n : CStr} {s₂ : Server} :
      o.pcap_open_live (netInterface m) = some h → h ∉ s.opened →
      (s.withHandle F h).SetCapFilter (some h) i o = (true, s₂) →
      o.pcap_datalink = DLT_EN10MB → N = some n → s₂.dogs o.malloc = none →
      o.pthread_create = none →
      NoseStarted F N i m o s 0 (s₂.listDog o.malloc (newDog h .tidp n F i) i)
  | started {h : PcapHandle} {n : CStr} {s₂ : Server} {tid : ThreadId} :
      o.pcap_open_live (netInterface m) = some h → h ∉ s.opened →
      (s.withHandle F h).SetCapFilter (some h) i o = (true, s₂) →
      o.pcap_datalink = DLT_EN10MB → N = some n → s₂.dogs o.malloc = none →
      o.pthread_create = some tid → tid ∉ s₂.threads.map Capture.tid →
      NoseStarted F N i m o s 1 ((s₂.listDog o.malloc (newDog h .tidp n F i) i).withThread
        { tid := tid, handle := h, dog := o.malloc, pClientInfo := i })

theorem opened_setCallBack (s : Server) (F : CStr) : (s.setCallBack F).opened = s.opened := by
  unfold setCallBack
  split
  · rfl
  · rfl

theorem openLive_eq_some {s s' : Server} {handle : Option PcapHandle}
    (h : s.openLive handle = some s') :
    (handle = none ∧ s' = { s with pcap_handle := none }) ∨
      ∃ k, handle = some k ∧ k ∉ s.opened ∧
        s' = { s with pcap_handle := some k, opened := k :: s.opened } := by
  unfold openLive at h
  split at h
  · cases h
    exact Or.inl ⟨rfl, rfl⟩
  · split at h
    · cases h
    · next hfresh =>
        cases h
        exact Or.inr ⟨_, rfl, hfresh, rfl⟩

theorem AddCuteDog2List_eq_some {s s' : Server} {h : PcapHandle} {Thid : PthreadPtr}
    {Name : Option CStr} {F : CStr} {i : Slot} {d : DogPtr} {r : Option DogPtr}
    (hadd : s.AddCuteDog2List (some h) Thid Name F i d = some (r, s')) :
    ∃ n, Name = some n ∧ s.dogs d = none ∧ r = some d ∧
      s' = s.listDog d (newDog h Thid n F i) i := by
  simp only [AddCuteDog2List, Option.bind_eq_bind, Option.bind_eq_some_iff] at hadd
  obtain ⟨n, hN, hadd⟩ := hadd
  split at hadd
  · cases hadd
  · next hfree =>
      cases hadd
      exact ⟨n, hN, by simpa using hfree, rfl, rfl⟩

theorem createThread_eq_some {s s' : Server} {tid : ThreadId} {d : DogPtr} {dog : CUTEDOG}
    {h : PcapHandle} (hcreate : s.createThread tid d = some s') (hdog : s.dogs d = some dog)
    (hhandle : dog.Handle = some h) :
    tid ∉ s.threads.map Capture.tid ∧
      s' = s.withThread { tid := tid, handle := h, dog := d, pClientInfo := dog.Master } := by
  unfold createThread at hcreate
  split at hcreate
  · cases hcreate
  · next hfresh =>
      simp only [StartDogNoseThread, hdog, hhandle, Option.bind_eq_bind, Option.bind_some] at hcreate
      cases hcreate
      exact ⟨hfresh, rfl⟩

theorem pcap_handle_SetCapFilter (s : Server) (Handle : Option PcapHandle) (i : Slot) (o : Outcome) :
    (s.SetCapFilter Handle i o).2.pcap_handle = s.pcap_handle := by
  have hanswer : ∀ str, (s.answer i str).2.pcap_handle = s.pcap_handle := by
    intro str
    rw [answer, IoGetSendMsgCell]
    cases FifoPop s.pFifoDogMsgFree with
    | none => rfl
    | some r => rfl
  unfold SetCapFilter
  split
  · rfl
  · split
    · exact hanswer _
    · exact hanswer _

/-- **Inversion of `StartDogNose`.** -/
theorem StartDogNose_eq_some {s s' : Server} {F : CStr} {N : Option CStr} {i : Slot} {m : Nat}
    {o : Outcome} {ret : Int} (h : s.StartDogNose F N i m o = some (ret, s')) :
    NoseStarted F N i m o s ret s' := by
  simp only [StartDogNose, Option.bind_eq_bind, Option.bind_eq_some_iff] at h
  obtain ⟨s₁, hopen, h⟩ := h
  obtain ⟨hnone, rfl⟩ | ⟨k, hk, hfresh, rfl⟩ := openLive_eq_some hopen
  · cases h
    exact .notOpened hnone
  · rw [opened_setCallBack] at hfresh hopen h
    have hhandle := pcap_handle_SetCapFilter (s.withHandle F k) (some k) i o
    split at h
    · next s₂ heq =>
        cases h
        exact .refused hk hfresh heq (Or.inl rfl)
    · next s₂ heq =>
        have hset : (s.withHandle F k).SetCapFilter (some k) i o = (true, s₂) := heq
        rw [hset] at hhandle
        have hstored : s₂.pcap_handle = some k := hhandle
        split at h
        · next hlink =>
            cases h
            exact .refused hk hfresh hset (Or.inr hlink)
        · next hlink =>
            simp only [Option.bind_eq_some_iff] at h
            obtain ⟨⟨r, s₃⟩, hadd, h⟩ := h
            rw [hstored] at hadd
            obtain ⟨n, rfl, hnew, rfl, rfl⟩ := AddCuteDog2List_eq_some hadd
            cases hcreate : o.pthread_create with
            | none =>
                rw [hcreate] at h
                cases h
                exact .noThread hk hfresh hset (not_not.mp hlink) rfl hnew hcreate
            | some tid =>
                simp only [hcreate, Option.bind_eq_some_iff] at h
                obtain ⟨s₄, hthread, h⟩ := h
                cases h
                have hdog : (s₂.listDog o.malloc (newDog k .tidp n F i) i).dogs o.malloc =
                    some (newDog k .tidp n F i) := Function.update_self ..
                obtain ⟨htid, rfl⟩ := createThread_eq_some hthread hdog rfl
                exact .started hk hfresh hset (not_not.mp hlink) rfl hnew hcreate htid

theorem pcap_close_eq_some {s s' : Server} {h : PcapHandle} (hclose : s.pcap_close h = some s') :
    h ∈ s.opened ∧ s' = { s with opened := s.opened.erase h } := by
  unfold pcap_close at hclose
  split at hclose
  · next hopen =>
      cases hclose
      exact ⟨hopen, rfl⟩
  · cases hclose

/-- **Inversion of `StopDogNose`**: a client without a dog, a dog without a handle, or a stopped
capture and its answer. -/
theorem StopDogNose_eq_some {s s' : Server} {i : Slot} {o : Outcome} {Ret : Int}
    (h : s.StopDogNose i o = some (Ret, s')) :
    ((s.ClientInfo i).CuteDog = none ∧ s' = s) ∨
      ∃ d dog, (s.ClientInfo i).CuteDog = some d ∧ s.dogs d = some dog ∧
        ((dog.Handle = none ∧ s' = s) ∨
          ∃ k Thid, dog.Handle = some k ∧ k ∈ s.opened ∧
            s' = (({ s with opened := s.opened.erase k }.stopCapture d dog Thid
              o.pthread_cancel).answer i (stopAnswer o.pthread_cancel)).2) := by
  unfold StopDogNose at h
  split at h
  · next hnone =>
      cases h
      exact Or.inl ⟨hnone, rfl⟩
  · next d hd =>
      simp only [Option.bind_eq_bind, Option.bind_eq_some_iff] at h
      obtain ⟨dog, hdog, h⟩ := h
      refine Or.inr ⟨d, dog, hd, hdog, ?_⟩
      cases hhandle : dog.Handle with
      | none =>
          rw [hhandle] at h
          cases h
          exact Or.inl ⟨rfl, rfl⟩
      | some k =>
          simp only [hhandle, Option.bind_eq_some_iff] at h
          obtain ⟨s₁, hclose, Thid, -, h⟩ := h
          obtain ⟨hopen, rfl⟩ := pcap_close_eq_some hclose
          refine Or.inr ⟨k, Thid, rfl, hopen, ?_⟩
          split at h
          · next heq =>
              cases h
              rw [heq]
          · next heq =>
              cases h
              rw [heq]

end Server

end Netflow
