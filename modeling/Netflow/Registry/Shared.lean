import Netflow.Registry.Progress

set_option autoImplicit false

/-! # A dog that two clients point to

Two clients connect, the first creates a filter and the second hooks it: then `CuteDog` of both
points to the same dog. With the requests given as element trees this is a run of the server, in
which every call of `libpcap` and of the thread library succeeds and message cells stay free.
-/

namespace Netflow

/-- Every call of `libpcap` and of the thread library succeeds. -/
structure Outcome.Succeeds (o : Outcome) : Prop where
  live : ∀ net, (o.pcap_open_live net).isSome = true
  filter : o.pcap_setfilter = 0
  link : o.pcap_datalink = DLT_EN10MB
  create : o.pthread_create.isSome = true
  cancel : o.pthread_cancel = 0

/-- The answers from outside that an operation gets. -/
def outcomeOf {ι : Type} : ServerAction ι → Option Outcome
  | .stanza _ _ _ o => some o
  | .shutdown _ o => some o
  | _ => none

/-- The guard: every call from outside succeeds, and a message cell is still free afterwards, so that
every cell that was asked for was obtained. -/
def Succeeding {ι : Type} [Iksemel ι] (s : Server) (a : ServerAction ι) : Prop :=
  (∀ o, outcomeOf a = some o → o.Succeeds) ∧
    ∀ s', serverStep s a = some s' → Registry.CellFree s'

/-- The answers of a machine on which everything works. -/
def Outcome.allSucceed : Outcome where
  pcap_open_live _ := some 0
  pcap_setfilter := 0
  pcap_datalink := DLT_EN10MB
  malloc := 0
  pthread_create := some 1
  pthread_cancel := 0

/-- The answers of a machine on which everything works, for a second capture. -/
def Outcome.second : Outcome where
  pcap_open_live _ := some 1
  pcap_setfilter := 0
  pcap_datalink := DLT_EN10MB
  malloc := 1
  pthread_create := some 2
  pthread_cancel := 0

theorem Outcome.allSucceed_succeeds : Outcome.allSucceed.Succeeds := ⟨fun _ => rfl, rfl, rfl, rfl, rfl⟩

theorem Outcome.Succeeds.captures {o : Outcome} (ho : o.Succeeds) (m : Nat) :
    ∃ h, o.captures m h := by
  obtain ⟨h, hh⟩ := Option.isSome_iff_exists.mp (ho.live (netInterface m))
  exact ⟨h, hh, ho.filter, ho.link⟩

theorem count_fillFree (n : Nat) (h : n ≤ DOG2CATIOMSGNUM - 1) : (fillFree n h).1.count = n := by
  obtain ⟨-, hmap, -⟩ := fillFree_spec n h
  rw [← FifoRing.length_contents, ← List.length_map (f := Fin.val), hmap, List.length_range]

/-- At the start all message cells are free. -/
theorem count_InitServer (align : MsgCell → Nat) :
    (InitServer align).pFifoDogMsgFree.count = DOG2CATIOMSGNUM - 1 := by
  have hring : ∀ filled, (initialServer align filled).pFifoDogMsgFree = filled.1 := fun _ => rfl
  rw [InitServer, hring, count_fillFree]

theorem cellFree_of_count {s : Server} (h : 0 < s.pFifoDogMsgFree.count) : Registry.CellFree s := by
  rw [← FifoRing.length_contents] at h
  exact List.ne_nil_of_length_pos h

/-! ## Requests as element trees -/

/-- `<iq type='set'><query xmlns='…' action='…'>…</query></iq>`. -/
def iqSet (xmlns action : String) (children : List Iks) : Iks :=
  .tag (CStr.lit "iq") [(CStr.lit "type", CStr.lit "set")]
    [.tag (CStr.lit "query")
      [(CStr.lit "xmlns", CStr.lit xmlns), (CStr.lit "action", CStr.lit action)] children]

/-- An element with a text. -/
def textNode (name text : String) : Iks := .tag (CStr.lit name) [] [.cdata (CStr.lit text)]

def createFilter (name filter : String) : Iks :=
  iqSet "filter:new" "create" [textNode "username" name, textNode "filterstring" filter]

def cancelFilter : Iks := iqSet "filter:new" "cancel" []

def hookFilter (name : String) : Iks := iqSet "filter:hook" "hook" [textNode "item" name]

theorem requestOf_createFilter (name filter : String) :
    requestOf .IKS_NODE_NORMAL (createFilter name filter) =
      .create (some (CStr.lit filter)) (some (CStr.lit name)) 0 := rfl

theorem requestOf_cancelFilter : requestOf .IKS_NODE_NORMAL cancelFilter = .cancel := rfl

theorem requestOf_hookFilter (name : String) :
    requestOf .IKS_NODE_NORMAL (hookFilter name) = .hook (some (CStr.lit name)) := rfl

/-! ## The run -/

/-- Two connections are accepted. -/
def twoClients (align : MsgCell → Nat) : Server :=
  ((InitServer align).acceptClient 7).acceptClient 8

theorem pFifoDogMsgFree_acceptClient (s : Server) (sd : Nat) :
    (s.acceptClient sd).pFifoDogMsgFree = s.pFifoDogMsgFree := by
  unfold Server.acceptClient
  split
  · rfl
  · rfl

/-- A connection is accepted while message cells are free. -/
theorem reach_accept {s₀ s : Server} (h : Reach (serverStep (ι := Iks)) Succeeding s₀ s)
    (hpos : 0 < s.pFifoDogMsgFree.count) (sd : Nat) :
    Reach (serverStep (ι := Iks)) Succeeding s₀ (s.acceptClient sd) := by
  refine h.next (a := .accept sd) ⟨fun o ho => (by cases ho), fun s' hs' => ?_⟩ rfl
  cases hs'
  refine cellFree_of_count ?_
  rwa [pFifoDogMsgFree_acceptClient]

theorem reach_twoClients (align : MsgCell → Nat) :
    Reach (serverStep (ι := Iks)) Succeeding (InitServer align) (twoClients align) := by
  have hpos : 0 < (InitServer align).pFifoDogMsgFree.count := by
    rw [count_InitServer]
    exact Nat.zero_lt_succ _
  refine reach_accept (reach_accept Reach.start hpos 7) ?_ 8
  rwa [pFifoDogMsgFree_acceptClient]

/-- A client that has just connected. -/
def Seat.fresh : Seat where
  lType := .CLIENT_UNKNOWN
  lStatus := .STATUS_UNKNOWN
  Prs := true
  CuteDog := none

/-- Two clients are connected, and there is no dog, no open handle and no thread. -/
structure OnlyTwo (s : Server) : Prop where
  seat : ∀ i ∈ [14, 15], (s.ClientInfo i).seat = Seat.fresh
  points : ∀ i, (s.ClientInfo i).CuteDog = none
  work : s.WorkClientList = [14, 15]
  list : s.CuteDogList = []
  dogs : s.dogs = fun _ => none
  opened : s.opened = []
  threads : s.threads = []
  nodes : ∀ i, (s.links (.list1 i)).isSome = true

/-- A new connection points to what its slot pointed to. -/
theorem CuteDog_acceptClient (s : Server) (sd : Nat) (j : Slot) :
    ((s.acceptClient sd).ClientInfo j).CuteDog = (s.ClientInfo j).CuteDog := by
  unfold Server.acceptClient
  split
  · rfl
  · next i rest _ =>
      by_cases hj : j = i
      · rw [hj, Server.setClient_ClientInfo_self]
        rfl
      · rw [Server.setClient_ClientInfo_of_ne _ _ hj]

theorem onlyTwo (align : MsgCell → Nat) : OnlyTwo (twoClients align) := by
  have hinit : ∀ filled, OnlyTwo (((initialServer align filled).acceptClient 7).acceptClient 8) := by
    intro filled
    refine ⟨?_, fun i => ?_, rfl, rfl, rfl, rfl, rfl, fun i => rfl⟩
    rotate_left
    · rw [CuteDog_acceptClient, CuteDog_acceptClient]
      rfl
    simp only [List.forall_mem_cons]
    exact ⟨rfl, rfl, nofun⟩
  exact hinit _

theorem ready_of_seat {s : Server} {i : Slot} (hwork : i ∈ s.WorkClientList)
    (hseat : (s.ClientInfo i).seat = Seat.fresh) : Ready s i := by
  refine ⟨hwork, congrArg Seat.Prs hseat, ?_⟩
  have hstatus : (s.ClientInfo i).lStatus = .STATUS_UNKNOWN := congrArg Seat.lStatus hseat
  rw [hstatus]
  exact nofun

/-- A request all whose calls succeed is a step of the run when cells are left. -/
theorem Reach.stanza {s₀ s s' : Server} {i : Slot} {type : IksNodeType} {node : Iks} {o : Outcome}
    (h : Reach (serverStep (ι := Iks)) Succeeding s₀ s) (ho : o.Succeeds)
    (hstep : serverStep s (.stanza i type node o) = some s')
    (hpos : 0 < s'.pFifoDogMsgFree.count) :
    Reach (serverStep (ι := Iks)) Succeeding s₀ s' := by
  refine h.next ⟨fun o' ho' => ?_, fun s₁ hs₁ => ?_⟩ hstep
  · cases ho'
    exact ho
  · rw [hstep] at hs₁
    cases hs₁
    exact cellFree_of_count hpos

/-- The name of a short dog is kept whole. -/
theorem dogNamed_head {s : Server} {d : DogPtr} {dog : CUTEDOG} {rest : List DogPtr} {Name : CStr}
    (hdog : s.dogs d = some dog) (hname : Name = dog.Name) :
    s.dogNamed Name (d :: rest) = some (some d) := by
  rw [Server.dogNamed, hdog, Option.bind_eq_bind, Option.bind_some, if_pos hname]

/-- The names are those of the dogs. -/
theorem dogNamed_congr {s s' : Server} {Name : CStr} (h : s'.dogs = s.dogs) (l : List DogPtr) :
    s'.dogNamed Name l = s.dogNamed Name l := by
  induction l with
  | nil => rfl
  | cons d rest ih => rw [Server.dogNamed, Server.dogNamed, h, ih]

/-- The dog of the client 15 is listed, the client 14 hooks it, and nothing else was created. -/
structure SharedDog (s : Server) (d : DogPtr) (dog : CUTEDOG) : Prop where
  list : s.CuteDogList = [d]
  dogs : s.dogs d = some dog
  name : dog.Name = CStr.lit "a"
  master : dog.Master = 15
  work : s.WorkClientList = [14, 15]
  owner : (s.ClientInfo 15).seat = { Seat.fresh with
    lType := .CLIENT_USER_PIONEER, CuteDog := some d }
  hooker : (s.ClientInfo 14).seat = { Seat.fresh with
    lType := .CLIENT_USER_HOOKER, CuteDog := some d }
  hooked : ∃ hookers, Hooked s.links s.CuteDogList hookers ∧ hookers d = [14]
  cells : 4000 ≤ s.pFifoDogMsgFree.count

theorem SharedDog.points {s : Server} {d : DogPtr} {dog : CUTEDOG} (h : SharedDog s d dog) :
    (s.ClientInfo 14).CuteDog = some d ∧ (s.ClientInfo 15).CuteDog = some d :=
  ⟨congrArg Seat.CuteDog h.hooker, congrArg Seat.CuteDog h.owner⟩

theorem SharedDog.ready {s : Server} {d : DogPtr} {dog : CUTEDOG} (h : SharedDog s d dog) :
    Ready s 14 ∧ Ready s 15 := by
  have h14 : (s.ClientInfo 14).lStatus = .STATUS_UNKNOWN := congrArg Seat.lStatus h.hooker
  have h15 : (s.ClientInfo 15).lStatus = .STATUS_UNKNOWN := congrArg Seat.lStatus h.owner
  refine ⟨⟨?_, congrArg Seat.Prs h.hooker, ?_⟩, ⟨?_, congrArg Seat.Prs h.owner, ?_⟩⟩
  · rw [h.work]
    decide
  · rw [h14]
    exact nofun
  · rw [h.work]
    decide
  · rw [h15]
    exact nofun

theorem SharedDog.found {s : Server} {d : DogPtr} {dog : CUTEDOG} (h : SharedDog s d dog) :
    s.dogNamed (CStr.lit "a") s.CuteDogList = some (some d) := by
  rw [h.list]
  exact dogNamed_head h.dogs h.name.symm

theorem count_twoClients (align : MsgCell → Nat) :
    (twoClients align).pFifoDogMsgFree.count = 4095 := by
  rw [twoClients, pFifoDogMsgFree_acceptClient, pFifoDogMsgFree_acceptClient, count_InitServer]
  rfl

/-- A new dog with its capture changes the seat of its master only. -/
theorem Registry.seat_started_of_ne (r : Registry) {i j : Slot} (h : PcapHandle) (dog : CUTEDOG)
    (tid : ThreadId) (d : DogPtr) (hj : j ≠ i) :
    (((r.opens h).list i d dog).start
      { tid := tid, handle := h, dog := d, pClientInfo := i }).seat j = r.seat j := by
  rw [start, seat_setSeat_of_ne _ _ hj]
  show ((r.opens h).list i d dog).seat j = r.seat j
  rw [list, seat_setSeat_of_ne _ _ hj]
  rfl

/-- A server after the client 15 created a filter, with the handle and the thread it got. -/
structure OwnedDog (align : MsgCell → Nat) (o : Outcome) (s : Server) (h : PcapHandle)
    (tid : ThreadId) : Prop where
  step : serverStep (twoClients align)
    (.stanza 15 .IKS_NODE_NORMAL (createFilter "a" "tcp") o) = some s
  registry : s.registry = (((twoClients align).registry.opens h).list 15 o.malloc
    (newDog h .tidp (CStr.lit "a") (CStr.lit "tcp") 15)).start
      { tid := tid, handle := h, dog := o.malloc, pClientInfo := 15 }
  hooked : Hooked s.links s.CuteDogList (fun _ => [])
  cells : 4070 ≤ s.pFifoDogMsgFree.count

/-- The client 15 creates a filter, as the first of two clients. -/
theorem first_create (align : MsgCell → Nat) (name filter : String) {o : Outcome} {h : PcapHandle}
    {tid : ThreadId} (hcap : o.captures 0 h) (htid : o.pthread_create = some tid) :
    ∃ s, serverStep (twoClients align)
        (.stanza 15 .IKS_NODE_NORMAL (createFilter name filter) o) = some s ∧
      s.registry = (((twoClients align).registry.opens h).list 15 o.malloc
        (newDog h .tidp (CStr.lit name) (CStr.lit filter) 15)).start
          { tid := tid, handle := h, dog := o.malloc, pClientInfo := 15 } ∧
      s.links = INIT_LIST_HEAD (twoClients align).links (.ListHooker o.malloc) ∧
      4070 ≤ s.pFifoDogMsgFree.count := by
  have h2 := onlyTwo align
  have hcount := count_twoClients align
  have hready : Ready (twoClients align) 15 :=
    ready_of_seat (by rw [h2.work]; decide) (h2.seat 15 (by decide))
  obtain ⟨s, hstep, hreg, hlinks, hspends⟩ := create_starts (sound_reach (reach_twoClients align))
    hready (requestOf_createFilter name filter) hcap (cellFree_of_count (by rw [hcount]; decide))
    (by rw [h2.opened]; exact List.not_mem_nil) (by rw [h2.dogs]) htid
    (by rw [h2.threads]; exact List.not_mem_nil)
  refine ⟨s, hstep, hreg, hlinks, ?_⟩
  rw [Server.Spends, answersOf, h2.work, hcount] at hspends
  simp only [CLIENTNUM, List.length_cons, List.length_nil] at hspends
  omega

/-- **A dog of one client**: the client 15 creates a filter. -/
theorem owned_dog (align : MsgCell → Nat) {o : Outcome} {h : PcapHandle}
    {tid : ThreadId} (hcap : o.captures 0 h) (htid : o.pthread_create = some tid) :
    ∃ s, OwnedDog align o s h tid := by
  obtain ⟨s, hstep, hreg, hlinks, hcells⟩ := first_create align "a" "tcp" hcap htid
  refine ⟨s, hstep, hreg, ?_, hcells⟩
  have h2 := onlyTwo align
  have hnone : Hooked (twoClients align).links [] (fun _ => []) :=
    ⟨fun d hd => (by cases hd), fun d hd => (by cases hd), h2.nodes⟩
  have hinit := hnone.init (d := o.malloc) List.not_mem_nil
  rw [Function.update_eq_self] at hinit
  have hlist : s.CuteDogList = o.malloc :: (twoClients align).CuteDogList :=
    congrArg Registry.CuteDogList hreg
  rwa [hlinks, hlist, h2.list]

section Owned

variable {align : MsgCell → Nat} {o : Outcome} {s : Server} {h : PcapHandle} {tid : ThreadId}
  (hs : OwnedDog align o s h tid)

include hs

theorem OwnedDog.list : s.CuteDogList = [o.malloc] := by
  rw [← (onlyTwo align).list]
  exact congrArg Registry.CuteDogList hs.registry

theorem OwnedDog.dogs :
    s.dogs = Function.update (fun _ => none) o.malloc
      (some (newDog h .tidp (CStr.lit "a") (CStr.lit "tcp") 15)) := by
  rw [← (onlyTwo align).dogs]
  exact congrArg Registry.dogs hs.registry

theorem OwnedDog.dog :
    s.dogs o.malloc = some (newDog h .tidp (CStr.lit "a") (CStr.lit "tcp") 15) := by
  rw [hs.dogs, Function.update_self]

theorem OwnedDog.work : s.WorkClientList = [14, 15] := by
  rw [← (onlyTwo align).work]
  exact congrArg Registry.WorkClientList hs.registry

theorem OwnedDog.other : (s.ClientInfo 14).seat = Seat.fresh :=
  (congrFun (congrArg Registry.seat hs.registry) 14).trans ((onlyTwo align).seat 14 (by decide))

theorem OwnedDog.owner : (s.ClientInfo 15).seat = { Seat.fresh with
    lType := .CLIENT_USER_PIONEER, CuteDog := some o.malloc } := by
  have hseat := congrFun (congrArg Registry.seat hs.registry) 15
  refine hseat.trans ?_
  rw [← (onlyTwo align).seat 15 (by decide)]
  rfl

theorem OwnedDog.threads :
    s.threads = [{ tid := tid, handle := h, dog := o.malloc, pClientInfo := 15 }] := by
  have heq := congrArg Registry.threads hs.registry
  exact heq.trans (congrArg (List.cons _) (onlyTwo align).threads)

theorem OwnedDog.opened : s.opened = [h] := by
  have heq := congrArg Registry.opened hs.registry
  exact heq.trans (congrArg (List.cons _) (onlyTwo align).opened)

/-- Nobody else points to a dog. -/
theorem OwnedDog.points (j : Slot) :
    (s.ClientInfo j).CuteDog = if j = 15 then some o.malloc else none := by
  by_cases h15 : j = 15
  · rw [if_pos h15, h15]
    exact congrArg Seat.CuteDog hs.owner
  · have hseat := congrFun (congrArg Registry.seat hs.registry) j
    rw [Registry.seat_started_of_ne _ _ _ _ _ h15] at hseat
    rw [if_neg h15, ← (onlyTwo align).points j]
    exact congrArg Seat.CuteDog hseat

theorem OwnedDog.ready : Ready s 15 := by
  refine ⟨by rw [hs.work]; decide, congrArg Seat.Prs hs.owner, ?_⟩
  rw [show (s.ClientInfo 15).lStatus = .STATUS_UNKNOWN from congrArg Seat.lStatus hs.owner]
  exact nofun

theorem OwnedDog.reach (ho : o.Succeeds) :
    Reach (serverStep (ι := Iks)) Succeeding (InitServer align) s :=
  (reach_twoClients align).stanza ho hs.step (Nat.lt_of_lt_of_le (by decide) hs.cells)

/-- The run is one of any guard that allows connections and the create request. -/
theorem OwnedDog.run {C : Server → ServerAction Iks → Prop} (haccept : ∀ s sd, C s (.accept sd))
    (hcreate : C (twoClients align) (.stanza 15 .IKS_NODE_NORMAL (createFilter "a" "tcp") o)) :
    Reach (serverStep (ι := Iks)) C (InitServer align) s :=
  ((Reach.start.next (haccept _ 7) rfl).next (haccept _ 8) rfl).next hcreate hs.step

end Owned

/-! ## A second dog -/

/-- The client 15 creates the filter `a` and then the client 14 one under the name `name`. -/
structure TwoDogs (name : String) (s s₂ : Server) : Prop where
  first : OwnedDog (fun _ => 0) .allSucceed s 0 1
  step : serverStep s (.stanza 14 .IKS_NODE_NORMAL (createFilter name "tcp") .second) = some s₂
  registry : s₂.registry = ((s.registry.opens 1).list 14 1
    (newDog 1 .tidp (CStr.lit name) (CStr.lit "tcp") 14)).start
      { tid := 2, handle := 1, dog := 1, pClientInfo := 14 }
  hooked : Hooked s₂.links s₂.CuteDogList (fun _ => [])

/-- **A second dog**: the client 14 creates a filter too. -/
theorem OwnedDog.second {s : Server} (hs : OwnedDog (fun _ => 0) .allSucceed s 0 1) (name : String) :
    ∃ s₂, TwoDogs name s s₂ := by
  obtain ⟨s₂, hstep, hreg, hlinks, -⟩ := create_starts (o := .second) (h := 1)
    (sound_reach (hs.reach Outcome.allSucceed_succeeds))
    (ready_of_seat (by rw [hs.work]; decide) hs.other) (requestOf_createFilter name "tcp")
    ⟨rfl, rfl, rfl⟩ (cellFree_of_count (Nat.lt_of_lt_of_le (by decide) hs.cells))
    (by rw [hs.opened]; decide) (by rw [hs.dogs]; rfl)
    (show Outcome.second.pthread_create = some 2 from rfl) (by rw [hs.threads]; decide)
  refine ⟨s₂, hs, hstep, hreg, ?_⟩
  have hinit := hs.hooked.init (d := 1) (by rw [hs.list]; decide)
  have hlist : s₂.CuteDogList = 1 :: s.CuteDogList := congrArg Registry.CuteDogList hreg
  rw [Function.update_eq_self] at hinit
  rw [hlinks, hlist]
  exact hinit

section Second

variable {name : String} {s s₂ : Server} (h : TwoDogs name s s₂)

include h

theorem TwoDogs.list : s₂.CuteDogList = [1, 0] := by
  rw [show s₂.CuteDogList = 1 :: s.CuteDogList from congrArg Registry.CuteDogList h.registry,
    h.first.list]
  rfl

theorem TwoDogs.dogs : s₂.dogs 0 = some (newDog 0 .tidp (CStr.lit "a") (CStr.lit "tcp") 15) ∧
    s₂.dogs 1 = some (newDog 1 .tidp (CStr.lit name) (CStr.lit "tcp") 14) := by
  have hdogs : s₂.dogs = Function.update s.dogs 1
      (some (newDog 1 .tidp (CStr.lit name) (CStr.lit "tcp") 14)) :=
    congrArg Registry.dogs h.registry
  rw [hdogs, Function.update_self, Function.update_of_ne (by decide)]
  exact ⟨h.first.dog, rfl⟩

/-- The client 15 points to its dog, the client 14 to the other, and nobody else to a dog. -/
theorem TwoDogs.points (j : Slot) : (s₂.ClientInfo j).CuteDog =
    if j = 14 then some 1 else if j = 15 then some 0 else none := by
  have hseat := congrFun (congrArg Registry.seat h.registry) j
  by_cases h14 : j = 14
  · subst h14
    exact congrArg Seat.CuteDog hseat
  · rw [Registry.seat_started_of_ne _ _ _ _ _ h14] at hseat
    rw [if_neg h14]
    exact (congrArg Seat.CuteDog hseat).trans (h.first.points j)

theorem TwoDogs.ready : Ready s₂ 15 := by
  have hseat : (s₂.ClientInfo 15).seat = (s.ClientInfo 15).seat :=
    congrFun (congrArg Registry.seat h.registry) 15
  have hwork : s₂.WorkClientList = s.WorkClientList := congrArg Registry.WorkClientList h.registry
  obtain ⟨hmem, hprs, hstatus⟩ := h.first.ready
  refine ⟨hwork ▸ hmem, (congrArg Seat.Prs hseat).trans hprs, ?_⟩
  rw [show (s₂.ClientInfo 15).lStatus = _ from congrArg Seat.lStatus hseat]
  exact hstatus

/-- The run is one of any guard that allows connections and the two create requests. -/
theorem TwoDogs.run {C : Server → ServerAction Iks → Prop} (haccept : ∀ s sd, C s (.accept sd))
    (hfirst : C (twoClients fun _ => 0)
      (.stanza 15 .IKS_NODE_NORMAL (createFilter "a" "tcp") .allSucceed))
    (hsecond : C s (.stanza 14 .IKS_NODE_NORMAL (createFilter name "tcp") .second)) :
    Reach (serverStep (ι := Iks)) C (InitServer fun _ => 0) s₂ :=
  (h.first.run haccept hfirst).next hsecond h.step

/-- The client 15 cancels its filter: the dog of the client 14 stays. -/
theorem TwoDogs.cancel : ∃ s₃,
    serverStep s₂ (.stanza 15 .IKS_NODE_NORMAL cancelFilter .allSucceed) = some s₃ ∧
      s₃.registry = (s₂.registry.stop (some 0) 0).free 15 0 := by
  have hreach := h.run (C := AnyStep) (fun _ _ => trivial) trivial trivial
  obtain ⟨s₃, hstep, hreg, -⟩ := cancel_cancels (o := .allSucceed) (sound_reach hreach) h.hooked
    h.ready requestOf_cancelFilter (h.points 15) h.dogs.1
  exact ⟨s₃, hstep, hreg⟩

end Second

/-- Two clients list a dog each, under one name. -/
theorem two_dogs : ∃ s, Reach (serverStep (ι := Iks)) AnyStep (InitServer fun _ => 0) s ∧
    s.CuteDogList = [1, 0] ∧
    s.dogs 1 = some (newDog 1 .tidp (CStr.lit "a") (CStr.lit "tcp") 14) ∧
    s.dogs 0 = some (newDog 0 .tidp (CStr.lit "a") (CStr.lit "tcp") 15) := by
  obtain ⟨s, hs⟩ := owned_dog (fun _ => 0) (o := .allSucceed) (h := 0) ⟨rfl, rfl, rfl⟩
    (show Outcome.allSucceed.pthread_create = some 1 from rfl)
  obtain ⟨s₂, h⟩ := hs.second "a"
  exact ⟨s₂, h.run (fun _ _ => trivial) trivial trivial, h.list, h.dogs.2, h.dogs.1⟩

/-! ## A hooked dog -/

/-- The client 14 hooks the dog of the client 15. -/
theorem OwnedDog.hook {align : MsgCell → Nat} {o : Outcome} {s : Server} {h : PcapHandle}
    {tid : ThreadId} (hs : OwnedDog align o s h tid) :
    ∃ s', serverStep s (.stanza 14 .IKS_NODE_NORMAL (hookFilter "a") o) = some s' ∧
      s'.registry = s.registry.hook 14 o.malloc ∧
      SharedDog s' o.malloc (newDog h .tidp (CStr.lit "a") (CStr.lit "tcp") 15) := by
  have hmem : o.malloc ∈ s.CuteDogList := by
    rw [hs.list]
    exact List.mem_singleton_self _
  obtain ⟨links, hadd, -⟩ := list_add_spec (hs.hooked.circle o.malloc hmem) (hs.hooked.nodes 14)
    (by simp)
  have hname : CStr.lit "a" = (newDog h .tidp (CStr.lit "a") (CStr.lit "tcp") 15).Name := by
    show CStr.lit "a" = CStr.strncpy 32 (CStr.lit "a")
    decide +kernel
  have hfound : s.dogNamed (CStr.lit "a") s.CuteDogList = some (some o.malloc) := by
    rw [hs.list]
    exact dogNamed_head hs.dog hname
  obtain ⟨s', hstep, hreg, hlinks, hspends⟩ := hook_hooks (o := o)
    (ready_of_seat (by rw [hs.work]; decide) hs.other) (requestOf_hookFilter "a") hfound hadd
  have hcells : 4000 ≤ s'.pFifoDogMsgFree.count := by
    have h4070 := hs.cells
    rw [Server.Spends] at hspends
    omega
  have hooked := hs.hooked.add hmem (fun e he => List.not_mem_nil) hadd
  have hlist : s'.CuteDogList = s.CuteDogList := congrArg Registry.CuteDogList hreg
  refine ⟨s', hstep, hreg, ?_, ?_, hname.symm, rfl, ?_, ?_, ?_,
    ⟨Function.update (fun _ => []) o.malloc [14], ?_, Function.update_self ..⟩, hcells⟩
  · rw [hlist, hs.list]
  · rw [show s'.dogs = s.dogs from congrArg Registry.dogs hreg, hs.dog]
  · rw [show s'.WorkClientList = s.WorkClientList from congrArg Registry.WorkClientList hreg,
      hs.work]
  · exact (congrFun (congrArg Registry.seat hreg) 15).trans hs.owner
  · refine (congrFun (congrArg Registry.seat hreg) 14).trans ?_
    rw [← hs.other]
    rfl
  · rw [hlinks, hlist]
    exact hooked

/-- **A dog two clients point to**: the client 15 creates a filter and the client 14 hooks it. -/
theorem shared_dog (align : MsgCell → Nat) {o : Outcome} (ho : o.Succeeds) :
    ∃ s dog, Reach (serverStep (ι := Iks)) Succeeding (InitServer align) s ∧
      SharedDog s o.malloc dog := by
  obtain ⟨h, hcap⟩ := ho.captures 0
  obtain ⟨tid, htid⟩ := Option.isSome_iff_exists.mp ho.create
  obtain ⟨s, hs⟩ := owned_dog align hcap htid
  obtain ⟨s', hstep, -, hshared⟩ := hs.hook
  exact ⟨s', _, (hs.reach ho).stanza ho hstep (Nat.lt_of_lt_of_le (by decide) hshared.cells), hshared⟩

end Netflow
