import Netflow.Server.Run

set_option autoImplicit false

/-! # The registry of clients and dogs

What the server knows of its clients and captures, without texts, message cells and the links of
the hook lists: who is connected and in which role, which dogs are listed and who owns them, which
handles are open and which threads run. `Registry.Changed` is what a request may do to it,
`Registry.Follows` what an operation of the server may do; that the operations of the model do no
more is proved in `Registry/Follows.lean`.
-/

namespace Netflow

/-- What the registry knows of a client slot. -/
structure Seat where
  lType : CLIENTTYPE
  lStatus : CLIENTSTATUS
  Prs : Bool
  CuteDog : Option DogPtr

structure Registry where
  seat : Slot → Seat
  FreeClientList : List Slot
  WorkClientList : List Slot
  CuteDogList : List DogPtr
  dogs : DogPtr → Option CUTEDOG
  tidp : ThreadId
  threads : List Capture
  opened : List PcapHandle

def CLIENTINFO.seat (ci : CLIENTINFO) : Seat where
  lType := ci.lType
  lStatus := ci.lStatus
  Prs := ci.Prs
  CuteDog := ci.CuteDog

/-- The registry of a server. -/
def Server.registry (s : Server) : Registry where
  seat i := (s.ClientInfo i).seat
  FreeClientList := s.FreeClientList
  WorkClientList := s.WorkClientList
  CuteDogList := s.CuteDogList
  dogs := s.dogs
  tidp := s.tidp
  threads := s.threads
  opened := s.opened

/-- The capture of a model is opened with the handle `h` and its filter set, on Ethernet. -/
def Outcome.captures (o : Outcome) (model : Nat) (h : PcapHandle) : Prop :=
  o.pcap_open_live (netInterface model) = some h ∧ o.pcap_setfilter = 0 ∧
    o.pcap_datalink = DLT_EN10MB

namespace Registry

def setSeat (r : Registry) (i : Slot) (f : Seat → Seat) : Registry :=
  { r with seat := Function.update r.seat i (f (r.seat i)) }

/-- The first free slot is given to a connection. -/
def accept (r : Registry) (i : Slot) (rest : List Slot) : Registry :=
  { r with
    FreeClientList := rest
    WorkClientList := i :: r.WorkClientList }.setSeat i fun t =>
      { t with lType := .CLIENT_UNKNOWN, lStatus := .STATUS_UNKNOWN, Prs := true }

/-- A slot is given back. -/
def recycle (r : Registry) (i : Slot) : Registry :=
  { r with
    WorkClientList := r.WorkClientList.erase i
    FreeClientList := i :: r.FreeClientList }.setSeat i fun t =>
      { t with lType := .CLIENT_UNKNOWN, lStatus := .STATUS_UNKNOWN, Prs := false }

/-- `lStatus` is cleared at the end of a connection. -/
def toEnd (r : Registry) (i : Slot) : Registry :=
  r.setSeat i fun t => { t with lStatus := .STATUS_UNKNOWN }

/-- A session is marked as over. -/
def close (r : Registry) (i : Slot) : Registry :=
  r.setSeat i fun t => { t with Prs := false, lStatus := .STATUS_IOCLOSEED }

/-- A client becomes a hooker of the dog `d`. -/
def hook (r : Registry) (i : Slot) (d : DogPtr) : Registry :=
  r.setSeat i fun t => { t with CuteDog := some d, lType := .CLIENT_USER_HOOKER }

/-- A capture was opened that no dog uses. -/
def opens (r : Registry) (h : PcapHandle) : Registry := { r with opened := h :: r.opened }

/-- The new dog `d` is listed for its master. -/
def list (r : Registry) (i : Slot) (d : DogPtr) (dog : CUTEDOG) : Registry :=
  { r with
    CuteDogList := d :: r.CuteDogList
    dogs := Function.update r.dogs d (some dog) }.setSeat i fun t => { t with CuteDog := some d }

/-- The capture thread of a dog is started for its master. -/
def start (r : Registry) (t : Capture) : Registry :=
  { r with tidp := t.tid, threads := t :: r.threads }.setSeat t.pClientInfo fun t =>
    { t with lType := .CLIENT_USER_PIONEER }

/-- The handle of a dog is closed, and the thread `tidp` is cancelled when `Ret` is 0. -/
def stop (r : Registry) (Handle : Option PcapHandle) (Ret : Int) : Registry :=
  match Handle with
  | none => r
  | some h =>
      { r with
        opened := r.opened.erase h
        threads := if Ret = 0 then r.threads.filter fun t => t.tid ≠ r.tidp else r.threads }

/-- A dog is taken from the list and freed, and the client's pointer to it is cleared. -/
def free (r : Registry) (i : Slot) (d : DogPtr) : Registry :=
  { r with
    CuteDogList := r.CuteDogList.erase d
    dogs := Function.update r.dogs d none }.setSeat i fun t => { t with CuteDog := none }

/-- When a request does nothing: the name to hook is no listed dog's, the filter is missing or the
capture was not opened, or the client has no dog to cancel. -/
def Idle (i : Slot) (o : Outcome) (r : Registry) : Request → Prop
  | .hook (some Item) => ∀ d ∈ r.CuteDogList, ∀ dog, r.dogs d = some dog → dog.Name ≠ Item
  | .hook none => True
  | .unhook => True
  | .create F _ m => F = none ∨ o.pcap_open_live (netInterface m) = none
  | .cancel => (r.seat i).CuteDog = none
  | .other => True

/-- What a request of a client does, where `cell` says whether a message cell is free: a dog is only
listed when the capture was opened with its filter, on Ethernet, and the answer found a cell. -/
inductive Changed (i : Slot) (o : Outcome) (cell : Prop) : Request → Registry → Registry → Prop where
  | kept {q : Request} {r : Registry} : Idle i o r q → Changed i o cell q r r
  | hooked {r : Registry} {Item : CStr} {d : DogPtr} {dog : CUTEDOG} :
      d ∈ r.CuteDogList → r.dogs d = some dog → dog.Name = Item →
      Changed i o cell (.hook (some Item)) r (r.hook i d)
  | opened {r : Registry} {F N : Option CStr} {m : Nat} {h : PcapHandle} :
      ¬(o.captures m h ∧ cell) → h ∉ r.opened → Changed i o cell (.create F N m) r (r.opens h)
  | listed {r : Registry} {F N : CStr} {m : Nat} {h : PcapHandle} :
      o.captures m h → cell → h ∉ r.opened → r.dogs o.malloc = none → o.pthread_create = none →
      Changed i o cell (.create (some F) (some N) m) r
        ((r.opens h).list i o.malloc (newDog h .tidp N F i))
  | started {r : Registry} {F N : CStr} {m : Nat} {h : PcapHandle} {tid : ThreadId} :
      o.captures m h → cell → h ∉ r.opened → r.dogs o.malloc = none →
      o.pthread_create = some tid → tid ∉ r.threads.map Capture.tid →
      Changed i o cell (.create (some F) (some N) m) r
        (((r.opens h).list i o.malloc (newDog h .tidp N F i)).start
          { tid := tid, handle := h, dog := o.malloc, pClientInfo := i })
  | cancelled {r : Registry} {d : DogPtr} {dog : CUTEDOG} :
      (r.seat i).CuteDog = some d → d ∈ r.CuteDogList → r.dogs d = some dog →
      (∀ h ∈ dog.Handle, h ∈ r.opened) →
      Changed i o cell .cancel r ((r.stop dog.Handle o.pthread_cancel).free i d)

/-- Whether a message cell is free. -/
def CellFree (s : Server) : Prop := s.pFifoDogMsgFree.contents ≠ []

/-- The client whose dog an operation deletes, when it has one, with the answers from outside: a
client that cancels its filter, or a pioneer whose session ends. -/
def deleter {ι : Type} [Iksemel ι] (s : Server) : ServerAction ι → Option (Slot × Outcome)
  | .stanza i type node o => if requestOf type node = .cancel then some (i, o) else none
  | .shutdown i o => if (s.ClientInfo i).lType = .CLIENT_USER_PIONEER then some (i, o) else none
  | _ => none

/-- What an operation of the server may do. -/
def Follows {ι : Type} [Iksemel ι] (s : Server) (r' : Registry) : ServerAction ι → Prop
  | .accept _ =>
      (s.FreeClientList = [] ∧ r' = s.registry) ∨
        ∃ i rest, s.FreeClientList = i :: rest ∧ r' = s.registry.accept i rest
  | .stanza i type node o =>
      i ∈ s.WorkClientList ∧ (s.ClientInfo i).Prs = true ∧
        Changed i o (CellFree s) (requestOf type node) s.registry r'
  | .shutdown i o =>
      i ∈ s.WorkClientList ∧ ∃ r₁, r' = r₁.close i ∧
        if (s.ClientInfo i).lType = .CLIENT_USER_PIONEER then
          Changed i o (CellFree s) .cancel s.registry r₁
        else r₁ = s.registry
  | .loopReturns t => r' = { s.registry with threads := s.threads.erase t }
  | .send i _ => r' = s.registry ∨ r' = s.registry.toEnd i
  | .toEnd i => r' = s.registry.toEnd i
  | .recycle i =>
      i ∈ s.WorkClientList ∧ (s.ClientInfo i).lStatus = .STATUS_IOCLOSEED ∧
        r' = s.registry.recycle i
  | .packet _ _ => r' = s.registry
  | .drain => r' = s.registry
  | .pickUp _ => r' = s.registry
  | .allocator _ => r' = s.registry

/-! ## What the operations leave alone -/

@[simp] theorem seat_setSeat_self (r : Registry) (i : Slot) (f : Seat → Seat) :
    (r.setSeat i f).seat i = f (r.seat i) := Function.update_self ..

theorem seat_setSeat_of_ne (r : Registry) {i j : Slot} (f : Seat → Seat) (h : j ≠ i) :
    (r.setSeat i f).seat j = r.seat j := Function.update_of_ne h ..

theorem setSeat_id (r : Registry) (i : Slot) : r.setSeat i id = r := by
  rw [setSeat, id, Function.update_eq_self]

theorem setSeat_setSeat (r : Registry) (i : Slot) (f g : Seat → Seat) :
    (r.setSeat i f).setSeat i g = r.setSeat i fun t => g (f t) := by
  simp only [setSeat, Function.update_self, Function.update_idem]

theorem seat_stop (r : Registry) (Handle : Option PcapHandle) (Ret : Int) :
    (r.stop Handle Ret).seat = r.seat := by
  cases Handle with
  | none => rfl
  | some h => rfl

theorem CuteDogList_stop (r : Registry) (Handle : Option PcapHandle) (Ret : Int) :
    (r.stop Handle Ret).CuteDogList = r.CuteDogList := by
  cases Handle with
  | none => rfl
  | some h => rfl

theorem dogs_stop (r : Registry) (Handle : Option PcapHandle) (Ret : Int) :
    (r.stop Handle Ret).dogs = r.dogs := by
  cases Handle with
  | none => rfl
  | some h => rfl

/-- The threads that run on: all of them, or all but the one whose id is in `tidp`. -/
theorem mem_threads_stop {r : Registry} (h : PcapHandle) {Ret : Int} {t : Capture} :
    t ∈ (r.stop (some h) Ret).threads ↔ t ∈ r.threads ∧ (Ret = 0 → t.tid ≠ r.tidp) := by
  show t ∈ (if Ret = 0 then r.threads.filter fun t => t.tid ≠ r.tidp else r.threads) ↔ _
  split
  · next hRet => simp [hRet]
  · next hRet => simp [hRet]

/-- The dogs once a dog is listed. -/
theorem dogs_list {r : Registry} {i : Slot} {d e : DogPtr} {dog dog' : CUTEDOG}
    (h : (r.list i d dog).dogs e = some dog') :
    (e = d ∧ dog' = dog) ∨ (e ≠ d ∧ r.dogs e = some dog') := by
  have hdogs : (r.list i d dog).dogs = Function.update r.dogs d (some dog) := rfl
  rw [hdogs] at h
  by_cases he : e = d
  · rw [he, Function.update_self] at h
    exact Or.inl ⟨he, (Option.some.inj h).symm⟩
  · rw [Function.update_of_ne he] at h
    exact Or.inr ⟨he, h⟩

/-- The dogs once a dog is freed. -/
theorem dogs_free {r : Registry} {i : Slot} {d e : DogPtr} {dog' : CUTEDOG}
    (h : (r.free i d).dogs e = some dog') : e ≠ d ∧ r.dogs e = some dog' := by
  have hdogs : (r.free i d).dogs = Function.update r.dogs d none := rfl
  rw [hdogs] at h
  by_cases he : e = d
  · rw [he, Function.update_self] at h
    cases h
  · rw [Function.update_of_ne he] at h
    exact ⟨he, h⟩

/-- What was stored in a dog before it is freed does not matter. -/
theorem free_update_dogs (r : Registry) (i : Slot) (d : DogPtr) (Handle : Option PcapHandle)
    (Ret : Int) (dog : Option CUTEDOG) :
    { r.stop Handle Ret with dogs := Function.update r.dogs d dog }.free i d =
      (r.stop Handle Ret).free i d := by
  simp only [free, setSeat, Function.update_idem, dogs_stop]

/-- A cancel after the session was marked as over is one before that. -/
theorem Changed.of_close {r r' : Registry} {i : Slot} {o : Outcome} {cell : Prop}
    (h : Changed i o cell .cancel (r.close i) r') :
    ∃ r₁, r' = r₁.close i ∧ Changed i o cell .cancel r r₁ := by
  have hseat : ((r.close i).seat i).CuteDog = (r.seat i).CuteDog := by
    simp only [close, setSeat, Function.update_self]
  cases h with
  | kept hnone => exact ⟨r, rfl, .kept (hseat.symm.trans hnone)⟩
  | @cancelled _ d dog hd hmem hdog hopen =>
      refine ⟨_, ?_, .cancelled (hseat ▸ hd) hmem hdog hopen⟩
      cases hHandle : dog.Handle with
      | none => simp only [stop, free, close, setSeat, Function.update_self, Function.update_idem]
      | some h =>
          simp only [stop, free, close, setSeat, Function.update_self, Function.update_idem]
          rfl

/-- A request changes the seat of its client only. -/
theorem Changed.seat_of_ne {r r' : Registry} {i j : Slot} {o : Outcome} {cell : Prop} {q : Request}
    (h : Changed i o cell q r r') (hj : j ≠ i) : r'.seat j = r.seat j := by
  cases h with
  | kept _ => rfl
  | hooked _ _ _ => exact seat_setSeat_of_ne _ _ hj
  | opened _ _ => rfl
  | listed _ _ _ _ _ => exact seat_setSeat_of_ne _ _ hj
  | started _ _ _ _ _ _ =>
      rw [start, seat_setSeat_of_ne _ _ hj]
      show Function.update r.seat i _ j = r.seat j
      exact Function.update_of_ne hj _ _
  | @cancelled _ _ dog _ _ _ _ =>
      rw [free, seat_setSeat_of_ne _ _ hj]
      exact congrFun (seat_stop r dog.Handle o.pthread_cancel) j

/-- It takes no parser away and closes no session. -/
theorem Changed.status_eq {r r' : Registry} {i : Slot} {o : Outcome} {cell : Prop} {q : Request}
    (h : Changed i o cell q r r') (j : Slot) :
    (r'.seat j).Prs = (r.seat j).Prs ∧ (r'.seat j).lStatus = (r.seat j).lStatus := by
  by_cases hji : j = i
  · subst hji
    cases h with
    | kept _ => exact ⟨rfl, rfl⟩
    | hooked _ _ _ =>
        rw [hook, seat_setSeat_self]
        exact ⟨rfl, rfl⟩
    | opened _ _ => exact ⟨rfl, rfl⟩
    | listed _ _ _ _ _ =>
        rw [list, seat_setSeat_self]
        exact ⟨rfl, rfl⟩
    | @started _ F N m k tid _ _ _ _ _ _ =>
        have hlist : ∀ dog, (((r.opens k).list j o.malloc dog).seat j).Prs = (r.seat j).Prs ∧
            (((r.opens k).list j o.malloc dog).seat j).lStatus = (r.seat j).lStatus := by
          intro dog
          rw [list, seat_setSeat_self]
          exact ⟨rfl, rfl⟩
        rw [start, seat_setSeat_self]
        exact hlist _
    | @cancelled _ _ dog _ _ _ _ =>
        rw [free, seat_setSeat_self]
        show ((r.stop dog.Handle o.pthread_cancel).seat j).Prs = (r.seat j).Prs ∧
          ((r.stop dog.Handle o.pthread_cancel).seat j).lStatus = (r.seat j).lStatus
        rw [seat_stop]
        exact ⟨rfl, rfl⟩
  · rw [h.seat_of_ne hji]
    exact ⟨rfl, rfl⟩

/-- After a cancel the client points to no dog. -/
theorem Changed.cancel_CuteDog {r r' : Registry} {i : Slot} {o : Outcome} {cell : Prop}
    (h : Changed i o cell .cancel r r') : (r'.seat i).CuteDog = none := by
  cases h with
  | kept hnone => exact hnone
  | cancelled _ _ _ _ =>
      rw [free, seat_setSeat_self]

end Registry

end Netflow
