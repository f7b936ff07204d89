import Netflow.CuteCat.Sender

set_option autoImplicit false

/-! # The connection of the client (`catEar.c`, `net.c`)

Every few seconds the receive thread calls `CnnDOG`, which connects unless `nCnnAnOK` is set. It sets
the flag whatever `CreateSocketConnect` returned, and `CreateSocketConnect` stores the descriptor only
when `connect` would block. `CLIENTTOEND` and `InitCat` give the descriptor up and keep the flag, so
after one lost connection the client does not connect again.
-/

namespace Netflow

namespace CuteCat

def INVALID_SOCKET : Int := -1

inductive SOCETSTATUS where
  | STATUS_SOCKET_CLOSED
  | STATUS_SOCKET_CONNECT
deriving DecidableEq

/-- The globals of `catEar.c`: the sending, and the socket. `opened` are the descriptors `socket`
returned that are not closed. -/
structure CatEar where
  cat : Cat
  Socket : Int
  SockStatus : SOCETSTATUS
  opened : List Int

/-- The answers of the socket calls in `CreateSocketConnect`: `wouldBlock` is the comparison of the
error number, `valopt` says that `getsockopt` fails or reports an error. -/
structure ConnectOutcome where
  socket : Int
  connect : Int
  wouldBlock : Bool
  select : Int
  valopt : Bool

/-- The answers in a turn of `ClientRecSndThread`. -/
structure SelectOutcome where
  select : Int
  readable : Bool
  recv : Int
  send : Int

/-- The globals before `Start`. -/
def loaded : CatEar where
  cat := InitCat
  Socket := 0
  SockStatus := .STATUS_SOCKET_CLOSED
  opened := []

namespace CatEar

def CloseSocket (sockfd : Int) (c : CatEar) : CatEar := { c with opened := c.opened.erase sockfd }

/-- `CreateSocketConnect` on `&ClientInfo.Socket`. An answer of `socket` that is a descriptor in use
makes no step. -/
def CreateSocketConnect (o : ConnectOutcome) (c : CatEar) : Option (Int × CatEar) :=
  if c.Socket ≤ 0 then
    if o.socket = -1 then some (-1, c)
    else if o.socket < 0 ∨ o.socket ∈ c.opened then none
    else
      let c := { c with opened := o.socket :: c.opened }
      if o.connect < 0 then
        if o.wouldBlock then some (1, { c with Socket := o.socket })
        else some (-2, c.CloseSocket o.socket)
      else some (0, c)
  else
    if o.select < 0 then some (1, c)
    else if 0 < o.select then
      if o.valopt then some (-3, { c.CloseSocket c.Socket with Socket := 0 })
      else some (0, c)
    else some (1, c)

/-- The old descriptor is not closed, and `nCnnAnOK` stays. -/
def InitCat (c : CatEar) : CatEar :=
  { c with
    cat := { CuteCat.InitCat with
      nCnnAnOK := c.cat.nCnnAnOK
      pushed := c.cat.pushed
      sent := c.cat.sent }
    Socket := INVALID_SOCKET }

/-- `Start` with what it reads from `cat.cfg`. -/
def Start (strIP : CStr) (port : Nat) (c : CatEar) : CatEar :=
  if strIP = CStr.lit "0.0.0.0" ∨ port = 0 then c else c.InitCat

/-- `CnnDOG` behind its test of `nCnnAnOK`. -/
def connectDog (o : ConnectOutcome) (c : CatEar) : Option CatEar :=
  let c :=
    if c.Socket ≠ INVALID_SOCKET then
      { c.CloseSocket c.Socket with Socket := INVALID_SOCKET }
    else c
  match c.CreateSocketConnect o with
  | none => none
  | some (_, c) => some { c with cat := c.cat.CnnDOG, SockStatus := .STATUS_SOCKET_CONNECT }

def CnnDOG (o : ConnectOutcome) (c : CatEar) : Option CatEar :=
  if c.cat.nCnnAnOK then some c else c.connectDog o

/-- `CHECK_CNN_LOGIN`. -/
def check (o : ConnectOutcome) (c : CatEar) : Option CatEar :=
  (c.CnnDOG o).map fun c => { c with cat := c.cat.HandShake }

def CLIENTTOEND (c : CatEar) : CatEar :=
  { c.CloseSocket c.Socket with
    cat := c.cat.SetClientStatus .CLIENT_STOPPED
    Socket := INVALID_SOCKET
    SockStatus := .STATUS_SOCKET_CLOSED }

/-- The part of a turn behind `recv`. -/
def sendTurn (t : SelectOutcome) (c : CatEar) : Option CatEar :=
  if c.cat.iCurSendLen ≠ 0 then
    if 0 < t.send then
      if t.send ≤ c.cat.iCurSendLen then
        (c.cat.send t.send.toNat).map fun cat => { c with cat := cat }
      else none
    else some c.CLIENTTOEND
  else if c.SockStatus = .STATUS_SOCKET_CLOSED then some c.CLIENTTOEND
  else some c

/-- A turn of `ClientRecSndThread` from `select` on. -/
def turn (t : SelectOutcome) (c : CatEar) : Option CatEar :=
  if 0 < t.select then
    if c.Socket ≠ INVALID_SOCKET ∧ t.readable = true ∧ t.recv ≤ 0 then some c.CLIENTTOEND
    else c.sendTurn t
  else some c

/-- The turn ends at `CLIENTTOEND`. -/
def Fails (t : SelectOutcome) (c : CatEar) : Prop :=
  0 < t.select ∧ ((c.Socket ≠ INVALID_SOCKET ∧ t.readable = true ∧ t.recv ≤ 0) ∨
    (c.cat.iCurSendLen ≠ 0 ∧ t.send ≤ 0) ∨
    (c.cat.iCurSendLen = 0 ∧ c.SockStatus = .STATUS_SOCKET_CLOSED))

end CatEar

/-- What the client's threads do; `push` and `status` are the calls a received stanza or the user
interface makes. -/
inductive EarAction where
  | start (strIP : CStr) (port : Nat)
  | check (o : ConnectOutcome)
  | turn (t : SelectOutcome)
  | push (pSendData : CStr) (len : Nat)
  | status (Status : CLIENTSTATUS)

def earStep (c : CatEar) : EarAction → Option CatEar
  | .start strIP port => some (c.Start strIP port)
  | .check o => c.check o
  | .turn t => c.turn t
  | .push pSendData len => some { c with cat := c.cat.PushSendStream pSendData len }
  | .status Status => some { c with cat := c.cat.SetClientStatus Status }

/-- The flag agrees with the socket: when it is set the socket is a descriptor that was returned by
`socket` and is not closed, and while the socket is invalid `CnnDOG` connects. -/
structure FlagAgrees (c : CatEar) : Prop where
  connected : c.cat.nCnnAnOK = true → c.Socket ∈ c.opened
  again : c.Socket = INVALID_SOCKET → ∀ o, c.CnnDOG o = c.connectDog o

/-- The guard: `CnnDOG` connects only when the connection will be under way, and the connection is
neither lost nor started anew once the flag is set. -/
def KeepsSocket (c : CatEar) : EarAction → Prop
  | .start strIP port => c.cat.nCnnAnOK = true → strIP = CStr.lit "0.0.0.0" ∨ port = 0
  | .check o => c.cat.nCnnAnOK = false → o.socket ≠ -1 ∧ o.connect < 0 ∧ o.wouldBlock = true
  | .turn t => c.cat.nCnnAnOK = true → ¬c.Fails t
  | _ => True

section Steps

variable {c c' : CatEar}

/-! ## What a step does to the socket -/

theorem CreateSocketConnect_eq_some {o : ConnectOutcome} {ret : Int}
    (hsock : c.Socket = INVALID_SOCKET) (h : c.CreateSocketConnect o = some (ret, c')) :
    c'.cat = c.cat ∧
      ((o.socket ≠ -1 ∧ o.connect < 0 ∧ o.wouldBlock = true ∧ 0 ≤ o.socket ∧
          c'.Socket = o.socket ∧ c'.opened = o.socket :: c.opened) ∨
        (¬(o.socket ≠ -1 ∧ o.connect < 0 ∧ o.wouldBlock = true) ∧ c'.Socket = INVALID_SOCKET ∧
          ∀ fd ∈ c'.opened, fd ∈ c.opened ∨ 0 ≤ fd)) := by
  unfold CatEar.CreateSocketConnect at h
  rw [if_pos (by rw [hsock]; decide)] at h
  split at h
  · next hnone =>
      cases h
      exact ⟨rfl, Or.inr ⟨fun hall => hall.1 hnone, hsock, fun fd hfd => Or.inl hfd⟩⟩
  · next hsome =>
      split at h
      · cases h
      · next hfresh =>
          have hpos : 0 ≤ o.socket := Int.not_lt.mp fun hneg => hfresh (Or.inl hneg)
          split at h
          · next hconnect =>
              split at h
              · next hblock =>
                  cases h
                  exact ⟨rfl, Or.inl ⟨hsome, hconnect, hblock, hpos, rfl, rfl⟩⟩
              · next hblock =>
                  cases h
                  refine ⟨rfl, Or.inr ⟨fun hall => hblock hall.2.2, hsock, fun fd hfd => ?_⟩⟩
                  -- the descriptor is closed again
                  rcases List.mem_cons.mp (List.mem_of_mem_erase hfd) with rfl | hfd
                  · exact Or.inr hpos
                  · exact Or.inl hfd
          · next hconnect =>
              cases h
              refine ⟨rfl, Or.inr ⟨fun hall => hconnect hall.2.1, hsock, fun fd hfd => ?_⟩⟩
              rcases List.mem_cons.mp hfd with rfl | hfd
              · exact Or.inr hpos
              · exact Or.inl hfd

/-- **`CnnDOG` behind its test** sets the flag; the new descriptor is stored when `connect` would
block, and otherwise the socket is invalid. -/
theorem connectDog_eq_some {o : ConnectOutcome} (h : c.connectDog o = some c') :
    c'.cat.nCnnAnOK = true ∧ (∀ fd ∈ c'.opened, fd ∈ c.opened ∨ 0 ≤ fd) ∧
      ((o.socket ≠ -1 ∧ o.connect < 0 ∧ o.wouldBlock = true ∧ c'.Socket ∈ c'.opened) ∨
        (¬(o.socket ≠ -1 ∧ o.connect < 0 ∧ o.wouldBlock = true) ∧ c'.Socket = INVALID_SOCKET)) := by
  -- an old socket is closed first
  obtain ⟨c₀, hc₀⟩ : ∃ c₀, (if c.Socket ≠ INVALID_SOCKET then
    { c.CloseSocket c.Socket with Socket := INVALID_SOCKET } else c) = c₀ := ⟨_, rfl⟩
  have hsock : c₀.Socket = INVALID_SOCKET ∧ ∀ fd ∈ c₀.opened, fd ∈ c.opened := by
    rw [← hc₀]
    split
    · exact ⟨rfl, fun fd hfd => List.mem_of_mem_erase hfd⟩
    · next hinvalid => exact ⟨not_not.mp hinvalid, fun fd hfd => hfd⟩
  simp only [CatEar.connectDog, hc₀] at h
  split at h
  · cases h
  · next ret c₁ hconnect =>
      cases h
      obtain ⟨-, hcase⟩ := CreateSocketConnect_eq_some hsock.1 hconnect
      refine ⟨rfl, fun fd hfd => ?_, ?_⟩
      · have hfd' : fd ∈ c₁.opened := hfd
        rcases hcase with ⟨-, -, -, hpos, -, hopened⟩ | ⟨-, -, hopened⟩
        · rw [hopened] at hfd'
          rcases List.mem_cons.mp hfd' with rfl | hfd'
          · exact Or.inr hpos
          · exact Or.inl (hsock.2 fd hfd')
        · exact (hopened fd hfd').imp_left (hsock.2 fd)
      · rcases hcase with ⟨h1, h2, h3, -, hstored, hopened⟩ | ⟨hno, hinvalid, -⟩
        · refine Or.inl ⟨h1, h2, h3, ?_⟩
          show c₁.Socket ∈ c₁.opened
          rw [hstored, hopened]
          exact List.mem_cons_self
        · exact Or.inr ⟨hno, hinvalid⟩

theorem nCnnAnOK_HandShake (cat : Cat) : cat.HandShake.nCnnAnOK = cat.nCnnAnOK := by
  unfold Cat.HandShake
  split
  · rfl
  · rfl

theorem nCnnAnOK_send {sn : Nat} {cat cat' : Cat} (h : cat.send sn = some cat') :
    cat'.nCnnAnOK = cat.nCnnAnOK := by
  unfold Cat.send at h
  split at h
  · cases h
    rfl
  · cases h

/-- **A turn** goes to `CLIENTTOEND`, or leaves the flag and the socket alone. -/
theorem turn_eq_some {t : SelectOutcome} (h : c.turn t = some c') :
    (c.Fails t ∧ c' = c.CLIENTTOEND) ∨
      (¬c.Fails t ∧ c'.cat.nCnnAnOK = c.cat.nCnnAnOK ∧ c'.Socket = c.Socket ∧
        c'.opened = c.opened) := by
  unfold CatEar.turn at h
  split at h
  · next hselect =>
      split at h
      · next hrecv =>
          cases h
          exact Or.inl ⟨⟨hselect, Or.inl hrecv⟩, rfl⟩
      · next hrecv =>
          unfold CatEar.sendTurn at h
          split at h
          · next hlen =>
              split at h
              · next hsend =>
                  split at h
                  · obtain ⟨cat, hcat, rfl⟩ := Option.map_eq_some_iff.mp h
                    refine Or.inr ⟨?_, nCnnAnOK_send hcat, rfl, rfl⟩
                    -- something is there to send, and all of it or a part was sent
                    rintro ⟨-, hfail | ⟨-, hfail⟩ | ⟨hfail, -⟩⟩
                    · exact hrecv hfail
                    · omega
                    · exact hlen hfail
                  · cases h
              · next hsend =>
                  cases h
                  exact Or.inl ⟨⟨hselect, Or.inr (Or.inl ⟨hlen, Int.not_lt.mp hsend⟩)⟩, rfl⟩
          · next hlen =>
              split at h
              · next hclosed =>
                  cases h
                  exact Or.inl ⟨⟨hselect, Or.inr (Or.inr ⟨not_not.mp hlen, hclosed⟩)⟩, rfl⟩
              · next hclosed =>
                  cases h
                  refine Or.inr ⟨?_, rfl, rfl, rfl⟩
                  -- nothing to send, and the server did not close
                  rintro ⟨-, hfail | ⟨hfail, -⟩ | ⟨-, hfail⟩⟩
                  · exact hrecv hfail
                  · exact hlen hfail
                  · exact hclosed hfail
  · next hselect =>
      cases h
      exact Or.inr ⟨fun hfail => hselect hfail.1, rfl, rfl, rfl⟩

/-! ## The flag -/

/-- `socket` returns no negative descriptor. -/
def Descriptors (c : CatEar) : Prop := ∀ fd ∈ c.opened, 0 ≤ fd

theorem Descriptors.invalid (hc : Descriptors c) : INVALID_SOCKET ∉ c.opened := fun hmem =>
  absurd (hc _ hmem) (by decide)

theorem descriptors_step {a : EarAction} (hc : Descriptors c) (h : earStep c a = some c') :
    Descriptors c' := by
  cases a with
  | start strIP port =>
      cases h
      unfold CatEar.Start
      split
      · exact hc
      · exact hc
  | check o =>
      obtain ⟨c₁, hcnn, rfl⟩ := Option.map_eq_some_iff.mp h
      unfold CatEar.CnnDOG at hcnn
      split at hcnn
      · cases hcnn
        exact hc
      · intro fd hfd
        exact ((connectDog_eq_some hcnn).2.1 fd hfd).elim (hc fd) id
  | turn t =>
      obtain ⟨-, rfl⟩ | ⟨-, -, -, hopened⟩ := turn_eq_some h
      · exact fun fd hfd => hc fd (List.mem_of_mem_erase hfd)
      · intro fd hfd
        rw [hopened] at hfd
        exact hc fd hfd
  | push pSendData len =>
      cases h
      exact hc
  | status Status =>
      cases h
      exact hc

/-- The flag agrees with the socket when it is only set on an open descriptor. -/
theorem flagAgrees_iff (hc : Descriptors c) :
    FlagAgrees c ↔ (c.cat.nCnnAnOK = true → c.Socket ∈ c.opened) := by
  refine ⟨fun hflag => hflag.connected, fun hopen => ⟨hopen, fun hinvalid o => if_neg fun hset => ?_⟩⟩
  have hmem := hopen hset
  rw [hinvalid] at hmem
  exact hc.invalid hmem

/-- A step that leaves the flag alone and gives the socket up. -/
theorem flagAgrees_of_invalid (hc' : Descriptors c') (hsock : c'.Socket = INVALID_SOCKET)
    (hflag : c'.cat.nCnnAnOK = c.cat.nCnnAnOK) : FlagAgrees c' ↔ c.cat.nCnnAnOK = false := by
  rw [flagAgrees_iff hc', hsock, hflag, ← Bool.not_eq_true]
  exact ⟨fun hopen hset => hc'.invalid (hopen hset), fun hunset hset => absurd hset hunset⟩

/-- A step that leaves both alone. -/
theorem flagAgrees_of_same (hc : Descriptors c) (hc' : Descriptors c')
    (hflag : c'.cat.nCnnAnOK = c.cat.nCnnAnOK) (hsock : c'.Socket = c.Socket)
    (hopened : c'.opened = c.opened) : FlagAgrees c' ↔ FlagAgrees c := by
  rw [flagAgrees_iff hc', flagAgrees_iff hc, hflag, hsock, hopened]

/-- **A step keeps the agreement** exactly when it meets the guard. -/
theorem flagAgrees_step {a : EarAction} (hc : Descriptors c) (h : earStep c a = some c') :
    FlagAgrees c' ↔ FlagAgrees c ∧ KeepsSocket c a := by
  have hc' := descriptors_step hc h
  cases a with
  | start strIP port =>
      cases h
      -- without an address `Start` returns before `InitCat`
      by_cases hconfig : strIP = CStr.lit "0.0.0.0" ∨ port = 0
      · have hsame : c.Start strIP port = c := if_pos hconfig
        rw [hsame]
        exact (and_iff_left fun _ => hconfig).symm
      · have hinit : c.Start strIP port = c.InitCat := if_neg hconfig
        rw [hinit] at hc' ⊢
        -- `InitCat` gives the socket up and leaves the flag
        rw [flagAgrees_of_invalid (c := c) hc' rfl rfl, flagAgrees_iff hc]
        cases hset : c.cat.nCnnAnOK with
        | false => simp [KeepsSocket, hset]
        | true => simp [KeepsSocket, hset, hconfig]
  | check o =>
      obtain ⟨c₁, hcnn, rfl⟩ := Option.map_eq_some_iff.mp h
      have hshake := nCnnAnOK_HandShake c₁.cat
      unfold CatEar.CnnDOG at hcnn
      split at hcnn
      · next hset =>
          cases hcnn
          -- a set flag: `CnnDOG` returns at once
          have hguard : KeepsSocket c (.check o) := fun hunset => by
            rw [hset] at hunset
            cases hunset
          rw [flagAgrees_of_same hc hc' hshake rfl rfl]
          exact (and_iff_left hguard).symm
      · next hunset =>
          -- the flag is set whatever `connect` answered
          obtain ⟨hset, -, hcase⟩ := connectDog_eq_some hcnn
          rw [hset] at hshake
          rw [flagAgrees_iff hc', flagAgrees_iff hc]
          constructor
          · intro hopen
            have hmem : c₁.Socket ∈ c₁.opened := hopen hshake
            refine ⟨fun hset => absurd hset hunset, fun _ => ?_⟩
            rcases hcase with ⟨h1, h2, h3, -⟩ | ⟨-, hinvalid⟩
            · exact ⟨h1, h2, h3⟩
            · rw [hinvalid] at hmem
              exact absurd hmem hc'.invalid
          · rintro ⟨-, hguard⟩ -
            rcases hcase with ⟨-, -, -, hmem⟩ | ⟨hno, -⟩
            · exact hmem
            · exact absurd (hguard ((Bool.not_eq_true _).mp hunset)) hno
  | turn t =>
      obtain ⟨hfail, rfl⟩ | ⟨hok, hflag, hsock, hopened⟩ := turn_eq_some h
      · -- `CLIENTTOEND` closes the socket and leaves the flag too
        rw [flagAgrees_of_invalid (c := c) hc' rfl rfl, flagAgrees_iff hc]
        cases hset : c.cat.nCnnAnOK with
        | false => simp [KeepsSocket, hset]
        | true => simp [KeepsSocket, hset, hfail]
      · rw [flagAgrees_of_same hc hc' hflag hsock hopened]
        exact (and_iff_left fun _ => hok).symm
  | push pSendData len =>
      cases h
      rw [flagAgrees_of_same hc hc' rfl rfl rfl]
      exact (and_iff_left trivial).symm
  | status Status =>
      cases h
      rw [flagAgrees_of_same hc hc' rfl rfl rfl]
      exact (and_iff_left trivial).symm

end Steps

theorem descriptors_reach {C : CatEar → EarAction → Prop} {c : CatEar}
    (h : Reach earStep C loaded c) : Descriptors c :=
  h.invariant (fun _ hfd => absurd hfd List.not_mem_nil) fun _ _ _ hc _ hs => descriptors_step hc hs

/-- In a run of the client the flag agrees with the socket exactly when all steps meet the guard:
`CnnDOG` connects only when `socket` returns a descriptor and `connect` would block, and once the flag
is set no turn fails and the client is not started again. -/
theorem flag_agrees_iff {steps : List (CatEar × EarAction × CatEar)} {c : CatEar}
    (h : Run earStep AnyStep loaded steps c) :
    FlagAgrees c ↔ ∀ t ∈ steps, KeepsSocket t.1 t.2.1 :=
  h.forall_iff ((flagAgrees_iff fun _ hfd => absurd hfd List.not_mem_nil).mpr nofun)
    fun _ _ _ hreach _ hstep => flagAgrees_step (descriptors_reach hreach) hstep

/-- The answers while a connection is made: `connect` would block. -/
def connecting : ConnectOutcome where
  socket := 3
  connect := -1
  wouldBlock := true
  select := 0
  valopt := false

/-- A turn in which the peer has closed the connection. -/
def peerClosed : SelectOutcome where
  select := 1
  readable := true
  recv := 0
  send := 0

/-- The client connects. -/
theorem flag_agrees_iff_connecting : ∃ steps c, Run earStep AnyStep loaded steps c ∧
    c.cat.nCnnAnOK = true ∧ c.Socket = 3 ∧
      (FlagAgrees c ↔ ∀ t ∈ steps, KeepsSocket t.1 t.2.1) := by
  have hexec : (execAll earStep [.start (CStr.lit "10.0.0.1") 8000, .check connecting] loaded).map
      (fun c => (c.cat.nCnnAnOK, c.Socket)) = some (true, 3) := by decide +kernel
  obtain ⟨c, hrun, hresult⟩ := Option.map_eq_some_iff.mp hexec
  obtain ⟨hset, hsock⟩ := Prod.mk.inj hresult
  obtain ⟨steps, hsteps⟩ := (reach_of_execAll hrun).run
  exact ⟨steps, c, hsteps, hset, hsock, flag_agrees_iff hsteps⟩

/-- **No second connection**: the peer closes the connection, and the flag stays set. -/
theorem flag_outlives_socket : ¬∀ c, Reach earStep AnyStep loaded c → FlagAgrees c := by
  intro hall
  have hexec : (execAll earStep [.start (CStr.lit "10.0.0.1") 8000, .check connecting,
      .turn peerClosed] loaded).map (fun c => (c.cat.nCnnAnOK, c.Socket, c.opened)) =
        some (true, INVALID_SOCKET, []) := by decide +kernel
  obtain ⟨c, hrun, hresult⟩ := Option.map_eq_some_iff.mp hexec
  obtain ⟨hset, hresult⟩ := Prod.mk.inj hresult
  obtain ⟨-, hopened⟩ := Prod.mk.inj hresult
  have hmem := (hall c (reach_of_execAll hrun)).connected hset
  rw [hopened] at hmem
  cases hmem

end CuteCat

end Netflow
