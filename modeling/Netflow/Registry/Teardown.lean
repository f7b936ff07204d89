import Netflow.Registry.Follows

set_option autoImplicit false

/-! # The close branch, step by step

In the close branch of the IO thread the comparison of the session, the store of `STATUS_IOCLOSEED`,
the deletion of the parser, `StopDogNose` and the registry clean-up of `FreeObj` are steps of their
own; the receive thread may recycle the slot and accept a connection into it between any two of
them. Everything else the server does stays one step, and the IO thread handles no stanza while it is
in the close branch.

A session is a slot with a number. What the program does not keep is recorded next to it: which
session a dog was created by and a hook link was made by, which parsers were deleted, and for each
act of a `FreeObj` the session it was started for and the session of what it acted on.
-/

namespace Netflow

/-- The `nth` session of a slot. -/
structure Session where
  slot : Slot
  nth : Nat
deriving DecidableEq

/-- Where the IO thread stands, with the session whose shutdown text it handles. `nosed` and
`notPioneer` are the two branches of `FreeObj`, behind `StopDogNose` and at the `else if`. -/
inductive IoPc where
  | idle
  | checked (σ : Session)
  | stored (σ : Session)
  | parserGone (σ : Session)
  | nosed (σ : Session)
  | notPioneer (σ : Session)
deriving DecidableEq

/-- A step of a `FreeObj` that was started for one session, on a parser, a dog or a hook link that
belongs to a session. -/
structure Act where
  started : Session
  belongs : Session
deriving DecidableEq

/-- The server and the close branch. `nth` is the number of the session a slot serves or served last;
`creator` and `hooked` are the sessions that created the dog at an address and that linked the node
`list1` of a slot last. -/
structure Teardown where
  srv : Server
  io : IoPc
  nth : Slot → Nat
  creator : DogPtr → Session
  hooked : Slot → Session
  deleted : List Session
  acts : List Act

/-- A whole operation of the server, or a step of the close branch. -/
inductive TeardownAction (ι : Type) where
  | whole (a : ServerAction ι)
  | check (i : Slot)
  | store
  | deleteParser
  | stopNose (o : Outcome)
  | cleanRegistry

/-- The dogs that are new belong to the session. -/
def creatorAfter (dogs dogs' : DogPtr → Option CUTEDOG) (σ : Session) (creator : DogPtr → Session)
    (d : DogPtr) : Session :=
  if (dogs d).isNone && (dogs' d).isSome then σ else creator d

/-- A hook request that leaves the client a hooker linked its node. -/
def hookedAfter (q : Request) (lType : CLIENTTYPE) (σ : Session) (hooked : Slot → Session) :
    Slot → Session :=
  match q, lType with
  | .hook _, .CLIENT_USER_HOOKER => Function.update hooked σ.slot σ
  | _, _ => hooked

namespace Teardown

/-- The session a slot serves or served last. -/
def session (t : Teardown) (i : Slot) : Session := ⟨i, t.nth i⟩

/-- A step of the close branch on the slot of a session. -/
def act (t : Teardown) (s : Server) (io : IoPc) (acts : List Act) : Teardown :=
  { t with srv := s, io := io, acts := t.acts ++ acts }

/-- The dog a client points to is acted on. -/
def onDog (t : Teardown) (σ : Session) : List Act :=
  match (t.srv.ClientInfo σ.slot).CuteDog with
  | none => []
  | some d => [⟨σ, t.creator d⟩]

section Steps

variable {ι : Type} [Iksemel ι]

/-- What is recorded of a whole operation that leads to the server `s`. -/
def note (t : Teardown) (s : Server) : ServerAction ι → Teardown
  | .accept _ =>
      match t.srv.FreeClientList with
      | [] => { t with srv := s }
      | i :: _ => { t with srv := s, nth := Function.update t.nth i (t.nth i + 1) }
  | .stanza i type node _ =>
      { t with
        srv := s
        creator := creatorAfter t.srv.dogs s.dogs (t.session i) t.creator
        hooked := hookedAfter (requestOf type node) (s.ClientInfo i).lType (t.session i) t.hooked }
  | .recycle i =>
      if (t.srv.ClientInfo i).Prs then { t with srv := s, deleted := t.session i :: t.deleted }
      else { t with srv := s }
  | _ => { t with srv := s }

/-- `shutdown` is no whole operation here, and no stanza is handled inside the close branch. -/
def blocked (t : Teardown) : ServerAction ι → Bool
  | .shutdown _ _ => true
  | .stanza _ _ _ _ => t.io ≠ .idle
  | _ => false

end Steps

/-- `if(pClientInfo->Prs) iks_parser_delete(pClientInfo->Prs); pClientInfo->Prs=NULL;` -/
def deleteParser (t : Teardown) (σ : Session) : Teardown :=
  let s := t.srv.setClient σ.slot fun ci => { ci with Prs := false }
  if (t.srv.ClientInfo σ.slot).Prs then
    { t.act s (.parserGone σ) [⟨σ, t.session σ.slot⟩] with
      deleted := t.session σ.slot :: t.deleted }
  else t.act s (.parserGone σ) []

/-- `if(pClientInfo->lType==CLIENT_USER_PIONEER) { StopDogNose(pClientInfo);` -/
def stopNose (t : Teardown) (σ : Session) (o : Outcome) : Option Teardown :=
  if (t.srv.ClientInfo σ.slot).lType = .CLIENT_USER_PIONEER then do
    let (_, s) ← t.srv.StopDogNose σ.slot o
    some (t.act s (.nosed σ) (t.onDog σ))
  else some (t.act t.srv (.notPioneer σ) [])

/-- `DelCuteDogInList(pClientInfo); }` -/
def delCuteDog (t : Teardown) (σ : Session) : Option Teardown := do
  let (_, s) ← t.srv.DelCuteDogInList σ.slot
  some (t.act s .idle (t.onDog σ))

/-- `else if(pClientInfo->lType==CLIENT_USER_HOOKER) { DelHookerInCuteDog(pClientInfo); }` -/
def delHooker (t : Teardown) (σ : Session) : Option Teardown :=
  if (t.srv.ClientInfo σ.slot).lType = .CLIENT_USER_HOOKER then do
    let (unlinked, s) ← t.srv.DelHookerInCuteDog σ.slot
    some (t.act s .idle (if unlinked then [⟨σ, t.hooked σ.slot⟩] else []))
  else some (t.act t.srv .idle [])

end Teardown

section Steps

variable {ι : Type} [Iksemel ι]

/-- One step. The IO thread begins the close branch only when the session of the chunk is the slot's. -/
def teardownStep (t : Teardown) : TeardownAction ι → Option Teardown
  | .whole a => if t.blocked a then none else (serverStep t.srv a).map fun s => t.note s a
  | .check i =>
      match t.io with
      | .idle =>
          if i ∈ t.srv.WorkClientList ∧ (t.srv.ClientInfo i).lStatus ≠ .STATUS_IOCMDCLOSE then
            some { t with io := .checked (t.session i) }
          else none
      | _ => none
  | .store =>
      match t.io with
      | .checked σ => some (t.act (t.srv.ioClosed σ.slot) (.stored σ) [])
      | _ => none
  | .deleteParser =>
      match t.io with
      | .stored σ => some (t.deleteParser σ)
      | _ => none
  | .stopNose o =>
      match t.io with
      | .parserGone σ => t.stopNose σ o
      | _ => none
  | .cleanRegistry =>
      match t.io with
      | .nosed σ => t.delCuteDog σ
      | .notPioneer σ => t.delHooker σ
      | _ => none

/-- The server as `InitServer` leaves it; no slot had a session yet. -/
def teardownInit (align : MsgCell → Nat) : Teardown where
  srv := InitServer align
  io := .idle
  nth _ := 0
  creator _ := ⟨0, 0⟩
  hooked i := ⟨i, 0⟩
  deleted := []
  acts := []

/-! ## The steps one behind the other -/

theorem io_deleteParser (t : Teardown) (σ : Session) : (t.deleteParser σ).io = .parserGone σ := by
  unfold Teardown.deleteParser
  dsimp only
  split
  · rfl
  · rfl

theorem srv_deleteParser (t : Teardown) (σ : Session) : (t.deleteParser σ).srv =
    t.srv.setClient σ.slot fun ci => { ci with Prs := false } := by
  unfold Teardown.deleteParser
  dsimp only
  split
  · rfl
  · rfl

/-- `FreeObj` behind the deletion of the parser. -/
theorem srv_cleanUp {t : Teardown} {σ : Session} (hio : t.io = .parserGone σ) (o : Outcome) :
    (execAll (teardownStep (ι := ι)) [.stopNose o, .cleanRegistry] t).map Teardown.srv =
      match (t.srv.ClientInfo σ.slot).lType with
      | .CLIENT_USER_PIONEER => do
          let (_, s) ← t.srv.StopDogNose σ.slot o
          let (_, s) ← s.DelCuteDogInList σ.slot
          some s
      | .CLIENT_USER_HOOKER => do
          let (_, s) ← t.srv.DelHookerInCuteDog σ.slot
          some s
      | .CLIENT_UNKNOWN => some t.srv := by
  have hfirst : teardownStep (ι := ι) t (.stopNose o) = t.stopNose σ o := by
    rw [teardownStep, hio]
  rw [execAll, hfirst, Teardown.stopNose]
  cases htype : (t.srv.ClientInfo σ.slot).lType with
  | CLIENT_UNKNOWN =>
      rw [if_neg (by decide)]
      simp [execAll, teardownStep, Teardown.act, Teardown.delHooker, htype]
  | CLIENT_USER_PIONEER =>
      rw [if_pos rfl]
      cases hstop : t.srv.StopDogNose σ.slot o with
      | none => rfl
      | some r =>
          cases hdel : r.2.DelCuteDogInList σ.slot with
          | none => simp [execAll, teardownStep, Teardown.act, Teardown.delCuteDog, hdel]
          | some r' => simp [execAll, teardownStep, Teardown.act, Teardown.delCuteDog, hdel]
  | CLIENT_USER_HOOKER =>
      rw [if_neg (by decide)]
      cases hdel : t.srv.DelHookerInCuteDog σ.slot with
      | none => simp [execAll, teardownStep, Teardown.act, Teardown.delHooker, htype, hdel]
      | some r => simp [execAll, teardownStep, Teardown.act, Teardown.delHooker, htype, hdel]

/-- The close branch that nobody interrupts is the operation `shutdown`. -/
theorem teardown_shutdown {t : Teardown} {σ : Session} (hio : t.io = .checked σ) (o : Outcome) :
    (execAll (teardownStep (ι := ι)) [.store, .deleteParser, .stopNose o, .cleanRegistry] t).map
      Teardown.srv = t.srv.shutdown σ.slot o := by
  have hstore : teardownStep (ι := ι) t .store =
      some (t.act (t.srv.ioClosed σ.slot) (.stored σ) []) := by
    rw [teardownStep, hio]
  have hparser := srv_deleteParser (t.act (t.srv.ioClosed σ.slot) (.stored σ) []) σ
  rw [execAll, hstore]
  show (execAll (teardownStep (ι := ι)) [.stopNose o, .cleanRegistry]
    ((t.act (t.srv.ioClosed σ.slot) (.stored σ) []).deleteParser σ)).map Teardown.srv = _
  rw [srv_cleanUp (io_deleteParser _ σ), hparser]
  rfl

end Steps

end Netflow
