import Netflow.Registry.Shared
import Netflow.Registry.Teardown

set_option autoImplicit false

/-! # What the close branch acts on

A client that is a pioneer points to a dog its session created, and the node of a hooker was linked
by its session (`RolesOwn`), as long as no client cancels a dog of another session. A `FreeObj` then
acts on what belongs to its session, unless a connection gets the slot before the parser is deleted:
the parser is the one of that connection.
-/

namespace Netflow

/-! ## Roles and owners -/

namespace Registry

/-- What a role stands for belongs to the session the slot serves. -/
structure RolesOwn (r : Registry) (nth : Slot → Nat) (creator : DogPtr → Session)
    (hooked : Slot → Session) : Prop where
  pioneer : ∀ i d, (r.seat i).lType = .CLIENT_USER_PIONEER → (r.seat i).CuteDog = some d →
    creator d = ⟨i, nth i⟩ ∧ (r.dogs d).isSome
  hooker : ∀ i, (r.seat i).lType = .CLIENT_USER_HOOKER → hooked i = ⟨i, nth i⟩

section Roles

variable {r r' : Registry} {nth nth' : Slot → Nat} {creator : DogPtr → Session}
  {hooked : Slot → Session} {i : Slot} {d : DogPtr} {σ : Session}

/-- Roles, dogs and pointers stay as they were. -/
theorem RolesOwn.of_same (h : RolesOwn r nth creator hooked)
    (htype : ∀ j, (r'.seat j).lType = (r.seat j).lType)
    (hdog : ∀ j, (r'.seat j).CuteDog = (r.seat j).CuteDog)
    (halive : ∀ d, (r.dogs d).isSome → (r'.dogs d).isSome) : RolesOwn r' nth creator hooked where
  pioneer j e hj he := by
    rw [htype] at hj
    rw [hdog] at he
    obtain ⟨hcreator, hsome⟩ := h.pioneer j e hj he
    exact ⟨hcreator, halive e hsome⟩
  hooker j hj := by
    rw [htype] at hj
    exact h.hooker j hj

/-- One slot gets or leaves a session: it has no role. -/
theorem RolesOwn.of_unknown (h : RolesOwn r nth creator hooked)
    (htype : (r'.seat i).lType = .CLIENT_UNKNOWN) (hseat : ∀ j, j ≠ i → r'.seat j = r.seat j)
    (hdogs : r'.dogs = r.dogs) (hnth : ∀ j, j ≠ i → nth' j = nth j) :
    RolesOwn r' nth' creator hooked where
  pioneer j e hj he := by
    by_cases hji : j = i
    · rw [hji, htype] at hj
      cases hj
    · rw [hseat j hji] at hj he
      rw [hdogs, hnth j hji]
      exact h.pioneer j e hj he
  hooker j hj := by
    by_cases hji : j = i
    · rw [hji, htype] at hj
      cases hj
    · rw [hseat j hji] at hj
      rw [hnth j hji]
      exact h.hooker j hj

/-- A dog is freed that was created by a session of the same slot. -/
theorem RolesOwn.free (h : RolesOwn r nth creator hooked) (hd : (creator d).slot = i) :
    RolesOwn (r.free i d) nth creator hooked where
  pioneer j e hj he := by
    by_cases hji : j = i
    · rw [hji, Registry.free, seat_setSeat_self] at he
      cases he
    · rw [Registry.free, seat_setSeat_of_ne _ _ hji] at hj he
      obtain ⟨hcreator, hsome⟩ := h.pioneer j e hj he
      refine ⟨hcreator, ?_⟩
      have hne : e ≠ d := by
        rintro rfl
        rw [hcreator] at hd
        exact hji hd
      show (Function.update r.dogs d none e).isSome
      rw [Function.update_of_ne hne]
      exact hsome
  hooker j hj := by
    by_cases hji : j = i
    · rw [hji, Registry.free, seat_setSeat_self] at hj
      rw [hji]
      exact h.hooker i hj
    · rw [Registry.free, seat_setSeat_of_ne _ _ hji] at hj
      exact h.hooker j hj

/-! ## Requests -/

theorem creatorAfter_of_alive {dogs dogs' : DogPtr → Option CUTEDOG} (h : (dogs d).isSome) :
    creatorAfter dogs dogs' σ creator d = creator d := by
  obtain ⟨dog, hdog⟩ := Option.isSome_iff_exists.mp h
  rw [creatorAfter, hdog]
  rfl

theorem creatorAfter_of_new {dogs dogs' : DogPtr → Option CUTEDOG} (h : dogs d = none)
    (h' : (dogs' d).isSome) : creatorAfter dogs dogs' σ creator d = σ := by
  rw [creatorAfter, h, h']
  rfl

theorem hookedAfter_of_ne {q : Request} {lType : CLIENTTYPE} (h : i ≠ σ.slot) :
    hookedAfter q lType σ hooked i = hooked i := by
  unfold hookedAfter
  split
  · exact Function.update_of_ne h _ _
  · rfl

theorem hookedAfter_self {q : Request} {lType : CLIENTTYPE} (h : hooked σ.slot = σ) :
    hookedAfter q lType σ hooked σ.slot = σ := by
  unfold hookedAfter
  split
  · exact Function.update_self ..
  · exact h

/-- After a request the node of a hooker was linked by its session. -/
theorem RolesOwn.hooker_changed (h : RolesOwn r nth creator hooked) {o : Outcome} {cell : Prop}
    {q : Request} (hc : Changed i o cell q r r') (j : Slot)
    (hj : (r'.seat j).lType = .CLIENT_USER_HOOKER) :
    hookedAfter q (r'.seat i).lType ⟨i, nth i⟩ hooked j = ⟨j, nth j⟩ := by
  by_cases hji : j = i
  · subst hji
    have hold : (r.seat j).lType = .CLIENT_USER_HOOKER →
        hookedAfter q (r'.seat j).lType ⟨j, nth j⟩ hooked j = ⟨j, nth j⟩ := fun htype =>
      hookedAfter_self (σ := ⟨j, nth j⟩) (h.hooker j htype)
    cases hc with
    | kept _ => exact hold hj
    | hooked _ _ _ =>
        rw [hj]
        exact Function.update_self ..
    | opened _ _ => exact hold hj
    | listed _ _ _ _ _ =>
        refine hold ?_
        rw [Registry.list, seat_setSeat_self] at hj
        exact hj
    | started _ _ _ _ _ _ =>
        rw [Registry.start, seat_setSeat_self] at hj
        cases hj
    | @cancelled _ _ dog _ _ _ _ =>
        refine hold ?_
        rw [Registry.free, seat_setSeat_self] at hj
        rw [← seat_stop r dog.Handle o.pthread_cancel]
        exact hj
  · rw [hc.seat_of_ne hji] at hj
    rw [hookedAfter_of_ne (σ := ⟨i, nth i⟩) hji]
    exact h.hooker j hj

/-- **A request** leaves what the roles stand for with its owners, when a cancelled dog is one the
client's session created. -/
theorem RolesOwn.changed (h : RolesOwn r nth creator hooked) {o : Outcome} {cell : Prop}
    {q : Request} (hc : Changed i o cell q r r')
    (hcancel : q = .cancel → ∀ d, (r.seat i).CuteDog = some d → creator d = ⟨i, nth i⟩) :
    RolesOwn r' nth (creatorAfter r.dogs r'.dogs ⟨i, nth i⟩ creator)
      (hookedAfter q (r'.seat i).lType ⟨i, nth i⟩ hooked) := by
  refine ⟨fun j e hj he => ?_, h.hooker_changed hc⟩
  -- a pointer from before, to a dog that is still there
  have hold : (r.seat j).lType = .CLIENT_USER_PIONEER → (r.seat j).CuteDog = some e →
      ((r.dogs e).isSome → (r'.dogs e).isSome) →
      creatorAfter r.dogs r'.dogs ⟨i, nth i⟩ creator e = ⟨j, nth j⟩ ∧ (r'.dogs e).isSome := by
    intro htype hdog halive
    obtain ⟨hcreator, hsome⟩ := h.pioneer j e htype hdog
    exact ⟨(creatorAfter_of_alive hsome).trans hcreator, halive hsome⟩
  -- a new dog, which nobody pointed to
  have hnew : ∀ (m : DogPtr) (dog : CUTEDOG), r.dogs m = none →
      r'.dogs = Function.update r.dogs m (some dog) → (j = i → e = m) →
      (j ≠ i → (r.seat j).lType = .CLIENT_USER_PIONEER ∧ (r.seat j).CuteDog = some e) →
      creatorAfter r.dogs r'.dogs ⟨i, nth i⟩ creator e = ⟨j, nth j⟩ ∧ (r'.dogs e).isSome := by
    intro m dog hm hdogs hself hother
    have hsome : (r'.dogs m).isSome := by
      rw [hdogs, Function.update_self]
      rfl
    by_cases hji : j = i
    · rw [hself hji, hji]
      exact ⟨creatorAfter_of_new hm hsome, hsome⟩
    · refine hold (hother hji).1 (hother hji).2 fun halive => ?_
      have hne : e ≠ m := by
        rintro rfl
        rw [hm] at halive
        cases halive
      rw [hdogs, Function.update_of_ne hne]
      exact halive
  have hseat := fun hji : j ≠ i => hc.seat_of_ne hji
  cases hc with
  | kept _ => exact hold hj he id
  | hooked _ _ _ =>
      by_cases hji : j = i
      · rw [hji, Registry.hook, seat_setSeat_self] at hj
        cases hj
      · rw [hseat hji] at hj he
        exact hold hj he id
  | opened _ _ => exact hold hj he id
  | @listed _ F N m k _ _ _ hm _ =>
      refine hnew o.malloc _ hm rfl (fun hji => ?_) (fun hji => ?_)
      · rw [hji, Registry.list, seat_setSeat_self] at he
        exact (Option.some.inj he).symm
      · rw [hseat hji] at hj he
        exact ⟨hj, he⟩
  | @started _ F N m k tid _ _ _ hm _ _ =>
      refine hnew o.malloc _ hm rfl (fun hji => ?_) (fun hji => ?_)
      · rw [hji, Registry.start, seat_setSeat_self] at he
        have hlist : (((r.opens k).list i o.malloc (newDog k .tidp N F i)).seat i).CuteDog =
            some e := he
        rw [Registry.list, seat_setSeat_self] at hlist
        exact (Option.some.inj hlist).symm
      · rw [hseat hji] at hj he
        exact ⟨hj, he⟩
  | @cancelled _ d dog hd _ _ _ =>
      by_cases hji : j = i
      · rw [hji, Registry.free, seat_setSeat_self] at he
        cases he
      · rw [hseat hji] at hj he
        refine hold hj he fun halive => ?_
        have hne : e ≠ d := by
          rintro rfl
          have hslot := (h.pioneer j e hj he).1.symm.trans (hcancel rfl e hd)
          exact hji (congrArg Session.slot hslot)
        show (Function.update (r.stop dog.Handle o.pthread_cancel).dogs d none e).isSome
        rw [Function.update_of_ne hne, dogs_stop]
        exact halive

end Roles

end Registry

/-! ## The invariant -/

namespace Teardown

/-- What is known of the session whose shutdown text is handled: it is the one in the slot until its
parser is deleted, and after that as long as the slot has a role. -/
def AtPc (t : Teardown) : IoPc → Prop
  | .idle => True
  | .checked σ => t.session σ.slot = σ
  | .stored σ => t.session σ.slot = σ
  | .parserGone σ => (t.srv.ClientInfo σ.slot).lType ≠ .CLIENT_UNKNOWN → t.session σ.slot = σ
  | .nosed σ => ∀ d, (t.srv.ClientInfo σ.slot).CuteDog = some d → t.creator d = σ
  | .notPioneer σ => (t.srv.ClientInfo σ.slot).lType ≠ .CLIENT_UNKNOWN → t.session σ.slot = σ

/-- Every act was on what belongs to the session the `FreeObj` was started for. -/
def OwnOnly (t : Teardown) : Prop := ∀ a ∈ t.acts, a.belongs = a.started

/-- `gone`: a parser that was deleted is of an earlier session, or its slot has none. -/
structure Inv (t : Teardown) : Prop where
  roles : t.srv.registry.RolesOwn t.nth t.creator t.hooked
  atPc : t.AtPc t.io
  gone : ∀ σ ∈ t.deleted, σ.nth ≤ t.nth σ.slot ∧
    (σ.nth = t.nth σ.slot → (t.srv.ClientInfo σ.slot).Prs = false)
  once : t.deleted.Nodup
  own : t.OwnOnly

end Teardown

section Guard

variable {ι : Type} [Iksemel ι]

/-- The guard: no connection gets the slot between the comparison of the session and the deletion of
the parser, and no client cancels a dog that another session created. -/
def NoOverrun (t : Teardown) : TeardownAction ι → Prop
  | .whole (.accept _) => ∀ σ rest, t.srv.FreeClientList = σ.slot :: rest →
      t.io ≠ .checked σ ∧ t.io ≠ .stored σ
  | .whole (.stanza i type node _) => requestOf type node = .cancel →
      ∀ d, (t.srv.ClientInfo i).CuteDog = some d → t.creator d = t.session i
  | _ => True

end Guard

namespace Teardown

variable {t : Teardown}

/-! ## Steps that change nothing the invariant speaks of -/

/-- The roles and the pointers stay, no dog is freed and no parser is new. -/
theorem Inv.of_same (h : t.Inv) {s : Server}
    (htype : ∀ j, (s.ClientInfo j).lType = (t.srv.ClientInfo j).lType)
    (hdog : ∀ j, (s.ClientInfo j).CuteDog = (t.srv.ClientInfo j).CuteDog)
    (hPrs : ∀ j, (t.srv.ClientInfo j).Prs = false → (s.ClientInfo j).Prs = false)
    (halive : ∀ d, (t.srv.dogs d).isSome → (s.dogs d).isSome) : { t with srv := s }.Inv where
  roles := h.roles.of_same htype hdog halive
  atPc := by
    have hat := h.atPc
    show AtPc { t with srv := s } t.io
    cases hio : t.io with
    | idle => trivial
    | checked σ =>
        rw [hio] at hat
        exact hat
    | stored σ =>
        rw [hio] at hat
        exact hat
    | parserGone σ =>
        rw [hio] at hat
        intro hrole
        rw [htype] at hrole
        exact hat hrole
    | nosed σ =>
        rw [hio] at hat
        intro d hd
        rw [hdog] at hd
        exact hat d hd
    | notPioneer σ =>
        rw [hio] at hat
        intro hrole
        rw [htype] at hrole
        exact hat hrole
  gone σ hσ := ⟨(h.gone σ hσ).1, fun hnth => hPrs σ.slot ((h.gone σ hσ).2 hnth)⟩
  once := h.once
  own := h.own

/-- The registry is the same. -/
theorem Inv.of_registry (h : t.Inv) {s : Server} (hreg : s.registry = t.srv.registry) :
    { t with srv := s }.Inv := by
  have hseat : ∀ j, (s.ClientInfo j).seat = (t.srv.ClientInfo j).seat := fun j =>
    congrFun (congrArg Registry.seat hreg) j
  have hdogs : s.dogs = t.srv.dogs := congrArg Registry.dogs hreg
  exact h.of_same (fun j => congrArg Seat.lType (hseat j)) (fun j => congrArg Seat.CuteDog (hseat j))
    (fun j hnone => (congrArg Seat.Prs (hseat j)).trans hnone) (fun d hd => by rwa [hdogs])

/-- Only the status of one client changed. -/
theorem Inv.of_toEnd (h : t.Inv) {s : Server} {i : Slot}
    (hreg : s.registry = t.srv.registry.toEnd i) : { t with srv := s }.Inv := by
  have hseat : ∀ j, (s.ClientInfo j).seat = (t.srv.registry.toEnd i).seat j := fun j =>
    congrFun (congrArg Registry.seat hreg) j
  -- `CLIENTTOEND` only sets the status
  have hkept : ∀ j, ((t.srv.registry.toEnd i).seat j).lType = (t.srv.ClientInfo j).lType ∧
      ((t.srv.registry.toEnd i).seat j).CuteDog = (t.srv.ClientInfo j).CuteDog ∧
      ((t.srv.registry.toEnd i).seat j).Prs = (t.srv.ClientInfo j).Prs := by
    intro j
    by_cases hji : j = i
    · rw [hji, Registry.toEnd, Registry.seat_setSeat_self]
      exact ⟨rfl, rfl, rfl⟩
    · rw [Registry.toEnd, Registry.seat_setSeat_of_ne _ _ hji]
      exact ⟨rfl, rfl, rfl⟩
  have hdogs : s.dogs = t.srv.dogs := congrArg Registry.dogs hreg
  refine h.of_same (fun j => ?_) (fun j => ?_) (fun j hnone => ?_) (fun d hd => by rwa [hdogs])
  · exact (congrArg Seat.lType (hseat j)).trans (hkept j).1
  · exact (congrArg Seat.CuteDog (hseat j)).trans (hkept j).2.1
  · exact (congrArg Seat.Prs (hseat j)).trans ((hkept j).2.2.trans hnone)

/-! ## Deleted parsers -/

/-- The parser a slot has was not deleted. -/
theorem Inv.not_deleted (h : t.Inv) {i : Slot} (hPrs : (t.srv.ClientInfo i).Prs = true) :
    t.session i ∉ t.deleted := by
  intro hmem
  have hnone : (t.srv.ClientInfo i).Prs = false := (h.gone _ hmem).2 rfl
  rw [hPrs] at hnone
  cases hnone

/-- The parser of the session in a slot is deleted. -/
theorem Inv.delete (h : t.Inv) {i : Slot} (hnone : (t.srv.ClientInfo i).Prs = false)
    (hnew : t.session i ∉ t.deleted) : { t with deleted := t.session i :: t.deleted }.Inv where
  roles := h.roles
  atPc := by
    have hat := h.atPc
    show AtPc _ t.io
    cases hio : t.io with
    | idle => trivial
    | checked σ => rwa [hio] at hat
    | stored σ => rwa [hio] at hat
    | parserGone σ => rwa [hio] at hat
    | nosed σ => rwa [hio] at hat
    | notPioneer σ => rwa [hio] at hat
  gone σ hσ := by
    rcases List.mem_cons.mp hσ with rfl | hσ
    · exact ⟨Nat.le_refl _, fun _ => hnone⟩
    · exact h.gone σ hσ
  once := List.nodup_cons.mpr ⟨hnew, h.once⟩
  own := h.own

/-! ## The receive thread -/

/-- One slot has no role any more and its pointer is kept. -/
theorem AtPc.of_unknown {t' : Teardown} {i : Slot} {pc : IoPc} (h : t.AtPc pc)
    (hpc : ∀ σ, (pc = .checked σ ∨ pc = .stored σ) → t'.nth σ.slot = t.nth σ.slot)
    (htype : (t'.srv.ClientInfo i).lType = .CLIENT_UNKNOWN)
    (hkept : ∀ j, j ≠ i → (t'.srv.ClientInfo j).lType = (t.srv.ClientInfo j).lType ∧
      t'.nth j = t.nth j)
    (hdog : ∀ j, (t'.srv.ClientInfo j).CuteDog = (t.srv.ClientInfo j).CuteDog)
    (hcreator : t'.creator = t.creator) : t'.AtPc pc := by
  -- a slot with a role is another one, and its session is the same
  have hrole : ∀ σ : Session, ((t.srv.ClientInfo σ.slot).lType ≠ .CLIENT_UNKNOWN →
      t.session σ.slot = σ) → (t'.srv.ClientInfo σ.slot).lType ≠ .CLIENT_UNKNOWN →
        t'.session σ.slot = σ := by
    intro σ hσ hne
    have hji : σ.slot ≠ i := by
      intro heq
      rw [heq] at hne
      exact hne htype
    obtain ⟨htype', hnth⟩ := hkept σ.slot hji
    rw [htype'] at hne
    rw [session, hnth]
    exact hσ hne
  cases pc with
  | idle => trivial
  | checked σ =>
      show t'.session σ.slot = σ
      rw [session, hpc σ (Or.inl rfl)]
      exact h
  | stored σ =>
      show t'.session σ.slot = σ
      rw [session, hpc σ (Or.inr rfl)]
      exact h
  | parserGone σ => exact hrole σ h
  | nosed σ =>
      intro d hd
      rw [hdog] at hd
      rw [hcreator]
      exact h d hd
  | notPioneer σ => exact hrole σ h

/-- A slot is recycled. -/
theorem Inv.recycle (h : t.Inv) {s : Server} {i : Slot}
    (hreg : s.registry = t.srv.registry.recycle i) : { t with srv := s }.Inv ∧
      (s.ClientInfo i).Prs = false := by
  have hseat : ∀ j, (s.ClientInfo j).seat = (t.srv.registry.recycle i).seat j := fun j =>
    congrFun (congrArg Registry.seat hreg) j
  -- the slot is as new, but for its pointer to a dog
  have hself : ∀ j, j = i → (s.ClientInfo j).seat =
      { (t.srv.ClientInfo j).seat with
        lType := .CLIENT_UNKNOWN, lStatus := .STATUS_UNKNOWN, Prs := false } := by
    intro j hji
    rw [hseat, hji, Registry.recycle, Registry.seat_setSeat_self]
    rfl
  have hother : ∀ j, j ≠ i → (s.ClientInfo j).seat = (t.srv.ClientInfo j).seat := by
    intro j hji
    rw [hseat, Registry.recycle, Registry.seat_setSeat_of_ne _ _ hji]
    rfl
  have htype : (s.ClientInfo i).lType = .CLIENT_UNKNOWN := congrArg Seat.lType (hself i rfl)
  have hPrs : (s.ClientInfo i).Prs = false := congrArg Seat.Prs (hself i rfl)
  have hdogs : s.registry.dogs = t.srv.registry.dogs := by
    rw [hreg]
    rfl
  refine ⟨⟨?_, ?_, ?_, h.once, h.own⟩, hPrs⟩
  · exact h.roles.of_unknown (i := i) htype hother hdogs fun _ _ => rfl
  · refine h.atPc.of_unknown (i := i) (fun _ _ => rfl) htype
      (fun j hji => ⟨congrArg Seat.lType (hother j hji), rfl⟩) (fun j => ?_) rfl
    by_cases hji : j = i
    · exact congrArg Seat.CuteDog (hself j hji)
    · exact congrArg Seat.CuteDog (hother j hji)
  · intro σ hσ
    refine ⟨(h.gone σ hσ).1, fun hnth => ?_⟩
    by_cases hji : σ.slot = i
    · rw [hji]
      exact hPrs
    · have hsame := congrArg Seat.Prs (hother _ hji)
      exact hsame.trans ((h.gone σ hσ).2 hnth)

/-- A connection gets a slot; it is not one whose parser is still to be deleted. -/
theorem Inv.accept (h : t.Inv) {s : Server} {i : Slot} {rest : List Slot}
    (hreg : s.registry = t.srv.registry.accept i rest)
    (hfree : ∀ σ : Session, σ.slot = i → t.io ≠ .checked σ ∧ t.io ≠ .stored σ) :
    { t with srv := s, nth := Function.update t.nth i (t.nth i + 1) }.Inv := by
  have hseat : ∀ j, (s.ClientInfo j).seat = (t.srv.registry.accept i rest).seat j := fun j =>
    congrFun (congrArg Registry.seat hreg) j
  have hself : ∀ j, j = i → (s.ClientInfo j).seat =
      { (t.srv.ClientInfo j).seat with
        lType := .CLIENT_UNKNOWN, lStatus := .STATUS_UNKNOWN, Prs := true } := by
    intro j hji
    rw [hseat, hji, Registry.accept, Registry.seat_setSeat_self]
    rfl
  have hother : ∀ j, j ≠ i → (s.ClientInfo j).seat = (t.srv.ClientInfo j).seat := by
    intro j hji
    rw [hseat, Registry.accept, Registry.seat_setSeat_of_ne _ _ hji]
    rfl
  have htype : (s.ClientInfo i).lType = .CLIENT_UNKNOWN := congrArg Seat.lType (hself i rfl)
  have hnth : ∀ j, j ≠ i → Function.update t.nth i (t.nth i + 1) j = t.nth j := fun j hji =>
    Function.update_of_ne hji _ _
  have hdogs : s.registry.dogs = t.srv.registry.dogs := by
    rw [hreg]
    rfl
  refine ⟨?_, ?_, ?_, h.once, h.own⟩
  · exact h.roles.of_unknown (i := i) htype hother hdogs hnth
  · refine h.atPc.of_unknown (i := i) (fun σ hσ => hnth σ.slot fun heq => ?_) htype
      (fun j hji => ⟨congrArg Seat.lType (hother j hji), hnth j hji⟩) (fun j => ?_) rfl
    · rcases hσ with hσ | hσ
      · exact (hfree σ heq).1 hσ
      · exact (hfree σ heq).2 hσ
    · by_cases hji : j = i
      · exact congrArg Seat.CuteDog (hself j hji)
      · exact congrArg Seat.CuteDog (hother j hji)
  · intro σ hσ
    obtain ⟨hle, hnone⟩ := h.gone σ hσ
    show σ.nth ≤ Function.update t.nth i (t.nth i + 1) σ.slot ∧
      (σ.nth = Function.update t.nth i (t.nth i + 1) σ.slot → _)
    by_cases hji : σ.slot = i
    · rw [hji, Function.update_self]
      rw [hji] at hle
      -- a deleted parser was of an older connection of this slot
      exact ⟨by omega, fun heq => by omega⟩
    · rw [hnth _ hji]
      refine ⟨hle, fun heq => ?_⟩
      rw [show (s.ClientInfo σ.slot).Prs = (t.srv.ClientInfo σ.slot).Prs from
        congrArg Seat.Prs (hother _ hji)]
      exact hnone heq

/-! ## The IO thread -/

/-- A stanza is handled outside the close branch. -/
theorem Inv.request (h : t.Inv) {s : Server} {i : Slot} {o : Outcome} {cell : Prop} {q : Request}
    (hidle : t.io = .idle) (hc : Registry.Changed i o cell q t.srv.registry s.registry)
    (hcancel : q = .cancel → ∀ d, (t.srv.ClientInfo i).CuteDog = some d →
      t.creator d = t.session i) :
    { t with
      srv := s
      creator := creatorAfter t.srv.dogs s.dogs (t.session i) t.creator
      hooked := hookedAfter q (s.ClientInfo i).lType (t.session i) t.hooked }.Inv where
  roles := h.roles.changed hc hcancel
  atPc := by
    show AtPc _ t.io
    rw [hidle]
    trivial
  gone σ hσ := ⟨(h.gone σ hσ).1, fun hnth => (hc.status_eq _).1.trans ((h.gone σ hσ).2 hnth)⟩
  once := h.once
  own := h.own

/-- A step of the close branch that keeps the invariant on the server's side. -/
theorem Inv.act {s : Server} {io : IoPc} {acts : List Act} (h : { t with srv := s }.Inv)
    (hat : (t.act s io acts).AtPc io) (hown : ∀ a ∈ acts, a.belongs = a.started) :
    (t.act s io acts).Inv where
  roles := h.roles
  atPc := hat
  gone := h.gone
  once := h.once
  own a ha := by
    rcases List.mem_append.mp ha with ha | ha
    · exact h.own a ha
    · exact hown a ha

theorem Inv.store (h : t.Inv) {σ : Session} (hio : t.io = .checked σ) :
    (t.act (t.srv.ioClosed σ.slot) (.stored σ) []).Inv := by
  have hkept : ∀ j, ((t.srv.ioClosed σ.slot).ClientInfo j).lType = (t.srv.ClientInfo j).lType ∧
      ((t.srv.ioClosed σ.slot).ClientInfo j).CuteDog = (t.srv.ClientInfo j).CuteDog ∧
      ((t.srv.ioClosed σ.slot).ClientInfo j).Prs = (t.srv.ClientInfo j).Prs := by
    intro j
    by_cases hji : j = σ.slot
    · rw [hji, Server.ioClosed, Server.setClient_ClientInfo_self]
      exact ⟨rfl, rfl, rfl⟩
    · rw [Server.ioClosed, Server.setClient_ClientInfo_of_ne _ _ hji]
      exact ⟨rfl, rfl, rfl⟩
  have hat : t.session σ.slot = σ := by
    have hat := h.atPc
    rw [hio] at hat
    exact hat
  refine Inv.act ?_ hat (fun a ha => by cases ha)
  exact h.of_same (fun j => (hkept j).1) (fun j => (hkept j).2.1)
    (fun j hnone => (hkept j).2.2.trans hnone) (fun _ hd => hd)

/-- The parser that is deleted is the one of the session, since the session is still in the slot. -/
theorem Inv.deleteParser (h : t.Inv) {σ : Session} (hio : t.io = .stored σ) :
    (t.deleteParser σ).Inv := by
  have hat : t.session σ.slot = σ := by
    have hat := h.atPc
    rw [hio] at hat
    exact hat
  have hkept : ∀ j, ((t.srv.setClient σ.slot fun ci => { ci with Prs := false }).ClientInfo j).lType =
        (t.srv.ClientInfo j).lType ∧
      ((t.srv.setClient σ.slot fun ci => { ci with Prs := false }).ClientInfo j).CuteDog =
        (t.srv.ClientInfo j).CuteDog ∧
      ((t.srv.ClientInfo j).Prs = false →
        ((t.srv.setClient σ.slot fun ci => { ci with Prs := false }).ClientInfo j).Prs = false) := by
    intro j
    by_cases hji : j = σ.slot
    · rw [hji, Server.setClient_ClientInfo_self]
      exact ⟨rfl, rfl, fun _ => rfl⟩
    · rw [Server.setClient_ClientInfo_of_ne _ _ hji]
      exact ⟨rfl, rfl, id⟩
  have hsrv := h.of_same (fun j => (hkept j).1) (fun j => (hkept j).2.1) (fun j => (hkept j).2.2)
    (fun _ hd => hd)
  unfold Teardown.deleteParser
  dsimp only
  split
  · rename_i hPrs
    have hacts : (t.act _ (.parserGone σ) [⟨σ, t.session σ.slot⟩]).Inv := Inv.act hsrv
      (fun _ => hat) (fun a ha => by rw [List.mem_singleton.mp ha]; exact hat)
    refine hacts.delete (i := σ.slot) ?_ (h.not_deleted hPrs)
    show ((t.srv.setClient σ.slot fun ci => { ci with Prs := false }).ClientInfo σ.slot).Prs = false
    rw [Server.setClient_ClientInfo_self]
  · exact Inv.act hsrv (fun _ => hat) (fun a ha => by cases ha)

/-- A pioneer whose session is in the slot points to a dog of its own. -/
theorem Inv.own_dog (h : t.Inv) {σ : Session} (hio : t.io = .parserGone σ)
    (htype : (t.srv.ClientInfo σ.slot).lType = .CLIENT_USER_PIONEER) {d : DogPtr}
    (hd : (t.srv.ClientInfo σ.slot).CuteDog = some d) : t.creator d = σ := by
  have hat := h.atPc
  rw [hio] at hat
  have hσ : t.session σ.slot = σ := hat (by
    rw [htype]
    decide)
  exact (h.roles.pioneer σ.slot d htype hd).1.trans hσ

theorem onDog_own {σ : Session}
    (h : ∀ d, (t.srv.ClientInfo σ.slot).CuteDog = some d → t.creator d = σ) :
    ∀ a ∈ t.onDog σ, a.belongs = a.started := by
  unfold onDog
  split
  · intro a ha
    cases ha
  · rename_i d hd
    intro a ha
    rw [List.mem_singleton.mp ha]
    exact h d hd

theorem Inv.stopNose (h : t.Inv) {σ : Session} {o : Outcome} {t' : Teardown}
    (hio : t.io = .parserGone σ) (hstep : t.stopNose σ o = some t') : t'.Inv := by
  unfold Teardown.stopNose at hstep
  split at hstep
  · rename_i htype
    simp only [Option.bind_eq_bind, Option.bind_eq_some_iff] at hstep
    obtain ⟨⟨Ret, s⟩, hstop, hstep⟩ := hstep
    cases hstep
    -- the pioneer that is closed made the dog it points to
    have hdog : ∀ d, (t.srv.ClientInfo σ.slot).CuteDog = some d → t.creator d = σ := fun d hd =>
      h.own_dog hio htype hd
    obtain ⟨-, rfl⟩ | ⟨d, dog, dog', -, hdog', -, hreg⟩ := Server.registry_StopDogNose hstop
    · exact Inv.act h hdog (onDog_own hdog)
    · have hseat : ∀ j, (s.ClientInfo j).seat = (t.srv.ClientInfo j).seat := fun j =>
        (congrFun (congrArg Registry.seat hreg) j).trans
          (congrFun (Registry.seat_stop t.srv.registry dog.Handle o.pthread_cancel) j)
      have hdogs : s.dogs = Function.update t.srv.dogs d (some dog') :=
        congrArg Registry.dogs hreg
      refine Inv.act (h.of_same (fun j => congrArg Seat.lType (hseat j))
        (fun j => congrArg Seat.CuteDog (hseat j))
        (fun j hnone => (congrArg Seat.Prs (hseat j)).trans hnone) fun e he => ?_) ?_ (onDog_own hdog)
      · rw [hdogs]
        by_cases hed : e = d
        · rw [hed, Function.update_self]
          rfl
        · rw [Function.update_of_ne hed]
          exact he
      · intro e he
        exact hdog e ((congrArg Seat.CuteDog (hseat σ.slot)).symm.trans he)
  · cases hstep
    have hat := h.atPc
    rw [hio] at hat
    exact Inv.act h hat (fun a ha => by cases ha)

theorem Inv.delCuteDog (h : t.Inv) {σ : Session} {t' : Teardown} (hio : t.io = .nosed σ)
    (hstep : t.delCuteDog σ = some t') : t'.Inv := by
  have hdog : ∀ d, (t.srv.ClientInfo σ.slot).CuteDog = some d → t.creator d = σ := by
    have hat := h.atPc
    rw [hio] at hat
    exact hat
  simp only [Teardown.delCuteDog, Option.bind_eq_bind, Option.bind_eq_some_iff] at hstep
  obtain ⟨⟨b, s⟩, hdel, hstep⟩ := hstep
  cases hstep
  obtain ⟨-, rfl⟩ | ⟨d, hd, -, hreg⟩ := Server.registry_DelCuteDogInList hdel
  · exact Inv.act h trivial (onDog_own hdog)
  · have hroles := h.roles.free (i := σ.slot) (congrArg Session.slot (hdog d hd))
    rw [← hreg] at hroles
    have hPrs : ∀ j, (s.ClientInfo j).Prs = (t.srv.ClientInfo j).Prs := by
      intro j
      have hseat : (s.ClientInfo j).seat = (t.srv.registry.free σ.slot d).seat j :=
        congrFun (congrArg Registry.seat hreg) j
      refine (congrArg Seat.Prs hseat).trans ?_
      by_cases hji : j = σ.slot
      · rw [hji, Registry.free, Registry.seat_setSeat_self]
        rfl
      · rw [Registry.free, Registry.seat_setSeat_of_ne _ _ hji]
        rfl
    exact {
      roles := hroles
      atPc := trivial
      gone := fun τ hτ => ⟨(h.gone τ hτ).1, fun hnth => (hPrs _).trans ((h.gone τ hτ).2 hnth)⟩
      once := h.once
      own := fun a ha => by
        rcases List.mem_append.mp ha with ha | ha
        · exact h.own a ha
        · exact onDog_own hdog a ha }

theorem Inv.delHooker (h : t.Inv) {σ : Session} {t' : Teardown} (hio : t.io = .notPioneer σ)
    (hstep : t.delHooker σ = some t') : t'.Inv := by
  unfold Teardown.delHooker at hstep
  split at hstep
  · rename_i htype
    simp only [Option.bind_eq_bind, Option.bind_eq_some_iff] at hstep
    obtain ⟨⟨unlinked, s⟩, hdel, hstep⟩ := hstep
    cases hstep
    have hat := h.atPc
    rw [hio] at hat
    -- the slot has a role, so it is still the session that was closed
    have hσ : t.session σ.slot = σ := hat (by
      rw [htype]
      decide)
    refine Inv.act (h.of_registry (Server.registry_DelHookerInCuteDog hdel)) trivial fun a ha => ?_
    cases unlinked with
    | false => cases ha
    | true =>
        rw [List.mem_singleton.mp ha]
        exact (h.roles.hooker σ.slot htype).trans hσ
  · cases hstep
    exact Inv.act h trivial (fun a ha => by cases ha)

end Teardown

/-! ## Runs -/

section Runs

variable {ι : Type} [Iksemel ι] {t t' : Teardown} {align : MsgCell → Nat}

theorem Teardown.inv_init : (teardownInit align).Inv where
  roles := ⟨fun i d h => (by cases h), fun i h => (by cases h)⟩
  atPc := trivial
  gone _ h := by cases h
  once := List.nodup_nil
  own _ h := by cases h

/-- A whole operation keeps the invariant. -/
theorem Teardown.Inv.whole (h : t.Inv) {a : ServerAction ι} {s : Server}
    (hblocked : t.blocked a = false) (hguard : NoOverrun t (.whole a))
    (hstep : serverStep t.srv a = some s) : (t.note s a).Inv := by
  have hfollows := serverStep_follows hstep
  cases a with
  | accept sd =>
      obtain ⟨hnil, hreg⟩ | ⟨i, rest, hfree, hreg⟩ := hfollows
      · rw [Teardown.note, hnil]
        exact h.of_registry hreg
      · rw [Teardown.note, hfree]
        refine h.accept hreg fun σ hσ => hguard σ rest ?_
        rw [hfree, hσ]
  | stanza i type node o =>
      -- a stanza waits until the close branch is done
      have hidle : t.io = .idle := by
        by_contra hne
        rw [Teardown.blocked, decide_eq_true hne] at hblocked
        cases hblocked
      exact h.request hidle hfollows.2.2 hguard
  | shutdown i o => cases hblocked
  | packet c p => exact h.of_registry hfollows
  | loopReturns c =>
      have hseat : ∀ j, (s.ClientInfo j).seat = (t.srv.ClientInfo j).seat := fun j =>
        congrFun (congrArg Registry.seat hfollows) j
      have hdogs : s.dogs = t.srv.dogs := congrArg Registry.dogs hfollows
      exact h.of_same (fun j => congrArg Seat.lType (hseat j))
        (fun j => congrArg Seat.CuteDog (hseat j))
        (fun j hnone => (congrArg Seat.Prs (hseat j)).trans hnone) (fun d hd => by rwa [hdogs])
  | drain => exact h.of_registry hfollows
  | pickUp i => exact h.of_registry hfollows
  | send i sn =>
      obtain hreg | hreg := hfollows
      · exact h.of_registry hreg
      · exact h.of_toEnd hreg
  | toEnd i => exact h.of_toEnd hfollows
  | recycle i =>
      -- recycling deletes the parser when the slot still has one
      obtain ⟨hinv, hnone⟩ := h.recycle hfollows.2.2
      rw [Teardown.note]
      split
      · rename_i hPrs
        exact hinv.delete hnone (h.not_deleted hPrs)
      · exact hinv
  | allocator answer => exact h.of_registry hfollows

/-- **One step**, of the IO thread or of another one. -/
theorem Teardown.Inv.step (h : t.Inv) {a : TeardownAction ι} (hguard : NoOverrun t a)
    (hstep : teardownStep t a = some t') : t'.Inv := by
  cases a with
  | whole a =>
      rw [teardownStep] at hstep
      split at hstep
      · cases hstep
      · rename_i hblocked
        simp only [Option.map_eq_some_iff] at hstep
        obtain ⟨s, hs, rfl⟩ := hstep
        exact h.whole (Bool.eq_false_iff.mpr hblocked) hguard hs
  | check i =>
      rw [teardownStep] at hstep
      split at hstep
      · split at hstep
        · cases hstep
          exact ⟨h.roles, rfl, h.gone, h.once, h.own⟩
        · cases hstep
      · cases hstep
  | store =>
      rw [teardownStep] at hstep
      split at hstep
      · rename_i hio
        cases hstep
        exact h.store hio
      · cases hstep
  | deleteParser =>
      rw [teardownStep] at hstep
      split at hstep
      · rename_i hio
        cases hstep
        exact h.deleteParser hio
      · cases hstep
  | stopNose o =>
      rw [teardownStep] at hstep
      split at hstep
      · rename_i hio
        exact h.stopNose hio hstep
      · cases hstep
  | cleanRegistry =>
      rw [teardownStep] at hstep
      split at hstep
      · rename_i hio
        exact h.delCuteDog hio hstep
      · rename_i hio
        exact h.delHooker hio hstep
      · cases hstep

/-! ## Connections, and a close branch of its own -/

/-- What a recycling is recorded as leaves the IO thread and the sessions alone. -/
theorem note_recycle (t : Teardown) (s : Server) (i : Slot) :
    (t.note s (.recycle i : ServerAction ι)).srv = s ∧
      (t.note s (.recycle i : ServerAction ι)).io = t.io ∧
      (t.note s (.recycle i : ServerAction ι)).nth = t.nth ∧
      (t.note s (.recycle i : ServerAction ι)).acts = t.acts := by
  rw [Teardown.note]
  split
  · exact ⟨rfl, rfl, rfl, rfl⟩
  · exact ⟨rfl, rfl, rfl, rfl⟩

theorem acts_deleteParser {σ : Session} (hPrs : (t.srv.ClientInfo σ.slot).Prs = true) :
    (t.deleteParser σ).acts = t.acts ++ [⟨σ, t.session σ.slot⟩] := by
  unfold Teardown.deleteParser
  rw [if_pos hPrs]
  rfl

theorem FreeClientList_recycle (s : Server) (i : Slot) :
    (s.recycle i).FreeClientList = i :: s.FreeClientList := by
  obtain ⟨ring, pushed, -, heq⟩ := Server.recycle_spec i s
  rw [heq]

/-- A connection gets the first free slot, outside the close branch or elsewhere. -/
theorem step_accept {i : Slot} {rest : List Slot} (hfree : t.srv.FreeClientList = i :: rest)
    (sd : Nat) : teardownStep (ι := ι) t (.whole (.accept sd)) =
      some { t with
        srv := t.srv.acceptClient sd, nth := Function.update t.nth i (t.nth i + 1) } := by
  show (some (t.srv.acceptClient sd)).map (fun s => t.note s (.accept sd : ServerAction ι)) = _
  rw [Option.map_some, Teardown.note, hfree]

/-- The first connection after `InitServer`. -/
theorem first_accept (align : MsgCell → Nat) (sd : Nat) :
    ∃ t i, Reach (teardownStep (ι := ι)) NoOverrun (teardownInit align) t ∧ t.io = .idle ∧
      i ∈ t.srv.WorkClientList ∧ (t.srv.ClientInfo i).seat.lStatus = .STATUS_UNKNOWN ∧
      (t.srv.ClientInfo i).seat.Prs = true ∧ t.acts = [] := by
  have hne : (List.finRange CLIENTNUM).reverse ≠ [] := by decide
  obtain ⟨i, rest, hfree⟩ := List.exists_cons_of_ne_nil hne
  obtain ⟨hwork, hseat⟩ := Server.seat_acceptClient (s := (teardownInit align).srv) hfree sd
  refine ⟨_, i, Reach.start.next ?_ (step_accept (t := teardownInit align) hfree sd), rfl, hwork,
    ?_, ?_, rfl⟩
  · intro σ _ _
    constructor
    · intro h
      cases h
    · intro h
      cases h
  · exact congrArg Seat.lStatus hseat
  · exact congrArg Seat.Prs hseat

/-- **Teardown.** In every run in which no connection gets a slot between the comparison of the
session and the deletion of its parser, and no client cancels a dog that another session created,
every step of a `FreeObj` acts on the parser, the dog and the hook link of the session it was started
for, and no parser is deleted twice. -/
theorem teardown_own (h : Reach (teardownStep (ι := ι)) NoOverrun (teardownInit align) t) :
    t.OwnOnly ∧ t.deleted.Nodup := by
  have hinv := h.invariant Teardown.inv_init (fun _ _ _ hinv hguard hstep => hinv.step hguard hstep)
  exact ⟨hinv.own, hinv.once⟩

/-- Two sessions of one slot, the second after the first was closed and the slot recycled: each of the
two parsers was acted on for its own session. -/
theorem teardown_own_recycled : ∃ t : Teardown,
    t.acts = [⟨⟨15, 1⟩, ⟨15, 1⟩⟩, ⟨⟨15, 2⟩, ⟨15, 2⟩⟩] ∧ t.OwnOnly ∧ t.deleted.Nodup := by
  have hrun : ∀ filled, ∃ t, Reach (teardownStep (ι := Iks)) NoOverrun
      { teardownInit (fun _ => 0) with srv := initialServer (fun _ => 0) filled } t ∧
        t.acts = [⟨⟨15, 1⟩, ⟨15, 1⟩⟩, ⟨⟨15, 2⟩, ⟨15, 2⟩⟩] := by
    intro filled
    obtain ⟨t₁, t₂, t₃, t, hfirst, hclose, hidle, hsecond, hclose', hacts⟩ : ∃ t₁ t₂ t₃ t,
        teardownStep (ι := Iks)
          { teardownInit (fun _ => 0) with srv := initialServer (fun _ => 0) filled }
          (.whole (.accept 4)) = some t₁ ∧
        execAll (teardownStep (ι := Iks)) [.check 15, .store, .deleteParser, .stopNose .allSucceed,
          .cleanRegistry, .whole (.recycle 15)] t₁ = some t₂ ∧ t₂.io = .idle ∧
        teardownStep (ι := Iks) t₂ (.whole (.accept 5)) = some t₃ ∧
        execAll (teardownStep (ι := Iks)) [.check 15, .store, .deleteParser] t₃ = some t ∧
        t.acts = [⟨⟨15, 1⟩, ⟨15, 1⟩⟩, ⟨⟨15, 2⟩, ⟨15, 2⟩⟩] := ⟨_, _, _, _, rfl, rfl, rfl, rfl, rfl, rfl⟩
    have haccept : ∀ (t : Teardown) (sd : Nat), t.io = .idle →
        NoOverrun t (.whole (.accept sd) : TeardownAction Iks) := by
      intro t sd hidle σ rest _
      rw [hidle]
      exact ⟨fun h => (by cases h), fun h => (by cases h)⟩
    have hany : ∀ a ∈ [.check 15, .store, .deleteParser, .stopNose .allSucceed, .cleanRegistry,
        .whole (.recycle 15)], ∀ t, NoOverrun t (a : TeardownAction Iks) := by
      simp only [List.forall_mem_cons]
      exact ⟨fun _ => trivial, fun _ => trivial, fun _ => trivial, fun _ => trivial, fun _ => trivial,
        fun _ => trivial, fun a ha => (by cases ha)⟩
    refine ⟨t, ?_, hacts⟩
    have h₁ := Reach.start.next (haccept _ 4 rfl) hfirst
    have h₂ := (h₁.trans (reach_of_execAll_of hany hclose)).next (haccept t₂ 5 hidle) hsecond
    exact h₂.trans (reach_of_execAll_of (fun a ha => hany a (List.mem_append_left _ ha)) hclose')
  obtain ⟨t, hreach, hacts⟩ := hrun (fillFree (DOG2CATIOMSGNUM - 1) (Nat.le_refl _))
  exact ⟨t, hacts, teardown_own hreach⟩

/-- In every state in which a session can be closed, its slot can be recycled and given to a
connection before `FreeObj` deletes the parser, which is then the one of that connection. -/
theorem overrun {i : Slot} (hidle : t.io = .idle) (hwork : i ∈ t.srv.WorkClientList)
    (hstatus : (t.srv.ClientInfo i).lStatus ≠ .STATUS_IOCMDCLOSE) (sd : Nat) :
    ∃ t', Reach (teardownStep (ι := ι)) AnyStep t t' ∧
      t'.acts = t.acts ++ [⟨⟨i, t.nth i⟩, ⟨i, t.nth i + 1⟩⟩] := by
  have hcheck : teardownStep (ι := ι) t (.check i) =
      some { t with io := .checked (t.session i) } := by
    rw [teardownStep, hidle]
    exact if_pos ⟨hwork, hstatus⟩
  have h1 := (Reach.start (C := AnyStep)).next trivial hcheck
  have h2 := h1.next (a := .store) trivial rfl
  -- the receive thread finds the client in `STATUS_IOCLOSEED`
  obtain ⟨s₂, hs₂⟩ : ∃ s, s = t.srv.ioClosed i := ⟨_, rfl⟩
  have hclosed : (s₂.ClientInfo i).lStatus = .STATUS_IOCLOSEED := by
    rw [hs₂, Server.ioClosed, Server.setClient_ClientInfo_self]
  have hwork₂ : i ∈ s₂.WorkClientList := by
    rw [hs₂]
    exact hwork
  rw [show (t.session i).slot = i from rfl] at h2
  rw [← hs₂] at h2
  obtain ⟨t₂, ht₂⟩ : ∃ t₂, t₂ = ({ t with io := .checked (t.session i) } : Teardown).act s₂
    (.stored (t.session i)) [] := ⟨_, rfl⟩
  rw [← ht₂] at h2
  have hrecycle : teardownStep (ι := ι) t₂ (.whole (.recycle i)) =
      some (t₂.note (s₂.recycle i) (.recycle i : ServerAction ι)) := by
    have hserver : serverStep (ι := ι) s₂ (.recycle i) = some (s₂.recycle i) :=
      if_pos ⟨hwork₂, hclosed⟩
    rw [teardownStep, ht₂]
    show (serverStep s₂ (.recycle i)).map _ = _
    rw [hserver]
    rfl
  have h3 := h2.next trivial hrecycle
  obtain ⟨hsrv, hio, hnth, hacts⟩ := note_recycle (ι := ι) t₂ (s₂.recycle i) i
  obtain ⟨t₃, ht₃⟩ : ∃ t₃, t₃ = t₂.note (s₂.recycle i) (.recycle i : ServerAction ι) := ⟨_, rfl⟩
  rw [← ht₃] at h3 hsrv hio hnth hacts
  have hfree : t₃.srv.FreeClientList = i :: s₂.FreeClientList := by
    rw [hsrv, FreeClientList_recycle]
  have h4 := h3.next trivial (step_accept hfree sd)
  -- the IO thread goes on with the slot
  have hparser : ((t₃.srv.acceptClient sd).ClientInfo i).Prs = true :=
    congrArg Seat.Prs (Server.seat_acceptClient hfree sd).2
  have hstored : t₃.io = .stored (t.session i) := by
    rw [hio, ht₂]
    rfl
  have hdelete : teardownStep (ι := ι) { t₃ with
      srv := t₃.srv.acceptClient sd, nth := Function.update t₃.nth i (t₃.nth i + 1) }
      .deleteParser = some (Teardown.deleteParser { t₃ with
        srv := t₃.srv.acceptClient sd, nth := Function.update t₃.nth i (t₃.nth i + 1) }
        (t.session i)) := by
    rw [teardownStep]
    simp only [hstored]
  refine ⟨_, h4.next trivial hdelete, (acts_deleteParser hparser).trans ?_⟩
  show t₃.acts ++ [⟨t.session i, ⟨i, Function.update t₃.nth i (t₃.nth i + 1) i⟩⟩] = _
  rw [Function.update_self, hacts, hnth, ht₂]
  show (t.acts ++ []) ++ _ = _
  rw [List.append_nil]
  rfl

/-- The second connection gets the slot of the first one and loses its parser to the `FreeObj` that
was started for the first one. -/
theorem teardown_overruns :
    ∃ t, Reach (teardownStep (ι := Iks)) AnyStep (teardownInit fun _ => 0) t ∧ ¬t.OwnOnly := by
  obtain ⟨t, i, hreach, hidle, hwork, hstatus, -, -⟩ := first_accept (ι := Iks) (fun _ => 0) 4
  have hopen : (t.srv.ClientInfo i).lStatus ≠ .STATUS_IOCMDCLOSE := by
    rw [show (t.srv.ClientInfo i).lStatus = .STATUS_UNKNOWN from hstatus]
    decide
  obtain ⟨t', hreach', hacts⟩ := overrun (ι := Iks) hidle hwork hopen 5
  refine ⟨t', hreach.any.trans hreach', fun hown => ?_⟩
  have hsame := hown ⟨⟨i, t.nth i⟩, ⟨i, t.nth i + 1⟩⟩ (by
    rw [hacts]
    exact List.mem_append_right _ List.mem_cons_self)
  have hnth : t.nth i + 1 = t.nth i := congrArg Session.nth hsame
  omega

end Runs

end Netflow
