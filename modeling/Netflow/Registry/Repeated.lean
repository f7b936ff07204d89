import Netflow.Registry.HookRuns
import Netflow.Registry.LoseNotices

set_option autoImplicit false

/-! # A shutdown that is handled again

`ClientRecSndThread` puts a shutdown cell in every turn until the IO thread has handled the first,
and `FreeObj` runs once for each of them. Everything it releases leaves a mark: `Prs` and the `CuteDog`
of the client are NULL afterwards, whatever `pthread_cancel` returned, and the node of a hooker is in
no list (`Closed`). A run that finds these marks releases nothing and changes nothing.
-/

namespace Netflow

/-- What `FreeObj` gives back. -/
inductive Release where
  | iks_parser_delete (i : Slot)
  | pcap_close (h : PcapHandle)
  | free (d : DogPtr)
deriving DecidableEq

namespace Server

def parserReleases (i : Slot) (s : Server) : List Release :=
  if (s.ClientInfo i).Prs then [.iks_parser_delete i] else []

def StopDogNoseReleases (i : Slot) (s : Server) : List Release :=
  match ((s.ClientInfo i).CuteDog.bind s.dogs).bind CUTEDOG.Handle with
  | none => []
  | some h => [.pcap_close h]

def DelCuteDogInListReleases (i : Slot) (s : Server) : List Release :=
  match (s.ClientInfo i).CuteDog with
  | none => []
  | some d => [.free d]

/-- `pClientInfo->Prs = NULL`. -/
def clearPrs (i : Slot) (s : Server) : Server := s.setClient i fun ci => { ci with Prs := false }

/-- `FreeObj` with what it releases, in order. -/
def FreeObjReleases (i : Slot) (o : Outcome) (s : Server) : Option (List Release × Server) :=
  let parser := s.parserReleases i
  let s := s.clearPrs i
  match (s.ClientInfo i).lType with
  | .CLIENT_USER_PIONEER => do
      let (_, s₁) ← s.StopDogNose i o
      let (_, s₂) ← s₁.DelCuteDogInList i
      some (parser ++ s.StopDogNoseReleases i ++ s₁.DelCuteDogInListReleases i, s₂)
  | .CLIENT_USER_HOOKER => do
      let (_, s) ← s.DelHookerInCuteDog i
      some (parser, s)
  | .CLIENT_UNKNOWN => some (parser, s)

/-- `FreeObj` for one outcome after the other. -/
def FreeObjs (i : Slot) : List Outcome → Server → Option (List Release × Server)
  | [], s => some ([], s)
  | o :: os, s => do
      let (first, s) ← s.FreeObjReleases i o
      let (rest, s) ← FreeObjs i os s
      some (first ++ rest, s)

/-- The lists of hookers are circular lists of client nodes, and the client points to no dog or to a
listed one. A node has one `next`, so no client is in two of the lists (`circles_apart`). -/
structure Closable (s : Server) (i : Slot) : Prop where
  dogs : ∀ d ∈ s.CuteDogList, (s.dogs d).isSome = true
  lists : ∀ d ∈ s.CuteDogList, ∃ js : List Slot, Circle s.links (.ListHooker d) (js.map .list1)
  nodes : ∀ j, (s.links (.list1 j)).isSome = true
  listed : ∀ d, (s.ClientInfo i).CuteDog = some d → d ∈ s.CuteDogList

/-- The handle of the client's dog is open; a second `pcap_close` is undefined behaviour. -/
def HandleOpen (s : Server) (i : Slot) : Prop :=
  ∀ d dog h, (s.ClientInfo i).CuteDog = some d → s.dogs d = some dog → dog.Handle = some h →
    h ∈ s.opened ∧ dog.Thid = some .tidp

/-- What the first run leaves behind. -/
structure Closed (s : Server) (i : Slot) : Prop where
  parser : (s.ClientInfo i).Prs = false
  dog : (s.ClientInfo i).lType = .CLIENT_USER_PIONEER → (s.ClientInfo i).CuteDog = none
  hook : (s.ClientInfo i).lType = .CLIENT_USER_HOOKER → s.DelHookerInCuteDog i = some (false, s)

/-- The releases are what is given back on the way from `s` to `s'`. -/
structure GivesBack (i : Slot) (r : List Release) (s s' : Server) : Prop where
  parser : .iks_parser_delete i ∈ r ↔ (s.ClientInfo i).Prs = true ∧ (s'.ClientInfo i).Prs = false
  closed : ∀ h, .pcap_close h ∈ r → h ∈ s.opened ∧ s'.opened = s.opened.erase h
  kept : (∀ h, .pcap_close h ∉ r) → s'.opened = s.opened
  dog : ∀ d, .free d ∈ r ↔ (s.dogs d).isSome = true ∧ s'.dogs d = none

section FreeObj

variable {s s' : Server} {i : Slot} {o : Outcome} {r : List Release}

/-! ## What is released -/

theorem clearPrs_ClientInfo (s : Server) (i : Slot) :
    (s.clearPrs i).ClientInfo i = { s.ClientInfo i with Prs := false } :=
  setClient_ClientInfo_self s i _

/-- **Inversion of `FreeObj`**, by the role of the client. -/
theorem FreeObjReleases_eq_some (h : s.FreeObjReleases i o = some (r, s')) :
    ((s.ClientInfo i).lType = .CLIENT_USER_PIONEER ∧ ∃ Ret s₁ b,
        (s.clearPrs i).StopDogNose i o = some (Ret, s₁) ∧ s₁.DelCuteDogInList i = some (b, s') ∧
        r = s.parserReleases i ++ (s.clearPrs i).StopDogNoseReleases i ++
          s₁.DelCuteDogInListReleases i) ∨
      ((s.ClientInfo i).lType = .CLIENT_USER_HOOKER ∧ ∃ b,
        (s.clearPrs i).DelHookerInCuteDog i = some (b, s') ∧ r = s.parserReleases i) ∨
      ((s.ClientInfo i).lType = .CLIENT_UNKNOWN ∧ s' = s.clearPrs i ∧ r = s.parserReleases i) := by
  have htype : ((s.clearPrs i).ClientInfo i).lType = (s.ClientInfo i).lType := by
    rw [clearPrs_ClientInfo]
  unfold FreeObjReleases at h
  simp only [htype, Option.bind_eq_bind] at h
  split at h
  · next hpioneer =>
      simp only [Option.bind_eq_some_iff] at h
      obtain ⟨⟨Ret, s₁⟩, hstop, ⟨b, s₂⟩, hdel, h⟩ := h
      cases h
      exact Or.inl ⟨hpioneer, Ret, s₁, b, hstop, hdel, rfl⟩
  · next hhooker =>
      simp only [Option.bind_eq_some_iff] at h
      obtain ⟨⟨b, s₁⟩, hdel, h⟩ := h
      cases h
      exact Or.inr (Or.inl ⟨hhooker, b, hdel, rfl⟩)
  · next hunknown =>
      cases h
      exact Or.inr (Or.inr ⟨hunknown, rfl, rfl⟩)

/-- The releases do not change what `FreeObj` does. -/
theorem FreeObjReleases_snd (s : Server) (i : Slot) (o : Outcome) :
    (s.FreeObjReleases i o).map Prod.snd = s.FreeObj i o := by
  obtain ⟨s₀, hs₀⟩ : ∃ s₀, s.clearPrs i = s₀ := ⟨_, rfl⟩
  have hs₀' : (s.setClient i fun ci => { ci with Prs := false }) = s₀ := hs₀
  simp only [FreeObjReleases, FreeObj, hs₀, hs₀', Option.bind_eq_bind]
  cases (s₀.ClientInfo i).lType with
  | CLIENT_UNKNOWN => rfl
  | CLIENT_USER_HOOKER => cases s₀.DelHookerInCuteDog i <;> rfl
  | CLIENT_USER_PIONEER =>
      cases s₀.StopDogNose i o with
      | none => rfl
      | some r =>
          dsimp only [Option.bind_some]
          cases r.2.DelCuteDogInList i <;> rfl

theorem FreeObj_of_releases (h : s.FreeObjReleases i o = some (r, s')) : s.FreeObj i o = some s' := by
  rw [← FreeObjReleases_snd, h, Option.map_some]

theorem parserReleases_eq (s : Server) (i : Slot) :
    s.parserReleases i = [] ∨ s.parserReleases i = [.iks_parser_delete i] := by
  unfold parserReleases
  split
  · exact Or.inr rfl
  · exact Or.inl rfl

theorem eq_of_mem_parserReleases {x : Release} (h : x ∈ s.parserReleases i) :
    x = .iks_parser_delete i := by
  rcases parserReleases_eq s i with hp | hp
  · rw [hp] at h
    cases h
  · rw [hp] at h
    exact List.mem_singleton.mp h

theorem StopDogNoseReleases_eq (s : Server) (i : Slot) :
    s.StopDogNoseReleases i = [] ∨ ∃ h, s.StopDogNoseReleases i = [.pcap_close h] := by
  unfold StopDogNoseReleases
  split
  · exact Or.inl rfl
  · exact Or.inr ⟨_, rfl⟩

theorem DelCuteDogInListReleases_eq (s : Server) (i : Slot) :
    s.DelCuteDogInListReleases i = [] ∨ ∃ d, s.DelCuteDogInListReleases i = [.free d] := by
  unfold DelCuteDogInListReleases
  split
  · exact Or.inl rfl
  · exact Or.inr ⟨_, rfl⟩

/-- One run releases a parser, a handle and a dog at most. -/
theorem nodup_releases (h : s.FreeObjReleases i o = some (r, s')) : r.Nodup := by
  obtain ⟨-, Ret, s₁, b, -, -, rfl⟩ | ⟨-, b, -, rfl⟩ | ⟨-, -, rfl⟩ := FreeObjReleases_eq_some h
  · rcases parserReleases_eq s i with hp | hp <;>
    rcases StopDogNoseReleases_eq (s.clearPrs i) i with hn | ⟨k, hn⟩ <;>
    rcases DelCuteDogInListReleases_eq s₁ i with hd | ⟨d, hd⟩ <;>
    simp [hp, hn, hd]
  all_goals
    rcases parserReleases_eq s i with hp | hp <;> simp [hp]

theorem StopDogNose_none (hnone : (s.ClientInfo i).CuteDog = none) (o : Outcome) :
    s.StopDogNose i o = some (0, s) := by
  simp only [StopDogNose, hnone]

theorem DelCuteDogInList_none (hnone : (s.ClientInfo i).CuteDog = none) :
    s.DelCuteDogInList i = some (false, s) := by
  simp only [DelCuteDogInList, hnone]

theorem registry_clearPrs (s : Server) (i : Slot) : (s.clearPrs i).registry =
    s.registry.setSeat i fun t => { t with Prs := false } := registry_setClient s i _

/-- A run that only deletes the parser. -/
theorem GivesBack.of_parser (h : s'.registry = (s.clearPrs i).registry) :
    GivesBack i (s.parserReleases i) s s' := by
  have hprs : (s'.ClientInfo i).Prs = false := by
    rw [registry_clearPrs] at h
    exact congrArg Seat.Prs ((congrFun (congrArg Registry.seat h) i).trans
      (Registry.seat_setSeat_self _ _ _))
  have hopened : s'.opened = s.opened := congrArg Registry.opened h
  have hdogs : s'.dogs = s.dogs := congrArg Registry.dogs h
  refine ⟨?_, fun h hmem => ?_, fun _ => hopened, fun d => ⟨fun hmem => ?_, fun hfreed => ?_⟩⟩
  · rw [hprs, parserReleases]
    cases (s.ClientInfo i).Prs <;> simp
  · cases eq_of_mem_parserReleases hmem
  · cases eq_of_mem_parserReleases hmem
  · rw [hdogs] at hfreed
    rw [hfreed.2] at hfreed
    cases hfreed.1

/-- What is released in the run of a pioneer with a dog. -/
theorem mem_releases {x : Release} {Handle : Option PcapHandle} {d : DogPtr} :
    x ∈ s.parserReleases i ++ ((Handle.map Release.pcap_close).toList ++ [.free d]) ↔
      x ∈ s.parserReleases i ∨ (∃ h, Handle = some h ∧ x = .pcap_close h) ∨ x = .free d := by
  simp only [List.mem_append, Option.mem_toList, Option.map_eq_some_iff, List.mem_singleton,
    eq_comm (a := x)]

/-- A run that deletes the parser, stops a dog and frees it. -/
theorem GivesBack.of_freed {d : DogPtr} {dog : CUTEDOG} {Ret : Int} (hdog : s.dogs d = some dog)
    (hopen : ∀ h, dog.Handle = some h → h ∈ s.opened)
    (hreg : s'.registry = ((s.clearPrs i).registry.stop dog.Handle Ret).free i d) :
    GivesBack i (s.parserReleases i ++ ((dog.Handle.map Release.pcap_close).toList ++ [.free d]))
      s s' := by
  have hparser : GivesBack i (s.parserReleases i) s (s.clearPrs i) := GivesBack.of_parser rfl
  have hprs : (s'.ClientInfo i).Prs = ((s.clearPrs i).ClientInfo i).Prs := by
    have hseat := congrFun (congrArg Registry.seat hreg) i
    rw [Registry.free, Registry.seat_setSeat_self] at hseat
    refine (congrArg Seat.Prs hseat).trans ?_
    show ((Registry.stop _ _ _).seat i).Prs = _
    rw [Registry.seat_stop]
    rfl
  -- stopping the thread leaves the dogs, `free` takes one of them
  have hdogs : s'.dogs = Function.update s.dogs d none := by
    refine (congrArg Registry.dogs hreg).trans ?_
    show Function.update (Registry.stop _ _ _).dogs d none = _
    rw [Registry.dogs_stop]
    rfl
  have hopened : s'.opened = ((s.clearPrs i).registry.stop dog.Handle Ret).opened :=
    congrArg Registry.opened hreg
  refine ⟨?_, fun h hmem => ?_, fun hnone => ?_, fun e => ?_⟩
  · rw [hprs, ← hparser.parser, mem_releases]
    simp
  · -- the only handle among the releases is that of the dog
    obtain hmem | ⟨k, hk, heq⟩ | heq := mem_releases.mp hmem
    · cases eq_of_mem_parserReleases hmem
    · cases heq
      refine ⟨hopen h hk, ?_⟩
      rw [hopened, hk]
      rfl
    · cases heq
  · cases hh : dog.Handle with
    | none =>
        rw [hopened, hh]
        rfl
    | some h => exact absurd (mem_releases.mpr (Or.inr (Or.inl ⟨h, hh, rfl⟩))) (hnone h)
  · have hmem : Release.free e ∈ s.parserReleases i ++
        ((dog.Handle.map Release.pcap_close).toList ++ [.free d]) ↔ e = d := by
      rw [mem_releases]
      constructor
      · rintro (hmem | ⟨k, -, heq⟩ | heq)
        · cases eq_of_mem_parserReleases hmem
        · cases heq
        · exact Release.free.inj heq
      · exact fun hed => Or.inr (Or.inr (congrArg Release.free hed))
    rw [hmem, hdogs]
    by_cases hed : e = d
    · rw [hed, Function.update_self, hdog]
      simp
    · rw [Function.update_of_ne hed]
      cases s.dogs e <;> simp [hed]

/-- The run of a pioneer with a dog. -/
theorem released_pioneer {Ret : Int} {s₁ : Server} {b : Bool} {d : DogPtr}
    (hstop : (s.clearPrs i).StopDogNose i o = some (Ret, s₁))
    (hdel : s₁.DelCuteDogInList i = some (b, s')) (hd : (s.ClientInfo i).CuteDog = some d) :
    ∃ dog, s.dogs d = some dog ∧ (∀ h, dog.Handle = some h → h ∈ s.opened) ∧
      s'.registry = ((s.clearPrs i).registry.stop dog.Handle o.pthread_cancel).free i d ∧
      (s.clearPrs i).StopDogNoseReleases i ++ s₁.DelCuteDogInListReleases i =
        (dog.Handle.map Release.pcap_close).toList ++ [.free d] := by
  have hptr : ((s.clearPrs i).ClientInfo i).CuteDog = some d := by rw [clearPrs_ClientInfo, hd]
  obtain ⟨dog, hdog, hreg⟩ := (changed_cancel hstop hdel True).deletes hptr
  have hdog' : s.dogs d = some dog := hdog
  obtain ⟨-, -, hclients, -⟩ := StopDogNose_frame hstop
  refine ⟨dog, hdog', fun h hh => ?_, hreg, ?_⟩
  · -- `pcap_close` returned, so the handle was open
    obtain ⟨hnone, -⟩ | ⟨e, dog', -, he, hedog, hopen, -⟩ := registry_StopDogNose hstop
    · have hnone' : ((s.clearPrs i).ClientInfo i).CuteDog = none := hnone
      rw [hptr] at hnone'
      cases hnone'
    · have he' : ((s.clearPrs i).ClientInfo i).CuteDog = some e := he
      have hedog' : s.dogs e = some dog' := hedog
      rw [hptr] at he'
      cases he'
      rw [hdog'] at hedog'
      cases hedog'
      exact hopen h hh
  · have hdogs : (s.clearPrs i).dogs d = some dog := hdog'
    simp only [StopDogNoseReleases, DelCuteDogInListReleases, hclients, hptr, Option.bind_some,
      hdogs]
    cases dog.Handle with
    | none => rfl
    | some h => rfl

/-- **The releases are what the run gave back.** -/
theorem releases_given_back (h : s.FreeObjReleases i o = some (r, s')) : GivesBack i r s s' := by
  obtain ⟨-, Ret, s₁, b, hstop, hdel, rfl⟩ | ⟨-, b, hdel, rfl⟩ | ⟨-, rfl, rfl⟩ :=
    FreeObjReleases_eq_some h
  · -- a pioneer without a dog has its parser only
    cases hd : (s.ClientInfo i).CuteDog with
    | none =>
        have hptr : ((s.clearPrs i).ClientInfo i).CuteDog = none := by
          rw [clearPrs_ClientInfo, hd]
        rw [StopDogNose_none hptr] at hstop
        cases hstop
        rw [DelCuteDogInList_none hptr] at hdel
        cases hdel
        simp only [StopDogNoseReleases, DelCuteDogInListReleases, hptr, Option.bind_none,
          List.append_nil]
        exact GivesBack.of_parser rfl
    | some d =>
        obtain ⟨dog, hdog, hopen, hreg, hreleases⟩ := released_pioneer hstop hdel hd
        rw [List.append_assoc, hreleases]
        exact GivesBack.of_freed hdog hopen hreg
  · exact GivesBack.of_parser (registry_DelHookerInCuteDog hdel)
  · exact GivesBack.of_parser rfl

/-! ## The first run -/

/-- No client is in the lists of two dogs. -/
theorem circles_apart {links : LinkMem HookNode} {d e : DogPtr} {js ks : List Slot} {j : Slot}
    (hjs : Circle links (.ListHooker d) (js.map .list1))
    (hks : Circle links (.ListHooker e) (ks.map .list1)) (hj : j ∈ js) (hk : j ∈ ks) : d = e := by
  obtain ⟨l, r, rfl⟩ := List.append_of_mem hj
  obtain ⟨l', r', rfl⟩ := List.append_of_mem hk
  -- from the node of `j` both lists go on to their own heads
  have hpath := hjs.path
  have hpath' := hks.path
  rw [List.map_append, List.map_cons, path_append] at hpath hpath'
  have hclient : ∀ (c : DogPtr) (l : List Slot), HookNode.ListHooker c ∉ l.map .list1 := by
    intro c l hmem
    obtain ⟨k, -, heq⟩ := List.mem_map.mp hmem
    exact list1_ne_ListHooker k c heq
  exact HookNode.ListHooker.inj
    (hpath.2.end_unique hpath'.2 (hclient d r') (hclient e r))

theorem Closable.hooked (hs : Closable s i) : WellHooked s := by
  classical
  have hlists : ∀ d, ∃ js : List Slot,
      d ∈ s.CuteDogList → Circle s.links (.ListHooker d) (js.map .list1) := by
    intro d
    by_cases hd : d ∈ s.CuteDogList
    · obtain ⟨js, hjs⟩ := hs.lists d hd
      exact ⟨js, fun _ => hjs⟩
    · exact ⟨[], fun hd' => absurd hd' hd⟩
  choose hookers hcircle using hlists
  exact ⟨hookers, fun d hd => hcircle d hd,
    fun d hd e he j hj hj' => circles_apart (hcircle d hd) (hcircle e he) hj hj', hs.nodes⟩

theorem Closable.clearPrs (hs : Closable s i) : Closable (s.clearPrs i) i :=
  ⟨hs.dogs, hs.lists, hs.nodes, fun d hd => hs.listed d (by rwa [clearPrs_ClientInfo] at hd)⟩

/-- The two steps for a pioneer return. -/
theorem Closable.stops (hs : Closable s i) (hopen : HandleOpen s i) (o : Outcome) :
    ∃ Ret s₁ b s₂, (s.clearPrs i).StopDogNose i o = some (Ret, s₁) ∧
      s₁.DelCuteDogInList i = some (b, s₂) := by
  have hptr : ((s.clearPrs i).ClientInfo i).CuteDog = (s.ClientInfo i).CuteDog := by
    rw [clearPrs_ClientInfo]
  cases hd : (s.ClientInfo i).CuteDog with
  | none =>
      rw [hd] at hptr
      exact ⟨_, _, _, _, StopDogNose_none hptr o, DelCuteDogInList_none hptr⟩
  | some d =>
      rw [hd] at hptr
      have hmem := hs.listed d hd
      obtain ⟨dog, hdog⟩ := Option.isSome_iff_exists.mp (hs.dogs d hmem)
      obtain ⟨Ret, s₁, hstop, -⟩ := StopDogNose_of_open (o := o) hptr
        (show (s.clearPrs i).dogs d = some dog from hdog) fun h => hopen d dog h hd hdog
      -- `StopDogNose` leaves the list of the dog as it was
      obtain ⟨hlinks, hlist, hclients, hdogs⟩ := StopDogNose_frame hstop
      obtain ⟨dog₁, hdog₁⟩ := Option.isSome_iff_exists.mp (hdogs d (hs.clearPrs.dogs d hmem))
      obtain ⟨js, hjs⟩ := hs.lists d hmem
      obtain ⟨s₂, hdel, -⟩ := DelCuteDogInList_circle (i := i) (by rw [hclients, hptr])
        (by rw [hlist]; exact hmem) hdog₁ (by rw [hlinks]; exact hjs)
      exact ⟨Ret, s₁, true, _, hstop, hdel⟩

/-- **`FreeObj` returns** when the handle of the dog is open. -/
theorem Closable.returns (hs : Closable s i) (hopen : HandleOpen s i) (o : Outcome) :
    (s.FreeObjReleases i o).isSome = true := by
  have htype : ((s.clearPrs i).ClientInfo i).lType = (s.ClientInfo i).lType := by
    rw [clearPrs_ClientInfo]
  cases hrole : (s.ClientInfo i).lType with
  | CLIENT_UNKNOWN => simp only [FreeObjReleases, htype, hrole, Option.isSome_some]
  | CLIENT_USER_HOOKER =>
      obtain ⟨hookers, hooked⟩ := hs.clearPrs.hooked
      obtain ⟨b, links, hookers', hdel, -⟩ :=
        DelHookerInCuteDog_hooked hooked hs.clearPrs.dogs i
      simp only [FreeObjReleases, htype, hrole, hdel, Option.bind_eq_bind, Option.bind_some,
        Option.isSome_some]
  | CLIENT_USER_PIONEER =>
      obtain ⟨Ret, s₁, b, s₂, hstop, hdel⟩ := hs.stops hopen o
      simp only [FreeObjReleases, htype, hrole, hstop, hdel, Option.bind_eq_bind,
        Option.bind_some, Option.isSome_some]

/-- The first run leaves its marks, whatever it met. -/
theorem Closable.closed (hs : Closable s i) (h : s.FreeObjReleases i o = some (r, s')) :
    Closed s' i := by
  obtain ⟨hpioneer, Ret, s₁, b, hstop, hdel, -⟩ | ⟨hhooker, b, hdel, -⟩ | ⟨hunknown, rfl, -⟩ :=
    FreeObjReleases_eq_some h
  · obtain ⟨-, -, hclients, -⟩ := StopDogNose_frame hstop
    -- `StopDogNose` leaves the client, `DelCuteDogInList` takes the pointer
    have hseat : (s'.ClientInfo i).Prs = false ∧
        (s'.ClientInfo i).lType = .CLIENT_USER_PIONEER ∧ (s'.ClientInfo i).CuteDog = none := by
      have hsame : s₁.ClientInfo i = { s.ClientInfo i with Prs := false } := by
        rw [hclients, clearPrs_ClientInfo]
      obtain ⟨hnone, rfl⟩ | ⟨d, -, -, hreg⟩ := registry_DelCuteDogInList hdel
      · have hnone' : (s'.ClientInfo i).CuteDog = none := hnone
        rw [hsame] at hnone' ⊢
        exact ⟨rfl, hpioneer, hnone'⟩
      · have hci : (s'.ClientInfo i).seat = { (s₁.ClientInfo i).seat with CuteDog := none } :=
          (congrFun (congrArg Registry.seat hreg) i).trans (Registry.seat_setSeat_self _ _ _)
        rw [hsame] at hci
        exact ⟨congrArg Seat.Prs hci, (congrArg Seat.lType hci).trans hpioneer,
          congrArg Seat.CuteDog hci⟩
    refine ⟨hseat.1, fun _ => hseat.2.2, fun hhooker => ?_⟩
    rw [hseat.2.1] at hhooker
    cases hhooker
  · obtain ⟨hookers, hooked⟩ := hs.clearPrs.hooked
    obtain ⟨b', links, hookers', hdel', hooked', hgone, -⟩ :=
      DelHookerInCuteDog_hooked hooked hs.clearPrs.dogs i
    rw [hdel] at hdel'
    cases hdel'
    have hsame : (s.clearPrs i).ClientInfo i = { s.ClientInfo i with Prs := false } :=
      clearPrs_ClientInfo s i
    refine ⟨?_, fun hpioneer => ?_, fun _ => ?_⟩
    · show ((s.clearPrs i).ClientInfo i).Prs = false
      rw [hsame]
    · have hrole : ((s.clearPrs i).ClientInfo i).lType = .CLIENT_USER_PIONEER := hpioneer
      rw [hsame, hhooker] at hrole
      cases hrole
    · exact DelHookerInCuteDog_of_none (s := { s.clearPrs i with links := links }) hooked'
        hs.clearPrs.dogs hgone
  · refine ⟨by rw [clearPrs_ClientInfo], fun hrole => ?_, fun hrole => ?_⟩
    · rw [clearPrs_ClientInfo, hunknown] at hrole
      cases hrole
    · rw [clearPrs_ClientInfo, hunknown] at hrole
      cases hrole

/-! ## The runs after it -/

theorem Closed.clearPrs (hs : Closed s i) : s.clearPrs i = s := by
  have hsame : ({ s.ClientInfo i with Prs := false } : CLIENTINFO) = s.ClientInfo i := by
    rw [← hs.parser]
  rw [Server.clearPrs, setClient, hsame, Function.update_eq_self]

/-- **A run that finds the marks** releases nothing and changes nothing. -/
theorem Closed.again (hs : Closed s i) (o : Outcome) : s.FreeObjReleases i o = some ([], s) := by
  have hparser : s.parserReleases i = [] := by
    rw [parserReleases, hs.parser, if_neg Bool.false_ne_true]
  simp only [FreeObjReleases, hs.clearPrs, hparser]
  cases hrole : (s.ClientInfo i).lType with
  | CLIENT_UNKNOWN => rfl
  | CLIENT_USER_HOOKER => simp only [hs.hook hrole, Option.bind_eq_bind, Option.bind_some]
  | CLIENT_USER_PIONEER =>
      have hnone := hs.dog hrole
      simp only [StopDogNose_none hnone, DelCuteDogInList_none hnone, StopDogNoseReleases,
        DelCuteDogInListReleases, hnone, Option.bind_none, Option.bind_eq_bind, Option.bind_some,
        List.append_nil]

theorem Closed.runs (hs : Closed s i) (os : List Outcome) : s.FreeObjs i os = some ([], s) := by
  induction os with
  | nil => rfl
  | cons o os ih =>
      simp only [FreeObjs, hs.again o, ih, Option.bind_eq_bind, Option.bind_some, List.append_nil]

end FreeObj

end Server

/-- **Shutdown messages after the first are harmless**: for every outcome of every run, any number of
runs of `FreeObj` leaves the server as the first run does and releases what it releases, nothing
twice; they all return when the handle of the client's dog is open. -/
theorem shutdown_again {s : Server} {i : Slot} (hs : s.Closable i) (o : Outcome)
    (os : List Outcome) :
    s.FreeObjs i (o :: os) = s.FreeObjReleases i o ∧
      (s.HandleOpen i → (s.FreeObjs i (o :: os)).isSome = true) ∧
      ∀ r s', s.FreeObjs i (o :: os) = some (r, s') →
        s.FreeObj i o = some s' ∧ r.Nodup ∧ Server.GivesBack i r s s' := by
  -- the runs after the first find its marks
  have hruns : s.FreeObjs i (o :: os) = s.FreeObjReleases i o := by
    rw [Server.FreeObjs]
    cases hfirst : s.FreeObjReleases i o with
    | none => rfl
    | some first =>
        obtain ⟨r, s'⟩ := first
        have hclosed := hs.closed hfirst
        simp only [hclosed.runs os, Option.bind_eq_bind, Option.bind_some, List.append_nil]
  rw [hruns]
  refine ⟨rfl, fun hopen => hs.returns hopen o, fun r s' hfirst => ?_⟩
  exact ⟨Server.FreeObj_of_releases hfirst, Server.nodup_releases hfirst,
    Server.releases_given_back hfirst⟩

/-- While the registry is sound and the lists are well formed, a client that points to no dog or to a
listed one can be closed. -/
theorem closable_of_sound {s : Server} {i : Slot} (hs : s.registry.Sound) (hw : WellHooked s)
    (hlisted : ∀ d, (s.ClientInfo i).CuteDog = some d → d ∈ s.CuteDogList) :
    s.Closable i ∧ s.HandleOpen i := by
  obtain ⟨hookers, hooked⟩ := hw
  refine ⟨⟨fun d hd => (hs.listed d).mpr hd, fun d hd => ⟨_, hooked.circle d hd⟩, hooked.nodes,
    hlisted⟩, fun d dog h hd hdog hhandle => ?_⟩
  obtain ⟨k, hopen, hk⟩ := hs.handles d dog hdog
  rw [hhandle] at hk
  cases hk
  exact ⟨hopen, hs.thid d dog hdog⟩

/-- The owner of a dog is shut down twice. -/
theorem shutdown_again_owner : ∃ s r s', Reach (serverStep (ι := Iks)) AnyStep
      (InitServer fun _ => 0) s ∧
    s.FreeObjs 15 [.allSucceed, .second] = some (r, s') ∧ s.FreeObj 15 .allSucceed = some s' ∧
      r.Nodup ∧ Server.GivesBack 15 r s s' := by
  obtain ⟨s, hs⟩ := owned_dog (fun _ => 0) (o := .allSucceed) (h := 0) ⟨rfl, rfl, rfl⟩
    (show Outcome.allSucceed.pthread_create = some 1 from rfl)
  have hreach := (hs.reach Outcome.allSucceed_succeeds).any
  have hptr : (s.ClientInfo 15).CuteDog = some Outcome.allSucceed.malloc :=
    congrArg Seat.CuteDog hs.owner
  have hmem : Outcome.allSucceed.malloc ∈ s.CuteDogList := by
    rw [hs.list]
    exact List.mem_cons_self
  obtain ⟨hclosable, hopen⟩ := closable_of_sound (i := 15) (sound_reach hreach) ⟨_, hs.hooked⟩
    (fun d hd => by rw [hptr] at hd; cases hd; exact hmem)
  obtain ⟨-, hsome, hall⟩ := shutdown_again hclosable .allSucceed [.second]
  obtain ⟨⟨r, s'⟩, hruns⟩ := Option.isSome_iff_exists.mp (hsome hopen)
  exact ⟨s, r, s', hreach, hruns, hall r s' hruns⟩

end Netflow
