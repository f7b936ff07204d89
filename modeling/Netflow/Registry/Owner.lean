import Netflow.Registry.Shared

set_option autoImplicit false

/-! # Owners of dogs

A listed dog is to have one live owner: its master is connected, is a pioneer and points to it. The
pointer and the role are single fields of the client that a second create or a hook overwrites, so
the ownership holds in the runs in which no owner of a dog creates or hooks one.
-/

namespace Netflow

namespace Registry

/-- The client is the master of a dog. -/
def Owns (r : Registry) (i : Slot) : Prop := ∃ d dog, r.dogs d = some dog ∧ dog.Master = i

/-- The master of the dog `d` is connected, is a pioneer, points to `d` and its session is not
over. -/
structure LiveOwner (r : Registry) (d : DogPtr) (i : Slot) : Prop where
  working : i ∈ r.WorkClientList
  pioneer : (r.seat i).lType = .CLIENT_USER_PIONEER
  points : (r.seat i).CuteDog = some d
  running : (r.seat i).lStatus ≠ .STATUS_IOCLOSEED

/-- Every dog has a live owner, and a session that is over has no parser. -/
structure Owned (r : Registry) : Prop where
  owner : ∀ d dog, r.dogs d = some dog → LiveOwner r d dog.Master
  closed : ∀ i, (r.seat i).lStatus = .STATUS_IOCLOSEED → (r.seat i).Prs = false

variable {r : Registry}

/-- A client that owns a dog points to it, so it owns no other. -/
theorem Owned.eq_of_points (hr : Owned r) {d : DogPtr} {dog : CUTEDOG} {e : Option DogPtr}
    (hdog : r.dogs d = some dog) (he : (r.seat dog.Master).CuteDog = e) : e = some d :=
  he.symm.trans (hr.owner d dog hdog).points

/-- Ownership depends on the seats, the connected clients and the dogs only. -/
theorem Owned.congr (hr : Owned r) {r' : Registry} (hseat : r'.seat = r.seat)
    (hwork : r'.WorkClientList = r.WorkClientList) (hdogs : r'.dogs = r.dogs) : Owned r' where
  owner d dog hdog := by
    rw [hdogs] at hdog
    obtain ⟨h1, h2, h3, h4⟩ := hr.owner d dog hdog
    rw [← hseat] at h2 h3 h4
    exact ⟨hwork ▸ h1, h2, h3, h4⟩
  closed i hi := by
    rw [hseat] at hi ⊢
    exact hr.closed i hi

/-- A change of a seat: the dogs of its client must still have it as their live owner. -/
theorem Owned.setSeat (hr : Owned r) (i : Slot) {f : Seat → Seat}
    (howner : ∀ d dog, r.dogs d = some dog → dog.Master = i →
      (f (r.seat i)).lType = .CLIENT_USER_PIONEER ∧ (f (r.seat i)).CuteDog = some d ∧
        (f (r.seat i)).lStatus ≠ .STATUS_IOCLOSEED)
    (hclosed : (f (r.seat i)).lStatus = .STATUS_IOCLOSEED → (f (r.seat i)).Prs = false) :
    Owned (r.setSeat i f) where
  owner d dog hdog := by
    obtain ⟨hwork, htype, hpoints, hrun⟩ := hr.owner d dog hdog
    by_cases hi : dog.Master = i
    · obtain ⟨h1, h2, h3⟩ := howner d dog hdog hi
      refine ⟨hwork, ?_, ?_, ?_⟩
      · rw [hi, seat_setSeat_self]
        exact h1
      · rw [hi, seat_setSeat_self]
        exact h2
      · rw [hi, seat_setSeat_self]
        exact h3
    · refine ⟨hwork, ?_, ?_, ?_⟩
      · rw [seat_setSeat_of_ne r f hi]
        exact htype
      · rw [seat_setSeat_of_ne r f hi]
        exact hpoints
      · rw [seat_setSeat_of_ne r f hi]
        exact hrun
  closed j hj := by
    by_cases hij : j = i
    · subst hij
      rw [seat_setSeat_self] at hj ⊢
      exact hclosed hj
    · rw [seat_setSeat_of_ne r f hij] at hj ⊢
      exact hr.closed j hj

/-- The seat of a client that owns no dog may change freely. -/
theorem Owned.setSeat_free (hr : Owned r) {i : Slot} (hi : ¬Owns r i) {f : Seat → Seat}
    (hclosed : (f (r.seat i)).lStatus = .STATUS_IOCLOSEED → (f (r.seat i)).Prs = false) :
    Owned (r.setSeat i f) :=
  hr.setSeat i (fun d dog hdog hm => absurd ⟨d, dog, hdog, hm⟩ hi) hclosed

/-- The list of connected clients may change as long as it keeps the owners. -/
theorem Owned.setWork (hr : Owned r) {free work : List Slot}
    (hwork : ∀ i ∈ r.WorkClientList, Owns r i → i ∈ work) :
    Owned { r with FreeClientList := free, WorkClientList := work } where
  owner d dog hdog :=
    let h := hr.owner d dog hdog
    ⟨hwork _ h.working ⟨d, dog, hdog, rfl⟩, h.pioneer, h.points, h.running⟩
  closed := hr.closed

/-! ## The operations -/

theorem Owned.accept (hr : Owned r) (hsound : Sound r) {i : Slot} {rest : List Slot}
    (hfree : r.FreeClientList = i :: rest) : Owned (r.accept i rest) := by
  have hi : ¬Owns r i := by
    rintro ⟨d, dog, hdog, rfl⟩
    refine hsound.not_free (hr.owner d dog hdog).working ?_
    rw [hfree]
    exact List.mem_cons_self
  refine Owned.setSeat_free (r := { r with
    FreeClientList := rest, WorkClientList := i :: r.WorkClientList }) ?_ hi fun hc => by cases hc
  exact hr.setWork fun j hj _ => List.mem_cons_of_mem i hj

theorem Owned.recycle (hr : Owned r) {i : Slot} (hclosed : (r.seat i).lStatus = .STATUS_IOCLOSEED) :
    Owned (r.recycle i) := by
  have hi : ¬Owns r i := by
    rintro ⟨d, dog, hdog, rfl⟩
    exact (hr.owner d dog hdog).running hclosed
  refine Owned.setSeat_free (r := { r with
    FreeClientList := i :: r.FreeClientList, WorkClientList := r.WorkClientList.erase i }) ?_ hi
    fun hc => by cases hc
  refine hr.setWork fun j hj hown => (List.mem_erase_of_ne ?_).mpr hj
  rintro rfl
  exact hi hown

theorem Owned.toEnd (hr : Owned r) (i : Slot) : Owned (r.toEnd i) := by
  refine hr.setSeat i (fun d dog hdog hm => ?_) fun hc => by cases hc
  obtain ⟨-, htype, hpoints, -⟩ := hr.owner d dog hdog
  rw [hm] at htype hpoints
  exact ⟨htype, hpoints, by simp⟩

/-- A session of a client that owns no dog may end. -/
theorem Owned.close (hr : Owned r) {i : Slot} (hi : ¬Owns r i) : Owned (r.close i) :=
  hr.setSeat_free hi fun _ => rfl

/-- A new dog for a connected client that owns none; its role must be right, or be set next. -/
theorem Owned.list (hr : Owned r) {i : Slot} {d : DogPtr} {dog : CUTEDOG} {f : Seat → Seat}
    (hwork : i ∈ r.WorkClientList) (hprs : (r.seat i).Prs = true) (hi : ¬Owns r i)
    (hnew : r.dogs d = none) (hmaster : dog.Master = i)
    (hf : ∀ t, (f t).CuteDog = t.CuteDog ∧ (f t).lStatus = t.lStatus)
    (htype : ∀ t, t.lType = (r.seat i).lType → (f t).lType = .CLIENT_USER_PIONEER) :
    Owned ((r.list i d dog).setSeat i f) := by
  -- a client with a parser is not closed
  have hrun : (r.seat i).lStatus ≠ .STATUS_IOCLOSEED := by
    intro hc
    rw [hr.closed i hc] at hprs
    cases hprs
  have hseat : ((r.list i d dog).setSeat i f).seat i = f { r.seat i with CuteDog := some d } := by
    rw [seat_setSeat_self]
    exact congrArg f (seat_setSeat_self _ i _)
  have hother : ∀ j, j ≠ i → ((r.list i d dog).setSeat i f).seat j = r.seat j := by
    intro j hj
    rw [seat_setSeat_of_ne _ f hj]
    exact seat_setSeat_of_ne _ _ hj
  obtain ⟨hf1, hf2⟩ := hf { r.seat i with CuteDog := some d }
  refine ⟨fun e dog' he => ?_, fun j hj => ?_⟩
  · obtain ⟨rfl, rfl⟩ | ⟨-, he⟩ := dogs_list (r := r) (i := i) he
    · rw [hmaster]
      refine ⟨hwork, ?_, ?_, ?_⟩
      · rw [hseat]
        exact htype _ rfl
      · rw [hseat, hf1]
      · rw [hseat, hf2]
        exact hrun
    · obtain ⟨h1, h2, h3, h4⟩ := hr.owner e dog' he
      have hne : dog'.Master ≠ i := fun hm => hi ⟨e, dog', he, hm⟩
      rw [← hother _ hne] at h2 h3 h4
      exact ⟨h1, h2, h3, h4⟩
  · by_cases hji : j = i
    · subst hji
      rw [hseat, hf2] at hj
      exact absurd hj hrun
    · rw [hother j hji] at hj ⊢
      exact hr.closed j hj

/-- Freeing the dog a client points to leaves the client without a dog. -/
theorem Owned.cancel (hr : Owned r) {i : Slot} {d : DogPtr} (Handle : Option PcapHandle) (Ret : Int)
    (hd : (r.seat i).CuteDog = some d) :
    Owned ((r.stop Handle Ret).free i d) ∧ ¬Owns ((r.stop Handle Ret).free i d) i := by
  -- the dogs that stay are of other masters: each master points to its own
  have hkeep : ∀ e dog, ((r.stop Handle Ret).free i d).dogs e = some dog →
      r.dogs e = some dog ∧ dog.Master ≠ i := by
    intro e dog he
    obtain ⟨hed, he⟩ := dogs_free (r := r.stop Handle Ret) (i := i) he
    rw [dogs_stop] at he
    refine ⟨he, fun hm => hed ?_⟩
    have hpoints := (hr.owner e dog he).points
    rw [hm, hd] at hpoints
    exact (Option.some.inj hpoints).symm
  have hother : ∀ j, j ≠ i → ((r.stop Handle Ret).free i d).seat j = r.seat j := by
    intro j hj
    rw [free, seat_setSeat_of_ne _ _ hj]
    exact congrFun (seat_stop r Handle Ret) j
  have hwork : ((r.stop Handle Ret).free i d).WorkClientList = r.WorkClientList := by
    cases Handle with
    | none => rfl
    | some h => rfl
  refine ⟨⟨fun e dog he => ?_, fun j hj => ?_⟩, ?_⟩
  · obtain ⟨hdog, hne⟩ := hkeep e dog he
    obtain ⟨h1, h2, h3, h4⟩ := hr.owner e dog hdog
    rw [← hother _ hne] at h2 h3 h4
    rw [← hwork] at h1
    exact ⟨h1, h2, h3, h4⟩
  · by_cases hji : j = i
    · subst hji
      have hseat : ((r.stop Handle Ret).free j d).seat j = { r.seat j with CuteDog := none } := by
        rw [free, seat_setSeat_self]
        show { (r.stop Handle Ret).seat j with CuteDog := none } = _
        rw [seat_stop]
      rw [hseat] at hj ⊢
      exact hr.closed j hj
    · rw [hother j hji] at hj ⊢
      exact hr.closed j hj
  · rintro ⟨e, dog, he, hm⟩
    exact (hkeep e dog he).2 hm

/-- The guard: a client that owns a dog neither hooks a listed dog nor lists another one, and a new
dog's master becomes a pioneer or is one. -/
def OwnersKept {ι : Type} [Iksemel ι] (s : Server) : ServerAction ι → Prop
  | .stanza i type node o =>
      match requestOf type node with
      | .hook (some Item) =>
          (∃ d dog, d ∈ s.CuteDogList ∧ s.dogs d = some dog ∧ dog.Name = Item) →
            ¬Owns s.registry i
      | .create (some _) _ m =>
          (∃ h, o.captures m h) → CellFree s →
            ¬Owns s.registry i ∧
              (o.pthread_create = none → (s.ClientInfo i).lType = .CLIENT_USER_PIONEER)
      | _ => True
  | _ => True

theorem Owned.stanza {ι : Type} [Iksemel ι] {s : Server} {r' : Registry} {i : Slot}
    {type : IksNodeType} {node : ι} {o : Outcome} (hr : Owned s.registry)
    (hwork : i ∈ s.WorkClientList) (hprs : (s.ClientInfo i).Prs = true)
    (h : Changed i o (CellFree s) (requestOf type node) s.registry r')
    (hguard : OwnersKept s (.stanza i type node o)) : Owned r' := by
  simp only [OwnersKept] at hguard
  generalize requestOf type node = q at h hguard
  cases h with
  | kept _ => exact hr
  | opened _ _ => exact hr.congr rfl rfl rfl
  | @hooked _ Item d dog hmem hdog hname =>
      refine hr.setSeat_free (hguard ⟨d, dog, hmem, hdog, hname⟩) fun hc => ?_
      exact hr.closed i hc
  | @listed _ F N m k hcap hcell _ hnew hthread =>
      obtain ⟨hi, htype⟩ := hguard ⟨k, hcap⟩ hcell
      have hlist := Owned.list (r := s.registry.opens k) (f := id) (hr.congr rfl rfl rfl) hwork hprs hi
        hnew (rfl : (newDog k .tidp N F i).Master = i) (fun _ => ⟨rfl, rfl⟩)
        (fun _ ht => ht.trans (htype hthread))
      rw [setSeat_id] at hlist
      exact hlist
  | @started _ F N m k tid hcap hcell _ hnew _ _ =>
      obtain ⟨hi, -⟩ := hguard ⟨k, hcap⟩ hcell
      have hlist := Owned.list (r := s.registry.opens k)
        (f := fun t => { t with lType := .CLIENT_USER_PIONEER }) (hr.congr rfl rfl rfl) hwork hprs
        hi hnew (rfl : (newDog k .tidp N F i).Master = i) (fun _ => ⟨rfl, rfl⟩) (fun _ _ => rfl)
      exact hlist.congr rfl rfl rfl
  | cancelled hd _ _ _ => exact (hr.cancel _ _ hd).1

/-- After the clean-up of a session its client owns no dog. -/
theorem Owned.shutdown (hr : Owned r) {r₁ : Registry} {i : Slot} {o : Outcome} {cell : Prop}
    (h : if (r.seat i).lType = .CLIENT_USER_PIONEER then Changed i o cell .cancel r r₁ else r₁ = r) :
    Owned (r₁.close i) := by
  split at h
  · cases h with
    | kept hnone =>
        refine hr.close ?_
        rintro ⟨d, dog, hdog, rfl⟩
        cases hr.eq_of_points hdog hnone
    | cancelled hd _ _ _ =>
        obtain ⟨hok, hi⟩ := hr.cancel _ o.pthread_cancel hd
        exact hok.close hi
  · next htype =>
      rw [h]
      refine hr.close ?_
      rintro ⟨d, dog, hdog, rfl⟩
      exact htype (hr.owner d dog hdog).pioneer

theorem Owned.follows {ι : Type} [Iksemel ι] {s : Server} {r' : Registry} {a : ServerAction ι}
    (hr : Owned s.registry) (hsound : Sound s.registry) (h : Follows s r' a)
    (hguard : OwnersKept s a) : Owned r' := by
  cases a with
  | accept sd =>
      obtain ⟨-, rfl⟩ | ⟨i, rest, hfree, rfl⟩ := h
      · exact hr
      · exact hr.accept hsound hfree
  | stanza i type node o => exact hr.stanza h.1 h.2.1 h.2.2 hguard
  | shutdown i o =>
      obtain ⟨-, r₁, rfl, hr₁⟩ := h
      exact hr.shutdown hr₁
  | loopReturns t =>
      rw [h]
      exact hr.congr rfl rfl rfl
  | send i sn =>
      obtain rfl | rfl := h
      · exact hr
      · exact hr.toEnd i
  | toEnd i =>
      rw [h]
      exact hr.toEnd i
  | recycle i =>
      rw [h.2.2]
      exact hr.recycle h.2.1
  | packet t p => exact h ▸ hr
  | drain => exact h ▸ hr
  | pickUp i => exact h ▸ hr
  | allocator answer => exact h ▸ hr

end Registry

/-- Every listed dog has a master that is connected, is a pioneer and points to it. -/
def LiveOwners (s : Server) : Prop :=
  ∀ d ∈ s.CuteDogList, ∃ dog, s.dogs d = some dog ∧ dog.Master ∈ s.WorkClientList ∧
    (s.ClientInfo dog.Master).lType = .CLIENT_USER_PIONEER ∧
    (s.ClientInfo dog.Master).CuteDog = some d

/-- In a run in which no owner of a dog hooks or lists one, and a new dog's master is or becomes a
pioneer, every listed dog has one live owner. -/
theorem dogs_have_live_owners {ι : Type} [Iksemel ι] {align : MsgCell → Nat} {s : Server}
    (h : Reach (serverStep (ι := ι)) Registry.OwnersKept (InitServer align) s) :
    LiveOwners s ∧ ∀ d e dog dog', s.dogs d = some dog → s.dogs e = some dog' →
      dog.Master = dog'.Master → d = e := by
  have hsound := sound_reach h
  have howned : s.registry.Owned := by
    have hinit : (InitServer align).registry.Owned :=
      { owner := fun d dog hd => by cases hd
        closed := fun i hi => by cases hi }
    refine (h.invariant (P := fun s => s.registry.Sound ∧ s.registry.Owned)
      ⟨sound_InitServer align, hinit⟩ ?_).2
    intro s a s' hs hguard hstep
    have hfollows := serverStep_follows hstep
    exact ⟨hs.1.follows hfollows, hs.2.follows hs.1 hfollows hguard⟩
  constructor
  · intro d hd
    obtain ⟨dog, hdog⟩ := hsound.dog hd
    obtain ⟨hwork, htype, hpoints, -⟩ := howned.owner d dog hdog
    exact ⟨dog, hdog, hwork, htype, hpoints⟩
  · intro d e dog dog' hdog hdog' hm
    have hpoints := (howned.owner e dog' hdog').points
    rw [← hm] at hpoints
    exact (Option.some.inj (howned.eq_of_points hdog hpoints)).symm

/-- Two clients create a filter each and the first one cancels its own: the dog of the other is
listed, with a live owner. -/
theorem dogs_have_live_owners_cancelled : ∃ s s' : Server,
    s.CuteDogList = [1, 0] ∧
      serverStep s (.stanza 15 .IKS_NODE_NORMAL cancelFilter .allSucceed) = some s' ∧
      s'.CuteDogList = [1] ∧
      (LiveOwners s ∧ ∀ d e dog dog', s.dogs d = some dog → s.dogs e = some dog' →
        dog.Master = dog'.Master → d = e) ∧
      (LiveOwners s' ∧ ∀ d e dog dog', s'.dogs d = some dog → s'.dogs e = some dog' →
        dog.Master = dog'.Master → d = e) := by
  obtain ⟨s₁, hs₁⟩ := owned_dog (fun _ => 0) (o := .allSucceed) (h := 0) ⟨rfl, rfl, rfl⟩
    (show Outcome.allSucceed.pthread_create = some 1 from rfl)
  obtain ⟨s, h⟩ := hs₁.second "b"
  obtain ⟨s', hstep, hreg⟩ := h.cancel
  -- the client 15 owned no dog before its create request, nor did the client 14
  have hnone : ¬Registry.Owns (twoClients fun _ => 0).registry 15 := by
    rintro ⟨d, dog, hdog, -⟩
    have hnil : (twoClients fun _ => 0).registry.dogs = fun _ => none := (onlyTwo fun _ => 0).dogs
    rw [hnil] at hdog
    cases hdog
  have hother : ¬Registry.Owns s₁.registry 14 := by
    rintro ⟨d, dog, hdog, hmaster⟩
    have hdogs : s₁.registry.dogs = Function.update (fun _ => none) 0
        (some (newDog 0 .tidp (CStr.lit "a") (CStr.lit "tcp") 15)) := hs₁.dogs
    rw [hdogs] at hdog
    by_cases hd : d = 0
    · rw [hd, Function.update_self] at hdog
      cases hdog
      cases hmaster
    · rw [Function.update_of_ne hd] at hdog
      cases hdog
  have hreach := h.run (C := Registry.OwnersKept (ι := Iks)) (fun _ _ => trivial)
    (fun _ _ => ⟨hnone, fun hthread => by cases hthread⟩)
    (fun _ _ => ⟨hother, fun hthread => by cases hthread⟩)
  have hlist : s'.CuteDogList = s.CuteDogList.erase 0 := congrArg Registry.CuteDogList hreg
  refine ⟨s, s', h.list, hstep, ?_, dogs_have_live_owners hreach,
    dogs_have_live_owners (hreach.next ?_ hstep)⟩
  · rw [hlist, h.list]
    rfl
  · rw [Registry.OwnersKept, requestOf_cancelFilter]
    trivial

/-- An owner that hooks its own dog is a hooker from then on. -/
theorem owner_turned_hooker : ¬∀ s, Reach (serverStep (ι := Iks)) AnyStep (InitServer fun _ => 0) s →
    LiveOwners s := by
  intro hall
  obtain ⟨s, dog, hreach, hshared⟩ := shared_dog (fun _ => 0) Outcome.allSucceed_succeeds
  obtain ⟨hookers, hooked, hhookers⟩ := hshared.hooked
  have hmem : Outcome.allSucceed.malloc ∈ s.CuteDogList := by
    rw [hshared.list]
    exact List.mem_cons_self
  obtain ⟨links, hadd, -⟩ := list_add_spec (hooked.circle _ hmem) (hooked.nodes 15)
    (by simp [hhookers])
  obtain ⟨s', hstep, hreg, -⟩ := hook_hooks (o := Outcome.allSucceed) hshared.ready.2
    (requestOf_hookFilter "a") hshared.found hadd
  have hlist : s'.CuteDogList = s.CuteDogList := congrArg Registry.CuteDogList hreg
  have hdogs : s'.dogs = s.dogs := congrArg Registry.dogs hreg
  obtain ⟨dog', hdog', -, htype, -⟩ := hall s' (hreach.any.next trivial hstep) _ (hlist ▸ hmem)
  rw [hdogs, hshared.dogs] at hdog'
  cases hdog'
  have hhooker : (s'.ClientInfo 15).lType = .CLIENT_USER_HOOKER :=
    congrArg Seat.lType (congrFun (congrArg Registry.seat hreg) 15)
  rw [hshared.master, hhooker] at htype
  cases htype

end Netflow
