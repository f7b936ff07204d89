import Netflow.Registry.Shared

set_option autoImplicit false

/-! # Who stops a capture

A request of a client is to stop or delete no dog but the client's own. `StopDogNose` closes the
handle of the dog `CuteDog` points to, which for a hooker is the dog of another client, and it
cancels the thread whose id is in the global `tidp`, which is the thread started last. The exact
condition under which a request leaves the dogs of others alone is `StopsOwn`.
-/

namespace Netflow

namespace Registry

/-- The thread `t` captures for the dog `d`: it was started for it and loops on its open handle. -/
structure CapturedBy (r : Registry) (d : DogPtr) (t : Capture) : Prop where
  thread : t ∈ r.threads
  dog_eq : t.dog = d
  handle : ∃ dog, r.dogs d = some dog ∧ dog.Handle = some t.handle
  opened : t.handle ∈ r.opened

/-- The capture of the dog runs. -/
def Capturing (r : Registry) (d : DogPtr) : Prop := ∃ t, CapturedBy r d t

/-- From `r` to `r'` the dog `d` is taken from the list or its capture is stopped. -/
def Stopped (r r' : Registry) (d : DogPtr) : Prop :=
  (d ∈ r.CuteDogList ∧ d ∉ r'.CuteDogList) ∨ (Capturing r d ∧ ¬Capturing r' d)

/-- Nothing was taken away. -/
structure Grown (r r' : Registry) : Prop where
  list : ∀ d ∈ r.CuteDogList, d ∈ r'.CuteDogList
  dogs : ∀ d dog, r.dogs d = some dog → r'.dogs d = some dog
  threads : ∀ t ∈ r.threads, t ∈ r'.threads
  opened : ∀ h ∈ r.opened, h ∈ r'.opened

variable {r r' : Registry}

theorem Grown.refl (r : Registry) : Grown r r :=
  ⟨fun _ h => h, fun _ _ h => h, fun _ h => h, fun _ h => h⟩

theorem Grown.start (h : Grown r r') (t : Capture) : Grown r (r'.start t) :=
  ⟨h.list, h.dogs, fun u hu => List.mem_cons_of_mem t (h.threads u hu), h.opened⟩

theorem Grown.not_stopped (h : Grown r r') (d : DogPtr) : ¬Stopped r r' d := by
  rintro (⟨hd, hd'⟩ | ⟨⟨t, ht⟩, hstop⟩)
  · exact hd' (h.list d hd)
  · obtain ⟨dog, hdog, hhandle⟩ := ht.handle
    exact hstop ⟨t, h.threads t ht.thread, ht.dog_eq, ⟨dog, h.dogs d dog hdog, hhandle⟩,
      h.opened _ ht.opened⟩

/-- What is stopped does not depend on the seats. -/
theorem stopped_close (i : Slot) (d : DogPtr) : Stopped r (r'.close i) d ↔ Stopped r r' d := by
  have hcap : Capturing (r'.close i) d ↔ Capturing r' d := by
    constructor
    · rintro ⟨t, h1, h2, h3, h4⟩
      exact ⟨t, h1, h2, h3, h4⟩
    · rintro ⟨t, h1, h2, h3, h4⟩
      exact ⟨t, h1, h2, h3, h4⟩
  rw [Stopped, Stopped, hcap]
  rfl

/-- A request other than a cancel takes nothing away. -/
theorem Changed.grown {i : Slot} {o : Outcome} {cell : Prop} {q : Request}
    (h : Changed i o cell q r r') (hq : q ≠ .cancel) : Grown r r' := by
  have hlist : ∀ {k : PcapHandle} {d : DogPtr} {dog : CUTEDOG}, r.dogs d = none →
      Grown r ((r.opens k).list i d dog) := by
    intro k d dog hnew
    refine ⟨fun e he => List.mem_cons_of_mem d he, fun e dog' he => ?_, fun t ht => ht,
      fun h hh => List.mem_cons_of_mem k hh⟩
    have hed : e ≠ d := by
      rintro rfl
      rw [hnew] at he
      cases he
    exact (Function.update_of_ne hed _ _).trans he
  cases h with
  | kept _ => exact Grown.refl r
  | hooked _ _ _ => exact ⟨fun _ h => h, fun _ _ h => h, fun _ h => h, fun _ h => h⟩
  | opened _ _ =>
      exact ⟨fun _ h => h, fun _ _ h => h, fun _ h => h, fun _ h => List.mem_cons_of_mem _ h⟩
  | listed _ _ _ hnew _ => exact hlist hnew
  | started _ _ _ hnew _ _ => exact (hlist hnew).start _
  | cancelled _ _ _ _ => exact absurd rfl hq

/-- The dogs a cancel stops: the one it deletes and, when the cancellation of the thread `tidp`
succeeds, those that only this thread captures for. -/
theorem stopped_cancel_iff (hr : Sound r) {i : Slot} {d : DogPtr} {dog : CUTEDOG} {Ret : Int}
    (hdog : r.dogs d = some dog) (e : DogPtr) :
    Stopped r ((r.stop dog.Handle Ret).free i d) e ↔
      e = d ∨ (Ret = 0 ∧ Capturing r e ∧ ∀ t, CapturedBy r e t → t.tid = r.tidp) := by
  obtain ⟨h, hopen, hhandle⟩ := hr.handles d dog hdog
  rw [hhandle]
  have hmem : ∀ e, e ∈ ((r.stop (some h) Ret).free i d).CuteDogList ↔ e ≠ d ∧ e ∈ r.CuteDogList :=
    fun e => hr.nodup.mem_erase_iff
  -- a thread of another dog goes on unless it is the cancelled one
  have hcap : ∀ e t, e ≠ d → (CapturedBy ((r.stop (some h) Ret).free i d) e t ↔
      CapturedBy r e t ∧ (Ret = 0 → t.tid ≠ r.tidp)) := by
    intro e t hed
    have hthread : t ∈ ((r.stop (some h) Ret).free i d).threads ↔
        t ∈ r.threads ∧ (Ret = 0 → t.tid ≠ r.tidp) := mem_threads_stop h
    constructor
    · rintro ⟨h1, h2, ⟨dog', h3, h4⟩, h5⟩
      obtain ⟨h6, h7⟩ := hthread.mp h1
      exact ⟨⟨h6, h2, ⟨dog', (dogs_free (r := r.stop (some h) Ret) (i := i) h3).2, h4⟩,
        List.mem_of_mem_erase h5⟩, h7⟩
    · rintro ⟨⟨h1, h2, ⟨dog', h3, h4⟩, h5⟩, h6⟩
      refine ⟨hthread.mpr ⟨h1, h6⟩, h2, ⟨dog', ?_, h4⟩, ?_⟩
      · exact (Function.update_of_ne hed _ _).trans h3
      · refine (List.mem_erase_of_ne ?_).mpr h5
        rintro heq
        refine hed (hr.apart e d dog' dog h3 hdog ?_)
        rw [h4, hhandle, heq]
  constructor
  · rintro (⟨he, hout⟩ | ⟨⟨t, ht⟩, hstop⟩)
    · rw [hmem] at hout
      left
      by_contra hed
      exact hout ⟨hed, he⟩
    · by_cases hed : e = d
      · exact Or.inl hed
      · right
        have hall : ∀ t, CapturedBy r e t → Ret = 0 ∧ t.tid = r.tidp := by
          intro t ht
          by_contra hnot
          refine hstop ⟨t, (hcap e t hed).mpr ⟨ht, fun hRet htid => hnot ⟨hRet, htid⟩⟩⟩
        exact ⟨(hall t ht).1, ⟨t, ht⟩, fun t ht => (hall t ht).2⟩
  · intro hcase
    by_cases hed : e = d
    · left
      rw [hmem, hed]
      exact ⟨hr.mem hdog, fun hout => hout.1 rfl⟩
    · obtain hcase | ⟨hRet, hrun, hall⟩ := hcase
      · exact absurd hcase hed
      · right
        refine ⟨hrun, ?_⟩
        rintro ⟨t, ht⟩
        obtain ⟨ht, hne⟩ := (hcap e t hed).mp ht
        exact hne hRet (hall t ht)

/-- The client whose request or disconnect an operation processes. -/
def actor {ι : Type} : ServerAction ι → Option Slot
  | .stanza i _ _ _ => some i
  | .shutdown i _ => some i
  | _ => none

/-- A client that deletes the dog it points to is its master, and so it is of every dog for which
only the thread `tidp` captures when the cancellation of that thread succeeds. -/
def StopsOwn {ι : Type} [Iksemel ι] (s : Server) (a : ServerAction ι) : Prop :=
  ∀ i o, deleter s a = some (i, o) → ∀ d, (s.ClientInfo i).CuteDog = some d →
    ∀ e dog, s.dogs e = some dog →
      (e = d ∨ (o.pthread_cancel = 0 ∧ Capturing s.registry e ∧
        ∀ t, CapturedBy s.registry e t → t.tid = s.tidp)) →
      dog.Master = i

/-- What a cancel of the client `i` stops. -/
theorem cancel_stops_iff {s : Server} (hs : Sound s.registry) {i : Slot} {o : Outcome}
    {cell : Prop} (h : Changed i o cell .cancel s.registry r') :
    (∀ e dog, s.dogs e = some dog → Stopped s.registry r' e → dog.Master = i) ↔
      ∀ d, (s.ClientInfo i).CuteDog = some d → ∀ e dog, s.dogs e = some dog →
        (e = d ∨ (o.pthread_cancel = 0 ∧ Capturing s.registry e ∧
          ∀ t, CapturedBy s.registry e t → t.tid = s.tidp)) → dog.Master = i := by
  cases h with
  | kept hnone =>
      constructor
      · intro _ d hd
        have hnone' : (s.ClientInfo i).CuteDog = none := hnone
        rw [hnone'] at hd
        cases hd
      · intro _ e dog _ hstop
        exact absurd hstop ((Grown.refl _).not_stopped e)
  | @cancelled _ d dog hd hmem hdog hopen =>
      constructor
      · intro hall d' hd' e dog' hdog' hcase
        have hd'' : (s.ClientInfo i).CuteDog = some d := hd
        rw [hd''] at hd'
        cases hd'
        exact hall e dog' hdog' ((stopped_cancel_iff hs hdog e).mpr hcase)
      · intro hall e dog' hdog' hstop
        exact hall d hd e dog' hdog' ((stopped_cancel_iff hs hdog e).mp hstop)

end Registry

/-- Processing a request or a disconnect of a client stops or deletes only dogs of that client
exactly when the operation meets `StopsOwn`. -/
theorem stops_own_dogs_iff {ι : Type} [Iksemel ι] {align : MsgCell → Nat} {s s' : Server}
    {a : ServerAction ι} (h : Reach (serverStep (ι := ι)) AnyStep (InitServer align) s)
    (hstep : serverStep s a = some s') :
    (∀ i, Registry.actor a = some i → ∀ d dog, s.dogs d = some dog →
      Registry.Stopped s.registry s'.registry d → dog.Master = i) ↔ Registry.StopsOwn s a := by
  have hs := sound_reach h
  have hfollows := serverStep_follows hstep
  cases a with
  | stanza i type node o =>
      have hchanged := hfollows.2.2
      by_cases hq : requestOf type node = .cancel
      · rw [hq] at hchanged
        have hiff := Registry.cancel_stops_iff hs hchanged
        constructor
        · intro hall j o' hdel
          rw [Registry.deleter, if_pos hq] at hdel
          cases hdel
          exact hiff.mp (hall i rfl)
        · intro hown j hj
          cases hj
          exact hiff.mpr (hown i o (if_pos hq))
      · constructor
        · intro _ j o' hdel
          rw [Registry.deleter, if_neg hq] at hdel
          cases hdel
        · intro _ j _ d dog _ hstop
          exact absurd hstop ((hchanged.grown hq).not_stopped d)
  | shutdown i o =>
      obtain ⟨-, r₁, hr', hr₁⟩ := hfollows
      simp only [hr', Registry.stopped_close]
      by_cases htype : (s.ClientInfo i).lType = .CLIENT_USER_PIONEER
      · rw [if_pos htype] at hr₁
        have hiff := Registry.cancel_stops_iff hs hr₁
        constructor
        · intro hall j o' hdel
          rw [Registry.deleter, if_pos htype] at hdel
          cases hdel
          exact hiff.mp (hall i rfl)
        · intro hown j hj
          cases hj
          exact hiff.mpr (hown i o (if_pos htype))
      · rw [if_neg htype] at hr₁
        constructor
        · intro _ j o' hdel
          rw [Registry.deleter, if_neg htype] at hdel
          cases hdel
        · intro _ j _ d dog _ hstop
          rw [hr₁] at hstop
          exact absurd hstop ((Registry.Grown.refl _).not_stopped d)
  -- no other operation deletes a dog
  | _ =>
      constructor
      · intro _ j o' hdel
        cases hdel
      · intro _ j hj
        cases hj

/-- The owner of a dog cancels its filter: its dog is stopped, and no other. -/
theorem stops_own_dogs_iff_owner : ∃ (s s' : Server) (a : ServerAction Iks),
    serverStep s a = some s' ∧ Registry.actor a = some 15 ∧
      Registry.Stopped s.registry s'.registry 0 ∧ Registry.StopsOwn s a ∧
      ((∀ i, Registry.actor a = some i → ∀ d dog, s.dogs d = some dog →
        Registry.Stopped s.registry s'.registry d → dog.Master = i) ↔ Registry.StopsOwn s a) := by
  obtain ⟨s, hs⟩ := owned_dog (fun _ => 0) (o := .allSucceed) (h := 0) ⟨rfl, rfl, rfl⟩
    (show Outcome.allSucceed.pthread_create = some 1 from rfl)
  have hreach := hs.reach Outcome.allSucceed_succeeds
  obtain ⟨s', hstep, hreg, -⟩ := cancel_cancels (o := .allSucceed) (sound_reach hreach) hs.hooked
    hs.ready requestOf_cancelFilter (hs.points 15) hs.dog
  refine ⟨s, s', _, hstep, rfl, ?_, ?_, stops_own_dogs_iff hreach.any hstep⟩
  · rw [hreg]
    exact (Registry.stopped_cancel_iff (sound_reach hreach) hs.dog _).mpr (Or.inl rfl)
  · -- the dog of the client 15 is the only one
    intro i o hdel d _ e dog hdog _
    rw [Registry.deleter, if_pos requestOf_cancelFilter] at hdel
    cases hdel
    have hmem : e ∈ s.CuteDogList := (sound_reach hreach).mem hdog
    rw [hs.list, List.mem_singleton] at hmem
    rw [hmem, hs.dog] at hdog
    cases hdog
    rfl

/-- A hooker that cancels a filter deletes the dog it hooks. -/
theorem hooker_stops_dog : ¬∀ (s s' : Server) (a : ServerAction Iks),
    Reach (serverStep (ι := Iks)) AnyStep (InitServer fun _ => 0) s → serverStep s a = some s' →
      ∀ i, Registry.actor a = some i → ∀ d dog, s.dogs d = some dog →
        Registry.Stopped s.registry s'.registry d → dog.Master = i := by
  intro hall
  obtain ⟨s, dog, hreach, hshared⟩ := shared_dog (fun _ => 0) Outcome.allSucceed_succeeds
  obtain ⟨hookers, hooked, -⟩ := hshared.hooked
  obtain ⟨s', hstep, hreg, -⟩ := cancel_cancels (o := Outcome.allSucceed) (sound_reach hreach)
    hooked hshared.ready.1 requestOf_cancelFilter hshared.points.1 hshared.dogs
  have hstopped : Registry.Stopped s.registry s'.registry Outcome.allSucceed.malloc := by
    rw [hreg]
    exact (Registry.stopped_cancel_iff (sound_reach hreach) hshared.dogs _).mpr (Or.inl rfl)
  have hmaster := hall s s' _ hreach.any hstep 14 rfl _ dog hshared.dogs hstopped
  rw [hshared.master] at hmaster
  exact absurd hmaster (by decide)

end Netflow
