import Netflow.Registry.Shared

set_option autoImplicit false

/-! # The thread a stop cancels

Every dog's `Thid` points to the one global `tidp`, in which `pthread_create` stores the id of the
thread it starts. So `StopDogNose` cancels the thread that was started last, which is the thread of
the stopped dog only when no other capture was started since.
-/

namespace Netflow

/-- The value of `*pCuteDog->Thid`. -/
def passedId (s : Server) (d : DogPtr) : Option ThreadId :=
  (s.dogs d).bind fun dog => dog.Thid.map fun
    | .tidp => s.tidp

/-- A run with the captures that were started so far, the last one first. -/
structure CaptureRun where
  srv : Server
  starts : List Capture

/-- The capture thread that is in `s'` and was not in `s`. -/
def newCapture (s s' : Server) : Option Capture :=
  match s'.threads with
  | [] => none
  | t :: rest => if rest = s.threads then some t else none

/-- The id that `pthread_create` stored for the capture thread of a dog. -/
def CaptureRun.storedId (r : CaptureRun) (d : DogPtr) : Option ThreadId :=
  (r.starts.find? fun t => t.dog = d).map Capture.tid

def captureInit (align : MsgCell → Nat) : CaptureRun where
  srv := InitServer align
  starts := []

/-- The part of the registry that captures are about. -/
def Registry.captures (reg : Registry) : ThreadId × List Capture × List DogPtr :=
  (reg.tidp, reg.threads, reg.CuteDogList)

section Steps

variable {ι : Type} [Iksemel ι]

def captureStep (r : CaptureRun) (a : ServerAction ι) : Option CaptureRun :=
  (serverStep r.srv a).map fun s =>
    { srv := s, starts := (newCapture r.srv s).toList ++ r.starts }

/-- The assumption: a stop of a capture succeeds. -/
def CancelSucceeds (r : CaptureRun) (a : ServerAction ι) : Prop :=
  ∀ i o, Registry.deleter r.srv a = some (i, o) → o.pthread_cancel = 0

/-- The guard: a stopped capture is the one that was started last. -/
def StopsNewest (r : CaptureRun) (a : ServerAction ι) : Prop :=
  ∀ i o, Registry.deleter r.srv a = some (i, o) → ∀ d, (r.srv.ClientInfo i).CuteDog = some d →
    ∃ t rest, r.starts = t :: rest ∧ t.dog = d

/-- The threads that run are those started for the listed dogs, and `tidp` has the last id. -/
structure Watched (r : CaptureRun) : Prop where
  last : ∀ t rest, r.starts = t :: rest → r.srv.tidp = t.tid
  listed : ∀ t ∈ r.srv.threads, t.dog ∈ r.srv.CuteDogList
  current : ∀ t ∈ r.srv.threads, r.starts.find? (fun u => u.dog = t.dog) = some t
  newest : ∀ t ∈ r.srv.threads, t.tid = r.srv.tidp → r.starts.head? = some t

variable {r r' : CaptureRun}

theorem newCapture_none {s s' : Server} (h : s'.threads.length ≤ s.threads.length) :
    newCapture s s' = none := by
  unfold newCapture
  split
  · rfl
  · next t rest heq =>
      rw [if_neg]
      rintro rfl
      rw [heq, List.length_cons] at h
      omega

/-- Threads end, and dogs without running threads are deleted or listed. -/
theorem Watched.fewer {s' : Server} (hr : Watched r) (htidp : s'.tidp = r.srv.tidp)
    (hthreads : s'.threads.Sublist r.srv.threads)
    (hlisted : ∀ t ∈ s'.threads, t.dog ∈ r.srv.CuteDogList → t.dog ∈ s'.CuteDogList) :
    Watched { srv := s', starts := (newCapture r.srv s').toList ++ r.starts } := by
  have hnone := newCapture_none hthreads.length_le
  rw [hnone]
  refine ⟨fun t rest h => htidp.trans (hr.last t rest h), fun t ht => ?_, fun t ht => ?_,
    fun t ht htid => ?_⟩
  · exact hlisted t ht (hr.listed t (hthreads.subset ht))
  · exact hr.current t (hthreads.subset ht)
  · exact hr.newest t (hthreads.subset ht) (htid.trans htidp)

/-- The threads of the dog that was started last are those with the id in `tidp`. -/
theorem Watched.dog_iff (hr : Watched r) {t : Capture} {d : DogPtr} (ht : t ∈ r.srv.threads)
    (hnew : ∃ u rest, r.starts = u :: rest ∧ u.dog = d) : t.dog = d ↔ t.tid = r.srv.tidp := by
  obtain ⟨u, rest, hstarts, rfl⟩ := hnew
  constructor
  · intro hdog
    have hfind := hr.current t ht
    rw [hstarts, hdog, List.find?_cons_of_pos (by simp)] at hfind
    cases hfind
    exact (hr.last _ rest hstarts).symm
  · intro htid
    have hhead := hr.newest t ht htid
    rw [hstarts] at hhead
    cases hhead
    rfl

/-- A dog without a running thread is listed. -/
theorem Watched.list {s' : Server} {reg : Registry} {i : Slot} {d : DogPtr} {dog : CUTEDOG}
    (hr : Watched r) (hreg : r.srv.registry = reg) {h : PcapHandle}
    (hs' : s'.registry.captures = ((reg.opens h).list i d dog).captures) :
    Watched { srv := s', starts := (newCapture r.srv s').toList ++ r.starts } := by
  subst hreg
  have htidp : s'.tidp = r.srv.tidp := congrArg Prod.fst hs'
  have hthreads : s'.threads = r.srv.threads := congrArg (·.2.1) hs'
  have hlist : s'.CuteDogList = d :: r.srv.CuteDogList := congrArg (·.2.2) hs'
  refine hr.fewer htidp (hthreads ▸ List.Sublist.refl _) fun t _ ht => ?_
  rw [hlist]
  exact List.mem_cons_of_mem d ht

/-- A dog is listed and its thread started. -/
theorem Watched.start {s' : Server} {reg : Registry} {i : Slot} {t : Capture} {dog : CUTEDOG}
    (hr : Watched r) (hreg : r.srv.registry = reg) {h : PcapHandle} (hnew : t.dog ∉ reg.CuteDogList)
    (hfresh : t.tid ∉ reg.threads.map Capture.tid)
    (hs' : s'.registry.captures = (((reg.opens h).list i t.dog dog).start t).captures) :
    Watched { srv := s', starts := (newCapture r.srv s').toList ++ r.starts } := by
  subst hreg
  have htidp : s'.tidp = t.tid := congrArg Prod.fst hs'
  have hthreads : s'.threads = t :: r.srv.threads := congrArg (·.2.1) hs'
  have hlist : s'.CuteDogList = t.dog :: r.srv.CuteDogList := congrArg (·.2.2) hs'
  have hcapture : newCapture r.srv s' = some t := by
    rw [newCapture, hthreads]
    exact if_pos rfl
  rw [hcapture]
  have hother : ∀ u ∈ r.srv.threads, t.dog ≠ u.dog := fun u hu heq => hnew (heq ▸ hr.listed u hu)
  refine ⟨fun u rest hstarts => ?_, fun u hu => ?_, fun u hu => ?_, fun u hu htid => ?_⟩
  · cases hstarts
    exact htidp
  · have hu' : u ∈ t :: r.srv.threads := hthreads ▸ hu
    show u.dog ∈ s'.CuteDogList
    rw [hlist]
    rcases List.mem_cons.mp hu' with rfl | hu'
    · exact List.mem_cons_self
    · exact List.mem_cons_of_mem _ (hr.listed u hu')
  · have hu' : u ∈ t :: r.srv.threads := hthreads ▸ hu
    show (t :: r.starts).find? _ = some u
    rcases List.mem_cons.mp hu' with rfl | hu'
    · exact List.find?_cons_of_pos (by simp)
    · rw [List.find?_cons_of_neg (by simpa using hother u hu')]
      exact hr.current u hu'
  · have hu' : u ∈ t :: r.srv.threads := hthreads ▸ hu
    rcases List.mem_cons.mp hu' with rfl | hu'
    · rfl
    · have htid' : u.tid = t.tid := htid.trans htidp
      exact absurd (htid' ▸ List.mem_map_of_mem hu') hfresh

/-- What a stop of the capture that was started last does to the threads. -/
theorem Watched.stop {s' : Server} {reg : Registry} {d : DogPtr} {dog : CUTEDOG} {i : Slot}
    (hr : Watched r) (hs : reg.Sound) (hreg : r.srv.registry = reg) (hdog : reg.dogs d = some dog)
    (hs' : s'.registry.captures = ((reg.stop dog.Handle 0).free i d).captures)
    (hnew : ∃ u rest, r.starts = u :: rest ∧ u.dog = d) :
    Watched { srv := s', starts := (newCapture r.srv s').toList ++ r.starts } ∧
      ∀ t, t ∈ s'.threads ↔ t ∈ r.srv.threads ∧ t.dog ≠ d := by
  obtain ⟨h, -, hhandle⟩ := hs.handles d dog hdog
  rw [hhandle] at hs'
  subst hreg
  have htidp : s'.tidp = r.srv.tidp := congrArg Prod.fst hs'
  have hthreads : s'.threads = r.srv.threads.filter fun t => t.tid ≠ r.srv.tidp :=
    congrArg (·.2.1) hs'
  have hlist : s'.CuteDogList = r.srv.CuteDogList.erase d := congrArg (·.2.2) hs'
  have hmem : ∀ t, t ∈ s'.threads ↔ t ∈ r.srv.threads ∧ t.dog ≠ d := by
    intro t
    rw [hthreads, List.mem_filter, decide_eq_true_eq]
    refine and_congr_right fun ht => not_congr ?_
    exact (hr.dog_iff ht hnew).symm
  refine ⟨hr.fewer htidp (hthreads ▸ List.filter_sublist) fun t ht hmem' => ?_, hmem⟩
  rw [hlist]
  exact (List.mem_erase_of_ne ((hmem t).mp ht).2).mpr hmem'

/-- The threads go on when a request or the end of a session stops no capture. -/
theorem Watched.same {s' : Server} {reg' : Registry} (hr : Watched r) (hreg' : s'.registry = reg')
    (hsame : reg'.captures = r.srv.registry.captures) :
    Watched { srv := s', starts := (newCapture r.srv s').toList ++ r.starts } := by
  have hs' : s'.registry.captures = r.srv.registry.captures := hreg' ▸ hsame
  have hthreads : s'.threads = r.srv.threads := congrArg (·.2.1) hs'
  have hlist : s'.CuteDogList = r.srv.CuteDogList := congrArg (·.2.2) hs'
  exact hr.fewer (congrArg Prod.fst hs') (hthreads ▸ List.Sublist.refl _) fun _ _ ht => hlist ▸ ht

theorem Watched.changed {s' : Server} {reg reg' : Registry} {i : Slot} {o : Outcome} {cell : Prop}
    {q : Request} (hr : Watched r) (hs : reg.Sound) (hreg : r.srv.registry = reg)
    (h : Registry.Changed i o cell q reg reg') (hs' : s'.registry.captures = reg'.captures)
    (hstop : q = .cancel → o.pthread_cancel = 0 ∧ ∀ d, (reg.seat i).CuteDog = some d →
      ∃ u rest, r.starts = u :: rest ∧ u.dog = d) :
    Watched { srv := s', starts := (newCapture r.srv s').toList ++ r.starts } := by
  have hunlisted : ∀ {d : DogPtr}, reg.dogs d = none → d ∉ reg.CuteDogList := by
    intro d hnone hmem
    obtain ⟨dog, hdog⟩ := hs.dog hmem
    rw [hdog] at hnone
    cases hnone
  cases h with
  | kept _ => exact hr.same rfl (hreg ▸ hs')
  | hooked _ _ _ => exact hr.same rfl (hreg ▸ hs')
  | opened _ _ => exact hr.same rfl (hreg ▸ hs')
  | listed _ _ _ _ _ => exact hr.list hreg hs'
  | @started _ F N m k tid _ _ _ hnew _ hfresh =>
      exact hr.start (t := { tid := tid, handle := k, dog := o.malloc, pClientInfo := i }) hreg
        (hunlisted hnew) hfresh hs'
  | cancelled hd _ hdog _ =>
      obtain ⟨hcancel, hnew⟩ := hstop rfl
      rw [hcancel] at hs'
      exact (hr.stop hs hreg hdog hs' (hnew _ hd)).1

theorem watched_step {a : ServerAction ι} (hr : Watched r) (hs : r.srv.registry.Sound)
    (hcancel : CancelSucceeds r a) (hguard : StopsNewest r a) (h : captureStep r a = some r') :
    Watched r' := by
  simp only [captureStep, Option.map_eq_some_iff] at h
  obtain ⟨s', hstep, rfl⟩ := h
  have hfollows := serverStep_follows hstep
  cases a with
  | stanza i type node o =>
      refine hr.changed hs rfl hfollows.2.2 rfl fun hq => ?_
      exact ⟨hcancel i o (if_pos hq), fun d hd => hguard i o (if_pos hq) d hd⟩
  | shutdown i o =>
      obtain ⟨-, reg₁, hreg', hreg₁⟩ := hfollows
      split at hreg₁
      · next hpioneer =>
          refine hr.changed hs rfl hreg₁ (hreg' ▸ rfl) fun _ => ?_
          exact ⟨hcancel i o (if_pos hpioneer), fun d hd => hguard i o (if_pos hpioneer) d hd⟩
      · rw [hreg₁] at hreg'
        exact hr.same hreg' rfl
  | loopReturns t =>
      have hthreads : s'.threads = r.srv.threads.erase t := congrArg Registry.threads hfollows
      have hlist : s'.CuteDogList = r.srv.CuteDogList := congrArg Registry.CuteDogList hfollows
      exact hr.fewer (congrArg Registry.tidp hfollows) (hthreads ▸ List.erase_sublist)
        fun _ _ ht => hlist ▸ ht
  | accept sd =>
      obtain ⟨-, hreg⟩ | ⟨i, rest, -, hreg⟩ := hfollows
      · exact hr.same hreg rfl
      · exact hr.same hreg rfl
  | send i sn =>
      obtain hreg | hreg := hfollows
      · exact hr.same hreg rfl
      · exact hr.same hreg rfl
  | toEnd i => exact hr.same hfollows rfl
  | recycle i => exact hr.same hfollows.2.2 rfl
  | packet t p => exact hr.same hfollows rfl
  | drain => exact hr.same hfollows rfl
  | pickUp i => exact hr.same hfollows rfl
  | allocator answer => exact hr.same hfollows rfl

theorem reach_srv {align : MsgCell → Nat} {C : CaptureRun → ServerAction ι → Prop}
    (h : Reach captureStep C (captureInit align) r) :
    Reach (serverStep (ι := ι)) AnyStep (InitServer align) r.srv := by
  refine h.invariant (P := fun r => Reach (serverStep (ι := ι)) AnyStep (InitServer align) r.srv)
    Reach.start ?_
  intro r a r' hr _ hstep
  simp only [captureStep, Option.map_eq_some_iff] at hstep
  obtain ⟨s', hs', rfl⟩ := hstep
  exact hr.next trivial hs'

/-- An operation that deletes the dog of a client stops its capture. -/
theorem Registry.Follows.deletes {s : Server} {reg' : Registry} {a : ServerAction ι} {i : Slot}
    {o : Outcome} {d : DogPtr} (h : Follows s reg' a) (hdel : deleter s a = some (i, o))
    (hd : (s.ClientInfo i).CuteDog = some d) :
    ∃ dog, s.registry.dogs d = some dog ∧
      reg'.captures = ((s.registry.stop dog.Handle o.pthread_cancel).free i d).captures := by
  cases a with
  | stanza j type node o' =>
      simp only [deleter] at hdel
      split at hdel
      · next hq =>
          cases hdel
          have hchanged := h.2.2
          rw [hq] at hchanged
          obtain ⟨dog, hdog, hreg⟩ := hchanged.deletes hd
          exact ⟨dog, hdog, congrArg captures hreg⟩
      · cases hdel
  | shutdown j o' =>
      simp only [deleter] at hdel
      split at hdel
      · next hpioneer =>
          cases hdel
          obtain ⟨-, reg₁, rfl, hreg₁⟩ := h
          rw [if_pos hpioneer] at hreg₁
          obtain ⟨dog, hdog, hreg⟩ := hreg₁.deletes hd
          refine ⟨dog, hdog, ?_⟩
          rw [← hreg]
          rfl
      · cases hdel
  | _ => cases hdel

/-- A stop of the dog `d` passes the id of its thread and ends this thread alone. -/
structure StopsOwnThread (r r' : CaptureRun) (d : DogPtr) : Prop where
  passed : passedId r.srv d = r.storedId d
  others : ∀ t ∈ r.srv.threads, t.dog ≠ d → t ∈ r'.srv.threads
  own : ∀ t ∈ r'.srv.threads, t.dog ≠ d

/-- In a run in which every stopped capture is the one that was started last, a stop cancels the
thread of the stopped dog and no other. -/
theorem stop_cancels_own_thread {align : MsgCell → Nat} {a : ServerAction ι}
    (h : Reach (captureStep (ι := ι)) (fun r a => CancelSucceeds r a ∧ StopsNewest r a)
      (captureInit align) r)
    (hcancel : CancelSucceeds r a) (hguard : StopsNewest r a) (hstep : captureStep r a = some r')
    {i : Slot} {o : Outcome} {d : DogPtr} (hdel : Registry.deleter r.srv a = some (i, o))
    (hd : (r.srv.ClientInfo i).CuteDog = some d) : StopsOwnThread r r' d := by
  have hwatched : Watched r := by
    have hinit : Watched (captureInit align) :=
      { last := fun t rest h => (by cases h)
        listed := fun t ht => (by cases ht)
        current := fun t ht => (by cases ht)
        newest := fun t ht => (by cases ht) }
    refine (h.invariant (P := fun r => r.srv.registry.Sound ∧ Watched r)
      ⟨sound_InitServer align, hinit⟩ ?_).2
    intro r a r' hr hguard hstep
    refine ⟨?_, watched_step hr.2 hr.1 hguard.1 hguard.2 hstep⟩
    simp only [captureStep, Option.map_eq_some_iff] at hstep
    obtain ⟨s', hs', rfl⟩ := hstep
    exact hr.1.follows (serverStep_follows hs')
  have hsound := sound_reach (reach_srv h)
  have hnew := hguard i o hdel d hd
  simp only [captureStep, Option.map_eq_some_iff] at hstep
  obtain ⟨s', hs', rfl⟩ := hstep
  -- the operation is a cancel of the client's dog
  obtain ⟨dog, hdog, hcaptures⟩ : ∃ dog, r.srv.registry.dogs d = some dog ∧ s'.registry.captures =
      ((r.srv.registry.stop dog.Handle 0).free i d).captures := by
    have hzero := hcancel i o hdel
    rw [← hzero]
    exact (serverStep_follows hs').deletes hdel hd
  obtain ⟨-, hmem⟩ := hwatched.stop hsound rfl hdog hcaptures hnew
  refine ⟨?_, fun t ht hne => (hmem t).mpr ⟨ht, hne⟩, fun t ht => ((hmem t).mp ht).2⟩
  have hdog' : r.srv.dogs d = some dog := hdog
  have hthid := hsound.thid d dog hdog
  obtain ⟨t, rest, hstarts, rfl⟩ := hnew
  rw [passedId, CaptureRun.storedId, hdog', hstarts, List.find?_cons_of_pos (by simp),
    Option.bind_some, hthid]
  exact congrArg some (hwatched.last t rest hstarts)

end Steps

/-! ## The capture of another client is started in between -/

theorem captureStep_of {r : CaptureRun} {a : ServerAction Iks} {s' : Server}
    (h : serverStep r.srv a = some s') :
    captureStep r a = some { srv := s', starts := (newCapture r.srv s').toList ++ r.starts } := by
  rw [captureStep, h, Option.map_some]

theorem newCapture_start {s s' : Server} {reg : Registry} {t : Capture}
    (hreg : s'.registry = reg.start t) (hthreads : reg.threads = s.threads) :
    newCapture s s' = some t := by
  have heq : s'.threads = t :: reg.threads := congrArg Registry.threads hreg
  rw [newCapture, heq]
  exact if_pos hthreads

/-- The run in which two clients connect and the client 15 creates a filter. -/
theorem reach_captured (align : MsgCell → Nat) {o : Outcome} {s : Server} {h : PcapHandle}
    {tid : ThreadId} (hs : OwnedDog align o s h tid)
    {C : CaptureRun → ServerAction Iks → Prop}
    (hC : ∀ r a, (∀ i o, Registry.deleter r.srv a ≠ some (i, o)) → C r a) :
    Reach captureStep C (captureInit align) { srv := s, starts :=
      [{ tid := tid, handle := h, dog := o.malloc, pClientInfo := 15 }] } := by
  have haccept : ∀ (r : CaptureRun) (sd : Nat), captureStep r (.accept sd : ServerAction Iks) =
      some { srv := r.srv.acceptClient sd, starts := r.starts } := by
    intro r sd
    have hthreads : (r.srv.acceptClient sd).threads = r.srv.threads := by
      unfold Server.acceptClient
      split
      · rfl
      · rfl
    rw [captureStep_of rfl, newCapture_none (hthreads ▸ Nat.le_refl _)]
    rfl
  have hone : Reach captureStep C (captureInit align) _ :=
    Reach.start.next (hC _ _ fun i o h => (by cases h)) (haccept _ 7)
  have htwo := hone.next (hC _ _ fun i o h => (by cases h)) (haccept _ 8)
  have hnew : newCapture (twoClients align) s = some _ :=
    newCapture_start hs.registry rfl
  refine htwo.next (a := .stanza 15 .IKS_NODE_NORMAL (createFilter "a" "tcp") o) (hC _ _ ?_) ?_
  · intro i o' hdel
    rw [Registry.deleter, requestOf_createFilter, if_neg nofun] at hdel
    cases hdel
  · have hstep := captureStep_of (r := { srv := twoClients align, starts := [] }) hs.step
    rw [hnew] at hstep
    exact hstep

theorem deleter_cancelFilter (s : Server) (i : Slot) (o : Outcome) :
    Registry.deleter s (.stanza i .IKS_NODE_NORMAL cancelFilter o) = some (i, o) := by
  rw [Registry.deleter, if_pos requestOf_cancelFilter]

theorem stop_cancels_own_thread_created :
    ∃ r r', captureStep r (.stanza 15 .IKS_NODE_NORMAL cancelFilter .allSucceed) = some r' ∧
      StopsOwnThread r r' Outcome.allSucceed.malloc := by
  obtain ⟨s, hs⟩ := owned_dog (fun _ => 0) (o := .allSucceed) (h := 0) ⟨rfl, rfl, rfl⟩
    (show Outcome.allSucceed.pthread_create = some 1 from rfl)
  have hreach := reach_captured _ hs (C := fun r a => CancelSucceeds r a ∧ StopsNewest r a)
    fun r a hno => ⟨fun i o h => absurd h (hno i o), fun i o h => absurd h (hno i o)⟩
  have hpoints : (s.ClientInfo 15).CuteDog = some Outcome.allSucceed.malloc :=
    congrArg Seat.CuteDog hs.owner
  obtain ⟨s', hstep, -⟩ := cancel_cancels (o := .allSucceed)
    (sound_reach (hs.reach Outcome.allSucceed_succeeds)) hs.hooked hs.ready requestOf_cancelFilter
    hpoints hs.dog
  have hdel := deleter_cancelFilter s 15 .allSucceed
  refine ⟨_, _, captureStep_of hstep, stop_cancels_own_thread hreach ?_ ?_ (captureStep_of hstep)
    hdel hpoints⟩
  · intro i o h
    cases hdel.symm.trans h
    rfl
  · intro i o h d hd
    cases hdel.symm.trans h
    cases hpoints.symm.trans hd
    exact ⟨_, [], rfl, rfl⟩

/-- When another client starts a capture in between, a stop passes the id of that capture's thread. -/
theorem stop_cancels_other_thread : ¬∀ (r r' : CaptureRun) (a : ServerAction Iks) (i : Slot)
    (o : Outcome) (d : DogPtr),
    Reach captureStep (CancelSucceeds (ι := Iks)) (captureInit fun _ => 0) r → CancelSucceeds r a →
      captureStep r a = some r' → Registry.deleter r.srv a = some (i, o) →
        (r.srv.ClientInfo i).CuteDog = some d → StopsOwnThread r r' d := by
  intro hall
  obtain ⟨s, hs⟩ := owned_dog (fun _ => 0) (o := .allSucceed) (h := 0) ⟨rfl, rfl, rfl⟩
    (show Outcome.allSucceed.pthread_create = some 1 from rfl)
  have hreach := reach_captured _ hs (C := CancelSucceeds (ι := Iks))
    fun r a hno i o h => absurd h (hno i o)
  obtain ⟨s₂, h₂⟩ := hs.second "a"
  have hreach₂ := hreach.next (a := .stanza 14 .IKS_NODE_NORMAL (createFilter "a" "tcp") .second)
    (fun i o h => by
      rw [Registry.deleter, requestOf_createFilter, if_neg nofun] at h
      cases h) (captureStep_of h₂.step)
  rw [newCapture_start h₂.registry rfl] at hreach₂
  -- the client 15 stops its own
  obtain ⟨s₃, hstep₃, -⟩ := h₂.cancel
  have hdel := deleter_cancelFilter s₂ 15 .allSucceed
  have hown := hall _ _ _ 15 .allSucceed 0 hreach₂ (fun i o h => by cases hdel.symm.trans h; rfl)
    (captureStep_of hstep₃) hdel (h₂.points 15)
  -- the id passed is 2, and 1 was stored
  have htidp : s₂.tidp = 2 := congrArg Registry.tidp h₂.registry
  have hpassed := hown.passed
  simp only [passedId, h₂.dogs.1, htidp] at hpassed
  have htwo : some 2 = some 1 := hpassed
  cases htwo

end Netflow
