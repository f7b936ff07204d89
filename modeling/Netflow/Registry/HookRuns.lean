import Netflow.Registry.Nodes
import Netflow.Registry.Shared

set_option autoImplicit false

/-! # Hook lists in a run

In the runs in which only clients that are linked nowhere hook a dog the lists of hookers stay
well formed. A client that hooks the dog it is hooked to makes its own node its successor, and the
list is no circle any more.

The loop of `SendTcp2Cats` runs in the capture threads, over the dog that the `CuteDog` of the thread's
client points to. It returns as long as that is a listed dog, and it stays one as long as no dog is
deleted that the client of a running capture points to (`CapturesListed`).
-/

namespace Netflow

namespace Registry

/-- The client of every capture thread points to a listed dog. -/
def CapturesListed (r : Registry) : Prop :=
  ∀ t ∈ r.threads, ∃ d ∈ r.CuteDogList, (r.seat t.pClientInfo).CuteDog = some d

variable {r : Registry}

theorem CapturesListed.setSeat (hr : CapturesListed r) (i : Slot) {f : Seat → Seat}
    (hf : ∀ d ∈ r.CuteDogList, (r.seat i).CuteDog = some d →
      ∃ e ∈ r.CuteDogList, (f (r.seat i)).CuteDog = some e) : CapturesListed (r.setSeat i f) := by
  intro t ht
  obtain ⟨d, hd, hpoints⟩ := hr t ht
  by_cases hi : t.pClientInfo = i
  · rw [hi] at hpoints ⊢
    rw [seat_setSeat_self]
    exact hf d hd hpoints
  · rw [seat_setSeat_of_ne r f hi]
    exact ⟨d, hd, hpoints⟩

/-- A change of a seat that leaves the pointer alone. -/
theorem CapturesListed.setSeat_same (hr : CapturesListed r) (i : Slot) {f : Seat → Seat}
    (hf : (f (r.seat i)).CuteDog = (r.seat i).CuteDog) : CapturesListed (r.setSeat i f) :=
  hr.setSeat i fun d hd hpoints => ⟨d, hd, hf.trans hpoints⟩

theorem CapturesListed.list (hr : CapturesListed r) (i : Slot) (d : DogPtr) (dog : CUTEDOG) :
    CapturesListed (r.list i d dog) := by
  refine CapturesListed.setSeat (r := { r with
    CuteDogList := d :: r.CuteDogList
    dogs := Function.update r.dogs d (some dog) }) ?_ i fun _ _ _ => ⟨d, List.mem_cons_self, rfl⟩
  intro t ht
  obtain ⟨e, he, hpoints⟩ := hr t ht
  exact ⟨e, List.mem_cons_of_mem d he, hpoints⟩

/-- A new capture for a client that points to a listed dog. -/
theorem CapturesListed.start (hr : CapturesListed r) {t : Capture} {d : DogPtr}
    (hd : d ∈ r.CuteDogList) (hpoints : (r.seat t.pClientInfo).CuteDog = some d) :
    CapturesListed (r.start t) := by
  refine CapturesListed.setSeat_same (r := { r with tidp := t.tid, threads := t :: r.threads })
    (fun u hu => ?_) _ rfl
  rcases List.mem_cons.mp hu with rfl | hu
  · exact ⟨d, hd, hpoints⟩
  · exact hr u hu

/-- Freeing a dog that the client of no capture left points to. -/
theorem CapturesListed.cancel (hr : CapturesListed r) {i : Slot} {d : DogPtr} {h : PcapHandle}
    {Ret : Int} (hd : (r.seat i).CuteDog = some d)
    (hleft : ∀ t ∈ r.threads, (Ret = 0 → t.tid ≠ r.tidp) →
      (r.seat t.pClientInfo).CuteDog ≠ some d) :
    CapturesListed ((r.stop (some h) Ret).free i d) := by
  intro t ht
  obtain ⟨hmem, hrun⟩ := (mem_threads_stop h).mp ht
  have hne := hleft t hmem hrun
  obtain ⟨e, he, hpoints⟩ := hr t hmem
  have hi : t.pClientInfo ≠ i := fun hi => hne (hi ▸ hd)
  refine ⟨e, (List.mem_erase_of_ne ?_).mpr he, ?_⟩
  · rintro rfl
    exact hne hpoints
  · rw [free, seat_setSeat_of_ne _ _ hi]
    exact hpoints

/-- The guard: when a dog is deleted, no capture is left running whose client points to it. -/
def DeletesUncaptured {ι : Type} [Iksemel ι] (s : Server) (a : ServerAction ι) : Prop :=
  ∀ i o, deleter s a = some (i, o) → ∀ d, (s.ClientInfo i).CuteDog = some d →
    ∀ t ∈ s.threads, (o.pthread_cancel = 0 → t.tid ≠ s.tidp) →
      (s.ClientInfo t.pClientInfo).CuteDog ≠ some d

theorem CapturesListed.changed (hr : CapturesListed r) (hs : Sound r) {r' : Registry} {i : Slot}
    {o : Outcome} {cell : Prop} {q : Request} (h : Changed i o cell q r r')
    (hleft : q = .cancel → ∀ d, (r.seat i).CuteDog = some d →
      ∀ t ∈ r.threads, (o.pthread_cancel = 0 → t.tid ≠ r.tidp) →
        (r.seat t.pClientInfo).CuteDog ≠ some d) : CapturesListed r' := by
  cases h with
  | kept _ => exact hr
  | @hooked _ _ d _ hmem _ _ => exact hr.setSeat i fun _ _ _ => ⟨d, hmem, rfl⟩
  | opened _ _ => exact hr
  | @listed _ F N m k _ _ _ _ _ => exact CapturesListed.list (r := r.opens k) hr i _ _
  | @started _ F N m k tid _ _ _ _ _ _ =>
      refine (CapturesListed.list (r := r.opens k) hr i o.malloc _).start List.mem_cons_self ?_
      show (((r.opens k).list i o.malloc _).seat i).CuteDog = some o.malloc
      rw [Registry.list, seat_setSeat_self]
  | @cancelled _ d dog hd _ hdog _ =>
      obtain ⟨h, -, hhandle⟩ := hs.handles d dog hdog
      rw [hhandle]
      exact hr.cancel hd (hleft rfl d hd)

theorem CapturesListed.follows {ι : Type} [Iksemel ι] {s : Server} {r' : Registry}
    {a : ServerAction ι} (hr : CapturesListed s.registry) (hs : Sound s.registry)
    (h : Follows s r' a) (hguard : DeletesUncaptured s a) : CapturesListed r' := by
  cases a with
  | accept sd =>
      obtain ⟨-, rfl⟩ | ⟨i, rest, -, rfl⟩ := h
      · exact hr
      · exact CapturesListed.setSeat_same (r := { s.registry with
          FreeClientList := rest, WorkClientList := i :: s.WorkClientList }) hr i rfl
  | stanza i type node o => exact hr.changed hs h.2.2 fun hq => hguard i o (if_pos hq)
  | shutdown i o =>
      obtain ⟨-, r₁, rfl, hr₁⟩ := h
      have hok : CapturesListed r₁ := by
        split at hr₁
        · next hpioneer => exact hr.changed hs hr₁ fun _ => hguard i o (if_pos hpioneer)
        · rw [hr₁]
          exact hr
      exact hok.setSeat_same i rfl
  | loopReturns t =>
      rw [h]
      exact fun u hu => hr u (List.mem_of_mem_erase hu)
  | send i sn =>
      obtain rfl | rfl := h
      · exact hr
      · exact hr.setSeat_same i rfl
  | toEnd i =>
      rw [h]
      exact hr.setSeat_same i rfl
  | recycle i =>
      rw [h.2.2]
      exact CapturesListed.setSeat_same (r := { s.registry with
        WorkClientList := s.WorkClientList.erase i, FreeClientList := i :: s.FreeClientList }) hr i rfl
  | packet t p => exact h ▸ hr
  | drain => exact h ▸ hr
  | pickUp i => exact h ▸ hr
  | allocator answer => exact h ▸ hr

end Registry

section Run

variable {ι : Type} [Iksemel ι]

theorem wellHooked_step {s s' : Server} {a : ServerAction ι} (hw : WellHooked s)
    (hs : s.registry.Sound) (hguard : HooksUnlinked s a) (h : serverStep s a = some s') :
    WellHooked s' :=
  wellHooked_iff.mpr
    (hookedIn_step (wellHooked_iff.mp hw) hs hguard (fun _ _ _ _ _ _ _ => trivial) h)

theorem wellHooked_InitServer (align : MsgCell → Nat) : WellHooked (InitServer align) :=
  ⟨fun _ => [],
    { circle := fun d hd => by cases hd
      apart := fun d hd => by cases hd
      nodes := fun _ => rfl }⟩

theorem wellHooked_reach {align : MsgCell → Nat} {s : Server}
    (h : Reach (serverStep (ι := ι)) HooksUnlinked (InitServer align) s) : WellHooked s := by
  refine (h.invariant (P := fun s => s.registry.Sound ∧ WellHooked s)
    ⟨sound_InitServer align, wellHooked_InitServer align⟩ ?_).2
  intro s a s' hs hguard hstep
  exact ⟨hs.1.follows (serverStep_follows hstep), wellHooked_step hs.2 hs.1 hguard hstep⟩

/-- The guard: a client that hooks a dog is linked nowhere, and when a dog is deleted no capture is left
running whose client points to it. -/
def ListsKept (s : Server) (a : ServerAction ι) : Prop :=
  HooksUnlinked s a ∧ Registry.DeletesUncaptured s a

theorem capturesListed_reach {align : MsgCell → Nat} {s : Server}
    (h : Reach (serverStep (ι := ι)) Registry.DeletesUncaptured (InitServer align) s) :
    s.registry.CapturesListed := by
  refine (h.invariant (P := fun s => s.registry.Sound ∧ s.registry.CapturesListed)
    ⟨sound_InitServer align, fun t ht => by cases ht⟩ ?_).2
  intro s a s' hs hguard hstep
  have hfollows := serverStep_follows hstep
  exact ⟨hs.1.follows hfollows, hs.2.follows hs.1 hfollows hguard⟩

/-- The fan-out for a client returns exactly when its `CuteDog` is a listed dog. -/
theorem sendToHookers_isSome_iff {s : Server} (hw : WellHooked s)
    (ha : Allocated s.links s.CuteDogList) (i : Slot) (message : CStr) :
    (s.sendToHookers i message).isSome = true ↔
      ∃ d ∈ s.CuteDogList, (s.ClientInfo i).CuteDog = some d := by
  constructor
  · intro hsome
    obtain ⟨r, hr⟩ := Option.isSome_iff_exists.mp hsome
    simp only [Server.sendToHookers, Option.bind_eq_bind, Option.bind_eq_some_iff] at hr
    obtain ⟨d, hd, head, hhead, -⟩ := hr
    exact ⟨d, (ha.heads d).mp (Option.isSome_of_eq_some hhead), hd⟩
  · rintro ⟨d, hmem, hd⟩
    obtain ⟨hookers, hooked⟩ := hw
    obtain ⟨b, s', hsend⟩ := Server.sendToHookers_hooked hooked hd hmem message
    exact Option.isSome_of_eq_some hsend

/-- In a run in which only clients that are linked nowhere hook a dog, and no dog is deleted that the
client of a running capture points to, the lists of hookers are circular lists of client nodes, no client
is in two of them or twice in one, and the loops over them return: those of the requests for every client
and every listed dog, and the fan-out for every capture. -/
theorem hook_lists_well_formed {align : MsgCell → Nat} {s : Server}
    (h : Reach (serverStep (ι := ι)) ListsKept (InitServer align) s) :
    WellHooked s ∧ (∀ i, (s.DelHookerInCuteDog i).isSome = true) ∧
      (∀ d ∈ s.CuteDogList, (s.DelHookersWithCuteDog d).isSome = true) ∧
      (∀ t ∈ s.threads, ∀ message, (s.sendToHookers t.pClientInfo message).isSome = true) ∧
      ∀ i message, (s.sendToHookers i message).isSome = true ↔
        ∃ d ∈ s.CuteDogList, (s.ClientInfo i).CuteDog = some d := by
  have hw : WellHooked s := wellHooked_reach (h.mono fun _ _ hguard => hguard.1)
  have hcaptures := capturesListed_reach (h.mono fun _ _ hguard => hguard.2)
  have hs := sound_reach h
  have hsend := sendToHookers_isSome_iff hw (allocated_reach h.any)
  refine ⟨hw, fun i => ?_, fun d hd => ?_, fun t ht message => ?_, hsend⟩
  · obtain ⟨hookers, hooked⟩ := hw
    have hdogs : ∀ d ∈ s.CuteDogList, (s.dogs d).isSome = true := fun d hd => (hs.listed d).mpr hd
    obtain ⟨b, links, hookers', hdel, -⟩ := Server.DelHookerInCuteDog_hooked hooked hdogs i
    exact Option.isSome_of_eq_some hdel
  · obtain ⟨hookers, hooked⟩ := hw
    obtain ⟨dog, hdog⟩ := hs.dog hd
    obtain ⟨b, s', hdel, -⟩ := Server.DelHookersWithCuteDog_circle (hooked.circle d hd) hdog
    exact Option.isSome_of_eq_some hdel
  · exact (hsend t.pClientInfo message).mpr (hcaptures t ht)

end Run

/-- A client creates a filter, another one hooks it, and the first cancels its filter: before the cancel
the fan-out goes to the hooker, and afterwards the lists are well formed again. -/
theorem hook_lists_well_formed_cancelled : ∃ (s s' : Server) (dog : CUTEDOG) (t : Capture),
    SharedDog s 0 dog ∧ t ∈ s.threads ∧ t.pClientInfo = 15 ∧ WellHooked s ∧
      (∀ message, (s.sendToHookers 15 message).isSome = true) ∧
      serverStep s (.stanza 15 .IKS_NODE_NORMAL cancelFilter .allSucceed) = some s' ∧
      s'.CuteDogList = [] ∧ WellHooked s' ∧ ∀ i, (s'.DelHookerInCuteDog i).isSome = true := by
  obtain ⟨s₁, hs₁⟩ := owned_dog (fun _ => 0) (o := .allSucceed) (h := 0) ⟨rfl, rfl, rfl⟩
    (show Outcome.allSucceed.pthread_create = some 1 from rfl)
  obtain ⟨s, hhook, hreg, hshared⟩ := hs₁.hook
  -- no client is linked when the client 14 hooks the dog
  have hunlinked : HooksUnlinked s₁ (.stanza 14 .IKS_NODE_NORMAL (hookFilter "a") .allSucceed) := by
    rintro Item d - - ⟨e, he, xs, hcircle, hmem⟩
    rw [hcircle.unique (hs₁.hooked.circle e he)] at hmem
    cases hmem
  have hdeletes : ∀ (t : Server) (i : Slot) (node : Iks) (o : Outcome),
      requestOf .IKS_NODE_NORMAL node ≠ .cancel →
        Registry.DeletesUncaptured t (.stanza i .IKS_NODE_NORMAL node o) := by
    intro t i node o hreq j o' hdel
    rw [Registry.deleter, if_neg hreq] at hdel
    cases hdel
  have hreach : Reach (serverStep (ι := Iks)) ListsKept (InitServer fun _ => 0) s := by
    refine (hs₁.run (C := ListsKept) (fun t sd => ⟨trivial, fun _ _ hdel => by cases hdel⟩)
      ⟨fun Item d hreq => ?_, hdeletes _ _ _ _ ?_⟩).next ⟨hunlinked, hdeletes _ _ _ _ ?_⟩ hhook
    · rw [requestOf_createFilter] at hreq
      cases hreq
    · rw [requestOf_createFilter]
      exact fun h => by cases h
    · rw [requestOf_hookFilter]
      exact fun h => by cases h
  obtain ⟨hookers, hooked, -⟩ := hshared.hooked
  obtain ⟨s', hstep, hreg', -⟩ := cancel_cancels (o := .allSucceed) (sound_reach hreach) hooked
    hshared.ready.2 requestOf_cancelFilter hshared.points.2 hshared.dogs
  -- the one capture is the one that the cancel stops
  have hthreads : s.threads = [{ tid := 1, handle := 0, dog := 0, pClientInfo := 15 }] :=
    (congrArg Registry.threads hreg : s.threads = s₁.threads).trans hs₁.threads
  have htidp : s.tidp = 1 :=
    (congrArg Registry.tidp hreg).trans (congrArg Registry.tidp hs₁.registry)
  have hguard : ListsKept s (.stanza 15 .IKS_NODE_NORMAL cancelFilter .allSucceed) := by
    refine ⟨fun Item d hreq => ?_, fun i o hdel d _ t ht hrun => ?_⟩
    · rw [requestOf_cancelFilter] at hreq
      cases hreq
    · rw [Registry.deleter, if_pos requestOf_cancelFilter] at hdel
      cases hdel
      rw [hthreads, List.mem_singleton] at ht
      rw [ht, htidp] at hrun
      exact absurd rfl (hrun rfl)
  obtain ⟨hw, -, -, hsends, -⟩ := hook_lists_well_formed hreach
  obtain ⟨hw', hdels, -⟩ := hook_lists_well_formed (hreach.next hguard hstep)
  have hlist : s'.CuteDogList = s.CuteDogList.erase 0 := by
    have heq : s'.CuteDogList = ((s.registry.stop _ _).free 15 0).CuteDogList :=
      congrArg Registry.CuteDogList hreg'
    rw [heq, ← show s.registry.CuteDogList = s.CuteDogList from rfl,
      ← Registry.CuteDogList_stop s.registry (some 0) 0]
    rfl
  have hmem : (⟨1, 0, 0, 15⟩ : Capture) ∈ s.threads := by
    rw [hthreads]
    exact List.mem_singleton_self _
  refine ⟨s, s', _, _, hshared, hmem, rfl, hw, hsends _ hmem, hstep, ?_, hw', hdels⟩
  rw [hlist, hshared.list]
  rfl

/-! ## A client hooks its dog again -/

/-- `list_add` puts the node behind the head, whether it is in the list or not. -/
theorem list_add_circle {mem : LinkMem HookNode} {d : DogPtr} {i : Slot} {js : List Slot}
    (h : Circle mem (.ListHooker d) (js.map .list1)) (hnode : (mem (.list1 i)).isSome = true) :
    ∃ mem', list_add mem (.list1 i) (.ListHooker d) = some mem' ∧
      mem'.next (.ListHooker d) = some (.list1 i) ∧
      mem'.next (.list1 i) = some ((js.map HookNode.list1).headD (.ListHooker d)) ∧
      ∀ n, n ∉ HookNode.list1 i :: .ListHooker d :: js.map .list1 → mem' n = mem n := by
  obtain ⟨l, hl, hnext⟩ := h.first
  obtain ⟨first, hfirst⟩ : ∃ n, (js.map HookNode.list1).headD (.ListHooker d) = n := ⟨_, rfl⟩
  rw [hfirst] at hnext ⊢
  have hmem : first ∈ HookNode.ListHooker d :: js.map .list1 := by
    cases js with
    | nil => exact List.mem_cons.mpr (Or.inl hfirst.symm)
    | cons j js => exact List.mem_cons_of_mem _ (List.mem_cons.mpr (Or.inl hfirst.symm))
  have hhead : (mem (.ListHooker d)).isSome = true := Option.isSome_of_eq_some hl
  have hsome : (mem first).isSome = true := h.isSome first hmem
  refine ⟨(((mem.withPrev first (some (.list1 i))).withNext (.list1 i)
    (some first)).withPrev (.list1 i) (some (.ListHooker d))).withNext (.ListHooker d)
      (some (.list1 i)), ?_, ?_, ?_, fun n hn => ?_⟩
  · exact (list_add_eq_some_iff hnode).mpr
      ⟨first, (LinkMem.next_eq hl).trans hnext, hsome, rfl⟩
  · rw [next_withNext _ _ (by simpa using hhead), if_pos rfl]
  · rw [next_withNext _ _ (by simpa using hhead), if_neg (list1_ne_ListHooker i d), next_withPrev,
      next_withNext _ _ (by simpa using hnode), if_pos rfl]
  · have hni : n ≠ .list1 i := fun heq => hn (heq ▸ List.mem_cons_self)
    have hnd : n ≠ .ListHooker d := fun heq =>
      hn (List.mem_cons_of_mem _ (heq ▸ List.mem_cons_self))
    have hnf : n ≠ first := fun heq => hn (List.mem_cons_of_mem _ (heq ▸ hmem))
    rw [withNext_of_ne _ _ hnd, withPrev_of_ne _ _ hni, withNext_of_ne _ _ hni,
      withPrev_of_ne _ _ hnf]

/-- A node that is its own successor stands in no circle. -/
theorem Circle.not_self_next {mem : LinkMem HookNode} {d : DogPtr} {i : Slot} {xs : List HookNode}
    (h : Circle mem (.ListHooker d) xs) (hhead : mem.next (.ListHooker d) = some (.list1 i))
    (hself : mem.next (.list1 i) = some (.list1 i)) : False := by
  obtain ⟨hnodup, hpath⟩ := h
  cases xs with
  | nil =>
      have hjoin := hpath.1.symm.trans hhead
      cases hjoin
  | cons x xs =>
      have hx : x = .list1 i := Option.some.inj (hpath.1.1.symm.trans hhead)
      subst hx
      cases xs with
      | nil =>
          have hjoin := hpath.2.1.symm.trans hself
          cases hjoin
      | cons y ys =>
          have hy : y = .list1 i := Option.some.inj (hpath.2.1.1.symm.trans hself)
          subst hy
          simp at hnodup

/-- A client that hooks the dog it is hooked to breaks the list of the dog. -/
theorem hook_lists_broken : ¬∀ s, Reach (serverStep (ι := Iks)) AnyStep (InitServer fun _ => 0) s →
    WellHooked s := by
  intro hall
  obtain ⟨s, dog, hreach, hshared⟩ := shared_dog (fun _ => 0) Outcome.allSucceed_succeeds
  obtain ⟨hookers, hooked, hhookers⟩ := hshared.hooked
  have hcircle := hooked.circle Outcome.allSucceed.malloc (by
    rw [hshared.list]
    exact List.mem_cons_self)
  rw [hhookers] at hcircle
  obtain ⟨links, hadd, hhead, hself, -⟩ := list_add_circle (i := 14) hcircle (hooked.nodes 14)
  obtain ⟨s', hstep, hreg, hlinks, -⟩ := hook_hooks (o := Outcome.allSucceed) hshared.ready.1
    (requestOf_hookFilter "a") hshared.found hadd
  obtain ⟨hookers', hooked'⟩ := hall s' (hreach.any.next trivial hstep)
  have hlist : s'.CuteDogList = s.CuteDogList := congrArg Registry.CuteDogList hreg
  have hcircle' := hooked'.circle Outcome.allSucceed.malloc
    (by rw [hlist, hshared.list]; exact List.mem_cons_self)
  rw [hlinks] at hcircle'
  exact hcircle'.not_self_next hhead hself

end Netflow
