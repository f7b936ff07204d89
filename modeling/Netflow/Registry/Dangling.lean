import Netflow.Registry.Shared

set_option autoImplicit false

/-! # Pointers to dogs

A client's `CuteDog` points to the dog it owns or to the dog it hooks. Freeing a dog clears the
pointer of the client that asked for it only, so pointers stay valid as long as no dog is freed that
another slot still points to.
-/

namespace Netflow

namespace Registry

/-- Every `CuteDog` is NULL or points to a listed dog. -/
def NoDangling (r : Registry) : Prop :=
  ∀ i d, (r.seat i).CuteDog = some d → d ∈ r.CuteDogList

variable {r : Registry}

theorem NoDangling.setSeat (hr : NoDangling r) (i : Slot) {f : Seat → Seat}
    (hf : ∀ d, (f (r.seat i)).CuteDog = some d → d ∈ r.CuteDogList) :
    NoDangling (r.setSeat i f) := by
  intro j d hd
  by_cases hj : j = i
  · subst hj
    rw [seat_setSeat_self] at hd
    exact hf d hd
  · rw [seat_setSeat_of_ne r f hj] at hd
    exact hr j d hd

/-- A listed dog is another pointer's aim. -/
theorem NoDangling.list (hr : NoDangling r) (i : Slot) (d : DogPtr) (dog : CUTEDOG) :
    NoDangling (r.list i d dog) := by
  refine NoDangling.setSeat (r := { r with
    CuteDogList := d :: r.CuteDogList
    dogs := Function.update r.dogs d (some dog) }) ?_ i ?_
  · intro j e he
    exact List.mem_cons_of_mem d (hr j e he)
  · intro e he
    cases he
    exact List.mem_cons_self

theorem NoDangling.start (hr : NoDangling r) (t : Capture) : NoDangling (r.start t) :=
  NoDangling.setSeat (r := { r with tidp := t.tid, threads := t :: r.threads }) hr _
    fun d hd => hr _ d hd

/-- Freeing a dog that nobody else points to. -/
theorem NoDangling.cancel (hr : NoDangling r) {i : Slot} {d : DogPtr} (Handle : Option PcapHandle)
    (Ret : Int) (halone : ∀ j, (r.seat j).CuteDog = some d → j = i) :
    NoDangling ((r.stop Handle Ret).free i d) := by
  intro j e he
  have hlist : ((r.stop Handle Ret).free i d).CuteDogList = r.CuteDogList.erase d := by
    rw [← CuteDogList_stop r Handle Ret]
    rfl
  rw [hlist]
  by_cases hj : j = i
  · subst hj
    have hnone : (((r.stop Handle Ret).free j d).seat j).CuteDog = none := by
      rw [free, seat_setSeat_self]
    rw [hnone] at he
    cases he
  · have hsame : (((r.stop Handle Ret).free i d).seat j).CuteDog = (r.seat j).CuteDog := by
      rw [free, seat_setSeat_of_ne _ _ hj]
      show ((r.stop Handle Ret).seat j).CuteDog = _
      rw [seat_stop]
    rw [hsame] at he
    have hed : e ≠ d := by
      rintro rfl
      exact hj (halone j he)
    exact (List.mem_erase_of_ne hed).mpr (hr j e he)

theorem NoDangling.changed (hr : NoDangling r) {r' : Registry} {i : Slot} {o : Outcome}
    {cell : Prop} {q : Request} (h : Changed i o cell q r r')
    (halone : q = .cancel → ∀ d, (r.seat i).CuteDog = some d →
      ∀ j, (r.seat j).CuteDog = some d → j = i) : NoDangling r' := by
  cases h with
  | kept _ => exact hr
  | hooked hmem _ _ =>
      refine hr.setSeat i fun d hd => ?_
      cases hd
      exact hmem
  | opened _ _ => exact hr
  | listed _ _ _ _ _ => exact NoDangling.list (r := r.opens _) hr i _ _
  | started _ _ _ _ _ _ => exact (NoDangling.list (r := r.opens _) hr i _ _).start _
  | cancelled hd _ _ _ => exact hr.cancel _ _ (halone rfl _ hd)

/-- The guard: a dog is deleted only when no other slot points to it. -/
def DeletesUnshared {ι : Type} [Iksemel ι] (s : Server) (a : ServerAction ι) : Prop :=
  ∀ i o, deleter s a = some (i, o) → ∀ d, (s.ClientInfo i).CuteDog = some d →
    ∀ j, (s.ClientInfo j).CuteDog = some d → j = i

theorem NoDangling.follows {ι : Type} [Iksemel ι] {s : Server} {r' : Registry}
    {a : ServerAction ι} (hr : NoDangling s.registry) (h : Follows s r' a)
    (hguard : DeletesUnshared s a) : NoDangling r' := by
  cases a with
  | accept sd =>
      obtain ⟨-, rfl⟩ | ⟨i, rest, -, rfl⟩ := h
      · exact hr
      · exact NoDangling.setSeat (r := { s.registry with
          FreeClientList := rest, WorkClientList := i :: s.WorkClientList }) hr i fun d hd => hr i d hd
  | stanza i type node o =>
      refine hr.changed h.2.2 fun hq d hd j hj => ?_
      exact hguard i o (if_pos hq) d hd j hj
  | shutdown i o =>
      obtain ⟨-, r₁, rfl, hr₁⟩ := h
      have hok : NoDangling r₁ := by
        split at hr₁
        · next hpioneer =>
            exact hr.changed hr₁ fun _ d hd j hj => hguard i o (if_pos hpioneer) d hd j hj
        · rw [hr₁]
          exact hr
      exact hok.setSeat i fun d hd => hok i d hd
  | loopReturns t =>
      rw [h]
      exact hr
  | send i sn =>
      obtain rfl | rfl := h
      · exact hr
      · exact hr.setSeat i fun d hd => hr i d hd
  | toEnd i =>
      rw [h]
      exact hr.setSeat i fun d hd => hr i d hd
  | recycle i =>
      rw [h.2.2]
      exact NoDangling.setSeat (r := { s.registry with
        WorkClientList := s.WorkClientList.erase i, FreeClientList := i :: s.FreeClientList }) hr i
        fun d hd => hr i d hd
  | packet t p => exact h ▸ hr
  | drain => exact h ▸ hr
  | pickUp i => exact h ▸ hr
  | allocator answer => exact h ▸ hr

end Registry

theorem Registry.noDangling_reach {ι : Type} [Iksemel ι] {align : MsgCell → Nat} {s : Server}
    (h : Reach (serverStep (ι := ι)) Registry.DeletesUnshared (InitServer align) s) :
    s.registry.NoDangling :=
  h.invariant (P := fun s => s.registry.NoDangling) (fun _ _ hd => by cases hd)
    fun _ _ _ hs hguard hstep => hs.follows (serverStep_follows hstep) hguard

/-- In a run that deletes no dog another slot points to, every `CuteDog` is NULL or listed. -/
theorem cuteDog_listed {ι : Type} [Iksemel ι] {align : MsgCell → Nat} {s : Server}
    (h : Reach (serverStep (ι := ι)) Registry.DeletesUnshared (InitServer align) s) :
    ∀ i d, (s.ClientInfo i).CuteDog = some d → d ∈ s.CuteDogList :=
  Registry.noDangling_reach h

/-- Two clients create a filter each and the first one cancels its own: the other still points to a
listed dog. -/
theorem cuteDog_listed_cancelled : ∃ s s' : Server,
    s.CuteDogList = [1, 0] ∧ (s.ClientInfo 14).CuteDog = some 1 ∧
      (s.ClientInfo 15).CuteDog = some 0 ∧
      serverStep s (.stanza 15 .IKS_NODE_NORMAL cancelFilter .allSucceed) = some s' ∧
      s'.CuteDogList = [1] ∧ (s'.ClientInfo 14).CuteDog = some 1 ∧
      ∀ i d, (s'.ClientInfo i).CuteDog = some d → d ∈ s'.CuteDogList := by
  obtain ⟨s₁, hs₁⟩ := owned_dog (fun _ => 0) (o := .allSucceed) (h := 0) ⟨rfl, rfl, rfl⟩
    (show Outcome.allSucceed.pthread_create = some 1 from rfl)
  obtain ⟨s, h⟩ := hs₁.second "b"
  obtain ⟨s', hstep, hreg⟩ := h.cancel
  have hcreate : ∀ t i name o, Registry.DeletesUnshared t
      (.stanza i .IKS_NODE_NORMAL (createFilter name "tcp") o) := by
    intro t i name o j o' hdel
    rw [Registry.deleter, requestOf_createFilter, if_neg nofun] at hdel
    cases hdel
  have hreach := h.run (C := Registry.DeletesUnshared (ι := Iks)) (fun _ _ _ _ hd => by cases hd)
    (hcreate _ _ _ _) (hcreate _ _ _ _)
  -- nobody else points to the dog of the client 15
  have hguard : Registry.DeletesUnshared s
      (.stanza 15 .IKS_NODE_NORMAL cancelFilter Outcome.allSucceed) := by
    intro i o hdel d hd j hj
    rw [Registry.deleter, if_pos requestOf_cancelFilter] at hdel
    cases hdel
    cases (h.points 15).symm.trans hd
    by_contra hji
    rw [h.points, if_neg hji] at hj
    split at hj
    · cases hj
    · cases hj
  have hlist : s'.CuteDogList = s.CuteDogList.erase 0 := congrArg Registry.CuteDogList hreg
  have hpoints : (s'.ClientInfo 14).CuteDog = (s.ClientInfo 14).CuteDog :=
    congrArg Seat.CuteDog (congrFun (congrArg Registry.seat hreg) 14)
  refine ⟨s, s', h.list, h.points 14, h.points 15, hstep, ?_, hpoints.trans (h.points 14),
    cuteDog_listed (hreach.next hguard hstep)⟩
  rw [hlist, h.list]
  rfl

/-- When the master of a hooked dog cancels its filter, the hooker points to freed memory. -/
theorem hooker_left_dangling : ¬∀ s,
    Reach (serverStep (ι := Iks)) Succeeding (InitServer fun _ => 0) s →
    Registry.NoDangling s.registry := by
  intro hall
  have ho := Outcome.allSucceed_succeeds
  obtain ⟨s, dog, hreach, hshared⟩ := shared_dog (fun _ => 0) ho
  obtain ⟨hookers, hooked, -⟩ := hshared.hooked
  obtain ⟨s', hstep, hreg, hspends⟩ := cancel_cancels (o := Outcome.allSucceed) (sound_reach hreach)
    hooked hshared.ready.2 requestOf_cancelFilter hshared.points.2 hshared.dogs
  have hcells : 0 < s'.pFifoDogMsgFree.count := by
    have h4000 := hshared.cells
    rw [Server.Spends, answersOf, hshared.work] at hspends
    simp only [CLIENTNUM, List.length_cons, List.length_nil] at hspends
    omega
  have hlist : s'.registry.CuteDogList = [] := by
    rw [hreg]
    show (s.registry.stop dog.Handle _).CuteDogList.erase _ = []
    rw [Registry.CuteDogList_stop, show s.registry.CuteDogList = s.CuteDogList from rfl, hshared.list]
    rfl
  have hpoints : (s'.registry.seat 14).CuteDog = some Outcome.allSucceed.malloc := by
    rw [hreg, Registry.free, Registry.seat_setSeat_of_ne _ _ (by decide)]
    show ((s.registry.stop dog.Handle _).seat 14).CuteDog = _
    rw [Registry.seat_stop]
    exact hshared.points.1
  have hmem := hall s' (hreach.stanza ho hstep hcells) 14 _ hpoints
  rw [hlist] at hmem
  cases hmem

end Netflow
