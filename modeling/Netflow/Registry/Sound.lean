import Netflow.Registry.Follows

set_option autoImplicit false

/-! # What holds in every run

The dogs in memory are the listed ones, every slot is in one of the two client lists, and every dog
has an open handle of its own. No operation breaks this, whatever the requests are and whatever
`libpcap`, `malloc` and the thread library answer.
-/

namespace Netflow

namespace Registry

/-- The invariant of all runs. -/
structure Sound (r : Registry) : Prop where
  listed : ∀ d, (r.dogs d).isSome = true ↔ d ∈ r.CuteDogList
  nodup : r.CuteDogList.Nodup
  slots : (r.FreeClientList ++ r.WorkClientList).Nodup
  handles : ∀ d dog, r.dogs d = some dog → ∃ h ∈ r.opened, dog.Handle = some h
  apart : ∀ d e dog dog', r.dogs d = some dog → r.dogs e = some dog' →
    dog.Handle = dog'.Handle → d = e
  thid : ∀ d dog, r.dogs d = some dog → dog.Thid = some .tidp

variable {r : Registry}

theorem Sound.mem (hr : Sound r) {d : DogPtr} {dog : CUTEDOG} (h : r.dogs d = some dog) :
    d ∈ r.CuteDogList := (hr.listed d).mp (by rw [h]; rfl)

theorem Sound.dog (hr : Sound r) {d : DogPtr} (h : d ∈ r.CuteDogList) :
    ∃ dog, r.dogs d = some dog := Option.isSome_iff_exists.mp ((hr.listed d).mpr h)

/-- A working slot is not free. -/
theorem Sound.not_free (hr : Sound r) {i : Slot} (hi : i ∈ r.WorkClientList) :
    i ∉ r.FreeClientList :=
  fun hfree => (List.nodup_append.mp hr.slots).2.2 i hfree i hi rfl

/-! ## The operations -/

theorem Sound.setSeat (hr : Sound r) (i : Slot) (f : Seat → Seat) : Sound (r.setSeat i f) :=
  ⟨hr.listed, hr.nodup, hr.slots, hr.handles, hr.apart, hr.thid⟩

/-- The two client lists only exchange a slot. -/
theorem Sound.moveSlot (hr : Sound r) (free work : List Slot)
    (h : (free ++ work).Perm (r.FreeClientList ++ r.WorkClientList)) :
    Sound { r with FreeClientList := free, WorkClientList := work } :=
  ⟨hr.listed, hr.nodup, h.nodup_iff.mpr hr.slots, hr.handles, hr.apart, hr.thid⟩

theorem Sound.accept (hr : Sound r) {i : Slot} {rest : List Slot}
    (hfree : r.FreeClientList = i :: rest) : Sound (r.accept i rest) := by
  refine (hr.moveSlot rest (i :: r.WorkClientList) ?_).setSeat i _
  rw [hfree]
  exact List.perm_middle

theorem Sound.recycle (hr : Sound r) {i : Slot} (hi : i ∈ r.WorkClientList) :
    Sound (r.recycle i) := by
  refine (hr.moveSlot (i :: r.FreeClientList) (r.WorkClientList.erase i) ?_).setSeat
    i _
  exact List.perm_middle.symm.trans ((List.perm_cons_erase hi).symm.append_left _)

theorem Sound.opens (hr : Sound r) (h : PcapHandle) : Sound (r.opens h) where
  listed := hr.listed
  nodup := hr.nodup
  slots := hr.slots
  handles d dog hdog := by
    obtain ⟨k, hk, heq⟩ := hr.handles d dog hdog
    exact ⟨k, List.mem_cons_of_mem h hk, heq⟩
  apart := hr.apart
  thid := hr.thid

/-- A new dog with a handle that was not open before. -/
theorem Sound.list (hr : Sound r) {h : PcapHandle} {d : DogPtr} {N F : CStr} {i : Slot}
    (hfresh : h ∉ r.opened) (hnew : r.dogs d = none) :
    Sound ((r.opens h).list i d (newDog h .tidp N F i)) := by
  have hd : d ∉ r.CuteDogList := by
    intro hmem
    obtain ⟨dog, hdog⟩ := hr.dog hmem
    rw [hdog] at hnew
    cases hnew
  have hother : ∀ e dog, r.dogs e = some dog → dog.Handle ≠ some h := by
    intro e dog hdog heq
    obtain ⟨k, hk, hkeq⟩ := hr.handles e dog hdog
    rw [heq] at hkeq
    cases hkeq
    exact hfresh hk
  refine ⟨?_, List.nodup_cons.mpr ⟨hd, hr.nodup⟩, hr.slots, ?_, ?_, ?_⟩
  · intro e
    show (Function.update r.dogs d _ e).isSome = true ↔ e ∈ d :: r.CuteDogList
    by_cases he : e = d
    · simp [he]
    · simp only [Function.update_of_ne he, List.mem_cons, he, false_or]
      exact hr.listed e
  · intro e dog hdog
    obtain ⟨-, rfl⟩ | ⟨-, hdog⟩ := dogs_list hdog
    · exact ⟨h, List.mem_cons_self, rfl⟩
    · exact (hr.opens h).handles e dog hdog
  · intro e e' dog dog' hdog hdog' heq
    obtain ⟨rfl, rfl⟩ | ⟨-, hdog⟩ := dogs_list hdog
    · obtain ⟨rfl, -⟩ | ⟨-, hdog'⟩ := dogs_list hdog'
      · rfl
      · exact absurd heq.symm (hother e' dog' hdog')
    · obtain ⟨-, rfl⟩ | ⟨-, hdog'⟩ := dogs_list hdog'
      · exact absurd heq (hother e dog hdog)
      · exact hr.apart e e' dog dog' hdog hdog' heq
  · intro e dog hdog
    obtain ⟨-, rfl⟩ | ⟨-, hdog⟩ := dogs_list hdog
    · rfl
    · exact hr.thid e dog hdog

theorem Sound.start (hr : Sound r) (t : Capture) : Sound (r.start t) :=
  Sound.setSeat (r := { r with tidp := t.tid, threads := t :: r.threads })
    ⟨hr.listed, hr.nodup, hr.slots, hr.handles, hr.apart, hr.thid⟩ _ _

/-- A dog whose handle was closed is freed. -/
theorem Sound.cancel (hr : Sound r) {d : DogPtr} {dog : CUTEDOG} (hdog : r.dogs d = some dog)
    (Ret : Int) (i : Slot) : Sound ((r.stop dog.Handle Ret).free i d) := by
  obtain ⟨h, hopen, hhandle⟩ := hr.handles d dog hdog
  rw [hhandle]
  have hkeep : ∀ e dog', ((r.stop (some h) Ret).free i d).dogs e = some dog' →
      e ≠ d ∧ r.dogs e = some dog' := fun e dog' he => dogs_free (r := r.stop (some h) Ret) he
  refine ⟨?_, hr.nodup.erase d, hr.slots, ?_, ?_, ?_⟩
  · intro e
    show (Function.update r.dogs d none e).isSome = true ↔ e ∈ r.CuteDogList.erase d
    by_cases he : e = d
    · simp [he, hr.nodup.mem_erase_iff]
    · simp only [Function.update_of_ne he, hr.nodup.mem_erase_iff, ne_eq, he, not_false_eq_true,
        true_and]
      exact hr.listed e
  · intro e dog' he
    obtain ⟨hed, hdog'⟩ := hkeep e dog' he
    obtain ⟨k, hk, hkeq⟩ := hr.handles e dog' hdog'
    refine ⟨k, ?_, hkeq⟩
    have hkh : k ≠ h := by
      rintro rfl
      exact hed (hr.apart e d dog' dog hdog' hdog (hkeq.trans hhandle.symm))
    exact (List.mem_erase_of_ne hkh).mpr hk
  · intro e e' dog₁ dog₂ h₁ h₂ heq
    exact hr.apart e e' dog₁ dog₂ (hkeep e dog₁ h₁).2 (hkeep e' dog₂ h₂).2 heq
  · intro e dog' he
    exact hr.thid e dog' (hkeep e dog' he).2

theorem Sound.changed (hr : Sound r) {r' : Registry} {i : Slot} {o : Outcome} {cell : Prop}
    {q : Request} (h : Changed i o cell q r r') : Sound r' := by
  cases h with
  | kept _ => exact hr
  | hooked _ _ _ => exact hr.setSeat i _
  | opened _ _ => exact hr.opens _
  | listed _ _ hfresh hnew _ => exact hr.list hfresh hnew
  | started _ _ hfresh hnew _ _ => exact (hr.list hfresh hnew).start _
  | cancelled _ _ hdog _ => exact hr.cancel hdog _ i

theorem Sound.follows {ι : Type} [Iksemel ι] {s : Server} {r' : Registry} {a : ServerAction ι}
    (hr : Sound s.registry) (h : Follows s r' a) : Sound r' := by
  cases a with
  | accept sd =>
      obtain ⟨-, rfl⟩ | ⟨i, rest, hfree, rfl⟩ := h
      · exact hr
      · exact hr.accept hfree
  | stanza i type node o => exact hr.changed h.2.2
  | shutdown i o =>
      obtain ⟨-, r₁, rfl, hr₁⟩ := h
      refine Sound.setSeat ?_ i _
      split at hr₁
      · exact hr.changed hr₁
      · rw [hr₁]
        exact hr
  | loopReturns t =>
      rw [h]
      exact ⟨hr.listed, hr.nodup, hr.slots, hr.handles, hr.apart, hr.thid⟩
  | send i sn =>
      obtain rfl | rfl := h
      · exact hr
      · exact hr.setSeat i _
  | toEnd i =>
      rw [h]
      exact hr.setSeat i _
  | recycle i =>
      rw [h.2.2]
      exact hr.recycle h.1
  | packet t p => exact h ▸ hr
  | drain => exact h ▸ hr
  | pickUp i => exact h ▸ hr
  | allocator answer => exact h ▸ hr

end Registry

/-- The registry after `InitServer`. -/
theorem sound_InitServer (align : MsgCell → Nat) : (InitServer align).registry.Sound where
  listed d := by simp [Server.registry, InitServer, initialServer]
  nodup := List.nodup_nil
  slots := by
    show ((List.finRange CLIENTNUM).reverse ++ []).Nodup
    rw [List.append_nil]
    exact List.nodup_reverse.mpr (List.nodup_finRange CLIENTNUM)
  handles d dog h := by cases h
  apart d e dog dog' h := by cases h
  thid d dog h := by cases h

/-- **Every run is sound.** -/
theorem sound_reach {ι : Type} [Iksemel ι] {align : MsgCell → Nat}
    {C : Server → ServerAction ι → Prop} {s : Server}
    (h : Reach serverStep C (InitServer align) s) : s.registry.Sound :=
  h.invariant (P := fun s => s.registry.Sound) (sound_InitServer align)
    fun _ _ _ hs _ hstep => hs.follows (serverStep_follows hstep)

end Netflow
