import Netflow.Registry.Broadcast
import Netflow.Registry.Drained

set_option autoImplicit false

/-! # The hookers of a deleted dog

`DelHookersWithCuteDog` puts a lose notice for the first hooker, takes it out of the list and goes on
with the next one. It returns when no cell is free, and `DelCuteDogInList` frees the dog all the same:
the hookers that are left stay linked to the freed head.
-/

namespace Netflow

/-- The node of the client points to the node `n`. -/
def NodePointsTo (links : LinkMem HookNode) (i : Slot) (n : HookNode) : Prop :=
  links.next (.list1 i) = some n ∨ links.prev (.list1 i) = some n

/-- No client is linked to the head of the list of `d` or to one of its hookers `js`. -/
def HookersGone (d : DogPtr) (js : List Slot) (links : LinkMem HookNode) : Prop :=
  ∀ i, ∀ n ∈ HookNode.ListHooker d :: js.map .list1, ¬NodePointsTo links i n

/-- The messages put on the way from `s` to `s'` are a lose notice naming the dog for each of the
hookers `js`. -/
def LoseNoticesPut (dog : CUTEDOG) (js : List Slot) (s s' : Server) : Prop :=
  List.Forall₂ (fun j m => Server.Tells j (Server.loseNotice dog) m) js (newMessages s s')

namespace Server

variable {s s₁ : Server} {d : DogPtr} {dog : CUTEDOG} {js : List Slot}

/-- The dog is freed once the loop over its hookers has returned. -/
theorem DelCuteDogInList_circle {i : Slot} (hd : (s.ClientInfo i).CuteDog = some d)
    (hmem : d ∈ s.CuteDogList) (hdog : s.dogs d = some dog)
    (hlist : Circle s.links (.ListHooker d) (js.map .list1)) :
    ∃ s₁, s.DelCuteDogInList i = some (true, s₁.freeDog d i) ∧
      Dropped d (loseNotice dog) js s s₁ := by
  obtain ⟨b, s₁, hdrop, hdropped⟩ := DelHookersWithCuteDog_circle hlist hdog
  have hmem₁ : d ∈ s₁.CuteDogList := by
    rwa [show s₁.CuteDogList = s.CuteDogList from
      congrArg Registry.CuteDogList (registry_DelHookersWithCuteDog hdrop)]
  refine ⟨s₁, ?_, hdropped⟩
  simp only [DelCuteDogInList, hd, hdrop, Option.bind_eq_bind, Option.bind_some, if_pos hmem₁]

/-- Freeing the head changes no node of a client. -/
theorem nodePointsTo_freeDog (s : Server) (d : DogPtr) (i k : Slot) (n : HookNode) :
    NodePointsTo (s.freeDog d i).links k n ↔ NodePointsTo s.links k n := by
  have hsame : (s.freeDog d i).links (.list1 k) = s.links (.list1 k) := by
    show Function.update s.links (.ListHooker d) none (.list1 k) = _
    exact Function.update_of_ne (list1_ne_ListHooker k d) _ _
  simp only [NodePointsTo, LinkMem.next, LinkMem.prev, hsame]

/-- When a hooker is left, the first of them points to the head. -/
theorem Dropped.first_left {message : CStr} (h : Dropped d message js s s₁)
    (hfew : s.pFifoDogMsgFree.count < js.length) :
    ∃ k ∈ js, NodePointsTo s₁.links k (.ListHooker d) := by
  obtain ⟨k, rest, hrest⟩ : ∃ k rest, js.drop s.pFifoDogMsgFree.count = k :: rest := by
    refine List.exists_cons_of_ne_nil fun hnil => ?_
    exact absurd (List.drop_eq_nil_iff.mp hnil) (Nat.not_le.mpr hfew)
  have hleft := h.left
  rw [hrest] at hleft
  refine ⟨k, List.mem_of_mem_drop (hrest ▸ List.mem_cons_self), Or.inr ?_⟩
  exact hleft.path.1.2

/-- A node of the list that was unlinked points nowhere. -/
theorem Dropped.points_nowhere {message : CStr} (h : Dropped d message js s s₁)
    (hall : js.length ≤ s.pFifoDogMsgFree.count) {k : Slot} (hk : k ∈ js) (n : HookNode) :
    ¬NodePointsTo s₁.links k n := by
  have hcleared := h.cleared k (by rwa [List.take_of_length_le hall])
  simp only [NodePointsTo, LinkMem.next, LinkMem.prev, hcleared, Option.bind_some, reduceCtorEq,
    or_self, not_false_eq_true]

/-- A client that was no hooker of the dog keeps its node. -/
theorem Dropped.points_other {message : CStr} (h : Dropped d message js s s₁) {k : Slot}
    (hk : k ∉ js) (n : HookNode) : NodePointsTo s₁.links k n ↔ NodePointsTo s.links k n := by
  have hsame : s₁.links (.list1 k) = s.links (.list1 k) := by
    refine h.same _ fun hmem => ?_
    rcases List.mem_cons.mp hmem with hmem | hmem
    · exact list1_ne_ListHooker k d hmem
    · obtain ⟨j, hj, heq⟩ := List.mem_map.mp hmem
      cases heq
      exact hk hj
  simp only [NodePointsTo, LinkMem.next, LinkMem.prev, hsame]

/-- No hooker is left when there is a cell for each of them, and no other client was linked to them. -/
theorem Dropped.gone_iff {message : CStr} (h : Dropped d message js s s₁) (i : Slot) :
    HookersGone d js (s₁.freeDog d i).links ↔
      js.length ≤ s.pFifoDogMsgFree.count ∧
        ∀ k ∉ js, ∀ n ∈ HookNode.ListHooker d :: js.map .list1, ¬NodePointsTo s.links k n := by
  simp only [HookersGone, nodePointsTo_freeDog]
  constructor
  · intro hgone
    refine ⟨Nat.not_lt.mp fun hfew => ?_, fun k hk n hn hpoints => ?_⟩
    · obtain ⟨k, -, hpoints⟩ := h.first_left hfew
      exact hgone k _ List.mem_cons_self hpoints
    · exact hgone k n hn ((h.points_other hk n).mpr hpoints)
  · rintro ⟨hall, hother⟩ k n hn hpoints
    by_cases hk : k ∈ js
    · exact h.points_nowhere hall hk n hpoints
    · exact hother k hk n hn ((h.points_other hk n).mp hpoints)

/-- With a cell for each hooker the notices are put. -/
theorem Dropped.notices (h : Dropped d (loseNotice dog) js s s₁) (i : Slot)
    (hall : js.length ≤ s.pFifoDogMsgFree.count) : LoseNoticesPut dog js s (s₁.freeDog d i) := by
  obtain ⟨new, hput, htells⟩ := h.put
  have hnew : newMessages s (s₁.freeDog d i) = new := by
    show s₁.hist.put.drop s.hist.put.length = new
    rw [hput, List.drop_left]
  rw [LoseNoticesPut, hnew]
  rwa [List.take_of_length_le hall] at htells

end Server

/-- Deleting a dog frees it; it leaves no hooker behind, and each of them gets its notice when the
cells are there, exactly when there is a free cell for each hooker and no other client was linked to
the list. -/
theorem no_hooker_left {s : Server} {i : Slot} {d : DogPtr} {dog : CUTEDOG} {js : List Slot}
    (hd : (s.ClientInfo i).CuteDog = some d) (hmem : d ∈ s.CuteDogList)
    (hdog : s.dogs d = some dog) (hlist : Circle s.links (.ListHooker d) (js.map .list1)) :
    ∃ s', s.DelCuteDogInList i = some (true, s') ∧ s'.dogs d = none ∧
      (HookersGone d js s'.links ∧
          (js.length ≤ s.pFifoDogMsgFree.count → LoseNoticesPut dog js s s') ↔
        js.length ≤ s.pFifoDogMsgFree.count ∧
          ∀ k ∉ js, ∀ n ∈ HookNode.ListHooker d :: js.map .list1, ¬NodePointsTo s.links k n) := by
  obtain ⟨s₁, hdel, hdropped⟩ := Server.DelCuteDogInList_circle hd hmem hdog hlist
  refine ⟨s₁.freeDog d i, hdel, Function.update_self .., ?_⟩
  rw [hdropped.gone_iff i]
  exact and_iff_left (hdropped.notices i)

/-- The dog of the client 15 that the client 14 hooks. -/
theorem no_hooker_left_shared : ∃ s d dog s', SharedDog s d dog ∧
    s.DelCuteDogInList 15 = some (true, s') ∧ s'.dogs d = none ∧
      (HookersGone d [14] s'.links ∧
          ([(14 : Slot)].length ≤ s.pFifoDogMsgFree.count → LoseNoticesPut dog [14] s s') ↔
        [(14 : Slot)].length ≤ s.pFifoDogMsgFree.count ∧
          ∀ k ∉ [(14 : Slot)], ∀ n ∈ HookNode.ListHooker d :: [14].map .list1,
            ¬NodePointsTo s.links k n) := by
  obtain ⟨s, dog, -, hshared⟩ := shared_dog (fun _ => 0) Outcome.allSucceed_succeeds
  obtain ⟨hookers, hooked, hhookers⟩ := hshared.hooked
  have hmem : Outcome.allSucceed.malloc ∈ s.CuteDogList := by
    rw [hshared.list]
    exact List.mem_cons_self
  have hcircle := hooked.circle _ hmem
  rw [hhookers] at hcircle
  obtain ⟨s', hall⟩ := no_hooker_left hshared.points.2 hmem hshared.dogs hcircle
  exact ⟨s, _, dog, s', hshared, hall⟩

/-- **A hooker is left behind** when no cell is free: its node points to the freed head. -/
theorem hooker_points_to_freed : ¬∀ (s s' : Server) (i : Slot) (d : DogPtr) (dog : CUTEDOG)
    (js : List Slot), Reach (serverStep (ι := Iks)) AnyStep (InitServer fun _ => 0) s →
      (s.ClientInfo i).CuteDog = some d → s.dogs d = some dog →
      Circle s.links (.ListHooker d) (js.map .list1) → s.DelCuteDogInList i = some (true, s') →
      HookersGone d js s'.links ∧
        (js.length ≤ s.pFifoDogMsgFree.count → LoseNoticesPut dog js s s') := by
  intro hall
  obtain ⟨s₀, dog, hreach₀, hshared⟩ := shared_dog (fun _ => 0) Outcome.allSucceed_succeeds
  obtain ⟨s, hreach, htalks, hcount⟩ := reach_drained hreach₀.any hshared.ready.1
  obtain ⟨hookers, hooked, hhookers⟩ := hshared.hooked
  have hmem : Outcome.allSucceed.malloc ∈ s₀.CuteDogList := by
    rw [hshared.list]
    exact List.mem_cons_self
  have hcircle := hooked.circle _ hmem
  rw [hhookers, ← htalks.links] at hcircle
  rw [← htalks.CuteDogList] at hmem
  have hd := hshared.points.2
  have hdog := hshared.dogs
  rw [← htalks.ClientInfo] at hd
  rw [← htalks.dogs] at hdog
  obtain ⟨s₁, hdel, hdropped⟩ := Server.DelCuteDogInList_circle hd hmem hdog hcircle
  obtain ⟨hgone, -⟩ := hall s _ 15 _ dog [14] hreach hd hdog hcircle hdel
  have hcells := ((hdropped.gone_iff 15).mp hgone).1
  rw [hcount] at hcells
  exact absurd hcells (by decide)

end Netflow
