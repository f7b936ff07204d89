import Netflow.Registry.Sound

set_option autoImplicit false

/-! # The lists of hookers

`Hooked` says that following the links from the head of every listed dog gives a circular list of
client nodes, and that no client is in two of them. Linking a client that is in none of the lists,
unlinking a client, deleting a dog and adding one keep this; while it holds, the loops over the
hookers return.
-/

namespace Netflow

/-- The nodes of the list of a dog, its head included. -/
def hookNodes (hookers : DogPtr → List Slot) (d : DogPtr) : List HookNode :=
  .ListHooker d :: (hookers d).map .list1

/-- `hookers` are the clients linked in the lists of the listed dogs. -/
structure Hooked (links : LinkMem HookNode) (list : List DogPtr) (hookers : DogPtr → List Slot) :
    Prop where
  circle : ∀ d ∈ list, Circle links (.ListHooker d) ((hookers d).map .list1)
  apart : ∀ d ∈ list, ∀ e ∈ list, ∀ i, i ∈ hookers d → i ∈ hookers e → d = e
  nodes : ∀ i, (links (.list1 i)).isSome = true

section Lists

variable {links links' : LinkMem HookNode} {list : List DogPtr} {hookers : DogPtr → List Slot}

theorem mem_hookNodes {d : DogPtr} {n : HookNode} :
    n ∈ hookNodes hookers d ↔ n = .ListHooker d ∨ ∃ i ∈ hookers d, n = .list1 i := by
  simp only [hookNodes, List.mem_cons, List.mem_map, eq_comm]

/-- The lists of two dogs share no node. -/
theorem Hooked.nodes_apart (h : Hooked links list hookers) {d e : DogPtr} (hd : d ∈ list)
    (he : e ∈ list) (hne : e ≠ d) {n : HookNode} (hn : n ∈ hookNodes hookers e) :
    n ∉ hookNodes hookers d := by
  rw [mem_hookNodes] at hn ⊢
  rintro (rfl | ⟨i, hi, rfl⟩)
  · obtain hn | ⟨j, -, hn⟩ := hn
    · exact hne (HookNode.ListHooker.inj hn).symm
    · cases hn
  · obtain hn | ⟨j, hj, hn⟩ := hn
    · cases hn
    · cases hn
      exact hne (h.apart e he d hd i hj hi)

/-- A change of the links that leaves the lists of some dogs alone. -/
theorem Hooked.frame (h : Hooked links list hookers) {list' : List DogPtr}
    (hsub : ∀ e ∈ list', e ∈ list)
    (hsame : ∀ e ∈ list', ∀ n ∈ hookNodes hookers e, links' n = links n)
    (hnodes : ∀ i, (links' (.list1 i)).isSome = true) : Hooked links' list' hookers where
  circle d hd := (h.circle d (hsub d hd)).congr (hsame d hd)
  apart d hd e he i hi hi' := h.apart d (hsub d hd) e (hsub e he) i hi hi'
  nodes := hnodes

/-- One list gets new hookers, the others stay. -/
theorem Hooked.replace (h : Hooked links list hookers) {d : DogPtr} {js : List Slot}
    (hcircle : Circle links' (.ListHooker d) (js.map .list1))
    (hsame : ∀ e ∈ list, e ≠ d → ∀ n ∈ hookNodes hookers e, links' n = links n)
    (hjs : ∀ i ∈ js, ∀ e ∈ list, e ≠ d → i ∉ hookers e)
    (hnodes : ∀ i, (links' (.list1 i)).isSome = true) :
    Hooked links' list (Function.update hookers d js) := by
  have hself : Function.update hookers d js d = js := Function.update_self ..
  have hother : ∀ e, e ≠ d → Function.update hookers d js e = hookers e :=
    fun e he => Function.update_of_ne he ..
  refine ⟨fun e he => ?_, fun e he e' he' i hi hi' => ?_, hnodes⟩
  · by_cases hed : e = d
    · rw [hed, hself]
      exact hcircle
    · rw [hother e hed]
      exact (h.circle e he).congr (hsame e he hed)
  · by_cases hed : e = d
    · by_cases hed' : e' = d
      · rw [hed, hed']
      · rw [hed, hself] at hi
        rw [hother e' hed'] at hi'
        exact absurd hi' (hjs i hi e' he' hed')
    · rw [hother e hed] at hi
      by_cases hed' : e' = d
      · rw [hed', hself] at hi'
        exact absurd hi (hjs i hi' e he hed)
      · rw [hother e' hed'] at hi'
        exact h.apart e he e' he' i hi hi'

/-- Linking a client that is in none of the lists. -/
theorem Hooked.add (h : Hooked links list hookers) {d : DogPtr} {i : Slot} (hd : d ∈ list)
    (hi : ∀ e ∈ list, i ∉ hookers e) (hadd : list_add links (.list1 i) (.ListHooker d) = some links') :
    Hooked links' list (Function.update hookers d (i :: hookers d)) := by
  have hnew : ∀ e ∈ list, HookNode.list1 i ∉ hookNodes hookers e := by
    intro e he hmem
    rw [mem_hookNodes] at hmem
    obtain hmem | ⟨j, hj, hmem⟩ := hmem
    · cases hmem
    · cases hmem
      exact hi e he hj
  obtain ⟨mem', hmem', hcircle, hframe, hsome⟩ :=
    list_add_spec (h.circle d hd) (h.nodes i) (hnew d hd)
  rw [hadd] at hmem'
  cases hmem'
  refine h.replace hcircle (fun e he hed n hn => hframe n ?_) (fun j hj e he hed => ?_) ?_
  · rw [List.mem_cons]
    rintro (rfl | hn')
    · exact hnew e he hn
    · exact h.nodes_apart hd he hed hn hn'
  · rcases List.mem_cons.mp hj with rfl | hj
    · exact hi e he
    · exact fun hj' => hed (h.apart e he d hd j hj' hj)
  · intro j
    rw [hsome]
    exact h.nodes j

/-- Unlinking a client. -/
theorem Hooked.del (h : Hooked links list hookers) {d : DogPtr} {i : Slot} (hd : d ∈ list)
    (hi : i ∈ hookers d) :
    ∃ links', list_del links (.list1 i) = some links' ∧
      ∃ js, Hooked links' list (Function.update hookers d js) ∧ i ∉ js ∧
        ∀ j ∈ js, j ∈ hookers d := by
  obtain ⟨l, r, hlr⟩ := List.append_of_mem hi
  have hcircle := h.circle d hd
  rw [hlr, List.map_append, List.map_cons] at hcircle
  obtain ⟨links', hdel, hcircle', -, hframe, hsome⟩ := list_del_spec hcircle
  have hnodes : hookNodes hookers d =
      .ListHooker d :: (l.map .list1 ++ HookNode.list1 i :: r.map .list1) := by
    rw [hookNodes, hlr, List.map_append, List.map_cons]
  refine ⟨links', hdel, l ++ r, ?_, ?_, ?_⟩
  · rw [← List.map_append] at hcircle'
    refine h.replace hcircle' (fun e he hed n hn => hframe n ?_) (fun j hj e he hed hj' => ?_) ?_
    · rw [← hnodes]
      exact h.nodes_apart hd he hed hn
    · refine hed (h.apart e he d hd j hj' ?_)
      rw [hlr]
      rcases List.mem_append.mp hj with hj | hj
      · exact List.mem_append_left _ hj
      · exact List.mem_append_right _ (List.mem_cons_of_mem i hj)
    · intro j
      rw [hsome]
      exact h.nodes j
  · have hnodup := (List.nodup_cons.mp (h.circle d hd).nodup).2
    rw [hlr] at hnodup
    have hnodup' := List.nodup_middle.mp (List.Nodup.of_map _ hnodup)
    exact (List.nodup_cons.mp hnodup').1
  · intro j hj
    rw [hlr]
    rcases List.mem_append.mp hj with hj | hj
    · exact List.mem_append_left _ hj
    · exact List.mem_append_right _ (List.mem_cons_of_mem i hj)

/-- The client is in no list once it was taken out of its own. -/
theorem Hooked.not_in_updated (h : Hooked links list hookers) {d : DogPtr} (hd : d ∈ list)
    {i : Slot} (hi : i ∈ hookers d) {js : List Slot} (hjs : i ∉ js) :
    ∀ e ∈ list, i ∉ Function.update hookers d js e := by
  intro e he
  by_cases hed : e = d
  · rw [hed, Function.update_self]
    exact hjs
  · rw [Function.update_of_ne hed]
    exact fun hie => hed (h.apart e he d hd i hie hi)

/-- A new dog has no hookers. -/
theorem Hooked.init (h : Hooked links list hookers) {d : DogPtr} (hd : d ∉ list) :
    Hooked (INIT_LIST_HEAD links (.ListHooker d)) (d :: list) (Function.update hookers d []) := by
  have hother : ∀ n, n ≠ .ListHooker d → INIT_LIST_HEAD links (.ListHooker d) n = links n :=
    fun n hn => Function.update_of_ne hn ..
  have hframe : Hooked (INIT_LIST_HEAD links (.ListHooker d)) list hookers := by
    refine h.frame (fun _ he => he) (fun e he n hn => hother n ?_) (fun i => ?_)
    · rintro rfl
      rw [mem_hookNodes] at hn
      obtain hn | ⟨j, -, hn⟩ := hn
      · cases hn
        exact hd he
      · cases hn
    · rw [hother _ (by simp)]
      exact h.nodes i
  refine ⟨fun e he => ?_, fun e he e' he' i hi hi' => ?_, hframe.nodes⟩
  · by_cases hed : e = d
    · rw [hed, Function.update_self]
      exact circle_INIT_LIST_HEAD links _
    · rw [Function.update_of_ne hed]
      exact hframe.circle e ((List.mem_cons.mp he).resolve_left hed)
  · by_cases hed : e = d
    · rw [hed, Function.update_self] at hi
      cases hi
    · by_cases hed' : e' = d
      · rw [hed', Function.update_self] at hi'
        cases hi'
      · rw [Function.update_of_ne hed] at hi
        rw [Function.update_of_ne hed'] at hi'
        exact h.apart e ((List.mem_cons.mp he).resolve_left hed) e'
          ((List.mem_cons.mp he').resolve_left hed') i hi hi'

end Lists

end Netflow
