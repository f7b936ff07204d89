import Netflow.Lib.Follow
import Netflow.Registry.Nodes

set_option autoImplicit false

/-! # Hook lists of any shape

A client that hooks twice, or hooks a second dog, leaves lists behind that are no circles. What a request
then does is said here without their shape: a client is under a dog when following `next` from the dog's
head leads to its node (`Under`), and the search of `DelHookerInCuteDog` ends when every list before the
first that leads to the client comes back to its head (`SearchEnds`).
-/

namespace Netflow

/-- Following the links from the head of the dog's list leads to the node of the client. -/
def Under (links : LinkMem HookNode) (d : DogPtr) (i : Slot) : Prop :=
  Leads links.next (.ListHooker d) (.list1 i)

/-- Following the links from the head of the dog's list leads back to the head. -/
def ComesBack (links : LinkMem HookNode) (d : DogPtr) : Prop :=
  ∃ first, links.next (.ListHooker d) = some first ∧ Leads links.next first (.ListHooker d)

/-- The search of the lists for the client, up to the first that leads to it, ends. -/
def SearchEnds (links : LinkMem HookNode) (i : Slot) : List DogPtr → Prop
  | [] => True
  | d :: rest => Under links d i ∨ ComesBack links d ∧ SearchEnds links i rest

/-- The list of a listed dog leads to the client. -/
def LedTo (s : Server) (i : Slot) : Prop := ∃ d ∈ s.CuteDogList, Under s.links d i

/-! ## The search -/

section Search

variable {s : Server} {i : Slot} {d : DogPtr}

theorem ListHooker_ne_list1 (d : DogPtr) (i : Slot) : HookNode.ListHooker d ≠ .list1 i :=
  (list1_ne_ListHooker i d).symm

/-- The nodes that a walk from the head of a listed dog may pass. -/
def passable (list : List DogPtr) (d : DogPtr) : Finset HookNode :=
  Finset.univ.image HookNode.list1 ∪ (list.toFinset.erase d).image HookNode.ListHooker

theorem card_passable {list : List DogPtr} (hd : d ∈ list) :
    (passable list d).card < CLIENTNUM + list.length := by
  have hclients : (Finset.univ.image HookNode.list1).card ≤ CLIENTNUM := by
    refine Finset.card_image_le.trans ?_
    rw [Finset.card_univ, Fintype.card_fin]
  have hheads : ((list.toFinset.erase d).image HookNode.ListHooker).card < list.length := by
    refine Nat.lt_of_le_of_lt Finset.card_image_le ?_
    exact Nat.lt_of_lt_of_le (Finset.card_erase_lt_of_mem (List.mem_toFinset.mpr hd))
      (List.toFinset_card_le list)
  have hunion := Finset.card_union_le (Finset.univ.image HookNode.list1)
    ((list.toFinset.erase d).image HookNode.ListHooker)
  rw [passable]
  omega

theorem mem_passable (ha : Allocated s.links s.CuteDogList) {x : HookNode}
    (hx : x ≠ .ListHooker d) (hsome : (s.links.next x).isSome = true) :
    x ∈ passable s.CuteDogList d := by
  obtain ⟨n, hn⟩ := Option.isSome_iff_exists.mp hsome
  obtain ⟨l, hl, -⟩ := Option.bind_eq_some_iff.mp hn
  rw [passable, Finset.mem_union]
  cases x with
  | list1 j => exact Or.inl (Finset.mem_image_of_mem _ (Finset.mem_univ j))
  | ListHooker e =>
      refine Or.inr (Finset.mem_image_of_mem _ (Finset.mem_erase.mpr ⟨?_, ?_⟩))
      · exact fun hed => hx (congrArg _ hed)
      · exact List.mem_toFinset.mpr ((ha.heads e).mp (Option.isSome_of_eq_some hl))

/-- The walk over one list is the search of the library. -/
theorem meets_eq_seek (ha : Allocated s.links s.CuteDogList) (hd : d ∈ s.CuteDogList) (turns : Nat)
    (pos : HookNode) : Server.meets s.links (.ListHooker d) i turns pos =
      seek (lookFor (.ListHooker d) (.list1 i)) s.links.next turns pos := by
  induction turns generalizing pos with
  | zero => rfl
  | succ turns ih =>
      rw [Server.meets, seek, lookFor]
      cases hpos : s.links pos with
      | none =>
          -- the head and the client's node are in memory
          have hhead : pos ≠ .ListHooker d := by
            rintro rfl
            have hsome := (ha.heads d).mpr hd
            rw [hpos] at hsome
            cases hsome
          have hnode : pos ≠ .list1 i := by
            rintro rfl
            have hsome := ha.nodes i
            rw [hpos] at hsome
            cases hsome
          rw [if_neg hhead, if_neg hnode, LinkMem.next, hpos]
          rfl
      | some l =>
          simp only [Option.bind_eq_bind, Option.bind_some]
          by_cases hhead : pos = .ListHooker d
          · rw [if_pos hhead, if_pos hhead]
          · rw [if_neg hhead, if_neg hhead]
            by_cases hnode : pos = .list1 i
            · rw [if_pos hnode, if_pos hnode]
            · rw [if_neg hnode, if_neg hnode, LinkMem.next_eq hpos]
              cases l.next with
              | none => rfl
              | some next => exact ih next

/-- The walk along the list of the first dog, and what comes after it. -/
theorem hookerMet_eq_seek (ha : Allocated s.links s.CuteDogList) (hd : d ∈ s.CuteDogList)
    (hdog : (s.dogs d).isSome = true) {pos : HookNode}
    (hnext : s.links.next (.ListHooker d) = some pos) (rest : List DogPtr) :
    s.hookerMet i (d :: rest) =
      (seek (lookFor (.ListHooker d) (.list1 i)) s.links.next
        (CLIENTNUM + s.CuteDogList.length) pos).bind fun met =>
          if met then some true else s.hookerMet i rest := by
  obtain ⟨dog, hdog⟩ := Option.isSome_iff_exists.mp hdog
  obtain ⟨l, hl, hfirst⟩ := Option.bind_eq_some_iff.mp hnext
  simp only [Server.hookerMet, hdog, hl, hfirst, list_notempty, Option.bind_eq_bind,
    Option.bind_some, meets_eq_seek ha hd]
  by_cases hpos : pos = .ListHooker d
  · -- an empty list is not walked
    have hstop : seek (lookFor (.ListHooker d) (.list1 i)) s.links.next
        (CLIENTNUM + s.CuteDogList.length) (.ListHooker d) = some false := by
      rw [show CLIENTNUM + s.CuteDogList.length = (15 + s.CuteDogList.length) + 1 by
        rw [CLIENTNUM]; omega]
      exact seek_of_stop (if_pos rfl)
    rw [hpos, hstop]
    simp
  · simp [hpos]

/-- One turn of the loop over the dogs. -/
theorem hookerMet_cons (ha : Allocated s.links s.CuteDogList) (hd : d ∈ s.CuteDogList)
    (hdog : (s.dogs d).isSome = true) (rest : List DogPtr) :
    (Under s.links d i → s.hookerMet i (d :: rest) = some true) ∧
      (¬Under s.links d i → ComesBack s.links d →
        s.hookerMet i (d :: rest) = s.hookerMet i rest) ∧
      (¬Under s.links d i → ¬ComesBack s.links d → s.hookerMet i (d :: rest) = none) := by
  cases hnext : s.links.next (.ListHooker d) with
  | none =>
      obtain ⟨dog, hdog⟩ := Option.isSome_iff_exists.mp hdog
      obtain ⟨l, hl⟩ := Option.isSome_iff_exists.mp ((ha.heads d).mpr hd)
      have hfirst : l.next = none := (LinkMem.next_eq hl).symm.trans hnext
      have hnot : ¬Under s.links d i := fun h =>
        ListHooker_ne_list1 d i (Leads.eq_of_none h hnext)
      refine ⟨fun h => absurd h hnot, fun _ hback => ?_, fun _ _ => ?_⟩
      · obtain ⟨first, hsome, -⟩ := hback
        rw [hnext] at hsome
        cases hsome
      · simp [Server.hookerMet, hdog, hl, hfirst, list_notempty]
  | some pos =>
      have hback : ComesBack s.links d ↔ Leads s.links.next pos (.ListHooker d) := by
        rw [ComesBack, hnext]
        simp only [Option.some.injEq, exists_eq_left']
      obtain ⟨htrue, hfalse⟩ := seek_lookFor (ListHooker_ne_list1 d i) hnext
        (fun x hx _ hsome => mem_passable ha hx hsome) (card_passable hd)
      rw [hookerMet_eq_seek ha hd hdog hnext, hback]
      refine ⟨fun h => ?_, fun hnot h => ?_, fun hnot h => ?_⟩
      · rw [htrue.mpr h]
        rfl
      · rw [hfalse.mpr ⟨h, hnot⟩]
        rfl
      · cases hseek : seek (lookFor (.ListHooker d) (.list1 i)) s.links.next
            (CLIENTNUM + s.CuteDogList.length) pos with
        | none => rfl
        | some met =>
            cases met with
            | true => exact absurd (htrue.mp hseek) hnot
            | false => exact absurd (hfalse.mp hseek).1 h

/-- **The search** finds the client when it ends and a list leads to the client. -/
theorem hookerMet_eq_some_iff (ha : Allocated s.links s.CuteDogList)
    (hdogs : ∀ d ∈ s.CuteDogList, (s.dogs d).isSome = true) {l : List DogPtr}
    (hl : ∀ d ∈ l, d ∈ s.CuteDogList) (b : Bool) :
    s.hookerMet i l = some b ↔
      SearchEnds s.links i l ∧ (b = true ↔ ∃ d ∈ l, Under s.links d i) := by
  induction l with
  | nil =>
      rw [Server.hookerMet, Option.some_inj]
      simp [SearchEnds, eq_comm]
  | cons d rest ih =>
      have hd := hl d List.mem_cons_self
      have hrest := ih fun e he => hl e (List.mem_cons_of_mem d he)
      obtain ⟨hfound, hpassed, hlost⟩ := hookerMet_cons (i := i) ha hd (hdogs d hd) rest
      rw [SearchEnds]
      by_cases hu : Under s.links d i
      · have hex : ∃ e ∈ d :: rest, Under s.links e i := ⟨d, List.mem_cons_self, hu⟩
        rw [hfound hu, Option.some_inj, and_iff_right (Or.inl hu), iff_true_right hex]
        exact eq_comm
      · have hex : (∃ e ∈ d :: rest, Under s.links e i) ↔ ∃ e ∈ rest, Under s.links e i := by
          simp only [List.mem_cons, or_and_right, exists_or, exists_eq_left, or_iff_right hu]
        by_cases hback : ComesBack s.links d
        · rw [hpassed hu hback, hrest, hex, or_iff_right hu, and_iff_right hback]
        · rw [hlost hu hback]
          refine iff_of_false (fun heq => by cases heq) ?_
          rintro ⟨hends | hends, -⟩
          · exact hu hends
          · exact hback hends.1

theorem hookerMet_isSome_iff (ha : Allocated s.links s.CuteDogList)
    (hdogs : ∀ d ∈ s.CuteDogList, (s.dogs d).isSome = true) :
    (s.hookerMet i s.CuteDogList).isSome = true ↔ SearchEnds s.links i s.CuteDogList := by
  classical
  have hiff := hookerMet_eq_some_iff (i := i) ha hdogs fun d hd => hd
  constructor
  · intro h
    obtain ⟨b, hb⟩ := Option.isSome_iff_exists.mp h
    exact ((hiff b).mp hb).1
  · intro hends
    refine Option.isSome_of_eq_some ((hiff (decide (LedTo s i))).mpr ⟨hends, ?_⟩)
    rw [decide_eq_true_eq, LedTo]

end Search

/-! ## Linking and unlinking a client -/

section Links

variable {links links' : LinkMem HookNode} {d : DogPtr} {i : Slot}

/-- The `next` pointers once the client's node is taken out between its neighbours. -/
def detached (links : LinkMem HookNode) (i : Slot) (n : HookNode) : Option HookNode :=
  if n = .list1 i then none
  else if links.prev (.list1 i) = some n then links.next (.list1 i) else links.next n

/-- Both neighbours of the client's node are in memory. -/
def Detachable (links : LinkMem HookNode) (i : Slot) : Prop :=
  ∃ p n, links.prev (.list1 i) = some p ∧ links.next (.list1 i) = some n ∧
    (links p).isSome = true ∧ (links n).isSome = true

/-- **Unlinking** a client: it can be taken out exactly when its neighbours are in memory. -/
theorem list_del_isSome_iff :
    (list_del links (.list1 i)).isSome = true ↔ Detachable links i := by
  constructor
  · intro h
    obtain ⟨links', hdel⟩ := Option.isSome_iff_exists.mp h
    obtain ⟨p, n, hprev, hnext, hp, hn, -⟩ := list_del_eq_some_iff.mp hdel
    exact ⟨p, n, hprev, hnext, hp, hn⟩
  · rintro ⟨p, n, hprev, hnext, hp, hn⟩
    exact Option.isSome_of_eq_some (list_del_eq_some_iff.mpr ⟨p, n, hprev, hnext, hp, hn, rfl⟩)

theorem next_list_del (h : list_del links (.list1 i) = some links') :
    links'.next = detached links i ∧ links' ≠ links := by
  obtain ⟨p, n, hprev, hnext, hp, hn, rfl⟩ := list_del_eq_some_iff.mp h
  have hnode : (links (.list1 i)).isSome = true := by
    obtain ⟨l, hl, -⟩ := Option.bind_eq_some_iff.mp hnext
    exact Option.isSome_of_eq_some hl
  have heq : ((((links.withPrev n (some p)).withNext p (some n)).withNext (.list1 i) none).withPrev
      (.list1 i) none).next = detached links i := by
    funext m
    rw [next_withPrev, next_withNext _ _ (by simpa using hnode),
      next_withNext _ _ (by simpa using hp), next_withPrev, detached, hprev, hnext]
    simp only [Option.some.injEq, eq_comm (a := p)]
  refine ⟨heq, fun hsame => ?_⟩
  have hnone := congrFun heq (.list1 i)
  rw [hsame, hnext, detached, if_pos rfl] at hnone
  cases hnone

/-- The node behind the head is in memory. -/
def Addable (links : LinkMem HookNode) (d : DogPtr) : Prop :=
  ∃ n, links.next (.ListHooker d) = some n ∧ (links n).isSome = true

/-- The client's node stands right behind the head and is its own successor. -/
def Settled (links : LinkMem HookNode) (d : DogPtr) (i : Slot) : Prop :=
  links.next (.ListHooker d) = some (.list1 i) ∧
    links (.list1 i) = some { next := some (.list1 i), prev := some (.ListHooker d) }

/-- The `next` pointers once the client's node is put behind the head, where `n` stood. -/
theorem next_list_add {n : HookNode} (hhead : (links (.ListHooker d)).isSome = true)
    (hnode : (links (.list1 i)).isSome = true) (m : HookNode) :
    ((((links.withPrev n (some (.list1 i))).withNext (.list1 i) (some n)).withPrev (.list1 i)
      (some (.ListHooker d))).withNext (.ListHooker d) (some (.list1 i))).next m =
        if m = .ListHooker d then some (.list1 i)
        else if m = .list1 i then some n else links.next m := by
  rw [next_withNext _ _ (by simpa using hhead), next_withPrev,
    next_withNext _ _ (by simpa using hnode), next_withPrev]

/-- Linking the client changes no pointer exactly when it is its own successor behind the head. -/
theorem list_add_same_iff (hnode : (links (.list1 i)).isSome = true)
    (hadd : list_add links (.list1 i) (.ListHooker d) = some links') :
    links' = links ↔ Settled links d i := by
  obtain ⟨n, hnext, hn, rfl⟩ := (list_add_eq_some_iff hnode).mp hadd
  obtain ⟨l, hl, hln⟩ := Option.bind_eq_some_iff.mp hnext
  constructor
  · intro hsame
    have hwritten := next_list_add (n := n) (Option.isSome_of_eq_some hl) hnode
    have hfirst := hwritten (.ListHooker d)
    have hself := hwritten (.list1 i)
    rw [hsame, if_pos rfl] at hfirst
    rw [hsame, if_neg (list1_ne_ListHooker i d), if_pos rfl] at hself
    cases hnext.symm.trans hfirst
    have hprev : links.prev (.list1 i) = some (.ListHooker d) := by
      rw [← hsame, prev_withNext, prev_withPrev _ _ (by simpa using hnode), if_pos rfl]
    refine ⟨hfirst, ?_⟩
    obtain ⟨k, hk, hknext⟩ := Option.bind_eq_some_iff.mp hself
    obtain ⟨k', hk', hkprev⟩ := Option.bind_eq_some_iff.mp hprev
    cases hk.symm.trans hk'
    rw [hk, ← hknext, ← hkprev]
  · rintro ⟨hfirst, hself⟩
    cases hnext.symm.trans hfirst
    funext m
    simp only [LinkMem.withNext, LinkMem.withPrev]
    by_cases hm : m = .ListHooker d
    · subst hm
      simp [hl, ← hln]
    · by_cases hm' : m = .list1 i
      · subst hm'
        simp [hself]
      · simp [hm, hm']

theorem list_add_isSome_iff (hnode : (links (.list1 i)).isSome = true) :
    (list_add links (.list1 i) (.ListHooker d)).isSome = true ↔ Addable links d := by
  constructor
  · intro h
    obtain ⟨links', hadd⟩ := Option.isSome_iff_exists.mp h
    obtain ⟨n, hnext, hn, -⟩ := (list_add_eq_some_iff hnode).mp hadd
    exact ⟨n, hnext, hn⟩
  · rintro ⟨n, hnext, hn⟩
    exact Option.isSome_of_eq_some ((list_add_eq_some_iff hnode).mpr ⟨n, hnext, hn, rfl⟩)

/-- **Linking** a client behind a head: the head leads to it then, and another list newly does so only
when the client was not under this head. -/
theorem list_add_under (hnode : (links (.list1 i)).isSome = true)
    (hadd : list_add links (.list1 i) (.ListHooker d) = some links') :
    Under links' d i ∧ ∀ e, Under links' e i → ¬Under links e i → ¬Under links d i := by
  obtain ⟨n, hnext, hn, rfl⟩ := (list_add_eq_some_iff hnode).mp hadd
  obtain ⟨l, hl, -⟩ := Option.bind_eq_some_iff.mp hnext
  have hwritten := next_list_add (n := n) (Option.isSome_of_eq_some hl) hnode
  refine ⟨Relation.ReflTransGen.single ?_, fun e hunder hnot hd => hnot ?_⟩
  · rw [hwritten, if_pos rfl]
  · -- the way from the other head comes to a pointer that was written
    obtain hold | ⟨x, hx, hchanged⟩ := Leads.of_changed links.next hunder
    · exact hold
    · rw [hwritten] at hchanged
      split at hchanged
      · next hhead =>
          rw [hhead] at hx
          exact hx.trans hd
      · split at hchanged
        · next hself =>
            rw [hself] at hx
            exact hx
        · exact absurd rfl hchanged

end Links

/-! ## Well-formed lists -/

section Circles

variable {links : LinkMem HookNode} {list : List DogPtr} {hookers : DogPtr → List Slot} {d : DogPtr}
  {i : Slot}

theorem Path.leads {a b : HookNode} {xs : List HookNode} (h : Path links a xs b) :
    ∀ x ∈ xs ++ [b], ∃ first, links.next a = some first ∧ Leads links.next first x := by
  induction xs generalizing a with
  | nil =>
      intro x hx
      rw [List.mem_singleton.mp hx]
      exact ⟨b, h.1, .refl⟩
  | cons y ys ih =>
      intro x hx
      refine ⟨y, h.1.1, ?_⟩
      rcases List.mem_cons.mp hx with rfl | hx
      · exact .refl
      · obtain ⟨first, hfirst, hlead⟩ := ih h.2 x hx
        exact hlead.head hfirst

/-- The node behind a node of a path is on it. -/
theorem Path.next_mem {a b x y : HookNode} {xs : List HookNode} (h : Path links a xs b)
    (hx : x ∈ a :: xs) (hy : links.next x = some y) : y ∈ xs ++ [b] := by
  induction xs generalizing a with
  | nil =>
      rw [List.mem_singleton.mp hx] at hy
      cases h.1.symm.trans hy
      exact List.mem_singleton_self b
  | cons z zs ih =>
      rcases List.mem_cons.mp hx with rfl | hx
      · cases h.1.1.symm.trans hy
        exact List.mem_cons_self
      · exact List.mem_cons_of_mem _ (ih h.2 hx)

/-- In a circle the head leads to its nodes only. -/
theorem Circle.leads_mem {h x : HookNode} {xs : List HookNode} (hc : Circle links h xs)
    (hlead : Leads links.next h x) : x ∈ h :: xs := by
  induction hlead with
  | refl => exact List.mem_cons_self
  | tail _ hstep ih =>
      rcases List.mem_append.mp (hc.path.next_mem ih hstep) with hmem | hmem
      · exact List.mem_cons_of_mem h hmem
      · exact List.mem_cons.mpr (Or.inl (List.mem_singleton.mp hmem))

variable (h : Hooked links list hookers)

include h

theorem Hooked.under_iff (hd : d ∈ list) : Under links d i ↔ i ∈ hookers d := by
  have hcircle := h.circle d hd
  constructor
  · intro hunder
    rcases List.mem_cons.mp (hcircle.leads_mem hunder) with hmem | hmem
    · exact absurd hmem (list1_ne_ListHooker i d)
    · obtain ⟨j, hj, heq⟩ := List.mem_map.mp hmem
      cases heq
      exact hj
  · intro hi
    obtain ⟨first, hfirst, hlead⟩ :=
      hcircle.path.leads (.list1 i) (List.mem_append_left _ (List.mem_map_of_mem hi))
    exact hlead.head hfirst

theorem Hooked.comesBack (hd : d ∈ list) : ComesBack links d :=
  (h.circle d hd).path.leads _ (List.mem_append_right _ (List.mem_singleton_self _))

theorem Hooked.searchEnds (i : Slot) {l : List DogPtr} (hl : ∀ d ∈ l, d ∈ list) :
    SearchEnds links i l := by
  induction l with
  | nil => trivial
  | cons d rest ih =>
      exact Or.inr ⟨h.comesBack (hl d List.mem_cons_self),
        ih fun e he => hl e (List.mem_cons_of_mem d he)⟩

/-- A node that is its own successor is in no circle. -/
theorem Hooked.not_settled (hd : d ∈ list) : ¬Settled links d i := by
  rintro ⟨hfirst, hself⟩
  have hunder : Under links d i := Relation.ReflTransGen.single hfirst
  have hself' : links.next (.list1 i) = some (.list1 i) := LinkMem.next_eq hself
  -- the head would not be led to again
  obtain ⟨first, hfirst', hlead⟩ := h.comesBack hd
  cases hfirst.symm.trans hfirst'
  have hstay : ∀ x, Leads links.next (.list1 i) x → x = .list1 i := by
    intro x hx
    induction hx with
    | refl => rfl
    | tail _ hstep ih =>
        rw [ih, hself'] at hstep
        exact (Option.some.inj hstep).symm
  exact ListHooker_ne_list1 d i (hstay _ hlead)

end Circles

end Netflow
