import Netflow.Registry.Hookers
import Mathlib.Data.Fintype.Card

set_option autoImplicit false

/-! # The loops over the hookers

On a circular list of client nodes the loops return: the walk of `DelHookerInCuteDog` says whether
the client is in the list, and the loops that send texts visit the clients in order until the end
of the list or until no message cell is left.
-/

namespace Netflow

/-- No client node is the head of a dog's list. -/
theorem list1_ne_ListHooker (j : Slot) (d : DogPtr) : HookNode.list1 j ≠ .ListHooker d := nofun

theorem LinkMem.next_eq {mem : LinkMem HookNode} {n : HookNode} {l : Link HookNode}
    (h : mem n = some l) : mem.next n = l.next := by
  rw [LinkMem.next, h, Option.bind_some]

/-- The first node of a circular list of client nodes, or its head when it is empty. -/
theorem Circle.first {mem : LinkMem HookNode} {d : DogPtr} {js : List Slot}
    (h : Circle mem (.ListHooker d) (js.map .list1)) :
    ∃ l, mem (.ListHooker d) = some l ∧
      l.next = some ((js.map HookNode.list1).headD (.ListHooker d)) := by
  obtain ⟨n, hn, hjoin⟩ := h.head_joined
  obtain ⟨l, hl⟩ := Option.isSome_iff_exists.mp hjoin.isSome.1
  refine ⟨l, hl, ?_⟩
  rw [← LinkMem.next_eq hl, hjoin.1]
  cases js with
  | nil => simpa using hn.symm
  | cons j js => simpa using hn.symm

theorem Circle.list_notempty {mem : LinkMem HookNode} {d : DogPtr} {js : List Slot}
    (h : Circle mem (.ListHooker d) (js.map .list1)) :
    list_notempty mem (.ListHooker d) = some (decide (js ≠ [])) := by
  obtain ⟨l, hl, hnext⟩ := h.first
  rw [Netflow.list_notempty, hl, Option.bind_eq_bind, Option.bind_some, hnext]
  cases js with
  | nil => simp
  | cons j js => simp

namespace Server

/-! ## `DelHookerInCuteDog` -/

/-- The walk along a path of client nodes to the head says whether the client is on it. -/
theorem meets_path {mem : LinkMem HookNode} {a : HookNode} {d : DogPtr} {i : Slot} {js : List Slot}
    (h : Path mem a (js.map .list1) (.ListHooker d)) {turns : Nat} (ht : js.length < turns) :
    ∃ pos, mem.next a = some pos ∧
      meets mem (.ListHooker d) i turns pos = some (decide (i ∈ js)) := by
  induction js generalizing a turns with
  | nil =>
      obtain ⟨turns, rfl⟩ := Nat.exists_eq_succ_of_ne_zero (by omega : turns ≠ 0)
      have hjoin : Joined mem a (.ListHooker d) := h
      obtain ⟨l, hl⟩ := Option.isSome_iff_exists.mp hjoin.isSome.2
      refine ⟨_, hjoin.1, ?_⟩
      simp [meets, hl]
  | cons j js ih =>
      rw [List.length_cons] at ht
      obtain ⟨turns, rfl⟩ := Nat.exists_eq_succ_of_ne_zero (by omega : turns ≠ 0)
      obtain ⟨hjoin, hrest⟩ := h
      obtain ⟨l, hl⟩ := Option.isSome_iff_exists.mp hjoin.isSome.2
      obtain ⟨pos, hpos, hmeets⟩ := ih hrest (by omega : js.length < turns)
      rw [LinkMem.next_eq hl] at hpos
      refine ⟨_, hjoin.1, ?_⟩
      by_cases hij : i = j
      · subst hij
        simp [meets, hl]
      · have hne : HookNode.list1 j ≠ .list1 i := fun heq => hij (HookNode.list1.inj heq).symm
        simp [meets, hl, hne, hpos, hmeets, hij]

/-- There are no more hookers than client slots. -/
theorem length_hookers_le {mem : LinkMem HookNode} {d : DogPtr} {js : List Slot}
    (h : Circle mem (.ListHooker d) (js.map .list1)) : js.length ≤ CLIENTNUM := by
  have hnodup : js.Nodup := List.Nodup.of_map _ (List.nodup_cons.mp h.nodup).2
  have hle := hnodup.length_le_card
  rwa [Fintype.card_fin] at hle

/-- The search of `DelHookerInCuteDog` returns, and says whether the client hooks a listed dog. -/
theorem hookerMet_eq {s : Server} {hookers : DogPtr → List Slot}
    (h : Hooked s.links s.CuteDogList hookers) (hdogs : ∀ d ∈ s.CuteDogList, (s.dogs d).isSome = true)
    (i : Slot) {l : List DogPtr} (hl : ∀ d ∈ l, d ∈ s.CuteDogList) :
    s.hookerMet i l = some (decide (∃ d ∈ l, i ∈ hookers d)) := by
  induction l with
  | nil => simp [hookerMet]
  | cons d rest ih =>
      have hd := hl d List.mem_cons_self
      have hrest := ih fun e he => hl e (List.mem_cons_of_mem d he)
      obtain ⟨dog, hdog⟩ := Option.isSome_iff_exists.mp (hdogs d hd)
      have hcircle := h.circle d hd
      obtain ⟨head, hhead, -⟩ := hcircle.first
      have hempty := hcircle.list_notempty
      have hturns : (hookers d).length < CLIENTNUM + s.CuteDogList.length := by
        have hle := length_hookers_le hcircle
        have hpos := List.length_pos_of_mem hd
        omega
      obtain ⟨pos, hpos, hmeets⟩ := meets_path (i := i) hcircle.path hturns
      rw [LinkMem.next_eq hhead] at hpos
      simp only [hookerMet, hdog, hhead, hempty, hpos, hmeets, hrest, Option.bind_eq_bind,
        Option.bind_some]
      by_cases hnil : hookers d = []
      · simp [hnil]
      · by_cases hi : i ∈ hookers d
        · simp [hnil, hi]
        · simp [hnil, hi]

/-- A client that is linked is taken out of its list. -/
theorem DelHookerInCuteDog_of_hooker {s : Server} {hookers : DogPtr → List Slot}
    (h : Hooked s.links s.CuteDogList hookers)
    (hdogs : ∀ d ∈ s.CuteDogList, (s.dogs d).isSome = true) {i : Slot} {d : DogPtr}
    (hd : d ∈ s.CuteDogList) (hi : i ∈ hookers d) :
    ∃ links js, s.DelHookerInCuteDog i = some (true, { s with links := links }) ∧
      Hooked links s.CuteDogList (Function.update hookers d js) ∧ i ∉ js ∧
      ∀ j ∈ js, j ∈ hookers d := by
  have hmet := hookerMet_eq h hdogs i (fun d hd => hd)
  obtain ⟨links, hdel, js, hooked, hjs, hsub⟩ := h.del hd hi
  rw [decide_eq_true ⟨d, hd, hi⟩] at hmet
  refine ⟨links, js, ?_, hooked, hjs, hsub⟩
  simp [DelHookerInCuteDog, hmet, hdel]

/-- A client that is linked nowhere is not found. -/
theorem DelHookerInCuteDog_of_none {s : Server} {hookers : DogPtr → List Slot}
    (h : Hooked s.links s.CuteDogList hookers)
    (hdogs : ∀ d ∈ s.CuteDogList, (s.dogs d).isSome = true) {i : Slot}
    (hi : ∀ d ∈ s.CuteDogList, i ∉ hookers d) : s.DelHookerInCuteDog i = some (false, s) := by
  have hmet := hookerMet_eq h hdogs i (fun d hd => hd)
  rw [decide_eq_false fun ⟨d, hd, hid⟩ => hi d hd hid] at hmet
  simp [DelHookerInCuteDog, hmet]

/-- **`DelHookerInCuteDog` returns**, and afterwards the client is linked nowhere; no other client is
linked newly. -/
theorem DelHookerInCuteDog_hooked {s : Server} {hookers : DogPtr → List Slot}
    (h : Hooked s.links s.CuteDogList hookers)
    (hdogs : ∀ d ∈ s.CuteDogList, (s.dogs d).isSome = true) (i : Slot) :
    ∃ b links hookers', s.DelHookerInCuteDog i = some (b, { s with links := links }) ∧
      Hooked links s.CuteDogList hookers' ∧ (∀ d ∈ s.CuteDogList, i ∉ hookers' d) ∧
      ∀ d ∈ s.CuteDogList, ∀ j ∈ hookers' d, j ∈ hookers d := by
  by_cases hi : ∃ d ∈ s.CuteDogList, i ∈ hookers d
  · obtain ⟨d, hd, hid⟩ := hi
    obtain ⟨links, js, hdel, hooked, hjs, hsub⟩ := DelHookerInCuteDog_of_hooker h hdogs hd hid
    refine ⟨true, links, _, hdel, hooked, h.not_in_updated hd hid hjs, fun e _ j hj => ?_⟩
    by_cases hed : e = d
    · rw [hed, Function.update_self] at hj
      rw [hed]
      exact hsub j hj
    · rwa [Function.update_of_ne hed] at hj
  · have hnone : ∀ d ∈ s.CuteDogList, i ∉ hookers d := fun d hd hid => hi ⟨d, hd, hid⟩
    exact ⟨false, s.links, hookers, DelHookerInCuteDog_of_none h hdogs hnone, h, hnone,
      fun _ _ _ hj => hj⟩

/-! ## `DelHookersWithCuteDog` -/

/-- What the loop over the hookers `js` of a dog does: as many of them as there are free cells get the
message and are unlinked, the others stay, and no other list is touched. -/
structure Dropped (d : DogPtr) (message : CStr) (js : List Slot) (s s' : Server) : Prop where
  same : ∀ n, n ∉ HookNode.ListHooker d :: js.map .list1 → s'.links n = s.links n
  allocated : ∀ n, (s'.links n).isSome = (s.links n).isSome
  cells : s'.pFifoDogMsgFree.count = s.pFifoDogMsgFree.count - js.length
  left : Circle s'.links (.ListHooker d) ((js.drop s.pFifoDogMsgFree.count).map .list1)
  cleared : ∀ j ∈ js.take s.pFifoDogMsgFree.count,
    s'.links (.list1 j) = some { next := none, prev := none }
  put : ∃ new, s'.hist.put = s.hist.put ++ new ∧
    List.Forall₂ (fun j m => Tells j message m) (js.take s.pFifoDogMsgFree.count) new

/-- Nothing is left to do, or no cell is free. -/
theorem Dropped.stop {d : DogPtr} {message : CStr} {js : List Slot} {s : Server}
    (h : Circle s.links (.ListHooker d) (js.map .list1))
    (hnone : js = [] ∨ s.pFifoDogMsgFree.count = 0) : Dropped d message js s s := by
  have htake : js.take s.pFifoDogMsgFree.count = [] := by
    rcases hnone with rfl | hcount
    · exact List.take_nil
    · rw [hcount, List.take_zero]
  have hdrop : js.drop s.pFifoDogMsgFree.count = js := by
    rcases hnone with rfl | hcount
    · exact List.drop_nil
    · rw [hcount, List.drop_zero]
  refine ⟨fun n _ => rfl, fun n => rfl, ?_, ?_, ?_, ⟨[], (List.append_nil _).symm, ?_⟩⟩
  · rcases hnone with rfl | hcount
    · rfl
    · rw [hcount, Nat.zero_sub]
  · rwa [hdrop]
  · rw [htake]
    exact fun j hj => absurd hj List.not_mem_nil
  · rw [htake]
    exact List.Forall₂.nil

/-- A turn in which the first hooker gets the message, and the turns after it. -/
theorem Dropped.cons {d : DogPtr} {message : CStr} {j : Slot} {js : List Slot} {s s₁ s' : Server}
    {links : LinkMem HookNode} (hnew : j ∉ js) (hanswer : s.answer j message = (true, s₁))
    (hcount : s₁.pFifoDogMsgFree.count + 1 = s.pFifoDogMsgFree.count)
    (hnode : links (.list1 j) = some { next := none, prev := none })
    (hframe : ∀ n, n ∉ HookNode.ListHooker d :: (j :: js).map .list1 → links n = s.links n)
    (hsome : ∀ n, (links n).isSome = (s.links n).isSome)
    (h : Dropped d message js { s₁ with links := links } s') : Dropped d message (j :: js) s s' := by
  have hcells : s'.pFifoDogMsgFree.count = s₁.pFifoDogMsgFree.count - js.length := h.cells
  have hleft : Circle s'.links (.ListHooker d)
    ((js.drop s₁.pFifoDogMsgFree.count).map .list1) := h.left
  have hcleared : ∀ k ∈ js.take s₁.pFifoDogMsgFree.count,
    s'.links (.list1 k) = some { next := none, prev := none } := h.cleared
  obtain ⟨new, hput, htells⟩ : ∃ new, s'.hist.put = s₁.hist.put ++ new ∧
    List.Forall₂ (fun k m => Tells k message m) (js.take s₁.pFifoDogMsgFree.count) new := h.put
  obtain ⟨m, hput₁, htells₁⟩ := put_answer hanswer
  -- what is outside the longer list is outside the shorter one
  have hout : ∀ n, n ∉ HookNode.ListHooker d :: (j :: js).map .list1 →
      n ∉ HookNode.ListHooker d :: js.map .list1 := by
    intro n hn hmem
    rcases List.mem_cons.mp hmem with hmem | hmem
    · exact hn (List.mem_cons.mpr (Or.inl hmem))
    · exact hn (List.mem_cons_of_mem _ (List.mem_cons_of_mem _ hmem))
  refine ⟨fun n hn => (h.same n (hout n hn)).trans (hframe n hn),
    fun n => (h.allocated n).trans (hsome n), ?_, ?_, fun k hk => ?_, ⟨m :: new, ?_, ?_⟩⟩
  · rw [hcells, List.length_cons]
    omega
  · rwa [← hcount, List.drop_succ_cons]
  · rw [← hcount, List.take_succ_cons] at hk
    rcases List.mem_cons.mp hk with rfl | hk
    · -- the rest of the loop does not come back to the node
      refine (h.same _ fun hmem => ?_).trans hnode
      rcases List.mem_cons.mp hmem with hmem | hmem
      · exact list1_ne_ListHooker k d hmem
      · obtain ⟨k', hk', heq⟩ := List.mem_map.mp hmem
        cases heq
        exact hnew hk'
    · exact hcleared k hk
  · rw [hput, hput₁, List.append_assoc, List.singleton_append]
  · rw [← hcount, List.take_succ_cons]
    exact List.Forall₂.cons htells₁ htells

/-- **The loop of `DelHookersWithCuteDog` returns.** -/
theorem dropHookers_circle {d : DogPtr} (message : CStr) {js : List Slot} {s : Server} {turns : Nat}
    (h : Circle s.links (.ListHooker d) (js.map .list1)) (ht : s.pFifoDogMsgFree.count < turns) :
    ∃ b s', dropHookers d message turns ((js.map HookNode.list1).headD (.ListHooker d))
        (s.links.next ((js.map HookNode.list1).headD (.ListHooker d))) s = some (b, s') ∧
      Dropped d message js s s' := by
  induction js generalizing s turns with
  | nil =>
      obtain ⟨turns, rfl⟩ := Nat.exists_eq_succ_of_ne_zero (by omega : turns ≠ 0)
      exact ⟨true, s, by simp [dropHookers], Dropped.stop h (Or.inl rfl)⟩
  | cons j js ih =>
      obtain ⟨turns, rfl⟩ := Nat.exists_eq_succ_of_ne_zero (by omega : turns ≠ 0)
      obtain ⟨hanswer, hnone⟩ | ⟨s₁, hanswer, htalks, hcount⟩ := answer_spec j message s
      · -- no cell for the notice: the loop returns and the list stays
        refine ⟨false, s, by simp [dropHookers, hanswer], Dropped.stop h (Or.inr ?_)⟩
        rw [← FifoRing.length_contents, hnone, List.length_nil]
      · -- the node is unlinked, and the loop goes on at the node that was next to it
        obtain ⟨links, hdel, hcircle, hnode, hframe, hsome⟩ := list_del_spec (l := []) h
        rw [List.nil_append] at hcircle
        obtain ⟨l, hl⟩ : ∃ l, links ((js.map HookNode.list1).headD (.ListHooker d)) = some l := by
          obtain ⟨n, hn, hjoin⟩ := hcircle.head_joined
          refine Option.isSome_iff_exists.mp ?_
          have heq : (js.map HookNode.list1).headD (.ListHooker d) = n := by
            cases js with
            | nil => simpa using hn
            | cons k ks => simpa using hn
          rw [heq]
          exact hjoin.isSome.2
        have hnext : s.links.next (.list1 j) = some ((js.map HookNode.list1).headD (.ListHooker d)) :=
          h.path.2.next
        have hnew : j ∉ js :=
          (List.nodup_cons.mp (List.Nodup.of_map _ (List.nodup_cons.mp h.nodup).2)).1
        have hfew : s₁.pFifoDogMsgFree.count < turns := by omega
        obtain ⟨b, s', hloop, hdropped⟩ := ih (s := { s₁ with links := links }) hcircle hfew
        have hlnext : LinkMem.next links _ = l.next := LinkMem.next_eq hl
        rw [hlnext] at hloop
        refine ⟨b, s', ?_, Dropped.cons hnew hanswer hcount hnode hframe hsome hdropped⟩
        rw [List.map_cons, List.headD_cons, hnext, dropHookers, if_neg (list1_ne_ListHooker j d)]
        simp only [hanswer, htalks.links, hdel, Option.bind_eq_bind, Option.bind_some, hl]
        exact hloop

/-- `DelHookersWithCuteDog` returns when the list of the dog is a circle. -/
theorem DelHookersWithCuteDog_circle {s : Server} {d : DogPtr} {dog : CUTEDOG} {js : List Slot}
    (h : Circle s.links (.ListHooker d) (js.map .list1)) (hdog : s.dogs d = some dog) :
    ∃ b s', s.DelHookersWithCuteDog d = some (b, s') ∧ Dropped d (loseNotice dog) js s s' := by
  obtain ⟨head, hhead, hfirst⟩ := h.first
  have hempty := h.list_notempty
  obtain ⟨b, s', hloop, hdropped⟩ := dropHookers_circle (loseNotice dog) h (Nat.lt_succ_self _)
  by_cases hnil : js = []
  · refine ⟨true, s, ?_, Dropped.stop h (Or.inl hnil)⟩
    simp [DelHookersWithCuteDog, hdog, hhead, hempty, hnil]
  · obtain ⟨l, hl⟩ : ∃ l, s.links (js.map HookNode.list1 |>.headD (.ListHooker d)) = some l := by
      obtain ⟨k, ks, rfl⟩ := List.exists_cons_of_ne_nil hnil
      exact Option.isSome_iff_exists.mp h.path.1.isSome.2
    rw [LinkMem.next_eq hl] at hloop
    refine ⟨b, s', ?_, hdropped⟩
    simp only [DelHookersWithCuteDog, hdog, hhead, hempty, hfirst, hl, Option.bind_eq_bind,
      Option.bind_some, decide_eq_true hnil, if_true]
    exact hloop

/-! ## The fan-out of a packet -/

/-- A turn of the loop of `SendTcp2Cats`. -/
theorem fanOut_cons {d : DogPtr} {message : CStr} {j : Slot} {js : List Slot} {s s₁ : Server}
    (h : Path s.links (.list1 j) (js.map .list1) (.ListHooker d))
    (hanswer : s.answer j message = (true, s₁)) (hlinks : s₁.links = s.links) (turns : Nat) :
    fanOut d message (turns + 1) (((j :: js).map HookNode.list1).headD (.ListHooker d)) s =
      fanOut d message turns ((js.map HookNode.list1).headD (.ListHooker d)) s₁ := by
  have hnext := h.next
  obtain ⟨l, hl, hln⟩ := Option.bind_eq_some_iff.mp hnext
  rw [← hlinks] at hl
  rw [List.map_cons, List.headD_cons, fanOut, if_neg (list1_ne_ListHooker j d)]
  simp only [hanswer, hl, hln, Option.bind_eq_bind, Option.bind_some]

/-- The loop of `SendTcp2Cats` returns. -/
theorem fanOut_path {d : DogPtr} (message : CStr) {a : HookNode} {js : List Slot} {s : Server}
    {turns : Nat} (h : Path s.links a (js.map .list1) (.ListHooker d))
    (ht : s.pFifoDogMsgFree.count < turns) :
    ∃ b s', fanOut d message turns ((js.map HookNode.list1).headD (.ListHooker d)) s =
      some (b, s') := by
  induction js generalizing s turns a with
  | nil =>
      obtain ⟨turns, rfl⟩ := Nat.exists_eq_succ_of_ne_zero (by omega : turns ≠ 0)
      exact ⟨true, s, by simp [fanOut]⟩
  | cons j js ih =>
      obtain ⟨turns, rfl⟩ := Nat.exists_eq_succ_of_ne_zero (by omega : turns ≠ 0)
      obtain ⟨hanswer, -⟩ | ⟨s₁, hanswer, htalks, hcount⟩ := answer_spec j message s
      · exact ⟨false, s, by simp [fanOut, hanswer]⟩
      · have hrest : Path s₁.links (.list1 j) (js.map .list1) (.ListHooker d) := by
          rw [htalks.links]
          exact h.2
        have hfew : s₁.pFifoDogMsgFree.count < turns := by omega
        obtain ⟨b, s', hloop⟩ := ih hrest hfew
        exact ⟨b, s', (fanOut_cons h.2 hanswer htalks.links turns).trans hloop⟩

/-- **The fan-out returns** when the client points to a listed dog. -/
theorem sendToHookers_hooked {s : Server} {hookers : DogPtr → List Slot}
    (h : Hooked s.links s.CuteDogList hookers) {i : Slot} {d : DogPtr}
    (hd : (s.ClientInfo i).CuteDog = some d) (hmem : d ∈ s.CuteDogList) (message : CStr) :
    ∃ b s', s.sendToHookers i message = some (b, s') := by
  have hcircle := h.circle d hmem
  obtain ⟨head, hhead, hfirst⟩ := hcircle.first
  have hempty := hcircle.list_notempty
  obtain ⟨b, s', hloop⟩ := fanOut_path message hcircle.path
    (Nat.lt_succ_self s.pFifoDogMsgFree.count)
  by_cases hnil : hookers d = []
  · exact ⟨true, s, by simp [sendToHookers, hd, hhead, hempty, hnil]⟩
  · refine ⟨b, s', ?_⟩
    simp only [sendToHookers, hd, hhead, hempty, hfirst, Option.bind_eq_bind, Option.bind_some,
      decide_eq_true hnil, if_true]
    exact hloop

end Server

end Netflow
