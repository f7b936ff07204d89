import Mathlib.Data.List.FinRange
import Netflow.Lib.Transition
import Netflow.Links.Walk
import Netflow.Registry.Follows

set_option autoImplicit false

/-! # The lists of client slots

`FreeClientList` and `WorkClientList` as links in memory, for any number `n` of slots. A turn of the
receive thread's loop makes a first pass over `WorkClientList` that moves the clients it finds in
`STATUS_IOCLOSEED` to `FreeClientList`, accepts one connection at most and makes a second pass.

`Slots` is what the two lists are for: every slot is free or working, and only one of both. Every
turn returns, and does on the links what `Slots.turn` does on the lists (`loopTurn_spec`).
-/

namespace Netflow

/-- The heads of the two lists, and the node `list` of each of the `n` clients. -/
inductive SlotNode (n : Nat) where
  | FreeClientList
  | WorkClientList
  | list (i : Fin n)
deriving DecidableEq

abbrev SlotMem (n : Nat) := LinkMem (SlotNode n)

/-- What a turn of the loop meets: `found` are the values of `lStatus` that the first pass reads,
turn by turn; `ready` says whether `select` reports a descriptor, and `connection` whether `accept`
is called and returns a socket. -/
structure LoopInput where
  found : Nat → CLIENTSTATUS
  ready : Bool
  connection : Bool

/-- What a turn of the loop did: the nodes its passes visited, and the slot a connection was given
(`some none` when it was refused). -/
structure LoopRun (n : Nat) where
  first : List (SlotNode n)
  accepted : Option (Option (Fin n))
  second : Option (List (SlotNode n))
  mem : SlotMem n

section Source

variable {n : Nat}

/-- The memory once `InitServer` has cleared it and initialised the heads. -/
def initHeads (n : Nat) : SlotMem n :=
  let mem : SlotMem n := fun _ => some { next := none, prev := none }
  let mem := INIT_LIST_HEAD mem .FreeClientList
  INIT_LIST_HEAD mem .WorkClientList

/-- The lists as `InitServer` leaves them: every slot is added to `FreeClientList`. -/
def initLists (n : Nat) : Option (SlotMem n) :=
  (List.finRange n).foldlM (fun mem i => list_add mem (.list i) .FreeClientList) (initHeads n)

/-- The body of the first pass; the head of a list is no client. -/
def recycleBody (found : Nat → CLIENTSTATUS) (k : Nat) (entry : SlotNode n) (mem : SlotMem n) :
    Option (SlotMem n) :=
  match entry with
  | .list i =>
      if found k = .STATUS_IOCLOSEED then list_move mem (.list i) .FreeClientList else some mem
  | _ => none

/-- The body of the second pass receives and sends, and leaves the lists alone. -/
def transferBody (_ : Nat) (entry : SlotNode n) (mem : SlotMem n) : Option (SlotMem n) :=
  match entry with
  | .list _ => some mem
  | _ => none

/-- A connection is given the first free slot, or it is closed. -/
def acceptSlot (mem : SlotMem n) : Option (Option (Fin n) × SlotMem n) := do
  if ← list_empty mem .FreeClientList then some (none, mem)
  else
    let l ← mem .FreeClientList
    match ← l.next with
    | .list i => do
        let mem ← list_move mem (.list i) .WorkClientList
        some (some i, mem)
    | _ => none

/-- A turn of the loop. -/
def loopTurn (mem : SlotMem n) (t : LoopInput) : Option (LoopRun n) := do
  let (first, mem) ← list_for_each_safe .WorkClientList (recycleBody t.found) (n + 1) mem
  if t.ready then
    let (accepted, mem) ←
      if t.connection then (acceptSlot mem).map fun r => (some r.1, r.2) else some (none, mem)
    let (second, mem) ← list_for_each_safe .WorkClientList transferBody (n + 1) mem
    some { first := first, accepted := accepted, second := some second, mem := mem }
  else some { first := first, accepted := none, second := none, mem := mem }

/-- The loop as a system. -/
def loopStep (mem : SlotMem n) (t : LoopInput) : Option (SlotMem n) :=
  (loopTurn mem t).map LoopRun.mem

end Source

/-! ## Free and working slots -/

/-- The clients a pass finds in `STATUS_IOCLOSEED`, from its turn `k` on. -/
def overIn {α : Type} (found : Nat → CLIENTSTATUS) : Nat → List α → List α
  | _, [] => []
  | k, x :: xs =>
      if found k = .STATUS_IOCLOSEED then x :: overIn found (k + 1) xs else overIn found (k + 1) xs

/-- The clients a pass finds in another status. -/
def runningIn {α : Type} (found : Nat → CLIENTSTATUS) : Nat → List α → List α
  | _, [] => []
  | k, x :: xs =>
      if found k = .STATUS_IOCLOSEED then runningIn found (k + 1) xs
      else x :: runningIn found (k + 1) xs

theorem overIn_append_runningIn {α : Type} (found : Nat → CLIENTSTATUS) (k : Nat) (l : List α) :
    (overIn found k l ++ runningIn found k l).Perm l := by
  induction l generalizing k with
  | nil => exact List.Perm.refl _
  | cons x xs ih =>
      rw [overIn, runningIn]
      split
      · exact (ih (k + 1)).cons x
      · exact List.perm_middle.trans ((ih (k + 1)).cons x)

/-- Every slot is free or working, and it is listed once. -/
structure Slots (n : Nat) where
  free : List (Fin n)
  work : List (Fin n)
  perm : (free ++ work).Perm (List.finRange n)

namespace Slots

variable {n : Nat}

theorem nodup (p : Slots n) : (p.free ++ p.work).Nodup :=
  p.perm.nodup_iff.mpr (List.nodup_finRange n)

theorem length_work_le (p : Slots n) : p.work.length ≤ n := by
  have hlength := p.perm.length_eq
  rw [List.length_append, List.length_finRange] at hlength
  omega

/-- The slots that were found to be over become free, the last of them first. -/
def recycle (found : Nat → CLIENTSTATUS) (p : Slots n) : Slots n where
  free := (overIn found 0 p.work).reverse ++ p.free
  work := runningIn found 0 p.work
  perm := by
    have hpass := overIn_append_runningIn found 0 p.work
    have hreverse := (List.reverse_perm (overIn found 0 p.work)).append_right p.free
    have hswap := hreverse.trans List.perm_append_comm
    refine (hswap.append_right _).trans ?_
    rw [List.append_assoc]
    exact (hpass.append_left p.free).trans p.perm

/-- The first free slot starts to work. -/
def accept (p : Slots n) : Option (Fin n) × Slots n :=
  match hfree : p.free with
  | [] => (none, p)
  | i :: rest =>
      (some i,
        { free := rest
          work := i :: p.work
          perm := by
            have hperm := p.perm
            rw [hfree] at hperm
            exact List.perm_middle.trans hperm })

theorem accept_of_nil {p : Slots n} (h : p.free = []) : p.accept = (none, p) := by
  unfold accept
  split
  · rfl
  · next hfree =>
      rw [h] at hfree
      cases hfree

theorem accept_of_cons {p : Slots n} {i : Fin n} {rest : List (Fin n)} (h : p.free = i :: rest) :
    p.accept.1 = some i ∧ p.accept.2.free = rest ∧ p.accept.2.work = i :: p.work := by
  unfold accept
  split
  · next hfree =>
      rw [h] at hfree
      cases hfree
  · next hfree =>
      rw [h] at hfree
      cases hfree
      exact ⟨rfl, rfl, rfl⟩

/-- A connection is refused exactly when no slot is free. -/
theorem accept_fst (p : Slots n) : p.accept.1 = p.free.head? := by
  cases hfree : p.free with
  | nil =>
      rw [accept_of_nil hfree]
      rfl
  | cons i rest => exact (accept_of_cons hfree).1

/-- A turn of the loop. -/
def turn (t : LoopInput) (p : Slots n) : Slots n :=
  if t.ready && t.connection then (p.recycle t.found).accept.2 else p.recycle t.found

end Slots

/-! ## The links represent the lists -/

section Links

variable {n : Nat}

/-- The two lists are well-formed in memory and have no node in common. -/
structure TwoLists (mem : SlotMem n) (free work : List (Fin n)) : Prop where
  freeCircle : Circle mem .FreeClientList (free.map .list)
  workCircle : Circle mem .WorkClientList (work.map .list)
  nodup : (free ++ work).Nodup

variable {mem : SlotMem n} {free work : List (Fin n)}

theorem mem_map_list {i : Fin n} {l : List (Fin n)} :
    SlotNode.list i ∈ l.map .list ↔ i ∈ l :=
  List.mem_map_of_injective fun _ _ h => SlotNode.list.inj h

/-- The nodes of one list are not on the other. -/
theorem TwoLists.disjoint (h : TwoLists mem free work) :
    ∀ m ∈ SlotNode.FreeClientList :: free.map .list, m ∉ SlotNode.WorkClientList :: work.map .list := by
  intro m hm hm'
  cases m with
  | FreeClientList => simp at hm'
  | WorkClientList => simp at hm
  | list i =>
      simp only [List.mem_cons, reduceCtorEq, mem_map_list, false_or] at hm hm'
      exact (List.nodup_append.mp h.nodup).2.2 i hm i hm' rfl

/-- A working slot is moved to the free ones. -/
theorem TwoLists.release {i : Fin n} {l r : List (Fin n)} (h : TwoLists mem free (l ++ i :: r)) :
    ∃ mem', list_move mem (.list i) .FreeClientList = some mem' ∧
      TwoLists mem' (i :: free) (l ++ r) := by
  have hwork := h.workCircle
  rw [List.map_append, List.map_cons] at hwork
  have hdisj := h.disjoint
  rw [List.map_append, List.map_cons] at hdisj
  obtain ⟨mem', hmove, hcirc, hcirc'⟩ := list_move_spec hwork h.freeCircle hdisj
  refine ⟨mem', hmove, hcirc', ?_, ?_⟩
  · rwa [List.map_append]
  · have hperm : (free ++ (l ++ i :: r)).Perm (i :: free ++ (l ++ r)) := by
      rw [← List.append_assoc, List.cons_append, ← List.append_assoc]
      exact List.perm_middle
    exact hperm.nodup_iff.mp h.nodup

/-- The first free slot is moved to the working ones. -/
theorem TwoLists.employ {i : Fin n} (h : TwoLists mem (i :: free) work) :
    ∃ mem', list_move mem (.list i) .WorkClientList = some mem' ∧ TwoLists mem' free (i :: work) := by
  have hdisj : ∀ m ∈ SlotNode.WorkClientList :: work.map .list,
      m ∉ SlotNode.FreeClientList :: ([] ++ SlotNode.list i :: free.map .list) :=
    fun m hm hm' => h.disjoint m hm' hm
  obtain ⟨mem', hmove, hcirc, hcirc'⟩ := list_move_spec (l := []) h.freeCircle h.workCircle hdisj
  refine ⟨mem', hmove, hcirc, hcirc', ?_⟩
  have hmid : (free ++ i :: work).Perm (i :: (free ++ work)) := List.perm_middle
  exact hmid.nodup_iff.mpr h.nodup

/-- What holds in the first pass at its turn `k`: the slots still to come bring it to its result. -/
structure Passing (found : Nat → CLIENTSTATUS) (free' work' : List (Fin n)) (k : Nat)
    (left rest : List (SlotNode n)) (mem : SlotMem n) (free kept todo : List (Fin n)) : Prop where
  left_eq : left = kept.map .list
  rest_eq : rest = todo.map .list
  linked : TwoLists mem free (kept ++ todo)
  free_eq : (overIn found k todo).reverse ++ free = free'
  work_eq : kept ++ runningIn found k todo = work'

theorem bodySafe_recycleBody (found : Nat → CLIENTSTATUS) (free' work' : List (Fin n)) :
    BodySafe .WorkClientList (recycleBody found) fun k left rest mem =>
      ∃ free kept todo, Passing found free' work' k left rest mem free kept todo where
  circle := by
    rintro k left rest mem ⟨free, kept, todo, h⟩
    rw [h.left_eq, h.rest_eq, ← List.map_append]
    exact h.linked.workCircle
  turn := by
    rintro k left x rest mem ⟨free, kept, todo, h⟩
    obtain ⟨i, todo, rfl, rfl, rfl⟩ := List.map_eq_cons_iff.mp h.rest_eq.symm
    have hlinked := h.linked
    have hfree := h.free_eq
    have hwork := h.work_eq
    rw [overIn] at hfree
    rw [runningIn] at hwork
    by_cases hover : found k = .STATUS_IOCLOSEED
    · obtain ⟨mem', hmove, hmoved⟩ := hlinked.release
      rw [if_pos hover, List.reverse_cons, List.append_assoc] at hfree
      rw [if_pos hover] at hwork
      refine ⟨mem', (if_pos hover).trans hmove, Or.inl ⟨i :: free, kept, todo, ?_⟩⟩
      exact ⟨h.left_eq, rfl, hmoved, hfree, hwork⟩
    · rw [if_neg hover] at hfree hwork
      refine ⟨mem, if_neg hover, Or.inr ⟨free, kept ++ [i], todo, ?_, rfl, ?_, hfree, ?_⟩⟩
      · rw [h.left_eq, List.map_append]
        rfl
      · rwa [List.append_assoc]
      · rwa [List.append_assoc]

theorem bodySafe_transferBody (mem₀ : SlotMem n) :
    BodySafe .WorkClientList transferBody fun _ left rest mem =>
      mem = mem₀ ∧ (∃ todo : List (Fin n), rest = todo.map .list) ∧
        Circle mem .WorkClientList (left ++ rest) where
  circle h := h.2.2
  turn := by
    rintro k left x rest mem ⟨hmem, ⟨todo, htodo⟩, hcirc⟩
    obtain ⟨i, todo, rfl, rfl, rfl⟩ := List.map_eq_cons_iff.mp htodo.symm
    refine ⟨mem, rfl, Or.inr ⟨hmem, ⟨todo, rfl⟩, ?_⟩⟩
    rwa [List.append_assoc]

/-- The links of the `n` slots represent their partition. -/
def Represents (mem : SlotMem n) (p : Slots n) : Prop := TwoLists mem p.free p.work

/-- **The first pass** visits every working slot and moves those that are over. -/
theorem firstPass_spec {p : Slots n} (h : Represents mem p) (found : Nat → CLIENTSTATUS) :
    ∃ mem', list_for_each_safe .WorkClientList (recycleBody found) (n + 1) mem =
        some (p.work.map .list, mem') ∧ Represents mem' (p.recycle found) := by
  have hlength := p.length_work_le
  have hturns : (p.work.map SlotNode.list).length < n + 1 := by
    rw [List.length_map]
    omega
  obtain ⟨left, mem', hwalk, free, kept, todo, hdone⟩ := list_for_each_safe_spec
    (bodySafe_recycleBody found (p.recycle found).free (p.recycle found).work)
    ⟨p.free, [], p.work, rfl, rfl, h, rfl, rfl⟩ hturns
  refine ⟨mem', hwalk, ?_⟩
  have htodo : todo = [] := List.map_eq_nil_iff.mp hdone.rest_eq.symm
  have hlinked := hdone.linked
  have hfree := hdone.free_eq
  have hwork := hdone.work_eq
  subst htodo
  rw [overIn, List.reverse_nil, List.nil_append] at hfree
  rw [runningIn] at hwork
  rwa [hfree, hwork] at hlinked

/-- **The second pass** visits every working slot. -/
theorem secondPass_spec {p : Slots n} (h : Represents mem p) :
    list_for_each_safe .WorkClientList transferBody (n + 1) mem = some (p.work.map .list, mem) := by
  have hlength := p.length_work_le
  have hturns : (p.work.map SlotNode.list).length < n + 1 := by
    rw [List.length_map]
    omega
  obtain ⟨left, mem', hwalk, hsame, -⟩ := list_for_each_safe_spec (bodySafe_transferBody mem)
    ⟨rfl, ⟨p.work, rfl⟩, h.workCircle⟩ hturns
  rwa [hsame] at hwalk

/-- `FreeClientList` is empty exactly when no slot is free. -/
theorem list_empty_free (h : TwoLists mem free work) :
    list_empty mem .FreeClientList = some (decide (free = [])) := by
  obtain ⟨l, hl, hnext⟩ := h.freeCircle.next_of_head
  rw [list_empty, hl, Option.bind_eq_bind, Option.bind_some, hnext]
  cases free with
  | nil => simp
  | cons i rest => simp

/-- With no free slot a connection is refused. -/
theorem acceptSlot_nil (h : TwoLists mem [] work) : acceptSlot mem = some (none, mem) := by
  rw [acceptSlot, list_empty_free h]
  rfl

/-- With a free slot a connection is given the first one. -/
theorem acceptSlot_cons {i : Fin n} (h : TwoLists mem (i :: free) work) :
    ∃ mem', acceptSlot mem = some (some i, mem') ∧ TwoLists mem' free (i :: work) := by
  obtain ⟨l, hl, hnext⟩ := h.freeCircle.next_of_head
  have hfirst : l.next = some (.list i) := hnext
  obtain ⟨mem', hmove, hmoved⟩ := h.employ
  refine ⟨mem', ?_, hmoved⟩
  simp only [acceptSlot, list_empty_free h, hl, hfirst, hmove, Option.bind_eq_bind, Option.bind_some]
  rfl

/-- **A connection** is given the first free slot, and refused exactly when no slot is free. -/
theorem acceptSlot_spec {p : Slots n} (h : Represents mem p) :
    ∃ mem', acceptSlot mem = some (p.accept.1, mem') ∧ Represents mem' p.accept.2 := by
  have hlinked : TwoLists mem p.free p.work := h
  cases hfree : p.free with
  | nil =>
      rw [hfree] at hlinked
      rw [Slots.accept_of_nil hfree]
      exact ⟨mem, acceptSlot_nil hlinked, h⟩
  | cons i rest =>
      rw [hfree] at hlinked
      obtain ⟨hfst, hrest, hwork⟩ := Slots.accept_of_cons hfree
      obtain ⟨mem', haccept, haccepted⟩ := acceptSlot_cons hlinked
      refine ⟨mem', ?_, ?_⟩
      · rw [hfst]
        exact haccept
      · rw [Represents, hrest, hwork]
        exact haccepted

/-- What a turn of the loop does with the slots of `p`: the passes visit the working slots in order,
which are listed once each, and a connection is refused exactly when no slot is free. -/
structure TurnDone (p : Slots n) (t : LoopInput) (r : LoopRun n) : Prop where
  first : r.first = p.work.map .list
  accepted : r.accepted =
    if t.ready && t.connection then some (p.recycle t.found).free.head? else none
  second : r.second = if t.ready then some ((p.turn t).work.map .list) else none
  mem : Represents r.mem (p.turn t)

/-- **A turn of the loop** returns, and does on the links what `Slots.turn` does. -/
theorem loopTurn_spec {p : Slots n} (h : Represents mem p) (t : LoopInput) :
    ∃ r, loopTurn mem t = some r ∧ TurnDone p t r := by
  obtain ⟨mem₁, hfirst, hrecycled⟩ := firstPass_spec h t.found
  have hsecond := fun (mem : SlotMem n) (p : Slots n) (hp : Represents mem p) => secondPass_spec hp
  -- a timeout of `select` leaves out the listening socket and the second pass
  cases hready : t.ready with
  | false =>
      have hturn : p.turn t = p.recycle t.found := by rw [Slots.turn, hready]; rfl
      refine ⟨{ first := p.work.map .list, accepted := none, second := none, mem := mem₁ }, ?_,
        rfl, ?_, ?_, ?_⟩
      · simp only [loopTurn, hfirst, hready, Option.bind_eq_bind, Option.bind_some, if_false,
          Bool.false_eq_true]
      · rw [hready]
        rfl
      · rw [hready]
        rfl
      · rw [hturn]
        exact hrecycled
  | true =>
      -- and without a connection only the second pass is made
      cases hconnection : t.connection with
      | false =>
          have hturn : p.turn t = p.recycle t.found := by rw [Slots.turn, hready, hconnection]; rfl
          refine ⟨{ first := p.work.map .list, accepted := none,
                    second := some ((p.recycle t.found).work.map .list), mem := mem₁ }, ?_,
            rfl, ?_, ?_, ?_⟩
          · simp only [loopTurn, hfirst, hready, hconnection, Option.bind_eq_bind, Option.bind_some,
              if_true, if_false, Bool.false_eq_true, hsecond mem₁ _ hrecycled]
          · rw [hready, hconnection]
            rfl
          · rw [hready, hturn]
            rfl
          · rw [hturn]
            exact hrecycled
      | true =>
          have hturn : p.turn t = (p.recycle t.found).accept.2 := by
            rw [Slots.turn, hready, hconnection]
            rfl
          obtain ⟨mem₂, haccept, haccepted⟩ := acceptSlot_spec hrecycled
          refine ⟨{ first := p.work.map .list, accepted := some (p.recycle t.found).accept.1,
                    second := some ((p.recycle t.found).accept.2.work.map .list), mem := mem₂ }, ?_,
            rfl, ?_, ?_, ?_⟩
          · simp only [loopTurn, hfirst, hready, hconnection, Option.bind_eq_bind, Option.bind_some,
              if_true, haccept, Option.map_some, hsecond mem₂ _ haccepted]
          · rw [hready, hconnection, Slots.accept_fst]
            rfl
          · rw [hready, hturn]
            rfl
          · rw [hturn]
            exact haccepted

/-! ## The runs -/

/-- The loop of `InitServer` adds each slot in front of `FreeClientList`. -/
theorem twoLists_list_add {l : List (Fin n)} (h : TwoLists mem free [])
    (halloc : ∀ m, (mem m).isSome = true)
    (hnodup : (l.reverse ++ free).Nodup) :
    ∃ mem', l.foldlM (fun mem i => list_add mem (.list i) .FreeClientList) mem = some mem' ∧
      TwoLists mem' (l.reverse ++ free) [] := by
  induction l generalizing mem free with
  | nil => exact ⟨mem, rfl, h⟩
  | cons i l ih =>
      rw [List.reverse_cons, List.append_assoc, List.singleton_append] at hnodup ⊢
      have hi : i ∉ free := (List.nodup_cons.mp (List.nodup_append.mp hnodup).2.1).1
      have hnew : SlotNode.list i ∉ SlotNode.FreeClientList :: free.map .list := by
        simpa [mem_map_list] using hi
      obtain ⟨mem₁, hadd, hcirc, hother, halloc₁⟩ := list_add_spec h.freeCircle (halloc _) hnew
      have hadded : TwoLists mem₁ (i :: free) [] := by
        refine ⟨hcirc, h.workCircle.congr fun m hm => hother m ?_, ?_⟩
        · rw [List.map_nil, List.mem_singleton] at hm
          simp [hm]
        · rw [List.append_nil]
          exact (List.nodup_append.mp hnodup).2.1
      obtain ⟨mem', hfold, hlinked⟩ := ih hadded (fun m => (halloc₁ m).trans (halloc m)) hnodup
      refine ⟨mem', ?_, hlinked⟩
      rw [List.foldlM_cons, hadd]
      exact hfold

/-- At the start every slot is free. -/
theorem initLists_spec (n : Nat) :
    ∃ mem, initLists n = some mem ∧ TwoLists mem (List.finRange n).reverse [] := by
  have hnodup : ((List.finRange n).reverse ++ []).Nodup := by
    rw [List.append_nil, List.nodup_reverse]
    exact List.nodup_finRange n
  have hstart : TwoLists (initHeads n) [] [] := by
    refine ⟨?_, circle_INIT_LIST_HEAD _ _, List.nodup_nil⟩
    have hfirst := circle_INIT_LIST_HEAD (fun _ => some { next := none, prev := none })
      (SlotNode.FreeClientList : SlotNode n)
    refine hfirst.congr fun m hm => ?_
    rw [List.mem_singleton.mp hm]
    have hne : (SlotNode.FreeClientList : SlotNode n) ≠ .WorkClientList := nofun
    rw [initHeads, INIT_LIST_HEAD, Function.update_of_ne hne]
  obtain ⟨mem, hinit, hlinked⟩ := twoLists_list_add (l := List.finRange n) hstart
    (fun m => by cases m <;> rfl) hnodup
  rw [List.append_nil] at hlinked
  exact ⟨mem, hinit, hlinked⟩

/-- All slots are free. -/
def Slots.allFree (n : Nat) : Slots n where
  free := (List.finRange n).reverse
  work := []
  perm := by
    rw [List.append_nil]
    exact List.reverse_perm _

/-- The loop takes a state that represents a partition to one that does. -/
theorem represents_reach {mem₀ : SlotMem n} {p₀ : Slots n} (h₀ : Represents mem₀ p₀)
    (hrun : Reach loopStep AnyStep mem₀ mem) : ∃ p, Represents mem p := by
  refine hrun.invariant (P := fun mem => ∃ p, Represents mem p) ⟨p₀, h₀⟩ ?_
  rintro mem t mem' ⟨p, hp⟩ - hstep
  obtain ⟨r, hr, hdone⟩ := loopTurn_spec hp t
  rw [loopStep, hr, Option.map_some] at hstep
  cases hstep
  exact ⟨p.turn t, hdone.mem⟩

/-- **The slots are partitioned, and every pass sees each of them once**: after any turns of the loop
the two lists are well-formed, every slot is on one of them and once, and the next turn returns,
visits in both passes the slots that are working when they begin, and gives a connection a free slot
unless there is none. -/
theorem slots_partitioned (n : Nat) : ∃ mem₀, initLists n = some mem₀ ∧
    ∀ mem, Reach loopStep AnyStep mem₀ mem → ∃ p : Slots n, Represents mem p ∧
      ∀ t, ∃ r, loopTurn mem t = some r ∧ TurnDone p t r := by
  obtain ⟨mem₀, hinit, h₀⟩ := initLists_spec n
  refine ⟨mem₀, hinit, fun mem hrun => ?_⟩
  have hstart : Represents mem₀ (Slots.allFree n) := h₀
  obtain ⟨p, hp⟩ := represents_reach hstart hrun
  exact ⟨p, hp, loopTurn_spec hp⟩

/-- Two slots, and a connection in the first turn of the loop. -/
theorem slots_partitioned_two : ∃ mem₀ r, initLists 2 = some mem₀ ∧
    loopTurn mem₀ { found := fun _ => .STATUS_UNKNOWN, ready := true, connection := true } = some r ∧
      ∃ p : Slots 2, Represents r.mem p ∧ ∀ t, ∃ r', loopTurn r.mem t = some r' ∧ TurnDone p t r' := by
  obtain ⟨mem₀, hinit, hall⟩ := slots_partitioned 2
  obtain ⟨p, -, hturn⟩ := hall mem₀ Reach.start
  obtain ⟨r, hr, -⟩ := hturn { found := fun _ => .STATUS_UNKNOWN, ready := true, connection := true }
  have hstep : loopStep mem₀ { found := fun _ => .STATUS_UNKNOWN, ready := true, connection := true } =
      some r.mem := by rw [loopStep, hr, Option.map_some]
  exact ⟨mem₀, r, hinit, hr, hall r.mem (Reach.start.next trivial hstep)⟩

end Links

/-! ## The server's lists -/

section Lists

variable {mem : SlotMem CLIENTNUM} {s : Server}

/-- The links of the server's two lists. -/
def ListsOf (mem : SlotMem CLIENTNUM) (s : Server) : Prop :=
  TwoLists mem s.FreeClientList s.WorkClientList

theorem listsOf_InitServer (align : MsgCell → Nat) :
    ∃ mem, initLists CLIENTNUM = some mem ∧ ListsOf mem (InitServer align) := by
  obtain ⟨mem, hinit, hlinked⟩ := initLists_spec CLIENTNUM
  have hlists : ∀ filled, ListsOf mem (initialServer align filled) := fun _ => hlinked
  exact ⟨mem, hinit, hlists _⟩

/-- The recycling of a slot moves its node. -/
theorem listsOf_recycle {i : Slot} (h : ListsOf mem s) (hi : i ∈ s.WorkClientList) :
    ∃ mem', list_move mem (.list i) .FreeClientList = some mem' ∧ ListsOf mem' (s.recycle i) := by
  have hreg := Server.registry_recycle s i
  have hfree : (s.recycle i).FreeClientList = i :: s.FreeClientList :=
    congrArg Registry.FreeClientList hreg
  have hwork : (s.recycle i).WorkClientList = s.WorkClientList.erase i :=
    congrArg Registry.WorkClientList hreg
  obtain ⟨l, r, -, hsplit, herase⟩ := List.exists_erase_eq hi
  have hlinked : TwoLists mem s.FreeClientList (l ++ i :: r) := hsplit ▸ h
  obtain ⟨mem', hmove, hmoved⟩ := hlinked.release
  refine ⟨mem', hmove, ?_⟩
  rw [ListsOf, hfree, hwork, herase]
  exact hmoved

/-- A connection moves the node of the slot it is given. -/
theorem listsOf_acceptClient (h : ListsOf mem s) (sd : Nat) :
    ∃ i mem', acceptSlot mem = some (i, mem') ∧ ListsOf mem' (s.acceptClient sd) := by
  have hlinked : TwoLists mem s.FreeClientList s.WorkClientList := h
  obtain ⟨hnil, hreg⟩ | ⟨i, rest, hcons, hreg⟩ := Server.registry_acceptClient s sd
  · rw [hnil] at hlinked
    refine ⟨none, mem, acceptSlot_nil hlinked, ?_⟩
    have hfree : (s.acceptClient sd).FreeClientList = s.FreeClientList :=
      congrArg Registry.FreeClientList hreg
    have hwork : (s.acceptClient sd).WorkClientList = s.WorkClientList :=
      congrArg Registry.WorkClientList hreg
    rw [ListsOf, hfree, hwork]
    exact h
  · rw [hcons] at hlinked
    obtain ⟨mem', haccept, haccepted⟩ := acceptSlot_cons hlinked
    refine ⟨some i, mem', haccept, ?_⟩
    have hfree : (s.acceptClient sd).FreeClientList = rest :=
      congrArg Registry.FreeClientList hreg
    have hwork : (s.acceptClient sd).WorkClientList = i :: s.WorkClientList :=
      congrArg Registry.WorkClientList hreg
    rw [ListsOf, hfree, hwork]
    exact haccepted

end Lists

end Netflow
