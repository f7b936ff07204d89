import Netflow.Links.Basic

set_option autoImplicit false

/-! # `list_for_each_safe`

The traversal reads the node behind the current one before its body runs. The body may take the
current node out of the list or leave it: the traversal comes to every node that was on the list at
its start once, and it ends (`list_for_each_safe_spec`).
-/

namespace Netflow

section Walk

variable {ν : Type} [DecidableEq ν]

/-- The turns of `list_for_each_safe(pos, n, head)` from the node `pos` on, with the nodes its body
was run for. `body` is given the number of the turn, and `turns` bounds their number: `none` when
there are more. -/
def forEachSafe (head : ν) (body : Nat → ν → LinkMem ν → Option (LinkMem ν)) :
    Nat → Nat → ν → Option ν → LinkMem ν → Option (List ν × LinkMem ν)
  | 0, _, _, _, _ => none
  | turns + 1, k, pos, n, mem =>
      if pos = head then some ([], mem)
      else do
        let mem ← body k pos mem
        let next ← n
        let l ← mem next
        let (visited, mem) ← forEachSafe head body turns (k + 1) next l.next mem
        some (pos :: visited, mem)

/-- `list_for_each_safe(pos, n, head)`. -/
def list_for_each_safe (head : ν) (body : Nat → ν → LinkMem ν → Option (LinkMem ν)) (turns : Nat)
    (mem : LinkMem ν) : Option (List ν × LinkMem ν) := do
  let l ← mem head
  let pos ← l.next
  let l ← mem pos
  forEachSafe head body turns 0 pos l.next mem

/-- What a body has to keep: `I k done rest` relates a memory to the turns made, the nodes the
body has left on the list and those still to come. -/
structure BodySafe (head : ν) (body : Nat → ν → LinkMem ν → Option (LinkMem ν))
    (I : Nat → List ν → List ν → LinkMem ν → Prop) : Prop where
  circle : ∀ {k left rest mem}, I k left rest mem → Circle mem head (left ++ rest)
  turn : ∀ {k left x rest mem}, I k left (x :: rest) mem →
    ∃ mem', body k x mem = some mem' ∧
      (I (k + 1) left rest mem' ∨ I (k + 1) (left ++ [x]) rest mem')

variable {head : ν} {body : Nat → ν → LinkMem ν → Option (LinkMem ν)}
  {I : Nat → List ν → List ν → LinkMem ν → Prop}

omit [DecidableEq ν] in
/-- The node behind `x`. -/
theorem Circle.next_of_rest {mem : LinkMem ν} {x : ν} {left rest : List ν}
    (hc : Circle mem head (left ++ x :: rest)) :
    ∃ l, mem x = some l ∧ l.next = (rest ++ [head]).head? := by
  obtain ⟨p, n, -, hn, -, hjoin⟩ := hc.path.neighbours
  obtain ⟨l, hl⟩ := Option.isSome_iff_exists.mp hjoin.isSome.1
  refine ⟨l, hl, ?_⟩
  rw [hn]
  simpa [LinkMem.next, hl] using hjoin.1

/-- From a node of the list on: the rest of the list is visited in order. -/
theorem forEachSafe_spec (hbody : BodySafe head body I) {k turns : Nat} {pos : ν} {n : Option ν}
    {left rest : List ν} {mem : LinkMem ν} (hI : I k left rest mem) (hturns : rest.length < turns)
    (hpos : (rest ++ [head]).head? = some pos)
    (hn : rest ≠ [] → n = (rest.tail ++ [head]).head?) :
    ∃ left' mem', forEachSafe head body turns k pos n mem = some (rest, mem') ∧
      I (k + rest.length) left' [] mem' := by
  induction rest generalizing k turns pos n left mem with
  | nil =>
      obtain ⟨turns, rfl⟩ := Nat.exists_eq_succ_of_ne_zero (Nat.ne_of_gt hturns)
      have hhead : head = pos := Option.some.inj hpos
      exact ⟨left, mem, by rw [forEachSafe, if_pos hhead.symm], hI⟩
  | cons x rest ih =>
      obtain ⟨turns, rfl⟩ := Nat.exists_eq_succ_of_ne_zero (Nat.ne_of_gt (Nat.zero_lt_of_lt hturns))
      have hx : x = pos := Option.some.inj hpos
      subst hx
      have hne : x ≠ head := by
        rintro rfl
        have hnodup := (hbody.circle hI).nodup
        exact (List.nodup_cons.mp hnodup).1 (by simp)
      obtain ⟨mem₁, hrun, hnext⟩ := hbody.turn hI
      obtain ⟨next, hhead⟩ : ∃ next, (rest ++ [head]).head? = some next := by
        cases rest with
        | nil => exact ⟨head, rfl⟩
        | cons y ys => exact ⟨y, rfl⟩
      have hn' : n = some next := (hn (List.cons_ne_nil x rest)).trans hhead
      -- whether the body took the node out or not, the next one is where `n` says
      obtain ⟨left₁, hI₁⟩ : ∃ left₁, I (k + 1) left₁ rest mem₁ := by
        rcases hnext with h | h
        · exact ⟨left, h⟩
        · exact ⟨left ++ [x], h⟩
      obtain ⟨l, hl, hlnext⟩ : ∃ l, mem₁ next = some l ∧
          (rest ≠ [] → l.next = (rest.tail ++ [head]).head?) := by
        have hc := hbody.circle hI₁
        cases rest with
        | nil =>
            have hhn : head = next := Option.some.inj hhead
            obtain ⟨l, hl⟩ := Option.isSome_iff_exists.mp (hc.isSome head List.mem_cons_self)
            exact ⟨l, hhn ▸ hl, fun h => absurd rfl h⟩
        | cons y ys =>
            have hyn : y = next := Option.some.inj hhead
            obtain ⟨l, hl, hlnext⟩ := hc.next_of_rest
            exact ⟨l, hyn ▸ hl, fun _ => hlnext⟩
      obtain ⟨left', mem', hwalk, hI'⟩ := ih hI₁ (Nat.lt_of_succ_lt_succ hturns) hhead hlnext
      refine ⟨left', mem', ?_, ?_⟩
      · simp only [forEachSafe, if_neg hne, hrun, hn', hl, hwalk, Option.bind_eq_bind,
          Option.bind_some]
      · rw [List.length_cons, Nat.add_comm rest.length 1, ← Nat.add_assoc]
        exact hI'

/-- **`list_for_each_safe` visits the list**: every node that was on it once and in order, whichever
of them the body takes out. -/
theorem list_for_each_safe_spec (hbody : BodySafe head body I) {xs : List ν} {mem : LinkMem ν}
    {turns : Nat} (hI : I 0 [] xs mem) (hturns : xs.length < turns) :
    ∃ left mem', list_for_each_safe head body turns mem = some (xs, mem') ∧
      I xs.length left [] mem' := by
  have hc : Circle mem head xs := hbody.circle hI
  obtain ⟨l, hl, hlnext⟩ := hc.next_of_head
  obtain ⟨pos, hpos, hjoin⟩ := hc.head_joined
  rw [hpos] at hlnext
  obtain ⟨l', hl'⟩ := Option.isSome_iff_exists.mp hjoin.isSome.2
  have hn : xs ≠ [] → l'.next = (xs.tail ++ [head]).head? := by
    intro hne
    obtain ⟨x, rest, rfl⟩ := List.exists_cons_of_ne_nil hne
    have hx : x = pos := Option.some.inj hpos
    obtain ⟨k, hk, hknext⟩ := Circle.next_of_rest (show Circle mem head ([] ++ x :: rest) from hc)
    rw [hx, hl'] at hk
    cases hk
    exact hknext
  obtain ⟨left', mem', hwalk, hI'⟩ := forEachSafe_spec hbody hI hturns hpos hn
  refine ⟨left', mem', ?_, ?_⟩
  · simp only [list_for_each_safe, hl, hlnext, hl', Option.bind_eq_bind, Option.bind_some, hwalk]
  · rwa [Nat.zero_add] at hI'

end Walk

end Netflow
