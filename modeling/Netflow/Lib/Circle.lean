import Mathlib.Data.List.Nodup
import Mathlib.Logic.Function.Basic
import Mathlib.Tactic.Common

set_option autoImplicit false

/-! # Circular doubly linked lists in a memory of links

A memory gives every allocated node its two pointers. `Path mem a xs b` says that following `next`
from `a` visits the nodes of `xs` and then `b`, and that `prev` leads back along the same way. A
node `h` is the head of the circular list `xs` when the path from `h` through `xs` ends at `h`
again and no node repeats (`Circle`).

A path only depends on the `next` pointers of its nodes but the last and on the `prev` pointers of
its nodes but the first (`Path.congr`), so a change elsewhere leaves it alone; the insertion and
the removal of a node are proved from that.
-/

namespace Netflow

/-- The two pointers of a node; NULL is `none`. -/
structure Link (ν : Type) where
  next : Option ν
  prev : Option ν
deriving DecidableEq

/-- The links in memory; `none` is a node whose memory is not allocated. -/
abbrev LinkMem (ν : Type) := ν → Option (Link ν)

section Circle

variable {ν : Type}

/-- The `next` pointer of a node, `none` also when the node is not allocated. -/
def LinkMem.next (mem : LinkMem ν) (a : ν) : Option ν := (mem a).bind Link.next

/-- The `prev` pointer of a node, `none` also when the node is not allocated. -/
def LinkMem.prev (mem : LinkMem ν) (a : ν) : Option ν := (mem a).bind Link.prev

/-- `a` and `b` point to each other. -/
def Joined (mem : LinkMem ν) (a b : ν) : Prop := mem.next a = some b ∧ mem.prev b = some a

/-- The path from `a` through `xs` to `b`. -/
def Path (mem : LinkMem ν) : ν → List ν → ν → Prop
  | a, [], b => Joined mem a b
  | a, x :: xs, b => Joined mem a x ∧ Path mem x xs b

/-- `h` is the head of the circular list of the nodes `xs`. -/
structure Circle (mem : LinkMem ν) (h : ν) (xs : List ν) : Prop where
  nodup : (h :: xs).Nodup
  path : Path mem h xs h

variable {mem mem' : LinkMem ν}

theorem path_append {a x b : ν} {xs ys : List ν} :
    Path mem a (xs ++ x :: ys) b ↔ Path mem a xs x ∧ Path mem x ys b := by
  induction xs generalizing a with
  | nil => rfl
  | cons y xs ih => simp only [List.cons_append, Path, ih, and_assoc]

/-- The pointer of the first node of a path. -/
theorem Path.next {a b : ν} {xs : List ν} (h : Path mem a xs b) : mem.next a = some (xs.headD b) := by
  cases xs with
  | nil => exact h.1
  | cons x xs => exact h.1.1

/-- The nodes between `a` and `b` are determined by the links. -/
theorem Path.unique {a b : ν} {xs ys : List ν} (hxs : Path mem a xs b) (hys : Path mem a ys b)
    (hb : b ∉ xs) (hb' : b ∉ ys) : xs = ys := by
  induction xs generalizing a ys with
  | nil =>
      cases ys with
      | nil => rfl
      | cons y ys =>
          have hy : b = y := Option.some.inj (hxs.1.symm.trans hys.1.1)
          exact absurd (hy ▸ List.mem_cons_self) hb'
  | cons x xs ih =>
      cases ys with
      | nil =>
          have hx : b = x := Option.some.inj (hys.1.symm.trans hxs.1.1)
          exact absurd (hx ▸ List.mem_cons_self) hb
      | cons y ys =>
          have hxy : x = y := Option.some.inj (hxs.1.1.symm.trans hys.1.1)
          subst hxy
          rw [ih hxs.2 hys.2 (fun h => hb (List.mem_cons_of_mem x h))
            (fun h => hb' (List.mem_cons_of_mem x h))]

/-- Two paths from one node end at the same node, when neither passes the end of the other. -/
theorem Path.end_unique {a b b' : ν} {xs ys : List ν} (hxs : Path mem a xs b)
    (hys : Path mem a ys b') (hb : b ∉ ys) (hb' : b' ∉ xs) : b = b' := by
  induction xs generalizing a ys with
  | nil =>
      cases ys with
      | nil => exact Option.some.inj (hxs.1.symm.trans hys.1)
      | cons y ys =>
          have hy : b = y := Option.some.inj (hxs.1.symm.trans hys.1.1)
          exact absurd (hy ▸ List.mem_cons_self) hb
  | cons x xs ih =>
      cases ys with
      | nil =>
          have hx : b' = x := Option.some.inj (hys.1.symm.trans hxs.1.1)
          exact absurd (hx ▸ List.mem_cons_self) hb'
      | cons y ys =>
          have hxy : x = y := Option.some.inj (hxs.1.1.symm.trans hys.1.1)
          subst hxy
          exact ih hxs.2 hys.2 (fun h => hb (List.mem_cons_of_mem x h))
            (fun h => hb' (List.mem_cons_of_mem x h))

theorem Circle.unique {h : ν} {xs ys : List ν} (hxs : Circle mem h xs) (hys : Circle mem h ys) :
    xs = ys :=
  hxs.path.unique hys.path (List.nodup_cons.mp hxs.nodup).1 (List.nodup_cons.mp hys.nodup).1

/-- A path is kept when the pointers along it are. -/
theorem Path.congr {a b : ν} {xs : List ν} (h : Path mem a xs b)
    (hnext : ∀ n ∈ a :: xs, mem'.next n = mem.next n)
    (hprev : ∀ n ∈ xs ++ [b], mem'.prev n = mem.prev n) : Path mem' a xs b := by
  induction xs generalizing a with
  | nil =>
      exact ⟨(hnext a (by simp)).trans h.1, (hprev b (by simp)).trans h.2⟩
  | cons x xs ih =>
      refine ⟨⟨(hnext a (by simp)).trans h.1.1, (hprev x (by simp)).trans h.1.2⟩, ?_⟩
      exact ih h.2 (fun n hn => hnext n (List.mem_cons_of_mem a hn))
        (fun n hn => hprev n (List.mem_cons_of_mem x hn))

theorem Circle.congr {h : ν} {xs : List ν} (hc : Circle mem h xs)
    (hmem : ∀ n ∈ h :: xs, mem' n = mem n) : Circle mem' h xs where
  nodup := hc.nodup
  path := by
    refine hc.path.congr (fun n hn => ?_) (fun n hn => ?_)
    · rw [LinkMem.next, LinkMem.next, hmem n hn]
    · have hn' : n ∈ h :: xs := by
        rcases List.mem_append.mp hn with hx | hh
        · exact List.mem_cons_of_mem h hx
        · exact List.mem_cons.mpr (Or.inl (List.mem_singleton.mp hh))
      rw [LinkMem.prev, LinkMem.prev, hmem n hn']

/-- The last step of a path is led to another node, when the rest of the path stays. -/
theorem Path.retarget {a x n p : ν} {l : List ν} (h : Path mem a l x) (hnodup : (a :: l).Nodup)
    (hp : (a :: l).getLast? = some p) (hjoin : Joined mem' p n)
    (hnext : ∀ m ∈ a :: l, m ≠ p → mem'.next m = mem.next m)
    (hprev : ∀ m ∈ l, mem'.prev m = mem.prev m) : Path mem' a l n := by
  induction l generalizing a with
  | nil =>
      have hap : a = p := by simpa using hp
      exact hap ▸ hjoin
  | cons y l ih =>
      have hp' : (y :: l).getLast? = some p := by simpa using hp
      have hmem : p ∈ y :: l := List.mem_of_getLast? hp'
      have hne : a ≠ p := fun hap => (List.nodup_cons.mp hnodup).1 (hap ▸ hmem)
      refine ⟨⟨(hnext a (by simp) hne).trans h.1.1, (hprev y (by simp)).trans h.1.2⟩, ?_⟩
      exact ih h.2 (List.nodup_cons.mp hnodup).2 hp'
        (fun m hm => hnext m (List.mem_cons_of_mem a hm))
        (fun m hm => hprev m (List.mem_cons_of_mem y hm))

/-- **Insertion behind the head.** -/
theorem Circle.insert {h x n : ν} {xs : List ν} (hc : Circle mem h xs) (hx : x ∉ h :: xs)
    (hn : (xs ++ [h]).head? = some n) (hhead : Joined mem' h x) (htail : Joined mem' x n)
    (hnext : ∀ m ∈ xs, mem'.next m = mem.next m)
    (hprev : ∀ m ∈ h :: xs, m ≠ n → mem'.prev m = mem.prev m) : Circle mem' h (x :: xs) where
  nodup := by
    have hnodup := hc.nodup
    simp only [List.nodup_cons, List.mem_cons, not_or] at hnodup hx ⊢
    exact ⟨⟨fun heq => hx.1 heq.symm, hnodup.1⟩, hx.2, hnodup.2⟩
  path := by
    refine ⟨hhead, ?_⟩
    cases xs with
    | nil =>
        have hhn : h = n := by simpa using hn
        exact hhn ▸ htail
    | cons y ys =>
        have hyn : y = n := by simpa using hn
        subst hyn
        have hnodup := hc.nodup
        simp only [List.nodup_cons, List.mem_cons, not_or] at hnodup
        refine ⟨htail, hc.path.2.congr hnext (fun m hm => hprev m ?_ ?_)⟩
        · rcases List.mem_append.mp hm with hm | hm
          · exact List.mem_cons_of_mem h (List.mem_cons_of_mem y hm)
          · exact List.mem_cons.mpr (Or.inl (List.mem_singleton.mp hm))
        · rintro rfl
          rcases List.mem_append.mp hm with hm | hm
          · exact hnodup.2.1 hm
          · exact hnodup.1.1 (List.mem_singleton.mp hm).symm

/-- **Removal of a node**: its neighbours `p` and `n` are joined to each other. -/
theorem Circle.remove {h x p n : ν} {l r : List ν} (hc : Circle mem h (l ++ x :: r))
    (hp : (h :: l).getLast? = some p) (hn : (r ++ [h]).head? = some n) (hjoin : Joined mem' p n)
    (hnext : ∀ m ∈ h :: (l ++ r), m ≠ p → mem'.next m = mem.next m)
    (hprev : ∀ m ∈ h :: (l ++ r), m ≠ n → mem'.prev m = mem.prev m) :
    Circle mem' h (l ++ r) := by
  have hnodup : (h :: (l ++ r)).Nodup := by
    refine hc.nodup.sublist ?_
    exact ((List.Sublist.refl l).append (List.sublist_cons_self x r)).cons_cons h
  have hpath := path_append.mp hc.path
  have hl : (h :: l).Nodup := hnodup.sublist ((List.sublist_append_left l r).cons_cons h)
  have hpl : p ∈ h :: l := List.mem_of_getLast? hp
  refine ⟨hnodup, ?_⟩
  have hfront : Path mem' h l n := by
    refine hpath.1.retarget hl hp hjoin (fun m hm hmp => hnext m ?_ hmp) (fun m hm => hprev m ?_ ?_)
    · exact (List.Sublist.cons_cons h (List.sublist_append_left l r)).subset hm
    · exact List.mem_cons_of_mem h (List.mem_append_left r hm)
    · rintro rfl
      cases r with
      | nil =>
          have hhm : h = m := by simpa using hn
          exact (List.nodup_cons.mp hl).1 (hhm ▸ hm)
      | cons y ys =>
          have hym : y = m := by simpa using hn
          subst hym
          exact (List.nodup_append.mp (List.nodup_cons.mp hnodup).2).2.2 y hm y
            List.mem_cons_self rfl
  cases r with
  | nil =>
      have hhn : h = n := by simpa using hn
      rw [List.append_nil]
      exact hhn ▸ hfront
  | cons y ys =>
      have hyn : y = n := by simpa using hn
      subst hyn
      have hdisj := (List.nodup_append.mp (List.nodup_cons.mp hnodup).2).2.2
      have hys : y ∉ ys := by
        have := (List.nodup_append.mp (List.nodup_cons.mp hnodup).2).2.1
        exact (List.nodup_cons.mp this).1
      have hhy : h ∉ y :: ys := fun hm =>
        (List.nodup_cons.mp hnodup).1 (List.mem_append_right l hm)
      rw [path_append]
      refine ⟨hfront, hpath.2.2.congr (fun m hm => hnext m ?_ ?_) (fun m hm => hprev m ?_ ?_)⟩
      · exact List.mem_cons_of_mem h (List.mem_append_right l hm)
      · rintro rfl
        rcases List.mem_cons.mp hpl with hph | hpl
        · exact hhy (hph ▸ hm)
        · exact hdisj m hpl m hm rfl
      · rcases List.mem_append.mp hm with hm | hm
        · exact List.mem_cons_of_mem h (List.mem_append_right l (List.mem_cons_of_mem y hm))
        · exact List.mem_cons.mpr (Or.inl (List.mem_singleton.mp hm))
      · rintro rfl
        rcases List.mem_append.mp hm with hm | hm
        · exact hys hm
        · exact hhy (List.mem_cons.mpr (Or.inl (List.mem_singleton.mp hm).symm))

end Circle

end Netflow
