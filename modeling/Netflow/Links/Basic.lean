import Netflow.Lib.Circle

set_option autoImplicit false

/-! # Intrusive lists (`list.h`)

The functions of `list.h` on a memory of links. Reading or writing through a NULL pointer, or
through a node whose memory is not allocated, is undefined behaviour; the functions return `none`
there. On a well-formed circular list (`Circle`) they return, insert or remove the one node they
are called for, and touch no other list (`list_add_spec`, `list_del_spec`).
-/

namespace Netflow

section Memory

variable {ν : Type} [DecidableEq ν]

/-- `a->next = v` on an allocated node. -/
def LinkMem.withNext (mem : LinkMem ν) (a : ν) (v : Option ν) : LinkMem ν := fun b =>
  if b = a then (mem b).map fun l => { l with next := v } else mem b

/-- `a->prev = v` on an allocated node. -/
def LinkMem.withPrev (mem : LinkMem ν) (a : ν) (v : Option ν) : LinkMem ν := fun b =>
  if b = a then (mem b).map fun l => { l with prev := v } else mem b

/-- `p->next = v`. -/
def LinkMem.setNext (mem : LinkMem ν) (p v : Option ν) : Option (LinkMem ν) :=
  match p with
  | none => none
  | some a => if (mem a).isSome then some (mem.withNext a v) else none

/-- `p->prev = v`. -/
def LinkMem.setPrev (mem : LinkMem ν) (p v : Option ν) : Option (LinkMem ν) :=
  match p with
  | none => none
  | some a => if (mem a).isSome then some (mem.withPrev a v) else none

/-! ## The functions of `list.h` -/

/-- `INIT_LIST_HEAD` on memory that was just allocated. -/
def INIT_LIST_HEAD (mem : LinkMem ν) (list : ν) : LinkMem ν :=
  Function.update mem list (some { next := some list, prev := some list })

def __list_add (mem : LinkMem ν) (new : ν) (prev next : Option ν) : Option (LinkMem ν) := do
  let mem ← mem.setPrev next (some new)
  let mem ← mem.setNext (some new) next
  let mem ← mem.setPrev (some new) prev
  mem.setNext prev (some new)

def list_add (mem : LinkMem ν) (new head : ν) : Option (LinkMem ν) := do
  let l ← mem head
  __list_add mem new (some head) l.next

def __list_del (mem : LinkMem ν) (prev next : Option ν) : Option (LinkMem ν) := do
  let mem ← mem.setPrev next prev
  mem.setNext prev next

def list_del (mem : LinkMem ν) (entry : ν) : Option (LinkMem ν) := do
  let l ← mem entry
  let mem ← __list_del mem l.prev l.next
  let mem ← mem.setNext (some entry) none
  mem.setPrev (some entry) none

def list_move (mem : LinkMem ν) (list head : ν) : Option (LinkMem ν) := do
  let l ← mem list
  let mem ← __list_del mem l.prev l.next
  list_add mem list head

def list_empty (mem : LinkMem ν) (head : ν) : Option Bool := do
  let l ← mem head
  some (decide (l.next = some head))

/-- `list_notempty`. -/
def list_notempty (mem : LinkMem ν) (head : ν) : Option Bool := do
  let l ← mem head
  some (decide (l.next ≠ some head))

/-! ## Reading a written memory -/

@[simp] theorem isSome_withNext (mem : LinkMem ν) (a b : ν) (v : Option ν) :
    (mem.withNext a v b).isSome = (mem b).isSome := by
  by_cases h : b = a <;> simp [LinkMem.withNext, h]

@[simp] theorem isSome_withPrev (mem : LinkMem ν) (a b : ν) (v : Option ν) :
    (mem.withPrev a v b).isSome = (mem b).isSome := by
  by_cases h : b = a <;> simp [LinkMem.withPrev, h]

@[simp] theorem prev_withNext (mem : LinkMem ν) (a b : ν) (v : Option ν) :
    (mem.withNext a v).prev b = mem.prev b := by
  by_cases h : b = a <;> cases hb : mem a <;> simp [LinkMem.prev, LinkMem.withNext, h, hb]

@[simp] theorem next_withPrev (mem : LinkMem ν) (a b : ν) (v : Option ν) :
    (mem.withPrev a v).next b = mem.next b := by
  by_cases h : b = a <;> cases hb : mem a <;> simp [LinkMem.next, LinkMem.withPrev, h, hb]

theorem next_withNext (mem : LinkMem ν) {a b : ν} (v : Option ν) (ha : (mem a).isSome = true) :
    (mem.withNext a v).next b = if b = a then v else mem.next b := by
  obtain ⟨l, hl⟩ := Option.isSome_iff_exists.mp ha
  by_cases h : b = a <;> simp [LinkMem.next, LinkMem.withNext, h, hl]

theorem prev_withPrev (mem : LinkMem ν) {a b : ν} (v : Option ν) (ha : (mem a).isSome = true) :
    (mem.withPrev a v).prev b = if b = a then v else mem.prev b := by
  obtain ⟨l, hl⟩ := Option.isSome_iff_exists.mp ha
  by_cases h : b = a <;> simp [LinkMem.prev, LinkMem.withPrev, h, hl]

theorem withNext_of_ne (mem : LinkMem ν) {a b : ν} (v : Option ν) (h : b ≠ a) :
    mem.withNext a v b = mem b := if_neg h

theorem withPrev_of_ne (mem : LinkMem ν) {a b : ν} (v : Option ν) (h : b ≠ a) :
    mem.withPrev a v b = mem b := if_neg h

theorem setNext_some (mem : LinkMem ν) {a : ν} (v : Option ν) (ha : (mem a).isSome = true) :
    mem.setNext (some a) v = some (mem.withNext a v) := if_pos ha

theorem setPrev_some (mem : LinkMem ν) {a : ν} (v : Option ν) (ha : (mem a).isSome = true) :
    mem.setPrev (some a) v = some (mem.withPrev a v) := if_pos ha

/-! ## What the functions write -/

/-- `list_add` returns when the node behind the head is in memory. -/
theorem list_add_eq_some_iff {mem mem' : LinkMem ν} {new head : ν} (hnew : (mem new).isSome = true) :
    list_add mem new head = some mem' ↔
      ∃ n, mem.next head = some n ∧ (mem n).isSome = true ∧
        mem' = (((mem.withPrev n (some new)).withNext new (some n)).withPrev new
          (some head)).withNext head (some new) := by
  constructor
  · intro h
    simp only [list_add, __list_add, Option.bind_eq_bind, Option.bind_eq_some_iff] at h
    obtain ⟨l, hl, mem₁, h₁, mem₂, h₂, mem₃, h₃, h₄⟩ := h
    cases hn : l.next with
    | none =>
        rw [hn] at h₁
        cases h₁
    | some n =>
        have hhead : (mem head).isSome = true := Option.isSome_of_eq_some hl
        have hsome : (mem n).isSome = true := by
          rw [hn, LinkMem.setPrev] at h₁
          exact (Option.ite_none_right_eq_some.mp h₁).1
        refine ⟨n, by rw [LinkMem.next, hl, Option.bind_some, hn], hsome, ?_⟩
        rw [hn, setPrev_some _ _ hsome] at h₁
        cases h₁
        rw [hn, setNext_some _ _ (by simpa using hnew)] at h₂
        cases h₂
        rw [setPrev_some _ _ (by simpa using hnew)] at h₃
        cases h₃
        rw [setNext_some _ _ (by simpa using hhead)] at h₄
        exact (Option.some.inj h₄).symm
  · rintro ⟨n, hnext, hsome, rfl⟩
    obtain ⟨l, hl, hn⟩ := Option.bind_eq_some_iff.mp hnext
    have hhead : (mem head).isSome = true := Option.isSome_of_eq_some hl
    simp only [list_add, __list_add, hl, hn, Option.bind_eq_bind, Option.bind_some]
    rw [setPrev_some _ _ hsome, Option.bind_some, setNext_some _ _ (by simpa using hnew),
      Option.bind_some, setPrev_some _ _ (by simpa using hnew), Option.bind_some,
      setNext_some _ _ (by simpa using hhead)]

/-- `list_del` returns when the neighbours of the node are in memory. -/
theorem list_del_eq_some_iff {mem mem' : LinkMem ν} {x : ν} :
    list_del mem x = some mem' ↔
      ∃ p n, mem.prev x = some p ∧ mem.next x = some n ∧ (mem p).isSome = true ∧
        (mem n).isSome = true ∧
        mem' = (((mem.withPrev n (some p)).withNext p (some n)).withNext x none).withPrev x none := by
  constructor
  · intro h
    simp only [list_del, __list_del, Option.bind_eq_bind, Option.bind_eq_some_iff] at h
    obtain ⟨l, hl, mem₂, ⟨mem₁, h₁, h₂⟩, mem₃, h₃, h₄⟩ := h
    have hx : (mem x).isSome = true := Option.isSome_of_eq_some hl
    cases hn : l.next with
    | none =>
        rw [hn] at h₁
        cases h₁
    | some n =>
        cases hp : l.prev with
        | none =>
            rw [hp] at h₂
            cases h₂
        | some p =>
            rw [hn, hp] at h₁ h₂
            have hsn : (mem n).isSome = true := by
              rw [LinkMem.setPrev] at h₁
              exact (Option.ite_none_right_eq_some.mp h₁).1
            rw [setPrev_some _ _ hsn] at h₁
            cases h₁
            have hsp : ((mem.withPrev n (some p)) p).isSome = true := by
              rw [LinkMem.setNext] at h₂
              exact (Option.ite_none_right_eq_some.mp h₂).1
            rw [setNext_some _ _ hsp] at h₂
            cases h₂
            rw [setNext_some _ _ (by simpa using hx)] at h₃
            cases h₃
            rw [setPrev_some _ _ (by simpa using hx)] at h₄
            refine ⟨p, n, ?_, ?_, by simpa using hsp, hsn, (Option.some.inj h₄).symm⟩
            · rw [LinkMem.prev, hl, Option.bind_some, hp]
            · rw [LinkMem.next, hl, Option.bind_some, hn]
  · rintro ⟨p, n, hprev, hnext, hsp, hsn, rfl⟩
    obtain ⟨l, hl, hn⟩ := Option.bind_eq_some_iff.mp hnext
    obtain ⟨l', hl', hp⟩ := Option.bind_eq_some_iff.mp hprev
    cases hl.symm.trans hl'
    have hx : (mem x).isSome = true := Option.isSome_of_eq_some hl
    simp only [list_del, __list_del, hl, Option.bind_eq_bind, Option.bind_some, hn, hp]
    rw [setPrev_some _ _ hsn, Option.bind_some, setNext_some _ _ (by simpa using hsp),
      Option.bind_some, setNext_some _ _ (by simpa using hx), Option.bind_some,
      setPrev_some _ _ (by simpa using hx)]

/-! ## Well-formed lists -/

omit [DecidableEq ν] in
theorem Joined.isSome {mem : LinkMem ν} {a b : ν} (h : Joined mem a b) :
    (mem a).isSome = true ∧ (mem b).isSome = true := by
  obtain ⟨hnext, hprev⟩ := h
  rw [LinkMem.next, Option.bind_eq_some_iff] at hnext
  rw [LinkMem.prev, Option.bind_eq_some_iff] at hprev
  obtain ⟨la, hla, -⟩ := hnext
  obtain ⟨lb, hlb, -⟩ := hprev
  exact ⟨Option.isSome_of_eq_some hla, Option.isSome_of_eq_some hlb⟩

omit [DecidableEq ν] in
/-- The neighbours of a node between two parts of a path. -/
theorem Path.neighbours {mem : LinkMem ν} {a b x : ν} {l r : List ν}
    (h : Path mem a (l ++ x :: r) b) :
    ∃ p n, (a :: l).getLast? = some p ∧ (r ++ [b]).head? = some n ∧
      Joined mem p x ∧ Joined mem x n := by
  rw [path_append] at h
  obtain ⟨hl, hr⟩ := h
  have hlast : ∀ (a : ν) (l : List ν), Path mem a l x →
      ∃ p, (a :: l).getLast? = some p ∧ Joined mem p x := by
    intro a l
    induction l generalizing a with
    | nil => exact fun h => ⟨a, rfl, h⟩
    | cons y l ih =>
        intro h
        obtain ⟨p, hp, hj⟩ := ih y h.2
        exact ⟨p, by simpa using hp, hj⟩
  obtain ⟨p, hp, hjp⟩ := hlast a l hl
  cases r with
  | nil => exact ⟨p, b, hp, rfl, hjp, hr⟩
  | cons y ys => exact ⟨p, y, hp, rfl, hjp, hr.1⟩

omit [DecidableEq ν] in
theorem Circle.head_joined {mem : LinkMem ν} {h : ν} {xs : List ν} (hc : Circle mem h xs) :
    ∃ n, (xs ++ [h]).head? = some n ∧ Joined mem h n := by
  cases xs with
  | nil => exact ⟨h, rfl, hc.path⟩
  | cons x xs => exact ⟨x, rfl, hc.path.1⟩

omit [DecidableEq ν] in
/-- The node behind the head. -/
theorem Circle.next_of_head {mem : LinkMem ν} {h : ν} {xs : List ν}
    (hc : Circle mem h xs) : ∃ l, mem h = some l ∧ l.next = (xs ++ [h]).head? := by
  obtain ⟨x, hx, hjoin⟩ := hc.head_joined
  obtain ⟨l, hl⟩ := Option.isSome_iff_exists.mp hjoin.isSome.1
  refine ⟨l, hl, ?_⟩
  rw [hx]
  simpa [LinkMem.next, hl] using hjoin.1

omit [DecidableEq ν] in
/-- The nodes of a well-formed list are allocated. -/
theorem Circle.isSome {mem : LinkMem ν} {h : ν} {xs : List ν} (hc : Circle mem h xs) :
    ∀ x ∈ h :: xs, (mem x).isSome = true := by
  intro x hx
  rcases List.mem_cons.mp hx with rfl | hx
  · obtain ⟨n, -, hjoin⟩ := hc.head_joined
    exact hjoin.isSome.1
  · obtain ⟨l, r, rfl⟩ := List.append_of_mem hx
    obtain ⟨p, n, -, -, -, hjoin⟩ := hc.path.neighbours
    exact hjoin.isSome.1

omit [DecidableEq ν] in
theorem Circle.notMem_rest {mem : LinkMem ν} {h x : ν} {l r : List ν}
    (hc : Circle mem h (l ++ x :: r)) : x ∉ h :: (l ++ r) := by
  have hperm : (h :: (l ++ x :: r)).Perm (x :: h :: (l ++ r)) :=
    (List.perm_middle.cons h).trans (List.Perm.swap x h (l ++ r))
  exact (List.nodup_cons.mp (hperm.nodup_iff.mp hc.nodup)).1

theorem circle_INIT_LIST_HEAD (mem : LinkMem ν) (h : ν) : Circle (INIT_LIST_HEAD mem h) h [] where
  nodup := by simp
  path := by simp [Path, Joined, LinkMem.next, LinkMem.prev, INIT_LIST_HEAD]

/-- `list_add` of a node that is not in the list puts it first. -/
theorem list_add_spec {mem : LinkMem ν} {new h : ν} {xs : List ν} (hc : Circle mem h xs)
    (halloc : (mem new).isSome = true) (hnew : new ∉ h :: xs) :
    ∃ mem', list_add mem new h = some mem' ∧ Circle mem' h (new :: xs) ∧
      (∀ m, m ∉ new :: h :: xs → mem' m = mem m) ∧
      ∀ m, (mem' m).isSome = (mem m).isSome := by
  obtain ⟨n, hn, hjoin⟩ := hc.head_joined
  obtain ⟨hh, hns⟩ := hjoin.isSome
  have hnmem : n ∈ h :: xs := by
    have hmem : n ∈ xs ++ [h] := List.mem_of_mem_head? hn
    rcases List.mem_append.mp hmem with hx | hx
    · exact List.mem_cons_of_mem h hx
    · exact List.mem_cons.mpr (Or.inl (List.mem_singleton.mp hx))
  have hnew_n : new ≠ n := fun heq => hnew (heq ▸ hnmem)
  have hnew_h : new ≠ h := fun heq => hnew (heq ▸ List.mem_cons_self)
  refine ⟨(((mem.withPrev n (some new)).withNext new (some n)).withPrev new (some h)).withNext h
    (some new), ?_, ?_, ?_, fun m => by simp⟩
  · exact (list_add_eq_some_iff halloc).mpr ⟨n, hjoin.1, hns, rfl⟩
  · have hhs : ∀ v w z, ((((mem.withPrev n v).withNext new w).withPrev new z) h).isSome = true := by
      simpa using hh
    have hnews : ∀ v, ((mem.withPrev n v) new).isSome = true := by simpa using halloc
    have hnews' : ∀ v w, (((mem.withPrev n v).withNext new w) new).isSome = true := by
      simpa using halloc
    refine hc.insert hnew hn ⟨?_, ?_⟩ ⟨?_, ?_⟩ ?_ ?_
    · rw [next_withNext _ _ (hhs _ _ _), if_pos rfl]
    · rw [prev_withNext, prev_withPrev _ _ (hnews' _ _), if_pos rfl]
    · rw [next_withNext _ _ (hhs _ _ _), if_neg hnew_h, next_withPrev,
        next_withNext _ _ (hnews _), if_pos rfl]
    · rw [prev_withNext, prev_withPrev _ _ (hnews' _ _), if_neg hnew_n.symm, prev_withNext,
        prev_withPrev _ _ hns, if_pos rfl]
    · intro m hm
      have hmh : m ≠ h := fun heq => (List.nodup_cons.mp hc.nodup).1 (heq ▸ hm)
      have hmn : m ≠ new := fun heq => hnew (List.mem_cons_of_mem h (heq ▸ hm))
      rw [next_withNext _ _ (hhs _ _ _), if_neg hmh, next_withPrev, next_withNext _ _ (hnews _),
        if_neg hmn, next_withPrev]
    · intro m hm hmne
      have hmn : m ≠ new := fun heq => hnew (heq ▸ hm)
      rw [prev_withNext, prev_withPrev _ _ (hnews' _ _), if_neg hmn, prev_withNext,
        prev_withPrev _ _ hns, if_neg hmne]
  · intro m hm
    simp only [List.mem_cons, not_or] at hm
    -- a node outside the list is none of the three that are written
    have hmne : m ≠ n := by
      rintro rfl
      rcases List.mem_cons.mp hnmem with heq | hx
      · exact hm.2.1 heq
      · exact hm.2.2 hx
    rw [withNext_of_ne _ _ hm.2.1, withPrev_of_ne _ _ hm.1, withNext_of_ne _ _ hm.1,
      withPrev_of_ne _ _ hmne]

/-- `__list_del` with the pointers of a node of the list takes the node out. -/
theorem __list_del_spec {mem : LinkMem ν} {h x : ν} {l r : List ν} {k : Link ν}
    (hc : Circle mem h (l ++ x :: r)) (hk : mem x = some k) :
    ∃ mem', __list_del mem k.prev k.next = some mem' ∧ Circle mem' h (l ++ r) ∧
      mem' x = some k ∧ (∀ m, m ∉ h :: (l ++ x :: r) → mem' m = mem m) ∧
      ∀ m, (mem' m).isSome = (mem m).isSome := by
  obtain ⟨p, n, hp, hn, hjp, hjn⟩ := hc.path.neighbours
  obtain ⟨hps, -⟩ := hjp.isSome
  obtain ⟨-, hns⟩ := hjn.isSome
  have hknext : k.next = some n := by simpa [LinkMem.next, hk] using hjn.1
  have hkprev : k.prev = some p := by simpa [LinkMem.prev, hk] using hjp.2
  have hxl : x ∉ h :: (l ++ r) := hc.notMem_rest
  have hpmem : p ∈ h :: (l ++ r) :=
    (List.Sublist.cons_cons h (List.sublist_append_left l r)).subset (List.mem_of_getLast? hp)
  have hnmem : n ∈ h :: (l ++ r) := by
    rcases List.mem_append.mp (List.mem_of_mem_head? hn) with hx | hx
    · exact List.mem_cons_of_mem h (List.mem_append_right l hx)
    · exact List.mem_cons.mpr (Or.inl (List.mem_singleton.mp hx))
  have hpx : x ≠ p := fun heq => hxl (heq ▸ hpmem)
  have hnx : x ≠ n := fun heq => hxl (heq ▸ hnmem)
  have hps' : ((mem.withPrev n (some p)) p).isSome = true := by simpa using hps
  refine ⟨(mem.withPrev n (some p)).withNext p (some n), ?_, ?_, ?_, ?_, fun m => by simp⟩
  · rw [__list_del, hknext, hkprev, Option.bind_eq_bind, setPrev_some _ _ hns, Option.bind_some,
      setNext_some _ _ hps']
  · refine hc.remove hp hn ⟨?_, ?_⟩ ?_ ?_
    · rw [next_withNext _ _ hps', if_pos rfl]
    · rw [prev_withNext, prev_withPrev _ _ hns, if_pos rfl]
    · intro m _ hmp
      rw [next_withNext _ _ hps', if_neg hmp, next_withPrev]
    · intro m _ hmn
      rw [prev_withNext, prev_withPrev _ _ hns, if_neg hmn]
  · rw [withNext_of_ne _ _ hpx, withPrev_of_ne _ _ hnx, hk]
  · intro m hm
    have hsub : ∀ y ∈ h :: (l ++ r), y ∈ h :: (l ++ x :: r) := fun y hy =>
      (List.Sublist.cons_cons h
        ((List.Sublist.refl l).append (List.sublist_cons_self x r))).subset hy
    have hmp : m ≠ p := fun heq => hm (heq ▸ hsub p hpmem)
    have hmn : m ≠ n := fun heq => hm (heq ▸ hsub n hnmem)
    rw [withNext_of_ne _ _ hmp, withPrev_of_ne _ _ hmn]

/-- `list_del` of a node of the list takes it out and clears its pointers. -/
theorem list_del_spec {mem : LinkMem ν} {h x : ν} {l r : List ν}
    (hc : Circle mem h (l ++ x :: r)) :
    ∃ mem', list_del mem x = some mem' ∧ Circle mem' h (l ++ r) ∧
      mem' x = some { next := none, prev := none } ∧
      (∀ m, m ∉ h :: (l ++ x :: r) → mem' m = mem m) ∧
      ∀ m, (mem' m).isSome = (mem m).isSome := by
  obtain ⟨k, hk⟩ := Option.isSome_iff_exists.mp (hc.isSome x (by simp))
  obtain ⟨mem₁, hdel, hcirc, hx, hother, halloc⟩ := __list_del_spec hc hk
  have hxs : (mem₁ x).isSome = true := Option.isSome_of_eq_some hx
  have hxs' : ((mem₁.withNext x none) x).isSome = true := by simpa using hxs
  have hsame : ∀ m, m ≠ x → ((mem₁.withNext x none).withPrev x none) m = mem₁ m := fun m hm => by
    rw [withPrev_of_ne _ _ hm, withNext_of_ne _ _ hm]
  refine ⟨(mem₁.withNext x none).withPrev x none, ?_, ?_, ?_, ?_, fun m => ?_⟩
  · simp only [list_del, hk, hdel, Option.bind_eq_bind, Option.bind_some]
    rw [setNext_some _ _ hxs, Option.bind_some, setPrev_some _ _ hxs']
  · exact hcirc.congr fun m hm => hsame m fun heq => hc.notMem_rest (heq ▸ hm)
  · simp [LinkMem.withNext, LinkMem.withPrev, hx]
  · intro m hm
    rw [hsame m fun heq => hm (heq ▸ List.mem_cons_of_mem h (by simp)), hother m hm]
  · rw [← halloc m]
    simp

/-- `list_move` takes a node out of its list and puts it first in another. -/
theorem list_move_spec {mem : LinkMem ν} {h h' x : ν} {l r ys : List ν}
    (hc : Circle mem h (l ++ x :: r)) (hc' : Circle mem h' ys)
    (hdisj : ∀ m ∈ h' :: ys, m ∉ h :: (l ++ x :: r)) :
    ∃ mem', list_move mem x h' = some mem' ∧ Circle mem' h (l ++ r) ∧
      Circle mem' h' (x :: ys) := by
  obtain ⟨k, hk⟩ := Option.isSome_iff_exists.mp (hc.isSome x (by simp))
  obtain ⟨mem₁, hdel, hcirc, hx, hother, -⟩ := __list_del_spec hc hk
  have hcirc' : Circle mem₁ h' ys := hc'.congr fun m hm => hother m (hdisj m hm)
  have hxys : x ∉ h' :: ys := fun hm => hdisj x hm (List.mem_cons_of_mem h (by simp))
  obtain ⟨mem₂, hadd, hadded, hother', -⟩ :=
    list_add_spec hcirc' (Option.isSome_of_eq_some hx) hxys
  refine ⟨mem₂, ?_, hcirc.congr fun m hm => hother' m fun hm' => ?_, hadded⟩
  · simp only [list_move, hk, hdel, Option.bind_eq_bind, Option.bind_some, hadd]
  · rcases List.mem_cons.mp hm' with rfl | hm'
    · exact hc.notMem_rest hm
    · refine hdisj m hm' ?_
      exact (List.Sublist.cons_cons h
        ((List.Sublist.refl l).append (List.sublist_cons_self x r))).subset hm

end Memory

end Netflow
