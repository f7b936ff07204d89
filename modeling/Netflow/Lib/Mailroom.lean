import Mathlib.Data.List.Basic
import Mathlib.Logic.Function.Basic

set_option autoImplicit false

/-! # Messages for numbered connections

A mailroom serves slots. A slot is closed (its connection is `0`) or serves a connection; the
connections are numbered in the order they are opened. A message is stamped, when it is obtained,
with a slot and the number of the connection the slot serves; of that number a receiver can only
compare the remainder modulo `W`, the session. Messages are put into one queue, routed from the
queue to the box of their slot when the sessions agree, and taken from the box in order.

`Mailroom.Ok` is the invariant. It says that for every open connection the messages put for it are
those taken, then those in its box, then those in the queue; so what was taken is always a prefix
of what was put (`Mailroom.Ok.pre`). It is kept by every step, provided that a connection is only
opened under a session that no message on its way to the same slot carries.
-/

namespace Netflow

/-- A message taken by a slot, with the connection the slot served at that moment. -/
structure Taken (ι μ : Type) where
  slot : ι
  conn : Nat
  msg : μ

structure Mailroom (ι μ : Type) where
  opened : Nat
  conn : ι → Nat
  held : List μ
  queue : List μ
  box : ι → List μ
  put : List μ
  taken : List (Taken ι μ)

namespace Mailroom

section

variable {ι μ : Type} (slotOf : μ → ι) (connOf : μ → Nat) (W : Nat)

/-- The messages of a list that are for connection `n`. -/
def forConn (n : Nat) (ms : List μ) : List μ := ms.filter fun m => decide (connOf m = n)

/-- The messages taken by connection `n`. -/
def takenBy (s : Mailroom ι μ) (n : Nat) : List μ :=
  (s.taken.filter fun t => decide (t.conn = n)).map Taken.msg

/-- The message at the head of the queue is for the connection its slot now serves, as far as the
session tells. -/
def Accepts (s : Mailroom ι μ) (m : μ) : Prop :=
  s.conn (slotOf m) ≠ 0 ∧ connOf m % W = s.conn (slotOf m) % W

variable [DecidableEq ι]

/-- The steps. Messages in `held` may be abandoned at any step of their holder; a message is put
with the stamps it was obtained with. -/
inductive Step : Mailroom ι μ → Mailroom ι μ → Prop where
  | obtain (s : Mailroom ι μ) (m : μ) (hconn : connOf m = s.conn (slotOf m)) :
      Step s { s with held := m :: s.held }
  | abandon (s : Mailroom ι μ) (held' : List μ) (hheld : held' ⊆ s.held) :
      Step s { s with held := held' }
  | put (s : Mailroom ι μ) (m m' : μ) (held' : List μ) (hm : m ∈ s.held)
      (hslot : slotOf m' = slotOf m) (hconn : connOf m' = connOf m) (hheld : held' ⊆ s.held) :
      Step s { s with held := held', queue := s.queue ++ [m'], put := s.put ++ [m'] }
  | route (s : Mailroom ι μ) (m : μ) (rest : List μ) (hqueue : s.queue = m :: rest)
      (haccepts : Accepts slotOf connOf W s m) :
      Step s { s with
        queue := rest
        box := Function.update s.box (slotOf m) (s.box (slotOf m) ++ [m]) }
  | discard (s : Mailroom ι μ) (m : μ) (rest : List μ) (hqueue : s.queue = m :: rest)
      (haccepts : ¬ Accepts slotOf connOf W s m) : Step s { s with queue := rest }
  | take (s : Mailroom ι μ) (i : ι) (m : μ) (rest : List μ) (hbox : s.box i = m :: rest) :
      Step s { s with
        box := Function.update s.box i rest
        taken := s.taken ++ [{ slot := i, conn := s.conn i, msg := m }] }
  | close (s : Mailroom ι μ) (i : ι) :
      Step s { s with conn := Function.update s.conn i 0, box := Function.update s.box i [] }
  | open (s : Mailroom ι μ) (i : ι) (hclosed : s.conn i = 0)
      (hfresh : ∀ m ∈ s.held ++ s.queue, slotOf m = i → connOf m % W ≠ (s.opened + 1) % W) :
      Step s { s with
        opened := s.opened + 1
        conn := Function.update s.conn i (s.opened + 1) }

/-- The invariant. `msg_slot` and `msg_conn` say of a message on its way that the stamps it carries
tell the connection it is for from every other one served now. -/
structure Ok (s : Mailroom ι μ) : Prop where
  conn_le : ∀ i, s.conn i ≤ s.opened
  conn_inj : ∀ i j, s.conn i ≠ 0 → s.conn i = s.conn j → i = j
  msg_le : ∀ m ∈ s.held ++ s.queue, connOf m ≤ s.opened
  msg_slot : ∀ m ∈ s.held ++ s.queue, ∀ j, s.conn j ≠ 0 → connOf m = s.conn j → slotOf m = j
  msg_conn : ∀ m ∈ s.held ++ s.queue, Accepts slotOf connOf W s m → connOf m = s.conn (slotOf m)
  box_mine : ∀ i, ∀ m ∈ s.box i, s.conn i ≠ 0 ∧ connOf m = s.conn i ∧ slotOf m = i
  put_le : ∀ m ∈ s.put, connOf m ≤ s.opened
  taken_mine : ∀ t ∈ s.taken, t.conn ≠ 0 ∧ connOf t.msg = t.conn ∧ slotOf t.msg = t.slot
  flow : ∀ i, s.conn i ≠ 0 →
    forConn connOf (s.conn i) s.put =
      s.takenBy (s.conn i) ++ s.box i ++ forConn connOf (s.conn i) s.queue
  pre : ∀ n, s.takenBy n <+: forConn connOf n s.put

end

section

variable {ι μ : Type} {slotOf : μ → ι} {connOf : μ → Nat} {W : Nat}

theorem forConn_append (n : Nat) (ms ns : List μ) :
    forConn connOf n (ms ++ ns) = forConn connOf n ms ++ forConn connOf n ns :=
  List.filter_append ..

theorem forConn_cons_self {n : Nat} {m : μ} (ms : List μ) (h : connOf m = n) :
    forConn connOf n (m :: ms) = m :: forConn connOf n ms :=
  List.filter_cons_of_pos (decide_eq_true h)

theorem forConn_cons_of_ne {n : Nat} {m : μ} (ms : List μ) (h : connOf m ≠ n) :
    forConn connOf n (m :: ms) = forConn connOf n ms := by
  refine List.filter_cons_of_neg ?_
  rw [decide_eq_true_eq]
  exact h

theorem forConn_eq_nil {n : Nat} {ms : List μ} (h : ∀ m ∈ ms, connOf m < n) :
    forConn connOf n ms = [] := by
  refine List.filter_eq_nil_iff.mpr fun m hm => ?_
  rw [decide_eq_true_eq]
  exact Nat.ne_of_lt (h m hm)

/-- What connection `n` has taken once `t` was taken too. -/
theorem takenBy_append (s : Mailroom ι μ) (t : Taken ι μ) (n : Nat) :
    takenBy { s with taken := s.taken ++ [t] } n =
      s.takenBy n ++ if t.conn = n then [t.msg] else [] := by
  unfold takenBy
  rw [List.filter_append, List.map_append]
  by_cases h : t.conn = n
  · simp [h]
  · simp [h]

variable {s : Mailroom ι μ}

theorem Step.of_eq [DecidableEq ι] {s₁ s₂ : Mailroom ι μ} (h : Step slotOf connOf W s s₁)
    (heq : s₂ = s₁) : Step slotOf connOf W s s₂ := by
  rw [heq]
  exact h

theorem Step.opened_le [DecidableEq ι] {s₁ : Mailroom ι μ} (h : Step slotOf connOf W s s₁) :
    s.opened ≤ s₁.opened := by
  cases h with
  | «open» i hclosed hfresh => exact Nat.le_succ _
  | _ => exact Nat.le_refl _

theorem Ok.obtain (h : Ok slotOf connOf W s) {m : μ} (hconn : connOf m = s.conn (slotOf m)) :
    Ok slotOf connOf W { s with held := m :: s.held } := by
  refine { h with msg_le := ?_, msg_slot := ?_, msg_conn := ?_ }
  · intro x hx
    rcases List.mem_cons.mp hx with rfl | hx
    · rw [hconn]
      exact h.conn_le _
    · exact h.msg_le x hx
  · intro x hx j hj heq
    rcases List.mem_cons.mp hx with rfl | hx
    · rw [hconn] at heq
      exact (h.conn_inj j _ hj heq.symm).symm
    · exact h.msg_slot x hx j hj heq
  · intro x hx haccepts
    rcases List.mem_cons.mp hx with rfl | hx
    · exact hconn
    · exact h.msg_conn x hx haccepts

theorem Ok.abandon (h : Ok slotOf connOf W s) {held' : List μ} (hheld : held' ⊆ s.held) :
    Ok slotOf connOf W { s with held := held' } := by
  have hsub : held' ++ s.queue ⊆ s.held ++ s.queue := by
    intro x hx
    rcases List.mem_append.mp hx with hx | hx
    · exact List.mem_append_left _ (hheld hx)
    · exact List.mem_append_right _ hx
  exact { h with
    msg_le := fun x hx => h.msg_le x (hsub hx)
    msg_slot := fun x hx => h.msg_slot x (hsub hx)
    msg_conn := fun x hx => h.msg_conn x (hsub hx) }

theorem Ok.put (h : Ok slotOf connOf W s) {m m' : μ} {held' : List μ} (hm : m ∈ s.held)
    (hslot : slotOf m' = slotOf m) (hconn : connOf m' = connOf m) (hheld : held' ⊆ s.held) :
    Ok slotOf connOf W { s with held := held', queue := s.queue ++ [m'], put := s.put ++ [m'] } := by
  -- a message on its way was on its way before, or is `m'` with the stamps of `m`
  have hway : ∀ x ∈ held' ++ (s.queue ++ [m']), ∃ y ∈ s.held ++ s.queue,
      slotOf x = slotOf y ∧ connOf x = connOf y := by
    intro x hx
    rcases List.mem_append.mp hx with hx | hx
    · exact ⟨x, List.mem_append_left _ (hheld hx), rfl, rfl⟩
    rcases List.mem_append.mp hx with hx | hx
    · exact ⟨x, List.mem_append_right _ hx, rfl, rfl⟩
    · rw [List.mem_singleton.mp hx]
      exact ⟨m, List.mem_append_left _ hm, hslot, hconn⟩
  refine { h with msg_le := ?_, msg_slot := ?_, msg_conn := ?_, put_le := ?_, flow := ?_, pre := ?_ }
  · intro x hx
    obtain ⟨y, hy, -, hc⟩ := hway x hx
    rw [hc]
    exact h.msg_le y hy
  · intro x hx j hj heq
    obtain ⟨y, hy, hs, hc⟩ := hway x hx
    rw [hs]
    exact h.msg_slot y hy j hj (hc ▸ heq)
  · intro x hx haccepts
    obtain ⟨y, hy, hs, hc⟩ := hway x hx
    rw [hs, hc]
    refine h.msg_conn y hy ?_
    unfold Accepts at haccepts ⊢
    rw [hs, hc] at haccepts
    exact haccepts
  · intro x hx
    rcases List.mem_append.mp hx with hx | hx
    · exact h.put_le x hx
    · rw [List.mem_singleton.mp hx, hconn]
      exact h.msg_le m (List.mem_append_left _ hm)
  · intro i hi
    show forConn connOf (s.conn i) (s.put ++ [m']) = s.takenBy (s.conn i) ++ s.box i ++
      forConn connOf (s.conn i) (s.queue ++ [m'])
    rw [forConn_append, forConn_append, h.flow i hi, List.append_assoc]
  · intro n
    show s.takenBy n <+: forConn connOf n (s.put ++ [m'])
    rw [forConn_append]
    exact (h.pre n).trans (List.prefix_append _ _)

/-- What is left on its way when the head of the queue leaves it. -/
theorem mem_way_of_rest {m x : μ} {rest : List μ} (hqueue : s.queue = m :: rest)
    (hx : x ∈ s.held ++ rest) : x ∈ s.held ++ s.queue := by
  rw [hqueue]
  rcases List.mem_append.mp hx with hx | hx
  · exact List.mem_append_left _ hx
  · exact List.mem_append_right _ (List.mem_cons_of_mem _ hx)

theorem head_mem_way {m : μ} {rest : List μ} (hqueue : s.queue = m :: rest) :
    m ∈ s.held ++ s.queue := by
  rw [hqueue]
  exact List.mem_append_right _ List.mem_cons_self

theorem Ok.discard (h : Ok slotOf connOf W s) {m : μ} {rest : List μ} (hqueue : s.queue = m :: rest)
    (haccepts : ¬ Accepts slotOf connOf W s m) : Ok slotOf connOf W { s with queue := rest } := by
  refine { h with
    msg_le := fun x hx => h.msg_le x (mem_way_of_rest hqueue hx)
    msg_slot := fun x hx => h.msg_slot x (mem_way_of_rest hqueue hx)
    msg_conn := fun x hx => h.msg_conn x (mem_way_of_rest hqueue hx)
    flow := ?_ }
  intro i hi
  -- `m` is for no connection served now: it would have been accepted
  have hne : connOf m ≠ s.conn i := by
    intro heq
    have hslot := h.msg_slot m (head_mem_way hqueue) i hi heq
    apply haccepts
    rw [Accepts, hslot, heq]
    exact ⟨hi, rfl⟩
  have hflow := h.flow i hi
  rw [hqueue, forConn_cons_of_ne _ hne] at hflow
  exact hflow

variable [DecidableEq ι]

theorem Ok.route (h : Ok slotOf connOf W s) {m : μ} {rest : List μ} (hqueue : s.queue = m :: rest)
    (haccepts : Accepts slotOf connOf W s m) :
    Ok slotOf connOf W { s with
      queue := rest
      box := Function.update s.box (slotOf m) (s.box (slotOf m) ++ [m]) } := by
  have hway := head_mem_way hqueue
  have hconn := h.msg_conn m hway haccepts
  refine { h with
    msg_le := fun x hx => h.msg_le x (mem_way_of_rest hqueue hx)
    msg_slot := fun x hx => h.msg_slot x (mem_way_of_rest hqueue hx)
    msg_conn := fun x hx => h.msg_conn x (mem_way_of_rest hqueue hx)
    box_mine := ?_, flow := ?_ }
  · intro i x hx
    by_cases hi : i = slotOf m
    · simp only [hi, Function.update_self] at hx ⊢
      rcases List.mem_append.mp hx with hx | hx
      · exact h.box_mine _ x hx
      · rw [List.mem_singleton.mp hx]
        exact ⟨haccepts.1, hconn, rfl⟩
    · simp only [Function.update_of_ne hi] at hx
      exact h.box_mine i x hx
  · intro i hi
    have hflow := h.flow i hi
    rw [hqueue] at hflow
    show forConn connOf (s.conn i) s.put = s.takenBy (s.conn i) ++
      Function.update s.box (slotOf m) (s.box (slotOf m) ++ [m]) i ++ forConn connOf (s.conn i) rest
    by_cases hslot : i = slotOf m
    · subst hslot
      rw [forConn_cons_self _ hconn] at hflow
      rw [Function.update_self, hflow]
      simp only [List.append_assoc, List.singleton_append]
    · -- a message for another connection does not show in the flow of this one
      have hne : connOf m ≠ s.conn i := fun heq => hslot (h.msg_slot m hway i hi heq).symm
      rw [forConn_cons_of_ne _ hne] at hflow
      rw [Function.update_of_ne hslot, hflow]

theorem Ok.take (h : Ok slotOf connOf W s) {i : ι} {m : μ} {rest : List μ}
    (hbox : s.box i = m :: rest) :
    Ok slotOf connOf W { s with
      box := Function.update s.box i rest
      taken := s.taken ++ [{ slot := i, conn := s.conn i, msg := m }] } := by
  obtain ⟨hi, hconn, hslot⟩ := h.box_mine i m (by rw [hbox]; exact List.mem_cons_self)
  refine { h with box_mine := ?_, taken_mine := ?_, flow := ?_, pre := ?_ }
  · intro j x hx
    by_cases hj : j = i
    · subst hj
      simp only [Function.update_self] at hx
      exact h.box_mine j x (by rw [hbox]; exact List.mem_cons_of_mem _ hx)
    · simp only [Function.update_of_ne hj] at hx
      exact h.box_mine j x hx
  · intro t ht
    rcases List.mem_append.mp ht with ht | ht
    · exact h.taken_mine t ht
    · rw [List.mem_singleton.mp ht]
      exact ⟨hi, hconn, hslot⟩
  · intro j hj
    have htaken := takenBy_append s { slot := i, conn := s.conn i, msg := m } (s.conn j)
    show forConn connOf (s.conn j) s.put = takenBy { s with taken := _ } (s.conn j) ++
      Function.update s.box i rest j ++ forConn connOf (s.conn j) s.queue
    rw [htaken]
    by_cases hji : j = i
    · subst hji
      rw [h.flow j hj, hbox, if_pos rfl, Function.update_self]
      simp only [List.append_assoc, List.singleton_append]
    · -- the connections of two slots differ, so only the flow of `i` moves
      have hne : s.conn i ≠ s.conn j := fun heq => hji (h.conn_inj j i hj heq.symm)
      rw [h.flow j hj, if_neg hne, Function.update_of_ne hji, List.append_nil]
  · intro n
    show takenBy { s with taken := _ } n <+: forConn connOf n s.put
    rw [takenBy_append]
    by_cases hn : s.conn i = n
    · subst hn
      rw [if_pos rfl, h.flow i hi, hbox]
      simp only [List.append_assoc]
      exact List.prefix_append_right_inj _ |>.mpr (List.prefix_append _ _)
    · rw [if_neg hn, List.append_nil]
      exact h.pre n

theorem Ok.close (h : Ok slotOf connOf W s) (i : ι) :
    Ok slotOf connOf W { s with
      conn := Function.update s.conn i 0
      box := Function.update s.box i [] } := by
  -- a slot that still serves a connection is another one and is unchanged
  have hother : ∀ j, Function.update s.conn i 0 j ≠ 0 → j ≠ i := by
    rintro j hj rfl
    exact hj (Function.update_self ..)
  refine { h with
    conn_le := ?_, conn_inj := ?_, msg_slot := ?_, msg_conn := ?_, box_mine := ?_, flow := ?_ }
  · intro j
    by_cases hj : j = i
    · rw [hj]
      show Function.update s.conn i 0 i ≤ s.opened
      rw [Function.update_self]
      exact Nat.zero_le _
    · show Function.update s.conn i 0 j ≤ s.opened
      rw [Function.update_of_ne hj]
      exact h.conn_le j
  · intro j k hj heq
    have hji := hother j hj
    have hki := hother k fun hk => hj (heq.trans hk)
    simp only [Function.update_of_ne hji, Function.update_of_ne hki] at hj heq
    exact h.conn_inj j k hj heq
  · intro x hx j hj heq
    have hji := hother j hj
    simp only [Function.update_of_ne hji] at hj heq
    exact h.msg_slot x hx j hj heq
  · rintro x hx ⟨hopen, hsession⟩
    have hxi := hother _ hopen
    simp only [Function.update_of_ne hxi] at hopen hsession ⊢
    exact h.msg_conn x hx ⟨hopen, hsession⟩
  · intro j x hx
    by_cases hj : j = i
    · simp only [hj, Function.update_self] at hx
      cases hx
    · simp only [Function.update_of_ne hj] at hx ⊢
      exact h.box_mine j x hx
  · intro j hj
    have hji := hother j hj
    simp only [Function.update_of_ne hji] at hj ⊢
    exact h.flow j hj

theorem Ok.open (h : Ok slotOf connOf W s) {i : ι} (hclosed : s.conn i = 0)
    (hfresh : ∀ m ∈ s.held ++ s.queue, slotOf m = i → connOf m % W ≠ (s.opened + 1) % W) :
    Ok slotOf connOf W { s with
      opened := s.opened + 1
      conn := Function.update s.conn i (s.opened + 1) } := by
  refine { h with
    conn_le := ?_, conn_inj := ?_, msg_le := ?_, msg_slot := ?_, msg_conn := ?_, box_mine := ?_,
    put_le := ?_, flow := ?_ }
  · intro j
    by_cases hj : j = i
    · simp only [hj, Function.update_self, Nat.le_refl]
    · simp only [Function.update_of_ne hj]
      exact Nat.le_succ_of_le (h.conn_le j)
  · intro j k hj heq
    by_cases hji : j = i
    · -- the new number is larger than all that were given out before
      by_cases hki : k = i
      · rw [hji, hki]
      · simp only [hji, Function.update_self, Function.update_of_ne hki] at heq
        have := h.conn_le k
        omega
    · by_cases hki : k = i
      · simp only [hki, Function.update_self, Function.update_of_ne hji] at heq
        have := h.conn_le j
        omega
      · simp only [Function.update_of_ne hji, Function.update_of_ne hki] at hj heq
        exact h.conn_inj j k hj heq
  · intro x hx
    exact Nat.le_succ_of_le (h.msg_le x hx)
  · intro x hx j hj heq
    by_cases hji : j = i
    · -- no message is for the new connection yet
      simp only [hji, Function.update_self] at heq
      have := h.msg_le x hx
      omega
    · simp only [Function.update_of_ne hji] at hj heq
      exact h.msg_slot x hx j hj heq
  · rintro x hx ⟨hopen, hsession⟩
    by_cases hxi : slotOf x = i
    · simp only [hxi, Function.update_self] at hsession
      exact absurd hsession (hfresh x hx hxi)
    · simp only [Function.update_of_ne hxi] at hopen hsession ⊢
      exact h.msg_conn x hx ⟨hopen, hsession⟩
  · intro j x hx
    obtain ⟨hj, hconn, hslot⟩ := h.box_mine j x hx
    have hji : j ≠ i := by
      rintro rfl
      exact hj hclosed
    simp only [Function.update_of_ne hji]
    exact ⟨hj, hconn, hslot⟩
  · intro x hx
    exact Nat.le_succ_of_le (h.put_le x hx)
  · intro j hj
    by_cases hji : j = i
    · -- nothing was put for the new connection, taken by it, or is in its box or the queue
      have hput : forConn connOf (s.opened + 1) s.put = [] :=
        forConn_eq_nil fun x hx => Nat.lt_succ_of_le (h.put_le x hx)
      have htaken : s.takenBy (s.opened + 1) = [] := by
        have hpre := h.pre (s.opened + 1)
        rw [hput] at hpre
        exact List.prefix_nil.mp hpre
      have hqueue : forConn connOf (s.opened + 1) s.queue = [] :=
        forConn_eq_nil fun x hx => Nat.lt_succ_of_le (h.msg_le x (List.mem_append_right _ hx))
      have hbox : s.box i = [] := by
        refine List.eq_nil_iff_forall_not_mem.mpr fun x hx => ?_
        exact (h.box_mine i x hx).1 hclosed
      subst hji
      simp only [Function.update_self, takenBy] at htaken ⊢
      rw [hput, htaken, hqueue, hbox]
      rfl
    · simp only [Function.update_of_ne hji] at hj ⊢
      exact h.flow j hj

/-- Every step keeps the invariant. -/
theorem Ok.step {s' : Mailroom ι μ} (h : Ok slotOf connOf W s) (hs : Step slotOf connOf W s s') :
    Ok slotOf connOf W s' := by
  cases hs with
  | obtain m hconn => exact h.obtain hconn
  | abandon held' hheld => exact h.abandon hheld
  | put m m' held' hm hslot hconn hheld => exact h.put hm hslot hconn hheld
  | route m rest hqueue haccepts => exact h.route hqueue haccepts
  | discard m rest hqueue haccepts => exact h.discard hqueue haccepts
  | take i m rest hbox => exact h.take hbox
  | close i => exact h.close i
  | «open» i hclosed hfresh => exact h.open hclosed hfresh

end

end Mailroom

end Netflow
