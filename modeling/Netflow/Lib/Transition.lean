import Mathlib.Logic.Basic
import Mathlib.Data.List.Basic

set_option autoImplicit false

/-! # Guarded runs of a partial step function

A system is a partial step function `step : σ → α → Option σ`: `none` means that the action is
not possible in the state. `Reach step C s₀ s` says that `s` is reached from `s₀` by steps each
of which meets the guard `C` in the state it starts from. The guard `AnyStep` gives all runs.

The rules are the induction rule for invariants, weakening of the guard, the run of a part of the
system, and the passage from an executed list of actions to a run. `Run` keeps the steps of a run, for
what is said about each of them.
-/

namespace Netflow

section Runs

variable {σ α : Type} (step : σ → α → Option σ)

/-- The guard every step meets. -/
def AnyStep : σ → α → Prop := fun _ _ => True

/-- The states reached from `s₀` by steps that meet the guard `C`. -/
inductive Reach (C : σ → α → Prop) (s₀ : σ) : σ → Prop where
  | start : Reach C s₀ s₀
  | next {s s' : σ} {a : α} :
      Reach C s₀ s → C s a → step s a = some s' → Reach C s₀ s'

/-- A run with its steps, each with the state before and after it. -/
inductive Run (C : σ → α → Prop) (s₀ : σ) : List (σ × α × σ) → σ → Prop where
  | start : Run C s₀ [] s₀
  | next {steps : List (σ × α × σ)} {s s' : σ} {a : α} :
      Run C s₀ steps s → C s a → step s a = some s' → Run C s₀ (steps ++ [(s, a, s')]) s'

variable {step} {C D : σ → α → Prop} {s₀ s s' : σ}

/-- **Induction over a run**: what holds at the start and is preserved by every step that meets
the guard holds in every state reached. -/
theorem Reach.invariant {P : σ → Prop} (h : Reach step C s₀ s) (h0 : P s₀)
    (hstep : ∀ s a s', P s → C s a → step s a = some s' → P s') : P s := by
  induction h with
  | start => exact h0
  | next _ hC hs ih => exact hstep _ _ _ ih hC hs

/-- Runs under a guard are runs under any weaker guard. -/
theorem Reach.mono (h : Reach step C s₀ s) (hCD : ∀ s a, C s a → D s a) :
    Reach step D s₀ s := by
  induction h with
  | start => exact Reach.start
  | next _ hC hs ih => exact ih.next (hCD _ _ hC) hs

theorem Reach.any (h : Reach step C s₀ s) : Reach step AnyStep s₀ s :=
  h.mono (fun _ _ _ => trivial)

/-- A guard may be strengthened along a run by a property every reached state has. -/
theorem Reach.strengthen {P : σ → Prop} (h : Reach step C s₀ s)
    (hP : ∀ s, Reach step C s₀ s → P s) :
    Reach step (fun s a => C s a ∧ P s) s₀ s := by
  induction h with
  | start => exact Reach.start
  | next hr hC hs ih => exact ih.next ⟨hC, hP _ hr⟩ hs

theorem Reach.trans {s₁ : σ} (h : Reach step C s₀ s₁) (h' : Reach step C s₁ s) :
    Reach step C s₀ s := by
  induction h' with
  | start => exact h
  | next _ hC hs ih => exact ih.next hC hs

/-- **A part of a system**: when each step does to the part what a step of its own does, or nothing,
runs of the system are runs of the part. -/
theorem Reach.image {τ β : Type} {part : τ → β → Option τ} {D : τ → β → Prop} (f : σ → τ)
    (h : Reach step C s₀ s)
    (hstep : ∀ s a s', C s a → step s a = some s' →
      f s' = f s ∨ ∃ b, D (f s) b ∧ part (f s) b = some (f s')) :
    Reach part D (f s₀) (f s) := by
  induction h with
  | start => exact Reach.start
  | next _ hC hs ih =>
      obtain hsame | ⟨b, hD, hb⟩ := hstep _ _ _ hC hs
      · rw [hsame]
        exact ih
      · exact ih.next hD hb

/-- **Steps of a run**: each of them starts in a reached state and meets the guard. -/
theorem Run.of_mem {steps : List (σ × α × σ)} (h : Run step C s₀ steps s) {t t' : σ} {a : α}
    (hmem : (t, a, t') ∈ steps) : Reach step C s₀ t ∧ C t a ∧ step t a = some t' := by
  suffices hboth : Reach step C s₀ s ∧
      ((t, a, t') ∈ steps → Reach step C s₀ t ∧ C t a ∧ step t a = some t') from hboth.2 hmem
  clear hmem
  induction h with
  | start => exact ⟨Reach.start, fun hmem => by cases hmem⟩
  | next _ hC hs ih =>
      refine ⟨ih.1.next hC hs, fun hmem => ?_⟩
      rcases List.mem_append.mp hmem with hmem | hmem
      · exact ih.2 hmem
      · cases List.mem_singleton.mp hmem
        exact ⟨ih.1, hC, hs⟩

theorem Run.mono {steps : List (σ × α × σ)} (h : Run step C s₀ steps s)
    (hCD : ∀ s a, C s a → D s a) : Run step D s₀ steps s := by
  induction h with
  | start => exact .start
  | next _ hC hs ih => exact ih.next (hCD _ _ hC) hs

/-- A reached state ends a run. -/
theorem Reach.run (h : Reach step C s₀ s) : ∃ steps, Run step C s₀ steps s := by
  induction h with
  | start => exact ⟨[], .start⟩
  | next _ hC hs ih =>
      obtain ⟨steps, hrun⟩ := ih
      exact ⟨_, hrun.next hC hs⟩

/-- **What every step decides**: when a step keeps `P` exactly if it meets `G` and no step brings `P`
back, a run from a state with `P` ends with `P` exactly if all its steps meet `G`. -/
theorem Run.forall_iff {P : σ → Prop} {G : σ → α → Prop} {steps : List (σ × α × σ)}
    (h : Run step C s₀ steps s) (h0 : P s₀)
    (hstep : ∀ s a s', Reach step C s₀ s → C s a → step s a = some s' → (P s' ↔ P s ∧ G s a)) :
    P s ↔ ∀ t ∈ steps, G t.1 t.2.1 := by
  suffices hboth : Reach step C s₀ s ∧ (P s ↔ ∀ t ∈ steps, G t.1 t.2.1) from hboth.2
  induction h with
  | start =>
      refine ⟨Reach.start, fun _ t ht => ?_, fun _ => h0⟩
      cases ht
  | next _ hC hs ih =>
      refine ⟨ih.1.next hC hs, ?_⟩
      rw [hstep _ _ _ ih.1 hC hs, ih.2]
      simp only [List.mem_append, List.mem_singleton, or_imp, forall_and, forall_eq]

/-- Executing a list of actions; `none` when one of them is not possible. -/
def execAll (step : σ → α → Option σ) : List α → σ → Option σ
  | [], s => some s
  | a :: as, s => (step s a).bind (execAll step as)

/-- An executed list of actions is a run under a guard that the actions meet in every state. -/
theorem reach_of_execAll_of {as : List α} (hC : ∀ a ∈ as, ∀ s, C s a)
    (h : execAll step as s₀ = some s) : Reach step C s₀ s := by
  induction as generalizing s₀ with
  | nil =>
      cases h
      exact Reach.start
  | cons a as ih =>
      simp only [execAll, Option.bind_eq_some_iff] at h
      obtain ⟨s₁, h1, h2⟩ := h
      have hfirst : Reach step C s₀ s₁ := Reach.start.next (hC a List.mem_cons_self s₀) h1
      exact hfirst.trans (ih (fun a ha => hC a (List.mem_cons_of_mem _ ha)) h2)

/-- An executed list of actions is a run. -/
theorem reach_of_execAll {as : List α} (h : execAll step as s₀ = some s) :
    Reach step AnyStep s₀ s :=
  reach_of_execAll_of (fun _ _ _ => trivial) h

end Runs

end Netflow
