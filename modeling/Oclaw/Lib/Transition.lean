import Mathlib.Logic.Basic
import Mathlib.Data.List.Induction

/-!
# Runs of labelled step relations

A step relation relates a state, the label of one atomic step and the next
state. `Runs` is its finite runs, with the labels in the order in which the
steps were taken. Invariants are proved once, by `Runs.invariant`, from what a
single step preserves.

Executable machines resolve every choice of a step through an explicit input;
`exec` runs them on a list of inputs, and `runs_of_exec` turns such a
computation into a run of the induced relation.
-/

namespace Oclaw.Lib

variable {σ ε α : Type*}

/-- Finite runs from a fixed start state. The trace grows at its end, so the
last label belongs to the last step. -/
inductive Runs (step : σ → ε → σ → Prop) (s : σ) : List ε → σ → Prop where
  | nil : Runs step s [] s
  | snoc {tr : List ε} {t u : σ} {e : ε} :
      Runs step s tr t → step t e u → Runs step s (tr ++ [e]) u

namespace Runs

variable {step step' : σ → ε → σ → Prop} {s t u : σ} {tr tr' : List ε} {e : ε}

/-- A property of trace and state that holds at the start and that every step
from a reached state preserves holds after every run. -/
theorem invariant {P : List ε → σ → Prop} (hinit : P [] s)
    (hstep : ∀ {tr t e u}, Runs step s tr t → P tr t → step t e u →
      P (tr ++ [e]) u)
    (run : Runs step s tr t) : P tr t := by
  induction run with
  | nil => exact hinit
  | snoc run hst ih => exact hstep run ih hst

/-- Invariant rule for properties of the state alone. -/
theorem state_invariant {P : σ → Prop} (hinit : P s)
    (hstep : ∀ {t e u}, P t → step t e u → P u)
    (run : Runs step s tr t) : P t :=
  run.invariant (P := fun _ t => P t) hinit (fun _ => hstep)

/-- A run is a run of every relation that allows its steps. -/
theorem mono (run : Runs step s tr t)
    (himp : ∀ e ∈ tr, ∀ {s t}, step s e t → step' s e t) : Runs step' s tr t := by
  induction run with
  | nil => exact .nil
  | snoc _ hst ih =>
      refine (ih fun e he => himp e (List.mem_append_left _ he)).snoc ?_
      exact himp _ (by simp) hst

theorem single (h : step s e t) : Runs step s [e] t :=
  Runs.nil.snoc h

theorem append (run : Runs step s tr t) (run' : Runs step t tr' u) :
    Runs step s (tr ++ tr') u := by
  induction run' with
  | nil => simpa using run
  | snoc _ hst ih =>
      rw [← List.append_assoc]
      exact ih.snoc hst

/-- A run can be cut at any position of its trace. -/
theorem split : ∀ {tr tr' : List ε} {u : σ}, Runs step s (tr ++ tr') u →
    ∃ t, Runs step s tr t ∧ Runs step t tr' u := by
  intro tr tr'
  -- from the end of the trace, where runs grow
  induction tr' using List.reverseRecOn with
  | nil =>
      intro u run
      exact ⟨u, by simpa using run, .nil⟩
  | append_singleton tr' e ih =>
      intro u run
      rw [← List.append_assoc] at run
      generalize hw : (tr ++ tr') ++ [e] = w at run
      cases run with
      | nil => simp at hw
      | snoc run hst =>
          obtain ⟨hpre, hlast⟩ := List.append_inj' hw rfl
          cases hlast
          subst hpre
          obtain ⟨t, h₁, h₂⟩ := ih run
          exact ⟨t, h₁, h₂.snoc hst⟩

/-- The first step of a nonempty run. -/
theorem uncons {e : ε} (run : Runs step s (e :: tr) u) :
    ∃ t, step s e t ∧ Runs step t tr u := by
  obtain ⟨t, h₁, h₂⟩ := @split _ _ step s [e] tr u run
  generalize hw : [e] = w at h₁
  cases h₁ with
  | nil => simp at hw
  | @snoc pre mid _ _ run₀ hst =>
      obtain ⟨hpre, hlast⟩ := List.append_inj' (show [] ++ [e] = _ from hw) rfl
      cases hlast
      subst hpre
      generalize hz : ([] : List ε) = z at run₀
      cases run₀ with
      | nil => exact ⟨t, hst, h₂⟩
      | snoc _ _ => simp at hz

/-- The step at any position of the trace. -/
theorem step_at (run : Runs step s (tr ++ e :: tr') u) :
    ∃ t t', Runs step s tr t ∧ step t e t' := by
  obtain ⟨t, hpre, hpost⟩ := run.split
  obtain ⟨t', hstep, -⟩ := hpost.uncons
  exact ⟨t, t', hpre, hstep⟩

end Runs

/-- The relation a partial step function induces: some input makes the step. -/
def Induced (next : σ → α → Option (ε × σ)) (s : σ) (e : ε) (t : σ) : Prop :=
  ∃ a, next s a = some (e, t)

/-- Run a machine on a list of inputs; `none` when an input is refused. -/
def exec (next : σ → α → Option (ε × σ)) : σ → List α → Option (List ε × σ)
  | s, [] => some ([], s)
  | s, a :: as =>
      match next s a with
      | none => none
      | some (e, t) => (exec next t as).map (fun p => (e :: p.1, p.2))

theorem runs_of_exec {next : σ → α → Option (ε × σ)} :
    ∀ {as : List α} {s t : σ} {tr : List ε}, exec next s as = some (tr, t) →
      Runs (Induced next) s tr t
  | [], s, t, tr, h => by
      simp only [exec, Option.some.injEq, Prod.mk.injEq] at h
      obtain ⟨rfl, rfl⟩ := h
      exact .nil
  | a :: as, s, t, tr, h => by
      simp only [exec] at h
      split at h
      · cases h
      · rename_i e m hst
        obtain ⟨⟨tr', t'⟩, hrest, heq⟩ := Option.map_eq_some_iff.mp h
        cases heq
        exact (Runs.single ⟨a, hst⟩).append (runs_of_exec hrest)

/-- The run that a successful computation describes. -/
theorem runs_of_exec_isSome {next : σ → α → Option (ε × σ)} {s : σ} (as : List α)
    (h : (exec next s as).isSome = true) :
    Runs (Induced next) s ((exec next s as).get h).1 ((exec next s as).get h).2 :=
  runs_of_exec (Option.some_get h).symm

/-! ## Runs whose steps all meet a condition -/

/-- The steps that meet a condition on the state before them and their label. -/
def StepWhere (step : σ → ε → σ → Prop) (C : σ → ε → Prop) (s : σ) (e : ε) (t : σ) : Prop :=
  step s e t ∧ C s e

/-- The machine that refuses the steps that do not meet the condition. -/
def nextWhere (next : σ → α → Option (ε × σ)) (C : σ → ε → Prop) [∀ s e, Decidable (C s e)]
    (s : σ) (a : α) : Option (ε × σ) :=
  (next s a).filter (fun p => decide (C s p.1))

theorem runs_where_of_exec {next : σ → α → Option (ε × σ)} {C : σ → ε → Prop}
    [∀ s e, Decidable (C s e)] {s : σ} (as : List α)
    (h : (exec (nextWhere next C) s as).isSome = true) :
    Runs (StepWhere (Induced next) C) s ((exec (nextWhere next C) s as).get h).1
      ((exec (nextWhere next C) s as).get h).2 := by
  refine (runs_of_exec_isSome as h).mono ?_
  rintro e - s t ⟨a, hnext⟩
  obtain ⟨hstep, hC⟩ := Option.filter_eq_some_iff.mp hnext
  exact ⟨⟨a, hstep⟩, of_decide_eq_true hC⟩

end Oclaw.Lib
