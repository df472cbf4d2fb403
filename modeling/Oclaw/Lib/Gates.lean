import Mathlib.Data.Nat.Notation
import Mathlib.Logic.Function.Basic
import Mathlib.Data.Option.Basic

/-!
# Gates

A gate lets one task in at a time, and there is one for each key. What a task holds is read
off its stage. The gates are guarded when they know the tasks that are inside, which the
four ways to move a task preserve; then no two tasks are inside the same gate.
-/

namespace Oclaw.Lib

variable {K S : Type*}

/-- The gate that a task is inside of. -/
def gateOf (tasks : ℕ → Option S) (holds : S → Option K) (t : ℕ) : Option K :=
  (tasks t).bind holds

/-- `holder` names the task inside each gate. -/
def Guarded (holder : K → Option ℕ) (tasks : ℕ → Option S) (holds : S → Option K) : Prop :=
  ∀ k t, holder k = some t ↔ gateOf tasks holds t = some k

variable {holder : K → Option ℕ} {tasks : ℕ → Option S} {holds : S → Option K} {t t' : ℕ}
  {k : K} {s : S} {o : Option S}

theorem gateOf_of_task (ht : tasks t = some s) : gateOf tasks holds t = holds s := by
  simp [gateOf, ht]

theorem gateOf_update_self : gateOf (Function.update tasks t o) holds t = o.bind holds := by
  simp [gateOf]

theorem gateOf_update_of_ne (h : t' ≠ t) :
    gateOf (Function.update tasks t o) holds t' = gateOf tasks holds t' := by
  simp [gateOf, Function.update_of_ne h]

namespace Guarded

theorem empty : Guarded (fun _ : K => none) (fun _ => none) holds := by
  intro k t
  simp [gateOf]

theorem alone (h : Guarded holder tasks holds) (ht : gateOf tasks holds t = some k)
    (ht' : gateOf tasks holds t' = some k) : t = t' := by
  have hheld := (h k t).mpr ht
  rw [(h k t').mpr ht'] at hheld
  exact (Option.some.inj hheld).symm

/-- A task that neither enters nor leaves. -/
theorem stay (h : Guarded holder tasks holds) (ho : o.bind holds = gateOf tasks holds t) :
    Guarded holder (Function.update tasks t o) holds := by
  intro k t'
  by_cases heq : t' = t
  · subst heq
    rw [gateOf_update_self, ho]
    exact h k t'
  · rw [gateOf_update_of_ne heq]
    exact h k t'

theorem keep (h : Guarded holder tasks holds) (ht : tasks t = some s)
    (ho : o.bind holds = holds s) : Guarded holder (Function.update tasks t o) holds :=
  h.stay (ho.trans (gateOf_of_task ht).symm)

variable [DecidableEq K]

theorem enter (h : Guarded holder tasks holds) (hout : gateOf tasks holds t = none)
    (hfree : holder k = none) (ho : o.bind holds = some k) :
    Guarded (Function.update holder k (some t)) (Function.update tasks t o) holds := by
  intro k' t'
  by_cases hk : k' = k
  · subst hk
    rw [Function.update_self]
    by_cases heq : t' = t
    · subst heq
      simp [gateOf_update_self, ho]
    · rw [gateOf_update_of_ne heq, ← h k' t', hfree]
      simp [Ne.symm heq]
  · rw [Function.update_of_ne hk]
    by_cases heq : t' = t
    · subst heq
      rw [gateOf_update_self, ho, h k' t', hout]
      simp [Ne.symm hk]
    · rw [gateOf_update_of_ne heq]
      exact h k' t'

theorem leave (h : Guarded holder tasks holds) (hin : gateOf tasks holds t = some k)
    (ho : o.bind holds = none) :
    Guarded (Function.update holder k none) (Function.update tasks t o) holds := by
  intro k' t'
  by_cases heq : t' = t
  · subst heq
    rw [gateOf_update_self, ho]
    by_cases hk : k' = k
    · simp [hk]
    · rw [Function.update_of_ne hk, h k' t', hin]
      simp [Ne.symm hk]
  · rw [gateOf_update_of_ne heq]
    by_cases hk : k' = k
    · subst hk
      rw [Function.update_self]
      constructor
      · intro hnone
        cases hnone
      · intro hin'
        exact absurd (h.alone hin' hin) heq
    · rw [Function.update_of_ne hk]
      exact h k' t'

end Guarded

/-- The gates after the task has gone, wherever it was. -/
def freeGate [DecidableEq K] (holder : K → Option ℕ) : Option K → K → Option ℕ
  | some k => Function.update holder k none
  | none => holder

theorem Guarded.gone [DecidableEq K] (h : Guarded holder tasks holds) (ho : o.bind holds = none) :
    Guarded (freeGate holder (gateOf tasks holds t)) (Function.update tasks t o) holds := by
  cases hgate : gateOf tasks holds t with
  | none => exact h.stay (ho.trans hgate.symm)
  | some k => exact h.leave hgate ho

end Oclaw.Lib
