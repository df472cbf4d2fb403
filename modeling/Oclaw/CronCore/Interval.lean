import Mathlib.Algebra.Order.Ring.Nat
import Mathlib.Order.Bounds.Basic
import Oclaw.CronCore.Service

/-!
# Fixed intervals

The branch `Every` of `compute_next_run` against the times it stands for: an anchor and
the multiples of an interval after it. The branch is right from the anchor on. Before
the anchor it counts the first interval, too, and so leaves the anchor out.
-/

namespace Oclaw.CronCore

/-! ## §1  Times at a fixed distance -/

section Terms

variable {anchor every now t : ℕ}

/-- The times `anchor + k * every` that are after `now`. -/
def termsAfter (anchor every now : ℕ) : Set ℕ := {t | ∃ k, t = anchor + k * every ∧ now < t}

theorem isLeast_anchor (h : now < anchor) : IsLeast (termsAfter anchor every now) anchor := by
  constructor
  · exact ⟨0, by omega, h⟩
  · rintro t ⟨k, rfl, -⟩
    exact Nat.le_add_right _ _

/-- From the anchor on, the first term after `now` is one interval after the last that is
not. -/
theorem isLeast_next (hevery : 0 < every) (h : anchor ≤ now) :
    IsLeast (termsAfter anchor every now) (anchor + ((now - anchor) / every + 1) * every) := by
  constructor
  · refine ⟨_, rfl, ?_⟩
    have hlt := Nat.lt_mul_div_succ (now - anchor) hevery
    rw [Nat.mul_comm] at hlt
    omega
  · rintro t ⟨k, rfl, hafter⟩
    have hlt : (now - anchor) / every < k := by
      rw [Nat.div_lt_iff_lt_mul hevery]
      omega
    exact Nat.add_le_add_left (Nat.mul_le_mul_right every hlt) anchor

end Terms

/-! ## §2  The computation without wrapping -/

/-- An addition or a multiplication of `u64` that must not overflow. -/
def inU64 (n : ℕ) : Option ℕ := if n < u64Size then some n else none

/-- The branch `Every` of `compute_next_run`, given up at the first intermediate value that
does not fit. -/
def nextEveryChecked (everyMs anchor nowMs : ℕ) : Option ℕ := do
  let elapsed := nowMs - anchor
  let periods := elapsed / everyMs
  let count ← inU64 (periods + 1)
  let span ← inU64 (count * everyMs)
  let next ← inU64 (anchor + span)
  if next ≤ nowMs then inU64 (next + everyMs) else some next

section

variable {everyMs anchor nowMs n t : ℕ}

theorem inU64_of_lt (h : n < u64Size) : inU64 n = some n := if_pos h

theorem inU64_eq_some : inU64 n = some t ↔ n < u64Size ∧ n = t := by
  unfold inU64
  split <;> simp [*]

/-- Where nothing overflows, wrapping makes no difference. -/
theorem computeNextRun_of_checked (cal : Calendar) {anchorMs : Option ℕ} (hevery : 0 < everyMs)
    (h : nextEveryChecked everyMs (anchorMs.getD 0) nowMs = some t) :
    computeNextRun cal (.every everyMs anchorMs) nowMs = some t := by
  simp only [nextEveryChecked, Option.bind_eq_bind, Option.bind_eq_some_iff, inU64_eq_some] at h
  obtain ⟨count, ⟨-, rfl⟩, span, ⟨-, rfl⟩, next, ⟨hfits, rfl⟩, hnext⟩ := h
  rw [computeNextRun]
  simp only [Nat.ne_of_gt hevery, if_false, Nat.mod_eq_of_lt hfits]
  split at hnext
  · rename_i hle
    obtain ⟨hfits', rfl⟩ := inU64_eq_some.mp hnext
    rw [if_pos hle, Nat.mod_eq_of_lt hfits']
  · rename_i hgt
    rw [if_neg hgt, Option.some.inj hnext]

/-- From the anchor on, nothing overflows on the way to a result that fits. -/
theorem nextEveryChecked_of_le (hevery : 0 < everyMs) (h : anchor ≤ nowMs)
    (hfits : anchor + ((nowMs - anchor) / everyMs + 1) * everyMs < u64Size) :
    nextEveryChecked everyMs anchor nowMs =
      some (anchor + ((nowMs - anchor) / everyMs + 1) * everyMs) := by
  obtain ⟨-, -, hafter⟩ := (isLeast_next hevery h).1
  have hcount : (nowMs - anchor) / everyMs + 1 ≤ ((nowMs - anchor) / everyMs + 1) * everyMs :=
    Nat.le_mul_of_pos_right _ hevery
  unfold nextEveryChecked
  simp only [Option.bind_eq_bind]
  rw [inU64_of_lt (by omega), Option.bind_some, inU64_of_lt (by omega), Option.bind_some,
    inU64_of_lt hfits, Option.bind_some, if_neg (by omega)]

/-- Before the anchor, the branch never gives the anchor. -/
theorem nextEveryChecked_ne_anchor (hevery : 0 < everyMs) (h : nowMs < anchor) :
    nextEveryChecked everyMs anchor nowMs ≠ some anchor := by
  intro hnext
  simp only [nextEveryChecked, Option.bind_eq_bind, Option.bind_eq_some_iff, inU64_eq_some,
    Nat.sub_eq_zero_of_le (Nat.le_of_lt h), Nat.zero_div, Nat.zero_add] at hnext
  obtain ⟨count, ⟨-, rfl⟩, span, ⟨-, rfl⟩, next, ⟨-, rfl⟩, hnext⟩ := hnext
  rw [Nat.one_mul, if_neg (by omega), Option.some.injEq] at hnext
  omega

end

/-! ## §3  What the schedule gives -/

/-- The first term after `now`, if it fits, is what the schedule gives, and no intermediate
value overflows. -/
def GivesFirstAfter (cal : Calendar) (everyMs : ℕ) (anchorMs : Option ℕ) (nowMs : ℕ) : Prop :=
  ∀ first, IsLeast (termsAfter (anchorMs.getD 0) everyMs nowMs) first → first < u64Size →
    computeNextRun cal (.every everyMs anchorMs) nowMs = some first ∧
    (nextEveryChecked everyMs (anchorMs.getD 0) nowMs).isSome = true

end Oclaw.CronCore
