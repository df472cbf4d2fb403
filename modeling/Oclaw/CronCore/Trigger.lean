import Oclaw.CronCore.Retry

/-!
# Manual triggers

`trigger` of `crates/cron-core/src/service.rs` sets the next run time of a job and nothing
else, and `is_due` looks at the error counter before it looks at the next run time. So a
trigger makes a job due exactly when neither the budget nor the backoff holds it back.
-/

namespace Oclaw.CronCore

variable {cal : Calendar} {id : String} {job : CronJob} {nowMs t : ℕ}

/-- The calls that neither mark the job as running nor update nor remove it. -/
def CronCall.leaves (id : String) : CronCall → Prop
  | .add _ => True
  | .remove id' => id' ≠ id
  | .update id' _ => id' ≠ id
  | .markRunning id' => id' ≠ id
  | .updateAfterRun id' _ => id' ≠ id
  | .trigger _ => True

/-- No error stands against the job, or its budget has room and its backoff is over. -/
def CronJob.OutOfBackoff (job : CronJob) (nowMs : ℕ) : Prop :=
  job.state.consecutiveErrors = 0 ∨
    (job.state.consecutiveErrors < job.retryBudget ∧
      ∀ lastRun, job.state.lastRunAtMs = some lastRun →
        (lastRun + backoffDelayMs job.state.consecutiveErrors) % u64Size ≤ nowMs)

theorem CronJob.OutOfBackoff.mono (h : job.OutOfBackoff nowMs) (ht : nowMs ≤ t) :
    job.OutOfBackoff t := by
  rcases h with hnone | ⟨hroom, hover⟩
  · exact Or.inl hnone
  · exact Or.inr ⟨hroom, fun lastRun hlast => Nat.le_trans (hover lastRun hlast) ht⟩

/-- **When a triggered job is due.** -/
theorem isDue_triggered_iff (hidle : job.state.runningSinceMs = none) :
    isDue job.triggered t = true ↔ job.OutOfBackoff t := by
  constructor
  · intro hdue
    obtain ⟨-, hroom, hover⟩ := due_facts hdue
    rcases Nat.eq_zero_or_pos job.state.consecutiveErrors with hnone | hpos
    · exact Or.inl hnone
    · exact Or.inr ⟨hroom hpos, hover hpos⟩
  · rintro (hnone | ⟨hroom, hover⟩)
    · simp [isDue, CronJob.triggered, hidle, hnone]
    · have hbudget : ¬ job.retryBudget ≤ job.state.consecutiveErrors := Nat.not_le.mpr hroom
      have hwindow : job.state.lastRunAtMs.any (fun lastRun =>
          t < (lastRun + backoffDelayMs job.state.consecutiveErrors) % u64Size) = false := by
        cases hlast : job.state.lastRunAtMs with
        | none => rfl
        | some lastRun => simpa using hover lastRun hlast
      have hbudget' : ¬ job.triggered.retryBudget ≤ job.state.consecutiveErrors := hbudget
      simp [isDue, CronJob.triggered, hidle, hwindow] at hbudget' ⊢
      omega

/-- A call that leaves a triggered job alone leaves it triggered. -/
theorem effect_triggered {c : CronCall} (hc : c.leaves id) :
    c.effect cal nowMs id job.triggered = job.triggered := by
  cases c with
  | add new => rfl
  | remove id' => rfl
  | update id' patch => exact if_neg (Ne.symm hc)
  | markRunning id' => exact if_neg (Ne.symm hc)
  | updateAfterRun id' result => exact if_neg (Ne.symm hc)
  | trigger id' =>
      show (if id = id' then job.triggered.triggered else job.triggered) = job.triggered
      split <;> rfl

/-- What the store holds after a trigger and any calls that leave the job alone. -/
theorem get_after_trigger {store : List CronJob} (hget : get id store = some job)
    {later : List (ℕ × CronCall)} (hleave : ∀ c ∈ later, c.2.leaves id) :
    get id (service cal store ((nowMs, .trigger id) :: later)) = some job.triggered := by
  induction later using List.reverseRecOn with
  | nil =>
      show get id (saved store (trigger id store)) = some job.triggered
      have hcall := @get_call cal nowMs id store job (.trigger id) hget (by simp)
      rw [CronCall.effect, if_pos rfl] at hcall
      exact hcall
  | append_singleton later c ih =>
      have hc : c.2.leaves id := hleave c (by simp)
      have hkeep : c.2 ≠ .remove id := by
        intro hremove
        rw [hremove] at hc
        exact hc rfl
      have hbefore := ih fun c' hc' => hleave c' (List.mem_append_left _ hc')
      rw [← List.cons_append, service_snoc, get_call cal hbefore hkeep, effect_triggered hc]

/-- **Manual triggers.** A trigger makes an idle job due from then on, whatever calls are
made that neither mark it as running nor update nor remove it, exactly when no error stands
against the job or its budget has room and its backoff is over. -/
theorem due_after_trigger_iff (cal : Calendar) (store : List CronJob) (id : String)
    (job : CronJob) (nowMs : ℕ) (hget : get id store = some job)
    (hidle : job.state.runningSinceMs = none) :
    (∀ later : List (ℕ × CronCall), (∀ c ∈ later, c.2.leaves id) → ∀ t, nowMs ≤ t →
      ∃ j, get id (service cal store ((nowMs, .trigger id) :: later)) = some j ∧
        isDue j t = true) ↔
    job.OutOfBackoff nowMs := by
  constructor
  · intro hall
    obtain ⟨j, hj, hdue⟩ := hall [] (by simp) nowMs (Nat.le_refl _)
    rw [get_after_trigger hget (by simp)] at hj
    cases hj
    exact (isDue_triggered_iff hidle).mp hdue
  · intro hout later hleave t ht
    exact ⟨job.triggered, get_after_trigger hget hleave,
      (isDue_triggered_iff hidle).mpr (hout.mono ht)⟩

/-- The digest job with one attempt, which fails. -/
def exhaustedDigest : List (ℕ × CronCall) :=
  [(1000, .add (minuteJob .default (some 1))), (61000, .markRunning "digest"),
    (62000, .updateAfterRun "digest" failedResult)]

/-- A failure an hour ago leaves room in the budget of five. -/
theorem digest_due_again :
    ∃ store, store = service .blank []
        [(1000, .add (minuteJob .default none)), (61000, .markRunning "digest"),
          (62000, .updateAfterRun "digest" failedResult)] ∧
      ∀ later : List (ℕ × CronCall), (∀ c ∈ later, c.2.leaves "digest") → ∀ t, 3662000 ≤ t →
        ∃ j, get "digest" (service .blank store ((3662000, .trigger "digest") :: later)) =
          some j ∧ isDue j t = true :=
  ⟨_, rfl, (due_after_trigger_iff .blank _ "digest" _ 3662000 rfl rfl).mpr
    (Or.inr ⟨by decide, fun lastRun hlast => by cases hlast; decide⟩)⟩

/-- The retry budget of an enabled, idle job is used up, and the trigger that should make
it run again does not. -/
theorem exhausted_stays_off :
    ∃ j, get "digest" (service .blank [] exhaustedDigest) = some j ∧ j.enabled = true ∧
      j.state.runningSinceMs = none ∧
      ∃ j', get "digest" (service .blank []
        (exhaustedDigest ++ [(122000, .trigger "digest")])) = some j' ∧
        isDue j' 999999999 = false := by
  refine ⟨_, rfl, rfl, rfl, _, rfl, ?_⟩
  decide

end Oclaw.CronCore
