import Oclaw.CronCore.Service
import Mathlib.Data.List.Induction

/-!
# Retries of a cron job

The life of one job under any sequence of service calls. `history` reads off the
calls what the outside knows about the job (whether a run of it is open, when the
last failed run ended), and `Retrying` ties the stored counters to it. The backoff
and the retry budget are encoded twice in the source, in `update_after_run` and in
`is_due`; both are compared with the history here.
-/

namespace Oclaw.CronCore

open Oclaw.Lib (satAdd usizeMax)

/-! ## §1  Sequences of calls -/

inductive CronCall : Type where
  | add (job : CronJob)
  | remove (id : String)
  | update (id : String) (patch : CronJobPatch)
  | markRunning (id : String)
  | updateAfterRun (id : String) (result : CronRunResult)
  | trigger (id : String)
deriving DecidableEq

def CronCall.run (cal : Calendar) (nowMs : ℕ) (jobs : List CronJob) :
    CronCall → Except String (List CronJob)
  | .add job => .ok (CronCore.add cal job nowMs jobs)
  | .remove id => CronCore.remove id jobs
  | .update id patch => CronCore.update cal id patch nowMs jobs
  | .markRunning id => CronCore.markRunning id nowMs jobs
  | .updateAfterRun id result => CronCore.updateAfterRun cal id result nowMs jobs
  | .trigger id => CronCore.trigger id jobs

/-- The store after a sequence of calls, each with the clock it reads. -/
def service (cal : Calendar) (jobs : List CronJob) (calls : List (ℕ × CronCall)) :
    List CronJob :=
  calls.foldl (fun jobs c => saved jobs (c.2.run cal c.1 jobs)) jobs

theorem service_snoc (cal : Calendar) (jobs : List CronJob) (calls : List (ℕ × CronCall))
    (c : ℕ × CronCall) :
    service cal jobs (calls ++ [c]) =
      saved (service cal jobs calls) (c.2.run cal c.1 (service cal jobs calls)) := by
  simp [service, List.foldl_append]

/-- What a call does to the job that `id` names. -/
def CronCall.effect (cal : Calendar) (nowMs : ℕ) (id : String) (job : CronJob) :
    CronCall → CronJob
  | .add _ => job
  | .remove _ => job
  | .update id' patch => if id = id' then job.patched cal patch nowMs else job
  | .markRunning id' => if id = id' then job.marked nowMs else job
  | .updateAfterRun id' result => if id = id' then job.afterRun cal result nowMs else job
  | .trigger id' => if id = id' then job.triggered else job

/-- **Calls act on the job that an id names.** -/
theorem get_call (cal : Calendar) {nowMs : ℕ} {id : String} {jobs : List CronJob} {job : CronJob}
    {c : CronCall} (h : get id jobs = some job) (hkeep : c ≠ .remove id) :
    get id (saved jobs (c.run cal nowMs jobs)) = some (c.effect cal nowMs id job) := by
  cases c with
  | add new => exact get_add cal h new
  | remove id' =>
      have hne : id ≠ id' := by
        rintro rfl
        exact hkeep rfl
      show get id (saved jobs (remove id' jobs)) = some job
      cases hrem : remove id' jobs with
      | ok jobs' => rw [saved, get_remove hrem, if_neg hne, h]
      | error e => exact h
  | update id' patch => exact get_saved_edit (fun _ => rfl) h
  | markRunning id' => exact get_saved_edit (fun _ => rfl) h
  | updateAfterRun id' result => exact get_saved_edit (fun _ => rfl) h
  | trigger id' => exact get_saved_edit (fun _ => rfl) h

/-! ## §2  The history of a job -/

/-- What the calls say about one job: whether it is between `mark_running` and
`update_after_run`, when its last failed run was recorded, and its runs so far. -/
structure RunHistory : Type where
  inRun : Bool
  lastFailed : Option ℕ
  runs : ℕ

def RunHistory.after (id : String) (h : RunHistory) (c : ℕ × CronCall) : RunHistory :=
  match c.2 with
  | .markRunning id' => if id = id' then { h with inRun := true } else h
  | .updateAfterRun id' result =>
      if id = id' then
        { inRun := false
          lastFailed := if result.success then h.lastFailed else some c.1
          runs := h.runs + 1 }
      else h
  | _ => h

def history (id : String) (calls : List (ℕ × CronCall)) : RunHistory :=
  calls.foldl (RunHistory.after id) ⟨false, none, 0⟩

theorem history_snoc (id : String) (calls : List (ℕ × CronCall)) (c : ℕ × CronCall) :
    history id (calls ++ [c]) = (history id calls).after id c := by
  simp [history, List.foldl_append]

/-- A failed run was recorded at the time of one of the calls. -/
theorem lastFailed_mem {id : String} {calls : List (ℕ × CronCall)} {t : ℕ}
    (h : (history id calls).lastFailed = some t) : t ∈ calls.map Prod.fst := by
  induction calls using List.reverseRecOn with
  | nil => cases h
  | append_singleton calls c ih =>
      rw [List.map_append, List.mem_append]
      rw [history_snoc] at h
      unfold RunHistory.after at h
      split at h
      · split at h <;> exact .inl (ih h)
      · split at h
        · simp only at h
          split at h
          · exact .inl (ih h)
          · cases h
            exact .inr (by simp)
        · exact .inl (ih h)
      · exact .inl (ih h)

/-! ## §3  Counters -/

/-- Every consecutive error is an error, and every error a run. -/
def CronJobState.Consistent (st : CronJobState) : Prop :=
  st.totalErrors ≤ st.totalRuns ∧ st.consecutiveErrors ≤ st.totalErrors

instance (st : CronJobState) : Decidable st.Consistent :=
  inferInstanceAs (Decidable (_ ∧ _))

/-- The stored state of a job agrees with its history. -/
structure Retrying (first : ℕ) (h : RunHistory) (st : CronJobState) : Prop where
  consistent : st.Consistent
  runs : st.totalRuns = first + h.runs
  failed : ∀ t, h.lastFailed = some t → 0 < st.consecutiveErrors → st.lastRunAtMs = some t
  running : h.inRun = true → st.runningSinceMs.isSome = true

/-- What a change of the next run time keeps. -/
theorem Retrying.reschedule {first : ℕ} {h : RunHistory} {st : CronJobState}
    (hr : Retrying first h st) (next : Option ℕ) :
    Retrying first h { st with nextRunAtMs := next } :=
  ⟨hr.consistent, hr.runs, hr.failed, hr.running⟩

/-- The runs are counted without wrapping while there is room for one more. -/
theorem Retrying.totalRuns_succ {first : ℕ} {h : RunHistory} {st : CronJobState}
    (hr : Retrying first h st) (hroom : first + h.runs + 1 < u64Size) :
    (st.totalRuns + 1) % u64Size = first + (h.runs + 1) := by
  rw [hr.runs, Nat.mod_eq_of_lt hroom, Nat.add_assoc]

theorem Retrying.succeeded (cal : Calendar) {first : ℕ} {h : RunHistory} {job : CronJob}
    (hr : Retrying first h job.state) (hroom : first + h.runs + 1 < u64Size) (nowMs : ℕ) :
    Retrying first ⟨false, h.lastFailed, h.runs + 1⟩ (job.succeededState cal nowMs) := by
  obtain ⟨herrors, hconsecutive⟩ := hr.consistent
  have hold := hr.runs
  have hruns := hr.totalRuns_succ hroom
  constructor
  · exact ⟨by simp only [CronJob.succeededState, hruns]; omega, Nat.zero_le _⟩
  · exact hruns
  · intro t _ hpos
    exact absurd hpos (Nat.lt_irrefl 0)
  · intro hrun
    cases hrun

theorem Retrying.recordFailure (cal : Calendar) {first : ℕ} {h : RunHistory} {job : CronJob}
    (hr : Retrying first h job.state) (hroom : first + h.runs + 1 < u64Size) (output : String)
    (nowMs : ℕ) :
    Retrying first ⟨false, some nowMs, h.runs + 1⟩ (job.failedState cal output nowMs) := by
  obtain ⟨herrors, hconsecutive⟩ := hr.consistent
  have hold := hr.runs
  have hruns := hr.totalRuns_succ hroom
  have htotal : (job.state.totalErrors + 1) % u64Size = job.state.totalErrors + 1 := by
    apply Nat.mod_eq_of_lt
    omega
  -- the consecutive errors may wrap to zero, the totals may not
  have hwrap : (job.state.consecutiveErrors + 1) % u32Size ≤ job.state.consecutiveErrors + 1 :=
    Nat.mod_le _ _
  constructor
  · constructor
    · simp only [CronJob.failedState, hruns, htotal]
      omega
    · simp only [CronJob.failedState, htotal]
      omega
  · exact hruns
  · rintro t ⟨⟩ _
    rfl
  · intro hrun
    cases hrun

/-- **One call keeps the counters and the history in step.** -/
theorem Retrying.call (cal : Calendar) {first : ℕ} {h : RunHistory} {id : String} {job : CronJob}
    (hr : Retrying first h job.state) (c : ℕ × CronCall)
    (hroom : first + (h.after id c).runs < u64Size) :
    Retrying first (h.after id c) (c.2.effect cal c.1 id job).state := by
  obtain ⟨nowMs, c⟩ := c
  cases c with
  | add new => exact hr
  | remove id' => exact hr
  | update id' patch =>
      show Retrying first h (if id = id' then job.patched cal patch nowMs else job).state
      split
      · simp only [CronJob.patched]
        split
        · exact hr.reschedule _
        · exact hr
      · exact hr
  | markRunning id' =>
      simp only [RunHistory.after, CronCall.effect]
      split
      · exact ⟨hr.consistent, hr.runs, hr.failed, fun _ => rfl⟩
      · exact hr
  | updateAfterRun id' result =>
      simp only [RunHistory.after, CronCall.effect] at hroom ⊢
      split
      · rename_i heq
        rw [if_pos heq] at hroom
        simp only [CronJob.afterRun]
        cases result.success with
        | true => exact hr.succeeded cal hroom nowMs
        | false => exact hr.recordFailure cal hroom result.output nowMs
      · exact hr
  | trigger id' =>
      show Retrying first h (if id = id' then job.triggered else job).state
      split
      · exact hr.reschedule _
      · exact hr

/-! ## §4  Backoff and budget -/

/-- Readings of the system clock: milliseconds since 1970 in an `i64`, none earlier
than the one before it. -/
def Clock (times : List ℕ) : Prop :=
  times.Pairwise (· ≤ ·) ∧ ∀ t ∈ times, t < 0x8000000000000000

theorem backoffDelayMs_le (n : ℕ) : backoffDelayMs n ≤ 3600000 := by
  unfold backoffDelayMs
  split
  · exact Nat.zero_le _
  · have hsteps : ∀ k < 5, backoffSteps.getD k 0 ≤ 3600000 := by decide
    exact hsteps _ (Nat.lt_succ_of_le (Nat.min_le_right _ _))

/-- A failed run clears the next run time exactly when the budget is used up, and
otherwise leaves the backoff in front of it. -/
theorem failedState_next (cal : Calendar) (job : CronJob) (output : String) {nowMs : ℕ}
    (hnow : nowMs < 0x8000000000000000) :
    ((job.failedState cal output nowMs).nextRunAtMs = none ↔
      job.retryBudget ≤ (job.failedState cal output nowMs).consecutiveErrors) ∧
    ∀ next, (job.failedState cal output nowMs).nextRunAtMs = some next →
      nowMs + backoffDelayMs (job.failedState cal output nowMs).consecutiveErrors ≤ next := by
  simp only [CronJob.failedState]
  generalize (job.state.consecutiveErrors + 1) % u32Size = n
  have hdue : satAdd nowMs (backoffDelayMs n) = nowMs + backoffDelayMs n := by
    have hle := backoffDelayMs_le n
    unfold satAdd usizeMax
    omega
  constructor
  · split <;> simp_all
  · intro next hnext
    split at hnext
    · cases hnext
    · cases hnext
      rw [hdue]
      split
      · exact Nat.le_max_right _ _
      · exact Nat.le_refl _

/-- **What a due job is.** It is not marked as running, its budget is not used up
by errors, and its backoff window is over. -/
theorem due_facts {job : CronJob} {nowMs : ℕ} (h : isDue job nowMs = true) :
    job.state.runningSinceMs = none ∧
    (0 < job.state.consecutiveErrors → job.state.consecutiveErrors < job.retryBudget) ∧
    (0 < job.state.consecutiveErrors → ∀ lastRun, job.state.lastRunAtMs = some lastRun →
      (lastRun + backoffDelayMs job.state.consecutiveErrors) % u64Size ≤ nowMs) := by
  unfold isDue at h
  split at h
  · cases h
  · rename_i hrunning
    split at h
    · cases h
    · rename_i hbudget
      split at h
      · cases h
      · rename_i hwindow
        refine ⟨by simpa using hrunning, ?_, ?_⟩
        · intro hpos
          simpa [hpos] using hbudget
        · intro hpos lastRun hlast
          simpa [hpos, hlast] using hwindow

/-! ## §5  The whole life of a job -/

/-- The state of a job after any calls that do not remove it. -/
theorem exists_retrying (cal : Calendar) {store : List CronJob} {job : CronJob} (start : ℕ)
    {calls : List (ℕ × CronCall)} (hnew : get job.id store = none)
    (hcount : job.state.Consistent) (hkeep : ∀ c ∈ calls, c.2 ≠ .remove job.id)
    (hroom : job.state.totalRuns + (history job.id calls).runs < u64Size) :
    ∃ j, get job.id (service cal (add cal job start store) calls) = some j ∧
      Retrying job.state.totalRuns (history job.id calls) j.state := by
  induction calls using List.reverseRecOn with
  | nil =>
      have hget : get job.id (add cal job start store) = some
          { job with
            createdAtMs := start
            updatedAtMs := start
            state := { job.state with
              nextRunAtMs := computeNextRun cal job.schedule start } } := by
        unfold get add at *
        rw [List.find?_append, hnew]
        simp
      exact ⟨_, hget, hcount, rfl, by simp [history], by simp [history]⟩
  | append_singleton calls c ih =>
      rw [history_snoc] at hroom ⊢
      have hruns : (history job.id calls).runs ≤ ((history job.id calls).after job.id c).runs := by
        unfold RunHistory.after
        split <;> (try split) <;> simp
      obtain ⟨j, hget, hr⟩ := ih (fun c' hc' => hkeep c' (List.mem_append_left _ hc')) (by omega)
      refine ⟨c.2.effect cal c.1 job.id j, ?_, hr.call cal c hroom⟩
      rw [service_snoc]
      exact get_call cal hget (hkeep c (by simp))

/-- The state right after a failed run is the one `update_after_run` computes. -/
theorem get_after_failure (cal : Calendar) {store : List CronJob} {id : String}
    {before : List (ℕ × CronCall)} {t : ℕ} {result : CronRunResult} {j : CronJob}
    (hfail : result.success = false)
    (hget : get id (service cal store (before ++ [(t, .updateAfterRun id result)])) = some j) :
    ∃ j₀ : CronJob, j.state = j₀.failedState cal result.output t ∧
      j.retryBudget = j₀.retryBudget := by
  rw [service_snoc] at hget
  cases hrun : updateAfterRun cal id result t (service cal store before) with
  | ok jobs' =>
      rw [CronCall.run, hrun, saved, get_edit (afterRun_id cal result t) hrun] at hget
      obtain ⟨j₀, -, hj⟩ := Option.map_eq_some_iff.mp hget
      rw [if_pos rfl] at hj
      subst hj
      exact ⟨j₀, by simp [CronJob.afterRun, hfail], rfl⟩
  | error e =>
      rw [CronCall.run, hrun, saved] at hget
      obtain ⟨jobs', hok⟩ := edit_of_get (f := CronJob.afterRun cal result t) hget
      rw [updateAfterRun, hok] at hrun
      cases hrun

/-- **The retry state machine.** For a job that is added under a new id with
consistent counters, after every sequence of calls on a non-decreasing clock that
neither removes the job nor counts past the last `u64`: the counters are
consistent; after a failed run there is no next run exactly when the budget is used
up, and otherwise none before the backoff; and the job is due only while no run of
it is open, behind the backoff window of its last failed run, and with errors left
in its budget if it has any. -/
theorem retry_state_machine (cal : Calendar) (store : List CronJob) (job : CronJob)
    (start now : ℕ) (calls : List (ℕ × CronCall)) (hnew : get job.id store = none)
    (hcount : job.state.Consistent) (hkeep : ∀ c ∈ calls, c.2 ≠ .remove job.id)
    (hclock : Clock (start :: calls.map Prod.fst ++ [now]))
    (hroom : job.state.totalRuns + (history job.id calls).runs < u64Size) :
    ∃ j, get job.id (service cal (add cal job start store) calls) = some j ∧
      j.state.Consistent ∧
      (∀ before t result, calls = before ++ [(t, .updateAfterRun job.id result)] →
        result.success = false →
        (j.state.nextRunAtMs = none ↔ j.retryBudget ≤ j.state.consecutiveErrors) ∧
        ∀ next, j.state.nextRunAtMs = some next →
          t + backoffDelayMs j.state.consecutiveErrors ≤ next) ∧
      (isDue j now = true →
        (history job.id calls).inRun = false ∧
        (∀ t, (history job.id calls).lastFailed = some t →
          t + backoffDelayMs j.state.consecutiveErrors ≤ now) ∧
        (0 < j.state.consecutiveErrors → j.state.consecutiveErrors < j.retryBudget)) := by
  obtain ⟨j, hget, hr⟩ := exists_retrying cal start hnew hcount hkeep hroom
  obtain ⟨horder, hrange⟩ := hclock
  refine ⟨j, hget, hr.consistent, ?_, ?_⟩
  · rintro before t result rfl hfail
    obtain ⟨j₀, hstate, hbudget⟩ := get_after_failure cal hfail hget
    rw [hstate, hbudget]
    exact failedState_next cal j₀ result.output (hrange t (by simp))
  · intro hdue
    obtain ⟨hrunning, hbudget, hwindow⟩ := due_facts hdue
    refine ⟨?_, ?_, hbudget⟩
    · rw [← Bool.not_eq_true]
      intro hopen
      have hsome := hr.running hopen
      rw [hrunning] at hsome
      cases hsome
    · intro t hfailed
      have ht : t ∈ calls.map Prod.fst := lastFailed_mem hfailed
      have hle : t ≤ now :=
        (List.pairwise_append.mp horder).2.2 t (List.mem_cons_of_mem _ ht) now (by simp)
      rcases Nat.eq_zero_or_pos j.state.consecutiveErrors with hzero | hpos
      · -- a success since then has closed the window
        rw [hzero]
        exact hle
      · have hlast := hwindow hpos t (hr.failed t hfailed hpos)
        have hsmall := hrange t (by simp [ht])
        have hdelay := backoffDelayMs_le j.state.consecutiveErrors
        rwa [Nat.mod_eq_of_lt (by unfold u64Size; omega)] at hlast

/-- A job that runs every minute. -/
def minuteJob (state : CronJobState) (maxRetries : Option ℕ) : CronJob :=
  { id := "digest", name := "Digest", enabled := true, schedule := .every 60000 none
    payload := .systemEvent "digest", sessionTarget := "main", state := state
    createdAtMs := 0, updatedAtMs := 0, deleteAfterRun := false, delivery := []
    maxRetries := maxRetries, timeoutSecs := none }

def failedResult : CronRunResult := ⟨"digest", "no route to host", false, 12⟩

/-- Two failures in a row put the job off by the second backoff step. -/
theorem digest_backs_off :
    ∃ j, get "digest" (service .blank (add .blank (minuteJob .default none) 1000 [])
      [(61000, .markRunning "digest"), (62000, .updateAfterRun "digest" failedResult),
        (121000, .markRunning "digest"), (122000, .updateAfterRun "digest" failedResult)]) =
        some j ∧ j.state.Consistent ∧ (isDue j 180000 = true → False) := by
  obtain ⟨j, hget, hcount, -, hdue⟩ :=
    retry_state_machine .blank [] (minuteJob .default none) 1000 180000
      [(61000, .markRunning "digest"), (62000, .updateAfterRun "digest" failedResult),
        (121000, .markRunning "digest"), (122000, .updateAfterRun "digest" failedResult)]
      rfl (by decide) (by decide) (by unfold Clock; decide) (by decide)
  refine ⟨j, hget, hcount, fun h => ?_⟩
  have hwindow := (hdue h).2.1 122000 (by decide)
  have hj : j.state.consecutiveErrors = 2 := by
    have hcompute := congrArg (Option.map (fun j => j.state.consecutiveErrors)) hget
    exact (Option.some.inj ((by decide : some 2 = _).trans hcompute)).symm
  rw [hj] at hwindow
  exact absurd hwindow (by decide)

/-- Clients choose the counters of the jobs they add, and a `u64` wraps: the first
job enters with more errors than runs, the second loses its runs when they wrap, and
the third is due although it has used up a budget of zero. -/
theorem client_counters :
    (∃ j, get "digest" (service .blank (add .blank
        (minuteJob { CronJobState.default with totalErrors := 1 } none) 1000 []) []) = some j ∧
      ¬ j.state.totalErrors ≤ j.state.totalRuns) ∧
    (∃ j, get "digest" (service .blank (add .blank (minuteJob
        { CronJobState.default with totalErrors := 1, totalRuns := 0xFFFFFFFFFFFFFFFF } none)
          1000 []) [(62000, .updateAfterRun "digest" ⟨"digest", "ok", true, 9⟩)]) = some j ∧
      ¬ j.state.totalErrors ≤ j.state.totalRuns) ∧
    ∃ j, get "digest" (service .blank (add .blank
        (minuteJob .default (some 0)) 1000 []) []) = some j ∧
      j.retryBudget ≤ j.state.consecutiveErrors ∧ isDue j 60000 = true := by
  refine ⟨⟨_, rfl, by decide⟩, ⟨_, rfl, by decide⟩, ⟨_, rfl, by decide, by decide⟩⟩

end Oclaw.CronCore
