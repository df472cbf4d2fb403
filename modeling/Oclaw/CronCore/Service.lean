import Mathlib.Data.List.Basic
import Mathlib.Data.Nat.Notation
import Oclaw.Lib.Text

/-!
# Cron jobs and the cron service

`types.rs`, `schedule.rs`, `backoff.rs` and `service.rs` of `crates/cron-core`, and
`is_due` of `scheduler.rs`. Every call of the service loads the job file, edits it
and saves it under one lock, so a call is one function on the list of jobs; file
operations succeed. Clock readings are arguments.

Counters are machine integers: `u32` for the consecutive errors and `u64` for the
rest. Additions that the source leaves unchecked wrap, as in a release build.
-/

namespace Oclaw.CronCore

open Oclaw.Lib (satAdd)

/-! ## §1  Jobs -/

/-- `CronScheduleKind`; its variant `At` is called `atTime`. -/
inductive CronScheduleKind : Type where
  | atTime (stamp : String)
  | every (everyMs : ℕ) (anchorMs : Option ℕ)
  | cron (expr : String) (tz : Option String)
deriving DecidableEq

structure CronDelivery : Type where
  channel : String
  target : String
  targetType : Option String
deriving DecidableEq

inductive CronPayloadKind : Type where
  | systemEvent (text : String)
  | agentTurn (message : String) (model : Option String) (timeoutSecs : Option ℕ)
      (channel : Option String)
deriving DecidableEq

structure CronJobState : Type where
  nextRunAtMs : Option ℕ
  lastRunAtMs : Option ℕ
  lastStatus : Option String
  lastError : Option String
  consecutiveErrors : ℕ
  runningSinceMs : Option ℕ
  totalRuns : ℕ
  totalErrors : ℕ
deriving DecidableEq

/-- `CronJobState::default()` -/
def CronJobState.default : CronJobState :=
  ⟨none, none, none, none, 0, none, 0, 0⟩

structure CronJob : Type where
  id : String
  name : String
  enabled : Bool
  schedule : CronScheduleKind
  payload : CronPayloadKind
  sessionTarget : String
  state : CronJobState
  createdAtMs : ℕ
  updatedAtMs : ℕ
  deleteAfterRun : Bool
  delivery : List CronDelivery
  maxRetries : Option ℕ
  timeoutSecs : Option ℕ
deriving DecidableEq

/-- `CronRunResult` without its delivery reports, which only the run log reads. -/
structure CronRunResult : Type where
  jobId : String
  output : String
  success : Bool
  durationMs : ℕ
deriving DecidableEq

structure CronJobPatch : Type where
  name : Option String
  enabled : Option Bool
  schedule : Option CronScheduleKind
deriving DecidableEq

/-! ## §2  Schedules -/

def u64Size : ℕ := 0x10000000000000000

def u32Size : ℕ := 0x100000000

/-- What the date and cron libraries answer, in milliseconds since the epoch. -/
structure Calendar : Type where
  /-- `DateTime::parse_from_rfc3339` -/
  parseFromRfc3339 : String → Option Int
  /-- `Schedule::from_str(expr)` and the first time of it after a given one. -/
  scheduleAfter : String → ℕ → Option Int

/-- No date is known to this calendar. -/
def Calendar.blank : Calendar := ⟨fun _ => none, fun _ _ => none⟩

/-- `i64 as u64` -/
def asU64 (i : Int) : ℕ := (i % (u64Size : Int)).toNat

def computeNextRun (cal : Calendar) (schedule : CronScheduleKind) (nowMs : ℕ) : Option ℕ :=
  match schedule with
  | .atTime stamp => do
      let ts := asU64 (← cal.parseFromRfc3339 stamp)
      if ts > nowMs then some ts else none
  | .every everyMs anchorMs =>
      let anchor := anchorMs.getD 0
      if everyMs = 0 then none
      else
        let elapsed := nowMs - anchor
        let periods := elapsed / everyMs
        let next := (anchor + (periods + 1) * everyMs) % u64Size
        if next ≤ nowMs then some ((next + everyMs) % u64Size) else some next
  | .cron expr _ => (cal.scheduleAfter expr nowMs).map asU64

def backoffSteps : List ℕ := [30000, 60000, 300000, 900000, 3600000]

def backoffDelayMs (consecutiveErrors : ℕ) : ℕ :=
  if consecutiveErrors = 0 then 0
  else backoffSteps.getD (min (consecutiveErrors - 1) (backoffSteps.length - 1)) 0

/-! ## §3  The service -/

/-- `jobs.iter().find(|j| j.id == id)` -/
def get (id : String) (jobs : List CronJob) : Option CronJob :=
  jobs.find? (fun j => j.id == id)

/-- `jobs.iter_mut().find(|j| j.id == id)` and the edit of the job it finds. -/
def edit (id : String) (f : CronJob → CronJob) : List CronJob → Except String (List CronJob)
  | [] => .error ("Job not found: " ++ id)
  | job :: jobs =>
      if job.id = id then .ok (f job :: jobs)
      else (edit id f jobs).map (fun rest => job :: rest)

def add (cal : Calendar) (job : CronJob) (nowMs : ℕ) (jobs : List CronJob) : List CronJob :=
  jobs ++ [{ job with
    createdAtMs := nowMs
    updatedAtMs := nowMs
    state := { job.state with nextRunAtMs := computeNextRun cal job.schedule nowMs } }]

def remove (id : String) (jobs : List CronJob) : Except String (List CronJob) :=
  let kept := jobs.filter (fun j => j.id != id)
  if kept.length = jobs.length then .error ("Job not found: " ++ id) else .ok kept

/-- The edit of `update`; it reads the clock once more for `updated_at_ms`. -/
def CronJob.patched (cal : Calendar) (patch : CronJobPatch) (nowMs : ℕ) (job : CronJob) :
    CronJob :=
  { job with
    name := patch.name.getD job.name
    enabled := patch.enabled.getD job.enabled
    schedule := patch.schedule.getD job.schedule
    state :=
      match patch.schedule with
      | some schedule => { job.state with nextRunAtMs := computeNextRun cal schedule nowMs }
      | none => job.state
    updatedAtMs := nowMs }

def update (cal : Calendar) (id : String) (patch : CronJobPatch) (nowMs : ℕ) :
    List CronJob → Except String (List CronJob) :=
  edit id (CronJob.patched cal patch nowMs)

def CronJob.marked (nowMs : ℕ) (job : CronJob) : CronJob :=
  { job with state := { job.state with runningSinceMs := some nowMs } }

/-- Mark a job as currently running (for stuck detection). -/
def markRunning (id : String) (nowMs : ℕ) : List CronJob → Except String (List CronJob) :=
  edit id (CronJob.marked nowMs)

/-- `job.max_retries.unwrap_or(5)` -/
def CronJob.retryBudget (job : CronJob) : ℕ := job.maxRetries.getD 5

/-- The state of a job after a failed run. -/
def CronJob.failedState (cal : Calendar) (output : String) (nowMs : ℕ) (job : CronJob) :
    CronJobState :=
  let consecutiveErrors := (job.state.consecutiveErrors + 1) % u32Size
  { job.state with
    lastRunAtMs := some nowMs
    runningSinceMs := none
    totalRuns := (job.state.totalRuns + 1) % u64Size
    lastStatus := some "error"
    lastError := some output
    consecutiveErrors := consecutiveErrors
    totalErrors := (job.state.totalErrors + 1) % u64Size
    nextRunAtMs :=
      -- Retry budget exhausted; keep disabled until manual trigger/reset.
      if consecutiveErrors ≥ job.retryBudget then none
      else
        let backoffDue := satAdd nowMs (backoffDelayMs consecutiveErrors)
        some (match computeNextRun cal job.schedule nowMs with
          | some next => max next backoffDue
          | none => backoffDue) }

/-- The state of a job after a successful run. -/
def CronJob.succeededState (cal : Calendar) (nowMs : ℕ) (job : CronJob) : CronJobState :=
  { job.state with
    lastRunAtMs := some nowMs
    runningSinceMs := none
    totalRuns := (job.state.totalRuns + 1) % u64Size
    lastStatus := some "ok"
    lastError := none
    consecutiveErrors := 0
    nextRunAtMs := computeNextRun cal job.schedule nowMs }

def CronJob.afterRun (cal : Calendar) (result : CronRunResult) (nowMs : ℕ) (job : CronJob) :
    CronJob :=
  { job with
    state :=
      if result.success then job.succeededState cal nowMs
      else job.failedState cal result.output nowMs
    updatedAtMs := nowMs }

/-- Update job state after a run completes. -/
def updateAfterRun (cal : Calendar) (id : String) (result : CronRunResult) (nowMs : ℕ) :
    List CronJob → Except String (List CronJob) :=
  edit id (CronJob.afterRun cal result nowMs)

def CronJob.triggered (job : CronJob) : CronJob :=
  { job with state := { job.state with nextRunAtMs := some 0 } }

/-- Manually trigger a job by resetting its next_run to now. -/
def trigger (id : String) : List CronJob → Except String (List CronJob) :=
  edit id CronJob.triggered

/-- Whether the scheduler starts a job of its snapshot. -/
def isDue (job : CronJob) (nowMs : ℕ) : Bool :=
  -- Skip jobs already running
  if job.state.runningSinceMs.isSome then false
  -- exhausted retries
  else if job.state.consecutiveErrors > 0 && job.state.consecutiveErrors ≥ job.retryBudget then
    false
  -- still in backoff window
  else if job.state.consecutiveErrors > 0 && job.state.lastRunAtMs.any (fun lastRun =>
      nowMs < (lastRun + backoffDelayMs job.state.consecutiveErrors) % u64Size) then
    false
  else
    match job.state.nextRunAtMs with
    | some next => nowMs ≥ next
    | none => false

/-- A call that fails saves nothing. -/
def saved (jobs : List CronJob) : Except String (List CronJob) → List CronJob
  | .ok jobs' => jobs'
  | .error _ => jobs

/-! ## §4  What the calls do to the job that an id names -/

section

variable {id : String} {f : CronJob → CronJob} {jobs jobs' : List CronJob} {job : CronJob}

theorem get_cons (job : CronJob) (jobs : List CronJob) :
    get id (job :: jobs) = if job.id = id then some job else get id jobs := by
  unfold get
  by_cases h : job.id = id <;> simp [h]

/-- An edit succeeds when the id names a job, and only then. -/
theorem edit_of_get (h : get id jobs = some job) : ∃ jobs', edit id f jobs = .ok jobs' := by
  induction jobs with
  | nil => cases h
  | cons head jobs ih =>
      rw [edit]
      by_cases hid : head.id = id
      · exact ⟨_, if_pos hid⟩
      · rw [get_cons, if_neg hid] at h
        obtain ⟨rest, hrest⟩ := ih h
        exact ⟨head :: rest, by rw [if_neg hid, hrest]; rfl⟩

theorem get_of_edit (h : edit id f jobs = .ok jobs') : ∃ job, get id jobs = some job := by
  induction jobs generalizing jobs' with
  | nil => cases h
  | cons head jobs ih =>
      rw [get_cons]
      by_cases hid : head.id = id
      · exact ⟨head, if_pos hid⟩
      · rw [if_neg hid]
        rw [edit, if_neg hid] at h
        cases hrest : edit id f jobs with
        | error e => rw [hrest] at h; cases h
        | ok rest => exact ih hrest

/-- **Spec of an edit.** It changes the job that the id names and no other. -/
theorem get_edit (hid : ∀ j, (f j).id = j.id) (h : edit id f jobs = .ok jobs') (id' : String) :
    get id' jobs' = (get id' jobs).map (fun j => if id' = id then f j else j) := by
  induction jobs generalizing jobs' with
  | nil => cases h
  | cons head jobs ih =>
      rw [edit] at h
      split at h
      · rename_i hhead
        cases h
        rw [get_cons, get_cons, hid]
        by_cases hid' : head.id = id'
        · simp [hid', ← hhead]
        · have hne : id' ≠ id := fun heq => hid' (hhead.trans heq.symm)
          simp [hid', hne]
      · rename_i hhead
        obtain ⟨rest, hrest, rfl⟩ : ∃ rest, edit id f jobs = .ok rest ∧ jobs' = head :: rest := by
          cases hrest : edit id f jobs with
          | error e => rw [hrest] at h; cases h
          | ok rest => rw [hrest] at h; cases h; exact ⟨rest, rfl, rfl⟩
        rw [get_cons, get_cons, ih hrest]
        by_cases hid' : head.id = id'
        · have hne : id' ≠ id := fun heq => hhead (hid'.trans heq)
          simp [hid', hne]
        · simp [hid']

theorem get_saved_edit {id' : String} (hid : ∀ j, (f j).id = j.id) (h : get id jobs = some job) :
    get id (saved jobs (edit id' f jobs)) = some (if id = id' then f job else job) := by
  cases hedit : edit id' f jobs with
  | ok jobs' =>
      rw [saved, get_edit hid hedit, h]
      rfl
  | error e =>
      -- the call named another id, or it would have found the job
      have hne : id ≠ id' := by
        rintro rfl
        obtain ⟨jobs', hok⟩ := edit_of_get (f := f) h
        rw [hok] at hedit
        cases hedit
      rw [saved, h, if_neg hne]

theorem get_add (cal : Calendar) {nowMs : ℕ} (h : get id jobs = some job) (new : CronJob) :
    get id (add cal new nowMs jobs) = some job := by
  unfold get add at *
  rw [List.find?_append, h]
  rfl

theorem get_remove (h : remove id jobs = .ok jobs') (id' : String) :
    get id' jobs' = if id' = id then none else get id' jobs := by
  simp only [remove] at h
  split at h
  · cases h
  · cases h
    unfold get
    rw [List.find?_filter]
    split
    · rename_i heq
      rw [List.find?_eq_none]
      intro j _
      simp [heq]
    · rename_i hne
      congr 1
      funext j
      by_cases hj : j.id = id'
      · simp [hj, hne]
      · simp [hj]

@[simp] theorem patched_id (cal : Calendar) (patch : CronJobPatch) (nowMs : ℕ) (j : CronJob) :
    (j.patched cal patch nowMs).id = j.id := rfl

@[simp] theorem marked_id (nowMs : ℕ) (j : CronJob) : (j.marked nowMs).id = j.id := rfl

@[simp] theorem afterRun_id (cal : Calendar) (result : CronRunResult) (nowMs : ℕ) (j : CronJob) :
    (j.afterRun cal result nowMs).id = j.id := rfl

@[simp] theorem triggered_id (j : CronJob) : j.triggered.id = j.id := rfl

end

end Oclaw.CronCore
