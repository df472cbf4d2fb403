import Oclaw.CronCore.RunLog
import Oclaw.CronCore.Scheduler

/-!
# One execution of a job

`execute_job` of `scheduler.rs` from the marking of the job to the last event, with its
deliveries and its line of the run log. What other calls do to the store between the
marking and the result, the answers of the executor, the clock readings and the outcome
of the log write belong to the surroundings. A panic ends the call where it happens.
-/

namespace Oclaw.CronCore

open Oclaw.Lib

/-! ## §1  The call -/

/-- Cron lifecycle events that an execution broadcasts. -/
inductive CronEvent : Type where
  | jobStarted (jobId : String) (timestampMs : ℕ)
  | jobCompleted (jobId : String) (durationMs : ℕ) (success : Bool)
  | jobFailed (jobId error : String) (consecutive : ℕ)

/-- The store of the service, the files of the run log and the events sent. -/
structure CronWorld : Type where
  jobs : List CronJob
  files : Files
  events : List CronEvent

structure Surroundings : Type where
  markedMs : ℕ
  turn : TurnEnd
  durationMs : ℕ
  /-- What other calls leave of the store until the result of this one is recorded. -/
  meanwhile : List CronJob → List CronJob
  /-- `executor.deliver`, by the number of the delivery. -/
  deliver : ℕ → Except String Unit
  loggedMs : ℕ
  /-- The files that a failed write of the run log leaves; `none` if the write succeeds. -/
  brokenLog : Option Files
  recordedMs : ℕ

/-- How a call of `execute_job` ends. -/
inductive Finish : Type where
  | unmarked
  | panicked
  | returned

def deliveryResult (d : CronDelivery) : Except String Unit → DeliveryResult
  | .ok () => ⟨d.channel, d.target, true, none⟩
  | .error e => ⟨d.channel, d.target, false, some e⟩

/-- Deliver to all targets, after a success only. -/
def deliveries (env : Surroundings) (job : CronJob) (success : Bool) : List DeliveryResult :=
  if success then job.delivery.mapIdx (fun k d => deliveryResult d (env.deliver k)) else []

/-- Write run log; a failure is reported and does not end the call. -/
def writeLog (log : RunLog) (env : Surroundings) (jobId : String) (entry : RunLogEntry)
    (files : Files) : Files :=
  match env.brokenLog with
  | some broken => broken
  | none => log.append jobId files entry

/-- Update job state, and delete if one-shot. -/
def recordRun (cal : Calendar) (job : CronJob) (result : CronRunResult) (nowMs : ℕ)
    (jobs : List CronJob) : List CronJob :=
  let jobs := saved jobs (updateAfterRun cal job.id result nowMs jobs)
  if job.deleteAfterRun then saved jobs (remove job.id jobs) else jobs

/-- Broadcast event; a failure tells the consecutive errors of the job, read again. -/
def finalEvent (result : CronRunResult) (jobs : List CronJob) : CronEvent :=
  if result.success then .jobCompleted result.jobId result.durationMs true
  else .jobFailed result.jobId result.output
    (((get result.jobId jobs).map (fun j => j.state.consecutiveErrors)).getD 0)

def executeJob (cal : Calendar) (log : RunLog) (env : Surroundings) (job : CronJob)
    (w : CronWorld) : CronWorld × Finish :=
  match markRunning job.id env.markedMs w.jobs with
  | .error _ => (w, .unmarked)
  | .ok marked =>
      let jobs := env.meanwhile marked
      let started := w.events ++ [.jobStarted job.id env.markedMs]
      let result := runResult job env.turn env.durationMs
      match RunLog.truncatePreview result.output with
      | none => (⟨jobs, w.files, started⟩, .panicked)
      | some preview =>
          let entry : RunLogEntry :=
            { timestampMs := env.loggedMs
              status := if result.success then "ok" else "error"
              durationMs := env.durationMs
              outputPreview := preview
              error := if result.success then none else some result.output
              deliveries := deliveries env job result.success }
          let jobs := recordRun cal job result env.recordedMs jobs
          (⟨jobs, writeLog log env job.id entry w.files, started ++ [finalEvent result jobs]⟩,
            .returned)

/-! ## §2  Previews -/

/-- The preview of a text can be taken. -/
def Previewable (s : String) : Prop :=
  byteLen s.toList ≤ outputPreviewMax ∨ isCharBoundary s.toList outputPreviewMax = true

instance Previewable.decidable (s : String) : Decidable (Previewable s) :=
  inferInstanceAs (Decidable (_ ∨ _))

/-- A long text is cut where a character ends, or not at all. -/
theorem truncatePreview_isSome_iff (s : String) :
    (RunLog.truncatePreview s).isSome = true ↔ Previewable s := by
  unfold RunLog.truncatePreview Previewable
  split
  · rename_i hle
    exact iff_of_true rfl (Or.inl hle)
  · rename_i hlong
    rw [Option.isSome_map, strTo, Option.isSome_map, isCharBoundary_iff, or_iff_right hlong,
      Option.isSome_iff_exists, Prod.exists]

/-! ## §3  What a call leaves of the store -/

section

variable {cal : Calendar} {log : RunLog} {env : Surroundings} {job before : CronJob}
variable {w : CronWorld} {marked jobs : List CronJob} {result : CronRunResult} {nowMs : ℕ}

theorem executeJob_returned (hmark : markRunning job.id env.markedMs w.jobs = .ok marked)
    (h : Previewable (runResult job env.turn env.durationMs).output) :
    (executeJob cal log env job w).2 = .returned ∧
    (executeJob cal log env job w).1.jobs =
      recordRun cal job (runResult job env.turn env.durationMs) env.recordedMs
        (env.meanwhile marked) := by
  obtain ⟨preview, hpreview⟩ :=
    Option.isSome_iff_exists.mp ((truncatePreview_isSome_iff _).mpr h)
  simp [executeJob, hmark, hpreview]

/-- A panic leaves the job as it was marked. -/
theorem executeJob_panicked (hmark : markRunning job.id env.markedMs w.jobs = .ok marked)
    (h : ¬ Previewable (runResult job env.turn env.durationMs).output) :
    (executeJob cal log env job w).2 = .panicked ∧
    (executeJob cal log env job w).1.jobs = env.meanwhile marked := by
  have hpreview : RunLog.truncatePreview (runResult job env.turn env.durationMs).output = none := by
    rw [← Option.not_isSome_iff_eq_none, truncatePreview_isSome_iff]
    exact h
  simp [executeJob, hmark, hpreview]

theorem afterRun_totalRuns : (before.afterRun cal result nowMs).state.totalRuns =
    (before.state.totalRuns + 1) % u64Size := by
  unfold CronJob.afterRun
  cases result.success <;> rfl

theorem afterRun_runningSinceMs :
    (before.afterRun cal result nowMs).state.runningSinceMs = none := by
  unfold CronJob.afterRun
  cases result.success <;> rfl

/-- **Spec of the recording.** A one-shot job is gone, another one has its run counted. -/
theorem get_recordRun (h : get job.id jobs = some before) :
    get job.id (recordRun cal job result nowMs jobs) =
      if job.deleteAfterRun then none else some (before.afterRun cal result nowMs) := by
  have hupdated : get job.id (saved jobs (updateAfterRun cal job.id result nowMs jobs)) =
      some (before.afterRun cal result nowMs) := by
    refine (get_saved_edit (afterRun_id cal result nowMs) h).trans ?_
    rw [if_pos rfl]
  unfold recordRun
  cases job.deleteAfterRun with
  | false => exact hupdated
  | true =>
      simp only [if_true]
      cases hremove : remove job.id (saved jobs (updateAfterRun cal job.id result nowMs jobs)) with
      | ok jobs' => rw [saved, get_remove hremove, if_pos rfl]
      | error e =>
          exfalso
          -- nothing was filtered out, though the job is there
          simp only [remove] at hremove
          split at hremove
          · rename_i hlength
            have hall := List.length_filter_eq_length_iff.mp hlength
            have hne := hall _ (List.mem_of_find?_eq_some hupdated)
            have heq := List.find?_some hupdated
            simp_all
          · cases hremove

/-! A call that returns makes the moves of an instance in the machine of the scheduler: the
marking, and, once others have made theirs, the recording and the deletion. -/

theorem getElem?_setPhase {s : SchedState} {k : ℕ} {x : Execution}
    (h : s.executions[k]? = some x) (phase : Phase) :
    (s.setPhase k x phase).executions[k]? = some { x with phase := phase } := by
  obtain ⟨hlt, -⟩ := List.getElem?_eq_some_iff.mp h
  rw [SchedState.setPhase, List.getElem?_set_self hlt]

theorem mark_move (hmark : markRunning job.id env.markedMs w.jobs = .ok marked)
    {S : CronScheduler} {s : SchedState} {k : ℕ} {permit : Bool} (hjobs : s.jobs = w.jobs)
    (hk : s.executions[k]? = some ⟨job, .queued, permit⟩) :
    ∃ t, SchedStep S cal s (.mark k env.markedMs) t ∧ t.jobs = marked ∧
      t.executions[k]? = some ⟨job, .executing, permit⟩ := by
  let filed : SchedState := { s with jobs := marked }
  refine ⟨filed.setPhase k ⟨job, .queued, permit⟩ .executing, ⟨.mark k env.markedMs, ?_⟩, rfl, ?_⟩
  · simp only [CronScheduler.next, CronScheduler.step, hk, hjobs, hmark]
    rfl
  · exact @getElem?_setPhase filed k _ hk .executing

theorem result_moves (hmark : markRunning job.id env.markedMs w.jobs = .ok marked)
    (h : Previewable (runResult job env.turn env.durationMs).output)
    {S : CronScheduler} {s : SchedState} {k : ℕ} {permit : Bool}
    (hjobs : s.jobs = env.meanwhile marked)
    (hk : s.executions[k]? = some ⟨job, .executing, permit⟩) :
    ∃ t, Runs (SchedStep S cal) s
        [.record k env.turn env.durationMs env.recordedMs, .wrapUp k] t ∧
      t.jobs = (executeJob cal log env job w).1.jobs := by
  let recorded : SchedState := { s with
    jobs := saved s.jobs (updateAfterRun cal job.id
      (runResult job env.turn env.durationMs) env.recordedMs s.jobs) }
  have hrecord : SchedStep S cal s (.record k env.turn env.durationMs env.recordedMs)
      (recorded.setPhase k ⟨job, .executing, permit⟩ .recorded) := by
    refine ⟨.record k env.turn env.durationMs env.recordedMs, ?_⟩
    simp only [CronScheduler.next, CronScheduler.step, hk]
    rfl
  have hk' := @getElem?_setPhase recorded k _ hk .recorded
  let wrapped : SchedState := { recorded.setPhase k ⟨job, .executing, permit⟩ .recorded with
    jobs := if job.deleteAfterRun then saved recorded.jobs (remove job.id recorded.jobs)
      else recorded.jobs }
  have hwrapUp : SchedStep S cal (recorded.setPhase k ⟨job, .executing, permit⟩ .recorded)
      (.wrapUp k) (wrapped.setPhase k ⟨job, .recorded, permit⟩ .returned) := by
    refine ⟨.wrapUp k, ?_⟩
    simp only [CronScheduler.next, CronScheduler.step, hk']
    rfl
  refine ⟨_, (Runs.single hrecord).snoc hwrapUp, ?_⟩
  rw [(executeJob_returned hmark h).2, ← hjobs]
  rfl

/-- The job was marked, its run is over, and the store says so: a one-shot job is gone, any
other one has the mark cleared and the run counted. A job that was removed in between is
not in the store any more. -/
def RunRecorded (cal : Calendar) (log : RunLog) (env : Surroundings) (job : CronJob)
    (w : CronWorld) (marked : List CronJob) : Prop :=
  (executeJob cal log env job w).2 = .returned ∧
  ∀ before, get job.id (env.meanwhile marked) = some before →
    if job.deleteAfterRun then get job.id (executeJob cal log env job w).1.jobs = none
    else ∃ after, get job.id (executeJob cal log env job w).1.jobs = some after ∧
      after.state.runningSinceMs = none ∧ after.state.totalRuns = before.state.totalRuns + 1

/-- The run counter of the job has room, where there is a job to count for. -/
def CounterHasRoom (env : Surroundings) (job : CronJob) (marked : List CronJob) : Prop :=
  ∀ before, get job.id (env.meanwhile marked) = some before → job.deleteAfterRun = false →
    before.state.totalRuns + 1 < u64Size

end

/-- **A finished run is recorded** if and only if its output or error text is short or has
a character boundary at byte 500, and the run counter does not wrap. -/
theorem run_recorded_iff (cal : Calendar) (log : RunLog) (env : Surroundings) (job : CronJob)
    (w : CronWorld) {marked : List CronJob}
    (hmark : markRunning job.id env.markedMs w.jobs = .ok marked) :
    RunRecorded cal log env job w marked ↔
      Previewable (runResult job env.turn env.durationMs).output ∧
        CounterHasRoom env job marked := by
  constructor
  · rintro ⟨hfinish, hstore⟩
    have htext : Previewable (runResult job env.turn env.durationMs).output := by
      by_contra hcut
      rw [(executeJob_panicked hmark hcut).1] at hfinish
      cases hfinish
    refine ⟨htext, ?_⟩
    intro before hbefore hkeep
    have hafter := hstore before hbefore
    rw [(executeJob_returned hmark htext).2, get_recordRun hbefore, hkeep, if_neg (by decide),
      if_neg (by decide)] at hafter
    obtain ⟨after, hget, -, hruns⟩ := hafter
    rw [← Option.some.inj hget, afterRun_totalRuns] at hruns
    rw [← hruns]
    exact Nat.mod_lt _ (by decide)
  · rintro ⟨htext, hroom⟩
    obtain ⟨hfinish, hjobs⟩ : (executeJob cal log env job w).2 = .returned ∧ _ :=
      executeJob_returned hmark htext
    refine ⟨hfinish, ?_⟩
    intro before hbefore
    rw [hjobs, get_recordRun hbefore]
    split
    · rfl
    · rename_i hkeep
      refine ⟨_, rfl, afterRun_runningSinceMs, ?_⟩
      rw [afterRun_totalRuns, Nat.mod_eq_of_lt]
      exact hroom before hbefore (by simpa using hkeep)

/-! ## §4  Two executions -/

/-- A reminder with a text of its own. -/
def reminderJob (text : String) : CronJob :=
  { backupJob with payload := .systemEvent text }

/-- Nothing else happens, and the run log cannot be written. -/
def quiet : Surroundings :=
  ⟨60001, .timedOut, 5, id, fun _ => .ok (), 60006, some (fun _ => none), 60007⟩

def reminderWorld (text : String) : CronWorld := ⟨[reminderJob text], fun _ => none, []⟩

/-- A log whose codec is never used here. -/
def unreadLog : RunLog := ⟨"cron/runs", fun _ => [], fun _ => none⟩

/-- The store once the reminder is marked. -/
def markedReminder (text : String) : List CronJob := [(reminderJob text).marked 60001]

theorem short_reminder_is_recorded :
    RunRecorded .blank unreadLog quiet (reminderJob "stand up") (reminderWorld "stand up")
      (markedReminder "stand up") := by
  apply (run_recorded_iff .blank unreadLog quiet (reminderJob "stand up")
    (reminderWorld "stand up") rfl).mpr
  refine ⟨Or.inl (by decide), ?_⟩
  intro before hbefore _
  cases hbefore
  decide

/-- A text of 501 bytes whose byte 500 is the second one of a character. -/
def accentedText : String := String.ofList ('a' :: List.replicate 250 'é')

theorem accentedText_not_previewable : ¬ Previewable accentedText := by
  have htext : accentedText.toList = 'a' :: List.replicate 250 'é' := String.toList_ofList
  have hbytes (n : ℕ) : byteLen ('a' :: List.replicate n 'é') = 1 + n * 2 := by
    rw [byteLen_cons, byteLen_replicate]
    rfl
  rintro (hshort | hboundary)
  · rw [htext, hbytes] at hshort
    exact absurd hshort (by decide)
  · -- the starts of the text have 1 + 2 * n bytes, but for the empty one
    obtain ⟨p, q, hcut⟩ := isCharBoundary_iff.mp hboundary
    obtain ⟨hsplit, hlen⟩ := cutAt_eq_some_iff.mp hcut
    cases p with
    | nil => cases hlen
    | cons c p =>
        rw [htext] at hsplit
        obtain ⟨rfl, hrest⟩ := List.cons.inj hsplit
        have hp := (List.append_eq_replicate_iff.mp hrest.symm).2.1
        rw [hp, hbytes] at hlen
        simp only [outputPreviewMax] at hlen
        omega

/-- The reminder stays marked as running, and its run is not counted. -/
theorem accented_reminder_panics :
    ¬ RunRecorded .blank unreadLog quiet (reminderJob accentedText)
        (reminderWorld accentedText) (markedReminder accentedText) ∧
      ∃ after, get "backup" (executeJob .blank unreadLog quiet (reminderJob accentedText)
          (reminderWorld accentedText)).1.jobs = some after ∧
        after.state.runningSinceMs = some 60001 ∧ after.state.totalRuns = 0 := by
  have hcut : ¬ Previewable (runResult (reminderJob accentedText) quiet.turn
      quiet.durationMs).output := accentedText_not_previewable
  have hmark : markRunning (reminderJob accentedText).id quiet.markedMs
      (reminderWorld accentedText).jobs = .ok (markedReminder accentedText) := rfl
  obtain ⟨hfinish, hjobs⟩ : (executeJob .blank unreadLog quiet (reminderJob accentedText)
      (reminderWorld accentedText)).2 = .panicked ∧ _ := executeJob_panicked hmark hcut
  constructor
  · rintro ⟨hreturned, -⟩
    rw [hfinish] at hreturned
    cases hreturned
  · rw [hjobs]
    exact ⟨_, rfl, rfl, rfl⟩

end Oclaw.CronCore
