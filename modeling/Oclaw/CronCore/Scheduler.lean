import Oclaw.CronCore.Service
import Oclaw.Lib.Transition

/-!
# The cron scheduler

`CronScheduler` and `execute_job` of `crates/cron-core/src/scheduler.rs` as a
machine over the store of the service. The loop takes a snapshot of the jobs,
clears those that look stuck, and spawns an instance of `execute_job` for each due
job of the snapshot; `run_once` spawns one for any enabled job. An instance marks
its job, runs its payload, records the result and deletes a one-shot job, each in a
call of its own, and everything else may happen between two of these calls. The
executor's answers and all clock readings are chosen by the environment.
-/

namespace Oclaw.CronCore

open Oclaw.Lib

/-! ## §1  The machine -/

/-- Where an instance of `execute_job` is: before `mark_running`, between
`mark_running` and its `update_after_run`, before the deletion of a one-shot job, or
returned. -/
inductive Phase : Type where
  | queued
  | executing
  | recorded
  | returned
deriving DecidableEq

/-- An instance of `execute_job` with its copy of the job; those of the loop hold a
permit until they return. -/
structure Execution : Type where
  job : CronJob
  phase : Phase
  permit : Bool

/-- Where `run_loop` is. Stuck detection and the due filter work on the snapshot and
on the clock that the iteration read. -/
inductive LoopPc : Type where
  | idle
  | detecting (nowMs : ℕ) (todo snapshot : List CronJob)
  | spawning (todo : List CronJob)
  | stopped

structure SchedState : Type where
  jobs : List CronJob
  loop : LoopPc
  running : Bool
  executions : List Execution

structure CronScheduler : Type where
  maxConcurrent : ℕ
  stuckThresholdMs : ℕ

def CronScheduler.new : CronScheduler := ⟨3, 2 * 60 * 60 * 1000⟩

def SchedState.start (jobs : List CronJob) : SchedState := ⟨jobs, .idle, true, []⟩

/-- How `run_agent_turn` ends: with an answer, or by the timeout of the job. -/
inductive TurnEnd : Type where
  | answered (result : Except String String)
  | timedOut

/-- What the payload of a job gives. -/
def CronPayloadKind.outcome (payload : CronPayloadKind) (turn : TurnEnd) :
    Except String String :=
  match payload with
  | .systemEvent text => .ok text
  | .agentTurn _ _ _ _ =>
      match turn with
      | .answered result => result
      | .timedOut => .error "execution timed out"

def runResult (job : CronJob) (turn : TurnEnd) (durationMs : ℕ) : CronRunResult :=
  match job.payload.outcome turn with
  | .ok text => ⟨job.id, text, true, durationMs⟩
  | .error e => ⟨job.id, e, false, durationMs⟩

/-- Who moves. Clock readings are those of the call that the move makes. -/
inductive SchedMove : Type where
  | tick (nowMs : ℕ)
  | detect (nowMs : ℕ)
  | spawn
  | sleep
  | mark (k nowMs : ℕ)
  | record (k : ℕ) (turn : TurnEnd) (durationMs nowMs : ℕ)
  | wrapUp (k : ℕ)
  | runOnce (id : String)
  | trigger (id : String)
  | stop

/-- The snapshot job has been marked as running for too long. -/
def CronScheduler.looksStuck (S : CronScheduler) (nowMs : ℕ) (job : CronJob) : Bool :=
  match job.state.runningSinceMs with
  | some since => nowMs - since > S.stuckThresholdMs
  | none => false

def stuckResult (nowMs : ℕ) (job : CronJob) : CronRunResult :=
  ⟨job.id, "Job timed out (stuck detection)", false,
    nowMs - job.state.runningSinceMs.getD nowMs⟩

/-- Permits held by the instances of the loop. -/
def SchedState.permits (s : SchedState) : ℕ :=
  s.executions.countP (fun x => x.permit && x.phase != .returned)

def SchedState.setPhase (s : SchedState) (k : ℕ) (x : Execution) (phase : Phase) : SchedState :=
  { s with executions := s.executions.set k { x with phase := phase } }

@[grind =]
def CronScheduler.step (S : CronScheduler) (cal : Calendar) (s : SchedState) :
    SchedMove → Option SchedState
  | .tick nowMs =>
      match s.loop with
      | .idle =>
          if s.running then some { s with loop := .detecting nowMs s.jobs s.jobs }
          else some { s with loop := .stopped }
      | _ => none
  | .detect nowMs' =>
      match s.loop with
      | .detecting nowMs (job :: todo) snapshot =>
          if S.looksStuck nowMs job then
            -- Clear the stuck state so it can be rescheduled
            some { s with
              jobs := saved s.jobs
                (updateAfterRun cal job.id (stuckResult nowMs job) nowMs' s.jobs)
              loop := .detecting nowMs todo snapshot }
          else some { s with loop := .detecting nowMs todo snapshot }
      | .detecting nowMs [] snapshot =>
          some { s with
            loop := .spawning (snapshot.filter (fun j => j.enabled && isDue j nowMs)) }
      | _ => none
  | .spawn =>
      match s.loop with
      | .spawning (job :: todo) =>
          -- `acquire_owned().await` waits for a permit
          if s.permits < S.maxConcurrent then
            some { s with
              loop := .spawning todo
              executions := s.executions ++ [⟨job, .queued, true⟩] }
          else none
      | _ => none
  | .sleep =>
      match s.loop with
      | .spawning [] => some { s with loop := .idle }
      | _ => none
  | .mark k nowMs =>
      match s.executions[k]? with
      | some ⟨job, .queued, permit⟩ =>
          match markRunning job.id nowMs s.jobs with
          | .ok jobs => some ({ s with jobs := jobs }.setPhase k ⟨job, .queued, permit⟩ .executing)
          | .error _ => some (s.setPhase k ⟨job, .queued, permit⟩ .returned)
      | _ => none
  | .record k turn durationMs nowMs =>
      match s.executions[k]? with
      | some ⟨job, .executing, permit⟩ =>
          some ({ s with
            jobs := saved s.jobs
              (updateAfterRun cal job.id (runResult job turn durationMs) nowMs s.jobs) }.setPhase
                k ⟨job, .executing, permit⟩ .recorded)
      | _ => none
  | .wrapUp k =>
      match s.executions[k]? with
      | some ⟨job, .recorded, permit⟩ =>
          let jobs := if job.deleteAfterRun then saved s.jobs (remove job.id s.jobs) else s.jobs
          some ({ s with jobs := jobs }.setPhase k ⟨job, .recorded, permit⟩ .returned)
      | _ => none
  | .runOnce id =>
      match get id s.jobs with
      | some job =>
          if job.enabled then
            some { s with executions := s.executions ++ [⟨job, .queued, false⟩] }
          else none
      | none => none
  | .trigger id => some { s with jobs := saved s.jobs (trigger id s.jobs) }
  | .stop => some { s with running := false }

/-- The machine as a labelled step function; a step is labelled with its move. -/
def CronScheduler.next (S : CronScheduler) (cal : Calendar) (s : SchedState) (m : SchedMove) :
    Option (SchedMove × SchedState) :=
  (S.step cal s m).map (fun t => (m, t))

def SchedStep (S : CronScheduler) (cal : Calendar) : SchedState → SchedMove → SchedState → Prop :=
  Induced (S.next cal)

theorem SchedStep.step_eq {S : CronScheduler} {cal : Calendar} {s t : SchedState} {m : SchedMove}
    (h : SchedStep S cal s m t) : S.step cal s m = some t := by
  obtain ⟨m', hnext⟩ := h
  obtain ⟨t', hstep, heq⟩ := Option.map_eq_some_iff.mp hnext
  cases heq
  exact hstep

section

variable {S : CronScheduler} {cal : Calendar} {s t : SchedState} {m : SchedMove}

/-! ## §2  Open executions and the running flag -/

/-- Instance `k` is between `mark_running` and its own `update_after_run`. -/
def Open (s : SchedState) (k : ℕ) (id : String) : Prop :=
  ∃ x, s.executions[k]? = some x ∧ x.phase = .executing ∧ x.job.id = id

/-- The job is marked as running, as long as it is in the store. -/
def Flagged (jobs : List CronJob) (id : String) : Prop :=
  ∀ j, get id jobs = some j → j.state.runningSinceMs.isSome = true

/-- No two instances are open for one job. -/
def NoOverlap (s : SchedState) : Prop :=
  ∀ k k' id, Open s k id → Open s k' id → k = k'

/-- The jobs of open instances are marked, and no two instances share one. -/
structure Guarded (s : SchedState) : Prop where
  apart : NoOverlap s
  flagged : ∀ k id, Open s k id → Flagged s.jobs id

/-- A step that opens nothing keeps the guard when it unmarks no open job. -/
theorem Guarded.shrink (h : Guarded s)
    (hopen : ∀ k id, Open t k id → Open s k id ∧ (Flagged s.jobs id → Flagged t.jobs id)) :
    Guarded t := by
  constructor
  · intro k k' id hk hk'
    exact h.apart k k' id (hopen k id hk).1 (hopen k' id hk').1
  · intro k id hk
    obtain ⟨hold, hflag⟩ := hopen k id hk
    exact hflag (h.flagged k id hold)

theorem open_append {x : Execution} (hx : x.phase = .queued) {k : ℕ} {id : String}
    {s t : SchedState} (ht : t.executions = s.executions ++ [x]) (h : Open t k id) :
    Open s k id := by
  obtain ⟨y, hy, hphase, hid⟩ := h
  rw [ht, List.getElem?_append] at hy
  split at hy
  · exact ⟨y, hy, hphase, hid⟩
  · have hyx : y = x := List.mem_singleton.mp (List.mem_of_getElem? hy)
    rw [hyx, hx] at hphase
    cases hphase

/-- An instance whose phase was set is open only if it was set to be. -/
theorem open_setPhase {x : Execution} {phase : Phase} {k k' : ℕ} {id : String}
    (h : Open (s.setPhase k x phase) k' id) :
    (k' = k ∧ phase = .executing ∧ x.job.id = id) ∨ (k' ≠ k ∧ Open s k' id) := by
  obtain ⟨y, hy, hphase, hid⟩ := h
  simp only [SchedState.setPhase, List.getElem?_set] at hy
  split at hy
  · rename_i heq
    split at hy
    · cases hy
      exact .inl ⟨heq.symm, hphase, hid⟩
    · cases hy
  · rename_i hne
    exact .inr ⟨fun heq => hne heq.symm, y, hy, hphase, hid⟩

theorem flagged_saved_edit {f : CronJob → CronJob} {jobs : List CronJob} {id id' : String}
    (hid : ∀ j, (f j).id = j.id)
    (hflag : id = id' → ∀ j, j.state.runningSinceMs.isSome = true →
      (f j).state.runningSinceMs.isSome = true)
    (h : Flagged jobs id) : Flagged (saved jobs (edit id' f jobs)) id := by
  intro j hj
  cases hget : get id jobs with
  | none =>
      exfalso
      cases hedit : edit id' f jobs with
      | ok jobs' => simp [hedit, saved, get_edit hid hedit, hget] at hj
      | error e => simp [hedit, saved, hget] at hj
  | some j₀ =>
      rw [get_saved_edit hid hget] at hj
      cases hj
      split
      · rename_i heq
        exact hflag heq j₀ (h j₀ hget)
      · exact h j₀ hget

/-! ## §3  When executions cannot overlap -/

/-- The job that the next step of stuck detection clears, if it clears one. -/
def CronScheduler.suspect (S : CronScheduler) : LoopPc → Option CronJob
  | .detecting nowMs (job :: _) _ => if S.looksStuck nowMs job then some job else none
  | _ => none

/-- What a step has to respect, judged by the state before it: an instance marks its
job only while the job is not marked, and stuck detection clears only jobs of which
no instance is open. -/
def Careful (S : CronScheduler) (s : SchedState) : SchedMove → Prop
  | .mark k _ => ∀ x ∈ s.executions[k]?, ∀ j ∈ get x.job.id s.jobs,
      j.state.runningSinceMs = none
  | .detect _ => ∀ job ∈ S.suspect s.loop,
      ∀ x ∈ s.executions, x.phase = .executing → x.job.id ≠ job.id
  | _ => True

instance Careful.decidable (S : CronScheduler) (s : SchedState) :
    (m : SchedMove) → Decidable (Careful S s m)
  | .mark k _ => inferInstanceAs (Decidable (∀ x ∈ s.executions[k]?, ∀ j ∈ get x.job.id s.jobs,
      j.state.runningSinceMs = none))
  | .detect _ => inferInstanceAs (Decidable (∀ job ∈ S.suspect s.loop,
      ∀ x ∈ s.executions, x.phase = .executing → x.job.id ≠ job.id))
  | .tick _ | .spawn | .sleep | .record _ _ _ _ | .wrapUp _ | .runOnce _ | .trigger _ | .stop =>
      inferInstanceAs (Decidable True)

def CarefulStep (S : CronScheduler) (cal : Calendar) :
    SchedState → SchedMove → SchedState → Prop :=
  StepWhere (SchedStep S cal) (Careful S)

theorem flagged_markRunning {jobs jobs' : List CronJob} {id id' : String} {nowMs : ℕ}
    (hmark : markRunning id' nowMs jobs = .ok jobs') (h : id = id' ∨ Flagged jobs id) :
    Flagged jobs' id := by
  intro j hj
  rw [get_edit (marked_id nowMs) hmark] at hj
  obtain ⟨j₀, hget, rfl⟩ := Option.map_eq_some_iff.mp hj
  split
  · rfl
  · rename_i hne
    exact (h.resolve_left hne) j₀ hget

/-- A marking that finds the job unmarked opens the only instance of it. -/
theorem guarded_mark (h : Guarded s) {k nowMs : ℕ}
    (hcareful : Careful S s (.mark k nowMs)) (hstep : S.step cal s (.mark k nowMs) = some t) :
    Guarded t := by
  simp only [CronScheduler.step] at hstep
  split at hstep
  · rename_i job permit hk
    split at hstep
    · rename_i jobs' hmark
      cases hstep
      have hfree : ∀ k', ¬ Open s k' job.id := by
        intro k' hopen
        obtain ⟨j, hj⟩ := get_of_edit hmark
        have hsome := h.flagged k' job.id hopen j hj
        rw [hcareful _ hk j hj] at hsome
        cases hsome
      constructor
      · intro k₁ k₂ id h₁ h₂
        rcases open_setPhase h₁ with ⟨rfl, -, hid₁⟩ | ⟨-, hold₁⟩
        · rcases open_setPhase h₂ with ⟨rfl, -, -⟩ | ⟨-, hold₂⟩
          · rfl
          · exact absurd (hid₁ ▸ hold₂) (hfree k₂)
        · rcases open_setPhase h₂ with ⟨-, -, hid₂⟩ | ⟨-, hold₂⟩
          · exact absurd (hid₂ ▸ hold₁) (hfree k₁)
          · exact h.apart k₁ k₂ id hold₁ hold₂
      · intro k' id hopen
        apply flagged_markRunning hmark
        rcases open_setPhase hopen with ⟨-, -, hid⟩ | ⟨-, hold⟩
        · exact .inl hid.symm
        · exact .inr (h.flagged k' id hold)
    · cases hstep
      refine h.shrink ?_
      intro k' id hopen
      rcases open_setPhase hopen with ⟨-, hphase, -⟩ | ⟨-, hold⟩
      · cases hphase
      · exact ⟨hold, fun hflag => hflag⟩
  · cases hstep

/-- The result of an instance closes it, and no other instance of its job is open. -/
theorem guarded_record (h : Guarded s) {k durationMs nowMs : ℕ} {turn : TurnEnd}
    (hstep : S.step cal s (.record k turn durationMs nowMs) = some t) : Guarded t := by
  simp only [CronScheduler.step] at hstep
  split at hstep
  · rename_i job permit hk
    cases hstep
    refine h.shrink ?_
    intro k' id hopen
    rcases open_setPhase hopen with ⟨-, hphase, -⟩ | ⟨hne, hold⟩
    · cases hphase
    · refine ⟨hold, flagged_saved_edit (afterRun_id cal _ nowMs) ?_⟩
      rintro rfl
      exact absurd (h.apart k' k job.id hold ⟨_, hk, rfl, rfl⟩) hne
  · cases hstep

theorem guarded_detect (h : Guarded s) {nowMs : ℕ} (hcareful : Careful S s (.detect nowMs))
    (hstep : S.step cal s (.detect nowMs) = some t) : Guarded t := by
  simp only [CronScheduler.step] at hstep
  split at hstep
  · rename_i nowMs' job todo snapshot hloop
    split at hstep
    · rename_i hstuck
      cases hstep
      refine h.shrink ?_
      intro k id hopen
      refine ⟨hopen, flagged_saved_edit (afterRun_id cal _ nowMs) ?_⟩
      rintro rfl
      have hsuspect : job ∈ S.suspect s.loop := by simp [CronScheduler.suspect, hloop, hstuck]
      obtain ⟨x, hx, hphase, hid⟩ := hopen
      exact absurd hid (hcareful job hsuspect x (List.mem_of_getElem? hx) hphase)
    · cases hstep
      exact h.shrink (fun k id hopen => ⟨hopen, fun hflag => hflag⟩)
  · cases hstep
    exact h.shrink (fun k id hopen => ⟨hopen, fun hflag => hflag⟩)
  · cases hstep

theorem guarded_wrapUp (h : Guarded s) {k : ℕ} (hstep : S.step cal s (.wrapUp k) = some t) :
    Guarded t := by
  simp only [CronScheduler.step] at hstep
  split at hstep
  · rename_i job permit hk
    cases hstep
    refine h.shrink ?_
    intro k' id hopen
    rcases open_setPhase hopen with ⟨-, hphase, -⟩ | ⟨-, hold⟩
    · cases hphase
    · refine ⟨hold, fun hflag j hj => ?_⟩
      simp only [SchedState.setPhase] at hj
      split at hj
      · cases hrem : remove job.id s.jobs with
        | ok jobs' =>
            -- a removed job has no flag to lose
            rw [hrem, saved, get_remove hrem] at hj
            split at hj
            · cases hj
            · exact hflag j hj
        | error e =>
            rw [hrem, saved] at hj
            exact hflag j hj
      · exact hflag j hj
  · cases hstep

/-- **One careful step keeps the guard.** -/
theorem guarded_step (h : Guarded s) (hstep : CarefulStep S cal s m t) : Guarded t := by
  obtain ⟨hmove, hcareful⟩ := hstep
  have hstep := hmove.step_eq
  cases m with
  | mark k nowMs => exact guarded_mark h hcareful hstep
  | record k turn durationMs nowMs => exact guarded_record h hstep
  | detect nowMs => exact guarded_detect h hcareful hstep
  | wrapUp k => exact guarded_wrapUp h hstep
  | tick nowMs =>
      simp only [CronScheduler.step] at hstep
      split at hstep
      · split at hstep <;> cases hstep <;>
          exact h.shrink (fun k id hopen => ⟨hopen, fun hflag => hflag⟩)
      · cases hstep
  | spawn =>
      simp only [CronScheduler.step] at hstep
      split at hstep
      · split at hstep
        · cases hstep
          exact h.shrink (fun k id hopen => ⟨open_append rfl rfl hopen, fun hflag => hflag⟩)
        · cases hstep
      · cases hstep
  | sleep =>
      simp only [CronScheduler.step] at hstep
      split at hstep
      · cases hstep
        exact h.shrink (fun k id hopen => ⟨hopen, fun hflag => hflag⟩)
      · cases hstep
  | runOnce id =>
      simp only [CronScheduler.step] at hstep
      split at hstep
      · split at hstep
        · cases hstep
          exact h.shrink (fun k id hopen => ⟨open_append rfl rfl hopen, fun hflag => hflag⟩)
        · cases hstep
      · cases hstep
  | trigger id =>
      cases hstep
      exact h.shrink (fun k id' hopen =>
        ⟨hopen, flagged_saved_edit triggered_id (fun _ _ hsome => hsome)⟩)
  | stop =>
      cases hstep
      exact h.shrink (fun k id hopen => ⟨hopen, fun hflag => hflag⟩)

end

/-- **No overlapping executions.** In every run of the scheduler whose steps are all
careful, no job is in two open instances of `execute_job` in any state reached. -/
theorem no_overlapping_executions (S : CronScheduler) (cal : Calendar) (jobs : List CronJob)
    {tr : List SchedMove} {s : SchedState}
    (run : Runs (CarefulStep S cal) (SchedState.start jobs) tr s) : NoOverlap s := by
  have hstart : Guarded (SchedState.start jobs) := by
    constructor
    · rintro k k' id ⟨x, hx, -⟩
      simp [SchedState.start] at hx
    · rintro k id ⟨x, hx, -⟩
      simp [SchedState.start] at hx
  exact (run.state_invariant hstart guarded_step).apart

/-- A job that is due every minute. -/
def backupJob : CronJob :=
  { id := "backup", name := "Backup", enabled := true, schedule := .every 60000 none
    payload := .agentTurn "back up the workspace" none none none, sessionTarget := "main"
    state := { CronJobState.default with nextRunAtMs := some 60000 }
    createdAtMs := 0, updatedAtMs := 0, deleteAfterRun := false, delivery := []
    maxRetries := none, timeoutSecs := none }

/-- An iteration that marks its job before the next one lists it, a manual run behind
its result, and a marking of that run. -/
def promptMark : List SchedMove :=
  [.tick 60000, .detect 60000, .detect 60000, .spawn, .sleep, .mark 0 60001,
    .tick 120000, .detect 120000, .detect 120000, .sleep,
    .record 0 (.answered (.ok "done")) 61000 121001, .runOnce "backup", .mark 1 122000]

theorem promptMark_plays :
    (exec (nextWhere (CronScheduler.new.next .blank) (Careful .new))
      (SchedState.start [backupJob]) promptMark).isSome = true := by
  decide

theorem prompt_mark_guards :
    ∃ s, s.executions.map Execution.phase = [.recorded, .executing] ∧ NoOverlap s := by
  have run : Runs (CarefulStep .new .blank) _ _ _ := runs_where_of_exec promptMark promptMark_plays
  exact ⟨_, by decide, no_overlapping_executions _ _ _ run⟩

/-- Two iterations spawn an instance each before the first one marks the job. -/
def lateMark : List SchedMove :=
  [.tick 60000, .detect 60000, .detect 60000, .spawn, .sleep,
    .tick 120000, .detect 120000, .detect 120000, .spawn,
    .mark 0 120001, .mark 1 120002]

theorem late_mark_overlaps :
    ∃ tr s, Runs (SchedStep .new .blank) (SchedState.start [backupJob]) tr s ∧
      ¬ NoOverlap s := by
  have hplays : exec (CronScheduler.new.next .blank) (SchedState.start [backupJob]) lateMark =
      some _ := rfl
  refine ⟨_, _, runs_of_exec hplays, ?_⟩
  intro h
  exact absurd (h 0 1 "backup" ⟨_, rfl, rfl, rfl⟩ ⟨_, rfl, rfl, rfl⟩) (by decide)

end Oclaw.CronCore
