import Mathlib.Data.Finset.Erase
import Mathlib.Data.Finset.Insert
import Oclaw.Gateway.SubagentRuns

/-!
# Cleaning up after subagents

When a run has ended, a cleanup flow announces its result, calls the hook and closes its
entry. Several things start such a flow: the run's own task, timers for another try, and
a request that finds entries which are still open. The flag `cleanup_handled` is what
keeps them apart: it is tested and set under the lock of the registry.

Every stretch between two awaits or locks is a step here. Tasks may be dropped between
steps, as an aborted run is, and the process may be restarted, which leaves only what is
persisted. Whether an announcement succeeds is an input of its step.
-/

namespace Oclaw.Gateway.Subagents

open Oclaw.Lib Oclaw.Gateway.Announce

/-! ## §1  Tasks -/

def maxAnnounceRetryCount : ℕ := 3

def announceExpiryMs : ℤ := 5 * 60000

def minAnnounceRetryDelayMs : ℤ := 1000

def maxAnnounceRetryDelayMs : ℤ := 8000

/-- `resolve_subagent_announce_retry_delay_ms` -/
def announceRetryDelayMs (retryCount : ℕ) : ℤ :=
  let bounded := min retryCount 10
  max (min (minAnnounceRetryDelayMs * Int.ofNat (1 <<< (bounded - 1))) maxAnnounceRetryDelayMs) 1

def eqIgnoreAsciiCase (a b : String) : Bool := toAsciiLowercase a == toAsciiLowercase b

/-- Where `run_subagent_cleanup_flow` is. The stages after `read` know the time that was
read there, and those before the decision the entry. -/
inductive Stage : Type where
  | begin
  | read
  | count (entry : RunEntry) (nowMs : ℤ)
  | announce (entry : RunEntry) (nowMs : ℤ)
  | wait (nowMs : ℤ)
  | retry (retryCount : ℕ) (nowMs : ℤ)
  | giveUp (retryCount : ℕ) (nowMs : ℤ)
  | emit (mode : String) (nowMs : ℤ)
  | call (mode : String) (nowMs : ℤ) (entry : RunEntry)
  | emitted (mode : String) (nowMs : ℤ)
  | finalize (mode : String) (nowMs : ℤ)
  | schedule (delayMs : ℤ)
deriving DecidableEq

/-- Where `kill_run_entry` is after its patch. -/
inductive KillStage : Type where
  | emit
  | call (entry : RunEntry)
  | emitted
deriving DecidableEq

inductive Task : Type where
  /-- The agent at work. -/
  | running (runId : String)
  | flow (runId : String) (stage : Stage)
  | timer (runId : String) (delayMs : ℤ)
  /-- The loop of `resume_pending_subagent_cleanup_tasks`. -/
  | resume (pending : List (String × ℤ))
  | kill (runId : String) (stage : KillStage)
  /-- `subagents_steer`, before it removes the entry of the old run. -/
  | steered (runId : String)
deriving DecidableEq

inductive Event : Type where
  | internal
  | begun (runId : String)
  | attempt (runId : String) (announced : Bool)
  /-- The hook `subagent_ended` is called, by a cleanup flow or by a kill. -/
  | ended (runId : String) (byFlow : Bool) (reason outcome : String)
  | finalized (runId : String)
  | killed (runId : String)
  | steered (runId : String)

/-- How the agent's turn ended. -/
inductive RunResult : Type where
  | done
  | failed (error : String)
  | timeout

/-- The registry, the identities that were handed out, `SUBAGENT_CLEANUP_TASKS`, and the
tasks that run. -/
structure World : Type where
  runs : Registry
  minted : List String
  cleanupTasks : Finset String
  tasks : ℕ → Option Task

def World.init : World := ⟨∅, [], ∅, fun _ => none⟩

/-! ## §2  Patches -/

/-- The entry that `start_subagent_run_task` makes. -/
structure SpawnRequest : Type where
  runId : String
  requesterSessionKey : String
  childSessionKey : String
  label : String
  startedAtMs : ℤ
  spawnMode : String
  cleanup : String
  expectsCompletionMessage : Bool
  archiveAtMs : Option ℤ

def SpawnRequest.entry (q : SpawnRequest) : RunEntry where
  runId := q.runId
  requesterSessionKey := q.requesterSessionKey
  childSessionKey := q.childSessionKey
  label := q.label
  startedAtMs := q.startedAtMs
  endedAtMs := none
  status := "running"
  error := none
  spawnMode := q.spawnMode
  cleanup := q.cleanup
  expectsCompletionMessage := q.expectsCompletionMessage
  suppressAnnounceReason := none
  announceRetryCount := 0
  lastAnnounceRetryAtMs := none
  cleanupHandled := false
  cleanupCompletedAtMs := none
  endedReason := none
  endedHookEmittedAtMs := none
  archiveAtMs := q.archiveAtMs

/-- What the run's task enters when the agent is through. -/
def RunEntry.finish (entry : RunEntry) (nowMs : ℤ) (result : RunResult) : RunEntry :=
  let ended := { entry with
    endedAtMs := some nowMs
    cleanupHandled := false
    cleanupCompletedAtMs := none }
  match result with
  | .done => { ended with status := "done", endedReason := some "subagent-complete" }
  | .failed error =>
      { ended with
        status := "failed", error := some error, endedReason := some "subagent-error" }
  | .timeout =>
      { ended with
        status := "timeout"
        error := some "subagent timed out"
        endedReason := some "subagent-error" }

/-- `begin_subagent_cleanup` refuses entries that are closed or taken. -/
def RunEntry.free (entry : RunEntry) : Bool :=
  entry.cleanupCompletedAtMs.isNone && !entry.cleanupHandled

def RunEntry.take (entry : RunEntry) : RunEntry := { entry with cleanupHandled := true }

def RunEntry.release (entry : RunEntry) (nowMs : ℤ) : RunEntry :=
  { entry with cleanupHandled := false, lastAnnounceRetryAtMs := some nowMs }

def RunEntry.noteRetry (entry : RunEntry) (retryCount : ℕ) (nowMs : ℤ) : RunEntry :=
  { entry with announceRetryCount := retryCount, lastAnnounceRetryAtMs := some nowMs }

def RunEntry.noteEmitted (entry : RunEntry) (nowMs : ℤ) : RunEntry :=
  { entry with endedHookEmittedAtMs := some nowMs }

def RunEntry.complete (entry : RunEntry) (nowMs : ℤ) : RunEntry :=
  { entry with cleanupCompletedAtMs := some nowMs, cleanupHandled := true }

def RunEntry.endedAgo (entry : RunEntry) (nowMs : ℤ) : ℤ :=
  satSub nowMs (entry.endedAtMs.getD nowMs)

/-- The test of `emit_subagent_ended_once`. -/
def RunEntry.toEmit (hasHooks : Bool) (entry : RunEntry) : Bool :=
  hasHooks && !eqIgnoreAsciiCase entry.spawnMode "session" && entry.endedHookEmittedAtMs.isNone

def RunEntry.outcome (entry : RunEntry) : String :=
  if entry.status = "failed" then "error"
  else if entry.status = "timeout" then "timeout"
  else if entry.status = "killed" then "killed"
  else "ok"

def RunEntry.endedEvent (entry : RunEntry) (runId : String) (byFlow : Bool) : Event :=
  .ended runId byFlow (entry.endedReason.getD "subagent-complete") entry.outcome

/-- `finalize_subagent_cleanup`, under the lock. -/
def Registry.finalize (runs : Registry) (runId mode : String) (completedAtMs : ℤ) : Registry :=
  if eqIgnoreAsciiCase mode "delete" then runs.erase runId
  else runs.patchRun runId (fun entry => entry.complete completedAtMs)

/-- The entries that `resume_pending_subagent_cleanup_tasks` finds, with how long to wait. -/
def Registry.pending (runs : Registry) (nowMs : ℤ) : List (String × ℤ) :=
  runs.values.filterMap (fun entry =>
    if entry.endedAtMs.isNone || entry.cleanupCompletedAtMs.isSome || entry.cleanupHandled then
      none
    else
      let retryDelayMs := announceRetryDelayMs (max entry.announceRetryCount 1)
      let earliest := satAddInt (entry.lastAnnounceRetryAtMs.getD 0) retryDelayMs
      some (entry.runId, max (satSub earliest nowMs) 0))

/-! ## §3  Steps -/

/-- What a step finds outside: the clock, the result of the agent, whether the announcement
succeeds, and an identity for a task that it spawns. -/
structure Input : Type where
  nowMs : ℤ
  result : RunResult
  announced : Bool
  fresh : ℕ

inductive Turn : Type where
  | spawn (q : SpawnRequest) (t : ℕ)
  | sweep (nowMs : ℤ)
  | resume (nowMs : ℤ) (t : ℕ)
  | kill (runId : String) (nowMs : ℤ) (t : ℕ)
  | steer (runId : String) (nowMs : ℤ) (t : ℕ)
  | run (t : ℕ) (input : Input)
  | drop (t : ℕ)
  | restart (nowMs : ℤ)

/-- What a step of a task leaves: the registry and the timers, and where the task goes on. -/
structure Outcome : Type where
  event : Event
  runs : Registry
  task : Option Task

/-- After the announcement. -/
def decideStage (entry : RunEntry) (nowMs : ℤ) (announced : Bool) : Stage :=
  if announced || !entry.expectsCompletionMessage then .emit entry.cleanup nowMs
  else
    let retryCount := entry.announceRetryCount + 1
    if maxAnnounceRetryCount ≤ retryCount ∨ announceExpiryMs < entry.endedAgo nowMs then
      .giveUp retryCount nowMs
    else .retry retryCount nowMs

def flowStep (hasHooks : Bool) (runs : Registry) (id : String) (input : Input) :
    Stage → Outcome
  | .begin =>
      match runs.lookup id with
      | none => ⟨.internal, runs, none⟩
      | some entry =>
          if entry.free then
            ⟨.begun id, runs.patchRun id RunEntry.take, some (.flow id .read)⟩
          else ⟨.internal, runs, none⟩
  | .read =>
      match runs.lookup id with
      | none => ⟨.internal, runs, none⟩
      | some entry =>
          if entry.cleanupCompletedAtMs.isSome then ⟨.internal, runs, none⟩
          else if entry.suppressAnnounceReason = some "steer-restart" then
            ⟨.internal, runs, none⟩
          else if entry.expectsCompletionMessage then
            ⟨.internal, runs, some (.flow id (.count entry input.nowMs))⟩
          else ⟨.internal, runs, some (.flow id (.announce entry input.nowMs))⟩
  | .count entry nowMs =>
      let active := runs.countActiveDescendantRuns input.nowMs entry.childSessionKey
      let stage : Stage :=
        if active = 0 then .announce entry nowMs
        else if announceExpiryMs < entry.endedAgo nowMs then .emit "keep" nowMs
        else .wait nowMs
      ⟨.internal, runs.sweepArchived input.nowMs, some (.flow id stage)⟩
  | .announce entry nowMs =>
      let announced := input.announced && decide (entry.suppressAnnounceReason ≠ some "killed")
      ⟨.attempt id announced, runs, some (.flow id (decideStage entry nowMs announced))⟩
  | .wait nowMs =>
      ⟨.internal, runs.patchRun id (fun entry => entry.release nowMs),
        some (.flow id (.schedule minAnnounceRetryDelayMs))⟩
  | .retry retryCount nowMs =>
      ⟨.internal, runs.patchRun id (fun entry => (entry.noteRetry retryCount nowMs).release nowMs),
        some (.flow id (.schedule (announceRetryDelayMs retryCount)))⟩
  | .giveUp retryCount nowMs =>
      ⟨.internal, runs.patchRun id (fun entry => entry.noteRetry retryCount nowMs),
        some (.flow id (.emit "keep" nowMs))⟩
  | .emit mode nowMs =>
      match runs.lookup id with
      | none => ⟨.internal, runs, some (.flow id (.finalize mode nowMs))⟩
      | some entry =>
          if entry.toEmit hasHooks then
            ⟨.internal, runs, some (.flow id (.call mode nowMs entry))⟩
          else ⟨.internal, runs, some (.flow id (.finalize mode nowMs))⟩
  | .call mode nowMs entry =>
      ⟨entry.endedEvent id true, runs, some (.flow id (.emitted mode nowMs))⟩
  | .emitted mode nowMs =>
      ⟨.internal, runs.patchRun id (fun entry => entry.noteEmitted input.nowMs),
        some (.flow id (.finalize mode nowMs))⟩
  | .finalize mode nowMs => ⟨.finalized id, runs.finalize id mode nowMs, none⟩
  | .schedule _ => ⟨.internal, runs, none⟩

def killStep (hasHooks : Bool) (runs : Registry) (id : String) (input : Input) :
    KillStage → Outcome
  | .emit =>
      match runs.lookup id with
      | none => ⟨.internal, runs, none⟩
      | some entry =>
          if entry.toEmit hasHooks then ⟨.internal, runs, some (.kill id (.call entry))⟩
          else ⟨.internal, runs, none⟩
  | .call entry => ⟨entry.endedEvent id false, runs, some (.kill id .emitted)⟩
  | .emitted => ⟨.internal, runs.patchRun id (fun entry => entry.noteEmitted input.nowMs), none⟩

/-- One step of a task, apart from timers. -/
def taskStep (hasHooks : Bool) (runs : Registry) (input : Input) : Task → Outcome
  | .running id =>
      ⟨.internal, runs.patchRun id (fun entry => entry.finish input.nowMs input.result),
        some (.flow id .begin)⟩
  | .flow id stage => flowStep hasHooks runs id input stage
  | .timer id _ => ⟨.internal, runs, some (.flow id .begin)⟩
  | .resume pending =>
      ⟨.internal, runs, if pending.isEmpty then none else some (.resume pending.tail)⟩
  | .kill id stage => killStep hasHooks runs id input stage
  | .steered id => ⟨.internal, runs.erase id, none⟩

/-- The run for which a step calls `schedule_subagent_cleanup_retry`. -/
def Task.schedules : Task → Option (String × ℤ)
  | .flow id (.schedule delayMs) => some (id, delayMs)
  | .resume ((id, delayMs) :: _) => some (id, delayMs)
  | _ => none

/-- `schedule_subagent_cleanup_retry` -/
def World.schedule (w : World) (fresh : ℕ) : Option (String × ℤ) → World
  | none => w
  | some (id, delayMs) =>
      if id ∈ w.cleanupTasks then w
      else
        { w with
          cleanupTasks := insert id w.cleanupTasks
          tasks := Function.update w.tasks fresh (some (.timer id delayMs)) }

/-- A timer that goes off leaves the set. -/
def Task.unset (cleanupTasks : Finset String) : Task → Finset String
  | .timer id _ => cleanupTasks.erase id
  | _ => cleanupTasks

def World.put (w : World) (t : ℕ) (task : Option Task) : World :=
  { w with tasks := Function.update w.tasks t task }

/-- The machine. `hasHooks` tells whether there is a hook pipeline. -/
def World.next (hasHooks : Bool) (w : World) : Turn → Option (Event × World)
  | .spawn q t =>
      if q.runId ∉ w.minted ∧ w.tasks t = none then
        some (.internal, { w with
          runs := w.runs.insert q.runId q.entry
          minted := q.runId :: w.minted
          tasks := Function.update w.tasks t (some (.running q.runId)) })
      else none
  | .sweep nowMs => some (.internal, { w with runs := w.runs.sweepArchived nowMs })
  | .resume nowMs t =>
      if w.tasks t = none then
        some (.internal, w.put t (some (.resume (w.runs.pending nowMs))))
      else none
  | .kill runId nowMs t =>
      if runId ∈ w.minted ∧ w.tasks t = none then
        some (.killed runId, { w.put t (some (.kill runId .emit)) with
          runs := w.runs.patchRun runId (fun entry => entry.kill nowMs) })
      else none
  | .steer runId nowMs t =>
      if runId ∈ w.minted ∧ w.tasks t = none then
        some (.steered runId, { w.put t (some (.steered runId)) with
          runs := w.runs.patchRun runId (fun entry => entry.steer nowMs) })
      else none
  | .run t input =>
      match w.tasks t with
      | none => none
      | some task =>
          if w.tasks input.fresh = none then
            let o := taskStep hasHooks w.runs input task
            some (o.event,
              ({ w.put t o.task with
                runs := o.runs, cleanupTasks := task.unset w.cleanupTasks }).schedule
                input.fresh task.schedules)
          else none
  | .drop t => if (w.tasks t).isSome then some (.internal, w.put t none) else none
  | .restart nowMs =>
      some (.internal, ⟨w.runs.restore nowMs, w.minted, ∅, fun _ => none⟩)

def World.Step (hasHooks : Bool) : World → Event → World → Prop := Induced (World.next hasHooks)

end Oclaw.Gateway.Subagents
