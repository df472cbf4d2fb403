import Oclaw.AgentCore.TaskGraph
import Oclaw.Lib.Transition

/-!
# The task graph runner

`TaskGraphRunner::run` of `crates/agent-core/src/task_graph.rs` as a machine.
The loop of `run` and its spawned subagents interleave freely: a task may end at
any time, `join_next` may return any task that has ended, and the spawning loop
waits while all permits are held by running tasks. What a task ends with is
chosen by its environment.

The machine starts in `RunState.start`, which is already over when `validate`
refuses the graph.
-/

namespace Oclaw.AgentCore

open Oclaw.Lib

variable {κ : Type*}

/-! ## §1  The machine -/

/-- One entry of `to_spawn`. -/
structure Job (κ : Type*) where
  nodeId : String
  config : κ
  input : String
deriving DecidableEq

/-- How a spawned task ends: `spawn_and_wait` returns, or the task panics and
`join_next` reports it. -/
inductive TaskEnd : Type where
  | returned (result : Except String String)
  | panicked (joinErr : String)
deriving DecidableEq

/-- A task of the `JoinSet`; it holds its permit until it ends. -/
structure Task (κ : Type*) where
  job : Job κ
  ended : Option TaskEnd

inductive TaskGraphResult : Type where
  | allSucceeded (outputs : Outputs)
  | partialSuccess (outputs failed : Outputs)

instance : DecidableEq TaskGraphResult
  | .allSucceeded o, .allSucceeded o' => decidable_of_iff (o = o') (by simp)
  | .partialSuccess o f, .partialSuccess o' f' =>
      decidable_of_iff (o = o' ∧ f = f') (by simp)
  | .allSucceeded _, .partialSuccess _ _ => .isFalse (by simp)
  | .partialSuccess _ _, .allSucceeded _ => .isFalse (by simp)

/-- Where the loop of `run` is: about to collect ready nodes, spawning the rest
of `to_spawn`, waiting in `join_next`, or returned. -/
inductive RunPc (κ : Type*) where
  | collect
  | spawn (toSpawn : List (Job κ))
  | join
  | returned (result : Except String TaskGraphResult)

/-- `run` has returned `Ok` with this result. -/
def RunPc.returnedOk (result : TaskGraphResult) : RunPc κ → Bool
  | .returned (.ok r) => decide (r = result)
  | _ => false

theorem RunPc.eq_of_returnedOk {pc : RunPc κ} {result : TaskGraphResult}
    (h : pc.returnedOk result = true) : pc = .returned (.ok result) := by
  unfold RunPc.returnedOk at h
  split at h
  · rw [of_decide_eq_true h]
  · cases h

structure RunState (κ : Type*) where
  completed : Outputs
  failed : Outputs
  activated : Finset String
  inFlight : Finset String
  joinSet : List (Task κ)
  pc : RunPc κ

/-- The cap on running tasks; `with_max_concurrent` keeps it positive. -/
structure TaskGraphRunner where
  maxConcurrent : ℕ
  positive : 0 < maxConcurrent

namespace TaskGraphRunner

def new : TaskGraphRunner := ⟨3, by decide⟩

def withMaxConcurrent (_ : TaskGraphRunner) (max : ℕ) : TaskGraphRunner :=
  ⟨Nat.max max 1, Nat.le_max_right max 1⟩

end TaskGraphRunner

/-- The roots are activated before the loop. -/
def TaskGraph.seeds (g : TaskGraph κ) : Finset String :=
  ((g.nodes.filter (fun n => n.dependsOn.isEmpty)).map TaskNode.id).toFinset

/-- The links that a settled node activates. -/
def TaskGraph.targets (g : TaskGraph κ) (nodeId : String) (result : Except String String) :
    List String :=
  match g.find nodeId with
  | some node =>
      match result with
      | .ok _ => node.onSuccess
      | .error _ => node.onFailure
  | none => []

/-- What a node is spawned with when `completed` holds. -/
def TaskNode.job (node : TaskNode κ) (completed : Outputs) (initialInput : String) : Job κ :=
  ⟨node.id, node.config, TaskGraph.resolveInput node completed initialInput⟩

namespace RunState

def start (g : TaskGraph κ) : RunState κ where
  completed := ∅
  failed := ∅
  activated := g.seeds
  inFlight := ∅
  joinSet := []
  pc :=
    match g.validate with
    | .ok _ => .collect
    | .error e => .returned (.error e)

def toSpawn (g : TaskGraph κ) (initialInput : String) (s : RunState κ) : List (Job κ) :=
  ((g.readyNodes s.completed s.failed.keys).filter (fun n =>
    decide (n.id ∈ s.activated) && !decide (n.id ∈ s.inFlight))).map
      (fun n => n.job s.completed initialInput)

/-- Permits held: the tasks that have not ended. -/
def running (s : RunState κ) : ℕ := s.joinSet.countP (fun t => t.ended.isNone)

def result (s : RunState κ) : TaskGraphResult :=
  if s.failed.keys = ∅ then .allSucceeded s.completed
  else .partialSuccess s.completed s.failed

/-- `join_next` gave the result of a job. -/
def settle (g : TaskGraph κ) (s : RunState κ) (job : Job κ) :
    Except String String → RunState κ
  | .ok output =>
      { s with
        inFlight := s.inFlight.erase job.nodeId
        activated := s.activated ∪ (g.targets job.nodeId (.ok output)).toFinset
        completed := s.completed.insert job.nodeId output
        pc := .collect }
  | .error error =>
      { s with
        inFlight := s.inFlight.erase job.nodeId
        activated := s.activated ∪ (g.targets job.nodeId (.error error)).toFinset
        failed := s.failed.insert job.nodeId error
        pc := .collect }

end RunState

inductive RunEvent (κ : Type*) where
  | internal
  | started (job : Job κ)
  | ended (job : Job κ) (how : TaskEnd)
  | joined (job : Job κ) (how : TaskEnd)
deriving DecidableEq

/-- Who moves: the loop, a running task that ends, or `join_next` with an ended
task. -/
inductive RunChoice : Type where
  | advance
  | finish (k : ℕ) (how : TaskEnd)
  | joinNext (k : ℕ)

def TaskGraphRunner.next (R : TaskGraphRunner) (g : TaskGraph κ) (initialInput : String)
    (s : RunState κ) : RunChoice → Option (RunEvent κ × RunState κ)
  | .advance =>
      match s.pc with
      | .collect => some (.internal, { s with pc := .spawn (s.toSpawn g initialInput) })
      | .spawn (job :: rest) =>
          -- `acquire_owned().await` waits for a permit.
          if s.running < R.maxConcurrent then
            some (.started job,
              { s with
                inFlight := insert job.nodeId s.inFlight
                joinSet := s.joinSet ++ [⟨job, none⟩]
                pc := .spawn rest })
          else none
      | .spawn [] =>
          if s.joinSet.isEmpty then
            some (.internal, { s with pc := .returned (.ok s.result) })
          else some (.internal, { s with pc := .join })
      | .join => none
      | .returned _ => none
  | .finish k how =>
      match s.joinSet[k]? with
      | some ⟨job, none⟩ =>
          some (.ended job how, { s with joinSet := s.joinSet.set k ⟨job, some how⟩ })
      | _ => none
  | .joinNext k =>
      match s.pc, s.joinSet[k]? with
      | .join, some ⟨job, some (.returned result)⟩ =>
          some (.joined job (.returned result),
            { s with joinSet := s.joinSet.eraseIdx k }.settle g job result)
      | .join, some ⟨job, some (.panicked joinErr)⟩ =>
          -- The join set is dropped with `run`, and its tasks are aborted.
          some (.joined job (.panicked joinErr),
            { s with
              joinSet := []
              pc := .returned (.error ("[task_graph] join error: " ++ joinErr)) })
      | _, _ => none

/-- Run the graph on a list of choices. -/
def TaskGraphRunner.play (R : TaskGraphRunner) (g : TaskGraph κ) (initialInput : String)
    (choices : List RunChoice) : Option (List (RunEvent κ) × RunState κ) :=
  exec (R.next g initialInput) (RunState.start g) choices

/-- One step of a run of the graph. -/
def RunStep (R : TaskGraphRunner) (g : TaskGraph κ) (initialInput : String) :
    RunState κ → RunEvent κ → RunState κ → Prop :=
  Induced (R.next g initialInput)

section

variable {R : TaskGraphRunner} {g : TaskGraph κ} {initialInput : String}
variable {s t : RunState κ} {e : RunEvent κ}

/-! ## §2  What a step can do -/

/-- The moves of the machine, with their guards and their effects. -/
inductive RunMove (R : TaskGraphRunner) (g : TaskGraph κ) (initialInput : String)
    (s : RunState κ) : RunEvent κ → RunState κ → Prop where
  | collect (hpc : s.pc = .collect) :
      RunMove R g initialInput s .internal { s with pc := .spawn (s.toSpawn g initialInput) }
  | start {job : Job κ} {rest : List (Job κ)} (hpc : s.pc = .spawn (job :: rest))
      (permit : s.running < R.maxConcurrent) :
      RunMove R g initialInput s (.started job)
        { s with
          inFlight := insert job.nodeId s.inFlight
          joinSet := s.joinSet ++ [⟨job, none⟩]
          pc := .spawn rest }
  | wait (hpc : s.pc = .spawn []) (busy : s.joinSet ≠ []) :
      RunMove R g initialInput s .internal { s with pc := .join }
  | stop (hpc : s.pc = .spawn []) (idle : s.joinSet = []) :
      RunMove R g initialInput s .internal { s with pc := .returned (.ok s.result) }
  | finish {job : Job κ} {how : TaskEnd} {before after : List (Task κ)}
      (task : s.joinSet = before ++ ⟨job, none⟩ :: after) :
      RunMove R g initialInput s (.ended job how)
        { s with joinSet := before ++ ⟨job, some how⟩ :: after }
  | join {job : Job κ} {result : Except String String} {before after : List (Task κ)}
      (hpc : s.pc = .join)
      (task : s.joinSet = before ++ ⟨job, some (.returned result)⟩ :: after) :
      RunMove R g initialInput s (.joined job (.returned result))
        ({ s with joinSet := before ++ after }.settle g job result)
  | abort {job : Job κ} {joinErr : String} {before after : List (Task κ)}
      (hpc : s.pc = .join)
      (task : s.joinSet = before ++ ⟨job, some (.panicked joinErr)⟩ :: after) :
      RunMove R g initialInput s (.joined job (.panicked joinErr))
        { s with
          joinSet := []
          pc := .returned (.error ("[task_graph] join error: " ++ joinErr)) }

theorem split_at_getElem? {α : Type*} {l : List α} {k : ℕ} {a : α} (h : l[k]? = some a) :
    l = l.take k ++ a :: l.drop (k + 1) := by
  obtain ⟨hk, rfl⟩ := List.getElem?_eq_some_iff.mp h
  rw [List.getElem_cons_drop, List.take_append_drop]

theorem RunStep.move (h : RunStep R g initialInput s e t) : RunMove R g initialInput s e t := by
  obtain ⟨choice, hnext⟩ := h
  cases choice with
  | advance =>
      simp only [TaskGraphRunner.next] at hnext
      split at hnext
      · rename_i hpc
        cases hnext
        exact .collect hpc
      · rename_i job rest hpc
        split at hnext
        · rename_i hpermit
          cases hnext
          exact .start hpc hpermit
        · cases hnext
      · rename_i hpc
        split at hnext
        · rename_i hempty
          cases hnext
          exact .stop hpc (List.isEmpty_iff.mp hempty)
        · rename_i hbusy
          cases hnext
          exact .wait hpc (fun hnil => hbusy (List.isEmpty_iff.mpr hnil))
      · cases hnext
      · cases hnext
  | finish k how =>
      simp only [TaskGraphRunner.next] at hnext
      split at hnext
      · rename_i job htask
        cases hnext
        have hsplit := split_at_getElem? htask
        obtain ⟨hk, -⟩ := List.getElem?_eq_some_iff.mp htask
        rw [List.set_eq_take_append_cons_drop, if_pos hk]
        exact .finish hsplit
      · cases hnext
  | joinNext k =>
      simp only [TaskGraphRunner.next] at hnext
      split at hnext
      · rename_i job result hpc htask
        cases hnext
        rw [List.eraseIdx_eq_take_drop_succ]
        exact .join hpc (split_at_getElem? htask)
      · rename_i job joinErr hpc htask
        cases hnext
        exact .abort hpc (split_at_getElem? htask)
      · cases hnext

/-- The moves are exactly the steps. -/
theorem RunMove.step (h : RunMove R g initialInput s e t) : RunStep R g initialInput s e t := by
  cases h with
  | collect hpc => exact ⟨.advance, by simp only [TaskGraphRunner.next, hpc]⟩
  | start hpc permit => exact ⟨.advance, by simp only [TaskGraphRunner.next, hpc, permit, if_true]⟩
  | wait hpc busy => exact ⟨.advance, by simp [TaskGraphRunner.next, hpc, busy]⟩
  | stop hpc idle => exact ⟨.advance, by simp [TaskGraphRunner.next, hpc, idle]⟩
  | @finish job how before after task =>
      exact ⟨.finish before.length how, by simp [TaskGraphRunner.next, task]⟩
  | @join job result before after hpc task =>
      exact ⟨.joinNext before.length, by
        simp [TaskGraphRunner.next, hpc, task, List.eraseIdx_append_of_length_le]⟩
  | @abort job joinErr before after hpc task =>
      exact ⟨.joinNext before.length, by simp [TaskGraphRunner.next, hpc, task]⟩

/-! ## §3  What a joined result changes -/

namespace RunState

@[simp] theorem settle_inFlight (job : Job κ) (result : Except String String) :
    (s.settle g job result).inFlight = s.inFlight.erase job.nodeId := by
  cases result <;> rfl

@[simp] theorem settle_joinSet (job : Job κ) (result : Except String String) :
    (s.settle g job result).joinSet = s.joinSet := by
  cases result <;> rfl

@[simp] theorem settle_pc (job : Job κ) (result : Except String String) :
    (s.settle g job result).pc = .collect := by
  cases result <;> rfl

@[simp] theorem settle_activated (job : Job κ) (result : Except String String) :
    (s.settle g job result).activated =
      s.activated ∪ (g.targets job.nodeId result).toFinset := by
  cases result <;> rfl

theorem mem_settle_completed {job : Job κ} {result : Except String String} {id : String} :
    id ∈ (s.settle g job result).completed ↔
      id ∈ s.completed ∨ id = job.nodeId ∧ result.isOk = true := by
  cases result <;> simp [settle, Except.isOk, Except.toBool, or_comm]

theorem mem_settle_failed {job : Job κ} {result : Except String String} {id : String} :
    id ∈ (s.settle g job result).failed ↔
      id ∈ s.failed ∨ id = job.nodeId ∧ result.isOk = false := by
  cases result <;> simp [settle, Except.isOk, Except.toBool, or_comm]

/-- A node is settled once its result was joined. -/
def Settled (s : RunState κ) (id : String) : Prop := id ∈ s.completed ∨ id ∈ s.failed

theorem settled_settle {job : Job κ} {result : Except String String} {id : String} :
    (s.settle g job result).Settled id ↔ s.Settled id ∨ id = job.nodeId := by
  unfold Settled
  rw [mem_settle_completed, mem_settle_failed]
  cases result.isOk <;> simp <;> tauto

theorem mem_toSpawn {job : Job κ} :
    job ∈ s.toSpawn g initialInput ↔
      ∃ node ∈ g.nodes, node.id ∉ s.completed ∧ node.id ∉ s.failed ∧
        (∀ dep ∈ node.dependsOn, dep ∈ s.completed) ∧ node.id ∈ s.activated ∧
        node.id ∉ s.inFlight ∧ node.job s.completed initialInput = job := by
  simp [toSpawn, TaskGraph.mem_readyNodes, Finmap.mem_keys, and_assoc]

/-- Once its first job is in flight, `to_spawn` is the rest of the list. -/
theorem toSpawn_insert (hids : g.ids.Nodup) {job : Job κ} {rest : List (Job κ)}
    (h : s.toSpawn g initialInput = job :: rest) {joinSet : List (Task κ)} {pc : RunPc κ} :
    toSpawn g initialInput
      { s with inFlight := insert job.nodeId s.inFlight, joinSet := joinSet, pc := pc } =
        rest := by
  unfold toSpawn at h ⊢
  obtain ⟨node, others, hfilter, rfl, rfl⟩ := List.map_eq_cons_iff.mp h
  have hnodup : (node :: others).Pairwise (fun a b => a.id ≠ b.id) := by
    rw [← hfilter]
    have hall : g.nodes.Pairwise (fun a b => a.id ≠ b.id) := List.pairwise_map.mp hids
    exact (hall.filter _).filter _
  congr 1
  have hsplit : ∀ l : List (TaskNode κ),
      l.filter (fun n => decide (n.id ∈ s.activated) &&
        !decide (n.id ∈ insert node.id s.inFlight)) =
      (l.filter (fun n => decide (n.id ∈ s.activated) && !decide (n.id ∈ s.inFlight))).filter
        (fun n => decide (n.id ≠ node.id)) := by
    intro l
    rw [List.filter_filter]
    congr 1
    funext n
    by_cases hn : n.id = node.id <;> simp [hn]
  rw [show (node.job s.completed initialInput).nodeId = node.id from rfl]
  rw [hsplit, hfilter, List.filter_cons_of_neg (by simp)]
  rw [List.filter_eq_self]
  intro n hn
  simpa using (List.pairwise_cons.mp hnodup).1 n hn |>.symm

end RunState

/-! ## §4  The order that every run keeps -/

def RunState.taskIds (s : RunState κ) : List String := s.joinSet.map (fun t => t.job.nodeId)

def RunEvent.startedId : RunEvent κ → List String
  | .started job => [job.nodeId]
  | _ => []

/-- The nodes started along a trace, in order. -/
def startedIds (tr : List (RunEvent κ)) : List String := tr.flatMap RunEvent.startedId

theorem startedIds_snoc (tr : List (RunEvent κ)) (e : RunEvent κ) :
    startedIds (tr ++ [e]) = startedIds tr ++ e.startedId := by
  simp [startedIds]

/-- Every node of the trace was started once, and is settled or in flight. -/
structure StartLog (g : TaskGraph κ) (tr : List (RunEvent κ)) (s : RunState κ) : Prop where
  started : ∀ id, id ∈ startedIds tr ↔ s.Settled id ∨ id ∈ s.inFlight
  once : (startedIds tr).Nodup
  known : ∀ id ∈ startedIds tr, id ∈ g.ids

/-- A step that starts nothing leaves the log alone. -/
theorem StartLog.quiet {tr : List (RunEvent κ)} (h : StartLog g tr s) (he : e.startedId = [])
    (hsame : ∀ id, t.Settled id ∨ id ∈ t.inFlight ↔ s.Settled id ∨ id ∈ s.inFlight) :
    StartLog g (tr ++ [e]) t := by
  have htr : startedIds (tr ++ [e]) = startedIds tr := by
    rw [startedIds_snoc, he, List.append_nil]
  constructor
  · intro id
    rw [htr, h.started, hsame]
  · exact htr ▸ h.once
  · exact htr ▸ h.known

/-- `in_flight` is what the join set holds, the three sets of ids are disjoint and
hold exactly the started nodes, and the spawning loop works on what `to_spawn`
would be if it were collected now. -/
structure Orderly (g : TaskGraph κ) (initialInput : String) (tr : List (RunEvent κ))
    (s : RunState κ) : Prop where
  tasks : s.taskIds.Nodup
  flying : ∀ id ∈ s.taskIds, id ∈ s.inFlight
  flight : (∀ r, s.pc ≠ .returned r) → ∀ id ∈ s.inFlight, id ∈ s.taskIds
  settledApart : ∀ id ∈ s.completed, id ∉ s.failed
  flightApart : ∀ id ∈ s.inFlight, ¬ s.Settled id
  queued : ∀ rest, s.pc = .spawn rest → s.toSpawn g initialInput = rest
  joining : s.pc = .join → s.joinSet ≠ []
  log : StartLog g tr s
  result : ∀ r, s.pc = .returned (.ok r) →
    r = s.result ∧ s.toSpawn g initialInput = [] ∧ s.inFlight = ∅

variable {tr : List (RunEvent κ)}

theorem orderly_start (g : TaskGraph κ) (initialInput : String) :
    Orderly g initialInput [] (RunState.start g) where
  tasks := List.nodup_nil
  flying := by simp [RunState.taskIds, RunState.start]
  flight := by simp [RunState.start]
  settledApart := by simp [RunState.start, Finmap.notMem_empty]
  flightApart := by simp [RunState.start]
  queued := by
    intro rest hpc
    simp only [RunState.start] at hpc
    split at hpc <;> cases hpc
  joining := by
    intro hpc
    simp only [RunState.start] at hpc
    split at hpc <;> cases hpc
  log :=
    { started := by simp [startedIds, RunState.Settled, RunState.start, Finmap.notMem_empty]
      once := List.nodup_nil
      known := by simp [startedIds] }
  result := by
    intro r hpc
    simp only [RunState.start] at hpc
    split at hpc <;> cases hpc

/-- The next job of the spawning loop is due: its node is neither settled nor in
flight. -/
theorem Orderly.next_due (h : Orderly g initialInput tr s) {job : Job κ}
    {rest : List (Job κ)} (hpc : s.pc = .spawn (job :: rest)) :
    job ∈ s.toSpawn g initialInput ∧ job.nodeId ∈ g.ids ∧
      ¬ (s.Settled job.nodeId ∨ job.nodeId ∈ s.inFlight) := by
  have hdue : job ∈ s.toSpawn g initialInput := by
    rw [h.queued _ hpc]
    exact List.mem_cons_self
  obtain ⟨node, hnode, hcompleted, hfailed, -, -, hflight, rfl⟩ := RunState.mem_toSpawn.mp hdue
  refine ⟨hdue, List.mem_map_of_mem hnode, ?_⟩
  rintro ((hc | hf) | hi)
  · exact hcompleted hc
  · exact hfailed hf
  · exact hflight hi

theorem Orderly.start_job (h : Orderly g initialInput tr s) (hids : g.ids.Nodup)
    {job : Job κ} {rest : List (Job κ)} (hpc : s.pc = .spawn (job :: rest)) :
    Orderly g initialInput (tr ++ [.started job])
      { s with
        inFlight := insert job.nodeId s.inFlight
        joinSet := s.joinSet ++ [⟨job, none⟩]
        pc := .spawn rest } := by
  obtain ⟨-, hknown, hfresh⟩ := h.next_due hpc
  have hnewTask : job.nodeId ∉ s.taskIds := fun hmem => hfresh (Or.inr (h.flying _ hmem))
  have hnewStart : job.nodeId ∉ startedIds tr := fun hmem => hfresh ((h.log.started _).mp hmem)
  have hlive : ∀ r, s.pc ≠ .returned r := by
    intro r
    rw [hpc]
    simp
  have hstarted : startedIds (tr ++ [.started job]) = startedIds tr ++ [job.nodeId] :=
    startedIds_snoc _ _
  have htasks : RunState.taskIds
      { s with
        inFlight := insert job.nodeId s.inFlight
        joinSet := s.joinSet ++ [⟨job, none⟩]
        pc := RunPc.spawn rest } = s.taskIds ++ [job.nodeId] := by
    simp [RunState.taskIds]
  constructor
  case tasks =>
      rw [htasks, ← List.concat_eq_append]
      exact h.tasks.concat hnewTask
  case flying =>
      intro id hid
      rcases List.mem_append.mp (htasks ▸ hid) with hold | hone
      · exact Finset.mem_insert_of_mem (h.flying id hold)
      · exact Finset.mem_insert.mpr (Or.inl (List.mem_singleton.mp hone))
  case flight =>
      intro _ id hid
      rw [htasks, List.mem_append]
      rcases Finset.mem_insert.mp hid with rfl | hold
      · exact Or.inr (List.mem_singleton.mpr rfl)
      · exact Or.inl (h.flight hlive id hold)
  case settledApart => exact h.settledApart
  case flightApart =>
      intro id hid
      rcases Finset.mem_insert.mp hid with rfl | hold
      · exact fun hset => hfresh (Or.inl hset)
      · exact h.flightApart id hold
  case queued =>
      rintro rest' ⟨⟩
      exact RunState.toSpawn_insert hids (h.queued _ hpc)
  case joining => exact fun hjoin => nomatch hjoin
  case log =>
      constructor
      · intro id
        rw [hstarted, List.mem_append, h.log.started, List.mem_singleton]
        show _ ↔ _ ∨ id ∈ insert job.nodeId s.inFlight
        rw [Finset.mem_insert]
        simp only [RunState.Settled]
        tauto
      · rw [hstarted, ← List.concat_eq_append]
        exact h.log.once.concat hnewStart
      · intro id hid
        rcases List.mem_append.mp (hstarted ▸ hid) with hold | hone
        · exact h.log.known id hold
        · rw [List.mem_singleton.mp hone]
          exact hknown
  case result => exact fun r hret => nomatch hret

/-- A joined result moves its node from `in_flight` to the settled nodes. -/
theorem Orderly.join_job (h : Orderly g initialInput tr s) {job : Job κ} {how : TaskEnd}
    {result : Except String String} {before after : List (Task κ)} (hpc : s.pc = .join)
    (htask : s.joinSet = before ++ ⟨job, some how⟩ :: after) :
    Orderly g initialInput (tr ++ [.joined job how])
      ({ s with joinSet := before ++ after }.settle g job result) := by
  have hlive : ∀ r, s.pc ≠ .returned r := by
    intro r
    rw [hpc]
    simp
  have hperm : s.taskIds.Perm
      (job.nodeId :: ({ s with joinSet := before ++ after }.settle g job result).taskIds) := by
    simp [RunState.taskIds, htask]
  have htasks := List.nodup_cons.mp (hperm.nodup_iff.mp h.tasks)
  have hjob : job.nodeId ∈ s.inFlight := h.flying _ (hperm.mem_iff.mpr List.mem_cons_self)
  have hjobApart := h.flightApart _ hjob
  constructor
  case tasks => exact htasks.2
  case flying =>
      intro id hid
      rw [RunState.settle_inFlight, Finset.mem_erase]
      refine ⟨?_, h.flying id (hperm.mem_iff.mpr (List.mem_cons_of_mem _ hid))⟩
      rintro rfl
      exact htasks.1 hid
  case flight =>
      intro _ id hid
      rw [RunState.settle_inFlight, Finset.mem_erase] at hid
      have hmem := hperm.mem_iff.mp (h.flight hlive id hid.2)
      exact (List.mem_cons.mp hmem).resolve_left hid.1
  case settledApart =>
      intro id hc hf
      rw [RunState.mem_settle_completed] at hc
      rw [RunState.mem_settle_failed] at hf
      rcases hc with hc | ⟨rfl, hok⟩
      · rcases hf with hf | ⟨rfl, -⟩
        · exact h.settledApart id hc hf
        · exact hjobApart (Or.inl hc)
      · rcases hf with hf | ⟨-, herr⟩
        · exact hjobApart (Or.inr hf)
        · rw [hok] at herr
          cases herr
  case flightApart =>
      intro id hid hset
      rw [RunState.settle_inFlight, Finset.mem_erase] at hid
      rcases RunState.settled_settle.mp hset with hold | heq
      · exact h.flightApart id hid.2 hold
      · exact hid.1 heq
  case queued =>
      intro rest hspawn
      rw [RunState.settle_pc] at hspawn
      cases hspawn
  case joining =>
      intro hjoin
      rw [RunState.settle_pc] at hjoin
      cases hjoin
  case log =>
      refine h.log.quiet rfl ?_
      intro id
      rw [RunState.settled_settle, RunState.settle_inFlight, Finset.mem_erase]
      show (s.Settled id ∨ id = job.nodeId) ∨ id ≠ job.nodeId ∧ id ∈ s.inFlight ↔
        s.Settled id ∨ id ∈ s.inFlight
      by_cases hid : id = job.nodeId
      · simp [hid, hjob]
      · simp [hid]
  case result =>
      intro r hret
      rw [RunState.settle_pc] at hret
      cases hret

/-- **One step keeps the order.** -/
theorem orderly_step (hids : g.ids.Nodup) (h : Orderly g initialInput tr s)
    (hstep : RunStep R g initialInput s e t) : Orderly g initialInput (tr ++ [e]) t := by
  cases hstep.move with
  | collect hpc =>
      have hlive : ∀ r, s.pc ≠ .returned r := by simp [hpc]
      exact
        { h with
          flight := fun _ => h.flight hlive
          queued := by
            rintro rest ⟨⟩
            rfl
          joining := fun hjoin => nomatch hjoin
          log := h.log.quiet rfl (fun _ => Iff.rfl)
          result := fun r hret => nomatch hret }
  | start hpc _ => exact h.start_job hids hpc
  | wait hpc busy =>
      have hlive : ∀ r, s.pc ≠ .returned r := by simp [hpc]
      exact
        { h with
          flight := fun _ => h.flight hlive
          queued := fun rest hspawn => nomatch hspawn
          joining := fun _ => busy
          log := h.log.quiet rfl (fun _ => Iff.rfl)
          result := fun r hret => nomatch hret }
  | stop hpc idle =>
      have hlive : ∀ r, s.pc ≠ .returned r := by simp [hpc]
      -- Nothing is in flight and nothing is left to spawn.
      have hempty : s.inFlight = ∅ := by
        rw [Finset.eq_empty_iff_forall_notMem]
        intro id hid
        have hmem := h.flight hlive id hid
        simp [RunState.taskIds, idle] at hmem
      exact
        { h with
          flight := fun hnot => absurd rfl (hnot _)
          queued := fun rest hspawn => nomatch hspawn
          joining := fun hjoin => nomatch hjoin
          log := h.log.quiet rfl (fun _ => Iff.rfl)
          result := by
            rintro r ⟨⟩
            exact ⟨rfl, h.queued [] hpc, hempty⟩ }
  | @finish job how before after task =>
      have hsame : RunState.taskIds { s with joinSet := before ++ ⟨job, some how⟩ :: after } =
          s.taskIds := by simp [RunState.taskIds, task]
      exact
        { h with
          tasks := hsame ▸ h.tasks
          flying := hsame ▸ h.flying
          flight := hsame ▸ h.flight
          joining := fun _ => by simp
          log := h.log.quiet rfl (fun _ => Iff.rfl) }
  | join hpc task => exact h.join_job hpc task
  | abort hpc task =>
      exact
        { h with
          tasks := List.nodup_nil
          flying := by simp [RunState.taskIds]
          flight := fun hnot => absurd rfl (hnot _)
          queued := fun rest hspawn => nomatch hspawn
          joining := fun hjoin => nomatch hjoin
          log := h.log.quiet rfl (fun _ => Iff.rfl)
          result := fun r hret => nomatch hret }

theorem orderly_of_runs (hvalid : g.validate = .ok ())
    (run : Runs (RunStep R g initialInput) (RunState.start g) tr s) :
    Orderly g initialInput tr s :=
  run.invariant (orderly_start g initialInput)
    (fun _ => orderly_step (TaskGraph.nodup_ids_of_validate hvalid))

/-! ## §5  Every run ends -/

namespace RunState

def unstarted (g : TaskGraph κ) (s : RunState κ) : Finset String :=
  g.ids.toFinset \ (s.completed.keys ∪ s.failed.keys ∪ s.inFlight)

theorem mem_unstarted {id : String} :
    id ∈ s.unstarted g ↔ id ∈ g.ids ∧ ¬ (s.Settled id ∨ id ∈ s.inFlight) := by
  simp only [unstarted, Settled, Finset.mem_sdiff, Finset.mem_union, List.mem_toFinset,
    Finmap.mem_keys]

end RunState

def RunPc.weight : RunPc κ → ℕ
  | .collect => 2
  | .spawn _ => 1
  | .join => 0
  | .returned _ => 0

/-- A bound on the steps that are left: an unstarted node has still to be started, a
running one to end, and every task to be joined, which costs another round. -/
def RunState.weight (g : TaskGraph κ) (s : RunState κ) : ℕ :=
  5 * (s.unstarted g).card + s.running + 3 * s.joinSet.length + s.pc.weight

theorem unstarted_start (h : Orderly g initialInput tr s) {job : Job κ} {rest : List (Job κ)}
    (hpc : s.pc = .spawn (job :: rest)) (joinSet : List (Task κ)) (pc : RunPc κ) :
    (RunState.unstarted g
      { s with inFlight := insert job.nodeId s.inFlight, joinSet := joinSet, pc := pc }).card + 1 =
        (s.unstarted g).card := by
  obtain ⟨-, hknown, hfresh⟩ := h.next_due hpc
  have hmem : job.nodeId ∈ s.unstarted g := RunState.mem_unstarted.mpr ⟨hknown, hfresh⟩
  rw [← Finset.card_erase_add_one hmem]
  congr 2
  ext id
  rw [Finset.mem_erase, RunState.mem_unstarted, RunState.mem_unstarted]
  simp only [RunState.Settled, Finset.mem_insert]
  tauto

theorem step_weight (h : Orderly g initialInput tr s) (hstep : RunStep R g initialInput s e t) :
    t.weight g + 1 ≤ s.weight g := by
  unfold RunState.weight RunState.running
  cases hstep.move with
  | collect hpc =>
      rw [hpc]
      exact le_refl _
  | @start job rest hpc _ =>
      have hcard := unstarted_start h hpc (s.joinSet ++ [⟨job, none⟩]) (.spawn rest)
      rw [← hcard, hpc]
      simp only [List.countP_append, List.countP_singleton, List.length_append,
        List.length_singleton, Option.isNone_none, if_true, RunPc.weight]
      omega
  | wait hpc _ =>
      rw [hpc]
      exact le_refl _
  | stop hpc _ =>
      rw [hpc]
      exact le_refl _
  | @finish job how before after task =>
      have hsame : RunState.unstarted g { s with joinSet := before ++ ⟨job, some how⟩ :: after } =
          s.unstarted g := rfl
      rw [task, hsame]
      simp only [List.countP_append, List.countP_cons, List.length_append, List.length_cons,
        Option.isNone_none, Option.isNone_some, if_true, Bool.false_eq_true, if_false]
      omega
  | @join job result before after hpc task =>
      have hjob : job.nodeId ∈ s.inFlight := by
        apply h.flying
        simp [RunState.taskIds, task]
      have hsame : ({ s with joinSet := before ++ after }.settle g job result).unstarted g =
          s.unstarted g := by
        ext id
        rw [RunState.mem_unstarted, RunState.mem_unstarted, RunState.settled_settle,
          RunState.settle_inFlight, Finset.mem_erase]
        simp only [RunState.Settled]
        by_cases hid : id = job.nodeId
        · simp [hid, hjob]
        · simp [hid]
      rw [hsame, RunState.settle_joinSet, RunState.settle_pc, task, hpc]
      simp only [List.countP_append, List.countP_cons, List.length_append, List.length_cons,
        Option.isNone_some, Bool.false_eq_true, if_false, RunPc.weight]
      omega
  | @abort job joinErr before after hpc task =>
      have hsame : RunState.unstarted g
          { s with
            joinSet := []
            pc := RunPc.returned (.error ("[task_graph] join error: " ++ joinErr)) } =
          s.unstarted g := rfl
      rw [task, hsame, hpc]
      simp only [List.countP_nil, List.length_nil, List.length_append, List.length_cons,
        RunPc.weight]
      omega

theorem weight_start (g : TaskGraph κ) :
    (RunState.start g).weight g ≤ 5 * g.nodes.length + 2 := by
  have hcard : ((RunState.start g).unstarted g).card ≤ g.nodes.length :=
    calc ((RunState.start g).unstarted g).card
        ≤ g.ids.toFinset.card := Finset.card_le_card Finset.sdiff_subset
      _ ≤ g.ids.length := List.toFinset_card_le _
      _ = g.nodes.length := List.length_map _
  have hpc : (RunState.start g).pc.weight ≤ 2 := by
    simp only [RunState.start]
    split <;> simp [RunPc.weight]
  have htasks : (RunState.start g).joinSet = [] := rfl
  unfold RunState.weight RunState.running
  rw [htasks, List.countP_nil, List.length_nil]
  omega

/-- Runs are no longer than five steps for each node and two. -/
theorem run_length_le (hvalid : g.validate = .ok ())
    (run : Runs (RunStep R g initialInput) (RunState.start g) tr s) :
    tr.length + s.weight g ≤ 5 * g.nodes.length + 2 := by
  refine run.invariant (P := fun tr s => tr.length + s.weight g ≤ 5 * g.nodes.length + 2)
    ?_ ?_
  · simpa using weight_start g
  · intro tr t e u run hle hstep
    have hlt := step_weight (orderly_of_runs hvalid run) hstep
    rw [List.length_append, List.length_singleton]
    omega

/-- The event is what `outcome` says: a task ends with the outcome of its job, and
never by a panic. -/
def RunEvent.Follows (outcome : Job κ → Except String String) : RunEvent κ → Prop
  | .ended job how => how = .returned (outcome job)
  | _ => True

instance (outcome : Job κ → Except String String) (e : RunEvent κ) :
    Decidable (e.Follows outcome) :=
  match e with
  | .ended job how => inferInstanceAs (Decidable (how = .returned (outcome job)))
  | .internal | .started _ | .joined _ _ => inferInstanceAs (Decidable True)

/-- Steps of runs whose outcomes are a function of the job. -/
def FollowStep (R : TaskGraphRunner) (g : TaskGraph κ) (initialInput : String)
    (outcome : Job κ → Except String String) (s : RunState κ) (e : RunEvent κ)
    (t : RunState κ) : Prop :=
  RunStep R g initialInput s e t ∧ e.Follows outcome

theorem runStep_of_followStep {outcome : Job κ → Except String String}
    (run : Runs (FollowStep R g initialInput outcome) (RunState.start g) tr s) :
    Runs (RunStep R g initialInput) (RunState.start g) tr s :=
  run.mono (fun _ _ _ _ h => h.1)

theorem runs_of_play {outcome : Job κ → Except String String} {choices : List RunChoice}
    (h : (R.play g initialInput choices).isSome = true)
    (hfollows : ∀ e ∈ ((R.play g initialInput choices).get h).1, e.Follows outcome) :
    Runs (FollowStep R g initialInput outcome) (RunState.start g)
      ((R.play g initialInput choices).get h).1 ((R.play g initialInput choices).get h).2 :=
  (runs_of_exec_isSome choices h).mono (fun e he _ _ hstep => ⟨hstep, hfollows e he⟩)

/-- Until it has returned, a run can go on, whatever the outcomes are. -/
theorem exists_followStep (h : Orderly g initialInput tr s)
    (hlive : ∀ r, s.pc ≠ .returned r) (outcome : Job κ → Except String String) :
    ∃ e t, FollowStep R g initialInput outcome s e t := by
  have hfinish : ∀ job : Job κ, ⟨job, none⟩ ∈ s.joinSet →
      ∃ e t, FollowStep R g initialInput outcome s e t := by
    intro job hjob
    obtain ⟨before, after, htask⟩ := List.append_of_mem hjob
    exact ⟨.ended job (.returned (outcome job)), _, (RunMove.finish htask).step, rfl⟩
  cases hpc : s.pc with
  | collect => exact ⟨.internal, _, (RunMove.collect hpc).step, trivial⟩
  | spawn toSpawn =>
      cases toSpawn with
      | nil =>
          by_cases hidle : s.joinSet = []
          · exact ⟨.internal, _, (RunMove.stop hpc hidle).step, trivial⟩
          · exact ⟨.internal, _, (RunMove.wait hpc hidle).step, trivial⟩
      | cons job rest =>
          by_cases hpermit : s.running < R.maxConcurrent
          · exact ⟨.started job, _, (RunMove.start hpc hpermit).step, trivial⟩
          · -- All permits are held, so some task is running and can end.
            have hpos : 0 < s.running := lt_of_lt_of_le R.positive (not_lt.mp hpermit)
            obtain ⟨⟨job', ended⟩, htask, hended⟩ := List.countP_pos_iff.mp hpos
            obtain rfl : ended = none := by simpa using hended
            exact hfinish job' htask
  | join =>
      obtain ⟨⟨job, ended⟩, tasks, htasks⟩ := List.exists_cons_of_ne_nil (h.joining hpc)
      cases ended with
      | none => exact hfinish job (by simp [htasks])
      | some how =>
          cases how with
          | returned result =>
              have hmove := @RunMove.join _ R g initialInput s job result [] tasks hpc htasks
              exact ⟨_, _, hmove.step, trivial⟩
          | panicked joinErr =>
              have hmove := @RunMove.abort _ R g initialInput s job joinErr [] tasks hpc htasks
              exact ⟨_, _, hmove.step, trivial⟩
  | returned r => exact absurd hpc (hlive r)

/-- Every run can be brought to its end. -/
theorem exists_returned (hvalid : g.validate = .ok ()) (outcome : Job κ → Except String String)
    (run : Runs (FollowStep R g initialInput outcome) (RunState.start g) tr s) :
    ∃ tr' t r, Runs (FollowStep R g initialInput outcome) (RunState.start g) tr' t ∧
      t.pc = .returned r := by
  generalize hw : s.weight g = w
  induction w using Nat.strong_induction_on generalizing tr s with
  | _ w ih =>
      have horder := orderly_of_runs hvalid (runStep_of_followStep run)
      by_cases hlive : ∀ r, s.pc ≠ .returned r
      · obtain ⟨e, t, hstep⟩ := @exists_followStep _ R _ _ _ _ horder hlive outcome
        have hlt := step_weight horder hstep.1
        exact ih (t.weight g) (by omega) (run.snoc hstep) rfl
      · obtain ⟨r, hr⟩ := not_forall_not.mp hlive
        exact ⟨tr, s, r, run, hr⟩

end

end Oclaw.AgentCore
