import Oclaw.AgentCore.TaskFlow

/-!
# Conditional branches of a task graph

Which links a settled node follows, and what a start says about the nodes that
link to it. A node is eligible when a link activated it or when it is a root; the
runner seeds the activation set with every root before its loop, so a link to a
root decides nothing.
-/

namespace Oclaw.AgentCore

open Oclaw.Lib

variable {κ : Type*}

/-! ## §1  Links and branches -/

/-- The links that a node follows when it succeeds, and when it fails. -/
def TaskNode.links (node : TaskNode κ) (succeeded : Bool) : List String :=
  if succeeded then node.onSuccess else node.onFailure

/-- The node is listed on one side only: as a success target of some node and as a
failure target of none, or the other way around. -/
def TaskGraph.ListedOnly (g : TaskGraph κ) (succeeded : Bool) (id : String) : Prop :=
  (∃ node ∈ g.nodes, id ∈ node.links succeeded) ∧
    ∀ node ∈ g.nodes, id ∉ node.links (!succeeded)

/-- Some node that lists `id` on this side was joined with that result. -/
def BranchTaken (g : TaskGraph κ) (tr : List (RunEvent κ)) (succeeded : Bool)
    (id : String) : Prop :=
  ∃ node ∈ g.nodes, id ∈ node.links succeeded ∧ ∃ job result,
    RunEvent.joined job (.returned result) ∈ tr ∧ job.nodeId = node.id ∧
      result.isOk = succeeded

theorem BranchTaken.mono {g : TaskGraph κ} {tr tr' : List (RunEvent κ)} {succeeded : Bool}
    {id : String} (h : BranchTaken g tr succeeded id) (hsub : tr ⊆ tr') :
    BranchTaken g tr' succeeded id := by
  obtain ⟨node, hnode, hlink, job, result, hjoined, hjob⟩ := h
  exact ⟨node, hnode, hlink, job, result, hsub hjoined, hjob⟩

/-- A node listed on one side only is reached by a branch of that side. -/
theorem TaskGraph.ListedOnly.side {g : TaskGraph κ} {tr : List (RunEvent κ)}
    {succeeded side : Bool} {id : String} (h : g.ListedOnly succeeded id)
    (htaken : BranchTaken g tr side id) : side = succeeded := by
  obtain ⟨node, hnode, hlink, -⟩ := htaken
  by_contra hne
  have hside : side = !succeeded := by
    cases side <;> cases succeeded <;> simp_all
  exact h.2 node hnode (hside ▸ hlink)

theorem mem_targets {g : TaskGraph κ} {id target : String} {result : Except String String}
    (h : target ∈ g.targets id result) :
    ∃ node ∈ g.nodes, node.id = id ∧ target ∈ node.links result.isOk := by
  unfold TaskGraph.targets at h
  split at h
  · rename_i node hfind
    have hid : node.id = id := by simpa using List.find?_some hfind
    refine ⟨node, List.mem_of_find?_eq_some hfind, hid, ?_⟩
    cases result <;> exact h
  · cases h

theorem mem_seeds {g : TaskGraph κ} (hids : g.ids.Nodup) {node : TaskNode κ}
    (hnode : node ∈ g.nodes) : node.id ∈ g.seeds ↔ node.dependsOn = [] := by
  simp only [TaskGraph.seeds, List.mem_toFinset, List.mem_map, List.mem_filter,
    List.isEmpty_iff]
  constructor
  · rintro ⟨other, ⟨hother, hroot⟩, hid⟩
    rwa [← List.inj_on_of_nodup_map hids hother hnode hid]
  · intro hroot
    exact ⟨node, ⟨hnode, hroot⟩, rfl⟩

section

variable {R : TaskGraphRunner} {g : TaskGraph κ} {initialInput : String}
variable {s t : RunState κ} {e : RunEvent κ} {tr : List (RunEvent κ)}

/-! ## §2  Why a node is activated -/

/-- Every activated node is a root or was reached by a branch. -/
def Branched (g : TaskGraph κ) (tr : List (RunEvent κ)) (s : RunState κ) : Prop :=
  ∀ id ∈ s.activated, id ∈ g.seeds ∨ ∃ side, BranchTaken g tr side id

theorem branched_step (h : Branched g tr s) (hstep : RunStep R g initialInput s e t) :
    Branched g (tr ++ [e]) t := by
  have hold : ∀ id ∈ s.activated, id ∈ g.seeds ∨ ∃ side, BranchTaken g (tr ++ [e]) side id := by
    intro id hid
    rcases h id hid with hseed | ⟨side, htaken⟩
    · exact .inl hseed
    · exact .inr ⟨side, htaken.mono (List.subset_append_left _ _)⟩
  cases hstep.move with
  | @join job result before after hpc task =>
      -- the only move that activates anything: the links of the joined node
      intro id hid
      rw [RunState.settle_activated, Finset.mem_union, List.mem_toFinset] at hid
      rcases hid with hid | hid
      · exact hold id hid
      · obtain ⟨node, hnode, hnid, hlink⟩ := mem_targets hid
        exact .inr ⟨result.isOk, node, hnode, hlink, job, result, by simp, hnid.symm, rfl⟩
  | _ => exact hold

theorem branched_of_runs (run : Runs (RunStep R g initialInput) (RunState.start g) tr s) :
    Branched g tr s :=
  run.invariant (P := Branched g) (fun _ hid => .inl hid) (fun _ => branched_step)

/-- What was started is a root or was reached by a branch of an earlier join. -/
theorem start_branched (hvalid : g.validate = .ok ())
    (run : Runs (RunStep R g initialInput) (RunState.start g) tr s)
    {pre post : List (RunEvent κ)} {job : Job κ} (htr : tr = pre ++ .started job :: post) :
    job.nodeId ∈ g.seeds ∨ ∃ side, BranchTaken g pre side job.nodeId := by
  subst htr
  obtain ⟨u, hpre, hrest⟩ := run.split
  obtain ⟨v, hstep, -⟩ := hrest.uncons
  have hdue := started_due (orderly_of_runs hvalid hpre) hstep
  obtain ⟨node, -, -, -, -, hactive, -, rfl⟩ := RunState.mem_toSpawn.mp hdue
  exact branched_of_runs hpre _ hactive

/-- A run that has returned a result has started every root. -/
theorem root_started (hvalid : g.validate = .ok ())
    (run : Runs (RunStep R g initialInput) (RunState.start g) tr s)
    {r : TaskGraphResult} (hret : s.pc = .returned (.ok r)) {node : TaskNode κ}
    (hnode : node ∈ g.nodes) (hroot : node.dependsOn = []) : node.id ∈ startedIds tr := by
  have horder := orderly_of_runs hvalid run
  have hactive : node.id ∈ s.activated :=
    (supplied_of_runs hvalid run).seeds
      ((mem_seeds (TaskGraph.nodup_ids_of_validate hvalid) hnode).mpr hroot)
  obtain ⟨-, hdone, hempty⟩ := horder.result r hret
  rw [horder.log.started]
  by_contra hnot
  rw [not_or, RunState.Settled, not_or] at hnot
  have hdue : node.job s.completed initialInput ∈ s.toSpawn g initialInput :=
    RunState.mem_toSpawn.mpr
      ⟨node, hnode, hnot.1.1, hnot.1.2, by simp [hroot], hactive, hnot.2, rfl⟩
  rw [hdone] at hdue
  cases hdue

end

/-! ## §3  Conditional branching -/

/-- **Branching decides for nodes with dependencies.** In every run of a validated
graph, a node with at least one dependency that is listed on one side only is
started only after a node that lists it was joined with a result of that side. A
root is started in every run that returns a result, whatever lists name it. -/
theorem branch_before_start (R : TaskGraphRunner) (g : TaskGraph κ) (initialInput : String)
    (hvalid : g.validate = .ok ()) {tr : List (RunEvent κ)} {s : RunState κ}
    (run : Runs (RunStep R g initialInput) (RunState.start g) tr s) :
    (∀ pre job post, tr = pre ++ .started job :: post →
      ∀ node ∈ g.nodes, node.id = job.nodeId → node.dependsOn ≠ [] →
        ∀ side, g.ListedOnly side node.id → BranchTaken g pre side node.id) ∧
    ∀ r, s.pc = .returned (.ok r) →
      ∀ node ∈ g.nodes, node.dependsOn = [] → node.id ∈ startedIds tr := by
  refine ⟨?_, fun r hret node hnode hroot => root_started hvalid run hret hnode hroot⟩
  intro pre job post htr node hnode hid hdeps side hlisted
  have hids := TaskGraph.nodup_ids_of_validate hvalid
  rcases start_branched hvalid run htr with hseed | ⟨side', htaken⟩
  · rw [← hid, mem_seeds hids hnode] at hseed
    exact absurd hseed hdeps
  · rw [← hid] at htaken
    rwa [← hlisted.side htaken]

/-- The report of `reportGraph` waits for its page, so it is started only after the
linter has failed. -/
theorem report_after_lint :
    BranchTaken reportGraph
      (((TaskGraphRunner.new.play reportGraph "go" reportSchedule).get
        reportSchedule_plays).1.take 11) false "report" := by
  have run := runs_of_exec_isSome reportSchedule reportSchedule_plays
  have hstart : ((TaskGraphRunner.new.play reportGraph "go" reportSchedule).get
      reportSchedule_plays).1[11]? = some (.started ⟨"report", (), "explain <page>"⟩) := by
    decide
  have hlisted : reportGraph.ListedOnly false "report" := by
    simp [TaskGraph.ListedOnly, TaskNode.links, reportGraph]
  exact (branch_before_start .new reportGraph "go" (by decide) run).1 _ _ _
    (split_at_getElem? hstart) ⟨"report", (), ["fetch"], [], [], some "fetch",
      some "explain \x7boutput\x7d", none⟩ (by simp [reportGraph]) rfl (by simp) false hlisted

/-- A deployment with a rollback that has no dependency of its own. -/
def deployGraph : TaskGraph Unit :=
  ⟨[⟨"deploy", (), [], [], ["rollback"], none, none, none⟩,
    ⟨"rollback", (), [], [], [], none, none, none⟩]⟩

/-- The deployment succeeds. -/
def deploySchedule : List RunChoice :=
  [.advance, .advance, .advance, .finish 0 (.returned (.ok "deployed")), .advance, .joinNext 0]

theorem deploySchedule_plays :
    (TaskGraphRunner.new.play deployGraph "go" deploySchedule).isSome = true := by
  decide

/-- The failure handler is started although the only node that lists it succeeds. -/
theorem rollback_without_failure :
    deployGraph.validate = .ok () ∧ deployGraph.ListedOnly false "rollback" ∧
    ∃ tr s, Runs (RunStep .new deployGraph "go") (RunState.start deployGraph) tr s ∧
      "rollback" ∈ startedIds tr ∧ "deploy" ∈ s.completed ∧
      ¬ BranchTaken deployGraph tr false "rollback" := by
  refine ⟨by decide, by simp [TaskGraph.ListedOnly, TaskNode.links, deployGraph],
    _, _, runs_of_exec_isSome deploySchedule deploySchedule_plays, by decide,
    by decide, ?_⟩
  rintro ⟨node, hnode, hlink, job, result, hjoined, hjob, hfailed⟩
  have htr : ((TaskGraphRunner.new.play deployGraph "go" deploySchedule).get
      deploySchedule_plays).1 =
        [.internal, .started ⟨"deploy", (), "go"⟩, .started ⟨"rollback", (), "go"⟩,
          .ended ⟨"deploy", (), "go"⟩ (.returned (.ok "deployed")), .internal,
          .joined ⟨"deploy", (), "go"⟩ (.returned (.ok "deployed"))] := by
    decide
  -- the one result that was joined is a success
  have hjoined' := htr ▸ hjoined
  simp only [List.mem_cons, reduceCtorEq, RunEvent.joined.injEq, TaskEnd.returned.injEq,
    List.not_mem_nil, or_false, false_or] at hjoined'
  rw [hjoined'.2] at hfailed
  cases hfailed

end Oclaw.AgentCore
