import Oclaw.AgentCore.TaskFlow

/-!
# Data flow between tasks

A node with `input_from` is meant to be given the output of another node.
`validate` checks that this node exists, and nothing else: whether it has
completed before its reader starts is left to `depends_on` and to the links.

`Reaches` asks what these allow. It fixes which nodes succeed and which fail, and
says which nodes can then be activated and started. A run starts a reader without
its source exactly when the reader can be reached in some case where the source
fails.
-/

namespace Oclaw.AgentCore

open Oclaw.Lib

variable {κ : Type*}

/-! ## §1  What the links of a graph allow -/

inductive Milestone : Type where
  | activated (id : String)
  | started (id : String)

/-- The milestones of a run in which exactly the nodes of `succeeds` succeed. -/
inductive Reaches (g : TaskGraph κ) (succeeds : String → Bool) : Milestone → Prop where
  | root {node : TaskNode κ} (mem : node ∈ g.nodes) (free : node.dependsOn = []) :
      Reaches g succeeds (.activated node.id)
  | success {node : TaskNode κ} {target : String} (mem : node ∈ g.nodes)
      (ran : Reaches g succeeds (.started node.id)) (ok : succeeds node.id = true)
      (link : target ∈ node.onSuccess) : Reaches g succeeds (.activated target)
  | failure {node : TaskNode κ} {target : String} (mem : node ∈ g.nodes)
      (ran : Reaches g succeeds (.started node.id)) (fails : succeeds node.id = false)
      (link : target ∈ node.onFailure) : Reaches g succeeds (.activated target)
  | start {node : TaskNode κ} (mem : node ∈ g.nodes)
      (active : Reaches g succeeds (.activated node.id))
      (deps : ∀ dep ∈ node.dependsOn, Reaches g succeeds (.started dep))
      (ok : ∀ dep ∈ node.dependsOn, succeeds dep = true) :
      Reaches g succeeds (.started node.id)

/-- No node can be started in a case where the source of its input fails. -/
def TaskGraph.InputsOrdered (g : TaskGraph κ) : Prop :=
  ∀ node ∈ g.nodes, ∀ p, node.inputFrom = some p →
    ∀ succeeds : String → Bool, succeeds p = false → ¬ Reaches g succeeds (.started node.id)

section

variable {R : TaskGraphRunner} {g : TaskGraph κ} {initialInput : String}
variable {outcome : Job κ → Except String String} {succeeds : String → Bool}
variable {s t : RunState κ} {e : RunEvent κ} {tr : List (RunEvent κ)}

theorem Reaches.dependency {p id : String} (hids : g.ids.Nodup)
    (h : Reaches g succeeds (.started id)) (hdep : g.DependsOn p id) :
    Reaches g succeeds (.started p) ∧ succeeds p = true := by
  obtain ⟨node, hnode, rfl, hp⟩ := hdep
  generalize hm : Milestone.started node.id = m at h
  cases h with
  | start hmem _ hdeps hok =>
      obtain rfl := List.inj_on_of_nodup_map hids hnode hmem (Milestone.started.inj hm)
      exact ⟨hdeps p hp, hok p hp⟩
  | _ => cases hm

theorem Reaches.ancestor {p id : String} (hids : g.ids.Nodup)
    (h : Reaches g succeeds (.started id)) (hanc : Relation.TransGen g.DependsOn p id) :
    succeeds p = true := by
  induction hanc with
  | single hdep => exact (h.dependency hids hdep).2
  | tail _ hdep ih => exact ih (h.dependency hids hdep).1

/-- An input from an ancestor is ordered. -/
theorem inputsOrdered_of_ancestors (hids : g.ids.Nodup) (hfrom : g.InputFromAncestors) :
    g.InputsOrdered := by
  intro node hnode p hp succeeds hfails h
  rw [h.ancestor hids (hfrom node hnode p hp)] at hfails
  cases hfails

/-! ## §2  Runs stay within what is reachable -/

/-- `succeeds` is right about the nodes that are settled. -/
def RunState.Agrees (s : RunState κ) (succeeds : String → Bool) : Prop :=
  ∀ id r, s.ledger.Records id r → succeeds id = r.isOk

theorem targets_eq (hids : g.ids.Nodup) {node : TaskNode κ} (hnode : node ∈ g.nodes)
    (result : Except String String) :
    g.targets node.id result = if result.isOk then node.onSuccess else node.onFailure := by
  unfold TaskGraph.targets
  rw [TaskGraph.find_eq_some hids hnode]
  cases result <;> simp [Except.isOk, Except.toBool]

/-- What is activated and what was started is reachable, in every case that agrees
with the results so far. -/
def WithinReach (g : TaskGraph κ) (tr : List (RunEvent κ)) (s : RunState κ) : Prop :=
  ∀ succeeds, s.Agrees succeeds →
    (∀ id ∈ s.activated, Reaches g succeeds (.activated id)) ∧
    ∀ id ∈ startedIds tr, Reaches g succeeds (.started id)

theorem withinReach_start (g : TaskGraph κ) : WithinReach g [] (RunState.start g) := by
  intro succeeds _
  refine ⟨?_, by simp [startedIds]⟩
  intro id hid
  simp only [RunState.start, TaskGraph.seeds, List.mem_toFinset, List.mem_map, List.mem_filter,
    List.isEmpty_iff] at hid
  obtain ⟨node, ⟨hnode, hfree⟩, rfl⟩ := hid
  exact .root hnode hfree

theorem withinReach_step (hids : g.ids.Nodup) (horder : Orderly g initialInput tr s)
    (h : WithinReach g tr s) (hstep : RunStep R g initialInput s e t) :
    WithinReach g (tr ++ [e]) t := by
  intro succeeds hagrees
  have hle := ledger_le_step horder hstep
  obtain ⟨hactive, hstarted⟩ := h succeeds (fun id r hr => hagrees id r (hle.2 id r hr))
  constructor
  · intro id hid
    cases hstep.move with
    | @join job result before after hpc task =>
        rw [RunState.settle_activated, Finset.mem_union, List.mem_toFinset] at hid
        rcases hid with hold | htarget
        · exact hactive id hold
        · have hjob : (⟨job, some (.returned result)⟩ : Task κ) ∈ s.joinSet := by simp [task]
          have hlog := mem_started_of_task horder hjob
          obtain ⟨node, hnode, hnid⟩ := List.mem_map.mp (horder.log.known _ hlog)
          have hsucceeds : succeeds node.id = result.isOk := by
            rw [hnid]
            exact hagrees job.nodeId result (settle_records_self job result)
          rw [← hnid, targets_eq hids hnode] at htarget
          rw [← hnid] at hlog
          cases hok : result.isOk with
          | true =>
              rw [hok, if_pos rfl] at htarget
              exact .success hnode (hstarted _ hlog) (hsucceeds.trans hok) htarget
          | false =>
              rw [hok, if_neg Bool.false_ne_true] at htarget
              exact .failure hnode (hstarted _ hlog) (hsucceeds.trans hok) htarget
    | _ => exact hactive id hid
  · intro id hid
    rw [startedIds_snoc, List.mem_append] at hid
    rcases hid with hold | hone
    · exact hstarted id hold
    · cases e with
      | started job =>
          obtain rfl : id = job.nodeId := List.mem_singleton.mp hone
          obtain ⟨node, hnode, -, -, hdeps, hnodeActive, -, rfl⟩ :=
            RunState.mem_toSpawn.mp (started_due horder hstep)
          refine .start hnode (hactive _ hnodeActive) ?_ ?_
          · intro dep hdep
            exact hstarted dep ((horder.log.started dep).mpr (Or.inl (Or.inl (hdeps dep hdep))))
          · intro dep hdep
            obtain ⟨output, hout⟩ := Finmap.mem_iff.mp (hdeps dep hdep)
            exact hagrees dep (.ok output) (hle.2 dep (.ok output) hout)
      | _ => cases hone

theorem withinReach_of_runs (hvalid : g.validate = .ok ())
    (run : Runs (RunStep R g initialInput) (RunState.start g) tr s) : WithinReach g tr s :=
  run.invariant (withinReach_start g) (fun run h hstep =>
    withinReach_step (TaskGraph.nodup_ids_of_validate hvalid) (orderly_of_runs hvalid run) h hstep)

/-! ## §3  What is reachable is reached -/

/-- Outcomes by which exactly the nodes of `succeeds` succeed. -/
def verdict (succeeds : String → Bool) (job : Job κ) : Except String String :=
  if succeeds job.nodeId then .ok "" else .error ""

theorem stable_verdict (g : TaskGraph κ) (initialInput : String) (succeeds : String → Bool) :
    Stable g initialInput (verdict succeeds) :=
  fun _ _ _ _ _ _ _ => rfl

/-- The ledger shows that a milestone was passed. -/
def Ledger.Shows (L : Ledger) (succeeds : String → Bool) : Milestone → Prop
  | .activated id => id ∈ L.activated
  | .started id => L.Records id (if succeeds id then .ok "" else .error "")

theorem Reaches.shown {L : Ledger} {m : Milestone} (hids : g.ids.Nodup)
    (hL : L.Closed g initialInput (verdict succeeds)) (h : Reaches g succeeds m) :
    L.Shows succeeds m := by
  induction h with
  | @root node hmem hfree =>
      apply hL.seeds
      simp only [TaskGraph.seeds, List.mem_toFinset, List.mem_map, List.mem_filter,
        List.isEmpty_iff]
      exact ⟨node, ⟨hmem, hfree⟩, rfl⟩
  | @success node target hmem _ hok hlink ih =>
      simp only [Ledger.Shows, hok, if_true] at ih
      refine hL.links node.id _ ih target ?_
      rw [targets_eq hids hmem]
      exact hlink
  | @failure node target hmem _ hfails hlink ih =>
      simp only [Ledger.Shows, hfails, Bool.false_eq_true, if_false] at ih
      refine hL.links node.id _ ih target ?_
      rw [targets_eq hids hmem]
      exact hlink
  | @start node hmem _ _ hok ihactive ihdeps =>
      refine hL.runs node hmem ihactive ?_
      intro dep hdep
      have hrec := ihdeps dep hdep
      simp only [Ledger.Shows, hok dep hdep, if_true] at hrec
      exact Finmap.mem_of_lookup_eq_some hrec

/-! ## §4  Data flow -/

/-- The source `p` has completed along the trace, with this output. -/
def Delivered (tr : List (RunEvent κ)) (p output : String) : Prop :=
  ∃ job : Job κ, job.nodeId = p ∧ .joined job (.returned (.ok output)) ∈ tr

/-- The input that a node makes of the output it reads. -/
def TaskNode.filled (node : TaskNode κ) (output : String) : String :=
  match node.inputTemplate with
  | some template => replace template "\x7boutput\x7d" output
  | none => output

/-- Every node that reads from `p` is started after `p` has completed, with an
input that is made of its output. -/
def DataFlows (g : TaskGraph κ) (tr : List (RunEvent κ)) : Prop :=
  ∀ pre job post, tr = pre ++ .started job :: post → ∀ node ∈ g.nodes, node.id = job.nodeId →
    ∀ p, node.inputFrom = some p →
      ∃ output, Delivered pre p output ∧ job.input = node.filled output

theorem resolveInput_of_lookup {node : TaskNode κ} {p output : String} {completed : Outputs}
    (hp : node.inputFrom = some p) (hout : completed.lookup p = some output) :
    TaskGraph.resolveInput node completed initialInput = node.filled output := by
  simp only [TaskGraph.resolveInput, TaskNode.filled, hp, hout]
  cases node.inputTemplate <;> rfl

/-- What is recorded was joined. -/
theorem joined_of_records (run : Runs (RunStep R g initialInput) (RunState.start g) tr s) :
    ∀ id r, s.ledger.Records id r →
      ∃ job : Job κ, job.nodeId = id ∧ .joined job (.returned r) ∈ tr := by
  induction run with
  | nil =>
      rintro id (error | output) hr <;> simp [RunState.ledger, RunState.start, Ledger.Records] at hr
  | @snoc tr s t e run hstep ih =>
      intro id r hr
      have hold : s.ledger.Records id r →
          ∃ job : Job κ, job.nodeId = id ∧ .joined job (.returned r) ∈ tr ++ [e] := by
        intro hr'
        obtain ⟨job, hid, hmem⟩ := ih id r hr'
        exact ⟨job, hid, List.mem_append_left _ hmem⟩
      cases hstep.move with
      | @join job result before after hpc task =>
          rcases records_of_settle hr with hr' | ⟨rfl, rfl⟩
          · exact hold hr'
          · exact ⟨job, rfl, by simp⟩
      | _ => exact hold hr

/-- In a run that follows `outcome`, so do the joined results. -/
theorem joined_follows (hvalid : g.validate = .ok ()) (hstable : Stable g initialInput outcome)
    (run : Runs (FollowStep R g initialInput outcome) (RunState.start g) tr s) {job : Job κ}
    {result : Except String String} (h : .joined job (.returned result) ∈ tr) :
    result = outcome job := by
  induction run with
  | nil => cases h
  | @snoc tr s t e run hstep ih =>
      rcases List.mem_append.mp h with hold | hone
      · exact ih hold
      · obtain rfl := List.mem_singleton.mp hone
        cases hstep.1.move with
        | join hpc task =>
            exact (consistent_of_runs hvalid hstable run).joined_outcome (by simp [task])

theorem exists_start {id : String} (h : id ∈ startedIds tr) :
    ∃ pre job post, tr = pre ++ RunEvent.started job :: post ∧ job.nodeId = id := by
  obtain ⟨e, he, hid⟩ := List.mem_flatMap.mp h
  obtain ⟨pre, post, htr⟩ := List.append_of_mem he
  cases e with
  | started job => exact ⟨pre, job, post, htr, (List.mem_singleton.mp hid).symm⟩
  | _ => cases hid

/-- In a graph with ordered inputs the source is in `completed` when its reader
starts. -/
theorem InputsOrdered.source_completed (hord : g.InputsOrdered) (hvalid : g.validate = .ok ())
    (run : Runs (RunStep R g initialInput) (RunState.start g) tr s) {job : Job κ}
    (hstep : RunStep R g initialInput s (.started job) t) {node : TaskNode κ}
    (hnode : node ∈ g.nodes) (hid : node.id = job.nodeId) {p : String}
    (hp : node.inputFrom = some p) : p ∈ s.completed := by
  have horder := orderly_of_runs hvalid run
  by_contra hmissing
  -- The case to look at: the nodes that have completed are the ones that succeed.
  have hagrees : t.Agrees (fun id => decide (id ∈ s.completed)) := by
    have hsame : t.ledger = s.ledger := by
      cases hstep.move
      rfl
    intro id r hr
    rw [hsame] at hr
    cases r with
    | ok output =>
        have hcompleted : id ∈ s.completed := Finmap.mem_of_lookup_eq_some hr
        simpa [Except.isOk, Except.toBool] using hcompleted
    | error error =>
        have hfailed : id ∈ s.failed := Finmap.mem_of_lookup_eq_some hr
        simpa [Except.isOk, Except.toBool] using fun hc => horder.settledApart id hc hfailed
  have hreach := (withinReach_of_runs hvalid (run.snoc hstep) _ hagrees).2 job.nodeId
    (by simp [startedIds_snoc, RunEvent.startedId])
  rw [← hid] at hreach
  exact hord node hnode p hp _ (by simpa using hmissing) hreach

end

/-- **Data flow.** Every run of a validated graph starts readers after their sources,
on their outputs, if and only if no reader can be reached in a case where its source
fails. -/
theorem inputs_flow_iff_ordered (R : TaskGraphRunner) (g : TaskGraph κ) (initialInput : String)
    (hvalid : g.validate = .ok ()) :
    (∀ tr s, Runs (RunStep R g initialInput) (RunState.start g) tr s → DataFlows g tr) ↔
      g.InputsOrdered := by
  have hids := TaskGraph.nodup_ids_of_validate hvalid
  constructor
  · intro hflows node hnode p hp succeeds hfails hreach
    -- Run the graph in the case where the source fails; the reader is started.
    have hstable := stable_verdict g initialInput succeeds
    obtain ⟨tr, s, r, run, hret⟩ :=
      @exists_returned _ R g initialInput _ _ hvalid (verdict succeeds) Runs.nil
    have hclosed := (closed_of_returned hvalid hstable run hret).2
    have hrec := hreach.shown hids hclosed
    have hlog : node.id ∈ startedIds tr :=
      ((orderly_of_runs hvalid (runStep_of_followStep run)).log.started _).mpr
        (Or.inl (settled_iff_records.mpr ⟨_, hrec⟩))
    obtain ⟨pre, job, post, htr, hid⟩ := exists_start hlog
    obtain ⟨output, ⟨source, hsource, hjoined⟩, -⟩ :=
      hflows tr s (runStep_of_followStep run) pre job post htr node hnode hid.symm p hp
    have hout : Except.ok output = verdict succeeds source := by
      apply joined_follows hvalid hstable run
      rw [htr]
      exact List.mem_append_left _ hjoined
    rw [verdict, hsource, hfails, if_neg Bool.false_ne_true] at hout
    cases hout
  · rintro hord tr s run pre job post rfl node hnode hid p hp
    obtain ⟨t, hpre, hrest⟩ := run.split
    obtain ⟨u, hstep, -⟩ := hrest.uncons
    have hmem := InputsOrdered.source_completed hord hvalid hpre hstep hnode hid hp
    obtain ⟨output, hout⟩ := Finmap.mem_iff.mp hmem
    refine ⟨output, joined_of_records hpre p (.ok output) hout, ?_⟩
    obtain ⟨other, hother, -, -, -, -, -, rfl⟩ :=
      RunState.mem_toSpawn.mp (started_due (orderly_of_runs hvalid hpre) hstep)
    obtain rfl := List.inj_on_of_nodup_map hids hother hnode hid.symm
    exact resolveInput_of_lookup hp hout

/-- The reader waits for nothing but names the draft as its source. -/
def reviewNode : TaskNode Unit :=
  ⟨"review", (), [], [], [], some "draft", some "review: \x7boutput\x7d", none⟩

def reviewGraph : TaskGraph Unit :=
  ⟨[⟨"draft", (), [], [], [], none, none, none⟩, reviewNode]⟩

def reviewSchedule : List RunChoice := [.advance, .advance, .advance]

theorem reviewSchedule_plays :
    (TaskGraphRunner.new.play reviewGraph "go" reviewSchedule).isSome = true := by
  decide

theorem reviewSchedule_trace :
    ((TaskGraphRunner.new.play reviewGraph "go" reviewSchedule).get reviewSchedule_plays).1 =
      [.internal, .started ⟨"draft", (), "go"⟩, .started ⟨"review", (), "review: "⟩] := by
  decide

/-- Both nodes are started at once, the reader on an empty draft. -/
theorem review_starts_without_draft :
    reviewGraph.validate = .ok () ∧
    ∃ tr s, Runs (RunStep .new reviewGraph "go") (RunState.start reviewGraph) tr s ∧
      .started ⟨"review", (), "review: "⟩ ∈ tr ∧ ¬ DataFlows reviewGraph tr := by
  refine ⟨by decide, _, _, runs_of_exec_isSome reviewSchedule reviewSchedule_plays,
    ?_, ?_⟩
  · exact reviewSchedule_trace ▸ by simp
  · intro hflows
    obtain ⟨output, ⟨source, -, hjoined⟩, -⟩ :=
      hflows [.internal, .started ⟨"draft", (), "go"⟩] ⟨"review", (), "review: "⟩ []
        reviewSchedule_trace reviewNode (by simp [reviewGraph]) rfl "draft" rfl
    simp at hjoined

/-- The report of `reportGraph` is always started on the fetched page. -/
theorem report_reads_fetched_page :
    reportGraph.validate = .ok () ∧
      ∀ tr s, Runs (RunStep .new reportGraph "go") (RunState.start reportGraph) tr s →
        DataFlows reportGraph tr := by
  have hvalid : reportGraph.validate = .ok () := by decide
  refine ⟨hvalid, (inputs_flow_iff_ordered .new reportGraph "go" hvalid).mpr ?_⟩
  exact inputsOrdered_of_ancestors (TaskGraph.nodup_ids_of_validate hvalid)
    reportGraph_ancestors

end Oclaw.AgentCore
