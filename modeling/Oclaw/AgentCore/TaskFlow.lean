import Mathlib.Order.Bounds.Basic
import Mathlib.Logic.Relation
import Oclaw.AgentCore.TaskRunner

/-!
# What a task graph computes

The scheduler's purpose without its schedule. A `Ledger` says which nodes are
activated and what the nodes that ran ended with; it is closed when it follows the
rules of the graph: roots are activated, a settled node activates its links, and an
activated node whose dependencies have completed has the outcome of its job.

A run only ever records what every closed ledger records, and when it returns its
own ledger is closed. So it returns the least closed ledger, whatever the order in
which tasks end and however many may run at once.
-/

namespace Oclaw.AgentCore

open Oclaw.Lib

variable {κ : Type*}

/-! ## §1  Ledgers -/

structure Ledger where
  activated : Finset String
  completed : Outputs
  failed : Outputs

namespace Ledger

def Records (L : Ledger) (id : String) : Except String String → Prop
  | .ok output => L.completed.lookup id = some output
  | .error error => L.failed.lookup id = some error

/-- A ledger is below another one that has everything it has. -/
instance : PartialOrder Ledger where
  le L M := L.activated ⊆ M.activated ∧ ∀ id r, L.Records id r → M.Records id r
  le_refl L := ⟨Finset.Subset.refl _, fun _ _ h => h⟩
  le_trans L M N hLM hMN := ⟨hLM.1.trans hMN.1, fun id r h => hMN.2 id r (hLM.2 id r h)⟩
  le_antisymm L M hLM hML := by
    obtain ⟨a, c, f⟩ := L
    obtain ⟨a', c', f'⟩ := M
    have ha : a = a' := Finset.Subset.antisymm hLM.1 hML.1
    have hc : c = c' := by
      apply Finmap.ext_lookup
      intro id
      apply Option.ext
      intro out
      exact ⟨hLM.2 id (.ok out), hML.2 id (.ok out)⟩
    have hf : f = f' := by
      apply Finmap.ext_lookup
      intro id
      apply Option.ext
      intro error
      exact ⟨hLM.2 id (.error error), hML.2 id (.error error)⟩
    rw [ha, hc, hf]

theorem mem_completed_of_le {L M : Ledger} (h : L ≤ M) {id : String} (hid : id ∈ L.completed) :
    id ∈ M.completed := by
  obtain ⟨output, hout⟩ := Finmap.mem_iff.mp hid
  exact Finmap.mem_of_lookup_eq_some (h.2 id (.ok output) hout)

/-- The rules of the graph hold. -/
structure Closed (g : TaskGraph κ) (initialInput : String)
    (outcome : Job κ → Except String String) (L : Ledger) : Prop where
  seeds : g.seeds ⊆ L.activated
  links : ∀ id r, L.Records id r → ∀ target ∈ g.targets id r, target ∈ L.activated
  runs : ∀ node ∈ g.nodes, node.id ∈ L.activated →
    (∀ dep ∈ node.dependsOn, dep ∈ L.completed) →
    L.Records node.id (outcome (node.job L.completed initialInput))

end Ledger

def RunState.ledger (s : RunState κ) : Ledger := ⟨s.activated, s.completed, s.failed⟩

section

variable {R : TaskGraphRunner} {g : TaskGraph κ} {initialInput : String}
variable {outcome : Job κ → Except String String}
variable {s t : RunState κ} {e : RunEvent κ} {tr : List (RunEvent κ)}

theorem records_of_settle {job : Job κ} {result r : Except String String} {id : String}
    (h : (s.settle g job result).ledger.Records id r) :
    s.ledger.Records id r ∨ id = job.nodeId ∧ r = result := by
  by_cases hid : id = job.nodeId
  · subst hid
    cases result <;> cases r <;>
      simp [RunState.ledger, RunState.settle, Ledger.Records, Finmap.lookup_insert] at h ⊢ <;>
      simp [h]
  · left
    cases result <;> cases r <;>
      simpa [RunState.ledger, RunState.settle, Ledger.Records, Finmap.lookup_insert_of_ne, hid]
        using h

theorem settle_records_self (job : Job κ) (result : Except String String) :
    (s.settle g job result).ledger.Records job.nodeId result := by
  cases result <;> simp [RunState.ledger, RunState.settle, Ledger.Records, Finmap.lookup_insert]

theorem settled_iff_records {id : String} : s.Settled id ↔ ∃ r, s.ledger.Records id r := by
  constructor
  · rintro (hc | hf)
    · obtain ⟨output, hout⟩ := Finmap.mem_iff.mp hc
      exact ⟨.ok output, hout⟩
    · obtain ⟨error, herr⟩ := Finmap.mem_iff.mp hf
      exact ⟨.error error, herr⟩
  · rintro ⟨output | error, h⟩
    · exact Or.inr (Finmap.mem_of_lookup_eq_some h)
    · exact Or.inl (Finmap.mem_of_lookup_eq_some h)

/-- A run forgets nothing: the node that a joined result is for was in flight. -/
theorem ledger_le_step (horder : Orderly g initialInput tr s)
    (hstep : RunStep R g initialInput s e t) : s.ledger ≤ t.ledger := by
  cases hstep.move with
  | @join job result before after hpc task =>
      have hfresh : ¬ s.Settled job.nodeId := by
        apply horder.flightApart
        apply horder.flying
        simp [RunState.taskIds, task]
      refine ⟨?_, ?_⟩
      · intro id hid
        show id ∈ (RunState.settle g _ job result).activated
        rw [RunState.settle_activated]
        exact Finset.mem_union_left _ hid
      · intro id r hr
        have hid : id ≠ job.nodeId := by
          rintro rfl
          exact hfresh (settled_iff_records.mpr ⟨r, hr⟩)
        cases result <;> cases r <;>
          simpa [RunState.ledger, RunState.settle, Ledger.Records, Finmap.lookup_insert_of_ne, hid]
            using hr
  | _ => exact le_refl _

/-! ## §2  Activation and supply -/

/-- Roots and the links of settled nodes are activated; every started node was
activated and its dependencies have completed. -/
structure Supplied (g : TaskGraph κ) (tr : List (RunEvent κ)) (s : RunState κ) : Prop where
  seeds : g.seeds ⊆ s.activated
  links : ∀ id r, s.ledger.Records id r → ∀ target ∈ g.targets id r, target ∈ s.activated
  active : ∀ id ∈ startedIds tr, id ∈ s.activated
  deps : ∀ node ∈ g.nodes, node.id ∈ startedIds tr → ∀ dep ∈ node.dependsOn, dep ∈ s.completed

theorem supplied_start (g : TaskGraph κ) : Supplied g [] (RunState.start g) where
  seeds := Finset.Subset.refl _
  links := by
    rintro id (error | output) hr <;> simp [RunState.ledger, RunState.start, Ledger.Records] at hr
  active := by simp [startedIds]
  deps := by simp [startedIds]

/-- What a step starts: a job of `to_spawn`. -/
theorem started_due (horder : Orderly g initialInput tr s) {job : Job κ}
    (hstep : RunStep R g initialInput s (.started job) t) :
    job ∈ s.toSpawn g initialInput := by
  cases hstep.move with
  | start hpc _ => exact (horder.next_due hpc).1

theorem supplied_step (hids : g.ids.Nodup) (horder : Orderly g initialInput tr s)
    (h : Supplied g tr s) (hstep : RunStep R g initialInput s e t) :
    Supplied g (tr ++ [e]) t := by
  have hle := ledger_le_step horder hstep
  -- What is new in the log is due in `s`.
  have hnew : ∀ id ∈ e.startedId, ∃ node ∈ g.nodes, node.id = id ∧ id ∈ s.activated ∧
      ∀ dep ∈ node.dependsOn, dep ∈ s.completed := by
    intro id hid
    cases e with
    | started job =>
        obtain rfl : id = job.nodeId := List.mem_singleton.mp hid
        obtain ⟨node, hnode, -, -, hdeps, hactive, -, rfl⟩ :=
          RunState.mem_toSpawn.mp (started_due horder hstep)
        exact ⟨node, hnode, rfl, hactive, hdeps⟩
    | _ => cases hid
  constructor
  case seeds => exact h.seeds.trans hle.1
  case links =>
      intro id r hr target htarget
      cases hstep.move with
      | @join job result before after hpc task =>
          rw [RunState.settle_activated]
          rcases records_of_settle hr with hold | ⟨rfl, rfl⟩
          · exact Finset.mem_union_left _ (h.links id r hold target htarget)
          · exact Finset.mem_union_right _ (List.mem_toFinset.mpr htarget)
      | _ => exact h.links id r hr target htarget
  case active =>
      intro id hid
      rw [startedIds_snoc, List.mem_append] at hid
      rcases hid with hold | hone
      · exact hle.1 (h.active id hold)
      · obtain ⟨node, -, -, hactive, -⟩ := hnew id hone
        exact hle.1 hactive
  case deps =>
      intro node hnode hid dep hdep
      rw [startedIds_snoc, List.mem_append] at hid
      rcases hid with hold | hone
      · exact Ledger.mem_completed_of_le hle (h.deps node hnode hold dep hdep)
      · obtain ⟨other, hother, hid, -, hdeps⟩ := hnew _ hone
        obtain rfl : other = node := List.inj_on_of_nodup_map hids hother hnode hid
        exact Ledger.mem_completed_of_le hle (hdeps dep hdep)

theorem supplied_of_runs (hvalid : g.validate = .ok ())
    (run : Runs (RunStep R g initialInput) (RunState.start g) tr s) : Supplied g tr s :=
  run.invariant (supplied_start g) (fun run h hstep =>
    supplied_step (TaskGraph.nodup_ids_of_validate hvalid) (orderly_of_runs hvalid run) h hstep)

/-! ## §3  Runs whose outcomes are a function of the job -/

/-- With its dependencies completed, what a node ends with does not depend on what
completes later. -/
def Stable (g : TaskGraph κ) (initialInput : String)
    (outcome : Job κ → Except String String) : Prop :=
  ∀ node ∈ g.nodes, ∀ C C' : Outputs,
    (∀ id output, C.lookup id = some output → C'.lookup id = some output) →
    (∀ n ∈ g.nodes, n.id ∈ C → ∀ dep ∈ n.dependsOn, dep ∈ C) →
    (∀ dep ∈ node.dependsOn, dep ∈ C) →
    outcome (node.job C' initialInput) = outcome (node.job C initialInput)

/-- Every result and every task is the outcome of its node's job, and the run has
not been aborted. -/
structure Consistent (g : TaskGraph κ) (initialInput : String)
    (outcome : Job κ → Except String String) (s : RunState κ) : Prop where
  recorded : ∀ node ∈ g.nodes, ∀ r, s.ledger.Records node.id r →
    outcome (node.job s.completed initialInput) = r
  tasks : ∀ task ∈ s.joinSet, ∀ node ∈ g.nodes, node.id = task.job.nodeId →
    outcome (node.job s.completed initialInput) = outcome task.job
  ended : ∀ task ∈ s.joinSet, ∀ how, task.ended = some how → how = .returned (outcome task.job)
  unaborted : ∀ error, s.pc ≠ .returned (.error error)

theorem consistent_start (hvalid : g.validate = .ok ()) :
    Consistent g initialInput outcome (RunState.start g) where
  recorded := by
    rintro node - (error | output) hr <;>
      simp [RunState.ledger, RunState.start, Ledger.Records] at hr
  tasks := by simp [RunState.start]
  ended := by simp [RunState.start]
  unaborted := by simp [RunState.start, hvalid]

/-- The outcome of a started node's job is the same in every ledger above. -/
theorem Stable.above (hstable : Stable g initialInput outcome)
    (horder : Orderly g initialInput tr s) (hsup : Supplied g tr s) {L : Ledger}
    (hle : s.ledger ≤ L) {node : TaskNode κ} (hnode : node ∈ g.nodes)
    (hid : node.id ∈ startedIds tr) :
    outcome (node.job L.completed initialInput) = outcome (node.job s.completed initialInput) := by
  apply hstable node hnode
  · intro id output hout
    exact hle.2 id (.ok output) hout
  · intro n hn hmem
    exact hsup.deps n hn ((horder.log.started n.id).mpr (Or.inl (Or.inl hmem)))
  · exact hsup.deps node hnode hid

theorem Consistent.joined_outcome (h : Consistent g initialInput outcome s) {job : Job κ}
    {result : Except String String} (htask : ⟨job, some (.returned result)⟩ ∈ s.joinSet) :
    result = outcome job :=
  TaskEnd.returned.inj (h.ended _ htask _ rfl)

theorem mem_started_of_task (horder : Orderly g initialInput tr s) {task : Task κ}
    (htask : task ∈ s.joinSet) : task.job.nodeId ∈ startedIds tr := by
  rw [horder.log.started]
  exact Or.inr (horder.flying _ (List.mem_map_of_mem htask))

theorem consistent_step (hids : g.ids.Nodup) (hstable : Stable g initialInput outcome)
    (horder : Orderly g initialInput tr s) (hsup : Supplied g tr s)
    (h : Consistent g initialInput outcome s)
    (hstep : FollowStep R g initialInput outcome s e t) :
    Consistent g initialInput outcome t := by
  have hle := ledger_le_step horder hstep.1
  have hsame : ∀ node ∈ g.nodes, node.id ∈ startedIds tr →
      outcome (node.job t.completed initialInput) =
        outcome (node.job s.completed initialInput) := by
    intro node hnode hid
    exact hstable.above horder hsup hle hnode hid
  obtain ⟨hstep, hfollows⟩ := hstep
  cases hstep.move with
  | collect hpc => exact { h with unaborted := fun _ herr => nomatch herr }
  | @start job rest hpc _ =>
      have hdue := started_due horder hstep
      refine { h with tasks := ?_, ended := ?_, unaborted := fun _ herr => nomatch herr }
      · intro task htask node hnode hid
        rcases List.mem_append.mp htask with hold | hone
        · exact h.tasks task hold node hnode hid
        · obtain rfl := List.mem_singleton.mp hone
          obtain ⟨other, hother, -, -, -, -, -, rfl⟩ := RunState.mem_toSpawn.mp hdue
          obtain rfl : node = other := List.inj_on_of_nodup_map hids hnode hother hid
          rfl
      · intro task htask how hhow
        rcases List.mem_append.mp htask with hold | hone
        · exact h.ended task hold how hhow
        · obtain rfl := List.mem_singleton.mp hone
          cases hhow
  | wait hpc _ => exact { h with unaborted := fun _ herr => nomatch herr }
  | stop hpc _ => exact { h with unaborted := fun _ herr => nomatch herr }
  | @finish job how before after task =>
      -- The task that ended has the outcome of its job; the others are as before.
      have hmem : ∀ t', t' ∈ before ++ ⟨job, some how⟩ :: after →
          t' ∈ s.joinSet ∨ t' = ⟨job, some how⟩ := by
        intro t' ht'
        rw [task]
        simp only [List.mem_append, List.mem_cons] at ht' ⊢
        tauto
      have hjob : (⟨job, none⟩ : Task κ) ∈ s.joinSet := by simp [task]
      refine { h with tasks := ?_, ended := ?_ }
      · intro t' ht' node hnode hid
        rcases hmem t' ht' with hold | rfl
        · exact h.tasks t' hold node hnode hid
        · exact h.tasks ⟨job, none⟩ hjob node hnode hid
      · intro t' ht' how' hhow
        rcases hmem t' ht' with hold | rfl
        · exact h.ended t' hold how' hhow
        · cases hhow
          exact hfollows
  | @join job result before after hpc task =>
      have hjob : (⟨job, some (.returned result)⟩ : Task κ) ∈ s.joinSet := by simp [task]
      have hresult := h.joined_outcome hjob
      have hrest : ∀ t' ∈ before ++ after, t' ∈ s.joinSet := by
        intro t' ht'
        rw [task]
        simp only [List.mem_append, List.mem_cons] at ht' ⊢
        tauto
      constructor
      case recorded =>
          intro node hnode r hr
          rcases records_of_settle hr with hold | ⟨hid, rfl⟩
          · rw [hsame node hnode ((horder.log.started _).mpr
              (Or.inl (settled_iff_records.mpr ⟨r, hold⟩)))]
            exact h.recorded node hnode r hold
          · have hstarted := mem_started_of_task horder hjob
            rw [hsame node hnode (hid ▸ hstarted), hresult]
            exact h.tasks _ hjob node hnode hid
      case tasks =>
          intro t' ht' node hnode hid
          rw [RunState.settle_joinSet] at ht'
          have hold := hrest t' ht'
          rw [hsame node hnode (hid ▸ mem_started_of_task horder hold)]
          exact h.tasks t' hold node hnode hid
      case ended =>
          intro t' ht' how hhow
          rw [RunState.settle_joinSet] at ht'
          exact h.ended t' (hrest t' ht') how hhow
      case unaborted =>
          intro error
          rw [RunState.settle_pc]
          simp
  | @abort job joinErr before after hpc task =>
      have hjob : (⟨job, some (.panicked joinErr)⟩ : Task κ) ∈ s.joinSet := by simp [task]
      exact nomatch h.ended _ hjob _ rfl

theorem consistent_of_runs (hvalid : g.validate = .ok ())
    (hstable : Stable g initialInput outcome)
    (run : Runs (FollowStep R g initialInput outcome) (RunState.start g) tr s) :
    Consistent g initialInput outcome s :=
  run.invariant (P := fun _ s => Consistent g initialInput outcome s) (consistent_start hvalid)
    (fun run h hstep =>
      consistent_step (TaskGraph.nodup_ids_of_validate hvalid) hstable
        (orderly_of_runs hvalid (runStep_of_followStep run))
        (supplied_of_runs hvalid (runStep_of_followStep run)) h hstep)

/-! ## §4  The least closed ledger -/

/-- **Soundness.** A run records only what every closed ledger records. -/
theorem ledger_le_of_closed (hvalid : g.validate = .ok ())
    (hstable : Stable g initialInput outcome) {L : Ledger}
    (hL : L.Closed g initialInput outcome)
    (run : Runs (FollowStep R g initialInput outcome) (RunState.start g) tr s) :
    s.ledger ≤ L := by
  refine run.invariant (P := fun _ s => s.ledger ≤ L) ?_ ?_
  · refine ⟨hL.seeds, ?_⟩
    rintro id (error | output) hr <;> simp [RunState.ledger, RunState.start, Ledger.Records] at hr
  · intro tr s e t run hle hstep
    have horder := orderly_of_runs hvalid (runStep_of_followStep run)
    have hsup := supplied_of_runs hvalid (runStep_of_followStep run)
    have hcon := consistent_of_runs hvalid hstable run
    cases hstep.1.move with
    | @join job result before after hpc task =>
        have hjob : (⟨job, some (.returned result)⟩ : Task κ) ∈ s.joinSet := by simp [task]
        have hstarted := mem_started_of_task horder hjob
        obtain ⟨node, hnode, hid⟩ := List.mem_map.mp (horder.log.known _ hstarted)
        have hdeps := hsup.deps node hnode (hid ▸ hstarted)
        -- The joined result is the one that the closed ledger has for this node.
        have hrecords : L.Records job.nodeId result := by
          have hrun := hL.runs node hnode (hle.1 (hid ▸ hsup.active _ hstarted))
            (fun dep hdep => Ledger.mem_completed_of_le hle (hdeps dep hdep))
          rw [hstable.above horder hsup hle hnode (hid ▸ hstarted),
            hcon.tasks _ hjob node hnode hid, hid] at hrun
          rw [hcon.joined_outcome hjob]
          exact hrun
        constructor
        · show (RunState.settle g _ job result).activated ⊆ L.activated
          rw [RunState.settle_activated]
          refine Finset.union_subset hle.1 ?_
          intro target htarget
          exact hL.links job.nodeId result hrecords target (List.mem_toFinset.mp htarget)
        · intro id r hr
          rcases records_of_settle hr with hold | ⟨rfl, rfl⟩
          · exact hle.2 id r hold
          · exact hrecords
    | _ => exact hle

/-- **Completeness.** The ledger of a run that has returned is closed. -/
theorem closed_of_returned (hvalid : g.validate = .ok ())
    (hstable : Stable g initialInput outcome)
    (run : Runs (FollowStep R g initialInput outcome) (RunState.start g) tr s)
    {r : Except String TaskGraphResult} (hret : s.pc = .returned r) :
    r = .ok s.result ∧ s.ledger.Closed g initialInput outcome := by
  have horder := orderly_of_runs hvalid (runStep_of_followStep run)
  have hsup := supplied_of_runs hvalid (runStep_of_followStep run)
  have hcon := consistent_of_runs hvalid hstable run
  cases r with
  | error error => exact absurd hret (hcon.unaborted error)
  | ok result =>
      obtain ⟨rfl, hdone, hempty⟩ := horder.result result hret
      refine ⟨rfl, hsup.seeds, hsup.links, ?_⟩
      intro node hnode hactive hdeps
      have hset : s.Settled node.id := by
        by_contra hnot
        have hdue : node.job s.completed initialInput ∈ s.toSpawn g initialInput := by
          refine RunState.mem_toSpawn.mpr
            ⟨node, hnode, fun hc => hnot (Or.inl hc), fun hf => hnot (Or.inr hf), hdeps,
              hactive, ?_, rfl⟩
          simp [hempty]
        rw [hdone] at hdue
        cases hdue
      obtain ⟨r, hr⟩ := settled_iff_records.mp hset
      show s.ledger.Records node.id (outcome (node.job s.completed initialInput))
      rw [hcon.recorded node hnode r hr]
      exact hr

/-- **A run returns the least closed ledger.** -/
theorem returned_isLeast (hvalid : g.validate = .ok ())
    (hstable : Stable g initialInput outcome)
    (run : Runs (FollowStep R g initialInput outcome) (RunState.start g) tr s)
    {r : Except String TaskGraphResult} (hret : s.pc = .returned r) :
    IsLeast {L : Ledger | L.Closed g initialInput outcome} s.ledger :=
  ⟨(closed_of_returned hvalid hstable run hret).2,
    fun _ hL => ledger_le_of_closed hvalid hstable hL run⟩

/-! ## §5  Confluence -/

/-- Every node takes its input from a transitive dependency, if from any node. -/
def TaskGraph.InputFromAncestors (g : TaskGraph κ) : Prop :=
  ∀ node ∈ g.nodes, ∀ p, node.inputFrom = some p → Relation.TransGen g.DependsOn p node.id

/-- Where dependencies of completed nodes have completed, ancestors have. -/
theorem completed_of_ancestor {C : Outputs}
    (hclosed : ∀ n ∈ g.nodes, n.id ∈ C → ∀ dep ∈ n.dependsOn, dep ∈ C) {p id : String}
    (h : Relation.ReflTransGen g.DependsOn p id) (hid : id ∈ C) : p ∈ C := by
  induction h with
  | refl => exact hid
  | tail _ hdep ih =>
      obtain ⟨n, hn, rfl, hmem⟩ := hdep
      exact ih (hclosed n hn hid _ hmem)

/-- The input of a ready node is built from an output that is there already. -/
theorem stable_of_ancestors (hids : g.ids.Nodup) (hfrom : g.InputFromAncestors) :
    Stable g initialInput outcome := by
  intro node hnode C C' hle hclosed hdeps
  have hinput : TaskGraph.resolveInput node C' initialInput =
      TaskGraph.resolveInput node C initialInput := by
    cases hp : node.inputFrom with
    | none => simp [TaskGraph.resolveInput, hp]
    | some p =>
        obtain ⟨b, hanc, n, hn, hid, hb⟩ := Relation.TransGen.tail'_iff.mp (hfrom node hnode p hp)
        obtain rfl : n = node := List.inj_on_of_nodup_map hids hn hnode hid
        have hmem : p ∈ C := completed_of_ancestor hclosed hanc (hdeps b hb)
        obtain ⟨output, hout⟩ := Finmap.mem_iff.mp hmem
        simp [TaskGraph.resolveInput, hp, hout, hle p output hout]
  rw [TaskNode.job, hinput, TaskNode.job]

theorem Orderly.apart (h : Orderly g initialInput tr s) :
    Disjoint s.completed.keys s.failed.keys ∧ Disjoint s.completed.keys s.inFlight ∧
      Disjoint s.failed.keys s.inFlight := by
  simp only [Finset.disjoint_left, Finmap.mem_keys]
  refine ⟨h.settledApart, ?_, ?_⟩
  · exact fun id hc hi => h.flightApart id hi (Or.inl hc)
  · exact fun id hf hi => h.flightApart id hi (Or.inr hf)

end

/-- The report waits for the fetched page and for the linter to fail. -/
def reportGraph : TaskGraph Unit :=
  ⟨[⟨"fetch", (), [], [], [], none, none, some "page"⟩,
    ⟨"lint", (), [], [], ["report"], none, none, none⟩,
    ⟨"report", (), ["fetch"], [], [], some "fetch", some "explain \x7boutput\x7d", none⟩]⟩

/-- Subagents that return their input in brackets, but for a linter that fails. -/
def bracketing (job : Job Unit) : Except String String :=
  if job.nodeId = "lint" then .error "2 warnings" else .ok ("<" ++ job.input ++ ">")

def reportResult : TaskGraphResult :=
  .partialSuccess [⟨"fetch", "<page>"⟩, ⟨"report", "<explain <page>>"⟩].toFinmap
    [⟨"lint", "2 warnings"⟩].toFinmap

def reportSchedule : List RunChoice :=
  [.advance, .advance, .advance, .advance, .finish 0 (.returned (.ok "<page>")), .joinNext 0,
    .advance, .advance, .finish 0 (.returned (.error "2 warnings")), .joinNext 0,
    .advance, .advance, .advance, .finish 0 (.returned (.ok "<explain <page>>")), .joinNext 0,
    .advance, .advance]

theorem reportSchedule_plays :
    (TaskGraphRunner.new.play reportGraph "go" reportSchedule).isSome = true := by
  decide

theorem reportGraph_ancestors : reportGraph.InputFromAncestors := by
  intro node hnode p hp
  simp only [reportGraph, List.mem_cons, List.not_mem_nil, or_false] at hnode
  rcases hnode with rfl | rfl | rfl
  · cases hp
  · cases hp
  · cases hp
    exact .single ⟨_, by simp [reportGraph], rfl, by simp⟩

end Oclaw.AgentCore
