import Mathlib.Data.Finmap
import Mathlib.Data.Finset.Basic
import Oclaw.Lib.Keyed
import Oclaw.Lib.Text

/-!
# Task graphs

`crates/agent-core/src/task_graph.rs`, the graph itself: nodes with their
dependencies, their conditional links and their data flow, the checks of
`validate`, which nodes are ready, and the input a node is given.

A `HashMap<String, String>` is a finite map, a `HashSet<String>` a finite set.
The subagent configuration of a node is handed on unread, so its type is a
parameter.
-/

namespace Oclaw.AgentCore

open Oclaw.Lib (trim replace find?_of_nodup_keys)

variable {κ : Type*}

/-- `HashMap<String, String>`, from node ids to outputs or errors. -/
abbrev Outputs : Type := Finmap (fun _ : String => String)

/-! ## §1  Nodes and graphs -/

structure TaskNode (κ : Type*) where
  id : String
  config : κ
  dependsOn : List String
  onSuccess : List String
  onFailure : List String
  inputFrom : Option String
  inputTemplate : Option String
  baseInput : Option String

structure TaskGraph (κ : Type*) where
  nodes : List (TaskNode κ)

namespace TaskGraph

def new : TaskGraph κ := ⟨[]⟩

def withNode (g : TaskGraph κ) (node : TaskNode κ) : TaskGraph κ := ⟨g.nodes ++ [node]⟩

/-- `self.nodes.iter().map(|n| n.id.as_str())` -/
def ids (g : TaskGraph κ) : List String := g.nodes.map TaskNode.id

/-- `graph.nodes.iter().find(|n| n.id == node_id)` -/
def find (g : TaskGraph κ) (nodeId : String) : Option (TaskNode κ) :=
  g.nodes.find? (fun n => n.id == nodeId)

/-- `p` is in the `depends_on` of the node `id`. -/
def DependsOn (g : TaskGraph κ) (p id : String) : Prop :=
  ∃ node ∈ g.nodes, node.id = id ∧ p ∈ node.dependsOn

/-! ## §2  Validation -/

/-- The first loop of `validate`: trimmed ids are nonempty and distinct. -/
def checkIds : Finset String → List (TaskNode κ) → Except String Unit
  | _, [] => .ok ()
  | ids, node :: rest =>
      let id := trim node.id
      if id = "" then .error "task graph node id cannot be empty"
      else if id ∈ ids then .error ("task graph has duplicate node id '" ++ id ++ "'")
      else checkIds (insert id ids) rest

/-- One of the four reference checks: the first id outside `idSet` is reported. -/
def checkKnown (idSet : List String) (nodeId link : String) : List String → Except String Unit
  | [] => .ok ()
  | target :: rest =>
      if target ∈ idSet then checkKnown idSet nodeId link rest
      else .error ("node '" ++ nodeId ++ "' " ++ link ++ " unknown node '" ++ target ++ "'")

/-- The second loop of `validate`: every reference names a node. -/
def checkReferences (idSet : List String) : List (TaskNode κ) → Except String Unit
  | [] => .ok ()
  | node :: rest => do
      checkKnown idSet node.id "depends on" node.dependsOn
      checkKnown idSet node.id "on_success targets" node.onSuccess
      checkKnown idSet node.id "on_failure targets" node.onFailure
      checkKnown idSet node.id "input_from references" node.inputFrom.toList
      checkReferences idSet rest

/-- The map `indegree` before the worklist loop. A repeated dependency counts
twice. -/
def indegree (g : TaskGraph κ) (id : String) : ℕ :=
  match g.find id with
  | some node => node.dependsOn.length
  | none => 0

/-- `edges.get(id)`: one entry for each time a node names `id` as dependency. -/
def children (g : TaskGraph κ) (id : String) : List String :=
  g.nodes.flatMap (fun node =>
    (node.dependsOn.filter (fun dep => dep == id)).map (fun _ => node.id))

/-- The queue before the worklist loop. The source fills it in the iteration
order of a hash map; here it is the order of the nodes. -/
def initialQueue (g : TaskGraph κ) : List String :=
  g.ids.filter (fun id => g.indegree id = 0)

/-- One child of a popped node: its count goes down, and at zero it is queued. -/
def visitChild (st : (String → ℕ) × List String) (child : String) :
    (String → ℕ) × List String :=
  let next := st.1 child - 1
  (Function.update st.1 child next, if next = 0 then st.2 ++ [child] else st.2)

/-- `while let Some(id) = q.pop_front()`, with the number of visited nodes. Every
node is queued at most once, so as many rounds as there are nodes empty the
queue. -/
def visitAll (g : TaskGraph κ) : ℕ → (String → ℕ) → List String → ℕ → Option ℕ
  | _, _, [], visited => some visited
  | 0, _, _ :: _, _ => none
  | rounds + 1, degrees, id :: q, visited =>
      let st := (g.children id).foldl visitChild (degrees, q)
      visitAll g rounds st.1 st.2 (visited + 1)

/-- `validate`, with the worklist in a given order. -/
def validateFrom (g : TaskGraph κ) (queue : List String) : Except String Unit := do
  checkIds ∅ g.nodes
  checkReferences g.ids g.nodes
  if g.visitAll g.nodes.length g.indegree queue 0 = some g.nodes.length then .ok ()
  else .error "task graph dependency cycle detected"

def validate (g : TaskGraph κ) : Except String Unit := g.validateFrom g.initialQueue

theorem checkIds_nodup {seen : Finset String} {nodes : List (TaskNode κ)}
    (h : checkIds seen nodes = .ok ()) :
    (nodes.map (fun n => trim n.id)).Nodup ∧ ∀ n ∈ nodes, trim n.id ∉ seen := by
  induction nodes generalizing seen with
  | nil => simp
  | cons node rest ih =>
      simp only [checkIds] at h
      split at h
      · cases h
      · split at h
        · cases h
        · rename_i hnew
          obtain ⟨hnodup, hfresh⟩ := ih h
          constructor
          · rw [List.map_cons, List.nodup_cons]
            refine ⟨?_, hnodup⟩
            intro hmem
            obtain ⟨n, hn, heq⟩ := List.mem_map.mp hmem
            exact hfresh n hn (heq ▸ Finset.mem_insert_self _ _)
          · rintro n hn hseen
            rcases List.mem_cons.mp hn with rfl | hn
            · exact hnew hseen
            · exact hfresh n hn (Finset.mem_insert_of_mem hseen)

theorem nodup_ids_of_validate {g : TaskGraph κ} (h : g.validate = .ok ()) : g.ids.Nodup := by
  have hids : checkIds ∅ g.nodes = .ok () := by
    unfold validate validateFrom at h
    cases hc : checkIds ∅ g.nodes with
    | ok _ => rfl
    | error e =>
        rw [hc] at h
        cases h
  have htrimmed : (g.ids.map trim).Nodup := by
    rw [ids, List.map_map]
    exact (checkIds_nodup hids).1
  exact htrimmed.of_map

/-- In a validated graph an id names one node. -/
theorem find_eq_some {g : TaskGraph κ} (h : g.ids.Nodup) {node : TaskNode κ}
    (hnode : node ∈ g.nodes) : g.find node.id = some node :=
  find?_of_nodup_keys h hnode

/-! ## §3  Ready nodes and their input -/

def readyNodes (g : TaskGraph κ) (completed : Outputs) (failed : Finset String) :
    List (TaskNode κ) :=
  g.nodes.filter (fun node =>
    !decide (node.id ∈ completed) && !decide (node.id ∈ failed) &&
      node.dependsOn.all (fun dep => decide (dep ∈ completed)))

/-- `resolve_input` reads nothing of the graph. -/
def resolveInput (node : TaskNode κ) (completed : Outputs) (initial : String) : String :=
  match node.inputFrom with
  | some fromId =>
      let output := (completed.lookup fromId).getD ""
      match node.inputTemplate with
      | some template => replace template "\x7boutput\x7d" output
      | none => output
  | none =>
      match node.baseInput with
      | some base => base
      | none => initial

theorem mem_readyNodes {g : TaskGraph κ} {completed : Outputs} {failed : Finset String}
    {node : TaskNode κ} :
    node ∈ g.readyNodes completed failed ↔
      node ∈ g.nodes ∧ node.id ∉ completed ∧ node.id ∉ failed ∧
        ∀ dep ∈ node.dependsOn, dep ∈ completed := by
  simp [readyNodes, and_assoc]

end TaskGraph

end Oclaw.AgentCore
