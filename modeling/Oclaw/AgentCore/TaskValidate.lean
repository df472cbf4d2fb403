import Mathlib.Algebra.GroupWithZero.Nat
import Oclaw.Lib.Kahn
import Oclaw.AgentCore.TaskGraph

/-!
# What `validate` accepts

The worklist of `TaskGraph::validate` is the one of `Oclaw.Lib.Kahn` on the edges from each
dependency to the nodes that name it, so it visits all nodes just when no node depends on
itself, over however many others.
-/

namespace Oclaw.AgentCore.TaskGraph

open Oclaw.Lib

variable {κ : Type*} {g : TaskGraph κ} {queue : List String} {u v : String}

structure WellFormed (g : TaskGraph κ) : Prop where
  nonempty : ∀ node ∈ g.nodes, trim node.id ≠ ""
  distinct : (g.nodes.map (fun n => trim n.id)).Nodup
  known : ∀ node ∈ g.nodes,
    ∀ id ∈ node.dependsOn ++ node.onSuccess ++ node.onFailure ++ node.inputFrom.toList, id ∈ g.ids
  acyclic : Kahn.Acyclic g.DependsOn

/-! ## §1  The checks before the worklist -/

theorem bind_eq_ok {ε β : Type} {x : Except ε Unit} {f : Unit → Except ε β} {b : β} :
    (x >>= f) = .ok b ↔ x = .ok () ∧ f () = .ok b := by
  cases x with
  | error e =>
      constructor
      · intro h
        cases h
      · rintro ⟨h, -⟩
        cases h
  | ok a => exact ⟨fun h => ⟨rfl, h⟩, fun h => h.2⟩

theorem checkIds_eq_ok {seen : Finset String} {nodes : List (TaskNode κ)} :
    checkIds seen nodes = .ok () ↔
      (∀ n ∈ nodes, trim n.id ≠ "") ∧ (nodes.map (fun n => trim n.id)).Nodup ∧
        ∀ n ∈ nodes, trim n.id ∉ seen := by
  induction nodes generalizing seen with
  | nil => simp [checkIds]
  | cons node rest ih =>
      rw [checkIds]
      by_cases hempty : trim node.id = ""
      · simp [hempty]
      · by_cases hmem : trim node.id ∈ seen
        · simp [hempty, hmem]
        · rw [if_neg hempty, if_neg hmem, ih, List.map_cons, List.nodup_cons]
          constructor
          · rintro ⟨hne, hnodup, hfresh⟩
            refine ⟨?_, ⟨?_, hnodup⟩, ?_⟩
            · exact List.forall_mem_cons.mpr ⟨hempty, hne⟩
            · intro hin
              obtain ⟨n, hn, heq⟩ := List.mem_map.mp hin
              exact hfresh n hn (heq ▸ Finset.mem_insert_self _ _)
            · refine List.forall_mem_cons.mpr ⟨hmem, fun n hn hin => ?_⟩
              exact hfresh n hn (Finset.mem_insert_of_mem hin)
          · rintro ⟨hne, ⟨hout, hnodup⟩, hfresh⟩
            refine ⟨fun n hn => hne n (List.mem_cons_of_mem _ hn), hnodup, fun n hn hin => ?_⟩
            rcases Finset.mem_insert.mp hin with heq | hin
            · exact hout (heq ▸ List.mem_map_of_mem hn)
            · exact hfresh n (List.mem_cons_of_mem _ hn) hin

theorem checkKnown_eq_ok {idSet : List String} {nodeId link : String} {targets : List String} :
    checkKnown idSet nodeId link targets = .ok () ↔ ∀ id ∈ targets, id ∈ idSet := by
  induction targets with
  | nil => simp [checkKnown]
  | cons target rest ih =>
      rw [checkKnown]
      by_cases h : target ∈ idSet
      · rw [if_pos h, ih, List.forall_mem_cons]
        exact ⟨fun hrest => ⟨h, hrest⟩, And.right⟩
      · simp [h]

theorem checkReferences_eq_ok {idSet : List String} {nodes : List (TaskNode κ)} :
    checkReferences idSet nodes = .ok () ↔
      ∀ node ∈ nodes,
        ∀ id ∈ node.dependsOn ++ node.onSuccess ++ node.onFailure ++ node.inputFrom.toList,
          id ∈ idSet := by
  induction nodes with
  | nil => simp [checkReferences]
  | cons node rest ih =>
      rw [checkReferences, bind_eq_ok, bind_eq_ok, bind_eq_ok, bind_eq_ok, checkKnown_eq_ok,
        checkKnown_eq_ok, checkKnown_eq_ok, checkKnown_eq_ok, ih, List.forall_mem_cons]
      simp only [List.forall_mem_append]
      tauto

/-! ## §2  Degrees and edges -/

theorem mem_children : v ∈ g.children u ↔ g.DependsOn u v := by
  simp only [children, DependsOn, List.mem_flatMap, List.mem_map, List.mem_filter, beq_iff_eq]
  constructor
  · rintro ⟨node, hnode, dep, ⟨hdep, rfl⟩, hid⟩
    exact ⟨node, hnode, hid, hdep⟩
  · rintro ⟨node, hnode, hid, hdep⟩
    exact ⟨node, hnode, u, ⟨hdep, rfl⟩, hid⟩

/-- The edges into `v`, counted from where they come. -/
theorem sum_children (S : Finset String) :
    ∀ nodes : List (TaskNode κ), (∀ node ∈ nodes, ∀ dep ∈ node.dependsOn, dep ∈ S) →
      ∑ u ∈ S, ((⟨nodes⟩ : TaskGraph κ).children u).count v =
        ((nodes.filter (fun n => n.id == v)).map (fun n => n.dependsOn.length)).sum
  | [], _ => by simp [children]
  | node :: rest, h => by
      have hone : ∑ u ∈ S, ((node.dependsOn.filter (fun dep => dep == u)).map
          (fun _ => node.id)).count v =
            if node.id = v then node.dependsOn.length else 0 := by
        by_cases hid : node.id = v
        · have hcount : ∑ u ∈ S, node.dependsOn.count u = node.dependsOn.length := by
            have := Multiset.sum_count_eq_card (s := S) (m := (node.dependsOn : Multiset String))
              (fun dep hdep => h node List.mem_cons_self dep hdep)
            simpa using this
          rw [if_pos hid, ← hcount]
          refine Finset.sum_congr rfl fun u _ => ?_
          rw [List.map_const', hid, List.count_replicate_self, List.count_eq_length_filter]
        · rw [if_neg hid]
          refine Finset.sum_eq_zero fun u _ => ?_
          rw [List.map_const', List.count_replicate, if_neg (by simpa using hid)]
      have hcons : ∀ u, (⟨node :: rest⟩ : TaskGraph κ).children u =
          (node.dependsOn.filter (fun dep => dep == u)).map (fun _ => node.id) ++
            (⟨rest⟩ : TaskGraph κ).children u := fun u => rfl
      simp only [hcons, List.count_append, Finset.sum_add_distrib, hone]
      rw [sum_children S rest (fun n hn => h n (List.mem_cons_of_mem _ hn))]
      by_cases hid : node.id = v
      · simp [hid]
      · simp [hid]

theorem find_length : ∀ nodes : List (TaskNode κ), (nodes.map TaskNode.id).Nodup →
    (⟨nodes⟩ : TaskGraph κ).indegree v =
      ((nodes.filter (fun n => n.id == v)).map (fun n => n.dependsOn.length)).sum
  | [], _ => rfl
  | node :: rest, h => by
      rw [List.map_cons, List.nodup_cons] at h
      by_cases hid : node.id = v
      · have hnone : rest.filter (fun n => n.id == v) = [] := by
          rw [List.filter_eq_nil_iff]
          intro n hn heq
          exact h.1 (List.mem_map.mpr ⟨n, hn, (beq_iff_eq.mp heq).trans hid.symm⟩)
        simp [indegree, find, hid, hnone]
      · have hrest := find_length rest h.2
        simp only [indegree, find] at hrest ⊢
        simp [hid, hrest]

/-- A count is the number of edges that come in, from the nodes of the graph. -/
theorem indegree_eq (hids : g.ids.Nodup)
    (hknown : ∀ node ∈ g.nodes, ∀ dep ∈ node.dependsOn, dep ∈ g.ids) (v : String) :
    g.indegree v = ∑ u ∈ g.ids.toFinset, (g.children u).count v := by
  rw [sum_children _ g.nodes (fun node hnode dep hdep =>
    List.mem_toFinset.mpr (hknown node hnode dep hdep))]
  exact find_length g.nodes hids

/-! ## §3  The worklist -/

theorem visitAll_eq_run (g : TaskGraph κ) (rounds : ℕ) (degrees : String → ℕ) (q : List String)
    (visited : ℕ) : g.visitAll rounds degrees q visited =
      Kahn.run g.children rounds degrees q visited := by
  induction rounds generalizing degrees q visited with
  | zero => cases q <;> rfl
  | succ rounds ih =>
      cases q with
      | nil => rfl
      | cons id q => exact ih _ _ _

/-- The loop ends, and it has visited every node just when dependencies have no cycle. -/
theorem visitAll_end (hids : g.ids.Nodup)
    (hknown : ∀ node ∈ g.nodes, ∀ dep ∈ node.dependsOn, dep ∈ g.ids)
    (hqueue : queue.Perm g.initialQueue) :
    ∃ n, g.visitAll g.nodes.length g.indegree queue 0 = some n ∧
      (n = g.nodes.length ↔ Kahn.Acyclic g.DependsOn) := by
  have hcard : g.ids.toFinset.card = g.nodes.length := by
    rw [List.toFinset_card_of_nodup hids, ids, List.length_map]
  have hedge : Kahn.Edge g.children g.ids.toFinset = g.DependsOn := by
    funext u v
    rw [Kahn.Edge, mem_children, List.mem_toFinset]
    refine propext ⟨And.right, fun h => ⟨?_, h⟩⟩
    obtain ⟨node, hnode, -, hdep⟩ := h
    exact hknown node hnode u hdep
  have hclosed : ∀ u ∈ g.ids.toFinset, ∀ v ∈ g.children u, v ∈ g.ids.toFinset := by
    intro u _ v hv
    obtain ⟨node, hnode, rfl, -⟩ := mem_children.mp hv
    exact List.mem_toFinset.mpr (List.mem_map_of_mem hnode)
  have hnodup : queue.Nodup := hqueue.nodup_iff.mpr (hids.filter _)
  have hmem : ∀ v, v ∈ queue ↔ v ∈ g.ids.toFinset ∧ g.indegree v = 0 := by
    intro v
    rw [hqueue.mem_iff, initialQueue, List.mem_filter, List.mem_toFinset, decide_eq_true_eq]
  obtain ⟨n, hrun, hn⟩ := Kahn.run_eq_card_iff hclosed (indegree_eq hids hknown) hnodup hmem
  rw [hcard] at hrun hn
  rw [hedge] at hn
  exact ⟨n, (visitAll_eq_run g _ _ _ _).trans hrun, hn⟩

theorem nodup_ids_of_trimmed (h : (g.nodes.map (fun n => trim n.id)).Nodup) : g.ids.Nodup := by
  have htrimmed : (g.ids.map trim).Nodup := by
    rw [ids, List.map_map]
    exact h
  exact htrimmed.of_map

theorem validateFrom_eq_ok (hqueue : queue.Perm g.initialQueue) :
    g.validateFrom queue = .ok () ↔ g.WellFormed := by
  rw [validateFrom, bind_eq_ok, bind_eq_ok, checkIds_eq_ok, checkReferences_eq_ok]
  constructor
  · rintro ⟨⟨hne, hdistinct, -⟩, hknown, hloop⟩
    obtain ⟨n, hrun, hn⟩ := visitAll_end (nodup_ids_of_trimmed hdistinct)
      (fun node hnode dep hdep => hknown node hnode dep (by simp [hdep])) hqueue
    rw [hrun] at hloop
    split at hloop
    · rename_i hall
      exact ⟨hne, hdistinct, hknown, hn.mp (Option.some.inj hall)⟩
    · cases hloop
  · rintro ⟨hne, hdistinct, hknown, hacyclic⟩
    refine ⟨⟨hne, hdistinct, by simp⟩, hknown, ?_⟩
    obtain ⟨n, hrun, hn⟩ := visitAll_end (nodup_ids_of_trimmed hdistinct)
      (fun node hnode dep hdep => hknown node hnode dep (by simp [hdep])) hqueue
    rw [hrun, if_pos (by rw [hn.mpr hacyclic])]

/-- Every dependency listed once. -/
def dedupDependencies (g : TaskGraph κ) : TaskGraph κ :=
  ⟨g.nodes.map (fun n => { n with dependsOn := n.dependsOn.dedup })⟩

theorem wellFormed_dedup : g.dedupDependencies.WellFormed ↔ g.WellFormed := by
  have hids : g.dedupDependencies.ids = g.ids := by
    simp [dedupDependencies, ids, Function.comp_def]
  have hdepends : g.dedupDependencies.DependsOn = g.DependsOn := by
    funext u v
    simp [dedupDependencies, DependsOn]
  have htrimmed : g.dedupDependencies.nodes.map (fun n => trim n.id) =
      g.nodes.map (fun n => trim n.id) := by
    simp [dedupDependencies, Function.comp_def]
  constructor
  · rintro ⟨hne, hdistinct, hknown, hacyclic⟩
    refine ⟨?_, htrimmed ▸ hdistinct, ?_, hdepends ▸ hacyclic⟩
    · simpa [dedupDependencies] using hne
    · rw [hids] at hknown
      simpa [dedupDependencies] using hknown
  · rintro ⟨hne, hdistinct, hknown, hacyclic⟩
    refine ⟨?_, htrimmed.symm ▸ hdistinct, ?_, hdepends.symm ▸ hacyclic⟩
    · simpa [dedupDependencies] using hne
    · rw [hids]
      simpa [dedupDependencies] using hknown

/-- `validate` accepts the well-formed graphs, in whatever order the worklist is filled;
where its loop is reached it ends, and dependencies that are listed more than once make no
difference. A node that lists itself is a cycle. -/
theorem validate_accepts_wellFormed (g : TaskGraph κ) (queue : List String)
    (hqueue : queue.Perm g.initialQueue) :
    (g.validateFrom queue = .ok () ↔ g.WellFormed) ∧
      (checkIds ∅ g.nodes = .ok () → checkReferences g.ids g.nodes = .ok () →
        ∃ n, g.visitAll g.nodes.length g.indegree queue 0 = some n) ∧
      ∀ queue', queue'.Perm g.dedupDependencies.initialQueue →
        (g.dedupDependencies.validateFrom queue' = .ok () ↔ g.validateFrom queue = .ok ()) := by
  refine ⟨validateFrom_eq_ok hqueue, ?_, ?_⟩
  · intro hcheckIds hreferences
    obtain ⟨-, hdistinct, -⟩ := checkIds_eq_ok.mp hcheckIds
    have hknown := checkReferences_eq_ok.mp hreferences
    obtain ⟨n, hrun, -⟩ := visitAll_end (nodup_ids_of_trimmed hdistinct)
      (fun node hnode dep hdep => hknown node hnode dep (by simp [hdep])) hqueue
    exact ⟨n, hrun⟩
  · intro queue' hqueue'
    rw [validateFrom_eq_ok hqueue', validateFrom_eq_ok hqueue, wellFormed_dedup]

/-- Two independent tasks, and a third that lists one of them twice. -/
def diamond : TaskGraph Unit :=
  let node (id : String) (dependsOn : List String) : TaskNode Unit :=
    ⟨id, (), dependsOn, [], [], none, none, none⟩
  ⟨[node "a" [], node "b" [], node "c" ["a", "b", "a"]]⟩

theorem validate_diamond :
    (diamond.validateFrom ["b", "a"] = .ok () ↔ diamond.WellFormed) ∧
      (checkIds ∅ diamond.nodes = .ok () → checkReferences diamond.ids diamond.nodes = .ok () →
        ∃ n, diamond.visitAll diamond.nodes.length diamond.indegree ["b", "a"] 0 = some n) ∧
      ∀ queue', queue'.Perm diamond.dedupDependencies.initialQueue →
        (diamond.dedupDependencies.validateFrom queue' = .ok () ↔
          diamond.validateFrom ["b", "a"] = .ok ()) :=
  validate_accepts_wellFormed diamond ["b", "a"] (by decide)

example : (diamond.validateFrom ["b", "a"]).isOk = true ∧
    (diamond.validateFrom ["a", "b"]).isOk = true := by
  decide

end Oclaw.AgentCore.TaskGraph
