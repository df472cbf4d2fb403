import Oclaw.PluginCore.Registry

/-!
# The order of the hooks

`HookPipeline::run_transform` of `crates/plugin-core/src/registry.rs`: a value goes through
the enabled plugins, those of higher priority first. The plugins are the values of a hash
map in the order in which it is iterated, and the sort is stable, so that order decides
between plugins of equal priority.
-/

namespace Oclaw.PluginCore

open Oclaw.Lib

/-! ## §1  The pipeline -/

/-- What a hook of a plugin answers to a value: a new one, nothing, or an error. -/
abbrev HookFn : Type := PluginWrapper → String → Except String (Option String)

/-- One turn of the loop. An error is logged, and the value stays. -/
def transform (hookFn : HookFn) (value : String) (plugin : PluginWrapper) : String :=
  match hookFn plugin value with
  | .ok (some transformed) => transformed
  | .ok none => value
  | .error _ => value

/-- `sort_by_key(Reverse(priority))`, which is stable. -/
def sortByPriority (plugins : List PluginWrapper) : List PluginWrapper :=
  plugins.mergeSort (fun p q => q.config.priority ≤ p.config.priority)

/-- The loop over the plugins, given in the order in which the map is iterated. -/
def runTransform (plugins : List PluginWrapper) (initial : String) (hookFn : HookFn) :
    Except String String :=
  let sorted := sortByPriority (plugins.filter (fun p => p.config.enabled))
  .ok (sorted.foldl (transform hookFn) initial)

/-! ## §2  The registered plugins -/

/-- Plugins are entered under the id of their manifest. -/
def UnderOwnId (plugins : HashMap String PluginWrapper) : Prop :=
  ∀ id wrapper, plugins.lookup id = some wrapper → wrapper.inner.manifest.id = id

/-- A set of registered plugins. -/
structure PluginTable : Type where
  plugins : HashMap String PluginWrapper
  ids : UnderOwnId plugins

section Registered

variable {d : Data} {a : Act} {s : Sys Loc Act Reply Data} {tr : List (Turn Call Empty)}

/-- An action enters a plugin under its id, takes one out, or leaves the plugins alone. -/
theorem exec_plugins (a : Act) (d : Data) :
    (exec a d).1.plugins = d.plugins ∨
      (∃ plugin config, (exec a d).1.plugins =
        d.plugins.insert plugin.manifest.id ⟨plugin, config⟩) ∨
      ∃ pluginId, (exec a d).1.plugins = d.plugins.erase pluginId := by
  fun_cases exec a d
  case case9 plugin config k hnew => exact .inr (.inl ⟨plugin, config, rfl⟩)
  case case11 pluginId wrapper hplugin => exact .inr (.inr ⟨pluginId, rfl⟩)
  all_goals exact .inl rfl

theorem UnderOwnId.exec (h : UnderOwnId d.plugins) : UnderOwnId (exec a d).1.plugins := by
  intro id wrapper hlookup
  rcases exec_plugins a d with heq | ⟨plugin, config, heq⟩ | ⟨pluginId, heq⟩ <;>
    rw [heq] at hlookup
  · exact h id wrapper hlookup
  · rw [HashMap.lookup_insert_eq] at hlookup
    split at hlookup
    · rename_i hid
      cases hlookup
      exact hid.symm
    · exact h id wrapper hlookup
  · rw [HashMap.lookup_erase_eq] at hlookup
    split at hlookup
    · cases hlookup
    · exact h id wrapper hlookup

/-- In every state that the registry reaches, plugins are under their own ids. -/
theorem underOwnId_of_runs (run : Runs pluginRegistry.Step pluginRegistry.start tr s) :
    UnderOwnId s.data.plugins := by
  refine run.state_invariant (P := fun u => UnderOwnId u.data.plugins) ?_ ?_
  · rintro id wrapper ⟨⟩
  · rintro u e v hu ⟨i, hnext⟩
    obtain ⟨rfl, hmoves⟩ := moves_of_next hnext
    cases hmoves with
    | @call t c d p hnew henter =>
        cases c <;> cases henter <;> exact hu
    | halt => exact hu
    | request => exact hu
    | grant => exact hu
    | release => exact hu
    | act => exact hu.exec
    | @env e => exact nomatch e

/-- The plugins of a state that the registry reaches. -/
def PluginTable.ofRun (run : Runs pluginRegistry.Step pluginRegistry.start tr s) : PluginTable :=
  ⟨s.data.plugins, underOwnId_of_runs run⟩

end Registered

/-! ## §3  Independence of the iteration order -/

namespace PluginTable

variable (t : PluginTable)

/-- The plugins in the order in which the map stores them. -/
def values : List PluginWrapper := t.plugins.toPairs.map Prod.snd

def enabled : List PluginWrapper := t.values.filter (fun p => p.config.enabled)

/-- **The order of the hooks is determined.** There is one arrangement of the enabled
plugins in descending priority such that, whatever the hook and the value, the transforms
are composed in it, in whichever order the map is iterated. -/
def Determined : Prop :=
  ∃ sorted : List PluginWrapper, sorted.Perm t.enabled ∧
    sorted.Pairwise (fun p q => q.config.priority ≤ p.config.priority) ∧
    ∀ hookFn initial order, order.Perm t.values →
      runTransform order initial hookFn = .ok (sorted.foldl (transform hookFn) initial)

/-- No two enabled plugins have the same priority. -/
def PrioritiesDiffer : Prop :=
  t.enabled.Pairwise (fun p q => p.config.priority ≠ q.config.priority)

instance : Decidable t.PrioritiesDiffer := inferInstanceAs (Decidable (List.Pairwise _ _))

end PluginTable

section Order

variable {t : PluginTable} {p q : PluginWrapper} {ps qs order : List PluginWrapper}

theorem sortByPriority_perm (ps : List PluginWrapper) : (sortByPriority ps).Perm ps :=
  List.mergeSort_perm ..

theorem priority_trans (p q r : PluginWrapper)
    (h : decide (q.config.priority ≤ p.config.priority) = true)
    (h' : decide (r.config.priority ≤ q.config.priority) = true) :
    decide (r.config.priority ≤ p.config.priority) = true := by
  simp only [decide_eq_true_eq] at *
  omega

theorem priority_total (p q : PluginWrapper) :
    (decide (q.config.priority ≤ p.config.priority) ||
      decide (p.config.priority ≤ q.config.priority)) = true := by
  simp only [Bool.or_eq_true, decide_eq_true_eq]
  omega

theorem sortByPriority_descending (ps : List PluginWrapper) :
    (sortByPriority ps).Pairwise (fun p q => q.config.priority ≤ p.config.priority) :=
  (List.pairwise_mergeSort priority_trans priority_total ps).imp of_decide_eq_true

/-- Where priorities differ, descending order leaves one arrangement. -/
theorem eq_of_descending (hperm : ps.Perm qs)
    (hdiffer : ps.Pairwise (fun p q => p.config.priority ≠ q.config.priority))
    (hps : ps.Pairwise (fun p q => q.config.priority ≤ p.config.priority))
    (hqs : qs.Pairwise (fun p q => q.config.priority ≤ p.config.priority)) : ps = qs := by
  refine hperm.eq_of_pairwise (fun p q hp hq hle hge => ?_) hps hqs
  by_contra hne
  have hsame : p.config.priority = q.config.priority := Int.le_antisymm hge hle
  have hsymm : Std.Symm (fun p q : PluginWrapper => p.config.priority ≠ q.config.priority) :=
    ⟨fun _ _ h => h.symm⟩
  exact hdiffer.forall hp (hperm.mem_iff.mpr hq) hne hsame

theorem determined_of_differ (h : t.PrioritiesDiffer) : t.Determined := by
  refine ⟨sortByPriority t.enabled, sortByPriority_perm _, sortByPriority_descending _, ?_⟩
  intro hookFn initial order horder
  have henabled : (order.filter (fun p => p.config.enabled)).Perm t.enabled := horder.filter _
  have hperm := (sortByPriority_perm t.enabled).trans
    (henabled.symm.trans (sortByPriority_perm (order.filter (fun p => p.config.enabled))).symm)
  have hsorted : sortByPriority t.enabled =
      sortByPriority (order.filter (fun p => p.config.enabled)) := by
    refine eq_of_descending hperm ?_ (sortByPriority_descending _) (sortByPriority_descending _)
    exact (sortByPriority_perm _).symm.pairwise h (fun h => h.symm)
  rw [runTransform, hsorted]

/-! ### Plugins of equal priority -/

theorem ids_nodup (t : PluginTable) : (t.values.map (·.inner.manifest.id)).Nodup := by
  have hkeys : t.values.map (·.inner.manifest.id) = t.plugins.keys := by
    show (t.plugins.toPairs.map Prod.snd).map _ = t.plugins.entries.map Sigma.fst
    rw [List.map_map, HashMap.toPairs, List.map_map]
    apply List.map_congr_left
    intro e he
    exact t.ids e.1 e.2 (AList.mem_lookup_iff.mpr he)
  rw [hkeys]
  exact t.plugins.keys_nodup

/-- A hook that leaves a mark at two plugins. -/
def markHook (p q : PluginWrapper) : HookFn := fun plugin _ =>
  if plugin.inner.manifest.id = p.inner.manifest.id ∨
      plugin.inner.manifest.id = q.inner.manifest.id then
    .ok (some plugin.inner.manifest.id)
  else .ok none

/-- The last mark remains. -/
theorem foldl_markHook (hsub : [p, q].Sublist ps)
    (hnodup : (ps.map (·.inner.manifest.id)).Nodup) (value : String) :
    ps.foldl (transform (markHook p q)) value = q.inner.manifest.id := by
  obtain ⟨front, back, rfl, hp, hq⟩ := List.cons_sublist_iff.mp hsub
  obtain ⟨middle, rest, rfl⟩ := List.append_of_mem (List.singleton_sublist.mp hq)
  have hrest : ∀ w ∈ rest, w.inner.manifest.id ≠ p.inner.manifest.id ∧
      w.inner.manifest.id ≠ q.inner.manifest.id := by
    intro w hw
    rw [List.map_append, List.nodup_append] at hnodup
    obtain ⟨-, hback, happart⟩ := hnodup
    rw [List.map_append, List.map_cons] at hback
    have hlast := (List.nodup_cons.mp (List.nodup_append.mp hback).2.1).1
    refine ⟨fun heq => ?_, fun heq => hlast (heq ▸ List.mem_map_of_mem hw)⟩
    exact happart _ (List.mem_map_of_mem hp) _ (List.mem_map_of_mem (by simp [hw])) heq.symm
  have hquiet : ∀ v, rest.foldl (transform (markHook p q)) v = v := by
    clear hnodup hsub hq
    induction rest with
    | nil => exact fun v => rfl
    | cons w rest ih =>
        intro v
        have hw := hrest w List.mem_cons_self
        rw [List.foldl_cons, ih (fun w' hw' => hrest w' (List.mem_cons_of_mem _ hw'))]
        simp [transform, markHook, hw]
  rw [List.foldl_append, List.foldl_append, List.foldl_cons, hquiet]
  simp [transform, markHook]

theorem markHook_comm (p q : PluginWrapper) : markHook p q = markHook q p := by
  funext plugin value
  simp only [markHook, or_comm]

/-- Of two plugins of equal priority, the one that the map yields last has the last word. -/
theorem runTransform_tie (horder : order.Perm t.values) (hsub : [p, q].Sublist order)
    (hp : p.config.enabled = true) (hq : q.config.enabled = true)
    (htie : p.config.priority = q.config.priority) :
    runTransform order "" (markHook p q) = .ok q.inner.manifest.id := by
  have hle : decide (q.config.priority ≤ p.config.priority) = true :=
    decide_eq_true (Int.le_of_eq htie.symm)
  have henabled : [p, q].Sublist (order.filter (fun p => p.config.enabled)) := by
    simpa [hp, hq] using hsub.filter (fun p => p.config.enabled)
  have hsorted : [p, q].Sublist (sortByPriority (order.filter (fun p => p.config.enabled))) :=
    List.pair_sublist_mergeSort priority_trans priority_total hle henabled
  have hnodup : ((sortByPriority (order.filter (fun p => p.config.enabled))).map
      (·.inner.manifest.id)).Nodup := by
    have hids : (order.map (·.inner.manifest.id)).Nodup :=
      (horder.map _).nodup_iff.mpr (ids_nodup t)
    rw [((sortByPriority_perm _).map _).nodup_iff]
    exact hids.sublist (List.filter_sublist.map _)
  rw [runTransform, foldl_markHook hsorted hnodup]

theorem differ_of_determined (h : t.Determined) : t.PrioritiesDiffer := by
  obtain ⟨sorted, -, -, hrun⟩ := h
  refine List.pairwise_iff_forall_sublist.mpr fun {p q} hsub htie => ?_
  have hvalues : [p, q].Sublist t.values := hsub.trans List.filter_sublist
  have henabled : ∀ w ∈ [p, q], w.config.enabled = true := fun w hw =>
    (List.mem_filter.mp (hsub.mem hw)).2
  have hp := henabled p (by simp)
  have hq := henabled q (by simp)
  -- the map as it is stored, and in the opposite order
  have hfirst := runTransform_tie (List.Perm.refl _) hvalues hp hq htie
  have hlast := runTransform_tie (t.values.reverse_perm) (List.reverse_sublist.mpr hvalues) hq hp
    htie.symm
  rw [markHook_comm] at hlast
  rw [hrun _ _ _ (List.Perm.refl _)] at hfirst
  rw [hrun _ _ _ t.values.reverse_perm, hfirst] at hlast
  have hids := (ids_nodup t).sublist (hvalues.map _)
  simp at hids
  exact hids (Except.ok.inj hlast).symm

/-- **The order of the hooks is determined** exactly for plugins of different priorities. -/
theorem hook_order_determined_iff (t : PluginTable) : t.Determined ↔ t.PrioritiesDiffer :=
  ⟨differ_of_determined, determined_of_differ⟩

end Order

/-- Two plugins as they are loaded, with the default priority. -/
def twoLoaded : List (Turn Call Empty) :=
  Turn.call 0 (Call.loadAndStart (plugin "redact" [])) :: List.replicate 20 (Turn.run 0) ++
    Turn.call 1 (Call.loadAndStart (plugin "shout" [])) :: List.replicate 20 (Turn.run 1)

theorem loaded_plugins_tie :
    ∃ tr s, ∃ run : Runs pluginRegistry.Step pluginRegistry.start tr s,
      ¬ (PluginTable.ofRun run).Determined :=
  ⟨_, _, runs_of_exec_isSome twoLoaded (by decide),
    fun h => absurd (differ_of_determined h) (by decide)⟩

end Oclaw.PluginCore
