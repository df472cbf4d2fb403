import Oclaw.Lib.Solo
import Oclaw.PluginCore.Registry

/-!
# Loading and unloading a plugin

What the calls of the registry compute when each runs alone, and what is left of a call that
fails. `load_and_start` enters the plugin before it is initialized and started, and
`unregister` takes it out before it is unloaded; neither undoes that when the plugin's own
code answers with an error.
-/

namespace Oclaw.PluginCore

open Oclaw.Lib

/-! ## §1  What the calls compute -/

section Calls

variable (d : Data)

/-- `check_dependencies`: the first dependency that is not registered. -/
def Data.missing (plugin : Plugin) : Option String :=
  (plugin.manifest.dependencies.map Prod.fst).find? (· ∉ d.plugins)

def Data.register (plugin : Plugin) (config : PluginConfig) : Data × Except PluginError String :=
  let pluginId := plugin.manifest.id
  if pluginId ∈ d.deny then (d, .error (.loadError s!"Plugin '{pluginId}' is denied"))
  else if d.allow.any (fun list => pluginId ∉ list) then
    (d, .error (.loadError s!"Plugin '{pluginId}' not in allow list"))
  else
    match d.missing plugin with
    | some depId =>
        (d, .error (.dependencyError s!"Missing dependency '{depId}' for plugin '{pluginId}'"))
    | none =>
        if pluginId ∈ d.plugins then
          (d, .error (.loadError s!"Plugin '{pluginId}' already registered"))
        else ({ d with plugins := d.plugins.insert pluginId ⟨plugin, config⟩ }, .ok pluginId)

def Data.unregister (pluginId : String) : Data × Except PluginError Unit :=
  match d.plugins.lookup pluginId with
  | none => (d, .error (notFound pluginId))
  | some wrapper =>
      ({ d with plugins := d.plugins.erase pluginId },
        wrapper.inner.onUnload.mapError .executionError)

def Data.initialize (pluginId : String) : Except PluginError Unit :=
  match d.plugins.lookup pluginId with
  | none => .error (notFound pluginId)
  | some wrapper => wrapper.inner.onInit.mapError .initError

def Data.start (pluginId : String) : Except PluginError Unit :=
  match d.plugins.lookup pluginId with
  | none => .error (notFound pluginId)
  | some wrapper => wrapper.inner.onStart.mapError .executionError

def Data.loadAndStart (plugin : Plugin) : Data × Except PluginError String :=
  match d.register plugin .default with
  | (d, .error e) => (d, .error e)
  | (d, .ok pluginId) =>
      (d, do
        Data.initialize d pluginId
        d.start pluginId
        return pluginId)

end Calls

def call (c : Call) (d : Data) : Data × Reply :=
  match c with
  | .register plugin config => ((d.register plugin config).1, .id (d.register plugin config).2)
  | .unregister pluginId => ((d.unregister pluginId).1, .done (d.unregister pluginId).2)
  | .loadAndStart plugin => ((d.loadAndStart plugin).1, .id (d.loadAndStart plugin).2)
  | .setAccessControl allow deny => ({ d with allow := allow, deny := deny }, .done (.ok ()))

section Computes

variable {d d' : Data} {plugin : Plugin} {config : PluginConfig} {k : After} {r : Reply}
variable {pluginId : String}

/-- `register` runs up to where its caller goes on. -/
theorem registerCode_completes
    (h : (k.resume (d.register plugin config).2).Completes exec (d.register plugin config).1 d' r) :
    (registerCode plugin config k).Completes exec d d' r := by
  refine .lock (.act ?_)
  unfold Data.register Data.missing at h
  simp only at h
  split at h
  · rename_i hdeny
    simp only [exec, if_pos hdeny]
    exact .unlock h
  · rename_i hdeny
    simp only [exec, if_neg hdeny]
    refine .unlock (.lock (.act ?_))
    split at h
    · rename_i hallow
      simp only [exec, if_pos hallow]
      exact .unlock h
    · rename_i hallow
      have hinsert (hdeps : (plugin.manifest.dependencies.map Prod.fst).find? (· ∉ d.plugins) =
          none) : (insertCode plugin config k).Completes exec d d' r := by
        rw [hdeps] at h
        simp only at h
        refine .lock (.act ?_)
        split at h
        · rename_i hmem
          simp only [exec, if_pos hmem]
          exact .unlock h
        · rename_i hnew
          simp only [exec, if_neg hnew]
          exact .unlock h
      by_cases hnone : plugin.manifest.dependencies = []
      · simp only [exec, if_neg hallow, if_pos hnone]
        exact .unlock (hinsert (by rw [hnone]; rfl))
      · simp only [exec, if_neg hallow, if_neg hnone]
        refine .unlock (.lock (.act ?_))
        cases hdeps : (plugin.manifest.dependencies.map Prod.fst).find? (· ∉ d.plugins) with
        | some depId =>
            rw [hdeps] at h
            simp only [exec, hdeps]
            exact .unlock h
        | none =>
            simp only [exec, hdeps]
            exact .unlock (hinsert hdeps)

/-- The rest of `load_and_start`. -/
theorem started_completes (d : Data) (pluginId : String) :
    (After.resume (.ok pluginId) .loadAndStart).Completes exec d d
      (.id (do
        Data.initialize d pluginId
        d.start pluginId
        return pluginId)) := by
  refine .lock (.act ?_)
  unfold Data.initialize Data.start
  cases hplugin : d.plugins.lookup pluginId with
  | none =>
      simp only [exec, hplugin]
      exact .unlock .halt
  | some wrapper =>
      cases hinit : wrapper.inner.onInit with
      | error e =>
          simp only [exec, hplugin, hinit]
          exact .unlock .halt
      | ok _ =>
          simp only [exec, hplugin, hinit]
          refine .unlock (.lock (.act ?_))
          simp only [exec, hplugin]
          cases wrapper.inner.onStart <;> exact .unlock .halt

/-- The programs of the registry compute these functions. -/
theorem pluginRegistry_computes : pluginRegistry.Computes call := by
  intro c d
  cases c with
  | register plugin config => exact ⟨d, _, rfl, registerCode_completes .halt⟩
  | unregister pluginId =>
      refine ⟨d, _, rfl, .lock (.act ?_)⟩
      simp only [call, Data.unregister, pluginRegistry, exec]
      cases d.plugins.lookup pluginId <;> exact .unlock .halt
  | loadAndStart plugin =>
      refine ⟨d, _, rfl, registerCode_completes ?_⟩
      simp only [call, Data.loadAndStart]
      rcases d.register plugin .default with ⟨d', e | pluginId⟩
      · exact .halt
      · exact started_completes d' pluginId
  | setAccessControl allow deny =>
      exact ⟨d, _, rfl, .lock (.act (.unlock (.lock (.act (.unlock .halt)))))⟩

end Computes

/-! ## §2  Atomicity -/

section Atomicity

variable (d : Data) (plugin : Plugin) (pluginId : String)

/-- **A failed load changes nothing.** The same plugins are registered as before. -/
def LoadAtomic : Prop :=
  ∀ e, (d.loadAndStart plugin).2 = .error e →
    ∀ id, id ∈ (d.loadAndStart plugin).1.plugins ↔ id ∈ d.plugins

/-- **A failed removal changes nothing.** The plugin is still registered if it was. -/
def UnregisterAtomic : Prop :=
  ∀ e, (d.unregister pluginId).2 = .error e →
    pluginId ∈ d.plugins → pluginId ∈ (d.unregister pluginId).1.plugins

/-- The registry turns the plugin away: it is denied or not allowed, a dependency is missing,
or its id is taken. -/
def Refused : Prop :=
  plugin.manifest.id ∈ d.deny ∨ (∃ list ∈ d.allow, plugin.manifest.id ∉ list) ∨
    (∃ dep ∈ plugin.manifest.dependencies.map Prod.fst, dep ∉ d.plugins) ∨
    plugin.manifest.id ∈ d.plugins

/-- The hooks that a load calls succeed. -/
def Starts : Prop := plugin.onInit = .ok () ∧ plugin.onStart = .ok ()

end Atomicity

section

variable {d : Data} {plugin : Plugin} {pluginId : String} {config : PluginConfig}

/-- **Spec of `register`.** A refused plugin leaves the data alone. -/
theorem register_of_refused (h : Refused d plugin) :
    ∃ e, d.register plugin config = (d, .error e) := by
  unfold Data.register
  simp only
  split
  · exact ⟨_, rfl⟩
  · rename_i hdeny
    split
    · exact ⟨_, rfl⟩
    · rename_i hallow
      split
      · exact ⟨_, rfl⟩
      · rename_i hdeps
        split
        · exact ⟨_, rfl⟩
        · rename_i hnew
          exfalso
          rcases h with h | ⟨list, hlist, hnot⟩ | ⟨dep, hdep, hnot⟩ | h
          · exact hdeny h
          · exact hallow ((Option.any_eq_true _ _).mpr ⟨list, hlist, by simpa using hnot⟩)
          · have hfound := List.find?_eq_none.mp hdeps dep hdep
            simp [hnot] at hfound
          · exact hnew h

theorem register_of_not_refused (h : ¬ Refused d plugin) :
    d.register plugin config =
      ({ d with plugins := d.plugins.insert plugin.manifest.id ⟨plugin, config⟩ },
        .ok plugin.manifest.id) := by
  obtain ⟨hdeny, h⟩ := not_or.mp h
  obtain ⟨hallow, h⟩ := not_or.mp h
  obtain ⟨hdeps, hnew⟩ := not_or.mp h
  have hallowed : ¬ d.allow.any (fun list => plugin.manifest.id ∉ list) = true := by
    intro hany
    obtain ⟨list, hlist, hnot⟩ := (Option.any_eq_true _ _).mp hany
    exact hallow ⟨list, hlist, by simpa using hnot⟩
  have hmissing : d.missing plugin = none := by
    refine List.find?_eq_none.mpr fun dep hdep hnot => hdeps ⟨dep, hdep, ?_⟩
    simpa using hnot
  unfold Data.register
  simp only [if_neg hdeny, if_neg hallowed, hmissing, if_neg hnew]

/-- What a load that is not refused comes to. -/
theorem loadAndStart_of_not_refused (h : ¬ Refused d plugin) :
    (d.loadAndStart plugin).1.plugins = d.plugins.insert plugin.manifest.id ⟨plugin, .default⟩ ∧
      ((∃ e, (d.loadAndStart plugin).2 = .error e) ↔ ¬ Starts plugin) := by
  have hload : d.loadAndStart plugin =
      ({ d with plugins := d.plugins.insert plugin.manifest.id ⟨plugin, .default⟩ }, do
        plugin.onInit.mapError .initError
        plugin.onStart.mapError .executionError
        return plugin.manifest.id) := by
    rw [Data.loadAndStart, register_of_not_refused h]
    simp only [Data.start, Data.initialize, AList.lookup_insert]
  rw [hload]
  refine ⟨rfl, ?_⟩
  unfold Starts
  cases plugin.onInit with
  | error e => simp [Except.mapError, bind, Except.bind]
  | ok _ =>
      cases plugin.onStart with
      | error e => simp [Except.mapError, bind, Except.bind]
      | ok _ => simp [Except.mapError, bind, Except.bind, pure, Except.pure]

theorem loadAtomic_iff : LoadAtomic d plugin ↔ Refused d plugin ∨ Starts plugin := by
  by_cases h : Refused d plugin
  · refine iff_of_true (fun e _ id => ?_) (.inl h)
    have hrefused : ∃ e, d.register plugin .default = (d, .error e) := register_of_refused h
    obtain ⟨e', hregister⟩ := hrefused
    rw [Data.loadAndStart, hregister]
  · rw [or_iff_right h]
    obtain ⟨hplugins, herror⟩ := loadAndStart_of_not_refused h
    rw [← not_iff_not, ← herror]
    constructor
    · intro hnot
      unfold LoadAtomic at hnot
      push Not at hnot
      obtain ⟨e, he, -⟩ := hnot
      exact ⟨e, he⟩
    · rintro ⟨e, he⟩ hatomic
      have hsame := hatomic e he plugin.manifest.id
      rw [hplugins, AList.mem_insert] at hsame
      exact h (.inr (.inr (.inr (hsame.mp (.inl rfl)))))

theorem unregisterAtomic_iff :
    UnregisterAtomic d pluginId ↔
      ∀ wrapper ∈ d.plugins.lookup pluginId, wrapper.inner.onUnload = .ok () := by
  unfold UnregisterAtomic Data.unregister
  cases hplugin : d.plugins.lookup pluginId with
  | none =>
      have hnot : pluginId ∉ d.plugins := AList.lookup_eq_none.mp hplugin
      simp [hnot]
  | some wrapper =>
      have hmem : pluginId ∈ d.plugins := AList.lookup_isSome.mp (by rw [hplugin]; rfl)
      cases hunload : wrapper.inner.onUnload with
      | error e => simp [Except.mapError, hmem, hunload]
      | ok _ => simp [Except.mapError, hunload]

/-- A load that fails in a hook cannot be retried: the id is taken. -/
theorem refused_after_load {plugin' : Plugin} (h : ¬ Refused d plugin)
    (hid : plugin'.manifest.id = plugin.manifest.id) :
    Refused (d.loadAndStart plugin).1 plugin' := by
  rw [Refused, (loadAndStart_of_not_refused h).1, hid]
  exact .inr (.inr (.inr ((AList.mem_insert _).mpr (.inl rfl))))

end

/-- A plugin that cannot be initialized, and one that cannot be unloaded. -/
def uninitialized : Plugin :=
  ⟨⟨"search", []⟩, .error "no key", .ok (), .ok ()⟩

def stuck : Plugin := ⟨⟨"voice", []⟩, .ok (), .ok (), .error "still playing"⟩

end Oclaw.PluginCore
