import Mathlib.Data.Finset.Insert
import Mathlib.Data.Fintype.Defs
import Oclaw.Lib.HashMap
import Oclaw.Lib.Json
import Oclaw.Lib.RwLock

/-!
# The plugin registry

`PluginRegistry` of `crates/plugin-core/src/registry.rs` with `load_and_start` of
`PluginManager`: the plugins by id and the two access lists, each behind its own lock.
Dependencies are checked when a plugin is registered, before it is entered.
-/

namespace Oclaw.PluginCore

open Oclaw.Lib

/-! ## §1  Data -/

/-- The fields of the manifest that the registry reads; the dependencies in the order in
which their map is iterated. -/
structure PluginManifest : Type where
  id : String
  dependencies : List (String × String)

structure PluginConfig : Type where
  enabled : Bool
  priority : Int
  timeoutMs : ℕ
  retryOnError : Bool
  maxRetries : ℕ
  settings : List (String × Json)

def PluginConfig.default : PluginConfig := ⟨true, 0, 30000, true, 3, []⟩

/-- A plugin with what its hooks answer. -/
structure Plugin : Type where
  manifest : PluginManifest
  onInit : Except String Unit
  onStart : Except String Unit
  onUnload : Except String Unit

structure PluginWrapper : Type where
  inner : Plugin
  config : PluginConfig

inductive PluginError : Type where
  | loadError (text : String)
  | initError (text : String)
  | executionError (text : String)
  | notFound (text : String)
  | dependencyError (text : String)

def PluginError.text : PluginError → String
  | .loadError text => s!"Load error: {text}"
  | .initError text => s!"Initialization error: {text}"
  | .executionError text => s!"Execution error: {text}"
  | .notFound text => s!"Not found: {text}"
  | .dependencyError text => s!"Dependency error: {text}"

structure Data : Type where
  plugins : HashMap String PluginWrapper
  allow : Option (List String)
  deny : List String

inductive Loc : Type where
  | plugins
  | allow
  | deny
deriving DecidableEq

instance instFintypeLoc : Fintype Loc where
  elems := {.plugins, .allow, .deny}
  complete l := by cases l <;> decide

inductive Reply : Type where
  | id (r : Except PluginError String)
  | done (r : Except PluginError Unit)

/-- Who called `register`. -/
inductive After : Type where
  | register
  | loadAndStart

/-- The code between two lock operations, with its local variables. -/
inductive Act : Type where
  | denyRead (plugin : Plugin) (config : PluginConfig) (k : After)
  | allowRead (plugin : Plugin) (config : PluginConfig) (k : After)
  | checkDependencies (plugin : Plugin) (config : PluginConfig) (k : After)
  | registerInsert (plugin : Plugin) (config : PluginConfig) (k : After)
  | unregisterRemove (pluginId : String)
  | initPlugin (pluginId : String)
  | startPlugin (pluginId : String)
  | setAllow (allow : Option (List String)) (deny : List String)
  | setDeny (deny : List String)

abbrev Code : Type := Prog Loc Act Reply

inductive Call : Type where
  | register (plugin : Plugin) (config : PluginConfig)
  | unregister (pluginId : String)
  | loadAndStart (plugin : Plugin)
  | setAccessControl (allow : Option (List String)) (deny : List String)

/-! ## §2  The methods -/

def registerCode (plugin : Plugin) (config : PluginConfig) (k : After) : Code :=
  .lock .deny .read (.act (.denyRead plugin config k))

def insertCode (plugin : Plugin) (config : PluginConfig) (k : After) : Code :=
  .lock .plugins .write (.act (.registerInsert plugin config k))

/-- How the caller of `register` goes on. -/
def After.resume (r : Except PluginError String) : After → Code
  | .register => .halt (.id r)
  | .loadAndStart =>
      match r with
      | .ok pluginId => .lock .plugins .write (.act (.initPlugin pluginId))
      | .error e => .halt (.id (.error e))

def notFound (pluginId : String) : PluginError := .notFound s!"Plugin '{pluginId}' not found"

def enter (c : Call) (d : Data) : Option (Data × Code) :=
  match c with
  | .register plugin config => some (d, registerCode plugin config .register)
  | .unregister pluginId => some (d, .lock .plugins .write (.act (.unregisterRemove pluginId)))
  | .loadAndStart plugin => some (d, registerCode plugin .default .loadAndStart)
  | .setAccessControl allow deny => some (d, .lock .allow .write (.act (.setAllow allow deny)))

def exec (a : Act) (d : Data) : Data × Code :=
  match a with
  -- register
  | .denyRead plugin config k =>
      if plugin.manifest.id ∈ d.deny then
        (d, .unlock .deny .read (k.resume
          (.error (.loadError s!"Plugin '{plugin.manifest.id}' is denied"))))
      else (d, .unlock .deny .read (.lock .allow .read (.act (.allowRead plugin config k))))
  | .allowRead plugin config k =>
      if d.allow.any (fun list => plugin.manifest.id ∉ list) then
        (d, .unlock .allow .read (k.resume
          (.error (.loadError s!"Plugin '{plugin.manifest.id}' not in allow list"))))
      else if plugin.manifest.dependencies = [] then
        (d, .unlock .allow .read (insertCode plugin config k))
      else
        (d, .unlock .allow .read (.lock .plugins .read (.act (.checkDependencies plugin config k))))
  | .checkDependencies plugin config k =>
      match (plugin.manifest.dependencies.map Prod.fst).find? (· ∉ d.plugins) with
      | some depId =>
          (d, .unlock .plugins .read (k.resume (.error (.dependencyError
            s!"Missing dependency '{depId}' for plugin '{plugin.manifest.id}'"))))
      | none => (d, .unlock .plugins .read (insertCode plugin config k))
  | .registerInsert plugin config k =>
      if plugin.manifest.id ∈ d.plugins then
        (d, .unlock .plugins .write (k.resume
          (.error (.loadError s!"Plugin '{plugin.manifest.id}' already registered"))))
      else
        ({ d with plugins := d.plugins.insert plugin.manifest.id ⟨plugin, config⟩ },
          .unlock .plugins .write (k.resume (.ok plugin.manifest.id)))
  -- unregister
  | .unregisterRemove pluginId =>
      match d.plugins.lookup pluginId with
      | none => (d, .unlock .plugins .write (.halt (.done (.error (notFound pluginId)))))
      | some wrapper =>
          ({ d with plugins := d.plugins.erase pluginId },
            .unlock .plugins .write (.halt (.done
              (wrapper.inner.onUnload.mapError .executionError))))
  -- the rest of load_and_start
  | .initPlugin pluginId =>
      match d.plugins.lookup pluginId with
      | none => (d, .unlock .plugins .write (.halt (.id (.error (notFound pluginId)))))
      | some wrapper =>
          match wrapper.inner.onInit with
          | .error e => (d, .unlock .plugins .write (.halt (.id (.error (.initError e)))))
          | .ok _ =>
              (d, .unlock .plugins .write (.lock .plugins .write (.act (.startPlugin pluginId))))
  | .startPlugin pluginId =>
      match d.plugins.lookup pluginId with
      | none => (d, .unlock .plugins .write (.halt (.id (.error (notFound pluginId)))))
      | some wrapper =>
          (d, .unlock .plugins .write (.halt (.id
            ((wrapper.inner.onStart.mapError .executionError).map (fun _ => pluginId)))))
  -- set_access_control
  | .setAllow allow deny =>
      ({ d with allow := allow },
        .unlock .allow .write (.lock .deny .write (.act (.setDeny deny))))
  | .setDeny deny => ({ d with deny := deny }, .unlock .deny .write (.halt (.done (.ok ()))))

/-! ## §3  The service -/

/-- The guards that are alive while an action runs. -/
def held : Act → Loc → Option Mode
  | .denyRead _ _ _, .deny => some .read
  | .allowRead _ _ _, .allow => some .read
  | .checkDependencies _ _ _, .plugins => some .read
  | .registerInsert _ _ _, .plugins => some .write
  | .unregisterRemove _, .plugins => some .write
  | .initPlugin _, .plugins | .startPlugin _, .plugins => some .write
  | .setAllow _ _, .allow => some .write
  | .setDeny _, .deny => some .write
  | _, _ => none

theorem Loc.forall_iff {φ : Loc → Prop} : (∀ l, φ l) ↔ φ .plugins ∧ φ .allow ∧ φ .deny :=
  ⟨fun h => ⟨h _, h _, h _⟩, fun ⟨h₁, h₂, h₃⟩ l => by cases l <;> assumption⟩

/-- The caller of `register` goes on without a guard. -/
theorem resume_wf (k : After) (r : Except PluginError String) :
    (k.resume r).Wf held (fun _ _ => none) (fun _ _ => False) ∧
      (k.resume r).guards held = fun _ => none := by
  fun_cases After.resume r k
  all_goals
    refine ⟨?_, by funext l; cases l <;> rfl⟩
    simp [Prog.Wf, Prog.guards, Loc.forall_iff, held]

theorem enter_wf {c : Call} {d d' : Data} {p : Code} (h : enter c d = some (d', p)) :
    p.Wf held (fun _ _ => none) (fun _ _ => False) ∧ p.guards held = fun _ => none := by
  revert h
  fun_cases enter c d
  all_goals
    rintro ⟨⟩
    refine ⟨?_, by funext l; cases l <;> rfl⟩
    simp [registerCode, Prog.Wf, Prog.guards, Loc.forall_iff, held]

theorem exec_wf (a : Act) (d : Data) :
    (exec a d).2.Wf held (fun _ _ => none) (fun _ _ => False) ∧
      (exec a d).2.guards held = held a := by
  fun_cases exec a d
  all_goals
    refine ⟨?_, ?_⟩
    · simp [insertCode, Prog.Wf, Prog.guards, Loc.forall_iff, held, resume_wf]
    · funext l
      cases l <;> simp [insertCode, Prog.guards, held, resume_wf]

/-- The registry. No method takes a lock inside another one. -/
def pluginRegistry : Service Loc Act Reply Call Empty Data where
  init := ⟨∅, none, []⟩
  enter := enter
  exec := exec
  env e _ := nomatch e
  held := held
  pins _ _ := none
  nests _ _ := False
  pins_held h := by cases h
  enter_wf := enter_wf
  exec_wf := exec_wf

/-! ## §4  Dependencies -/

variable {f : ℕ → Option Act} {d d' : Data} {t : ℕ} {a : Act} {s : Sys Loc Act Reply Data}
variable {id : String} {w : PluginWrapper}

/-- Every dependency of a registered plugin is registered. -/
def Closed (d : Data) : Prop := ∀ id wrapper, d.plugins.lookup id = some wrapper →
  ∀ dep ∈ wrapper.inner.manifest.dependencies.map Prod.fst, dep ∈ d.plugins

/-- The dependencies of a call of `register` that has checked them. -/
def Act.relies : Act → List String
  | .registerInsert plugin _ _ => plugin.manifest.dependencies.map Prod.fst
  | _ => []

/-- `unregister` removes a plugin on which no registered plugin depends, nor one that is
being registered and has passed the check. -/
def Spares (s : Sys Loc Act Reply Data) (_ : ℕ) : Act → Prop
  | .unregisterRemove pluginId =>
      (∀ e ∈ s.data.plugins.entries, e.1 ≠ pluginId →
        pluginId ∉ e.2.inner.manifest.dependencies.map Prod.fst) ∧
      ∀ t ∈ s.calls, ∀ a ∈ s.focusAt t, pluginId ∉ a.relies
  | _ => True

instance Spares.decidable (s : Sys Loc Act Reply Data) (t : ℕ) : ∀ a, Decidable (Spares s t a)
  | .unregisterRemove pluginId => inferInstanceAs (Decidable (
      (∀ e ∈ s.data.plugins.entries, e.1 ≠ pluginId →
        pluginId ∉ e.2.inner.manifest.dependencies.map Prod.fst) ∧
      ∀ t ∈ s.calls, ∀ a ∈ s.focusAt t, pluginId ∉ a.relies))
  | .denyRead _ _ _ | .allowRead _ _ _ | .checkDependencies _ _ _ | .registerInsert _ _ _
  | .initPlugin _ | .startPlugin _ | .setAllow _ _ | .setDeny _ => inferInstanceAs (Decidable True)

/-- What has been checked holds until the plugin is entered. -/
structure Inv (f : ℕ → Option Act) (d : Data) : Prop where
  closed : Closed d
  checked : ∀ {t a}, f t = some a → ∀ dep ∈ a.relies, dep ∈ d.plugins

theorem relies_resume {k : After} {r : Except PluginError String} :
    ∀ a ∈ (k.resume r).focus, a.relies = [] := by
  fun_cases After.resume r k
  all_goals rintro a ⟨⟩
  rfl

/-- A step that leaves the plugins alone and relies only on some that are there. -/
theorem Inv.keep {o : Option Act} (h : Inv f d) (hplugins : d'.plugins = d.plugins)
    (hnext : ∀ a ∈ o, ∀ dep ∈ a.relies, dep ∈ d.plugins) : Inv (Function.update f t o) d' := by
  constructor
  · rw [Closed, hplugins]
    exact h.closed
  · intro t' a' hf dep hdep
    rw [hplugins]
    rcases update_eq_some hf with ⟨-, heq⟩ | ⟨-, hf⟩
    · exact hnext a' heq dep hdep
    · exact h.checked hf dep hdep

theorem Inv.enter {c : Call} {p : Code} (h : Inv f d) (henter : enter c d = some (d', p)) :
    Inv (Function.update f t p.focus) d' := by
  revert henter
  fun_cases PluginCore.enter c d
  all_goals
    rintro ⟨⟩
    refine h.keep rfl ?_
    rintro a ⟨⟩ dep ⟨⟩

theorem Inv.insert {plugin : Plugin} {config : PluginConfig} {k : After} (h : Inv f d)
    (hf : f t = some (.registerInsert plugin config k)) :
    Inv (Function.update f t (exec (.registerInsert plugin config k) d).2.focus)
      (exec (.registerInsert plugin config k) d).1 := by
  simp only [exec]
  split
  · refine h.keep rfl fun a ha dep hdep => ?_
    rw [relies_resume a ha] at hdep
    cases hdep
  · constructor
    · intro id wrapper hlookup dep hdep
      simp only [HashMap.lookup_insert_eq] at hlookup
      rw [AList.mem_insert]
      split at hlookup
      · cases hlookup
        exact Or.inr (h.checked hf dep hdep)
      · exact Or.inr (h.closed id wrapper hlookup dep hdep)
    · intro t' a' hf' dep hdep
      rw [AList.mem_insert]
      rcases update_eq_some hf' with ⟨-, heq⟩ | ⟨-, hf'⟩
      · rw [relies_resume a' heq] at hdep
        cases hdep
      · exact Or.inr (h.checked hf' dep hdep)

theorem Inv.remove {pluginId : String} (h : Inv f d)
    (hspared : ∀ e ∈ d.plugins.entries, e.1 ≠ pluginId →
      pluginId ∉ e.2.inner.manifest.dependencies.map Prod.fst)
    (hcalls : ∀ t a, f t = some a → pluginId ∉ a.relies) :
    Inv (Function.update f t (exec (.unregisterRemove pluginId) d).2.focus)
      (exec (.unregisterRemove pluginId) d).1 := by
  simp only [exec]
  split
  · exact h.keep rfl (by rintro a ⟨⟩)
  · constructor
    · intro id wrapper hlookup dep hdep
      simp only [HashMap.lookup_erase_eq] at hlookup
      split at hlookup
      · cases hlookup
      · rename_i hne
        rw [AList.mem_erase]
        refine ⟨?_, h.closed id wrapper hlookup dep hdep⟩
        rintro rfl
        exact hspared ⟨id, wrapper⟩ (AList.mem_lookup_iff.mp hlookup) hne hdep
    · intro t' a' hf' dep hdep
      rcases update_eq_some hf' with ⟨-, ⟨⟩⟩ | ⟨-, hother⟩
      rw [AList.mem_erase]
      refine ⟨?_, h.checked hother dep hdep⟩
      rintro rfl
      exact hcalls t' a' hother hdep

theorem Inv.exec (h : Inv f d) (hf : f t = some a)
    (hspared : ∀ pluginId, a = .unregisterRemove pluginId →
      (∀ e ∈ d.plugins.entries, e.1 ≠ pluginId →
        pluginId ∉ e.2.inner.manifest.dependencies.map Prod.fst) ∧
      ∀ t a, f t = some a → pluginId ∉ a.relies) :
    Inv (Function.update f t (exec a d).2.focus) (exec a d).1 := by
  have hresume (k : After) (r : Except PluginError String) :
      ∀ a ∈ (k.resume r).focus, ∀ dep ∈ a.relies, dep ∈ d.plugins := by
    intro a ha dep hdep
    rw [relies_resume a ha] at hdep
    cases hdep
  cases a
  case registerInsert plugin config k => exact h.insert hf
  case unregisterRemove pluginId =>
    obtain ⟨hentries, hcalls⟩ := hspared pluginId rfl
    exact h.remove hentries hcalls
  case denyRead plugin config k =>
    simp only [PluginCore.exec]
    split
    · exact h.keep rfl (hresume _ _)
    · exact h.keep rfl (by rintro a ⟨⟩ dep ⟨⟩)
  case allowRead plugin config k =>
    simp only [PluginCore.exec]
    split
    · exact h.keep rfl (hresume _ _)
    · split
      · rename_i hnone
        refine h.keep rfl ?_
        rintro a ⟨⟩ dep hdep
        simp [Act.relies, hnone] at hdep
      · exact h.keep rfl (by rintro a ⟨⟩ dep ⟨⟩)
  case checkDependencies plugin config k =>
    simp only [PluginCore.exec]
    split
    · exact h.keep rfl (hresume _ _)
    · rename_i hfound
      refine h.keep rfl ?_
      rintro a ⟨⟩ dep hdep
      simpa using List.find?_eq_none.mp hfound dep hdep
  case initPlugin pluginId =>
    simp only [PluginCore.exec]
    split
    · exact h.keep rfl (by rintro a ⟨⟩)
    · split
      · exact h.keep rfl (by rintro a ⟨⟩)
      · exact h.keep rfl (by rintro a ⟨⟩ dep ⟨⟩)
  case startPlugin pluginId =>
    simp only [PluginCore.exec]
    split
    · exact h.keep rfl (by rintro a ⟨⟩)
    · exact h.keep rfl (by rintro a ⟨⟩)
  case setAllow allow deny => exact h.keep rfl (by rintro a ⟨⟩ dep ⟨⟩)
  case setDeny deny => exact h.keep rfl (by rintro a ⟨⟩)

variable {tr : List (Turn Call Empty)}

/-- Dependencies stay registered when no `unregister` takes one away. -/
theorem dependencies_registered
    (run : Runs (StepWhere pluginRegistry.Step (TurnsWhere (fun _ _ => True) Spares))
      pluginRegistry.start tr s) : Closed s.data := by
  suffices h : Inv s.focusAt s.data from h.closed
  refine Service.focus_invariant agrees_start ⟨?_, ?_⟩ ?_ ?_ ?_ run
  · rintro id wrapper ⟨⟩
  · rintro t a ⟨⟩
  · exact fun _ hu _ _ henter => hu.enter henter
  · exact fun {_ _ e} => nomatch e
  · intro _ u t a _ hagree hu hproc hspares
    refine hu.exec (focusAt_act hproc) ?_
    rintro pluginId rfl
    refine ⟨hspares.1, fun t' a' hf => ?_⟩
    refine hspares.2 t' ?_ a' hf
    -- only a call in progress has a next action
    by_contra hnew
    simp [Sys.focusAt, hagree.free hnew] at hf

/-- A plugin that depends on these. -/
def plugin (id : String) (deps : List String) : Plugin :=
  ⟨⟨id, deps.map (fun dep => (dep, "1.0.0"))⟩, .ok (), .ok (), .ok ()⟩

/-- A plugin and its dependency are registered, and the dependency is taken away. -/
def dependencyTaken : List (Turn Call Empty) :=
  Turn.call 0 (Call.register (plugin "core" []) .default) :: List.replicate 13 (Turn.run 0) ++
    Turn.call 1 (Call.register (plugin "addon" ["core"]) .default) ::
    List.replicate 17 (Turn.run 1) ++
    Turn.call 2 (Call.unregister "core") :: List.replicate 5 (Turn.run 2)

theorem dependency_taken :
    ∃ tr s wrapper, Runs pluginRegistry.Step pluginRegistry.start tr s ∧
      s.data.plugins.lookup "addon" = some wrapper ∧
      "core" ∈ wrapper.inner.manifest.dependencies.map Prod.fst ∧ "core" ∉ s.data.plugins := by
  have run : Runs pluginRegistry.Step pluginRegistry.start _ _ :=
    runs_of_exec_isSome dependencyTaken (by decide)
  exact ⟨_, _, ⟨plugin "addon" ["core"], .default⟩, run, rfl, by decide, by decide⟩

/-- The two are taken away in the other order. -/
theorem dependencies_registered_addon :
    ∃ tr s, Runs (StepWhere pluginRegistry.Step (TurnsWhere (fun _ _ => True) Spares))
        pluginRegistry.start tr s ∧ tr.length = 38 ∧ "core" ∈ s.data.plugins ∧
      "addon" ∉ s.data.plugins ∧ Closed s.data := by
  have run : Runs (StepWhere pluginRegistry.Step (TurnsWhere (fun _ _ => True) Spares))
      pluginRegistry.start _ _ :=
    runs_where_of_exec (dependencyTaken.take 32 ++
      .call 2 (.unregister "addon") :: List.replicate 5 (.run 2)) (by decide)
  exact ⟨_, _, run, by decide, by decide, by decide,
    dependencies_registered run⟩

end Oclaw.PluginCore
