import Mathlib.Data.Finmap
import Oclaw.Lib.Transition

/-!
# The subagent registry

`SubagentRegistry` of `crates/agent-core/src/subagent.rs` as a machine. `spawn`
registers an entry and starts a background task for it, which marks the entry as
running, runs the agent and stores what came of it; `spawn_and_wait` polls the
entry. The tasks, the polls and the other calls take the lock of the registry for
one access each and interleave freely. Ids are UUIDs, so no two spawns share one.
What an agent run ends with and all clock readings are chosen by the environment,
and the configuration of a subagent is handed on unread.
-/

namespace Oclaw.AgentCore

open Oclaw.Lib

variable {κ : Type*}

/-! ## §1  Entries -/

inductive SubagentStatus : Type where
  | pending
  | initializing
  | ready
  | running
  | completed
  | failed
  | terminated
deriving DecidableEq

structure Subagent (κ : Type*) where
  id : String
  config : κ
  status : SubagentStatus
  parentId : Option String
  createdAt : ℕ
  startedAt : Option ℕ
  completedAt : Option ℕ
  result : Option String
  error : Option String
  metadata : List (String × String)

namespace Subagent

def new (id : String) (config : κ) (now : ℕ) : Subagent κ where
  id := id
  config := config
  status := .pending
  parentId := none
  createdAt := now
  startedAt := none
  completedAt := none
  result := none
  error := none
  metadata := []

def isCompleted (a : Subagent κ) : Bool :=
  a.status = .completed || a.status = .failed || a.status = .terminated

def setRunning (now : ℕ) (a : Subagent κ) : Subagent κ :=
  { a with status := .running, startedAt := some now }

def setCompleted (result : String) (now : ℕ) (a : Subagent κ) : Subagent κ :=
  { a with status := .completed, completedAt := some now, result := some result }

def setFailed (error : String) (now : ℕ) (a : Subagent κ) : Subagent κ :=
  { a with status := .failed, completedAt := some now, error := some error }

def terminate (now : ℕ) (a : Subagent κ) : Subagent κ :=
  { a with status := .terminated, completedAt := some now }

end Subagent

/-! ## §2  The registry -/

/-- `HashMap<String, Subagent>` -/
abbrev Agents (κ : Type*) := Finmap (fun _ : String => Subagent κ)

/-- `get_mut(id)` and an edit of the entry it finds. -/
def Agents.modify (agents : Agents κ) (id : String) (f : Subagent κ → Subagent κ) : Agents κ :=
  match agents.lookup id with
  | some a => agents.insert id (f a)
  | none => agents

/-- `retain` on the entries. -/
def Agents.retain (agents : Agents κ) (keep : Subagent κ → Bool) : Agents κ where
  entries := agents.entries.filter (fun e => keep e.2)
  nodupKeys := by
    rw [← Multiset.nodup_keys]
    exact Multiset.nodup_of_le (Multiset.map_le_map (Multiset.filter_le _ _))
      agents.nodupKeys.nodup_keys

/-- How a subagent run ends; the payload of a panic may be no text. -/
inductive AgentRunEnd : Type where
  | returned (result : Except String String)
  | panicked (message : Option String)

/-- What the background task writes when the run has ended. -/
def AgentRunEnd.write (how : AgentRunEnd) (now : ℕ) (a : Subagent κ) : Subagent κ :=
  if a.status = .terminated then a
  else
    match how with
    | .returned (.ok result) => a.setCompleted result now
    | .returned (.error e) => a.setFailed e now
    | .panicked message => a.setFailed ("Panic: " ++ message.getD "unknown panic") now

/-- One poll of `spawn_and_wait`: `none` when it goes on waiting. -/
def waitAnswer : Option (Subagent κ) → Option (Except String String)
  | none => some (.error "Subagent not found")
  | some a =>
      match a.status with
      | .completed => some (.ok (a.result.getD ""))
      | .failed => some (.error (a.error.getD ""))
      | .terminated => some (.error "Terminated")
      | _ => none

/-- Where the background task of an entry is: before its first access, running the
agent, or behind its last access. -/
inductive TaskPc : Type where
  | queued
  | running
  | done
deriving DecidableEq

inductive WaitPc : Type where
  | waiting
  | returned (result : Except String String)
deriving DecidableEq

structure RegistryState (κ : Type*) where
  agents : Agents κ
  tasks : String → Option TaskPc
  waiters : String → Option WaitPc

def RegistryState.start : RegistryState κ := ⟨∅, fun _ => none, fun _ => none⟩

inductive RegistryMove (κ : Type*) where
  | spawn (id : String) (config : κ) (parentId : Option String) (wait : Bool) (now : ℕ)
  | markRunning (id : String) (now : ℕ)
  | store (id : String) (how : AgentRunEnd) (now : ℕ)
  | poll (id : String)
  | terminate (id : String) (now : ℕ)
  | get (id : String)
  | list
  | remove (id : String)
  | clearCompleted

/-- What a step shows: a move that returns nothing of interest, a `terminate` with
its answer, or a poll with its answer. -/
inductive RegistryEvent : Type where
  | quiet
  | marked (id : String)
  | terminated (id : String) (answer : Bool)
  | polled (id : String) (answer : Option (Except String String))
deriving DecidableEq

def RegistryState.next (s : RegistryState κ) :
    RegistryMove κ → Option (RegistryEvent × RegistryState κ)
  | .spawn id config parentId wait now =>
      match s.tasks id with
      | some _ => none
      | none =>
          some (.quiet,
            { agents := s.agents.insert id { Subagent.new id config now with parentId := parentId }
              tasks := Function.update s.tasks id (some .queued)
              waiters :=
                if wait then Function.update s.waiters id (some .waiting) else s.waiters })
  | .markRunning id now =>
      if s.tasks id = some .queued then
        some (.marked id,
          { s with
            agents := s.agents.modify id (Subagent.setRunning now)
            tasks := Function.update s.tasks id (some .running) })
      else none
  | .store id how now =>
      if s.tasks id = some .running then
        some (.quiet,
          { s with
            agents := s.agents.modify id (how.write now)
            tasks := Function.update s.tasks id (some .done) })
      else none
  | .poll id =>
      if s.waiters id = some .waiting then
        match waitAnswer (s.agents.lookup id) with
        | some r =>
            some (.polled id (some r),
              { s with waiters := Function.update s.waiters id (some (.returned r)) })
        | none => some (.polled id none, s)
      else none
  | .terminate id now =>
      if (s.agents.lookup id).any (fun a => !a.isCompleted) then
        some (.terminated id true, { s with agents := s.agents.modify id (Subagent.terminate now) })
      else some (.terminated id false, s)
  | .get _ => some (.quiet, s)
  | .list => some (.quiet, s)
  | .remove id => some (.quiet, { s with agents := s.agents.erase id })
  | .clearCompleted => some (.quiet, { s with agents := s.agents.retain (fun a => !a.isCompleted) })

def RegistryStep (s : RegistryState κ) (e : RegistryEvent) (t : RegistryState κ) : Prop :=
  Induced RegistryState.next s e t

/-! ## §3  Lookups after an access -/

section

variable {agents : Agents κ} {id id' : String}

theorem Agents.lookup_modify (f : Subagent κ → Subagent κ) :
    (agents.modify id f).lookup id' =
      if id' = id then (agents.lookup id').map f else agents.lookup id' := by
  unfold Agents.modify
  by_cases h : id' = id
  · subst h
    cases hget : agents.lookup id' <;> simp [hget]
  · cases hget : agents.lookup id <;> simp [h]

theorem Agents.lookup_retain {keep : Subagent κ → Bool} {a : Subagent κ} :
    (agents.retain keep).lookup id = some a ↔ agents.lookup id = some a ∧ keep a = true := by
  rw [Finmap.lookup_eq_some_iff, Finmap.lookup_eq_some_iff]
  exact Multiset.mem_filter

end

/-! ## §4  Termination -/

/-- Nothing was stored in the entry. -/
def Subagent.Blank (a : Subagent κ) : Prop := a.result = none ∧ a.error = none

/-- What an entry may look like at a stage of its background task. -/
def TaskPc.Admits (a : Subagent κ) : TaskPc → Prop
  | .queued => (a.status = .pending ∨ a.status = .terminated) ∧ a.Blank
  | .running => (a.status = .running ∨ a.status = .terminated) ∧ a.Blank
  | .done => a.isCompleted = true

/-- Entries fit the stage of their tasks; the entries of terminated subagents are
terminated and blank; and a caller of `spawn_and_wait` that has returned was told
what the entry still says. -/
structure EntriesSettled (tr : List RegistryEvent) (s : RegistryState κ) : Prop where
  known : ∀ id a, s.agents.lookup id = some a → s.tasks id ≠ none
  stage : ∀ id pc a, s.tasks id = some pc → s.agents.lookup id = some a → pc.Admits a
  final : ∀ id, .terminated id true ∈ tr → s.tasks id ≠ none ∧
    ∀ a, s.agents.lookup id = some a → a.status = .terminated ∧ a.Blank
  callers : ∀ id, s.waiters id ≠ none → s.tasks id ≠ none
  waited : ∀ id r, s.waiters id = some (.returned r) →
    ∀ a, s.agents.lookup id = some a → waitAnswer (some a) = some r

/-- What a step has to respect: the background task marks its entry as running only
while the entry is not terminated. -/
def MarkCareful (s : RegistryState κ) : RegistryEvent → Prop
  | .marked id => ∀ a ∈ s.agents.lookup id, a.status ≠ .terminated
  | _ => True

instance MarkCareful.decidable (s : RegistryState κ) :
    (e : RegistryEvent) → Decidable (MarkCareful s e)
  | .marked id => inferInstanceAs (Decidable (∀ a ∈ s.agents.lookup id, a.status ≠ .terminated))
  | .quiet | .terminated _ _ | .polled _ _ => inferInstanceAs (Decidable True)

def CarefulRegistryStep : RegistryState κ → RegistryEvent → RegistryState κ → Prop :=
  StepWhere RegistryStep MarkCareful

section

variable {s t : RegistryState κ} {tr : List RegistryEvent} {e : RegistryEvent} {id : String}

theorem mem_terminated_snoc (he : ∀ id, e ≠ .terminated id true)
    (h : .terminated id true ∈ tr ++ [e]) : .terminated id true ∈ tr := by
  rcases List.mem_append.mp h with h | h
  · exact h
  · exact absurd (List.mem_singleton.mp h).symm (he id)

/-- A known task stays known when some task moves on. -/
theorem task_stays {tasks : String → Option TaskPc} {id id' : String} (h : tasks id' ≠ none)
    (pc : TaskPc) : Function.update tasks id (some pc) id' ≠ none := by
  by_cases hid : id' = id
  · simp [hid]
  · rwa [Function.update_of_ne hid]

/-- A step that only drops entries keeps everything. -/
theorem EntriesSettled.dropped (h : EntriesSettled tr s) (he : ∀ id, e ≠ .terminated id true)
    {agents : Agents κ}
    (hsub : ∀ id a, agents.lookup id = some a → s.agents.lookup id = some a) :
    EntriesSettled (tr ++ [e]) { s with agents := agents } where
  known id a hget := h.known id a (hsub id a hget)
  stage id pc a hpc hget := h.stage id pc a hpc (hsub id a hget)
  final id hmem :=
    have hold := h.final id (mem_terminated_snoc he hmem)
    ⟨hold.1, fun a hget => hold.2 a (hsub id a hget)⟩
  callers := h.callers
  waited id r hr a hget := h.waited id r hr a (hsub id a hget)

/-- An access to one entry by its task or by `terminate`. The entry is left alone or
was still open, and an access that ends it leaves it terminated and blank. -/
theorem EntriesSettled.accessed (h : EntriesSettled tr s) {pc pc' : TaskPc}
    {f : Subagent κ → Subagent κ} (hpc : s.tasks id = some pc)
    (hstage : ∀ a, s.agents.lookup id = some a → pc.Admits a → pc'.Admits (f a))
    (hkeep : ∀ a, s.agents.lookup id = some a → pc.Admits a →
      f a = a ∨ (waitAnswer (some a) = none ∧ a.status ≠ .terminated))
    (hend : ∀ id', e = .terminated id' true → id' = id ∧
      ∀ a, s.agents.lookup id = some a → (f a).status = .terminated ∧ (f a).Blank) :
    EntriesSettled (tr ++ [e])
      { s with
        agents := s.agents.modify id f
        tasks := Function.update s.tasks id (some pc') } := by
  -- what an entry of the new registry was before
  have hentry : ∀ id' a, (s.agents.modify id f).lookup id' = some a →
      (id' = id ∧ ∃ a₀, s.agents.lookup id = some a₀ ∧ f a₀ = a) ∨
        (id' ≠ id ∧ s.agents.lookup id' = some a) := by
    intro id' a hget
    rw [Agents.lookup_modify] at hget
    split at hget
    · rename_i hid
      subst hid
      exact .inl ⟨rfl, Option.map_eq_some_iff.mp hget⟩
    · rename_i hid
      exact .inr ⟨hid, hget⟩
  constructor
  case known =>
      intro id' a hget
      rcases hentry id' a hget with ⟨rfl, -⟩ | ⟨hid, hold⟩
      · simp
      · exact task_stays (h.known id' a hold) pc'
  case stage =>
      intro id' pc₁ a hpc₁ hget
      change Function.update s.tasks id (some pc') id' = some pc₁ at hpc₁
      rcases hentry id' a hget with ⟨rfl, a₀, hold, rfl⟩ | ⟨hid, hold⟩
      · rw [Function.update_self] at hpc₁
        cases hpc₁
        exact hstage a₀ hold (h.stage _ pc a₀ hpc hold)
      · rw [Function.update_of_ne hid] at hpc₁
        exact h.stage id' pc₁ a hpc₁ hold
  case final =>
      intro id' hmem
      rcases List.mem_append.mp hmem with hmem | hmem
      · obtain ⟨hknown, hfinal⟩ := h.final id' hmem
        refine ⟨task_stays hknown pc', fun a hget => ?_⟩
        rcases hentry id' a hget with ⟨rfl, a₀, hold, rfl⟩ | ⟨hid, hold⟩
        · rcases hkeep a₀ hold (h.stage _ pc a₀ hpc hold) with hsame | ⟨-, hopen⟩
          · rw [hsame]
            exact hfinal a₀ hold
          · exact absurd (hfinal a₀ hold).1 hopen
        · exact hfinal a hold
      · obtain ⟨rfl, hended⟩ := hend id' (List.mem_singleton.mp hmem).symm
        refine ⟨by simp, fun a hget => ?_⟩
        rcases hentry _ a hget with ⟨-, a₀, hold, rfl⟩ | ⟨hid, -⟩
        · exact hended a₀ hold
        · exact absurd rfl hid
  case callers => exact fun id' hsome => task_stays (h.callers id' hsome) pc'
  case waited =>
      intro id' r hr a hget
      have hwaited := h.waited id' r hr
      rcases hentry id' a hget with ⟨rfl, a₀, hold, rfl⟩ | ⟨hid, hold⟩
      · rcases hkeep a₀ hold (h.stage _ pc a₀ hpc hold) with hsame | ⟨hopen, -⟩
        · rw [hsame]
          exact hwaited a₀ hold
        · rw [hwaited a₀ hold] at hopen
          cases hopen
      · exact hwaited a hold

theorem settled_markRunning (h : EntriesSettled tr s) {now : ℕ}
    (hpc : s.tasks id = some .queued) (hcareful : MarkCareful s (.marked id)) :
    EntriesSettled (tr ++ [.marked id])
      { s with
        agents := s.agents.modify id (Subagent.setRunning now)
        tasks := Function.update s.tasks id (some .running) } := by
  refine h.accessed hpc ?_ ?_ (fun id' he => nomatch he)
  · rintro a - ⟨-, hblank⟩
    exact ⟨.inl rfl, hblank⟩
  · rintro a hget ⟨hstatus, -⟩
    have hpending := hstatus.resolve_right (hcareful a hget)
    exact .inr ⟨by simp [waitAnswer, hpending], hcareful a hget⟩

theorem settled_store (h : EntriesSettled tr s) {how : AgentRunEnd} {now : ℕ}
    (hpc : s.tasks id = some .running) :
    EntriesSettled (tr ++ [.quiet])
      { s with
        agents := s.agents.modify id (how.write now)
        tasks := Function.update s.tasks id (some .done) } := by
  refine h.accessed hpc ?_ ?_ (fun id' he => nomatch he)
  · rintro a - ⟨hstatus, -⟩
    show (how.write now a).isCompleted = true
    unfold AgentRunEnd.write
    rcases hstatus with hrunning | hended
    · rw [if_neg (by simp [hrunning])]
      split <;> rfl
    · rw [if_pos hended]
      simp [Subagent.isCompleted, hended]
  · rintro a - ⟨hstatus, -⟩
    rcases hstatus with hrunning | hended
    · exact .inr ⟨by simp [waitAnswer, hrunning], by simp [hrunning]⟩
    · exact .inl (if_pos hended)

theorem settled_terminate (h : EntriesSettled tr s) {now : ℕ} {a : Subagent κ}
    (hget : s.agents.lookup id = some a) (hopen : a.isCompleted = false) :
    EntriesSettled (tr ++ [.terminated id true])
      { s with agents := s.agents.modify id (Subagent.terminate now) } := by
  obtain ⟨pc, hpc⟩ := Option.ne_none_iff_exists'.mp (h.known id a hget)
  have hsame : Function.update s.tasks id (some pc) = s.tasks := by
    rw [← hpc, Function.update_eq_self]
  have honly : ∀ b, s.agents.lookup id = some b → b = a := by
    intro b hb
    rw [hget] at hb
    exact (Option.some.inj hb).symm
  have hblank : pc.Admits a → a.Blank ∧ pc ≠ .done := by
    intro hadmits
    cases pc with
    | queued => exact ⟨hadmits.2, by decide⟩
    | running => exact ⟨hadmits.2, by decide⟩
    | done => exact absurd hadmits (by simp [TaskPc.Admits, hopen])
  have hadmits := h.stage id pc a hpc hget
  rw [← hsame]
  refine h.accessed hpc ?_ ?_ ?_
  · intro b hb _
    rw [honly b hb]
    obtain ⟨hnone, hlive⟩ := hblank hadmits
    cases pc with
    | queued => exact ⟨.inr rfl, hnone⟩
    | running => exact ⟨.inr rfl, hnone⟩
    | done => exact absurd rfl hlive
  · intro b hb _
    rw [honly b hb]
    right
    unfold waitAnswer
    cases hstatus : a.status <;> simp_all [Subagent.isCompleted]
  · rintro id' ⟨⟩
    refine ⟨rfl, fun b hb => ?_⟩
    rw [honly b hb]
    exact ⟨rfl, (hblank hadmits).1⟩

/-- A new id touches no entry that anyone knows. -/
theorem settled_spawn (h : EntriesSettled tr s) (hnew : s.tasks id = none) {config : κ}
    {parentId : Option String} {wait : Bool} {now : ℕ} :
    EntriesSettled (tr ++ [.quiet])
      { agents := s.agents.insert id { Subagent.new id config now with parentId := parentId }
        tasks := Function.update s.tasks id (some .queued)
        waiters :=
          if wait then Function.update s.waiters id (some .waiting) else s.waiters } := by
  have hother : ∀ id', s.tasks id' ≠ none → id' ≠ id := by
    rintro id' hsome rfl
    exact hsome hnew
  have hentry : ∀ id' a, id' ≠ id → (s.agents.insert id
      { Subagent.new id config now with parentId := parentId }).lookup id' = some a →
        s.agents.lookup id' = some a := by
    intro id' a hid hget
    rwa [Finmap.lookup_insert_of_ne _ hid] at hget
  have hwaiters : ∀ id', id' ≠ id →
      (if wait then Function.update s.waiters id (some .waiting) else s.waiters) id' =
        s.waiters id' := by
    intro id' hid
    cases wait <;> simp [hid]
  constructor
  case known =>
      intro id' a hget
      by_cases hid : id' = id
      · simp [hid]
      · exact task_stays (h.known id' a (hentry id' a hid hget)) .queued
  case stage =>
      intro id' pc a hpc hget
      change Function.update s.tasks id _ id' = some pc at hpc
      by_cases hid : id' = id
      · subst hid
        rw [Function.update_self] at hpc
        cases hpc
        rw [Finmap.lookup_insert] at hget
        cases hget
        exact ⟨.inl rfl, rfl, rfl⟩
      · rw [Function.update_of_ne hid] at hpc
        exact h.stage id' pc a hpc (hentry id' a hid hget)
  case final =>
      intro id' hmem
      obtain ⟨hknown, hfinal⟩ := h.final id' (mem_terminated_snoc (by simp) hmem)
      have hid := hother id' hknown
      exact ⟨task_stays hknown .queued, fun a hget => hfinal a (hentry id' a hid hget)⟩
  case callers =>
      intro id' hsome
      by_cases hid : id' = id
      · simp [hid]
      · refine task_stays (h.callers id' ?_) .queued
        rwa [← hwaiters id' hid]
  case waited =>
      intro id' r hr a hget
      have hid : id' ≠ id := by
        rintro rfl
        cases wait with
        | false => exact h.callers id' (by rw [show s.waiters id' = _ from hr]; simp) hnew
        | true => simp at hr
      exact h.waited id' r ((hwaiters id' hid).symm.trans hr) a (hentry id' a hid hget)

theorem settled_poll (h : EntriesSettled tr s) {r : Except String String}
    (hwait : s.waiters id = some .waiting) (hr : waitAnswer (s.agents.lookup id) = some r) :
    EntriesSettled (tr ++ [.polled id (some r)])
      { s with waiters := Function.update s.waiters id (some (.returned r)) } := by
  constructor
  case known => exact h.known
  case stage => exact h.stage
  case final => exact fun id' hmem => h.final id' (mem_terminated_snoc (by simp) hmem)
  case callers =>
      intro id' hsome
      by_cases hid : id' = id
      · subst hid
        exact h.callers id' (by simp [hwait])
      · exact h.callers id' (by simpa [hid] using hsome)
  case waited =>
      intro id' r' hr' a hget
      change Function.update s.waiters id _ id' = _ at hr'
      by_cases hid : id' = id
      · rw [hid, Function.update_self] at hr'
        cases hr'
        rw [hid] at hget
        rwa [← hget]
      · rw [Function.update_of_ne hid] at hr'
        exact h.waited id' r' hr' a hget

/-- A step that changes nothing and terminates nothing. -/
theorem EntriesSettled.quiet (h : EntriesSettled tr s) (he : ∀ id, e ≠ .terminated id true) :
    EntriesSettled (tr ++ [e]) s :=
  h.dropped he (fun _ _ hget => hget)

/-- **One careful step keeps what was terminated.** -/
theorem settled_step (h : EntriesSettled tr s) (hstep : CarefulRegistryStep s e t) :
    EntriesSettled (tr ++ [e]) t := by
  obtain ⟨⟨m, hnext⟩, hcareful⟩ := hstep
  cases m with
  | spawn id config parentId wait now =>
      simp only [RegistryState.next] at hnext
      split at hnext
      · cases hnext
      · rename_i hnew
        cases hnext
        exact settled_spawn h hnew
  | markRunning id now =>
      simp only [RegistryState.next] at hnext
      split at hnext
      · rename_i hpc
        cases hnext
        exact settled_markRunning h hpc hcareful
      · cases hnext
  | store id how now =>
      simp only [RegistryState.next] at hnext
      split at hnext
      · rename_i hpc
        cases hnext
        exact settled_store h hpc
      · cases hnext
  | poll id =>
      simp only [RegistryState.next] at hnext
      split at hnext
      · rename_i hwait
        split at hnext
        · rename_i r hr
          cases hnext
          exact settled_poll h hwait hr
        · cases hnext
          exact h.quiet (by simp)
      · cases hnext
  | terminate id now =>
      simp only [RegistryState.next] at hnext
      split at hnext
      · rename_i hopen
        cases hnext
        obtain ⟨a, hget, hlive⟩ := (Option.any_eq_true _ _).mp hopen
        exact settled_terminate h hget (by simpa using hlive)
      · cases hnext
        exact h.quiet (by simp)
  | get id =>
      cases hnext
      exact h.quiet (by simp)
  | list =>
      cases hnext
      exact h.quiet (by simp)
  | remove id =>
      cases hnext
      refine h.dropped (by simp) ?_
      intro id' a hget
      by_cases hid : id' = id
      · rw [hid, Finmap.lookup_erase] at hget
        cases hget
      · rwa [Finmap.lookup_erase_ne hid] at hget
  | clearCompleted =>
      cases hnext
      exact h.dropped (by simp) (fun _ _ hget => (Agents.lookup_retain.mp hget).1)

theorem settled_of_runs (run : Runs CarefulRegistryStep (RegistryState.start (κ := κ)) tr s) :
    EntriesSettled tr s := by
  refine run.invariant (P := EntriesSettled) ?_ (fun _ => settled_step)
  constructor <;> simp [RegistryState.start]

end

/-- **Termination is final.** In every run whose background tasks never mark a
terminated entry, once `terminate(id)` has answered `true`: the entry of `id`, as
long as it is present, is terminated, with neither result nor error; and the call of
`spawn_and_wait` for `id` has either not returned yet, and its next poll returns
`Err("Terminated")`, or it has returned that. -/
theorem termination_final {tr : List RegistryEvent} {s : RegistryState κ}
    (run : Runs CarefulRegistryStep RegistryState.start tr s) (id : String)
    (hterminated : .terminated id true ∈ tr) :
    ∀ a, s.agents.lookup id = some a →
      (a.status = .terminated ∧ a.result = none ∧ a.error = none) ∧
      (s.waiters id = some .waiting →
        ∃ t, RegistryStep s (.polled id (some (.error "Terminated"))) t ∧
          t.waiters id = some (.returned (.error "Terminated"))) ∧
      ∀ r, s.waiters id = some (.returned r) → r = .error "Terminated" := by
  intro a hget
  have hsettled := settled_of_runs run
  obtain ⟨hstatus, hblank⟩ := (hsettled.final id hterminated).2 a hget
  have hanswer : waitAnswer (some a) = some (.error "Terminated") := by
    simp [waitAnswer, hstatus]
  refine ⟨⟨hstatus, hblank⟩, ?_, ?_⟩
  · intro hwait
    refine ⟨{ s with
      waiters := Function.update s.waiters id (some (.returned (.error "Terminated"))) },
      ⟨.poll id, ?_⟩, Function.update_self _ _ _⟩
    simp only [RegistryState.next, hwait, if_true, hget, hanswer]
  · intro r hr
    have hsame := hsettled.waited id r hr a hget
    rw [hanswer] at hsame
    exact (Option.some.inj hsame).symm

/-- The termination lands while the agent runs. -/
def lateTermination : List (RegistryMove Unit) :=
  [.spawn "a1" () none true 1, .markRunning "a1" 2, .poll "a1", .terminate "a1" 3,
    .store "a1" (.returned (.ok "done")) 4, .poll "a1"]

theorem lateTermination_plays :
    (exec (nextWhere RegistryState.next MarkCareful) RegistryState.start
      lateTermination).isSome = true := by
  decide

/-- The run of the agent ends behind the termination and changes nothing. -/
theorem late_termination_holds :
    ∃ tr s a, Runs CarefulRegistryStep (RegistryState.start (κ := Unit)) tr s ∧
      s.tasks "a1" = some .done ∧ s.agents.lookup "a1" = some a ∧
      (a.status = .terminated ∧ a.result = none ∧ a.error = none) ∧
      s.waiters "a1" = some (.returned (.error "Terminated")) := by
  have run : Runs CarefulRegistryStep RegistryState.start _ _ :=
    runs_where_of_exec lateTermination lateTermination_plays
  obtain ⟨a, hget⟩ : ∃ a, ((exec (nextWhere RegistryState.next MarkCareful) RegistryState.start
      lateTermination).get lateTermination_plays).2.agents.lookup "a1" = some a :=
    Option.isSome_iff_exists.mp (by decide)
  obtain ⟨hentry, -⟩ := termination_final run "a1" (by decide) a hget
  exact ⟨_, _, a, run, by decide, hget, hentry, by decide⟩

/-- The termination lands before the background task has marked the entry. -/
def earlyTermination : List (RegistryMove Unit) :=
  [.spawn "a1" () none true 1, .terminate "a1" 2, .markRunning "a1" 3,
    .store "a1" (.returned (.ok "done")) 4, .poll "a1"]

theorem earlyTermination_plays :
    (exec RegistryState.next RegistryState.start earlyTermination).isSome = true := by
  decide

/-- The terminated subagent completes, and its caller is given the result. -/
theorem terminated_subagent_completes :
    ∃ tr s, Runs RegistryStep (RegistryState.start (κ := Unit)) tr s ∧
      .terminated "a1" true ∈ tr ∧
      (s.agents.lookup "a1").map (fun a => (a.status, a.result)) =
        some (.completed, some "done") ∧
      s.waiters "a1" = some (.returned (.ok "done")) :=
  ⟨_, _, runs_of_exec_isSome earlyTermination earlyTermination_plays, by decide,
    by decide, by decide⟩

end Oclaw.AgentCore
