import Oclaw.Gateway.SubagentHistories

/-!
# Cleanups that are cut off

A flow that has taken the flag of its run puts it down again only on its own way out. When
the process is restarted in between, or the task is dropped, the flag stays up, in what was
persisted as well: whatever starts a flow of the run later finds it taken.
-/

namespace Oclaw.Gateway.Subagents

open Oclaw.Lib Oclaw.Gateway.Announce

variable {hasHooks : Bool} {w w' w'' : World} {r id : String} {t : ℕ} {e e' : Event}
  {tr tr' : List Event} {entry : RunEntry} {st : Stage} {task new : Task}
  {runs : Registry} {input : Input} {nowMs : ℤ} {f : RunEntry → RunEntry}

/-! ## §1  What a flow does in sight -/

/-- The event is a step of a cleanup flow of the run. -/
def Event.ofFlow (r : String) : Event → Bool
  | .begun id => id == r
  | .attempt id _ => id == r
  | .ended id byFlow _ _ => id == r && byFlow
  | .finalized id => id == r
  | _ => false

/-- The flag is up, nobody is going to put it down, and the run is not at work either. -/
structure Orphan (r : String) (w : World) : Prop where
  minted : r ∈ w.minted
  taken : ∀ e ∈ w.runs.lookup r, e.cleanupHandled = true ∧ e.endedAtMs.isSome = true
  idle : ∀ t a, w.tasks t = some a → a.inside r = false ∧ a.atWork r = false

theorem flowStep_ofFlow (hid : r ≠ id) :
    (flowStep hasHooks runs id input st).event.ofFlow r = false := by
  have hne : (id == r) = false := by simpa using Ne.symm hid
  cases st with
  | begin =>
      simp only [flowStep]
      split
      · rfl
      · split
        · exact hne
        · rfl
  | read =>
      simp only [flowStep]
      split
      · rfl
      · split
        · rfl
        · split
          · rfl
          · split <;> rfl
  | announce entry nowMs => exact hne
  | emit mode nowMs =>
      simp only [flowStep]
      split
      · rfl
      · split <;> rfl
  | call mode nowMs entry =>
      simp only [flowStep, RunEntry.endedEvent, Event.ofFlow, hne, Bool.false_and]
  | finalize mode nowMs => exact hne
  | _ => rfl

/-! ## §2  Steps -/

/-- A patch keeps the flag up, where it does so for the run's own entry. -/
theorem taken_patchRun
    (h : ∀ e ∈ runs.lookup r, e.cleanupHandled = true ∧ e.endedAtMs.isSome = true)
    (hf : r = id → ∀ e : RunEntry, e.cleanupHandled = true ∧ e.endedAtMs.isSome = true →
      (f e).cleanupHandled = true ∧ (f e).endedAtMs.isSome = true) :
    ∀ e ∈ (runs.patchRun id f).lookup r, e.cleanupHandled = true ∧ e.endedAtMs.isSome = true := by
  intro e he
  by_cases hid : r = id
  · subst hid
    obtain ⟨e', he', rfl⟩ := mem_patchRun he
    exact hf rfl e' (h e' he')
  · rw [Registry.lookup_patchRun_of_ne hid] at he
    exact h e he

/-- A task that neither has the flag nor is at work leaves the flag up, and does not get it. -/
theorem orphan_taskStep (hasHooks : Bool) (input : Input)
    (h : ∀ e ∈ runs.lookup r, e.cleanupHandled = true ∧ e.endedAtMs.isSome = true)
    (hinside : task.inside r = false) (hwork : task.atWork r = false) :
    (taskStep hasHooks runs input task).event.ofFlow r = false ∧
      (∀ e ∈ (taskStep hasHooks runs input task).runs.lookup r,
        e.cleanupHandled = true ∧ e.endedAtMs.isSome = true) ∧
      ∀ a, (taskStep hasHooks runs input task).task = some a →
        a.inside r = false ∧ a.atWork r = false := by
  cases task with
  | running id =>
      have hid : r ≠ id := by
        rintro rfl
        simp [Task.atWork] at hwork
      refine ⟨rfl, taken_patchRun h (fun heq => absurd heq hid), ?_⟩
      rintro a ⟨⟩
      simp [Task.inside, Task.atWork, Stage.inside]
  | flow id st =>
      by_cases hid : r = id
      · subst hid
        cases st with
        | begin =>
            -- the test of the flag fails
            have hstep : (taskStep hasHooks runs input (.flow r .begin)) =
                ⟨.internal, runs, none⟩ := by
              simp only [taskStep, flowStep]
              cases hlookup : runs.lookup r with
              | none => rfl
              | some entry => simp [RunEntry.free, (h entry hlookup).1]
            rw [hstep]
            exact ⟨rfl, h, by simp⟩
        | schedule delayMs => exact ⟨rfl, h, by rintro a ⟨⟩⟩
        | _ => simp [Task.inside, Stage.inside] at hinside
      · obtain ⟨hruns, -, hnew⟩ := flowStep_apart hasHooks runs input st hid
        refine ⟨flowStep_ofFlow hid, fun e he => h e (hruns e he), fun a ha => ?_⟩
        exact ⟨(hnew a ha).not_inside, (hnew a ha).1⟩
  | timer id delayMs =>
      refine ⟨rfl, h, ?_⟩
      rintro a ⟨⟩
      simp [Task.inside, Task.atWork, Stage.inside]
  | resume pending =>
      refine ⟨rfl, h, fun a ha => ?_⟩
      simp only [taskStep] at ha
      split at ha
      · cases ha
      · cases ha
        exact ⟨rfl, rfl⟩
  | kill id st =>
      cases st with
      | emit =>
          simp only [taskStep, killStep]
          split
          · exact ⟨rfl, h, by simp⟩
          · split
            · exact ⟨rfl, h, by rintro a ⟨⟩; exact ⟨rfl, rfl⟩⟩
            · exact ⟨rfl, h, by simp⟩
      | call entry =>
          refine ⟨?_, h, by rintro a ⟨⟩; exact ⟨rfl, rfl⟩⟩
          simp [taskStep, killStep, RunEntry.endedEvent, Event.ofFlow]
      | emitted => exact ⟨rfl, taken_patchRun h (fun _ e he => he), by simp [taskStep, killStep]⟩
  | steered id =>
      refine ⟨rfl, fun e he => ?_, by simp [taskStep]⟩
      simp only [taskStep, HashMap.lookup_erase_eq] at he
      split at he
      · cases he
      · exact h e he

theorem Orphan.put (h : Orphan r w) {x : Option Task}
    (hx : ∀ a, x = some a → a.inside r = false ∧ a.atWork r = false) : Orphan r (w.put t x) where
  minted := h.minted
  taken := h.taken
  idle t' a ha := by
    by_cases heq : t' = t
    · subst heq
      exact hx a (by simpa [World.put] using ha)
    · exact h.idle t' a (by simpa [World.put, heq] using ha)

theorem Orphan.schedule (h : Orphan r w) {fresh : ℕ} {asked : Option (String × ℤ)} :
    Orphan r (w.schedule fresh asked) := by
  cases asked with
  | none => exact h
  | some ask =>
      simp only [World.schedule]
      split
      · exact h
      · have hput : Orphan r (w.put fresh (some (.timer ask.1 ask.2))) :=
          h.put (by rintro a ⟨⟩; exact ⟨rfl, rfl⟩)
        exact ⟨hput.minted, hput.taken, hput.idle⟩

theorem Orphan.step (h : Orphan r w) (hstep : World.Step hasHooks w e w') :
    e.ofFlow r = false ∧ Orphan r w' := by
  obtain ⟨turn, hnext⟩ := hstep
  cases turn with
  | spawn q t =>
      simp only [World.next] at hnext
      split at hnext
      · rename_i hnew
        cases hnext
        have hr : r ≠ q.runId := fun heq => hnew.1 (heq ▸ h.minted)
        have hput : Orphan r (w.put t (some (.running q.runId))) := by
          refine h.put ?_
          rintro a ⟨⟩
          simp [Task.inside, Task.atWork, Ne.symm hr]
        refine ⟨rfl, List.mem_cons_of_mem _ h.minted, fun x hx => ?_, hput.idle⟩
        rw [HashMap.lookup_insert_eq, if_neg hr] at hx
        exact h.taken x hx
      · cases hnext
  | sweep nowMs =>
      cases hnext
      exact ⟨rfl, h.minted, fun x hx => h.taken x (Registry.lookup_sweepArchived hx), h.idle⟩
  | resume nowMs t =>
      simp only [World.next] at hnext
      split at hnext
      · cases hnext
        exact ⟨rfl, h.put (by rintro a ⟨⟩; exact ⟨rfl, rfl⟩)⟩
      · cases hnext
  | kill id nowMs t =>
      simp only [World.next] at hnext
      split at hnext
      · cases hnext
        have hput : Orphan r (w.put t (some (.kill id .emit))) :=
          h.put (by rintro a ⟨⟩; exact ⟨rfl, rfl⟩)
        exact ⟨rfl, h.minted, taken_patchRun h.taken (fun _ _ _ => ⟨rfl, rfl⟩), hput.idle⟩
      · cases hnext
  | steer id nowMs t =>
      simp only [World.next] at hnext
      split at hnext
      · cases hnext
        have hput : Orphan r (w.put t (some (.steered id))) :=
          h.put (by rintro a ⟨⟩; exact ⟨rfl, rfl⟩)
        exact ⟨rfl, h.minted, taken_patchRun h.taken (fun _ _ _ => ⟨rfl, rfl⟩), hput.idle⟩
      · cases hnext
  | run t input =>
      simp only [World.next] at hnext
      split at hnext
      · cases hnext
      · rename_i task ht
        split at hnext
        · cases hnext
          obtain ⟨hinside, hwork⟩ := h.idle t task ht
          obtain ⟨hev, htaken, hnew⟩ :=
            orphan_taskStep hasHooks input h.taken hinside hwork
          have hput := h.put (t := t) hnew
          refine ⟨hev, Orphan.schedule ?_⟩
          exact ⟨h.minted, htaken, hput.idle⟩
        · cases hnext
  | drop t =>
      simp only [World.next] at hnext
      split at hnext
      · cases hnext
        exact ⟨rfl, h.put (by simp)⟩
      · cases hnext
  | restart nowMs =>
      cases hnext
      refine ⟨rfl, h.minted, fun x hx => ?_, fun t a ha => by cases ha⟩
      rw [Registry.lookup_restore] at hx
      obtain ⟨x', hx', rfl⟩ := Option.map_eq_some_iff.mp hx
      rw [eases_interrupt (h.taken x' hx').2]
      exact h.taken x' hx'

theorem Orphan.run (h : Orphan r w) (run : Runs (World.Step hasHooks) w tr w') :
    (∀ e ∈ tr, e.ofFlow r = false) ∧ Orphan r w' := by
  refine run.invariant (P := fun tr w => (∀ e ∈ tr, e.ofFlow r = false) ∧ Orphan r w)
    ⟨by simp, h⟩ ?_
  intro tr w e w' _ h hstep
  obtain ⟨hev, horphan⟩ := h.2.step hstep
  refine ⟨fun x hx => ?_, horphan⟩
  rcases List.mem_append.mp hx with hx | hx
  · exact h.1 x hx
  · rw [List.mem_singleton.mp hx]
    exact hev

/-! ## §3  Restarts and drops -/

/-- A flow that has the flag is cut off by the step. -/
theorem Good.orphan (h : Good r tr w) (ht : w.tasks t = some task) (hin : task.inside r = true)
    (hcut : World.next hasHooks w (.drop t) = some (e, w') ∨
      World.next hasHooks w (.restart nowMs) = some (e, w')) :
    Orphan r w' := by
  have hflows := Task.flows_of_inside hin
  have hended := (h.task t task ht).ended hflows
  have htaken : ∀ x ∈ w.runs.lookup r, x.cleanupHandled = true ∧ x.endedAtMs.isSome = true := by
    intro x hx
    cases task with
    | flow id st =>
        simp only [Task.inside, Bool.and_eq_true, beq_iff_eq] at hin
        obtain ⟨rfl, hst⟩ := hin
        exact ⟨((h.task t _ ht).stage st rfl hst).1 x hx, hended x hx⟩
    | _ => cases hin
  rcases hcut with hnext | hnext
  · simp only [World.next, ht, Option.isSome_some, if_true, Option.some.injEq,
      Prod.mk.injEq] at hnext
    obtain ⟨-, rfl⟩ := hnext
    refine ⟨h.minted_of_flows ht hflows, htaken, fun t' a ha => ?_⟩
    have hne : t' ≠ t := by
      rintro rfl
      simp [World.put] at ha
    have ha' : w.tasks t' = some a := by simpa [World.put, hne] using ha
    refine ⟨(h.alone t t' task a hne.symm ht ha').1 hin, ?_⟩
    by_contra hwork
    have hnot := ((h.alone t' t a task hne ha' ht).2 (Bool.eq_true_of_not_eq_false hwork)).2
    rw [hflows] at hnot
    cases hnot
  · cases hnext
    refine ⟨h.minted_of_flows ht hflows, fun x hx => ?_, fun t' a ha => by cases ha⟩
    rw [Registry.lookup_restore] at hx
    obtain ⟨x', hx', rfl⟩ := Option.map_eq_some_iff.mp hx
    rw [eases_interrupt (htaken x' hx').2]
    exact htaken x' hx'

/-- A cleanup that a restart or a drop cuts off is never taken up again: after it no flow
of the run takes the flag, announces, calls the hook or closes the entry, and an entry that
is still there never shows as one to be resumed. -/
theorem cut_never_resumed (run : Runs (World.Step hasHooks) .init tr w)
    (ht : w.tasks t = some task) (hin : task.inside r = true)
    (hcut : World.next hasHooks w (.drop t) = some (e, w') ∨
      World.next hasHooks w (.restart nowMs) = some (e, w'))
    (run' : Runs (World.Step hasHooks) w' tr' w'') :
    (∀ e ∈ tr', e.ofFlow r = false) ∧ ∀ nowMs, r ∉ (w''.runs.pending nowMs).map Prod.fst := by
  obtain ⟨hkeyed, hgood⟩ := good_of_run (r := r) run
  obtain ⟨hquiet, horphan⟩ := (hgood.orphan ht hin hcut).run run'
  have hkeyed' : w'.runs.Keyed := by
    rcases hcut with hnext | hnext
    · exact keyed_step hkeyed ⟨_, hnext⟩
    · exact keyed_step hkeyed ⟨_, hnext⟩
  have hkeyed'' : w''.runs.Keyed :=
    run'.state_invariant (P := fun w => w.runs.Keyed) hkeyed' (fun h hstep => keyed_step h hstep)
  refine ⟨hquiet, fun nowMs hmem => ?_⟩
  obtain ⟨x, hx, -, -, hfree⟩ := mem_pending hkeyed'' hmem
  rw [(horphan.taken x hx).1] at hfree
  cases hfree

/-- A flow that has just taken the flag. -/
def takenTurns : List Turn :=
  .spawn sampleRequest 0 :: List.replicate 2 (.run 0 ⟨2000, .done, false, 1⟩)

theorem takenTurns_run : (exec (World.next true) .init takenTurns).isSome = true := by
  decide

def cutWorld : World :=
  ⟨((exec (World.next true) .init takenTurns).get takenTurns_run).2.runs.restore 3000,
    ["run-1"], ∅, fun _ => none⟩

/-- A resume after the restart finds nothing to do. -/
def resumeTurns : List Turn := [.resume 4000 0, .run 0 ⟨4000, .done, true, 1⟩]

theorem resumeTurns_run : (exec (World.next true) cutWorld resumeTurns).isSome = true := by
  decide

theorem cut_never_resumed_sample :
    ∃ tr w, Runs (World.Step true) cutWorld tr w ∧ tr.length = 2 ∧
      (w.runs.lookup "run-1").isSome = true ∧ (∀ e ∈ tr, e.ofFlow "run-1" = false) ∧
      ∀ nowMs, "run-1" ∉ (w.runs.pending nowMs).map Prod.fst := by
  have hrun := runs_of_exec_isSome takenTurns takenTurns_run
  have hrun' := runs_of_exec_isSome resumeTurns resumeTurns_run
  refine ⟨_, _, hrun', by decide, by decide, ?_⟩
  exact @cut_never_resumed true _ _ _ "run-1" 0 .internal _ _ (.flow "run-1" .read) 3000 hrun
    (by decide) (by decide) (Or.inr rfl) hrun'

end Oclaw.Gateway.Subagents
