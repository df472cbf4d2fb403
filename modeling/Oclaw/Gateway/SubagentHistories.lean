import Oclaw.Gateway.SubagentOnce

/-!
# Histories of subagent runs

The invariant of a run holds after every history of the machine. A flow that is cut off
by a restart, on the other hand, leaves its run with the flag up and nobody to put it
down: the run is not announced, its hook is not called and it is not closed any more.
-/

namespace Oclaw.Gateway.Subagents

open Oclaw.Lib Oclaw.Gateway.Announce

variable {hasHooks : Bool} {w w' : World} {r id : String} {t t' : ℕ} {e : Event}
  {tr tr' : List Event} {entry entry' : RunEntry} {st : Stage} {task old : Task}
  {runs : Registry} {input : Input} {nowMs : ℤ} {f : RunEntry → RunEntry}

/-! ## §1  Entries keep their names -/

theorem Registry.Keyed.patchRun (h : runs.Keyed) (hf : ∀ e, (f e).runId = e.runId) :
    (runs.patchRun id f).Keyed := by
  intro k entry hk
  rw [Registry.lookup_patchRun] at hk
  split at hk
  · rename_i heq
    obtain ⟨e, he, rfl⟩ := Option.map_eq_some_iff.mp hk
    rw [hf, h _ _ he, heq]
  · exact h k entry hk

theorem Registry.Keyed.erase (h : runs.Keyed) : Registry.Keyed (runs.erase id) := by
  intro k entry hk
  rw [HashMap.lookup_erase_eq] at hk
  split at hk
  · cases hk
  · exact h k entry hk

theorem Registry.Keyed.finalize {mode : String} (h : runs.Keyed) :
    (runs.finalize id mode nowMs).Keyed := by
  unfold Registry.finalize
  split
  · exact h.erase
  · exact h.patchRun (fun _ => rfl)

theorem runId_finish {result : RunResult} : (entry.finish nowMs result).runId = entry.runId := by
  cases result <;> rfl

theorem runId_interrupt : (entry.interrupt nowMs).runId = entry.runId := by
  unfold RunEntry.interrupt
  split <;> rfl

theorem keyed_flowStep (h : runs.Keyed) : (flowStep hasHooks runs id input st).runs.Keyed := by
  cases st with
  | begin =>
      simp only [flowStep]
      split
      · exact h
      · split
        · exact h.patchRun (fun _ => rfl)
        · exact h
  | read =>
      simp only [flowStep]
      split
      · exact h
      · split
        · exact h
        · split
          · exact h
          · split <;> exact h
  | count entry nowMs => exact h.sweepArchived input.nowMs
  | wait nowMs => exact h.patchRun (fun _ => rfl)
  | retry retryCount nowMs => exact h.patchRun (fun _ => rfl)
  | giveUp retryCount nowMs => exact h.patchRun (fun _ => rfl)
  | emit mode nowMs =>
      simp only [flowStep]
      split
      · exact h
      · split <;> exact h
  | emitted mode nowMs => exact h.patchRun (fun _ => rfl)
  | finalize mode nowMs => exact h.finalize
  | _ => exact h

theorem keyed_taskStep (h : runs.Keyed) : (taskStep hasHooks runs input task).runs.Keyed := by
  cases task with
  | running id => exact h.patchRun (fun _ => runId_finish)
  | flow id st => exact keyed_flowStep h
  | timer id delayMs => exact h
  | resume pending => exact h
  | kill id st =>
      cases st with
      | emit =>
          simp only [taskStep, killStep]
          split
          · exact h
          · split <;> exact h
      | call entry => exact h
      | emitted => exact h.patchRun (fun _ => rfl)
  | steered id => exact h.erase

@[simp] theorem schedule_runs {fresh : ℕ} {asked : Option (String × ℤ)} :
    (w.schedule fresh asked).runs = w.runs := by
  cases asked with
  | none => rfl
  | some ask =>
      simp only [World.schedule]
      split <;> rfl

theorem keyed_step (h : w.runs.Keyed) (hstep : World.Step hasHooks w e w') : w'.runs.Keyed := by
  obtain ⟨turn, hnext⟩ := hstep
  cases turn with
  | spawn q t =>
      simp only [World.next] at hnext
      split at hnext
      · cases hnext
        intro k entry hk
        rw [HashMap.lookup_insert_eq] at hk
        split at hk
        · rename_i heq
          cases hk
          exact heq.symm
        · exact h k entry hk
      · cases hnext
  | sweep nowMs =>
      cases hnext
      exact h.sweepArchived nowMs
  | resume nowMs t =>
      simp only [World.next] at hnext
      split at hnext
      · cases hnext
        exact h
      · cases hnext
  | kill id nowMs t =>
      simp only [World.next] at hnext
      split at hnext
      · cases hnext
        exact h.patchRun (fun _ => rfl)
      · cases hnext
  | steer id nowMs t =>
      simp only [World.next] at hnext
      split at hnext
      · cases hnext
        exact h.patchRun (fun _ => rfl)
      · cases hnext
  | run t input =>
      simp only [World.next] at hnext
      split at hnext
      · cases hnext
      · split at hnext
        · cases hnext
          rw [schedule_runs]
          exact keyed_taskStep h
        · cases hnext
  | drop t =>
      simp only [World.next] at hnext
      split at hnext
      · cases hnext
        exact h
      · cases hnext
  | restart nowMs =>
      cases hnext
      intro k entry hk
      rw [Registry.lookup_restore] at hk
      obtain ⟨e, he, rfl⟩ := Option.map_eq_some_iff.mp hk
      rw [runId_interrupt]
      exact h _ _ he

/-- What is found to be pending has ended, is open, and nobody has it. -/
theorem mem_pending (h : runs.Keyed) (hr : r ∈ (runs.pending nowMs).map Prod.fst) :
    ∃ e, runs.lookup r = some e ∧ e.endedAtMs.isSome = true ∧ e.cleanupCompletedAtMs = none ∧
      e.cleanupHandled = false := by
  obtain ⟨⟨id, delayMs⟩, hmem, rfl⟩ := List.mem_map.mp hr
  obtain ⟨e, he, hsome⟩ := List.mem_filterMap.mp hmem
  obtain ⟨k, hlookup⟩ := Registry.mem_values.mp he
  split at hsome
  · cases hsome
  · rename_i hnot
    simp only [Option.some.injEq, Prod.mk.injEq] at hsome
    simp only [Bool.or_eq_true, not_or] at hnot
    obtain ⟨⟨hended, hcompleted⟩, hhandled⟩ := hnot
    refine ⟨e, ?_, ?_, ?_, ?_⟩
    · rw [← hsome.1, h _ _ hlookup]
      exact hlookup
    · exact Option.isSome_iff_ne_none.mpr (by simpa using hended)
    · simpa using hcompleted
    · simpa using hhandled

/-! ## §2  The invariant after a step -/

theorem eases_interrupt (h : entry.endedAtMs.isSome = true) : entry.interrupt nowMs = entry := by
  unfold RunEntry.interrupt
  split
  · rename_i hnone
    rw [Option.isNone_iff_eq_none] at hnone
    rw [hnone] at h
    cases h
  · rfl

/-- The run's own task ends. -/
theorem Good.finish_step {result : RunResult} {cleanupTasks : Finset String} (h : Good r tr w)
    (ht : w.tasks t = some (.running r)) :
    Good r (tr ++ [.internal]) { w.put t (some (.flow r .begin)) with
      runs := w.runs.patchRun r (fun entry => entry.finish nowMs result)
      cleanupTasks := cleanupTasks } := by
  have hwork : (Task.running r).atWork r = true := by simp [Task.atWork]
  have hquiet : Event.Quiet r .internal := ⟨rfl, rfl⟩
  obtain ⟨hA, hN, hentries⟩ := (h.task t _ ht).work hwork
  refine Good.sole (h.sole_of_work ht hwork) (h.minted_of_work ht hwork) ?_ ?_ ?_
  · rw [attempts_of_quiet hquiet, emissions_of_quiet hquiet]
    exact h.bounded
  · intro e' he'
    obtain ⟨e, he, rfl⟩ := mem_patchRun he'
    have hzero : (e.finish nowMs result).announceRetryCount = 0 := by
      rw [← (hentries e he).2]
      cases result <;> rfl
    have hsome : (e.finish nowMs result).endedAtMs = some nowMs := by
      cases result <;> rfl
    rw [attempts_of_quiet hquiet, emissions_of_quiet hquiet, hA, hN]
    refine ⟨by rw [hsome]; rfl, fun hnone => ?_, fun _ => ?_⟩
    · rw [hsome] at hnone
      cases hnone
    · rw [hzero]
      exact ⟨by simp, rfl, Nat.le_refl _, by decide⟩
  · rintro a ⟨⟩
    refine ⟨rfl, fun st hst hin => ?_⟩
    cases hst
    cases hin

/-- A step of any task. -/
theorem Good.task_step (h : Good r tr w) (ht : w.tasks t = some task)
    {cleanupTasks : Finset String} :
    Good r (tr ++ [(taskStep hasHooks w.runs input task).event])
      { w.put t (taskStep hasHooks w.runs input task).task with
        runs := (taskStep hasHooks w.runs input task).runs, cleanupTasks := cleanupTasks } := by
  have hquiet : Event.Quiet r .internal := ⟨rfl, rfl⟩
  have same : ∀ e' ∈ w.runs.lookup r, ∃ e ∈ w.runs.lookup r, Eases e e' :=
    fun e he => ⟨e, he, Eases.refl e⟩
  cases task with
  | running id =>
      by_cases hid : r = id
      · subst hid
        exact h.finish_step ht
      · refine (h.moveOn ht (fun e' he' => ?_) ?_).quiet hquiet
        · rw [taskStep, Registry.lookup_patchRun_of_ne hid] at he'
          exact same e' he'
        · rintro a ⟨⟩
          exact Or.inl (by simp [Task.Apart, Task.atWork, Task.flows, Ne.symm hid])
  | flow id st =>
      by_cases hid : r = id
      · subst hid
        exact h.flow_step ht
      · obtain ⟨hruns, hev, hnew⟩ :=
          flowStep_apart hasHooks w.runs input st hid
        exact (h.moveOn ht (fun e' he' => same e' (hruns e' he'))
          (fun a ha => Or.inl (hnew a ha))).quiet hev
  | timer id delayMs =>
      refine (h.moveOn ht same ?_).quiet hquiet
      rintro a ⟨⟩
      refine Or.inr ⟨fun hin => ?_, fun hw => (by cases hw), fun hf => hf⟩
      simp [Task.inside, Stage.inside] at hin
  | resume pending =>
      refine (h.moveOn ht same ?_).quiet hquiet
      intro a ha
      simp only [taskStep] at ha
      split at ha
      · cases ha
      · cases ha
        refine Or.inr ⟨fun hin => (by cases hin), fun hw => (by cases hw), fun hf => ?_⟩
        simp only [Task.flows, decide_eq_true_eq] at hf ⊢
        obtain ⟨p, hp, rfl⟩ := List.mem_map.mp hf
        exact List.mem_map_of_mem (List.mem_of_mem_tail hp)
  | kill id st =>
      cases st with
      | emit =>
          simp only [taskStep, killStep]
          split
          · exact (h.moveOn ht same (by simp)).quiet hquiet
          · split
            · refine (h.moveOn ht same ?_).quiet hquiet
              rintro a ⟨⟩
              exact Or.inl ⟨rfl, rfl⟩
            · exact (h.moveOn ht same (by simp)).quiet hquiet
      | call entry =>
          refine (h.moveOn ht same ?_).quiet ?_
          · rintro a ⟨⟩
            exact Or.inl ⟨rfl, rfl⟩
          · exact ⟨rfl, by simp [taskStep, killStep, RunEntry.endedEvent, Event.emits]⟩
      | emitted =>
          refine (h.moveOn ht (fun e' he' => ?_) (by simp [taskStep, killStep])).quiet hquiet
          simp only [taskStep, killStep] at he'
          by_cases hid : r = id
          · subst hid
            obtain ⟨e, he, rfl⟩ := mem_patchRun he'
            exact ⟨e, he, rfl, Or.inl ⟨rfl, rfl, rfl⟩⟩
          · rw [Registry.lookup_patchRun_of_ne hid] at he'
            exact same e' he'
  | steered id =>
      refine (h.moveOn ht (fun e' he' => ?_) (by simp [taskStep])).quiet hquiet
      simp only [taskStep, HashMap.lookup_erase_eq] at he'
      split at he'
      · cases he'
      · exact same e' he'

/-- A patch that closes the entry, and a task that has nothing to do with flows. -/
theorem Good.close_step (h : Good r tr w) (ht : w.tasks t = none) (hapart : task.Apart r)
    (hf : ∀ e, (f e).announceRetryCount = e.announceRetryCount ∧
      (f e).endedAtMs.isSome = true ∧ (f e).cleanupHandled = true ∧
      (f e).cleanupCompletedAtMs.isSome = true) :
    Good r tr { w.put t (some task) with runs := w.runs.patchRun id f } := by
  refine h.ease rfl (fun e' he' => ?_) ?_
  · by_cases hid : r = id
    · subst hid
      obtain ⟨e, he, rfl⟩ := mem_patchRun he'
      exact ⟨e, he, (hf e).1, Or.inr (hf e).2⟩
    · rw [Registry.lookup_patchRun_of_ne hid] at he'
      exact ⟨e', he', Eases.refl e'⟩
  · intro t' a ha
    by_cases heq : t' = t
    · subst heq
      have ha' : task = a := by simpa [World.put] using ha
      exact Or.inl (ha' ▸ hapart)
    · exact Or.inr ⟨a, by simpa [World.put, heq] using ha, Task.Lighter.refl a⟩

theorem Good.spawn_step {q : SpawnRequest} (h : Good r tr w) (hq : q.runId ∉ w.minted)
    (ht : w.tasks t = none) :
    Good r tr { w with
      runs := w.runs.insert q.runId q.entry
      minted := q.runId :: w.minted
      tasks := Function.update w.tasks t (some (.running q.runId)) } := by
  have hcases {t' : ℕ} {a : Task}
      (ha : Function.update w.tasks t (some (Task.running q.runId)) t' = some a) :
      (t' = t ∧ a = .running q.runId) ∨ (t' ≠ t ∧ w.tasks t' = some a) := by
    by_cases heq : t' = t
    · subst heq
      simp only [Function.update_self, Option.some.injEq] at ha
      exact Or.inl ⟨rfl, ha.symm⟩
    · simp only [Function.update_of_ne heq] at ha
      exact Or.inr ⟨heq, ha⟩
  by_cases hr : r = q.runId
  · -- nothing is known of the new run
    subst hr
    obtain ⟨-, hA, hN, hapart⟩ := h.fresh hq
    have hlookup : ∀ e ∈ (w.runs.insert q.runId q.entry).lookup q.runId, e = q.entry := by
      intro e he
      rw [AList.lookup_insert] at he
      cases he
      rfl
    refine ⟨h.bounded, fun e he => ?_, fun t' a ha => ?_, fun t₁ t₂ a b hne ha hb => ?_, ?_⟩
    · rw [hlookup e he, hA, hN]
      exact ⟨fun _ => ⟨rfl, rfl, rfl⟩, fun _ => ⟨by simp, rfl, Nat.le_refl _, by
        show 0 < maxAnnounceRetryCount
        decide⟩⟩
    · rcases hcases ha with ⟨-, rfl⟩ | ⟨-, ha'⟩
      · refine ⟨fun _ => ⟨hA, hN, fun e he => ?_⟩, fun hf => (by cases hf),
          fun st hst => by cases hst⟩
        rw [hlookup e he]
        exact ⟨Or.inl rfl, rfl⟩
      · exact TaskOk.of_apart (hapart t' a ha')
    · rcases hcases ha with ⟨rfl, rfl⟩ | ⟨hne₁, ha'⟩
      · rcases hcases hb with ⟨rfl, -⟩ | ⟨-, hb'⟩
        · exact absurd rfl hne
        · exact ⟨fun hin => (by cases hin), fun _ => hapart t₂ b hb'⟩
      · have hnot : a.Apart q.runId := hapart t₁ a ha'
        refine ⟨fun hin => ?_, fun hw => ?_⟩
        · rw [hnot.not_inside] at hin
          cases hin
        · rw [hnot.1] at hw
          cases hw
    · intro hr
      exact absurd (by simp) hr
  · have hother : (w.runs.insert q.runId q.entry).lookup r = w.runs.lookup r := by
      rw [HashMap.lookup_insert_eq, if_neg hr]
    have hrun : Good r tr { w with
        runs := w.runs.insert q.runId q.entry
        tasks := Function.update w.tasks t (some (.running q.runId)) } := by
      refine h.ease rfl (fun e he => ⟨e, by rwa [← hother], Eases.refl e⟩) ?_
      intro t' a ha
      rcases hcases ha with ⟨-, rfl⟩ | ⟨-, ha'⟩
      · exact Or.inl (by simp [Task.Apart, Task.atWork, Task.flows, Ne.symm hr])
      · exact Or.inr ⟨a, ha', Task.Lighter.refl a⟩
    exact ⟨hrun.bounded, hrun.entry, hrun.task, hrun.alone, fun hnot =>
      hrun.fresh (fun hmem => hnot (List.mem_cons_of_mem _ hmem))⟩

theorem Good.restart_step (h : Good r tr w) :
    Good r tr ⟨w.runs.restore nowMs, w.minted, ∅, fun _ => none⟩ := by
  refine ⟨h.bounded, fun e' he' => ?_, fun t a ha => (by cases ha),
    fun t t' a b _ ha => (by cases ha), fun hr => ?_⟩
  · rw [Registry.lookup_restore] at he'
    obtain ⟨e, he, rfl⟩ := Option.map_eq_some_iff.mp he'
    have hentry := h.entry e he
    cases hended : e.endedAtMs with
    | none =>
        obtain ⟨hA, hN, hzero⟩ := hentry.going hended
        rw [hA, hN]
        refine ⟨fun hnone => ?_, fun _ => ⟨by simp, rfl, Nat.zero_le _, ?_⟩⟩
        · simp [RunEntry.interrupt, hended] at hnone
        · simp [RunEntry.interrupt, hended, hzero, maxAnnounceRetryCount]
    | some at' =>
        rw [eases_interrupt (by rw [hended]; rfl)]
        exact hentry
  · obtain ⟨hnone, hA, hN, -⟩ := h.fresh hr
    exact ⟨by simp [Registry.lookup_restore, hnone], hA, hN, fun t a ha => by cases ha⟩

theorem Task.flows_of_schedules {delayMs : ℤ} (h : task.schedules = some (r, delayMs)) :
    task.flows r = true := by
  cases task with
  | flow id st =>
      cases st with
      | schedule d =>
          cases h
          simp [Task.flows]
      | _ => cases h
  | resume pending =>
      cases pending with
      | nil => cases h
      | cons p pending =>
          obtain ⟨id, d⟩ := p
          cases h
          simp [Task.flows]
  | _ => cases h

/-- A task that schedules leaves the registry alone, and does not go to work. -/
theorem taskStep_of_schedules (hasHooks : Bool) (runs : Registry) (input : Input) {delayMs : ℤ}
    (h : task.schedules = some (r, delayMs)) :
    (taskStep hasHooks runs input task).runs = runs ∧
      ∀ a, (taskStep hasHooks runs input task).task = some a → a.atWork r = false := by
  cases task with
  | flow id st =>
      cases st with
      | schedule d => exact ⟨rfl, fun a ha => by cases ha⟩
      | _ => cases h
  | resume pending =>
      refine ⟨rfl, fun a ha => ?_⟩
      simp only [taskStep] at ha
      split at ha
      · cases ha
      · cases ha
        rfl
  | _ => cases h

theorem Good.run_step (h : Good r tr w) (ht : w.tasks t = some task)
    (hfresh : w.tasks input.fresh = none) :
    Good r (tr ++ [(taskStep hasHooks w.runs input task).event])
      (({ w.put t (taskStep hasHooks w.runs input task).task with
        runs := (taskStep hasHooks w.runs input task).runs
        cleanupTasks := task.unset w.cleanupTasks }).schedule input.fresh task.schedules) := by
  have hne : input.fresh ≠ t := by
    rintro heq
    rw [heq, ht] at hfresh
    cases hfresh
  refine (h.task_step ht).schedule (by simp [World.put, hne, hfresh]) fun delayMs hasked => ?_
  have hflows := Task.flows_of_schedules hasked
  obtain ⟨hruns, hnew⟩ := taskStep_of_schedules hasHooks w.runs input hasked
  refine ⟨h.minted_of_flows ht hflows, fun e he => ?_, fun t' b hb => ?_⟩
  · exact (h.task t _ ht).ended hflows e (by rwa [hruns] at he)
  · by_cases heq : t' = t
    · subst heq
      exact hnew b (by simpa [World.put] using hb)
    · have hb' : w.tasks t' = some b := by simpa [World.put, heq] using hb
      by_contra hwork
      have hnot := ((h.alone t' t b task heq hb' ht).2 (Bool.eq_true_of_not_eq_false hwork)).2
      rw [hflows] at hnot
      cases hnot

theorem Good.step (h : Good r tr w) (hkeyed : w.runs.Keyed)
    (hstep : World.Step hasHooks w e w') : Good r (tr ++ [e]) w' := by
  have hquiet : Event.Quiet r .internal := ⟨rfl, rfl⟩
  obtain ⟨turn, hnext⟩ := hstep
  cases turn with
  | spawn q t =>
      simp only [World.next] at hnext
      split at hnext
      · rename_i hnew
        cases hnext
        exact (h.spawn_step hnew.1 hnew.2).quiet hquiet
      · cases hnext
  | sweep nowMs =>
      cases hnext
      refine Good.quiet (h.ease rfl (fun e he => ?_) fun t a ha => ?_) hquiet
      · exact ⟨e, Registry.lookup_sweepArchived he, Eases.refl e⟩
      · exact Or.inr ⟨a, ha, Task.Lighter.refl a⟩
  | resume nowMs t =>
      simp only [World.next] at hnext
      split at hnext
      · rename_i ht
        cases hnext
        refine (h.add ht rfl rfl fun hflows => ?_).quiet hquiet
        simp only [Task.flows, decide_eq_true_eq] at hflows
        obtain ⟨e, hlookup, hended, hopen, hfree⟩ := mem_pending hkeyed hflows
        have hsame : ∀ x ∈ w.runs.lookup r, x = e := by
          intro x hx
          rw [hlookup] at hx
          cases hx
          rfl
        refine ⟨?_, fun x hx => by rw [hsame x hx]; exact hended, fun t' b hb => ?_⟩
        · by_contra hr
          rw [(h.fresh hr).1] at hlookup
          cases hlookup
        · by_contra hwork
          -- the entry of a run that is at work is open and going, or closed
          obtain ⟨-, -, hclosed⟩ := (h.task t' b hb).work (Bool.eq_true_of_not_eq_false hwork)
          rcases (hclosed e hlookup).1 with hnone | hsome
          · rw [hnone] at hended
            cases hended
          · rw [hopen] at hsome
            cases hsome
      · cases hnext
  | kill id nowMs t =>
      have hev : Event.Quiet r (.killed id) := ⟨rfl, rfl⟩
      simp only [World.next] at hnext
      split at hnext
      · rename_i hmay
        cases hnext
        refine (h.close_step (f := fun e => e.kill nowMs) hmay.2 ⟨rfl, rfl⟩ ?_).quiet hev
        exact fun e => ⟨rfl, rfl, rfl, rfl⟩
      · cases hnext
  | steer id nowMs t =>
      have hev : Event.Quiet r (.steered id) := ⟨rfl, rfl⟩
      simp only [World.next] at hnext
      split at hnext
      · rename_i hmay
        cases hnext
        refine (h.close_step (f := fun e => e.steer nowMs) hmay.2 ⟨rfl, rfl⟩ ?_).quiet hev
        exact fun e => ⟨rfl, rfl, rfl, rfl⟩
      · cases hnext
  | run t input =>
      simp only [World.next] at hnext
      split at hnext
      · cases hnext
      · rename_i task ht
        split at hnext
        · rename_i hfresh
          cases hnext
          exact h.run_step ht hfresh
        · cases hnext
  | drop t =>
      simp only [World.next] at hnext
      split at hnext
      · rename_i hsome
        cases hnext
        obtain ⟨task, ht⟩ := Option.isSome_iff_exists.mp hsome
        have hmoved : Good r tr (w.put t none) :=
          h.moveOn ht (fun e he => ⟨e, he, Eases.refl e⟩) (by simp)
        exact hmoved.quiet hquiet
      · cases hnext
  | restart nowMs =>
      cases hnext
      exact h.restart_step.quiet hquiet

theorem good_of_run (run : Runs (World.Step hasHooks) .init tr w) :
    w.runs.Keyed ∧ Good r tr w := by
  refine run.invariant (P := fun tr w => w.runs.Keyed ∧ Good r tr w) ⟨?_, good_init⟩ ?_
  · intro k entry hk
    simp [World.init] at hk
  · intro tr w e w' _ h hstep
    exact ⟨keyed_step h.1 hstep, h.2.step h.1 hstep⟩

def sampleRequest : SpawnRequest :=
  ⟨"run-1", "main", "agent:main:subagent:1", "search", 1000, "run", "keep", true, none⟩

/-- The first announcement fails, the one of the timer succeeds. -/
def retryTurns : List Turn :=
  .spawn sampleRequest 0 :: List.replicate 7 (.run 0 ⟨2000, .done, false, 1⟩) ++
    List.replicate 9 (.run 1 ⟨3000, .done, true, 2⟩)

theorem retryTurns_run : (exec (World.next true) .init retryTurns).isSome = true := by
  decide

end Oclaw.Gateway.Subagents
