import Oclaw.Gateway.RpcAgentOnce

/-!
# Keys that are used up

The key is registered before it is known where the reply is to go. When that is refused, the
handler answers with an error, and the key stays registered: whoever tries again with it is
told that the run was accepted, though there is no run and there will not be one.
-/

namespace Oclaw.Gateway.Rpc

open Oclaw.Lib

variable {w w' w₁ w₂ : AgentWorld} {e : AgentEvent} {tr tr' : List AgentEvent} {t : ℕ}
  {k rid : String} {call : AgentCall} {stage : AgentStage} {task : AgentTask}

/-- The task is not going to spawn the run of the key, and does not work for it. -/
def AgentTask.Barren (k : String) : AgentTask → Prop
  | .handler call stage => call.key = some k →
      stage = .gate ∨ stage = .lookup ∨ ∃ rid, stage = .cached rid
  | .working key _ => key ≠ some k

/-- The key is registered and its run entered, and there is nobody to spawn it. -/
structure UsedUp (k : String) (w : AgentWorld) : Prop where
  registered : w.idempotency.lookup k = some k
  entered : ∃ run, w.runs.lookup k = some run ∧ run.status = "running"
  barren : ∀ t a, w.tasks t = some a → a.Barren k

theorem AgentMoves.error {err : RpcError} (hmove : AgentMoves w e w')
    (he : e.act = .answered (some k) (.error err)) :
    ∃ call stage, w.tasks e.task = some (.handler call stage) ∧ call.key = some k ∧
      (stage = .prepare ∨ ∃ rid channel toId, stage = .deliver rid channel toId) ∧
      w' = w.gone e.task := by
  cases hmove with
  | @refused t call stage err' ht hstage =>
      simp only [AgentAct.answered.injEq] at he
      exact ⟨call, stage, ht, he.1, hstage, rfl⟩
  | _ => simp at he

/-- Nothing that is done with the key brings it back. -/
theorem UsedUp.runs (h : UsedUp k w) (hrecords : AgentRecords k tr w) (hmove : AgentMoves w e w') :
    w'.runs.lookup k = w.runs.lookup k := by
  rcases hmove.runs k with hsame | ⟨call, channel, toId, nowMs, henter, -⟩ |
    ⟨key, input, run, hworking, -, -⟩
  · exact hsame
  · obtain ⟨hkey, -⟩ := hrecords.tasks _ _ henter rfl
    have hbarren := h.barren _ _ henter hkey
    simp at hbarren
  · obtain ⟨hkey, -⟩ := hrecords.tasks _ _ hworking rfl
    exact absurd hkey (h.barren _ _ hworking)

theorem UsedUp.silent (h : UsedUp k w) (hmove : AgentMoves w e w') : e.spawns k = false := by
  by_contra hspawn
  obtain ⟨call, rid, channel, toId, ht, hkey, -⟩ := hmove.spawns (by simpa using hspawn)
  have hbarren := h.barren _ _ ht hkey
  simp at hbarren

theorem UsedUp.told (h : UsedUp k w) (hsound : AgentSound k tr w) (hmove : AgentMoves w e w')
    {answer : Except RpcError AgentAnswer} (he : e.act = .answered (some k) answer) :
    ∃ acceptedAt, answer = .ok (.accepted k acceptedAt true) := by
  cases answer with
  | error err =>
      obtain ⟨call, stage, ht, hkey, hstage, -⟩ := hmove.error he
      have hbarren := h.barren _ _ ht hkey
      rcases hstage with rfl | ⟨rid, channel, toId, rfl⟩ <;> simp at hbarren
  | ok a =>
      obtain ⟨call, rid, nowMs, ht, hkey, rfl⟩ := hmove.answer he
      have hrid := hsound.named rid (hsound.tasks _ _ ht hkey)
      subst hrid
      obtain ⟨run, hrun, hstatus⟩ := h.entered
      exact ⟨nowMs, by simp [cachedAnswer, hrun, hstatus]⟩

theorem UsedUp.moved_barren (h : UsedUp k w) (hmove : AgentMoves w e w') :
    ∀ t a, w'.tasks t = some a → a.Barren k := by
  intro t a ht
  by_cases heq : t = e.task
  · subst heq
    have put {b : AgentTask} (hput : (w.put e.task (some b)).tasks e.task = some a) : b = a := by
      simpa [AgentWorld.put] using hput
    cases hmove with
    | rejected hnone =>
        rw [hnone] at ht
        cases ht
    | @called t call hnone =>
        cases put ht
        intro hkey
        simp [hkey]
    | passed hold hkey hfree =>
        cases put ht
        exact fun _ => Or.inr (Or.inl rfl)
    | @hit t call k' rid hold hkey hidem =>
        cases put ht
        exact fun _ => Or.inr (Or.inr ⟨rid, rfl⟩)
    | @missed t call hold hidem =>
        cases put ht
        intro hkey
        rw [hkey, Option.bind_some, h.registered] at hidem
        cases hidem
    | named hold hkey =>
        cases put ht
        intro hk
        simpa using h.barren _ _ hold hk
    | minted hold hkey =>
        cases put ht
        intro hk
        simpa using h.barren _ _ hold hk
    | registered hold hkey =>
        cases put ht
        intro hk
        simpa using h.barren _ _ hold hk
    | skipped hold hkey =>
        cases put ht
        intro hk
        simpa using h.barren _ _ hold hk
    | opened hold =>
        cases put ht
        intro hk
        simpa using h.barren _ _ hold hk
    | @spawned t fresh call rid channel toId hold hfresh =>
        have hne : t ≠ fresh := by
          rintro rfl
          rw [hfresh] at hold
          cases hold
        simp [AgentWorld.put, AgentWorld.gone, Function.update_of_ne hne] at ht
    | _ => simp [AgentWorld.put, AgentWorld.gone] at ht
  · rcases hmove.tasks_of_ne ht heq with hold | ⟨-, call, rid, channel, toId, hold, rfl, -⟩
    · exact h.barren t a hold
    · intro hkey
      have hbarren := h.barren _ _ hold hkey
      simp at hbarren

theorem UsedUp.run (run : Runs AgentWorld.Step .init tr w) (h : UsedUp k w)
    (run' : Runs AgentWorld.Step w tr' w') (hk : k ∉ w'.minted) :
    UsedUp k w' ∧ ∀ e ∈ tr', e.spawns k = false ∧ ∀ answer, e.act = .answered (some k) answer →
      ∃ acceptedAt, answer = .ok (.accepted k acceptedAt true) := by
  refine run'.invariant (P := fun tr' w' => k ∉ w'.minted → UsedUp k w' ∧ ∀ e ∈ tr',
    e.spawns k = false ∧ ∀ answer, e.act = .answered (some k) answer →
      ∃ acceptedAt, answer = .ok (.accepted k acceptedAt true)) (fun _ => ⟨h, by simp⟩) ?_ hk
  intro tr'' w₁ e w₂ hrun ih hstep hk₂
  have hmove := AgentMoves.of_step hstep
  have hk₁ := hmove.minted_mono hk₂
  obtain ⟨hused, hall⟩ := ih hk₁
  have hsound : AgentSound k (tr ++ tr'') w₁ := agentSound_of_run (run.append hrun)
  have hrecords := agentRecords_of_run (run.append hrun) hk₁
  refine ⟨⟨hsound.moved_idem hmove hused.registered, ?_, hused.moved_barren hmove⟩, ?_⟩
  · rw [hused.runs hrecords hmove]
    exact hused.entered
  · intro x hx
    rcases List.mem_append.mp hx with hx | hx
    · exact hall x hx
    · rw [List.mem_singleton.mp hx]
      exact ⟨hused.silent hmove, fun answer he => hused.told hsound hmove he⟩

theorem registered_of_run (run : Runs AgentWorld.Step .init tr w)
    (hmem : ⟨t, .registered k rid⟩ ∈ tr) : (w.idempotency.lookup k).isSome = true := by
  refine run.invariant (P := fun tr w => ∀ t rid, ⟨t, .registered k rid⟩ ∈ tr →
    (w.idempotency.lookup k).isSome = true) (by simp) ?_ t rid hmem
  intro tr w e w' hrun h hstep t rid hmem
  have hmove := AgentMoves.of_step hstep
  rcases List.mem_append.mp hmem with hmem | hmem
  · obtain ⟨rid', hrid'⟩ := Option.isSome_iff_exists.mp (h t rid hmem)
    have hsound : AgentSound k tr w := agentSound_of_run hrun
    simp [hsound.moved_idem hmove hrid']
  · have he : e = ⟨t, .registered k rid⟩ := (List.mem_singleton.mp hmem).symm
    generalize he' : e = e' at hmove
    rw [he] at he'
    cases hmove with
    | registered ht hkey =>
        cases he'
        simp
    | _ => cases he'

theorem minted_of_run (run : Runs AgentWorld.Step w tr w') (h : k ∈ w.minted) : k ∈ w'.minted := by
  refine run.state_invariant (P := fun w => k ∈ w.minted) h (fun hmem hstep => ?_)
  by_contra hnot
  exact (AgentMoves.of_step hstep).minted_mono hnot hmem

/-- A handler that has registered its key and then refuses the request. -/
theorem usedUp_of_error {err : RpcError} (run : Runs AgentWorld.Step .init tr w)
    (hk : k ∉ w.minted) (hidem : (w.idempotency.lookup k).isSome = true)
    (hstep : AgentWorld.Step w ⟨t, .answered (some k) (.error err)⟩ w') :
    UsedUp k w' ∧ spawns k tr = 0 := by
  have hsound : AgentSound k tr w := agentSound_of_run run
  have hrecords := agentRecords_of_run run hk
  obtain ⟨call, stage, ht, hkey, hstage, rfl⟩ := (AgentMoves.of_step hstep).error rfl
  rcases hstage with rfl | ⟨rid, channel, toId, rfl⟩
  · have hnone : w.idempotency.lookup k = none := hsound.tasks _ _ ht hkey
    rw [hnone] at hidem
    cases hidem
  · obtain ⟨hsome, hrid, hzero⟩ := hsound.tasks _ _ ht hkey
    obtain ⟨-, hentered⟩ := hrecords.tasks _ _ ht hrid
    refine ⟨⟨hsome, hentered, fun t' a ha => ?_⟩, hzero⟩
    by_cases heq : t' = t
    · subst heq
      simp [AgentWorld.gone] at ha
    · have ha' : w.tasks t' = some a := by
        simpa [AgentWorld.gone, Function.update_of_ne heq] using ha
      cases a with
      | working key rid' =>
          rintro rfl
          obtain ⟨-, -, hone⟩ := hsound.tasks t' _ ha' rfl
          omega
      | handler call' stage' =>
          intro hkey'
          -- whoever else has the key waits before the gate
          by_contra hnot
          have hin : stage' ≠ .gate := fun hgate => hnot (Or.inl hgate)
          have hgate' : gateOf w.tasks AgentTask.holds t' = some k := by
            rw [gateOf_of_task ha', AgentTask.holds_of_ne hin, hkey']
          have hgate : gateOf w.tasks AgentTask.holds t = some k := by
            rw [gateOf_of_task ht]
            exact hkey
          exact heq (hsound.guarded.alone hgate' hgate)

/-- A request that is to deliver its reply, to nobody. -/
def uselessTurns : List AgentTurn :=
  .call 0 { sampleAgent with toId := none } ::
    List.replicate 6 (.run 0 (sampleAgentInput 9)) ++
    .call 1 sampleAgent :: List.replicate 3 (.run 1 (sampleAgentInput 9))

theorem uselessTurns_run : (exec AgentWorld.next .init uselessTurns).isSome = true := by
  decide

end Oclaw.Gateway.Rpc
