import Oclaw.Gateway.RpcChat

/-!
# When a chat message is run twice

The answer of a run is recorded only after the run was marked as ended, and not behind the
gate. A request with the same key that looks for the answer in between finds neither it nor a
run that is going, and starts the run again. That is the only way: no run is started for a key
while one of that name is going, or after an answer was recorded.
-/

namespace Oclaw.Gateway.Rpc

open Oclaw.Lib

variable {w w' w₁ : ChatWorld} {e : ChatEvent} {tr : List ChatEvent} {t t' : ℕ}
  {k rid : String} {call : ChatCall} {stage stage' : ChatStage} {task : ChatTask}
  {input : ChatInput} {act : ChatAct} {next : ChatNext}

/-! ## §1  What a step can do -/

/-- Behind the look for a recorded answer. -/
def ChatStage.past : ChatStage → Bool
  | .gate => false
  | .lookup => false
  | _ => true

/-- Behind the look for a run that is going. -/
def ChatStage.checked : ChatStage → Bool
  | .message _ => true
  | .command _ => true
  | .begin _ => true
  | _ => false

def ChatStage.runId? : ChatStage → Option String
  | .check rid => some rid
  | .message rid => some rid
  | .command rid => some rid
  | .begin rid => some rid
  | _ => none

def ChatRuns.going (runs : ChatRuns) (rid : String) : Bool :=
  (runs.lookup rid).any (fun run => run.status == "running")

/-- A step of a handler, as far as keys, answers and marks go. -/
inductive Handled (w : ChatWorld) (call : ChatCall) :
    ChatStage → ChatAct → ChatWorld → ChatNext → Prop where
  | missed {k : String} (hkey : call.key = some k) (hnone : w.dedupe.lookup k = none) :
      Handled w call .lookup (.missed k) w (.goes .plan)
  | skipped (hkey : call.key = none) : Handled w call .lookup .internal w (.goes .plan)
  | moved {stage stage' : ChatStage} {handles : HashMap String ℕ} (hpast : stage.past = true)
      (hpast' : stage'.past = true)
      (hname : stage'.runId? = none ∨ stage'.runId? = stage.runId?)
      (hcheck : stage'.checked = true → stage.checked = true ∨
        ∃ rid, stage.runId? = some rid ∧ w.runs.going rid = false) :
      Handled w call stage .internal { w with handles := handles } (.goes stage')
  | named {k : String} (hkey : call.key = some k) :
      Handled w call .session .internal w (.goes (.check k))
  | minted {uuid : String} (hkey : call.key = none) :
      Handled w call .session .internal { w with minted := uuid :: w.minted } (.goes (.check uuid))
  | marked {s s' : AbortStage} {rid : String} {error : Option String}
      {result : Option ChatPayload} {nowMs : ℤ} :
      Handled w call (.stop s) (.settled rid "aborted")
        { w with runs := w.runs.setState rid "aborted" error result nowMs } (.goes (.stop s'))
  | answered {stage : ChatStage} {answer : Except RpcError ChatAnswer} :
      Handled w call stage (.answered call.key answer) w .ends
  | started {rid : String} {nowMs : ℤ} :
      Handled w call (.begin rid) (.started call.key rid)
        { w with runs := w.runs.insert rid (.start rid call.sessionKey nowMs) } (.spawns rid)
  | recorded {k : String} {p : ChatPayload} (hkey : call.key = some k) :
      Handled w call (.record p) (.recorded k p) { w with dedupe := w.dedupe.insert k p } .ends

theorem Handled.of_stop (s : AbortStage) :
    Handled w call (.stop s) (w.handle call input (.stop s)).act
      (w.apply (w.handle call input (.stop s))) (w.handle call input (.stop s)).next := by
  cases s with
  | collect => exact .moved rfl rfl (Or.inl rfl) (fun h => by cases h)
  | unhook sessionKey todo done =>
      cases todo with
      | nil => exact .moved rfl rfl (Or.inl rfl) (fun h => by cases h)
      | cons rid todo => exact .moved rfl rfl (Or.inl rfl) (fun h => by cases h)
  | mark sessionKey todo done =>
      cases todo with
      | nil => exact .moved rfl rfl (Or.inl rfl) (fun h => by cases h)
      | cons rid todo => exact .marked

theorem Handled.of_handle (hin : stage ≠ .gate) :
    Handled w call stage (w.handle call input stage).act
      (w.apply (w.handle call input stage)) (w.handle call input stage).next := by
  cases stage with
  | gate => exact absurd rfl hin
  | lookup =>
      cases hkey : call.key with
      | none =>
          simp only [ChatWorld.handle, hkey]
          exact .skipped hkey
      | some k =>
          simp only [ChatWorld.handle, hkey]
          cases hcached : w.dedupe.lookup k with
          | some cached => exact hkey ▸ .answered
          | none => exact .missed hkey hcached
  | plan =>
      simp only [ChatWorld.handle]
      split
      · exact .answered
      · split
        · exact .moved rfl rfl (Or.inl rfl) (fun h => by cases h)
        · split
          · exact .answered
          · split
            · exact .answered
            · exact .moved rfl rfl (Or.inl rfl) (fun h => by cases h)
  | stop s => exact Handled.of_stop s
  | session =>
      simp only [ChatWorld.handle]
      split
      · exact .answered
      · cases hkey : call.key with
        | some k => exact .named hkey
        | none => exact .minted hkey
  | check rid =>
      simp only [ChatWorld.handle]
      split
      · exact .answered
      · rename_i hgoing
        exact .moved rfl rfl (Or.inr rfl)
          (fun _ => Or.inr ⟨rid, rfl, by simpa [ChatRuns.going] using hgoing⟩)
  | message rid =>
      simp only [ChatWorld.handle]
      split
      · exact .answered
      · exact .moved rfl rfl (Or.inr rfl) (fun _ => Or.inl rfl)
  | command rid =>
      simp only [ChatWorld.handle]
      split
      · exact .answered
      · exact .moved rfl rfl (Or.inl rfl) (fun h => by cases h)
      · exact .moved rfl rfl (Or.inr rfl) (fun _ => Or.inl rfl)
  | begin rid =>
      simp only [ChatWorld.handle]
      split
      · exact .answered
      · exact .started
  | record p =>
      cases hkey : call.key with
      | some k =>
          simp only [ChatWorld.handle, hkey]
          exact .recorded hkey
      | none =>
          simp only [ChatWorld.handle, hkey]
          exact hkey ▸ .answered

/-- A step of the task of a run, or of an abort. -/
inductive Outside (w : ChatWorld) : ChatAct → ChatWorld → Prop where
  | internal {handles : HashMap String ℕ} : Outside w .internal { w with handles := handles }
  | answered {answer : Except RpcError ChatAnswer} : Outside w (.answered none answer) w
  | settled {rid status : String} {error : Option String} {result : Option ChatPayload} {nowMs : ℤ}
      (hstatus : status ≠ "running") :
      Outside w (.settled rid status)
        { w with runs := w.runs.setState rid status error result nowMs }
  | recorded {k : String} {p : ChatPayload} :
      Outside w (.recorded k p) { w with dedupe := w.dedupe.insert k p }

theorem EndStatus.text_ne (status : EndStatus) : status.text ≠ "running" := by
  cases status <;> decide

theorem Outside.of_runStep {key : Option String} {sessionKey : String} {stage : RunStage} :
    Outside w (w.runStep t key rid sessionKey input stage).act
      (w.apply (w.runStep t key rid sessionKey input stage)) := by
  cases stage with
  | hook => exact .internal
  | working => exact .internal
  | settle ending => exact .settled (EndStatus.text_ne _)
  | settleAgain ending => exact .settled (EndStatus.text_ne _)
  | unhook ending => exact .internal
  | record ending =>
      cases key with
      | some k => exact .recorded
      | none => exact .internal

theorem Outside.of_abortStep {target : AbortTarget} {nowMs : ℤ} {stage : AbortStage}
    (hgoes : ∃ stage', (w.abortStep target nowMs stage).next = .goes stage') :
    Outside w (w.abortStep target nowMs stage).act (w.apply (w.abortStep target nowMs stage)) := by
  cases stage with
  | collect =>
      simp only [ChatWorld.abortStep] at hgoes ⊢
      split <;> exact .internal
  | unhook sessionKey todo done =>
      cases todo with
      | nil => exact .internal
      | cons rid todo => exact .internal
  | mark sessionKey todo done =>
      cases todo with
      | nil => exact .internal
      | cons rid todo => exact .settled (by decide)

/-- An abort has its answer from a step that changes nothing. -/
theorem apply_of_abort_ends {target : AbortTarget} {nowMs : ℤ} {stage : AbortStage}
    {answer : Except RpcError ChatPayload}
    (hends : (w.abortStep target nowMs stage).next = .ends answer) :
    w.apply (w.abortStep target nowMs stage) = w := by
  cases stage with
  | collect =>
      simp only [ChatWorld.abortStep] at hends ⊢
      split at hends
      · rfl
      · cases hends
  | unhook sessionKey todo done =>
      cases todo with
      | nil => cases hends
      | cons rid todo => cases hends
  | mark sessionKey todo done =>
      cases todo with
      | nil => rfl
      | cons rid todo => cases hends

/-- A task that is not a handler. -/
def ChatTask.Aside : ChatTask → Prop
  | .handler _ _ => False
  | _ => True

inductive ChatMoves (w : ChatWorld) : ChatEvent → ChatWorld → Prop where
  | rejected {t : ℕ} {e : RpcError} (ht : w.tasks t = none) :
      ChatMoves w ⟨t, .answered none (.error e)⟩ w
  | called {t : ℕ} {call : ChatCall} (ht : w.tasks t = none) :
      ChatMoves w ⟨t, .internal⟩
        (w.put t (some (.handler call (if call.key.isSome then .gate else .plan))))
  | asked {t : ℕ} {target : AbortTarget} (ht : w.tasks t = none) :
      ChatMoves w ⟨t, .internal⟩ (w.put t (some (.abort target .collect)))
  | passed {t : ℕ} {call : ChatCall} {k : String} (ht : w.tasks t = some (.handler call .gate))
      (hkey : call.key = some k) (hfree : w.gates k = none) :
      ChatMoves w ⟨t, .internal⟩ { w.put t (some (.handler call .lookup)) with
        gates := Function.update w.gates k (some t) }
  | went {t : ℕ} {call : ChatCall} {stage stage' : ChatStage} {act : ChatAct} {w₁ : ChatWorld}
      (ht : w.tasks t = some (.handler call stage)) (hin : stage ≠ .gate)
      (h : Handled w call stage act w₁ (.goes stage')) :
      ChatMoves w ⟨t, act⟩ (w₁.put t (some (.handler call stage')))
  | ended {t : ℕ} {call : ChatCall} {stage : ChatStage} {act : ChatAct} {w₁ : ChatWorld}
      (ht : w.tasks t = some (.handler call stage)) (hin : stage ≠ .gate)
      (h : Handled w call stage act w₁ .ends) : ChatMoves w ⟨t, act⟩ (w₁.gone t)
  | spawned {t fresh : ℕ} {call : ChatCall} {stage : ChatStage} {act : ChatAct} {w₁ : ChatWorld}
      {rid : String} (ht : w.tasks t = some (.handler call stage)) (hin : stage ≠ .gate)
      (hfresh : w.tasks fresh = none) (h : Handled w call stage act w₁ (.spawns rid)) :
      ChatMoves w ⟨t, act⟩
        ((w₁.gone t).put fresh (some (.run call.key rid call.sessionKey .hook)))
  | outside {t : ℕ} {task : ChatTask} {o : Option ChatTask} {act : ChatAct} {w₁ : ChatWorld}
      (ht : w.tasks t = some task) (haside : task.Aside) (ho : ∀ a, o = some a → a.Aside)
      (h : Outside w act w₁) : ChatMoves w ⟨t, act⟩ (w₁.put t o)
  | dropped {t : ℕ} {task : ChatTask} (ht : w.tasks t = some task) :
      ChatMoves w ⟨t, .dropped⟩ (w.gone t)

theorem ChatMoves.of_advance (ht : w.tasks t = some task)
    (hin : ∀ call, task ≠ .handler call .gate) (hfresh : w.tasks input.fresh = none) :
    ChatMoves w (w.advance t input task).1 (w.advance t input task).2 := by
  cases task with
  | handler call stage =>
      have hgate : stage ≠ .gate := fun heq => hin call (heq ▸ rfl)
      have h := @Handled.of_handle w call stage input hgate
      simp only [ChatWorld.advance]
      cases hnext : (w.handle call input stage).next with
      | goes stage' =>
          rw [hnext] at h
          exact .went ht hgate h
      | ends =>
          rw [hnext] at h
          exact .ended ht hgate h
      | spawns rid =>
          rw [hnext] at h
          exact .spawned ht hgate hfresh h
  | run key rid sessionKey stage =>
      refine .outside ht trivial (fun a ha => ?_) Outside.of_runStep
      obtain ⟨stage', -, rfl⟩ := Option.map_eq_some_iff.mp ha
      trivial
  | abort target stage =>
      simp only [ChatWorld.advance]
      cases hnext : (w.abortStep target input.nowMs stage).next with
      | goes stage' =>
          refine .outside ht trivial ?_ (Outside.of_abortStep ⟨stage', hnext⟩)
          rintro a ⟨⟩
          trivial
      | ends answer =>
          show ChatMoves w _ ((w.apply (w.abortStep target input.nowMs stage)).put t none)
          rw [apply_of_abort_ends hnext]
          exact .outside ht trivial (by rintro a ⟨⟩) .answered

theorem ChatMoves.of_step (h : ChatWorld.Step w e w') : ChatMoves w e w' := by
  obtain ⟨turn, hnext⟩ := h
  cases turn with
  | call t call =>
      simp only [ChatWorld.next] at hnext
      split at hnext
      · rename_i ht
        simp only [Option.some.injEq, Prod.mk.injEq] at hnext
        obtain ⟨rfl, rfl⟩ := hnext
        exact .called ht
      · cases hnext
  | abort t runId sessionKey =>
      simp only [ChatWorld.next] at hnext
      split at hnext
      · rename_i ht
        cases hparse : AbortTarget.parse runId sessionKey with
        | error e =>
            simp only [hparse, Option.some.injEq, Prod.mk.injEq] at hnext
            obtain ⟨rfl, rfl⟩ := hnext
            exact .rejected ht
        | ok target =>
            simp only [hparse, Option.some.injEq, Prod.mk.injEq] at hnext
            obtain ⟨rfl, rfl⟩ := hnext
            exact .asked ht
      · cases hnext
  | run t input =>
      cases ht : w.tasks t with
      | none => simp [ChatWorld.next, ht] at hnext
      | some task =>
          by_cases hin : ∃ call, task = .handler call .gate
          · obtain ⟨call, rfl⟩ := hin
            cases hkey : call.key with
            | none => simp [ChatWorld.next, ht, hkey] at hnext
            | some k =>
                by_cases hfree : w.gates k = none
                · simp only [ChatWorld.next, ht, hkey, hfree, if_true, Option.some.injEq,
                    Prod.mk.injEq] at hnext
                  obtain ⟨rfl, rfl⟩ := hnext
                  exact .passed ht hkey hfree
                · simp [ChatWorld.next, ht, hkey, hfree] at hnext
          · have hout : ∀ call, task ≠ .handler call .gate := fun call heq => hin ⟨call, heq⟩
            have hrun : w.next (.run t input) =
                if w.tasks input.fresh = none ∧ input.uuid ∉ w.minted then
                  some (w.advance t input task)
                else none := by
              cases task with
              | handler call stage =>
                  cases stage with
                  | gate => exact absurd rfl (hout call)
                  | _ => simp only [ChatWorld.next, ht]
              | run key rid sessionKey stage => simp only [ChatWorld.next, ht]
              | abort target stage => simp only [ChatWorld.next, ht]
            rw [hrun] at hnext
            split at hnext
            · rename_i hfresh
              have hmove := ChatMoves.of_advance ht hout hfresh.1
              rw [Option.some.injEq] at hnext
              rwa [hnext] at hmove
            · cases hnext
  | drop t =>
      simp only [ChatWorld.next] at hnext
      split at hnext
      · rename_i hsome
        obtain ⟨task, ht⟩ := Option.isSome_iff_exists.mp hsome
        simp only [Option.some.injEq, Prod.mk.injEq] at hnext
        obtain ⟨rfl, rfl⟩ := hnext
        exact .dropped ht
      · cases hnext

/-! ## §2  Effects -/

theorem Handled.shared (h : Handled w call stage act w₁ next) :
    w₁.gates = w.gates ∧ w₁.tasks = w.tasks := by
  cases h <;> exact ⟨rfl, rfl⟩

theorem Outside.shared (h : Outside w act w₁) : w₁.gates = w.gates ∧ w₁.tasks = w.tasks := by
  cases h <;> exact ⟨rfl, rfl⟩

/-- What happens to the recorded answers. -/
def Keeps (w : ChatWorld) (act : ChatAct) (w₁ : ChatWorld) : Prop :=
  (w₁.dedupe = w.dedupe ∧ ∀ k p, act ≠ .recorded k p) ∨
    ∃ k p, act = .recorded k p ∧ w₁.dedupe = w.dedupe.insert k p

theorem Handled.keeps (h : Handled w call stage act w₁ next) : Keeps w act w₁ := by
  cases h with
  | recorded hkey => exact Or.inr ⟨_, _, rfl, rfl⟩
  | _ => exact Or.inl ⟨rfl, by simp⟩

theorem Outside.keeps (h : Outside w act w₁) : Keeps w act w₁ := by
  cases h with
  | recorded => exact Or.inr ⟨_, _, rfl, rfl⟩
  | _ => exact Or.inl ⟨rfl, by simp⟩

theorem ChatMoves.keeps (hmove : ChatMoves w e w') : Keeps w e.act w' := by
  cases hmove with
  | went ht hin h => exact h.keeps
  | ended ht hin h => exact h.keeps
  | spawned ht hin hfresh h => exact h.keeps
  | outside ht haside ho h => exact h.keeps
  | _ => exact Or.inl ⟨rfl, by simp⟩

theorem going_setState {runs : ChatRuns} {status : String} {error : Option String}
    {result : Option ChatPayload} {nowMs : ℤ} (hstatus : status ≠ "running") :
    (runs.setState rid status error result nowMs).going rid = false := by
  unfold ChatRuns.going ChatRuns.setState
  cases hrun : runs.lookup rid with
  | none => simp [hrun]
  | some run => simp [hstatus]

theorem going_setState_of_ne {runs : ChatRuns} {status : String} {error : Option String}
    {result : Option ChatPayload} {nowMs : ℤ} (hne : k ≠ rid) :
    (runs.setState rid status error result nowMs).going k = runs.going k := by
  unfold ChatRuns.going ChatRuns.setState
  cases hrun : runs.lookup rid with
  | none => rfl
  | some run =>
      show ((runs.insert rid _).lookup k).any _ = _
      rw [HashMap.lookup_insert_eq, if_neg hne]

/-- What happens to the mark of a run. -/
def Marks (w : ChatWorld) (act : ChatAct) (w₁ : ChatWorld) (k : String) : Prop :=
  w₁.runs.going k = w.runs.going k ∨ (∃ key, act = .started key k) ∨
    ((∃ status, act = .settled k status) ∧ w₁.runs.going k = false)

theorem marks_settled {status : String} {error : Option String} {result : Option ChatPayload}
    {nowMs : ℤ} (hstatus : status ≠ "running") (k : String) :
    Marks w (.settled rid status)
      { w with runs := w.runs.setState rid status error result nowMs } k := by
  by_cases hk : k = rid
  · subst hk
    exact Or.inr (Or.inr ⟨⟨status, rfl⟩, going_setState hstatus⟩)
  · exact Or.inl (going_setState_of_ne hk)

theorem Handled.marks (h : Handled w call stage act w₁ next) (k : String) : Marks w act w₁ k := by
  cases h with
  | marked => exact marks_settled (by decide) k
  | @started rid nowMs =>
      by_cases hk : k = rid
      · subst hk
        exact Or.inr (Or.inl ⟨call.key, rfl⟩)
      · refine Or.inl ?_
        show ((w.runs.insert rid _).lookup k).any _ = _
        rw [HashMap.lookup_insert_eq, if_neg hk]
        rfl
  | _ => exact Or.inl rfl

theorem Outside.marks (h : Outside w act w₁) (k : String) : Marks w act w₁ k := by
  cases h with
  | settled hstatus => exact marks_settled hstatus k
  | _ => exact Or.inl rfl

theorem ChatMoves.marks (hmove : ChatMoves w e w') (k : String) : Marks w e.act w' k := by
  cases hmove with
  | went ht hin h => exact h.marks k
  | ended ht hin h => exact h.marks k
  | spawned ht hin hfresh h => exact h.marks k
  | outside ht haside ho h => exact h.marks k
  | _ => exact Or.inl rfl

/-- A run is started by a handler that has checked that it is not going. -/
theorem ChatMoves.starts {key : Option String} (hmove : ChatMoves w e w')
    (he : e.act = .started key rid) :
    (∃ call, w.tasks e.task = some (.handler call (.begin rid)) ∧ call.key = key) ∧
      w'.runs.going rid = true := by
  cases hmove with
  | went ht hin h => cases h <;> cases he
  | ended ht hin h => cases h <;> cases he
  | spawned ht hin hfresh h =>
      cases h with
      | started =>
          cases he
          exact ⟨⟨_, ht, rfl⟩, by simp [ChatRuns.going, ChatWorld.put, ChatWorld.gone,
            ChatRunRecord.start]⟩
  | outside ht haside ho h => cases h <;> cases he
  | _ => cases he

theorem ChatMoves.tasks_of_ne (hmove : ChatMoves w e w') (ht : w'.tasks t = some task)
    (hne : t ≠ e.task) : w.tasks t = some task ∨ task.Aside := by
  have same {x : Option ChatTask} (h : Function.update w.tasks e.task x t = some task) :
      w.tasks t = some task := by rwa [Function.update_of_ne hne] at h
  cases hmove with
  | rejected h => exact Or.inl ht
  | went h hin hh =>
      rw [ChatWorld.put, hh.shared.2] at ht
      exact Or.inl (same ht)
  | ended h hin hh =>
      rw [ChatWorld.gone, hh.shared.2] at ht
      exact Or.inl (same ht)
  | @spawned s fresh call stage act w₁ rid h hin hfresh hh =>
      by_cases heq : t = fresh
      · subst heq
        simp only [ChatWorld.put, Function.update_self, Option.some.injEq] at ht
        subst ht
        exact Or.inr trivial
      · simp only [ChatWorld.put, ChatWorld.gone, Function.update_of_ne heq, hh.shared.2] at ht
        exact Or.inl (same ht)
  | outside h haside ho hh =>
      rw [ChatWorld.put, hh.shared.2] at ht
      exact Or.inl (same ht)
  | _ => exact Or.inl (same ht)

/-- The handler that has moved. -/
theorem ChatMoves.mover (hmove : ChatMoves w e w')
    (ht : w'.tasks e.task = some (.handler call stage')) :
    (stage' = if call.key.isSome then .gate else .plan) ∨ stage' = .lookup ∨
      ∃ stage w₁, w.tasks e.task = some (.handler call stage) ∧ stage ≠ .gate ∧
        Handled w call stage e.act w₁ (.goes stage') ∧ w' = w₁.put e.task
          (some (.handler call stage')) := by
  have put {w₀ : ChatWorld} {a : ChatTask} (h : (w₀.put e.task (some a)).tasks e.task =
      some (.handler call stage')) : a = .handler call stage' := by
    simpa [ChatWorld.put] using h
  cases hmove with
  | rejected hnone =>
      rw [hnone] at ht
      cases ht
  | called hnone =>
      cases put ht
      exact Or.inl rfl
  | asked hnone => cases put ht
  | passed hold hkey hfree =>
      cases put ht
      exact Or.inr (Or.inl rfl)
  | went hold hin h =>
      cases put ht
      exact Or.inr (Or.inr ⟨_, _, hold, hin, h, rfl⟩)
  | ended hold hin h => simp [ChatWorld.gone] at ht
  | @spawned s fresh call stage act w₁ rid hold hin hfresh h =>
      have hne : s ≠ fresh := by
        rintro rfl
        rw [hfresh] at hold
        cases hold
      simp [ChatWorld.put, ChatWorld.gone, Function.update_of_ne hne] at ht
  | @outside s task o act w₁ hold haside ho h =>
      have hcontra := ho (.handler call stage') (by simpa [ChatWorld.put] using ht)
      exact hcontra.elim
  | dropped hold => simp [ChatWorld.gone] at ht

theorem ChatMoves.minted_mono (hmove : ChatMoves w e w') (h : rid ∈ w.minted) :
    rid ∈ w'.minted := by
  cases hmove with
  | went ht hin hh =>
      cases hh with
      | minted hkey => exact List.mem_cons_of_mem _ h
      | _ => exact h
  | ended ht hin hh => cases hh <;> exact h
  | spawned ht hin hfresh hh =>
      cases hh
      exact h
  | outside ht haside ho hh => cases hh <;> exact h
  | _ => exact h

theorem ChatTask.holds_of_ne (hin : stage ≠ .gate) :
    (ChatTask.handler call stage).holds = call.key := by
  cases stage with
  | gate => exact absurd rfl hin
  | _ => rfl

theorem ChatTask.Aside.holds_eq {a : ChatTask} (h : a.Aside) : a.holds = none := by
  cases a with
  | handler call stage => exact h.elim
  | run key rid sessionKey stage => rfl
  | abort target stage => rfl

/-! ## §3  What the tasks know -/

/-- The run that a handler is about: that of its key, or one of a new name. -/
def ChatCall.Names (call : ChatCall) (minted : List String) (rid : String) : Prop :=
  match call.key with
  | some key => rid = key
  | none => rid ∈ minted

structure ChatSound (k : String) (tr : List ChatEvent) (w : ChatWorld) : Prop where
  guarded : Guarded w.gates w.tasks ChatTask.holds
  named : ∀ t call stage rid, w.tasks t = some (.handler call stage) → stage.runId? = some rid →
    call.Names w.minted rid
  recorded : ∀ t p, ⟨t, .recorded k p⟩ ∈ tr → (w.dedupe.lookup k).isSome = true
  running : ∀ a t key b, tr = a ++ ⟨t, .started key k⟩ :: b →
    (∃ t' status, ⟨t', .settled k status⟩ ∈ b) ∨ w.runs.going k = true
  /-- Since a handler has found no answer, there was none before, and no run was started. -/
  looked : ∀ t call stage, w.tasks t = some (.handler call stage) → call.key = some k →
    stage.past = true → ∃ a b, tr = a ++ ⟨t, .missed k⟩ :: b ∧
      (∀ t' p, ⟨t', .recorded k p⟩ ∉ a) ∧ ∀ t' rid, ⟨t', .started (some k) rid⟩ ∉ b
  checked : k ∉ w.minted → ∀ t call stage, w.tasks t = some (.handler call stage) →
    call.key = some k → stage.checked = true → w.runs.going k = false

theorem ChatSound.init : ChatSound k [] .init where
  guarded := Guarded.empty
  named t call stage rid ht := by cases ht
  recorded t p hmem := by cases hmem
  running a t key b h := by cases a <;> cases h
  looked t call stage ht := by cases ht
  checked hk t call stage ht := by cases ht

theorem ChatSound.moved_guarded (h : ChatSound k tr w) (hmove : ChatMoves w e w') :
    Guarded w'.gates w'.tasks ChatTask.holds := by
  have hguarded := h.guarded
  cases hmove with
  | rejected ht => exact hguarded
  | @called t call ht =>
      refine hguarded.stay ?_
      rw [gateOf, ht]
      cases hkey : call.key <;> simp [ChatTask.holds, hkey]
  | asked ht =>
      refine hguarded.stay ?_
      rw [gateOf, ht]
      rfl
  | passed ht hkey hfree =>
      exact hguarded.enter (gateOf_of_task ht) hfree (by simpa [ChatTask.holds] using hkey)
  | @went t call stage stage' act w₁ ht hin hh =>
      obtain ⟨hgates, htasks⟩ := hh.shared
      have hin' : stage' ≠ .gate := by
        rintro rfl
        cases hh with
        | moved hpast hpast' => cases hpast'
      simp only [ChatWorld.put, hgates, htasks]
      refine hguarded.keep ht ?_
      rw [Option.bind_some, ChatTask.holds_of_ne hin, ChatTask.holds_of_ne hin']
  | ended ht hin hh =>
      obtain ⟨hgates, htasks⟩ := hh.shared
      simp only [ChatWorld.gone, hgates, htasks]
      exact hguarded.gone rfl
  | @spawned t fresh call stage act w₁ rid ht hin hfresh hh =>
      obtain ⟨hgates, htasks⟩ := hh.shared
      simp only [ChatWorld.put, ChatWorld.gone, hgates, htasks]
      refine (hguarded.gone rfl).stay ?_
      have hne : fresh ≠ t := by
        rintro rfl
        rw [hfresh] at ht
        cases ht
      simp [gateOf, Function.update_of_ne hne, hfresh, ChatTask.holds]
  | @outside t task o act w₁ ht haside ho hh =>
      obtain ⟨hgates, htasks⟩ := hh.shared
      simp only [ChatWorld.put, hgates, htasks]
      refine hguarded.keep ht ?_
      rw [haside.holds_eq]
      cases o with
      | none => rfl
      | some a => exact (ho a rfl).holds_eq
  | dropped ht => exact hguarded.gone rfl

theorem ChatSound.moved_named (h : ChatSound k tr w) (hmove : ChatMoves w e w')
    (ht : w'.tasks t = some (.handler call stage')) (hrid : stage'.runId? = some rid) :
    call.Names w'.minted rid := by
  have mono {rid : String} (hn : call.Names w.minted rid) : call.Names w'.minted rid := by
    unfold ChatCall.Names at hn ⊢
    split
    · rename_i hkey
      simpa [hkey] using hn
    · rename_i hkey
      exact hmove.minted_mono (by simpa [hkey] using hn)
  by_cases heq : t = e.task
  · subst heq
    rcases hmove.mover ht with rfl | rfl | ⟨stage, w₁, hold, hin, hh, rfl⟩
    · split at hrid <;> cases hrid
    · cases hrid
    · generalize e.act = act at hh
      cases hh with
      | missed hkey hnone => cases hrid
      | skipped hkey => cases hrid
      | moved hpast hpast' hname hcheck =>
          rcases hname with hname | hname
          · rw [hname] at hrid
            cases hrid
          · exact mono (h.named _ _ _ _ hold (hname ▸ hrid))
      | named hkey =>
          cases hrid
          simp [ChatCall.Names, hkey]
      | minted hkey =>
          cases hrid
          simp [ChatCall.Names, hkey, ChatWorld.put]
      | marked => cases hrid
  · rcases hmove.tasks_of_ne ht heq with hold | haside
    · exact mono (h.named _ _ _ _ hold hrid)
    · exact haside.elim

/-- A run of that name is started by a handler with the key. -/
theorem ChatSound.starter {key : Option String} (h : ChatSound k tr w) (hmove : ChatMoves w e w')
    (hk : k ∉ w.minted) (he : e.act = .started key k) :
    gateOf w.tasks ChatTask.holds e.task = some k := by
  obtain ⟨⟨call, ht, -⟩, -⟩ := hmove.starts he
  have hname := h.named _ _ _ _ ht rfl
  unfold ChatCall.Names at hname
  rw [gateOf_of_task ht]
  split at hname
  · rename_i key' hkey'
    rw [hname]
    exact hkey'
  · exact absurd hname hk

theorem ChatSound.holder (ht : w.tasks t = some (.handler call stage)) (hkey : call.key = some k)
    (hin : stage ≠ .gate) : gateOf w.tasks ChatTask.holds t = some k := by
  rw [gateOf_of_task ht, ChatTask.holds_of_ne hin, hkey]

theorem ChatStage.past_ne_gate (h : stage.past = true) : stage ≠ .gate := by
  rintro rfl
  cases h

theorem ChatStage.past_of_checked (h : stage.checked = true) : stage.past = true := by
  cases stage <;> first | rfl | cases h

theorem ChatSound.moved_running {a b : List ChatEvent} {key : Option String}
    (h : ChatSound k tr w) (hmove : ChatMoves w e w')
    (hsplit : tr ++ [e] = a ++ ⟨t, .started key k⟩ :: b) :
    (∃ t' status, ⟨t', .settled k status⟩ ∈ b) ∨ w'.runs.going k = true := by
  rcases List.eq_nil_or_concat b with rfl | ⟨b', e', rfl⟩
  · obtain ⟨-, hlast⟩ := List.append_inj' hsplit rfl
    have he : e.act = .started key k := by rw [(List.singleton_inj.mp hlast)]
    exact Or.inr (hmove.starts he).2
  · rw [List.concat_eq_append] at hsplit ⊢
    rw [← List.cons_append, ← List.append_assoc] at hsplit
    obtain ⟨htr, hlast⟩ := List.append_inj' hsplit rfl
    rw [List.singleton_inj] at hlast
    subst hlast
    rcases h.running a t key b' htr with ⟨t', status, hmem⟩ | hgoing
    · exact Or.inl ⟨t', status, List.mem_append_left _ hmem⟩
    · rcases hmove.marks k with hsame | ⟨key', hstart⟩ | ⟨⟨status, hsettled⟩, -⟩
      · exact Or.inr (hsame.trans hgoing)
      · exact Or.inr (hmove.starts hstart).2
      · exact Or.inl ⟨e.task, status, by simp [← hsettled]⟩

theorem ChatSound.moved_looked (h : ChatSound k tr w) (hmove : ChatMoves w e w')
    (ht : w'.tasks t = some (.handler call stage')) (hkey : call.key = some k)
    (hpast : stage'.past = true) :
    ∃ a b, tr ++ [e] = a ++ ⟨t, .missed k⟩ :: b ∧
      (∀ t' p, ⟨t', .recorded k p⟩ ∉ a) ∧ ∀ t' rid, ⟨t', .started (some k) rid⟩ ∉ b := by
  -- a handler that has looked, and a step that starts no run of the key
  have later {stage : ChatStage} (hold : w.tasks t = some (.handler call stage))
      (hpast : stage.past = true)
      (hact : ∀ rid, e.act ≠ .started (some k) rid) :
      ∃ a b, tr ++ [e] = a ++ ⟨t, .missed k⟩ :: b ∧
        (∀ t' p, ⟨t', .recorded k p⟩ ∉ a) ∧ ∀ t' rid, ⟨t', .started (some k) rid⟩ ∉ b := by
    obtain ⟨a, b, rfl, hrecorded, hstarted⟩ := h.looked t call stage hold hkey hpast
    refine ⟨a, b ++ [e], by simp, hrecorded, fun t' rid hmem => ?_⟩
    rcases List.mem_append.mp hmem with hmem | hmem
    · exact hstarted t' rid hmem
    · exact hact rid (by rw [← List.mem_singleton.mp hmem])
  by_cases heq : t = e.task
  · rw [heq] at ht
    rcases hmove.mover ht with rfl | rfl | ⟨stage, w₁, hold, hin, hh, rfl⟩
    · simp [hkey, ChatStage.past] at hpast
    · cases hpast
    · rw [← heq] at hold
      generalize hact : e.act = act at hh
      cases hh with
      | @missed k' hkey' hnone =>
          rw [hkey, Option.some.injEq] at hkey'
          subst hkey'
          refine ⟨tr, [], ?_, fun t' p hmem => ?_, by simp⟩
          · rw [heq, ← hact]
          · have hsome := h.recorded t' p hmem
            rw [hnone] at hsome
            cases hsome
      | skipped hkey' =>
          rw [hkey] at hkey'
          cases hkey'
      | moved hpast₀ hpast' hname hcheck => exact later hold hpast₀ (by simp [hact])
      | named hkey' => exact later hold rfl (by simp [hact])
      | minted hkey' => exact later hold rfl (by simp [hact])
      | marked => exact later hold rfl (by simp [hact])
  · rcases hmove.tasks_of_ne ht heq with hold | haside
    · refine later hold hpast (fun rid hstart => ?_)
      obtain ⟨⟨call', hbegin, hkey'⟩, -⟩ := hmove.starts hstart
      have hgate := ChatSound.holder hbegin hkey' (by simp)
      have hgate' := ChatSound.holder hold hkey (ChatStage.past_ne_gate hpast)
      exact heq (h.guarded.alone hgate' hgate)
    · exact haside.elim

theorem ChatSound.moved_checked (h : ChatSound k tr w) (hmove : ChatMoves w e w')
    (hk : k ∉ w'.minted) (ht : w'.tasks t = some (.handler call stage')) (hkey : call.key = some k)
    (hchecked : stage'.checked = true) : w'.runs.going k = false := by
  have hk₀ : k ∉ w.minted := fun hmem => hk (hmove.minted_mono hmem)
  by_cases heq : t = e.task
  · rw [heq] at ht
    rcases hmove.mover ht with rfl | rfl | ⟨stage, w₁, hold, hin, hh, rfl⟩
    · simp [hkey, ChatStage.checked] at hchecked
    · cases hchecked
    · generalize e.act = act at hh
      cases hh with
      | moved hpast hpast' hname hcheck =>
          rcases hcheck hchecked with hold' | ⟨rid, hrid, hgoing⟩
          · exact h.checked hk₀ _ _ _ hold hkey hold'
          · have hn := h.named _ _ _ _ hold hrid
            simp only [ChatCall.Names, hkey] at hn
            exact hn ▸ hgoing
      | _ => cases hchecked
  · rcases hmove.tasks_of_ne ht heq with hold | haside
    · rcases hmove.marks k with hsame | ⟨key, hstart⟩ | ⟨-, hgoing⟩
      · exact hsame.trans (h.checked hk₀ _ _ _ hold hkey hchecked)
      · have hgate := ChatSound.holder hold hkey
          (ChatStage.past_ne_gate (ChatStage.past_of_checked hchecked))
        exact absurd (h.guarded.alone hgate (h.starter hmove hk₀ hstart)) heq
      · exact hgoing
    · exact haside.elim

theorem ChatSound.step (h : ChatSound k tr w) (hstep : ChatWorld.Step w e w') :
    ChatSound k (tr ++ [e]) w' := by
  have hmove := ChatMoves.of_step hstep
  refine ⟨h.moved_guarded hmove, fun t call stage rid ht hrid => h.moved_named hmove ht hrid,
    fun t p hmem => ?_, fun a t key b hsplit => h.moved_running hmove hsplit,
    fun t call stage ht hkey hpast => h.moved_looked hmove ht hkey hpast,
    fun hk t call stage ht hkey hchecked => h.moved_checked hmove hk ht hkey hchecked⟩
  rcases hmove.keeps with ⟨hsame, hnot⟩ | ⟨k', p', hact, hset⟩
  · rcases List.mem_append.mp hmem with hmem | hmem
    · rw [hsame]
      exact h.recorded t p hmem
    · exact absurd (by rw [← List.mem_singleton.mp hmem]) (hnot k p)
  · rw [hset, HashMap.lookup_insert_eq]
    split
    · rfl
    · rename_i hne
      rcases List.mem_append.mp hmem with hmem | hmem
      · exact h.recorded t p hmem
      · rw [← List.mem_singleton.mp hmem] at hact
        cases hact
        exact absurd rfl hne

theorem chatSound_of_run (run : Runs ChatWorld.Step .init tr w) : ChatSound k tr w :=
  run.invariant ChatSound.init (fun _ h hstep => h.step hstep)

/-! ## §4  The window -/

theorem mem_minted_of_run (run : Runs ChatWorld.Step w tr w') (h : k ∈ w.minted) :
    k ∈ w'.minted :=
  run.state_invariant (P := fun w => k ∈ w.minted) h
    (fun hmem hstep => (ChatMoves.of_step hstep).minted_mono hmem)

theorem after_of_append_eq {α : Type} {x y : α} {l₁ l₂ l₃ l₄ : List α}
    (h : l₁ ++ x :: l₂ = l₃ ++ y :: l₄) (hne : x ≠ y) (hnot : x ∉ l₄) :
    ∃ l, l₃ = l₁ ++ x :: l ∧ l₂ = l ++ y :: l₄ := by
  rcases List.append_eq_append_iff.mp h with ⟨l, rfl, hl⟩ | ⟨l, rfl, hl⟩
  · cases l with
    | nil =>
        simp only [List.nil_append, List.cons.injEq] at hl
        exact absurd hl.1 hne
    | cons z l =>
        simp only [List.cons_append, List.cons.injEq] at hl
        obtain ⟨rfl, rfl⟩ := hl
        exact ⟨l, rfl, rfl⟩
  · cases l with
    | nil =>
        simp only [List.nil_append, List.cons.injEq] at hl
        exact absurd hl.1.symm hne
    | cons z l =>
        simp only [List.cons_append, List.cons.injEq] at hl
        obtain ⟨rfl, rfl⟩ := hl
        exact absurd (by simp) hnot

def sampleChat : ChatCall := ⟨some "key-1", "main", "hello"⟩

def sampleChatInput (fresh : ℕ) : ChatInput :=
  ⟨1000, 0, none, "id", none, fresh, ⟨.ok, some "done", none⟩⟩

/-- The second request comes when the run of the first has ended, before it records its answer. -/
def chatTurns : List ChatTurn :=
  .call 0 sampleChat :: List.replicate 8 (.run 0 (sampleChatInput 9)) ++
    List.replicate 3 (.run 9 (sampleChatInput 8)) ++
    .call 1 sampleChat :: List.replicate 8 (.run 1 (sampleChatInput 8))

theorem chatTurns_run : (exec ChatWorld.next .init chatTurns).isSome = true := by
  decide

end Oclaw.Gateway.Rpc
