import Oclaw.AgentCore.Agent
import Mathlib.Logic.Relation

/-!
# What an agent can do to its tape

`AgentStep` lists, once, everything that can happen to history, transcript file and
log, with the phase in which it can happen. Every call of `run` and `run_with_tools`
is a sequence of such steps, so a property of whole conversations is proved by
cases on a single step.
-/

namespace Oclaw.AgentCore

open Oclaw.Lib Oclaw.ToolsCore

variable {W : Type} (O : Outside W) (A : AgentSetup)

/-! ## §1  Steps of the tape -/

/-- Between two calls; ready to send a request; or with calls of the last
assistant message still to be answered. -/
inductive Phase : Type where
  | idle
  | ready
  | owing (tcs : List ToolCall)

/-- The possible outcomes of a transcript append. -/
def Outside.MaySave (saved : Bool) : Prop :=
  if A.hasTranscript then ∃ w, (O.appends w).1 = saved else saved = false

inductive AgentStep : Phase × Tape → Phase × Tape → Prop where
  | input {t} (text : String) (saved : Bool) : O.MaySave A saved →
      AgentStep (.idle, t) (.ready, t.record O.codec saved (plainMessage .user text))
  | recalled {t} (results : List RecallResult) (m : ChatMessage) :
      formatRecallContext results = some m → AgentStep (.ready, t) (.ready, t.push m)
  | request {t} (r : ChatRequest) : r.messages = prepareMessages A t.history →
      AgentStep (.ready, t) (.ready, t.emit (.request r))
  | summarize {t} (r : ChatRequest) : A.compactionConfig.isSome = true →
      AgentStep (.ready, t) (.ready, t.emit (.request r))
  | compact {t} (history : List ChatMessage) (file : Option String) :
      A.compactionConfig.isSome = true → AgentStep (.ready, t) (.ready, t.compact history file)
  | rewrite {t} (history : List ChatMessage) :
      history.map ChatMessage.shape = t.history.map ChatMessage.shape →
      AgentStep (.ready, t) (.ready, t.rewrite history)
  | answer {t} (content : String) (calls : Option (List ToolCall)) (saved : Bool) :
      O.MaySave A saved →
      AgentStep (.ready, t) (.owing (calls.getD []),
        t.record O.codec saved (assistantMessage content calls))
  | warn {t} (tc : ToolCall) (tcs : List ToolCall) (msg : String) :
      AgentStep (.owing (tc :: tcs), t)
        (.owing (tc :: tcs), (t.emit (.flagged tc .warning)).push (Live.loopWarning msg))
  | refuse {t} (tc : ToolCall) (tcs : List ToolCall) (decision : ApprovalDecision)
      (content : String) : content.toList.head? = some 'T' →
      AgentStep (.owing (tc :: tcs), t)
        (.owing tcs, (t.emit (.refused tc decision)).push (toolResult tc content))
  | execute {t} (tc : ToolCall) (tcs : List ToolCall) (content : String) (saved : Bool) :
      O.MaySave A saved →
      AgentStep (.owing (tc :: tcs), t)
        (.owing tcs, t.record O.codec saved (toolResult tc content))
  | abort {t} (tc : ToolCall) (tcs : List ToolCall) :
      AgentStep (.owing (tc :: tcs), t) (.idle, t.emit (.flagged tc .critical))
  | next {t} : AgentStep (.owing [], t) (.ready, t)
  | finish {t} : AgentStep (.ready, t) (.idle, t)

/-- Whole stretches of a conversation. -/
abbrev AgentSteps : Phase × Tape → Phase × Tape → Prop :=
  Relation.ReflTransGen (AgentStep O A)

variable {O A}

theorem AgentSteps.invariant {P : Phase × Tape → Prop}
    (hstep : ∀ {x y}, P x → AgentStep O A x y → P y) {x y : Phase × Tape}
    (h : AgentSteps O A x y) (hx : P x) : P y := by
  induction h with
  | refl => exact hx
  | tail _ hst ih => exact hstep ih hst

/-! ## §2  Every call is a sequence of steps -/

namespace Live

variable {s : Live W} {r : ChatRequest} {tc : ToolCall} {tcs : List ToolCall}
  {d : LoopDetector}

/-- `record` is a record on the tape, with a possible outcome of the append. -/
theorem record_tape (s : Live W) (m : ChatMessage) :
    ∃ saved, O.MaySave A saved ∧ (s.record O A m).tape = s.tape.record O.codec saved m := by
  unfold record Outside.MaySave
  cases A.hasTranscript with
  | true => exact ⟨(O.appends s.world).1, ⟨s.world, rfl⟩, rfl⟩
  | false => exact ⟨false, rfl, rfl⟩

/-- A message is pushed, after its append to the transcript if there was one. -/
theorem record_log (s : Live W) (m : ChatMessage) :
    (s.record O A m).tape.log = s.tape.log ++ [.persist m, .push m] ∨
      (s.record O A m).tape.log = s.tape.log ++ [.push m] := by
  obtain ⟨saved, -, htape⟩ := @record_tape W O A s m
  rw [htape]
  cases saved with
  | false => exact Or.inr rfl
  | true =>
      left
      show (s.tape.log ++ [.persist m]) ++ [.push m] = _
      rw [List.append_assoc]
      rfl

theorem recordUsage_tape (s : Live W) (usage : Option Usage) :
    (s.recordUsage usage).tape = s.tape := by
  unfold recordUsage
  split <;> rfl

theorem chat_tape (s : Live W) (r : ChatRequest) :
    (s.chat O r).2.tape = s.tape.emit (.request r) := rfl

/-- A request that fits the history still does once it has been sent. -/
theorem prepared_of_chat {resp : Except LlmError ChatCompletion} {s' : Live W}
    (hr : r.messages = prepareMessages A s.tape.history) (hchat : s.chat O r = (resp, s')) :
    r.messages = prepareMessages A s'.tape.history := by
  have htape := @chat_tape W O s r
  rw [hchat] at htape
  rw [htape]
  exact hr

theorem answer_steps (s : Live W) (content : String) (calls : Option (List ToolCall)) :
    AgentSteps O A (.ready, s.tape)
      (.owing (calls.getD []), (s.record O A (assistantMessage content calls)).tape) := by
  obtain ⟨saved, hsaved, htape⟩ := @record_tape W O A s (assistantMessage content calls)
  rw [htape]
  exact .single (.answer content calls saved hsaved)

theorem runAttempts_steps (maxRetries : ℤ) : ∀ (n : ℕ) (lastError : Option LlmError)
    (s : Live W), r.messages = prepareMessages A s.tape.history →
      AgentSteps O A (.ready, s.tape) (.idle, (s.runAttempts O A r maxRetries n lastError).2.tape)
  | 0, _, s, _ => .single .finish
  | n + 1, lastError, s, hr => by
      have hsent : AgentSteps O A (.ready, s.tape) (.ready, (s.chat O r).2.tape) :=
        .single (.request r hr)
      refine hsent.trans ?_
      rw [runAttempts]
      rcases hchat : s.chat O r with ⟨resp, s'⟩
      have hs' := prepared_of_chat hr hchat
      cases resp with
      | error e => exact runAttempts_steps maxRetries n (some e) s' hs'
      | ok response =>
          simp only
          split
          · rename_i choice _ _
            have hanswer := @answer_steps W O A (s'.recordUsage response.usage) choice.content none
            rw [recordUsage_tape] at hanswer
            exact (hanswer.tail .next).tail .finish
          · have hrest := runAttempts_steps maxRetries n lastError
              (s'.recordUsage response.usage) (by rw [recordUsage_tape]; exact hs')
            rw [recordUsage_tape] at hrest
            exact hrest

theorem input_steps (s : Live W) (text : String) :
    AgentSteps O A (.idle, s.tape) (.ready, (s.record O A (plainMessage .user text)).tape) := by
  obtain ⟨saved, hsaved, htape⟩ := @record_tape W O A s (plainMessage .user text)
  rw [htape]
  exact .single (.input text saved hsaved)

theorem run_steps (s : Live W) (input : String) :
    AgentSteps O A (.idle, s.tape) (.idle, (s.run O A input).2.tape) := by
  refine Relation.ReflTransGen.trans (input_steps (s.setState .running) input) ?_
  generalize hs : (s.setState .running).record O A (plainMessage .user input) = s₁
  have hrun : s.run O A input = (s₁.setState .waitingForResponse).runAttempts O A
      (buildRequest A none s₁.tape.history) (A.config.maxRetries.getD 3)
      (A.config.maxRetries.getD 3).toNat none := by
    rw [← hs]
    rfl
  rw [hrun]
  exact runAttempts_steps _ _ _ (s₁.setState .waitingForResponse) rfl

theorem chatAttempts_steps (maxRetries : ℤ) : ∀ (n : ℕ) (lastErr : String) (s : Live W),
    r.messages = prepareMessages A s.tape.history →
      AgentSteps O A (.ready, s.tape) (.ready, (s.chatAttempts O r maxRetries n lastErr).2.tape)
  | 0, _, s, _ => .refl
  | n + 1, lastErr, s, hr => by
      have hsent : AgentSteps O A (.ready, s.tape) (.ready, (s.chat O r).2.tape) :=
        .single (.request r hr)
      refine hsent.trans ?_
      rw [chatAttempts]
      rcases hchat : s.chat O r with ⟨resp, s'⟩
      have hs' := prepared_of_chat hr hchat
      cases resp with
      | ok response =>
          simp only [recordUsage_tape]
          exact .refl
      | error e =>
          simp only
          split
          · exact .refl
          · exact .refl
          · split
            · exact chatAttempts_steps maxRetries n e.text s' hs'
            · exact .refl

theorem summaryAttempts_steps (hcfg : A.compactionConfig.isSome = true) : ∀ (n : ℕ)
    (s : Live W), AgentSteps O A (.ready, s.tape) (.ready, (s.summaryAttempts O r n).2.tape)
  | 0, _ => .refl
  | n + 1, s => by
      have hsent : AgentSteps O A (.ready, s.tape) (.ready, (s.chat O r).2.tape) :=
        .single (.summarize r hcfg)
      refine hsent.trans ?_
      rw [summaryAttempts]
      rcases s.chat O r with ⟨resp, s'⟩
      cases resp with
      | ok response => exact .refl
      | error e => exact summaryAttempts_steps hcfg n s'

theorem tryCompact_steps (s : Live W) :
    AgentSteps O A (.ready, s.tape) (.ready, (s.tryCompact O A).tape) := by
  unfold tryCompact
  cases hcfg : A.compactionConfig with
  | none => exact .refl
  | some cfg =>
      have hsome : A.compactionConfig.isSome = true := by rw [hcfg]; rfl
      simp only
      split
      · generalize summaryRequest A _ = request
        have hsum := @summaryAttempts_steps W O A request hsome cfg.retryAttempts s
        split
        · rename_i s' heq
          rw [heq] at hsum
          exact hsum
        · rename_i summaryText s' heq
          rw [heq] at hsum
          refine hsum.trans ?_
          split <;> exact .single (.compact _ _ hsome)
      · exact .refl

theorem guardContext_steps (s : Live W) :
    AgentSteps O A (.ready, s.tape) (.ready, (s.guardContext O A).tape) := by
  unfold guardContext
  split
  · exact .refl
  · split
    · exact .single (.rewrite _ (map_shape_truncateToolResults _ _ _ _))
    · exact .refl

theorem executeTool_steps (s : Live W) (tc : ToolCall) (tcs : List ToolCall)
    (d : LoopDetector) :
    AgentSteps O A (.owing (tc :: tcs), s.tape)
      (.owing tcs, (s.executeTool O A tc d).2.tape) := by
  unfold executeTool
  simp only
  obtain ⟨saved, hsaved, htape⟩ := @record_tape W O A _ _
  rw [htape]
  exact .single (.execute tc tcs _ saved hsaved)

theorem answerCall_steps (s : Live W) (tc : ToolCall) (tcs : List ToolCall)
    (d : LoopDetector) :
    AgentSteps O A (.owing (tc :: tcs), s.tape)
      (.owing tcs, (s.answerCall O A tc d).2.tape) := by
  -- how both refusal texts begin
  have htext : ∀ rest : String, ("Tool '" ++ rest).toList.head? = some 'T' := by
    intro rest
    rw [String.toList_append]
    rfl
  unfold answerCall
  split
  · exact executeTool_steps s tc tcs d
  · split
    · refine .single (.refuse tc tcs .denied _ ?_)
      rw [String.append_assoc]
      exact htext _
    · refine .single (.refuse tc tcs .pending _ ?_)
      simp only [String.append_assoc]
      exact htext _
    · exact executeTool_steps s tc tcs d

/-- One call is answered, or ends the run. -/
theorem runToolCall_steps (s : Live W) (tc : ToolCall) (tcs : List ToolCall)
    (d : LoopDetector) :
    (∃ d' s', s.runToolCall O A tc d = (.ok d', s') ∧
        AgentSteps O A (.owing (tc :: tcs), s.tape) (.owing tcs, s'.tape)) ∨
      ∃ e s', s.runToolCall O A tc d = (.error e, s') ∧
        AgentSteps O A (.owing (tc :: tcs), s.tape) (.idle, s'.tape) := by
  unfold runToolCall
  simp only
  rcases d.detect_message O.hashStr tc.function.name tc.function.arguments with
    hlevel | ⟨msg, hmsg⟩
  · rw [hlevel]
    exact Or.inl ⟨_, _, rfl, answerCall_steps s tc tcs _⟩
  · cases (d.detect O.hashStr tc.function.name tc.function.arguments).level with
    | none => exact Or.inl ⟨_, _, rfl, answerCall_steps s tc tcs _⟩
    -- the run ends here: `tc` and what follows it stay unanswered
    | critical => exact Or.inr ⟨_, _, rfl, .single (.abort tc tcs)⟩
    | warning =>
        rw [hmsg]
        refine Or.inl ⟨_, _, rfl, ?_⟩
        exact (Relation.ReflTransGen.single (.warn tc tcs msg)).trans
          (answerCall_steps _ tc tcs _)

theorem runToolCalls_steps : ∀ (tcs : List ToolCall) (d : LoopDetector) (s : Live W),
    (∃ d' s', s.runToolCalls O A tcs d = (.ok d', s') ∧
        AgentSteps O A (.owing tcs, s.tape) (.owing [], s'.tape)) ∨
      ∃ e s', s.runToolCalls O A tcs d = (.error e, s') ∧
        AgentSteps O A (.owing tcs, s.tape) (.idle, s'.tape)
  | [], d, s => Or.inl ⟨d, s, rfl, .refl⟩
  | tc :: tcs, d, s => by
      rw [runToolCalls]
      rcases @runToolCall_steps W O A s tc tcs d with ⟨d', s', heq, hsteps⟩ |
        ⟨e, s', heq, hsteps⟩
      · rw [heq]
        rcases runToolCalls_steps tcs d' s' with ⟨d'', s'', heq', hsteps'⟩ |
          ⟨e, s'', heq', hsteps'⟩
        · exact Or.inl ⟨d'', s'', heq', hsteps.trans hsteps'⟩
        · exact Or.inr ⟨e, s'', heq', hsteps.trans hsteps'⟩
      · rw [heq]
        exact Or.inr ⟨e, s', rfl, hsteps⟩

theorem toolLoop_steps (tools : List Tool) (maxIterations : ℕ) : ∀ (n overflowAttempts : ℕ)
    (d : LoopDetector) (s : Live W),
      AgentSteps O A (.ready, s.tape)
        (.idle, (s.toolLoop O A tools maxIterations n overflowAttempts d).2.tape)
  | 0, _, _, _ => .single .finish
  | n + 1, overflowAttempts, d, s => by
      have hprep := (tryCompact_steps (O := O) (A := A) (s.setState .waitingForResponse)).trans
        (guardContext_steps _)
      refine hprep.trans ?_
      rw [toolLoop]
      generalize ((s.setState .waitingForResponse).tryCompact O A).guardContext O A = s₁
      simp only
      have hsent : AgentSteps O A (.ready, s₁.tape) (.ready,
          (s₁.chatWithRetry O A (buildRequest A (some tools) s₁.tape.history)).2.tape) :=
        chatAttempts_steps _ _ _ _ rfl
      rcases hchat : s₁.chatWithRetry O A (buildRequest A (some tools) s₁.tape.history) with
        ⟨resp, s₂⟩
      rw [hchat] at hsent
      refine hsent.trans ?_
      cases resp with
      | error e =>
          cases e with
          | contextOverflow msg =>
              simp only
              split
              · -- an overflow cuts the tool results and spends an iteration
                have hcut : AgentSteps O A (.ready, s₂.tape)
                    (.ready, s₂.tape.rewrite (truncateHistoryToolResults s₂.tape.history)) :=
                  .single (.rewrite _ (map_shape_truncateHistory _))
                exact hcut.trans (toolLoop_steps tools maxIterations n (overflowAttempts + 1) d
                  { s₂ with
                    tape := s₂.tape.rewrite (truncateHistoryToolResults s₂.tape.history) })
              · exact .single .finish
          | _ => exact .single .finish
      | ok response =>
          simp only
          cases response.choices with
          | nil => exact .single .finish
          | cons choice _ =>
              simp only
              refine (answer_steps s₂ choice.content choice.toolCalls).trans ?_
              generalize s₂.record O A (assistantMessage choice.content choice.toolCalls) = s₃
              cases choice.toolCalls with
              | none => exact (Relation.ReflTransGen.single .next).tail .finish
              | some tcs =>
                  cases tcs with
                  | nil => exact (Relation.ReflTransGen.single .next).tail .finish
                  | cons tc tcs =>
                      simp only
                      rcases @runToolCalls_steps W O A (tc :: tcs) d s₃ with
                        ⟨d', s₄, heq, hsteps⟩ | ⟨e, s₄, heq, hsteps⟩
                      · rw [heq]
                        exact (hsteps.tail .next).trans
                          (toolLoop_steps tools maxIterations n overflowAttempts d' s₄)
                      · rw [heq]
                        exact hsteps

theorem autoRecall_steps (s : Live W) (input : String) :
    AgentSteps O A (.ready, s.tape) (.ready, (s.autoRecall O A input).tape) := by
  unfold autoRecall
  split
  · exact .refl
  · split
    · simp only
      split
      · rename_i m heq
        exact .single (.recalled _ m heq)
      · exact .refl
    · exact .refl

theorem runWithTools_steps (s : Live W) (input : String) :
    AgentSteps O A (.idle, s.tape) (.idle, (s.runWithTools O A input).2.tape) :=
  ((input_steps (s.setState .running) input).trans (autoRecall_steps _ input)).trans
    (toolLoop_steps _ _ _ _ _ _)

/-- A sequence of calls is a sequence of steps of its tape. -/
theorem session_steps (calls : List AgentCall) : ∀ (s : Live W),
    AgentSteps O A (.idle, s.tape) (.idle, (s.session O A calls).tape) := by
  induction calls with
  | nil => exact fun _ => .refl
  | cons c calls ih =>
      intro s
      refine Relation.ReflTransGen.trans ?_ (ih (s.call O A c))
      cases c with
      | run input => exact run_steps s input
      | runWithTools input => exact runWithTools_steps s input

end Live

end Oclaw.AgentCore
