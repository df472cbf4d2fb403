import Oclaw.AgentCore.ToolPairing
import Oclaw.Lib.Transition

/-!
# What approvals decide

The agent asks its gate about every tool call; requests for approvals are resolved and
listed by others meanwhile. The calls that reach the executor are recorded in the outside
world, so that a run says which calls were executed and which requests had been approved
before.
-/

namespace Oclaw.AgentCore

open Oclaw.Lib Oclaw.ToolsCore

variable {W : Type} {O : Outside W} {A : AgentSetup}

/-! ## §1  Recording the executor -/

/-- The outside world with a record of the calls of the executor. -/
abbrev Watched (W : Type) : Type := W × List ToolCallFunction

def watch (O : Outside W) : Outside (Watched W) where
  chat r w := ((O.chat r w.1).1, (O.chat r w.1).2, w.2)
  execute name args w :=
    ((O.execute name args w.1).1, (O.execute name args w.1).2, w.2 ++ [⟨name, args⟩])
  availableTools w := O.availableTools w.1
  memoryRecall input n score w :=
    ((O.memoryRecall input n score w.1).1, (O.memoryRecall input n score w.1).2, w.2)
  approvalTicket w := ((O.approvalTicket w.1).1, (O.approvalTicket w.1).2, w.2)
  appends w := ((O.appends w.1).1, (O.appends w.1).2, w.2)
  compactionMarker text w :=
    ((O.compactionMarker text w.1).1, (O.compactionMarker text w.1).2, w.2)
  debugError := O.debugError
  hashStr := O.hashStr
  bpe := O.bpe
  codec := O.codec

/-- The calls that were passed to the executor. -/
def Live.executed (s : Live (Watched W)) : List ToolCallFunction := s.world.2

/-! ## §2  One tool call -/

namespace Live

variable {s : Live (Watched W)} {tc : ToolCall} {d : LoopDetector} {gate : ApprovalGate}

/-- Neither the gate nor the record of the executor has changed. -/
def Kept (s s' : Live (Watched W)) : Prop :=
  s'.approvalGate = s.approvalGate ∧ s'.executed = s.executed

instance instDecidableKept (s s' : Live (Watched W)) : Decidable (s.Kept s') :=
  inferInstanceAs (Decidable (_ ∧ _))

theorem Kept.trans {s s' s'' : Live (Watched W)} (h : s.Kept s') (h' : s'.Kept s'') :
    s.Kept s'' :=
  ⟨h'.1.trans h.1, h'.2.trans h.2⟩

theorem setState_kept (s : Live (Watched W)) (state : AgentState) : s.Kept (s.setState state) :=
  ⟨rfl, rfl⟩

theorem record_kept (s : Live (Watched W)) (m : ChatMessage) :
    s.Kept (s.record (watch O) A m) := by
  unfold record
  split <;> exact ⟨rfl, rfl⟩

theorem executeTool_gate (s : Live (Watched W)) (tc : ToolCall) (d : LoopDetector) :
    (s.executeTool (watch O) A tc d).2.approvalGate = s.approvalGate ∧
      (s.executeTool (watch O) A tc d).2.executed = s.executed ++ [tc.function] :=
  record_kept _ _

/-- The gate decides: only an approved call is executed, and only a pending one adds a
request. -/
theorem answerCall_gate (hgate : s.approvalGate = some gate) :
    ((s.answerCall (watch O) A tc d).2.executed = s.executed ∧
      (∃ req gate', (s.answerCall (watch O) A tc d).2.approvalGate = some gate' ∧
        gate.SameRules gate' ∧ gate'.pending = gate.pending ++ req)) ∨
    (gate.check tc.function.name = .approved ∧
      (s.answerCall (watch O) A tc d).2.executed = s.executed ++ [tc.function] ∧
      (s.answerCall (watch O) A tc d).2.approvalGate = some gate) := by
  simp only [answerCall, hgate]
  split
  · exact Or.inl ⟨rfl, [], gate, rfl, ⟨rfl, rfl⟩, by simp⟩
  · exact Or.inl ⟨rfl, _, _, rfl, ⟨rfl, rfl⟩, rfl⟩
  · rename_i happroved
    obtain ⟨hsame, hexec⟩ := executeTool_gate (O := O) (A := A) s tc d
    exact Or.inr ⟨happroved, hexec, hsame.trans hgate⟩

theorem runToolCall_gate (tc : ToolCall) (hgate : s.approvalGate = some gate) :
    ((s.runToolCall (watch O) A tc d).2.executed = s.executed ∧
      (∃ req gate', (s.runToolCall (watch O) A tc d).2.approvalGate = some gate' ∧
        gate.SameRules gate' ∧ gate'.pending = gate.pending ++ req)) ∨
    (gate.check tc.function.name = .approved ∧
      (s.runToolCall (watch O) A tc d).2.executed = s.executed ++ [tc.function] ∧
      (s.runToolCall (watch O) A tc d).2.approvalGate = some gate) := by
  simp only [runToolCall]
  split
  · exact Or.inl ⟨rfl, [], gate, hgate, ⟨rfl, rfl⟩, by simp⟩
  · split
    · exact answerCall_gate
        (s := { s with tape := s.tape.emit (.flagged tc .warning) }.push _) hgate
    · exact answerCall_gate (s := { s with tape := s.tape.emit (.flagged tc .warning) }) hgate
  · exact answerCall_gate hgate

end Live

/-! ## §3  Tool calls and approvals -/

/-- What can happen next: a tool call of a run, other work of the agent, or a use of the
gate by somebody else. The detector is the one of the run that the call belongs to. -/
inductive Move (W : Type) : Type where
  | tool (tc : ToolCall) (d : LoopDetector)
  | work (s : Live (Watched W))
  | approve (id : String) (nowMs : ℕ)
  | deny (id : String) (nowMs : ℕ)
  | resolve (id : String) (decision : ApprovalDecision) (resolvedBy : Option String) (nowMs : ℕ)
  | getRequest (id : String) (nowMs : ℕ)
  | listRequests (nowMs : ℕ)
  | pendingRequests (nowMs : ℕ)

/-- What is to be seen of it: a tool call with the request that it made and whether it
was executed, or a decision on a request. -/
inductive ApprovalEvent : Type where
  | tool (tc : ToolCall) (request : Option ApprovalRequest) (executed : Bool)
  | resolved (id : String) (decision : ApprovalDecision) (nowMs : ℕ) (found : Bool)
  | other
deriving DecidableEq

namespace Live

/-- The requests of the gate. -/
def requests (s : Live (Watched W)) : List ApprovalRequest :=
  (s.approvalGate.map ApprovalGate.pending).getD []

/-- Somebody else uses the gate. -/
def useGate {R : Type} (s : Live (Watched W)) (f : ApprovalGate → R × ApprovalGate)
    (event : R → ApprovalEvent) : Option (ApprovalEvent × Live (Watched W)) :=
  s.approvalGate.map (fun gate =>
    (event (f gate).1, { s with approvalGate := some (f gate).2 }))

def nextApproval (O : Outside W) (A : AgentSetup) (s : Live (Watched W)) :
    Move W → Option (ApprovalEvent × Live (Watched W))
  | .tool tc d =>
      let s' := (s.runToolCall (watch O) A tc d).2
      some (.tool tc (s'.requests.drop s.requests.length).head?
        (decide (s.executed.length < s'.executed.length)), s')
  | .work s' =>
      if s.Kept s' then some (.other, s') else none
  | .approve id nowMs =>
      s.useGate (·.approve id nowMs) (.resolved id .approved nowMs)
  | .deny id nowMs => s.useGate (·.deny id nowMs) (.resolved id .denied nowMs)
  | .resolve id decision resolvedBy nowMs =>
      s.useGate (·.resolve id decision resolvedBy nowMs) (.resolved id decision nowMs)
  | .getRequest id nowMs => s.useGate (·.getRequest id nowMs) (fun _ => .other)
  | .listRequests nowMs => s.useGate (·.listRequests nowMs) (fun _ => .other)
  | .pendingRequests nowMs => s.useGate (·.pendingRequests nowMs) (fun _ => .other)

abbrev ApprovalStep (O : Outside W) (A : AgentSetup) :
    Live (Watched W) → ApprovalEvent → Live (Watched W) → Prop := Induced (nextApproval O A)

end Live

/-- The tool is neither denied nor approved by the rules: a request has to be made. -/
def RequiresApproval (gate : ApprovalGate) (toolName : String) : Prop :=
  toolName ∉ gate.policy.deny ∧
    ¬ (gate.autoApproveAll = true ∨ toolName ∈ gate.policy.autoApprove) ∧
    toolName ∈ gate.policy.requireApproval

/-- A request for this tool with these arguments was approved before it expired, and was
not denied afterwards. -/
def Granted (before : List ApprovalEvent) (tc : ToolCall) : Prop :=
  ∃ tc₀ req executed nowMs asked after,
    before = asked ++ .resolved req.id .approved nowMs true :: after ∧
    .tool tc₀ (some req) executed ∈ asked ∧ tc₀.function = tc.function ∧
    nowMs - req.createdAtMs < ApprovalGate.approvalTtlMs ∧
    ∀ nowMs', .resolved req.id .denied nowMs' true ∉ after

/-- A call that requires an approval is executed just when it has been granted. -/
def Exact (gate : ApprovalGate) (tr : List ApprovalEvent) : Prop :=
  ∀ before tc req executed after, tr = before ++ .tool tc req executed :: after →
    RequiresApproval gate tc.function.name → (executed = true ↔ Granted before tc)

/-- No call is made that has been granted. -/
def NoGrantedCall (gate : ApprovalGate) (tr : List ApprovalEvent) : Prop :=
  ∀ before tc req executed after, tr = before ++ .tool tc req executed :: after →
    RequiresApproval gate tc.function.name → ¬ Granted before tc

variable {gate : ApprovalGate} {s s' : Live (Watched W)} {tr : List ApprovalEvent}
variable {e : ApprovalEvent}

/-- The rules stay, and what is executed is approved by them. -/
structure RulesKept (gate : ApprovalGate) (tr : List ApprovalEvent) (s : Live (Watched W)) :
    Prop where
  rules : ∃ gate', s.approvalGate = some gate' ∧ gate.SameRules gate'
  executed : ∀ call ∈ s.executed, gate.check call.name = .approved
  called : ∀ tc req, .tool tc req true ∈ tr → gate.check tc.function.name = .approved

theorem RulesKept.useGate {R : Type} {f : ApprovalGate → R × ApprovalGate}
    {event : R → ApprovalEvent} (h : RulesKept gate tr s)
    (hf : ∀ gate, ApprovalGate.SameRules gate (f gate).2)
    (hevent : ∀ r tc req, event r ≠ .tool tc req true)
    (hstep : s.useGate f event = some (e, s')) : RulesKept gate (tr ++ [e]) s' := by
  obtain ⟨gate', hgate, hrules⟩ := h.rules
  rw [Live.useGate, hgate, Option.map_some] at hstep
  cases hstep
  refine ⟨⟨_, rfl, hrules.trans (hf gate')⟩, h.executed, ?_⟩
  intro tc req hmem
  rcases List.mem_append.mp hmem with hmem | hmem
  · exact h.called tc req hmem
  · exact absurd (List.mem_singleton.mp hmem).symm (hevent _ tc req)

theorem RulesKept.tool {tc : ToolCall} {d : LoopDetector} (h : RulesKept gate tr s)
    (hstep : s.nextApproval O A (.tool tc d) = some (e, s')) :
    RulesKept gate (tr ++ [e]) s' := by
  obtain ⟨gate', hgate, hrules⟩ := h.rules
  cases hstep
  rcases Live.runToolCall_gate (O := O) (A := A) (d := d) tc hgate with
    ⟨hexec, req, gate'', hgate'', hsame, -⟩ | ⟨happroved, hexec, hgate''⟩
  · refine ⟨⟨gate'', hgate'', hrules.trans hsame⟩, hexec.symm ▸ h.executed, ?_⟩
    intro tc' req' hmem
    rcases List.mem_append.mp hmem with hmem | hmem
    · exact h.called tc' req' hmem
    · simp [hexec] at hmem
  · rw [hrules.check] at happroved
    refine ⟨⟨gate', hgate'', hrules⟩, ?_, ?_⟩
    · intro call hcall
      rw [hexec, List.mem_append] at hcall
      rcases hcall with hcall | hcall
      · exact h.executed call hcall
      · rw [List.mem_singleton.mp hcall]
        exact happroved
    · intro tc' req' hmem
      rcases List.mem_append.mp hmem with hmem | hmem
      · exact h.called tc' req' hmem
      · simp only [List.mem_singleton, ApprovalEvent.tool.injEq] at hmem
        obtain ⟨rfl, -, -⟩ := hmem
        exact happroved

theorem RulesKept.step (h : RulesKept gate tr s) (hstep : s.ApprovalStep O A e s') :
    RulesKept gate (tr ++ [e]) s' := by
  obtain ⟨move, hnext⟩ := hstep
  have hother : ∀ (R : Type) (r : R) tc req, (fun _ : R => ApprovalEvent.other) r ≠
      .tool tc req true := by
    rintro R r tc req ⟨⟩
  cases move with
  | tool tc d => exact h.tool hnext
  | work s' =>
      obtain ⟨⟨hgate, hexec⟩, hnext⟩ := Option.ite_none_right_eq_some.mp hnext
      cases hnext
      refine ⟨hgate.symm ▸ h.rules, hexec.symm ▸ h.executed, ?_⟩
      intro tc req hmem
      rcases List.mem_append.mp hmem with hmem | hmem
      · exact h.called tc req hmem
      · cases List.mem_singleton.mp hmem
  | approve id nowMs =>
      exact h.useGate (fun g => g.sameRules_resolve ..) (by rintro _ _ _ ⟨⟩) hnext
  | deny id nowMs =>
      exact h.useGate (fun g => g.sameRules_resolve ..) (by rintro _ _ _ ⟨⟩) hnext
  | resolve id decision resolvedBy nowMs =>
      exact h.useGate (fun g => g.sameRules_resolve ..) (by rintro _ _ _ ⟨⟩) hnext
  | getRequest id nowMs => exact h.useGate (fun _ => ⟨rfl, rfl⟩) (hother _) hnext
  | listRequests nowMs => exact h.useGate (fun _ => ⟨rfl, rfl⟩) (hother _) hnext
  | pendingRequests nowMs => exact h.useGate (fun _ => ⟨rfl, rfl⟩) (hother _) hnext

theorem rulesKept_of_runs {w : W} {file : Option String}
    (run : Runs (Live.ApprovalStep O A) (Live.new (some gate) (w, []) file) tr s) :
    RulesKept gate tr s := by
  refine run.invariant ⟨⟨gate, rfl, rfl, rfl⟩, ?_, ?_⟩ fun _ h hstep => h.step hstep
  · rintro call ⟨⟩
  · rintro tc req ⟨⟩

theorem check_eq_pending {toolName : String} (h : RequiresApproval gate toolName) :
    gate.check toolName = .pending := by
  obtain ⟨hdeny, hauto, hrequire⟩ := h
  rw [ApprovalGate.check, if_neg hdeny, if_neg hauto, if_pos hrequire]

/-- What the gate lets through, over every run: nothing that is denied and nothing that
requires an approval, so approvals are exact just as long as no granted call is made. -/
theorem approvals_exact_iff {policy : ApprovalPolicy} {auto : Bool} {w : W}
    {file : Option String} (run : Runs (Live.ApprovalStep O A)
      (Live.new (some (.ofPolicy policy auto)) (w, []) file) tr s) :
    (∀ call ∈ s.executed, call.name ∉ policy.deny ∧
      ¬ RequiresApproval (.ofPolicy policy auto) call.name) ∧
    (Exact (.ofPolicy policy auto) tr ↔ NoGrantedCall (.ofPolicy policy auto) tr) := by
  have hkept := rulesKept_of_runs run
  have hrefused {before after : List ApprovalEvent} {tc : ToolCall} {req : Option ApprovalRequest}
      {executed : Bool} (heq : tr = before ++ .tool tc req executed :: after)
      (hrequires : RequiresApproval (.ofPolicy policy auto) tc.function.name) :
      executed = false := by
    cases executed with
    | false => rfl
    | true =>
        have happroved := hkept.called tc req (by simp [heq])
        rw [check_eq_pending hrequires] at happroved
        cases happroved
  refine ⟨?_, ?_, ?_⟩
  · intro call hcall
    have happroved := hkept.executed call hcall
    constructor
    · intro hdeny
      rw [ApprovalGate.check, ApprovalGate.ofPolicy_policy, if_pos hdeny] at happroved
      cases happroved
    · intro hrequires
      rw [check_eq_pending hrequires] at happroved
      cases happroved
  · intro hexact before tc req executed after heq hrequires hgranted
    have htrue := (hexact before tc req executed after heq hrequires).mpr hgranted
    rw [hrefused heq hrequires] at htrue
    cases htrue
  · intro hnone before tc req executed after heq hrequires
    rw [hrefused heq hrequires]
    exact iff_of_false Bool.false_ne_true (hnone _ _ _ _ _ heq hrequires)

theorem noGrantedCall_of_not_approved
    (h : ∀ id nowMs, .resolved id .approved nowMs true ∉ tr) : NoGrantedCall gate tr := by
  rintro before tc req executed after rfl - ⟨_, req', _, nowMs, _, _, rfl, -⟩
  exact h req'.id nowMs (by simp)

/-! ## §4  A whole run of the agent

Between its tool calls `run_with_tools` leaves the gate and the executor alone, so it is
one of the runs above. -/

namespace Live

variable {r : ChatRequest}

theorem recordUsage_kept (s : Live (Watched W)) (usage : Option Usage) :
    s.Kept (s.recordUsage usage) := by
  unfold recordUsage
  split <;> exact ⟨rfl, rfl⟩

theorem chatAttempts_kept (maxRetries : ℤ) : ∀ (n : ℕ) (lastErr : String)
    (s : Live (Watched W)), s.Kept (s.chatAttempts (watch O) r maxRetries n lastErr).2
  | 0, _, _ => ⟨rfl, rfl⟩
  | n + 1, lastErr, s => by
      have hsent : s.Kept (s.chat (watch O) r).2 := ⟨rfl, rfl⟩
      refine hsent.trans ?_
      rw [chatAttempts]
      rcases s.chat (watch O) r with ⟨resp, s'⟩
      cases resp with
      | ok response => exact recordUsage_kept s' response.usage
      | error e =>
          simp only
          split
          · exact ⟨rfl, rfl⟩
          · exact ⟨rfl, rfl⟩
          · split
            · exact chatAttempts_kept maxRetries n e.text s'
            · exact ⟨rfl, rfl⟩

theorem summaryAttempts_kept : ∀ (n : ℕ) (s : Live (Watched W)),
    s.Kept (s.summaryAttempts (watch O) r n).2
  | 0, _ => ⟨rfl, rfl⟩
  | n + 1, s => by
      have hsent : s.Kept (s.chat (watch O) r).2 := ⟨rfl, rfl⟩
      refine hsent.trans ?_
      rw [summaryAttempts]
      rcases s.chat (watch O) r with ⟨resp, s'⟩
      cases resp with
      | ok response => exact ⟨rfl, rfl⟩
      | error e => exact summaryAttempts_kept n s'

theorem tryCompact_kept (s : Live (Watched W)) : s.Kept (s.tryCompact (watch O) A) := by
  unfold tryCompact
  split
  · exact ⟨rfl, rfl⟩
  · rename_i cfg _
    simp only
    split
    · generalize summaryRequest A _ = request
      have hsum := summaryAttempts_kept (O := O) (r := request) cfg.retryAttempts s
      split
      · rename_i s' heq
        rw [heq] at hsum
        exact hsum
      · rename_i summaryText s' heq
        rw [heq] at hsum
        refine hsum.trans ?_
        split <;> exact ⟨rfl, rfl⟩
    · exact ⟨rfl, rfl⟩

theorem guardContext_kept (s : Live (Watched W)) : s.Kept (s.guardContext (watch O) A) := by
  unfold guardContext
  split
  · exact ⟨rfl, rfl⟩
  · split <;> exact ⟨rfl, rfl⟩

theorem autoRecall_kept (s : Live (Watched W)) (input : String) :
    s.Kept (s.autoRecall (watch O) A input) := by
  unfold autoRecall
  split
  · exact ⟨rfl, rfl⟩
  · split
    · simp only
      split <;> exact ⟨rfl, rfl⟩
    · exact ⟨rfl, rfl⟩

/-- Reached by steps that are tool calls, work and uses of the gate. -/
def Reaches (O : Outside W) (A : AgentSetup) (s s' : Live (Watched W)) : Prop :=
  ∃ tr, Runs (ApprovalStep O A) s tr s'

theorem Reaches.trans {s s' s'' : Live (Watched W)} (h : Reaches O A s s')
    (h' : Reaches O A s' s'') : Reaches O A s s'' := by
  obtain ⟨tr, run⟩ := h
  obtain ⟨tr', run'⟩ := h'
  exact ⟨tr ++ tr', run.append run'⟩

theorem Kept.reaches {s s' : Live (Watched W)} (h : s.Kept s') : Reaches O A s s' :=
  ⟨_, .single ⟨.work s', if_pos h⟩⟩

theorem runToolCalls_reaches : ∀ (tcs : List ToolCall) (d : LoopDetector)
    (s : Live (Watched W)), Reaches O A s (s.runToolCalls (watch O) A tcs d).2
  | [], _, _ => ⟨[], .nil⟩
  | tc :: tcs, d, s => by
      have hcall : Reaches O A s (s.runToolCall (watch O) A tc d).2 :=
        ⟨_, .single ⟨.tool tc d, rfl⟩⟩
      refine hcall.trans ?_
      rw [runToolCalls]
      rcases s.runToolCall (watch O) A tc d with ⟨result, s'⟩
      cases result with
      | error e => exact ⟨[], .nil⟩
      | ok d' => exact runToolCalls_reaches tcs d' s'

theorem toolLoop_reaches (tools : List Tool) (maxIterations : ℕ) : ∀ (n overflowAttempts : ℕ)
    (d : LoopDetector) (s : Live (Watched W)),
      Reaches O A s (s.toolLoop (watch O) A tools maxIterations n overflowAttempts d).2
  | 0, _, _, s => (setState_kept s _).reaches
  | n + 1, overflowAttempts, d, s => by
      have hprep : s.Kept (((s.setState .waitingForResponse).tryCompact (watch O) A).guardContext
          (watch O) A) :=
        (tryCompact_kept (O := O) (A := A) (s.setState .waitingForResponse)).trans
          (guardContext_kept _)
      refine hprep.reaches.trans ?_
      rw [toolLoop]
      generalize ((s.setState .waitingForResponse).tryCompact (watch O) A).guardContext
        (watch O) A = s₁
      simp only
      have hsent : s₁.Kept
          (s₁.chatWithRetry (watch O) A (buildRequest A (some tools) s₁.tape.history)).2 :=
        chatAttempts_kept _ _ _ _
      refine hsent.reaches.trans ?_
      rcases s₁.chatWithRetry (watch O) A (buildRequest A (some tools) s₁.tape.history) with
        ⟨resp, s₂⟩
      cases resp with
      | error e =>
          cases e with
          | contextOverflow msg =>
              simp only
              split
              · have hcut : s₂.Kept { s₂ with
                    tape := s₂.tape.rewrite (truncateHistoryToolResults s₂.tape.history) } :=
                  ⟨rfl, rfl⟩
                exact hcut.reaches.trans (toolLoop_reaches tools maxIterations n _ d _)
              · exact (setState_kept s₂ _).reaches
          | _ => exact (setState_kept s₂ _).reaches
      | ok response =>
          simp only
          cases response.choices with
          | nil => exact ⟨[], .nil⟩
          | cons choice _ =>
              simp only
              refine (record_kept (O := O) (A := A) s₂
                (assistantMessage choice.content choice.toolCalls)).reaches.trans ?_
              generalize s₂.record (watch O) A _ = s₃
              cases choice.toolCalls with
              | none => exact (setState_kept s₃ _).reaches
              | some tcs =>
                  cases tcs with
                  | nil => exact (setState_kept s₃ _).reaches
                  | cons tc tcs =>
                      simp only
                      refine (runToolCalls_reaches (tc :: tcs) d s₃).trans ?_
                      rcases s₃.runToolCalls (watch O) A (tc :: tcs) d with ⟨result, s₄⟩
                      cases result with
                      | error e => exact ⟨[], .nil⟩
                      | ok d' => exact toolLoop_reaches tools maxIterations n _ d' s₄

/-- What `run_with_tools` does is a run of tool calls and other work. -/
theorem runWithTools_reaches (s : Live (Watched W)) (input : String) :
    Reaches O A s (s.runWithTools (watch O) A input).2 := by
  have hinput : s.Kept ((s.setState .running).record (watch O) A (plainMessage .user input)) :=
    record_kept (s.setState .running) _
  refine (hinput.trans (autoRecall_kept (O := O) (A := A) _ input)).reaches.trans ?_
  exact toolLoop_reaches _ _ _ _ _ _

end Live

/-! ## §5  An approval that has no effect -/

def listFiles : ToolCall := ⟨"call_0", "function", ⟨"bash", "ls"⟩⟩

/-- A command is asked for, approved a second later, and asked for again. -/
def approvedCommand : List (Move ℕ) :=
  [.tool listFiles .new, .approve "request" 1000, .tool listFiles .new]

/-- A command is asked for, denied, and asked for again. -/
def deniedCommand : List (Move ℕ) :=
  [.tool listFiles .new, .listRequests 500, .deny "request" 1000, .tool listFiles .new]

/-- The request of the command, and the command refused. -/
def askedFor : ApprovalEvent :=
  .tool listFiles (some ⟨"request", "bash", "ls", .pending, 0, none, none⟩) false

theorem listFiles_requires :
    RequiresApproval (.ofPolicy .default false) listFiles.function.name := by
  refine ⟨?_, ?_, ?_⟩ <;> decide

theorem granted_approve :
    Granted [askedFor, .resolved "request" .approved 1000 true] listFiles := by
  refine ⟨listFiles, ⟨"request", "bash", "ls", .pending, 0, none, none⟩, false, 1000,
    [askedFor], [], rfl, List.mem_singleton_self _, rfl, by decide, ?_⟩
  rintro nowMs' ⟨⟩

/-- The approved command is refused, and asked for again. -/
theorem approved_command_refused :
    ∃ tr s, Runs (Live.ApprovalStep (askOnce []) plainSetup)
        (Live.new (some (.ofPolicy .default false)) (0, []) none) tr s ∧
      ¬ Exact (.ofPolicy .default false) tr ∧ s.executed = [] := by
  have run : Runs (Live.ApprovalStep (askOnce []) plainSetup)
      (Live.new (some (.ofPolicy .default false)) (0, []) none) _ _ :=
    runs_of_exec_isSome approvedCommand (by decide)
  refine ⟨_, _, run, ?_, by decide⟩
  intro hexact
  have hcall := hexact [askedFor, .resolved "request" .approved 1000 true] listFiles
    (some ⟨"request", "bash", "ls", .pending, 0, none, none⟩) false [] (by decide)
    listFiles_requires
  cases hcall.mpr granted_approve

/-- The denied command is refused both times, as it has to be. -/
theorem denied_command_exact :
    ∃ tr s, Runs (Live.ApprovalStep (askOnce []) plainSetup)
        (Live.new (some (.ofPolicy .default false)) (0, []) none) tr s ∧
      tr = [askedFor, .other, .resolved "request" .denied 1000 true, askedFor] ∧
      Exact (.ofPolicy .default false) tr := by
  have htr : (exec (Live.nextApproval (askOnce []) plainSetup)
        (Live.new (some (.ofPolicy .default false)) (0, []) none) deniedCommand).map Prod.fst =
      some [askedFor, .other, .resolved "request" .denied 1000 true, askedFor] := by
    decide
  obtain ⟨⟨tr, s⟩, hexec, rfl⟩ := Option.map_eq_some_iff.mp htr
  have run := runs_of_exec hexec
  refine ⟨_, s, run, rfl, (approvals_exact_iff run).2.mpr (noGrantedCall_of_not_approved ?_)⟩
  intro id nowMs
  simp [askedFor]

end Oclaw.AgentCore
