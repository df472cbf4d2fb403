import Oclaw.AgentCore.AgentSteps
import Oclaw.AgentCore.LoopStreaks

/-!
# Runs that repeat one call

The loop detector inside `run_with_tools`. What a run issued can be read off its log: a call
is answered, which adds a tool message, or it is the one at which the detector stops the run.
-/

namespace Oclaw.AgentCore

open Oclaw.Lib Oclaw.ToolsCore LoopDetector

variable {W : Type} {O : Outside W} {A : AgentSetup}

/-! ## §1  One call with one result -/

/-- The events that end the treatment of a call: its answer, or the stop. -/
def AgentEvent.isIssue : AgentEvent → Bool
  | .push m => m.isTool
  | .flagged _ .critical => true
  | _ => false

def issues (events : List AgentEvent) : ℕ := events.countP AgentEvent.isIssue

/-- The model asks for one call only, no call is refused, and every result is the same. -/
structure KeepsIssuing (f : ToolCallFunction) (content : String) (events : List AgentEvent) :
    Prop where
  calls : ∀ m, AgentEvent.push m ∈ events → ∀ tcs, m.toolCalls = some tcs →
    ∀ tc ∈ tcs, tc.function = f
  executed : ∀ tc decision, AgentEvent.refused tc decision ∉ events
  results : ∀ m, AgentEvent.push m ∈ events → m.isTool = true → m.content = content

variable {f : ToolCallFunction} {content : String} {events events' : List AgentEvent}

theorem KeepsIssuing.of_append (h : KeepsIssuing f content (events ++ events')) :
    KeepsIssuing f content events ∧ KeepsIssuing f content events' := by
  constructor
  · exact ⟨fun m hm => h.calls m (List.mem_append_left _ hm),
      fun tc decision hm => h.executed tc decision (List.mem_append_left _ hm),
      fun m hm => h.results m (List.mem_append_left _ hm)⟩
  · exact ⟨fun m hm => h.calls m (List.mem_append_right _ hm),
      fun tc decision hm => h.executed tc decision (List.mem_append_right _ hm),
      fun m hm => h.results m (List.mem_append_right _ hm)⟩

theorem issues_append (events events' : List AgentEvent) :
    issues (events ++ events') = issues events + issues events' := List.countP_append

/-- The detector after `n` rounds of one call with one result. -/
def looped (hashStr : String → UInt64) (f : ToolCallFunction) (content : String) (n : ℕ) :
    LoopDetector :=
  ⟨List.replicate n ⟨f.name, signature hashStr f.name f.arguments, some (hashStr content)⟩,
    historySizeLimit⟩

variable {hashStr : String → UInt64} {n : ℕ}

theorem looped_succ (hn : n < historySizeLimit) :
    ((looped hashStr f content n).record hashStr f.name f.arguments).recordOutcome hashStr
      content = looped hashStr f content (n + 1) := by
  have hfits : ¬ historySizeLimit < n + 1 := Nat.not_lt.mpr hn
  simp [looped, record, recordOutcome, hfits, List.replicate_succ']

/-- Thirty rounds are critical. -/
theorem detect_looped :
    ((looped hashStr f content historySizeLimit).detect hashStr f.name f.arguments).level =
      .critical := by
  rw [detect_critical_iff]
  left
  obtain ⟨s, hmax, hlen⟩ := noProgressStreak_maximal
    (looped hashStr f content historySizeLimit) f.name (signature hashStr f.name f.arguments)
  have hall := hmax.longest _ (List.suffix_refl _)
    ⟨hashStr content, fun rec hrec => by
      rw [List.eq_of_mem_replicate hrec]
      exact ⟨rfl, rfl, rfl⟩⟩
  rw [← hlen]
  refine Nat.le_trans ?_ hall
  rw [looped, List.length_replicate]
  unfold criticalStreak
  split <;> decide

/-! ## §2  What does not issue calls -/

namespace Live

/-- The log has grown, but not by a call. -/
def Quiet (s s' : Live W) : Prop :=
  ∃ events, s'.tape.log = s.tape.log ++ events ∧ issues events = 0

theorem Quiet.of_eq {s s' : Live W} (h : s'.tape.log = s.tape.log) : Quiet s s' :=
  ⟨[], by rw [h, List.append_nil], rfl⟩

theorem Quiet.trans {s s' s'' : Live W} (h : Quiet s s') (h' : Quiet s' s'') : Quiet s s'' := by
  obtain ⟨events, hlog, hissues⟩ := h
  obtain ⟨events', hlog', hissues'⟩ := h'
  refine ⟨events ++ events', ?_, ?_⟩
  · rw [hlog', hlog, List.append_assoc]
  · rw [issues_append, hissues, hissues']

theorem record_quiet (s : Live W) {m : ChatMessage} (hm : m.isTool = false) :
    Quiet s (s.record O A m) := by
  rcases @record_log W O A s m with hlog | hlog
  · exact ⟨_, hlog, by simp [issues, AgentEvent.isIssue, hm]⟩
  · exact ⟨_, hlog, by simp [issues, AgentEvent.isIssue, hm]⟩

theorem recordUsage_quiet (s : Live W) (usage : Option Usage) :
    Quiet s (s.recordUsage usage) := by
  unfold recordUsage
  split <;> exact Quiet.of_eq rfl

theorem chat_quiet (s : Live W) (r : ChatRequest) : Quiet s (s.chat O r).2 :=
  ⟨[.request r], rfl, rfl⟩

variable {r : ChatRequest}

theorem chatAttempts_quiet (maxRetries : ℤ) : ∀ (n : ℕ) (lastErr : String) (s : Live W),
    Quiet s (s.chatAttempts O r maxRetries n lastErr).2
  | 0, _, _ => Quiet.of_eq rfl
  | n + 1, lastErr, s => by
      have hsent := @chat_quiet W O s r
      apply hsent.trans
      rw [chatAttempts]
      rcases s.chat O r with ⟨resp, s'⟩
      cases resp with
      | ok response => exact recordUsage_quiet s' response.usage
      | error e =>
          simp only
          split
          · exact Quiet.of_eq rfl
          · exact Quiet.of_eq rfl
          · split
            · exact chatAttempts_quiet maxRetries n e.text s'
            · exact Quiet.of_eq rfl

theorem summaryAttempts_quiet : ∀ (n : ℕ) (s : Live W), Quiet s (s.summaryAttempts O r n).2
  | 0, _ => Quiet.of_eq rfl
  | n + 1, s => by
      have hsent := @chat_quiet W O s r
      apply hsent.trans
      rw [summaryAttempts]
      rcases s.chat O r with ⟨resp, s'⟩
      cases resp with
      | ok response => exact Quiet.of_eq rfl
      | error e => exact summaryAttempts_quiet n s'

theorem tryCompact_quiet (s : Live W) : Quiet s (s.tryCompact O A) := by
  unfold tryCompact
  split
  · exact Quiet.of_eq rfl
  · rename_i cfg _
    simp only
    split
    · generalize summaryRequest A _ = request
      have hsum := summaryAttempts_quiet (O := O) (r := request) cfg.retryAttempts s
      split
      · rename_i s' heq
        rw [heq] at hsum
        exact hsum
      · rename_i summaryText s' heq
        rw [heq] at hsum
        apply hsum.trans
        split <;> exact ⟨[.compacted], rfl, rfl⟩
    · exact Quiet.of_eq rfl

theorem guardContext_quiet (s : Live W) : Quiet s (s.guardContext O A) := by
  unfold guardContext
  split
  · exact Quiet.of_eq rfl
  · split
    · exact ⟨[.truncated], rfl, rfl⟩
    · exact Quiet.of_eq rfl

theorem autoRecall_quiet (s : Live W) (input : String) : Quiet s (s.autoRecall O A input) := by
  unfold autoRecall
  split
  · exact Quiet.of_eq rfl
  · split
    · simp only
      split
      · rename_i m hm
        refine ⟨[.push m], rfl, ?_⟩
        unfold formatRecallContext at hm
        split at hm
        · cases hm
        · cases hm
          rfl
      · exact Quiet.of_eq rfl
    · exact Quiet.of_eq rfl

/-! ## §3  Calls, one after the other -/

variable {tc : ToolCall} {s : Live W} {k : ℕ}

/-- An executed call is one issue, and its content is what the detector hears. -/
theorem executeTool_issue (s : Live W) (tc : ToolCall) (d : LoopDetector) :
    ∃ text events,
      (s.executeTool O A tc d).1 = d.recordOutcome O.hashStr text ∧
      (s.executeTool O A tc d).2.tape.log = s.tape.log ++ events ∧ issues events = 1 ∧
      .push (toolResult tc text) ∈ events := by
  have hrecord : ∀ (text : String) (w : W), ∃ events,
      (({ s with world := w } : Live W).record O A (toolResult tc text)).tape.log =
        s.tape.log ++ events ∧ issues events = 1 ∧ .push (toolResult tc text) ∈ events := by
    intro text w
    rcases @record_log W O A { s with world := w } (toolResult tc text) with hlog | hlog
    · exact ⟨_, hlog, rfl, by simp⟩
    · exact ⟨_, hlog, rfl, by simp⟩
  unfold executeTool
  rcases O.execute tc.function.name tc.function.arguments s.world with ⟨result, w⟩
  cases result with
  | ok output =>
      obtain ⟨events, hevents⟩ := hrecord (truncateToolResult output maxToolChars) w
      exact ⟨_, events, rfl, hevents⟩
  | error err =>
      obtain ⟨events, hevents⟩ := hrecord ("Error: " ++ err) w
      exact ⟨_, events, rfl, hevents⟩

/-- A call that is answered is one issue; where nothing is refused, it was executed. -/
theorem answerCall_issue (s : Live W) (tc : ToolCall) (d : LoopDetector) :
    ∃ events, (s.answerCall O A tc d).2.tape.log = s.tape.log ++ events ∧ issues events = 1 ∧
      (KeepsIssuing f content events →
        (s.answerCall O A tc d).1 = d.recordOutcome O.hashStr content) := by
  have hexecute : ∃ events, (s.executeTool O A tc d).2.tape.log = s.tape.log ++ events ∧
      issues events = 1 ∧ (KeepsIssuing f content events →
        (s.executeTool O A tc d).1 = d.recordOutcome O.hashStr content) := by
    obtain ⟨text, events, hd, hlog, hissues, hpush⟩ := @executeTool_issue W O A s tc d
    refine ⟨events, hlog, hissues, fun hone => ?_⟩
    have htext : text = content := hone.results _ hpush rfl
    rw [hd, htext]
  have hrefuse : ∀ (decision : ApprovalDecision) (text : String), ∃ events,
      (s.tape.log ++ [.refused tc decision]) ++ [.push (toolResult tc text)] =
        s.tape.log ++ events ∧
      issues events = 1 ∧
      (KeepsIssuing f content events → d = d.recordOutcome O.hashStr content) := by
    intro decision text
    refine ⟨[.refused tc decision, .push (toolResult tc text)], ?_, rfl, fun hone => ?_⟩
    · rw [List.append_assoc]
      rfl
    · exact absurd List.mem_cons_self (hone.executed tc decision)
  unfold answerCall
  split
  · exact hexecute
  · split
    · exact hrefuse .denied _
    · exact hrefuse .pending _
    · exact hexecute

/-- What becomes of a run that had issued the same call `k` times. -/
def Issued (hashStr : String → UInt64) (f : ToolCallFunction) (content : String) (k : ℕ)
    (events : List AgentEvent) (result : Except AgentError LoopDetector) : Prop :=
  match result with
  | .ok d => d = looped hashStr f content (k + issues events) ∧
      k + issues events ≤ historySizeLimit
  | .error e => (∃ msg, e = .executionError msg) ∧ k + issues events ≤ historySizeLimit + 1

/-- An answer without a stop is the next round. -/
theorem answerCall_round (s : Live W) (tc : ToolCall) (d : LoopDetector)
    (before : List AgentEvent) (hbefore : issues before = 0)
    (hlevel : (d.detect O.hashStr tc.function.name tc.function.arguments).level ≠ .critical) :
    ∃ events, (s.answerCall O A tc (d.record O.hashStr tc.function.name
        tc.function.arguments)).2.tape.log = s.tape.log ++ events ∧
      ∀ k, d = looped O.hashStr f content k → tc.function = f → k ≤ historySizeLimit →
        KeepsIssuing f content (before ++ events) →
        Issued O.hashStr f content k (before ++ events)
          (.ok (s.answerCall O A tc (d.record O.hashStr tc.function.name
            tc.function.arguments)).1) := by
  obtain ⟨events, hlog, hissues, hd⟩ := @answerCall_issue W O A f content s tc
    (d.record O.hashStr tc.function.name tc.function.arguments)
  refine ⟨events, hlog, ?_⟩
  rintro k rfl rfl hk hone
  have hlt : k < historySizeLimit := by
    apply Nat.lt_of_le_of_ne hk
    rintro rfl
    exact hlevel detect_looped
  have hcount : k + issues (before ++ events) = k + 1 := by
    rw [issues_append, hbefore, hissues]
  refine ⟨?_, ?_⟩
  · rw [hd hone.of_append.2, hcount]
    exact looped_succ hlt
  · rw [hcount]
    exact hlt

theorem runToolCall_issue (s : Live W) (tc : ToolCall) (d : LoopDetector) :
    ∃ events, (s.runToolCall O A tc d).2.tape.log = s.tape.log ++ events ∧
      ∀ k, d = looped O.hashStr f content k → tc.function = f → k ≤ historySizeLimit →
        KeepsIssuing f content events →
        Issued O.hashStr f content k events (s.runToolCall O A tc d).1 := by
  unfold runToolCall
  simp only
  cases hlevel : (d.detect O.hashStr tc.function.name tc.function.arguments).level with
  | critical =>
      refine ⟨[.flagged tc .critical], rfl, fun k _ _ hk _ => ⟨⟨_, rfl⟩, ?_⟩⟩
      exact Nat.succ_le_succ hk
  | none =>
      exact answerCall_round s tc d [] rfl (by rw [hlevel]; simp)
  | warning =>
      simp only
      cases hmsg : (d.detect O.hashStr tc.function.name tc.function.arguments).message with
      | none =>
          obtain ⟨events, hlog, hissued⟩ := @answerCall_round W O A f content
            { s with tape := s.tape.emit (.flagged tc .warning) } tc d [.flagged tc .warning]
            rfl (by rw [hlevel]; simp)
          refine ⟨[.flagged tc .warning] ++ events, ?_, hissued⟩
          rw [← List.append_assoc]
          exact hlog
      | some msg =>
          obtain ⟨events, hlog, hissued⟩ := @answerCall_round W O A f content
            (({ s with tape := s.tape.emit (.flagged tc .warning) } : Live W).push
              (loopWarning msg)) tc d [.flagged tc .warning, .push (loopWarning msg)] rfl
            (by rw [hlevel]; simp)
          refine ⟨[.flagged tc .warning, .push (loopWarning msg)] ++ events, ?_, hissued⟩
          have hbefore : s.tape.log ++ [.flagged tc .warning, .push (loopWarning msg)] =
              (s.tape.log ++ [.flagged tc .warning]) ++ [.push (loopWarning msg)] := by
            rw [List.append_assoc]
            rfl
          rw [← List.append_assoc, hbefore]
          exact hlog

theorem runToolCalls_issue : ∀ (tcs : List ToolCall) (d : LoopDetector) (s : Live W),
    ∃ events, (s.runToolCalls O A tcs d).2.tape.log = s.tape.log ++ events ∧
      ∀ k, d = looped O.hashStr f content k → (∀ tc ∈ tcs, tc.function = f) →
        k ≤ historySizeLimit → KeepsIssuing f content events →
        Issued O.hashStr f content k events (s.runToolCalls O A tcs d).1
  | [], d, s => ⟨[], (List.append_nil _).symm, fun k hd _ hk _ => ⟨hd, hk⟩⟩
  | tc :: tcs, d, s => by
      obtain ⟨events, hlog, hissued⟩ := @runToolCall_issue W O A f content s tc d
      rw [runToolCalls]
      rcases hcall : s.runToolCall O A tc d with ⟨result, s'⟩
      rw [hcall] at hlog hissued
      cases result with
      | error e =>
          refine ⟨events, hlog, fun k hd hall hk hone => ?_⟩
          exact hissued k hd (hall tc List.mem_cons_self) hk hone
      | ok d' =>
          obtain ⟨events', hlog', hissued'⟩ := runToolCalls_issue tcs d' s'
          refine ⟨events ++ events', ?_, fun k hd hall hk hone => ?_⟩
          · show (s'.runToolCalls O A tcs d').2.tape.log = _
            rw [hlog', hlog, List.append_assoc]
          · obtain ⟨htc, htcs⟩ := List.forall_mem_cons.mp hall
            obtain ⟨hd', hk'⟩ := hissued k hd htc hk hone.of_append.1
            have hrest := hissued' _ hd' htcs hk' hone.of_append.2
            unfold Issued at hrest ⊢
            rw [issues_append, ← Nat.add_assoc]
            exact hrest

/-! ## §4  Runs -/

/-- What becomes of a run: no call after the thirty-first, and that one ends it. -/
def Stopped (k : ℕ) (events : List AgentEvent) (result : Except AgentError String) : Prop :=
  k + issues events ≤ historySizeLimit + 1 ∧
    (k + issues events = historySizeLimit + 1 → ∃ msg, result = .error (.executionError msg))

/-- Quiet work in front of a run changes nothing. -/
theorem Quiet.before {s s' s'' : Live W} (h : Quiet s s')
    {result : Except AgentError String} {C : ℕ → Prop}
    (hrest : ∃ events, s''.tape.log = s'.tape.log ++ events ∧
      ∀ k, C k → KeepsIssuing f content events → Stopped k events result) :
    ∃ events, s''.tape.log = s.tape.log ++ events ∧
      ∀ k, C k → KeepsIssuing f content events → Stopped k events result := by
  obtain ⟨before, hlog, hquiet⟩ := h
  obtain ⟨events, hlog', hstopped⟩ := hrest
  refine ⟨before ++ events, ?_, fun k hC hone => ?_⟩
  · rw [hlog', hlog, List.append_assoc]
  · have hstop := hstopped k hC hone.of_append.2
    unfold Stopped
    rw [issues_append, hquiet, Nat.zero_add]
    exact hstop

/-- A run that ends without another call. -/
theorem Quiet.ends {s s' : Live W} (h : Quiet s s') (result : Except AgentError String)
    {C : ℕ → Prop} (hC : ∀ k, C k → k ≤ historySizeLimit) :
    ∃ events, s'.tape.log = s.tape.log ++ events ∧
      ∀ k, C k → KeepsIssuing f content events → Stopped k events result := by
  obtain ⟨events, hlog, hquiet⟩ := h
  refine ⟨events, hlog, fun k hk _ => ?_⟩
  have hle := hC k hk
  unfold Stopped
  rw [hquiet]
  omega

/-- A message that is no answer to a call is pushed quietly. -/
theorem record_pushes (s : Live W) {m : ChatMessage} (hm : m.isTool = false) :
    ∃ before, (s.record O A m).tape.log = s.tape.log ++ before ∧ issues before = 0 ∧
      .push m ∈ before := by
  rcases @record_log W O A s m with hlog | hlog
  · exact ⟨_, hlog, by simp [issues, AgentEvent.isIssue, hm], by simp⟩
  · exact ⟨_, hlog, by simp [issues, AgentEvent.isIssue, hm], by simp⟩

/-- **One answer with calls.** Its calls are issued one after the other; an error of theirs
ends the run, and otherwise the loop goes on. -/
theorem answered_stopped {m : ChatMessage} {tcs : List ToolCall} {before : List AgentEvent}
    {s s' : Live W} {d : LoopDetector} {out : Except AgentError String × Live W}
    (hbefore : s'.tape.log = s.tape.log ++ before) (hquiet : issues before = 0)
    (hpush : .push m ∈ before) (hcalls : m.toolCalls = some tcs)
    (herror : ∀ e s'', s'.runToolCalls O A tcs d = (.error e, s'') →
      out.1 = .error e ∧ out.2.tape.log = s''.tape.log)
    (hok : ∀ d' s'', s'.runToolCalls O A tcs d = (.ok d', s'') →
      ∃ rest, out.2.tape.log = s''.tape.log ++ rest ∧
        ∀ k, (d' = looped O.hashStr f content k ∧ k ≤ historySizeLimit) →
          KeepsIssuing f content rest → Stopped k rest out.1) :
    ∃ events, out.2.tape.log = s.tape.log ++ events ∧
      ∀ k, (d = looped O.hashStr f content k ∧ k ≤ historySizeLimit) →
        KeepsIssuing f content events → Stopped k events out.1 := by
  obtain ⟨events, hlog, hissued⟩ := @runToolCalls_issue W O A f content tcs d s'
  rcases hrun : s'.runToolCalls O A tcs d with ⟨result, s''⟩
  rw [hrun] at hlog hissued
  have hround : ∀ rest k, KeepsIssuing f content (before ++ events ++ rest) →
      d = looped O.hashStr f content k → k ≤ historySizeLimit →
      Issued O.hashStr f content k events result := by
    intro rest k hone hd hk
    have hfirst := hone.of_append.1
    refine hissued k hd ?_ hk hfirst.of_append.2
    exact hfirst.of_append.1.calls _ hpush tcs hcalls
  cases result with
  | error e =>
      obtain ⟨hresult, hlog'⟩ := herror e s'' hrun
      refine ⟨before ++ events, ?_, ?_⟩
      · rw [hlog', hlog, hbefore, List.append_assoc]
      · rintro k ⟨hd, hk⟩ hone
        rw [← List.append_nil (before ++ events)] at hone
        obtain ⟨⟨msg, rfl⟩, hle⟩ := hround [] k hone hd hk
        refine ⟨?_, fun _ => ⟨msg, hresult⟩⟩
        rw [issues_append, hquiet, Nat.zero_add]
        exact hle
  | ok d' =>
      obtain ⟨rest, hlog', hstopped⟩ := hok d' s'' hrun
      refine ⟨before ++ events ++ rest, ?_, ?_⟩
      · rw [hlog', hlog, hbefore, List.append_assoc, List.append_assoc, List.append_assoc]
      · rintro k ⟨hd, hk⟩ hone
        have hissued' := hround rest k hone hd hk
        have hstop := hstopped _ hissued' hone.of_append.2
        unfold Stopped at hstop ⊢
        rw [issues_append, issues_append, hquiet, Nat.zero_add, ← Nat.add_assoc]
        exact hstop

theorem toolLoop_stopped (tools : List Tool) (maxIterations : ℕ) :
    ∀ (n overflowAttempts : ℕ) (d : LoopDetector) (s : Live W),
      ∃ events, (s.toolLoop O A tools maxIterations n overflowAttempts d).2.tape.log =
          s.tape.log ++ events ∧
        ∀ k, (d = looped O.hashStr f content k ∧ k ≤ historySizeLimit) →
          KeepsIssuing f content events →
          Stopped k events (s.toolLoop O A tools maxIterations n overflowAttempts d).1
  | 0, _, d, s => (@Quiet.of_eq W s (s.setState .error) rfl).ends _ fun _ h => h.2
  | n + 1, overflowAttempts, d, s => by
      have hprep : Quiet s
          (((s.setState .waitingForResponse).tryCompact O A).guardContext O A) :=
        (tryCompact_quiet (O := O) (A := A) (s.setState .waitingForResponse)).trans
          (guardContext_quiet _)
      apply hprep.before
      rw [toolLoop]
      generalize ((s.setState .waitingForResponse).tryCompact O A).guardContext O A = s₁
      simp only
      have hsent : Quiet s₁
          (s₁.chatWithRetry O A (buildRequest A (some tools) s₁.tape.history)).2 :=
        chatAttempts_quiet _ _ _ _
      rcases hchat : s₁.chatWithRetry O A (buildRequest A (some tools) s₁.tape.history) with
        ⟨resp, s₂⟩
      rw [hchat] at hsent
      apply hsent.before
      cases resp with
      | error e =>
          cases e with
          | contextOverflow msg =>
              simp only
              split
              · have hcut : Quiet s₂ { s₂ with
                    tape := s₂.tape.rewrite (truncateHistoryToolResults s₂.tape.history) } :=
                  ⟨[.truncated], rfl, rfl⟩
                exact hcut.before (toolLoop_stopped tools maxIterations n
                  (overflowAttempts + 1) d _)
              · exact (Quiet.of_eq rfl).ends _ fun _ h => h.2
          | _ => exact (Quiet.of_eq rfl).ends _ fun _ h => h.2
      | ok response =>
          simp only
          cases response.choices with
          | nil => exact (Quiet.of_eq rfl).ends _ fun _ h => h.2
          | cons choice _ =>
              simp only
              -- the answer is pushed, and with it the calls that it asks for
              obtain ⟨before, hbefore, hquiet, hpush⟩ := @record_pushes W O A s₂
                (assistantMessage choice.content choice.toolCalls) rfl
              generalize s₂.record O A (assistantMessage choice.content choice.toolCalls) = s₃
                at hbefore
              have hfinal : Quiet s₂ (s₃.setState .idle) := ⟨before, hbefore, hquiet⟩
              cases hcalls : choice.toolCalls with
              | none => exact hfinal.ends _ fun _ h => h.2
              | some tcs =>
                  cases tcs with
                  | nil => exact hfinal.ends _ fun _ h => h.2
                  | cons tc tcs =>
                      simp only
                      refine answered_stopped (A := A) hbefore hquiet hpush hcalls ?_ ?_
                      · intro e s₄ hrun
                        rw [hrun]
                        exact ⟨rfl, rfl⟩
                      · intro d' s₄ hrun
                        rw [hrun]
                        exact toolLoop_stopped tools maxIterations n overflowAttempts d' s₄

/-- **A run that keeps issuing one call** with one result is stopped at the thirty-first
call at the latest. -/
theorem runWithTools_stopped (s : Live W) (input : String) :
    ∃ events, (s.runWithTools O A input).2.tape.log = s.tape.log ++ events ∧
      (KeepsIssuing f content events → Stopped 0 events (s.runWithTools O A input).1) := by
  have hinput : Quiet s ((s.setState .running).record O A (plainMessage .user input)) :=
    record_quiet (s.setState .running) rfl
  have hrecall := hinput.trans (autoRecall_quiet (O := O) (A := A) _ input)
  obtain ⟨events, hlog, hstopped⟩ := hrecall.before
    (@toolLoop_stopped W O A f content (O.availableTools _) (A.config.maxIterations.getD 32)
      (A.config.maxIterations.getD 32) 0 .new _)
  exact ⟨events, hlog, fun hone => hstopped 0 ⟨rfl, Nat.zero_le _⟩ hone⟩

end Live

/-- **Exactness of the loop detector.** After any calls of `record` and `record_outcome` the
history has at most thirty records, and `detect` is critical for a call exactly when the
longest suffix of records of that call with one result has thirty records (twenty for a
poll), or the longest suffix that alternates between the last signature and the different
current one has nineteen and is settled. A run of the agent that keeps issuing one call with
one result issues it at most thirty-one times, and the thirty-first ends the run with an
error. -/
theorem loop_detector_exact (O : Outside W) (A : AgentSetup) :
    (∀ (hashStr : String → UInt64) (calls : List DetectorCall) (toolName args : String),
      (LoopDetector.run hashStr new calls).history.length ≤ 30 ∧
      (((LoopDetector.run hashStr new calls).detect hashStr toolName args).level = .critical ↔
        (∃ s, MaximalSuffix (NoProgress toolName (signature hashStr toolName args))
            (LoopDetector.run hashStr new calls).history s ∧
          (if isKnownPollTool toolName args then 20 else 30) ≤ s.length) ∨
        PingPong (LoopDetector.run hashStr new calls).history
          (signature hashStr toolName args))) ∧
    ∀ (f : ToolCallFunction) (content input : String) (s : Live W), ∃ events,
      (s.runWithTools O A input).2.tape.log = s.tape.log ++ events ∧
      (KeepsIssuing f content events →
        issues events ≤ 31 ∧
        (issues events = 31 → ∃ msg, (s.runWithTools O A input).1 = .error (.executionError msg)))
    := by
  constructor
  · intro hashStr calls toolName args
    refine ⟨(bounded_run calls).2, ?_⟩
    rw [detect_critical_iff]
    obtain ⟨s, hmax, hlen⟩ := noProgressStreak_maximal (LoopDetector.run hashStr new calls)
      toolName (signature hashStr toolName args)
    rw [← hlen]
    refine or_congr ⟨fun hle => ⟨s, hmax, hle⟩, ?_⟩ Iff.rfl
    rintro ⟨s', hmax', hle⟩
    rw [hmax.unique hmax']
    exact hle
  · intro f content input s
    obtain ⟨events, hlog, hstopped⟩ :=
      @Live.runWithTools_stopped W O A f content s input
    refine ⟨events, hlog, fun hone => ?_⟩
    have hstop := hstopped hone
    unfold Live.Stopped at hstop
    rw [Nat.zero_add] at hstop
    exact hstop

end Oclaw.AgentCore
