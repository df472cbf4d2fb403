import Oclaw.AgentCore.ToolPairing

/-!
# History and transcript side by side

History and transcript are written by separate pushes. Inputs, assistant messages
and executed results go to both; the result of a call that the gate refuses goes to
the history only, and a critical verdict of the loop detector leaves calls without a
result. As long as no call is skipped in one of these ways the transcript mirrors the
history; for a skipped call it has no result at all.
-/

namespace Oclaw.AgentCore

open Oclaw.Lib Oclaw.ToolsCore

variable {W : Type} {O : Outside W} {A : AgentSetup} {log : List AgentEvent}
  {t : Tape} {m : ChatMessage} {loaded : List ChatMessage}

/-! ## §1  What the log says was written -/

/-- The messages the agent pushed to its history. -/
def pushed (log : List AgentEvent) : List ChatMessage :=
  log.filterMap (fun e => match e with
    | .push m => some m
    | _ => none)

/-- The messages the agent appended to its transcript. -/
def persisted (log : List AgentEvent) : List ChatMessage :=
  log.filterMap (fun e => match e with
    | .persist m => some m
    | _ => none)

/-- The calls that were refused or at which the loop detector ended the run. -/
def skippedCalls (log : List AgentEvent) : List ToolCall :=
  log.filterMap (fun e => match e with
    | .refused tc _ => some tc
    | .flagged tc .critical => some tc
    | _ => none)

/-- A text was cut in place. -/
def truncatedTexts (log : List AgentEvent) : Bool :=
  log.any (fun e => match e with
    | .truncated => true
    | _ => false)

/-- Inputs of the user; the warnings of the loop detector carry a name. -/
def ChatMessage.isInput (m : ChatMessage) : Bool := m.role == .user && m.name == none

/-- What a transcript is for. -/
def ChatMessage.isKept (m : ChatMessage) : Bool :=
  m.role == .assistant || m.role == .tool || m.isInput

section Logs

theorem pushed_push : pushed (t.push m).log = pushed t.log ++ [m] := by
  simp [pushed, Tape.push]

theorem persisted_push : persisted (t.push m).log = persisted t.log := by
  simp [persisted, Tape.push]

theorem skippedCalls_push : skippedCalls (t.push m).log = skippedCalls t.log := by
  simp [skippedCalls, Tape.push]

theorem pushed_record (codec : JsonCodec) :
    pushed (t.record codec true m).log = pushed t.log ++ [m] := by
  simp [pushed, Tape.record, Tape.push, Tape.persist]

theorem persisted_record (codec : JsonCodec) :
    persisted (t.record codec true m).log = persisted t.log ++ [m] := by
  simp [persisted, Tape.record, Tape.push, Tape.persist]

theorem skippedCalls_record (codec : JsonCodec) :
    skippedCalls (t.record codec true m).log = skippedCalls t.log := by
  simp [skippedCalls, Tape.record, Tape.push, Tape.persist]

end Logs

/-- All tool calls of a conversation, in order. -/
def allCalls (ms : List ChatMessage) : List ToolCall := ms.flatMap ChatMessage.calls

theorem allCallIds_eq (ms : List ChatMessage) : allCallIds ms = (allCalls ms).map ToolCall.id := by
  simp only [allCallIds, allCalls, List.map_flatMap]
  rfl

theorem allCalls_append (xs ys : List ChatMessage) :
    allCalls (xs ++ ys) = allCalls xs ++ allCalls ys := by
  simp [allCalls]

/-- The calls that are still to be answered. -/
def Phase.calls : Phase → List ToolCall
  | .owing tcs => tcs
  | _ => []

/-! ## §2  The transcript follows the history -/

/-- What transcript and history have in common as long as no call is skipped. -/
structure Mirrored (codec : JsonCodec) (loaded : List ChatMessage) (x : Phase × Tape) :
    Prop where
  file : x.2.file = Transcript.written codec (loaded ++ persisted x.2.log)
  kept : skippedCalls x.2.log = [] →
    persisted x.2.log = (pushed x.2.log).filter ChatMessage.isKept
  owes : skippedCalls x.2.log = [] →
    owed (persisted x.2.log) = some (x.1.calls.map ToolCall.id)

/-- Appends succeed and the agent has a transcript. -/
def Recording (O : Outside W) (A : AgentSetup) : Prop :=
  A.hasTranscript = true ∧ ∀ w, (O.appends w).1 = true

theorem Recording.saved (h : Recording O A) {saved : Bool} (hs : O.MaySave A saved) :
    saved = true := by
  unfold Outside.MaySave at hs
  rw [if_pos h.1] at hs
  obtain ⟨w, rfl⟩ := hs
  exact h.2 w

theorem Mirrored.record {codec : JsonCodec} {phase phase' : Phase}
    (hx : Mirrored codec loaded (phase, t)) (hkept : m.isKept = true)
    (howes : ∀ ks, owed (persisted t.log) = some (phase.calls.map ToolCall.id) →
      ks = phase'.calls.map ToolCall.id → owed (persisted t.log ++ [m]) = some ks) :
    Mirrored codec loaded (phase', t.record codec true m) := by
  refine ⟨?_, ?_, ?_⟩
  · show Transcript.append codec t.file m = _
    rw [persisted_record, show t.file = _ from hx.file, ← List.append_assoc,
      ← Transcript.written_append _ [m]]
    rfl
  · intro hskip
    rw [skippedCalls_record] at hskip
    rw [persisted_record, pushed_record, List.filter_append, ← hx.kept hskip]
    simp [hkept]
  · intro hskip
    rw [skippedCalls_record] at hskip
    rw [persisted_record]
    exact howes _ (hx.owes hskip) rfl

/-- A push that the transcript is not meant to have. -/
theorem Mirrored.push {codec : JsonCodec} {phase : Phase}
    (hx : Mirrored codec loaded (phase, t)) (hkept : m.isKept = false) :
    Mirrored codec loaded (phase, t.push m) := by
  refine ⟨?_, ?_, ?_⟩
  · rw [persisted_push]
    exact hx.file
  · rw [skippedCalls_push, persisted_push, pushed_push, List.filter_append]
    intro hskip
    rw [hx.kept hskip]
    simp [hkept]
  · rw [skippedCalls_push, persisted_push]
    exact hx.owes

/-- Events that write nothing and skip nothing. -/
theorem Mirrored.emit {codec : JsonCodec} {phase : Phase} {log' : List AgentEvent}
    {history : List ChatMessage} (hx : Mirrored codec loaded (phase, t))
    (hpushed : pushed log' = pushed t.log) (hpersisted : persisted log' = persisted t.log)
    (hskipped : skippedCalls log' = skippedCalls t.log) :
    Mirrored codec loaded (phase, ⟨history, t.file, log'⟩) := by
  refine ⟨?_, ?_, ?_⟩
  · rw [hpersisted]
    exact hx.file
  · rw [hpersisted, hpushed, hskipped]
    exact hx.kept
  · rw [hpersisted, hskipped]
    exact hx.owes

theorem skippedCalls_snoc_ne (log : List AgentEvent) (e : AgentEvent) {tc : ToolCall}
    (h : skippedCalls [e] = [tc]) : skippedCalls (log ++ [e]) ≠ [] := by
  unfold skippedCalls at h ⊢
  rw [List.filterMap_append, h]
  simp

theorem mirrored_step (hrec : Recording O A) (hcompact : A.compactionConfig = none)
    {x y : Phase × Tape} (hx : Mirrored O.codec loaded x) (h : AgentStep O A x y) :
    Mirrored O.codec loaded y := by
  cases h with
  | input text saved hs =>
      rw [hrec.saved hs]
      refine hx.record rfl ?_
      rintro ks howes rfl
      exact owed_snoc_entry howes rfl
  | recalled results m hm =>
      obtain ⟨hrole, -⟩ := formatRecallContext_role hm
      apply hx.push
      simp [ChatMessage.isKept, ChatMessage.isInput, hrole]
  | request r hr =>
      apply hx.emit <;> simp [pushed, persisted, skippedCalls]
  | summarize r hcfg =>
      rw [hcompact] at hcfg
      cases hcfg
  | compact history file hcfg =>
      rw [hcompact] at hcfg
      cases hcfg
  | rewrite history hshape =>
      apply hx.emit <;> simp [pushed, persisted, skippedCalls]
  | answer content calls saved hs =>
      rw [hrec.saved hs]
      refine hx.record rfl ?_
      rintro ks howes rfl
      exact owed_snoc_entry howes rfl
  | warn tc tcs msg =>
      apply Mirrored.push
      · apply hx.emit <;> simp [pushed, persisted, skippedCalls]
      · rfl
  | @refuse t tc tcs decision content hcontent =>
      -- the refusal is pushed but not persisted; from here on a call is skipped
      have hskip : skippedCalls ((t.emit (.refused tc decision)).push
          (toolResult tc content)).log ≠ [] := by
        rw [skippedCalls_push]
        exact skippedCalls_snoc_ne t.log (.refused tc decision) rfl
      refine ⟨?_, fun h => absurd h hskip, fun h => absurd h hskip⟩
      rw [persisted_push, show persisted (t.emit (.refused tc decision)).log = persisted t.log by
        simp [persisted, Tape.emit]]
      exact hx.file
  | execute tc tcs content saved hs =>
      rw [hrec.saved hs]
      refine hx.record rfl ?_
      rintro ks howes rfl
      exact owed_snoc_result howes content
  | @abort t tc tcs =>
      have hskip : skippedCalls (t.emit (.flagged tc .critical)).log ≠ [] :=
        skippedCalls_snoc_ne t.log (.flagged tc .critical) rfl
      refine ⟨?_, fun h => absurd h hskip, fun h => absurd h hskip⟩
      rw [show persisted (t.emit (.flagged tc .critical)).log = persisted t.log by
        simp [persisted, Tape.emit]]
      exact hx.file
  | next => exact ⟨hx.file, hx.kept, hx.owes⟩
  | finish => exact ⟨hx.file, hx.kept, hx.owes⟩

/-! ## §3  Skipped calls have no result in the transcript -/

/-- Which calls have been dealt with, and what is known of those that were skipped:
the transcript has no result for them, and a result in the history is a refusal. -/
structure Accounted (x : Phase × Tape) (closed : List ToolCall) : Prop where
  calls : allCalls (persisted x.2.log) = closed ++ x.1.calls
  results : ∀ r ∈ pushed x.2.log ++ persisted x.2.log, r.isTool = true →
    ∃ tc ∈ closed, r.toolCallId = some tc.id
  skips : ∀ tc ∈ skippedCalls x.2.log, tc ∈ closed ∧
    (∀ r ∈ persisted x.2.log, r.isTool = true → r.toolCallId ≠ some tc.id) ∧
    ∀ r ∈ pushed x.2.log, r.isTool = true → r.toolCallId = some tc.id →
      r.content.toList.head? = some 'T'

/-- The tape is accounted for, if its calls have different ids. -/
def CallsAccounted (x : Phase × Tape) : Prop :=
  (allCallIds (persisted x.2.log)).Nodup → ∃ closed, Accounted x closed

/-- Writing messages that are no results. -/
theorem Accounted.entries {phase phase' : Phase} {t' : Tape} {closed : List ToolCall}
    (hx : Accounted (phase, t) closed) {ps qs : List ChatMessage}
    (hpersisted : persisted t'.log = persisted t.log ++ ps)
    (hpushed : pushed t'.log = pushed t.log ++ qs)
    (hskipped : skippedCalls t'.log = skippedCalls t.log)
    (hentries : ∀ m ∈ qs ++ ps, m.isTool = false)
    (hcalls : phase.calls ++ allCalls ps = phase'.calls) : Accounted (phase', t') closed := by
  have hqs : ∀ r : ChatMessage, r.isTool = true → r ∈ pushed t'.log → r ∈ pushed t.log := by
    intro r htool hr
    rw [hpushed] at hr
    rcases List.mem_append.mp hr with hr | hr
    · exact hr
    · rw [hentries r (List.mem_append_left _ hr)] at htool
      cases htool
  have hps : ∀ r : ChatMessage, r.isTool = true → r ∈ persisted t'.log →
      r ∈ persisted t.log := by
    intro r htool hr
    rw [hpersisted] at hr
    rcases List.mem_append.mp hr with hr | hr
    · exact hr
    · rw [hentries r (List.mem_append_right _ hr)] at htool
      cases htool
  refine ⟨?_, ?_, ?_⟩
  · rw [← hcalls, ← List.append_assoc, ← show _ = closed ++ phase.calls from hx.calls,
      hpersisted, allCalls_append]
  · intro r hr htool
    apply hx.results r _ htool
    rcases List.mem_append.mp hr with hr | hr
    · exact List.mem_append_left _ (hqs r htool hr)
    · exact List.mem_append_right _ (hps r htool hr)
  · intro tc htc
    rw [hskipped] at htc
    obtain ⟨hclosed, hp, hl⟩ := hx.skips tc htc
    exact ⟨hclosed, fun r hr htool => hp r (hps r htool hr) htool,
      fun r hr htool => hl r (hqs r htool hr) htool⟩

/-- Dealing with the next call: at most its result is written, and if it is skipped
the transcript gets nothing and the history at most a refusal. -/
theorem Accounted.close {phase' : Phase} {t' : Tape} {tc : ToolCall}
    {tcs closed done : List ToolCall} (hx : Accounted (.owing (tc :: tcs), t) closed)
    (hids : (allCallIds (persisted t.log)).Nodup) {ps qs : List ChatMessage}
    {skips : List ToolCall} (hpersisted : persisted t'.log = persisted t.log ++ ps)
    (hpushed : pushed t'.log = pushed t.log ++ qs)
    (hskipped : skippedCalls t'.log = skippedCalls t.log ++ skips)
    (hresults : ∀ r ∈ qs ++ ps, ∃ content, r = toolResult tc content)
    (hskips : ∀ k ∈ skips, k = tc ∧ ps = [] ∧ ∀ r ∈ qs, r.content.toList.head? = some 'T')
    (hdone : tc :: done ++ phase'.calls = tc :: tcs) :
    Accounted (phase', t') (closed ++ tc :: done) := by
  -- ids do not repeat, so no result written so far is for `tc`
  have hfresh : ∀ tc' ∈ closed, tc'.id ≠ tc.id := by
    intro tc' htc' heq
    rw [allCallIds_eq, hx.calls, List.map_append, List.nodup_append] at hids
    exact hids.2.2 tc'.id (List.mem_map_of_mem htc') tc.id
      (List.mem_map_of_mem List.mem_cons_self) heq
  have hold : ∀ r ∈ pushed t.log ++ persisted t.log, r.isTool = true →
      r.toolCallId ≠ some tc.id := by
    intro r hr htool hid
    obtain ⟨tc', htc', hid'⟩ := hx.results r hr htool
    rw [hid'] at hid
    exact hfresh tc' htc' (Option.some.inj hid)
  have hnew : ∀ r ∈ qs ++ ps, r.toolCallId = some tc.id := by
    intro r hr
    obtain ⟨content, rfl⟩ := hresults r hr
    rfl
  have hnocalls : allCalls ps = [] := by
    rw [allCalls, List.flatMap_eq_nil_iff]
    intro r hr
    obtain ⟨content, rfl⟩ := hresults r (List.mem_append_right _ hr)
    rfl
  refine ⟨?_, ?_, ?_⟩
  · rw [List.append_assoc, hdone, hpersisted, allCalls_append, hnocalls, List.append_nil]
    exact hx.calls
  · intro r hr htool
    rw [hpersisted, hpushed] at hr
    have hsplit : r ∈ pushed t.log ++ persisted t.log ∨ r ∈ qs ++ ps := by
      simp only [List.mem_append] at hr ⊢
      tauto
    rcases hsplit with hr | hr
    · obtain ⟨tc', htc', hid⟩ := hx.results r hr htool
      exact ⟨tc', List.mem_append_left _ htc', hid⟩
    · exact ⟨tc, by simp, hnew r hr⟩
  · rw [hpersisted, hpushed, hskipped]
    intro tc' htc'
    rcases List.mem_append.mp htc' with htc' | htc'
    · -- skipped before: what is written now has another id
      obtain ⟨hclosed, hp, hl⟩ := hx.skips tc' htc'
      have hother : ∀ r ∈ qs ++ ps, r.toolCallId ≠ some tc'.id := by
        intro r hr hid
        rw [hnew r hr] at hid
        exact hfresh tc' hclosed (Option.some.inj hid).symm
      refine ⟨List.mem_append_left _ hclosed, ?_, ?_⟩
      · intro r hr htool
        rcases List.mem_append.mp hr with hr | hr
        · exact hp r hr htool
        · exact hother r (List.mem_append_right _ hr)
      · intro r hr htool hid
        rcases List.mem_append.mp hr with hr | hr
        · exact hl r hr htool hid
        · exact absurd hid (hother r (List.mem_append_left _ hr))
    · obtain ⟨rfl, rfl, hrefusal⟩ := hskips tc' htc'
      refine ⟨by simp, ?_, ?_⟩
      · intro r hr
        rw [List.append_nil] at hr
        exact hold r (List.mem_append_right _ hr)
      · intro r hr htool hid
        rcases List.mem_append.mp hr with hr | hr
        · exact absurd hid (hold r (List.mem_append_left _ hr) htool)
        · exact hrefusal r hr

/-- The ids of what was persisted before a step differ if those after it do. -/
theorem CallsAccounted.before {x : Phase × Tape} (hx : CallsAccounted x) {t' : Tape}
    {ps : List ChatMessage} (hpersisted : persisted t'.log = persisted x.2.log ++ ps)
    (hids : (allCallIds (persisted t'.log)).Nodup) :
    (allCallIds (persisted x.2.log)).Nodup ∧ ∃ closed, Accounted x closed := by
  have hbefore : (allCallIds (persisted x.2.log)).Nodup := by
    rw [hpersisted, allCallIds_append, List.nodup_append] at hids
    exact hids.1
  exact ⟨hbefore, hx hbefore⟩

/-- A tape stays accounted for when messages that are no results are written. -/
theorem CallsAccounted.entries {phase phase' : Phase} {t' : Tape}
    (hx : CallsAccounted (phase, t)) {ps qs : List ChatMessage}
    (hpersisted : persisted t'.log = persisted t.log ++ ps)
    (hpushed : pushed t'.log = pushed t.log ++ qs)
    (hskipped : skippedCalls t'.log = skippedCalls t.log)
    (hentries : ∀ m ∈ qs ++ ps, m.isTool = false)
    (hcalls : phase.calls ++ allCalls ps = phase'.calls) : CallsAccounted (phase', t') := by
  intro hids
  obtain ⟨-, closed, hacc⟩ := hx.before hpersisted hids
  exact ⟨closed, hacc.entries hpersisted hpushed hskipped hentries hcalls⟩

theorem callsAccounted_step (hrec : Recording O A) (hcompact : A.compactionConfig = none)
    {x y : Phase × Tape} (hx : CallsAccounted x) (h : AgentStep O A x y) :
    CallsAccounted y := by
  cases h with
  | @input t text saved hs =>
      rw [hrec.saved hs]
      exact hx.entries (persisted_record O.codec) (pushed_record O.codec)
        (skippedCalls_record O.codec) (by simp [plainMessage, ChatMessage.isTool]) rfl
  | @recalled t results m hm =>
      have hsame : persisted (t.push m).log = persisted t.log ++ [] := by
        rw [persisted_push, List.append_nil]
      apply hx.entries hsame pushed_push skippedCalls_push ?_ rfl
      simp [ChatMessage.isTool, (formatRecallContext_role hm).1]
  | @request t r hr =>
      have hsame : persisted (t.emit (.request r)).log = persisted t.log ++ [] := by
        simp [persisted, Tape.emit]
      have hpushed : pushed (t.emit (.request r)).log = pushed t.log ++ [] := by
        simp [pushed, Tape.emit]
      exact hx.entries hsame hpushed (by simp [skippedCalls, Tape.emit]) (by simp) rfl
  | summarize r hcfg =>
      rw [hcompact] at hcfg
      cases hcfg
  | compact history file hcfg =>
      rw [hcompact] at hcfg
      cases hcfg
  | @rewrite t history hshape =>
      have hsame : persisted (t.rewrite history).log = persisted t.log ++ [] := by
        simp [persisted, Tape.rewrite]
      have hpushed : pushed (t.rewrite history).log = pushed t.log ++ [] := by
        simp [pushed, Tape.rewrite]
      exact hx.entries hsame hpushed (by simp [skippedCalls, Tape.rewrite]) (by simp) rfl
  | @answer t content calls saved hs =>
      rw [hrec.saved hs]
      apply hx.entries (persisted_record O.codec) (pushed_record O.codec)
        (skippedCalls_record O.codec) (by simp [assistantMessage, ChatMessage.isTool])
      simp [allCalls, Phase.calls, ChatMessage.calls, assistantMessage]
  | @warn t tc tcs msg =>
      have hsame : persisted ((t.emit (.flagged tc .warning)).push (Live.loopWarning msg)).log =
          persisted t.log ++ [] := by
        simp [persisted, Tape.emit, Tape.push]
      have hpushed : pushed ((t.emit (.flagged tc .warning)).push (Live.loopWarning msg)).log =
          pushed t.log ++ [Live.loopWarning msg] := by
        simp [pushed, Tape.emit, Tape.push]
      apply hx.entries hsame hpushed
      · simp [skippedCalls, Tape.emit, Tape.push]
      · simp [Live.loopWarning, ChatMessage.isTool]
      · simp [allCalls]
  | @refuse t tc tcs decision content hcontent =>
      intro hids
      have hsame : persisted ((t.emit (.refused tc decision)).push
          (toolResult tc content)).log = persisted t.log ++ [] := by
        simp [persisted, Tape.emit, Tape.push]
      obtain ⟨hbefore, closed, hacc⟩ := hx.before hsame hids
      have hpushed : pushed ((t.emit (.refused tc decision)).push (toolResult tc content)).log =
          pushed t.log ++ [toolResult tc content] := by
        simp [pushed, Tape.emit, Tape.push]
      have hskipped : skippedCalls ((t.emit (.refused tc decision)).push
          (toolResult tc content)).log = skippedCalls t.log ++ [tc] := by
        simp [skippedCalls, Tape.emit, Tape.push]
      refine ⟨closed ++ [tc], hacc.close hbefore hsame hpushed hskipped ?_ ?_ rfl⟩
      · intro r hr
        exact ⟨content, by simpa using hr⟩
      · intro k hk
        refine ⟨by simpa using hk, rfl, ?_⟩
        intro r hr
        rw [List.mem_singleton.mp hr]
        exact hcontent
  | @execute t tc tcs content saved hs =>
      intro hids
      rw [hrec.saved hs] at hids ⊢
      obtain ⟨hbefore, closed, hacc⟩ := hx.before (persisted_record O.codec) hids
      have hskipped : skippedCalls (t.record O.codec true (toolResult tc content)).log =
          skippedCalls t.log ++ [] := by
        rw [skippedCalls_record, List.append_nil]
      refine ⟨closed ++ [tc], hacc.close hbefore (persisted_record O.codec)
        (pushed_record O.codec) hskipped ?_ (by simp) rfl⟩
      intro r hr
      exact ⟨content, by simpa using hr⟩
  | @abort t tc tcs =>
      intro hids
      have hsame : persisted (t.emit (.flagged tc .critical)).log = persisted t.log ++ [] := by
        simp [persisted, Tape.emit]
      obtain ⟨hbefore, closed, hacc⟩ := hx.before hsame hids
      have hpushed : pushed (t.emit (.flagged tc .critical)).log = pushed t.log ++ [] := by
        simp [pushed, Tape.emit]
      have hskipped : skippedCalls (t.emit (.flagged tc .critical)).log =
          skippedCalls t.log ++ [tc] := by
        simp [skippedCalls, Tape.emit]
      -- the calls behind `tc` are given up together with it
      refine ⟨closed ++ tc :: tcs, hacc.close hbefore hsame hpushed hskipped (by simp) ?_ ?_⟩
      · intro k hk
        exact ⟨by simpa using hk, rfl, by simp⟩
      · simp [Phase.calls]
  | next =>
      intro hids
      obtain ⟨closed, hacc⟩ := hx hids
      exact ⟨closed, hacc.calls, hacc.results, hacc.skips⟩
  | finish =>
      intro hids
      obtain ⟨closed, hacc⟩ := hx hids
      exact ⟨closed, hacc.calls, hacc.results, hacc.skips⟩

/-! ## §4  Calls and history -/

/-- The calls that were pushed are the calls that were persisted. -/
theorem allCalls_pushed_step (hrec : Recording O A) (hcompact : A.compactionConfig = none)
    {x y : Phase × Tape} (hx : allCalls (pushed x.2.log) = allCalls (persisted x.2.log))
    (h : AgentStep O A x y) : allCalls (pushed y.2.log) = allCalls (persisted y.2.log) := by
  have hrecord : ∀ {t : Tape} {m : ChatMessage},
      allCalls (pushed t.log) = allCalls (persisted t.log) →
      allCalls (pushed (t.record O.codec true m).log) =
        allCalls (persisted (t.record O.codec true m).log) := by
    intro t m ht
    rw [pushed_record, persisted_record, allCalls_append, allCalls_append, ht]
  have hpush : ∀ {t : Tape} {m : ChatMessage}, m.calls = [] →
      allCalls (pushed t.log) = allCalls (persisted t.log) →
      allCalls (pushed (t.push m).log) = allCalls (persisted (t.push m).log) := by
    intro t m hm ht
    rw [pushed_push, persisted_push, allCalls_append, ht]
    simp [allCalls, hm]
  cases h with
  | input text saved hs =>
      rw [hrec.saved hs]
      exact hrecord hx
  | recalled results m hm =>
      apply hpush _ hx
      simp [ChatMessage.calls, (formatRecallContext_role hm).1]
  | request r hr => simpa [pushed, persisted, Tape.emit] using hx
  | summarize r hcfg =>
      rw [hcompact] at hcfg
      cases hcfg
  | compact history file hcfg =>
      rw [hcompact] at hcfg
      cases hcfg
  | rewrite history hshape => simpa [pushed, persisted, Tape.rewrite] using hx
  | answer content calls saved hs =>
      rw [hrec.saved hs]
      exact hrecord hx
  | warn tc tcs msg =>
      apply hpush rfl
      simpa [pushed, persisted, Tape.emit] using hx
  | refuse tc tcs decision content _ =>
      apply hpush rfl
      simpa [pushed, persisted, Tape.emit] using hx
  | execute tc tcs content saved hs =>
      rw [hrec.saved hs]
      exact hrecord hx
  | abort tc tcs => simpa [pushed, persisted, Tape.emit] using hx
  | next => exact hx
  | finish => exact hx

/-- Without truncated texts the history is what it was and what was pushed since. -/
theorem history_step {start : List ChatMessage} (hcompact : A.compactionConfig = none)
    {x y : Phase × Tape}
    (hx : truncatedTexts x.2.log = false → x.2.history = start ++ pushed x.2.log)
    (h : AgentStep O A x y) :
    truncatedTexts y.2.log = false → y.2.history = start ++ pushed y.2.log := by
  have hpush : ∀ {t : Tape} {m : ChatMessage},
      (truncatedTexts t.log = false → t.history = start ++ pushed t.log) →
      truncatedTexts (t.push m).log = false →
        (t.push m).history = start ++ pushed (t.push m).log := by
    intro t m ht hlog
    rw [pushed_push, ← List.append_assoc, ← ht (by simpa [truncatedTexts, Tape.push] using hlog)]
    rfl
  have hrecord : ∀ {t : Tape} {m : ChatMessage} {saved : Bool},
      (truncatedTexts t.log = false → t.history = start ++ pushed t.log) →
      truncatedTexts (t.record O.codec saved m).log = false →
        (t.record O.codec saved m).history = start ++ pushed (t.record O.codec saved m).log := by
    intro t m saved ht
    cases saved with
    | false => exact hpush ht
    | true =>
        apply hpush
        simpa [truncatedTexts, pushed, Tape.persist] using ht
  cases h with
  | input text saved hs => exact hrecord hx
  | recalled results m hm => exact hpush hx
  | request r hr => simpa [truncatedTexts, pushed, Tape.emit] using hx
  | summarize r hcfg =>
      rw [hcompact] at hcfg
      cases hcfg
  | compact history file hcfg =>
      rw [hcompact] at hcfg
      cases hcfg
  | rewrite history hshape =>
      intro hlog
      simp [truncatedTexts, Tape.rewrite] at hlog
  | answer content calls saved hs => exact hrecord hx
  | warn tc tcs msg =>
      apply hpush
      simpa [truncatedTexts, pushed, Tape.emit] using hx
  | refuse tc tcs decision content _ =>
      apply hpush
      simpa [truncatedTexts, pushed, Tape.emit] using hx
  | execute tc tcs content saved hs => exact hrecord hx
  | abort tc tcs => simpa [truncatedTexts, pushed, Tape.emit] using hx
  | next => exact hx
  | finish => exact hx

end Oclaw.AgentCore
